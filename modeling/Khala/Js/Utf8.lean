import Khala.Js.Text

/-! Texts as UTF-8: encoding them, and decoding bytes one at a time with replacements for what is no
text. -/

namespace Js

/-- The bytes of one code point. An unpaired surrogate is encoded as U+FFFD. -/
def utf8Point : Text → List UInt8
  | [u] =>
    let n := u.toNat
    if n < 0x80 then [n.toUInt8]
    else if n < 0x800 then [(0xC0 + n / 64).toUInt8, (0x80 + n % 64).toUInt8]
    -- A lone surrogate becomes the replacement character.
    else if isSurrogate u then [0xEF, 0xBF, 0xBD]
    else [(0xE0 + n / 4096).toUInt8, (0x80 + n / 64 % 64).toUInt8, (0x80 + n % 64).toUInt8]
  -- A surrogate pair is one character of four bytes.
  | [u, v] =>
    let n := 0x10000 + (u.toNat - 0xD800) * 0x400 + (v.toNat - 0xDC00)
    [(0xF0 + n / 262144).toUInt8, (0x80 + n / 4096 % 64).toUInt8, (0x80 + n / 64 % 64).toUInt8,
      (0x80 + n % 64).toUInt8]
  | _ => []

def encodeUtf8 (text : Text) : List UInt8 := (codePoints text).flatMap utf8Point

/-- The units of a code point. -/
def unitsOf (point : Nat) : Text :=
  if point < 0x10000 then [point.toUInt16]
  else [(0xD800 + (point - 0x10000) / 0x400).toUInt16,
    (0xDC00 + (point - 0x10000) % 0x400).toUInt16]

/-- A decoder within a code point: how many bytes are still needed, the range of the next one, and
the bits so far. The decoder of the server keeps back bytes that only look like the beginning of one
(such as C0, F5 or E0 80) when a chunk ends with them; their replacement then comes with the next
chunk, in the same place of the text. -/
structure Utf8State where
  needed : Nat
  lower : Nat
  upper : Nat
  point : Nat
deriving DecidableEq

namespace Utf8State

/-- Between two code points. -/
def start : Utf8State := ⟨0, 0x80, 0xBF, 0⟩

/-- The first byte of a code point. -/
def lead (n : Nat) : Text × Utf8State :=
  if n < 0x80 then ([n.toUInt16], start)
  else if 0xC2 ≤ n ∧ n ≤ 0xDF then ([], ⟨1, 0x80, 0xBF, n - 0xC0⟩)
  else if 0xE0 ≤ n ∧ n ≤ 0xEF
    then ([], ⟨2, if n = 0xE0 then 0xA0 else 0x80, if n = 0xED then 0x9F else 0xBF, n - 0xE0⟩)
  else if 0xF0 ≤ n ∧ n ≤ 0xF4
    then ([], ⟨3, if n = 0xF0 then 0x90 else 0x80, if n = 0xF4 then 0x8F else 0xBF, n - 0xF0⟩)
  else ([0xFFFD], start)

/-- One byte. A byte that cannot go on starts anew, after a replacement for what was cut off. -/
def step (state : Utf8State) (n : Nat) : Text × Utf8State :=
  if state.needed = 0 then lead n
  else if state.lower ≤ n ∧ n ≤ state.upper then
    let point := state.point * 64 + (n - 0x80)
    if state.needed = 1 then (unitsOf point, start) else ([], ⟨state.needed - 1, 0x80, 0xBF, point⟩)
  else (0xFFFD :: (lead n).1, (lead n).2)

def run (state : Utf8State) : List UInt8 → Text × Utf8State
  | [] => ([], state)
  | byte :: rest =>
    let now := state.step byte.toNat
    let later := run now.2 rest
    (now.1 ++ later.1, later.2)

/-- What is left at the end of the bytes. -/
def flush (state : Utf8State) : Text := if state.needed = 0 then [] else [0xFFFD]

end Utf8State

/-- `buffer.toString('utf8')`. -/
def decodeUtf8 (bytes : List UInt8) : Text :=
  let decoded := Utf8State.start.run bytes
  decoded.1 ++ decoded.2.flush

namespace Utf8State

/-- Decoding bytes in two goes on where the first part ended. -/
theorem run_append (state : Utf8State) (one two : List UInt8) :
    state.run (one ++ two) = ((state.run one).1 ++ ((state.run one).2.run two).1,
      ((state.run one).2.run two).2) := by
  induction one generalizing state with
  | nil => rfl
  | cons byte rest ih => simp only [List.cons_append, run, ih, List.append_assoc]

/-- An ASCII byte ends whatever code point was begun. -/
theorem step_ascii (state : Utf8State) {n : Nat} (ascii : n < 0x80) (lower : 0x80 ≤ state.lower) :
    state.step n = (state.flush ++ [n.toUInt16], start) := by
  unfold step flush
  have begun : lead n = ([n.toUInt16], start) := if_pos ascii
  split
  · rw [begun]
    rfl
  · rw [if_neg (by omega), begun]
    rfl

/-- No state expects an ASCII byte. -/
theorem lower_run {state : Utf8State} (lower : 0x80 ≤ state.lower) (bytes : List UInt8) :
    0x80 ≤ (state.run bytes).2.lower := by
  -- A lead byte allows no continuation below the least one.
  have begun : ∀ n, 0x80 ≤ (lead n).2.lower := by
    intro n
    unfold lead start
    split
    · exact le_rfl
    · split
      · exact le_rfl
      · split
        · dsimp only
          split <;> omega
        · split
          · dsimp only
            split <;> omega
          · exact le_rfl
  induction bytes generalizing state with
  | nil => exact lower
  | cons byte rest ih =>
    -- So each byte leaves a state with this bound.
    apply ih
    unfold step
    split
    · exact begun _
    · split
      · dsimp only
        -- Within a sequence the next bound is the least one again.
        split <;> exact le_rfl
      · exact begun _

end Utf8State

/-- What comes before an ASCII byte is decoded on its own. -/
theorem decodeUtf8_append_ascii (before after : List UInt8) {byte : UInt8}
    (ascii : byte.toNat < 0x80) :
    decodeUtf8 (before ++ byte :: after) = decodeUtf8 before ++ byte.toNat.toUInt16
      :: decodeUtf8 after := by
  have lower := Utf8State.lower_run (le_refl Utf8State.start.lower) before
  unfold decodeUtf8
  rw [Utf8State.run_append]
  simp only [Utf8State.run, Utf8State.step_ascii _ ascii lower, List.append_assoc,
    List.cons_append, List.nil_append]

/-! ## Encoding and decoding again -/

/-- Texts in which every surrogate is half of a pair. -/
inductive Paired : Text → Prop
  | nil : Paired []
  | unit {u : CodeUnit} {rest : Text} (single : isSurrogate u = false) (others : Paired rest) :
  Paired (u :: rest)
  | pair {u v : CodeUnit} {rest : Text} (high : 0xD800 ≤ u ∧ u ≤ 0xDBFF)
    (low : 0xDC00 ≤ v ∧ v ≤ 0xDFFF)
      (others : Paired rest) : Paired (u :: v :: rest)

/-- Paired texts are paired together. -/
theorem Paired.append {one two : Text} (first : Paired one) (second : Paired two) :
    Paired (one ++ two) := by
  induction first with
  | nil => exact second
  | unit single others ih => exact .unit single ih
  | pair high low others ih => exact .pair high low ih

/-- A text without surrogates is paired. -/
theorem Paired.of_units {text : Text} (units : ∀ u ∈ text, isSurrogate u = false) :
    Paired text := by
  induction text with
  | nil => exact .nil
  | cons u rest ih => exact .unit (units u List.mem_cons_self) (ih fun v inside => units v (List.mem_cons_of_mem _ inside))

namespace Utf8State

/-- What leads two bytes. -/
private theorem lead_two {n : Nat} (range : 0xC2 ≤ n ∧ n ≤ 0xDF) :
    lead n = ([], ⟨1, 0x80, 0xBF, n - 0xC0⟩) := by
  unfold lead
  rw [if_neg (by omega), if_pos range]

/-- What leads three bytes. -/
private theorem lead_three {n : Nat} (range : 0xE0 ≤ n ∧ n ≤ 0xEF) :
    lead n = ([], ⟨2, if n = 0xE0 then 0xA0 else 0x80, if n = 0xED then 0x9F else 0xBF,
      n - 0xE0⟩) := by
  unfold lead
  rw [if_neg (by omega), if_neg (by omega), if_pos range]

/-- What leads four bytes. -/
private theorem lead_four {n : Nat} (range : 0xF0 ≤ n ∧ n ≤ 0xF4) :
    lead n = ([], ⟨3, if n = 0xF0 then 0x90 else 0x80, if n = 0xF4 then 0x8F else 0xBF,
      n - 0xF0⟩) := by
  unfold lead
  rw [if_neg (by omega), if_neg (by omega), if_neg (by omega), if_pos range]

/-- A byte that continues, with more to come. -/
private theorem step_more {needed lower upper point n : Nat} (range : lower ≤ n ∧ n ≤ upper) :
    step ⟨needed + 2, lower, upper, point⟩ n
      = ([], ⟨needed + 1, 0x80, 0xBF, point * 64 + (n - 0x80)⟩) := by
  unfold step
  rw [if_neg (by simp), if_pos range]
  exact if_neg (by simp)

/-- A byte that continues, and is the last. -/
private theorem step_last {lower upper point n : Nat} (range : lower ≤ n ∧ n ≤ upper) :
    step ⟨1, lower, upper, point⟩ n = (unitsOf (point * 64 + (n - 0x80)), start) := by
  unfold step
  rw [if_neg (by simp), if_pos range]
  exact if_pos rfl

end Utf8State

/-- A small number is that of its byte. -/
private theorem toNat_byte {n : Nat} (small : n < 256) : n.toUInt8.toNat = n :=
  Nat.mod_eq_of_lt small

/-- The bytes of one unit are decoded to it. -/
theorem run_utf8Point {u : CodeUnit} (single : isSurrogate u = false) :
    Utf8State.start.run (utf8Point [u]) = ([u], .start) := by
  have bound := u.toNat_lt
  have back : unitsOf u.toNat = [u] := by
    unfold unitsOf
    rw [if_pos (by omega)]
    simp
  have outside : u.toNat < 0xD800 ∨ 0xDFFF < u.toNat := by
    simp only [isSurrogate, Bool.and_eq_false_iff, decide_eq_false_iff_not, UInt16.not_le] at single
    rcases single with low | high
    · exact .inl low
    · exact .inr high
  generalize size : u.toNat = n at *
  unfold utf8Point
  simp only [size]
  by_cases one : n < 0x80
  · rw [if_pos one]
    simp only [Utf8State.run]
    rw [toNat_byte (by omega)]
    have begun : Utf8State.lead n = ([n.toUInt16], .start) := if_pos one
    have unit : n.toUInt16 = u := by rw [← size]; simp
    rw [show Utf8State.start.step n = Utf8State.lead n from rfl, begun, unit]
    rfl
  · rw [if_neg one]
    by_cases two : n < 0x800
    · rw [if_pos two]
      simp only [Utf8State.run]
      rw [toNat_byte (by omega), toNat_byte (by omega),
        show Utf8State.start.step (0xC0 + n / 64) = Utf8State.lead (0xC0 + n / 64) from rfl,
        Utf8State.lead_two (by omega), Utf8State.step_last (by omega)]
      have sum : (0xC0 + n / 64 - 0xC0) * 64 + (0x80 + n % 64 - 0x80) = n := by omega
      rw [sum, back]
      rfl
    · rw [if_neg two, single]
      simp only [Bool.false_eq_true, if_false, Utf8State.run]
      rw [toNat_byte (by omega), toNat_byte (by omega), toNat_byte (by omega),
        show Utf8State.start.step (0xE0 + n / 4096) = Utf8State.lead (0xE0 + n / 4096) from rfl,
        Utf8State.lead_three (by omega)]
      -- The first byte narrows the range of the second: nothing overlong, and no surrogates.
      have range : (if 0xE0 + n / 4096 = 0xE0 then 0xA0 else 0x80) ≤ 0x80 + n / 64 % 64
          ∧ 0x80 + n / 64 % 64 ≤ if 0xE0 + n / 4096 = 0xED then 0x9F else 0xBF := by
        constructor
        · split <;> omega
        · split <;> omega
      rw [Utf8State.step_more range, Utf8State.step_last (by omega)]
      have sum : ((0xE0 + n / 4096 - 0xE0) * 64 + (0x80 + n / 64 % 64 - 0x80)) * 64 +
        (0x80 + n % 64 - 0x80) = n := by omega
      rw [sum, back]
      rfl

/-- The bytes of a pair are decoded to it. -/
theorem run_utf8Point_pair {u v : CodeUnit} (high : 0xD800 ≤ u ∧ u ≤ 0xDBFF)
    (low : 0xDC00 ≤ v ∧ v ≤ 0xDFFF) :
    Utf8State.start.run (utf8Point [u, v]) = ([u, v], .start) := by
  -- The code point of the pair has four bytes.
  obtain ⟨n, point, first, second⟩ :
    ∃ n, n = 0x10000 + (u.toNat - 0xD800) * 0x400 + (v.toNat - 0xDC00)
      ∧ (0xD800 ≤ u.toNat ∧ u.toNat ≤ 0xDBFF) ∧ 0xDC00 ≤ v.toNat ∧ v.toNat ≤ 0xDFFF := by
    simp only [UInt16.le_iff_toNat_le] at high low
    exact ⟨_, rfl, high, low⟩
  -- Its two units are found again from it.
  have back : unitsOf n = [u, v] := by
    unfold unitsOf
    rw [if_neg (by omega)]
    have one : 0xD800 + (n - 0x10000) / 0x400 = u.toNat := by omega
    have two : 0xDC00 + (n - 0x10000) % 0x400 = v.toNat := by omega
    rw [one, two]
    simp
  simp only [utf8Point, ← point, Utf8State.run]
  rw [toNat_byte (by omega), toNat_byte (by omega), toNat_byte (by omega), toNat_byte (by omega),
    show Utf8State.start.step (0xF0 + n / 262144) = Utf8State.lead (0xF0 + n / 262144) from rfl,
    Utf8State.lead_four (by omega)]
  -- The second byte is within what the first one allows.
  have range : (if 0xF0 + n / 262144 = 0xF0 then 0x90 else 0x80) ≤ 0x80 + n / 4096 % 64
      ∧ 0x80 + n / 4096 % 64 ≤ if 0xF0 + n / 262144 = 0xF4 then 0x8F else 0xBF := by
    constructor
    · split <;> omega
    · split <;> omega
  -- Each of the bytes then goes on with the sequence, and the last one ends it.
  rw [Utf8State.step_more range, Utf8State.step_more (by omega), Utf8State.step_last (by omega)]
  have sum : (((0xF0 + n / 262144 - 0xF0) * 64 + (0x80 + n / 4096 % 64 - 0x80)) * 64 +
    (0x80 + n / 64 % 64 - 0x80)) * 64
      + (0x80 + n % 64 - 0x80) = n := by omega
  rw [sum, back]
  rfl

/-- A unit that is no surrogate is a code point of its own. -/
theorem codePoints_cons {u : CodeUnit} (single : isSurrogate u = false) (rest : Text) :
    codePoints (u :: rest) = [u] :: codePoints rest := by
  cases rest with
  | nil => rfl
  | cons v others =>
    rw [codePoints, if_neg]
    rintro ⟨low, high, -⟩
    have inside : isSurrogate u = true := by
      simp only [isSurrogate, Bool.and_eq_true, decide_eq_true_eq]
      exact ⟨low, UInt16.le_trans high (by decide)⟩
    rw [inside] at single
    cases single

/-- A text without unpaired surrogates comes back from its bytes. -/
theorem run_encodeUtf8 {text : Text} (paired : Paired text) :
    Utf8State.start.run (encodeUtf8 text) = (text, .start) := by
  induction paired with
  | nil => rfl
  | unit single others ih =>
    rw [encodeUtf8, codePoints_cons single, List.flatMap_cons, Utf8State.run_append,
      run_utf8Point single]
    rw [encodeUtf8] at ih
    simp only [ih, List.singleton_append]
  | pair high low others ih =>
    rw [encodeUtf8, codePoints, if_pos ⟨high.1, high.2, low.1, low.2⟩, List.flatMap_cons,
      Utf8State.run_append,
      run_utf8Point_pair high low]
    rw [encodeUtf8] at ih
    simp only [ih, List.cons_append, List.nil_append]

/-- Paired text that is encoded is decoded. -/
theorem decodeUtf8_encodeUtf8 {text : Text} (paired : Paired text) :
    decodeUtf8 (encodeUtf8 text) = text := by
  unfold decodeUtf8
  rw [run_encodeUtf8 paired]
  exact List.append_nil text

end Js
