import Khala.Contracts.Decode
import Khala.Contracts.LocalEvent

/-! Bytes written in base64url without padding, and the check that a text is such a writing. -/

namespace Khala

open Js Decode Local

/-- RFC 4648 URL-safe alphabet. -/
def base64Alphabet : Text := lit "ABCDEFGHIJKLMNOPQRSTUVWXYZabcdefghijklmnopqrstuvwxyz0123456789-_"

/-- `alphabet[n & 63]`. -/
def base64Symbol (n : Nat) : CodeUnit := base64Alphabet.getD (n &&& 63) 0

/-- Up to three bytes as one number; a missing byte counts as zero. -/
def base64Group (first second third : UInt8) : Nat :=
  first.toNat <<< 16 ||| second.toNat <<< 8 ||| third.toNat

def base64url : List UInt8 → Text
  | [] => []
  -- One byte is left: two symbols, of which the second has four unused bits.
  | [first] =>
    let n := base64Group first 0 0
    [base64Symbol (n >>> 18), base64Symbol (n >>> 12)]
  -- Two bytes are left: three symbols, of which the last has two unused bits.
  | [first, second] =>
    let n := base64Group first second 0
    [base64Symbol (n >>> 18), base64Symbol (n >>> 12), base64Symbol (n >>> 6)]
  | first :: second :: third :: rest =>
    let n := base64Group first second third
    base64Symbol (n >>> 18) :: base64Symbol (n >>> 12) :: base64Symbol (n >>> 6) :: base64Symbol n
      :: base64url rest

/-- The number of bytes is read off the length of the text, and the bits of its last unit that
belong to no byte must be zero. -/
def readBase64Url (input : Json) (path : Text) (minBytes maxBytes : Nat) : Decoded Text :=
  match input with
  | .string input =>
    -- No number of bytes is written in such a length.
    if !(!input.isEmpty && input.all isBase64Unit) || input.length % 4 = 1
      then fail path .invalid_value
    else
      let byteLength := input.length * 6 / 8
      -- The number of bytes follows from the length.
      if byteLength < minBytes ∨ byteLength > maxBytes
        then fail path (if byteLength > maxBytes then .too_long else .invalid_value)
      else
        let unusedBits := input.length * 6 % 8
        let last := base64Alphabet.idxOf (input.getLast?.getD 0)
        -- What the last symbol has over must be zero, so that there is one spelling only.
        if unusedBits > 0 ∧ last &&& (1 <<< unusedBits - 1) ≠ 0 then fail path .invalid_value
        else .ok input
  | _ => fail path .wrong_type

/-! ## Groups of six bits -/

/-- The groups of six bits that bytes are cut into; a last group is filled up with zeros. -/
def sixes : List UInt8 → List Nat
  | [] => []
  | [first] => [first.toNat / 4, first.toNat % 4 * 16]
  | [first, second] =>
    [first.toNat / 4, first.toNat % 4 * 16 + second.toNat / 16, second.toNat % 16 * 4]
  | first :: second :: third :: rest =>
    first.toNat / 4 :: (first.toNat % 4 * 16 + second.toNat / 16) ::
      (second.toNat % 16 * 4 + third.toNat / 64) :: third.toNat % 64 :: sixes rest

/-- The bytes that whole groups of six bits make up. -/
def bytesOfSixes : List Nat → List UInt8
  | p :: q :: r :: s :: rest =>
    .ofNat (p * 4 + q / 16) :: .ofNat (q % 16 * 16 + r / 4) :: .ofNat (r % 4 * 64 + s)
    :: bytesOfSixes rest
  | [p, q, r] => [.ofNat (p * 4 + q / 16), .ofNat (q % 16 * 16 + r / 4)]
  | [p, q] => [.ofNat (p * 4 + q / 16)]
  | _ => []

/-- Groups that bytes can be cut into: no single one is left, and what fills up the last is zero. -/
def Filled : List Nat → Prop
  | _ :: _ :: _ :: _ :: rest => Filled rest
  | [_, _, r] => r % 4 = 0
  | [_, q] => q % 16 = 0
  | [_] => False
  | [] => True

/-- A six has six bits. -/
theorem sixes_lt (bytes : List UInt8) : ∀ six ∈ sixes bytes, six < 64 := by
  -- Three bytes give four numbers; one or two bytes left over give two or three.
  fun_induction sixes bytes with
  | case1 => simp
  | case2 first =>
    have := first.toNat_lt
    simp only [List.forall_mem_cons, List.not_mem_nil, false_implies, implies_true, and_true]
    omega
  | case3 first second =>
    have := first.toNat_lt
    have := second.toNat_lt
    simp only [List.forall_mem_cons, List.not_mem_nil, false_implies, implies_true, and_true]
    omega
  | case4 first second third rest ih =>
    have := first.toNat_lt
    have := second.toNat_lt
    have := third.toNat_lt
    simp only [List.forall_mem_cons]
    exact ⟨by omega, by omega, by omega, by omega, ih⟩

/-- The sixes of bytes leave no bit over. -/
theorem filled_sixes (bytes : List UInt8) : Filled (sixes bytes) := by
  fun_induction sixes bytes with
  | case1 => trivial
  | case2 first => exact Nat.mul_mod_left _ _
  | case3 first second => exact Nat.mul_mod_left _ _
  | case4 first second third rest ih => exact ih

/-- Six bits for each group make eight for each byte, and less than eight are left over. -/
theorem length_sixes (bytes : List UInt8) : (sixes bytes).length * 6 / 8 = bytes.length := by
  fun_induction sixes bytes with
  | case1 => rfl
  | case2 first => simp
  | case3 first second => simp
  | case4 first second third rest ih =>
    simp only [List.length_cons]
    omega

/-- Bytes are read back from their groups. -/
theorem bytesOfSixes_sixes (bytes : List UInt8) : bytesOfSixes (sixes bytes) = bytes := by
  -- Each byte is put together from the bits that its numbers have of it.
  have byte : ∀ {n : Nat} {unit : UInt8}, n = unit.toNat → UInt8.ofNat n = unit :=
    fun same => by rw [same, UInt8.ofNat_toNat]
  fun_induction sixes bytes with
  | case1 => rfl
  | case2 first =>
    have := first.toNat_lt
    simp only [bytesOfSixes]
    rw [byte (show first.toNat / 4 * 4 + first.toNat % 4 * 16 / 16 = first.toNat by omega)]
  | case3 first second =>
    have := first.toNat_lt
    have := second.toNat_lt
    simp only [bytesOfSixes]
    rw [byte (show first.toNat / 4 * 4 + (first.toNat % 4 * 16 + second.toNat / 16) / 16
      = first.toNat by omega),
      byte (show (first.toNat % 4 * 16 + second.toNat / 16) % 16 * 16 + second.toNat % 16 * 4 / 4
        = second.toNat by omega)]
  | case4 first second third rest ih =>
    have := first.toNat_lt
    have := second.toNat_lt
    have := third.toNat_lt
    simp only [bytesOfSixes]
    rw [ih, byte (show first.toNat / 4 * 4 + (first.toNat % 4 * 16 + second.toNat / 16) / 16
      = first.toNat by omega),
      byte (show (first.toNat % 4 * 16 + second.toNat / 16) % 16 * 16 +
        (second.toNat % 16 * 4 + third.toNat / 64) / 4 = second.toNat by omega),
      byte (show (second.toNat % 16 * 4 + third.toNat / 64) % 4 * 64 + third.toNat % 64
        = third.toNat by omega)]

/-- Groups that are filled up with zeros are the groups of the bytes that they make up. -/
theorem sixes_bytesOfSixes {groups : List Nat} (small : ∀ six ∈ groups, six < 64)
    (filled : Filled groups) : sixes (bytesOfSixes groups) = groups := by
  -- By induction on the groups, four at a time.
  fun_induction bytesOfSixes groups with
  | case1 p q r s rest ih =>
    simp only [List.forall_mem_cons] at small
    obtain ⟨p_, q_, r_, s_, rest_⟩ := small
    simp only [sixes, UInt8.toNat_ofNat']
    rw [ih rest_ filled, show (p * 4 + q / 16) % 2 ^ 8 / 4 = p by omega,
      show (p * 4 + q / 16) % 2 ^ 8 % 4 * 16 + (q % 16 * 16 + r / 4) % 2 ^ 8 / 16 = q by omega,
      show (q % 16 * 16 + r / 4) % 2 ^ 8 % 16 * 4 + (r % 4 * 64 + s) % 2 ^ 8 / 64 = r by omega,
      show (r % 4 * 64 + s) % 2 ^ 8 % 64 = s by omega]
  | case2 p q r =>
    simp only [List.forall_mem_cons] at small
    obtain ⟨p_, q_, r_, -⟩ := small
    simp only [Filled] at filled
    simp only [sixes, UInt8.toNat_ofNat']
    rw [show (p * 4 + q / 16) % 2 ^ 8 / 4 = p by omega,
      show (p * 4 + q / 16) % 2 ^ 8 % 4 * 16 + (q % 16 * 16 + r / 4) % 2 ^ 8 / 16 = q by omega,
      show (q % 16 * 16 + r / 4) % 2 ^ 8 % 16 * 4 = r by omega]
  | case3 p q =>
    simp only [List.forall_mem_cons] at small
    obtain ⟨p_, q_, -⟩ := small
    simp only [Filled] at filled
    simp only [sixes, UInt8.toNat_ofNat']
    rw [show (p * 4 + q / 16) % 2 ^ 8 / 4 = p by omega,
      show (p * 4 + q / 16) % 2 ^ 8 % 4 * 16 = q by omega]
  | case4 groups four three two =>
    match groups with
    | [] => rfl
    | [_] => exact filled.elim
    | [p, q] => exact absurd rfl (two p q)
    | [p, q, r] => exact absurd rfl (three p q r)
    | p :: q :: r :: s :: rest => exact absurd rfl (four p q r s rest)

/-! ## The alphabet -/

/-- A group is its three bytes, one behind another. -/
theorem base64Group_eq (first second third : UInt8) :
    base64Group first second third = first.toNat * 65536 + second.toNat * 256 + third.toNat := by
  -- No two bytes share a bit.
  have := third.toNat_lt
  have low : (first.toNat * 256 + second.toNat) <<< 8 ||| third.toNat
    = (first.toNat * 256 + second.toNat) <<< 8 + third.toNat :=
    (Nat.shiftLeft_add_eq_or_of_lt third.toNat_lt _).symm
  have := second.toNat_lt
  have high : first.toNat <<< 16 ||| second.toNat <<< 8 = first.toNat <<< 16 + second.toNat <<< 8 :=
    (Nat.shiftLeft_add_eq_or_of_lt (by rw [Nat.shiftLeft_eq]; omega) _).symm
  have both :
    first.toNat <<< 16 + second.toNat <<< 8 = (first.toNat * 256 + second.toNat) <<< 8 := by
    simp only [Nat.shiftLeft_eq]
    omega
  rw [base64Group, high, both, low, Nat.shiftLeft_eq]
  omega

/-- The unit that stands for six bits. -/
def unitOf (six : Nat) : CodeUnit := base64Alphabet.getD six 0

/-- A symbol is that of the last six bits. -/
theorem base64Symbol_eq (n : Nat) : base64Symbol n = unitOf (n % 64) := by
  rw [base64Symbol, unitOf, show (63 : Nat) = 2 ^ 6 - 1 from rfl, Nat.and_two_pow_sub_one_eq_mod]

/-- The text has one unit for each group of six bits. -/
theorem base64url_eq (bytes : List UInt8) : base64url bytes = (sixes bytes).map unitOf := by
  -- The shifts and masks of the encoder are the divisions and remainders of the numbers.
  fun_induction sixes bytes with
  | case1 => rfl
  -- One byte is left: two numbers, the second filled up with zero bits.
  | case2 first =>
    have := first.toNat_lt
    simp only [base64url, base64Symbol_eq, base64Group_eq, Nat.shiftRight_eq_div_pow,
      List.map_cons, List.map_nil, UInt8.toNat_zero]
    rw [show (first.toNat * 65536 + 0 * 256 + 0) / 2 ^ 18 % 64 = first.toNat / 4 by omega,
      show (first.toNat * 65536 + 0 * 256 + 0) / 2 ^ 12 % 64 = first.toNat % 4 * 16 by omega]
  -- Two bytes are left: three numbers.
  | case3 first second =>
    have := first.toNat_lt
    have := second.toNat_lt
    simp only [base64url, base64Symbol_eq, base64Group_eq, Nat.shiftRight_eq_div_pow,
      List.map_cons, List.map_nil, UInt8.toNat_zero]
    rw [show (first.toNat * 65536 + second.toNat * 256 + 0) / 2 ^ 18 % 64
      = first.toNat / 4 by omega,
      show (first.toNat * 65536 + second.toNat * 256 + 0) / 2 ^ 12 % 64
        = first.toNat % 4 * 16 + second.toNat / 16 by omega,
      show (first.toNat * 65536 + second.toNat * 256 + 0) / 2 ^ 6 % 64
        = second.toNat % 16 * 4 by omega]
  -- Three bytes give four numbers, and the rest follows.
  | case4 first second last rest ih =>
    have := first.toNat_lt
    have := second.toNat_lt
    have := last.toNat_lt
    simp only [base64url, base64Symbol_eq, base64Group_eq, Nat.shiftRight_eq_div_pow,
      List.map_cons, ih]
    rw [show (first.toNat * 65536 + second.toNat * 256 + last.toNat) / 2 ^ 18 % 64
      = first.toNat / 4 by omega,
      show (first.toNat * 65536 + second.toNat * 256 + last.toNat) / 2 ^ 12 % 64
        = first.toNat % 4 * 16 + second.toNat / 16 by omega,
      show (first.toNat * 65536 + second.toNat * 256 + last.toNat) / 2 ^ 6 % 64
        = second.toNat % 16 * 4 + last.toNat / 64 by omega,
      show (first.toNat * 65536 + second.toNat * 256 + last.toNat) % 64 = last.toNat % 64 by omega]

/-- Each of the sixty-four units is found at its own place. -/
theorem idxOf_unitOf {six : Nat} (small : six < 64) :
    base64Alphabet.idxOf (unitOf six) = six ∧ isBase64Unit (unitOf six) = true := by
  have each : ∀ six < 64, base64Alphabet.idxOf (unitOf six) = six
    ∧ isBase64Unit (unitOf six) = true := by decide +kernel
  exact each six small

/-- And there are no others. -/
theorem unitOf_idxOf {unit : CodeUnit} (allowed : isBase64Unit unit = true) :
    base64Alphabet.idxOf unit < 64 ∧ unitOf (base64Alphabet.idxOf unit) = unit := by
  -- The alphabet is short enough to be looked through.
  have each : ∀ n < 128, isBase64Unit (UInt16.ofNat n) = true →
      base64Alphabet.idxOf (UInt16.ofNat n) < 64
        ∧ unitOf (base64Alphabet.idxOf (UInt16.ofNat n)) = UInt16.ofNat n := by decide +kernel
  have small : unit.toNat < 128 := by
    simp only [isBase64Unit, Bool.or_eq_true, Bool.and_eq_true, decide_eq_true_eq, beq_iff_eq,
      UInt16.le_iff_toNat_le] at allowed
    rcases allowed with (((⟨-, le⟩ | ⟨-, le⟩) | ⟨-, le⟩) | rfl) | rfl
    · exact Nat.lt_of_le_of_lt le (by decide)
    · exact Nat.lt_of_le_of_lt le (by decide)
    · exact Nat.lt_of_le_of_lt le (by decide)
    · decide
    · decide
  have own := each unit.toNat small
  rw [UInt16.ofNat_toNat] at own
  exact own allowed

/-! ## What is accepted -/

/-- The check of the length and of the last unit is that the groups are filled up with zeros. -/
theorem filled_iff (groups : List Nat) : Filled groups ↔ groups.length % 4 ≠ 1
    ∧ ¬ (groups.length * 6 % 8 > 0
      ∧ groups.getLast?.getD 0 &&& (1 <<< (groups.length * 6 % 8) - 1) ≠ 0) := by
  have two : ∀ n : Nat, n &&& 3 = n % 4 := fun n => Nat.and_two_pow_sub_one_eq_mod n 2
  have four : ∀ n : Nat, n &&& 15 = n % 16 := fun n => Nat.and_two_pow_sub_one_eq_mod n 4
  -- Four groups are three bytes and leave nothing over, so only the groups after them count.
  induction groups using Filled.induct with
  | case1 p q r s rest ih =>
    have length : (p :: q :: r :: s :: rest).length = rest.length + 4 := rfl
    have whole : (rest.length + 4) * 6 % 8 = rest.length * 6 % 8 := by omega
    refine Iff.trans Iff.rfl (ih.trans ?_)
    cases rest with
    | nil => simp
    | cons t rest =>
      have last :
        (p :: q :: r :: s :: t :: rest).getLast? = (t :: rest).getLast? := by
        simp [List.getLast?_cons]
      rw [length, whole, last, Nat.add_mod_right]
  | case2 p q r => simp [Filled, two]
  | case3 p q => simp [Filled, four]
  | case4 p => simp [Filled]
  | case5 => simp [Filled]

/-- What the check accepts. -/
theorem readBase64Url_eq_ok {input : Json} {path : Text} {minBytes maxBytes : Nat} {text : Text} :
    readBase64Url input path minBytes maxBytes = .ok text ↔ input = .string text ∧ text ≠ []
      ∧ text.all isBase64Unit = true
      ∧ Filled (text.map base64Alphabet.idxOf) ∧ minBytes ≤ text.length * 6 / 8
      ∧ text.length * 6 / 8 ≤ maxBytes := by
  -- The last unit of the text is the last of its numbers.
  have last : ∀ text : Text, text ≠ [] → (text.map base64Alphabet.idxOf).getLast?.getD 0
    = base64Alphabet.idxOf (text.getLast?.getD 0) := by
    intro text some_
    rw [List.getLast?_map, List.getLast?_eq_some_getLast some_]
    rfl
  cases input with
  | string given =>
    -- The shape fails on the empty text, on a foreign unit, and on a length of one too many.
    have shaped :
      ¬ (!(!given.isEmpty && given.all isBase64Unit) || decide (given.length % 4 = 1)) = true
        ↔ given ≠ [] ∧ given.all isBase64Unit = true ∧ given.length % 4 ≠ 1 := by
      cases given with
      | nil => simp
      | cons unit rest => cases (unit :: rest).all isBase64Unit <;> simp
    simp only [readBase64Url, filled_iff, List.length_map, Json.string.injEq]
    constructor
    -- The three checks are made in this order, and each gives one of the conditions.
    · intro read
      split at read
      · cases read
      · rename_i shape
        split at read
        · cases read
        · rename_i bounds
          split at read
          · cases read
          · rename_i unused
            obtain rfl := Except.ok.inj read
            obtain ⟨some_, units, classes⟩ := shaped.mp shape
            rw [last given some_]
            exact ⟨rfl, some_, units, ⟨classes, unused⟩, by omega, by omega⟩
    · rintro ⟨rfl, some_, units, ⟨classes, unused⟩, least, most⟩
      rw [last given some_] at unused
      rw [if_neg (shaped.mpr ⟨some_, units, classes⟩), if_neg (by omega), if_neg unused]
  | null => simp [readBase64Url, fail]
  | bool value => simp [readBase64Url, fail]
  | number value => simp [readBase64Url, fail]
  | array items => simp [readBase64Url, fail]
  | object members => simp [readBase64Url, fail]

/-- With at least one byte asked for, the check accepts exactly the writings of bytes within the
bounds, and each text is the writing of one byte string at most. -/
theorem base64url_canonical {minBytes maxBytes : Nat} (positive : 1 ≤ minBytes) (path : Text) :
    (∀ bytes : List UInt8, minBytes ≤ bytes.length → bytes.length ≤ maxBytes →
        readBase64Url (.string (base64url bytes)) path minBytes maxBytes = .ok (base64url bytes))
      ∧ Function.Injective base64url
      ∧ ∀ input : Json, (∃ text, readBase64Url input path minBytes maxBytes = .ok text) ↔
        ∃ bytes : List UInt8, minBytes ≤ bytes.length ∧ bytes.length ≤ maxBytes
          ∧ input = .string (base64url bytes) := by
  have back : ∀ bytes, (base64url bytes).map base64Alphabet.idxOf = sixes bytes := by
    intro bytes
    rw [base64url_eq, List.map_map]
    refine (List.map_congr_left fun six inside => ?_).trans (List.map_id _)
    exact (idxOf_unitOf (sixes_lt bytes six inside)).1
  have accepted : ∀ bytes : List UInt8, minBytes ≤ bytes.length → bytes.length ≤ maxBytes →
      readBase64Url (.string (base64url bytes)) path minBytes maxBytes = .ok (base64url bytes) := by
    intro bytes least most
    have length :
      (base64url bytes).length * 6 / 8
      = bytes.length := by rw [base64url_eq, List.length_map, length_sixes]
    refine readBase64Url_eq_ok.mpr ⟨rfl, ?_, ?_,
      back bytes ▸ filled_sixes bytes, by omega, by omega⟩
    · intro empty
      rw [empty] at length
      simp only [List.length_nil] at length
      omega
    · rw [base64url_eq, List.all_map]
      exact List.all_eq_true.mpr fun six inside => (idxOf_unitOf (sixes_lt bytes six inside)).2
  refine ⟨accepted, fun bytes bytes' same => ?_, fun input => ⟨?_, ?_⟩⟩
  · rw [← bytesOfSixes_sixes bytes, ← bytesOfSixes_sixes bytes', ← back, ← back, same]
  · rintro ⟨text, read⟩
    obtain ⟨rfl, -, units, filled, least, most⟩ := readBase64Url_eq_ok.mp read
    have small : ∀ six ∈ text.map base64Alphabet.idxOf, six < 64 := by
      intro six inside
      obtain ⟨unit, isUnit, rfl⟩ := List.mem_map.mp inside
      exact (unitOf_idxOf (List.all_eq_true.mp units unit isUnit)).1
    -- The text is the writing of the bytes that its groups make up.
    have written : base64url (bytesOfSixes (text.map base64Alphabet.idxOf)) = text := by
      rw [base64url_eq, sixes_bytesOfSixes small filled, List.map_map]
      refine (List.map_congr_left fun unit inside => ?_).trans (List.map_id _)
      exact (unitOf_idxOf (List.all_eq_true.mp units unit inside)).2
    have length : (bytesOfSixes (text.map base64Alphabet.idxOf)).length = text.length * 6 / 8 := by
      rw [← length_sixes, sixes_bytesOfSixes small filled, List.length_map]
    exact ⟨_, length ▸ least, length ▸ most, by rw [written]⟩
  · rintro ⟨bytes, least, most, rfl⟩
    exact ⟨_, accepted bytes least most⟩

/-- Two bytes are read, and not with a bit set behind them. -/
theorem base64url_canonical_two : readBase64Url (.string (lit "_w8")) [] 1 2 = .ok (lit "_w8")
    ∧ ¬ ∃ text, readBase64Url (.string (lit "_w9")) [] 1 2 = .ok text := by
  obtain ⟨accepted, -, -⟩ := @base64url_canonical 1 2 (by decide) []
  refine ⟨accepted [255, 15] (by decide) (by decide), fun read => ?_⟩
  -- The last unit has a bit that belongs to no byte.
  obtain ⟨text, read⟩ := read
  have refused : readBase64Url (.string (lit "_w9")) [] 1 2 = fail [] .invalid_value := by decide
  rw [refused] at read
  cases read

end Khala
