import Khala.Js.JsonBytes

/-! The text of a value is one line: it holds no control characters, and its bytes no end of a line.
-/

namespace Js

/-- Texts without control characters. -/
def Printed (s : Text) : Prop := ∀ u ∈ s, 32 ≤ u.toNat

/-- Two printed texts are printed together. -/
theorem Printed.append {one two : Text} (first : Printed one) (second : Printed two) :
    Printed (one ++ two) := by
  intro u inside
  exact (List.mem_append.mp inside).elim (first u) (second u)

/-- A unit that is printed, before a printed text, is printed. -/
theorem Printed.cons {u : CodeUnit} {rest : Text} (unit : 32 ≤ u.toNat) (others : Printed rest) :
    Printed (u :: rest) :=
  List.forall_mem_cons.mpr ⟨unit, others⟩

/-- No text is printed. -/
theorem Printed.nil : Printed [] := by simp [Printed]

/-- A unit in hexadecimal is printed. -/
private theorem printed_hexUnit (u : CodeUnit) : Printed (hexUnit u) := by
  -- All four units are digits or letters.
  have digit : ∀ n, n < 16 → 32 ≤ (hexDigit n).toNat := by decide
  have bound := u.toNat_lt
  intro v inside
  simp only [hexUnit, List.mem_cons, List.not_mem_nil, or_false] at inside
  rcases inside with rfl | rfl | rfl | rfl
  · exact digit _ (by omega)
  · exact digit _ (by omega)
  · exact digit _ (by omega)
  · exact digit _ (by omega)

/-- A control character is written as an escape. -/
private theorem printed_unit (u : CodeUnit) : Printed (escapePoint [u]) := by
  -- Each escape begins with a backslash, and what is not escaped is no control character.
  have short : ∀ e : CodeUnit, 32 ≤ e.toNat → Printed [92, e] :=
    fun e plain => .cons (by decide) (.cons plain .nil)
  simp only [escapePoint]
  split
  · exact short 34 (by decide)
  · split
    · exact short 92 (by decide)
    · split
      · exact short 98 (by decide)
      · split
        · exact short 102 (by decide)
        · split
          · exact short 110 (by decide)
          · split
            · exact short 114 (by decide)
            · split
              · exact short 116 (by decide)
              · split
                · exact .cons (by decide) (.cons (by decide) (printed_hexUnit u))
                · rename_i plain
                  have large := mt Or.inl plain
                  rw [UInt16.lt_iff_toNat_lt] at large
                  exact .cons (Nat.le_of_not_lt large) .nil

/-- A quoted text is printed. -/
private theorem printed_quote (s : Text) : Printed (quote s) := by
  have escaped : Printed ((codePoints s).flatMap escapePoint) := by
    induction s using codePoints.induct with
    | case1 => exact .nil
    | case2 u => simpa [codePoints] using printed_unit u
    | case3 u v rest pair ih =>
      -- Neither half of a pair is a control character.
      have high : 0xD800 ≤ u.toNat := UInt16.le_iff_toNat_le.mp pair.1
      have low : 0xDC00 ≤ v.toNat := UInt16.le_iff_toNat_le.mp pair.2.2.1
      rw [codePoints, if_pos pair, List.flatMap_cons]
      exact .append (.cons (by omega) (.cons (by omega) .nil)) ih
    | case4 u v rest single ih =>
      rw [codePoints, if_neg single, List.flatMap_cons]
      exact .append (printed_unit u) ih
  exact .cons (by decide) (.append escaped (.cons (by decide) .nil))

/-- A number is printed. -/
private theorem printed_number (value : Number) : Printed value.text := by
  -- Digits, signs, points and exponents all stand above the control characters.
  intro u inside
  have unit := List.all_eq_true.mp value.shape.2 u inside
  simp only [isNumberUnit, isDigit, Bool.or_eq_true, Bool.and_eq_true, decide_eq_true_eq,
    beq_iff_eq, UInt16.le_iff_toNat_le,
    ← UInt16.toNat_inj, UInt16.toNat_ofNat] at unit
  omega

mutual

/-- The text of a value holds no control characters. -/
theorem printed_stringify (value : Json) : Printed (stringify value) := by
  match value with
  | .null => exact forall_of_all (by decide)
  | .bool true => exact forall_of_all (by decide)
  | .bool false => exact forall_of_all (by decide)
  | .number value => exact printed_number value
  | .string value => exact printed_quote value
  | .array items =>
    exact .cons (by decide) (.append (printed_stringifyItems items) (.cons (by decide) .nil))
  | .object members =>
    exact .cons (by decide) (.append (printed_stringifyMembers members) (.cons (by decide) .nil))

/-- Items in JSON are printed. -/
theorem printed_stringifyItems (items : List Json) : Printed (stringifyItems items) := by
  match items with
  | [] => exact .nil
  | item :: rest => exact (printed_stringify item).append (printed_stringifyMoreItems rest)

/-- The items behind the first are printed. -/
theorem printed_stringifyMoreItems (items : List Json) : Printed (stringifyMoreItems items) := by
  match items with
  | [] => exact .nil
  | item :: rest =>
    exact .cons (by decide) ((printed_stringify item).append (printed_stringifyMoreItems rest))

/-- Members in JSON are printed. -/
theorem printed_stringifyMembers (members : List (Text × Json)) :
    Printed (stringifyMembers members) := by
  match members with
  | [] => exact .nil
  | (key, value) :: rest =>
    exact (printed_quote key).append (.cons (by decide)
      ((printed_stringify value).append (printed_stringifyMoreMembers rest)))

/-- The members behind the first are printed. -/
theorem printed_stringifyMoreMembers (members : List (Text × Json)) :
    Printed (stringifyMoreMembers members) := by
  match members with
  | [] => exact .nil
  | (key, value) :: rest =>
    exact .cons (by decide)
      ((printed_quote key).append (.cons (by decide)
        ((printed_stringify value).append (printed_stringifyMoreMembers rest))))

end

/-! ## Lines as bytes -/

/-- A text that ends within no pair is encoded apart from what follows it. -/
theorem encodeUtf8_append {one : Text} (paired : Paired one) (two : Text) :
    encodeUtf8 (one ++ two) = encodeUtf8 one ++ encodeUtf8 two := by
  -- The induction takes one code point at a time, so none reaches over the end of the first text.
  unfold encodeUtf8
  induction paired with
  | nil => rfl
  | unit single others ih =>
    rw [List.cons_append, codePoints_cons single, codePoints_cons single, List.flatMap_cons,
      List.flatMap_cons, ih,
      List.append_assoc]
  | pair high low others ih =>
    rw [List.cons_append, List.cons_append, codePoints, if_pos ⟨high.1, high.2, low.1, low.2⟩,
      codePoints,
      if_pos ⟨high.1, high.2, low.1, low.2⟩, List.flatMap_cons, List.flatMap_cons, ih,
        List.append_assoc]

/-- An ASCII byte of a text is a unit of it. -/
theorem mem_of_mem_encodeUtf8 {text : Text} (paired : Paired text) {byte : UInt8}
    (ascii : byte.toNat < 0x80) (inside : byte ∈ encodeUtf8 text) : byte.toNat.toUInt16 ∈ text := by
  obtain ⟨before, after, split⟩ := List.append_of_mem inside
  -- The decoder finds the unit where the byte stands.
  have decoded := decodeUtf8_append_ascii before after ascii
  rw [← split, decodeUtf8_encodeUtf8 paired] at decoded
  rw [decoded]
  exact List.mem_append_right _ List.mem_cons_self

/-- The bytes of a value hold no end of a line. -/
theorem newline_not_mem_jsonBytes (value : Json) : (10 : UInt8) ∉ jsonBytes value := by
  -- Such a byte would be a newline in the text, which is printed as an escape.
  intro inside
  have unit := mem_of_mem_encodeUtf8 (paired_stringify value) (by decide) inside
  exact absurd (printed_stringify value _ unit) (by decide)

/-- Lines of bytes are decoded line by line. -/
theorem decodeUtf8_lines (values : List Json) :
    decodeUtf8 (values.flatMap fun value => jsonBytes value ++ [10])
    = values.flatMap fun value => stringify value ++ [10] := by
  -- The newline is ASCII, so it ends what the decoder has begun.
  induction values with
  | nil => rfl
  | cons value rest ih =>
    rw [List.flatMap_cons, List.flatMap_cons, List.append_assoc, List.append_assoc,
      List.singleton_append, List.singleton_append,
      decodeUtf8_append_ascii _ _ (by decide), ih, jsonBytes,
        decodeUtf8_encodeUtf8 (paired_stringify value)]
    rfl

end Js
