import Khala.Js.JsonReading
import Khala.Js.Utf8

/-! JSON as bytes: what `TextEncoder` makes of a value's text is different for different values. -/

namespace Js

/-- `new TextEncoder().encode(JSON.stringify(value))`. -/
def jsonBytes (value : Json) : List UInt8 := encodeUtf8 (stringify value)

/-- A hexadecimal digit is an ASCII unit. -/
private theorem paired_hexUnit (u : CodeUnit) : Paired (hexUnit u) := by
  have digit : ∀ n, n < 16 → isSurrogate (hexDigit n) = false := by decide
  have bound := u.toNat_lt
  apply Paired.of_units
  intro v inside
  simp only [hexUnit, List.mem_cons, List.not_mem_nil, or_false] at inside
  rcases inside with rfl | rfl | rfl | rfl
  · exact digit _ (by omega)
  · exact digit _ (by omega)
  · exact digit _ (by omega)
  · exact digit _ (by omega)

/-- Between quotation marks no half of a pair stands alone. -/
private theorem paired_escape (s : Text) : Paired ((codePoints s).flatMap escapePoint) := by
  -- A unit on its own is written as itself only when it is no half of a pair.
  have unit : ∀ u, Paired (escapePoint [u]) := by
    intro u
    have short : ∀ e : CodeUnit, isSurrogate e = false → Paired [92, e] := by
      intro e plain
      exact .unit (by decide) (.unit plain .nil)
    simp only [escapePoint]
    split
    · exact short 34 (by decide)
    · split
      · exact short 92 (by decide)
      · split
        · exact short 98 (by decide)
        · split
          · exact short 102 (by decide)
          · split
            · exact short 110 (by decide)
            · split
              · exact short 114 (by decide)
              · split
                · exact short 116 (by decide)
                · split
                  · exact .unit (by decide) (.unit (by decide) (paired_hexUnit u))
                  · rename_i plain
                    have whole : isSurrogate u = false := by
                      cases surrogate : isSurrogate u with
                      | false => rfl
                      | true => exact absurd (.inr surrogate) plain
                    exact .unit whole .nil
  induction s using codePoints.induct with
  | case1 => exact .nil
  | case2 u => simpa [codePoints] using unit u
  | case3 u v rest pair ih =>
    rw [codePoints, if_pos pair, List.flatMap_cons]
    exact .pair ⟨pair.1, pair.2.1⟩ pair.2.2 ih
  | case4 u v rest single ih =>
    rw [codePoints, if_neg single, List.flatMap_cons]
    exact (unit u).append ih

/-- A quoted text is paired. -/
private theorem paired_quote (s : Text) : Paired (quote s) :=
  .unit (by decide) ((paired_escape s).append (.unit (by decide) .nil))

/-- A number is written in ASCII. -/
private theorem paired_number (value : Number) : Paired value.text := by
  apply Paired.of_units
  intro u inside
  have unit := List.all_eq_true.mp value.shape.2 u inside
  cases surrogate : isSurrogate u with
  | false => rfl
  | true =>
    -- Every unit that numbers are printed with is below the surrogates.
    have low : u.toNat ≤ 101 := by
      simp only [isNumberUnit, isDigit, Bool.or_eq_true, Bool.and_eq_true,
        decide_eq_true_eq, beq_iff_eq,
        UInt16.le_iff_toNat_le, ← UInt16.toNat_inj, UInt16.reduceToNat] at unit
      omega
    simp only [isSurrogate, Bool.and_eq_true, decide_eq_true_eq, UInt16.le_iff_toNat_le,
      UInt16.reduceToNat] at surrogate
    omega

mutual

/-- A value's text is well-formed. -/
theorem paired_stringify (value : Json) : Paired (stringify value) := by
  match value with
  | .null => exact .of_units (forall_of_all (by decide))
  | .bool true => exact .of_units (forall_of_all (by decide))
  | .bool false => exact .of_units (forall_of_all (by decide))
  | .number value => exact paired_number value
  | .string value => exact paired_quote value
  | .array items =>
    exact .unit (by decide) ((paired_stringifyItems items).append (.unit (by decide) .nil))
  | .object members =>
    exact .unit (by decide) ((paired_stringifyMembers members).append (.unit (by decide) .nil))

/-- Items in JSON are paired. -/
theorem paired_stringifyItems (items : List Json) : Paired (stringifyItems items) := by
  match items with
  | [] => exact .nil
  | item :: rest => exact (paired_stringify item).append (paired_stringifyMoreItems rest)

/-- The items behind the first are paired. -/
theorem paired_stringifyMoreItems (items : List Json) : Paired (stringifyMoreItems items) := by
  match items with
  | [] => exact .nil
  | item :: rest =>
    exact .unit (by decide) ((paired_stringify item).append (paired_stringifyMoreItems rest))

/-- Members in JSON are paired. -/
theorem paired_stringifyMembers (members : List (Text × Json)) :
    Paired (stringifyMembers members) := by
  match members with
  | [] => exact .nil
  | (key, value) :: rest =>
    exact (paired_quote key).append
      (.unit (by decide) ((paired_stringify value).append (paired_stringifyMoreMembers rest)))

/-- The members behind the first are paired. -/
theorem paired_stringifyMoreMembers (members : List (Text × Json)) :
    Paired (stringifyMoreMembers members) := by
  match members with
  | [] => exact .nil
  | (key, value) :: rest =>
    exact .unit (by decide) ((paired_quote key).append
      (.unit (by decide) ((paired_stringify value).append (paired_stringifyMoreMembers rest))))

end

/-- No two values have the same bytes. -/
theorem jsonBytes_injective {a b : Json} (same : jsonBytes a = jsonBytes b) : a = b := by
  have texts := congrArg decodeUtf8 same
  simp only [jsonBytes, decodeUtf8_encodeUtf8 (paired_stringify a),
    decodeUtf8_encodeUtf8 (paired_stringify b)] at texts
  exact stringify_injective texts

end Js
