import Khala.Js.Json

/-! Reading back the text that `stringify` writes, which shows that no two values share a text. -/

namespace Js

/-! ## Strings -/

/-- The value of a lower-case hexadecimal digit. -/
def hexValue (u : CodeUnit) : Nat :=
  if u.toNat < 58 then u.toNat - 48 else u.toNat - 87

def readHex : Text → Option (CodeUnit × Text)
  | a :: b :: c :: d :: rest =>
    some ((4096 * hexValue a + 256 * hexValue b + 16 * hexValue c + hexValue d).toUInt16, rest)
  | _ => none

def unescape (e : CodeUnit) : Option CodeUnit :=
  if e = 34 then some 34
  else if e = 92 then some 92
  else if e = 98 then some 8
  else if e = 102 then some 12
  else if e = 110 then some 10
  else if e = 114 then some 13
  else if e = 116 then some 9
  else none

/-- Reads one code unit of a string, escaped or not. -/
def readUnit : Text → Option (CodeUnit × Text)
  | [] => none
  | u :: rest =>
    if u = 92 then
      match rest with
      | [] => none
      | e :: more => if e = 117 then readHex more else (unescape e).map (·, more)
    else some (u, rest)

/-- Reads a string after its opening quotation mark, and returns what follows the closing one. -/
def readString : Nat → Text → Option (Text × Text)
  | 0, _ => none
  | _ + 1, [] => none
  | fuel + 1, u :: rest =>
    if u = 34 then some ([], rest)
    else do
      let (unit, more) ← readUnit (u :: rest)
      let (value, after) ← readString fuel more
      return (unit :: value, after)

/-- A hexadecimal digit has its value. -/
private theorem hexValue_hexDigit {n : Nat} (small : n < 16) : hexValue (hexDigit n) = n := by
  -- Sixteen digits, ten of them decimal.
  rcases n with _ | _ | _ | _ | _ | _ | _ | _ | _ | _ | _ | _ | _ | _ | _ | _ | n
  all_goals first | rfl | omega

/-- The four digits of a code unit give it back. -/
private theorem readHex_hexUnit (u : CodeUnit) (rest : Text) :
    readHex (hexUnit u ++ rest) = some (u, rest) := by
  have bound := u.toNat_lt
  have sum : 4096 * (u.toNat / 4096) + 256 * (u.toNat / 256 % 16) + 16 * (u.toNat / 16 % 16)
    + u.toNat % 16
      = u.toNat := by omega
  simp only [hexUnit, List.cons_append, List.nil_append, readHex]
  rw [hexValue_hexDigit (by omega), hexValue_hexDigit (by omega), hexValue_hexDigit (by omega),
    hexValue_hexDigit (by omega), sum]
  simp

/-- An escaped unit starts with no quotation mark and reads as itself. -/
private theorem readUnit_escapePoint (u : CodeUnit) (rest : Text) :
    readUnit (escapePoint [u] ++ rest) = some (u, rest)
      ∧ (escapePoint [u] ++ rest).head? ≠ some 34 := by
  -- The short escapes are undone by a table, the long one by its four digits.
  have short : ∀ {e w : CodeUnit}, e ≠ 117 → unescape e = some w →
      readUnit ([92, e] ++ rest) = some (w, rest) ∧ ([92, e] ++ rest).head? ≠ some 34 := by
    intro e w notLong table
    simp [readUnit, notLong, table]
  simp only [escapePoint]
  by_cases quote : u = 34
  · subst quote; exact short (by decide) rfl
  rw [if_neg quote]
  by_cases backslash : u = 92
  · subst backslash; exact short (by decide) rfl
  rw [if_neg backslash]
  by_cases back : u = 8
  · subst back; exact short (by decide) rfl
  rw [if_neg back]
  by_cases feed : u = 12
  · subst feed; exact short (by decide) rfl
  rw [if_neg feed]
  by_cases line : u = 10
  · subst line; exact short (by decide) rfl
  rw [if_neg line]
  by_cases carriage : u = 13
  · subst carriage; exact short (by decide) rfl
  rw [if_neg carriage]
  by_cases tab : u = 9
  · subst tab; exact short (by decide) rfl
  rw [if_neg tab]
  split
  · simp [readUnit, readHex_hexUnit]
  · simp [readUnit, quote, backslash]

/-- A string goes on with a unit that is written as itself or escaped. -/
private theorem readString_unit {text rest value after : Text} {u : CodeUnit} {fuel : Nat}
    (unit : readUnit text = some (u, rest)) (open_ : text.head? ≠ some 34)
    (tail : readString fuel rest = some (value, after)) :
    readString (fuel + 1) text = some (u :: value, after) := by
  cases text with
  | nil => cases unit
  | cons first more =>
    have notQuote : first ≠ 34 := fun same => open_ (by rw [same]; rfl)
    rw [readString, if_neg notQuote, unit]
    simp [tail]

/-- A quoted string reads back as the string. -/
theorem readString_quote (s rest : Text) {fuel : Nat} (enough : s.length < fuel) :
    readString fuel ((codePoints s).flatMap escapePoint ++ 34 :: rest) = some (s, rest) := by
  obtain ⟨fuel, rfl⟩ : ∃ less, fuel = less + 1 := ⟨fuel - 1, by omega⟩
  induction s using codePoints.induct generalizing fuel with
  | case1 => simp [codePoints, readString]
  | case2 u =>
    rw [List.length_singleton] at enough
    obtain ⟨fuel, rfl⟩ : ∃ less, fuel = less + 1 := ⟨fuel - 1, by omega⟩
    simp only [codePoints, List.flatMap_cons, List.flatMap_nil, List.append_nil]
    obtain ⟨unit, open_⟩ := readUnit_escapePoint u (34 :: rest)
    exact readString_unit unit open_ (by simp [readString])
  | case3 u v rest' pair ih =>
    -- The two halves of a pair are written as they are.
    have high : u ≠ 34 ∧ u ≠ 92 := by
      constructor <;> rintro rfl <;> exact absurd pair.1 (by decide)
    have low : v ≠ 34 ∧ v ≠ 92 := by
      constructor <;> rintro rfl <;> exact absurd pair.2.2.1 (by decide)
    simp only [List.length_cons] at enough
    obtain ⟨fuel, rfl⟩ : ∃ less, fuel = less + 2 := ⟨fuel - 2, by omega⟩
    rw [codePoints, if_pos pair, List.flatMap_cons]
    have first : ∀ after, readUnit (u :: after) = some (u, after) := by simp [readUnit, high.2]
    have second : ∀ after, readUnit (v :: after) = some (v, after) := by simp [readUnit, low.2]
    exact readString_unit (first _) (by simp [escapePoint, high.1])
      (readString_unit (second _) (by simp [low.1]) (ih fuel (by omega)))
  | case4 u v rest' single ih =>
    simp only [List.length_cons] at enough ih
    obtain ⟨fuel, rfl⟩ : ∃ less, fuel = less + 1 := ⟨fuel - 1, by omega⟩
    rw [codePoints, if_neg single, List.flatMap_cons, List.append_assoc]
    obtain ⟨unit, open_⟩ :=
      readUnit_escapePoint u ((codePoints (v :: rest')).flatMap escapePoint ++ 34 :: rest)
    exact readString_unit unit open_ (ih fuel (by omega))

/-- Escaping never shortens a string. -/
private theorem length_escape (s : Text) :
    s.length ≤ ((codePoints s).flatMap escapePoint).length := by
  -- Each code unit is written as at least one.
  have one : ∀ u, 1 ≤ (escapePoint [u]).length := by
    intro u
    simp only [escapePoint]
    repeat' split
    all_goals simp
  -- The induction is on the code points, and a pair is written as its two units.
  induction s using codePoints.induct with
  | case1 => simp [codePoints]
  | case2 u => simpa [codePoints] using one u
  | case3 u v rest pair ih =>
    rw [codePoints, if_pos pair, List.flatMap_cons, List.length_append]
    simp only [escapePoint, List.length_cons, List.length_nil]
    omega
  | case4 u v rest single ih =>
    rw [codePoints, if_neg single, List.flatMap_cons, List.length_append]
    have first := one u
    simp only [List.length_cons] at ih ⊢
    omega

/-! ## Values -/

/-- Reads the longest run of units that numbers are printed with. -/
def readNumber (text : Text) : Option (Json × Text) :=
  if shape : text.takeWhile isNumberUnit ≠ []
    ∧ (text.takeWhile isNumberUnit).all isNumberUnit = true then
    some (.number ⟨text.takeWhile isNumberUnit, shape⟩, text.dropWhile isNumberUnit)
  else none

/-- Reads a fixed word as a value. -/
def readWord (word : Text) (value : Json) (text : Text) : Option (Json × Text) :=
  if text.take word.length = word then some (value, text.drop word.length) else none

mutual

/-- Reads one value and returns what follows it. -/
def readValue : Nat → Text → Option (Json × Text)
  | 0, _ => none
  | _ + 1, [] => none
  | fuel + 1, u :: rest =>
    if u = 34 then (readString (rest.length + 1) rest).map fun (value, after) =>
      (.string value, after)
    -- A bracket starts an array.
    else if u = 91 then
      if rest.head? = some 93 then some (.array [], rest.tail)
      else (readItems fuel rest).map fun (items, after) => (.array items, after)
    -- A brace starts an object.
    else if u = 123 then
      if rest.head? = some 125 then some (.object [], rest.tail)
      else (readMembers fuel rest).map fun (members, after) => (.object members, after)
    else if isNumberUnit u then readNumber (u :: rest)
    else if u = 110 then readWord (lit "null") .null (u :: rest)
    else if u = 116 then readWord (lit "true") (.bool true) (u :: rest)
    else readWord (lit "false") (.bool false) (u :: rest)

/-- Reads the items of an array up to its closing bracket. -/
def readItems : Nat → Text → Option (List Json × Text)
  | 0, _ => none
  | fuel + 1, text => do
    let (item, after) ← readValue fuel text
    if after.head? = some 44 then
      let (items, last) ← readItems fuel after.tail
      return (item :: items, last)
    else if after.head? = some 93 then return ([item], after.tail)
    else none

/-- Reads the members of an object up to its closing brace. -/
def readMembers : Nat → Text → Option (List (Text × Json) × Text)
  | 0, _ => none
  | fuel + 1, text => do
    if text.head? ≠ some 34 then none
    let (key, colon) ← readString (text.length + 1) text.tail
    -- A colon comes between a key and its value.
    if colon.head? ≠ some 58 then none
    let (value, after) ← readValue fuel colon.tail
    if after.head? = some 44 then
      let (members, last) ← readMembers fuel after.tail
      return ((key, value) :: members, last)
    else if after.head? = some 125 then return ([(key, value)], after.tail)
    else none

end

mutual

/-- How much fuel reading a value takes. -/
def weight : Json → Nat
  | .array items => weightItems items + 1
  | .object members => weightMembers members + 1
  | _ => 1

def weightItems : List Json → Nat
  | [] => 0
  | item :: rest => weight item + weightItems rest + 1

def weightMembers : List (Text × Json) → Nat
  | [] => 0
  | (_, value) :: rest => weight value + weightMembers rest + 1

end

/-- What may follow a value: nothing, or a unit that cannot continue a number. -/
def Stops (rest : Text) : Prop :=
  ∀ u, rest.head? = some u → isNumberUnit u = false

/-- Another unit ends a number. -/
private theorem stops_cons {u : CodeUnit} (other : isNumberUnit u = false) (rest : Text) :
    Stops (u :: rest) := by
  intro v same
  rw [List.head?_cons, Option.some.injEq] at same
  rwa [← same]

/-- A number followed by something else reads back as the number. -/
private theorem readNumber_text (value : Number) {rest : Text} (stops : Stops rest) :
    readNumber (value.text ++ rest) = some (.number value, rest) := by
  have all : ∀ u ∈ value.text, isNumberUnit u = true := List.all_eq_true.mp value.shape.2
  -- The number ends where its units end, as the rest begins with another one.
  have taken : (value.text ++ rest).takeWhile isNumberUnit = value.text := by
    rw [List.takeWhile_append_of_pos all]
    cases rest with
    | nil => simp
    | cons u more => simp [stops u rfl]
  have dropped : (value.text ++ rest).dropWhile isNumberUnit = rest := by
    rw [List.dropWhile_append_of_pos all]
    cases rest with
    | nil => simp
    | cons u more => simp [stops u rfl]
  -- Its text is a number's text by its own field.
  have shape : (value.text ++ rest).takeWhile isNumberUnit ≠ []
      ∧ ((value.text ++ rest).takeWhile isNumberUnit).all isNumberUnit = true := by
    rw [taken]; exact value.shape
  rw [readNumber, dif_pos shape]
  simp [taken, dropped]

/-- A word that is written is read. -/
private theorem readWord_text (word : Text) (value : Json) (rest : Text) :
    readWord word value (word ++ rest) = some (value, rest) := by
  simp [readWord]

/-- The first unit of a value's text tells which kind of value it is. -/
private theorem stringify_head (value : Json) :
    ∃ u rest, stringify value = u :: rest ∧ u ≠ 93 := by
  -- Only the end of an array begins with this unit, and no value does.
  cases value with
  | null => exact ⟨110, lit "ull", by decide, by decide⟩
  | bool value =>
    cases value with
    | false => exact ⟨102, lit "alse", by decide, by decide⟩
    | true => exact ⟨116, lit "rue", by decide, by decide⟩
  | number value =>
    cases shape : value.text with
    | nil => exact absurd shape value.shape.1
    | cons u rest =>
      have unit : isNumberUnit u = true := by
        have all := value.shape.2
        rw [shape, List.all_cons, Bool.and_eq_true] at all
        exact all.1
      exact ⟨u, rest, by rw [stringify, shape], by rintro rfl; exact absurd unit (by decide)⟩
  | string value => exact ⟨34, _, rfl, by decide⟩
  | array items => exact ⟨91, _, rfl, by decide⟩
  | object members => exact ⟨123, _, rfl, by decide⟩

/-- Items do not begin with the closing bracket. -/
private theorem stringifyItems_head {items : List Json} (some_ : items ≠ []) (rest : Text) :
    (stringifyItems items ++ 93 :: rest).head? ≠ some 93 := by
  cases items with
  | nil => exact absurd rfl some_
  | cons item more =>
    obtain ⟨u, tail, shape, other⟩ := stringify_head item
    simp [stringifyItems, shape, other]

mutual

/-- A value's text reads back as the value. -/
theorem readValue_stringify (value : Json) {rest : Text} (stops : Stops rest) {fuel : Nat}
    (enough : weight value ≤ fuel) :
    readValue fuel (stringify value ++ rest) = some (value, rest) := by
  cases fuel with
  | zero => cases value <;> simp [weight] at enough
  | succ fuel =>
    cases value with
    | null => exact readWord_text (lit "null") .null rest
    | bool value =>
      cases value with
      | false => exact readWord_text (lit "false") (.bool false) rest
      | true => exact readWord_text (lit "true") (.bool true) rest
    | number value =>
      -- The units of a number are none of the units that other values start with.
      have read := readNumber_text value stops
      cases shape : value.text with
      | nil => exact absurd shape value.shape.1
      | cons u more =>
        have unit : isNumberUnit u = true := by
          have all := value.shape.2
          rw [shape, List.all_cons, Bool.and_eq_true] at all
          exact all.1
        have other : ∀ v, isNumberUnit v = false → u ≠ v := by
          rintro v none rfl
          rw [unit] at none; cases none
        rw [shape, List.cons_append] at read
        rw [stringify, shape, List.cons_append, readValue, if_neg (other 34 (by decide)),
          if_neg (other 91 (by decide)), if_neg (other 123 (by decide)), if_pos unit, read]
    | string value =>
      rw [stringify, quote, List.cons_append, List.cons_append, readValue, if_pos rfl,
        List.append_assoc,
        List.singleton_append, readString_quote]
      · rfl
      · have long := length_escape value
        simp only [List.length_append, List.length_cons]
        omega
    | array items =>
      rw [stringify, List.cons_append, List.cons_append, readValue, if_neg (by decide), if_pos rfl,
        List.append_assoc, List.singleton_append]
      cases items with
      | nil => rfl
      | cons item more =>
        rw [if_neg (stringifyItems_head (by simp) rest)]
        rw [readItems_stringify (item :: more)
          (by simp) rest (by simp only [weight] at enough; omega)]
        rfl
    | object members =>
      rw [stringify, List.cons_append, List.cons_append, readValue, if_neg (by decide),
        if_neg (by decide),
        if_pos rfl, List.append_assoc, List.singleton_append]
      cases members with
      | nil => rfl
      | cons member more =>
        have head : (stringifyMembers (member :: more) ++ 125 :: rest).head? ≠ some 125 := by
          simp [stringifyMembers, quote]
        rw [if_neg head]
        rw [readMembers_stringify (member :: more)
          (by simp) rest (by simp only [weight] at enough; omega)]
        rfl

/-- Items that are written are read. -/
theorem readItems_stringify (items : List Json) (some_ : items ≠ []) (rest : Text) {fuel : Nat}
    (enough : weightItems items ≤ fuel) :
    readItems fuel (stringifyItems items ++ 93 :: rest) = some (items, rest) := by
  match items with
  | [] => exact absurd rfl some_
  | item :: more =>
    simp only [weightItems] at enough
    -- There is fuel left, as the items have a weight.
    obtain ⟨fuel, rfl⟩ : ∃ less, fuel = less + 1 := ⟨fuel - 1, by omega⟩
    match more with
    -- The last item is followed by the bracket that closes the array.
    | [] =>
      have first := readValue_stringify item (stops_cons (by decide : isNumberUnit 93 = false) rest)
        (by omega : weight item ≤ fuel)
      simp [stringifyItems, stringifyMoreItems, readItems, first]
    | second :: others =>
      -- Another one is followed by a comma, where no number goes on.
      have first := readValue_stringify item
        (stops_cons (by decide : isNumberUnit 44 = false)
          (stringifyItems (second :: others) ++ 93 :: rest))
        (by omega : weight item ≤ fuel)
      have tail := readItems_stringify (second :: others) (by simp) rest
        (by omega : weightItems (second :: others) ≤ fuel)
      have text : stringifyItems (item :: second :: others) ++ 93 :: rest
          = stringify item ++ 44 :: (stringifyItems (second :: others) ++ 93 :: rest) := by
        simp [stringifyItems, stringifyMoreItems]
      rw [text, readItems, first]
      simp [tail]

/-- Members that are written are read. -/
theorem readMembers_stringify (members : List (Text × Json)) (some_ : members ≠ []) (rest : Text)
    {fuel : Nat} (enough : weightMembers members ≤ fuel) :
    readMembers fuel (stringifyMembers members ++ 125 :: rest) = some (members, rest) := by
  match members with
  | [] => exact absurd rfl some_
  | (key, value) :: more =>
    simp only [weightMembers] at enough
    obtain ⟨fuel, rfl⟩ : ∃ less, fuel = less + 1 := ⟨fuel - 1, by omega⟩
    -- The key is read up to its colon, whatever follows.
    have keyed : ∀ after,
      readString ((34 :: ((codePoints key).flatMap escapePoint ++ 34 :: 58 :: after)).length + 1)
        ((codePoints key).flatMap escapePoint ++ 34 :: 58 :: after) = some (key, 58 :: after) := by
      intro after
      refine readString_quote key (58 :: after) ?_
      have long := length_escape key
      simp only [List.length_append, List.length_cons]
      omega
    match more with
    | [] =>
      have first :=
        readValue_stringify value (stops_cons (by decide : isNumberUnit 125 = false) rest)
        (by omega : weight value ≤ fuel)
      have text : stringifyMembers [(key, value)] ++ 125 :: rest
          = 34 :: ((codePoints key).flatMap escapePoint ++ 34 :: 58 ::
            (stringify value ++ 125 :: rest)) := by
        simp [stringifyMembers, stringifyMoreMembers, quote]
      rw [text, readMembers]
      simp only [List.head?_cons, List.tail_cons, keyed]
      simp [first]
    | second :: others =>
      have first := readValue_stringify value
        (stops_cons (by decide : isNumberUnit 44 = false)
          (stringifyMembers (second :: others) ++ 125 :: rest))
        (by omega : weight value ≤ fuel)
      have tail := readMembers_stringify (second :: others) (by simp) rest
        (by omega : weightMembers (second :: others) ≤ fuel)
      have text : stringifyMembers ((key, value) :: second :: others) ++ 125 :: rest
          = 34 :: ((codePoints key).flatMap escapePoint ++ 34 :: 58 :: (stringify value
            ++ 44 :: (stringifyMembers (second :: others) ++ 125 :: rest))) := by
        simp [stringifyMembers, stringifyMoreMembers, quote]
      rw [text, readMembers]
      simp only [List.head?_cons, List.tail_cons, keyed]
      simp [first, tail]

end

/-- No two values have the same text. -/
theorem stringify_injective {a b : Json} (same : stringify a = stringify b) : a = b := by
  have nothing : Stops [] := fun u none => by cases none
  have first := readValue_stringify a nothing (Nat.le_max_left (weight a) (weight b))
  have second := readValue_stringify b nothing (Nat.le_max_right (weight a) (weight b))
  rw [same, second] at first
  simpa using first.symm

end Js
