import Khala.Js.Digits

/-! JSON values and the text that `JSON.stringify` writes for them. -/

namespace Js

/-- The code units the runtime prints numbers with. -/
def isNumberUnit (u : CodeUnit) : Bool :=
  isDigit u || u == 43 || u == 45 || u == 46 || u == 101

/-- A finite number, given by the text the runtime prints for it. The two zeros are one value to
`===` and print alike, and no other two numbers do. -/
structure Number where
  text : Text
  shape : text ≠ [] ∧ (text.all isNumberUnit) = true

instance : DecidableEq Number := fun a b =>
  decidable_of_iff (a.text = b.text) ⟨fun same => by cases a; cases b; cases same; rfl,
    congrArg Number.text⟩

/-- A value made of the six kinds of JSON. The members of an object stand in the order in which the
runtime enumerates them. -/
inductive Json
  | null
  | bool (value : Bool)
  | number (value : Number)
  | string (value : Text)
  | array (items : List Json)
  | object (members : List (Text × Json))

/-! ## Text -/

/-- A lower-case hexadecimal digit. -/
def hexDigit (n : Nat) : CodeUnit :=
  if n < 10 then (48 + n).toUInt16 else (87 + n).toUInt16

/-- The four hexadecimal digits of a code unit. -/
def hexUnit (u : CodeUnit) : Text :=
  [hexDigit (u.toNat / 4096), hexDigit (u.toNat / 256 % 16), hexDigit (u.toNat / 16 % 16),
    hexDigit (u.toNat % 16)]

/-- How one code point appears between quotation marks; an unpaired surrogate is written out. -/
def escapePoint : Text → Text
  | [u] =>
    if u = 34 then [92, 34]
    else if u = 92 then [92, 92]
    else if u = 8 then [92, 98]
    else if u = 12 then [92, 102]
    else if u = 10 then [92, 110]
    else if u = 13 then [92, 114]
    else if u = 9 then [92, 116]
    -- Controls and lone surrogates are written in hexadecimal.
    else if u < 32 ∨ isSurrogate u = true then 92 :: 117 :: hexUnit u
    else [u]
  | point => point

def quote (s : Text) : Text :=
  34 :: (codePoints s).flatMap escapePoint ++ [34]

mutual

/-- `JSON.stringify`. -/
def stringify : Json → Text
  | .null => lit "null"
  | .bool true => lit "true"
  | .bool false => lit "false"
  | .number value => value.text
  | .string value => quote value
  | .array items => 91 :: stringifyItems items ++ [93]
  | .object members => 123 :: stringifyMembers members ++ [125]

def stringifyItems : List Json → Text
  | [] => []
  | item :: rest => stringify item ++ stringifyMoreItems rest

def stringifyMoreItems : List Json → Text
  | [] => []
  | item :: rest => 44 :: (stringify item ++ stringifyMoreItems rest)

def stringifyMembers : List (Text × Json) → Text
  | [] => []
  | (key, value) :: rest => quote key ++ 58 :: (stringify value ++ stringifyMoreMembers rest)

def stringifyMoreMembers : List (Text × Json) → Text
  | [] => []
  | (key, value) :: rest =>
    44 :: (quote key ++ 58 :: (stringify value ++ stringifyMoreMembers rest))

end

example :
    stringify (.object [(lit "a", .array [.null, .string (lit "b\"")])])
      = lit "\x7b\"a\":[null,\"b\\\"\"]\x7d" := by
  decide

end Js
