import Khala.Js.Members

/-! Strict readers of JSON values: they return a typed value or say where and how a value fails. -/

namespace Khala.Decode

open Js

inductive DecodeErrorCode
  | not_object | unknown_field | missing_field | wrong_type | empty | too_long | control_character
  | malformed_unicode | unsupported_version | unsafe_integer | invalid_value | duplicate
deriving DecidableEq, Repr

structure DecodeError where
  path : Text
  code : DecodeErrorCode
deriving DecidableEq

abbrev Decoded (α : Type) : Type := Except DecodeError α

/-- The members of an object. -/
abbrev Members : Type := List (Text × Json)

def fail {α : Type} (path : Text) (code : DecodeErrorCode) : Decoded α :=
  .error ⟨path, code⟩

/-- A check that a decoder makes on the way. -/
def require (passed : Bool) (path : Text) (code : DecodeErrorCode) : Decoded Unit :=
  if passed then .ok () else fail path code

/-- What is required is met exactly when nothing is reported. -/
@[simp] theorem require_eq_ok {passed : Bool} {path : Text} {code : DecodeErrorCode} {u : Unit} :
    require passed path code = .ok u ↔ passed = true := by
  cases passed <;> simp [require, fail]

/-- Two readers in a row succeed when both do. -/
theorem bind_eq_ok {α β : Type} {first : Decoded α} {rest : α → Decoded β} {result : β} :
    (first >>= rest) = .ok result ↔ ∃ value, first = .ok value ∧ rest value = .ok result := by
  cases first with
  | error e => simp [bind, Except.bind]
  | ok value => simp [bind, Except.bind]

/-- The path of a member. -/
def joinPath (path key : Text) : Text :=
  if path.isEmpty then key else path ++ lit "." ++ key

def elementPath (path : Text) (index : Nat) : Text :=
  path ++ lit "[" ++ decimal index ++ lit "]"

/-- A plain object with exactly the given keys. -/
def object (input : Json) (path : Text) (keys : List Text) : Decoded Members :=
  match input with
  | .object members =>
    -- A field that is not known is refused before one that is missing.
    match members.find? fun member => member.1 ∉ keys with
    | some member => fail (joinPath path member.1) .unknown_field
    | none =>
      match keys.find? fun key => (lookup members key).isNone with
      | some key => fail (joinPath path key) .missing_field
      | none => .ok members
  | _ => fail path .not_object

/-- The member that `object` made sure of. -/
def field (members : Members) (key : Text) : Json := (lookup members key).getD .null

/-- Whether the value is an object with this member. -/
def has (input : Json) (key : Text) : Bool :=
  match input with
  | .object members => (lookup members key).isSome
  | _ => false

/-- An object with the required keys and any of the optional ones. -/
def record (input : Json) (path : Text) (required optional : List Text) : Decoded Members :=
  object input path (required ++ optional.filter (has input))

def array (input : Json) (path : Text) : Decoded (List Json) :=
  match input with
  | .array items => .ok items
  | _ => fail path .wrong_type

/-! ## Text -/

/-- The UTF-8 size of one code point. -/
def pointSize : Text → Nat
  | [u] => if u < 0x80 then 1 else if u < 0x800 then 2 else 3
  | _ => 4

def utf8Length (s : Text) : Nat :=
  ((codePoints s).map pointSize).sum

/-- Whether a code point is not half of a pair. -/
def wholePoint : Text → Bool
  | [u] => !isSurrogate u
  | _ => true

def isWellFormed (s : Text) : Bool :=
  (codePoints s).all wholePoint

/-- `CONTROL`. -/
def isControl (u : CodeUnit) : Bool :=
  u ≤ 0x1F || (0x7F ≤ u && u ≤ 0x9F)

/-- `INVISIBLE`: bidirectional controls and zero-width units. -/
def isInvisible (u : CodeUnit) : Bool :=
  u == 0x61C || u == 0x200B || u == 0x200E || u == 0x200F || (0x202A ≤ u && u ≤ 0x202E)
    || u == 0x2060
    || (0x2066 ≤ u && u ≤ 0x2069) || u == 0xFEFF

/-- Well-formed text up to a size in bytes; newlines and tabs are fine. -/
def text (input : Json) (path : Text) (maxBytes : Nat) : Decoded Text :=
  match input with
  | .string s =>
    if isWellFormed s = false then fail path .malformed_unicode
    else if utf8Length s > maxBytes then fail path .too_long
    else if s.contains 0 then fail path .control_character
    else .ok s
  | _ => fail path .wrong_type

/-- Text on one line. -/
def label (input : Json) (path : Text) (maxBytes : Nat) : Decoded Text := do
  let value ← text input path maxBytes
  require (!value.any isControl) path .control_character
  return value

/-- A label that shows everything it holds. -/
def displayText (input : Json) (path : Text) (maxBytes : Nat) : Decoded Text := do
  let value ← label input path maxBytes
  require (!value.any isInvisible) path .control_character
  return value

def maxIdentifierBytes : Nat := 512

def identifier (input : Json) (path : Text) : Decoded Text := do
  let value ← label input path maxIdentifierBytes
  require (!value.isEmpty) path .empty
  return value

/-- A text whose members are all known; each stands for a value. -/
def literal {α : Type} (input : Json) (path : Text) (allowed : List (Text × α)) : Decoded α :=
  match input with
  | .string s =>
    match allowed.lookup s with
    | some value => .ok value
    | none => fail path .invalid_value
  | _ => fail path .wrong_type

def nullable {α : Type} (input : Json) (read : Json → Decoded α) : Decoded (Option α) :=
  match input with
  | .null => .ok none
  | value => some <$> read value

/-! ## Numbers -/

/-- The number the runtime prints for a natural number. -/
def natNumber (n : Nat) : Number where
  text := decimal n
  shape := by
    refine ⟨decimal_ne_nil n, List.all_eq_true.mpr fun u inside => ?_⟩
    simp [isNumberUnit, isDigit_decimal inside]

/-- The natural number that a number's text spells, if it spells one. -/
def spelledNat (digits : Text) : Option Nat :=
  if digits.all isDigit && !digits.isEmpty then some (readDigits 0 digits) else none

def maxSafeInteger : Nat := 2 ^ 53 - 1

/-- A natural number up to the largest safe integer. -/
def safeInteger (input : Json) (path : Text) : Decoded Nat :=
  match input with
  | .number value =>
    match spelledNat value.text with
    | some n => if n ≤ maxSafeInteger then .ok n else fail path .unsafe_integer
    -- The number is negative, has a fraction or is written with an exponent.
    | none =>
      match value.text with
      | 45 :: digits =>
        -- A negative integer is a value that is not allowed, anything else no safe integer.
        if (spelledNat digits).any (· ≤ maxSafeInteger) then fail path .invalid_value
          else fail path .unsafe_integer
      | _ => fail path .unsafe_integer
  | _ => fail path .wrong_type

/-- The only version there is. -/
def version (input : Json) (path : Text) : Decoded Unit :=
  match input with
  | .number value => require (value.text == lit "1") path .unsupported_version
  | _ => fail path .unsupported_version

/-- A printed natural number is read back as itself. -/
theorem spelledNat_decimal (n : Nat) : spelledNat (decimal n) = some n := by
  have digits : (decimal n).all isDigit = true := List.all_eq_true.mpr fun u inside =>
    isDigit_decimal inside
  simp [spelledNat, digits, decimal_ne_nil, readDigits_decimal]

/-- A safe integer is read as it is. -/
theorem safeInteger_natNumber {n : Nat} (bound : n ≤ maxSafeInteger) (path : Text) :
    safeInteger (.number (natNumber n)) path = .ok n := by
  simp [safeInteger, natNumber, spelledNat_decimal, bound]

end Khala.Decode
