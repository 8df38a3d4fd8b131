import Khala.Contracts.Decode

/-! Names of agents: which texts may be a name, and how a name is normalised before it is used. -/

namespace Khala

open Js Decode

def MAX_AGENT_NAME_BYTES : Nat := 80

inductive AgentNameError
  | blank
  | tooLong
  | invalidCharacters
  | reserved
deriving DecidableEq, Repr

/-- `unsafe`: control, bidirectional and invisible characters. -/
def isUnsafe (u : CodeUnit) : Bool :=
  u ≤ 0x1F || (0x7F ≤ u && u ≤ 0x9F) || u == 0x61C || (0x200B ≤ u && u ≤ 0x200F)
    || (0x2028 ≤ u && u ≤ 0x202E)
    || (0x2060 ≤ u && u ≤ 0x2069) || u == 0xFEFF

/-- Simple case folding of the characters that fold to ASCII letters. -/
def foldUnit (u : CodeUnit) : CodeUnit :=
  if u = 0x17F then 115 else if u = 0x212A then 107 else asciiLower u

/-- A word character where case is ignored. -/
def isWordUnit (u : CodeUnit) : Bool :=
  isDigit u || (97 ≤ foldUnit u && foldUnit u ≤ 122) || u == 95

def reservedWords : List Text :=
  ["administrator", "admin", "system", "moderator", "owner", "human", "security", "support",
    "official"].map lit

/-- The text begins with the word, and the word ends there. -/
def beginsWord (word s : Text) : Bool :=
  (s.take word.length).map foldUnit == word && !((s.drop word.length).head?.any isWordUnit)

/-- A reserved word begins somewhere in the text, not inside another word. -/
def holdsReserved (afterWordUnit : Bool) : Text → Bool
  | [] => false
  | u :: rest =>
    (!afterWordUnit && reservedWords.any fun word => beginsWord word (u :: rest)) || holdsReserved
    (isWordUnit u) rest

/-- `reserved`: the name of the product as a whole, or a word that claims a role. -/
def isReserved (name : Text) : Bool := name.map foldUnit == lit "khala" || holdsReserved false name

example :
    isReserved (lit "PC-Khala") = false ∧ isReserved (lit "The Owner!") = true
      ∧ isReserved (lit "Humanoid") = false := by
  decide

section

-- `String.prototype.normalize` with `NFC` and `NFKC`.
variable (nfc nfkc : Text → Text)

/-- The name that an input stands for; normalised once, so that every reader sees the same label. -/
def validateAgentName (input : Json) : Except AgentNameError Text :=
  match input with
  | .string value =>
    let name := nfc (trim value)
    -- The checks are made in this order, on the name without blanks around it.
    if name = [] then .error .blank
    else if name.any isUnsafe then .error .invalidCharacters
    else if utf8Length name > MAX_AGENT_NAME_BYTES then .error .tooLong
    else if isReserved (nfkc name) then .error .reserved
    else .ok name
  -- Only a text can be a name.
  | _ => .error .blank

end

end Khala
