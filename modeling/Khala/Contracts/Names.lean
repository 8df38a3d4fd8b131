import Khala.Contracts.AgentNames
import Khala.Js.Digits

/-! Names of owners and agents: which texts may be one, and the names that agents have by default.
-/

namespace Khala

open Js

inductive NameKind
  | username
  | agent
deriving DecidableEq, Repr

inductive NameError
  | tooShort
  | tooLong
  | invalidCharacters
  | reserved
deriving DecidableEq, Repr

def NameKind.min : NameKind → Nat
  | .username => 2
  | .agent => 2

def NameKind.max : NameKind → Nat
  | .username => 24
  | .agent => 40

/-- A letter or a digit. -/
def isNameUnit (u : CodeUnit) : Bool := isDigit u || (97 ≤ asciiLower u && asciiLower u ≤ 122)

/-- A dot, an underscore or a hyphen. -/
def isSeparator (u : CodeUnit) : Bool := u == 46 || u == 95 || u == 45

/-- `mentionName`: letters, digits and separators, with a letter or a digit at both ends. -/
def isMentionName (name : Text) : Bool :=
  name.head?.any isNameUnit && name.getLast?.any isNameUnit && name.all fun u =>
    isNameUnit u || isSeparator u

/-- `adjacentSeparators`. -/
def hasAdjacentSeparators : Text → Bool
  | u :: v :: rest => (isSeparator u && isSeparator v) || hasAdjacentSeparators (v :: rest)
  | _ => false

/-- `(?:-\d+)?$`. -/
def isNumbering : Text → Bool
  | [] => true
  | u :: digits => u == 45 && !digits.isEmpty && digits.all isDigit

/-- The name ends in a hyphen, one of the words in any case, and perhaps a number. -/
def endsInModel (words : List Text) (name : Text) : Bool :=
  name.tails.any fun
    | [] => false
    | u :: rest => u == 45 && words.any fun word =>
      (rest.take word.length).map foldUnit == word && isNumbering (rest.drop word.length)

/-- `agentSuffix`. -/
def suffixModels : List Text := [lit "claude", lit "codex", lit "cursor"]

/-- A name that an input stands for. -/
def checkName (input : Text) (kind : NameKind) : Except NameError Text :=
  let name := trim input
  if name.length < kind.min then .error .tooShort
  else if kind.max < name.length then .error .tooLong
  else if !isMentionName name || hasAdjacentSeparators name then .error .invalidCharacters
  else if isReserved name || (kind = .username && endsInModel suffixModels name)
    then .error .reserved
  else .ok name

/-- `HARNESS_REGISTRY`, with the names that agents take from it. -/
def harnessModels : List (Text × Text) :=
  [(lit "claude", lit "Claude"), (lit "codex", lit "Codex"), (lit "cursor", lit "Cursor"),
    (lit "opencode", lit "OpenCode"),
    (lit "copilot", lit "Copilot"), (lit "vscode", lit "VSCode"), (lit "gemini", lit "Gemini"),
    (lit "antigravity", lit "Antigravity"), (lit "qwen", lit "Qwen"), (lit "muse", lit "Muse"),
      (lit "generic", lit "Agent")]

/-- `harnessInfo(harness).modelName`. -/
def modelName (harness : Text) : Text := (harnessModels.lookup harness).getD (lit "Agent")

/-- `newAgentSuffix`: the models by their names, in lower case. -/
def newSuffixModels : List Text :=
  ((harnessModels.map Prod.snd).filter (· ≠ lit "Agent")).map fun model => model.map foldUnit

/-- A name that a user may choose now. -/
def checkNewUsername (input : Text) : Except NameError Text :=
  match checkName input .username with
  | .error error => .error error
  | .ok name => if endsInModel newSuffixModels name then .error .reserved else .ok name

def defaultAgentName (username harness : Text) (n : Nat) : Text :=
  username ++ lit "-" ++ modelName harness ++ if n = 1 then [] else lit "-" ++ decimal n

section

-- `Canonicalize` of a code point, where case is ignored.
variable (fold : Text → Text)

/-- The name is the user's name, the model and perhaps a number. -/
def isDefaultAgentName (name username harness : Text) : Bool :=
  let base := (codePoints (username ++ lit "-" ++ modelName harness)).map fold
  let points := codePoints name
  (points.take base.length).map fold == base && isNumbering (points.drop base.length).flatten

end

/-- The digits at the end of a name, when a hyphen stands before them. -/
def endingDigits (name : Text) : Option Text :=
  let digits := (name.reverse.takeWhile isDigit).reverse
  if !digits.isEmpty && (name.reverse.dropWhile isDigit).head? = some 45 then some digits else none

/-- The number that a name ends in; names without one count as the first. -/
def nameNumber (name : Text) : Nat := ((endingDigits name).map (readDigits 0)).getD 1

example :
    checkName (lit " ann ") .username = .ok (lit "ann")
      ∧ checkName (lit "ann-Codex-2") .username = .error .reserved
    ∧ checkName (lit "ann-Qwen") .username = .ok (lit "ann-Qwen")
    ∧ checkNewUsername (lit "ann-Qwen") = .error .reserved := by
  decide

example :
    isDefaultAgentName id (lit "ann-Qwen-07") (lit "ann") (lit "qwen") = true
      ∧ nameNumber (lit "ann-Qwen-07") = 7
    ∧ defaultAgentName (lit "ann") (lit "qwen") 7 = lit "ann-Qwen-7" := by
  decide

end Khala
