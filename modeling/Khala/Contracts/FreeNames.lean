import Khala.Contracts.DefaultNames
import Mathlib.Data.Finset.Image

/-! Free names in a channel: the numbered variants of a name, and the name that a new agent gets. -/

namespace Khala

open Js

variable (toLowerCase : Text → Text)

/-- `key`: names are compared without the white space around them and in lower case. -/
def nameKey (name : Text) : Text := toLowerCase (trim name)

/-- `takenNames`. -/
def takenNames (names : Finset Text) : Finset Text := names.image (nameKey toLowerCase)

/-- Without the number at the end; an agent's stands after a hyphen. -/
def withoutNumber (name : Text) : NameKind → Text
  | .username => (name.reverse.dropWhile isDigit).reverse
  | .agent => if (endingDigits name).isSome then ((name.reverse.dropWhile isDigit).drop 1).reverse
    else name

/-- What a number adds to a name. -/
def numberSuffix (n : Nat) : NameKind → Text
  | .username => decimal n
  | .agent => lit "-" ++ decimal n

/-- A numbered variant of a name, cut so that it is not too long. -/
def numberedName (name : Text) (kind : NameKind) (n : Nat) : Text :=
  let stem := if withoutNumber name kind = [] then name else withoutNumber name kind
  let suffix := numberSuffix n kind
  ((stem.take (kind.max - suffix.length)).reverse.dropWhile isSeparator).reverse ++ suffix

/-- The lowest free numbered variant of a name. -/
def channelNameSuggestion (name : Text) (kind : NameKind) (taken : Finset Text) : Text :=
  let used := takenNames toLowerCase taken
  let trimmed := trim name
  (((List.range' 2 998).map (numberedName trimmed kind)).find? fun candidate =>
    decide (nameKey toLowerCase candidate ∉ used) && (checkName candidate kind).isOk).getD trimmed

/-- The title that a client sends as a label, when it is a name other than the model's. -/
def titledName (harness : Text) (label : Option Text) : Option Text :=
  label.bind fun label =>
    if nameKey toLowerCase label = nameKey toLowerCase (modelName harness) then none
      else (checkName label .agent).toOption

/-- A new agent's name in its channel. -/
def freeAgentName (username harness : Text) (taken : Finset Text) (label : Option Text) : Text :=
  let used := takenNames toLowerCase taken
  match titledName toLowerCase harness label with
  | some title => if nameKey toLowerCase title ∈ used
    then channelNameSuggestion toLowerCase title .agent used else title
  | none =>
    defaultAgentName username harness (((List.range' 1 999).find? fun n =>
      decide (nameKey toLowerCase (defaultAgentName username harness n) ∉ used)).getD 1000)

/-- One of the names that are tried is free. -/
def HasFreeVariant (username harness : Text) (taken : Finset Text) (label : Option Text) : Prop :=
  let used := takenNames toLowerCase taken
  match titledName toLowerCase harness label with
  | some title => nameKey toLowerCase title ∉ used ∨ ∃ n, 2 ≤ n ∧ n < 1000
      ∧ nameKey toLowerCase (numberedName (trim title) .agent n) ∉ takenNames toLowerCase used
      ∧ (checkName (numberedName (trim title) .agent n) .agent).isOk = true
  | none => ∃ n, 1 ≤ n ∧ n ≤ 1000 ∧ nameKey toLowerCase (defaultAgentName username harness n) ∉ used

example :
    freeAgentName (List.map asciiLower) (lit "ann") (lit "qwen")
      {lit "ann-Qwen", lit "Ann"} none = lit "ann-Qwen-2"
    ∧ freeAgentName (List.map asciiLower) (lit "ann") (lit "qwen") {lit "Review-2"}
      (some (lit " review-2")) = lit "review-3" := by
  decide

/-! ## Names in ASCII -/

/-- What `toLowerCase` does with ASCII. -/
def LowersAscii : Prop := ∀ s : Text, (∀ u ∈ s, u < 128) → toLowerCase s = s.map asciiLower

variable {toLowerCase} {name input : Text} {kind : NameKind}

/-- What is a small letter in lower case is a letter, or between them. -/
private theorem unit_of_asciiLower {u : CodeUnit}
    (letter : 97 ≤ asciiLower u ∧ asciiLower u ≤ 122) : 65 ≤ u.toNat ∧ u.toNat ≤ 122 := by
  rw [asciiLower] at letter
  split at letter
  · rename_i upper
    simp only [UInt16.le_iff_toNat_le] at upper
    exact ⟨upper.1, Nat.le_trans upper.2 (by decide)⟩
  · simp only [UInt16.le_iff_toNat_le] at letter
    exact ⟨Nat.le_trans (by decide) letter.1, letter.2⟩

/-- A unit of a name lies between the hyphen and the letter z. -/
private theorem name_unit {u : CodeUnit} (unit : (isNameUnit u || isSeparator u) = true) :
    45 ≤ u.toNat ∧ u.toNat ≤ 122 := by
  simp only [isNameUnit, isSeparator, isDigit, Bool.or_eq_true, Bool.and_eq_true,
    decide_eq_true_eq, beq_iff_eq] at unit
  rcases unit with (digit | letter) | (rfl | rfl) | rfl
  · simp only [UInt16.le_iff_toNat_le] at digit
    exact ⟨Nat.le_trans (by decide) digit.1, Nat.le_trans digit.2 (by decide)⟩
  · have := unit_of_asciiLower letter
    exact ⟨Nat.le_trans (by decide) this.1, this.2⟩
  · decide
  · decide
  · decide

/-- No unit of a name is white. -/
theorem not_white {u : CodeUnit} (inside : 45 ≤ u.toNat ∧ u.toNat ≤ 122) : isWhite u = false := by
  -- The unit lies in a range that has no blank in it.
  have differs : ∀ {v : CodeUnit}, ¬ (45 ≤ v.toNat ∧ v.toNat ≤ 122) → u ≠ v := by
    rintro v apart rfl
    exact apart inside
  -- Blanks are a few single units and two ranges, all outside.
  simp only [isWhite, Bool.or_eq_false_iff, Bool.and_eq_false_iff, decide_eq_false_iff_not,
    UInt16.le_iff_toNat_le, beq_eq_false_iff_ne]
  refine ⟨⟨⟨⟨⟨⟨⟨⟨⟨⟨.inr ?_, ?_⟩, ?_⟩, ?_⟩, .inl ?_⟩, ?_⟩, ?_⟩, ?_⟩, ?_⟩, ?_⟩, ?_⟩
  · exact fun below => absurd (Nat.le_trans inside.1 below) (by decide)
  · exact differs (by decide)
  · exact differs (by decide)
  · exact differs (by decide)
  · exact fun above => absurd (Nat.le_trans above inside.2) (by decide)
  · exact differs (by decide)
  · exact differs (by decide)
  · exact differs (by decide)
  · exact differs (by decide)
  · exact differs (by decide)
  · exact differs (by decide)

/-- A text without white space at its ends is trimmed. -/
theorem trim_eq_self {s : Text} (first : ∀ u, s.head? = some u → isWhite u = false)
    (last : ∀ u, s.getLast? = some u → isWhite u = false) :
    trim s = s := by
  -- Nothing is dropped in front.
  have front : s.dropWhile isWhite = s := by
    cases s with
    | nil => rfl
    | cons u rest => rw [List.dropWhile_cons, first u rfl, if_neg Bool.false_ne_true]
  rw [trim, front]
  -- And nothing at the end.
  have back : s.reverse.dropWhile isWhite = s.reverse := by
    cases reversed : s.reverse with
    | nil => rfl
    | cons u rest =>
      have ends :
        s.getLast? = some u := by rw [List.getLast?_eq_head?_reverse, reversed, List.head?_cons]
      rw [List.dropWhile_cons, last u ends, if_neg Bool.false_ne_true]
  rw [back, List.reverse_reverse]

/-- Where the units of a name stand. -/
theorem isMentionName_units (mention : isMentionName name = true) :
    ∀ u ∈ name, 45 ≤ u.toNat ∧ u.toNat ≤ 122 := by
  intro u inside
  rw [isMentionName, Bool.and_eq_true] at mention
  exact name_unit (List.all_eq_true.mp mention.2 u inside)

/-- Nothing of a name is trimmed. -/
theorem trim_of_isMentionName (mention : isMentionName name = true) : trim name = name :=
  trim_eq_self (fun u first => not_white (isMentionName_units mention u (List.mem_of_head? first)))
    fun u last => not_white (isMentionName_units mention u (List.mem_of_getLast? last))

/-- A unit of a name in lower case is one, and in lower case. -/
private theorem asciiLower_units {u : CodeUnit} (inside : 45 ≤ u.toNat ∧ u.toNat ≤ 122) :
    (45 ≤ (asciiLower u).toNat ∧ (asciiLower u).toNat ≤ 122)
      ∧ asciiLower (asciiLower u) = asciiLower u := by
  have all : ∀ v : CodeUnit, v.toNat ≤ 122 → v = UInt16.ofNat v.toNat := fun v _ => by simp
  have table : ∀ k : Fin 123, 45 ≤ k.val →
    (45 ≤ (asciiLower (UInt16.ofNat k.val)).toNat ∧ (asciiLower (UInt16.ofNat k.val)).toNat ≤ 122)
      ∧ asciiLower (asciiLower (UInt16.ofNat k.val)) = asciiLower (UInt16.ofNat k.val) := by decide
  have := table ⟨u.toNat, Nat.lt_succ_of_le inside.2⟩ inside.1
  rwa [← all u inside.2] at this

/-- The key of a name is found again as its own key. -/
theorem nameKey_of_isMentionName (ascii : LowersAscii toLowerCase)
    (mention : isMentionName name = true) :
    nameKey toLowerCase name = toLowerCase name
      ∧ nameKey toLowerCase (toLowerCase name) = toLowerCase name := by
  have units := isMentionName_units mention
  have lower : toLowerCase name = name.map asciiLower := ascii name (ascii_of_units units)
  have lowered : ∀ u ∈ name.map asciiLower, 45 ≤ u.toNat ∧ u.toNat ≤ 122 := by
    intro u inside
    obtain ⟨v, member, rfl⟩ := List.mem_map.mp inside
    exact (asciiLower_units (units v member)).1
  refine ⟨by rw [nameKey, trim_of_isMentionName mention], ?_⟩
  rw [lower, nameKey, trim_eq_self (fun u first => not_white (lowered u (List.mem_of_head? first)))
    fun u last => not_white (lowered u (List.mem_of_getLast? last)),
      ascii _ (ascii_of_units lowered), List.map_map]
  exact List.map_congr_left fun u inside => (asciiLower_units (units u inside)).2

/-! ## Accepted names -/

/-- An accepted name is the trimmed input, and can be mentioned. -/
theorem checkName_ok (accepted : checkName input kind = .ok name) :
    name = trim input ∧ isMentionName name = true := by
  -- Each check of the name that fails ends with an error.
  rw [checkName] at accepted
  split at accepted
  · cases accepted
  · split at accepted
    · cases accepted
    · split at accepted
      -- The last one says that the name can be mentioned.
      · cases accepted
      · rename_i mention
        split at accepted
        · cases accepted
        · cases accepted
          refine ⟨rfl, ?_⟩
          rw [Bool.or_eq_true, Bool.not_eq_true', not_or, Bool.not_eq_false] at mention
          exact mention.1

/-- A name that is accepted is the input, trimmed. -/
theorem checkName_isOk (accepted : (checkName input kind).isOk = true) :
    checkName input kind = .ok (trim input) := by
  cases result : checkName input kind with
  | error error =>
    rw [result] at accepted
    cases accepted
  | ok name => rw [(checkName_ok result).1]

/-- A default name that is accepted is a name as it is. -/
theorem isMentionName_default {username harness : Text} {n : Nat}
    (mention : isMentionName username = true)
    (accepted : (checkName (defaultAgentName username harness n) kind).isOk = true) :
    isMentionName (defaultAgentName username harness n) = true := by
  -- The name starts with that of the user and ends with a unit of the tail, so it has no blanks
  -- around.
  have trimmed :
    trim (defaultAgentName username harness n) = defaultAgentName username harness n := by
    refine trim_eq_self (fun u first => ?_) fun u last => ?_
    · refine not_white (isMentionName_units mention u ?_)
      cases username with
      | nil => cases mention
      | cons v rest =>
        cases first
        exact List.mem_cons_self
    · rw [defaultAgentName_eq, List.getLast?_append_of_ne_nil _ (defaultTail_ne_nil harness n)]
        at last
      exact not_white (defaultTail_units harness n u (List.mem_of_getLast? last))
  -- Accepted, it can be mentioned.
  have mentioned := (checkName_ok (checkName_isOk accepted)).2
  rwa [trimmed] at mentioned

/-! ## The name that is found is free -/

/-- What is found passes, when anything does. -/
private theorem find?_getD {α : Type} {p : α → Bool} {items : List α} {fallback : α}
    (found : ∃ item ∈ items, p item = true) :
    p ((items.find? p).getD fallback) = true := by
  cases result : items.find? p with
  | some item => exact List.find?_some result
  | none =>
    obtain ⟨item, inside, is⟩ := found
    exact absurd is (List.find?_eq_none.mp result item inside)

/-- When one of the names that are tried is free, a free one is found. -/
theorem freeAgentName_free {username harness : Text} {taken : Finset Text} {label : Option Text}
    (free : HasFreeVariant toLowerCase username harness taken label) :
    nameKey toLowerCase (freeAgentName toLowerCase username harness taken label) ∉ takenNames
      toLowerCase taken
      ∨ nameKey toLowerCase (freeAgentName toLowerCase username harness taken label)
        ∉ takenNames toLowerCase (takenNames toLowerCase taken) := by
  rw [HasFreeVariant] at free
  rw [freeAgentName]
  -- The name comes from the label or is a default one.
  cases titled : titledName toLowerCase harness label with
  | some title =>
    rw [titled] at free
    simp only at free ⊢
    split
    -- The title is held: some numbered variant of it is free, and the first such one is taken.
    · rename_i held
      obtain ⟨n, least, most, unused, accepted⟩ := free.resolve_left (not_not.mpr held)
      refine .inr ?_
      rw [channelNameSuggestion]
      have found := @find?_getD _ (fun candidate => decide (nameKey toLowerCase candidate
          ∉ takenNames toLowerCase (takenNames toLowerCase taken))
            && (checkName candidate .agent).isOk)
        ((List.range' 2 998).map (numberedName (trim title) .agent)) (trim title)
        ⟨_, List.mem_map.mpr ⟨n, List.mem_range'_1.mpr ⟨least, by omega⟩,
          rfl⟩, by simp [unused, accepted]⟩
      rw [Bool.and_eq_true, decide_eq_true_eq] at found
      exact found.1
    · rename_i unheld
      exact .inl unheld
  -- Without a title the first free default name is taken.
  | none =>
    rw [titled] at free
    simp only at free ⊢
    refine .inl ?_
    obtain ⟨n, least, most, unused⟩ := free
    cases result : (List.range' 1 999).find? fun n =>
        decide (nameKey toLowerCase (defaultAgentName username harness n) ∉ takenNames
          toLowerCase taken) with
    | some k => simpa using List.find?_some result
    -- Nothing was found below the last number, which is free then.
    | none =>
      have all := List.find?_eq_none.mp result
      rcases Nat.lt_or_eq_of_le most with below | last
      · exact absurd (all n (List.mem_range'_1.mpr ⟨least, by omega⟩)) (by simpa using unused)
      · rw [Option.getD_none, ← last]
        exact unused

end Khala
