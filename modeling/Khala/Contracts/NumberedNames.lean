import Khala.Contracts.FreeNames
import Mathlib.Data.List.DropRight
import Mathlib.Data.Nat.Digits.Defs

/-! Numbered variants of an agent's name: they can be mentioned, are told apart by their numbers,
and are names unless cutting one leaves a reserved word. -/

namespace Khala

open Js

/-! ## Separators -/

/-- Separators meet in one part, or where the parts do. -/
theorem hasAdjacentSeparators_append (before : Text) (u : CodeUnit) (after : Text) :
    hasAdjacentSeparators (before ++ u :: after)
      = (hasAdjacentSeparators before || before.getLast?.any (fun v =>
        isSeparator v && isSeparator u)
        || hasAdjacentSeparators (u :: after)) := by
  induction before with
  | nil => rfl
  | cons v rest ih =>
    cases rest with
    | nil => simp [hasAdjacentSeparators]
    | cons w more =>
      simp only [List.cons_append] at ih
      simp only [List.cons_append, hasAdjacentSeparators, ih, List.getLast?_cons_cons,
        Bool.or_assoc]

/-- Where none meet in the whole, none do in its beginning. -/
theorem hasAdjacentSeparators_of_append {before after : Text}
    (apart : hasAdjacentSeparators (before ++ after) = false) :
    hasAdjacentSeparators before = false := by
  cases after with
  | nil => rwa [List.append_nil] at apart
  | cons u rest =>
    rw [hasAdjacentSeparators_append, Bool.or_eq_false_iff, Bool.or_eq_false_iff] at apart
    exact apart.1.1

/-- A digit is no separator. -/
private theorem isSeparator_digit {u : CodeUnit} (digit : isDigit u = true) :
    isSeparator u = false := by
  simp only [isDigit, Bool.and_eq_true, decide_eq_true_eq, UInt16.le_iff_toNat_le,
    UInt16.toNat_ofNat] at digit
  cases sep : isSeparator u with
  | false => rfl
  | true =>
    simp only [isSeparator, Bool.or_eq_true, beq_iff_eq] at sep
    rcases sep with (rfl | rfl) | rfl
    · exact absurd digit (by decide)
    · exact absurd digit (by decide)
    · exact absurd digit (by decide)

/-- In digits no separators meet. -/
private theorem hasAdjacentSeparators_digits {digits : Text}
    (all : ∀ u ∈ digits, isDigit u = true) :
    hasAdjacentSeparators digits = false := by
  induction digits with
  | nil => rfl
  | cons u rest ih =>
    cases rest with
    | nil => rfl
    | cons v more =>
      rw [hasAdjacentSeparators, isSeparator_digit (all u List.mem_cons_self), Bool.false_and,
        Bool.false_or]
      exact ih fun w inside => all w (List.mem_cons_of_mem _ inside)

/-! ## Stems -/

/-- What a numbered name is made from: it can be mentioned on its own. -/
structure IsStem (stem : Text) : Prop where
  mention : isMentionName stem = true
  apart : hasAdjacentSeparators stem = false

/-- A stem begins and ends with a unit of a name. -/
theorem IsStem.ends {stem : Text} (isStem : IsStem stem) :
    ∃ first last, stem.head? = some first ∧ isNameUnit first = true ∧ stem.getLast? = some last
      ∧ isNameUnit last = true
      ∧ ∀ u ∈ stem, (isNameUnit u || isSeparator u) = true := by
  have mention := isStem.mention
  rw [isMentionName, Bool.and_eq_true, Bool.and_eq_true, Option.any_eq_true, Option.any_eq_true]
    at mention
  obtain ⟨⟨⟨first, isFirst, unit⟩, last, isLast, unit'⟩, all⟩ := mention
  exact ⟨first, last, isFirst, unit, isLast, unit', List.all_eq_true.mp all⟩

/-- A stem is not empty. -/
theorem IsStem.ne_nil {stem : Text} (isStem : IsStem stem) : stem ≠ [] := by
  rintro rfl
  obtain ⟨_, _, first, -⟩ := isStem.ends
  cases first

/-- A unit of a name is no separator. -/
private theorem not_separator {u : CodeUnit} (unit : isNameUnit u = true) :
    isSeparator u = false := by
  cases sep : isSeparator u with
  | false => rfl
  | true =>
    simp only [isSeparator, Bool.or_eq_true, beq_iff_eq] at sep
    rcases sep with (rfl | rfl) | rfl
    · exact absurd unit (by decide)
    · exact absurd unit (by decide)
    · exact absurd unit (by decide)

/-- A prefix of a stem that ends in no separator is a stem. -/
theorem IsStem.of_isPrefix {stem before : Text} (isStem : IsStem stem) (isPrefix : before <+: stem)
    {last : CodeUnit} (ends : before.getLast? = some last) (plain : isSeparator last = false) :
    IsStem before := by
  obtain ⟨rest, rfl⟩ := isPrefix
  -- A stem that is cut starts as before and ends with a unit of a name.
  obtain ⟨first, _, isFirst, unit, -, -, all⟩ := isStem.ends
  refine ⟨?_, hasAdjacentSeparators_of_append isStem.apart⟩
  have some_ : before ≠ [] := fun nothing => by
    rw [nothing] at ends
    cases ends
  have start : before.head? = some first := by
    cases before with
    | nil => exact absurd rfl some_
    | cons u more => exact isFirst
  have unit' : isNameUnit last = true := by
    have := all last (List.mem_append_left rest (List.mem_of_getLast? ends))
    rwa [plain, Bool.or_false] at this
  -- Its units are units of the stem.
  have units : (before.all fun u => isNameUnit u || isSeparator u) = true :=
    List.all_eq_true.mpr fun u inside => all u (List.mem_append_left rest inside)
  rw [isMentionName, start, ends, units, Option.any_some, Option.any_some, unit, unit']
  rfl

/-- The first units of a stem, without the separators at the end. -/
def cutStem (stem : Text) (count : Nat) : Text :=
  ((stem.take count).reverse.dropWhile isSeparator).reverse

/-- A stem that is cut is its beginning. -/
theorem cutStem_isPrefix (stem : Text) (count : Nat) : cutStem stem count <+: stem.take count :=
  List.rdropWhile_prefix isSeparator (stem.take count)

/-- A stem that is cut is short enough. -/
theorem length_cutStem_le (stem : Text) (count : Nat) : (cutStem stem count).length ≤ count :=
  Nat.le_trans (cutStem_isPrefix stem count).length_le (List.length_take_le count stem)

/-- A stem that is cut is a stem. -/
theorem IsStem.cut {stem : Text} (isStem : IsStem stem) {count : Nat} (some_ : count ≠ 0) :
    IsStem (cutStem stem count) := by
  obtain ⟨first, _, isFirst, unit, -⟩ := isStem.ends
  have nonempty : cutStem stem count ≠ [] := by
    intro nothing
    -- The first unit is no separator.
    have all :=
      List.rdropWhile_eq_nil_iff.mp (show List.rdropWhile isSeparator (stem.take count) = []
        from nothing)
    have inside : first ∈ stem.take count := by
      cases stem with
      | nil => cases isFirst
      | cons u rest =>
        obtain rfl := Option.some.inj isFirst
        obtain ⟨more, rfl⟩ := Nat.exists_eq_succ_of_ne_zero some_
        exact List.mem_cons_self
    have sep := all first inside
    rw [not_separator unit] at sep
    cases sep
  have plain := List.rdropWhile_last_not isSeparator (stem.take count) nonempty
  exact isStem.of_isPrefix ((cutStem_isPrefix stem count).trans ( List.take_prefix count stem))
    (List.getLast?_eq_some_getLast nonempty) ((Bool.not_eq_true _).mp plain)

/-- A stem that is short enough is not cut. -/
theorem IsStem.cut_eq {stem : Text} (isStem : IsStem stem) {count : Nat}
    (fits : stem.length ≤ count) : cutStem stem count = stem := by
  obtain ⟨_, last, -, -, isLast, unit, -⟩ := isStem.ends
  rw [cutStem, List.take_of_length_le fits]
  cases reversed : stem.reverse with
  | nil => rw [List.reverse_eq_nil_iff.mp reversed]; rfl
  | cons u rest =>
    have same : u = last := by
      rw [List.getLast?_eq_head?_reverse, reversed, List.head?_cons] at isLast
      exact Option.some.inj isLast
    rw [List.dropWhile_cons, same, not_separator unit, if_neg Bool.false_ne_true, ← same,
      ← reversed, List.reverse_reverse]

/-- A stem with a number after a hyphen is a stem. -/
theorem IsStem.number {stem digits : Text} (isStem : IsStem stem) (some_ : digits ≠ [])
    (all : ∀ u ∈ digits, isDigit u = true) :
    IsStem (stem ++ 45 :: digits) := by
  -- The stem ends with a unit, the hyphen separates, and digits are units.
  obtain ⟨first, last, isFirst, unit, isLast, unit', units⟩ := isStem.ends
  have digit : ∀ u ∈ digits, isNameUnit u = true :=
    fun u inside => by rw [isNameUnit, all u inside, Bool.true_or]
  have hyphen : isSeparator 45 = true := by decide
  constructor
  · have start :
      (stem ++ 45 :: digits).head? = some first := by rw [List.head?_append, isFirst]; rfl
    have stop : (stem ++ 45 :: digits).getLast? = some (digits.getLast some_) := by
      rw [List.getLast?_append, List.getLast?_cons, List.getLast?_eq_some_getLast some_]
      rfl
    have whole : ((stem ++ 45 :: digits).all fun u => isNameUnit u || isSeparator u) = true := by
      rw [List.all_append, List.all_cons, List.all_eq_true.mpr units, hyphen, Bool.or_true,
        Bool.true_and, Bool.true_and]
      exact List.all_eq_true.mpr fun u inside => by rw [digit u inside]; rfl
    rw [isMentionName, start, stop, whole, Option.any_some, Option.any_some, unit,
      digit _ (List.getLast_mem some_)]
    rfl
  -- No two separators meet, as digits stand behind the hyphen.
  · rw [hasAdjacentSeparators_append, isStem.apart, isLast, Option.any_some, not_separator unit',
      Bool.false_and, Bool.false_or,
      Bool.false_or]
    cases digits with
    | nil => exact absurd rfl some_
    | cons u rest =>
      rw [hasAdjacentSeparators, isSeparator_digit (all u List.mem_cons_self), Bool.and_false,
        Bool.false_or]
      exact hasAdjacentSeparators_digits all

/-! ## Names of agents -/

/-- What an agent's name has to be. -/
structure IsAgentName (name : Text) : Prop extends IsStem name where
  least : 2 ≤ name.length
  most : name.length ≤ 40
  free : isReserved name = false

/-- Which names of agents are accepted. -/
theorem checkName_agent {input name : Text} :
    checkName input .agent = .ok name ↔ name = trim input ∧ IsAgentName (trim input) := by
  have bounds : NameKind.agent.min = 2 ∧ NameKind.agent.max = 40 := ⟨rfl, rfl⟩
  have other :
    (decide (NameKind.agent = NameKind.username) && endsInModel suffixModels (trim input))
    = false := rfl
  -- The checks are made one after the other, and each failure contradicts the name.
  simp only [checkName, bounds, other, Bool.or_false]
  split
  · rename_i short
    simp only [reduceCtorEq, false_iff, not_and]
    exact fun _ isName => absurd isName.least (Nat.not_le.mpr short)
  split
  · rename_i long
    simp only [reduceCtorEq, false_iff, not_and]
    exact fun _ isName => absurd isName.most (Nat.not_le.mpr long)
  split
  · rename_i malformed
    simp only [reduceCtorEq, false_iff, not_and]
    intro _ isName
    rw [isName.mention, isName.apart] at malformed
    cases malformed
  split
  · rename_i reserved
    simp only [reduceCtorEq, false_iff, not_and]
    intro _ isName
    rw [isName.free] at reserved
    cases reserved
  -- All of them passed, which is what makes a name.
  · rename_i short long formed open_
    simp only [Bool.or_eq_true, Bool.not_eq_true', not_or, Bool.not_eq_false, Bool.not_eq_true]
      at formed open_
    rw [Except.ok.injEq, eq_comm]
    exact ⟨fun same => ⟨same, ⟨formed.1, formed.2⟩, Nat.not_lt.mp short, Nat.not_lt.mp long,
      open_⟩, fun same => same.1⟩

/-- A name is accepted as it is. -/
theorem IsAgentName.checkName {name : Text} (isName : IsAgentName name) :
    checkName name .agent = .ok name := by
  have trimmed := trim_of_isMentionName isName.mention
  exact checkName_agent.mpr ⟨trimmed.symm, trimmed.symm ▸ isName⟩

/-! ## Reserved words -/

/-- A reserved word has no hyphen, and begins with no digit. -/
private theorem reservedWords_letters :
    ∀ word ∈ reservedWords, word ≠ [] ∧ 45 ∉ word ∧ word.head?.any isDigit = false := by
  decide

/-- No word goes on beyond a hyphen. -/
private theorem beginsWord_append {word : Text} (inside : word ∈ reservedWords) (s t : Text) :
    beginsWord word (s ++ 45 :: t) = beginsWord word s := by
  obtain ⟨-, plain, -⟩ := reservedWords_letters word inside
  -- The word fits into the text before the hyphen, or would reach over it.
  by_cases fits : word.length ≤ s.length
  · have next : ((s.drop word.length ++ 45 :: t).head?.any isWordUnit)
      = (s.drop word.length).head?.any isWordUnit := by
      cases s.drop word.length with
      | nil => rfl
      | cons u rest => rfl
    rw [beginsWord, beginsWord, List.take_append_of_le_length fits,
      List.drop_append_of_le_length fits, next]
  · have short : s.length < word.length := Nat.not_le.mp fits
    -- No reserved word has a hyphen in it.
    have crosses : ((s ++ 45 :: t).take word.length).map foldUnit ≠ word := by
      intro same
      refine plain (same ▸ List.mem_map.mpr ⟨45, ?_, by decide⟩)
      rw [List.take_append, show word.length - s.length = (word.length - s.length - 1)
        + 1 by omega, List.take_succ_cons]
      exact List.mem_append_right _ List.mem_cons_self
    have ends : (s.take word.length).map foldUnit ≠ word := by
      intro same
      have := congrArg List.length same
      rw [List.length_map, List.length_take] at this
      omega
    rw [beginsWord, beginsWord, beq_eq_false_iff_ne.mpr crosses, beq_eq_false_iff_ne.mpr ends,
      Bool.false_and, Bool.false_and]

/-- No reserved word begins with a digit. -/
private theorem beginsWord_digit {word : Text} (inside : word ∈ reservedWords) {u : CodeUnit}
    (digit : isDigit u = true) (rest : Text) :
    beginsWord word (u :: rest) = false := by
  obtain ⟨some_, -, letter⟩ := reservedWords_letters word inside
  -- A digit folds to itself, and a reserved word begins with a letter.
  have own : foldUnit u = u := by
    simp only [isDigit, Bool.and_eq_true, decide_eq_true_eq, UInt16.le_iff_toNat_le,
      UInt16.toNat_ofNat] at digit
    rw [foldUnit, if_neg (by rintro rfl; exact absurd digit (by decide)),
      if_neg (by rintro rfl; exact absurd digit (by decide)),
      asciiLower, if_neg]
    rintro ⟨above, -⟩
    simp only [UInt16.le_iff_toNat_le, UInt16.toNat_ofNat] at above
    omega
  cases word with
  | nil => exact absurd rfl some_
  | cons v more =>
    rw [List.head?_cons, Option.any_some] at letter
    have differs : u ≠ v := by
      rintro rfl
      rw [digit] at letter
      cases letter
    rw [beginsWord, List.length_cons, List.take_succ_cons, List.map_cons, own]
    simp [differs]

/-- Digits hold no reserved word. -/
private theorem holdsReserved_digits {digits : Text} (all : ∀ u ∈ digits, isDigit u = true)
    (after : Bool) :
    holdsReserved after digits = false := by
  induction digits generalizing after with
  | nil => rfl
  | cons u rest ih =>
    have none_ : (reservedWords.any fun word => beginsWord word (u :: rest)) = false :=
      List.any_eq_false.mpr fun word inside => by
        rw [beginsWord_digit inside (all u List.mem_cons_self) rest]
        exact Bool.false_ne_true
    rw [holdsReserved, none_, Bool.and_false, Bool.false_or]
    exact ih (fun v inside => all v (List.mem_cons_of_mem _ inside)) _

/-- Reserved words stand on one side of a hyphen. -/
private theorem holdsReserved_append (after : Bool) (s t : Text) :
    holdsReserved after (s ++ 45 :: t) = (holdsReserved after s || holdsReserved false t) := by
  -- No reserved word that begins in the first text reaches into the second.
  have same : ∀ s : Text, (reservedWords.any fun word => beginsWord word (s ++ 45 :: t))
    = reservedWords.any fun word => beginsWord word s := by
    intro s
    rw [Bool.eq_iff_iff, List.any_eq_true, List.any_eq_true]
    exact exists_congr fun word => and_congr_right fun inside => by rw [beginsWord_append inside]
  -- The induction is on the first text.
  induction s generalizing after with
  | nil =>
    have nothing : (reservedWords.any fun word => beginsWord word []) = false := by decide
    -- After the hyphen a word may begin, as at the start of a text.
    have word : isWordUnit 45 = false := by decide
    have start := same []
    rw [List.nil_append, nothing] at start
    have opened : holdsReserved after (45 :: t)
        = ((!after && reservedWords.any fun word => beginsWord word (45 :: t)) || holdsReserved
          (isWordUnit 45) t) := rfl
    rw [List.nil_append, opened, start, Bool.and_false, Bool.false_or, word]
    rfl
  | cons u rest ih =>
    rw [List.cons_append, holdsReserved, ih, ← List.cons_append, same (u :: rest), holdsReserved,
      Bool.or_assoc]

/-- A number after a hyphen makes no name reserved, and frees none. -/
theorem isReserved_number (stem : Text) {digits : Text} (all : ∀ u ∈ digits, isDigit u = true) :
    isReserved (stem ++ 45 :: digits) = holdsReserved false stem := by
  have product : ((stem ++ 45 :: digits).map foldUnit == lit "khala") = false := by
    rw [beq_eq_false_iff_ne]
    intro same
    have inside : foldUnit 45 ∈ (stem ++ 45 :: digits).map foldUnit :=
      List.mem_map_of_mem (List.mem_append_right stem List.mem_cons_self)
    rw [same] at inside
    exact absurd inside (by decide)
  rw [isReserved, product, Bool.false_or, holdsReserved_append, holdsReserved_digits all,
    Bool.or_false]

/-! ## Variants -/

section

variable {name : Text}

/-- A name is its stem, perhaps with a number. -/
theorem IsAgentName.stem (isName : IsAgentName name) : IsStem (withoutNumber name .agent)
    ∧ (name = withoutNumber name .agent
      ∨ ∃ digits, name = withoutNumber name .agent ++ 45 :: digits ∧ ∀ u ∈ digits,
        isDigit u = true) := by
  cases numbered : endingDigits name with
  | none =>
    have whole : withoutNumber name .agent = name := by rw [withoutNumber, numbered]; rfl
    rw [whole]
    exact ⟨isName.toIsStem, .inl rfl⟩
  | some digits =>
    simp only [endingDigits] at numbered
    split at numbered
    · rename_i hyphen
      obtain rfl := Option.some.inj numbered
      rw [Bool.and_eq_true, decide_eq_true_eq] at hyphen
      obtain ⟨rest, after⟩ := List.head?_eq_some_iff.mp hyphen.2
      have parts : name = rest.reverse ++ 45 :: (name.reverse.takeWhile isDigit).reverse := by
        rw [← List.reverse_inj, List.reverse_append, List.reverse_cons, List.reverse_reverse,
          List.reverse_reverse,
          List.append_assoc, List.singleton_append, ← after, List.takeWhile_append_dropWhile]
      have isStem : withoutNumber name .agent = rest.reverse := by
        have some_ :
          (endingDigits name).isSome = true := by simp only [endingDigits, hyphen.1, hyphen.2]; rfl
        rw [withoutNumber, if_pos some_, after]
        rfl
      have digits : ∀ u ∈ (name.reverse.takeWhile isDigit).reverse, isDigit u = true :=
        fun u inside =>
        List.all_eq_true.mp List.all_takeWhile u (List.mem_reverse.mp inside)
      rw [isStem]
      refine ⟨?_, .inr ⟨_, parts, digits⟩⟩
      -- The name starts with no hyphen, and there are no two separators side by side.
      have apart := isName.apart
      rw [parts, hasAdjacentSeparators_append, Bool.or_eq_false_iff, Bool.or_eq_false_iff] at apart
      cases last : rest.reverse.getLast? with
      | none =>
        rw [List.getLast?_eq_none_iff] at last
        obtain ⟨first, _, isFirst, unit, -⟩ := isName.ends
        rw [parts, last] at isFirst
        obtain rfl := Option.some.inj isFirst
        exact absurd unit (by decide)
      | some u =>
        have plain := apart.1.2
        rw [last, Option.any_some, show isSeparator 45 = true by decide, Bool.and_true] at plain
        have isPrefix : rest.reverse <+: name := parts ▸ List.prefix_append _ _
        exact isName.of_isPrefix isPrefix last plain
    · cases numbered

/-- A numbered variant is a cut stem with the number after a hyphen. -/
theorem IsAgentName.numberedName_eq (isName : IsAgentName name) (n : Nat) :
    numberedName name .agent n
    = cutStem (withoutNumber name .agent) (40 - (1 + (decimal n).length)) ++ 45 :: decimal n := by
  have suffix : numberSuffix n .agent = 45 :: decimal n := rfl
  rw [numberedName, if_neg isName.stem.1.ne_nil, suffix, List.length_cons, Nat.add_comm _ 1]
  rfl

/-- A number below a thousand has three digits at most. -/
private theorem length_decimal_lt {n : Nat} (small : n < 1000) : (decimal n).length ≤ 3 := by
  rw [decimal, List.length_map]
  exact Nat.toDigits_length 10 n 3 (by decide) small

/-- A numbered variant can be mentioned. -/
theorem IsAgentName.stem_numbered (isName : IsAgentName name) {n : Nat} (small : n < 1000) :
    IsStem (numberedName name .agent n) := by
  have short := length_decimal_lt small
  rw [isName.numberedName_eq]
  exact (isName.stem.1.cut (by omega)).number (decimal_ne_nil n) fun u inside =>
    isDigit_decimal inside

/-- A numbered variant that is not reserved is a name. -/
theorem IsAgentName.numbered (isName : IsAgentName name) {n : Nat} (small : n < 1000)
    (free : isReserved (numberedName name .agent n) = false) :
    IsAgentName (numberedName name .agent n) := by
  have short := length_decimal_lt small
  have isStem := isName.stem_numbered small
  have cut : IsStem (cutStem (withoutNumber name .agent) (40 - (1 + (decimal n).length))) :=
    isName.stem.1.cut (by omega)
  have some_ := List.length_pos_iff.mpr cut.ne_nil
  have digits := List.length_pos_iff.mpr (decimal_ne_nil n)
  have most := length_cutStem_le (withoutNumber name .agent) (40 - (1 + (decimal n).length))
  have length : (numberedName name .agent n).length
      = (cutStem (withoutNumber name .agent) (40 - (1 + (decimal n).length))).length +
        ((decimal n).length + 1) := by
    rw [isName.numberedName_eq, List.length_append, List.length_cons]
  exact ⟨isStem, by omega, by omega, free⟩

/-- Only cutting a stem makes a variant reserved. -/
theorem IsAgentName.free_of_short (isName : IsAgentName name)
    (short : (withoutNumber name .agent).length ≤ 36) {n : Nat} (small : n < 1000) :
    isReserved (numberedName name .agent n) = false := by
  have digits := length_decimal_lt small
  rw [isName.numberedName_eq, isReserved_number _ fun u inside =>
    isDigit_decimal inside, isName.stem.1.cut_eq (by omega)]
  have free := isName.free
  obtain ⟨-, whole | ⟨digits, parts, all⟩⟩ := isName.stem
  · rw [isReserved, Bool.or_eq_false_iff] at free
    rw [← whole]
    exact free.2
  · rwa [parts, isReserved_number _ all] at free

/-- The digits behind the last hyphen are the same. -/
private theorem digits_of_append {before before' digits digits' : Text}
    (all : ∀ u ∈ digits, isDigit u = true) (all' : ∀ u ∈ digits', isDigit u = true)
    (same : before ++ 45 :: digits = before' ++ 45 :: digits') : digits = digits' := by
  have ending : ∀ {before digits : Text}, (∀ u ∈ digits, isDigit u = true) →
      (before ++ 45 :: digits).reverse.takeWhile isDigit = digits.reverse := by
    intro before digits all
    rw [List.reverse_append, List.reverse_cons, List.append_assoc,
      List.takeWhile_append_of_pos fun u inside => all u (List.mem_reverse.mp inside)]
    exact List.append_nil _
  rw [← List.reverse_inj, ← ending all, same, ending all']

/-- The variants of a name have different keys. -/
theorem IsAgentName.numbered_injective (isName : IsAgentName name) {toLowerCase : Text → Text}
    (ascii : LowersAscii toLowerCase) {m n : Nat} (small : m < 1000) (small' : n < 1000)
    (same : nameKey toLowerCase (numberedName name .agent m) = nameKey toLowerCase
      (numberedName name .agent n)) :
    m = n := by
  -- The key ends with the hyphen and the decimal.
  have lowered : ∀ {n}, n < 1000 → ∃ before,
    nameKey toLowerCase (numberedName name .agent n) = before ++ 45 :: decimal n := by
    intro n small
    have mention := (isName.stem_numbered small).mention
    have decimals : (decimal n).map asciiLower = decimal n := (List.map_congr_left fun u inside =>
      asciiLower_digit (isDigit_decimal inside)).trans (List.map_id _)
    rw [(nameKey_of_isMentionName ascii mention).1,
      ascii _ (ascii_of_units (isMentionName_units mention)),
      isName.numberedName_eq, List.map_append, List.map_cons, decimals]
    exact ⟨_, rfl⟩
  obtain ⟨before, isKey⟩ := lowered small
  obtain ⟨before', isKey'⟩ := lowered small'
  rw [isKey, isKey'] at same
  -- So the decimals agree, and with them the numbers.
  have decimals := digits_of_append (fun _ => isDigit_decimal) (fun _ => isDigit_decimal) same
  rw [← readDigits_decimal m, decimals, readDigits_decimal]

end

end Khala
