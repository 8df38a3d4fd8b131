import Khala.Contracts.NameCollisions
import Khala.Contracts.NumberedNames
import Mathlib.Data.Finset.Card

/-! New names in a channel are fresh: there are more numbered variants than names that are taken. -/

namespace Khala

open Js

variable {toLowerCase : Text → Text} {username harness : Text} {taken : Finset Text}
    {label : Option Text}

/-- Among more indices than keys that are used, one has a key that is not. -/
private theorem exists_unused (used : Finset Text) (key : Nat → Text) {indices : List Nat}
    (distinct : indices.Nodup) (injective : ∀ m ∈ indices, ∀ n ∈ indices, key m = key n → m = n)
    (few : used.card < indices.length) :
    ∃ n ∈ indices, key n ∉ used := by
  -- More indices than names used: their keys are as many as the indices.
  by_contra all
  have inside : indices.toFinset.image key ⊆ used := by
    intro k isKey
    obtain ⟨n, member, rfl⟩ := Finset.mem_image.mp isKey
    by_contra free
    exact all ⟨n, List.mem_toFinset.mp member, free⟩
  have count : (indices.toFinset.image key).card = indices.length := by
    rw [Finset.card_image_of_injOn, List.toFinset_card_of_nodup distinct]
    intro m member n member' same
    exact injective m (List.mem_toFinset.mp member) n (List.mem_toFinset.mp member') same
  have := Finset.card_le_card inside
  omega

/-! ## Default names -/

/-- A default name is trimmed at its start only. -/
private theorem trim_default (username harness : Text) (n : Nat) :
    trim (defaultAgentName username harness n) = defaultAgentName (username.dropWhile isWhite)
      harness n := by
  have units := defaultTail_units harness n
  have tail := defaultTail_ne_nil harness n
  -- The tail has no blank in it, so what is trimmed is in front.
  have first : ∀ u ∈ defaultTail harness n, isWhite u = false :=
    fun u inside => not_white (units u inside)
  have front : (username ++ defaultTail harness n).dropWhile isWhite = username.dropWhile isWhite
    ++ defaultTail harness n := by
    rw [List.dropWhile_append]
    split
    · rename_i white
      rw [List.isEmpty_iff.mp white, List.nil_append]
      cases whole : defaultTail harness n with
      | nil => rfl
      | cons u rest =>
        rw [List.dropWhile_cons, first u (whole ▸ List.mem_cons_self), if_neg Bool.false_ne_true]
    · rfl
  -- From the back the first unit is one of the tail.
  rw [defaultAgentName_eq, defaultAgentName_eq, trim, front, List.reverse_append]
  cases reversed : (defaultTail harness n).reverse with
  | nil => exact absurd (List.reverse_eq_nil_iff.mp reversed) tail
  | cons u rest =>
    have last : isWhite u = false := first u (List.mem_reverse.mp (reversed ▸ List.mem_cons_self))
    rw [List.cons_append, List.dropWhile_cons, last, if_neg Bool.false_ne_true, ← List.cons_append,
      ← reversed, ← List.reverse_append,
      List.reverse_reverse]

/-- Default names with different numbers have different keys. -/
theorem nameKey_default_injective (lowers : LowersTail toLowerCase) (username harness : Text) :
    Function.Injective fun n => nameKey toLowerCase (defaultAgentName username harness n) := by
  intro m n same
  simp only [nameKey, trim_default] at same
  exact default_injective lowers _ harness same

/-! ## Fresh names -/

/-- No taken name equals the name where case is ignored. -/
def IsFresh (toLowerCase : Text → Text) (taken : Finset Text) (name : Text) : Prop :=
  nameKey toLowerCase name ∉ takenNames toLowerCase taken

/-- No more names are taken than were put in. -/
theorem card_takenNames_le (taken : Finset Text) :
    (takenNames toLowerCase taken).card ≤ taken.card :=
  Finset.card_image_le

/-- A title is a name as it is. -/
theorem isAgentName_title {title : Text}
    (titled : titledName toLowerCase harness label = some title) : IsAgentName title := by
  -- The title is the label after its check.
  obtain ⟨label, -, checked⟩ := Option.bind_eq_some_iff.mp titled
  split at checked
  · cases checked
  · cases result : checkName label .agent with
    | error error =>
      rw [result] at checked
      cases checked
    | ok name =>
      rw [result] at checked
      obtain rfl := Option.some.inj checked
      obtain ⟨rfl, isName⟩ := checkName_agent.mp result
      exact isName

/-- What a title's number makes of it is reserved at no number. -/
def FreeVariants (title : Text) : Prop :=
  ∀ n, 2 ≤ n → n < 1000 → isReserved (numberedName title .agent n) = false

/-- A title whose stem leaves room for every number has no reserved variant. -/
theorem freeVariants_short {title : Text} (isName : IsAgentName title)
    (short : (withoutNumber title .agent).length ≤ 36) :
    FreeVariants title :=
  fun _ _ small => isName.free_of_short short small

/-- A numbered variant of a title, or the title itself, is a name. -/
theorem isAgentName_suggestion {title : Text} (isName : IsAgentName title) (used : Finset Text) :
    IsAgentName (channelNameSuggestion toLowerCase title .agent used) := by
  -- The title has no blanks around it.
  have trimmed := trim_of_isMentionName isName.mention
  rw [channelNameSuggestion, trimmed]
  -- Some candidate was accepted, or the title itself is the suggestion.
  cases result : ((List.range' 2 998).map (numberedName title .agent)).find? fun candidate =>
      decide (nameKey toLowerCase candidate ∉ takenNames toLowerCase used)
        && (checkName candidate .agent).isOk with
  | none => exact isName
  | some candidate =>
    -- A numbered candidate can be mentioned, and its check says the rest.
    obtain ⟨n, inside, rfl⟩ := List.mem_map.mp (List.mem_of_find?_eq_some result)
    have bounds := List.mem_range'_1.mp inside
    have accepted := List.find?_some result
    rw [Bool.and_eq_true] at accepted
    have mention := (isName.stem_numbered (show n < 1000 by omega)).mention
    have checked := (checkName_agent.mp (checkName_isOk accepted.2)).2
    rwa [trim_of_isMentionName mention] at checked

/-- A name that comes from a title is accepted. -/
theorem isAgentName_titled {title : Text}
    (titled : titledName toLowerCase harness label = some title) :
    IsAgentName (freeAgentName toLowerCase username harness taken label) := by
  have isName := isAgentName_title titled
  rw [freeAgentName]
  simp only [titled]
  split
  · exact isAgentName_suggestion isName _
  · exact isName

/-- One of the default names is free. -/
private theorem isFresh_default (lowers : LowersTail toLowerCase) (few : taken.card < 998)
    (untitled : titledName toLowerCase harness label = none) :
    IsFresh toLowerCase taken (freeAgentName toLowerCase username harness taken label) := by
  have used := @card_takenNames_le toLowerCase taken
  obtain ⟨n, inside, unused⟩ := @exists_unused (takenNames toLowerCase taken)
    (fun n => nameKey toLowerCase (defaultAgentName username harness n))
      (List.range' 1 999) List.nodup_range'
    (fun m _ n _ same => nameKey_default_injective lowers username harness same)
      (by rw [List.length_range']; omega)
  rw [freeAgentName]
  simp only [untitled]
  cases result : (List.range' 1 999).find? fun n =>
      decide (nameKey toLowerCase (defaultAgentName username harness n) ∉ takenNames
        toLowerCase taken) with
  | some k => simpa [IsFresh] using List.find?_some result
  | none => exact absurd (List.find?_eq_none.mp result n inside) (by simpa using unused)

/-- A title, or one of its variants, is free. -/
private theorem isFresh_titled (ascii : LowersAscii toLowerCase) (few : taken.card < 998)
    {title : Text} (titled : titledName toLowerCase harness label = some title)
    (free : FreeVariants title) :
    IsFresh toLowerCase taken (freeAgentName toLowerCase username harness taken label) := by
  -- The title is a name of an agent, so its variants are numbered properly.
  have isName := isAgentName_title titled
  rw [freeAgentName]
  simp only [titled]
  split
  · -- The keys of the names that are taken are taken as names, so that they are their own keys.
    have used := @card_takenNames_le toLowerCase taken
    have again := @card_takenNames_le toLowerCase (takenNames toLowerCase taken)
    -- There are more numbers than names in use, so one variant is unused.
    obtain ⟨n, inside, unused⟩ :=
      @exists_unused (takenNames toLowerCase (takenNames toLowerCase taken))
      (fun n => nameKey toLowerCase (numberedName title .agent n))
        (List.range' 2 998) List.nodup_range'
      (fun m inside n inside' same =>
        isName.numbered_injective ascii (by have := List.mem_range'_1.mp inside; omega)
        (by have := List.mem_range'_1.mp inside'; omega) same) (by rw [List.length_range']; omega)
    have bounds := List.mem_range'_1.mp inside
    have accepted := (isName.numbered (by omega) (free n bounds.1 (by omega))).checkName
    rw [channelNameSuggestion, trim_of_isMentionName isName.mention]
    cases result : ((List.range' 2 998).map (numberedName title .agent)).find? fun candidate =>
        decide (nameKey toLowerCase candidate ∉ takenNames toLowerCase
          (takenNames toLowerCase taken))
          && (checkName candidate .agent).isOk with
    -- That variant would have been found.
    | none =>
      have refused := List.find?_eq_none.mp result _ (List.mem_map_of_mem inside)
      rw [accepted] at refused
      exact absurd (Bool.and_eq_true_iff.mpr ⟨decide_eq_true unused, rfl⟩) refused
    -- The one found is unused among the keys, and each key of a name is its own.
    | some candidate =>
      obtain ⟨k, inside', rfl⟩ := List.mem_map.mp (List.mem_of_find?_eq_some result)
      have unused' := List.find?_some result
      rw [Bool.and_eq_true, decide_eq_true_eq] at unused'
      have bounds' := List.mem_range'_1.mp inside'
      have keys :=
        nameKey_of_isMentionName ascii (isName.stem_numbered (show k < 1000 by omega)).mention
      intro held
      refine unused'.1 (Finset.mem_image.mpr ⟨_, held, ?_⟩)
      rw [Option.getD_some, keys.1, keys.2]
  · rename_i free
    exact free

/-- The name that a new agent gets is fresh, as long as its title has no variant that is reserved.
-/
theorem isFresh_freeAgentName (ascii : LowersAscii toLowerCase) (lowers : LowersTail toLowerCase)
    (few : taken.card < 998)
    (free : ∀ title, titledName toLowerCase harness label = some title → FreeVariants title) :
    IsFresh toLowerCase taken (freeAgentName toLowerCase username harness taken label) := by
  cases titled : titledName toLowerCase harness label with
  | none => exact isFresh_default lowers few titled
  | some title => exact isFresh_titled ascii few titled (free title titled)

/-! ## The laws -/

/-- A new agent's name is fresh, unless its title has a reserved variant, and accepted when it comes
from a title. A member's id is mapped to who held first the name that its last late member has: with
distinct ids, exactly when someone else held the member's name before. -/
theorem channel_names {τ : Type} [LinearOrder τ] (ascii : LowersAscii toLowerCase)
    (lowers : LowersTail toLowerCase) :
    (∀ username harness label (taken : Finset Text), taken.card < 998 →
      (∀ title, titledName toLowerCase harness label = some title → FreeVariants title) →
      IsFresh toLowerCase taken (freeAgentName toLowerCase username harness taken label))
    ∧ (∀ title, IsAgentName title → (withoutNumber title .agent).length ≤ 36 → FreeVariants title)
    ∧ (∀ username harness label taken title, titledName toLowerCase harness label = some title →
      (checkName (freeAgentName toLowerCase username harness taken label) .agent).isOk = true)
    ∧ (∀ (members : List (NamedMember τ)) id holder,
      (nameCollisions toLowerCase members).get id = some holder
      ↔ ∃ i m, members[i]? = some m ∧ m.id = id ∧ Late toLowerCase members m holder
        ∧ ∀ j other, members[j]? = some other → other.id = id → Before (m, i) (other, j) →
          ∀ id', ¬ Late toLowerCase members other id')
    ∧ ∀ members : List (NamedMember τ), (members.map (·.id)).Nodup →
    ∀ i m, members[i]? = some m → ∀ holder,
      (nameCollisions toLowerCase members).get m.id = some holder
        ↔ nameKey toLowerCase m.name ≠ [] ∧ ∃ j first, members[j]? = some first
          ∧ Before (first, j) (m, i)
          ∧ nameKey toLowerCase first.name = nameKey toLowerCase m.name ∧ first.id ≠ m.id
          ∧ first.id = holder
          ∧ ∀ k other, members[k]? = some other → Before (other, k) (m, i) →
            nameKey toLowerCase other.name = nameKey toLowerCase m.name → other.id ≠ m.id →
            ¬ Before (other, k) (first, j) := by
  refine ⟨fun username harness label taken few free => isFresh_freeAgentName ascii lowers few free,
    fun title isName short => freeVariants_short isName short,
      fun username harness label taken title titled => ?_,
    fun members id holder => nameCollisions_eq_some,
    fun members distinct i m there holder => nameCollisions_distinct distinct there holder⟩
  -- A title that is used is a name that passes the check.
  rw [(isAgentName_titled titled).checkName]
  rfl

/-- A title that someone has is numbered, and the second of two members of one name is mapped to the
first. -/
theorem channel_names_ascii :
    IsFresh (List.map asciiLower) {lit "Review"}
      (freeAgentName (List.map asciiLower) (lit "ann") (lit "qwen") {lit "Review"}
        (some (lit " review")))
    ∧ (nameCollisions (List.map asciiLower)
      [⟨lit "a", lit "bob", some 1⟩, ⟨lit "b", lit "Bob ", none⟩]).get (lit "b")
      = some (lit "a") := by
  obtain ⟨fresh, short, -, -, distinct⟩ :=
    @channel_names (List.map asciiLower) Nat _ (fun _ _ => rfl)
    (fun _ _ _ _ => List.map_append)
  -- The first part follows from the law, as the title has enough variants.
  constructor
  · refine fresh _ _ _ _ (by decide) fun title titled => ?_
    obtain rfl : lit "review" = title :=
      Option.some.inj (titled.symm.trans (by decide +kernel)).symm
    exact short _ ⟨⟨by decide, by decide⟩, by decide, by decide, by decide⟩ (by decide)
  -- The second name is like the first, which comes earlier and so keeps it.
  · refine (distinct [⟨lit "a", lit "bob", some 1⟩, ⟨lit "b", lit "Bob ", none⟩]
      (by decide) 1 _ rfl (lit "a")).mpr
      ⟨by decide, 0, _, rfl, ⟨by decide, by decide⟩, by decide, by decide, rfl, ?_⟩
    intro k other there _ _ apart
    match k with
    | 0 => exact fun before => before.2 rfl
    | 1 => exact absurd (congrArg NamedMember.id (Option.some.inj there)).symm apart
    | k + 2 => cases there

/-- A title that makes room for two digits by leaving a reserved word at its end. -/
def cutTitle : Text := lit "aaaaaaaaaaaaaaaaaaaaaaaaaaaaaa-owner_ab1"

/-- The title that is cut is an agent's name. -/
private theorem isAgentName_cutTitle : IsAgentName cutTitle :=
  ⟨⟨by decide +kernel, by decide +kernel⟩, by decide, by decide, by decide +kernel⟩

/-- From ten on a number has two digits. -/
private theorem ten_le_length {n : Nat} (large : 10 ≤ n) : 2 ≤ (decimal n).length := by
  by_contra short
  obtain ⟨u, only⟩ := List.length_eq_one_iff.mp
    (Nat.le_antisymm (Nat.lt_succ_iff.mp (Nat.not_le.mp short))
      (List.length_pos_iff.mpr (decimal_ne_nil n)))
  have digit : isDigit u = true := isDigit_decimal (only ▸ List.mem_cons_self)
  simp only [isDigit, Bool.and_eq_true, decide_eq_true_eq, UInt16.le_iff_toNat_le,
    UInt16.toNat_ofNat] at digit
  have value := readDigits_decimal n
  rw [only, readDigits, List.foldl_cons, List.foldl_nil, digitValue] at value
  omega

/-- From ten on all variants are reserved. -/
private theorem isReserved_cutTitle {n : Nat} (large : 10 ≤ n) (small : n < 1000) :
    isReserved (numberedName cutTitle .agent n) = true := by
  -- The number has two or three digits, and the stem is cut to make room for them.
  have most : (decimal n).length ≤ 3 := by
    rw [decimal, List.length_map]
    exact Nat.toDigits_length 10 n 3 (by decide) small
  have least := ten_le_length large
  -- In both cases the cut ends in the name of an owner.
  have cut : cutStem (withoutNumber cutTitle .agent)
    (40 - (1 + (decimal n).length)) = lit "aaaaaaaaaaaaaaaaaaaaaaaaaaaaaa-owner" := by
    rcases Nat.lt_or_eq_of_le most with two | three
    · rw [show (decimal n).length = 2 by omega]
      decide +kernel
    · rw [three]
      decide +kernel
  rw [isAgentName_cutTitle.numberedName_eq, cut, isReserved_number _ fun u inside =>
    isDigit_decimal inside]
  decide +kernel

/-- The title and its variants with one digit. -/
def cutTaken : Finset Text :=
  insert cutTitle ((List.range' 2 8).map (numberedName cutTitle .agent)).toFinset

/-- When nine names are taken, the title itself is returned. -/
theorem freeAgentName_cutTitle :
    freeAgentName (List.map asciiLower) (lit "ann")
      (lit "qwen") cutTaken (some cutTitle) = cutTitle := by
  -- The title is taken, and none of its numbered variants is accepted.
  have ascii : LowersAscii (List.map asciiLower) := fun _ _ => rfl
  have titled : titledName (List.map asciiLower) (lit "qwen") (some cutTitle) = some cutTitle := by
    rw [titledName, Option.bind_some, if_neg (by decide +kernel), isAgentName_cutTitle.checkName]
    rfl
  have held : nameKey (List.map asciiLower) cutTitle ∈ takenNames (List.map asciiLower) cutTaken :=
    Finset.mem_image_of_mem _ (Finset.mem_insert_self _ _)
  have none_ : ((List.range' 2 998).map (numberedName cutTitle .agent)).find? (fun candidate =>
      decide (nameKey (List.map asciiLower) candidate ∉ takenNames (List.map asciiLower)
        (takenNames (List.map asciiLower) cutTaken))
        && (checkName candidate .agent).isOk) = none := by
    refine List.find?_eq_none.mpr fun candidate inside accepted => ?_
    obtain ⟨n, among, rfl⟩ := List.mem_map.mp inside
    have bounds := List.mem_range'_1.mp among
    rw [Bool.and_eq_true, decide_eq_true_eq] at accepted
    have mention := (isAgentName_cutTitle.stem_numbered (show n < 1000 by omega)).mention
    -- A variant with one digit is taken as well.
    by_cases small : n < 10
    · have taken : numberedName cutTitle .agent n ∈ cutTaken := by
        refine Finset.mem_insert_of_mem
          (List.mem_toFinset.mpr (List.mem_map_of_mem (List.mem_range'_1.mpr ⟨bounds.1, ?_⟩)))
        omega
      have keys := nameKey_of_isMentionName ascii mention
      refine accepted.1 (Finset.mem_image.mpr ⟨_, Finset.mem_image_of_mem _ taken, ?_⟩)
      rw [keys.1, keys.2]
    -- A variant with more digits is a reserved name.
    · have free := (checkName_agent.mp (checkName_isOk accepted.2)).2.free
      rw [trim_of_isMentionName mention, isReserved_cutTitle (Nat.not_lt.mp small) (by omega)]
        at free
      cases free
  rw [freeAgentName]
  simp only [titled]
  rw [if_pos held, channelNameSuggestion, trim_of_isMentionName isAgentName_cutTitle.mention, none_]
  rfl

/-- A member who held a name before another, and took it again. -/
def backAgain : List (NamedMember Nat) :=
  [⟨lit "a", lit "bob", some 1⟩, ⟨lit "b", lit "bob", some 2⟩, ⟨lit "a", lit "bob", some 3⟩]

/-- Nine names can be enough to take every name that is tried; and a member who held a name first is
not mapped to one of another id who held it in between. -/
theorem channel_names_exceptions :
    (cutTaken.card < 998 ∧ ¬ IsFresh (List.map asciiLower) cutTaken
      (freeAgentName (List.map asciiLower) (lit "ann") (lit "qwen") cutTaken (some cutTitle)))
    ∧ (nameCollisions (List.map asciiLower) backAgain).get (lit "a") = none := by
  refine ⟨⟨?_, ?_⟩, ?_⟩
  · have most : cutTaken.card ≤ 8 + 1 :=
      Nat.le_trans (Finset.card_insert_le _ _)
        (Nat.succ_le_succ (Nat.le_trans (List.toFinset_card_le _) (Nat.le_of_eq (by simp))))
    omega
  · rw [freeAgentName_cutTitle]
    exact fun fresh => fresh (Finset.mem_image_of_mem _ (Finset.mem_insert_self _ _))
  · have ordered : orderedMembers backAgain = backAgain.zipIdx :=
      List.mergeSort_of_pairwise (by decide)
    rw [nameCollisions, ordered]
    decide +kernel

end Khala
