import Khala.Agent.FrameBounds
import Khala.Agent.FrameLaws

/-! When selecting frames returns, and that doing it again and again delivers everything. -/

namespace Khala

open Js Decode

section

variable (dateParse : Text → Option Int)

/-- Every entry of the group has a time. -/
def FrameGroup.Dated (group : FrameGroup) : Prop :=
  ∀ entry ∈ group.entries, (dateParse entry.ts).isSome

instance (group : FrameGroup) : Decidable (group.Dated dateParse) :=
  inferInstanceAs (Decidable (∀ _ ∈ _, _))

/-- A frame within the budget can show the entry, whole or with nothing left of its body. -/
def FrameGroup.Shows (group : FrameGroup) (budget : Int) (entry : InboxEntry) : Prop :=
  Fits (frameText dateParse group.name group.you) budget [entry]
    ∨ Fits (frameText dateParse group.name group.you) budget [cutEntry TRUNCATED entry 0]

/-- The group's first entry can be shown. -/
def FrameGroup.Opens (group : FrameGroup) (budget : Int) : Prop :=
  ∀ entry, group.entries.head? = some entry → group.Shows dateParse budget entry

/-- The group's own frame fits the budget. -/
def FrameGroup.FitsAlone (group : FrameGroup) (budget : Nat) : Prop :=
  ∃ frame consumed, selectFrame dateParse group budget true = .ok ⟨some frame, consumed⟩

variable {dateParse}

/-! ## One group -/

/-- Entries with times render. -/
theorem frameText_of_dated {channel : Text} {you : Option Text} {entries : List InboxEntry}
    (dated : ∀ entry ∈ entries, (dateParse entry.ts).isSome) :
    ∃ text, frameText dateParse channel you entries = .ok text := by
  obtain ⟨lines, rendered⟩ := mapM_of_parses dated
  simp [frameText, renderFrame, rendered]

/-- The loop over dated entries returns, provided that the first entry of an empty frame can be
shown when it must be. -/
theorem selectEntries_returns {channel : Text} {you : Option Text} {budget : Int} {truncate : Bool}
    {rendered rest : List InboxEntry}
    (datedBefore : ∀ entry ∈ rendered, (dateParse entry.ts).isSome)
    (dated : ∀ entry ∈ rest, (dateParse entry.ts).isSome)
    (opens : truncate = true → rendered = [] → ∀ entry, rest.head? = some entry →
      Fits (frameText dateParse channel you) budget [entry]
      ∨ Fits (frameText dateParse channel you) budget [cutEntry TRUNCATED entry 0])
    (consumedCount : Nat) :
    ∃ result, selectEntries (frameText dateParse channel you) TRUNCATED budget truncate rendered consumedCount rest
      = .ok result := by
  -- The loop goes over the entries that are left, each of which can be rendered.
  induction rest generalizing rendered consumedCount with
  | nil => exact ⟨_, rfl⟩
  | cons entry rest ih =>
    rw [selectEntries]
    split
    · exact ⟨_, rfl⟩
    -- With this entry the frame still renders, so only its size matters.
    · have mine := dated entry List.mem_cons_self
      have longer : ∀ other ∈ rendered ++ [entry], (dateParse other.ts).isSome := by
        intro other member
        rcases List.mem_append.mp member with before | last
        · exact datedBefore other before
        · exact List.mem_singleton.mp last ▸ mine
      obtain ⟨text, shown⟩ := @frameText_of_dated dateParse channel you _ longer
      rw [shown]
      simp only [bind, Except.bind]
      by_cases large : (utf8Length text : Int) > budget
      · rw [if_pos large]
        -- Too large: the loop stops, unless this is the first entry and may be cut.
        by_cases stop : rendered ≠ [] ∨ truncate = false
        · rw [if_pos stop]
          exact ⟨_, rfl⟩
        · -- The search stops at a place that fits: the entry fits with nothing left of its body.
          rw [if_neg stop]
          obtain ⟨empty, may⟩ := not_or.mp stop
          rw [not_not] at empty
          subst empty
          rw [Bool.not_eq_false] at may
          obtain ⟨time, parsed⟩ := Option.isSome_iff_exists.mp mine
          -- The sizes of the cuts grow, so the search has a last place that fits.
          obtain ⟨size, grows, places⟩ := cutFits_initial parsed channel you budget
          obtain ⟨low, searched, -, -, found, -⟩ :=
            Bisect.lastFrom_eq (fun place => (places place).choose_spec.2.2)
            (fun earlier place before good => by
              simp only [decide_eq_true_eq] at good ⊢
              have := grows earlier place before
              omega)
            (codePoints entry.body).length 0 (codePoints entry.body).length (Nat.zero_le _)
              (Nat.le_refl _)
          obtain ⟨text', rendered', sized, -⟩ := places low
          -- That place fits by its search, or it is the empty cut, which fits by assumption.
          have within : ¬ (utf8Length text' : Int) > budget := by
            rcases found with zero | good
            · subst zero
              rcases opens may rfl entry rfl with ⟨whole, shown', fits⟩ | ⟨cut, shown', fits⟩
              · rw [List.nil_append] at shown
                rw [shown] at shown'
                cases shown'
                omega
              · rw [rendered'] at shown'
                cases shown'
                omega
            · simp only [decide_eq_true_eq] at good
              omega
          rw [show (Bodied.body entry) = entry.body from rfl, searched]
          simp only [pure, Except.pure, rendered', if_neg within]
          exact ⟨_, rfl⟩
      -- It fits, and the loop goes on with the entry among those shown.
      · rw [if_neg large]
        exact ih longer (fun other member => dated other (List.mem_cons_of_mem _ member))
          (fun _ none => absurd none (by simp)) _

/-- A dated group gets its choice whenever it may be passed over, and otherwise when its first entry
can be shown. -/
theorem selectFrame_returns {group : FrameGroup} {budget : Int} {truncate : Bool}
    (dated : group.Dated dateParse) (opens : truncate = true → group.Opens dateParse budget) :
    ∃ choice, selectFrame dateParse group budget truncate = .ok choice := by
  obtain ⟨⟨final, count⟩, ran⟩ :=
    @selectEntries_returns dateParse group.name group.you budget truncate [] group.entries
    (by simp) dated (fun may _ entry first => opens may entry first) 0
  unfold selectFrame selectBounded
  rw [ran]
  cases finals : final with
  | nil => exact ⟨_, rfl⟩
  | cons first others =>
    -- What the loop ends with has been rendered before.
    have again : ∃ text, frameText dateParse group.name group.you (first :: others) = .ok text := by
      rcases selectEntries_cases ran (Nat.zero_le _)
        with ⟨taken, takes⟩ | ⟨-, -, -, entry, low, takes⟩
      · refine frameText_of_dated fun entry member => dated entry ?_
        rw [← finals, takes.final_eq, List.nil_append] at member
        exact List.mem_of_mem_take member
      · obtain ⟨text, shown, -⟩ := takes.fits
        exact ⟨text, finals ▸ shown⟩
    obtain ⟨text, shown⟩ := again
    simp only [bind, Except.bind, shown]
    exact ⟨_, rfl⟩

/-- A group that may be cut and has an entry gets a frame. -/
theorem frame_of_selectFrame {group : FrameGroup} {budget : Int} {choice : FrameChoice InboxEntry}
    (selects : selectFrame dateParse group budget true = .ok choice) (some_ : group.entries ≠ []) :
    ∃ frame consumed, choice = ⟨some frame, consumed⟩ := by
  -- The selection returned, so only the list it shows needs a look.
  unfold selectFrame selectBounded at selects
  cases ran :
    selectEntries (frameText dateParse group.name group.you) TRUNCATED budget true [] 0
    group.entries with
  | error error =>
    rw [ran] at selects
    cases selects
  | ok result =>
    obtain ⟨final, count⟩ := result
    rw [ran] at selects
    simp only [bind, Except.bind] at selects
    cases finals : final with
    | nil =>
      rcases selectEntries_cases ran (Nat.zero_le _)
        with ⟨taken, takes⟩ | ⟨-, -, -, entry, low, takes⟩
      · -- The loop takes at least the first entry.
        have positive := takes.progress rfl rfl some_
        have nothing := takes.final_eq
        rw [finals, List.nil_append, eq_comm, List.take_eq_nil_iff] at nothing
        rcases nothing with zero | none
        · omega
        · exact absurd none some_
      -- A cut entry is one entry, so something is shown.
      · have cut := takes.final_eq
        rw [finals] at cut
        cases cut
    | cons first others =>
      rw [finals] at selects
      cases shown : frameText dateParse group.name group.you (first :: others) with
      | error error => simp [shown] at selects
      | ok text =>
        simp only [shown, pure, Except.pure, Except.ok.injEq] at selects
        exact ⟨text, _, selects.symm⟩

/-- A group whose first entry cannot be shown throws where it may not be passed over. -/
theorem opens_of_selectFrame {group : FrameGroup} {budget : Int} {choice : FrameChoice InboxEntry}
    (selects : selectFrame dateParse group budget true = .ok choice) :
    group.Opens dateParse budget := by
  intro entry first
  -- The entry asked for is the first of the group.
  obtain ⟨rest, entries⟩ : ∃ rest, group.entries = entry :: rest := by
    cases list : group.entries with
    | nil =>
      rw [list] at first
      cases first
    | cons head tail =>
      rw [list] at first
      cases first
      exact ⟨tail, rfl⟩
  unfold selectFrame selectBounded at selects
  rw [entries, selectEntries, if_neg (by decide)] at selects
  simp only [bind, Except.bind, List.nil_append] at selects
  -- Alone it either fits as it is or was cut.
  cases shown : frameText dateParse group.name group.you [entry] with
  | error error => simp [shown] at selects
  | ok text =>
    by_cases large : (utf8Length text : Int) > budget
    · -- The entry was cut, and fits all the more with nothing left of its body.
      obtain ⟨time, dated⟩ := dated_of_frame (frameText_eq_ok.mp shown)
      obtain ⟨size, grows, places⟩ := cutFits_initial dated group.name group.you budget
      obtain ⟨none, shown0, sized0, -⟩ := places 0
      refine .inr ⟨none, shown0, ?_⟩
      simp only [shown, if_pos large] at selects
      cases searched :
        Bisect.lastFrom (cutFits (frameText dateParse group.name group.you) TRUNCATED budget entry)
          (codePoints (Bodied.body entry)).length 0 (codePoints (Bodied.body entry)).length with
      | error error => simp [searched] at selects
      | ok low =>
        obtain ⟨text', rendered, sized, -⟩ := places low
        have least := grows 0 low (Nat.zero_le low)
        simp only [searched, rendered] at selects
        by_cases large : (utf8Length text' : Int) > budget
        · simp [large] at selects
        · omega
    · exact .inl ⟨text, shown, Int.not_lt.mp large⟩

/-! ## All groups -/

/-- The loop over dated groups returns, provided that the first group can be shown while nothing is
selected. -/
theorem selectGroups_returns {budget used : Nat} {selected : List SelectedGroup}
    {groups : List FrameGroup} (dated : ∀ group ∈ groups, group.Dated dateParse)
    (filled : ∀ group ∈ groups, group.entries ≠ [])
    (opens : selected = [] → used = 0 ∧ ∀ oldest, groups.head? = some oldest →
      oldest.Opens dateParse budget) :
    ∃ final, selectGroups dateParse budget selected used groups = .ok final := by
  -- The induction is on the groups that are left.
  induction groups generalizing selected used with
  | nil => exact ⟨_, rfl⟩
  | cons group rest ih =>
    have others := fun other member => dated other (List.mem_cons_of_mem group member)
    have filledOthers := fun other member => filled other (List.mem_cons_of_mem group member)
    rw [selectGroups]
    by_cases empty : selected = []
    · -- The first group gets its frame, and then something is selected.
      obtain ⟨zero, opens⟩ := opens empty
      obtain ⟨choice, selects⟩ := selectFrame_returns (dated group List.mem_cons_self) fun _ =>
        opens group rfl
      obtain ⟨frame, consumed, rfl⟩ :=
        frame_of_selectFrame selects (filled group List.mem_cons_self)
      have within := (selectFrame_frame selects).1
      have small : ¬ utf8Length frame > budget := by omega
      simp only [empty, zero, if_true, decide_true, Nat.cast_zero, Int.sub_zero, selects, bind,
        Except.bind, Nat.add_zero,
        Nat.zero_add, if_neg small, List.nil_append]
      exact ih others filledOthers fun none => absurd none (by simp)
    -- A later group may fit or not; the loop goes on either way.
    · have notFirst : decide (selected = []) = false := decide_eq_false empty
      obtain ⟨gap, gapped⟩ : ∃ gap : Nat, gap = if selected = [] then 0 else 1 := ⟨_, rfl⟩
      simp only [← gapped, notFirst]
      obtain ⟨⟨frame, consumed⟩, selects⟩ :=
        @selectFrame_returns dateParse group ((budget : Int) - used - gap) false
        (dated group List.mem_cons_self) fun may => absurd may (by decide)
      rw [selects]
      simp only [bind, Except.bind]
      cases frame with
      | none => exact ih others filledOthers fun none => absurd none empty
      | some frame =>
        simp only
        split
        · exact ih others filledOthers fun none => absurd none empty
        · exact ih others filledOthers fun none => absurd none (by simp)

/-- The first group is always selected. -/
theorem first_selected {budget : Nat} {group : FrameGroup} {rest : List FrameGroup}
    {final : List SelectedGroup}
    (selects : selectGroups dateParse budget [] 0 (group :: rest) = .ok final)
    (some_ : group.entries ≠ []) :
    group.Opens dateParse budget ∧ ∃ one more, final = one :: more ∧ one.group = group := by
  rw [selectGroups] at selects
  simp only [if_true, decide_true, Nat.cast_zero, Int.sub_zero, Nat.add_zero, Nat.zero_add,
    List.nil_append] at selects
  -- The first group gets its frame, since it has entries.
  cases choice : selectFrame dateParse group budget true with
  | error error =>
    rw [choice] at selects
    cases selects
  | ok choice' =>
    obtain ⟨frame, consumed, rfl⟩ := frame_of_selectFrame choice some_
    have within := (selectFrame_frame choice).1
    have small : ¬ utf8Length frame > budget := by omega
    simp only [choice, bind, Except.bind, if_neg small] at selects
    -- What is selected later comes behind it.
    obtain ⟨added, same, -⟩ := selectGroups_adds selects (by simp [bytesOf, joinLines]) (by omega)
    exact ⟨opens_of_selectFrame choice, _, added, same, rfl⟩

/-- The groups that are ordered are those with entries. -/
theorem mem_orderedGroups {groups : List FrameGroup} {group : FrameGroup} :
    group ∈ orderedGroups dateParse groups ↔ group ∈ groups ∧ group.entries ≠ [] := by
  simp [orderedGroups, List.mem_filter]

/-- The groups are in the order of their first entries. -/
theorem orderedGroups_sorted (groups : List FrameGroup) :
    (orderedGroups dateParse groups).Pairwise
      fun one two => (one.since dateParse).getD 0 ≤ (two.since dateParse).getD 0 := by
  have sorted := @List.pairwise_mergeSort _ (olderFirst dateParse)
    (fun a b c first second => by
      simp only [olderFirst, decide_eq_true_eq] at first second ⊢
      omega)
    (fun a b => by
      simp only [olderFirst, Bool.or_eq_true, decide_eq_true_eq]
      omega)
    (groups.filter fun group => group.entries ≠ [])
  exact sorted.imp fun {one two} older => by simpa [olderFirst] using older

/-- Selecting frames returns exactly when the oldest group can be shown, and then the oldest is
selected first. -/
theorem selectFrames_returns_iff {groups : List FrameGroup}
    (dated : ∀ group ∈ groups, group.Dated dateParse) (budget : Nat) :
    (∃ selected, selectFrames dateParse groups budget = .ok selected)
      ↔ ∀ oldest, (orderedGroups dateParse groups).head? = some oldest →
      oldest.Opens dateParse budget := by
  -- Only the groups with entries are looked at.
  unfold selectFrames
  have datedHere : ∀ group ∈ orderedGroups dateParse groups, group.Dated dateParse :=
    fun group member => dated group (mem_orderedGroups.mp member).1
  have filled : ∀ group ∈ orderedGroups dateParse groups, group.entries ≠ [] :=
    fun group member => (mem_orderedGroups.mp member).2
  constructor
  · intro ⟨selected, selects⟩ oldest first
    -- The oldest of them opens, because its frame was made.
    cases ordered : orderedGroups dateParse groups with
    | nil =>
      rw [ordered] at first
      cases first
    | cons group rest =>
      rw [ordered] at selects first filled
      cases first
      exact (first_selected selects (filled oldest List.mem_cons_self)).1
  -- And where it opens, no other group can fail.
  · intro opens
    exact selectGroups_returns datedHere filled fun _ => ⟨rfl, opens⟩

variable (dateParse)

/--
One bad channel blocks the others exactly when it is the oldest.

Among groups one of which has a frame of its own, something is selected if and only if the group
with the oldest first entry can show that entry at all.
-/
theorem others_selected_iff (groups : List FrameGroup) (budget : Nat)
    (dated : ∀ group ∈ groups, group.Dated dateParse)
    (fits : ∃ group ∈ groups, group.entries ≠ [] ∧ group.FitsAlone dateParse budget) :
    (∃ selected, selectFrames dateParse groups budget = .ok selected ∧ selected ≠ [])
      ↔ ∀ oldest, (orderedGroups dateParse groups).head? = some oldest →
      oldest.Opens dateParse budget := by
  rw [← selectFrames_returns_iff dated budget]
  constructor
  · intro ⟨selected, selects, _⟩
    exact ⟨selected, selects⟩
  · intro ⟨selected, selects⟩
    refine ⟨selected, selects, fun none => ?_⟩
    -- There is a group with entries, and the first of these is always selected.
    obtain ⟨group, member, filled, -⟩ := fits
    have inside : group ∈ orderedGroups dateParse groups := mem_orderedGroups.mpr ⟨member, filled⟩
    unfold selectFrames at selects
    cases ordered : orderedGroups dateParse groups with
    | nil =>
      rw [ordered] at inside
      cases inside
    | cons oldest rest =>
      have own : oldest ∈ orderedGroups dateParse groups := by simp [ordered]
      rw [ordered] at selects
      obtain ⟨-, one, more, same, -⟩ := first_selected selects (mem_orderedGroups.mp own).2
      rw [none] at same
      cases same

variable {dateParse}

/-- A frame is no shorter than the channel name in it, with its quotation marks escaped. -/
theorem escaped_le_frame {channel : Text} {you : Option Text} {entries : List InboxEntry}
    {text : Text} (shown : renderFrame dateParse channel entries you = some text) :
    (escapeQuotes channel).length ≤ text.length := by
  simp only [renderFrame, Option.bind_eq_bind, Option.bind_eq_some_iff, Option.pure_def,
    Option.some.injEq] at shown
  obtain ⟨lines, -, rfl⟩ := shown
  have named : escapeQuotes channel <:+: headerLine channel (shownName you) entries.length := by
    simp only [headerLine, List.append_assoc]
    rw [← List.append_assoc openTag]
    exact List.infix_append' _ _ _
  refine named.length_le.trans ?_
  simp only [List.append_assoc, List.length_append]
  exact Nat.le_add_right _ _

end

/-- A message of a channel, at the same time as any other. -/
def plainEntry (body : String) : InboxEntry :=
  ⟨lit "$1", lit "!r", lit "2025-10-02T10:04:00.000Z", lit "@a:b", lit "Maya", .human, .message,
    lit body, false⟩

/-- The time of those messages. -/
def plainTime : Text → Option Int := fun _ => some 1759399440000

def plainGroup : FrameGroup := ⟨some (lit "general"), lit "!r", [plainEntry "hi"], none⟩

/-- A room that was named with nothing but quotation marks. -/
def loudGroup : FrameGroup := ⟨some (List.replicate 11000 34), lit "!r", [plainEntry "hi"], none⟩

/-- The plain group fits into a frame of its own. -/
theorem plainGroup_fits : plainGroup.FitsAlone plainTime MAX_FRAME_BYTES := by
  have framed :
    ((selectFrame plainTime plainGroup MAX_FRAME_BYTES true).toOption.bind (·.frame)).isSome
    = true := by
    decide +kernel
  cases selects : selectFrame plainTime plainGroup MAX_FRAME_BYTES true with
  | error error =>
    rw [selects] at framed
    cases framed
  | ok choice =>
    obtain ⟨frame, consumed, rfl⟩ := frame_of_selectFrame selects (by decide)
    exact ⟨frame, consumed, selects⟩

/-- Two groups whose first entries are of one time stay in their order. -/
theorem ordered_pair {one two : FrameGroup} (filled : one.entries ≠ [] ∧ two.entries ≠ []) :
    orderedGroups plainTime [one, two] = [one, two] := by
  have kept :
    [one, two].filter (fun group => group.entries ≠ []) = [one, two] := by simp [filled.1, filled.2]
  have same : ∀ group : FrameGroup, group.entries ≠ [] →
    group.since plainTime = some 1759399440000 := by
    intro group some_
    obtain ⟨entry, rest, entries⟩ := List.exists_cons_of_ne_nil some_
    simp [FrameGroup.since, entries, plainTime]
  rw [orderedGroups, kept]
  exact List.mergeSort_of_pairwise (by simp [olderFirst, same one filled.1, same two filled.2])

/-- A room name of 11000 quotation marks takes more than a frame's bytes, and nothing is selected at
all. -/
theorem loud_channel_blocks :
    (∃ group ∈ [loudGroup, plainGroup], group.entries ≠ []
      ∧ group.FitsAlone plainTime MAX_FRAME_BYTES)
      ∧ ¬ ∃ selected, selectFrames plainTime [loudGroup, plainGroup] MAX_FRAME_BYTES = .ok selected
      ∧ selected ≠ [] := by
  refine ⟨⟨plainGroup, by simp, by decide, plainGroup_fits⟩, fun ⟨selected, selects, _⟩ => ?_⟩
  have dated : ∀ group ∈ [loudGroup, plainGroup], group.Dated plainTime := by
    intro group _ entry _
    rfl
  have opens := (selectFrames_returns_iff dated MAX_FRAME_BYTES).mp ⟨selected, selects⟩ loudGroup
    (by rw [ordered_pair ⟨List.cons_ne_nil _ _, List.cons_ne_nil _ _⟩]; rfl)
  -- Any frame of this group holds its escaped name.
  have large :
    ∀ shown, ¬ Fits (frameText plainTime loudGroup.name loudGroup.you) MAX_FRAME_BYTES shown := by
    intro shown ⟨text, rendered, within⟩
    have escaped := escaped_le_frame (frameText_eq_ok.mp rendered)
    have bytes := length_le_utf8Length text
    have name : (escapeQuotes loudGroup.name).length = 66000 := by
      have general : ∀ n, (escapeQuotes (List.replicate n 34)).length = 6 * n := by
        intro n
        induction n with
        | zero => rfl
        | succ n ih =>
          have quote : (lit "&quot;").length = 6 := by decide
          simp only [escapeQuotes, List.replicate_succ, List.flatMap_cons, if_true,
            List.length_append, quote] at ih ⊢
          omega
      exact general 11000
    simp only [MAX_FRAME_BYTES] at within
    omega
  exact (opens (plainEntry "hi") rfl).elim (large _) (large _)

/-- Two channels with ordinary names go out together. -/
theorem others_selected_plain :
    (∃ selected, selectFrames plainTime [plainGroup, plainGroup] MAX_FRAME_BYTES = .ok selected
      ∧ selected ≠ [])
      ↔ ∀ oldest, (orderedGroups plainTime [plainGroup, plainGroup]).head? = some oldest →
        oldest.Opens plainTime MAX_FRAME_BYTES :=
  others_selected_iff plainTime [plainGroup, plainGroup] MAX_FRAME_BYTES (fun _ _ _ _ => rfl)
    ⟨plainGroup, by simp, by decide, plainGroup_fits⟩

end Khala
