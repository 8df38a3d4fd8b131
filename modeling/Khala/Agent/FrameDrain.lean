import Khala.Agent.FrameProgress

/-! Selecting frames over and over: what one selection leaves, and that nothing is left in the end.
-/

namespace Khala

open Js Decode

/-- The group after what was selected of it has been consumed. -/
def FrameGroup.afterwards (selected : List SelectedGroup) (group : FrameGroup) : FrameGroup :=
  match selected.find? (·.group = group) with
  | some one => { group with entries := group.entries.drop one.consumed.length }
  | none => group

section

variable (dateParse : Text → Option Int)

/-- Selects frames as many times as given, each time dropping what was consumed. -/
def drain (budget : Nat) : Nat → List FrameGroup → Except FrameError (List FrameGroup)
  | 0, groups => .ok groups
  | rounds + 1, groups => do
    let selected ← selectFrames dateParse groups budget
    drain budget rounds (groups.map (FrameGroup.afterwards selected))

variable {dateParse}

/-- How many entries are waiting. -/
def waiting (groups : List FrameGroup) : Nat := (groups.map fun group => group.entries.length).sum

/-- What remains of a group is the entries behind those that were taken. -/
theorem afterwards_entries (selected : List SelectedGroup) (group : FrameGroup) :
    ∃ count, (group.afterwards selected).entries = group.entries.drop count := by
  unfold FrameGroup.afterwards
  split
  · exact ⟨_, rfl⟩
  · exact ⟨0, rfl⟩

/-- What is left of a group is shown under the same names. -/
theorem afterwards_names (selected : List SelectedGroup) (group : FrameGroup) :
    (group.afterwards selected).name = group.name
      ∧ (group.afterwards selected).you = group.you := by
  unfold FrameGroup.afterwards
  split <;> exact ⟨rfl, rfl⟩

/-- No more entries wait afterwards than before. -/
theorem waiting_afterwards_le (selected : List SelectedGroup) (groups : List FrameGroup) :
    waiting (groups.map (FrameGroup.afterwards selected)) ≤ waiting groups := by
  induction groups with
  | nil => exact Nat.le_refl 0
  | cons group rest ih =>
    obtain ⟨count, dropped⟩ := afterwards_entries selected group
    simp only [waiting, List.map_cons, List.sum_cons, dropped, List.length_drop] at ih ⊢
    omega

/-- A group that is selected loses an entry. -/
theorem waiting_afterwards_lt {selected : List SelectedGroup} {groups : List FrameGroup}
    {one : SelectedGroup} (member : one ∈ selected) (inside : one.group ∈ groups)
    (consumes : ∀ other ∈ selected, other.Consumes) :
    waiting (groups.map (FrameGroup.afterwards selected)) < waiting groups := by
  -- Over the groups: one of them loses an entry, and no other gains any.
  induction groups with
  | nil => cases inside
  | cons group rest ih =>
    have others := waiting_afterwards_le selected rest
    rcases List.mem_cons.mp inside with same | later
    · -- The group is found among the selected ones, and something was consumed of it.
      -- A selected group drops what was consumed of it, which is not nothing.
      have shrinks : (group.afterwards selected).entries.length < group.entries.length := by
        unfold FrameGroup.afterwards
        split
        · rename_i found found_eq
          obtain ⟨rest, whole⟩ := (consumes found (List.mem_of_find?_eq_some found_eq)).initial
          have some_ :=
            List.length_pos_of_ne_nil (consumes found (List.mem_of_find?_eq_some found_eq)).some
          have own : found.group = group := by simpa using List.find?_some found_eq
          have lengths := congrArg List.length whole
          rw [own, List.length_append] at lengths
          simp only [List.length_drop]
          omega
        · rename_i none
          exact absurd (List.find?_eq_none.mp none one member) (by simp [same])
      simp only [waiting, List.map_cons, List.sum_cons] at others ⊢
      omega
    -- The group comes later, and this one has at most what it had.
    · obtain ⟨count, dropped⟩ := afterwards_entries selected group
      have fewer := ih later
      simp only [waiting, List.map_cons, List.sum_cons, dropped, List.length_drop] at fewer ⊢
      omega

/-- Nothing waits exactly when every group is empty. -/
theorem waiting_eq_zero {groups : List FrameGroup} :
    waiting groups = 0 ↔ ∀ group ∈ groups, group.entries = [] := by
  simp [waiting, List.sum_eq_zero_iff_forall_eq_nat]

/-- What a selection is made of. -/
theorem selectFrames_adds {groups : List FrameGroup} {budget : Nat} {selected : List SelectedGroup}
    (selects : selectFrames dateParse groups budget = .ok selected) :
    bytesOf selected ≤ budget ∧ (selected.map (·.group)).Sublist (orderedGroups dateParse groups)
      ∧ (∀ one ∈ selected, one.Consumes)
      ∧ ∀ front (one : SelectedGroup) back, selected = front ++ one :: back →
        one.Whole dateParse ∨ (front = [] ∧ one.Cut dateParse budget) := by
  obtain ⟨added, same, bytes, order, consumes, shows⟩ :=
    selectGroups_adds selects rfl (Nat.zero_le _)
  rw [List.nil_append] at same
  subst same
  exact ⟨bytes, order, consumes, fun front one back split =>
    (shows front one back split).imp id fun cut => ⟨cut.2.1, cut.2.2⟩⟩

/-- As long as an entry is waiting, a selection consumes one. -/
theorem waiting_decreases {groups : List FrameGroup} {budget : Nat} {selected : List SelectedGroup}
    (selects : selectFrames dateParse groups budget = .ok selected) (some_ : waiting groups ≠ 0) :
    waiting (groups.map (FrameGroup.afterwards selected)) < waiting groups := by
  -- Some group waits, so it is among the ordered ones.
  obtain ⟨group, member, filled⟩ : ∃ group ∈ groups, group.entries ≠ [] := by
    by_contra none
    push Not at none
    exact some_ (waiting_eq_zero.mpr none)
  have inside : group ∈ orderedGroups dateParse groups := mem_orderedGroups.mpr ⟨member, filled⟩
  have ⟨_, _, consumes, _⟩ := selectFrames_adds selects
  cases ordered : orderedGroups dateParse groups with
  | nil =>
    rw [ordered] at inside
    cases inside
  -- The oldest group is selected, and what it consumes is gone.
  | cons oldest rest =>
    have own :=
      mem_orderedGroups.mp (show oldest ∈ orderedGroups dateParse groups by simp [ordered])
    unfold selectFrames at selects
    rw [ordered] at selects
    obtain ⟨-, one, more, rfl, same⟩ := first_selected selects own.2
    exact waiting_afterwards_lt List.mem_cons_self (same ▸ own.1) consumes

/-- After as many rounds as entries were waiting, none is. -/
theorem drain_empties {budget rounds : Nat} {groups rest : List FrameGroup}
    (enough : waiting groups ≤ rounds) (drains : drain dateParse budget rounds groups = .ok rest) :
    ∀ group ∈ rest, group.entries = [] := by
  induction rounds generalizing groups with
  | zero =>
    cases drains
    exact waiting_eq_zero.mp (Nat.le_zero.mp enough)
  | succ rounds ih =>
    rw [drain] at drains
    cases selects : selectFrames dateParse groups budget with
    | error error =>
      rw [selects] at drains
      cases drains
    | ok selected =>
      rw [selects] at drains
      refine ih ?_ drains
      -- Either an entry is consumed, or there was none.
      rcases Nat.eq_zero_or_pos (waiting groups) with zero | some_
      · exact Nat.le_trans (waiting_afterwards_le selected groups) (by omega)
      · have fewer := waiting_decreases selects (by omega)
        omega

/-- Where every entry can be shown, every round returns. -/
theorem drain_returns {budget : Nat} (rounds : Nat) {groups : List FrameGroup}
    (dated : ∀ group ∈ groups, group.Dated dateParse)
    (shows : ∀ group ∈ groups, ∀ entry ∈ group.entries, group.Shows dateParse budget entry) :
    ∃ rest, drain dateParse budget rounds groups = .ok rest := by
  induction rounds generalizing groups with
  | zero => exact ⟨groups, rfl⟩
  | succ rounds ih =>
    obtain ⟨selected, selects⟩ :=
      (selectFrames_returns_iff dated budget).mpr fun oldest first entry head =>
      shows oldest (mem_orderedGroups.mp (List.mem_of_head? first)).1 entry (List.mem_of_head? head)
    rw [drain, selects]
    -- What is left of a group is part of it, under the same names.
    refine ih (fun group member => ?_) fun group member entry inside => ?_
    · obtain ⟨before, from_, rfl⟩ := List.mem_map.mp member
      obtain ⟨count, dropped⟩ := afterwards_entries selected before
      intro entry inside
      rw [dropped] at inside
      exact dated before from_ entry (List.mem_of_mem_drop inside)
    · obtain ⟨before, from_, rfl⟩ := List.mem_map.mp member
      obtain ⟨count, dropped⟩ := afterwards_entries selected before
      rw [dropped] at inside
      have shown := shows before from_ entry (List.mem_of_mem_drop inside)
      simp only [FrameGroup.Shows, (afterwards_names selected before).1,
        (afterwards_names selected before).2] at shown ⊢
      exact shown

/-- A group that is selected has a first entry with a time. -/
theorem since_of_selected {selected : SelectedGroup} {budget : Nat} (consumes : selected.Consumes)
    (shows : selected.Whole dateParse ∨ selected.Cut dateParse budget) :
    ∃ time, selected.group.since dateParse = some time := by
  -- The first consumed entry is the first of its group, so its time is that of the group.
  obtain ⟨rest, whole⟩ := consumes.initial
  obtain ⟨first, others, shown⟩ := List.exists_cons_of_ne_nil consumes.some
  have head : selected.group.entries.head? = some first := by rw [← whole, shown]; rfl
  -- The frame was rendered with a time for each entry.
  have dated : ∃ time, dateParse first.ts = some time := by
    cases shows with
    | inl exact_ =>
      rw [SelectedGroup.Whole, shown] at exact_
      cases parsed : dateParse first.ts with
      | some time => exact ⟨time, rfl⟩
      | none => simp [renderFrame, renderLine, parsed] at exact_
    -- A cut entry keeps its time.
    | inr cut =>
      obtain ⟨entry, points, one, inside, cut, others⟩ := cut
      rw [one] at shown
      cases shown
      have timed := dated_of_frame cut
      rwa [show (cutEntry TRUNCATED first points).ts = first.ts from rfl] at timed
  obtain ⟨time, parsed⟩ := dated
  exact ⟨time, by rw [FrameGroup.since, head]; exact parsed⟩

variable (dateParse)

/--
What a selection of frames is.

The frames take no more than the budget, and each shows a bounded initial part of what is unread in
its channel. Only the first may cut an entry, which is then alone in it and cut as late as the
budget allows, and the channels go in the order of their oldest unread entries. Selecting again and
again, as long as it returns, leaves nothing unread; it does return where every entry can be shown.
-/
theorem frames_bounded (groups : List FrameGroup) (budget : Nat) :
    (∀ selected, selectFrames dateParse groups budget = .ok selected →
      utf8Length (joinLines (selected.map (·.frame))) ≤ budget
      ∧ (∀ one ∈ selected, one.consumed ≠ [] ∧ one.consumed <+: one.group.entries
        ∧ one.consumed.length ≤ MAX_FRAME_MESSAGES)
      ∧ (∀ front (one : SelectedGroup) back, selected = front ++ one :: back →
        one.Whole dateParse ∨ (front = [] ∧ one.Cut dateParse budget))
      ∧ (selected.map (·.group)).Sublist (orderedGroups dateParse groups)
      ∧ (selected.head?.map (·.group) = (orderedGroups dateParse groups).head?)
      ∧ (selected.map (·.group)).Pairwise fun one two => ∃ first second,
        one.since dateParse = some first ∧ two.since dateParse = some second ∧ first ≤ second)
    ∧ (∀ rounds rest, waiting groups ≤ rounds → drain dateParse budget rounds groups = .ok rest →
        ∀ group ∈ rest, group.entries = [])
    ∧ ((∀ group ∈ groups, group.Dated dateParse ∧ ∀ entry ∈ group.entries,
      group.Shows dateParse budget entry) →
        ∀ rounds, ∃ rest, drain dateParse budget rounds groups = .ok rest) := by
  refine ⟨fun selected selects => ?_, fun rounds rest enough drains => drain_empties enough drains,
    fun shows rounds => drain_returns rounds (fun group member => (shows group member).1)
      fun group member => (shows group member).2⟩
  -- The bounds are those of the selection; what is left are the first group and the order.
  obtain ⟨bytes, order, consumes, shown⟩ := selectFrames_adds selects
  refine ⟨bytes, fun one member => ⟨(consumes one member).some, (consumes one member).initial,
    (consumes one member).bounded⟩, shown, order, ?_, ?_⟩
  · -- The oldest group is never passed over.
    unfold selectFrames at selects
    cases ordered : orderedGroups dateParse groups with
    | nil =>
      rw [ordered] at selects
      cases selects
      rfl
    | cons oldest rest =>
      have own :=
        mem_orderedGroups.mp (show oldest ∈ orderedGroups dateParse groups by simp [ordered])
      rw [ordered] at selects
      obtain ⟨-, one, more, rfl, same⟩ := first_selected selects own.2
      simp [same]
  · -- The selected groups keep the order, and each of them has a time.
    have sorted := (orderedGroups_sorted groups).sublist order
    refine sorted.imp_of_mem fun {one two} first second older => ?_
    -- Every selected group has a time, as its frame was rendered.
    have timed : ∀ group ∈ selected.map (·.group), ∃ time, group.since dateParse = some time := by
      intro group member
      obtain ⟨chosen, inside, rfl⟩ := List.mem_map.mp member
      obtain ⟨front, back, split⟩ := List.append_of_mem inside
      exact since_of_selected (consumes chosen inside)
        ((shown front chosen back split).imp id And.right)
    obtain ⟨time, since⟩ := timed one first
    obtain ⟨time', since'⟩ := timed two second
    rw [since, since'] at older
    exact ⟨time, time', since, since', older⟩

end

/-- Two ordinary channels: their frames fit, and the first of them is selected first. -/
theorem frames_bounded_plain :
    ∃ selected, selectFrames plainTime [plainGroup, plainGroup] MAX_FRAME_BYTES = .ok selected
      ∧ utf8Length (joinLines (selected.map (·.frame))) ≤ MAX_FRAME_BYTES
      ∧ selected.head?.map (·.group) = some plainGroup := by
  -- The two groups are in order already, and the first one fits.
  have ordered : orderedGroups plainTime [plainGroup, plainGroup] = [plainGroup, plainGroup] :=
    ordered_pair ⟨List.cons_ne_nil _ _, List.cons_ne_nil _ _⟩
  obtain ⟨frame, consumed, alone⟩ := plainGroup_fits
  obtain ⟨selected, selects⟩ :=
    (@selectFrames_returns_iff plainTime [plainGroup, plainGroup] (fun _ _ _ _ => rfl)
    MAX_FRAME_BYTES).mpr fun oldest first => by
      rw [ordered] at first
      cases first
      exact opens_of_selectFrame alone
  have bounds :=
    (frames_bounded plainTime [plainGroup, plainGroup] MAX_FRAME_BYTES).1 selected selects
  refine ⟨selected, selects, bounds.1, ?_⟩
  rw [bounds.2.2.2.2.1, ordered]
  rfl

end Khala
