import Khala.Agent.FrameSize

/-! What a selected group is: how much it takes, which entries it consumes and what its frame shows.
-/

namespace Khala

open Js Decode

/-! ## The listener's loop -/

section

variable {T : Type} [Bodied T] {render : List T → Except FrameError Text} {truncatedSuffix : Text}
variable {budget : Int} {truncate : Bool}

/-- The entries render to a frame within the budget. -/
def Fits (render : List T → Except FrameError Text) (budget : Int) (shown : List T) : Prop :=
  ∃ text, render shown = .ok text ∧ (utf8Length text : Int) ≤ budget

/-- What the loop has added to the entries rendered so far: the next ones whole, as many as fit. -/
structure TakesWhole (render : List T → Except FrameError Text) (budget : Int) (truncate : Bool)
    (rendered : List T) (consumedCount : Nat) (rest final : List T) (count taken : Nat) : Prop where
  final_eq : final = rendered ++ rest.take taken
  count_eq : count = consumedCount + taken
  inside : taken ≤ rest.length
  bounded : final.length ≤ MAX_FRAME_MESSAGES
  fits : 0 < taken → Fits render budget final
  /-- Where the first entry may be cut, the loop never ends empty-handed. -/
  progress : truncate = true → rendered = [] → rest ≠ [] → 0 < taken

/-- Or, before anything is rendered, the first entry cut where the search stopped. -/
structure TakesCut (render : List T → Except FrameError Text) (truncatedSuffix : Text)
    (budget : Int) (rest final : List T) (entry : T) (low : Nat) : Prop where
  first : rest.head? = some entry
  tooLarge : ∃ text, render [entry] = .ok text ∧ budget < utf8Length text
  searched : Bisect.lastFrom (cutFits render truncatedSuffix budget entry)
    (codePoints (Bodied.body entry)).length 0
    (codePoints (Bodied.body entry)).length = .ok low
  final_eq : final = [cutEntry truncatedSuffix entry low]
  fits : Fits render budget final

/-- The loop takes entries whole, or cuts the first one of an empty frame. -/
theorem selectEntries_cases {rendered rest final : List T} {consumedCount count : Nat}
    (selects : selectEntries render truncatedSuffix budget truncate rendered consumedCount rest
      = .ok (final, count))
    (room : rendered.length ≤ MAX_FRAME_MESSAGES) :
    (∃ taken, TakesWhole render budget truncate rendered consumedCount rest final count taken)
      ∨ (truncate = true ∧ rendered = [] ∧ count = consumedCount + 1
        ∧ ∃ entry low, TakesCut render truncatedSuffix budget rest final entry low) := by
  -- What stops the loop leaves everything as it is; a whole entry is one more for the rest of the
  -- loop.
  have stops : ∀ {rest : List T} {rendered : List T} {consumedCount : Nat}, final = rendered →
  count = consumedCount →
      rendered.length ≤ MAX_FRAME_MESSAGES → (truncate = true → rendered = [] → rest = []) →
      TakesWhole render budget truncate rendered consumedCount rest final count 0 := by
    intro rest rendered consumedCount finals counts room progress
    exact ⟨by simp [finals], by simp [counts], Nat.zero_le _, finals ▸ room, fun none =>
      absurd none (Nat.lt_irrefl 0),
      fun may empty some => absurd (progress may empty) some⟩
  induction rest generalizing rendered consumedCount with
  | nil =>
    cases selects
    exact .inl ⟨0, stops rfl rfl room fun _ _ => rfl⟩
  | cons entry rest ih =>
    rw [selectEntries] at selects
    split at selects
    · rename_i full
      cases selects
      refine .inl ⟨0, stops rfl rfl room fun _ empty => ?_⟩
      rw [empty] at full
      cases full
    · rename_i notFull
      cases shown : render (rendered ++ [entry]) with
      | error error =>
        rw [shown] at selects
        cases selects
      | ok text =>
        rw [shown] at selects
        simp only [bind, Except.bind] at selects
        by_cases wide : (utf8Length text : Int) > budget
        · rw [if_pos wide] at selects
          by_cases stop : rendered ≠ [] ∨ truncate = false
          · rw [if_pos stop] at selects
            cases selects
            refine .inl ⟨0, stops rfl rfl room fun may empty => ?_⟩
            rcases stop with some | never
            · exact absurd empty some
            · rw [never] at may
              cases may
          · -- The first entry does not fit, and is cut at the place that the search finds.
            rw [if_neg stop] at selects
            obtain ⟨empty, may⟩ := not_or.mp stop
            rw [not_not] at empty
            subst empty
            rw [Bool.not_eq_false] at may
            rw [List.nil_append] at shown
            cases searched : Bisect.lastFrom (cutFits render truncatedSuffix budget entry)
                (codePoints (Bodied.body entry)).length 0
                  (codePoints (Bodied.body entry)).length with
            | error error => simp [searched] at selects
            | ok low =>
              cases cut : render [cutEntry truncatedSuffix entry low] with
              | error error => simp [searched, cut] at selects
              | ok text' =>
                simp only [searched, cut] at selects
                split at selects
                · cases selects
                · rename_i within
                  cases selects
                  exact .inr ⟨may, rfl, rfl, entry, low, rfl, ⟨text, shown, wide⟩, searched, rfl,
                    ⟨text', cut, Int.not_lt.mp within⟩⟩
        · -- The entry fits, and the rest of the loop goes on behind it.
          rw [if_neg wide] at selects
          have fits : Fits render budget (rendered ++ [entry]) := ⟨text, shown, Int.not_lt.mp wide⟩
          have longer : (rendered ++ [entry]).length ≤ MAX_FRAME_MESSAGES := by
            rw [List.length_append, List.length_singleton]
            omega
          rcases ih selects longer with ⟨taken, whole⟩ | ⟨-, none, -⟩
          · refine .inl ⟨taken + 1,
              ⟨by simp [whole.final_eq], by rw [whole.count_eq]; omega, ?_, whole.bounded, ?_,
              fun _ _ _ => Nat.succ_pos taken⟩⟩
            · exact Nat.succ_le_succ whole.inside
            · intro _
              rcases Nat.eq_zero_or_pos taken with zero | some
              · rw [whole.final_eq, zero, List.take_zero, List.append_nil]
                exact fits
              · exact whole.fits some
          · cases rendered <;> cases none

end

/-! ## One group -/

section

variable {dateParse : Text → Option Int}

/-- The text of a frame is what is rendered. -/
theorem frameText_eq_ok {channel : Text} {you : Option Text} {entries : List InboxEntry}
    {text : Text} :
    frameText dateParse channel you entries = .ok text
      ↔ renderFrame dateParse channel entries you = some text := by
  unfold frameText
  cases renderFrame dateParse channel entries you <;> simp

/-- An entry that is shown has a time. -/
theorem dated_of_frame {channel : Text} {you : Option Text} {entry : InboxEntry} {text : Text}
    (shown : renderFrame dateParse channel [entry] you = some text) :
    ∃ time, dateParse entry.ts = some time := by
  cases dated : dateParse entry.ts with
  | some time => exact ⟨time, rfl⟩
  | none => simp [renderFrame, renderLine, dated] at shown

variable (dateParse)

/-- The frame shows exactly the entries that it consumes. -/
def SelectedGroup.Whole (selected : SelectedGroup) : Prop :=
  renderFrame dateParse selected.group.name selected.consumed selected.group.you
    = some selected.frame

/--
The frame shows the first entry alone, cut at the last code point at which its frame is within the
budget.

The entry does not fit as it is, and at no later code point.
-/
def SelectedGroup.Cut (budget : Nat) (selected : SelectedGroup) : Prop :=
  ∃ entry points, selected.consumed = [entry] ∧ points ≤ (codePoints entry.body).length
    ∧ renderFrame dateParse selected.group.name [cutEntry TRUNCATED entry points] selected.group.you
      = some selected.frame
    ∧ (∀ whole, renderFrame dateParse selected.group.name [entry] selected.group.you = some whole →
        budget < utf8Length whole)
    ∧ ∀ more, points < more → more ≤ (codePoints entry.body).length →
        ∀ longer, renderFrame dateParse selected.group.name [cutEntry TRUNCATED entry more]
          selected.group.you
          = some longer → budget < utf8Length longer

/-- What is consumed is a non-empty initial part of the group's entries, of bounded length. -/
structure SelectedGroup.Consumes (selected : SelectedGroup) : Prop where
  some : selected.consumed ≠ []
  initial : selected.consumed <+: selected.group.entries
  bounded : selected.consumed.length ≤ MAX_FRAME_MESSAGES

variable {dateParse}

/-- The frame of a group is within its budget, and shows what it consumes, whole or cut as late as
possible. -/
theorem selectFrame_frame {group : FrameGroup} {budget : Int} {truncate : Bool} {frame : Text}
    {consumed : List InboxEntry}
    (selects : selectFrame dateParse group budget truncate = .ok ⟨some frame, consumed⟩) :
    (utf8Length frame : Int) ≤ budget ∧ (⟨group, frame, consumed⟩ : SelectedGroup).Consumes
      ∧ ((⟨group, frame, consumed⟩ : SelectedGroup).Whole dateParse
        ∨ (truncate = true ∧ ∀ limit : Nat, (limit : Int) = budget →
          (⟨group, frame, consumed⟩ : SelectedGroup).Cut dateParse limit)) := by
  unfold selectFrame selectBounded at selects
  cases ran : selectEntries (frameText dateParse group.name group.you) TRUNCATED budget truncate [] 0 group.entries with
  | error error =>
    -- The selection went through, or there would be no frame.
    rw [ran] at selects
    cases selects
  | ok result =>
    obtain ⟨final, count⟩ := result
    rw [ran] at selects
    simp only [bind, Except.bind] at selects
    -- Without an entry there is no frame either.
    cases finals : final with
    | nil =>
      rw [finals] at selects
      cases selects
    | cons first others =>
      rw [finals] at selects
      cases shown : frameText dateParse group.name group.you (first :: others) with
      | error error => simp [shown] at selects
      | ok text =>
        simp only [shown, pure, Except.pure, Except.ok.injEq, FrameChoice.mk.injEq,
          Option.some.injEq] at selects
        obtain ⟨rfl, rfl⟩ := selects
        -- The frame is the text of the entries that were chosen.
        have whole := frameText_eq_ok.mp shown
        rcases selectEntries_cases ran (Nat.zero_le _)
          with ⟨taken, takes⟩ | ⟨may, -, rfl, entry, low, takes⟩
        · -- The entries are shown as they are.
          have taken_eq :
            first :: others = group.entries.take taken := by
            rw [← finals, takes.final_eq, List.nil_append]
          -- At least one entry was taken, since something is shown.
          have some_ : 0 < taken := by
            rcases Nat.eq_zero_or_pos taken with zero | some_
            · rw [zero, List.take_zero] at taken_eq
              cases taken_eq
            · exact some_
          have counts : count = taken := by rw [takes.count_eq, Nat.zero_add]
          obtain ⟨text', again, within⟩ := takes.fits some_
          rw [finals, shown] at again
          cases again
          subst counts
          refine ⟨within, ⟨by simp [← taken_eq], List.take_prefix _ _, ?_⟩, .inl ?_⟩
          · simp only [← taken_eq, ← finals]
            exact takes.bounded
          · simp only [SelectedGroup.Whole, ← taken_eq]
            exact whole
        · -- The first entry is cut, and the search has found the last place that fits.
          have cut_eq := takes.final_eq
          rw [finals] at cut_eq
          obtain ⟨text', again, within⟩ := takes.fits
          rw [finals, shown] at again
          cases again
          -- A cut takes the first entry alone.
          have first_ : group.entries.take 1 = [entry] := by
            have head := takes.first
            cases entries : group.entries with
            | nil =>
              rw [entries] at head
              cases head
            | cons e rest =>
              rw [entries] at head
              cases head
              rfl
          rw [cut_eq] at whole shown
          simp only [Nat.zero_add, first_]
          refine ⟨within, ⟨by simp, first_ ▸ List.take_prefix _ _, by simp [MAX_FRAME_MESSAGES]⟩,
            .inr ⟨may, fun limit same => ?_⟩⟩
          subst same
          -- Uncut, the entry was too large; so the sizes grow with the place of the cut.
          obtain ⟨text', large, wide⟩ := takes.tooLarge
          obtain ⟨time, dated⟩ := dated_of_frame (frameText_eq_ok.mp large)
          obtain ⟨size, grows, places⟩ := cutFits_initial dated group.name group.you limit
          have stops := Bisect.lastFrom_eq (fun place => (places place).choose_spec.2.2)
            (fun earlier place before good => by
              simp only [decide_eq_true_eq, Int.ofNat_le] at good ⊢
              exact Nat.le_trans (grows earlier place before) good)
            (codePoints entry.body).length 0 (codePoints entry.body).length (Nat.zero_le _)
              (Nat.le_refl _)
          -- The search finds the last place that fits, and everything past it is too large.
          obtain ⟨last, searched, -, upper, -, past⟩ := stops
          have found := takes.searched
          rw [show (Bodied.body entry) = entry.body from rfl, searched] at found
          cases found
          refine ⟨entry, low, rfl, upper, whole, fun text shown =>
            ?_, fun more later inside longer shown => ?_⟩
          · rw [frameText_eq_ok.mpr shown] at large
            cases large
            exact Int.ofNat_lt.mp wide
          · obtain ⟨text, rendered, sized, -⟩ := places more
            rw [frameText_eq_ok.mpr shown] at rendered
            cases rendered
            have fails := past more later inside
            simp only [decide_eq_false_iff_not, Int.ofNat_le, Nat.not_le] at fails
            rw [sized]
            exact fails

/-! ## All groups -/

/-- The bytes of the frames joined by newlines. -/
def bytesOf (selected : List SelectedGroup) : Nat := utf8Length (joinLines (selected.map (·.frame)))

/-- One more frame takes its own bytes, and a newline after the first. -/
theorem bytesOf_append (selected : List SelectedGroup) (last : SelectedGroup) :
    bytesOf (selected ++ [last]) = bytesOf selected + (utf8Length last.frame + if selected = []
      then 0 else 1) := by
  unfold bytesOf
  rw [List.map_append, List.map_singleton]
  by_cases empty : selected = []
  · simp [empty, joinLines]
  · have newline : pointSize [lf] = 1 := by decide
    rw [joinLines_append (by simpa using empty) (by simp), utf8Length_append_stop (by decide),
      if_neg empty, newline]
    simp only [joinLines]
    omega

/-- The loop over the groups adds groups in their order; only the very first may be cut. -/
theorem selectGroups_adds {budget used : Nat} {selected final : List SelectedGroup}
    {groups : List FrameGroup}
    (selects : selectGroups dateParse budget selected used groups = .ok final)
    (uses : used = bytesOf selected) (within : used ≤ budget) :
    ∃ added, final = selected ++ added ∧ bytesOf final ≤ budget
      ∧ (added.map (·.group)).Sublist groups
      ∧ (∀ one ∈ added, one.Consumes)
      ∧ ∀ front (one : SelectedGroup) back, added = front ++ one :: back →
        one.Whole dateParse ∨ (selected = [] ∧ front = [] ∧ one.Cut dateParse budget) := by
  induction groups generalizing selected used with
  | nil =>
    cases selects
    exact ⟨[], by simp, uses ▸ within, by simp, by simp, by simp⟩
  | cons group rest ih =>
    rw [selectGroups] at selects
    -- A group that is passed over leaves what is selected to the others.
    have skips : ∀ {used : Nat}, selectGroups dateParse budget selected used rest = .ok final →
      used = bytesOf selected →
        used ≤ budget → ∃ added, final = selected ++ added ∧ bytesOf final ≤ budget
          ∧ (added.map (·.group)).Sublist (group :: rest) ∧ (∀ one ∈ added, one.Consumes)
          ∧ ∀ front (one : SelectedGroup) back, added = front ++ one :: back →
            one.Whole dateParse ∨ (selected = [] ∧ front = [] ∧ one.Cut dateParse budget) := by
      intro used later uses within
      obtain ⟨added, same, bytes, order, consumes, shows⟩ := ih later uses within
      exact ⟨added, same, bytes, order.cons group, consumes, shows⟩
    obtain ⟨gap, gapped⟩ : ∃ gap : Nat, gap = if selected = [] then 0 else 1 := ⟨_, rfl⟩
    simp only [← gapped] at selects
    cases choice : selectFrame dateParse group ((budget : Int) - used - gap) (selected = []) with
    | error error =>
      rw [choice] at selects
      cases selects
    | ok result =>
      obtain ⟨frame, consumed⟩ := result
      rw [choice] at selects
      cases frame with
      | none => exact skips selects uses within
      | some frame =>
        simp only [bind, Except.bind] at selects
        split at selects
        · exact skips selects uses within
        · rename_i inside
          obtain ⟨small, consumes, shows⟩ := selectFrame_frame choice
          have grown :
            used + (utf8Length frame + gap) = bytesOf (selected ++ [⟨group, frame, consumed⟩]) := by
            rw [bytesOf_append, uses, gapped]
          obtain ⟨added, same, bytes, order, others, whole⟩ :=
            ih selects grown (Nat.not_lt.mp inside)
          refine ⟨⟨group, frame, consumed⟩ :: added, by simp [same],
            bytes, by simpa using order, ?_, ?_⟩
          · intro one member
            rcases List.mem_cons.mp member with rfl | later
            · exact consumes
            · exact others one later
          · intro front one back split
            cases front with
            | nil =>
              -- This is the group just selected, which is cut only when nothing was selected before
              -- it.
              cases split
              rcases shows with exact_ | ⟨first, cut⟩
              · exact .inl exact_
              · have empty : selected = [] := by simpa using first
                refine .inr ⟨empty, rfl, cut budget ?_⟩
                have zero : used = 0 := by rw [uses, empty]; rfl
                simp [empty, zero, gapped]
            | cons head tail =>
              simp only [List.cons_append, List.cons.injEq] at split
              rcases whole tail one back split.2 with exact_ | ⟨none, -⟩
              · exact .inl exact_
              · simp at none

end

end Khala
