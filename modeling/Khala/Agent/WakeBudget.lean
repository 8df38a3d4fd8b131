import Khala.Agent.WakeLadder

/-! The wake budget: how often a ladder wakes the agent before something renews its budget. -/

namespace Khala.WakeLadder

open Js

/-! ## Lists that are sorted by their keys -/

/-- Two lists in the order of their keys are one, if every key has the same entries in both. -/
theorem eq_of_sorted {ν : Type} (a b : List (Text × ν))
    (sortedA : a.Pairwise fun x y => textLe x.1 y.1 = true)
    (sortedB : b.Pairwise fun x y => textLe x.1 y.1 = true)
    (same : ∀ key, a.filter (·.1 = key) = b.filter (·.1 = key)) : a = b := by
  -- Both lists open with the smallest key, and with the first entry that this key has.
  have inside : ∀ {xs ys : List (Text × ν)},
    (∀ key, xs.filter (·.1 = key) = ys.filter (·.1 = key)) →
      ∀ entry ∈ xs, entry ∈ ys := by
    intro xs ys same entry found
    have kept : entry ∈ xs.filter (·.1 = entry.1) := List.mem_filter.mpr ⟨found, by simp⟩
    rw [same] at kept
    exact (List.mem_filter.mp kept).1
  induction a generalizing b with
  | nil =>
    cases b with
    | nil => rfl
    | cons y _ =>
      exact absurd (inside (fun key => (same key).symm) y List.mem_cons_self) List.not_mem_nil
  | cons x a ih =>
    cases b with
    | nil => exact absurd (inside same x List.mem_cons_self) List.not_mem_nil
    | cons y b =>
      rw [List.pairwise_cons] at sortedA sortedB
      have least : ∀ {first : Text × ν} {rest : List (Text × ν)},
        (∀ entry ∈ rest, textLe first.1 entry.1 = true) →
          ∀ entry ∈ first :: rest, textLe first.1 entry.1 = true := by
        intro first rest below entry found
        rcases List.mem_cons.mp found with rfl | later
        · have := textLe_total entry.1 entry.1
          simpa using this
        · exact below entry later
      have below : textLe x.1 y.1 = true :=
        least sortedA.1 y (inside (fun key => (same key).symm) y List.mem_cons_self)
      have above : textLe y.1 x.1 = true := least sortedB.1 x (inside same x List.mem_cons_self)
      have key : x.1 = y.1 := textLe_antisymm below above
      have opening := same x.1
      rw [List.filter_cons_of_pos (by simp), List.filter_cons_of_pos (by simp [key])] at opening
      obtain ⟨rfl, -⟩ := List.cons.inj opening
      have tails : ∀ key, a.filter (·.1 = key) = b.filter (·.1 = key) := by
        intro key
        have both := same key
        by_cases hit : x.1 = key
        · rw [List.filter_cons_of_pos (by simp [hit]), List.filter_cons_of_pos (by simp [hit])]
            at both
          exact (List.cons.inj both).2
        · rwa [List.filter_cons_of_neg (by simp [hit]), List.filter_cons_of_neg (by simp [hit])]
            at both
      rw [ih b sortedA.2 sortedB.2 tails]

/-- The places at which a channel's wakes start; a channel that is not eligible has none. -/
def positionsOf (eligible : List Eligible) (key : Text) : List Nat :=
  (eligible.filter (·.key = key)).map fun item => wakeStart item.cursor

/-- The rooms of a budget are sorted. -/
theorem budgetKeyOf_sorted (eligible : List Eligible) :
    (budgetKeyOf eligible).Pairwise fun x y => textLe x.1 y.1 = true := by
  have total : Std.Total fun a b : Text × Nat => textLe a.1 b.1 = true :=
    ⟨fun a b => by simpa using textLe_total a.1 b.1⟩
  have transitive : IsTrans (Text × Nat) fun a b => textLe a.1 b.1 = true :=
    ⟨fun a b c => textLe_trans⟩
  exact List.pairwise_insertionSort _ _

/-- Sorting keeps the order of what stands under one key. -/
theorem filter_budgetKeyOf (eligible : List Eligible) (key : Text) :
    (budgetKeyOf eligible).filter (·.1 = key) = (positionsOf eligible key).map (key, ·) := by
  have total : Std.Total fun a b : Text × Nat => textLe a.1 b.1 = true :=
    ⟨fun a b => by simpa using textLe_total a.1 b.1⟩
  have transitive : IsTrans (Text × Nat) fun a b => textLe a.1 b.1 = true :=
    ⟨fun a b c => textLe_trans⟩
  set pairs := eligible.map fun item => (item.key, wakeStart item.cursor) with listed
  have under : pairs.filter (·.1 = key) = (positionsOf eligible key).map (key, ·) := by
    rw [listed, List.filter_map, positionsOf, List.map_map]
    refine List.map_congr_left fun item found => ?_
    have : item.key = key := by simpa using (List.mem_filter.mp found).2
    simp [this]
  have alike : (pairs.filter (·.1 = key)).Pairwise fun a b => textLe a.1 b.1 = true := by
    refine List.Pairwise.imp_of_mem ?_ (List.pairwise_of_forall (R := fun _ _ => True) fun _ _ =>
      trivial)
    intro a b inA inB _
    have one : a.1 = key := by simpa using (List.mem_filter.mp inA).2
    have two : b.1 = key := by simpa using (List.mem_filter.mp inB).2
    have := textLe_total key key
    simpa [one, two] using this
  -- What stands under the key is a part of the sorted list, and as long as the whole of it there.
  have part := (List.sublist_insertionSort alike List.filter_sublist).filter (·.1 = key)
  rw [List.filter_filter] at part
  simp only [Bool.and_self] at part
  have size :=
    ((List.perm_insertionSort (fun a b : Text × Nat => textLe a.1 b.1 = true) pairs).filter
      (·.1 = key)).length_eq
  rw [budgetKeyOf, ← under]
  exact (part.eq_of_length size.symm).symm

/-! ## Counts that are carried over -/

/-- Moving one budget key's wakes to what is left of it takes nothing from a key that stays. -/
private theorem le_projectEntry {changed : List Text} {kept : BudgetKey}
    (stays : ∀ pair ∈ kept, pair.1 ∉ changed) (counts : Map BudgetKey Nat) (key : BudgetKey)
    (wakes : Nat) :
    (counts.get kept).getD 0 ≤ ((projectEntry changed counts key wakes).get kept).getD 0 := by
  unfold projectEntry
  split
  · exact Nat.le_refl _
  · rename_i affected
    -- The key that is deleted has a changed channel, so it is another one.
    have other : kept ≠ key := by
      rintro rfl
      exact affected (List.all_eq_true.mpr fun pair found => by simpa using stays pair found)
    have deleted :
      (counts.delete key).get kept = counts.get kept := by rw [Map.get_delete, if_neg other]
    simp only
    split
    · rw [deleted]
    · rw [Map.get_set]
      split
      · rename_i same
        rw [← same, deleted, Option.getD_some]
        exact Nat.le_max_right _ _
      · rw [deleted]

/-- The key that an affected one is moved to has at least its wakes. -/
private theorem wakes_le_projectEntry {changed : List Text} {counts : Map BudgetKey Nat}
    {key : BudgetKey} {wakes : Nat} (affected : key.all (fun pair => pair.1 ∉ changed) = false)
    (remains : key.filter (fun pair => pair.1 ∉ changed) ≠ []) :
    wakes ≤ ((projectEntry changed counts key wakes).get (key.filter fun pair =>
      pair.1 ∉ changed)).getD 0 := by
  rw [projectEntry, if_neg (by rw [affected]; exact Bool.false_ne_true)]
  simp only
  rw [if_neg remains, Map.get_set_self, Option.getD_some]
  exact Nat.le_max_left _ _

/-- Wherever a key is left after the changed channels are taken out of it, its wakes are still
counted. -/
theorem wakesAt_le_projectCounts {changed : List Text} {counts : Map BudgetKey Nat}
    {key : BudgetKey} (remains : key.filter (fun pair => pair.1 ∉ changed) ≠ []) :
    (counts.get key).getD 0
      ≤ ((projectCounts changed counts).get (key.filter fun pair => pair.1 ∉ changed)).getD 0 := by
  have stays : ∀ pair ∈ key.filter (fun pair => pair.1 ∉ changed), pair.1 ∉ changed := by
    intro pair found
    simpa using (List.mem_filter.mp found).2
  -- Going through the entries never lowers the count, and going through the key's own entry puts
  -- its wakes there.
  have grows : ∀ (entries : List (BudgetKey × Nat)) (now : Map BudgetKey Nat),
      (now.get (key.filter fun pair => pair.1 ∉ changed)).getD 0
        ≤ ((entries.foldl (fun counts entry => projectEntry changed counts entry.1 entry.2) now).get
            (key.filter fun pair => pair.1 ∉ changed)).getD 0 := by
    intro entries
    induction entries with
    | nil => exact fun _ => Nat.le_refl _
    | cons entry rest ih =>
      intro now
      exact Nat.le_trans (le_projectEntry stays now entry.1 entry.2) (ih _)
  cases found : counts.get key with
  | none => exact Nat.zero_le _
  | some wakes =>
    by_cases untouched : key.all (fun pair => pair.1 ∉ changed) = true
    · have whole : key.filter (fun pair => pair.1 ∉ changed) = key :=
        List.filter_eq_self.mpr (List.all_eq_true.mp untouched)
      have := grows counts.entries counts
      rw [whole, found] at this
      rw [whole]
      exact this
    · have affected : key.all (fun pair => pair.1 ∉ changed) = false := by simpa using untouched
      obtain ⟨earlier, later, split⟩ := List.append_of_mem (Map.get_eq_some.mp found)
      rw [projectCounts, split, List.foldl_append, List.foldl_cons, Option.getD_some]
      exact Nat.le_trans (wakes_le_projectEntry affected remains) (grows later _)

/-- Where every channel that kept its identity stands where it stood, the two budget keys agree on
these channels. -/
private theorem kept_pairs {seen eligible : List Eligible} {changed : List Text}
    (stands : ∀ key, key ∉ changed → positionsOf seen key = positionsOf eligible key) :
    (budgetKeyOf seen).filter (fun pair => pair.1 ∉ changed)
      = (budgetKeyOf eligible).filter (fun pair => pair.1 ∉ changed) := by
  -- Both sides are sorted, so it is enough to compare them key by key.
  refine eq_of_sorted _ _ ((budgetKeyOf_sorted seen).filter _)
    ((budgetKeyOf_sorted eligible).filter _) fun key => ?_
  rw [List.filter_comm, filter_budgetKeyOf, List.filter_comm, filter_budgetKeyOf]
  by_cases gone : key ∈ changed
  · -- Nothing is left under a changed key.
    have nothing : ∀ positions : List Nat, (positions.map (key, ·)).filter (fun pair =>
      decide (pair.1 ∉ changed)) = [] := by
      intro positions
      rw [List.filter_eq_nil_iff]
      intro pair found
      obtain ⟨position, -, rfl⟩ := List.mem_map.mp found
      simpa using gone
    rw [nothing, nothing]
  -- Under any other key both have the same positions.
  · rw [stands key gone]

/-- Unless something renews the budget, the wakes counted before the channels were read are counted
after it. -/
theorem wakesAt_le_carryOver {ladder : Ladder} {channels : List FoundChannel}
    {seen eligible : List Eligible}
    (stands : ∀ key, key ∉ changedKeys ladder.identities (currentIdentities channels) →
      positionsOf seen key = positionsOf eligible key)
    (read : ∀ item ∈ eligible,
      item.key ∈ changedKeys ladder.identities (currentIdentities channels) → item.messages = 0)
    (kept : changedKeys ladder.identities (currentIdentities channels) = [] ∨ ∃ item ∈ eligible,
      item.key ∉ changedKeys ladder.identities (currentIdentities channels)) :
    ladder.wakesAt (budgetKeyOf seen) ≤ (ladder.carryOver channels eligible).wakesAt
      (budgetKeyOf eligible) := by
  unfold Ladder.carryOver
  simp only
  generalize changedKeys ladder.identities (currentIdentities channels) = changed
    at stands read kept ⊢
  have pairs := kept_pairs stands
  by_cases none_ : changed = []
  · subst none_
    simp only [if_true, Ladder.wakesAt]
    simp only [List.not_mem_nil, not_false_eq_true, decide_true, List.filter_true] at pairs
    rw [pairs]
  · rw [if_neg none_]
    have noUnread :
      (eligible.any fun item => decide (item.key ∈ changed) && decide (0 < item.messages))
      = false := by
      rw [List.any_eq_false]
      intro item found
      simp only [Bool.and_eq_true, decide_eq_true_eq, not_and, Nat.not_lt]
      exact fun inside => Nat.le_of_eq (read item found inside)
    obtain ⟨item, found, unchanged⟩ := kept.resolve_left none_
    -- The channel that kept its identity stays in the key, so the key's wakes were moved and not
    -- dropped.
    have stays : (item.key, wakeStart item.cursor) ∈ (budgetKeyOf eligible).filter fun pair =>
      pair.1 ∉ changed := by
      refine List.mem_filter.mpr ⟨?_, by simpa using unchanged⟩
      rw [budgetKeyOf, List.mem_insertionSort]
      exact List.mem_map.mpr ⟨item, found, rfl⟩
    have carried := @wakesAt_le_projectCounts changed ladder.wakesAtCount (budgetKeyOf seen)
      (by rw [pairs]; exact List.ne_nil_of_mem stays)
    simp only [Ladder.wakesAt, noUnread, Bool.false_eq_true, if_false, Map.get_set_self,
      Option.getD_some]
    rw [← pairs]
    exact carried

/-! ## What one evaluation spends -/

/-- Whether a call of the driver is one that counts: it was not skipped. -/
def spends : Option WakeAnswer → Bool
  | some .returned => true
  | some .failed => true
  | _ => false

/-- The rest of an evaluation counts what it spends, and spends nothing once two wakes are counted.
-/
private def Counted (ladder : Ladder) (key : BudgetKey) (result : Ladder × Option WakeAnswer) :
    Prop :=
  (spends result.2 = false ∧ ladder.wakesAt key ≤ result.1.wakesAt key)
    ∨ (spends result.2 = true ∧ ladder.wakesAt key < 2
      ∧ ladder.wakesAt key + 1 ≤ result.1.wakesAt key)

/-- Without a wake nothing is counted. -/
private theorem counted_nothing {ladder after : Ladder} {key : BudgetKey}
    (same : after.wakesAtCount = ladder.wakesAtCount) :
    Counted ladder key (after, none) :=
  .inl ⟨rfl, by rw [Ladder.wakesAt, Ladder.wakesAt, same]⟩

/-- A call of a driver is counted while the budget lasts. -/
private theorem counted_callDriver {ladder : Ladder} {answers : Answers} {key : BudgetKey}
    {verified : Bool} (left : ladder.wakesAt key < 2) :
    Counted ladder key (ladder.callDriver answers key (ladder.wakesAt key) verified) := by
  have raised : (Map.set ladder.wakesAtCount key (ladder.wakesAt key + 1)).get key
    = some (ladder.wakesAt key + 1) :=
    Map.get_set_self _ _ _
  unfold Ladder.callDriver
  cases answer : answers.wake with
  | returned => exact .inr ⟨rfl, left, by simp [Ladder.wakesAt]⟩
  | failed => exact .inr ⟨rfl, left, by simp [Ladder.wakesAt]⟩
  | skipped =>
    simp only
    split
    · exact .inl ⟨rfl, by simp [Ladder.wakesAt]⟩
    · exact .inl ⟨rfl, by simp [Ladder.wakesAt]⟩

/-- A choice is counted. -/
private theorem counted_choose (ladder : Ladder) (answers : Answers) (eligible : List Eligible) :
    Counted ladder (budgetKeyOf eligible) (ladder.choose answers eligible) := by
  -- Each branch ends with no wake, up to the one that calls the driver.
  unfold Ladder.choose
  simp only
  split
  · exact counted_nothing rfl
  -- There is budget left, so the modes are read again.
  · rename_i left
    cases rereadModes answers 0 eligible with
    | none => exact counted_nothing rfl
    | some same =>
      cases same with
      | false => exact counted_nothing rfl
      | true =>
        simp only
        split
        · exact counted_nothing rfl
        · split
          · split
            · exact counted_nothing rfl
            · -- The attempt either comes to nothing, or calls the driver.
              unfold Ladder.attempt
              split
              · exact counted_nothing rfl
              · split
                · exact counted_nothing rfl
                · split
                  · exact counted_nothing rfl
                  · exact counted_callDriver (Nat.lt_of_not_le left)
          · exact counted_nothing rfl

/-- A wait is counted. -/
private theorem counted_wait (retryAfterMs : Option Int) (ladder : Ladder) (answers : Answers)
    (eligible : List Eligible) :
    Counted ladder (budgetKeyOf eligible) (ladder.wait retryAfterMs answers eligible) := by
  unfold Ladder.wait
  -- Where the wait goes on, the ladder is asked only after the activity is known.
  split
  · exact counted_nothing rfl
  · cases answers.activity with
    | none => exact counted_nothing rfl
    | some activity =>
      -- Forgetting an answered activity leaves the wakes as they were counted.
      have forgets :
        (ladder.forgetAnswered activity.updatedAt).wakesAtCount = ladder.wakesAtCount := by
        unfold Ladder.forgetAnswered
        split <;> rfl
      simp only
      split
      · exact counted_nothing forgets
      · split
        · exact counted_nothing forgets
        · have counted := counted_choose (ladder.forgetAnswered activity.updatedAt) answers eligible
          unfold Counted Ladder.wakesAt at counted
          rw [forgets] at counted
          exact counted

/-! ## Runs -/

/-- An evaluation in a run, with the eligible channels of the last evaluation that got to know them.
-/
structure Turn where
  ladder : Ladder
  seen : List Eligible
  answers : Answers

variable (wakesAgent : InboxEntry → ListeningMode → Option Text → Bool) (retryAfterMs : Option Int)

def Turn.result (turn : Turn) : Ladder × Option WakeAnswer :=
  turn.ladder.evaluate wakesAgent retryAfterMs turn.answers

def Turn.spends (turn : Turn) : Bool := WakeLadder.spends (turn.result wakesAgent retryAfterMs).2

/-- The eligible channels as they are known after the evaluation. -/
def Turn.eligible (turn : Turn) : List Eligible :=
  (turn.answers.listed.map (eligibleAmong wakesAgent)).getD turn.seen

/-- The keys whose channel joined, left or was joined again since the last evaluation that listed
the channels. -/
def Turn.changed (turn : Turn) : List Text :=
  (turn.answers.listed.map fun channels =>
    changedKeys turn.ladder.identities (currentIdentities channels)).getD []

/-- The evaluations of a ladder, one after the other. -/
def history (ladder : Ladder) (seen : List Eligible) : List Answers → List Turn
  | [] => []
  | answers :: rest =>
    let turn : Turn := ⟨ladder, seen, answers⟩
    turn :: history (turn.result wakesAgent retryAfterMs).1 (turn.eligible wakesAgent) rest

/-- What renews the budget. -/
inductive Renewal (turn : Turn) : Prop
  /-- A driver becomes disabled. -/
  | driverDisabled (id : Text) (state : WakeJournal.WakeDriverState)
    (known : (id, state) ∈ turn.answers.states)
    (disabled : state.disabled = true) (new : id ∉ turn.ladder.disabledDrivers)
  /-- The wakes of an eligible channel that kept its identity start elsewhere. -/
  | moved (key : Text) (kept : key ∉ turn.changed) (before : positionsOf turn.seen key ≠ [])
    (after : positionsOf (turn.eligible wakesAgent) key ≠ [])
    (differs : positionsOf turn.seen key ≠ positionsOf (turn.eligible wakesAgent) key)
  /-- A channel that kept its identity becomes eligible, or is eligible no more. -/
  | eligibility (key : Text) (kept : key ∉ turn.changed)
    (differs : positionsOf turn.seen key = [] ↔ positionsOf (turn.eligible wakesAgent) key ≠ [])
  /-- A channel that was joined, or joined again, has unread entries that wake. -/
  | unread (item : Eligible) (listed : item ∈ turn.eligible wakesAgent)
    (changed : item.key ∈ turn.changed)
    (messages : 0 < item.messages)
  /-- Channels joined, left or were joined again, and no eligible channel is one that kept its
  identity. -/
  | noneKept (changed : turn.changed ≠ [])
    (all : ∀ item ∈ turn.eligible wakesAgent, item.key ∈ turn.changed)

/-- At most two wakes were spent, and they are counted. -/
private def Within (ladder : Ladder) (seen : List Eligible) (spent : Nat) : Prop :=
  spent ≤ 2 ∧ spent ≤ ladder.wakesAt (budgetKeyOf seen)

/-- Drivers that are known to be disabled are not noted again. -/
private theorem noteDisabled_same {ladder : Ladder} :
    ∀ states : List (Text × WakeJournal.WakeDriverState),
      (∀ entry ∈ states, entry.2.disabled = true → entry.1 ∈ ladder.disabledDrivers) →
      ladder.noteDisabled states = ladder
  | [], _ => rfl
  | (id, state) :: rest, known => by
    have here : (state.disabled && !ladder.disabledDrivers.contains id) = false := by
      cases disabled : state.disabled with
      | false => rfl
      | true => simpa using known (id, state) List.mem_cons_self disabled
    rw [Ladder.noteDisabled, here, if_neg Bool.false_ne_true]
    exact noteDisabled_same rest fun entry found => known entry (List.mem_cons_of_mem _ found)

/-- Without a renewal the wakes counted before the evaluation are counted when it looks for a
driver. -/
private theorem wakesAt_le_of_unrenewed {turn : Turn} (unrenewed : ¬ Renewal wakesAgent turn)
    {channels : List FoundChannel} (listed : turn.answers.listed = some channels) :
    turn.ladder.wakesAt (budgetKeyOf turn.seen)
      ≤ ((turn.ladder.noteDisabled turn.answers.states).carryOver channels
        (eligibleAmong wakesAgent channels)).wakesAt
          (budgetKeyOf (eligibleAmong wakesAgent channels)) := by
  -- No driver is newly disabled, or the turn would be renewed.
  have same : turn.ladder.noteDisabled turn.answers.states = turn.ladder :=
    noteDisabled_same _ fun entry found disabled => by
      by_contra new
      exact unrenewed (.driverDisabled entry.1 entry.2 found disabled new)
  have eligible :
    turn.eligible wakesAgent = eligibleAmong wakesAgent channels := by simp [Turn.eligible, listed]
  have changed :
    turn.changed = changedKeys turn.ladder.identities (currentIdentities channels) := by
    simp [Turn.changed, listed]
  rw [same, ← eligible]
  apply wakesAt_le_carryOver
  -- A key that has not changed keeps its positions, for any other change would renew.
  · intro key kept
    rw [← changed] at kept
    by_contra differs
    by_cases before : positionsOf turn.seen key = []
    · exact unrenewed (.eligibility key kept ⟨fun _ after => differs (before.trans after.symm),
        fun _ => before⟩)
    · by_cases after : positionsOf (turn.eligible wakesAgent) key = []
      · exact unrenewed (.eligibility key kept ⟨fun gone => absurd gone before, fun there =>
          absurd after there⟩)
      · exact unrenewed (.moved key kept before after differs)
  -- Nothing unread is new under a changed key.
  · intro item found inside
    rw [← changed] at inside
    by_contra messages
    exact unrenewed (.unread item found inside (Nat.pos_of_ne_zero messages))
  -- And some of the keys are kept.
  · rw [← changed]
    by_contra neither
    rw [not_or] at neither
    refine unrenewed (.noneKept neither.1 fun item found => ?_)
    by_contra kept
    exact neither.2 ⟨item, found, kept⟩

/-- One evaluation keeps the count, whatever it renews. -/
private theorem within_turn {turn : Turn} {spent : Nat}
    (within : Within turn.ladder turn.seen spent) (fresh : Renewal wakesAgent turn → spent = 0) :
    Within (turn.result wakesAgent retryAfterMs).1 (turn.eligible wakesAgent)
      (spent + if turn.spends wakesAgent retryAfterMs then 1 else 0) := by
  obtain ⟨small, counted⟩ := within
  cases listed : turn.answers.listed with
  | none =>
    -- The evaluation ends early; at most it got to know of a disabled driver.
    have result :
      turn.result wakesAgent retryAfterMs
      = (turn.ladder.noteDisabled turn.answers.states, none) := by
      simp [Turn.result, Ladder.evaluate, listed]
    have eligible : turn.eligible wakesAgent = turn.seen := by simp [Turn.eligible, listed]
    have nothing : turn.spends wakesAgent retryAfterMs = false := by rw [Turn.spends, result]; rfl
    rw [result, eligible, nothing, if_neg Bool.false_ne_true, Nat.add_zero]
    refine ⟨small, ?_⟩
    by_cases renewed : Renewal wakesAgent turn
    · rw [fresh renewed]
      exact Nat.zero_le _
    · have same : turn.ladder.noteDisabled turn.answers.states = turn.ladder :=
        noteDisabled_same _ fun entry found disabled => by
          by_contra new
          exact renewed (.driverDisabled entry.1 entry.2 found disabled new)
      rw [same]
      exact counted
  | some channels =>
    have eligible :
      turn.eligible wakesAgent = eligibleAmong wakesAgent channels := by
      simp [Turn.eligible, listed]
    have carried : spent ≤ ((turn.ladder.noteDisabled turn.answers.states).carryOver channels
        (eligibleAmong wakesAgent channels)).wakesAt
          (budgetKeyOf (eligibleAmong wakesAgent channels)) := by
      by_cases renewed : Renewal wakesAgent turn
      · rw [fresh renewed]
        exact Nat.zero_le _
      · exact Nat.le_trans counted (wakesAt_le_of_unrenewed wakesAgent renewed listed)
    have result : turn.result wakesAgent retryAfterMs
        = ((turn.ladder.noteDisabled turn.answers.states).carryOver channels
          (eligibleAmong wakesAgent channels)).wait
            retryAfterMs turn.answers (eligibleAmong wakesAgent channels) := by
      simp [Turn.result, Ladder.evaluate, listed]
    rw [Turn.spends, result, eligible]
    rcases counted_wait retryAfterMs
      ((turn.ladder.noteDisabled turn.answers.states).carryOver channels
        (eligibleAmong wakesAgent channels)) turn.answers
      (eligibleAmong wakesAgent channels) with ⟨nothing, kept⟩ | ⟨spent_, left, raised⟩
    · rw [nothing, if_neg Bool.false_ne_true, Nat.add_zero]
      exact ⟨small, Nat.le_trans carried kept⟩
    · -- A wake is spent only while fewer than two are counted.
      rw [spent_, if_pos rfl]
      constructor
      · omega
      · omega

/-- Over evaluations that renew nothing, the wakes that are spent add up to two at most. -/
private theorem within_history (answers : List Answers) :
    ∀ (ladder : Ladder) (seen : List Eligible) (spent : Nat) (later rest : List Turn),
      Within ladder seen spent →
      history wakesAgent retryAfterMs ladder seen answers = later ++ rest →
      (∀ turn ∈ later, ¬ Renewal wakesAgent turn) →
      spent + later.countP (·.spends wakesAgent retryAfterMs) ≤ 2 := by
  -- By induction on the run; the invariant is that the spent wakes are counted under the last
  -- budget key.
  induction answers with
  | nil =>
    intro ladder seen spent later rest within run unrenewed
    obtain ⟨rfl, -⟩ := List.append_eq_nil_iff.mp run.symm
    exact within.1
  | cons answers rest ih =>
    intro ladder seen spent later rest' within run unrenewed
    cases later with
    | nil => exact within.1
    | cons turn later =>
      rw [history, List.cons_append] at run
      obtain ⟨rfl, follows⟩ := List.cons.inj run
      have next := @within_turn wakesAgent retryAfterMs ⟨ladder, seen, answers⟩ spent within
        fun renewed => absurd renewed (unrenewed _ List.mem_cons_self)
      have total := ih _ _ _ later rest' next follows fun turn found =>
        unrenewed turn (List.mem_cons_of_mem _ found)
      rw [List.countP_cons]
      omega

/-- A budget can be renewed at any evaluation: the wakes spent from it on, until something renews
the budget again, are two at most. -/
private theorem window_le_two (answers : List Answers) :
    ∀ (ladder : Ladder) (seen : List Eligible) (earlier : List Turn) (turn : Turn)
      (later rest : List Turn),
      history wakesAgent retryAfterMs ladder seen answers = earlier ++ turn :: (later ++ rest) →
      (∀ turn ∈ later, ¬ Renewal wakesAgent turn) →
      (turn :: later).countP (·.spends wakesAgent retryAfterMs) ≤ 2 := by
  -- The induction walks to the turn that opens the window.
  induction answers with
  | nil =>
    intro ladder seen earlier turn later rest run _
    rw [history] at run
    exact absurd run.symm (by simp)
  | cons answers more ih =>
    intro ladder seen earlier turn later rest run unrenewed
    rw [history] at run
    cases earlier with
    | cons first earlier =>
      rw [List.cons_append] at run
      exact ih _ _ earlier turn later rest (List.cons.inj run).2 unrenewed
    | nil =>
      rw [List.nil_append] at run
      obtain ⟨rfl, follows⟩ := List.cons.inj run
      -- From there nothing is spent yet, and each turn adds at most what is left.
      have start : Within ladder seen 0 := ⟨Nat.zero_le 2, Nat.zero_le _⟩
      have next := @within_turn wakesAgent retryAfterMs ⟨ladder, seen, answers⟩ 0 start fun _ => rfl
      have total :=
        within_history wakesAgent retryAfterMs more _ _ _ later rest next follows unrenewed
      rw [List.countP_cons]
      omega

/-- Where no driver becomes disabled, every channel that kept its identity stands where it stood and
no other one has unread entries, an evaluation with an eligible channel that kept its identity
renews nothing. -/
private theorem unrenewed_of_quiet {turn : Turn}
    (drivers : ∀ entry ∈ turn.answers.states, entry.2.disabled = true →
      entry.1 ∈ turn.ladder.disabledDrivers)
    (stands : ∀ key, key ∉ turn.changed →
      positionsOf turn.seen key = positionsOf (turn.eligible wakesAgent) key)
    (read : ∀ item ∈ turn.eligible wakesAgent, item.key ∈ turn.changed → item.messages = 0)
    (kept : ∃ item ∈ turn.eligible wakesAgent, item.key ∉ turn.changed) :
    ¬ Renewal wakesAgent turn := by
  -- Each reason to renew is excluded by one of the conditions.
  intro renewed
  cases renewed with
  | driverDisabled id state known disabled new => exact new (drivers (id, state) known disabled)
  | moved key kept _ _ differs => exact differs (stands key kept)
  | eligibility key kept differs =>
    rw [stands key kept] at differs
    by_cases empty : positionsOf (turn.eligible wakesAgent) key = []
    · exact differs.mp empty empty
    · exact empty (differs.mpr empty)
  | unread item listed changed messages =>
    rw [read item listed changed] at messages
    exact Nat.lt_irrefl 0 messages
  | noneKept _ all =>
    obtain ⟨item, listed, kept⟩ := kept
    exact kept (all item listed)

/-- In every run, from one renewal of the budget to the next at most two wakes are spent; and a
channel that is joined again, or left, without unread entries never renews what was spent on the
unread entries of another one. -/
theorem wakes_between_renewals (answers : List Answers) :
    (∀ earlier turn later rest,
      history wakesAgent retryAfterMs .initial [] answers = earlier ++ turn :: (later ++ rest) →
      (∀ turn ∈ later, ¬ Renewal wakesAgent turn) →
      (turn :: later).countP (·.spends wakesAgent retryAfterMs) ≤ 2)
    ∧ ∀ turn ∈ history wakesAgent retryAfterMs .initial [] answers,
      (∀ entry ∈ turn.answers.states, entry.2.disabled = true →
        entry.1 ∈ turn.ladder.disabledDrivers) →
      (∀ key, key ∉ turn.changed →
        positionsOf turn.seen key = positionsOf (turn.eligible wakesAgent) key) →
      (∀ item ∈ turn.eligible wakesAgent, item.key ∈ turn.changed → item.messages = 0) →
      (∃ item ∈ turn.eligible wakesAgent, item.key ∉ turn.changed ∧ 0 < item.messages) →
      ¬ Renewal wakesAgent turn := by
  refine ⟨window_le_two wakesAgent retryAfterMs answers .initial [],
    fun turn _ drivers stands read kept => ?_⟩
  obtain ⟨item, listed, kept, -⟩ := kept
  exact unrenewed_of_quiet wakesAgent drivers stands read ⟨item, listed, kept⟩

/-! ## A channel that is joined again -/

/-- A message of a person, which wakes an agent that listens to every message. -/
def greeting (room : String) : InboxEntry where
  eventId := lit "$hello"
  roomId := lit room
  ts := lit "now"
  sender := lit "@peer"
  senderLabel := lit "Peer"
  senderKind := .human
  kind := .message
  body := lit "hello"
  mention := false

/-- Messages wake an agent in `steer`. -/
def wakesInSteer (entry : InboxEntry) (mode : ListeningMode) (_ : Option Text) : Bool :=
  entry.kind = .message && mode = .steer

/-- A channel as it stands since it was joined at the given time. -/
def joinedChannel (key room joinedAt : String) (unwoken : List InboxEntry) : FoundChannel where
  key := lit key
  roomId := lit room
  legacy := false
  session := some ⟨lit room, lit "@agent"⟩
  joinedAt := some (lit joinedAt)
  mode := .steer
  displayName := none
  unwoken
  cursor := ⟨none, 0, none, none⟩

def buildChannel (joinedAt : String) : List InboxEntry → FoundChannel :=
  joinedChannel "026946d719c3ad9311fc3a38" "!build" joinedAt

def reviewChannel (joinedAt : String) : List InboxEntry → FoundChannel :=
  joinedChannel "7aaeee362e0c1be65de939c7" "!review" joinedAt

/-- An idle agent, a driver that is there, and nothing that fails. -/
def idleAt (now : Int) (channels : List FoundChannel) : Answers where
  settled := true
  driverStates := some .empty
  channels := some channels
  activity := some ⟨true, 0⟩
  now
  stoppedWhenIdle := false
  rereadMode := fun _ => some .steer
  stoppedBeforeDriver := false
  driver := some (some true)
  stoppedAfterDriver := false
  stillEligible := some true
  attemptAt := now
  recorded := true
  stillEligibleRecorded := some true
  stoppedBeforeWake := false
  wake := .returned
  cancelled := true

/-- One channel has an unread message, which wakes the agent twice; then another channel is joined
again. -/
def joinedBeside : List Answers :=
  [idleAt 60000 [buildChannel "monday" [], reviewChannel "monday" [greeting "!review"]],
    idleAt 120000 [buildChannel "monday" [], reviewChannel "monday" [greeting "!review"]],
    idleAt 180000 [buildChannel "tuesday" [], reviewChannel "monday" [greeting "!review"]]]

/-- The channel that is joined again renews nothing, so the two wakes stay the only ones. -/
theorem wakes_between_renewals_beside : ∃ first second third,
    history wakesInSteer none .initial [] joinedBeside = [first, second, third]
    ∧ third.changed = [lit "026946d719c3ad9311fc3a38"] ∧ ¬ Renewal wakesInSteer third
    ∧ [first, second, third].countP (·.spends wakesInSteer none) ≤ 2 := by
  obtain ⟨windows, quiet⟩ := wakes_between_renewals wakesInSteer none joinedBeside
  -- The second evaluation changes nothing, and the third finds only a channel without unread
  -- entries changed.
  refine ⟨_, _, _, rfl, by decide +kernel, ?third, windows [] _ [_, _] [] rfl ?later⟩
  case third =>
    exact quiet _ (List.mem_of_getElem? (i := 2) rfl) (by decide +kernel) (fun _ _ => rfl)
      (by decide +kernel)
      (by decide +kernel)
  case later =>
    refine List.forall_mem_cons.mpr ⟨?_, List.forall_mem_cons.mpr ⟨?_, List.forall_mem_nil _⟩⟩
    · exact quiet _ (List.mem_of_getElem? (i := 1) rfl) (by decide +kernel) (fun _ _ => rfl)
        (by decide +kernel)
        (by decide +kernel)
    · exact quiet _ (List.mem_of_getElem? (i := 2) rfl) (by decide +kernel) (fun _ _ => rfl)
        (by decide +kernel)
        (by decide +kernel)

/-- What is left of the list of renewals when only the keys of the eligible channels are looked at.
-/
def Turn.RenewsByKey (wakesAgent : InboxEntry → ListeningMode → Option Text → Bool) (turn : Turn) :
    Prop :=
  (∃ entry ∈ turn.answers.states, entry.2.disabled = true ∧ entry.1 ∉ turn.ladder.disabledDrivers)
  ∨ (∃ before ∈ turn.seen, ∃ after ∈ turn.eligible wakesAgent,
      before.key = after.key ∧ wakeStart before.cursor ≠ wakeStart after.cursor)
  ∨ (∃ item ∈ turn.eligible wakesAgent, item.key ∈ turn.changed ∧ 0 < item.messages)
  ∨ (∃ before ∈ turn.seen, before.key ∉ (turn.eligible wakesAgent).map (·.key))
  ∨ ∃ after ∈ turn.eligible wakesAgent, after.key ∉ turn.seen.map (·.key)

instance (wakesAgent : InboxEntry → ListeningMode → Option Text → Bool) (turn : Turn) :
    Decidable (turn.RenewsByKey wakesAgent) :=
  inferInstanceAs (Decidable (_ ∨ _))

/-- The channel is joined again when its message has spent the budget, and another message comes. -/
def joinedAgain : List Answers :=
  [idleAt 60000 [buildChannel "monday" [greeting "!build"]],
    idleAt 120000 [buildChannel "monday" [greeting "!build"]],
    idleAt 180000 [buildChannel "tuesday" []],
    idleAt 240000 [buildChannel "tuesday" [greeting "!build"]],
    idleAt 300000 [buildChannel "tuesday" [greeting "!build"]]]

/-- Joining the only channel again, without anything unread, gives it a new budget: four wakes are
spent, while no eligible channel's wakes start elsewhere, no channel that is new has unread entries,
no driver becomes disabled, and the set of the eligible channels' keys stays the same. -/
theorem renewed_by_joining_again : ∃ turn later,
    history wakesInSteer none .initial [] joinedAgain = turn :: later
    ∧ (∀ turn ∈ later, ¬ turn.RenewsByKey wakesInSteer)
    ∧ (turn :: later).countP (·.spends wakesInSteer none) = 4 := by
  refine ⟨_, _, rfl, by decide +kernel, by decide +kernel⟩

end Khala.WakeLadder
