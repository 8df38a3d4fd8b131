import Khala.Agent.WakeJournal

/-! Accounts of a wake journal: what every sequence of calls does to its nonces and to the failures
of its drivers. -/

namespace Khala.WakeJournal

open Js

/-! ## What calls do -/

inductive JournalCall
  | recordAttempt (attempt : WakeAttempt)
  | settleAttempts (input : SettleInput) (seen : Bool)
  | cancelAttempt (nonce : Text)
  | failAttempt (nonce : Text) (now : Moment)
  | resetWakeDriver (driver : Text)
  | takeWakeDisableNotices
  | confirmWakeText (driver text : Text) (now : Moment)

/-- What a call did. -/
inductive Entry
  | recorded (nonce : Text)
  | settled (settlement : WakeSettlement)
  | cancelled (nonce : Text)
  | cleared (nonce : Text)
  | confirmed (nonce driver : Text)
  | reset (driver : Text)
  | noticed (driver : Text)
deriving DecidableEq

/-- Whether the entry takes the nonce out of the journal. -/
def Entry.leaves (nonce : Text) : Entry → Bool
  | settled settlement => settlement.nonce == nonce
  | cancelled nonce' => nonce' == nonce
  | cleared nonce' => nonce' == nonce
  | confirmed nonce' _ => nonce' == nonce
  | _ => false

/-- Whether the entry is the driver's success, a confirmation of it, or its reset. -/
def Entry.clears (driver : Text) : Entry → Bool
  | settled settlement => settlement.driver == driver && settlement.status == .success
  | confirmed _ driver' => driver' == driver
  | reset driver' => driver' == driver
  | _ => false

/-- Whether the entry is a failure of the driver. -/
def Entry.fails (driver : Text) : Entry → Bool
  | settled settlement => settlement.driver == driver && settlement.status == .failure
  | _ => false

/-- How many entries of a kind there are since the driver's last success, confirmation or reset. -/
def since (driver : Text) (counts : Entry → Bool) (entries : List Entry) : Nat :=
  entries.foldl (fun n entry => if entry.clears driver then 0 else if counts entry
    then n + 1 else n) 0

def failuresSince (driver : Text) : List Entry → Nat := since driver (·.fails driver)

def noticesSince (driver : Text) : List Entry → Nat := since driver (· == .noticed driver)

/-- Whether the entry is about the state of the driver; one about a void or a cancelled attempt is
not. -/
def Entry.touches (driver : Text) (entry : Entry) : Bool :=
  entry.clears driver || entry.fails driver || entry == .noticed driver

section

variable (dateParse : Text → Moment)

/-- One call, and what it did; a call that throws does nothing. -/
def Journal.call (journal : Journal) : JournalCall → Journal × List Entry
  | .recordAttempt attempt =>
    match journal.recordAttempt attempt with
    -- An attempt that is recorded is one event, and a full journal records none.
    | some after => (after, [.recorded attempt.nonce])
    | none => (journal, [])
  | .settleAttempts input seen =>
    match journal.settleAttempts dateParse input seen with
    | some (after, results) => (after, results.map .settled)
    | none => (journal, [])
  | .cancelAttempt nonce =>
    -- What is cancelled is logged once for each attempt with the nonce.
    (journal.cancelAttempt nonce, (journal.attempts.filter (·.nonce == nonce)).map fun attempt =>
      .cancelled attempt.nonce)
  | .failAttempt nonce now =>
    match journal.failAttempt nonce now with
    | some after => (after, (journal.attempts.find? (·.nonce == nonce)).toList.map fun attempt =>
        .settled ⟨attempt.nonce, attempt.driver, .failure⟩)
    | none => (journal, [])
  | .resetWakeDriver driver =>
    -- A reset clears the attempts of its driver.
    (journal.resetWakeDriver driver, .reset driver ::
      (journal.attempts.filter (·.driver == driver)).map fun attempt => .cleared attempt.nonce)
  | .takeWakeDisableNotices =>
    (journal.takeWakeDisableNotices.1, journal.takeWakeDisableNotices.2.map .noticed)
  | .confirmWakeText driver text now =>
    (journal.confirmWakeText driver text now,
      -- A text confirms each attempt that it can be the answer to.
      (journal.attempts.filter (confirms driver text now)).map fun attempt =>
        .confirmed attempt.nonce driver)

/-- A sequence of calls on one journal, and all that they did. -/
def run (calls : List JournalCall) : Journal × List Entry :=
  calls.foldl (fun (journal, entries) call =>
    ((journal.call dateParse call).1, entries ++ (journal.call dateParse call).2))
      (Journal.initial, [])

end

/-! ## Nonces -/

/-- How often the journal holds a nonce. -/
def Journal.outstanding (journal : Journal) (nonce : Text) : Nat :=
  journal.attempts.countP (·.nonce == nonce)

/-- Writing the journal changes nothing of what is outstanding. -/
@[simp] theorem outstanding_written (journal : Journal) (nonce : Text) :
    journal.written.outstanding nonce = journal.outstanding nonce := by
  simp [Journal.outstanding, Journal.written, List.countP_map, Function.comp_def]

/-- Settling keeps an attempt's nonce and driver. -/
theorem statusOf_keeps {dateParse : Text → Moment} (input : SettleInput) (attempt : WakeAttempt) :
    (input.statusOf dateParse attempt).1.nonce = attempt.nonce
      ∧ (input.statusOf dateParse attempt).1.driver = attempt.driver := by
  unfold SettleInput.statusOf
  simp only
  split
  · exact ⟨rfl, rfl⟩
  · exact ⟨rfl, rfl⟩

/-- Of what a filter splits, each part counts on its own. -/
private theorem countP_split {α : Type} (list : List α) (goes counts : α → Bool) :
    (list.filter goes).countP counts + (list.filter fun item => !goes item).countP counts
      = list.countP counts := by
  induction list with
  | nil => rfl
  | cons item rest ih =>
    cases gone : goes item with
    | true => simp only [List.filter_cons, gone, if_true, Bool.not_true, Bool.false_eq_true,
      if_false, List.countP_cons]; omega
    | false => simp only [List.filter_cons, gone, if_true, Bool.not_false, Bool.false_eq_true,
      if_false, List.countP_cons]; omega

/-- Every attempt that a pass looks at is settled or remains. -/
theorem settleAll_balance {dateParse : Text → Moment} {input : SettleInput} {nonce : Text} :
    ∀ {attempts : List WakeAttempt} {state : Map Text WakeDriverState}
      {results : List WakeSettlement}
      {remaining : List WakeAttempt} {state' : Map Text WakeDriverState},
      input.settleAll dateParse attempts state = some (results, remaining, state') →
      results.countP (·.nonce == nonce) + remaining.countP (·.nonce == nonce) = attempts.countP
        (·.nonce == nonce) := by
  intro attempts
  -- The induction is on the attempts: each is settled with a result, or remains.
  induction attempts with
  | nil =>
    intro state results remaining state' done
    cases done
    rfl
  | cons attempt rest ih =>
    intro state results remaining state' done
    have kept := (@statusOf_keeps dateParse input attempt).1
    rw [SettleInput.settleAll] at done
    split at done
    -- Undecided, it remains.
    · rename_i attempt' undecided
      obtain ⟨⟨results', remaining', after⟩, rest', same⟩ := Option.bind_eq_some_iff.mp done
      cases same
      rw [undecided] at kept
      have same : attempt'.nonce = attempt.nonce := kept
      have balance := ih rest'
      simp only [List.countP_cons, same]
      omega
    -- Decided, it is among the results, and the driver's state moves.
    · rename_i attempt' status decided
      obtain ⟨stepped, -, done⟩ := Option.bind_eq_some_iff.mp done
      obtain ⟨⟨results', remaining', after⟩, rest', same⟩ := Option.bind_eq_some_iff.mp done
      cases same
      rw [decided] at kept
      have same : attempt'.nonce = attempt.nonce := kept
      have balance := ih rest'
      simp only [List.countP_cons, same]
      omega

/-- Entries about items, as the items' nonces tell them. -/
private theorem countP_leaves {α : Type} (items : List α) {entry : α → Entry} {nonceOf : α → Text}
    {nonce : Text} (leaves : ∀ item, (entry item).leaves nonce = (nonceOf item == nonce)) :
    (items.map entry).countP (·.leaves nonce) = items.countP (nonceOf · == nonce) := by
  rw [List.countP_map]
  apply List.countP_congr
  intro item _
  simp only [Function.comp_apply, leaves]

/-- Entries of another kind record nothing. -/
private theorem countP_recorded {α : Type} (items : List α) {entry : α → Entry} {nonce : Text}
    (records : ∀ item, entry item ≠ .recorded nonce) :
    (items.map entry).countP (· == .recorded nonce) = 0 := by
  rw [List.countP_map, List.countP_eq_zero]
  intro item _
  simpa using records item

/-- Attempts that a filter keeps and attempts that entries take out are all there were. -/
private theorem filter_balance (journal : Journal) {entry : WakeAttempt → Entry} {nonce : Text}
    (goes : WakeAttempt → Bool) (state : Map Text WakeDriverState)
    (leaves : ∀ attempt, (entry attempt).leaves nonce = (attempt.nonce == nonce))
    (records : ∀ attempt, entry attempt ≠ .recorded nonce) :
    (((journal.attempts.filter goes).map entry).countP (·.leaves nonce))
        + (Journal.written ⟨journal.attempts.filter fun attempt =>
          !goes attempt, state⟩).outstanding nonce
      = journal.outstanding nonce + ((journal.attempts.filter goes).map entry).countP
        (· == .recorded nonce) := by
  rw [countP_leaves _ leaves, countP_recorded _ records, outstanding_written, Nat.add_zero]
  exact countP_split journal.attempts goes (·.nonce == nonce)

/-- What a call takes out of the journal, and what it leaves in it, is what was there or was
recorded. -/
theorem call_balance (dateParse : Text → Moment) {journal : Journal} (call : JournalCall)
    (once : ∀ nonce, journal.outstanding nonce ≤ 1) (nonce : Text) :
    (journal.call dateParse call).2.countP (·.leaves nonce) +
    (journal.call dateParse call).1.outstanding nonce
      = journal.outstanding nonce + (journal.call dateParse call).2.countP
        (· == .recorded nonce) := by
  cases call with
  | recordAttempt attempt =>
    simp only [Journal.call]
    cases recorded : journal.recordAttempt attempt with
    | none => simp
    | some after =>
      simp only [Journal.recordAttempt, Option.ite_none_left_eq_some, Option.some.injEq] at recorded
      obtain ⟨-, -, -, rfl⟩ := recorded
      rw [outstanding_written]
      by_cases same : attempt.nonce = nonce
      · simp [Journal.outstanding, Entry.leaves, same]
      · simp [Journal.outstanding, Entry.leaves, same]
  | settleAttempts input seen =>
    simp only [Journal.call]
    cases settled : journal.settleAttempts dateParse input seen with
    | none => simp
    | some result =>
      obtain ⟨after, results⟩ := result
      cases seen with
      | false =>
        cases settled
        simp
      | true =>
        obtain ⟨⟨results', remaining, state⟩, done, same⟩ := Option.bind_eq_some_iff.mp settled
        cases same
        simp only [@countP_leaves _ results Entry.settled (·.nonce) nonce (fun _ => rfl),
          @countP_recorded _ results Entry.settled nonce (fun _ => by simp),
            outstanding_written, Nat.add_zero]
        exact settleAll_balance done
  | cancelAttempt nonce' =>
    exact filter_balance journal (·.nonce == nonce') journal.state (fun _ => rfl) (fun _ => by simp)
  | failAttempt nonce' now =>
    simp only [Journal.call, Journal.failAttempt]
    cases found : journal.attempts.find? (·.nonce == nonce') with
    | none => simp
    | some attempt =>
      simp only
      cases counted : countFailure journal.state attempt.driver now with
      | none => simp
      | some state =>
        -- The nonce stands in the journal once, so that the filter takes out the attempt that was
        -- found.
        have isNonce : attempt.nonce = nonce' := by simpa using List.find?_some found
        have split := countP_split journal.attempts (·.nonce == nonce') (·.nonce == nonce)
        have only : (journal.attempts.filter (·.nonce == nonce')).countP (·.nonce == nonce)
            = if attempt.nonce = nonce then 1 else 0 := by
          rw [List.countP_filter]
          by_cases same : attempt.nonce = nonce
          · subst same
            subst isNonce
            simp only [Bool.and_self, if_true]
            apply Nat.le_antisymm (once attempt.nonce)
            exact List.countP_pos_iff.mpr ⟨attempt, List.mem_of_find?_eq_some found, by simp⟩
          · rw [if_neg same, List.countP_eq_zero]
            intro other _ both
            simp only [Bool.and_eq_true, beq_iff_eq] at both
            exact same (isNonce.trans (both.2.symm.trans both.1))
        simp only [bind, Option.bind, pure, Option.toList_some, List.map_singleton]
        rw [outstanding_written]
        simp only [Journal.outstanding, bne]
        rw [only] at split
        by_cases same : attempt.nonce = nonce
        · simp only [same, if_true] at split
          simpa [Entry.leaves, same] using split
        · simp only [same, if_false] at split
          simpa [Entry.leaves, same] using split
  | resetWakeDriver driver =>
    have balance := @filter_balance journal (fun attempt => .cleared attempt.nonce) nonce
      (·.driver == driver) (journal.state.delete driver) (fun _ => rfl) (fun _ => by simp)
    simp only [Journal.call, List.countP_cons, Entry.leaves, Bool.false_eq_true, if_false,
      Nat.add_zero, beq_iff_eq,
      reduceCtorEq]
    exact balance
  | takeWakeDisableNotices =>
    simp only [Journal.call, Journal.takeWakeDisableNotices, outstanding_written]
    have none_ : ∀ drivers : List Text,
      (drivers.map Entry.noticed).countP (·.leaves nonce) = 0 := by
      intro drivers
      simp [List.countP_map, Function.comp_def, Entry.leaves]
    rw [none_, countP_recorded _ (fun _ => by simp), Nat.zero_add, Nat.add_zero]
    rfl
  | confirmWakeText driver text now =>
    exact filter_balance journal (confirms driver text now) _ (fun _ => rfl) (fun _ => by simp)

/-- Only `recordAttempt` records. -/
private theorem records_nothing (dateParse : Text → Moment) (journal : Journal) {call : JournalCall}
    (other : ∀ attempt, call ≠ .recordAttempt attempt) (nonce : Text) :
    (journal.call dateParse call).2.countP (· == .recorded nonce) = 0 := by
  -- Only a record writes an entry of a record.
  cases call with
  | recordAttempt attempt => exact absurd rfl (other attempt)
  | settleAttempts input seen =>
    simp only [Journal.call]
    cases journal.settleAttempts dateParse input seen with
    | none => rfl
    | some result => exact countP_recorded _ (fun _ => by simp)
  | cancelAttempt nonce' => exact countP_recorded _ (fun _ => by simp)
  | failAttempt nonce' now =>
    simp only [Journal.call]
    cases journal.failAttempt nonce' now with
    | none => rfl
    | some after => exact countP_recorded _ (fun _ => by simp)
  | resetWakeDriver driver =>
    simp only [Journal.call]
    rw [List.countP_cons, countP_recorded _ (fun _ => by simp)]
    rfl
  | takeWakeDisableNotices => exact countP_recorded _ (fun _ => by simp)
  | confirmWakeText driver text now => exact countP_recorded _ (fun _ => by simp)

/-- No call records a nonce that the journal holds. -/
theorem call_once (dateParse : Text → Moment) {journal : Journal} (call : JournalCall)
    (once : ∀ nonce, journal.outstanding nonce ≤ 1) (nonce : Text) :
    (journal.call dateParse call).1.outstanding nonce ≤ 1 := by
  have before := once nonce
  -- A record of an attempt is refused where its nonce is outstanding already.
  by_cases records : ∃ attempt, call = .recordAttempt attempt
  · obtain ⟨attempt, rfl⟩ := records
    simp only [Journal.call]
    cases recorded : journal.recordAttempt attempt with
    | none => exact before
    | some after =>
      simp only [Journal.recordAttempt, Option.ite_none_left_eq_some, Option.some.injEq] at recorded
      -- So the new attempt is the only one of its nonce.
      obtain ⟨-, -, new, rfl⟩ := recorded
      rw [outstanding_written]
      by_cases same : attempt.nonce = nonce
      · have absent : journal.outstanding nonce = 0 := by
          rw [Journal.outstanding, List.countP_eq_zero]
          intro other inside isNonce
          apply new
          exact List.any_eq_true.mpr ⟨other, inside, by rw [same]; exact isNonce⟩
        simp only [Journal.outstanding] at absent
        simp [Journal.outstanding, same, absent]
      · simpa [Journal.outstanding, same] using before
  -- Any other call only takes attempts away.
  · have balance := call_balance dateParse call once nonce
    rw [records_nothing dateParse journal (fun attempt same => records ⟨attempt, same⟩) nonce]
      at balance
    omega

/-! ## Failures -/

/-- What a driver's state says about its failures and notices. -/
def Tally (failures notices : Nat) : Option WakeDriverState → Prop
  | none => failures = 0 ∧ notices = 0
  | some state => state.failures = .count failures ∧ state.disabled = decide (2 ≤ failures)
    ∧ notices = (if state.noticeShown then 1 else 0)
    ∧ (state.noticeShown = true → state.disabled = true)

/-- The states agree with what was done so far. -/
def Tallied (state : Map Text WakeDriverState) (entries : List Entry) : Prop :=
  ∀ driver, Tally (failuresSince driver entries) (noticesSince driver entries) (state.get driver)

/-- One more entry clears the count, adds to it or leaves it. -/
theorem since_concat (driver : Text) (counts : Entry → Bool) (entries : List Entry)
    (entry : Entry) :
    since driver counts (entries ++ [entry])
      = if entry.clears driver then 0 else if counts entry then since driver counts entries + 1
        else since driver counts entries := by
  rw [since, List.foldl_append]
  rfl

/-- An entry that is not about the driver leaves the counts as they are. -/
theorem since_untouched {driver : Text} {entry : Entry} (untouched : entry.touches driver = false)
    (entries : List Entry) :
    failuresSince driver (entries ++ [entry]) = failuresSince driver entries
      ∧ noticesSince driver (entries ++ [entry]) = noticesSince driver entries := by
  simp only [Entry.touches, Bool.or_eq_false_iff] at untouched
  obtain ⟨⟨cleared, failed⟩, noticed⟩ := untouched
  simp [failuresSince, noticesSince, since_concat, cleared, failed, noticed]

/-- After a success, a confirmation or a reset everything is counted anew. -/
theorem since_cleared {driver : Text} {entry : Entry} (cleared : entry.clears driver = true)
    (entries : List Entry) :
    failuresSince driver (entries ++ [entry]) = 0
      ∧ noticesSince driver (entries ++ [entry]) = 0 := by
  simp [failuresSince, noticesSince, since_concat, cleared]

/-- An entry that touches no driver leaves the tally. -/
theorem Tallied.untouched {state : Map Text WakeDriverState} {entries : List Entry}
    (tallied : Tallied state entries) {entry : Entry}
    (untouched : ∀ driver, entry.touches driver = false) : Tallied state (entries ++ [entry]) := by
  intro driver
  obtain ⟨failures, notices⟩ := since_untouched (untouched driver) entries
  rw [failures, notices]
  exact tallied driver

/-- A state that an entry is about changes with it, and the others stay. -/
theorem Tallied.changed {state state' : Map Text WakeDriverState} {entries : List Entry}
    (tallied : Tallied state entries) {entry : Entry} {driver : Text}
    (others : ∀ other, other ≠ driver → entry.touches other = false)
    (kept : ∀ other, other ≠ driver → state'.get other = state.get other)
    (changed : Tally (failuresSince driver (entries ++ [entry]))
      (noticesSince driver (entries ++ [entry])) (state'.get driver)) :
    Tallied state' (entries ++ [entry]) := by
  intro other
  by_cases same : other = driver
  · exact same ▸ changed
  · obtain ⟨failures, notices⟩ := since_untouched (others other same) entries
    rw [failures, notices, kept other same]
    exact tallied other

/-- A success or a confirmation sets the driver's failures back. -/
theorem Tallied.cleared {state : Map Text WakeDriverState} {entries : List Entry}
    (tallied : Tallied state entries) {entry : Entry} {driver : Text}
    (clears : entry.clears driver = true)
    (others : ∀ other, other ≠ driver → entry.touches other = false) :
    Tallied (state.set driver (.only (.count 0))) (entries ++ [entry]) := by
  apply tallied.changed others (fun other differs => Map.get_set_of_ne differs _)
  obtain ⟨failures, notices⟩ := since_cleared clears entries
  rw [failures, notices, Map.get_set_self]
  exact ⟨rfl, rfl, rfl, nofun⟩

/-- A reset driver has nothing tallied. -/
theorem Tallied.reset {state : Map Text WakeDriverState} {entries : List Entry}
    (tallied : Tallied state entries) (driver : Text) :
    Tallied (state.delete driver) (entries ++ [Entry.reset driver]) := by
  have clears : (Entry.reset driver).clears driver = true := by simp [Entry.clears]
  have others : ∀ other, other ≠ driver → (Entry.reset driver).touches other = false := by
    intro other differs
    simp [Entry.touches, Entry.clears, Entry.fails, Ne.symm differs]
  have kept : ∀ other, other ≠ driver → (state.delete driver).get other = state.get other := by
    intro other differs
    rw [Map.get_delete, if_neg differs]
  apply tallied.changed others kept
  obtain ⟨failures, notices⟩ := since_cleared clears entries
  rw [failures, notices, Map.get_delete, if_pos rfl]
  exact ⟨rfl, rfl⟩

/-- A failure is counted, and the second one disables. -/
theorem Tallied.failure {state state' : Map Text WakeDriverState} {entries : List Entry}
    (tallied : Tallied state entries) {driver : Text} (own : driver ∉ inheritedNames) {now : Moment}
    (counted : countFailure state driver now = some state') (nonce : Text) :
    Tallied state' (entries ++ [Entry.settled ⟨nonce, driver, .failure⟩]) := by
  have others : ∀ other, other ≠ driver →
    (Entry.settled ⟨nonce, driver, .failure⟩).touches other = false := by
    intro other differs
    simp [Entry.touches, Entry.clears, Entry.fails, Ne.symm differs]
  have failures : failuresSince driver (entries ++ [Entry.settled ⟨nonce, driver, .failure⟩])
    = failuresSince driver entries + 1 := by
    simp [failuresSince, since_concat, Entry.clears, Entry.fails]
  have notices : noticesSince driver (entries ++ [Entry.settled ⟨nonce, driver, .failure⟩])
    = noticesSince driver entries := by
    simp [noticesSince, since_concat, Entry.clears]
  -- The state before counts the failures so far, also where there is none.
  have prior : (priorState state driver).failures = .count (failuresSince driver entries)
      ∧ noticesSince driver entries = (if (priorState state driver).noticeShown then 1 else 0)
      ∧ ((priorState state driver).noticeShown = true → 2 ≤ failuresSince driver entries) := by
    have before := tallied driver
    unfold priorState
    cases found : state.get driver with
    | none =>
      rw [found] at before
      simp [WakeDriverState.only, own, before.1, before.2]
    | some prior =>
      rw [found] at before
      obtain ⟨count, disabled, notices, shown⟩ := before
      exact ⟨count, notices, fun isShown => by simpa [disabled] using shown isShown⟩
  obtain ⟨count, noticed, shown⟩ := prior
  unfold countFailure at counted
  simp only [count, Failures.next, Failures.atLeastTwo, decide_eq_true_eq] at counted
  split at counted
  · rename_i enough
    obtain ⟨disabledAt, -, rfl⟩ := Option.map_eq_some_iff.mp counted
    apply tallied.changed others (fun other differs => Map.get_set_of_ne differs _)
    rw [failures, notices, Map.get_set_self]
    exact ⟨rfl, (decide_eq_true enough).symm, noticed, fun _ => rfl⟩
  · rename_i few
    cases counted
    apply tallied.changed others (fun other differs => Map.get_set_of_ne differs _)
    rw [failures, notices, Map.get_set_self]
    have unshown : (priorState state driver).noticeShown = false := by
      cases isShown : (priorState state driver).noticeShown with
      | false => rfl
      | true => exact absurd (shown isShown) (by omega)
    rw [unshown] at noticed
    exact ⟨rfl, (decide_eq_false few).symm, noticed, nofun⟩

/-- What the counts of an agreeing state are, a file gives back. -/
theorem get_written {state : Map Text WakeDriverState} {entries : List Entry}
    (tallied : Tallied state entries) (attempts : List WakeAttempt) (driver : Text) :
    (Journal.written ⟨attempts, state⟩).state.get driver = state.get driver := by
  have counted := tallied driver
  simp only [Journal.written, Map.get_mapValues]
  cases found : state.get driver with
  | none => rfl
  | some driverState =>
    rw [found] at counted
    obtain ⟨failures, disabled, reason, disabledAt, noticeShown⟩ := driverState
    obtain ⟨rfl, -⟩ := counted
    rfl

/-- Writing the journal keeps the tally. -/
theorem Tallied.written {state : Map Text WakeDriverState} {entries : List Entry}
    (tallied : Tallied state entries) (attempts : List WakeAttempt) :
    Tallied (Journal.written ⟨attempts, state⟩).state entries := by
  intro driver
  rw [get_written tallied]
  exact tallied driver

/-- No attempt's driver has a name that every object inherits. -/
def OwnDrivers (attempts : List WakeAttempt) : Prop :=
  ∀ attempt ∈ attempts, attempt.driver ∉ inheritedNames

/-- Fewer attempts name their own drivers too. -/
theorem OwnDrivers.filter {attempts : List WakeAttempt} (own : OwnDrivers attempts)
    (keeps : WakeAttempt → Bool) :
    OwnDrivers (attempts.filter keeps) :=
  fun attempt inside => own attempt (List.mem_of_mem_filter inside)

/-- Writing the journal keeps the attempts' drivers. -/
theorem ownDrivers_written {journal : Journal} (own : OwnDrivers journal.attempts) :
    OwnDrivers journal.written.attempts := by
  intro attempt inside
  obtain ⟨before, was, rfl⟩ := List.mem_map.mp inside
  exact own before was

/-- One settled attempt. -/
theorem Tallied.settled {state state' : Map Text WakeDriverState} {entries : List Entry}
    (tallied : Tallied state entries) {driver : Text} (own : driver ∉ inheritedNames) {now : Moment}
    {status : SettlementStatus} (applied : applyStatus state driver now status = some state')
    (nonce : Text) :
    Tallied state' (entries ++ [Entry.settled ⟨nonce, driver, status⟩]) := by
  cases status with
  -- A void settlement tells nothing of the driver.
  | void =>
    cases applied
    apply tallied.untouched
    intro other
    simp [Entry.touches, Entry.clears, Entry.fails]
  -- A success clears the tally of its driver, and of no other.
  | success =>
    cases applied
    apply tallied.cleared
    · simp [Entry.clears]
    · intro other differs
      simp [Entry.touches, Entry.clears, Entry.fails, Ne.symm differs]
  | failure => exact tallied.failure own applied nonce

/-- A whole pass, attempt by attempt. -/
theorem Tallied.settleAll {dateParse : Text → Moment} {input : SettleInput} :
    ∀ {attempts : List WakeAttempt} {state : Map Text WakeDriverState} {entries : List Entry}
      {results : List WakeSettlement} {remaining : List WakeAttempt}
      {state' : Map Text WakeDriverState},
      Tallied state entries → OwnDrivers attempts →
      input.settleAll dateParse attempts state = some (results, remaining, state') →
      Tallied state' (entries ++ results.map .settled) ∧ OwnDrivers remaining := by
  intro attempts
  -- By induction on the attempts; each one that has a status changes its own driver only.
  induction attempts with
  | nil =>
    intro state entries results remaining state' tallied own done
    cases done
    rw [List.map_nil, List.append_nil]
    exact ⟨tallied, own⟩
  | cons attempt rest ih =>
    intro state entries results remaining state' tallied own done
    have ownRest : OwnDrivers rest := fun other inside => own other (List.mem_cons_of_mem _ inside)
    have ownFirst := own attempt List.mem_cons_self
    have kept := (@statusOf_keeps dateParse input attempt).2
    rw [SettleInput.settleAll] at done
    split at done
    · rename_i attempt' undecided
      obtain ⟨⟨results', remaining', after⟩, rest', same⟩ := Option.bind_eq_some_iff.mp done
      cases same
      rw [undecided] at kept
      have sameDriver : attempt'.driver = attempt.driver := kept
      obtain ⟨tallied', ownRemaining⟩ := ih tallied ownRest rest'
      refine ⟨tallied', fun other inside => ?_⟩
      rcases List.mem_cons.mp inside with rfl | inside
      · rw [sameDriver]
        exact ownFirst
      · exact ownRemaining other inside
    · rename_i attempt' status decided
      obtain ⟨stepped, applied, done⟩ := Option.bind_eq_some_iff.mp done
      obtain ⟨⟨results', remaining', after⟩, rest', same⟩ := Option.bind_eq_some_iff.mp done
      cases same
      rw [decided] at kept
      have sameDriver : attempt'.driver = attempt.driver := kept
      have first := tallied.settled (sameDriver ▸ ownFirst) applied attempt'.nonce
      obtain ⟨tallied', ownRemaining⟩ := ih first ownRest rest'
      rw [List.append_assoc] at tallied'
      exact ⟨tallied', ownRemaining⟩

/-- Entries that are about no driver's state. -/
private theorem tallied_untouched_all {state : Map Text WakeDriverState} {α : Type} (items : List α)
    {entry : α → Entry} (untouched : ∀ item driver, (entry item).touches driver = false) :
    ∀ {entries : List Entry}, Tallied state entries →
    Tallied state (entries ++ items.map entry) := by
  induction items with
  | nil =>
    intro entries tallied
    rw [List.map_nil, List.append_nil]
    exact tallied
  | cons item rest ih =>
    intro entries tallied
    have first := tallied.untouched (untouched item)
    rw [List.map_cons, List.append_cons]
    exact ih first

/-- Confirmations of one driver. -/
private theorem tallied_confirmed {driver : Text} (attempts : List WakeAttempt) :
    ∀ {state : Map Text WakeDriverState} {entries : List Entry}, Tallied state entries →
      Tallied (if attempts = [] then state else state.set driver (.only (.count 0)))
        (entries ++ attempts.map fun attempt => .confirmed attempt.nonce driver) := by
  induction attempts with
  | nil =>
    intro state entries tallied
    rw [List.map_nil, List.append_nil]
    exact tallied
  | cons attempt rest ih =>
    intro state entries tallied
    have clears :
      (Entry.confirmed attempt.nonce driver).clears driver = true := by simp [Entry.clears]
    have others : ∀ other, other ≠ driver →
      (Entry.confirmed attempt.nonce driver).touches other = false := by
      intro other differs
      simp [Entry.touches, Entry.clears, Entry.fails, Ne.symm differs]
    have later := ih (tallied.cleared clears others)
    rw [List.map_cons, List.append_cons, if_neg (List.cons_ne_nil _ _)]
    intro other
    have counted := later other
    -- To set the same state again changes nothing.
    have again : ((state.set driver (.only (.count 0))).set driver (.only (.count 0))).get other
        = (state.set driver (WakeDriverState.only (.count 0))).get other := by
      simp only [Map.get_set]
      split
      · rfl
      · rfl
    split_ifs at counted
    · exact counted
    · rw [again] at counted
      exact counted

/-- Notices are counted for their own driver, and failures not at all. -/
private theorem since_noticed (driver : Text) (drivers : List Text) :
    ∀ entries : List Entry,
      failuresSince driver (entries ++ drivers.map .noticed) = failuresSince driver entries
        ∧ noticesSince driver (entries ++ drivers.map .noticed) = noticesSince driver entries
          + drivers.count driver := by
  -- The induction is on the drivers told: each notice counts once, and is no failure.
  induction drivers with
  | nil =>
    intro entries
    rw [List.map_nil, List.append_nil]
    exact ⟨rfl, rfl⟩
  | cons noticed rest ih =>
    intro entries
    obtain ⟨failures, notices⟩ := ih (entries ++ [Entry.noticed noticed])
    rw [List.map_cons, List.append_cons, failures, notices]
    by_cases same : noticed = driver
    · subst same
      simp only [failuresSince, noticesSince, since_concat, Entry.clears, Entry.fails,
        Bool.false_eq_true, if_false,
        beq_self_eq_true, if_true, List.count_cons_self, true_and]
      omega
    · have untouched : (Entry.noticed noticed).touches driver = false := by
        simp [Entry.touches, Entry.clears, Entry.fails, same]
      obtain ⟨failures', notices'⟩ := since_untouched untouched entries
      rw [failures', notices', List.count_cons_of_ne same]
      exact ⟨rfl, rfl⟩

/-- Notices: each is due, and is shown from then on. -/
private theorem tallied_noticed {state : Map Text WakeDriverState} {entries : List Entry}
    (tallied : Tallied state entries) :
    Tallied (state.mapValues fun driverState =>
        if driverState.noticeDue then { driverState with noticeShown := true } else driverState)
      (entries ++ ((state.entries.filter (·.2.noticeDue)).map (·.1)).map .noticed) := by
  intro driver
  -- Each driver whose notice is due is told once.
  obtain ⟨failures, notices⟩ :=
    since_noticed driver ((state.entries.filter (·.2.noticeDue)).map (·.1)) entries
  have before := tallied driver
  have apart : ((state.entries.filter (·.2.noticeDue)).map (·.1)).Nodup :=
    state.distinct.sublist (List.filter_sublist.map _)
  rw [failures, notices, Map.get_mapValues]
  -- A driver without a state has no notice due.
  cases found : state.get driver with
  | none =>
    rw [found] at before
    have absent : ((state.entries.filter (·.2.noticeDue)).map (·.1)).count driver = 0 := by
      apply List.count_eq_zero.mpr
      intro inside
      obtain ⟨⟨driver', driverState⟩, isDue, rfl⟩ := List.mem_map.mp inside
      have there := Map.get_eq_some.mpr (List.mem_of_mem_filter isDue)
      rw [found] at there
      cases there
    rw [absent]
    exact before
  | some driverState =>
    rw [found] at before
    obtain ⟨count, disabled, shown, onlyDisabled⟩ := before
    rw [Option.map_some]
    -- The notice was due: it is counted now, and shown.
    cases due : driverState.noticeDue with
    | true =>
      have once : ((state.entries.filter (·.2.noticeDue)).map (·.1)).count driver = 1 := by
        apply List.count_eq_one_of_mem apart
        exact List.mem_map.mpr ⟨(driver, driverState),
          List.mem_filter.mpr ⟨Map.get_eq_some.mp found, due⟩, rfl⟩
      simp only [WakeDriverState.noticeDue, Bool.and_eq_true, Bool.not_eq_true'] at due
      rw [once, shown, due.2]
      exact ⟨count, disabled, rfl, fun _ => due.1⟩
    -- It was not due, so nothing of this driver changes.
    | false =>
      have absent : ((state.entries.filter (·.2.noticeDue)).map (·.1)).count driver = 0 := by
        apply List.count_eq_zero.mpr
        intro inside
        obtain ⟨⟨driver', driverState'⟩, isDue, rfl⟩ := List.mem_map.mp inside
        obtain ⟨there, isDue⟩ := List.mem_filter.mp isDue
        have same := Map.get_eq_some.mpr there
        rw [found] at same
        cases same
        rw [due] at isDue
        cases isDue
      rw [absent]
      exact ⟨count, disabled, shown, onlyDisabled⟩

/-- Every call keeps the states and what was done in agreement, when it records no attempt of a
driver with an inherited name. -/
theorem call_tallied (dateParse : Text → Moment) {journal : Journal} {entries : List Entry}
    (tallied : Tallied journal.state entries) (own : OwnDrivers journal.attempts)
    (call : JournalCall)
    (named : ∀ attempt, call = .recordAttempt attempt → attempt.driver ∉ inheritedNames) :
    Tallied (journal.call dateParse call).1.state (entries ++ (journal.call dateParse call).2)
      ∧ OwnDrivers (journal.call dateParse call).1.attempts := by
  have unchanged : Tallied journal.state (entries ++ []) ∧ OwnDrivers journal.attempts := by
    rw [List.append_nil]
    exact ⟨tallied, own⟩
  -- By the call: each touches the tally of its own driver at most.
  cases call with
  | recordAttempt attempt =>
    simp only [Journal.call]
    cases recorded : journal.recordAttempt attempt with
    | none => exact unchanged
    | some after =>
      simp only [Journal.recordAttempt, Option.ite_none_left_eq_some, Option.some.injEq] at recorded
      obtain ⟨-, -, -, rfl⟩ := recorded
      refine ⟨?_, ownDrivers_written fun other inside => ?_⟩
      · apply Tallied.written
        apply tallied.untouched
        intro driver
        simp [Entry.touches, Entry.clears, Entry.fails]
      -- The new attempt is of a driver that is named properly.
      · rcases List.mem_append.mp inside with inside | inside
        · exact own other inside
        · rw [List.mem_singleton.mp inside]
          exact named attempt rfl
  | settleAttempts input seen =>
    simp only [Journal.call]
    cases settled : journal.settleAttempts dateParse input seen with
    | none => exact unchanged
    | some result =>
      obtain ⟨after, results⟩ := result
      cases seen with
      -- Unseen, the settlements are dropped, and with them what they would have counted.
      | false =>
        cases settled
        exact unchanged
      | true =>
        obtain ⟨⟨results', remaining, state⟩, done, same⟩ := Option.bind_eq_some_iff.mp settled
        cases same
        obtain ⟨tallied', own'⟩ := tallied.settleAll own done
        exact ⟨tallied'.written remaining, ownDrivers_written own'⟩
  -- A cancelled attempt says nothing about its driver.
  | cancelAttempt nonce =>
    refine ⟨?_, ownDrivers_written (own.filter _)⟩
    apply Tallied.written
    apply tallied_untouched_all _ _ tallied
    intro attempt driver
    simp [Entry.touches, Entry.clears, Entry.fails]
  | failAttempt nonce now =>
    simp only [Journal.call, Journal.failAttempt]
    cases found : journal.attempts.find? (·.nonce == nonce) with
    | none => exact unchanged
    -- A failed attempt counts for its driver.
    | some attempt =>
      simp only
      cases counted : countFailure journal.state attempt.driver now with
      | none => exact unchanged
      | some state =>
        have failed :=
          tallied.failure (own attempt (List.mem_of_find?_eq_some found)) counted attempt.nonce
        exact ⟨failed.written _, ownDrivers_written (own.filter _)⟩
  | resetWakeDriver driver =>
    refine ⟨?_, ownDrivers_written (own.filter _)⟩
    apply Tallied.written
    -- The entries of the attempts that go with the reset touch no tally.
    have untouched : ∀ (attempt : WakeAttempt) (other : Text),
      (Entry.cleared attempt.nonce).touches other = false := by
      intro attempt other
      simp [Entry.touches, Entry.clears, Entry.fails]
    have cleared :=
      tallied_untouched_all (journal.attempts.filter (·.driver == driver)) untouched
      (tallied.reset driver)
    rw [List.append_assoc] at cleared
    exact cleared
  | takeWakeDisableNotices =>
    refine ⟨?_, ownDrivers_written own⟩
    apply Tallied.written
    exact tallied_noticed tallied
  | confirmWakeText driver text now =>
    refine ⟨?_, ownDrivers_written (own.filter _)⟩
    apply Tallied.written
    have confirmed :=
      @tallied_confirmed driver (journal.attempts.filter (confirms driver text now)) _ _ tallied
    -- Some attempt is confirmed or none is, and only then the driver is cleared.
    cases some_ : journal.attempts.any (confirms driver text now) with
    | false =>
      have empty : journal.attempts.filter (confirms driver text now) = [] := by
        apply List.filter_eq_nil_iff.mpr
        intro attempt inside
        have none_ := List.any_eq_false.mp some_ attempt inside
        exact none_
      rw [if_pos empty] at confirmed
      exact confirmed
    | true =>
      have nonempty : journal.attempts.filter (confirms driver text now) ≠ [] := by
        intro empty
        obtain ⟨attempt, inside, isConfirmed⟩ := List.any_eq_true.mp some_
        exact List.filter_eq_nil_iff.mp empty attempt inside isConfirmed
      rw [if_neg nonempty] at confirmed
      exact confirmed

/-- What is as the file had it, the file has again. -/
private theorem kept_written {journal : Journal} {entries : List Entry}
    (tallied : Tallied journal.state entries) {state : Map Text WakeDriverState} {driver : Text}
    (kept : state.get driver = journal.state.get driver) (attempts : List WakeAttempt) :
    (Journal.written ⟨attempts, state⟩).state.get driver = journal.state.get driver := by
  have same := get_written tallied attempts driver
  simp only [Journal.written, Map.get_mapValues] at same ⊢
  rw [kept]
  exact same

/-- A settlement leaves the drivers that it does not touch. -/
private theorem applyStatus_untouched {state state' : Map Text WakeDriverState}
    {driver other : Text} {now : Moment} {status : SettlementStatus}
    (applied : applyStatus state driver now status = some state') {nonce : Text}
    (untouched : (Entry.settled ⟨nonce, driver, status⟩).touches other = false) :
    state'.get other = state.get other := by
  -- Each status changes the state of its driver at most, and is then said to touch it.
  cases status with
  | void =>
    cases applied
    rfl
  | success =>
    cases applied
    apply Map.get_set_of_ne
    intro same
    simp [Entry.touches, Entry.clears, same] at untouched
  | failure =>
    have differs : other ≠ driver := by
      intro same
      simp [Entry.touches, Entry.clears, Entry.fails, same] at untouched
    simp only [applyStatus, countFailure] at applied
    split at applied
    · obtain ⟨disabledAt, -, rfl⟩ := Option.map_eq_some_iff.mp applied
      exact Map.get_set_of_ne differs _
    · cases applied
      exact Map.get_set_of_ne differs _

/-- Settlements leave the drivers that they do not touch. -/
private theorem settleAll_untouched {dateParse : Text → Moment} {input : SettleInput}
    {driver : Text} :
    ∀ {attempts : List WakeAttempt} {state : Map Text WakeDriverState}
      {results : List WakeSettlement}
      {remaining : List WakeAttempt} {state' : Map Text WakeDriverState},
      input.settleAll dateParse attempts state = some (results, remaining, state') →
      (∀ settlement ∈ results, (Entry.settled settlement).touches driver = false) →
      state'.get driver = state.get driver := by
  intro attempts
  -- The induction is on the attempts, as before.
  induction attempts with
  | nil =>
    intro state results remaining state' done untouched
    cases done
    rfl
  | cons attempt rest ih =>
    intro state results remaining state' done untouched
    rw [SettleInput.settleAll] at done
    split at done
    · obtain ⟨⟨results', remaining', after⟩, rest', same⟩ := Option.bind_eq_some_iff.mp done
      cases same
      exact ih rest' untouched
    · obtain ⟨stepped, applied, done⟩ := Option.bind_eq_some_iff.mp done
      obtain ⟨⟨results', remaining', after⟩, rest', same⟩ := Option.bind_eq_some_iff.mp done
      cases same
      rw [ih rest' fun settlement inside => untouched settlement (List.mem_cons_of_mem _ inside)]
      exact applyStatus_untouched applied (untouched _ List.mem_cons_self)

/-- A call changes no state of a driver that its entries are not about. -/
theorem call_untouched (dateParse : Text → Moment) {journal : Journal} {entries : List Entry}
    (tallied : Tallied journal.state entries) (call : JournalCall) {driver : Text}
    (untouched : ∀ entry ∈ (journal.call dateParse call).2, entry.touches driver = false) :
    (journal.call dateParse call).1.state.get driver = journal.state.get driver := by
  -- By the call again: what it changes of a driver, its entries tell.
  cases call with
  | recordAttempt attempt =>
    simp only [Journal.call]
    cases recorded : journal.recordAttempt attempt with
    | none => rfl
    | some after =>
      simp only [Journal.recordAttempt, Option.ite_none_left_eq_some, Option.some.injEq] at recorded
      obtain ⟨-, -, -, rfl⟩ := recorded
      exact kept_written tallied rfl _
  | settleAttempts input seen =>
    simp only [Journal.call] at untouched ⊢
    cases settled : journal.settleAttempts dateParse input seen with
    | none => rfl
    | some result =>
      obtain ⟨after, results⟩ := result
      rw [settled] at untouched
      cases seen with
      | false =>
        cases settled
        rfl
      | true =>
        obtain ⟨⟨results', remaining, state⟩, done, same⟩ := Option.bind_eq_some_iff.mp settled
        cases same
        apply kept_written tallied
        apply settleAll_untouched done
        intro settlement inside
        exact untouched _ (List.mem_map_of_mem inside)
  | cancelAttempt nonce => exact kept_written tallied rfl _
  | failAttempt nonce now =>
    simp only [Journal.call, Journal.failAttempt] at untouched ⊢
    cases found : journal.attempts.find? (·.nonce == nonce) with
    | none => rfl
    | some attempt =>
      rw [found] at untouched
      simp only at untouched ⊢
      cases counted : countFailure journal.state attempt.driver now with
      | none => rfl
      -- A counted failure touches its driver.
      | some state =>
        rw [counted] at untouched
        have first := untouched (.settled ⟨attempt.nonce, attempt.driver, .failure⟩)
          (by simp [bind, pure])
        have applied : applyStatus journal.state attempt.driver now .failure = some state := counted
        exact kept_written tallied (applyStatus_untouched applied first) _
  -- The reset touches the driver that it clears.
  | resetWakeDriver driver' =>
    apply kept_written tallied
    rw [Map.get_delete, if_neg]
    intro same
    have first := untouched (.reset driver') List.mem_cons_self
    simp [Entry.touches, Entry.clears, same] at first
  | takeWakeDisableNotices =>
    apply kept_written tallied
    rw [Map.get_mapValues]
    cases found : journal.state.get driver with
    | none => rfl
    | some driverState =>
      cases due : driverState.noticeDue with
      | false => simp [due]
      -- A notice that is due is told, and so the driver is touched.
      | true =>
        exfalso
        have noticed :
          Entry.noticed driver ∈ (journal.call dateParse .takeWakeDisableNotices).2 := by
          apply List.mem_map_of_mem
          exact List.mem_map.mpr ⟨(driver, driverState),
            List.mem_filter.mpr ⟨Map.get_eq_some.mp found, due⟩, rfl⟩
        have first := untouched _ noticed
        simp [Entry.touches] at first
  | confirmWakeText driver' text now =>
    apply kept_written tallied
    split
    -- A confirmation touches the driver that it clears.
    · rename_i some_
      obtain ⟨attempt, inside, isConfirmed⟩ := List.any_eq_true.mp some_
      apply Map.get_set_of_ne
      intro same
      have confirmed :
        Entry.confirmed attempt.nonce driver' ∈
        (journal.call dateParse (.confirmWakeText driver' text now)).2 :=
        List.mem_map_of_mem (List.mem_filter.mpr ⟨inside, isConfirmed⟩)
      have first := untouched _ confirmed
      simp [Entry.touches, Entry.clears, same] at first
    · rfl

/-! ## Runs -/

/-- Whether the call records an attempt only of a driver whose name no object inherits. -/
def JournalCall.ownDriver : JournalCall → Prop
  | .recordAttempt attempt => attempt.driver ∉ inheritedNames
  | _ => True

/-- What a run leaves is sound, and agrees with what it did. -/
private theorem run_sound (dateParse : Text → Moment) (calls : List JournalCall) :
    ∀ (journal : Journal) (entries : List Entry), (∀ call ∈ calls, call.ownDriver) →
      Tallied journal.state entries → OwnDrivers journal.attempts →
      (∀ nonce, journal.outstanding nonce ≤ 1) →
      (∀ nonce, entries.countP (·.leaves nonce) + journal.outstanding nonce = entries.countP
        (· == .recorded nonce)) →
      ∃ journal' entries', calls.foldl (fun (journal, entries) call =>
          ((journal.call dateParse call).1, entries ++ (journal.call dateParse call).2))
            (journal, entries)
          = (journal', entries')
        ∧ Tallied journal'.state entries' ∧ OwnDrivers journal'.attempts
        ∧ (∀ nonce, journal'.outstanding nonce ≤ 1)
        ∧ ∀ nonce, entries'.countP (·.leaves nonce) + journal'.outstanding nonce
          = entries'.countP (· == .recorded nonce) := by
  -- By induction on the calls; each keeps the accounts.
  induction calls with
  | nil => exact fun journal entries _ tallied own once balance =>
    ⟨journal, entries, rfl, tallied, own, once, balance⟩
  | cons call rest ih =>
    intro journal entries named tallied own once balance
    have named' : ∀ attempt, call = .recordAttempt attempt → attempt.driver ∉ inheritedNames := by
      intro attempt same
      have first := named call List.mem_cons_self
      rwa [same] at first
    obtain ⟨tallied', own'⟩ := call_tallied dateParse tallied own call named'
    apply ih _ _ (fun other inside => named other (List.mem_cons_of_mem _ inside)) tallied' own'
      (call_once dateParse call once)
    intro nonce
    have step := call_balance dateParse call once nonce
    have before := balance nonce
    rw [List.countP_append, List.countP_append]
    omega

/-- How often the journal says that the driver failed; a driver without a state did not. -/
def Journal.failures (journal : Journal) (driver : Text) : Failures :=
  ((journal.state.get driver).map (·.failures)).getD (.count 0)

def Journal.isDisabled (journal : Journal) (driver : Text) : Bool :=
  (journal.state.get driver).any (·.disabled)

/-- In every run of calls that records attempts only of drivers whose names no object inherits: a
nonce leaves the journal as often as it was recorded and is not outstanding, at most once; a
driver's failures are its failures since its last success, confirmation or reset, and it is disabled
exactly from two on; it is reported at most once since; and a next call changes no state of a driver
that it neither fails, clears nor reports. -/
theorem wake_accounts (dateParse : Text → Moment) {calls : List JournalCall}
    (named : ∀ call ∈ calls, call.ownDriver) :
    (∀ nonce, (run dateParse calls).2.countP (·.leaves nonce) +
      (run dateParse calls).1.outstanding nonce
        = (run dateParse calls).2.countP (· == .recorded nonce)
          ∧ (run dateParse calls).1.outstanding nonce ≤ 1)
      ∧ (∀ driver, (run dateParse calls).1.failures driver
        = .count (failuresSince driver (run dateParse calls).2))
      ∧ (∀ driver, (run dateParse calls).1.isDisabled driver
        = decide (2 ≤ failuresSince driver (run dateParse calls).2))
      ∧ (∀ driver, noticesSince driver (run dateParse calls).2 ≤ 1)
      ∧ ∀ call driver,
        (∀ entry ∈ ((run dateParse calls).1.call dateParse call).2, entry.touches driver = false) →
        ((run dateParse calls).1.call dateParse call).1.state.get driver
          = (run dateParse calls).1.state.get driver := by
  have empty : Tallied Journal.initial.state [] := fun driver => ⟨rfl, rfl⟩
  -- Along the whole run the tally holds, and the nonces balance.
  obtain ⟨journal, entries, ran, tallied, own, once, balance⟩ :=
    run_sound dateParse calls .initial [] named empty
    (fun _ inside => absurd inside List.not_mem_nil) (fun nonce => Nat.zero_le 1) (fun nonce => rfl)
  have same : run dateParse calls = (journal, entries) := ran
  rw [same]
  refine ⟨fun nonce => ⟨balance nonce, once nonce⟩, ?_, ?_, ?_, ?_⟩
  -- The failures are those since the last time the driver was cleared.
  · intro driver
    have counted := tallied driver
    unfold Journal.failures
    cases found : journal.state.get driver with
    | none =>
      rw [found] at counted
      simp [counted.1]
    | some state =>
      rw [found] at counted
      exact counted.1
  · intro driver
    have counted := tallied driver
    unfold Journal.isDisabled
    cases found : journal.state.get driver with
    | none =>
      rw [found] at counted
      simp [counted.1]
    | some state =>
      rw [found] at counted
      exact counted.2.1
  -- At most one notice is counted, and only where one was shown.
  · intro driver
    have counted := tallied driver
    cases found : journal.state.get driver with
    | none =>
      rw [found] at counted
      simp [counted.2]
    | some state =>
      rw [found] at counted
      simp only
      rw [counted.2.2.1]
      split
      · exact Nat.le_refl 1
      · exact Nat.zero_le 1
  · exact fun call driver untouched => call_untouched dateParse tallied call untouched

/-- An attempt with a deadline of six seconds. -/
def sampleAttempt (nonce driver : String) : WakeAttempt :=
  ⟨lit nonce, lit driver, .finite 0, .finite 6000, none, false, false, false⟩

/-- Two attempts of a driver, each recorded and then failed, and the notices after that. -/
def failTwice (driver : String) : List JournalCall :=
  [.recordAttempt (sampleAttempt "00000001" driver), .failAttempt (lit "00000001") (.finite 1),
    .recordAttempt (sampleAttempt "00000002" driver), .failAttempt (lit "00000002") (.finite 2),
      .takeWakeDisableNotices]

/-- Two failures of the queue driver disable it. -/
theorem wake_accounts_queue :
    (run (fun _ => .nan) (failTwice "queue")).1.isDisabled (lit "queue") = true := by
  have own : lit "queue" ∉ inheritedNames := by decide +kernel
  have named : ∀ call ∈ failTwice "queue", call.ownDriver := by
    intro call inside
    simp only [failTwice, List.mem_cons, List.not_mem_nil, or_false] at inside
    rcases inside with rfl | rfl | rfl | rfl | rfl
    · exact own
    · trivial
    · exact own
    · trivial
    · trivial
  -- Two failures in a row disable the driver.
  rw [(wake_accounts (fun _ => .nan) named).2.2.1]
  decide +kernel

/-- A driver that is called like a function of every object failed twice, and is neither counted so
nor disabled. -/
theorem failures_of_inherited_name :
    failuresSince (lit "toString") (run (fun _ => .nan) (failTwice "toString")).2 = 2
      ∧ (run (fun _ => .nan) (failTwice "toString")).1.failures (lit "toString") = .count 1
      ∧ (run (fun _ => .nan) (failTwice "toString")).1.isDisabled (lit "toString") = false := by
  decide +kernel

end Khala.WakeJournal
