import Khala.OpenCode.KeptFrames

/-! Prompts that fail. -/

namespace Khala.OpenCode

open Js Concurrent

def Observed.fails : Observed → Bool
  | .prompted _ false => true
  | _ => false

/-- A success, a typed message, or the loss of the entry. -/
def Observed.resets : Observed → Bool
  | .prompted _ true | .touched true | .deleted => true
  | _ => false

/-- How many prompts failed. -/
def failed (log : List Observed) : Nat := (log.filter Observed.fails).length

namespace Session

section

variable {session session' : Session}

/-- The entry has counted the prompts that failed, but for one whose call has not gone on. -/
structure Counts (session : Session) (count : Nat) : Prop where
  three : count ≤ 3
  absent : session.disposed = false → session.current = none → count = 0
  entry : session.disposed = false → ∀ number, session.current = some number →
    count ≤ (session.states number).failures
    ∨ count ≤ (session.states number).failures + 1
      ∧ ∃ call wake, session.wakes call = some wake ∧ wake.state = number
      ∧ wake.stage = .prompting (some false)
  success : session.disposed = false → ∀ number, session.current = some number →
    ¬ Unsettled session number → count = 0

def Failing (session : Session) : Prop :=
  ∀ after, after <:+ session.log → (∀ what ∈ after, what.resets = false) →
    Counts session (failed after)

/-- What is no failure leaves the count. -/
theorem Failing.of_log (failing : Failing session) (whats : List Observed)
    (log : session'.log = session.log ++ whats) (none_ : ∀ what ∈ whats, what.fails = false)
    (keeps : ∀ count, Counts session count → Counts session' count) : Failing session' := by
  have nothing : ∀ {part : List Observed}, (∀ what ∈ part, what.fails = false) →
    part.filter Observed.fails = [] := fun none_ =>
    List.filter_eq_nil_iff.mpr fun what there => by simp [none_ what there]
  intro after suffix unreset
  rw [log] at suffix
  rcases suffix_append suffix with inside | ⟨before, rfl, inside⟩
  · have zero := keeps _ (failing [] (List.nil_suffix) (by simp))
    rwa [failed, nothing fun what there => none_ what (inside.subset there)]
  · rw [failed, List.filter_append, nothing none_, List.append_nil]
    exact keeps _ (failing before inside fun what there =>
      unreset what (List.mem_append_left _ there))

/-- A reset leaves nothing to count. -/
theorem Failing.of_reset {what : Observed} (log : session'.log = session.log ++ [what])
    (resets : what.resets = true) (zero : Counts session' 0) : Failing session' := by
  intro after suffix unreset
  rw [log] at suffix
  rcases List.suffix_concat_iff.mp suffix with rfl | ⟨before, rfl, -⟩
  · exact zero
  · have unreset := unreset what (List.mem_append_right _ List.mem_cons_self)
    rw [resets] at unreset
    cases unreset

/-- Only what a call with the entry has counted or still has to count changes what was counted. -/
theorem Counts.remains {count : Nat} (counts : Counts session count)
    (ended : session'.disposed = session.disposed) (current : session'.current = session.current)
    (failures : ∀ number, (session'.states number).failures = (session.states number).failures)
    (calls : ∀ call wake accepted, session.wakes call = some wake →
      wake.stage = .prompting (some accepted) → session'.wakes call = some wake)
    (calls' : ∀ call wake, session'.wakes call = some wake → wake.stage = .prompting (some true) →
      session.wakes call = some wake) :
    Counts session' count where
  three := counts.three
  absent alive none_ := counts.absent (ended ▸ alive) (current ▸ none_)
  entry alive number own := by
    rw [failures]
    -- The refused prompt that is not counted yet is still there.
    refine (counts.entry (ended ▸ alive) number (current ▸ own)).imp_right fun more => ⟨more.1, ?_⟩
    obtain ⟨-, call, wake, is, entry, refused⟩ := more
    exact ⟨call, wake, calls call wake false is refused, entry, refused⟩
  success alive number own settled := by
    refine counts.success (ended ▸ alive) number (current ▸ own) fun unsettled =>
      settled fun call wake is entry accepted => ?_
    exact unsettled call wake (calls' call wake is accepted) entry accepted

/-- A call that does not prompt leaves the prompts of the others. -/
theorem prompting_of_update {call : Nat} {wake wake' : Wake} (is : session.wakes call = some wake)
    (stage : ∀ accepted, wake.stage ≠ .prompting (some accepted)) (other : Nat) (found : Wake)
    (accepted : Bool) (there : session.wakes other = some found)
    (asks : found.stage = .prompting (some accepted)) :
    Function.update session.wakes call (some wake') other = some found :=
  (update_of_stage is there).resolve_right fun same => stage accepted (same.1 ▸ asks)

/-- A prompt that is under way was so before another wake changed. -/
theorem prompting_before_update {call : Nat} {wake' : Wake}
    (stage : wake'.stage ≠ .prompting (some true)) (other : Nat) (found : Wake)
    (there : Function.update session.wakes call (some wake') other = some found)
    (asks : found.stage = .prompting (some true)) :
    session.wakes other = some found := by
  rw [Function.update_apply] at there
  split at there
  · obtain rfl := Option.some.inj there
    exact absurd asks stage
  · exact there

/-- A call that fails is counted. -/
theorem Counts.counted {count : Nat} (counts : Counts session count) {call : Nat} {wake : Wake}
    (is : session.wakes call = some wake) (ended : session'.disposed = session.disposed)
    (current : session'.current = session.current)
    (wakes : session'.wakes = Function.update session.wakes call
      (some { wake with stage := .finished }))
    (few : (session'.states wake.state).failures = (session.states wake.state).failures + 1)
    (same : ∀ number, number ≠ wake.state → session'.states number = session.states number) :
    Counts session' count where
  three := counts.three
  absent alive none_ := counts.absent (ended ▸ alive) (current ▸ none_)
  entry alive number own := by
    by_cases entry : number = wake.state
    · subst entry
      -- The entry counts one more, which covers a prompt that it had not counted.
      rw [few]
      exact .inl ((counts.entry (ended ▸ alive) _ (current ▸ own)).elim (fun less =>
        Nat.le_succ_of_le less) fun more => more.1)
    · rw [same number entry]
      refine (counts.entry (ended ▸ alive) number (current ▸ own)).imp_right fun more =>
        ⟨more.1, ?_⟩
      obtain ⟨-, other, found, there, entry', refused⟩ := more
      have differs : other ≠ call := by
        rintro rfl
        rw [Option.some.inj (there.symm.trans is)] at entry'
        exact entry entry'.symm
      exact ⟨other, found, by rw [wakes, Function.update_of_ne differs, there], entry', refused⟩
  success alive number own settled := by
    refine counts.success (ended ▸ alive) number (current ▸ own) fun unsettled =>
      settled fun other found there entry accepted => ?_
    exact unsettled other found
      (prompting_before_update (by simp) other found (wakes ▸ there) accepted) entry accepted

/-- Every change keeps the count. -/
theorem Failing.change (change : Change session session') (sound : Sound session)
    (failing : Failing session) : Failing session' := by
  -- Only the refusal of a prompt adds to what failed, and until its call goes on the entry is one
  -- behind.
  cases change with
  | make absent =>
    refine failing.of_log [] (List.append_nil _).symm (by simp) fun count counts =>
      ⟨counts.three, fun _ none_ => (by cases none_), fun alive number own =>
        ?_, fun alive number own settled => ?_⟩
    · rw [counts.absent alive absent]
      exact .inl (Nat.zero_le _)
    · exact counts.absent alive absent
  | rest is =>
    refine failing.of_log [] (List.append_nil _).symm (by simp) fun count counts => ?_
    exact counts.remains rfl rfl (field_update SessionState.failures (by exact rfl))
      (fun _ _ _ is _ => is) fun _ _ is _ => is
  | @touch number is typed =>
    cases typed with
    | false =>
      refine failing.of_log _ rfl (by simp [Observed.fails]) fun count counts => ?_
      exact counts.remains rfl rfl (field_update SessionState.failures (by exact rfl))
        (fun _ _ _ is _ => is) fun _ _ is _ => is
    | true =>
      -- A typed message forgives all failures.
      exact Failing.of_reset rfl rfl ⟨Nat.zero_le 3, fun _ _ => rfl, fun _ _ _ =>
        .inl (Nat.zero_le _), fun _ _ _ _ => rfl⟩
  | ignore ended is =>
    refine failing.of_log _ rfl (fun what there => ?_) fun count counts =>
      counts.remains rfl rfl (fun _ => rfl) (fun _ _ _ is _ => is) fun _ _ is _ => is
    obtain rfl := List.mem_singleton.mp there
    rcases is with rfl | rfl <;> rfl
  | @deliver number is alive free few =>
    refine failing.of_log _ rfl (by simp [Observed.fails]) fun count counts => ?_
    refine counts.remains rfl rfl (field_update SessionState.failures (by exact rfl))
      (fun call wake accepted there _ => ?_) fun call wake there accepted => ?_
    · exact (Function.update_of_ne (Nat.ne_of_lt (sound.called call wake there)) _ _).trans there
    · simp only [Session.deliver, Function.update_apply] at there
      split at there
      · obtain rfl := Option.some.inj there
        cases accepted
      · exact there
  | @fail call wake input is asks now =>
    refine failing.of_log _ rfl (by simp [Observed.fails]) fun count counts => ?_
    have few : ((((session.observe (.delivered call none)).fail wake now).finish call wake).states
      wake.state).failures
        = (session.states wake.state).failures + 1 := by
      simp [Session.fail, finish_put, observe]
    have same : ∀ number, number ≠ wake.state →
        (((session.observe (.delivered call none)).fail wake now).finish call wake).states number
          = session.states number := by
      intro number differs
      rw [Session.fail, finish_put]
      exact Function.update_of_ne differs _ _
    exact counts.counted is rfl rfl rfl few same
  | @suppress call wake is asks approval =>
    refine failing.of_log _ rfl (by simp [Observed.fails]) fun count counts => ?_
    exact counts.remains rfl rfl (field_update SessionState.failures (by exact rfl))
      (prompting_of_update is (by rw [asks]; simp))
      (prompting_before_update (by simp))
  | @keep call wake input answer stdout is asks brings =>
    refine failing.of_log _ rfl (by simp [Observed.fails]) fun count counts => ?_
    refine counts.remains rfl rfl (fun number => ?_) (prompting_of_update is (by rw [asks]; simp))
      (prompting_before_update (by simp))
    rw [finish_put]
    exact field_update SessionState.failures (by exact rfl) number
  | @prompt call wake input answer stdout is asks brings some_ alive own untouched =>
    refine failing.of_log [.delivered call (some answer), .prompts call (wakeParts stdout)]
      (List.append_assoc ..)
      (by simp [Observed.fails]) fun count counts => ?_
    exact counts.remains rfl rfl (field_update SessionState.failures (by exact rfl))
      (prompting_of_update is (by rw [asks]; simp))
      (prompting_before_update (by simp))
  | @settle call wake is open_ accepted =>
    cases accepted with
    | true =>
      refine Failing.of_reset rfl rfl ⟨Nat.zero_le 3, fun _ _ => rfl, fun _ _ _ =>
        .inl (Nat.zero_le _), fun _ _ _ _ => rfl⟩
    | false =>
      obtain ⟨alive, own, -⟩ := sound.prompting call wake is open_
      -- No other call with the entry prompts.
      have alone : ∀ {other found accepted}, session.wakes other = some found →
        found.state = wake.state →
          found.stage ≠ .prompting (some accepted) := by
        intro other found accepted there entry asks
        obtain rfl := sound.single other found call wake there is (by rw [asks]; simp)
          (by rw [open_]; simp) entry
        rw [Option.some.inj (there.symm.trans is), open_] at asks
        cases asks
      have few := sound.few call wake is (by rw [open_]; simp)
      -- The entry had fewer than three failures, so with this one there are at most three.
      have counted : ∀ {count}, count ≤ (session.states wake.state).failures + 1 →
          Counts ((session.await call wake (.prompting (some false))).observe
            (.prompted call false)) count := by
        intro count most
        refine ⟨by omega, fun _ none_ => ?_, fun _ number own' =>
          .inr ?_, fun _ number own' settled => absurd ?_ settled⟩
        · cases own.symm.trans none_
        · obtain rfl := Option.some.inj (own.symm.trans own')
          exact ⟨most, call, { wake with stage := .prompting (some false) },
            Function.update_self .., rfl, rfl⟩
        · obtain rfl := Option.some.inj (own.symm.trans own')
          intro other found there entry accepted
          exact alone (prompting_before_update (by simp) other found there accepted) entry accepted
      intro after suffix unreset
      rcases List.suffix_concat_iff.mp suffix with rfl | ⟨before, rfl, inside⟩
      · exact counted (Nat.zero_le _)
      · have counts := failing before inside fun what there =>
          unreset what (List.mem_append_left _ there)
        -- The entry is not behind, since no other call of it was refused.
        have before_ : failed before ≤ (session.states wake.state).failures := by
          refine (counts.entry alive _ own).resolve_right fun more => ?_
          obtain ⟨-, other, found, there, entry, refused⟩ := more
          exact alone there entry refused
        have one : failed (before ++ [Observed.prompted call false]) = failed before + 1 := by
          rw [failed, List.filter_append, List.length_append]
          rfl
        rw [one]
        exact counted (Nat.succ_le_succ before_)
  | @accepted call wake is ended =>
    refine failing.of_log [] (List.append_nil _).symm (by simp) fun count counts => ?_
    have same : ∀ number, number ≠ wake.state →
      ((session.put wake.state { session.states wake.state with
        pending := [], failures := 0, retryAt := 0, abort := none }).finish call wake).states
          number = session.states number := by
      intro number differs
      rw [finish_put]
      exact Function.update_of_ne differs _ _
    refine ⟨counts.three, counts.absent, fun alive number own =>
      ?_, fun alive number own settled => ?_⟩
    · by_cases entry : number = wake.state
      · -- Since the success, nothing has failed.
        have none_ := counts.success alive number own fun unsettled =>
          unsettled call wake is entry.symm ended
        exact .inl (by rw [none_]; exact Nat.zero_le _)
      · rw [same number entry]
        refine (counts.entry alive number own).imp_right fun more => ⟨more.1, ?_⟩
        obtain ⟨-, other, found, there, entry', refused⟩ := more
        have differs : other ≠ call := by
          rintro rfl
          rw [Option.some.inj (there.symm.trans is)] at entry'
          exact entry entry'.symm
        exact ⟨other, found, (Function.update_of_ne differs _ _).trans there, entry', refused⟩
    · refine counts.success alive number own fun unsettled =>
        settled fun other found there entry accepted => ?_
      exact unsettled other found (prompting_before_update (by simp) other found there accepted)
        entry accepted
  | @refused call wake is ended now =>
    refine failing.of_log [] (List.append_nil _).symm (by simp) fun count counts => ?_
    have few : ((((session.put wake.state { session.states wake.state with abort := none }).fail
      wake now).finish call wake).states
        wake.state).failures = (session.states wake.state).failures + 1 := by
      simp [Session.fail, finish_put]
    have same : ∀ number, number ≠ wake.state →
      (((session.put wake.state { session.states wake.state with abort := none }).fail wake
        now).finish call wake).states number = session.states number := by
      intro number differs
      obtain ⟨idle, fails⟩ :=
        fail_put session wake { session.states wake.state with abort := none } now
      rw [fails, finish_put]
      exact Function.update_of_ne differs _ _
    exact counts.counted is rfl rfl rfl few same
  | delete alive settled =>
    exact Failing.of_reset rfl rfl ⟨Nat.zero_le 3, fun _ _ => rfl, fun _ _ none_ =>
      (by cases none_), fun _ _ _ _ => rfl⟩
  | dispose settled =>
    refine failing.of_log _ rfl (by simp [Observed.fails]) fun count counts =>
      ⟨counts.three, fun alive => ?_, fun alive => ?_, fun alive => ?_⟩
    all_goals cases alive

end

end Session

open Session

/-- At most three prompts fail between a success, a typed message, or the deletion of the session
and the next. -/
theorem three_failures (resumedSession : Option Text) (now : Nat) (inputs : List Input) (id : Text)
    {after : List Observed}
    (suffix : after <:+ ((createHooks resumedSession now).after inputs id).log)
    (unreset : ∀ what ∈ after, what.resets = false) :
    failed after ≤ 3 := by
  -- The log after the last reset is a suffix for which the count is bounded.
  have start : Failing .start := by
    intro after suffix
    simp only [List.suffix_nil.mp suffix]
    exact fun _ =>
      ⟨Nat.zero_le 3, fun _ _ => rfl, fun _ _ _ => .inl (Nat.zero_le _), fun _ _ _ _ => rfl⟩
  exact (always start (fun change sound failing =>
    failing.change change sound) resumedSession now inputs id after suffix unreset).three

/-- An idle session whose prompts are refused at these times. -/
private def refusals (times : List Nat) : List Input :=
  .session [] (.idle 0) :: times.zipIdx.flatMap fun (now, call) =>
    [.session [] (.poll now), .session [] (.deliverSettles call (some (approvalOf 97)) now),
      .session [] (.promptSettles call false),
      .session [] (.resumes call now)]

/-- Three refusals, and no fourth prompt. -/
theorem three_failures_polled : ∃ after, failed after = 3 ∧ failed after ≤ 3
    ∧ after <:+ ((createHooks none 0).after (refusals [0, 2000, 6000, 20000]) []).log := by
  have unreset : ∀ what ∈ ((createHooks none 0).after (refusals [0, 2000, 6000, 20000]) []).log,
    what.resets = false := by
    have all : (((createHooks none 0).after (refusals [0, 2000, 6000, 20000]) []).log.all
      fun what => !what.resets) = true := by
      decide +kernel
    exact fun what there => by simpa using List.all_eq_true.mp all what there
  exact ⟨_, by decide +kernel, three_failures none 0 _ [] List.suffix_rfl unreset, List.suffix_rfl⟩

end Khala.OpenCode
