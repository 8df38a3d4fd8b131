import Khala.Concurrent.Machine

/-! Proving invariants of all interleavings call by call, from what each call relies on and
guarantees. -/

namespace Concurrent

variable {S : Service} {allowed : Config S → Move S → Prop} {start config after : Config S}
  {log answers : List (Answer S)} {move : Move S}

/-! ## Call numbers -/

/-- Every call has a number of its own, below the next one. -/
structure Numbered (log : List (Answer S)) (config : Config S) : Prop where
  answered : ∀ answer ∈ log, answer.tag < config.next ∧ ¬ config.InFlight answer.tag
  running : ∀ {thread tag call rest client}, config.threads thread = .busy tag call rest client →
    tag < config.next
  distinct : ∀ {first second tag call rest client call' rest' client'},
    config.threads first = .busy tag call rest client →
      config.threads second = .busy tag call' rest' client' → first = second

/-- A call that is settled is under way under its own number, or has answered under it. -/
theorem settle_cases (tag : Nat) (call : S.Calls.Op)
    (client : S.Calls.Reply call → Program S.Calls Unit)
    (rest : Program S.Effects (S.Calls.Reply call)) :
    (∃ reply, rest = .done reply
      ∧ settle tag call client rest = (.idle (client reply), [⟨tag, call, reply⟩])) ∨
    (∃ op next, rest = .perform op next
      ∧ settle tag call client rest = (.busy tag call rest client, [])) := by
  cases rest with
  | done reply => exact Or.inl ⟨reply, rfl, rfl⟩
  | perform op next => exact Or.inr ⟨op, next, rfl, rfl⟩

/-- Replacing one thread by a settled call keeps the numbers apart when the number is free
elsewhere. -/
private theorem Numbered.settle {store : S.Store} {thread tag next : Nat} {call : S.Calls.Op}
    {client : S.Calls.Reply call → Program S.Calls Unit}
    {rest : Program S.Effects (S.Calls.Reply call)} (numbered : Numbered log config)
    (room : config.next ≤ next) (below : tag < next)
    (free : ∀ {other call rest client}, config.threads other = .busy tag call rest client →
      other = thread)
    (unanswered : ∀ answer ∈ log, answer.tag ≠ tag) :
    Numbered (log ++ (Concurrent.settle tag call client rest).2)
      ⟨store, Function.update config.threads thread (Concurrent.settle tag call client rest).1,
        next⟩ := by
  -- A thread of the new configuration is the settled one or one that was there before.
  have view : ∀ {other number call' rest' client'},
      Function.update config.threads thread (Concurrent.settle tag call client rest).1 other
        = .busy number call' rest' client' →
      (other = thread ∧ number = tag ∧ ∃ op next, rest = .perform op next) ∨
      (other ≠ thread ∧ config.threads other = .busy number call' rest' client') := by
    intro other number call' rest' client' busy
    by_cases same : other = thread
    · subst same
      rw [Function.update_self] at busy
      rcases settle_cases tag call client rest with ⟨reply, -, settled⟩ | ⟨op, next, shape, settled⟩
      · rw [settled] at busy; cases busy
      · rw [settled] at busy; cases busy; exact Or.inl ⟨rfl, rfl, op, next, shape⟩
    · rw [Function.update_of_ne same] at busy
      exact Or.inr ⟨same, busy⟩
  refine ⟨fun answer member => ?_, fun busy => ?_, fun {first second number _ _ _ _ _ _} one two =>
    ?_⟩
  · rcases List.mem_append.mp member with old | new
    · obtain ⟨small, rested⟩ := numbered.answered answer old
      refine ⟨Nat.lt_of_lt_of_le small room, ?_⟩
      rintro ⟨other, call', rest', client', busy⟩
      rcases view busy with ⟨-, same, -⟩ | ⟨-, busy⟩
      · exact unanswered answer old same
      · exact rested ⟨other, call', rest', client', busy⟩
    · rcases settle_cases tag call client rest
        with ⟨reply, shape, settled⟩ | ⟨op, next', shape, settled⟩
      · rw [settled, List.mem_singleton] at new
        subst new
        refine ⟨below, ?_⟩
        rintro ⟨other, call', rest', client', busy⟩
        rcases view busy with ⟨-, -, op, next', other⟩ | ⟨differs, busy⟩
        · rw [shape] at other; cases other
        · exact differs (free busy)
      · rw [settled] at new; cases new
  · rcases view busy with ⟨-, rfl, -⟩ | ⟨-, busy⟩
    · exact below
    · exact Nat.lt_of_lt_of_le (numbered.running busy) room
  · rcases view one with ⟨here, same, -⟩ | ⟨-, busy⟩ <;> rcases view two
      with ⟨here', same', -⟩ | ⟨-, busy'⟩
    · exact here.trans here'.symm
    · exact here.trans (free (same ▸ busy')).symm
    · exact (free (same' ▸ busy)).trans here'.symm
    · exact numbered.distinct busy busy'

/-- One move keeps the numbers apart. -/
theorem Numbered.step (numbered : Numbered log config)
    (moved : step config move = some (after, answers)) :
    Numbered (log ++ answers) after := by
  rcases step_cases moved with ⟨thread, call, client, rfl, idle, rfl, rfl⟩
    | ⟨thread, choice, tag, call, op, next, client, reply, store, rfl, busy, ran, rfl, rfl⟩
    | ⟨event, store, rfl, happened, rfl, rfl⟩
  · -- The new number lies above every number in use.
    refine numbered.settle (Nat.le_succ _) (Nat.lt_succ_self _) (fun busy => ?_)
      fun answer member same => ?_
    · exact absurd (numbered.running busy) (Nat.lt_irrefl _)
    · exact absurd (same ▸ (numbered.answered answer member).1) (Nat.lt_irrefl _)
  -- A step under way keeps its number, so its answer is the first with that number.
  · refine numbered.settle (Nat.le_refl _) (numbered.running busy)
      (fun other => numbered.distinct other busy) fun answer member same => ?_
    exact (numbered.answered answer member).2 ⟨thread, call, _, client, same ▸ busy⟩
  -- What happens outside neither takes a number nor answers.
  · rw [List.append_nil]
    exact ⟨fun answer member => numbered.answered answer member, fun busy => numbered.running busy,
      fun one two => numbered.distinct one two⟩

/-- In every run the calls are numbered. -/
theorem Run.numbered (idle : start.Idle) (run : Run allowed start log config) :
    Numbered log config := by
  induction run with
  | nil =>
    have none : ∀ {thread tag call rest client},
      start.threads thread ≠ .busy tag call rest client := by
      intro thread tag call rest client busy
      obtain ⟨free, shape⟩ := idle thread
      rw [shape] at busy; cases busy
    exact ⟨by simp, fun busy => absurd busy none, fun busy => absurd busy none⟩
  | step before permitted moved ih => exact ih.step moved

/-! ## Contracts -/

/-- What is promised about a service: an invariant of the answers given so far, the next call number
and the store; each call's duty; and what each answer says of the stores around its last operation.
-/
structure Contract (S : Service) where
  invariant : List (Answer S) → Nat → S.Store → Prop
  duty : Nat → S.Calls.Op → Duty S.Effects S.Store
  answer : Answer S → S.Store → S.Store → Prop

namespace Contract

variable (C : Contract S)

/-- The rest of a call keeps the call's duty. -/
def CallSafe (tag : Nat) (call : S.Calls.Op) (rest : Program S.Effects (S.Calls.Reply call))
    (store : S.Store) : Prop :=
  rest.Safe (S.exec tag call) (C.duty tag call)
    (fun reply => C.answer ⟨tag, call, reply⟩) store store

/-- The invariant holds and every call under way keeps its duty from here on. -/
structure Sound (log : List (Answer S)) (config : Config S) : Prop where
  invariant : C.invariant log config.next config.store
  running : ∀ {thread tag call rest client}, config.threads thread = .busy tag call rest client →
    (∃ op next, rest = .perform op next) ∧ C.CallSafe tag call rest config.store

/-- What has to be shown of a contract, one call and one operation at a time. -/
structure Holds (allowed : Config S → Move S → Prop) : Prop where
  refl : ∀ tag call op store, (C.duty tag call).rely op store store
  trans : ∀ tag call op {first second third}, (C.duty tag call).rely op first second →
    (C.duty tag call).rely op second third → (C.duty tag call).rely op first third
  /-- A new call is safe, and its number may be given out. -/
  begins : ∀ {log next store} call, C.invariant log next store →
    C.CallSafe next call (S.body call) store ∧ C.invariant log (next + 1) store
  /-- An operation within its duty keeps the invariant, also when it is the last and the call
  answers. -/
  works : ∀ {log next store after} tag call, C.invariant log next store → tag < next →
    (C.duty tag call).guarantee store after → C.invariant log next after
  /-- Nothing needs to happen. -/
  rests : ∀ tag call store, (C.duty tag call).guarantee store store
  /-- An answer keeps the invariant with itself in the log. -/
  answers : ∀ {log next store after} (answer : Answer S), C.invariant log next store →
    answer.tag < next →
    (∀ other ∈ log, other.tag ≠ answer.tag) →
    (C.duty answer.tag answer.call).guarantee store after → C.answer answer store after →
    C.invariant (log ++ [answer]) next after
  /-- What happens outside keeps the invariant, and every call relies on it. -/
  outside : ∀ {log next store after} event, C.invariant log next store →
    S.outside event store = some after →
    C.invariant log next after ∧ ∀ tag call op, (C.duty tag call).rely op store after
  /-- An allowed operation is one the call is permitted. -/
  permitted : ∀ {log config thread choice tag call op next client}, C.Sound log config →
    Numbered log config →
    allowed config (.effect thread choice) →
    config.threads thread = .busy tag call (.perform op next) client →
    (C.duty tag call).permits op config.store
  /-- What one call guarantees, every other call under way relies on. -/
  interferes :
    ∀ {log config thread choice tag call op next client other tag' call' op' next' client' after},
    C.Sound log config → Numbered log config → allowed config (.effect thread choice) →
    config.threads thread = .busy tag call (.perform op next) client →
    config.threads other = .busy tag' call' (.perform op' next') client' → other ≠ thread →
    (∃ reply, S.exec tag call op choice config.store = some (reply, after)) →
    (C.duty tag call).guarantee config.store after → (C.duty tag' call').rely op' config.store after

variable {C}

/-- A call that waits is safe again after what others did. -/
private theorem CallSafe.again (holds : C.Holds allowed) {tag : Nat} {call : S.Calls.Op}
    {rest : Program S.Effects (S.Calls.Reply call)} {store after : S.Store}
    (waiting : ∃ op next, rest = .perform op next) (safe : C.CallSafe tag call rest store)
    (others : ∀ op next, rest = .perform op next → (C.duty tag call).rely op store after) :
    C.CallSafe tag call rest after := by
  obtain ⟨op, next, rfl⟩ := waiting
  exact Program.Safe.stable (holds.trans tag call op) safe (others op next rfl) after

/-- An allowed operation changes the store as its call guarantees. -/
theorem Sound.guaranteed (holds : C.Holds allowed) (sound : C.Sound log config)
    (numbered : Numbered log config) {thread tag : Nat} {choice : S.Choice} {call : S.Calls.Op}
    {op : S.Effects.Op} {next : S.Effects.Reply op → Program S.Effects (S.Calls.Reply call)}
    {client : S.Calls.Reply call → Program S.Calls Unit} {reply : S.Effects.Reply op}
    {store : S.Store} (permitted : allowed config (.effect thread choice))
    (busy : config.threads thread = .busy tag call (.perform op next) client)
    (ran : S.exec tag call op choice config.store = some (reply, store)) :
    (C.duty tag call).guarantee config.store store :=
  ((sound.running busy).2 config.store choice reply store (holds.refl _ _ _ _)
    (holds.permitted sound numbered permitted busy) ran).1

/-- One allowed move keeps a sound configuration sound. -/
theorem Sound.step (holds : C.Holds allowed) (sound : C.Sound log config)
    (numbered : Numbered log config) (permitted : allowed config move)
    (moved : Concurrent.step config move = some (after, answers)) :
    C.Sound (log ++ answers) after := by
  rcases step_cases moved with ⟨thread, call, client, rfl, idle, rfl, rfl⟩
    | ⟨thread, choice, tag, call, op, next, client, reply, store, rfl, busy, ran, rfl, rfl⟩
    | ⟨event, store, rfl, happened, rfl, rfl⟩
  -- A call begins: the store is as it was, and the call is safe from there.
  · obtain ⟨safe, counted⟩ := holds.begins call sound.invariant
    refine ⟨?_, fun {other tag' call' rest' client'} view => ?_⟩
    -- Either the call answers without an operation, or it waits for its first one.
    · rcases settle_cases config.next call client (S.body call)
        with ⟨reply, shape, settled⟩ | ⟨op, next, -, settled⟩
      · rw [shape] at safe
        rw [settled]
        refine holds.answers ⟨config.next, call, reply⟩ counted (Nat.lt_succ_self _)
          (fun old member same => ?_)
          (holds.rests _ _ _) safe
        exact absurd (same ▸ (numbered.answered old member).1) (Nat.lt_irrefl _)
      · rw [settled]
        simpa using counted
    -- The thread that moved runs what the call begins with, and the others are as they were.
    · by_cases same : other = thread
      · subst same
        rcases settle_cases config.next call client (S.body call)
          with ⟨reply, -, settled⟩ | ⟨op, next, shape, settled⟩
        · simp [settled] at view
        · simp only [Function.update_self, settled, Thread.busy.injEq] at view
          obtain ⟨rfl, rfl, rfl, -⟩ := view
          exact ⟨⟨op, next, shape⟩, safe⟩
      · simp only [Function.update_of_ne same] at view
        exact sound.running view
  -- An operation runs: what was safe before it gives the store after it and the safety of the rest.
  · obtain ⟨-, safe⟩ := sound.running busy
    have allowedOp := holds.permitted sound numbered permitted busy
    obtain ⟨kept, tail⟩ := safe config.store choice reply store (holds.refl _ _ _ _) allowedOp ran
    refine ⟨?_, fun {other tag' call' rest' client'} view => ?_⟩
    -- Either that was the last operation and the call answers, or another one follows.
    · rcases settle_cases tag call client (next reply)
        with ⟨result, shape, settled⟩ | ⟨op', next', -, settled⟩
      · rw [shape] at tail
        rw [settled]
        refine holds.answers ⟨tag, call, result⟩ sound.invariant (numbered.running busy)
          (fun old member same => (numbered.answered old member).2 ?_) kept tail
        exact ⟨thread, call, _, client, busy.trans (by rw [show old.tag = tag from same])⟩
      · rw [settled]
        simpa using holds.works tag call sound.invariant (numbered.running busy) kept
    -- The other threads saw a step of interference, which their safety allows for.
    · by_cases same : other = thread
      · subst same
        rcases settle_cases tag call client (next reply)
          with ⟨result, -, settled⟩ | ⟨op', next', shape, settled⟩
        · simp [settled] at view
        · simp only [Function.update_self, settled, Thread.busy.injEq] at view
          obtain ⟨rfl, rfl, rfl, -⟩ := view
          refine ⟨⟨op', next', shape⟩, ?_⟩
          rw [shape] at tail ⊢
          exact Program.Safe.stable (holds.trans tag call op') tail (holds.refl _ _ _ _) store
      · simp only [Function.update_of_ne same] at view
        obtain ⟨waiting, others⟩ := sound.running view
        refine ⟨waiting, others.again holds waiting fun op' next' shape => ?_⟩
        exact holds.interferes sound numbered permitted busy (shape ▸ view) same ⟨reply, ran⟩ kept
  -- An event from outside keeps the invariant, and every waiting call stays safe across it.
  · obtain ⟨kept, others⟩ := holds.outside event sound.invariant happened
    refine ⟨by simpa using kept, fun view => ?_⟩
    obtain ⟨waiting, safe⟩ := sound.running view
    exact ⟨waiting, safe.again holds waiting fun op _ _ => others _ _ op⟩

/-- Every answer given by an allowed move meets its condition. -/
theorem Sound.answered (holds : C.Holds allowed) (sound : C.Sound log config)
    (numbered : Numbered log config) (permitted : allowed config move)
    (moved : Concurrent.step config move = some (after, answers)) :
    ∀ answer ∈ answers, C.answer answer config.store after.store := by
  rcases step_cases moved with ⟨thread, call, client, rfl, idle, rfl, rfl⟩
    | ⟨thread, choice, tag, call, op, next, client, reply, store, rfl, busy, ran, rfl, rfl⟩
    | ⟨event, store, rfl, happened, rfl, rfl⟩
  · -- A call that performs nothing answers as it begins.
    obtain ⟨safe, -⟩ := holds.begins call sound.invariant
    rcases settle_cases config.next call client (S.body call)
      with ⟨reply, shape, settled⟩ | ⟨op, next, -, settled⟩
    · rw [shape] at safe
      rw [settled]
      exact List.forall_mem_singleton.mpr safe
    · simp [settled]
  -- Otherwise the answer comes with the last operation of a call that was safe.
  · obtain ⟨-, safe⟩ := sound.running busy
    obtain ⟨-, tail⟩ := safe config.store choice reply store (holds.refl _ _ _ _)
      (holds.permitted sound numbered permitted busy) ran
    rcases settle_cases tag call client (next reply)
      with ⟨result, shape, settled⟩ | ⟨op', next', -, settled⟩
    · rw [shape] at tail
      rw [settled]
      exact List.forall_mem_singleton.mpr tail
    · simp [settled]
  · simp

/-- A contract that holds call by call holds in every run that starts with idle clients. -/
theorem Holds.run (holds : C.Holds allowed) (idle : start.Idle)
    (initial : C.invariant [] start.next start.store) (run : Run allowed start log config) :
    C.Sound log config := by
  induction run with
  | nil =>
    refine ⟨initial, fun {thread tag call rest client} busy => ?_⟩
    obtain ⟨free, shape⟩ := idle thread
    rw [shape] at busy; cases busy
  | step before permitted moved ih => exact ih.step holds (before.numbered idle) permitted moved

end Contract

end Concurrent
