import Khala.Concurrent.Contract

/-! One call of a run, from the step that starts it to the one that answers it. -/

namespace Concurrent

variable {S : Service} {allowed : Config S → Move S → Prop} {start config after : Config S}
    {move : Move S}
  {log answers : List (Answer S)} {thread tag : Nat} {call : S.Calls.Op}
  {client : S.Calls.Reply call → Program S.Calls Unit}

/-- Two runs one after the other are a run. -/
theorem Run.trans {middle last : Config S} {later : List (Answer S)}
    (one : Run allowed start log middle) (two : Run allowed middle later last) :
    Run allowed start (log ++ later) last := by
  induction two with
  | nil => rwa [List.append_nil]
  | step before permitted moved ih =>
    rw [← List.append_assoc]
    exact ih.step permitted moved

/-- The thread is under way with the call. -/
def Config.Under (thread tag : Nat) (call : S.Calls.Op)
    (client : S.Calls.Reply call → Program S.Calls Unit) (config : Config S) : Prop :=
  ∃ op next, config.threads thread = .busy tag call (.perform op next) client

/-- A move that is made while the call is under way. -/
def During (allowed : Config S → Move S → Prop) (thread tag : Nat) (call : S.Calls.Op)
    (client : S.Calls.Reply call → Program S.Calls Unit) (config : Config S) (move : Move S) :
    Prop :=
  allowed config move ∧ config.Under thread tag call client

/-- A thread that is busy was busy with the same call before, or it has just started it. -/
theorem under_before (moved : step config move = some (after, answers))
    (under : after.Under thread tag call client) :
    (∃ rest, config.threads thread = .busy tag call rest client) ∨
    (move = .start thread ∧ config.next = tag ∧ answers = [] ∧ after.store = config.store
      ∧ after.threads thread = .busy tag call (S.body call) client) := by
  obtain ⟨op, next, busy⟩ := under
  -- Only a start or an operation of this thread changes what it has under way.
  rcases step_cases moved with ⟨other, call', client', rfl, idle, rfl, rfl⟩
    | ⟨other, choice, tag', call', op', next', client', reply, store, rfl, busy', ran, rfl, rfl⟩
    | ⟨event, store, rfl, happened, rfl, rfl⟩
  -- A call begins on this thread or on another; on this one it is the call itself.
  · by_cases same : thread = other
    · subst same
      rcases settle_cases config.next call' client' (S.body call')
        with ⟨reply, -, settled⟩ | ⟨op', next', -, settled⟩
      · simp [settled] at busy
      · rw [settled] at busy ⊢
        simp only [Function.update_self] at busy
        rw [Thread.busy.injEq] at busy
        obtain ⟨rfl, rfl, -, same⟩ := busy
        cases same
        exact Or.inr ⟨rfl, rfl, rfl, rfl, Function.update_self ..⟩
    · simp only [Function.update_of_ne same] at busy
      exact Or.inl ⟨_, busy⟩
  -- An operation of this thread leaves the same call under way, one operation further on.
  · by_cases same : thread = other
    · subst same
      rcases settle_cases tag' call' client' (next' reply)
        with ⟨result, -, settled⟩ | ⟨op'', next'', -, settled⟩
      · simp [settled] at busy
      · rw [settled] at busy
        simp only [Function.update_self] at busy
        rw [Thread.busy.injEq] at busy
        obtain ⟨rfl, rfl, -, same⟩ := busy
        cases same
        exact Or.inl ⟨_, busy'⟩
    · simp only [Function.update_of_ne same] at busy
      exact Or.inl ⟨_, busy⟩
  · exact Or.inl ⟨_, busy⟩

/-- A call answers with its last operation, or as it starts when it has none. -/
theorem answered_by (moved : step config move = some (after, answers)) {answer : Answer S}
    (member : answer ∈ answers) :
    (∃ thread, move = .start thread ∧ S.body answer.call = .done answer.reply) ∨
    ∃ thread choice op next client reply, move = .effect thread choice
      ∧ config.threads thread = .busy answer.tag answer.call (.perform op next) client
      ∧ S.exec answer.tag answer.call op choice config.store = some (reply, after.store)
      ∧ next reply = .done answer.reply := by
  -- Only a start and an operation answer, and each answers for its own thread's call.
  rcases step_cases moved with ⟨thread, call, client, rfl, -, -, rfl⟩
    | ⟨thread, choice, tag, call, op, next, client, reply, store, rfl, busy, ran, rfl,
      rfl⟩ | ⟨event, store, rfl, -, -, rfl⟩
  · rcases settle_cases config.next call client (S.body call)
      with ⟨reply, shape, settled⟩ | ⟨op, next, -, settled⟩
    · rw [settled] at member
      rw [List.mem_singleton.mp member]
      exact Or.inl ⟨thread, rfl, shape⟩
    · rw [settled] at member
      cases member
  -- The answer comes with an operation when nothing follows it.
  · rcases settle_cases tag call client (next reply)
      with ⟨result, shape, settled⟩ | ⟨op', next', -, settled⟩
    · rw [settled] at member
      rw [List.mem_singleton.mp member]
      exact Or.inr ⟨thread, choice, op, next, client, reply, rfl, busy, ran, shape⟩
    · rw [settled] at member
      cases member
  · cases member

/-- A call that is under way has an operation left to perform. -/
theorem Run.waiting (run : Run allowed start log config) (idle : start.Idle)
    {rest : Program S.Effects (S.Calls.Reply call)}
    (busy : config.threads thread = .busy tag call rest client) :
    ∃ op next, rest = .perform op next := by
  -- Only a call that is settled becomes busy, and it is settled when it has nothing left.
  have settles : ∀ {config : Config S} {other number : Nat} {call' : S.Calls.Op}
    {client' : S.Calls.Reply call' → Program S.Calls Unit}
      {rest' : Program S.Effects (S.Calls.Reply call')}
        {rest : Program S.Effects (S.Calls.Reply call)},
      Function.update config.threads other (settle number call' client' rest').1 thread
        = .busy tag call rest client →
      (∀ {rest}, config.threads thread = .busy tag call rest client → ∃ op next,
        rest = .perform op next) →
      ∃ op next, rest = .perform op next := by
    intro config other number call' client' rest' rest busy before
    by_cases same : thread = other
    · subst same
      rcases settle_cases number call' client' rest'
        with ⟨reply, -, settled⟩ | ⟨op, next, rfl, settled⟩
      · simp [settled] at busy
      · simp only [settled, Function.update_self] at busy
        cases busy
        exact ⟨op, next, rfl⟩
    · simp only [Function.update_of_ne same] at busy
      exact before busy
  induction run generalizing rest with
  | nil =>
    obtain ⟨free, shape⟩ := idle thread
    rw [shape] at busy
    cases busy
  | step before permitted moved ih =>
    rcases step_cases moved with ⟨other, call', client', rfl, idle, rfl, rfl⟩
      | ⟨other, choice, tag', call', op', next', client', reply, store, rfl, busy', ran, rfl, rfl⟩
      | ⟨event, store, rfl, happened, rfl, rfl⟩
    · exact settles busy ih
    · exact settles busy ih
    · exact ih busy

/-- A call that is under way was started at a step of the run, and it has been under way since then.
-/
theorem Run.since (run : Run allowed start log config) (idle : start.Idle)
    (under : config.Under thread tag call client) :
    ∃ earlier before begun later, Run allowed start earlier before ∧ allowed before (.start thread)
      ∧ Concurrent.step before (.start thread) = some (begun, []) ∧ before.next = tag
      ∧ begun.store = before.store
      ∧ begun.threads thread = .busy tag call (S.body call) client
      ∧ log = earlier ++ later
      ∧ Run (During allowed thread tag call client) begun later config := by
  -- The induction goes back to the step that started the call.
  induction run with
  | nil =>
    obtain ⟨op, next, busy⟩ := under
    obtain ⟨free, shape⟩ := idle thread
    rw [shape] at busy
    cases busy
  | @step log config after move answers before permitted moved ih =>
    rcases under_before moved under with ⟨rest, busy⟩ | ⟨rfl, number, rfl, store, busy⟩
    · -- The call was under way before, so it was started earlier.
      have waiting : config.Under thread tag call client := by
        obtain ⟨op, next, rfl⟩ := before.waiting idle busy
        exact ⟨op, next, busy⟩
      obtain ⟨earlier, first, begun, later, run, start, started, number, same, body, rfl, rest⟩ :=
        ih waiting
      exact ⟨earlier, first, begun, later ++ answers, run, start, started, number, same, body,
        List.append_assoc .., rest.step
        ⟨permitted, waiting⟩ moved⟩
    -- This step started the call, and nothing has happened since.
    · exact ⟨log, config, after, [], before, permitted, moved, number, store, busy, rfl, .nil⟩

/-- A call that is under way when a run ends was under way when it began. -/
theorem Run.under (run : Run (During allowed thread tag call client) start log config)
    (under : config.Under thread tag call client) :
    start.Under thread tag call client := by
  induction run with
  | nil => exact under
  | step before permitted moved ih => exact ih permitted.2

namespace Contract

variable {C : Contract S}

/-- A call that keeps another duty too, which what is seen along the way makes possible, keeps it to
its end. -/
theorem watch (holds : C.Holds allowed) {duty : Duty S.Effects S.Store}
    {post : S.Calls.Reply call → S.Store → S.Store → Prop} {seen : S.Store → Prop}
    (trans : ∀ op {first second third}, duty.rely op first second → duty.rely op second third →
      duty.rely op first third)
    (rely : ∀ op before after, (C.duty tag call).rely op before after → duty.rely op before after)
    (permits : ∀ op store, (C.duty tag call).permits op store → seen store → duty.permits op store)
    {before : List (Answer S)} {begun : Config S} (sound : C.Sound before begun)
    (numbered : Numbered before begun)
    (busy : begun.threads thread = .busy tag call (S.body call) client)
    (safe : (S.body call).Safe (S.exec tag call) duty post begun.store begun.store)
    (run : Run (During allowed thread tag call client) begun log config)
    (visited : ∀ {earlier later middle},
      Run (During allowed thread tag call client) begun earlier middle →
      Run (During allowed thread tag call client) middle later config → seen middle.store)
    (under : config.Under thread tag call client) :
    C.Sound (before ++ log) config ∧ Numbered (before ++ log) config ∧ ∃ op next,
      config.threads thread = .busy tag call (.perform op next) client
        ∧ (Program.perform op next).Safe (S.exec tag call) duty post config.store config.store := by
  -- Seen from any moment of the call, with the rest of the run still to come.
  have general : ∀ {log middle}, Run (During allowed thread tag call client) begun log middle →
      ∀ {later}, Run (During allowed thread tag call client) middle later config →
      C.Sound (before ++ log) middle ∧ Numbered (before ++ log) middle ∧ ∃ op next,
        middle.threads thread = .busy tag call (.perform op next) client
          ∧ (Program.perform op next).Safe (S.exec tag call) duty post middle.store
            middle.store := by
    intro log middle first
    induction first with
    | nil =>
      intro later rest
      obtain ⟨op, next, same⟩ := rest.under under
      have shape := busy.symm.trans same
      rw [Thread.busy.injEq] at shape
      have body := eq_of_heq shape.2.2.1
      rw [List.append_nil]
      exact ⟨sound, numbered, op, next, same, body ▸ safe⟩
    | @step log middle after move answers first permitted moved ih =>
      intro later rest
      have onwards := (Run.nil.step permitted moved).trans rest
      obtain ⟨sound, numbered, op, next, busy, safe⟩ := ih onwards
      have seen_ := visited first onwards
      obtain ⟨op', next', still⟩ := rest.under under
      rw [← List.append_assoc]
      refine ⟨sound.step holds numbered permitted.1 moved, numbered.step moved, op',
        next', still, ?_⟩
      rcases step_cases moved with ⟨other, call', client', rfl, idle, rfl, rfl⟩
        | ⟨other, choice, tag', call', op'', next'', client', reply, store, rfl, busy',
          ran, rfl, rfl⟩
        | ⟨event, store, rfl, happened, rfl, rfl⟩
      -- A call that begins elsewhere leaves this one alone.
      · have apart : thread ≠ other := by
          rintro rfl
          rw [busy] at idle
          cases idle
        simp only [Function.update_of_ne apart, busy] at still
        cases still
        exact safe
      · by_cases same : thread = other
        · -- The call's own operation, of which the duty is kept.
          subst same
          rw [busy] at busy'
          cases busy'
          have tail :=
            (safe middle.store choice reply store ?_
              (permits _ _ (holds.permitted sound numbered permitted.1 busy) seen_)
            ran).2
          · rcases settle_cases tag call client (next reply)
              with ⟨result, -, settled⟩ | ⟨op'', next'', shape, settled⟩
            · simp [settled] at still
            · simp only [settled, Function.update_self] at still
              rw [shape] at tail still
              cases still
              exact tail
          · exact rely _ _ _ (holds.refl _ _ _ _)
        -- What another call does keeps the duty of this one.
        · simp only [Function.update_of_ne same, busy] at still
          cases still
          have kept := sound.guaranteed holds numbered permitted.1 busy' ran
          exact Program.Safe.stable (trans op) safe
            (rely _ _ _ (holds.interferes sound numbered permitted.1 busy' busy same
            ⟨reply, ran⟩ kept)) _
      -- So does what happens outside.
      · simp only [busy] at still
        cases still
        exact Program.Safe.stable (trans op) safe
          (rely _ _ _ ((holds.outside event sound.invariant happened).2 tag call op)) _
  exact general run .nil

end Contract

end Concurrent
