import Khala.Mcp.ServerRuns

/-! The tool server as its client sees it: what it has done when it returns, in which order, and
when it falls silent. -/

namespace Khala.Mcp

open Js Concurrent

variable {parse : Text → Option Json} {context : ServerContext}

namespace Server

variable {server server' : Server}

/-- What has failed stays so. -/
theorem Change.kept (change : Change parse context server server') :
    (server.phase = .threw → server'.phase = .threw)
      ∧ (server.failed = true → server'.failed = true)
      ∧ (server.aborted = true → server'.aborted = true) := by
  -- No change leaves the phase in which the server threw, or takes a flag back.
  have begun : ∀ {frame}, (server.begin parse context frame).failed = server.failed
      ∧ (server.begin parse context frame).aborted = server.aborted := by
    intro frame
    obtain ⟨stage, whats, same⟩ := begin_eq parse context server frame
    rw [same]
    exact ⟨rfl, rfl⟩
  cases change with
  | take is alive => exact ⟨fun threw => absurd (is.symm.trans threw) (by simp), fun failed =>
    begun.1.trans failed,
      fun aborted => begun.2.trans aborted⟩
  | last is alive held => exact ⟨fun threw => absurd (is.symm.trans threw) (by simp), fun failed =>
    begun.1.trans failed,
      fun aborted => begun.2.trans aborted⟩
  | read is alive chunk => exact ⟨fun threw => absurd (is.symm.trans threw) (by simp), id, id⟩
  | rest is alive => exact ⟨fun threw => absurd (is.symm.trans threw) (by simp), id, id⟩
  | ends is alive held => exact ⟨fun threw => absurd (is.symm.trans threw) (by simp), id, id⟩
  | breaks is => exact ⟨fun _ => rfl, id, id⟩
  | stop is aborted =>
    refine ⟨fun threw => ?_, id, id⟩
    rcases is with reading | ⟨job, queue, serving, -⟩
    · exact absurd (reading.symm.trans threw) (by simp)
    · exact absurd (serving.symm.trans threw) (by simp)
  | next is past alive => exact ⟨fun threw => absurd (is.symm.trans threw) (by simp), id, id⟩
  | closed is past => exact ⟨fun threw => absurd (is.symm.trans threw) (by simp), id, id⟩
  | drained is past => exact ⟨fun threw => absurd (is.symm.trans threw) (by simp), id, id⟩
  | lose is awaited => exact ⟨fun _ => rfl, id, id⟩
  | miss is other => exact ⟨id, fun _ => rfl, id⟩
  | abort alive => exact ⟨id, id, fun _ => rfl⟩
  | _ => exact ⟨id, id, id⟩

/-- Only after an abort something is lost, whatever changes. -/
theorem Lossy.change (change : Change parse context server server')
    (courses : server.Courses parse context) (turns : server.Turns parse)
    (lossy : server.Lossy parse) : server'.Lossy parse := by
  -- A failed write is old, or ends the server, or belongs to a call that the loop did not await.
  obtain ⟨threw, failed, -⟩ := change.kept
  refine ⟨fun job found there lost => ?_, fun returned => ?_⟩
  · rcases change.loses lost with old | now | ⟨fails, frame, is, unawaited⟩
    · obtain ⟨before, stood, same⟩ := change.jobs job found there (courses.known _ old job rfl)
      exact (lossy.lost job before stood old).imp threw fun both => ⟨failed both.1, same ▸ both.2⟩
    · exact .inl now
    · obtain ⟨before, stood, same⟩ :=
        change.jobs job found there (List.getElem?_eq_some_iff.mp is).1
      obtain rfl := Option.some.inj (is.symm.trans stood)
      refine .inr ⟨fails, ?_⟩
      -- A frame that is no waiting call would be awaited.
      cases waits : found.frame.waits parse with
      | true => rfl
      | false => exact absurd (turns.awaited job _ is (same ▸ waits) rfl) unawaited
  · -- After the return no frame is under way, so none goes on.
    have settled : ∀ {job : Nat} {found : Job}, server.phase = .returned →
      server.jobs[job]? = some found → found.isOver = false →
        server.aborted = true := by
      intro job found stood is open_
      rcases lossy.returned stood with aborted | ⟨-, past⟩
      · exact aborted
      · rw [List.all_eq_true.mp past found (List.mem_of_getElem? is)] at open_
        cases open_
    cases change with
    | read is alive chunk => cases returned
    | take is alive =>
      dsimp only at returned
      split at returned <;> cases returned
    | rest is alive => cases returned
    | last is alive held => cases returned
    | ends is alive held => cases returned
    | breaks is => cases returned
    | stop is aborted => exact .inl aborted
    | next is past alive => cases returned
    | closed is past => cases returned
    | drained is past =>
      refine .inr ⟨?_, past⟩
      dsimp only at returned
      split at returned
      · cases returned
      · rename_i unfailed
        simpa using unfailed
    | quiet is quiet outcome => exact .inl (settled returned is rfl)
    | reply is alive outcome => exact .inl (settled returned is rfl)
    | accept is => exact .inl (settled returned is rfl)
    | lose is awaited => cases returned
    | miss is other => exact .inl (settled returned is rfl)
    | abort alive => exact .inl rfl

/-! ## The order of the log -/

/-- When a frame is started, all that is to be done about the frames before it has been done, calls
that wait apart. -/
def Ordered (parse : Text → Option Json) (context : ServerContext) (log : List Observed) : Prop :=
  ∀ before job frame after, log = before ++ Observed.starts job frame :: after →
    ∀ other earlier, .starts other earlier ∈ before → earlier.waits parse = false →
      ∃ outcome, own other before = exchange parse context other earlier outcome

/-- Frames are taken up in order, whatever changes. -/
theorem Ordered.change (change : Change parse context server server')
    (courses : server.Courses parse context) (turns : server.Turns parse)
    (lossy : server.Lossy parse) (ordered : Ordered parse context server.log) :
    Ordered parse context server'.log := by
  -- A new start stands last in the log, so only what comes before it is new.
  intro before job frame after same other earlier inside blocks
  rcases change.starts
    with ⟨whats, log, unstarted⟩ | ⟨alive, idle, kept, begun, whats, log, unstarted⟩
  · obtain ⟨between, -, split⟩ := split_append (log.symm.trans same) (unstarted job frame)
    exact ordered before job frame between split other earlier inside blocks
  · obtain ⟨between, -, split⟩ := split_append (log.symm.trans same) (unstarted job frame)
    rcases split_last split with ⟨-, rfl, -⟩ | ⟨between', -, split'⟩
    · -- The frames before it are those of the log so far, and the loop awaits none of them.
      have small := courses.known _ inside other rfl
      obtain ⟨found, there⟩ : ∃ found, server.jobs[other]? = some found :=
        ⟨_, List.getElem?_eq_getElem small⟩
      have course := courses.course other found there
      obtain rfl :=
        (course.starts earlier).mp (List.mem_filter.mpr ⟨inside, by simp [Observed.job]⟩)
      have past : found.stage = .finished := by
        cases done : found.isOver with
        | true =>
          unfold Job.isOver at done
          split at done
          · assumption
          · cases done
        | false => exact absurd (turns.awaited other found there blocks done) (idle other)
      rw [alive, past] at course
      refine course.whole fun lost => ?_
      rcases lossy.lost other found there (List.mem_of_mem_filter lost) with threw | ⟨-, waits⟩
      · exact kept threw
      · rw [blocks] at waits
        cases waits
    · exact ordered before job frame between' split' other earlier inside blocks

/-! ## After an abort -/

/-- What comes after an abort is only what tools answer that had been called. -/
def Silent (log : List Observed) : Prop :=
  ∀ before after, log = before ++ Observed.aborted :: after → ∀ what ∈ after, ∃ job outcome,
    what = .settles job outcome

/-- Nothing is done after an abort, whatever changes. -/
theorem Silent.change (change : Change parse context server server')
    (courses : server.Courses parse context) (silent : Silent server.log) : Silent server'.log := by
  -- The changes that say more than an answer of a tool are made before an abort only.
  -- The log goes on with what may follow an abort, or there has been none.
  have goes_on : ∀ {whats}, server'.log = server.log ++ whats → .aborted ∉ whats →
      (server.aborted = true → ∀ what ∈ whats, ∃ job outcome, what = .settles job outcome) →
        Silent server'.log := by
    intro whats log calm settles before after same what inside
    obtain ⟨between, rfl, split⟩ := split_append (log.symm.trans same) calm
    have aborted : server.aborted = true := by
      cases alive : server.aborted with
      | true => rfl
      | false => exact absurd (split ▸ by simp) (courses.alive alive)
    rcases List.mem_append.mp inside with old | new
    · exact silent before between split what old
    · exact settles aborted what new
  -- After an abort no write is under way that could settle.
  have unwritten : ∀ {job : Nat} {frame : Frame}, server.jobs[job]? = some ⟨frame, .writing⟩ →
    server.aborted = true → False :=
    fun is aborted => courses.cut aborted _ (List.mem_of_getElem? is) rfl
  have begun : ∀ {frame}, server.aborted = false → ∃ whats,
    (server.begin parse context frame).log = server.log ++ whats
      ∧ .aborted ∉ whats := by
    intro frame alive
    unfold begin
    split
    · exact ⟨_, rfl, by simp⟩
    · exact ⟨_, rfl, by simp⟩
    · exact ⟨_, rfl, by simp⟩
  cases change with
  | take is alive =>
    obtain ⟨whats, log, calm⟩ := begun alive
    exact goes_on log calm fun aborted => absurd (alive.symm.trans aborted) Bool.false_ne_true
  | last is alive held =>
    obtain ⟨whats, log, calm⟩ := begun alive
    exact goes_on log calm fun aborted => absurd (alive.symm.trans aborted) Bool.false_ne_true
  | @quiet job _ _ _ is quiet outcome =>
    exact goes_on rfl (by simp) fun _ what inside => ⟨job, outcome, List.mem_singleton.mp inside⟩
  | reply is alive outcome =>
    exact goes_on (List.append_assoc ..) (by simp) fun aborted =>
      absurd (alive.symm.trans aborted) Bool.false_ne_true
  | accept is => exact goes_on rfl (by simp) fun aborted => (unwritten is aborted).elim
  | lose is awaited => exact goes_on rfl (by simp) fun aborted => (unwritten is aborted).elim
  | miss is other => exact goes_on rfl (by simp) fun aborted => (unwritten is aborted).elim
  | abort alive =>
    intro before after same what inside
    rcases split_last same with ⟨rfl, -, -⟩ | ⟨between, -, split⟩
    · cases inside
    · exact absurd (split ▸ by simp) (courses.alive alive)
  | _ => exact silent

/-! ## Runs -/

/-- All that is kept. -/
structure Sound (parse : Text → Option Json) (context : ServerContext) (server : Server) :
    Prop where
  courses : server.Courses parse context
  turns : server.Turns parse
  framed : server.Framed
  lossy : server.Lossy parse
  ordered : Ordered parse context server.log
  silent : Silent server.log

/-- The server is sound at the start. -/
theorem Sound.start : Sound parse context .start where
  courses := ⟨by simp [Server.start], by simp [Server.start], by simp [Server.start],
    by simp [Server.start]⟩
  turns := ⟨by simp [Server.start], by simp [Server.start]⟩
  framed := ⟨rfl, rfl, List.nil_prefix⟩
  lossy := ⟨by simp [Server.start], by simp [Server.start]⟩
  ordered before job frame after same := by simp [Server.start] at same
  silent before after same := by simp [Server.start] at same

/-- Every change keeps the server sound. -/
theorem Sound.change (change : Change parse context server server')
    (sound : server.Sound parse context) :
    server'.Sound parse context where
  courses := sound.courses.change change
  turns := sound.turns.change change
  framed := sound.framed.change change
  lossy := sound.lossy.change change sound.courses sound.turns
  ordered := sound.ordered.change change sound.courses sound.turns sound.lossy
  silent := sound.silent.change change sound.courses

variable (parse context) in
/-- After all events the server is sound, and rests. -/
theorem sound_after (events : List Event) :
    (after parse context events).Sound parse context ∧ (after parse context events).Rests :=
  always .start (fun change sound => sound.change change) events

/-- A server that has returned, and was not aborted, has done all about every frame. -/
theorem Sound.served (sound : server.Sound parse context) (returned : server.phase = .returned)
    (unaborted : server.aborted = false) :
    server.jobs.map (·.frame) = server.allFrames ∧ ∀ job frame,
      server.allFrames[job]? = some frame →
      ∃ outcome, own job server.log = exchange parse context job frame outcome := by
  -- When the server returned, all jobs were over and none of the writes had failed.
  have frames := sound.framed.frames
  simp only [returned, unaborted, Bool.false_eq_true, false_or] at frames
  obtain ⟨unfailed, past⟩ := (sound.lossy.returned returned).resolve_left (by simp [unaborted])
  refine ⟨frames, fun job frame there => ?_⟩
  rw [← frames, List.getElem?_map, Option.map_eq_some_iff] at there
  obtain ⟨found, there, rfl⟩ := there
  have course := sound.courses.course job found there
  have done : found.stage = .finished := by
    have done := List.all_eq_true.mp past found (List.mem_of_getElem? there)
    unfold Job.isOver at done
    split at done
    · assumption
    · cases done
  rw [unaborted, done] at course
  -- What was written is lost only if the server threw or failed.
  refine course.whole fun lost => ?_
  rcases sound.lossy.lost job found there (List.mem_of_mem_filter lost) with threw | ⟨failed, -⟩
  · cases returned.symm.trans threw
  · cases unfailed.symm.trans failed

end Server

open Server

/-- A server that has returned, and was not aborted, has taken up every frame of its input in order,
and has done about each all that is to be done and nothing else: each request has its one response,
and the response is written. -/
theorem served_once (events : List Event)
    (returned : (after parse context events).phase = .returned)
    (unaborted : (after parse context events).aborted = false) :
    (after parse context events).jobs.map (·.frame) = (after parse context events).allFrames
      ∧ ∀ job frame, (after parse context events).allFrames[job]? = some frame →
        ∃ outcome, own job (after parse context events).log
          = exchange parse context job frame outcome :=
  (sound_after parse context events).1.served returned unaborted

/-- Frames are taken up in the order of the input. A frame is taken up only when all is done about
the frames before it, calls that wait apart; such a call is never what the loop awaits, and of all
others none but the one that it awaits is under way. -/
theorem served_in_turn (events : List Event) :
    (after parse context events).jobs.map (·.frame) <+: (after parse context events).allFrames
      ∧ (∀ before job frame later,
        (after parse context events).log = before ++ Observed.starts job frame :: later →
        ∀ other earlier, .starts other earlier ∈ before → earlier.waits parse = false →
          ∃ outcome, own other before = exchange parse context other earlier outcome)
      ∧ (∀ job queue, (after parse context events).phase = .serving job queue →
        ∃ found, (after parse context events).jobs[job]? = some found
          ∧ found.frame.waits parse = false ∧ found.isOver = false)
      ∧ (∀ job found, (after parse context events).jobs[job]? = some found →
        found.frame.waits parse = false → found.isOver = false →
        (∃ queue, (after parse context events).phase = .serving job queue)
          ∨ (after parse context events).phase = .closing job) := by
  -- All of it holds in every state, and the loop rests only where it awaits something.
  obtain ⟨sound, rests⟩ := sound_after parse context events
  refine ⟨sound.framed.started, sound.ordered, fun job queue serving => ?_, sound.turns.awaited⟩
  obtain ⟨found, there, blocks⟩ := sound.turns.served job queue serving
  have open_ := rests.serving job queue serving
  rw [isOver, there] at open_
  exact ⟨found, there, blocks, open_⟩

/-- After an abort no frame is taken up, no tool is called and nothing is written; and once no tool
that was called has yet to answer, the server has ended. -/
theorem silent_after_abort (events : List Event) :
    (∀ before later, (after parse context events).log = before ++ Observed.aborted :: later →
      ∀ what ∈ later, ∃ job outcome, what = .settles job outcome)
    ∧ ((after parse context events).aborted = true →
      (∀ found ∈ (after parse context events).jobs, ∀ id notification,
        found.stage ≠ .calling id notification) →
      (after parse context events).phase = .returned
        ∨ (after parse context events).phase = .threw) := by
  -- The abort has cut every write, so only calls can be under way.
  obtain ⟨sound, rests⟩ := sound_after parse context events
  refine ⟨sound.silent, fun aborted answered => ?_⟩
  have done : ∀ found ∈ (after parse context events).jobs, found.isOver = true := by
    intro found inside
    cases stage : found.stage with
    | finished => simp [Job.isOver, stage]
    | writing => exact absurd stage (sound.courses.cut aborted found inside)
    | calling id notification => exact absurd stage (answered found inside id notification)
  have over_ : ∀ job, (after parse context events).isOver job = true := by
    intro job
    unfold isOver
    cases there : (after parse context events).jobs[job]? with
    | none => rfl
    | some found => exact done found (List.mem_of_getElem? there)
  -- In every other phase the loop would await something that is not over.
  cases phase : (after parse context events).phase with
  | taking queue => exact absurd phase (rests.taking queue)
  | reading => cases aborted.symm.trans (rests.reading phase)
  | serving job queue => cases (over_ job).symm.trans (rests.serving job queue phase)
  | closing job => cases (over_ job).symm.trans (rests.closing job phase)
  | draining => cases (List.all_eq_true.mpr done).symm.trans (rests.draining phase)
  | returned => exact .inl rfl
  | threw => exact .inr rfl

end Khala.Mcp
