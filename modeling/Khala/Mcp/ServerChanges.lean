import Khala.Mcp.Server
import Mathlib.Logic.Relation

/-! What a step of the tool server can do, said once: every step is a chain of the changes below. -/

namespace Khala.Mcp

open Js

variable {parse : Text → Option Json} {context : ServerContext}

namespace Server

/-- One thing that happens within a step. -/
inductive Change (parse : Text → Option Json) (context : ServerContext) : Server → Server → Prop
  /-- A chunk is read, and its lines are to be taken. -/
  | read {server : Server} (is : server.phase = .reading) (alive : server.aborted = false)
    (chunk : List UInt8) :
    Change parse context server { server with
      reader := (server.reader.read chunk).2
      received := server.received ++ [chunk]
      phase := .taking (server.reader.read chunk).1 }
  /-- The next frame is taken up, and the loop goes on or awaits it. -/
  | take {server : Server} {frame : Frame} {rest : List Frame}
    (is : server.phase = .taking (frame :: rest))
    (alive : server.aborted = false) :
    Change parse context server { server.begin parse context frame with
      phase := if passes parse context frame then .taking rest
        else .serving server.jobs.length rest }
  /-- All lines of the chunk are taken. -/
  | rest {server : Server} (is : server.phase = .taking []) (alive : server.aborted = false) :
    Change parse context server { server with phase := .reading }
  /-- The input is over, and an unfinished line is the last frame. -/
  | last {server : Server} {frame : Frame} (is : server.phase = .reading)
    (alive : server.aborted = false)
    (held : server.reader.finish = some frame) :
    Change parse context server { server.begin parse context frame with
      phase := .closing server.jobs.length }
  /-- The input is over, and nothing is left of it. -/
  | ends {server : Server} (is : server.phase = .reading) (alive : server.aborted = false)
    (held : server.reader.finish = none) :
    Change parse context server { server with phase := .draining }
  /-- The input fails. -/
  | breaks {server : Server} (is : server.phase = .reading) :
    Change parse context server { server with phase := .threw }
  /-- The loop finds the server aborted. -/
  | stop {server : Server} (is : server.phase = .reading ∨ ∃ job queue,
    server.phase = .serving job queue ∧ server.isOver job = true)
    (aborted : server.aborted = true) :
      Change parse context server { server with phase := .returned }
  /-- The awaited frame is over, and the loop goes on. -/
  | next {server : Server} {job : Nat} {queue : List Frame}
    (is : server.phase = .serving job queue) (past : server.isOver job = true)
    (alive : server.aborted = false) :
      Change parse context server { server with phase := .taking queue }
  /-- The last frame is over. -/
  | closed {server : Server} {job : Nat} (is : server.phase = .closing job)
    (past : server.isOver job = true) :
    Change parse context server { server with phase := .draining }
  /-- All calls in flight are over. -/
  | drained {server : Server} (is : server.phase = .draining)
    (past : server.jobs.all Job.isOver = true) :
    Change parse context server { server with phase := if server.failed then .threw else .returned }
  /-- A tool has answered and nobody is told. -/
  | quiet {server : Server} {job : Nat} {frame : Frame} {id : JsonRpcId} {notification : Bool}
    (is : server.jobs[job]? = some ⟨frame, .calling id notification⟩)
      (quiet : notification = true ∨ server.aborted = true)
    (outcome : Option JsonRpcResponse) :
    Change parse context server ((server.observe (.settles job outcome)).await job frame .finished)
  /-- The tool's answer is written. -/
  | reply {server : Server} {job : Nat} {frame : Frame} {id : JsonRpcId}
    (is : server.jobs[job]? = some ⟨frame, .calling id false⟩) (alive : server.aborted = false)
      (outcome : Option JsonRpcResponse) :
    Change parse context server
      (((server.observe (.settles job outcome)).await job frame .writing).observe
        (.writes job (Server.reply id outcome)))
  /-- The write of a response is done. -/
  | accept {server : Server} {job : Nat} {frame : Frame}
    (is : server.jobs[job]? = some ⟨frame, .writing⟩) :
    Change parse context server ((server.observe (.written job true)).await job frame .finished)
  /-- The loop fails with the write that it awaits. -/
  | lose {server : Server} {job : Nat} {frame : Frame}
    (is : server.jobs[job]? = some ⟨frame, .writing⟩)
    (awaited : (∃ queue, server.phase = .serving job queue) ∨ server.phase = .closing job) :
    Change parse context server
      { (server.observe (.written job false)).await job frame .finished with phase := .threw }
  /-- The write of a call in flight fails. -/
  | miss {server : Server} {job : Nat} {frame : Frame}
    (is : server.jobs[job]? = some ⟨frame, .writing⟩)
    (other : (∀ queue, server.phase ≠ .serving job queue) ∧ server.phase ≠ .closing job) :
    Change parse context server
      { (server.observe (.written job false)).await job frame .finished with failed := true }
  /-- The server is aborted. -/
  | abort {server : Server} (alive : server.aborted = false) :
    Change parse context server { server with
      aborted := true, jobs := server.jobs.map Job.cut, log := server.log ++ [Observed.aborted] }

def Changes (parse : Text → Option Json) (context : ServerContext) : Server → Server → Prop :=
  Relation.ReflTransGen (Change parse context)

/-- Between two events the server awaits something that has not happened. -/
structure Rests (server : Server) : Prop where
  taking : ∀ queue, server.phase ≠ .taking queue
  reading : server.phase = .reading → server.aborted = false
  serving : ∀ job queue, server.phase = .serving job queue → server.isOver job = false
  closing : ∀ job, server.phase = .closing job → server.isOver job = false
  draining : server.phase = .draining → server.jobs.all Job.isOver = false

/-- The server rests at the start. -/
theorem Rests.start : Rests .start :=
  ⟨by simp [Server.start], fun _ => rfl, by simp [Server.start], by simp [Server.start],
  by simp [Server.start]⟩

variable {server : Server}

variable (parse context server) in
/-- Taking up a frame adds one job, and says so. -/
theorem begin_eq (frame : Frame) :
    ∃ stage whats, server.begin parse context frame = server.launch frame stage whats := by
  -- The three cases of a frame launch a job, each with its own stage and entries.
  unfold begin
  split
  · exact ⟨_, _, rfl⟩
  · exact ⟨_, _, rfl⟩
  · exact ⟨_, _, rfl⟩

/-- The loop awaits a frame only when it has something to await. -/
theorem over_begin {frame : Frame} (held : passes parse context frame = false) (phase : Phase) :
    ({ server.begin parse context frame with phase } :
      Server).isOver server.jobs.length = false := by
  -- A frame without an answer lets the loop pass, and a job that was just begun is not over.
  simp only [passes, Bool.or_eq_false_iff] at held
  unfold begin
  split
  · rename_i silent
    rw [silent] at held
    cases held.2
  · simp [isOver, launch, Job.isOver]
  · simp [isOver, launch, Job.isOver]

/-- Taking up frames is a series of changes. -/
theorem changes_take (queue : List Frame) :
    ∀ {server : Server}, server.phase = .taking queue → server.aborted = false →
    Changes parse context server (server.take parse context queue)
      ∧ (server.take parse context queue).Rests := by
  -- The loop takes frames up until one is awaited, or none is left.
  induction queue with
  | nil =>
    intro server is alive
    exact ⟨.single (.rest is alive), by simp [take], fun _ =>
      alive, by simp [take], by simp [take], by simp [take]⟩
  | cons frame rest ih =>
    intro server is alive
    have change := @Change.take parse context _ _ _ is alive
    have kept : (server.begin parse context frame).aborted = false := by
      obtain ⟨stage, whats, same⟩ := begin_eq parse context server frame
      rw [same]
      exact alive
    rw [take]
    cases passed : passes parse context frame with
    | true =>
      rw [passed, if_pos rfl] at change
      obtain ⟨more, rests⟩ :=
        @ih { server.begin parse context frame with phase := .taking rest } rfl kept
      exact ⟨.trans (.single change) more, rests⟩
    | false =>
      rw [passed, if_neg Bool.false_ne_true] at change
      -- The loop stops at this frame and awaits its job.
      refine ⟨.single change, by simp, by simp, ?_, by simp, by simp⟩
      rintro job queue same
      cases same
      exact over_begin passed _

/-- Draining is a series of changes. -/
theorem changes_drain
    (is : server.phase = .draining
      ∨ (∃ job, server.phase = .closing job ∧ server.isOver job = true) ∨ server.phase = .reading
      ∧ server.aborted = false ∧ server.reader.finish = none) :
    Changes parse context server server.drain ∧ server.drain.Rests := by
  -- Once the input has ended, the loop ends with the last of the calls in flight.
  have drains : Changes parse context server { server with phase := .draining } := by
    rcases is with draining | ⟨job, closing, past⟩ | ⟨reading, alive, held⟩
    · rw [← draining]
      exact .refl
    · exact .single (.closed closing past)
    · exact .single (.ends reading alive held)
  unfold drain
  split
  · rename_i past
    refine ⟨drains.tail (.drained rfl past), ?_, ?_, ?_, ?_, ?_⟩
    all_goals (dsimp only; split <;> simp)
  · rename_i past
    exact ⟨drains, by simp, by simp, by simp, by simp, fun _ => by simpa using past⟩

/-- Where the loop stands between two events, it goes on as far as it can. -/
theorem changes_resume (untaken : ∀ queue, server.phase ≠ .taking queue) :
    Changes parse context server (server.resume parse context)
      ∧ (server.resume parse context).Rests := by
  -- Each place where the loop may stand goes on only if what it awaits has happened.
  unfold resume
  split
  · rename_i reading
    split
    · rename_i aborted
      exact ⟨.single (.stop (.inl reading) aborted), by simp, by simp, by simp, by simp, by simp⟩
    · rename_i alive
      exact ⟨.refl, by simp [reading],
        fun _ => by simpa using alive, by simp [reading], by simp [reading], by simp [reading]⟩
  · rename_i job queue serving
    split
    · rename_i past
      split
      · rename_i aborted
        exact ⟨.single
          (.stop (.inr ⟨job, queue, serving, past⟩)
            aborted), by simp, by simp, by simp, by simp, by simp⟩
      · rename_i alive
        have alive : server.aborted = false := by simpa using alive
        -- The frame is done, and the loop takes up what is left of the chunk.
        obtain ⟨more, rests⟩ := @changes_take parse context queue
          { server with phase := .taking queue } rfl alive
        exact ⟨.trans (.single (.next serving past alive)) more, rests⟩
    · rename_i open_
      refine ⟨.refl, by simp [serving], by simp [serving], ?_, by simp [serving], by simp [serving]⟩
      intro other queue' same
      rw [serving] at same
      cases same
      simpa using open_
  · rename_i job closing
    split
    · rename_i past
      exact changes_drain (.inr (.inl ⟨job, closing, past⟩))
    · rename_i open_
      refine ⟨.refl, by simp [closing], by simp [closing], by simp [closing], ?_, by simp [closing]⟩
      intro other same
      rw [closing] at same
      cases same
      simpa using open_
  · rename_i draining
    exact changes_drain (.inl draining)
  · rename_i reading serving closing draining
    exact ⟨.refl, untaken, fun is => absurd is reading, fun job queue is =>
      absurd is (serving job queue),
      fun job is => absurd is (closing job), fun is => absurd is draining⟩

/-- Going on is a series of changes. -/
theorem Changes.resume {server' : Server} (changes : Changes parse context server server')
    (untaken : ∀ queue, server'.phase ≠ .taking queue) :
    Changes parse context server (server'.resume parse context)
      ∧ (server'.resume parse context).Rests :=
  ⟨changes.trans (changes_resume untaken).1, (changes_resume untaken).2⟩

/-- A job that goes on is over or not as it is, and no other job changes. -/
theorem isOver_await {job : Nat} {found : Job} (is : server.jobs[job]? = some found) (frame : Frame)
    (stage : Stage) (other : Nat) :
    (server.await job frame stage).isOver other = if other = job then Job.isOver ⟨frame, stage⟩
      else server.isOver other := by
  -- The job is set where it stood, and every other place of the list is the same.
  have small : job < server.jobs.length := (List.getElem?_eq_some_iff.mp is).1
  unfold isOver await
  dsimp only
  split
  · rename_i same
    subst same
    rw [List.getElem?_set_self small]
    rfl
  · rename_i differs
    rw [List.getElem?_set_ne (Ne.symm differs)]

/-- A server that awaits a write rests. -/
theorem Rests.await (rests : server.Rests) {job : Nat} {found : Job}
    (is : server.jobs[job]? = some found) (frame : Frame) (log : List Observed) :
    ({ server.await job frame .writing with log } : Server).Rests where
  taking := rests.taking
  reading := rests.reading
  serving other queue serving := by
    -- A job that is written for is not over, and others stay as they were.
    have open_ := rests.serving other queue serving
    have now := isOver_await is frame .writing other
    split at now
    · exact now
    · exact now.trans open_
  closing other closing := by
    have open_ := rests.closing other closing
    have now := isOver_await is frame .writing other
    split at now
    · exact now
    · exact now.trans open_
  draining _ := by
    have small : job < server.jobs.length := (List.getElem?_eq_some_iff.mp is).1
    exact List.all_eq_false.mpr ⟨⟨frame, .writing⟩, List.mem_set small _, by simp [Job.isOver]⟩

/-- A tool's answer is a series of changes. -/
theorem changes_toolSettles (rests : server.Rests) (job : Nat) (outcome : Option JsonRpcResponse) :
    Changes parse context server (server.toolSettles parse context job outcome)
      ∧ (server.toolSettles parse context job outcome).Rests := by
  -- Nobody is told of a notification's answer, nor of any after an abort.
  unfold toolSettles
  split
  · rename_i frame id notification is
    dsimp only
    split
    · rename_i quiet
      exact Changes.resume (.single (.quiet is (by simpa using quiet) outcome)) rests.taking
    · rename_i loud
      simp only [Bool.or_eq_true, not_or, Bool.not_eq_true] at loud
      obtain ⟨rfl, alive⟩ := loud
      exact ⟨.single (.reply is alive outcome), rests.await is frame _⟩
  · exact ⟨.refl, rests⟩

/-- A write that settles is a series of changes. -/
theorem changes_writeSettles (rests : server.Rests) (job : Nat) (accepted : Bool) :
    Changes parse context server (server.writeSettles parse context job accepted)
      ∧ (server.writeSettles parse context job accepted).Rests := by
  -- A failed write ends the server where the loop awaits it, and is remembered where it does not.
  unfold writeSettles
  split
  · rename_i frame is
    dsimp only
    -- Another job than the one that is awaited is over.
    have kept : ∀ {other}, other ≠ job → server.isOver other = false →
        ((server.observe (.written job accepted)).await job frame .finished).isOver other
          = false := by
      intro other differs open_
      have now :=
        @isOver_await (server.observe (.written job accepted)) _ _ is frame .finished other
      rw [if_neg differs] at now
      exact now.trans open_
    split
    · rename_i success
      subst success
      exact Changes.resume (.single (.accept is)) rests.taking
    · rename_i failure
      obtain rfl : accepted = false := by simpa using failure
      split
      · rename_i awaited queue serving
        split
        · rename_i same
          subst same
          exact ⟨.single
            (.lose is (.inl ⟨queue, serving⟩)), by simp, by simp, by simp, by simp, by simp⟩
        · rename_i differs
          refine ⟨.single (.miss is ⟨fun other same => ?_, by simp [serving]⟩), rests.taking,
            rests.reading, ?_, ?_, ?_⟩
          · rw [serving] at same
            cases same
            exact differs rfl
          · intro other queue' same
            have alone := serving.symm.trans same
            cases alone
            exact kept differs (rests.serving _ _ serving)
          · exact fun other same => absurd (serving.symm.trans same) (by simp)
          · exact fun same => absurd (serving.symm.trans same) (by simp)
      · rename_i awaited closing
        split
        · rename_i same
          subst same
          exact ⟨.single (.lose is (.inr closing)), by simp, by simp, by simp, by simp, by simp⟩
        · rename_i differs
          refine ⟨.single (.miss is ⟨by simp [closing], fun same => ?_⟩), rests.taking,
            rests.reading, ?_, ?_, ?_⟩
          · rw [closing] at same
            cases same
            exact differs rfl
          · exact fun other queue same => absurd (closing.symm.trans same) (by simp)
          · intro other same
            have alone := closing.symm.trans same
            cases alone
            exact kept differs (rests.closing _ closing)
          · exact fun same => absurd (closing.symm.trans same) (by simp)
      · rename_i serving closing
        exact Changes.resume
          (.single (.miss is ⟨fun queue same => serving _ _ same, fun same => closing _ same⟩))
          rests.taking
  · exact ⟨.refl, rests⟩

variable (parse context) in
/-- Every event is a series of changes. -/
theorem changes_step (rests : server.Rests) (event : Event) :
    Changes parse context server (server.step parse context event)
      ∧ (server.step parse context event).Rests := by
  -- Each event makes one change, after which the loop goes on as far as it can.
  cases event with
  | chunk bytes =>
    rw [step, read]
    split
    · rename_i reading
      have alive := rests.reading reading
      obtain ⟨more, rests'⟩ := @changes_take parse context (server.reader.read bytes).1
        { server with
          reader := (server.reader.read bytes).2
          received := server.received ++ [bytes]
          phase := .taking (server.reader.read bytes).1 } rfl alive
      exact ⟨.trans (.single (.read reading alive bytes)) more, rests'⟩
    · exact ⟨.refl, rests⟩
  | ends =>
    rw [step, finish]
    split
    · rename_i reading
      have alive := rests.reading reading
      split
      · rename_i held
        exact changes_drain (.inr (.inr ⟨reading, alive, held⟩))
      · rename_i frame held
        exact Changes.resume (.single (.last reading alive held)) (by simp)
    · exact ⟨.refl, rests⟩
  | breaks =>
    rw [step]
    split
    · rename_i reading
      exact ⟨.single (.breaks reading), by simp, by simp, by simp, by simp, by simp⟩
    · exact ⟨.refl, rests⟩
  | toolSettles job outcome => exact changes_toolSettles rests job outcome
  | writeSettles job accepted => exact changes_writeSettles rests job accepted
  | abort =>
    rw [step, abort]
    split
    · exact ⟨.refl, rests⟩
    · rename_i alive
      exact Changes.resume (.single (.abort (by simpa using alive))) rests.taking

/-- What every change keeps holds after all events. -/
theorem always {P : Server → Prop} (start : P .start)
    (change : ∀ {server server'}, Change parse context server server' → P server → P server')
    (events : List Event) :
    P (after parse context events) ∧ (after parse context events).Rests := by
  -- A step is a chain of changes, and each of them keeps it.
  have kept : ∀ {server server'}, Changes parse context server server' → P server → P server' := by
    intro server server' changes good
    induction changes with
    | refl => exact good
    | tail _ next good => exact change next good
  -- The events are taken from the first on, so the state is left general.
  have general : ∀ (events : List Event) (server : Server), P server → server.Rests →
      P (events.foldl (step parse context) server)
        ∧ (events.foldl (step parse context) server).Rests := by
    intro events
    induction events with
    | nil => exact fun server good rests => ⟨good, rests⟩
    | cons event rest ih =>
      intro server good rests
      obtain ⟨changes, rests'⟩ := changes_step parse context rests event
      exact ih _ (kept changes good) rests'
  exact general events .start start .start

end Server

end Khala.Mcp
