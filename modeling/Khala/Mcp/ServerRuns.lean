import Khala.Mcp.Exchanges

/-! Runs of the tool server: every frame is served once and in its turn, and nothing is said after
an abort. -/

namespace Khala.Mcp

open Js Concurrent

variable {parse : Text → Option Json} {context : ServerContext}

namespace Server

variable {server server' : Server}

/-! ## In its turn -/

/-- The loop awaits a frame. -/
def Awaits (phase : Phase) (job : Nat) : Prop :=
  (∃ queue, phase = .serving job queue) ∨ phase = .closing job

/-- One job is awaited at most. -/
theorem Awaits.unique {phase : Phase} {job other : Nat} (awaits : Awaits phase job)
    (awaits' : Awaits phase other) : other = job := by
  -- The phase names the job that it awaits.
  rcases awaits with ⟨queue, rfl⟩ | rfl
  · rcases awaits' with ⟨queue', same⟩ | same
    · cases same
      rfl
    · cases same
  · rcases awaits' with ⟨queue', same⟩ | same
    · cases same
    · cases same
      rfl

/-- Only a call that waits may be under way without being awaited, and no such call is awaited
before the last line. -/
structure Turns (parse : Text → Option Json) (server : Server) : Prop where
  awaited : ∀ job found, server.jobs[job]? = some found → found.frame.waits parse = false →
    found.isOver = false →
    Awaits server.phase job
  served : ∀ job queue, server.phase = .serving job queue → ∃ found, server.jobs[job]? = some found
    ∧ found.frame.waits parse = false

/-- The loop goes on where nothing that it awaits is under way. -/
theorem Turns.phase (turns : server.Turns parse) {phase : Phase}
    (idle : ∀ job, Awaits server.phase job → server.isOver job = true)
    (unserved : ∀ job queue, phase ≠ .serving job queue) :
    ({ server with phase } : Server).Turns parse where
  awaited job found is blocks open_ := by
    have done := idle job (turns.awaited job found is blocks open_)
    rw [Server.isOver, is, Option.all_some, open_] at done
    cases done
  served job queue serving := absurd serving (unserved job queue)

/-- One job goes on. -/
theorem Turns.await (turns : server.Turns parse) {job : Nat} {frame : Frame} {stage stage' : Stage}
    (is : server.jobs[job]? = some ⟨frame, stage⟩) (live : Job.isOver ⟨frame, stage⟩ = false)
    (log : List Observed) (failed : Bool) :
    ({ server.await job frame stage' with log, failed } : Server).Turns parse := by
  -- The job keeps its frame, and what could be under way before still can.
  have small : job < server.jobs.length := (List.getElem?_eq_some_iff.mp is).1
  refine ⟨fun other found there blocks open_ => ?_, fun other queue serving => ?_⟩
  -- The job itself was not over before, so it was awaited if its kind must be.
  · dsimp only [Server.await] at there
    by_cases same : other = job
    · subst same
      rw [List.getElem?_set_self small] at there
      obtain rfl := Option.some.inj there
      exact turns.awaited other _ is blocks live
    · rw [List.getElem?_set_ne (Ne.symm same)] at there
      exact turns.awaited other found there blocks open_
  · obtain ⟨found, there, blocks⟩ := turns.served other queue serving
    by_cases same : other = job
    · subst same
      obtain rfl := Option.some.inj (is.symm.trans there)
      exact ⟨_, List.getElem?_set_self small, blocks⟩
    · exact ⟨found, (List.getElem?_set_ne (Ne.symm same)).trans there, blocks⟩

/-- Another job begins where nothing is awaited. -/
theorem Turns.launch (turns : server.Turns parse) (idle : ∀ job, ¬ Awaits server.phase job)
    (frame : Frame) {phase : Phase}
    (held : Awaits phase server.jobs.length ∨ passes parse context frame = true)
    (served : ∀ job queue, phase = .serving job queue → job = server.jobs.length
      ∧ passes parse context frame = false) :
    ({ server.begin parse context frame with phase } : Server).Turns parse := by
  -- The new job is awaited, or its frame lets the loop pass.
  -- A frame that passes without waiting has nothing left to do.
  have opened : ∃ stage whats, server.begin parse context frame = server.launch frame stage whats
      ∧ (passes parse context frame = true → frame.waits parse = false →
        Job.isOver ⟨frame, stage⟩ = true) := by
    unfold begin
    split
    · exact ⟨_, _, rfl, fun _ _ => rfl⟩
    · rename_i response answer
      exact ⟨_, _, rfl, fun passed blocks => by simp [passes, answer, blocks] at passed⟩
    · rename_i call is
      exact ⟨_, _, rfl, fun passed blocks => by simp [passes, is, blocks] at passed⟩
  obtain ⟨stage, whats, same, silent⟩ := opened
  rw [same]
  refine ⟨fun job found there blocks open_ => ?_, fun job queue serving => ?_⟩
  · by_cases last : job = server.jobs.length
    · subst last
      dsimp only [Server.launch] at there
      rw [List.getElem?_concat_length] at there
      obtain rfl := Option.some.inj there
      refine held.resolve_right fun passed => ?_
      rw [silent passed blocks] at open_
      cases open_
    · dsimp only [Server.launch] at there
      have small : job < server.jobs.length := by
        have := (List.getElem?_eq_some_iff.mp there).1
        rw [List.length_append, List.length_singleton] at this
        omega
      rw [List.getElem?_append_left small] at there
      exact absurd (turns.awaited job found there blocks open_) (idle job)
  · obtain ⟨rfl, stays⟩ := served job queue serving
    refine ⟨⟨frame, stage⟩, List.getElem?_concat_length, ?_⟩
    simp only [passes, Bool.or_eq_false_iff] at stays
    exact stays.1

/-- Every change keeps the turns. -/
theorem Turns.change (change : Change parse context server server') (turns : server.Turns parse) :
    server'.Turns parse := by
  have none_ : ∀ {phase : Phase}, (∀ job queue, phase ≠ .serving job queue) →
    (∀ job, phase ≠ .closing job) →
      ∀ job, ¬ Awaits phase job := by
    rintro phase unserved unclosed job (⟨queue, serving⟩ | closing)
    · exact unserved job queue serving
    · exact unclosed job closing
  have idle : ∀ {phase : Phase}, (∀ job queue, phase ≠ .serving job queue) →
    (∀ job, phase ≠ .closing job) →
      ∀ job, Awaits phase job → server.isOver job = true :=
    fun unserved unclosed job awaits => absurd awaits (none_ unserved unclosed job)
  -- Where the loop awaits nothing, nothing but waiting calls is under way.
  cases change with
  | read is alive chunk =>
    have now := @Turns.phase _ _ turns (.taking (server.reader.read chunk).1)
      (idle (by simp [is]) (by simp [is])) (by simp)
    exact ⟨now.awaited, now.served⟩
  | @take frame rest is alive =>
    refine turns.launch (none_ (by simp [is]) (by simp [is])) frame ?_ ?_
    · cases passes parse context frame with
      | true => exact .inr rfl
      | false => exact .inl (.inl ⟨rest, rfl⟩)
    · intro job queue
      cases passes parse context frame with
      | true => simp
      | false =>
        intro same
        cases same
        exact ⟨rfl, rfl⟩
  | rest is alive => exact turns.phase (idle (by simp [is]) (by simp [is])) (by simp)
  | @last frame is alive held =>
    exact turns.launch (none_ (by simp [is]) (by simp [is])) frame (.inl (.inr rfl)) (by simp)
  | ends is alive held => exact turns.phase (idle (by simp [is]) (by simp [is])) (by simp)
  | breaks is => exact turns.phase (idle (by simp [is]) (by simp [is])) (by simp)
  | stop is aborted =>
    rcases is with reading | ⟨job, queue, serving, past⟩
    · exact turns.phase (idle (by simp [reading]) (by simp [reading])) (by simp)
    · exact turns.phase (fun other awaits => Awaits.unique (.inl ⟨queue, serving⟩) awaits ▸ past)
        (by simp)
  | @next job queue is past alive =>
    exact turns.phase (fun other awaits => Awaits.unique (.inl ⟨queue, is⟩) awaits ▸ past) (by simp)
  | @closed job is past =>
    exact turns.phase (fun other awaits => Awaits.unique (.inr is) awaits ▸ past) (by simp)
  | drained is past =>
    refine turns.phase (idle (by simp [is]) (by simp [is])) ?_
    intro job queue
    split <;> simp
  | quiet is quiet outcome => exact turns.await is rfl _ _
  | reply is alive outcome => exact turns.await is rfl _ _
  | accept is => exact turns.await is rfl _ _
  | @lose job frame is awaited =>
    have now :=
      @Turns.await _ _ turns _ _ _ .finished is rfl
      (server.log ++ [Observed.written job false]) server.failed
    -- The job that was awaited is over, whatever its write came to.
    refine @Turns.phase _ _ now .threw (fun other awaits => ?_) (by simp)
    rw [Awaits.unique awaited awaits]
    exact (isOver_await is frame .finished job).trans (if_pos rfl)
  | miss is other => exact turns.await is rfl _ _
  | abort alive =>
    refine ⟨fun job found there blocks open_ => ?_, fun job queue serving => ?_⟩
    · rw [List.getElem?_map, Option.map_eq_some_iff] at there
      obtain ⟨before, stood, rfl⟩ := there
      -- Cutting a job ends at most its write and leaves its frame.
      have cut : before.cut.frame = before.frame
        ∧ (before.cut.isOver = false → before.isOver = false) := by
        unfold Job.cut
        split
        · exact ⟨rfl, fun open_ => by cases open_⟩
        · exact ⟨rfl, id⟩
      exact turns.awaited job before stood (cut.1 ▸ blocks) (cut.2 open_)
    · obtain ⟨found, there, blocks⟩ := turns.served job queue serving
      refine ⟨found.cut, by rw [List.getElem?_map, there]; rfl, ?_⟩
      unfold Job.cut
      split
      · exact blocks
      · exact blocks

/-! ## Every frame -/

/-- The frames of all that has been read, and that of the last line. -/
def allFrames (server : Server) : List Frame := framesOf server.received

/-- The frames that have been taken up and those that the loop still has are those of the input. -/
structure Framed (server : Server) : Prop where
  reader : server.reader = (Reader.start.readAll server.received).2
  frames : match server.phase with
    | .taking queue | .serving _ queue =>
      server.jobs.map (·.frame) ++ queue = (Reader.start.readAll server.received).1
    | .reading => server.jobs.map (·.frame) = (Reader.start.readAll server.received).1
    | .closing _ | .draining => server.jobs.map (·.frame) = server.allFrames
    | .returned => server.aborted = true ∨ server.jobs.map (·.frame) = server.allFrames
    | .threw => True
  started : server.jobs.map (·.frame) <+: server.allFrames

/-- A job keeps its frame. -/
theorem frames_set {jobs : List Job} {job : Nat} {frame : Frame} {stage : Stage}
    (is : jobs[job]? = some ⟨frame, stage⟩) (stage' : Stage) :
    (jobs.set job ⟨frame, stage'⟩).map (·.frame) = jobs.map (·.frame) := by
  -- A job that goes on keeps its frame.
  obtain ⟨small, same⟩ := List.getElem?_eq_some_iff.mp is
  rw [List.map_set]
  have small' : job < (jobs.map (·.frame)).length := by rwa [List.length_map]
  have own : frame = (jobs.map (·.frame))[job] := by rw [List.getElem_map, same]
  nth_rewrite 1 [own]
  exact List.set_getElem_self _

variable (parse context server) in
/-- A frame that is begun is the last job's. -/
theorem frames_begin (frame : Frame) :
    (server.begin parse context frame).jobs.map (·.frame) = server.jobs.map (·.frame) ++ [frame]
      ∧ (server.begin parse context frame).reader = server.reader
      ∧ (server.begin parse context frame).received = server.received := by
  obtain ⟨stage, whats, same⟩ := begin_eq parse context server frame
  rw [same]
  exact ⟨by simp [Server.launch], rfl, rfl⟩

/-- The same frames, where the loop stands as it did. -/
theorem Framed.same (framed : server.Framed)
    (jobs : server'.jobs.map (·.frame) = server.jobs.map (·.frame))
    (reader : server'.reader = server.reader) (received : server'.received = server.received)
    (phase : server'.phase = server.phase)
    (aborted : server.aborted = true → server'.aborted = true) : server'.Framed := by
  -- Each phase says the same of the same jobs.
  have all : server'.allFrames = server.allFrames := by rw [allFrames, allFrames, received]
  refine ⟨by rw [reader, received]; exact framed.reader,
    ?_, by rw [jobs, all]; exact framed.started⟩
  have frames := framed.frames
  rw [phase, jobs, received, all]
  split
  · rename_i is
    simpa only [is] using frames
  · rename_i is
    simpa only [is] using frames
  · rename_i is
    simpa only [is] using frames
  · rename_i is
    simpa only [is] using frames
  · rename_i is
    simpa only [is] using frames
  · rename_i is
    simp only [is] at frames
    exact frames.imp_left aborted
  · trivial

/-- Every change keeps the frames. -/
theorem Framed.change (change : Change parse context server server') (framed : server.Framed) :
    server'.Framed := by
  -- The reader has cut the frames of a chunk before the loop takes up the first.
  have frames := framed.frames
  cases change with
  | read is alive chunk =>
    simp only [is] at frames
    refine ⟨?_, ?_, ?_⟩
    · dsimp only
      rw [Reader.readAll_append, framed.reader]
      rfl
    · dsimp only
      rw [Reader.readAll_append, frames, framed.reader]
      simp [Reader.readAll]
    · dsimp only [allFrames, framesOf]
      rw [Reader.readAll_append, frames, List.append_assoc]
      exact List.prefix_append _ _
  | @take frame rest is alive =>
    simp only [is] at frames
    obtain ⟨taken, reader, received⟩ := frames_begin parse context server frame
    refine ⟨by dsimp only; rw [reader, received]; exact framed.reader, ?_, ?_⟩
    · dsimp only
      rw [taken, received]
      cases passes parse context frame with
      | true => simpa using frames
      | false => simpa using frames
    · dsimp only [allFrames, framesOf]
      rw [taken, received, ← frames]
      simp
  | rest is alive =>
    simp only [is, List.append_nil] at frames
    exact ⟨framed.reader, frames, framed.started⟩
  | @last frame is alive held =>
    simp only [is] at frames
    obtain ⟨taken, reader, received⟩ := frames_begin parse context server frame
    -- At the end of the input the reader still holds the last line.
    have all : server.jobs.map (·.frame) ++ [frame] = server.allFrames := by
      rw [framed.reader] at held
      rw [allFrames, framesOf, frames]
      simp [held]
    refine ⟨by dsimp only; rw [reader, received]; exact framed.reader, ?_, ?_⟩
    · dsimp only [allFrames]
      rw [taken, received]
      exact all
    · dsimp only [allFrames]
      rw [taken, received]
      exact all ▸ List.prefix_rfl
  | ends is alive held =>
    simp only [is] at frames
    refine ⟨framed.reader, ?_, framed.started⟩
    rw [framed.reader] at held
    dsimp only [allFrames, framesOf]
    rw [frames]
    simp [held]
  | breaks is => exact ⟨framed.reader, trivial, framed.started⟩
  | stop is aborted => exact ⟨framed.reader, .inl aborted, framed.started⟩
  | next is past alive =>
    simp only [is] at frames
    exact ⟨framed.reader, frames, framed.started⟩
  | closed is past =>
    simp only [is] at frames
    exact ⟨framed.reader, frames, framed.started⟩
  | drained is past =>
    simp only [is] at frames
    refine ⟨framed.reader, ?_, framed.started⟩
    dsimp only
    cases server.failed with
    | true => trivial
    | false => exact .inr frames
  | quiet is quiet outcome => exact framed.same (frames_set is _) rfl rfl rfl id
  | reply is alive outcome => exact framed.same (frames_set is _) rfl rfl rfl id
  | accept is => exact framed.same (frames_set is _) rfl rfl rfl id
  | @lose job frame is awaited =>
    have now :=
      @Framed.same _ ((server.observe (.written job false)).await job frame .finished) framed
      (frames_set is _) rfl rfl rfl id
    exact ⟨now.reader, trivial, now.started⟩
  | miss is other => exact framed.same (frames_set is _) rfl rfl rfl id
  | abort alive =>
    have cut : (server.jobs.map Job.cut).map (·.frame) = server.jobs.map (·.frame) := by
      rw [List.map_map]
      apply List.map_congr_left
      intro job _
      rw [Function.comp_apply, Job.cut]
      split <;> rfl
    exact framed.same cut rfl rfl rfl (fun _ => rfl)

/-! ## What is lost -/

/-- A write that fails ends the server at once when the loop awaits it, and else before it returns.
-/
structure Lossy (parse : Text → Option Json) (server : Server) : Prop where
  lost : ∀ job found, server.jobs[job]? = some found → .written job false ∈ server.log →
    server.phase = .threw ∨ (server.failed = true ∧ found.frame.waits parse = true)
  returned : server.phase = .returned → server.aborted = true
    ∨ (server.failed = false ∧ server.jobs.all Job.isOver = true)

/-- A job that is launched starts its frame. -/
theorem launch_log (frame : Frame) (stage : Stage) (whats : List Observed) :
    (server.launch frame stage whats).log = server.log ++ [Observed.starts server.jobs.length frame]
      ++ whats := by
  simp [launch]

variable (parse context server) in
/-- A frame that is begun is said to start, and nothing is said of other frames. -/
theorem begin_log (frame : Frame) : ∃ whats, (server.begin parse context frame).log
    = server.log ++ [Observed.starts server.jobs.length frame] ++ whats
      ∧ (∀ job frame, .starts job frame ∉ whats)
      ∧ ∀ job, .written job false ∉ whats := by
  unfold begin
  split
  · exact ⟨_, launch_log .., by simp, by simp⟩
  · exact ⟨_, launch_log .., by simp, by simp⟩
  · exact ⟨_, launch_log .., by simp, by simp⟩

/-- What a change says. A frame is started only where the loop awaits nothing. -/
theorem Change.starts (change : Change parse context server server') :
    (∃ whats, server'.log = server.log ++ whats ∧ ∀ job frame, .starts job frame ∉ whats)
      ∨ (server.aborted = false ∧ (∀ job, ¬ Awaits server.phase job) ∧ server.phase ≠ .threw
        ∧ ∃ frame whats,
          server'.log = server.log ++ [Observed.starts server.jobs.length frame] ++ whats
          ∧ ∀ job frame, .starts job frame ∉ whats) := by
  -- Only the two changes that take up a frame start one, and they come where the loop is free.
  cases change with
  | take is alive =>
    obtain ⟨whats, log, unstarted, -⟩ := begin_log parse context server _
    exact .inr ⟨alive, by simp [Awaits, is], by simp [is], _, whats, log, unstarted⟩
  | last is alive held =>
    obtain ⟨whats, log, unstarted, -⟩ := begin_log parse context server _
    exact .inr ⟨alive, by simp [Awaits, is], by simp [is], _, whats, log, unstarted⟩
  | quiet is quiet outcome => exact .inl ⟨_, rfl, by simp⟩
  | reply is alive outcome => exact .inl ⟨_, List.append_assoc .., by simp⟩
  | accept is => exact .inl ⟨_, rfl, by simp⟩
  | lose is awaited => exact .inl ⟨_, rfl, by simp⟩
  | miss is other => exact .inl ⟨_, rfl, by simp⟩
  | abort alive => exact .inl ⟨_, rfl, by simp⟩
  | _ => exact .inl ⟨[], (List.append_nil _).symm, by simp⟩

/-- The jobs that a change leaves: those that there were, as they were or over, and one that is
begun. -/
theorem Change.jobs (change : Change parse context server server') (job : Nat) (found : Job)
    (there : server'.jobs[job]? = some found) (old : job < server.jobs.length) :
    ∃ before, server.jobs[job]? = some before ∧ before.frame = found.frame := by
  -- Jobs are replaced in place or added at the end, and a replaced job keeps its frame.
  have set_ : ∀ {other frame stage stage'}, server.jobs[other]? = some ⟨frame, stage⟩ →
      (server.jobs.set other ⟨frame, stage'⟩)[job]? = some found →
      ∃ before, server.jobs[job]? = some before ∧ before.frame = found.frame := by
    intro other frame stage stage' is there
    by_cases same : job = other
    · subst same
      rw [List.getElem?_set_self old] at there
      exact ⟨_, is, by rw [← Option.some.inj there]⟩
    · rw [List.getElem?_set_ne (Ne.symm same)] at there
      exact ⟨found, there, rfl⟩
  have launched : ∀ {frame}, (server.begin parse context frame).jobs[job]? = some found →
      ∃ before, server.jobs[job]? = some before ∧ before.frame = found.frame := by
    intro frame there
    obtain ⟨stage, whats, same⟩ := begin_eq parse context server frame
    rw [same, launch, List.getElem?_append_left old] at there
    exact ⟨found, there, rfl⟩
  cases change with
  | take is alive => exact launched there
  | last is alive held => exact launched there
  | quiet is quiet outcome => exact set_ is there
  | reply is alive outcome => exact set_ is there
  | accept is => exact set_ is there
  | lose is awaited => exact set_ is there
  | miss is other => exact set_ is there
  | abort alive =>
    rw [List.getElem?_map, Option.map_eq_some_iff] at there
    obtain ⟨before, stood, rfl⟩ := there
    refine ⟨before, stood, ?_⟩
    unfold Job.cut
    split <;> rfl
  | _ => exact ⟨found, there, rfl⟩

/-- A write fails as the loop awaits it, or as the write of another frame. -/
theorem Change.loses (change : Change parse context server server') {job : Nat}
    (lost : .written job false ∈ server'.log) :
    .written job false ∈ server.log ∨ server'.phase = .threw
      ∨ (server'.failed = true ∧ ∃ frame, server.jobs[job]? = some ⟨frame, .writing⟩
        ∧ ¬ Awaits server.phase job) := by
  -- Of all changes two report a failed write, and only one of these does not end the server.
  have begun : ∀ {frame}, .written job false ∈ (server.begin parse context frame).log →
    .written job false ∈ server.log := by
    intro frame lost
    obtain ⟨whats, log, -, unwritten⟩ := begin_log parse context server frame
    rw [log] at lost
    rcases List.mem_append.mp lost with old | new
    · simpa using old
    · exact absurd new (unwritten job)
  cases change with
  | lose is awaited => exact .inr (.inl rfl)
  | @miss failing frame is other =>
    rcases List.mem_append.mp lost with old | new
    · exact .inl old
    · have own := List.mem_singleton.mp new
      simp only [Observed.written.injEq, and_true] at own
      subst own
      refine .inr (.inr ⟨rfl, frame, is, ?_⟩)
      rintro (⟨queue, serving⟩ | closing)
      · exact other.1 queue serving
      · exact other.2 closing
  | take is alive => exact .inl (begun lost)
  | last is alive held => exact .inl (begun lost)
  | quiet is quiet outcome => exact .inl (by simpa [observe, await] using lost)
  | reply is alive outcome => exact .inl (by simpa [observe, await] using lost)
  | accept is => exact .inl (by simpa [observe, await] using lost)
  | abort alive => exact .inl (by simpa using lost)
  | _ => exact .inl lost

end Server

end Khala.Mcp
