import Khala.Concurrent.Log
import Khala.Mcp.ServerChanges

/-! What the tool server does about each frame, over whole runs: its own entries in the log, from
its start to its end. -/

namespace Khala.Mcp

open Js Concurrent

variable (parse : Text → Option Json) (context : ServerContext)

/-- The entries about one frame. -/
def own (job : Nat) (log : List Observed) : List Observed :=
  log.filter fun what => what.job = some job

/-- All that is done about a frame. -/
def exchange (job : Nat) (frame : Frame) (outcome : Option JsonRpcResponse) : List Observed :=
  .starts job frame :: match frame.handling parse context with
    | .silent => []
    | .answer response => [.writes job response, .written job true]
    | .call call => .calls job call :: .settles job outcome ::
      if call.notification then []
        else [.writes job (Server.reply call.id outcome), .written job true]

/-- The entries about a frame up to its response, and the response. -/
inductive Replies (job : Nat) (frame : Frame) : List Observed → JsonRpcResponse → Prop
  | answer {response : JsonRpcResponse} (is : frame.handling parse context = .answer response) :
    Replies job frame [.starts job frame] response
  | call {call : ToolCall} (is : frame.handling parse context = .call call)
    (loud : call.notification = false)
    (outcome : Option JsonRpcResponse) :
    Replies job frame [.starts job frame, .calls job call, .settles job outcome]
      (Server.reply call.id outcome)

/-- The entries about a frame, by what it awaits. -/
inductive Course (job : Nat) (frame : Frame) (aborted : Bool) : Stage → List Observed → Prop
  /-- Nothing is written. -/
  | silent (is : frame.handling parse context = .silent) :
  Course job frame aborted .finished [.starts job frame]
  /-- The tool has been called. -/
  | calling {call : ToolCall} (is : frame.handling parse context = .call call) :
    Course job frame aborted (.calling call.id call.notification)
      [.starts job frame, .calls job call]
  /-- Nothing is written of the tool's answer, for a notification or after an abort. -/
  | quiet {call : ToolCall} (is : frame.handling parse context = .call call)
    (quiet : call.notification = true ∨ aborted = true)
    (outcome : Option JsonRpcResponse) :
    Course job frame aborted .finished [.starts job frame, .calls job call, .settles job outcome]
  /-- The response is being written. -/
  | writing {whats : List Observed} {response : JsonRpcResponse}
    (replies : Replies parse context job frame whats response) :
    Course job frame aborted .writing (whats ++ [Observed.writes job response])
  /-- The response was written, or its write failed. -/
  | written {whats : List Observed} {response : JsonRpcResponse}
    (replies : Replies parse context job frame whats response)
    (accepted : Bool) :
    Course job frame aborted .finished
      (whats ++ [Observed.writes job response, .written job accepted])
  /-- The abort came while the response was written. -/
  | cut {whats : List Observed} {response : JsonRpcResponse}
    (replies : Replies parse context job frame whats response)
    (cut : aborted = true) :
    Course job frame aborted .finished (whats ++ [Observed.writes job response])

variable {parse context}

/-- What is observed of a job is observed of each part of the log. -/
theorem own_append (job : Nat) (log whats : List Observed) :
    own job (log ++ whats) = own job log ++ own job whats :=
  List.filter_append ..

/-- What is all about a job is its own. -/
theorem own_all {job : Nat} {whats : List Observed} (about : ∀ what ∈ whats, what.job = some job) :
    own job whats = whats :=
  List.filter_eq_self.mpr fun what inside => decide_eq_true (about what inside)

/-- What is about other jobs is none of its own. -/
theorem own_none {job : Nat} {whats : List Observed} (about : ∀ what ∈ whats, what.job ≠ some job) :
    own job whats = [] :=
  List.filter_eq_nil_iff.mpr fun what inside => by simpa using about what inside

section

variable {job : Nat} {frame : Frame} {aborted : Bool} {stage : Stage} {log : List Observed}

/-- Every course starts with its frame, and with no other. -/
theorem Course.starts (course : Course parse context job frame aborted stage log) (other : Frame) :
    .starts job other ∈ log ↔ other = frame := by
  -- Each course begins with the start of its frame, and nothing else in it is a start.
  have replied : ∀ {whats response}, Replies parse context job frame whats response →
      (.starts job other ∈ whats ↔ other = frame) := by
    intro whats response replies
    cases replies with
    | answer is => simp
    | call is loud outcome => simp
  cases course with
  | silent is => simp
  | calling is => simp
  | quiet is quiet outcome => simp
  | writing replies => simp [replied replies]
  | written replies accepted => simp [replied replies]
  | cut replies cut => simp [replied replies]

/-- A course that is over is the whole exchange, if the server was not aborted and the write did not
fail. -/
theorem Course.whole (course : Course parse context job frame false .finished log)
    (accepted : .written job false ∉ log) :
    ∃ outcome, log = exchange parse context job frame outcome := by
  -- Without an abort or a failure the course ended because all was done.
  cases course with
  | silent is => exact ⟨none, by rw [exchange, is]⟩
  | quiet is quiet outcome =>
    have quiet := quiet.resolve_right Bool.false_ne_true
    exact ⟨outcome, by simp [exchange, is, quiet]⟩
  | written replies success =>
    obtain rfl : success = true := by
      cases success with
      | true => rfl
      | false => exact absurd (by simp) accepted
    cases replies with
    | answer is => exact ⟨none, by simp [exchange, is]⟩
    | call is loud outcome => exact ⟨outcome, by simp [exchange, is, loud]⟩
  | cut replies cut => cases cut

/-- An abort changes no course, except that a write is waited for no longer. -/
theorem Course.abort {found : Job}
    (course : Course parse context job found.frame aborted found.stage log) :
    Course parse context job found.cut.frame true found.cut.stage log := by
  -- Only a course that was writing is cut short, and it keeps what was written.
  obtain ⟨frame, stage⟩ := found
  dsimp only at course
  cases course with
  | silent is => exact .silent is
  | calling is => exact .calling is
  | quiet is quiet outcome => exact .quiet is (.inr rfl) outcome
  | writing replies => exact .cut replies rfl
  | written replies accepted => exact .written replies accepted
  | cut replies cut => exact .cut replies rfl

end

namespace Server

variable {server server' : Server}

/-- Every job has run its course as far as its stage says, and the log is about nothing else. -/
structure Courses (parse : Text → Option Json) (context : ServerContext) (server : Server) :
    Prop where
  known : ∀ what ∈ server.log, ∀ job, what.job = some job → job < server.jobs.length
  course : ∀ job found, server.jobs[job]? = some found →
    Course parse context job found.frame server.aborted found.stage (own job server.log)
  alive : server.aborted = false → .aborted ∉ server.log
  cut : server.aborted = true → ∀ found ∈ server.jobs, found.stage ≠ .writing

/-- A server with the same jobs and log has the same courses. -/
theorem Courses.same (courses : server.Courses parse context) (jobs : server'.jobs = server.jobs)
    (log : server'.log = server.log) (aborted : server'.aborted = server.aborted) :
    server'.Courses parse context where
  known := by rw [jobs, log]; exact courses.known
  course := by rw [jobs, log, aborted]; exact courses.course
  alive := by rw [log, aborted]; exact courses.alive
  cut := by rw [jobs, aborted]; exact courses.cut

/-- One job goes on. -/
theorem Courses.goes_on (courses : server.Courses parse context) {job : Nat} {frame : Frame}
    {stage stage' : Stage} (is : server.jobs[job]? = some ⟨frame, stage⟩) (whats : List Observed)
    (jobs : server'.jobs = server.jobs.set job ⟨frame, stage'⟩)
    (log : server'.log = server.log ++ whats) (aborted : server'.aborted = server.aborted)
    (about : ∀ what ∈ whats, what.job = some job)
    (course : Course parse context job frame server.aborted stage' (own job server.log ++ whats))
    (silent : server.aborted = true → stage' ≠ .writing) : server'.Courses parse context := by
  have small : job < server.jobs.length := (List.getElem?_eq_some_iff.mp is).1
  -- The new entries are about the one job, so every other job's own entries are the same.
  refine ⟨fun what inside other names => ?_, fun other found there => ?_, fun unaborted inside =>
    ?_, fun past found inside => ?_⟩
  · rw [log] at inside
    rw [jobs, List.length_set]
    rcases List.mem_append.mp inside with old | new
    · exact courses.known what old other names
    · exact (Option.some.inj ((about what new).symm.trans names)) ▸ small
  · rw [jobs] at there
    rw [log, aborted, own_append]
    by_cases same : other = job
    · subst same
      rw [List.getElem?_set_self small] at there
      obtain rfl := Option.some.inj there
      rw [own_all about]
      exact course
    · rw [List.getElem?_set_ne (Ne.symm same)] at there
      rw [own_none fun what new names =>
        same (Option.some.inj (names.symm.trans (about what new))), List.append_nil]
      exact courses.course other found there
  · rw [log] at inside
    rcases List.mem_append.mp inside with old | new
    · exact courses.alive (aborted ▸ unaborted) old
    · cases about _ new
  · rw [aborted] at past
    rw [jobs] at inside
    rcases List.mem_or_eq_of_mem_set inside with old | rfl
    · exact courses.cut past found old
    · exact silent past

/-- Another job begins. -/
theorem Courses.launch (courses : server.Courses parse context) (alive : server.aborted = false)
    (frame : Frame) (phase : Phase) :
    ({ server.begin parse context frame with phase } : Server).Courses parse context := by
  -- What is done at once is the beginning of a course.
  have opened : ∃ stage whats, server.begin parse context frame = server.launch frame stage whats
      ∧ (∀ what ∈ whats, what.job = some server.jobs.length)
      ∧ Course parse context server.jobs.length frame false stage
        (.starts server.jobs.length frame :: whats) := by
    unfold begin
    split
    · rename_i silent
      exact ⟨_, _, rfl, by simp, .silent silent⟩
    · rename_i response answer
      exact ⟨_, _, rfl, by simp [Observed.job], .writing (.answer answer)⟩
    · rename_i call is
      exact ⟨_, _, rfl, by simp [Observed.job], .calling is⟩
  obtain ⟨stage, whats, same, about, course⟩ := opened
  rw [same]
  have about' : ∀ what ∈ .starts server.jobs.length frame :: whats,
    what.job = some server.jobs.length :=
    List.forall_mem_cons.mpr ⟨rfl, about⟩
  -- Nothing in the log is about a job that there was not.
  have fresh : ∀ what ∈ server.log, what.job ≠ some server.jobs.length := fun what old names =>
    Nat.lt_irrefl _ (courses.known what old _ names)
  refine ⟨fun what inside job names => ?_, fun job found there => ?_, fun _ inside =>
    ?_, fun past => ?_⟩
  · rw [Server.launch, List.length_append, List.length_singleton]
    rcases List.mem_append.mp inside with old | new
    · exact Nat.lt_succ_of_lt (courses.known what old job names)
    · exact (Option.some.inj ((about' what new).symm.trans names)) ▸ Nat.lt_succ_self _
  · simp only [Server.launch, own_append] at there ⊢
    by_cases last : job = server.jobs.length
    · subst last
      rw [List.getElem?_concat_length] at there
      obtain rfl := Option.some.inj there
      rw [own_none fresh, own_all about', alive, List.nil_append]
      exact course
    · have small : job < server.jobs.length := by
        have := (List.getElem?_eq_some_iff.mp there).1
        rw [List.length_append, List.length_singleton] at this
        omega
      rw [List.getElem?_append_left small] at there
      rw [own_none fun what new names =>
        last (Option.some.inj (names.symm.trans (about' what new))), List.append_nil]
      exact courses.course job found there
  · rcases List.mem_append.mp inside with old | new
    · exact courses.alive alive old
    · cases about' _ new
  · exact absurd (alive.symm.trans past) Bool.false_ne_true

/-- Every change keeps the courses. -/
theorem Courses.change (change : Change parse context server server')
    (courses : server.Courses parse context) :
    server'.Courses parse context := by
  -- The stage of a job says what the log has about it so far.
  have called : ∀ {job frame id notification},
    server.jobs[job]? = some ⟨frame, .calling id notification⟩ → ∃ call : ToolCall,
      frame.handling parse context = .call call ∧ call.id = id ∧ call.notification = notification
        ∧ own job server.log = [.starts job frame, .calls job call] := by
    intro job frame id notification is
    have course := courses.course _ _ is
    dsimp only at course
    generalize own job server.log = log at course
    cases course with
    | calling handled => exact ⟨_, handled, rfl, rfl, rfl⟩
  have written : ∀ {job frame}, server.jobs[job]? = some ⟨frame, .writing⟩ → ∃ whats response,
      Replies parse context job frame whats response
        ∧ own job server.log = whats ++ [Observed.writes job response] := by
    intro job frame is
    have course := courses.course _ _ is
    dsimp only at course
    generalize own job server.log = log at course
    cases course with
    | writing replies => exact ⟨_, _, replies, rfl⟩
  -- Changes of the phase alone leave every course as it is.
  cases change with
  | read is alive chunk => exact courses.same rfl rfl rfl
  | take is alive => exact courses.launch alive _ _
  | rest is alive => exact courses.same rfl rfl rfl
  | last is alive held => exact courses.launch alive _ _
  | ends is alive held => exact courses.same rfl rfl rfl
  | breaks is => exact courses.same rfl rfl rfl
  | stop is aborted => exact courses.same rfl rfl rfl
  | next is past alive => exact courses.same rfl rfl rfl
  | closed is past => exact courses.same rfl rfl rfl
  | drained is past => exact courses.same rfl rfl rfl
  | quiet is quiet outcome =>
    obtain ⟨call, handled, -, rfl, log⟩ := called is
    refine courses.goes_on is [.settles _ outcome] rfl rfl rfl (by simp [Observed.job]) ?_ (by simp)
    rw [log]
    exact .quiet handled quiet outcome
  | reply is alive outcome =>
    obtain ⟨call, handled, rfl, loud, log⟩ := called is
    refine courses.goes_on is [.settles _ outcome, .writes _ (Server.reply call.id outcome)] rfl
      (List.append_assoc ..) rfl
      (by simp [Observed.job]) ?_ (fun past => absurd (alive.symm.trans past) Bool.false_ne_true)
    rw [log]
    exact .writing (.call handled loud outcome)
  | accept is =>
    obtain ⟨whats, response, replies, log⟩ := written is
    refine courses.goes_on is [.written _ true] rfl rfl rfl (by simp [Observed.job]) ?_ (by simp)
    rw [log, List.append_assoc]
    exact .written replies true
  | lose is awaited =>
    obtain ⟨whats, response, replies, log⟩ := written is
    refine courses.goes_on is [.written _ false] rfl rfl rfl (by simp [Observed.job]) ?_ (by simp)
    rw [log, List.append_assoc]
    exact .written replies false
  | miss is other =>
    obtain ⟨whats, response, replies, log⟩ := written is
    refine courses.goes_on is [.written _ false] rfl rfl rfl (by simp [Observed.job]) ?_ (by simp)
    rw [log, List.append_assoc]
    exact .written replies false
  | abort alive =>
    refine ⟨fun what inside job names => ?_, fun job found there =>
      ?_, by simp, fun _ found inside => ?_⟩
    -- The abort itself is about no job.
    · rw [List.length_map]
      rcases List.mem_append.mp inside with old | new
      · exact courses.known what old job names
      · rw [List.mem_singleton.mp new] at names
        cases names
    · rw [List.getElem?_map, Option.map_eq_some_iff] at there
      obtain ⟨before, stood, rfl⟩ := there
      dsimp only
      rw [own_append, show own job [.aborted] = [] from rfl, List.append_nil]
      exact (courses.course job before stood).abort
    · obtain ⟨before, -, rfl⟩ := List.mem_map.mp inside
      unfold Job.cut
      split
      · simp
      · rename_i other
        exact other

end Server

end Khala.Mcp
