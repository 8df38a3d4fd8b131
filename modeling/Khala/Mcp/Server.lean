import Khala.Mcp.Frames
import Khala.Mcp.Messages

/-! The tool server: frames are served one after another, except that a call that waits holds up no
other. -/

namespace Khala.Mcp

open Js

section

variable (parse : Text → Option Json) (context : ServerContext)

/-- `text.includes(part)`. -/
def includes (part : Text) : Text → Bool
  | [] => part.isEmpty
  | unit :: rest => part.isPrefixOf (unit :: rest) || includes part rest

/-- The member of a value that is an object. -/
def member (value : Json) (key : Text) : Option Json :=
  (plainObject value).bind fun members => lookup members key

/-- Whether a line calls a tool to wait. -/
def waitCall (line : Text) : Bool :=
  includes (lit "\"wait\"") line && match parse line with
    | none => false
    | some message =>
      (match member message (lit "method") with
        | some (.string method) => method == lit "tools/call"
        | _ => false)
      && (((member message (lit "params")).bind fun params => member params (lit "arguments")).bind
        fun arguments => member arguments (lit "wait")).isSome

def Frame.waits : Frame → Bool
  | .line text => waitCall parse text
  | .oversized => false

/-- What is done about a frame before anything is awaited. -/
inductive Handling
  | silent
  | answer (response : JsonRpcResponse)
  | call (call : ToolCall)

/-- `processLine`, up to what it awaits; the refusal of a frame that is too long. -/
def Frame.handling : Frame → Handling
  | .oversized => .answer (invalidRequest .null)
  | .line text =>
    match parse text with
    | none => .answer parseError
    | some message =>
      match handleMessage context message (isNotification message) with
      | .answer response => if isNotification message then .silent else .answer response
      | .call call => .call call

end

/-- What serving a frame awaits. -/
inductive Stage
  | calling (id : JsonRpcId) (notification : Bool)
  | writing
  | finished

structure Job where
  frame : Frame
  stage : Stage

def Job.isOver (job : Job) : Bool :=
  match job.stage with
  | .finished => true
  | _ => false

/-- `writeResponse` does not wait any longer when it is aborted. -/
def Job.cut (job : Job) : Job :=
  match job.stage with
  | .writing => { job with stage := .finished }
  | _ => job

/-- What can be seen of the server: the frames that it takes up, its calls of tools and what they
come to, and what it writes. -/
inductive Observed
  | starts (job : Nat) (frame : Frame)
  | calls (job : Nat) (call : ToolCall)
  | settles (job : Nat) (outcome : Option JsonRpcResponse)
  | writes (job : Nat) (response : JsonRpcResponse)
  | written (job : Nat) (accepted : Bool)
  | aborted

/-- The frame that an entry is about. -/
def Observed.job : Observed → Option Nat
  | .starts job _ | .calls job _ | .settles job _ | .writes job _ | .written job _ => some job
  | .aborted => none

/-- Where `runMcpServer` stands. -/
inductive Phase
  /-- It goes through the lines of a chunk. -/
  | taking (queue : List Frame)
  /-- It awaits the next chunk. -/
  | reading
  /-- It awaits a frame; the others of the chunk come after it. -/
  | serving (job : Nat) (queue : List Frame)
  /-- It awaits the last frame. -/
  | closing (job : Nat)
  /-- It awaits the calls in flight. -/
  | draining
  /-- The server has returned. -/
  | returned
  /-- It has failed. -/
  | threw
deriving DecidableEq

/-- The server, with the chunks that it has read. -/
structure Server where
  reader : Reader
  phase : Phase
  aborted : Bool
  failed : Bool
  jobs : List Job
  received : List (List UInt8)
  log : List Observed

namespace Server

def start : Server := ⟨.start, .reading, false, false, [], [], []⟩

section

variable (parse : Text → Option Json) (context : ServerContext) (server : Server)

def observe (what : Observed) : Server := { server with log := server.log ++ [what] }

/-- A frame goes on to what it awaits next. -/
def await (job : Nat) (frame : Frame) (stage : Stage) : Server :=
  { server with jobs := server.jobs.set job ⟨frame, stage⟩ }

/-- A frame is taken up; `whats` is what is done about it at once. -/
def launch (frame : Frame) (stage : Stage) (whats : List Observed) : Server :=
  { server with
    jobs := server.jobs ++ [⟨frame, stage⟩]
    log := server.log ++ Observed.starts server.jobs.length frame :: whats }

def begin (frame : Frame) : Server :=
  match frame.handling parse context with
  | .silent => server.launch frame .finished []
  | .answer response => server.launch frame .writing [.writes server.jobs.length response]
  | .call call => server.launch frame (.calling call.id call.notification)
    [.calls server.jobs.length call]

/-- Whether the loop goes on at once after a frame is taken up. -/
def passes (frame : Frame) : Bool :=
  frame.waits parse || match frame.handling parse context with
    | .silent => true
    | _ => false

/-- The loop over the lines that are buffered. -/
def take (server : Server) : List Frame → Server
  | [] => { server with phase := .reading }
  | frame :: rest =>
    let begun := server.begin parse context frame
    if passes parse context frame then take { begun with phase := .taking rest } rest
    else { begun with phase := .serving server.jobs.length rest }

/-- `await Promise.all(inFlight)`. -/
def drain : Server :=
  if server.jobs.all Job.isOver
    then { server with phase := if server.failed then .threw else .returned }
  else { server with phase := .draining }

def isOver (job : Nat) : Bool := (server.jobs[job]?).all Job.isOver

/-- The loop goes on when what it awaits is over. -/
def resume : Server :=
  match server.phase with
  -- The read loop sees the abort when it goes on.
  | .reading => if server.aborted then { server with phase := .returned } else server
  | .serving job queue =>
    if server.isOver job then
      if server.aborted then { server with phase := .returned }
        else { server with phase := .taking queue }.take parse context queue
    else server
  -- The last frame is over, so only the calls in flight are left.
  | .closing job => if server.isOver job then server.drain else server
  | .draining => server.drain
  | _ => server

/-- `callTool` after the call: a tool that throws is reported as such. -/
def reply (id : JsonRpcId) (outcome : Option JsonRpcResponse) : JsonRpcResponse :=
  outcome.getD (success id (toolError (lit "internal_error")))

/-- A tool answers, or throws. -/
def toolSettles (job : Nat) (outcome : Option JsonRpcResponse) : Server :=
  match server.jobs[job]? with
  | some ⟨frame, .calling id notification⟩ =>
    let told := server.observe (.settles job outcome)
    if notification || server.aborted then (told.await job frame .finished).resume parse context
    else (told.await job frame .writing).observe (.writes job (reply id outcome))
  | _ => server

/-- The write of a response is done, or fails. Only the loop fails with it at once, when it awaits
the write. -/
def writeSettles (job : Nat) (accepted : Bool) : Server :=
  match server.jobs[job]? with
  | some ⟨frame, .writing⟩ =>
    let told := (server.observe (.written job accepted)).await job frame .finished
    -- A write that is done lets the loop go on.
    if accepted then told.resume parse context
    else
      -- A write that fails ends the loop that awaits it, and is kept for the end otherwise.
      match server.phase with
      | .serving awaited _ | .closing awaited =>
        if awaited = job then { told with phase := .threw } else { told with failed := true }
      | _ => { told with failed := true }.resume parse context
  | _ => server

def abort : Server :=
  if server.aborted then server
  else { server with aborted := true, jobs := server.jobs.map Job.cut }.observe .aborted |>.resume
    parse context

/-- The next chunk comes. -/
def read (chunk : List UInt8) : Server :=
  match server.phase with
  | .reading =>
    let (queue, reader) := server.reader.read chunk
    { server with reader, received := server.received ++ [chunk], phase := .taking queue }.take
      parse context queue
  | _ => server

/-- The input ends. -/
def finish : Server :=
  match server.phase with
  | .reading =>
    match server.reader.finish with
    | none => server.drain
    | some frame =>
      { server.begin parse context frame with phase := .closing server.jobs.length }.resume parse
        context
  | _ => server

end

/-- What happens to the server. -/
inductive Event
  | chunk (bytes : List UInt8)
  | ends
  /-- Reading the input fails. -/
  | breaks
  | toolSettles (job : Nat) (outcome : Option JsonRpcResponse)
  | writeSettles (job : Nat) (accepted : Bool)
  | abort

def step (parse : Text → Option Json) (context : ServerContext) (server : Server) : Event → Server
  | .chunk bytes => server.read parse context bytes
  | .ends => server.finish parse context
  | .breaks =>
    -- Only an open read can fail.
    match server.phase with
    | .reading => { server with phase := .threw }
    | _ => server
  | .toolSettles job outcome => server.toolSettles parse context job outcome
  | .writeSettles job accepted => server.writeSettles parse context job accepted
  | .abort => server.abort parse context

/-- The server after a list of events. -/
def after (parse : Text → Option Json) (context : ServerContext) (events : List Event) : Server :=
  events.foldl (step parse context) start

end Server

end Khala.Mcp
