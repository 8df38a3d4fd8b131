import Khala.Js.JsonBytes
import Khala.Js.JsonLines
import Khala.Js.Native
import Khala.Mcp.Served

/-! A client of the tool server: the frames of the messages that it writes, and whose answer each
response is. -/

namespace Khala.Mcp

open Js Framing Concurrent Decode

/-! ## Messages on lines -/

/-- The text of an object starts with its brace, so the line is not blank; and it does not end with
a return. -/
theorem frameOf_message {members : Members}
    (fits : utf8Length (stringify (.object members)) ≤ maxFrameBytes) :
    frameOf (.line (stringify (.object members))) = [.line (stringify (.object members))] := by
  -- The text begins with a brace and holds no control characters, so neither end is trimmed away.
  have printed := printed_stringify (.object members)
  have whole : dropReturn (stringify (.object members)) = stringify (.object members) := by
    refine if_neg fun last => ?_
    have := printed cr (List.mem_of_getLast? last)
    exact absurd this (by decide)
  have text : ∃ rest, stringify (.object members) = 123 :: rest := ⟨_, rfl⟩
  obtain ⟨rest, text⟩ := text
  have shown : (trim (stringify (.object members))).isEmpty = false := by
    rw [text, trim]
    have first : (123 :: rest).dropWhile isWhite = 123 :: rest :=
      List.dropWhile_cons_of_neg (by decide)
    rw [first, List.reverse_cons]
    -- The brace is kept at the other end as well.
    have kept : ∀ before : Text, (before ++ [123]).dropWhile isWhite ≠ [] := by
      intro before
      induction before with
      | nil => decide
      | cons unit before ih =>
        rw [List.cons_append, List.dropWhile_cons]
        split
        · exact ih
        · simp
    cases cut : (rest.reverse ++ [123]).dropWhile isWhite with
    | nil => exact absurd cut (kept _)
    | cons unit more => simp
  rw [frameOf, whole, if_neg (Nat.not_lt.mpr fits), shown, if_neg Bool.false_ne_true]

/-- What a client writes: each message on a line of its own. -/
def written (messages : List Members) : Text :=
  messages.flatMap fun members => stringify (.object members) ++ [lf]

/-- What a client writes is paired. -/
theorem paired_written (messages : List Members) : Paired (written messages) := by
  -- Every text is paired, and the newline stands between no pair.
  induction messages with
  | nil => exact .nil
  | cons members rest ih =>
    exact ((paired_stringify (.object members)).append (.unit (by decide) .nil)).append ih

/-- The messages that a client writes are the frames that the server takes up, however they are cut
into chunks. -/
theorem frames_of_messages {messages : List Members} {chunks : List (List UInt8)}
    (sent : chunks.flatten = encodeUtf8 (written messages))
    (fits : ∀ members ∈ messages, utf8Length (stringify (.object members)) ≤ maxFrameBytes) :
    framesOf chunks = messages.map fun members => .line (stringify (.object members)) := by
  -- No message holds a newline, so the lines of the decoded input are the messages.
  obtain ⟨ofLines, framed, read⟩ := framesOf_lines chunks
  rw [sent, run_encodeUtf8 (paired_written messages)] at framed read
  have open_ : ∀ part ∈ messages.map fun members => stringify (.object members), lf ∉ part := by
    intro part inside ends
    obtain ⟨members, -, rfl⟩ := List.mem_map.mp inside
    exact absurd (printed_stringify _ lf ends) (by decide)
  obtain ⟨lines_, rest⟩ := lines_written open_
  rw [List.flatMap_map] at lines_ rest
  change lines lf (written messages) = _ at lines_
  change unended lf (written messages) = _ at rest
  rw [lines_] at framed
  rw [rest] at read
  rw [read]
  -- Each line becomes its message, and nothing follows the last.
  have each : ofLines.flatten = messages.map fun members =>
    .line (stringify (.object members)) := by
    clear read rest lines_ open_ sent
    induction messages generalizing ofLines with
    | nil =>
      cases framed
      rfl
    | cons members more ih =>
      rw [List.map_cons] at framed
      cases framed with
      | cons first others =>
        obtain ⟨own, rest⟩ := List.forall_mem_cons.mp fits
        have first := first.resolve_right fun cut =>
          Nat.lt_irrefl _ (Nat.lt_of_lt_of_le cut.1.2 own)
        rw [List.flatten_cons, first, frameOf_message own, ih rest _ others, List.map_cons]
        rfl
  rw [each]
  simp [lastFrame, Utf8State.flush, Utf8State.start, trim]

/-! ## Whose answer a response is -/

section

variable (parse : Text → Option Json)

/-- The identifier of the request in a frame. -/
def Frame.id : Frame → JsonRpcId
  | .oversized => .null
  | .line text =>
    match parse text with
    | none => .null
    | some message => requestId message

/-- Whether nobody waits for an answer to a frame. -/
def Frame.isNotification : Frame → Bool
  | .oversized => false
  | .line text => (parse text).any Khala.Mcp.isNotification

/-- What a message comes to is about the request with an identifier. -/
def Handled.About (id : JsonRpcId) (notification : Bool) : Handled → Prop
  | .answer given => given.id = id
  | .call made => made.id = id ∧ made.notification = notification

variable {parse} {context : ServerContext}

/-- The response of a call is about the call. -/
theorem callTool_id (id : JsonRpcId) (params : Option Json) (metadata : Option Members)
    (notification : Bool) :
    (callTool context id params metadata notification).About id notification := by
  -- The refusals and the call all take over the identifier that they are given.
  unfold callTool
  split
  · exact rfl
  · split
    · split
      · split
        · exact rfl
        · exact ⟨rfl, rfl⟩
      · exact rfl
    · exact rfl

variable (context) in
/-- Whatever a message comes to, it is about the request that the message is. -/
theorem handleMessage_id (message : Json) (notification : Bool) :
    (handleMessage context message notification).About (requestId message) notification := by
  -- Every branch answers under the message's own identifier.
  unfold handleMessage
  split
  · exact rfl
  · rename_i members plain
    split
    · exact rfl
    · dsimp only
      split
      · -- An identifier that is none is answered with none.
        rename_i invalid
        have none_ : (lookup members (lit "id")).bind validId = none := by
          obtain ⟨given, is, wrong⟩ := (Option.any_eq_true _ _).mp invalid
          rw [is, Option.bind_some]
          simpa using wrong
        simp [Handled.About, invalidRequest, failure, requestId, plain, none_]
      · split
        · exact rfl
        · split
          · split <;> exact rfl
          · split
            · split <;> exact rfl
            · split
              · split <;> exact rfl
              · split
                · exact callTool_id ..
                · exact rfl

variable (parse context) in
/-- What is done about a frame is about its request. -/
theorem handling_id (frame : Frame) : match frame.handling parse context with
    | .silent => frame.isNotification parse = true
    | .answer response => response.id = frame.id parse ∧ frame.isNotification parse = false
    | .call call => call.id = frame.id parse ∧ call.notification = frame.isNotification parse := by
  -- Only a line that parses is a request with an identifier.
  cases frame with
  | oversized => exact ⟨rfl, rfl⟩
  | line text =>
    cases parsed : parse text with
    | none => simp [Frame.handling, Frame.id, Frame.isNotification, parsed, parseError, failure]
    | some message =>
      have about := handleMessage_id context message (isNotification message)
      cases handled : handleMessage context message (isNotification message) with
      | answer response =>
        rw [handled] at about
        cases silent : isNotification message with
        | true =>
          rw [silent] at handled
          simp [Frame.handling, Frame.isNotification, parsed, handled, silent]
        | false =>
          rw [silent] at handled
          simp only [Frame.handling, Frame.isNotification, Frame.id, parsed, handled, silent,
            Bool.false_eq_true, if_false,
            Option.any_some, and_true]
          exact about
      | call call =>
        rw [handled] at about
        simp only [Frame.handling, Frame.isNotification, Frame.id, parsed, handled, Option.any_some]
        exact about

namespace Server

/-- A response that is written follows the start of its frame, and its tool's answer if a tool was
called. -/
def Named (parse : Text → Option Json) (context : ServerContext) (log : List Observed) : Prop :=
  ∀ job response, .writes job response ∈ log → ∃ frame whats,
    Replies parse context job frame whats response
    ∧ ∀ what ∈ whats, what ∈ log

/-- Each response names the request of its frame. -/
theorem Courses.named {server : Server} (courses : server.Courses parse context) :
    Named parse context server.log := by
  -- What is written for a job stands in the course of that job, behind what it replies to.
  intro job response inside
  have small := courses.known _ inside job rfl
  obtain ⟨⟨frame, stage⟩, there⟩ : ∃ found, server.jobs[job]? = some found :=
    ⟨_, List.getElem?_eq_getElem small⟩
  have course := courses.course job _ there
  have mine : .writes job response ∈ own job server.log :=
    List.mem_filter.mpr ⟨inside, by simp [Observed.job]⟩
  have log : ∀ what ∈ own job server.log, what ∈ server.log := fun what inside =>
    List.mem_of_mem_filter inside
  have unwritten : ∀ {whats response'}, Replies parse context job frame whats response' →
    .writes job response ∉ whats := by
    intro whats response' replies
    cases replies with
    | answer is => simp
    | call is loud outcome => simp
  revert mine log course
  generalize own job server.log = mine
  intro course inside log
  cases course with
  | silent is => simp at inside
  | calling is => simp at inside
  | quiet is quiet outcome => simp at inside
  | @writing whats response' replies =>
    obtain rfl : response = response' := by simpa [unwritten replies] using inside
    exact ⟨_, whats, replies, fun what there => log what (List.mem_append_left _ there)⟩
  | @written whats response' replies accepted =>
    obtain rfl : response = response' := by simpa [unwritten replies] using inside
    exact ⟨_, whats, replies, fun what there => log what (List.mem_append_left _ there)⟩
  | @cut whats response' replies cut =>
    obtain rfl : response = response' := by simpa [unwritten replies] using inside
    exact ⟨_, whats, replies, fun what there => log what (List.mem_append_left _ there)⟩

end Server

/-- Every response that is written carries the identifier of the request in its frame, and answers
no notification, if tools answer under the identifiers that they are called with. -/
theorem answers_named (events : List Server.Event)
    (honest : ∀ job call response, .calls job call ∈ (Server.after parse context events).log →
      .settles job (some response) ∈ (Server.after parse context events).log →
      response.id = call.id) :
    ∀ job response, .writes job response ∈ (Server.after parse context events).log → ∃ frame,
      .starts job frame ∈ (Server.after parse context events).log ∧ response.id = frame.id parse
        ∧ frame.isNotification parse = false := by
  -- A response without a tool has the identifier of its frame, and a tool's answer that of its
  -- call.
  intro job response inside
  have sound := (Server.sound_after parse context events).1
  obtain ⟨frame, whats, replies, log⟩ := sound.courses.named job response inside
  have about := handling_id parse context frame
  cases replies with
  | answer is =>
    rw [is] at about
    exact ⟨frame, log _ (by simp), about.1, about.2⟩
  | @call call is loud outcome =>
    rw [is] at about
    refine ⟨frame, log _ (by simp), ?_, about.2.symm.trans loud⟩
    rw [← about.1]
    cases outcome with
    | none => rfl
    | some given => exact honest job call given (log _ (by simp)) (log _ (by simp))

def Observed.response : Observed → Option JsonRpcResponse
  | .writes _ response => some response
  | _ => none

/-- The responses that are written to the request in a frame. -/
def responses (job : Nat) (log : List Observed) : List JsonRpcResponse :=
  (own job log).filterMap Observed.response

/-- The server answers what is written to it: when it has returned, each message that is a request
has been answered once, under its own identifier, and no notification has been answered. -/
theorem messages_answered (events : List Server.Event) {messages : List Members}
    (returned : (Server.after parse context events).phase = .returned)
    (unaborted : (Server.after parse context events).aborted = false)
    (sent : (Server.after parse context events).received.flatten = encodeUtf8 (written messages))
    (fits : ∀ members ∈ messages, utf8Length (stringify (.object members)) ≤ maxFrameBytes)
    (parses : ∀ members ∈ messages, parse (stringify (.object members)) = some (.object members))
    (honest : ∀ job call response, .calls job call ∈ (Server.after parse context events).log →
      .settles job (some response) ∈ (Server.after parse context events).log →
      response.id = call.id) :
    ∀ job members, messages[job]? = some members →
      if isNotification (.object members)
        then responses job (Server.after parse context events).log = []
      else ∃ response, responses job (Server.after parse context events).log = [response]
        ∧ response.id = requestId (.object members) := by
  -- The frames are the messages, and each of them was served by its whole exchange.
  intro job members there
  have inside := List.mem_of_getElem? there
  obtain ⟨-, served⟩ := (Server.sound_after parse context events).1.served returned unaborted
  have frames : (Server.after parse context events).allFrames = messages.map fun members =>
    .line (stringify (.object members)) :=
    frames_of_messages sent fits
  obtain ⟨outcome, whole⟩ :=
    served job (.line (stringify (.object members))) (by rw [frames, List.getElem?_map, there]; rfl)
  have notified : Frame.isNotification parse (.line (stringify (.object members))) = isNotification
    (.object members) := by
    rw [Frame.isNotification, parses members inside, Option.any_some]
  have identified :
    Frame.id parse (.line (stringify (.object members))) = requestId (.object members) := by
    rw [Frame.id, parses members inside]
  -- Whether a message is answered is decided by what it is, and the answer is all that is written.
  have about := handling_id parse context (.line (stringify (.object members)))
  have logged : ∀ what ∈ exchange parse context job (.line (stringify (.object members))) outcome,
      what ∈ (Server.after parse context events).log := fun what inside =>
        List.mem_of_mem_filter (whole ▸ inside)
  rw [responses, whole]
  rw [exchange] at logged ⊢
  cases handled : (Frame.line (stringify (.object members))).handling parse context with
  | silent =>
    rw [handled] at about
    rw [if_pos (notified.symm.trans about)]
    rfl
  | answer response =>
    rw [handled] at about
    rw [if_neg (by simp [← notified, about.2])]
    exact ⟨response, rfl, about.1.trans identified⟩
  | call call =>
    rw [handled] at about logged
    rw [← notified, ← about.2]
    cases quiet : call.notification with
    | true =>
      dsimp only
      rw [quiet]
      rfl
    | false =>
      refine ⟨Server.reply call.id outcome, by dsimp only; rw [quiet]; rfl, ?_⟩
      rw [← identified, ← about.1]
      cases outcome with
      | none => rfl
      | some given => exact honest job call given (logged _ (by simp)) (logged _ (by simp))

end

/-! ## A run -/

/-- A request. -/
def ping : Members :=
  [(lit "jsonrpc", .string jsonRpcVersion), (lit "id", .string (lit "a")),
    (lit "method", .string (lit "ping"))]

/-- A notification. -/
def initialized : Members :=
  [(lit "jsonrpc", .string jsonRpcVersion),
    (lit "method", .string (lit "notifications/initialized"))]

/-- A request that calls a tool. -/
def sends : Members :=
  [(lit "jsonrpc", .string jsonRpcVersion), (lit "id", .string (lit "b")),
    (lit "method", .string (lit "tools/call")),
    (lit "params", .object [(lit "name", .string (lit "send")), (lit "arguments", .object [])])]

def sendTool : McpTool := ⟨lit "send", .object []⟩

/-- A server with that tool. -/
def oneTool : ServerContext :=
  ⟨⟨[sendTool], fun tool inside => List.mem_singleton.mp inside ▸ (by decide),
    List.nodup_singleton _⟩, .null⟩

/-- The three messages come in two chunks, the tool answers, and the input ends. -/
def conversed : List Server.Event :=
  [.chunk ((encodeUtf8 (written [initialized, ping, sends])).take 80),
    .chunk ((encodeUtf8 (written [initialized, ping, sends])).drop 80), .writeSettles 1 true,
    .toolSettles 2 (some (success (.string (lit "b")) (.bool true))), .writeSettles 2 true, .ends]

/-- The server at the end of the run. -/
def conversation : Server := Server.after parsePrinted oneTool conversed

/-- Whether an identifier is that of the call. -/
private def isCall : JsonRpcId → Bool
  | .string value => value == lit "b"
  | _ => false

/-- Such an identifier is that of the call. -/
private theorem eq_of_isCall {id : JsonRpcId} (is : isCall id = true) : id = .string (lit "b") := by
  cases id with
  | string value => rw [eq_of_beq (show (value == lit "b") = true from is)]
  | number value => cases is
  | null => cases is

/-- Whether what is observed names no other identifier, as far as it is about a call. -/
private def namesCall : Observed → Bool
  | .calls _ call => isCall call.id
  | .settles _ (some response) => isCall response.id
  | _ => true

/-- Whether what is observed is the call of the tool. -/
private def isCalled : Observed → Bool
  | .calls 2 _ => true
  | _ => false

/-- Whether what is observed is the response to that call. -/
private def isWritten : Observed → Bool
  | .writes 2 _ => true
  | _ => false

/-- The server returns without having been aborted. It has received the three messages, has named
nobody but the caller, has called the tool and has written its response. -/
private theorem conversation_ran :
    conversation.phase = .returned ∧ conversation.aborted = false
      ∧ conversation.received.flatten = encodeUtf8 (written [initialized, ping, sends])
      ∧ conversation.allFrames = [initialized, ping, sends].map (fun members =>
        .line (stringify (.object members)))
      ∧ conversation.log.all namesCall = true
      ∧ conversation.log.any isCalled = true ∧ conversation.log.any isWritten = true := by
  decide +kernel

/-- Nothing is written about the notification, and the request and the call have their whole
exchanges. -/
theorem served_once_conversed :
    (∃ outcome, own 0 conversation.log = exchange parsePrinted oneTool 0
      (.line (stringify (.object initialized))) outcome)
      ∧ (∃ outcome, own 1 conversation.log = exchange parsePrinted oneTool 1
        (.line (stringify (.object ping))) outcome)
      ∧ ∃ outcome, own 2 conversation.log = exchange parsePrinted oneTool 2
        (.line (stringify (.object sends))) outcome := by
  obtain ⟨returned, unaborted, -, frames, -⟩ := conversation_ran
  obtain ⟨-, served⟩ := served_once conversed returned unaborted
  have there : ∀ (job : Nat) (members : Members), [initialized, ping, sends][job]? = some members →
      conversation.allFrames[job]? = some (.line (stringify (.object members))) := by
    intro job members is
    rw [frames, List.getElem?_map, is]
    rfl
  exact ⟨served 0 _ (there 0 initialized rfl), served 1 _ (there 1 ping rfl),
    served 2 _ (there 2 sends rfl)⟩

/-- The tool answers under the identifier that it was called with. -/
private theorem conversation_honest (job : Nat) (call : ToolCall) (response : JsonRpcResponse)
    (calls : .calls job call ∈ conversation.log)
    (settles : .settles job (some response) ∈ conversation.log) :
    response.id = call.id := by
  obtain ⟨-, -, -, -, all, -⟩ := conversation_ran
  have called := List.all_eq_true.mp all _ calls
  have settled := List.all_eq_true.mp all _ settles
  rw [eq_of_isCall called, eq_of_isCall settled]

/-- The tool is called, and its response is written. -/
private theorem conversation_calls : (∃ call, .calls 2 call ∈ conversation.log)
    ∧ ∃ response, .writes 2 response ∈ conversation.log := by
  obtain ⟨-, -, -, -, -, called, written⟩ := conversation_ran
  obtain ⟨what, inside, is⟩ := List.any_eq_true.mp called
  obtain ⟨what', inside', is'⟩ := List.any_eq_true.mp written
  constructor
  · -- An event of the call is that of the third message, as the check reads it.
    unfold isCalled at is
    split at is
    · exact ⟨_, inside⟩
    · cases is
  · unfold isWritten at is'
    split at is'
    · exact ⟨_, inside'⟩
    · cases is'

/-- The response that is written about the call names it. -/
theorem answers_named_conversed : ∃ call response frame, .calls 2 call ∈ conversation.log
    ∧ .writes 2 response ∈ conversation.log ∧ .starts 2 frame ∈ conversation.log
    ∧ response.id = frame.id parsePrinted ∧ frame.isNotification parsePrinted = false := by
  obtain ⟨⟨call, calls⟩, response, writes⟩ := conversation_calls
  obtain ⟨frame, named⟩ := answers_named conversed conversation_honest 2 response writes
  exact ⟨call, response, frame, calls, writes, named⟩

/-- Of the three messages the two requests are answered, and the notification is not. -/
theorem messages_answered_conversed : responses 0 conversation.log = []
    ∧ (∃ response, responses 1 conversation.log = [response]
      ∧ response.id = requestId (.object ping))
    ∧ ∃ response, responses 2 conversation.log = [response]
    ∧ response.id = requestId (.object sends) := by
  obtain ⟨returned, unaborted, received, -⟩ := conversation_ran
  have answered :=
    @messages_answered parsePrinted oneTool conversed [initialized, ping,
      sends] returned unaborted received
    (by decide +kernel) (fun members _ => parsePrinted_stringify _) conversation_honest
  exact ⟨answered 0 initialized rfl, answered 1 ping rfl, answered 2 sends rfl⟩

end Khala.Mcp
