import Khala.Js.Members

/-! The messages of the tool server: what it answers to a request, and which tool a request calls.
-/

namespace Khala.Mcp

open Js

abbrev Members := List (Text × Json)

def jsonRpcVersion : Text := lit "2.0"

def mcpProtocolVersion : Text := lit "2025-03-26"

inductive JsonRpcId
  | string (value : Text)
  | number (value : Number)
  | null

/-- The value of a response: what a request has come to, or why it has not. -/
inductive Answer
  | result (value : Json)
  | error (code : Number) (message : Text)

structure JsonRpcResponse where
  id : JsonRpcId
  answer : Answer

def success (id : JsonRpcId) (result : Json) : JsonRpcResponse := ⟨id, .result result⟩

def failure (id : JsonRpcId) (code : Number) (message : Text) : JsonRpcResponse :=
  ⟨id, .error code message⟩

/-- The error codes of the protocol. -/
def parseErrorCode : Number := ⟨lit "-32700", by decide⟩
def invalidRequestCode : Number := ⟨lit "-32600", by decide⟩
def methodNotFoundCode : Number := ⟨lit "-32601", by decide⟩
def invalidParamsCode : Number := ⟨lit "-32602", by decide⟩

def parseError : JsonRpcResponse := failure .null parseErrorCode (lit "Parse error")

def invalidRequest (id : JsonRpcId) : JsonRpcResponse :=
  failure id invalidRequestCode (lit "Invalid Request")

def invalidParams (id : JsonRpcId) : JsonRpcResponse :=
  failure id invalidParamsCode (lit "Invalid params")

/-- `{ content, structuredContent, isError: true }` of an error without more to say. -/
def toolError (code : Text) : Json :=
  let error := Json.object [(lit "error", .string code)]
  .object [(lit "content",
    .array [.object [(lit "type", .string (lit "text")), (lit "text", .string (stringify error))]]),
    (lit "structuredContent", error), (lit "isError", .bool true)]

/-- The line of a response. -/
def responseJson (response : JsonRpcResponse) : Json :=
  let id := match response.id with
    | .string value => .string value
    | .number value => .number value
    | .null => .null
  .object [(lit "jsonrpc", .string jsonRpcVersion), (lit "id", id), match response.answer with
    | .result value => (lit "result", value)
    | .error code message =>
      (lit "error", .object [(lit "code", .number code), (lit "message", .string message)])]

def plainObject : Json → Option Members
  | .object members => some members
  | _ => none

def hasOnly (members : Members) (allowed : List Text) : Bool :=
  members.all fun member => allowed.contains member.1

/-! ## Tools -/

structure McpTool where
  name : Text
  definition : Json

/-- `/^[a-z][a-z0-9_]*$/`. -/
def isToolName : Text → Bool
  | [] => false
  | first :: rest => (97 ≤ first && first ≤ 122)
    && rest.all fun unit => (97 ≤ unit && unit ≤ 122) || (48 ≤ unit && unit ≤ 57) || unit == 95

inductive ToolRegistryError
  | invalidName (toolName : Text)
  | duplicateTool (toolName : Text)

/-- Tools in the order of their registration, each under a name of its own. -/
structure ToolRegistry where
  tools : List McpTool
  named : ∀ tool ∈ tools, isToolName tool.name = true
  distinct : (tools.map (·.name)).Nodup

namespace ToolRegistry

def empty : ToolRegistry := ⟨[], by simp, by simp⟩

/-- `byName.get(name)`. -/
def get (registry : ToolRegistry) (name : Text) : Option McpTool :=
  registry.tools.find? fun tool => tool.name == name

/-- One turn of the loop over the tools given. -/
def add (registry : ToolRegistry) (tool : McpTool) : Except ToolRegistryError ToolRegistry :=
  if named : isToolName tool.name = true then
    if fresh : tool.name ∉ registry.tools.map (·.name) then
      .ok {
        tools := registry.tools ++ [tool]
        -- The new tool has a valid name that no other tool has.
        named := by
          intro other inside
          rcases List.mem_append.mp inside with earlier | last
          · exact registry.named other earlier
          · exact List.mem_singleton.mp last ▸ named
        distinct := by
          rw [List.map_append, List.map_singleton]
          exact List.nodup_append.mpr ⟨registry.distinct, List.nodup_singleton _, by
            intro one inside two last same
            exact fresh (List.mem_singleton.mp last ▸ same ▸ inside)⟩ }
    else .error (.duplicateTool tool.name)
  else .error (.invalidName tool.name)

/-- Names from before they lost their prefix still resolve. -/
def resolve (registry : ToolRegistry) (name : Text) : Option McpTool :=
  match registry.get name with
  | some tool => some tool
  | none => if (lit "khala_").isPrefixOf name then registry.get (name.drop (lit "khala_").length)
    else none

def definitions (registry : ToolRegistry) : Json := .array (registry.tools.map (·.definition))

end ToolRegistry

def createToolRegistry (tools : List McpTool) : Except ToolRegistryError ToolRegistry :=
  tools.foldlM ToolRegistry.add .empty

structure ServerContext where
  tools : ToolRegistry
  serverInfo : Json

/-- What a tool is called with. -/
structure ToolCall where
  tool : McpTool
  arguments : Members
  id : JsonRpcId
  notification : Bool
  metadata : Option Members

/-! ## Requests -/

/-- The identifier that a value is, if it is one. -/
def validId : Json → Option JsonRpcId
  | .null => some .null
  | .string value => some (.string value)
  | .number value => some (.number value)
  | _ => none

def requestId (message : Json) : JsonRpcId :=
  match plainObject message with
  | none => .null
  | some members => ((lookup members (lit "id")).bind validId).getD .null

/-- The parameters without `_meta`, and the metadata; nothing where the metadata are no object. -/
def splitMeta (params : Option Json) : Option (Option Json × Option Members) :=
  match params.bind plainObject with
  | none => some (params, none)
  | some members =>
    match lookup members (lit "_meta") with
    | none => some (params, none)
    | some metadata =>
      (plainObject metadata).map fun given =>
        (some (.object (members.filter fun member => member.1 ≠ lit "_meta")), some given)

def emptyParams : Option Json → Bool
  | none => true
  | some params => (plainObject params).any List.isEmpty

def validInitializeParams : Option Json → Bool
  | none => true
  | some params =>
    match plainObject params with
    | none => false
    | some members =>
      -- Each member may be left out, and has a type of its own.
      hasOnly members [lit "protocolVersion", lit "capabilities", lit "clientInfo"]
        && (match lookup members (lit "protocolVersion") with
          | none => true
          | some (.string _) => true
          | some _ => false)
        && ((lookup members (lit "capabilities")).all fun value => (plainObject value).isSome)
        && (lookup members (lit "clientInfo")).all fun value => (plainObject value).isSome

/-- What a message comes to: a response, or the call of a tool. -/
inductive Handled
  | answer (response : JsonRpcResponse)
  | call (call : ToolCall)

section

variable (context : ServerContext)

def callTool (id : JsonRpcId) (params : Option Json) (metadata : Option Members)
    (notification : Bool) : Handled :=
  match params.bind plainObject with
  | none => .answer (invalidParams id)
  | some members =>
    -- No other member may stand there.
    if hasOnly members [lit "name", lit "arguments"] then
      match lookup members (lit "name"), (lookup members (lit "arguments")).bind plainObject with
      | some (.string name), some arguments =>
        match context.tools.resolve name with
        -- A tool that is not there is no valid parameter.
        | none => .answer (invalidParams id)
        | some tool => .call ⟨tool, arguments, id, notification, metadata⟩
      | _, _ => .answer (invalidParams id)
    else .answer (invalidParams id)

/-- The method of a message that is a request, or nothing. -/
def requestMethod (members : Members) : Option Text :=
  if hasOnly members [lit "jsonrpc", lit "id", lit "method", lit "params"] then
    match lookup members (lit "jsonrpc"), lookup members (lit "method") with
    | some (.string version), some (.string method) => if version = jsonRpcVersion
      then some method else none
    | _, _ => none
  else none

def handleMessage (message : Json) (notification : Bool) : Handled :=
  match plainObject message with
  | none => .answer (invalidRequest (requestId message))
  | some members =>
    match requestMethod members with
    | none => .answer (invalidRequest (requestId message))
    | some method =>
      let id := requestId message
      -- An identifier that is none is not repeated.
      if (lookup members (lit "id")).any fun given =>
        (validId given).isNone then .answer (invalidRequest .null)
      else
        match splitMeta (lookup members (lit "params")) with
        | none => .answer (invalidParams id)
        | some (params, metadata) =>
          -- The four methods are answered in the order of the source.
          if method = lit "initialize" then
            .answer <| if validInitializeParams params then
              success id (.object [(lit "protocolVersion", .string mcpProtocolVersion),
                (lit "capabilities",
                  .object [(lit "tools", .object [(lit "listChanged", .bool false)])]),
                (lit "serverInfo", context.serverInfo)])
            else invalidParams id
          else if method = lit "ping" then
            .answer <| if emptyParams params then success id (.object []) else invalidParams id
          else if method = lit "tools/list" then
            .answer <| if emptyParams params then
              success id (.object [(lit "tools", context.tools.definitions)]) else invalidParams id
          -- Only a call of a tool takes its time.
          else if method = lit "tools/call" then callTool context id params metadata notification
          else .answer (failure id methodNotFoundCode (lit "Method not found"))

end

/-- `plainObject(message) && !Object.hasOwn(message, 'id')`. -/
def isNotification (message : Json) : Bool :=
  (plainObject message).any fun members => (lookup members (lit "id")).isNone

end Khala.Mcp
