import Khala.Agent.KeptEvents
import Khala.Agent.LocalLog
import Khala.Js.JsonLines
import Khala.Js.Native

/-! The log as bytes does what the log in lines does, so that what was answered with outlives writes
that fail on the way and restarts. -/

namespace Khala.Local

open Js Decode

/-! ## Lines and their bytes -/

/-- The bytes of complete lines. -/
def logOf (lines : List Json) : List UInt8 :=
  lines.flatMap fun line => jsonBytes line ++ [newlineByte]

/-- A line is the event's JSON and a newline. -/
theorem lineBytes_eq (event : LocalEvent) :
    lineBytes event = jsonBytes event.toJson ++ [newlineByte] := by
  -- Every surrogate in the text is one of a pair, so the newline is encoded apart from it.
  rw [lineBytes, encodeUtf8_append (paired_stringify _)]
  rfl

/-- The bytes of lines one after another are those of the lines. -/
theorem logOf_append (lines more : List Json) : logOf (lines ++ more) = logOf lines ++ logOf more :=
  List.flatMap_append

/-- One more event is one more line of bytes. -/
theorem logOf_concat (lines : List Json) (event : LocalEvent) :
    logOf (lines ++ [event.toJson]) = logOf lines ++ lineBytes event := by
  rw [logOf_append, lineBytes_eq]
  simp [logOf]

/-- The complete bytes of a log are its lines. -/
theorem completeBytes_logOf (lines : List Json) {torn : List UInt8} (open_ : newlineByte ∉ torn) :
    completeBytes (logOf lines ++ torn) = (logOf lines).length := by
  -- Searched from the end, the torn part holds no newline, and the lines end with one.
  have passed : torn.reverse.dropWhile (· ≠ newlineByte) = [] := by
    apply Framing.dropWhile_of_open
    rwa [List.mem_reverse]
  have ends : (logOf lines).reverse.dropWhile (· ≠ newlineByte) = (logOf lines).reverse := by
    rcases List.eq_nil_or_concat lines with rfl | ⟨before, last, rfl⟩
    · rfl
    · rw [List.concat_eq_append, logOf_append]
      simp [logOf]
  rw [completeBytes, List.reverse_append, List.dropWhile_append, passed, List.isEmpty_nil,
    if_pos rfl, ends, List.length_reverse]

/-- The lines of a log are split apart again, and nothing follows them. -/
theorem splitLines_logOf (lines : List Json) :
    splitLines (decodeUtf8 (logOf lines)) = lines.map stringify ++ [[]] := by
  -- No printed text holds a newline, so each line is found whole between two of them.
  have texts : (lines.flatMap fun line => stringify line ++ [newline])
      = (lines.map stringify).flatMap fun text => text ++ [newline] := by rw [List.flatMap_map]
  have open_ : ∀ text ∈ lines.map stringify, newline ∉ text := by
    intro text inside there
    obtain ⟨line, -, rfl⟩ := List.mem_map.mp inside
    exact absurd (printed_stringify line _ there) (by decide)
  obtain ⟨read, nothing⟩ := Framing.lines_written open_
  rw [splitLines, logOf, newlineByte, decodeUtf8_lines]
  change Framing.lines newline (lines.flatMap fun line => stringify line ++ [newline])
    ++ [Framing.unended newline (lines.flatMap fun line => stringify line ++ [newline])] = _
  rw [texts, read, nothing]

/-! ## What the runtime parses -/

/-- `JSON.parse` reads what `JSON.stringify` prints, and nothing from no text; `printed` are the
numbers that are printed. -/
structure Parses (parse : Text → Option Json) (printed : Number → Prop) : Prop where
  blank : parse [] = none
  counts : ∀ n ≤ maxSafeInteger, printed (natNumber n)
  written : ∀ value : Json, value.Native printed → parse (stringify value) = some value

section

variable {printed : Number → Prop} (counts : ∀ n ≤ maxSafeInteger, printed (natNumber n))

/-- The keys of an event's line; `txnId` may be missing. -/
private def lineKeys : List Text :=
  [lit "seq", lit "eventId", lit "roomId", lit "type", lit "sender", lit "ts", lit "txnId",
    lit "content"]

/-- No key of a line is an array index. -/
private theorem words_lineKeys : ∀ key ∈ lineKeys, arrayIndex key = none := by decide +kernel

include counts in
/-- The line of an event holds what the runtime may hold, if its content does. -/
theorem native_toJson {event : LocalEvent} (content : (Json.object event.content).Native printed)
    (seq : event.seq ≤ maxSafeInteger)
    (ts : event.ts ≤ maxSafeInteger) : event.toJson.Native printed := by
  -- With `txnId` or without it, every member is a text, a count or the content.
  have values : ∀ members : Members, (∀ member ∈ members, ∃ s, member.2 = .string s) →
    ∀ member ∈ [(lit "seq", Json.number (natNumber event.seq)),
      (lit "eventId", .string event.eventId), (lit "roomId", .string event.roomId),
        (lit "type", .string event.type.text),
      (lit "sender", .string event.sender), (lit "ts", .number (natNumber event.ts))] ++ members
        ++ [(lit "content", Json.object event.content)],
      member.2.Native printed := by
    intro members texts member inside
    simp only [List.mem_append, List.mem_cons, List.not_mem_nil, or_false] at inside
    rcases inside with ((rfl | rfl | rfl | rfl | rfl | rfl) | inside) | rfl
    · exact counts _ seq
    · trivial
    · trivial
    · trivial
    · trivial
    · exact counts _ ts
    · obtain ⟨s, text⟩ := texts member inside
      rw [text]
      trivial
    · exact content
  cases txnId : event.txnId with
  | none =>
    have is : event.toJson = .object ([(lit "seq", Json.number (natNumber event.seq)),
        (lit "eventId", .string event.eventId), (lit "roomId", .string event.roomId),
          (lit "type", .string event.type.text),
        (lit "sender", .string event.sender), (lit "ts", .number (natNumber event.ts))] ++ []
          ++ [(lit "content", Json.object event.content)]) := by
      rw [LocalEvent.toJson, txnId]
      rfl
    -- The content holds no keys of its own on the line, so the other seven are checked.
    rw [is]
    exact @native_words printed _ (lineKeys.eraseIdx 6) rfl (by decide +kernel)
      (fun key inside => words_lineKeys key (List.mem_of_mem_eraseIdx inside)) (values [] (by simp))
  | some txnId' =>
    have is : event.toJson = .object ([(lit "seq", Json.number (natNumber event.seq)),
        (lit "eventId", .string event.eventId), (lit "roomId", .string event.roomId),
          (lit "type", .string event.type.text),
        (lit "sender", .string event.sender), (lit "ts", .number (natNumber event.ts))]
          ++ [(lit "txnId", Json.string txnId')]
          ++ [(lit "content", Json.object event.content)]) := by
      rw [LocalEvent.toJson, txnId]
      rfl
    rw [is]
    exact @native_words printed _ lineKeys rfl (by decide +kernel) words_lineKeys
      (values [(lit "txnId", .string txnId')] (by simp))

end

/-! ## The log as bytes and in lines -/

variable {ids : Nat → Text} {parse : Text → Option Json}

variable (parse) in
/-- The log is the bytes of the lines, and of a line that was cut off, which the next write cuts
away. -/
structure LogRoom.Represents (bytes : LogRoom) (room : Room) (torn : List UInt8) : Prop where
  log : bytes.log = logOf room.lines ++ torn
  open_ : newlineByte ∉ torn
  cuts : torn = [] ∨ room.channel.validLines ≠ none
  validBytes : bytes.validBytes = room.channel.validLines.map fun kept =>
    (logOf (room.lines.take kept)).length
  channel : bytes.channel = { room.channel with validLines := none }
  drawn : bytes.drawn = room.drawn
  parsed : ∀ line ∈ room.lines, parse (stringify line) = some line

variable {bytes : LogRoom} {room : Room} {torn : List UInt8}

/-- What the next write keeps of the bytes are the lines that it keeps. -/
theorem LogRoom.Represents.truncated (represents : bytes.Represents parse room torn) :
    bytes.truncated = logOf room.keptLines := by
  -- What is torn lies behind all lines, so cutting to some of the lines cuts it off as well.
  rw [LogRoom.truncated, Room.keptLines, represents.validBytes]
  cases valid : room.channel.validLines with
  | none =>
    -- Nothing is cut, and then nothing was torn.
    rw [Option.map_none, represents.log, represents.cuts.resolve_right (by simp [valid]),
      List.append_nil]
  | some kept =>
    have split :
      bytes.log = logOf (room.lines.take kept) ++ (logOf (room.lines.drop kept) ++ torn) := by
      rw [represents.log, ← List.append_assoc, ← logOf_append, List.take_append_drop]
    rw [Option.map_some]
    simp only [truncate]
    rw [split, List.take_left, List.length_append, Nat.sub_eq_zero_of_le (Nat.le_add_right _ _),
      List.replicate_zero, List.append_nil]

/-- Nothing of a line but its last byte ends a line. -/
private theorem open_take {event : LocalEvent} {count : Nat}
    (short : count < (lineBytes event).length) :
    newlineByte ∉ (lineBytes event).take count := by
  -- The newline is the last byte of the line, and less than the line stops before it.
  rw [lineBytes_eq] at short ⊢
  rw [List.length_append, List.length_singleton] at short
  rw [List.take_append_of_le_length (Nat.le_of_lt_succ short)]
  exact fun inside => newline_not_mem_jsonBytes _ (List.mem_of_mem_take inside)

/-- A channel of which all lines are valid says so. -/
private theorem channel_of_none {channel : Channel} (none_ : channel.validLines = none) :
    channel = { channel with validLines := none } := by
  obtain ⟨_, _, _, _, _, _, _, _, _, _, _⟩ := channel
  cases none_
  rfl

/-- Indexing an event does not look at the valid lines. -/
private theorem indexEvent_valid (channel : Channel) (validLines : Option Nat)
    (event : LocalEvent) :
    { channel with validLines }.indexEvent event = { channel.indexEvent event with
      validLines } := by
  unfold Channel.indexEvent
  cases event.type <;> rfl

/-- The lines that are kept are among the lines. -/
private theorem mem_of_mem_keptLines {line : Json} (inside : line ∈ room.keptLines) :
    line ∈ room.lines := by
  unfold Room.keptLines at inside
  cases valid : room.channel.validLines with
  | none =>
    rw [valid] at inside
    exact inside
  | some kept =>
    rw [valid] at inside
    exact List.mem_of_mem_take inside

variable (ids) in
/-- The event that is written next. -/
def Room.next (room : Room) (eventInput : AppendInput) (ts : Nat) : LocalEvent :=
  ⟨room.channel.lastSeq + 1, ids room.drawn, room.channel.roomId, eventInput.type,
    eventInput.sender, ts, eventInput.txnId,
    eventInput.content, none⟩

/-- An event without a place is not written, and its identifier is used up. -/
private theorem writeEvent_none {eventInput : AppendInput} {ts : Nat} (fault : Option WriteFault)
    (placed : room.channel.place (room.next ids eventInput ts) = none) :
    room.writeEvent ids eventInput ts fault
      = (⟨room.lines, room.channel, room.drawn + 1⟩, none) := by
  -- The other branch of the write is taken only where something is placed.
  unfold Channel.place at placed
  unfold Room.writeEvent
  simp only
  split
  · rfl
  · rename_i contents
    exact absurd (placed.symm.trans contents) (by simp)

/-- An event with a place is written, as far as the fault lets it. -/
private theorem writeEvent_some {eventInput : AppendInput} {ts : Nat} (fault : Option WriteFault)
    {inMemory onLine : Members} {harnesses : Map Text Text}
    (placed : room.channel.place (room.next ids eventInput ts) = some (inMemory,
      onLine, harnesses)) :
    room.writeEvent ids eventInput ts fault = match fault with
      | some .harness => (⟨room.lines, room.channel, room.drawn + 1⟩, none)
      | some .truncate => (⟨room.lines, { room.channel with harnesses }, room.drawn + 1⟩, none)
      | some .open_ =>
        (⟨room.keptLines, { room.channel with harnesses, validLines := none }, room.drawn + 1⟩,
          none)
      | some (.line landed) =>
        (⟨room.keptLines ++ (if landed
          then [{ room.next ids eventInput ts with content := onLine }.toJson] else []),
          { room.channel with harnesses, validLines := some room.keptLines.length },
            room.drawn + 1⟩, none)
      | none => (⟨room.keptLines ++ [{ room.next ids eventInput ts with content := onLine }.toJson],
          { room.channel with harnesses, validLines := none }.indexEvent
          { room.next ids eventInput ts with content := inMemory },
          room.drawn + 1⟩, some { room.next ids eventInput ts with content := inMemory }) := by
  -- The contents and the harnesses that are placed are the ones of the branch that writes.
  unfold Channel.place at placed
  unfold Room.writeEvent
  simp only
  split
  · rename_i contents
    exact absurd (placed.symm.trans contents) (by simp)
  · rename_i contents
    obtain ⟨rfl, rfl, rfl⟩ : inMemory = _ ∧ onLine = _ ∧ harnesses = _ := by
      simpa using Option.some.inj (placed.symm.trans contents)
    rfl

/-- A write of bytes does what a write of lines does. -/
theorem LogRoom.Represents.writeEvent (represents : bytes.Represents parse room torn)
    {eventInput : AppendInput} {ts : Nat}
    (reads : ∀ inMemory onLine harnesses,
      room.channel.place (room.next ids eventInput ts) = some (inMemory, onLine, harnesses) →
      parse (stringify { room.next ids eventInput ts with content := onLine }.toJson)
      = some { room.next ids eventInput ts with content := onLine }.toJson)
    (fault : Option LogFault) :
    ∃ fault' torn',
      (bytes.writeEvent ids eventInput ts fault).2 = (room.writeEvent ids eventInput ts fault').2
      ∧ (bytes.writeEvent ids eventInput ts fault).1.Represents parse
        (room.writeEvent ids eventInput ts fault').1 torn' := by
  -- Both channels place the same, so what is left are the faults, one by one.
  have truncated := represents.truncated
  have next : bytes.next ids eventInput ts = room.next ids eventInput ts := by
    rw [LogRoom.next, represents.channel, represents.drawn]
    rfl
  have place : bytes.channel.place (bytes.next ids eventInput ts) = room.channel.place
    (room.next ids eventInput ts) := by
    rw [next, represents.channel]
    rfl
  rw [LogRoom.writeEvent]
  simp only
  rw [place, next, truncated]
  cases placed : room.channel.place (room.next ids eventInput ts) with
  | none =>
    -- Nothing can be placed, and only an identifier was drawn.
    refine ⟨none, torn, ?_, ?_⟩
    · rw [writeEvent_none none placed]
    · rw [writeEvent_none none placed]
      exact { represents with drawn := congrArg (· + 1) represents.drawn }
  | some contents =>
    obtain ⟨inMemory, onLine, harnesses⟩ := contents
    have parsed : ∀ line ∈ room.keptLines, parse (stringify line) = some line :=
      fun line inside => represents.parsed line (mem_of_mem_keptLines inside)
    have parsed' :
      ∀ line ∈ room.keptLines ++ [{ room.next ids eventInput ts with content := onLine }.toJson],
        parse (stringify line) = some line := by
      intro line inside
      rcases List.mem_append.mp inside with old | new
      · exact parsed line old
      · rw [List.mem_singleton.mp new]
        exact reads inMemory onLine harnesses placed
    rw [represents.channel, represents.drawn]
    cases fault with
    | none =>
      refine ⟨none, [], ?_, ?_⟩
      · rw [writeEvent_some none placed]
      · rw [writeEvent_some none placed]
        refine ⟨by rw [List.append_nil, logOf_concat], List.not_mem_nil, .inl rfl, ?_,
          ?_, rfl, parsed'⟩
        · rw [validLines_indexed]
          rfl
        · exact channel_of_none (validLines_indexed _ _)
    | some fault =>
      cases fault with
      | harness =>
        -- The log was not touched, and what was torn is still there.
        refine ⟨some .harness, torn, ?_, ?_⟩
        · rw [writeEvent_some (some .harness) placed]
        · rw [writeEvent_some (some .harness) placed]
          exact ⟨represents.log, represents.open_, represents.cuts, represents.validBytes, rfl,
            rfl, represents.parsed⟩
      | truncate =>
        -- Cutting failed, so the next write cuts again.
        refine ⟨some .truncate, torn, ?_, ?_⟩
        · rw [writeEvent_some (some .truncate) placed]
        · rw [writeEvent_some (some .truncate) placed]
          exact ⟨represents.log, represents.open_, represents.cuts, represents.validBytes, rfl,
            rfl, represents.parsed⟩
      | open_ =>
        -- The log was cut to its lines before the file could not be opened.
        refine ⟨some .open_, [], ?_, ?_⟩
        · rw [writeEvent_some (some .open_) placed]
        · rw [writeEvent_some (some .open_) placed]
          exact ⟨(List.append_nil _).symm, List.not_mem_nil, .inl rfl, rfl, rfl, rfl, parsed⟩
      | line count =>
        by_cases whole :
          (lineBytes { room.next ids eventInput ts with content := onLine }).length ≤ count
        · -- The whole line is there, though the call fails.
          refine ⟨some (.line true), [], ?_, ?_⟩
          · rw [writeEvent_some (some (.line true)) placed]
          · rw [writeEvent_some (some (.line true)) placed]
            refine ⟨?_, List.not_mem_nil, .inl rfl, ?_, rfl, rfl, ?_⟩
            · simp only [if_true]
              rw [List.take_of_length_le whole, logOf_concat, List.append_nil]
            · simp
            · simpa using parsed'
        · -- What is there of the line ends no line.
          refine ⟨some (.line false),
            (lineBytes { room.next ids eventInput ts with content := onLine }).take count, ?_, ?_⟩
          · rw [writeEvent_some (some (.line false)) placed]
          · rw [writeEvent_some (some (.line false)) placed]
            refine ⟨?_, open_take (Nat.lt_of_not_le whole), .inr (by simp), ?_, rfl, rfl, ?_⟩
            · simp
            · simp
            · simpa using parsed

/-- Reading a line does not look at the valid lines. -/
private theorem readLine_valid (channel : Channel) (validLines : Option Nat) (line : Json) :
    { channel with validLines }.readLine line = { channel.readLine line with validLines } := by
  -- No branch of the reader looks at where the next write cuts.
  unfold Channel.readLine
  cases decodeLocalEvent line with
  | error _ => rfl
  | ok event =>
    by_cases skips : event.roomId ≠ channel.roomId ∨ event.seq ≤ channel.lastSeq
    · simp only [if_pos skips]
      exact if_pos skips
    · simp only [if_neg skips]
      rw [← indexEvent_valid]
      exact if_neg skips

/-- Reading lines does not look at the valid lines. -/
private theorem readLines_valid (channel : Channel) (validLines : Option Nat) (lines : List Json) :
    lines.foldl Channel.readLine { channel with validLines }
      = { lines.foldl Channel.readLine channel with validLines } := by
  induction lines generalizing channel with
  | nil => rfl
  | cons line rest ih =>
    rw [List.foldl_cons, List.foldl_cons, readLine_valid, ih]

/-- Opening the bytes is opening the lines. -/
theorem openLog_eq (blank : parse [] = none) {lines : List Json}
    (parsed : ∀ line ∈ lines, parse (stringify line) = some line) {torn : List UInt8}
    (open_ : newlineByte ∉ torn) (roomId : Text) (harnesses : Map Text Text)
    (ownerName : Option Text) :
    openLog parse roomId (logOf lines ++ torn) harnesses ownerName
      = (openChannel roomId lines harnesses ownerName (torn ≠ [])).map fun channel =>
          ({ channel with validLines := none }, if torn ≠ [] then some (logOf lines).length
            else none) := by
  -- Every line is parsed to what was printed, and the empty text behind the last newline is
  -- skipped.
  have texts :
    ∀ channel : Channel, (lines.map stringify ++ [[]]).foldl (Channel.readText parse) channel
      = lines.foldl Channel.readLine channel := by
    intro channel
    rw [List.foldl_append, List.foldl_cons, List.foldl_nil, Channel.readText, blank]
    induction lines generalizing channel with
    | nil => rfl
    | cons line rest ih =>
      rw [List.map_cons, List.foldl_cons, List.foldl_cons, Channel.readText,
        parsed line List.mem_cons_self]
      exact ih (fun other inside => parsed other (List.mem_cons_of_mem _ inside)) _
  have longer : (logOf lines).length < (logOf lines ++ torn).length ↔ torn ≠ [] := by
    rw [List.length_append, ← List.length_pos_iff]
    omega
  rw [openLog, completeBytes_logOf lines open_]
  simp only
  rw [List.take_left, splitLines_logOf, texts, openChannel]
  simp only [longer]
  -- What is read does not hang on where the next write cuts.
  have read := readLines_valid { makeChannel roomId with harnesses }
    (if torn ≠ [] then some lines.length else none) lines
  have same := validLines_readLines lines { makeChannel roomId with harnesses }
  simp only [decide_eq_true_eq]
  rw [read]
  by_cases creates :
    (lines.foldl Channel.readLine { makeChannel roomId with harnesses }).events.head?.map (·.type)
    = some .create
  · rw [if_pos creates, if_pos creates, Option.map_some]
    rw [channel_of_none same]
  · rw [if_neg creates, if_neg creates, Option.map_none]

/-! ## Runs -/

/-- The clock, and the numbers of the room's events, are integers that a number holds exactly. -/
def Channel.Counts (channel : Channel) (ts : Nat) : Prop :=
  channel.lastSeq < maxSafeInteger ∧ ts ≤ maxSafeInteger

instance (channel : Channel) (ts : Nat) : Decidable (channel.Counts ts) :=
  inferInstanceAs (Decidable (_ ∧ _))

variable (ids parse) (printed : Number → Prop) in
/-- The states of a room with its log in bytes, with the events that calls were answered with so
far; what the calls are given are values as the runtime holds them. -/
inductive LogRoom.Answered : LogRoom → List LocalEvent → Prop
  /-- The room is created, with what its two first lines came to. -/
  | created (roomId name ownerUsername : Text) (operationId : Option Text) (drawn ts ts' : Nat)
    (fault fault' : Option LogFault)
      (clock : ts ≤ maxSafeInteger) (clock' : ts' ≤ maxSafeInteger) :
    Answered (createLog ids roomId name ownerUsername operationId drawn ts ts' fault fault')
      (createLog ids roomId name ownerUsername operationId drawn ts ts' fault fault').channel.events
  /-- An append, whose answer counts as one when it is given. -/
  | append {room : LogRoom} {answers : List LocalEvent} (eventInput : AppendInput) (ts : Nat)
    (fault : Option LogFault)
      (content : (Json.object eventInput.content).Native printed)
      (counts : room.channel.Counts ts) :
    Answered room answers →
      Answered (room.append ids eventInput ts fault).1
        (answers ++ (room.append ids eventInput ts fault).2.toList)
  /-- The owner is renamed, which may append a membership event. -/
  | setOwnerChannelName {room : LogRoom} {answers : List LocalEvent} (ownerUsername : Text)
    (name : Option Text) (ts : Nat)
      (fault : Option LogFault) (counts : room.channel.Counts ts) :
    Answered room answers → Answered (room.setOwnerChannelName ids ownerUsername name ts fault).1
      (answers ++ (room.setOwnerChannelName ids ownerUsername name ts fault).2.toList)
  /-- The store is opened again on the log as the crash left it. -/
  | opened {room : LogRoom} {answers : List LocalEvent} {channel : Channel}
    {validBytes : Option Nat} (harnesses : Map Text Text)
      (ownerName : Option Text) :
    Answered room answers → openLog parse room.channel.roomId room.log harnesses ownerName
      = some (channel, validBytes) →
      Answered { room with channel, validBytes } answers

variable {printed : Number → Prop}

/-- What stands on the line of an event of the runtime is parsed as it was printed. -/
private theorem Parses.placed (parses : Parses parse printed) {eventInput : AppendInput} {ts : Nat}
    (content : (Json.object eventInput.content).Native printed) (counts : room.channel.Counts ts) :
    ∀ inMemory onLine harnesses, room.channel.place (room.next ids eventInput ts) = some (inMemory,
      onLine, harnesses) →
      parse (stringify { room.next ids eventInput ts with content := onLine }.toJson)
        = some { room.next ids eventInput ts with content := onLine }.toJson := by
  -- The numbers of the event are exact, and its content came from the runtime.
  intro inMemory onLine harnesses placed
  have onLineContent : (Json.object onLine).Native printed := by
    unfold Channel.place at placed
    split at placed
    · -- A harness may be left out of the line.
      unfold placeHarness at placed
      simp only at placed
      split at placed
      · split at placed
        · split at placed
          · cases placed
            exact native_filter content _
          · cases placed
        · cases placed
          exact content
      · cases placed
      · split at placed
        · cases placed
          exact content
        · cases placed
          exact content
    · cases placed
      exact content
  apply parses.written
  exact @native_toJson _ parses.counts { room.next ids eventInput ts with
    content := onLine } onLineContent
    (Nat.succ_le_of_lt counts.1) counts.2

/-- The owner's name shows as a membership that the runtime may hold. -/
private theorem native_owner (membership displayname : Text) :
    (Json.object [(lit "user", .string localOwnerUserId),
    (lit "membership", .string membership), (lit "displayname", .string displayname),
    (lit "kind", .string (lit "human"))]).Native printed := by
  refine @native_words printed _ [lit "user", lit "membership", lit "displayname", lit "kind"] rfl
    (by decide +kernel)
    (by decide +kernel) ?_
  simp [Json.Native]

/-- The content of a creation is printed as JSON prints it. -/
private theorem native_creation (name : Text) (operationId : Option Text) :
    (Json.object ([(lit "name", Json.string name),
    (lit "createdBy", .string localOwnerUserId)]
      ++ (operationId.map fun operationId =>
        (lit "operationId", .string operationId)).toList)).Native printed := by
  cases operationId with
  | none =>
    refine @native_words printed _ [lit "name", lit "createdBy"] rfl (by decide +kernel)
      (by decide +kernel) ?_
    simp [Json.Native]
  | some operationId =>
    refine @native_words printed _ [lit "name", lit "createdBy", lit "operationId"] rfl
      (by decide +kernel) (by decide +kernel) ?_
    simp [Json.Native]

/-- A write takes at most one number. -/
private theorem lastSeq_writeEvent (room : Room) (eventInput : AppendInput) (ts : Nat)
    (fault : Option WriteFault) :
    (room.writeEvent ids eventInput ts fault).1.channel.lastSeq ≤ room.channel.lastSeq + 1 := by
  -- Only a write that ends well moves the last number, and by one.
  generalize outcome : room.writeEvent ids eventInput ts fault = after
  have ends := @Room.ends_writeEvent ids room eventInput ts fault
  rw [outcome] at ends
  cases ends with
  | untouched harnesses => exact Nat.le_succ _
  | unopened harnesses => exact Nat.le_succ _
  | unwritten harnesses => exact Nat.le_succ _
  | landed harnesses makes => exact Nat.le_succ _
  | @written stored line harnesses makes =>
    have seq : stored.lasting.seq = line.lasting.seq := by rw [makes.lasting]
    have number : stored.seq = room.channel.lastSeq + 1 := seq.trans makes.seq
    simp [Channel.lastSeq, number]

/-- Of two writes the second is made if the first succeeds. -/
private theorem LogRoom.Represents.twice (represents : bytes.Represents parse room torn)
    (parses : Parses parse printed) {first second : AppendInput}
    (content : (Json.object first.content).Native printed)
    (content' : (Json.object second.content).Native printed) {ts ts' : Nat}
    (few : room.channel.lastSeq + 1 < maxSafeInteger) (clock : ts ≤ maxSafeInteger)
    (clock' : ts' ≤ maxSafeInteger) (fault fault' : Option LogFault) :
    ∃ lineFault lineFault' torn', (match bytes.writeEvent ids first ts fault with
        | (after, none) => after
        | (after, some _) => (after.writeEvent ids second ts' fault').1 : LogRoom).Represents parse
      (match room.writeEvent ids first ts lineFault with
        | (after, none) => after
        | (after, some _) => (after.writeEvent ids second ts' lineFault').1) torn' := by
  -- The second write begins where the first has ended, under a fault of lines for each of them.
  obtain ⟨lineFault, torn', answer, now⟩ :=
    @LogRoom.Represents.writeEvent ids parse _ _ _ represents first ts
      (parses.placed content ⟨Nat.lt_of_succ_lt few, clock⟩) fault
  have number := @lastSeq_writeEvent ids room first ts lineFault
  refine ⟨lineFault, ?_⟩
  generalize bytes.writeEvent ids first ts fault = outcome at answer now ⊢
  generalize room.writeEvent ids first ts lineFault = lineOutcome at answer now number ⊢
  obtain ⟨bytes', stored⟩ := outcome
  obtain ⟨room', stored'⟩ := lineOutcome
  obtain rfl : stored = stored' := answer
  cases stored with
  | none => exact ⟨none, torn', now⟩
  | some event =>
    obtain ⟨lineFault', torn'', -, later⟩ :=
      @LogRoom.Represents.writeEvent ids parse _ _ _ now second ts'
        (parses.placed content' ⟨Nat.lt_of_le_of_lt number few, clock'⟩) fault'
    exact ⟨lineFault', torn'', later⟩

/-- A room that is created on the bytes is one that is created on the lines. -/
private theorem represents_createLog (parses : Parses parse printed)
    (roomId name ownerUsername : Text) (operationId : Option Text) (drawn ts ts' : Nat)
    (fault fault' : Option LogFault) (clock : ts ≤ maxSafeInteger) (clock' : ts' ≤ maxSafeInteger) :
    ∃ lineFault lineFault' torn,
      (createLog ids roomId name ownerUsername operationId drawn ts ts' fault fault').Represents
      parse
      (createChannel ids roomId name ownerUsername operationId drawn ts ts' lineFault lineFault')
        torn := by
  -- The empty log stands for no lines, and the first event has the first number.
  have made : (⟨[], makeChannel roomId, none, drawn⟩ : LogRoom).Represents parse ⟨[],
    makeChannel roomId, drawn⟩ [] :=
    ⟨rfl, List.not_mem_nil, .inl rfl, rfl, rfl, rfl, by simp⟩
  exact @LogRoom.Represents.twice ids parse _ _ _ printed made parses ⟨.create,
    localOwnerUserId, none, _⟩
    ⟨.member, localOwnerUserId, none, _⟩ (native_creation name operationId)
      (native_owner (lit "join") ownerUsername) ts ts'
    (show 1 < maxSafeInteger by decide) clock clock' fault fault'

/-- Whatever the bytes do, the lines do as well. -/
theorem LogRoom.Answered.represented (parses : Parses parse printed) {answers : List LocalEvent}
    (answered : bytes.Answered ids parse printed answers) :
    ∃ room torn, room.Answered ids answers ∧ bytes.Represents parse room torn := by
  -- Every call on the bytes is the same call on the lines, under some fault of lines.
  induction answered with
  | created roomId name ownerUsername operationId drawn ts ts' fault fault' clock clock' =>
    obtain ⟨lineFault, lineFault', torn, represents⟩ :=
      @represents_createLog ids parse printed parses roomId name ownerUsername operationId drawn ts
        ts' fault fault' clock clock'
    refine ⟨_, torn, ?_, represents⟩
    rw [represents.channel]
    exact .created ..
  | @append bytes answers eventInput ts fault content counts _ ih =>
    obtain ⟨room, torn, lineAnswered, represents⟩ := ih
    rw [represents.channel] at counts
    cases found : eventInput.txnId.bind fun txnId =>
      room.channel.byTxn.get (txnKey eventInput.sender txnId) with
    | some existing =>
      -- The transaction is answered again on both sides, with nothing written.
      have appends : bytes.append ids eventInput ts fault = (bytes, some existing) := by
        rw [LogRoom.append, represents.channel]
        simp only [found]
      have lineAppends : room.append ids eventInput ts none = (room, some existing) := by
        rw [Room.append, found]
      have next := lineAnswered.append eventInput ts none
      rw [lineAppends] at next
      rw [appends]
      exact ⟨room, torn, next, represents⟩
    | none =>
      -- The transaction is new, so both sides write.
      obtain ⟨lineFault, torn', answer, later⟩ :=
        represents.writeEvent (parses.placed content counts) fault
      have appends :
        bytes.append ids eventInput ts fault = bytes.writeEvent ids eventInput ts fault := by
        rw [LogRoom.append, represents.channel]
        simp only [found]
      have lineAppends :
        room.append ids eventInput ts lineFault = room.writeEvent ids eventInput ts lineFault := by
        rw [Room.append, found]
      have next := lineAnswered.append eventInput ts lineFault
      rw [lineAppends] at next
      rw [appends, answer]
      exact ⟨_, torn', next, later⟩
  | @setOwnerChannelName bytes answers ownerUsername name ts fault counts _ ih =>
    obtain ⟨room, torn, lineAnswered, represents⟩ := ih
    rw [represents.channel] at counts
    -- The owner's name is kept beside the log, which stays as it is.
    have named : ({ bytes with channel := { bytes.channel with ownerName := name } } :
      LogRoom).Represents parse
        { room with channel := { room.channel with ownerName := name } } torn :=
      ⟨represents.log, represents.open_, represents.cuts,
        represents.validBytes, by rw [represents.channel], represents.drawn,
        represents.parsed⟩
    have bytesOwner : bytes.channel.ownerName = room.channel.ownerName
      ∧ bytes.channel.ownerMembership = room.channel.ownerMembership := by
      rw [represents.channel]
      exact ⟨rfl, rfl⟩
    cases member : room.channel.ownerMembership with
    | none =>
      have next := lineAnswered.setOwnerChannelName ownerUsername name ts none
      simp only [Room.setOwnerChannelName, member] at next
      simp only [LogRoom.setOwnerChannelName, bytesOwner.2, member]
      exact ⟨_, torn, next, named⟩
    | some membership =>
      by_cases same : room.channel.ownerName.getD ownerUsername = name.getD ownerUsername
      · have next := lineAnswered.setOwnerChannelName ownerUsername name ts none
        simp only [Room.setOwnerChannelName, member, if_pos same] at next
        simp only [LogRoom.setOwnerChannelName, bytesOwner.1, bytesOwner.2, member, if_pos same]
        exact ⟨_, torn, next, named⟩
      · obtain ⟨lineFault, torn', answer, later⟩ :=
          @LogRoom.Represents.writeEvent ids parse _ _ _ named
          ⟨.member, localOwnerUserId, none, _⟩ ts
            (parses.placed (native_owner membership (name.getD ownerUsername)) counts) fault
        have next := lineAnswered.setOwnerChannelName ownerUsername name ts lineFault
        simp only [Room.setOwnerChannelName, member, if_neg same] at next
        simp only [LogRoom.setOwnerChannelName, bytesOwner.1, bytesOwner.2, member, if_neg same]
        rw [answer]
        exact ⟨_, torn', next, later⟩
  | @opened bytes answers channel validBytes harnesses ownerName _ opened ih =>
    obtain ⟨room, torn, lineAnswered, represents⟩ := ih
    have roomId : bytes.channel.roomId = room.channel.roomId := by rw [represents.channel]
    rw [roomId, represents.log, openLog_eq parses.blank represents.parsed represents.open_]
      at opened
    obtain ⟨lineChannel, lineOpened, same⟩ := Option.map_eq_some_iff.mp opened
    obtain ⟨rfl, rfl⟩ := Prod.mk.inj same
    -- Opening cuts where the lines end, and only if something is torn.
    have valid : lineChannel.validLines = if torn ≠ [] then some room.lines.length else none := by
      simp only [openChannel, Option.ite_none_right_eq_some, Option.some.injEq] at lineOpened
      obtain ⟨-, rfl⟩ := lineOpened
      exact (validLines_readLines _ _).trans (by simp)
    refine ⟨{ room with channel := lineChannel }, torn,
      lineAnswered.opened harnesses ownerName _ lineOpened, represents.log,
      represents.open_, ?_, ?_, rfl, represents.drawn, represents.parsed⟩
    · by_cases whole : torn = []
      · exact .inl whole
      · exact .inr (by simp [valid, whole])
    · rw [valid]
      by_cases whole : torn = []
      · simp [whole]
      · simp [whole]

/-! ## What outlives faults and restarts -/

/-- Identifiers that differ in their last letter. -/
def letteredIds (draw : Nat) : Text := 36 :: List.replicate 21 65 ++ [65 + draw.toUInt16]

def annsRoom : LogRoom :=
  createLog letteredIds (33 :: List.replicate 22 65 ++ lit ":local") (lit "room")
    (lit "ann") none 0 1 2 none none

def note : AppendInput := ⟨.listeningMode, localOwnerUserId, some (lit "t1"), []⟩

/-- The note is cut off after five bytes. -/
def cutRoom : LogRoom := (annsRoom.append letteredIds note 3 (some (.line 5))).1

/-- The reader of printed JSON reads every line that is printed. -/
private theorem parses_printed : Parses parsePrinted fun _ => True :=
  ⟨rfl, fun _ _ => trivial, fun value _ => parsePrinted_stringify value⟩

/-- The note is printed as JSON prints it. -/
private theorem native_note : (Json.object note.content).Native fun _ => True :=
  ⟨List.nodup_nil, enumerationOrder_of_words (by simp [note]), trivial⟩

/-- The room whose note was cut off, and what was answered. -/
private theorem answered_cut : cutRoom.Answered letteredIds parsePrinted (fun _ => True)
    (annsRoom.channel.events ++ (annsRoom.append letteredIds note 3 (some (.line 5))).2.toList) :=
  .append note 3 _ native_note (by decide +kernel)
    (.created _ _ _ none 0 1 2 none none (by decide) (by decide))

/-- Through writes that stop anywhere on the way, and through restarts, the log in bytes is the log
in lines with at most a part of one line after it, and the channel and all answers are those of the
log in lines. -/
theorem log_in_lines (parses : Parses parse printed) {answers : List LocalEvent}
    (answered : bytes.Answered ids parse printed answers) :
    ∃ (room : Room) (torn : List UInt8), room.Answered ids answers
      ∧ bytes.channel = { room.channel with validLines := none }
      ∧ bytes.log = logOf room.lines ++ torn ∧ newlineByte ∉ torn := by
  -- The room of lines that the bytes stand for has given the same answers.
  obtain ⟨room, torn, lineAnswered, represents⟩ := answered.represented parses
  exact ⟨room, torn, lineAnswered, represents.channel, represents.log, represents.open_⟩

/-- Five bytes of a line that was cut off stand behind the complete ones. -/
theorem log_in_lines_cut : cutRoom.log.length = annsRoom.log.length + 5
    ∧ ∃ (room : Room) (torn : List UInt8), room.Answered letteredIds
        (annsRoom.channel.events ++ (annsRoom.append letteredIds note 3 (some (.line 5))).2.toList)
      ∧ cutRoom.channel = { room.channel with validLines := none }
      ∧ cutRoom.log = logOf room.lines ++ torn ∧ newlineByte ∉ torn :=
  ⟨by decide +kernel, log_in_lines parses_printed answered_cut⟩

/-- An event that a call was answered with, and whose line is read, is in the channel in every later
state, as what of it lasts; and when it is the room's creation, every restart finds the room. -/
theorem answers_last (parses : Parses parse printed) {answers : List LocalEvent}
    (answered : bytes.Answered ids parse printed answers) {event : LocalEvent}
    (inside : event ∈ answers) (readable : event.Readable) :
    (∃ held ∈ bytes.channel.events, held.lasting = event.lasting)
      ∧ (event.type = .create → event.seq = 1 → ∀ harnesses ownerName,
        ∃ channel validBytes, openLog parse bytes.channel.roomId bytes.log harnesses ownerName
          = some (channel, validBytes)
          ∧ ∀ other ∈ answers, other.Readable → ∃ held ∈ channel.events,
            held.lasting = other.lasting) := by
  -- The channel of the bytes is that of the lines, which keep what was answered with.
  obtain ⟨room, torn, lineAnswered, represents⟩ := answered.represented parses
  have same : bytes.channel.events = room.channel.events := by rw [represents.channel]
  have roomId : bytes.channel.roomId = room.channel.roomId := by rw [represents.channel]
  refine ⟨same ▸ lineAnswered.held inside readable, fun creates first harnesses ownerName => ?_⟩
  -- What opens the lines opens the bytes, whatever is torn behind them.
  obtain ⟨channel, opened⟩ :=
    lineAnswered.opens inside readable creates first harnesses ownerName (torn ≠ [])
  rw [roomId, represents.log, openLog_eq parses.blank represents.parsed represents.open_, opened]
  exact ⟨_, _, rfl, fun other among reads =>
    (lineAnswered.opened harnesses ownerName _ opened).held among reads⟩

/-- The room whose last line was cut off is found. -/
theorem answers_last_cut : ∃ channel validBytes,
    openLog parsePrinted cutRoom.channel.roomId cutRoom.log Map.empty none = some (channel,
      validBytes) := by
  have created : (annsRoom.channel.events.any fun event =>
    event.type = .create && event.seq = 1 && event.Readable)
      = true := by
    decide +kernel
  obtain ⟨event, inside, is⟩ := List.any_eq_true.mp created
  simp only [Bool.and_eq_true, decide_eq_true_eq] at is
  obtain ⟨channel, validBytes, opened, -⟩ :=
    (answers_last parses_printed answered_cut (List.mem_append_left _ inside) is.2).2 is.1.1 is.1.2
      Map.empty none
  exact ⟨channel, validBytes, opened⟩

end Khala.Local
