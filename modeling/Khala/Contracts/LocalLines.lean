import Khala.Contracts.LocalEvent
import Khala.Contracts.RenameEvent
import Khala.Contracts.TextSize

/-! The lines of a log are read back: what the reader of a line makes of the events that a store
writes. -/

namespace Khala.Local

open Js Decode

/-! ## Plain text -/

/-- Printable ASCII. -/
def Plain (s : Text) : Prop := ∀ u ∈ s, 0x20 ≤ u.toNat ∧ u.toNat ≤ 0x7E

/-- A text whose units are all printable ASCII is plain. -/
theorem plain_of_all {s : Text} (all : (s.all fun u => 0x20 ≤ u.toNat && u.toNat ≤ 0x7E) = true) :
    Plain s := by
  intro u inside
  simpa using List.all_eq_true.mp all u inside

/-- Plain texts are plain together. -/
theorem Plain.append {before after : Text} (plain : Plain before) (plain' : Plain after) :
    Plain (before ++ after) := by
  intro u inside
  rcases List.mem_append.mp inside with front | back
  · exact plain u front
  · exact plain' u back

/-- A plain unit is no half of a pair. -/
private theorem single_of_plain {u : CodeUnit} (inside : 0x20 ≤ u.toNat ∧ u.toNat ≤ 0x7E) :
    isSurrogate u = false := by
  simp only [isSurrogate, Bool.and_eq_false_iff, decide_eq_false_iff_not, UInt16.le_iff_toNat_le,
    UInt16.toNat_ofNat]
  omega

/-- A plain unit is no control character. -/
private theorem not_control {u : CodeUnit} (inside : 0x20 ≤ u.toNat ∧ u.toNat ≤ 0x7E) :
    isControl u = false := by
  simp only [isControl, Bool.or_eq_false_iff, Bool.and_eq_false_iff, decide_eq_false_iff_not,
    UInt16.le_iff_toNat_le,
    UInt16.toNat_ofNat]
  omega

/-- A plain unit is visible. -/
private theorem not_invisible {u : CodeUnit} (inside : 0x20 ≤ u.toNat ∧ u.toNat ≤ 0x7E) :
    isInvisible u = false := by
  simp only [isInvisible, Bool.or_eq_false_iff, Bool.and_eq_false_iff, decide_eq_false_iff_not,
    beq_eq_false_iff_ne, ne_eq,
    ← UInt16.toNat_inj, UInt16.le_iff_toNat_le, UInt16.toNat_ofNat]
  omega

/-- Each unit of a plain text is a code point. -/
theorem codePoints_plain {s : Text} (plain : Plain s) : codePoints s = s.map fun u => [u] := by
  induction s with
  | nil => rfl
  | cons u rest ih =>
    rw [codePoints_cons (single_of_plain (plain u List.mem_cons_self)),
      ih fun v inside => plain v (List.mem_cons_of_mem _ inside), List.map_cons]

/-- Each unit of a plain text is a byte. -/
theorem utf8Length_plain {s : Text} (plain : Plain s) : utf8Length s = s.length := by
  rw [utf8Length, codePoints_plain plain, List.map_map]
  have ones : s.map (pointSize ∘ fun u => [u]) = s.map fun _ => 1 := by
    apply List.map_congr_left
    intro u inside
    have small : u < 0x80 := by
      have := (plain u inside).2
      simp only [UInt16.lt_iff_toNat_lt, UInt16.toNat_ofNat]
      omega
    rw [Function.comp_apply, pointSize, if_pos small]
  rw [ones]
  simp

/-- A plain text is well formed. -/
theorem isWellFormed_plain {s : Text} (plain : Plain s) : isWellFormed s = true := by
  rw [isWellFormed, codePoints_plain plain, List.all_map]
  apply List.all_eq_true.mpr
  intro u inside
  rw [Function.comp_apply, wholePoint, single_of_plain (plain u inside)]
  rfl

/-- A plain text that fits is read as it is. -/
theorem text_plain {s : Text} (plain : Plain s) {maxBytes : Nat} (fits : s.length ≤ maxBytes)
    (path : Text) :
    text (.string s) path maxBytes = .ok s := by
  have zero : s.contains 0 = false := by
    rw [List.contains_eq_mem, decide_eq_false_iff_not]
    intro inside
    have := (plain 0 inside).1
    rw [UInt16.toNat_zero] at this
    omega
  rw [text, isWellFormed_plain plain, if_neg (by simp), utf8Length_plain plain, if_neg (by omega),
    zero, if_neg (by simp)]

/-- A plain label that fits is read as it is. -/
theorem label_plain {s : Text} (plain : Plain s) {maxBytes : Nat} (fits : s.length ≤ maxBytes)
    (path : Text) :
    label (.string s) path maxBytes = .ok s := by
  have shown : s.any isControl = false := by
    rw [List.any_eq_false]
    intro u inside
    rw [not_control (plain u inside)]
    exact Bool.false_ne_true
  simp [label, text_plain plain fits, shown, require, bind, Except.bind, pure, Except.pure]

/-- A plain text that fits is read for display as it is. -/
theorem displayText_plain {s : Text} (plain : Plain s) {maxBytes : Nat} (fits : s.length ≤ maxBytes)
    (path : Text) :
    displayText (.string s) path maxBytes = .ok s := by
  have shown : s.any isInvisible = false := by
    rw [List.any_eq_false]
    intro u inside
    rw [not_invisible (plain u inside)]
    exact Bool.false_ne_true
  simp [displayText, label_plain plain fits, shown, require, bind, Except.bind, pure, Except.pure]

/-- A plain display name that fits is read as it is. -/
theorem displayName_plain {s : Text} (plain : Plain s) (some_ : s ≠ [])
    (fits : s.length ≤ labelMaxBytes) (path : Text) :
    displayName (.string s) path = .ok s := by
  simp [displayName, displayText_plain plain fits, some_, require, bind, Except.bind,
    pure, Except.pure]

/-! ## Identifiers -/

/-- An identifier of a shape that only plain text has is read as itself. -/
theorem readId_plain {shape : Text → Bool} {s : Text} (shaped : shape s = true) (plain : Plain s)
    (some_ : s ≠ []) (fits : s.length ≤ maxIdentifierBytes) (path : Text) :
    readId shape (.string s) path = .ok s := by
  simp [readId, identifier, label_plain plain fits, some_, shaped, require, bind, Except.bind,
    pure, Except.pure]

/-- A unit of base64 is plain. -/
private theorem plain_base64 {u : CodeUnit} (unit : isBase64Unit u = true) :
    0x20 ≤ u.toNat ∧ u.toNat ≤ 0x7E := by
  simp only [isBase64Unit, Bool.or_eq_true, Bool.and_eq_true, decide_eq_true_eq, beq_iff_eq,
    UInt16.le_iff_toNat_le,
    ← UInt16.toNat_inj, UInt16.toNat_ofNat] at unit
  omega

/-- A text of plain units is plain. -/
private theorem plain_all {shape : CodeUnit → Bool} {s : Text}
    (unit : ∀ u, shape u = true → 0x20 ≤ u.toNat ∧ u.toNat ≤ 0x7E) (all : s.all shape = true) :
    Plain s :=
  fun u inside => unit u (List.all_eq_true.mp all u inside)

/-- An event's identifier is read as it is. -/
theorem readLocalEventId_ok {eventId : Text} (shaped : isLocalEventId eventId = true)
    (path : Text) :
    readLocalEventId (.string eventId) path = .ok eventId := by
  have shaped' := shaped
  simp only [isLocalEventId, Bool.and_eq_true, beq_iff_eq] at shaped'
  obtain ⟨⟨size, first⟩, rest⟩ := shaped'
  have plain : Plain eventId := by
    rw [← List.take_append_drop 1 eventId, first]
    exact Plain.append (plain_of_all (by decide)) (plain_all (fun u => plain_base64) rest)
  exact readId_plain shaped plain (by rintro rfl; cases size) (by rw [size]; decide) path

/-- A room's identifier is read as it is. -/
theorem readLocalRoomId_ok {roomId : Text} (shaped : isLocalRoomId roomId = true) (path : Text) :
    readLocalRoomId (.string roomId) path = .ok roomId := by
  -- The identifier has a fixed length, a sign in front, and a fixed tail.
  have shaped' := shaped
  simp only [isLocalRoomId, Bool.and_eq_true, beq_iff_eq] at shaped'
  obtain ⟨⟨⟨size, first⟩, middle⟩, last⟩ := shaped'
  -- So all of its units are plain.
  have plain : Plain roomId := by
    have tail : roomId.drop 1 = (roomId.drop 1).take 22 ++ roomId.drop 23 := by
      have cut := List.take_append_drop 22 (roomId.drop 1)
      rw [List.drop_drop] at cut
      exact cut.symm
    rw [← List.take_append_drop 1 roomId, first, tail, last]
    exact Plain.append (plain_of_all (by decide))
      (Plain.append (plain_all (fun u => plain_base64) middle) (plain_of_all (by decide)))
  exact readId_plain shaped plain (by rintro rfl; cases size) (by rw [size]; decide) path

/-- An agent's identifier is plain, and has 21 units. -/
private theorem plain_agent {userId : Text} (shaped : isLocalAgentUserId userId = true) :
    Plain userId ∧ userId.length = 21 := by
  simp only [isLocalAgentUserId, Bool.and_eq_true, beq_iff_eq] at shaped
  obtain ⟨⟨⟨size, first⟩, middle⟩, last⟩ := shaped
  have tail : userId.drop 7 = (userId.drop 7).take 8 ++ userId.drop 15 := by
    have cut := List.take_append_drop 8 (userId.drop 7)
    rw [List.drop_drop] at cut
    exact cut.symm
  refine ⟨?_, size⟩
  rw [← List.take_append_drop 7 userId, first, tail, last]
  refine Plain.append (plain_of_all (by decide))
    (Plain.append (plain_all (fun u unit => ?_) middle) (plain_of_all (by decide)))
  simp only [isDigit, Bool.or_eq_true, Bool.and_eq_true, decide_eq_true_eq, UInt16.le_iff_toNat_le,
    UInt16.toNat_ofNat] at unit
  omega

/-- A user's identifier is plain, and is not too long. -/
theorem plain_user {userId : Text} (shaped : isLocalUserId userId = true) :
    Plain userId ∧ userId ≠ [] ∧ userId.length ≤ maxIdentifierBytes := by
  rw [isLocalUserId, Bool.or_eq_true, beq_iff_eq] at shaped
  rcases shaped with rfl | agent
  · exact ⟨plain_of_all (by decide), by decide, by decide⟩
  · obtain ⟨plain, size⟩ := plain_agent agent
    refine ⟨plain, fun nothing => ?_, by rw [size]; decide⟩
    rw [nothing] at size
    cases size

/-- A user's identifier is read as it is. -/
theorem readLocalUserId_ok {userId : Text} (shaped : isLocalUserId userId = true) (path : Text) :
    readLocalUserId (.string userId) path = .ok userId :=
  let ⟨plain, some_, fits⟩ := plain_user shaped
  readId_plain shaped plain some_ fits path

/-- A transaction's identifier is read as it is. -/
theorem readLocalTxnId_ok {txnId : Text} (shaped : isLocalTxnId txnId = true) (path : Text) :
    readLocalTxnId (.string txnId) path = .ok txnId := by
  have shaped' := shaped
  simp only [isLocalTxnId, Bool.and_eq_true, decide_eq_true_eq] at shaped'
  obtain ⟨⟨some_, fits⟩, all⟩ := shaped'
  have plain : Plain txnId := by
    refine plain_all (fun u unit => ?_) all
    rcases Bool.or_eq_true_iff.mp unit with base | dot
    · exact plain_base64 base
    · rw [beq_iff_eq.mp dot]
      decide
  exact readId_plain shaped plain (by rintro rfl; cases some_) (Nat.le_trans fits (by decide)) path

/-! ## Contents -/

/-- The membership content that is written for an agent. -/
structure AgentContent where
  user : Text
  membership : Text
  displayname : Text
  harness : Option Text
  invitedBy : Option Text
  mode : Option Text

def AgentContent.members (content : AgentContent) : Members :=
  [(lit "user", Json.string content.user), (lit "membership", .string content.membership),
    (lit "displayname", .string content.displayname), (lit "kind", .string (lit "agent"))]
    ++ (content.harness.map fun harness => (lit "harness", Json.string harness)).toList
    ++ (content.invitedBy.map fun invitedBy => (lit "invitedBy", Json.string invitedBy)).toList
    ++ (content.mode.map fun mode => (listeningModeKey, Json.string mode)).toList

/-- `LISTENING_MODES`. -/
def listeningModes : List Text := [lit "steer", lit "sync", lit "async", lit "mute"]

/-- The content passes the reader's checks. -/
structure AgentContent.Valid (content : AgentContent) : Prop where
  user : isLocalUserId content.user = true
  membership : content.membership ∈ [lit "invite", lit "join", lit "leave"]
  displayname : ∀ path, displayName (.string content.displayname) path = .ok content.displayname
  harness : ∀ harness ∈ content.harness, isHarness harness = true
  invitedBy : ∀ invitedBy ∈ content.invitedBy, isLocalUserId invitedBy = true
  mode : ∀ mode ∈ content.mode, mode ∈ listeningModes

/-- A word of a list is read as it is. -/
private theorem oneOf_ok {words : List Text} {word : Text} (inside : word ∈ words) (path : Text) :
    oneOf words (.string word) path = .ok word := by
  have found : (words.map fun word => (word, word)).lookup word = some word := by
    induction words with
    | nil => cases inside
    | cons first rest ih =>
      rw [List.map_cons, List.lookup_cons]
      by_cases same : word = first
      · rw [same, beq_self_eq_true]
      · rw [beq_eq_false_iff_ne.mpr same]
        exact ih ((List.mem_cons.mp inside).resolve_left same)
  simp only [oneOf, literal, found]

/-- The fields that the record's reader hands on. -/
private theorem record_members (content : AgentContent) (path : Text) :
    record (.object content.members) path [lit "user", lit "membership",
      lit "displayname", lit "kind"]
      [lit "harness", lit "invitedBy", listeningModeKey] = .ok content.members := by
  obtain ⟨user, membership, displayname, harness, invitedBy, mode⟩ := content
  cases harness <;> cases invitedBy <;> cases mode <;> rfl

/-- A field that may be missing is read as it is. -/
private theorem optionalField_members {input : Json} {members : Members} {path key : Text}
    {read : Json → Text → Decoded Text} {value : Option Text} (there : has input key = value.isSome)
    (found : ∀ v ∈ value, field members key = .string v)
    (reads : ∀ v ∈ value, read (.string v) (joinPath path key) = .ok v) :
    optionalField input members path key read = .ok (value.map fun v =>
      (key, Json.string v)).toList := by
  cases value with
  | none => rw [optionalField, there]; rfl
  | some v =>
    rw [optionalField, there, Option.isSome_some, if_pos rfl, found v rfl, reads v rfl]
    rfl

/-- What is written for an agent is read as it is. -/
theorem readMemberContent_members {content : AgentContent} (valid : content.Valid) (path : Text) :
    readMemberContent (.object content.members) path = .ok content.members := by
  -- The four fields that are always there are found where they were written.
  have fields : field content.members (lit "kind") = .string (lit "agent")
    ∧ field content.members (lit "user") = .string content.user
      ∧ field content.members (lit "membership") = .string content.membership
      ∧ field content.members (lit "displayname") = .string content.displayname :=
        ⟨rfl, rfl, rfl, rfl⟩
  obtain ⟨kind, user, membership, displayname⟩ := fields
  -- Each optional field is found where it is there, and reads as itself.
  have readsHarness :
    optionalField (.object content.members) content.members path (lit "harness") readHarness
      = .ok (content.harness.map fun v => (lit "harness", Json.string v)).toList := by
    apply optionalField_members
    · obtain ⟨_, _, _, harness, invitedBy, mode⟩ := content
      cases harness <;> cases invitedBy <;> cases mode <;> rfl
    · intro v is
      obtain ⟨_, _, _, harness, invitedBy, mode⟩ := content
      obtain rfl : _ = some v := is
      rfl
    · intro v is
      simp [readHarness, valid.harness v is, require, bind, Except.bind, pure, Except.pure]
  have readsInvitedBy :
    optionalField (.object content.members) content.members path (lit "invitedBy") readLocalUserId
      = .ok (content.invitedBy.map fun v => (lit "invitedBy", Json.string v)).toList := by
    apply optionalField_members
    · obtain ⟨_, _, _, harness, invitedBy, mode⟩ := content
      cases harness <;> cases invitedBy <;> cases mode <;> rfl
    · intro v is
      obtain ⟨_, _, _, harness, invitedBy, mode⟩ := content
      obtain rfl : _ = some v := is
      cases harness <;> rfl
    · exact fun v is => readLocalUserId_ok (valid.invitedBy v is) _
  have readsMode : optionalField (.object content.members) content.members path listeningModeKey
      (oneOf [lit "steer", lit "sync", lit "async", lit "mute"])
      = .ok (content.mode.map fun v => (listeningModeKey, Json.string v)).toList := by
    apply optionalField_members
    · obtain ⟨_, _, _, harness, invitedBy, mode⟩ := content
      cases harness <;> cases invitedBy <;> cases mode <;> rfl
    · intro v is
      obtain ⟨_, _, _, harness, invitedBy, mode⟩ := content
      obtain rfl : _ = some v := is
      cases harness <;> cases invitedBy <;> rfl
    · exact fun v is => oneOf_ok (valid.mode v is) _
  have agent : withoutAgentKeys (.object content.members) path (lit "agent") = .ok () := rfl
  -- So the content is read as it was written.
  simp only [readMemberContent, record_members, kind, user, membership, displayname, agent,
    oneOf_ok (List.mem_cons_of_mem _ List.mem_cons_self :
      lit "agent" ∈ [lit "human", lit "agent"]), readLocalUserId_ok valid.user,
    oneOf_ok valid.membership, valid.displayname, readsHarness, readsInvitedBy, readsMode, bind,
      Except.bind, pure, Except.pure]
  rfl

/-! ## Events -/

/-- The parts around an event's content pass the reader's checks. -/
structure LocalEvent.Framed (event : LocalEvent) : Prop where
  seq : 1 ≤ event.seq ∧ event.seq ≤ maxSafeInteger
  eventId : isLocalEventId event.eventId = true
  roomId : isLocalRoomId event.roomId = true
  sender : isLocalUserId event.sender = true
  ts : event.ts ≤ maxSafeInteger
  txnId : ∀ txnId ∈ event.txnId, isLocalTxnId txnId = true

/-- The fields of an event's line. -/
private def lineOf (event : LocalEvent) : Members :=
  [(lit "seq", Json.number (natNumber event.seq)), (lit "eventId", .string event.eventId),
    (lit "roomId", .string event.roomId),
    (lit "type", .string event.type.text), (lit "sender", .string event.sender),
      (lit "ts", .number (natNumber event.ts))]
    ++ (event.txnId.map fun txnId => (lit "txnId", Json.string txnId)).toList
      ++ [(lit "content", Json.object event.content)]

/-- An event's line has the members that a record of an event may have. -/
private theorem record_lineOf (event : LocalEvent) :
    record event.toJson [] [lit "seq", lit "eventId", lit "roomId", lit "type", lit "sender",
      lit "ts", lit "content"]
      [lit "txnId", lit "previousContent"] = .ok (lineOf event) := by
  obtain ⟨_, _, _, _, _, _, txnId, _, _⟩ := event
  cases txnId <;> rfl

/-- The content of an event's line is the event's. -/
private theorem content_lineOf (event : LocalEvent) :
    field (lineOf event) (lit "content") = .object event.content := by
  obtain ⟨_, _, _, _, _, _, txnId, _, _⟩ := event
  cases txnId <;> rfl

/-- The transaction of an event's line is the event's. -/
private theorem txnId_lineOf {event : LocalEvent} (framed : event.Framed) :
    optionalValue event.toJson (lineOf event) []
      (lit "txnId") readLocalTxnId = .ok event.txnId := by
  obtain ⟨_, _, _, _, _, _, txnId, _, _⟩ := event
  cases txnId with
  | none => rfl
  | some txnId =>
    have reads := readLocalTxnId_ok (framed.txnId txnId rfl) (joinPath [] (lit "txnId"))
    show (some <$> readLocalTxnId (.string txnId) (joinPath [] (lit "txnId"))) = .ok (some txnId)
    rw [reads]
    rfl

/-- No line has the content that the event replaced. -/
private theorem previous_lineOf (event : LocalEvent) :
    optionalValue event.toJson (lineOf event) [] (lit "previousContent") readMemberContent
      = .ok none := by
  obtain ⟨_, _, _, _, _, _, txnId, _, _⟩ := event
  cases txnId <;> rfl

/-- A line is read as the event it was written for, with the content as its reader returns it. -/
theorem decodeLocalEvent_toJson {event : LocalEvent} (framed : event.Framed) {content : Members}
    (read : readContent (.object event.content) (lit "content") event.type = .ok content) :
    decodeLocalEvent event.toJson = .ok { event with content, previousContent := none } := by
  -- Each field of the line is found where it was written.
  have type : literal (field (lineOf event) (lit "type"))
    (joinPath [] (lit "type")) localEventTypes = .ok event.type := by
    show literal (.string event.type.text) _ localEventTypes = _
    cases event.type <;> rfl
  have some_ : (event.seq != 0) = true := by
    have := framed.seq.1
    rw [bne_iff_ne]
    omega
  have seq : seqNumber (field (lineOf event) (lit "seq"))
    (joinPath [] (lit "seq")) = .ok event.seq := by
    show seqNumber (.number (natNumber event.seq)) _ = _
    simp [seqNumber, safeInteger_natNumber framed.seq.2, some_, require, bind, Except.bind,
      pure, Except.pure]
  have eventId : readLocalEventId (field (lineOf event) (lit "eventId"))
    (joinPath [] (lit "eventId")) = .ok event.eventId :=
    readLocalEventId_ok framed.eventId _
  have roomId : readLocalRoomId (field (lineOf event) (lit "roomId"))
    (joinPath [] (lit "roomId")) = .ok event.roomId :=
    readLocalRoomId_ok framed.roomId _
  have sender : readLocalUserId (field (lineOf event) (lit "sender"))
    (joinPath [] (lit "sender")) = .ok event.sender :=
    readLocalUserId_ok framed.sender _
  have ts : safeInteger (field (lineOf event) (lit "ts")) (joinPath [] (lit "ts")) = .ok event.ts :=
    safeInteger_natNumber framed.ts _
  -- The content is read as the assumption says.
  have content' : readContent (field (lineOf event) (lit "content"))
    (joinPath [] (lit "content")) event.type = .ok content := by
    rw [content_lineOf]
    exact read
  simp only [decodeLocalEvent, readEvent, record_lineOf, type, seq, eventId, roomId, sender, ts,
    txnId_lineOf framed, content',
    previous_lineOf, bind, Except.bind, pure, Except.pure]

/-- A number is read as it is. -/
private theorem safeInteger_eq_ok {n value : Nat} {path : Text}
    (read : safeInteger (.number (natNumber n)) path = .ok value) :
    value = n := by
  simp only [safeInteger, natNumber, spelledNat_decimal] at read
  split at read
  · cases read
    rfl
  · cases read

/-- Whatever content a line has, the rest of the event is read as it was written. -/
theorem decodeLocalEvent_keeps {event decoded : LocalEvent}
    (read : decodeLocalEvent event.toJson = .ok decoded) :
    decoded.seq = event.seq ∧ decoded.type = event.type ∧ decoded.sender = event.sender
      ∧ decoded.txnId = event.txnId
      ∧ ∃ path, readContent (.object event.content) path event.type = .ok decoded.content := by
  -- The fields are read in the order of the source.
  obtain ⟨members, isRecord, rest⟩ := bind_eq_ok.mp read
  obtain ⟨type, isType, rest⟩ := bind_eq_ok.mp rest
  obtain ⟨seq, isSeq, rest⟩ := bind_eq_ok.mp rest
  obtain ⟨eventId, _, rest⟩ := bind_eq_ok.mp rest
  obtain ⟨roomId, _, rest⟩ := bind_eq_ok.mp rest
  obtain ⟨sender, isSender, rest⟩ := bind_eq_ok.mp rest
  obtain ⟨ts, _, rest⟩ := bind_eq_ok.mp rest
  obtain ⟨txnId, isTxnId, rest⟩ := bind_eq_ok.mp rest
  obtain ⟨content, isContent, rest⟩ := bind_eq_ok.mp rest
  obtain ⟨previousContent, _, same⟩ := bind_eq_ok.mp rest
  rw [record_lineOf] at isRecord
  cases isRecord
  cases same
  -- A type is found by its own text.
  have sameType : type = event.type := by
    have written : literal (.string event.type.text) (joinPath [] (lit "type")) localEventTypes
      = .ok event.type := by
      cases event.type <;> rfl
    have found : literal (.string event.type.text) (joinPath [] (lit "type")) localEventTypes
      = .ok type := isType
    rw [written] at found
    cases found
    rfl
  -- A number that is read is the one that was written.
  have sameSeq : seq = event.seq := by
    obtain ⟨value, isValue, rest⟩ := bind_eq_ok.mp isSeq
    obtain ⟨_, _, same⟩ := bind_eq_ok.mp rest
    cases same
    exact safeInteger_eq_ok isValue
  have sameSender : sender = event.sender := by
    have found : Json.string event.sender = .string sender := readId_eq_ok isSender
    cases found
    rfl
  -- A transaction may be left out, and then it is read as none.
  have sameTxnId : txnId = event.txnId := by
    obtain ⟨_, _, _, _, _, _, written, _, _⟩ := event
    cases written with
    | none =>
      cases isTxnId
      rfl
    | some written =>
      have found : (some <$> readLocalTxnId (.string written) (joinPath [] (lit "txnId")))
        = .ok txnId := isTxnId
      cases reads : readLocalTxnId (.string written) (joinPath [] (lit "txnId")) with
      | error error =>
        rw [reads] at found
        cases found
      | ok value =>
        rw [reads] at found
        cases found
        cases readId_eq_ok reads
        rfl
  rw [content_lineOf, sameType] at isContent
  exact ⟨sameSeq, sameType, sameSender, sameTxnId, _, isContent⟩

/-- A membership content is read for the user that it was written for. -/
theorem user_readMemberContent {written read : Members} {path : Text}
    (reads : readMemberContent (.object written) path = .ok read) :
    textField read (lit "user") = textField written (lit "user") := by
  -- Only the user matters here.
  obtain ⟨members, isRecord, rest⟩ := bind_eq_ok.mp reads
  obtain ⟨kind, _, rest⟩ := bind_eq_ok.mp rest
  obtain ⟨_, _, rest⟩ := bind_eq_ok.mp rest
  obtain ⟨user, isUser, rest⟩ := bind_eq_ok.mp rest
  obtain ⟨membership, _, rest⟩ := bind_eq_ok.mp rest
  obtain ⟨displayname, _, rest⟩ := bind_eq_ok.mp rest
  obtain ⟨harness, _, rest⟩ := bind_eq_ok.mp rest
  obtain ⟨invitedBy, _, rest⟩ := bind_eq_ok.mp rest
  obtain ⟨mode, _, same⟩ := bind_eq_ok.mp rest
  cases same
  -- The record is the one that was written.
  have whole : members = written := by
    simp only [record, object] at isRecord
    split at isRecord
    · cases isRecord
    · split at isRecord
      · cases isRecord
      · cases isRecord
        rfl
  have found : field members (lit "user") = .string user := readId_eq_ok isUser
  rw [whole, field] at found
  -- The user is read as it stands in the record.
  have there : lookup written (lit "user") = some (.string user) := by
    cases looked : lookup written (lit "user") with
    | none =>
      rw [looked] at found
      cases found
    | some value =>
      rw [looked] at found
      exact congrArg some found
  rw [textField, textField, there]
  rfl

/-! ## Channel events -/

/-- A text is read as it is. -/
private theorem text_string {s path value : Text} {maxBytes : Nat}
    (read : text (.string s) path maxBytes = .ok value) :
    value = s := by
  rw [text] at read
  split at read
  · cases read
  · split at read
    · cases read
    · split at read
      · cases read
      · cases read
        rfl

/-- A label is read as it is. -/
private theorem label_string {s path value : Text} {maxBytes : Nat}
    (read : label (.string s) path maxBytes = .ok value) :
    value = s := by
  obtain ⟨written, isText, rest⟩ := bind_eq_ok.mp read
  obtain ⟨_, _, same⟩ := bind_eq_ok.mp rest
  cases same
  exact text_string isText

/-- A text that is not empty is read as it is. -/
private theorem nonempty_string {s path value : Text} (read : nonempty s path = .ok value) :
    value = s := by
  obtain ⟨_, _, same⟩ := bind_eq_ok.mp read
  cases same
  rfl

/-- A text for display is read as it is. -/
private theorem display_string {s path value : Text} {maxBytes maxPoints : Nat}
    (read : display (.string s) path maxBytes maxPoints = .ok value) : value = s := by
  obtain ⟨shown, isShown, rest⟩ := bind_eq_ok.mp read
  obtain ⟨some_, isSome, rest⟩ := bind_eq_ok.mp rest
  obtain ⟨_, _, same⟩ := bind_eq_ok.mp rest
  obtain ⟨written, isLabel, rest'⟩ := bind_eq_ok.mp isShown
  obtain ⟨_, _, same'⟩ := bind_eq_ok.mp rest'
  cases same
  cases same'
  rw [nonempty_string isSome, label_string isLabel]

/-- A checked event comes back as it is, and is not too large. -/
theorem decodeChannelEvent_eq_ok {event decoded : PlainChannelEvent}
    (read : decodeChannelEvent event = .ok decoded) :
    decoded = event ∧ utf8Length (stringify (.object event.members)) ≤ maxChannelEventBytes := by
  -- The size is checked first, on what was given.
  obtain ⟨_, fits, rest⟩ := bind_eq_ok.mp read
  obtain ⟨kind, isKind, rest⟩ := bind_eq_ok.mp rest
  obtain ⟨kind', isKind', rest⟩ := bind_eq_ok.mp rest
  obtain ⟨_, _, rest⟩ := bind_eq_ok.mp rest
  obtain ⟨summary, isSummary, rest⟩ := bind_eq_ok.mp rest
  obtain ⟨_, _, rest⟩ := bind_eq_ok.mp rest
  obtain ⟨body, isBody, rest⟩ := bind_eq_ok.mp rest
  obtain ⟨status, isStatus, rest⟩ := bind_eq_ok.mp rest
  obtain ⟨system, isSystem, rest⟩ := bind_eq_ok.mp rest
  obtain ⟨system', isSystem', same⟩ := bind_eq_ok.mp rest
  -- A status is found by its own name.
  have sameStatus : status = event.status := by
    have found : literal (.string event.status.name)
      (lit "status") channelEventStatuses = .ok event.status := by
      cases event.status <;> rfl
    rw [found] at isStatus
    cases isStatus
    rfl
  cases same
  rw [nonempty_string isKind', label_string isKind, display_string isSummary,
    label_string isBody, sameStatus,
    nonempty_string isSystem', label_string isSystem]
  exact ⟨rfl, by simpa using fits⟩

/-- What is sent for a channel event is read as it is. -/
theorem readContent_encodeChannelEvent {kind summary system : Text} {status : ChannelEventStatus}
    {event : PlainChannelEvent}
    (encoded : encodeChannelEvent kind summary status system = .ok event) (path : Text) :
    readContent (.object event.members) path .channelEvent = .ok event.members := by
  obtain ⟨first, _, second⟩ := bind_eq_ok.mp encoded
  obtain ⟨rfl, fits⟩ := decodeChannelEvent_eq_ok second
  have fits' :
    utf8Length (stringify
      (.object (PlainChannelEvent.members { first with body := formatChannelEventLine first })))
      ≤ contentMaxBytes := Nat.le_trans fits (by decide)
  simp [readContent, contentObject, fits', require, bind, Except.bind, pure, Except.pure]

end Khala.Local
