import Khala.Agent.LocalStore
import Khala.Contracts.EventInverse
import Khala.Contracts.LocalLines

/-! What the reader of a line keeps of the event that was written: all around its content, and that
its content is read. -/

namespace Khala.Local

open Js Decode

/-! ## Events -/

/-- An event whose line is read. -/
def LocalEvent.Readable (event : LocalEvent) : Prop :=
  ∃ decoded, decodeLocalEvent event.toJson = .ok decoded

/-- A line reads back exactly when it is decoded. -/
theorem readable_iff {event : LocalEvent} :
    event.Readable ↔ (decodeLocalEvent event.toJson).isOk = true := by
  -- The event that was decoded need not be named.
  unfold LocalEvent.Readable
  cases decodeLocalEvent event.toJson with
  | error _ => simp [Except.isOk, Except.toBool]
  | ok decoded => simp [Except.isOk, Except.toBool]

instance (event : LocalEvent) : Decidable event.Readable := decidable_of_iff _ readable_iff.symm

/-- A number that is written is read as it is. -/
private theorem safeInteger_written {n value : Nat} {path : Text}
    (read : safeInteger (.number (natNumber n)) path = .ok value) :
    value = n ∧ n ≤ maxSafeInteger := by
  -- The number was spelled in decimal, which reads back as itself.
  simp only [safeInteger, natNumber, spelledNat_decimal] at read
  split at read
  · rename_i safe
    cases read
    exact ⟨rfl, safe⟩
  · cases read

/-- An identifier that is written is read as it is. -/
private theorem readId_written {shape : Text → Bool} {s path value : Text}
    (read : readId shape (.string s) path = .ok value) :
    value = s ∧ shape s = true := by
  -- The reader returns the text that it checked the shape of.
  have same : s = value := Json.string.inj (readId_eq_ok read)
  subst same
  obtain ⟨identified, isId, rest⟩ := bind_eq_ok.mp read
  obtain ⟨_, shaped, returned⟩ := bind_eq_ok.mp rest
  obtain rfl := Except.ok.inj returned
  exact ⟨rfl, require_eq_ok.mp shaped⟩

/-- The members of an event's line. -/
private def membersOf (event : LocalEvent) : Members :=
  [(lit "seq", Json.number (natNumber event.seq)), (lit "eventId", .string event.eventId),
    (lit "roomId", .string event.roomId),
    (lit "type", .string event.type.text), (lit "sender", .string event.sender),
      (lit "ts", .number (natNumber event.ts))]
    ++ (event.txnId.map fun txnId => (lit "txnId", Json.string txnId)).toList
      ++ [(lit "content", Json.object event.content)]

/-- An event's line has the members that a record of an event may have. -/
private theorem record_membersOf (event : LocalEvent) :
    record event.toJson [] [lit "seq", lit "eventId", lit "roomId", lit "type", lit "sender",
      lit "ts", lit "content"]
      [lit "txnId", lit "previousContent"] = .ok (membersOf event) := by
  obtain ⟨_, _, _, _, _, _, txnId, _, _⟩ := event
  cases txnId <;> rfl

/-- The content of an event's line is the event's. -/
private theorem content_membersOf (event : LocalEvent) :
    field (membersOf event) (lit "content") = .object event.content := by
  obtain ⟨_, _, _, _, _, _, txnId, _, _⟩ := event
  cases txnId <;> rfl

/-- What is read of a line is the event that it was written for, with the content as its reader
returns it. -/
theorem decodeLocalEvent_inv {event decoded : LocalEvent}
    (read : decodeLocalEvent event.toJson = .ok decoded) :
    event.Framed ∧ readContent (.object event.content)
      (lit "content") event.type = .ok decoded.content
      ∧ decoded = { event with content := decoded.content, previousContent := none } := by
  -- The reader goes field by field, and each field was written from the event.
  obtain ⟨members, isRecord, rest⟩ := bind_eq_ok.mp read
  obtain ⟨type, isType, rest⟩ := bind_eq_ok.mp rest
  obtain ⟨seq, isSeq, rest⟩ := bind_eq_ok.mp rest
  obtain ⟨eventId, isEventId, rest⟩ := bind_eq_ok.mp rest
  obtain ⟨roomId, isRoomId, rest⟩ := bind_eq_ok.mp rest
  obtain ⟨sender, isSender, rest⟩ := bind_eq_ok.mp rest
  obtain ⟨ts, isTs, rest⟩ := bind_eq_ok.mp rest
  obtain ⟨txnId, isTxnId, rest⟩ := bind_eq_ok.mp rest
  obtain ⟨content, isContent, rest⟩ := bind_eq_ok.mp rest
  obtain ⟨previousContent, isPrevious, same⟩ := bind_eq_ok.mp rest
  rw [record_membersOf] at isRecord
  obtain rfl := Except.ok.inj isRecord
  obtain rfl := Except.ok.inj same
  -- The name of a type is read as that type.
  have typed : literal (.string event.type.text) (joinPath [] (lit "type")) localEventTypes
    = .ok event.type := by
    cases event.type <;> rfl
  obtain rfl : event.type = type := Except.ok.inj (typed.symm.trans isType)
  obtain ⟨number, isNumber, rest⟩ := bind_eq_ok.mp isSeq
  obtain ⟨_, positive, returned⟩ := bind_eq_ok.mp rest
  obtain rfl := Except.ok.inj returned
  obtain ⟨rfl, safe⟩ := safeInteger_written isNumber
  obtain ⟨rfl, shapedId⟩ := readId_written isEventId
  obtain ⟨rfl, shapedRoom⟩ := readId_written isRoomId
  obtain ⟨rfl, shapedSender⟩ := readId_written isSender
  obtain ⟨rfl, safeTs⟩ := safeInteger_written isTs
  have some_ : 1 ≤ event.seq := by
    have nonzero : event.seq ≠ 0 := bne_iff_ne.mp (require_eq_ok.mp positive)
    omega
  -- The transaction may be missing, and is then read as missing.
  have framed : txnId = event.txnId ∧ ∀ txnId ∈ event.txnId, isLocalTxnId txnId = true := by
    obtain ⟨_, _, _, _, _, _, written, _, _⟩ := event
    cases written with
    | none =>
      obtain rfl := Except.ok.inj isTxnId
      exact ⟨rfl, by simp⟩
    | some written =>
      have found : (some <$> readLocalTxnId (.string written) (joinPath [] (lit "txnId")))
        = .ok txnId := isTxnId
      cases reads : readLocalTxnId (.string written) (joinPath [] (lit "txnId")) with
      | error error =>
        rw [reads] at found
        cases found
      | ok value =>
        rw [reads] at found
        obtain rfl := Except.ok.inj found
        obtain ⟨rfl, shaped⟩ := readId_written reads
        exact ⟨rfl, by simpa using shaped⟩
  obtain ⟨rfl, shapedTxn⟩ := framed
  -- No line carries the content from before.
  have none_ : previousContent = none := by
    obtain ⟨_, _, _, _, _, _, written, _, _⟩ := event
    cases written <;> exact (Except.ok.inj isPrevious).symm
  subst none_
  rw [content_membersOf] at isContent
  exact ⟨⟨⟨some_, safe⟩, shapedId, shapedRoom, shapedSender, safeTs, shapedTxn⟩, isContent, rfl⟩

/-! ## Without the harness -/

/-- A field that is removed is gone, and the others are there. -/
theorem lookup_removeField (content : Members) (key other : Text) :
    lookup (removeField content key) other = if other = key then none
      else lookup content other := by
  -- Only members under the key are left out, and a lookup ends at the first member that it meets.
  rw [lookup, removeField, List.find?_filter, lookup]
  split
  · rename_i same
    subst same
    rw [Option.map_eq_none_iff, List.find?_eq_none]
    intro member _
    by_cases own : member.1 = other <;> simp [own]
  · rename_i different
    congr 1
    congr 1
    funext member
    by_cases own : member.1 = other
    · simp [own, different]
    · simp [own]

/-- An object is read as it is when its keys are allowed and the required ones there. -/
theorem record_eq_ok {members read : Members} {path : Text} {required optional : List Text} :
    record (.object members) path required optional = .ok read ↔ read = members
      ∧ (∀ member ∈ members, member.1 ∈ required ++ optional.filter (has (.object members)))
      ∧ ∀ key ∈ required, (lookup members key).isSome = true := by
  -- The reader returns its input, once no member is unknown and no required key is missing.
  have known :
    (members.find? fun member => member.1 ∉ required ++ optional.filter (has (.object members)))
    = none
      ↔ ∀ member ∈ members, member.1 ∈ required ++ optional.filter (has (.object members)) := by
    simp only [List.find?_eq_none, decide_eq_true_eq, not_not]
  have found : ((required ++ optional.filter (has (.object members))).find? fun key =>
    (lookup members key).isNone) = none
      ↔ ∀ key ∈ required, (lookup members key).isSome = true := by
    -- The optional keys are those that are there.
    rw [List.find?_eq_none]
    constructor
    · intro all key inside
      simpa [Option.isSome_iff_ne_none] using all key (List.mem_append_left _ inside)
    · intro all key inside
      rcases List.mem_append.mp inside with needed | present
      · simpa [Option.isSome_iff_ne_none] using all key needed
      · have there : (lookup members key).isSome = true := (List.mem_filter.mp present).2
        simpa [Option.isSome_iff_ne_none] using there
  unfold record object
  constructor
  · intro read
    dsimp only at read
    split at read
    · cases read
    · rename_i isKnown
      split at read
      · cases read
      · rename_i isFound
        exact ⟨(Except.ok.inj read).symm, known.mp isKnown, found.mp isFound⟩
  · rintro ⟨rfl, isKnown, isFound⟩
    simp only [known.mpr isKnown, found.mpr isFound]

/-- A membership without its harness is read as well. -/
theorem readMemberContent_removed {content read : Members} {path : Text}
    (reads : readMemberContent (.object content) path = .ok read) :
    ∃ read', readMemberContent (.object (removeField content (lit "harness"))) path
      = .ok read' := by
  -- Every other field is read as it was, and an optional harness may be missing.
  obtain ⟨members, isRecord, rest⟩ := bind_eq_ok.mp reads
  obtain ⟨kind, isKind, rest⟩ := bind_eq_ok.mp rest
  obtain ⟨_, agentKeys, rest⟩ := bind_eq_ok.mp rest
  obtain ⟨user, isUser, rest⟩ := bind_eq_ok.mp rest
  obtain ⟨membership, isMembership, rest⟩ := bind_eq_ok.mp rest
  obtain ⟨displayname, isName, rest⟩ := bind_eq_ok.mp rest
  obtain ⟨harness, -, rest⟩ := bind_eq_ok.mp rest
  obtain ⟨invitedBy, isInvited, rest⟩ := bind_eq_ok.mp rest
  obtain ⟨mode, isMode, -⟩ := bind_eq_ok.mp rest
  obtain ⟨rfl, known, required⟩ := record_eq_ok.mp isRecord
  have same : ∀ {key}, key ≠ lit "harness" →
    lookup (removeField members (lit "harness")) key = lookup members key :=
    fun other => by rw [lookup_removeField, if_neg other]
  have gone : has (.object (removeField members (lit "harness"))) (lit "harness") = false := by
    rw [has, lookup_removeField, if_pos rfl]
    rfl
  have present : ∀ {key}, key ≠ lit "harness" →
      has (.object (removeField members (lit "harness"))) key = has (.object members) key :=
    fun other => by rw [has, has, same other]
  have fields : ∀ {key}, key ≠ lit "harness" →
    field (removeField members (lit "harness")) key = field members key :=
    fun other => by rw [field, field, same other]
  -- The known keys are those of the whole content, less the one that is gone.
  have isRecord' : record (.object (removeField members (lit "harness"))) path [lit "user",
    lit "membership", lit "displayname", lit "kind"]
      [lit "harness", lit "invitedBy", listeningModeKey]
        = .ok (removeField members (lit "harness")) := by
    refine record_eq_ok.mpr ⟨rfl, fun member inside => ?_, fun key inside => ?_⟩
    · obtain ⟨old, other⟩ := List.mem_filter.mp inside
      have other : member.1 ≠ lit "harness" := by simpa using other
      rcases List.mem_append.mp (known member old) with needed | optional
      · exact List.mem_append_left _ needed
      · obtain ⟨listed, there⟩ := List.mem_filter.mp optional
        exact List.mem_append_right _ (List.mem_filter.mpr ⟨listed, (present other).trans there⟩)
    · have other : key ≠ lit "harness" := by
        rintro rfl
        exact absurd inside (by decide)
      rw [same other]
      exact required key inside
  have optionals : ∀ {key : Text} {reader : Json → Text → Decoded Text}, key ≠ lit "harness" →
      optionalField (.object (removeField members (lit "harness")))
        (removeField members (lit "harness")) path key reader
        = optionalField (.object members) members path key reader :=
    fun other => by rw [optionalField, optionalField, present other, fields other]
  -- The check against agents' keys finds at most the mode.
  have agentKeys' : withoutAgentKeys (.object (removeField members (lit "harness"))) path kind
    = .ok () := by
    obtain ⟨_, -, moded⟩ := bind_eq_ok.mp agentKeys
    refine bind_eq_ok.mpr ⟨(), ?_, ?_⟩
    · rw [gone, Bool.and_false]
      rfl
    · rw [present (by decide)]
      exact moded
  refine ⟨_, bind_eq_ok.mpr ⟨_, isRecord',
    bind_eq_ok.mpr ⟨kind, ?_, bind_eq_ok.mpr ⟨(), agentKeys', bind_eq_ok.mpr ⟨user, ?_,
    bind_eq_ok.mpr ⟨membership, ?_,
      bind_eq_ok.mpr ⟨displayname, ?_, bind_eq_ok.mpr ⟨[], ?_, bind_eq_ok.mpr ⟨invitedBy, ?_,
      bind_eq_ok.mpr ⟨mode, ?_, rfl⟩⟩⟩⟩⟩⟩⟩⟩⟩⟩
  · rw [fields (by decide)]
    exact isKind
  · rw [fields (by decide)]
    exact isUser
  · rw [fields (by decide)]
    exact isMembership
  · rw [fields (by decide)]
    exact isName
  · rw [optionalField, gone]
    rfl
  · rw [optionals (by decide)]
    exact isInvited
  · rw [optionals (by decide)]
    exact isMode

/-- A membership event that is read is read without its harness as well. -/
theorem LocalEvent.Readable.removed {event : LocalEvent} (readable : event.Readable)
    (member : event.type = .member) :
    ({ event with content := removeField event.content (lit "harness") } :
      LocalEvent).Readable := by
  -- The frame of the event is the same, and its content is read without the harness.
  obtain ⟨decoded, read⟩ := readable
  obtain ⟨framed, reads, -⟩ := decodeLocalEvent_inv read
  rw [member] at reads
  obtain ⟨content, reads'⟩ := readMemberContent_removed reads
  have framed' : ({ event with content := removeField event.content (lit "harness") } :
    LocalEvent).Framed :=
    ⟨framed.seq, framed.eventId, framed.roomId, framed.sender, framed.ts, framed.txnId⟩
  have reads'' : readContent (.object (removeField event.content (lit "harness")))
    (lit "content") event.type = .ok content := by
    rw [member]
    exact reads'
  exact ⟨_, decodeLocalEvent_toJson framed' reads''⟩

/-- What is written on the line of a membership event is read, if the event itself is. -/
theorem readable_placed {harnesses harnesses' : Map Text Text} {event : LocalEvent}
    {inMemory onLine : Members} (member : event.type = .member)
    (placed : placeHarness harnesses event.content = some (inMemory, onLine, harnesses'))
    (readable : ({ event with content := inMemory } : LocalEvent).Readable) :
    ({ event with content := onLine } : LocalEvent).Readable := by
  -- The line either lacks the harness that memory has, or is what memory has.
  unfold placeHarness at placed
  dsimp only at placed
  split at placed
  · split at placed
    · split at placed
      · -- The harness goes to its own file.
        simp only [Option.some.injEq, Prod.mk.injEq] at placed
        obtain ⟨rfl, rfl, -⟩ := placed
        exact readable.removed member
      · cases placed
    · simp only [Option.some.injEq, Prod.mk.injEq] at placed
      obtain ⟨rfl, rfl, -⟩ := placed
      exact readable
  · cases placed
  · rename_i absent
    split at placed
    · -- The line is what the event in memory is without the harness of its user.
      rename_i harness _
      simp only [Option.some.injEq, Prod.mk.injEq] at placed
      obtain ⟨rfl, rfl, -⟩ := placed
      have without : removeField (event.content ++ [(lit "harness", Json.string harness)])
        (lit "harness") = event.content := by
        rw [removeField, List.filter_append]
        have kept :
          event.content.filter (fun member => member.1 ≠ lit "harness") = event.content := by
          rw [List.filter_eq_self]
          intro member inside
          rw [lookup, Option.map_eq_none_iff, List.find?_eq_none] at absent
          simpa using absent member inside
        rw [kept]
        simp
      have removed := readable.removed member
      dsimp only at removed
      rw [without] at removed
      exact removed
    · simp only [Option.some.injEq, Prod.mk.injEq] at placed
      obtain ⟨rfl, rfl, -⟩ := placed
      exact readable

/-! ## Contents as they are read -/

/-- The members under some keys, in their order. -/
def relist (content : Members) (keys : List Text) : Members :=
  keys.flatMap fun key => ((lookup content key).map fun value => (key, value)).toList

/-- A key is listed anew with its value. -/
theorem lookup_relist (content : Members) {keys : List Text} (distinct : keys.Nodup) (key : Text) :
    lookup (relist content keys) key = if key ∈ keys then lookup content key else none := by
  -- The keys are distinct, so the first member under a key is the only one.
  induction keys with
  | nil => rfl
  | cons first rest ih =>
    obtain ⟨fresh, distinct⟩ := List.nodup_cons.mp distinct
    have later := ih distinct
    rw [relist, List.flatMap_cons]
    change lookup (((lookup content first).map fun value => (first, value)).toList
      ++ relist content rest) key = _
    by_cases own : key = first
    · subst own
      rw [if_neg fresh] at later
      rw [if_pos List.mem_cons_self]
      cases found : lookup content key with
      | none => simpa using later
      | some value => simp [lookup]
    · have elsewhere :
        lookup (((lookup content first).map fun value => (first, value)).toList
          ++ relist content rest) key
          = lookup (relist content rest) key := by
        cases lookup content first with
        | none => rfl
        | some value =>
          have other : (first == key) = false := by simpa using Ne.symm own
          simp [lookup, other]
      rw [elsewhere, later]
      simp [own]

/-- Contents that agree on the keys are listed alike. -/
theorem relist_congr {content content' : Members} {keys : List Text}
    (same : ∀ key ∈ keys, lookup content' key = lookup content key) :
    relist content' keys = relist content keys := by
  induction keys with
  | nil => rfl
  | cons first rest ih =>
    obtain ⟨own, others⟩ := List.forall_mem_cons.mp same
    rw [relist, relist, List.flatMap_cons, List.flatMap_cons, own]
    exact congrArg _ (ih others)

/-- Listing keys is listing one and then the others. -/
private theorem relist_cons (content : Members) (key : Text) (keys : List Text) :
    relist content (key :: keys) = ((lookup content key).map fun value => (key, value)).toList
      ++ relist content keys := rfl

/-- A field that is text is there. -/
private theorem lookup_of_field {members : Members} {key value : Text}
    (is : field members key = .string value) :
    lookup members key = some (.string value) := by
  rw [field] at is
  cases found : lookup members key with
  | none =>
    rw [found] at is
    cases is
  | some there =>
    rw [found] at is
    exact congrArg some is

/-- A word that is read was text. -/
private theorem oneOf_string {words : List Text} {input : Json} {path value : Text}
    (reads : oneOf words input path = .ok value) :
    input = .string value := by
  -- Only a string is looked for among the words, and the word found is that string.
  cases input with
  | string s =>
    rw [oneOf, literal] at reads
    split at reads
    · rename_i found
      rw [Except.ok.inj reads] at found
      obtain ⟨before, after, split, -⟩ := List.lookup_eq_some_iff.mp found
      have inside : (s, value) ∈ words.map fun word => (word, word) := by simp [split]
      obtain ⟨word, -, same⟩ := List.mem_map.mp inside
      obtain ⟨rfl, rfl⟩ := Prod.mk.inj same
      rfl
    · cases reads
  | _ => cases reads

/-- A display name that is read was text. -/
private theorem displayName_string {input : Json} {path value : Text}
    (reads : displayName input path = .ok value) :
    input = .string value := by
  obtain ⟨shown, isText, rest⟩ := bind_eq_ok.mp reads
  obtain ⟨_, -, same⟩ := bind_eq_ok.mp rest
  obtain rfl := Except.ok.inj same
  obtain ⟨labelled, isLabel, rest⟩ := bind_eq_ok.mp isText
  obtain ⟨_, -, same⟩ := bind_eq_ok.mp rest
  obtain rfl := Except.ok.inj same
  exact (Event.label_ok isLabel).1

/-- A channel name that is read was text. -/
private theorem channelName_string {input : Json} {path value : Text}
    (reads : channelName input path = .ok value) :
    input = .string value := by
  obtain ⟨shown, isName, rest⟩ := bind_eq_ok.mp reads
  obtain ⟨_, -, rest⟩ := bind_eq_ok.mp rest
  obtain ⟨_, -, same⟩ := bind_eq_ok.mp rest
  obtain rfl := Except.ok.inj same
  exact displayName_string isName

/-- A harness that is read was text. -/
private theorem readHarness_string {input : Json} {path value : Text}
    (reads : readHarness input path = .ok value) :
    input = .string value := by
  cases input with
  | string s =>
    obtain ⟨_, -, same⟩ := bind_eq_ok.mp reads
    exact congrArg Json.string (Except.ok.inj same)
  | _ => cases reads

/-- An optional member is read as it is, or is not there. -/
private theorem optionalField_eq {members read : Members} {path key : Text}
    {reader : Json → Text → Decoded Text}
    (string : ∀ {input path value}, reader input path = .ok value → input = .string value)
    (reads : optionalField (.object members) members path key reader = .ok read) :
    read = ((lookup members key).map fun value => (key, value)).toList := by
  -- The reader gives back the string that it read, so the member is the one that stood there.
  unfold optionalField at reads
  split at reads
  · obtain ⟨value, isValue, same⟩ := bind_eq_ok.mp reads
    obtain rfl := Except.ok.inj same
    rw [lookup_of_field (string isValue)]
    rfl
  · rename_i absent
    obtain rfl := Except.ok.inj reads
    have gone : lookup members key = none := by
      rw [has] at absent
      simpa using absent
    rw [gone]
    rfl

def createKeys : List Text := [lit "name", lit "createdBy", lit "operationId"]

def memberKeys : List Text :=
  [lit "user", lit "membership", lit "displayname", lit "kind", lit "harness", lit "invitedBy",
    listeningModeKey]

/-- What is read of a creation is its known keys. -/
theorem readCreateContent_eq {content read : Members} {path : Text}
    (reads : readCreateContent (.object content) path = .ok read) :
    read = relist content createKeys := by
  -- The reader lists its fields in the order of the keys.
  obtain ⟨members, isRecord, rest⟩ := bind_eq_ok.mp reads
  obtain ⟨name, isName, rest⟩ := bind_eq_ok.mp rest
  obtain ⟨createdBy, isCreator, rest⟩ := bind_eq_ok.mp rest
  obtain ⟨operationId, isOperation, same⟩ := bind_eq_ok.mp rest
  obtain ⟨rfl, -, -⟩ := record_eq_ok.mp isRecord
  obtain rfl := Except.ok.inj same
  rw [optionalField_eq readId_eq_ok isOperation, createKeys, relist_cons, relist_cons, relist_cons,
    lookup_of_field (channelName_string isName), lookup_of_field (readId_eq_ok isCreator)]
  simp [relist]

/-- What is read of a naming is its name. -/
theorem readNameContent_eq {content read : Members} {path : Text}
    (reads : readNameContent (.object content) path = .ok read) :
    read = relist content [lit "name"] := by
  obtain ⟨members, isObject, rest⟩ := bind_eq_ok.mp reads
  obtain ⟨name, isName, same⟩ := bind_eq_ok.mp rest
  have isRecord : record (.object content) path [lit "name"] [] = .ok members := isObject
  obtain ⟨rfl, -, -⟩ := record_eq_ok.mp isRecord
  obtain rfl := Except.ok.inj same
  rw [relist_cons, lookup_of_field (channelName_string isName)]
  rfl

/-- What is read of a membership is its known keys. -/
theorem readMemberContent_eq {content read : Members} {path : Text}
    (reads : readMemberContent (.object content) path = .ok read) :
    read = relist content memberKeys := by
  -- The reader lists its fields in the order of the keys.
  obtain ⟨members, isRecord, rest⟩ := bind_eq_ok.mp reads
  obtain ⟨kind, isKind, rest⟩ := bind_eq_ok.mp rest
  obtain ⟨_, -, rest⟩ := bind_eq_ok.mp rest
  obtain ⟨user, isUser, rest⟩ := bind_eq_ok.mp rest
  obtain ⟨membership, isMembership, rest⟩ := bind_eq_ok.mp rest
  obtain ⟨displayname, isName, rest⟩ := bind_eq_ok.mp rest
  obtain ⟨harness, isHarness, rest⟩ := bind_eq_ok.mp rest
  obtain ⟨invitedBy, isInvited, rest⟩ := bind_eq_ok.mp rest
  obtain ⟨mode, isMode, same⟩ := bind_eq_ok.mp rest
  obtain ⟨rfl, -, -⟩ := record_eq_ok.mp isRecord
  obtain rfl := Except.ok.inj same
  rw [optionalField_eq readHarness_string isHarness, optionalField_eq readId_eq_ok isInvited,
    optionalField_eq oneOf_string isMode,
    memberKeys, relist_cons, relist_cons, relist_cons, relist_cons, relist_cons,
      relist_cons, relist_cons,
    lookup_of_field (readId_eq_ok isUser), lookup_of_field (oneOf_string isMembership),
      lookup_of_field (displayName_string isName),
    lookup_of_field (oneOf_string isKind)]
  simp [relist]

/-! ## What lasts of an event -/

/-- What of a content lasts when it is read again: all of a message, and of a membership all but the
harness. -/
def lastingContent (type : LocalEventType) (content : Members) : Members :=
  match type with
  | .create => relist content createKeys
  | .name => relist content [lit "name"]
  | .member => relist content (memberKeys.filter (· ≠ lit "harness"))
  | .message | .channelEvent | .listeningMode => content

/-- What of an event lasts when its line is read again. -/
def LocalEvent.lasting (event : LocalEvent) : LocalEvent :=
  { event with content := lastingContent event.type event.content, previousContent := none }

/-- What lasts of a membership does not depend on the harness. -/
theorem lastingContent_congr {content content' : Members}
    (same : ∀ key, key ≠ lit "harness" → lookup content' key = lookup content key) :
    lastingContent .member content' = lastingContent .member content :=
  relist_congr fun key inside => same key (by simpa using (List.mem_filter.mp inside).2)

/-- What lasts of a content lasts of what is read of it. -/
theorem lastingContent_read {type : LocalEventType} {content read : Members} {path : Text}
    (reads : readContent (.object content) path type = .ok read) :
    lastingContent type read = lastingContent type content := by
  -- What is read holds the keys that are listed, and to list them again changes nothing.
  cases type with
  | create =>
    rw [readCreateContent_eq reads]
    exact relist_congr fun key inside => by rw [lookup_relist _ (by decide), if_pos inside]
  | name =>
    rw [readNameContent_eq reads]
    exact relist_congr fun key inside => by rw [lookup_relist _ (by decide), if_pos inside]
  | member =>
    rw [readMemberContent_eq reads]
    exact relist_congr
      fun key inside => by rw [lookup_relist _ (by decide), if_pos (List.mem_filter.mp inside).1]
  | message =>
    obtain ⟨content, isContent, rest⟩ := bind_eq_ok.mp reads
    obtain ⟨_, -, same⟩ := bind_eq_ok.mp rest
    obtain ⟨_, -, same'⟩ := bind_eq_ok.mp isContent
    obtain rfl := Except.ok.inj same
    exact (Except.ok.inj same').symm
  | channelEvent =>
    obtain ⟨_, -, same⟩ := bind_eq_ok.mp reads
    exact (Except.ok.inj same).symm
  | listeningMode =>
    obtain ⟨_, -, same⟩ := bind_eq_ok.mp reads
    exact (Except.ok.inj same).symm

/-- What lasts of an event lasts of what is decoded of its line. -/
theorem lasting_decoded {event decoded : LocalEvent}
    (read : decodeLocalEvent event.toJson = .ok decoded) :
    decoded.lasting = event.lasting := by
  -- Only the content is read anew, and what lasts of it is the same.
  obtain ⟨-, reads, same⟩ := decodeLocalEvent_inv read
  have content := lastingContent_read reads
  rw [same, LocalEvent.lasting, LocalEvent.lasting]
  dsimp only
  rw [content]

/-- A harness at the end leaves the other fields. -/
private theorem lookup_concat_harness (content : Members) (value : Json) {key : Text}
    (other : key ≠ lit "harness") :
    lookup (content ++ [(lit "harness", value)]) key = lookup content key := by
  have last : (lit "harness" == key) = false := by simpa using Ne.symm other
  rw [lookup, List.find?_append, lookup]
  simp [last]

/-- The harness does not last. -/
theorem lasting_withHarness (harnesses : Map Text Text) (event : LocalEvent) :
    (withHarness harnesses event).lasting = event.lasting := by
  -- A harness is added to memberships alone, and does not last.
  unfold withHarness
  split
  · rename_i member _ _
    rw [LocalEvent.lasting, LocalEvent.lasting]
    dsimp only
    rw [member, lastingContent_congr fun key other => lookup_concat_harness event.content _ other]
  · rfl

/-- The event in memory and the event on the line last as the same. -/
theorem lasting_placed {harnesses harnesses' : Map Text Text} {event : LocalEvent}
    {inMemory onLine : Members} (member : event.type = .member)
    (placed : placeHarness harnesses event.content = some (inMemory, onLine, harnesses')) :
    ({ event with content := onLine } : LocalEvent).lasting = ({ event with content := inMemory } :
      LocalEvent).lasting := by
  -- Memory and line differ at most under the harness's key.
  have same : ∀ key, key ≠ lit "harness" → lookup onLine key = lookup inMemory key := by
    intro key other
    unfold placeHarness at placed
    dsimp only at placed
    split at placed
    · split at placed
      · split at placed
        · simp only [Option.some.injEq, Prod.mk.injEq] at placed
          obtain ⟨rfl, rfl, -⟩ := placed
          rw [lookup_removeField, if_neg other]
        · cases placed
      · simp only [Option.some.injEq, Prod.mk.injEq] at placed
        obtain ⟨rfl, rfl, -⟩ := placed
        rfl
    · cases placed
    · split at placed
      · simp only [Option.some.injEq, Prod.mk.injEq] at placed
        obtain ⟨rfl, rfl, -⟩ := placed
        exact (lookup_concat_harness event.content _ other).symm
      · simp only [Option.some.injEq, Prod.mk.injEq] at placed
        obtain ⟨rfl, rfl, -⟩ := placed
        rfl
  rw [LocalEvent.lasting, LocalEvent.lasting]
  dsimp only
  rw [member, lastingContent_congr same]

end Khala.Local
