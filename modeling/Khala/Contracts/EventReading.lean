import Khala.Contracts.EventContent
import Khala.Contracts.JsonSize

/-! Which contents the decoder and the encoder of channel events accept. -/

namespace Khala.Event

open Js Decode

/-! ## Looking up members -/

/-- A field is found in the first members, or else in the second. -/
theorem lookup_append (one two : Members) (key : Text) :
    lookup (one ++ two) key = (lookup one key).or (lookup two key) := by
  simp only [lookup, List.find?_append]
  cases one.find? fun member => member.1 == key <;> rfl

/-- A member is found under its own key. -/
theorem lookup_member (key other : Text) (value : Option Json) :
    lookup (member key value) other = if key = other then value else none := by
  cases value with
  | none => simp [member, lookup]
  | some value => by_cases same : key = other <;> simp [member, lookup, same]

/-- A field is found at the head, or else in the rest. -/
theorem lookup_cons (key other : Text) (value : Json) (rest : Members) :
    lookup ((key, value) :: rest) other = if key = other then some value
      else lookup rest other := by
  by_cases same : key = other <;> simp [lookup, same]

/-- Nothing is found where there is nothing. -/
theorem lookup_nil (key : Text) : lookup [] key = none := rfl

/-- Members in which a subject is found, in any order. -/
structure Subject.Found (members : Members) (subject : Subject) : Prop where
  ticket : lookup members (lit "ticket") = subject.ticket.map .string
  pr : lookup members (lit "pr") = subject.pr.map fun pr => .number (natNumber pr)
  branch : lookup members (lit "branch") = subject.branch.map .string
  repo : lookup members (lit "repo") = subject.repo.map .string
  sha : lookup members (lit "sha") = subject.sha.map .string

structure Source.Found (members : Members) (source : Source) : Prop where
  system : lookup members (lit "system") = some (.string source.system)
  topic : lookup members (lit "topic") = source.topic.map .string
  eventId : lookup members (lit "event_id") = source.eventId.map .string

/-- A payload is that of a kind of coordination, and is read as it is. -/
def Content.Payload (content : Content) : Prop :=
  ∀ data, content.data = some data → isCoordinationKind content.kind = true
    ∧ readData content.kind (.object data) = .ok data

/-- Members in which a content is found, in any order. -/
structure Content.Found (members : Members) (content : Content) : Prop where
  /-- The version is one. -/
  v : lookup members (lit "v") = some (.number (natNumber 1))
  kind : lookup members (lit "kind") = some (.string content.kind)
  summary : lookup members (lit "summary") = some (.string content.summary)
  body : lookup members (lit "body") = some (.string content.body)
  status : lookup members (lit "status") = content.status.map fun status => .string status.name
  subject : ∃ find : Subject → Members, (∀ subject : Subject, subject.Found (find subject))
    ∧ lookup members (lit "subject") = content.subject.map fun subject => .object (find subject)
  actor : lookup members (lit "actor") = content.actor.map .string
  url : lookup members (lit "url") = content.url.map .string
  occurredAt : lookup members (lit "occurred_at") = content.occurredAt.map .string
  source : lookup members (lit "source") = content.source.map fun source => .object source.members
  key : lookup members (lit "key") = content.key.map .string
  data : lookup members (lit "data") = content.data.map .object
  /-- The payload belongs to the kind. -/
  payload : content.Payload

/-- A subject is found in its members. -/
theorem Subject.found_members (subject : Subject) : subject.Found subject.members := by
  constructor <;> simp +decide [Subject.members, lookup_append, lookup_member]

/-- A source is found in its members. -/
theorem Source.found_members (source : Source) : source.Found source.members := by
  constructor <;> simp +decide [Source.members, lookup_append, lookup_member, lookup_cons]

/-- A content is found in its own members. -/
theorem Content.found_members {content : Content} (payload : content.Payload) :
    content.Found content.members where
  subject := ⟨Subject.members, Subject.found_members,
    by simp +decide [Content.members, lookup_append, lookup_member, lookup_cons]⟩
  payload := payload
  -- Each field is found behind those written before it.
  v := by simp +decide [Content.members, lookup_cons]
  kind := by simp +decide [Content.members, lookup_cons]
  summary := by simp +decide [Content.members, lookup_cons]
  body := by simp +decide [Content.members, lookup_cons]
  status := by simp +decide [Content.members, lookup_append, lookup_member, lookup_cons]
  actor := by simp +decide [Content.members, lookup_append, lookup_member, lookup_cons]
  url := by simp +decide [Content.members, lookup_append, lookup_member, lookup_cons]
  occurredAt := by simp +decide [Content.members, lookup_append, lookup_member, lookup_cons]
  source := by simp +decide [Content.members, lookup_append, lookup_member, lookup_cons]
  key := by simp +decide [Content.members, lookup_append, lookup_member, lookup_cons]
  data := by simp +decide [Content.members, lookup_append, lookup_member, lookup_cons]

/-! ## What is accepted -/

structure Subject.Checks (subject : Subject) : Prop where
  ticket : ∀ ticket, subject.ticket = some ticket → IsDisplay 256 64 ticket
  pr : ∀ pr, subject.pr = some pr → pr ≤ maxSafeInteger ∧ pr ≠ 0
  branch : ∀ branch, subject.branch = some branch →
    (IsLabel 255 branch ∧ branch ≠ []) ∧ (lit "refs/").isPrefixOf branch = false
  repo : ∀ repo, subject.repo = some repo → IsLabel 140 repo ∧ isRepo repo = true
  sha : ∀ sha, subject.sha = some sha → IsLabel 64 sha ∧ isSha sha = true

structure Source.Checks (source : Source) : Prop where
  system : IsLabel 32 source.system ∧ source.system ≠ []
  topic : ∀ topic, source.topic = some topic → IsLabel 256 topic
  eventId : ∀ eventId, source.eventId = some eventId → IsLabel 64 eventId

/-- What the decoder checks of a content's fields. -/
structure Content.Checks (isHttps : Text → Bool) (content : Content) : Prop where
  kind : (IsLabel 128 content.kind ∧ content.kind ≠ []) ∧ isKind content.kind = true
  summary : IsDisplay 800 200 content.summary ∧ trim content.summary ≠ []
  body : IsLabel 1024 content.body
  subject : ∀ subject, content.subject = some subject → subject.Checks
  actor : ∀ actor, content.actor = some actor → IsDisplay 256 64 actor
  url : ∀ url, content.url = some url → utf8Length url ≤ 2048 ∧ isHttps url = true
  occurredAt : ∀ occurredAt, content.occurredAt = some occurredAt →
    utcTimestamp (.string occurredAt) [] = .ok occurredAt
  source : ∀ source, content.source = some source → source.Checks
  key : ∀ key, content.key = some key → IsLabel 200 key ∧ key ≠ []

section

variable {α : Type} {read : Json → Decoded α} {Accepts : α → Prop} {members : Members} {key : Text}
    {value result : Option α}

/-- An optional member whose reader returns what was written, if it accepts it. -/
theorem optional_eq_ok {write : α → Json} (found : lookup members key = value.map write)
    (reads : ∀ a result, read (write a) = .ok result ↔ result = a ∧ Accepts a) :
    optional members key read = .ok result ↔ result = value ∧ ∀ a, value = some a → Accepts a := by
  -- A field that is not there is read as none, and one that is there has to be accepted.
  cases value with
  | none =>
    rw [optional, found]
    simp [eq_comm]
  | some a =>
    rw [optional, found]
    cases reading : read (write a) with
    | error error =>
      have refused : ¬ Accepts a := fun accepts => by
        have := (reads a a).mpr ⟨rfl, accepts⟩
        rw [reading] at this
        cases this
      simp [reading, refused, Functor.map, Except.map]
    | ok read =>
      obtain ⟨rfl, accepts⟩ := (reads a read).mp reading
      simp [reading, accepts, Functor.map, Except.map, eq_comm]

end

/-- Which numbers are read as those of pull requests. -/
theorem readPr_eq_ok {pr result : Nat} {path : Text} :
    readPr (.number (natNumber pr)) path = .ok result ↔ result = pr ∧ pr ≤ maxSafeInteger
      ∧ pr ≠ 0 := by
  simp only [readPr, bind_eq_ok, safeInteger_eq_ok, require_eq_ok, decide_eq_true_eq, pure,
    Except.pure, Except.ok.injEq]
  constructor
  · rintro ⟨_, ⟨rfl, safe⟩, _, positive, rfl⟩
    exact ⟨rfl, safe, positive⟩
  · rintro ⟨rfl, safe, positive⟩
    exact ⟨result, ⟨rfl, safe⟩, (), positive, rfl⟩

/-- Which texts are read as not empty. -/
theorem readNonempty_eq_ok {s path result : Text} {maxBytes : Nat} :
    readNonempty (.string s) path maxBytes = .ok result ↔ result = s
      ∧ IsLabel maxBytes s ∧ s ≠ [] :=
  label_nonempty_eq_ok

/-- Which texts are read as branches. -/
theorem readBranch_eq_ok {s path result : Text} : readBranch (.string s) path = .ok result
    ↔ result = s ∧ (IsLabel 255 s ∧ s ≠ []) ∧ (lit "refs/").isPrefixOf s = false := by
  simp only [readBranch, bind_eq_ok, label_eq_ok, nonempty_eq_ok, require_eq_ok, Bool.not_eq_true',
    pure, Except.pure,
    Except.ok.injEq]
  constructor
  · rintro ⟨_, ⟨rfl, isLabel⟩, _, ⟨rfl, some_⟩, _, short, rfl⟩
    exact ⟨rfl, ⟨isLabel, some_⟩, short⟩
  · rintro ⟨rfl, ⟨isLabel, some_⟩, short⟩
    exact ⟨result, ⟨rfl, isLabel⟩, result, ⟨rfl, some_⟩, (), short, rfl⟩

/-- Which texts match a pattern. -/
theorem matching_eq_ok {value path result : Text} {pattern : Text → Bool} :
    matching value path pattern = .ok result ↔ result = value ∧ pattern value = true := by
  simp only [matching, bind_eq_ok, require_eq_ok, pure, Except.pure, Except.ok.injEq]
  constructor
  · rintro ⟨_, matches_, rfl⟩
    exact ⟨rfl, matches_⟩
  · rintro ⟨rfl, matches_⟩
    exact ⟨(), matches_, rfl⟩

/-- Which texts are read as labels of a pattern. -/
theorem readMatching_eq_ok {s path result : Text} {maxBytes : Nat} {pattern : Text → Bool} :
    readMatching (.string s) path maxBytes pattern = .ok result ↔ result = s ∧ IsLabel maxBytes s
      ∧ pattern s = true := by
  simp only [readMatching, bind_eq_ok, label_eq_ok, matching_eq_ok]
  constructor
  · rintro ⟨_, ⟨rfl, isLabel⟩, rfl, matches_⟩
    exact ⟨rfl, isLabel, matches_⟩
  · rintro ⟨rfl, isLabel, matches_⟩
    exact ⟨result, ⟨rfl, isLabel⟩, rfl, matches_⟩

/-- A subject that is found is read when it is checked. -/
theorem readSubject_eq_ok {members : Members} {subject result : Subject}
    (found : subject.Found members) :
    readSubject (.object members) = .ok result ↔ result = subject ∧ subject.Checks := by
  -- Each field of the subject is found where it was written.
  have pr (read) :=
    @optional_eq_ok _ (fun value => readPr value (joinPath (lit "subject") (lit "pr"))) _ _ _ _
    read _ found.pr
    fun _ _ => readPr_eq_ok
  have branch (read) :=
    @optional_eq_ok _ (fun value => readBranch value (joinPath (lit "subject") (lit "branch")))
    _ _ _ _ read _
    found.branch fun _ _ => readBranch_eq_ok
  have ticket (read) :=
    @optional_eq_ok _ (fun value =>
      display value (joinPath (lit "subject") (lit "ticket")) 256 64) _ _ _ _
    read _ found.ticket fun _ _ => display_eq_ok
  have repo (read) :=
    @optional_eq_ok _ (fun value =>
      readMatching value (joinPath (lit "subject") (lit "repo")) 140 isRepo) _ _ _ _
    read _ found.repo fun _ _ => readMatching_eq_ok
  have sha (read) :=
    @optional_eq_ok _ (fun value =>
      readMatching value (joinPath (lit "subject") (lit "sha")) 64 isSha) _ _ _ _
    read _ found.sha fun _ _ => readMatching_eq_ok
  simp only [readSubject, record, bind_eq_ok, Except.ok.injEq, exists_eq_left', pr, branch, ticket,
    repo, sha, pure, Except.pure]
  -- The reads succeed one after the other, exactly when each check passes.
  constructor
  · rintro ⟨_, ⟨rfl, pr⟩, _, ⟨rfl, branch⟩, _, ⟨rfl, ticket⟩, _, ⟨rfl, repo⟩, _, ⟨rfl, sha⟩, rfl⟩
    exact ⟨rfl, ticket, pr, branch, repo, sha⟩
  · rintro ⟨rfl, checks⟩
    exact ⟨_, ⟨rfl, checks.pr⟩, _, ⟨rfl, checks.branch⟩, _, ⟨rfl, checks.ticket⟩, _,
      ⟨rfl, checks.repo⟩, _,
      ⟨rfl, checks.sha⟩, rfl⟩

/-- A source that is found is read when it is checked. -/
theorem readSource_eq_ok {members : Members} {source result : Source}
    (found : source.Found members) :
    readSource (.object members) = .ok result ↔ result = source ∧ source.Checks := by
  -- The same for the source, whose system is always there.
  have topic (read) :=
    @optional_eq_ok _ (fun value => label value (joinPath (lit "source") (lit "topic")) 256) _ _ _ _
    read _ found.topic fun _ _ => label_eq_ok
  have eventId (read) :=
    @optional_eq_ok _ (fun value =>
      label value (joinPath (lit "source") (lit "event_id")) 64) _ _ _ _
    read _ found.eventId fun _ _ => label_eq_ok
  have system : field members (lit "source")
    (lit "system") = .ok (.string source.system) := by rw [field, found.system]
  simp only [readSource, record, bind_eq_ok, Except.ok.injEq, exists_eq_left', system,
    readNonempty_eq_ok, topic, eventId, pure,
    Except.pure]
  constructor
  · rintro ⟨_, ⟨rfl, system⟩, _, ⟨rfl, topic⟩, _, ⟨rfl, eventId⟩, rfl⟩
    exact ⟨rfl, system, topic, eventId⟩
  · rintro ⟨rfl, checks⟩
    exact ⟨_, ⟨rfl, checks.system⟩, _, ⟨rfl, checks.topic⟩, _, ⟨rfl, checks.eventId⟩, rfl⟩

/-- Every status is read from its name. -/
theorem readStatus_eq_ok {status result : ChannelEventStatus} {path : Text} :
    literal (.string status.name) path channelEventStatuses = .ok result
      ↔ result = status ∧ True := by
  have read :
    literal (.string status.name) path channelEventStatuses = .ok status := by cases status <;> rfl
  simp [read, eq_comm]

/-- Which texts are read as links. -/
theorem readUrl_eq_ok {isHttps : Text → Bool} {s result : Text} :
    readUrl isHttps (.string s) = .ok result ↔ result = s ∧ utf8Length s ≤ 2048
      ∧ isHttps s = true := by
  simp only [readUrl, fail]
  split
  · rename_i large
    simp [Nat.not_le.mpr large]
  · rename_i small
    cases secure : isHttps s <;> simp [Nat.not_lt.mp small, eq_comm]

/-- Which texts are read as timestamps. -/
theorem utcTimestamp_eq_ok {s path result : Text} :
    utcTimestamp (.string s) path = .ok result ↔ result = s ∧ utcTimestamp (.string s)
      [] = .ok s := by
  simp only [utcTimestamp, fail]
  split
  · split <;> simp [eq_comm]
  · simp

/-- Which texts are read as kinds. -/
theorem readKind_eq_ok {s result : Text} :
    readKind (.string s) = .ok result ↔ result = s ∧ (IsLabel 128 s ∧ s ≠ [])
      ∧ isKind s = true := by
  simp only [readKind, bind_eq_ok, readNonempty_eq_ok, matching_eq_ok]
  constructor
  · rintro ⟨_, ⟨rfl, label⟩, rfl, kind⟩
    exact ⟨rfl, label, kind⟩
  · rintro ⟨rfl, label, kind⟩
    exact ⟨result, ⟨rfl, label⟩, rfl, kind⟩

/-- Which texts are read as summaries. -/
theorem readSummary_eq_ok {s result : Text} :
    readSummary (.string s) = .ok result ↔ result = s ∧ IsDisplay 800 200 s ∧ trim s ≠ [] := by
  simp only [readSummary, bind_eq_ok, display_eq_ok, require_eq_ok, decide_eq_true_eq, pure,
    Except.pure, Except.ok.injEq]
  constructor
  · rintro ⟨_, ⟨rfl, display⟩, _, some_, rfl⟩
    exact ⟨rfl, display, some_⟩
  · rintro ⟨rfl, display, some_⟩
    exact ⟨result, ⟨rfl, display⟩, (), some_, rfl⟩

section

variable {isHttps : Text → Bool} {members : Members} {content result : Content}

/-- The payload of a content that is found is its data. -/
theorem readPayload_of_found (found : content.Found members) :
    readPayload members content.kind = .ok content.data := by
  unfold readPayload optional
  rw [found.data]
  cases isData : content.data with
  | none => exact ite_self _
  | some data =>
    obtain ⟨coordinates, read⟩ := found.payload data isData
    simp only [coordinates, if_true, Option.map_some, read]
    rfl

/-- Where a content is found, it is read when it passes the checks. -/
theorem readFields_eq_ok (found : content.Found members) :
    readFields isHttps members = .ok result ↔ result = content ∧ content.Checks isHttps := by
  -- Each field of the content is found where it was written.
  obtain ⟨find, finds, isSubject⟩ := found.subject
  have version_ : version (.number (natNumber 1)) (lit "v") = .ok () := by decide +kernel
  have v : field members [] (lit "v") = .ok (.number (natNumber 1)) := by rw [field, found.v]
  have kind :
    field members [] (lit "kind") = .ok (.string content.kind) := by rw [field, found.kind]
  have summary :
    field members [] (lit "summary") = .ok (.string content.summary) := by rw [field, found.summary]
  have body :
    field members [] (lit "body") = .ok (.string content.body) := by rw [field, found.body]
  have status (read) :=
    @optional_eq_ok _ (fun value => literal value (lit "status") channelEventStatuses)
    _ _ _ _ read _
    found.status fun _ _ => readStatus_eq_ok
  have subject (read) := @optional_eq_ok _ readSubject _ _ _ _ read _ isSubject fun subject _ =>
    readSubject_eq_ok (finds subject)
  have actor (read) :=
    @optional_eq_ok _ (fun value => display value (lit "actor") 256 64) _ _ _ _ read _ found.actor
    fun _ _ => display_eq_ok
  have url (read) := @optional_eq_ok _ (readUrl isHttps) _ _ _ _ read _ found.url fun _ _ =>
    readUrl_eq_ok
  have occurredAt (read) :=
    @optional_eq_ok _ (fun value => utcTimestamp value (lit "occurred_at")) _ _ _ _ read _
    found.occurredAt
    fun _ _ => utcTimestamp_eq_ok
  have source (read) := @optional_eq_ok _ readSource _ _ _ _ read _ found.source fun source _ =>
    readSource_eq_ok source.found_members
  have key (read) :=
    @optional_eq_ok _ (fun value => readNonempty value (lit "key") 200) _ _ _ _ read _ found.key
    fun _ _ => readNonempty_eq_ok
  simp only [readFields, bind_eq_ok, Except.ok.injEq, exists_eq_left', v, kind, summary, body,
    version_, readKind_eq_ok,
    readSummary_eq_ok, label_eq_ok, status, subject, actor, url, occurredAt, source, key,
      pure, Except.pure]
  -- Read one after the other, they are accepted exactly when each check passes.
  constructor
  · rintro ⟨_, -, _, ⟨rfl, kind⟩, _, ⟨rfl, summary⟩, _, ⟨rfl, body⟩, _, ⟨rfl, -⟩, _,
      ⟨rfl, subject⟩, _, ⟨rfl, actor⟩, _, ⟨rfl, url⟩, _,
      ⟨rfl, occurredAt⟩, _, ⟨rfl, source⟩, _, ⟨rfl, key⟩, data, isData, rfl⟩
    rw [readPayload_of_found found] at isData
    obtain rfl := Except.ok.inj isData
    exact ⟨rfl, kind, summary, body, subject, actor, url, occurredAt, source, key⟩
  -- The other way round, each read is given its check.
  · rintro ⟨rfl, checks⟩
    exact ⟨(), trivial, _, ⟨rfl, checks.kind⟩, _, ⟨rfl, checks.summary⟩, _, ⟨rfl, checks.body⟩, _,
      ⟨rfl, fun _ _ => trivial⟩, _,
      ⟨rfl, checks.subject⟩, _, ⟨rfl, checks.actor⟩, _, ⟨rfl, checks.url⟩, _,
        ⟨rfl, checks.occurredAt⟩, _, ⟨rfl, checks.source⟩, _,
      ⟨rfl, checks.key⟩, _, readPayload_of_found found, rfl⟩

/-- A content that is found somewhere is decoded to itself when it is small enough and passes the
checks. -/
theorem decodeChannelEvent_eq_ok (found : content.Found members) :
    decodeChannelEvent isHttps (.object members) = .ok result
      ↔ result = content ∧ utf8Length (stringify (.object members)) ≤ maxChannelEventBytes
        ∧ content.Checks isHttps := by
  simp only [decodeChannelEvent, record, bind_eq_ok, Except.ok.injEq, exists_eq_left',
    require_eq_ok, decide_eq_true_eq,
    readFields_eq_ok found]
  constructor
  · rintro ⟨_, fits, rfl, checks⟩
    exact ⟨rfl, fits, checks⟩
  · rintro ⟨rfl, fits, checks⟩
    exact ⟨(), fits, rfl, checks⟩

/-! ## Encoding -/

/-- The line of an event is no part of what is checked first. -/
theorem Content.Checks.unbodied (checks : content.Checks isHttps) :
    { content with body := [] }.Checks isHttps where
  kind := checks.kind
  summary := checks.summary
  body := ⟨rfl, Nat.zero_le _, rfl⟩
  subject := checks.subject
  actor := checks.actor
  url := checks.url
  occurredAt := checks.occurredAt
  source := checks.source
  key := checks.key

/-- What is checked first is encoded as the content found in it with its line, when that is small
enough and passes the checks. -/
theorem encode_of_checkInput {raw checked : Members} (isChecked : checkInput raw = .ok checked)
    (found : { content with body := [] }.Found checked)
    (smaller : utf8Length (stringify (.object checked)) ≤ utf8Length (stringify content.toJson))
    (line : content.body = formatChannelEventLine content.summary content.subject) :
    encodeChannelEvent isHttps (.object raw) = .ok result
      ↔ result = content ∧ utf8Length (stringify content.toJson) ≤ maxChannelEventBytes
        ∧ content.Checks isHttps := by
  have own : content.Found content.members := Content.found_members found.payload
  simp only [encodeChannelEvent, record, bind_eq_ok, Except.ok.injEq, exists_eq_left', isChecked,
    decodeChannelEvent_eq_ok found]
  constructor
  · rintro ⟨_, ⟨rfl, -, -⟩, second⟩
    rw [show formatChannelEventLine _ _ = content.body from line.symm] at second
    exact (decodeChannelEvent_eq_ok own).mp second
  · rintro ⟨rfl, fits, checks⟩
    refine ⟨_, ⟨rfl, Nat.le_trans smaller fits, checks.unbodied⟩, ?_⟩
    rw [show formatChannelEventLine _ _ = result.body from line.symm]
    exact (decodeChannelEvent_eq_ok own).mpr ⟨rfl, fits, checks⟩

/-- An object of another kind is checked without a payload. -/
theorem checkInput_plain {raw : Members} {kind : Text} (free : isCoordinationKind kind = false)
    (isKind : lookup raw (lit "kind") = some (.string kind))
    (absent : lookup raw (lit "data") = none) :
    checkInput raw = .ok (unbodied raw) := by
  simp only [checkInput, isKind, free, checkPlain, absent]
  rfl

/-- An object of a coordination kind is refused without its payload. -/
theorem encodeChannelEvent_coordination {raw : Members} {kind : Text}
    (coordinates : isCoordinationKind kind = true)
    (isKind : lookup raw (lit "kind") = some (.string kind))
    (absent : lookup raw (lit "data") = none) :
    encodeChannelEvent isHttps (.object raw) = fail (lit "data") .missing_field := by
  have checked : checkInput raw = fail (lit "data") .missing_field := by
    simp only [checkInput, isKind, coordinates, if_true, checkCoordination, field, absent]
    rfl
  have read : (Except.ok raw >>= checkInput) = fail (lit "data") .missing_field := checked
  rw [encodeChannelEvent, record, ← bind_assoc, read]
  rfl

end

end Khala.Event
