import Khala.Contracts.AiurEvents

/-! Which records become events: everything that was cleaned passes the encoder's checks, apart from
its kind, the year of its date and the size of the whole. -/

namespace Khala.Aiur

open Js Decode Event

/-- The event that cleaned fields make. -/
def Cleaned.content (cleaned : Cleaned) : Content where
  kind := cleaned.kind
  summary := cleaned.summary
  -- The body is the summary with its subject.
  body := Event.formatChannelEventLine cleaned.summary (some cleaned.subject)
  status := some cleaned.status
  subject := some cleaned.subject
  actor := cleaned.actor
  url := cleaned.url
  occurredAt := cleaned.occurredAt
  source := some cleaned.source
  key := cleaned.key
  data := none

/-- The members of the subject as the mapping lists them. -/
private def listed (subject : Event.Subject) : Members :=
  member (lit "ticket") (subject.ticket.map .string) ++ member (lit "pr")
    (subject.pr.map fun pr => .number (natNumber pr))
    ++ member (lit "sha") (subject.sha.map .string) ++ member (lit "branch")
      (subject.branch.map .string)
    ++ member (lit "repo") (subject.repo.map .string)

/-- A subject is found in its members, in the order of the source. -/
private theorem found_listed (subject : Event.Subject) : subject.Found (listed subject) := by
  constructor <;> simp +decide [listed, lookup_append, lookup_member]

/-- The order of the source has the same members. -/
private theorem listed_perm (subject : Event.Subject) : (listed subject).Perm subject.members := by
  simp only [listed, Event.Subject.members, List.append_assoc]
  refine .append_left _ (.append_left _ ?_)
  rw [← List.append_assoc (member (lit "branch") _)]
  exact List.perm_append_comm

/-- A key that no member has is added at the end. -/
theorem setEntry_of_absent {members : Members} {key : Text} {value : Json}
    (absent : lookup members key = none) :
    Map.setEntry key value members = members ++ [(key, value)] := by
  induction members with
  | nil => rfl
  | cons first rest ih =>
    obtain ⟨other, content⟩ := first
    rw [lookup_cons] at absent
    split at absent
    · cases absent
    · rename_i differs
      rw [Map.setEntry, if_neg differs, ih absent, List.cons_append]

section

variable (cleaned : Cleaned)

/-- Without a body the members are those of the event, a version and an empty body. -/
theorem unbodied_members : unbodied cleaned.members
    = cleaned.members ++ [(lit "v", Json.number (natNumber 1)), (lit "body", .string [])] := by
  have v : lookup cleaned.members (lit "v") = none := by
    simp +decide [Cleaned.members, lookup_append, lookup_member, lookup_cons]
  have body : lookup (cleaned.members ++ [(lit "v", Json.number (natNumber 1))])
    (lit "body") = none := by
    simp +decide [Cleaned.members, lookup_append, lookup_member, lookup_cons, lookup_nil]
  rw [unbodied, setEntry_of_absent v, setEntry_of_absent body, List.append_assoc]
  rfl

/-- The content without a body is found in them. -/
theorem found_unbodied : { cleaned.content with body := [] }.Found (unbodied cleaned.members) := by
  rw [unbodied_members]
  constructor
  case subject =>
    refine ⟨listed, found_listed, ?_⟩
    simp +decide [Cleaned.members, Cleaned.content, lookup_cons, listed]
  case payload => exact fun data absent => by cases absent
  all_goals simp +decide [Cleaned.members, Cleaned.content, lookup_append, lookup_member,
    lookup_cons, lookup_nil]

/-- What is checked first is not larger than the event. -/
theorem unbodied_smaller : utf8Length (stringify (.object (unbodied cleaned.members)))
    ≤ utf8Length (stringify cleaned.content.toJson) := by
  -- The subject may be written in another order, which changes no size.
  have subject : memberSize (lit "subject", .object (listed cleaned.subject))
      = memberSize (lit "subject", .object cleaned.subject.members) := by
    simp only [memberSize, utf8Length_object_perm (listed_perm cleaned.subject)]
  -- Whatever the body is, the empty one is no larger.
  have body :
    memberSize (lit "body", .string []) ≤ memberSize (lit "body",
      .string cleaned.content.body) := by
    have quotes : utf8Length (stringify (.string [])) = 2 := by decide
    have more : 2 ≤ utf8Length (stringify (.string cleaned.content.body)) := by
      rw [stringify, quote, List.cons_append, utf8Length_cons_stop (by decide),
        utf8Length_append_stop (by decide)]
      have mark : pointSize [34] = 1 := by decide
      omega
    simp only [memberSize]
    omega
  -- Everything else is written alike.
  rw [unbodied_members, Content.toJson, utf8Length_object (by simp [Cleaned.members]),
    utf8Length_object (by simp [Content.members])]
  simp only [listed] at subject
  simp only [Cleaned.members, Content.members, Cleaned.content, Option.map_some, Option.map_none,
    member, Option.toList_some,
    Option.toList_none, List.append_nil, List.map_append, List.sum_append, List.map_cons,
      List.map_nil, List.sum_cons,
    List.sum_nil] at subject body ⊢
  omega

end

section

variable {isHttps : Text → Bool} {dateParse : Text → Option Int} {opts : Options} {raw : Members}
    {name : Text} {topic : Topic}

/-- The system's name is a label. -/
private theorem label_aiur : IsLabel 32 (lit "aiur") ∧ lit "aiur" ≠ [] :=
  ⟨⟨by decide, by decide, by decide⟩, by decide⟩

/-- The source of every event is checked. -/
private theorem checks_source : (cleaned isHttps dateParse opts raw name topic).source.Checks where
  system := label_aiur
  topic := fun _ read => (valid_eq_some read).2.1
  eventId := fun _ => eventIdOf_eq_some

/-- The key of every event is a label. -/
private theorem checks_key : ∀ key, (cleaned isHttps dateParse opts raw name topic).key = some key →
    IsLabel 200 key ∧ key ≠ [] := by
  intro key read
  obtain ⟨found, -, isValid⟩ := Option.bind_eq_some_iff.mp read
  obtain ⟨some_, isLabel, -⟩ := valid_eq_some isValid
  exact ⟨isLabel, some_⟩

/-- The body of every event is a label. -/
private theorem checks_body :
    IsLabel 1024 (cleaned isHttps dateParse opts raw name topic).content.body := by
  have subject : (subjectOf isHttps opts raw topic).Checks := subjectOf_checks
  have summary := (@describe_checked isHttps raw topic.cls).summary
  obtain ⟨good, fits⟩ := fitSummary_checks summary subject
  obtain ⟨head, tail⟩ := line_around subject
  have line :=
    formatChannelEventLine_eq subject (fitSummary (describe isHttps raw topic.cls).summary
    (subjectOf isHttps opts raw topic))
  -- The body is the summary with the head and the tail around it.
  have label :
    IsLabel 1024 (Event.formatChannelEventLine (fitSummary (describe isHttps raw topic.cls).summary
      (subjectOf isHttps opts raw topic)) (some (subjectOf isHttps opts raw topic))) := by
    refine ⟨?_, fits, ?_⟩
    · rw [line]
      exact isWellFormed_append (isWellFormed_append head.formed good.line.formed) tail.formed
    · rw [line, List.any_append, List.any_append, head.plain, good.line.plain, tail.plain]
      rfl
  exact label

/-- Every cleaned field passes its check, except for a date whose year is out of range. -/
theorem checks_content : (cleaned isHttps dateParse opts raw name topic).content.Checks isHttps
    ↔ ∀ ms, occurredMs dateParse raw = some ms → 0 ≤ (utcTime ms).year
      ∧ (utcTime ms).year ≤ 9999 := by
  have described := @describe_checked isHttps raw topic.cls
  have subject : (subjectOf isHttps opts raw topic).Checks := subjectOf_checks
  have good := (fitSummary_checks described.summary subject).1
  -- A time outside those years is written in a way that is refused.
  constructor
  · intro checks ms isMs
    exact utcTimestamp_toISOString.mp (checks.occurredAt (toISOString ms)
      (congrArg (Option.map toISOString) isMs))
  -- Within them every field passes its check.
  · intro years
    refine ⟨kindOf_checks topic.cls, ⟨?_, good.shows_.trim_ne_nil⟩, checks_body, ?_, ?_,
      described.url, ?_, ?_,
      @checks_key isHttps dateParse opts raw name topic⟩
    · obtain ⟨u, inside, -⟩ := good.shows_
      exact good.line.isDisplay (List.ne_nil_of_mem inside) (by decide) (by decide)
    · rintro _ ⟨⟩
      exact subjectOf_checks
    · intro actor isActor
      obtain ⟨line, u, inside, -⟩ := described.actor actor isActor
      exact line.isDisplay (List.ne_nil_of_mem inside) (by decide) (by decide)
    · intro occurredAt isDate
      obtain ⟨ms, isMs, rfl⟩ := Option.map_eq_some_iff.mp isDate
      exact utcTimestamp_toISOString.mpr (years ms isMs)
    · rintro _ ⟨⟩
      exact checks_source

/-- The object of the cleaned fields is encoded as the event they make, or not at all. -/
theorem encode_cleaned {event : Content} :
    Event.encodeChannelEvent isHttps
      (.object (cleaned isHttps dateParse opts raw name topic).members) = .ok event
      ↔ event = (cleaned isHttps dateParse opts raw name topic).content
        ∧ isCoordinationKind topic.cls = false
        ∧ (∀ ms, occurredMs dateParse raw = some ms → 0 ≤ (utcTime ms).year
          ∧ (utcTime ms).year ≤ 9999)
        ∧ utf8Length (stringify (cleaned isHttps dateParse opts raw name topic).content.toJson)
          ≤ maxChannelEventBytes := by
  have isKind : lookup (cleaned isHttps dateParse opts raw name topic).members (lit "kind")
    = some (.string (kindOf topic.cls)) := by
    simp +decide [Cleaned.members, cleaned, lookup_cons]
  have absent :
    lookup (cleaned isHttps dateParse opts raw name topic).members (lit "data") = none := by
    simp +decide [Cleaned.members, lookup_append, lookup_member, lookup_cons]
  cases coordinates : isCoordinationKind topic.cls with
  | true =>
    -- The kinds of coordination need a payload, which no record has.
    rw [encodeChannelEvent_coordination ((isCoordinationKind_kindOf _).trans coordinates)
      isKind absent]
    simp [fail]
  | false =>
    have checked := checkInput_plain ((isCoordinationKind_kindOf _).trans coordinates) isKind absent
    have encodes :=
      @encode_of_checkInput isHttps (cleaned isHttps dateParse opts raw name topic).content
      event _ _ checked
      (found_unbodied _) (unbodied_smaller _) rfl
    rw [encodes, checks_content]
    simp [and_comm]

end

/-! ## The claim about a record -/

/-- A topic of the form `ticket.<id>.<class>`, or one that starts with `agent.`. -/
inductive HasForm (name : Text) : Topic → Prop
  | ticket (id cls : Text) (some_ : id ≠ []) (dotless : 46 ∉ id) (more : cls ≠ [])
      (parts : name = lit "ticket." ++ (id ++ 46 :: cls)) : HasForm name ⟨some id, cls⟩
  | agent (starts : (lit "agent.").isPrefixOf name = true) : HasForm name ⟨none, name⟩

/-- The event holds exactly what the readers of its fields return: a field that is missing or
malformed is left out, and nothing else changes. -/
structure HoldsFields (isHttps : Text → Bool) (dateParse : Text → Option Int) (opts : Options)
    (raw : Members) (name : Text) (topic : Topic) (event : Content) : Prop where
  /-- Each field is the one that the event gives, whatever else was cleaned away. -/
  kind : event.kind = kindOf topic.cls
  status : event.status = some (describe isHttps raw topic.cls).status
  summary : event.summary = fitSummary (describe isHttps raw topic.cls).summary
    (subjectOf isHttps opts raw topic)
  ticket : event.subject.bind (·.ticket) = ticketOf opts raw topic.ticketId
  pr : event.subject.bind (·.pr) = (describe isHttps raw topic.cls).prNumber
  branch : event.subject.bind (·.branch) = branchOf raw
  repo : event.subject.bind (·.repo) = repoOf opts raw
  sha : event.subject.bind (·.sha) = headShaOf raw
  system : event.source.map (·.system) = some (lit "aiur")
  sourceTopic : event.source.bind (·.topic) = valid (some (.string name)) 256 none false
  eventId : event.source.bind (·.eventId) = eventIdOf raw
  actor : event.actor = (describe isHttps raw topic.cls).actor
  url : event.url = (describe isHttps raw topic.cls).url
  occurredAt : event.occurredAt = (occurredMs dateParse raw).map toISOString
  key : event.key = (keyOf opts raw topic (describe isHttps raw topic.cls).prNumber).bind fun key =>
    valid (some (.string key)) 200 none false

/-- The record becomes an event that decodes to itself, whose body is not too long, and which holds
the cleaned fields. -/
def BecomesEvent (isHttps : Text → Bool) (dateParse : Text → Option Int) (opts : Options)
    (raw : Members) (name : Text) (topic : Topic) : Prop :=
  ∃ event, mapAiurEvent isHttps dateParse opts (.object raw) = some event
    ∧ Event.decodeChannelEvent isHttps event.toJson = .ok event ∧ utf8Length event.body ≤ 1024
    ∧ HoldsFields isHttps dateParse opts raw name topic event

/-- The bytes that the cleaned fields take as JSON, with the version and the line they are shown on.
-/
def cleanedSize (isHttps : Text → Bool) (dateParse : Text → Option Int) (opts : Options)
    (raw : Members) (name : Text) (topic : Topic) : Nat :=
  utf8Length (stringify (cleaned isHttps dateParse opts raw name topic).content.toJson)

/-- A topic of the form is read as what it names, unless a line ends within the class of a ticket's
topic. -/
theorem readTopic_of_form {name : Text} {topic : Topic} (form : HasForm name topic) :
    readTopic name = if topic.ticketId.isSome = true ∧ topic.cls.any isLineTerminator = true
      then none else some topic := by
  -- The topic is that of a ticket or of an agent, which their beginnings tell.
  cases form with
  | ticket id cls some_ dotless more parts =>
    subst parts
    have starts : (lit "ticket.").isPrefixOf (lit "ticket." ++ (id ++ 46 :: cls)) = true := by simp
    have rest : (lit "ticket." ++ (id ++ 46 :: cls)).drop 7 = id ++ 46 :: cls :=
      List.drop_left' (by decide)
    -- The identifier ends at its first dot.
    have before : (id ++ 46 :: cls).takeWhile (· ≠ 46) = id := by
      rw [List.takeWhile_append_of_pos
        fun u inside => by simpa using fun same : u = 46 => dotless (same ▸ inside)]
      simp
    have after : (id ++ 46 :: cls).dropWhile (· ≠ 46) = 46 :: cls := by
      rw [List.dropWhile_append_of_pos
        fun u inside => by simpa using fun same : u = 46 => dotless (same ▸ inside)]
      simp
    have other : (lit "agent.").isPrefixOf (lit "ticket." ++ (id ++ 46 :: cls)) = false := rfl
    simp only [readTopic, matchTicket, starts, rest, before, after, if_true, other,
      Option.isSome_some, true_and]
    cases ends : cls.any isLineTerminator <;> simp [some_, more]
  | agent starts =>
    -- What begins as the one does not begin as the other.
    have other : (lit "ticket.").isPrefixOf name = false := by
      obtain ⟨rest, rfl⟩ := List.isPrefixOf_iff_prefix.mp starts
      rfl
    simp [readTopic, matchTicket, other, starts]

/-- A record with a well-formed topic becomes an event exactly when no line ends within the class of
a ticket's topic, the class is no kind of coordination, the year of its date has four digits, and
the cleaned fields are not too large. -/
theorem becomesEvent_iff (isHttps : Text → Bool) (dateParse : Text → Option Int) (opts : Options)
    (raw : Members) (name : Text) (topic : Topic)
    (named : lookup raw (lit "topic") = some (.string name)) (form : HasForm name topic)
    (pr : hasPr raw = true) :
    BecomesEvent isHttps dateParse opts raw name topic
      ↔ ¬ (topic.ticketId.isSome = true ∧ topic.cls.any isLineTerminator = true)
        ∧ isCoordinationKind topic.cls = false
        ∧ (∀ ms, occurredMs dateParse raw = some ms → 0 ≤ (utcTime ms).year
          ∧ (utcTime ms).year ≤ 9999)
        ∧ cleanedSize isHttps dateParse opts raw name topic ≤ maxChannelEventBytes := by
  have isTopic := readTopic_of_form form
  by_cases ends : topic.ticketId.isSome = true ∧ topic.cls.any isLineTerminator = true
  · rw [if_pos ends] at isTopic
    have dropped : mapAiurEvent isHttps dateParse opts (.object raw) = none := by
      simp only [mapAiurEvent, named, isTopic]
    constructor
    · rintro ⟨event, maps, -⟩
      rw [dropped] at maps
      cases maps
    · exact fun fits => absurd ends fits.1
  · rw [if_neg ends] at isTopic
    have maps : ∀ event, mapAiurEvent isHttps dateParse opts (.object raw) = some event
        ↔ Event.encodeChannelEvent isHttps
          (.object (cleaned isHttps dateParse opts raw name topic).members) = .ok event := by
      intro event
      simp only [mapAiurEvent, named, isTopic, pr, if_true]
      cases Event.encodeChannelEvent isHttps _ <;> simp [Except.toOption]
    constructor
    · rintro ⟨event, mapped, -⟩
      obtain ⟨-, fits⟩ := encode_cleaned.mp ((maps event).mp mapped)
      exact ⟨ends, fits⟩
    · rintro ⟨-, fits⟩
      have encodes := encode_cleaned.mpr ⟨rfl, fits⟩
      -- The event passes the same checks when it is decoded again.
      have checks : (cleaned isHttps dateParse opts raw name topic).content.Checks isHttps :=
        checks_content.mpr fits.2.1
      refine ⟨_, (maps _).mpr encodes,
        (decodeChannelEvent_eq_ok (Content.found_members fun data absent => by cases absent)).mpr
        ⟨rfl, fits.2.2, checks⟩,
        checks.body.fits, ?_⟩
      constructor <;> rfl

/-- A push to a ticket's branch, with a timestamp that is a date of this era. -/
def pushed : Members :=
  [(lit "topic", .string (lit "ticket.42.branch.push")),
    (lit "sha", .string (lit "0123456789ABCDEF")),
    (lit "timestamp", .string (lit "2025-10-02T10:04:00Z")), (lit "id", .number (natNumber 7))]

/-- A push becomes an event. -/
theorem becomesEvent_pushed : BecomesEvent (fun url => (lit "https://").isPrefixOf url)
    (fun text => if text = lit "2025-10-02T10:04:00Z" then some 1759399440000 else none)
      ⟨none, none⟩ pushed
    (lit "ticket.42.branch.push") ⟨some (lit "42"), lit "branch.push"⟩ := by
  refine (becomesEvent_iff _ _ _ pushed (lit "ticket.42.branch.push") ⟨some (lit "42"),
    lit "branch.push"⟩ rfl
    (.ticket (lit "42") (lit "branch.push") (by decide) (by decide) (by decide)
      (by decide)) rfl).mpr
    ⟨by decide, by decide, ?_, by decide +kernel⟩
  intro ms isMs
  have found : ms = 1759399440000 := by
    have known :
      occurredMs (fun text => if text = lit "2025-10-02T10:04:00Z" then some 1759399440000
        else none) pushed
        = some 1759399440000 := by decide +kernel
    exact Option.some.inj (isMs.symm.trans known)
  rw [found]
  decide

/-- A ticket's note is dropped, although its topic has the form. -/
theorem note_dropped : HasForm (lit "ticket.1.note") ⟨some (lit "1"), lit "note"⟩
    ∧ (mapAiurEvent (fun url => (lit "https://").isPrefixOf url) (fun _ => none) ⟨none, none⟩
      (.object [(lit "topic", .string (lit "ticket.1.note"))])).isNone = true :=
  ⟨.ticket (lit "1") (lit "note") (by decide) (by decide) (by decide)
    (by decide), by decide +kernel⟩

end Khala.Aiur
