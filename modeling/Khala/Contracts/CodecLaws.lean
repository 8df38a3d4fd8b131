import Khala.Contracts.DerivedSummary

/-! The laws of the codec of channel events. -/

namespace Khala.Event

open Js Decode

/-- The event that a payload of a kind gives on its own. -/
def derived (kind : Text) (data : Members) : Content where
  kind := kind
  summary := shortened (coordinationSummary kind data)
  -- Summary and body are the same sentence, made of the payload.
  body := shortened (coordinationSummary kind data)
  status := if kind = lit "verdict"
    then some (if shown data "verdict" = lit "approved" then .success else .attention) else none
  subject := none
  actor := none
  url := none
  occurredAt := none
  source := none
  key := none
  data := some data

/-- Nothing in the data's key is impossible to see. -/
def VisibleKey (data : Members) : Prop :=
  ∀ key, lookup data (lit "key") = some (.string key) → key.any isInvisible = false

/-- A kind that coordinates is one of those listed. -/
private theorem mem_coordinationKinds {kind : Text} (coordinates : isCoordinationKind kind = true) :
    kind ∈ coordinationKinds := by
  rwa [isCoordinationKind, List.contains_eq_mem, decide_eq_true_eq] at coordinates

/-! ## What is encoded -/

/-- What a bare event is completed to. -/
private theorem completed_bare (kind : Text) (old data : Members) :
    completed [(lit "kind", .string kind), (lit "data", .object old)] kind data
      = [(lit "kind", .string kind), (lit "data", .object data), (lit "v", .number (natNumber 1)),
        (lit "body", .string []),
        (lit "summary", .string (derived kind data).summary)]
        ++ member (lit "status") ((derived kind data).status.map fun status =>
          .string status.name) := by
  by_cases isVerdict : kind = lit "verdict"
  · simp +decide [completed, unbodied, Map.setEntry, lookup_cons, lookup_nil, derived,
      isVerdict, member]
    split <;> rfl
  · simp +decide [completed, unbodied, Map.setEntry, lookup_cons, lookup_nil, derived,
      isVerdict, member]

section

variable {isHttps : Text → Bool} {kind : Text} {old data : Members} {event : Content}

/-- What was derived is found in the completed event. -/
private theorem found_completed (payload : (derived kind data).Payload) :
    { derived kind data with body := [] }.Found
    (completed [(lit "kind", .string kind), (lit "data", .object old)] kind data) := by
  rw [completed_bare]
  constructor
  case subject =>
    refine ⟨Subject.members, Subject.found_members, ?_⟩
    simp +decide [lookup_member, lookup_cons, derived]
  case payload => exact payload
  all_goals simp +decide [lookup_member, lookup_cons, derived]

/-- A completed event is no larger than what was derived. -/
private theorem completed_smaller :
    size (.object (completed [(lit "kind", .string kind), (lit "data", .object old)] kind data))
    ≤ size (derived kind data).toJson := by
  refine Nat.le_trans (Nat.le_of_eq ?_) (unbodied_content_smaller (derived kind data))
  rw [completed_bare, size, size, Content.toJson, utf8Length_object (by simp),
    utf8Length_object (by simp [Content.members])]
  simp only [derived, Content.members, member, Option.map_none, Option.toList_none,
    Option.map_some, Option.toList_some,
    List.append_nil, List.map_append, List.sum_append, List.map_cons, List.map_nil,
      List.sum_cons, List.sum_nil]
  omega

/-- A payload on its own is encoded as the event derived from it, or not at all. -/
theorem encode_bare (coordinates : isCoordinationKind kind = true)
    (read : readData kind (.object old) = .ok data) :
    encodeChannelEvent isHttps (.object [(lit "kind", .string kind), (lit "data", .object old)])
      = .ok event
      ↔ event = derived kind data ∧ size (derived kind data).toJson ≤ maxChannelEventBytes
        ∧ (derived kind data).Checks isHttps := by
  have payload : (derived kind data).Payload := by
    rintro _ ⟨⟩
    exact ⟨coordinates, (readData_ok read).2.readData⟩
  have isKind : lookup [(lit "kind", Json.string kind), (lit "data", .object old)]
    (lit "kind") = some (.string kind) := by
    rw [lookup_cons, if_pos rfl]
  have isData : lookup [(lit "kind", Json.string kind), (lit "data", .object old)]
    (lit "data") = some (.object old) := by
    rw [lookup_cons, if_neg (by decide), lookup_cons, if_pos rfl]
  have checked : checkInput [(lit "kind", .string kind), (lit "data", .object old)]
      = .ok (completed [(lit "kind", .string kind), (lit "data", .object old)] kind data) := by
    simp only [checkInput, isKind, coordinates, if_true, checkCoordination, field, isData, bind,
      Except.bind, read, pure, Except.pure]
  exact encode_of_checkInput checked (found_completed payload) completed_smaller rfl

/-! ## Keys -/

/-- No data has a member that its kind does not. -/
theorem known_of_read (read : readData kind (.object old) = .ok data) {key : Text} {value : Json}
    (found : lookup old key = some value) : key ∈ dataFields kind := by
  obtain ⟨_, isObject, -⟩ := bind_eq_ok.mp read
  simp only [object] at isObject
  split at isObject
  · cases isObject
  · rename_i all
    simpa using List.find?_eq_none.mp all _ (mem_of_found found)

/-- A key is read as it is. -/
theorem key_of_read (read : readData kind (.object old) = .ok data) (key : Text) :
    lookup old (lit "key") = some (.string key) ↔ lookup data (lit "key") = some (.string key) := by
  obtain ⟨-, dataOf, members, same, origin⟩ := readData_fields read
  obtain rfl := Json.object.inj same
  -- The key is read as it is.
  have asIs : ∀ {input value : Json} {path : Text}, readDatum input path (lit "key") = .ok value →
      ∃ s, input = .string s ∧ value = .string s := by
    intro input value path read
    simp +decide only [readDatum, if_false, if_true] at read
    obtain ⟨s, isText, rfl⟩ := map_ok read
    exact ⟨s, (readNonempty_ok isText).1, rfl⟩
  constructor
  -- The given key is one that the kind knows, so it was read.
  · intro found
    have known : lit "key" ∈ dataFields kind := known_of_read read found
    rw [← dataOf.keys] at known
    obtain ⟨⟨_, value⟩, inside, rfl⟩ := List.mem_map.mp known
    obtain ⟨there, isThere, reads⟩ := origin _ _ inside
    obtain ⟨s, rfl, rfl⟩ := asIs reads
    obtain rfl := Json.string.inj (Option.some.inj (isThere.symm.trans found))
    exact (lookup_eq_some dataOf.distinct).mpr inside
  -- And the key that was read stems from the given one.
  · intro found
    obtain ⟨there, isThere, reads⟩ := origin _ _ ((lookup_eq_some dataOf.distinct).mp found)
    obtain ⟨s, rfl, isText⟩ := asIs reads
    rw [isThere, isText]

/-- A key is a label of at most 128 bytes. -/
private theorem label_key (dataOf : DataOf kind data) {key : Text}
    (found : lookup data (lit "key") = some (.string key)) :
    IsLabel 128 key := by
  have reads := dataOf.reads _ _ (mem_of_found found)
  simp +decide only [readDatum, if_false, if_true] at reads
  obtain ⟨s, isText, same⟩ := map_ok reads
  obtain rfl := Json.string.inj same
  exact (readNonempty_ok isText).2.1

/-- Data with a visible key can be shown. -/
theorem showable_of_visible (dataOf : DataOf kind data) (visible : VisibleKey data) :
    ShowableData data := by
  intro key value inside
  refine readDatum_showable (dataOf.reads key value inside) ?_
  rintro rfl s rfl
  exact visible s ((lookup_eq_some dataOf.distinct).mpr inside)

/-- A summary has the key after a few units that can be seen. -/
private theorem summary_of_key (coordinates : kind ∈ coordinationKinds)
    (known : lit "key" ∈ dataFields kind) (data : Members) :
    ∃ before after, isLine 9 before = true
      ∧ coordinationSummary kind data = before ++ shown data "key" ++ after := by
  have kinds : ∀ kind ∈ coordinationKinds, lit "key" ∈ dataFields kind → kind = lit "claim"
    ∨ kind = lit "release" ∨ kind = lit "note" := by
    decide
  rcases kinds kind coordinates known with rfl | rfl | rfl
  · exact ⟨lit "claimed ", [], by decide, by simp +decide [coordinationSummary]⟩
  · exact ⟨lit "released ", [], by decide, by simp +decide [coordinationSummary]⟩
  · by_cases cleared : shown data "value" = []
    · exact ⟨lit "note ", lit " cleared", by decide, by simp +decide [coordinationSummary, cleared]⟩
    · exact ⟨lit "note ",
        lit " = " ++ shown data "value", by decide, by simp +decide [coordinationSummary, cleared]⟩

/-- Cutting a summary never cuts its key. -/
theorem key_in_summary (coordinates : kind ∈ coordinationKinds) (dataOf : DataOf kind data)
    {key : Text} (found : lookup data (lit "key") = some (.string key)) :
    ∀ u ∈ key, u ∈ (derived kind data).summary := by
  have known : lit "key" ∈ dataFields kind := dataOf.keys ▸ List.mem_map_of_mem (mem_of_found found)
  -- The line of the kind has the key in it, behind a fixed text.
  obtain ⟨before, after, isLine, same⟩ := summary_of_key coordinates known data
  have label := label_key dataOf found
  have line := Line.of_isLine isLine
  have paired := paired_of_isWellFormed line.formed
  have isKey : shown data "key" = key := by rw [shown, found]
  rw [isKey] at same
  -- The fixed text and the key are short enough to survive the cut.
  have points : (codePoints (before ++ key)).length ≤ 199 := by
    have few := Nat.le_trans (length_codePoints_le key) label.fits
    have start := line.points
    rw [codePoints_append paired, List.length_append]
    omega
  have kept := prefix_shortened (paired.append (paired_of_isWellFormed label.formed)) points after
  rw [← same] at kept
  exact fun u inside => kept.subset (List.mem_append_right before inside)

/-! ## What can be encoded -/

/-- The event derived from a payload that can be shown is small enough. -/
theorem size_derived (coordinates : kind ∈ coordinationKinds) (dataOf : DataOf kind data)
    (showable : ShowableData data) :
    size (derived kind data).toJson ≤ maxChannelEventBytes := by
  -- Each member has its bound, and so has its name.
  have payload := showable.size_le dataOf.keys coordinates
  obtain ⟨⟨_, line⟩, shows_⟩ := coordinationSummary_line showable kind
  have summary := size_line (shortened_line line shows_).1
  have kinds : ∀ kind ∈ coordinationKinds, size (.string kind) ≤ 13 := by decide
  have isKind := kinds kind coordinates
  -- The status adds itself only for a verdict.
  have status :
    ((member (lit "status") ((derived kind data).status.map fun status => .string status.name)).map
      fun member => memberSize member + 1).sum ≤ 21 := by
    simp only [derived]
    split
    · split <;> decide
    · decide
  have names : utf8Length (quote (lit "kind")) = 6 ∧ utf8Length (quote (lit "summary")) = 9
    ∧ utf8Length (quote (lit "body")) = 6
      ∧ utf8Length (quote (lit "data")) = 6
      ∧ memberSize (lit "v", .number (natNumber 1)) = 5 := by decide +kernel
  obtain ⟨isKindName, isSummary, isBody, isData, v⟩ := names
  have limit : maxChannelEventBytes = 4096 := rfl
  rw [size] at payload summary isKind
  rw [size, Content.toJson, utf8Length_object (by simp [Content.members])]
  simp only [Content.members, List.map_append, List.sum_append]
  simp only [derived, member, Option.map_none, Option.toList_none, Option.map_some,
    Option.toList_some, List.map_cons, List.map_nil,
    List.sum_cons, List.sum_nil, memberSize] at status v ⊢
  omega

/-- A payload that can be shown passes the checks of the event derived from it. -/
theorem checks_derived (coordinates : kind ∈ coordinationKinds) (showable : ShowableData data) :
    (derived kind data).Checks isHttps := by
  -- The summary is a line that shows something, and stays one when it is shortened.
  obtain ⟨⟨_, line⟩, shows_⟩ := coordinationSummary_line showable kind
  obtain ⟨short, shows_⟩ := shortened_line line shows_
  have ⟨u, inside, _⟩ := shows_
  have kinds : ∀ kind ∈ coordinationKinds,
    (isWellFormed kind = true ∧ utf8Length kind ≤ 128 ∧ kind.any isControl = false) ∧ kind ≠ []
      ∧ isKind kind = true := by decide
  obtain ⟨⟨formed, fits, plain⟩, some_, isKind⟩ := kinds kind coordinates
  exact {
    kind := ⟨⟨⟨formed, fits, plain⟩, some_⟩, isKind⟩
    summary := ⟨short.isDisplay (List.ne_nil_of_mem inside) (by decide) (by decide),
      shows_.trim_ne_nil⟩
    body := short.isLabel (by decide)
    subject := fun _ absent => by cases absent
    actor := fun _ absent => by cases absent
    url := fun _ absent => by cases absent
    occurredAt := fun _ absent => by cases absent
    source := fun _ absent => by cases absent
    key := fun _ absent => by cases absent }

end

/-! ## The laws -/

/-- Decoding and encoding are the identity on what was decoded and encoded. A payload that is
accepted can be encoded with the summary derived from it exactly when its key can be seen. -/
theorem codec_laws (isHttps : Text → Bool) :
    (∀ input event, decodeChannelEvent isHttps input = .ok event →
      decodeChannelEvent isHttps event.toJson = .ok event)
    ∧ (∀ input event, encodeChannelEvent isHttps input = .ok event →
      decodeChannelEvent isHttps event.toJson = .ok event
        ∧ encodeChannelEvent isHttps event.toJson = .ok event)
    ∧ ∀ kind input data, isCoordinationKind kind = true → readData kind (.object input) = .ok data →
      ((∃ event, encodeChannelEvent isHttps
        (.object [(lit "kind", .string kind), (lit "data", .object input)]) = .ok event
        ∧ event.summary = shortened (coordinationSummary kind data)) ↔ VisibleKey input) := by
  refine ⟨fun input event read => (decodeChannelEvent_ok read).2.2, fun input event encodes =>
    ?_, ?_⟩
  · have encoded := encoded_of_ok encodes
    exact ⟨encoded.decodes, encoded.encodes⟩
  · intro kind input data coordinates read
    have known := mem_coordinationKinds coordinates
    have dataOf := (readData_ok read).2
    constructor
    · rintro ⟨event, encodes, -⟩ key found
      obtain ⟨-, -, checks⟩ := (encode_bare coordinates read).mp encodes
      -- Every unit of the key stands in the summary, which shows all its units.
      have inSummary := key_in_summary known dataOf ((key_of_read read key).mp found)
      rw [List.any_eq_false]
      exact fun u inside => List.any_eq_false.mp checks.summary.1.visible u (inSummary u inside)
    · intro visible
      have showable := showable_of_visible dataOf fun key found =>
        visible key ((key_of_read read key).mpr found)
      exact ⟨derived kind data, (encode_bare coordinates read).mpr
        ⟨rfl, size_derived known dataOf showable, checks_derived known showable⟩, rfl⟩

/-- A claim whose key starts with a zero-width space. -/
def unseenClaim : Members := [(lit "key", .string (0x200B :: lit "x"))]

/-- The payload is accepted, and cannot be encoded. -/
theorem unseenClaim_refused : (readData (lit "claim") (.object unseenClaim)).isOk = true
    ∧ (encodeChannelEvent (fun _ => false)
      (.object [(lit "kind", .string (lit "claim")), (lit "data", .object unseenClaim)])).isOk
      = false :=
  ⟨by decide +kernel, by decide +kernel⟩

/-- A claim whose key can be seen is encoded, and what was encoded is decoded and encoded to itself.
-/
theorem codec_laws_claim : ∃ event, encodeChannelEvent (fun _ => false)
      (.object [(lit "kind", .string (lit "claim")),
        (lit "data", .object [(lit "key", .string (lit "x"))])]) = .ok event
    ∧ event.summary = lit "claimed x" ∧ decodeChannelEvent (fun _ => false) event.toJson = .ok event
    ∧ encodeChannelEvent (fun _ => false) event.toJson = .ok event := by
  obtain ⟨-, encoded, bare⟩ := codec_laws fun _ => false
  have read : readData (lit "claim") (.object [(lit "key", .string (lit "x"))])
    = .ok [(lit "key", .string (lit "x"))] := rfl
  obtain ⟨event, encodes, summary⟩ := (bare _ _ _ (by decide) read).mpr (by
    intro key found
    obtain rfl : lit "x" = key := Json.string.inj (Option.some.inj found)
    decide)
  exact ⟨event, encodes, summary.trans (by decide +kernel), encoded _ _ encodes⟩

end Khala.Event
