import Khala.Contracts.EventInverse

/-! The codec of channel events: what was decoded or encoded is decoded and encoded to itself, and
which payloads can be encoded with the summary that is derived from them. -/

namespace Khala.Event

open Js Decode

/-! ## Setting members -/

/-- A field that is set is found, and the others are as they were. -/
theorem lookup_setEntry (members : Members) (key other : Text) (value : Json) :
    lookup (Map.setEntry key value members) other = if key = other then some value
      else lookup members other := by
  -- The induction is on the members: the key is replaced where it stands, or set at the end.
  induction members with
  | nil => exact lookup_cons key other value []
  | cons first rest ih =>
    obtain ⟨name, content⟩ := first
    by_cases same : name = key
    · subst same
      rw [Map.setEntry, if_pos rfl, lookup_cons, lookup_cons]
      split <;> rfl
    · rw [Map.setEntry, if_neg same, lookup_cons, lookup_cons, ih]
      by_cases hit : name = other
      · rw [if_pos hit, if_pos hit, if_neg fun same' => same (hit.trans same'.symm)]
      · rw [if_neg hit, if_neg hit]

/-- Setting a member to the value that it has changes nothing. -/
theorem setEntry_same {members : Members} {key : Text} {value : Json}
    (found : lookup members key = some value) :
    Map.setEntry key value members = members := by
  induction members with
  | nil => cases found
  | cons first rest ih =>
    obtain ⟨name, content⟩ := first
    rw [lookup_cons] at found
    by_cases same : name = key
    · rw [if_pos same] at found
      rw [Map.setEntry, if_pos same, Option.some.inj found, same]
    · rw [if_neg same] at found
      rw [Map.setEntry, if_neg same, ih found]

/-- The members of a content without its line. -/
theorem unbodied_content (content : Content) :
    unbodied content.members = { content with body := [] }.members := by
  simp +decide [unbodied, Content.members, Map.setEntry]

/-- A field is found in the members that are chosen. -/
private theorem lookup_ite (condition : Prop) [Decidable condition] (one two : Members)
    (key : Text) :
    lookup (if condition then one else two) key = if condition then lookup one key
      else lookup two key := by
  split <;> rfl

/-- Completing leaves the fields that it does not set. -/
theorem lookup_completed {raw data : Members} {kind other : Text}
    (apart : other ∉ [lit "v", lit "body", lit "data", lit "summary", lit "status"]) :
    lookup (completed raw kind data) other = lookup raw other := by
  have differs : lit "v" ≠ other ∧ lit "body" ≠ other ∧ lit "data" ≠ other ∧ lit "summary" ≠ other
    ∧ lit "status" ≠ other := by
    refine ⟨?_, ?_, ?_, ?_, ?_⟩
    all_goals
      rintro rfl
      exact apart (by decide)
  have base : lookup (unbodied raw) other = lookup raw other := by
    rw [unbodied, lookup_setEntry, lookup_setEntry, if_neg differs.2.1, if_neg differs.1]
  simp only [completed, lookup_ite, lookup_setEntry, if_neg differs.2.2.1, if_neg differs.2.2.2.1,
    if_neg differs.2.2.2.2, ite_self,
    base]

/-- The data are those that it was completed with. -/
theorem data_completed (raw data : Members) (kind : Text) :
    lookup (completed raw kind data) (lit "data") = some (.object data) := by
  have apart : lit "summary" ≠ lit "data" ∧ lit "status" ≠ lit "data" := by decide
  simp only [completed, lookup_ite, lookup_setEntry, if_true, if_neg apart.1,
    if_neg apart.2, ite_self]

/-- A verdict always has a status. -/
theorem status_completed (raw data : Members) :
    (lookup (completed raw (lit "verdict") data) (lit "status")).isSome = true := by
  -- The status stands in the raw event, or is set from the verdict.
  unfold completed
  dsimp only
  split
  · rename_i there
    -- The data and the body that change are other members.
    have kept : ∀ members : Members,
      lookup (Map.setEntry (lit "data") (.object data) (unbodied raw)) (lit "status")
        = lookup raw (lit "status") := by
      intro _
      simp +decide [lookup_setEntry, unbodied]
    rcases there with there | other
    · split
      · rw [kept []]
        exact there
      · rw [lookup_setEntry, if_neg (by decide), kept []]
        exact there
    · exact absurd rfl other
  · rw [lookup_setEntry, if_pos rfl]
    rfl

/-! ## What was encoded -/

section

variable {isHttps : Text → Bool}

/-- Everything that is known of an event that was encoded. -/
structure Content.Encoded (isHttps : Text → Bool) (content : Content) : Prop where
  payload : content.Payload
  fits : size content.toJson ≤ maxChannelEventBytes
  checks : content.Checks isHttps
  line : content.body = formatChannelEventLine content.summary content.subject
  complete : isCoordinationKind content.kind = true → content.data.isSome = true
  verdict : content.kind = lit "verdict" → content.status.isSome = true

/-- What is encoded has the form that is written. -/
theorem encoded_of_ok {input : Json} {content : Content}
    (encodes : encodeChannelEvent isHttps input = .ok content) :
    content.Encoded isHttps := by
  obtain ⟨raw, isObject, rest⟩ := bind_eq_ok.mp encodes
  obtain ⟨checked, isChecked, rest⟩ := bind_eq_ok.mp rest
  obtain ⟨decoded, isDecoded, second⟩ := bind_eq_ok.mp rest
  obtain ⟨⟨members, same, origin⟩, -, -⟩ := decodeChannelEvent_ok isDecoded
  obtain rfl := Json.object.inj same
  have payload := origin.isPayload
  obtain ⟨rfl, fits, checks⟩ := (decodeChannelEvent_eq_ok (Content.found_members
    (show Content.Payload { decoded with body := formatChannelEventLine decoded.summary decoded.subject } from payload))).mp second
  -- The kind decides how the object was checked.
  have known : isCoordinationKind decoded.kind = true → ∃ data, checked = completed raw decoded.kind data := by
    intro coordinates
    unfold checkInput at isChecked
    have plain : ∀ {k : Option Json}, lookup raw (lit "kind") = k → checkPlain raw = .ok checked →
      k = some (.string decoded.kind) := by
      intro k found isPlain
      obtain ⟨_, -, same⟩ := bind_eq_ok.mp isPlain
      obtain rfl := Except.ok.inj same
      have kind := origin.kind
      rw [unbodied, lookup_setEntry, lookup_setEntry, if_neg (by decide), if_neg (by decide),
        found] at kind
      exact kind
    split at isChecked
    · rename_i kind found
      split at isChecked
      · obtain ⟨_, -, rest⟩ := bind_eq_ok.mp isChecked
        obtain ⟨data, -, same⟩ := bind_eq_ok.mp rest
        obtain rfl := Except.ok.inj same
        have kind := origin.kind
        rw [lookup_completed (by decide), found] at kind
        obtain rfl := Json.string.inj (Option.some.inj kind)
        exact ⟨data, rfl⟩
      · rename_i free
        have := plain found isChecked
        obtain rfl := Json.string.inj (Option.some.inj this)
        exact absurd coordinates free
    · rename_i other
      exact absurd (plain rfl isChecked) (other decoded.kind)
  refine ⟨payload, fits, checks, rfl, fun coordinates => ?_, fun isVerdict => ?_⟩
  · obtain ⟨data, rfl⟩ := known coordinates
    have read := origin.read
    unfold readPayload optional at read
    rw [if_pos coordinates, data_completed] at read
    obtain ⟨_, -, isSome⟩ := map_ok read
    rw [show Content.data { decoded with body := _ } = decoded.data from rfl, ← isSome]
    rfl
  · have isVerdict' : decoded.kind = lit "verdict" := isVerdict
    obtain ⟨data, rfl⟩ := known (by rw [isVerdict']; decide)
    have there := status_completed raw data
    rw [← isVerdict'] at there
    obtain ⟨value, found⟩ := Option.isSome_iff_exists.mp there
    exact origin.status value found

/-- What was encoded decodes to itself. -/
theorem Content.Encoded.decodes {content : Content} (encoded : content.Encoded isHttps) :
    decodeChannelEvent isHttps content.toJson = .ok content :=
  (decodeChannelEvent_eq_ok (Content.found_members encoded.payload)).mpr ⟨rfl, encoded.fits,
    encoded.checks⟩

/-- An event is not smaller than without its line. -/
theorem unbodied_content_smaller (content : Content) :
    size { content with body := [] }.toJson ≤ size content.toJson := by
  have quotes : size (.string []) = 2 := by decide
  have more : 2 ≤ size (.string content.body) := by
    rw [size, stringify, quote, List.cons_append, utf8Length_cons_stop (by decide),
      utf8Length_append_stop (by decide)]
    have mark : pointSize [34] = 1 := by decide
    omega
  rw [size, size, Content.toJson, Content.toJson, utf8Length_object (by simp [Content.members]),
    utf8Length_object (by simp [Content.members])]
  simp only [size] at quotes more
  simp only [Content.members, List.map_append, List.sum_append, List.map_cons, List.map_nil,
    List.sum_cons, List.sum_nil, memberSize]
  omega

/-- What was encoded is encoded to itself. -/
theorem Content.Encoded.encodes {content : Content} (encoded : content.Encoded isHttps) :
    encodeChannelEvent isHttps content.toJson = .ok content := by
  have found := Content.found_members encoded.payload
  -- The check of the input puts everything where it is already, and drops the body.
  have isChecked : checkInput content.members = .ok { content with body := [] }.members := by
    -- An event of another kind has no data to check.
    cases coordinates : isCoordinationKind content.kind with
    | false =>
      have absent : content.data = none := by
        cases isData : content.data with
        | none => rfl
        | some data =>
          have := (encoded.payload data isData).1
          rw [coordinates] at this
          cases this
      have noData : lookup content.members (lit "data") = none := by rw [found.data, absent]; rfl
      rw [checkInput_plain coordinates found.kind noData, unbodied_content]
    -- An event of coordination has its data, its summary and, for a verdict, its status.
    | true =>
      obtain ⟨data, isData⟩ := Option.isSome_iff_exists.mp (encoded.complete coordinates)
      have hasData :
        lookup content.members (lit "data") = some (.object data) := by rw [found.data, isData]; rfl
      have summary :
        (lookup content.members (lit "summary")).isSome = true := by rw [found.summary]; rfl
      have status : (lookup content.members (lit "status")).isSome = true
        ∨ content.kind ≠ lit "verdict" := by
        by_cases isVerdict : content.kind = lit "verdict"
        · left
          rw [found.status, Option.isSome_map]
          exact encoded.verdict isVerdict
        · exact .inr isVerdict
      -- So the data are set to what they are.
      have inPlace : Map.setEntry (lit "data") (.object data)
        (unbodied content.members) = { content with body := [] }.members := by
        rw [unbodied_content]
        refine setEntry_same ?_
        have payload : Content.Payload { content with body := [] } := encoded.payload
        rw [(Content.found_members payload).data, isData]
        rfl
      simp only [checkInput, found.kind, coordinates, if_true, checkCoordination, field, hasData,
        bind, Except.bind,
        (encoded.payload data isData).2, pure, Except.pure, completed, summary,
          if_pos status, inPlace]
  -- What is read then is the content, and it passes every check.
  have unbodied : Content.Payload { content with body := [] } := encoded.payload
  exact (encode_of_checkInput isChecked (Content.found_members unbodied)
    (unbodied_content_smaller content) encoded.line).mpr
    ⟨rfl, encoded.fits, encoded.checks⟩

end

end Khala.Event
