import Khala.Contracts.EventInverse
import Khala.Contracts.ImportedSealing
import Khala.Contracts.LocalLines

/-! What a reader has accepted is accepted again, under any path, where it stands in an object that
was written. -/

namespace Khala.Import

open Js Decode Local

/-! ## Objects and values -/

/-- An object that is written key by key has just these keys. -/
theorem object_written {members : Members} {keys : List Text} (same : members.map (·.1) = keys)
    (path : Text) :
    read (object (.object members) path keys) = .ok members := by
  -- No member is under another key, and no key is without a member.
  subst same
  have known : (members.find? fun member => member.1 ∉ members.map (·.1)) = none := by
    rw [List.find?_eq_none]
    intro member inside
    simpa using List.mem_map_of_mem (f := (·.1)) inside
  have found : ((members.map (·.1)).find? fun key => (lookup members key).isNone) = none := by
    rw [List.find?_eq_none]
    intro key inside
    obtain ⟨member, there, rfl⟩ := List.mem_map.mp inside
    cases search : members.find? fun other => other.1 == member.1 with
    | none => exact absurd (List.find?_eq_none.mp search member there) (by simp)
    | some other => simp [lookup, search]
  simp only [object, known, found]
  rfl

/-- A field that is written is read. -/
theorem field_written {members : Members} {keys : List Text} {key : Text} {value : Json}
    (same : members.map (·.1) = keys) (distinct : keys.Nodup) (inside : (key, value) ∈ members) :
    field members key = value := by
  rw [field, (lookup_eq_some (same ▸ distinct)).mpr inside]
  rfl

/-- What holds of a field that is written holds of what is read. -/
theorem of_field {members : Members} {keys : List Text} {key : Text} {v : Json} {P : Json → Prop}
    (same : members.map (·.1) = keys) (distinct : keys.Nodup) (inside : (key, v) ∈ members)
    (holds : P v) :
    P (field members key) := by
  rw [field_written same distinct inside]
  exact holds

/-- A member that was written is what the reader of the member reads. -/
theorem fieldOf_written {α : Type} {reader : Json → Text → α} {members : Members} {keys : List Text}
    {key : String} {value : Json} {path : Text} {result : α} (same : members.map (·.1) = keys)
    (distinct : keys.Nodup) (inside : (lit key, value) ∈ members)
    (reads : reader value (joinPath path (lit key)) = result) :
    fieldOf reader members path key = result := by
  rw [fieldOf, field_written same distinct inside]
  exact reads

section

variable {input : Json} {path s : Text}

/-- Which texts are read as identifiers. -/
theorem identifier_eq_ok {s result : Text} :
    identifier (.string s) path = .ok result ↔ result = s ∧ IsLabel maxIdentifierBytes s
      ∧ s ≠ [] := by
  simp only [identifier, Decode.bind_eq_ok, label_eq_ok, require_eq_ok, pure, Except.pure,
    Except.ok.injEq, Bool.not_eq_true',
    List.isEmpty_eq_false_iff]
  constructor
  · rintro ⟨_, ⟨rfl, isLabel⟩, _, some_, rfl⟩
    exact ⟨rfl, isLabel, some_⟩
  · rintro ⟨rfl, isLabel, some_⟩
    exact ⟨result, ⟨rfl, isLabel⟩, (), some_, rfl⟩

/-- An identifier that was read once is read again. -/
theorem identifier_again (isId : identifier input path = .ok s) (path' : Text) :
    identifier (.string s) path' = .ok s := by
  -- What an identifier is checked for does not depend on its path.
  obtain ⟨value, isLabel, rest⟩ := Decode.bind_eq_ok.mp isId
  obtain ⟨_, some_, same⟩ := Decode.bind_eq_ok.mp rest
  obtain rfl := Except.ok.inj same
  exact identifier_eq_ok.mpr ⟨rfl, (Event.label_ok isLabel).2, by simpa using some_⟩

/-- A text that was read for display is read again. -/
theorem displayText_again {maxBytes : Nat} (isText : displayText input path maxBytes = .ok s)
    (path' : Text) :
    displayText (.string s) path' maxBytes = .ok s := by
  -- The text is a label that shows something, wherever it stands.
  obtain ⟨value, isLabel, rest⟩ := Decode.bind_eq_ok.mp isText
  obtain ⟨_, visible, same⟩ := Decode.bind_eq_ok.mp rest
  obtain rfl := Except.ok.inj same
  exact displayText_eq_ok.mpr ⟨rfl, (Event.label_ok isLabel).2, by simpa using visible⟩

/-- A text that was read is read again. -/
theorem text_again {maxBytes : Nat} (isText : text input path maxBytes = .ok s) (path' : Text) :
    text (.string s) path' maxBytes = .ok s := by
  cases input with
  | string t =>
    obtain ⟨rfl, accepts⟩ := text_eq_ok.mp isText
    exact text_eq_ok.mpr ⟨rfl, accepts⟩
  | _ => cases isText

/-- A timestamp that was read is read again. -/
theorem utcTimestamp_again (isTime : utcTimestamp input path = .ok s) (path' : Text) :
    utcTimestamp (.string s) path' = .ok s :=
  Event.utcTimestamp_eq_ok.mpr ⟨rfl, (Event.utcTimestamp_ok isTime).2⟩

/-- A number that was read is read again. -/
theorem safeInteger_again {n : Nat} (isSafe : safeInteger input path = .ok n) (path' : Text) :
    safeInteger (.number (natNumber n)) path' = .ok n := by
  -- The number was safe, so it is printed and read as itself.
  refine safeInteger_natNumber ?_ path'
  unfold safeInteger at isSafe
  split at isSafe
  · split at isSafe
    · split at isSafe
      · rename_i safe
        exact Except.ok.inj isSafe ▸ safe
      · cases isSafe
    · split at isSafe
      · split at isSafe <;> cases isSafe
      · cases isSafe
  · cases isSafe

/-- A kind is read from its name. -/
theorem kind_again (kind : ImportedAuthorKind) (path' : Text) :
    literal (.string kind.text) path' [(lit "human", .human), (lit "agent", .agent)]
      = .ok kind := by
  cases kind with
  | human => simp [literal, ImportedAuthorKind.text]
  | agent =>
    have other : (lit "agent" == lit "human") = false := by decide
    simp [literal, ImportedAuthorKind.text, List.lookup_cons, other]

/-- Digests are plain text. -/
theorem digestField_written {digest : Text} (shaped : isDigest digest = true) (path' : Text) :
    digestField (.string digest) path' = .ok digest := by
  -- A digest is its prefix and hexadecimal digits, which every reader of identifiers accepts.
  have parts := shaped
  simp only [isDigest, Bool.and_eq_true, beq_iff_eq] at parts
  obtain ⟨⟨opens, size⟩, hexadecimal⟩ := parts
  obtain ⟨rest, rfl⟩ := List.isPrefixOf_iff_prefix.mp opens
  have plain : Plain (lit "sha256:" ++ rest) := by
    refine Plain.append (plain_of_all (by decide)) fun u inside => ?_
    have unit := List.all_eq_true.mp hexadecimal u (by
      rw [show (7 : Nat) = (lit "sha256:").length by decide, List.drop_left]
      exact inside)
    simp only [isDigit, Bool.or_eq_true, Bool.and_eq_true, decide_eq_true_eq,
      UInt16.le_iff_toNat_le, UInt16.toNat_ofNat] at unit
    omega
  have isId : identifier (.string (lit "sha256:" ++ rest)) path' = .ok (lit "sha256:" ++ rest) := by
    refine identifier_eq_ok.mpr ⟨rfl, ?_, by simp [show lit "sha256:" ≠ [] by decide]⟩
    exact (label_eq_ok.mp (label_plain plain (by rw [size]; decide) path')).2
  refine bind_eq_ok.mpr ⟨_, read_eq_ok.mpr isId, ?_⟩
  exact bind_eq_ok.mpr ⟨(), ensure_eq_ok.mpr shaped, rfl⟩

end

/-! ## Parts of an archive -/

section

variable {input : Json} {path : Text}

/-- A source that was read is read again. -/
theorem readSource_again {source : ImportedHistorySource}
    (isSource : readSource input path = .ok source) (path' : Text) :
    readSource (.object [(lit "channelId", .string source.channelId),
      (lit "revision", .string source.revision)]) path'
      = .ok source := by
  obtain ⟨r, -, rest⟩ := bind_eq_ok.mp isSource
  obtain ⟨channelId, isChannel, rest⟩ := bind_eq_ok.mp rest
  obtain ⟨revision, isRevision, same⟩ := bind_eq_ok.mp rest
  obtain rfl := Except.ok.inj same
  have distinct : ([lit "channelId", lit "revision"] : List Text).Nodup := by decide
  refine bind_eq_ok.mpr ⟨_, object_written rfl path',
    bind_eq_ok.mpr ⟨channelId, ?_, bind_eq_ok.mpr ⟨revision, ?_, rfl⟩⟩⟩
  · exact read_eq_ok.mpr (fieldOf_written rfl distinct (by simp)
      (identifier_again (read_eq_ok.mp isChannel) _))
  · exact read_eq_ok.mpr (fieldOf_written rfl distinct (by simp)
      (identifier_again (read_eq_ok.mp isRevision) _))

/-- An actor that was read is read again. -/
theorem readActor_again {actor : ImportedHistoryActor} (isActor : readActor input path = .ok actor)
    (path' : Text) :
    readActor (.object [(lit "ownerId", .string actor.ownerId),
      (lit "participantId", .string actor.participantId)]) path'
      = .ok actor := by
  obtain ⟨r, -, rest⟩ := bind_eq_ok.mp isActor
  obtain ⟨ownerId, isOwner, rest⟩ := bind_eq_ok.mp rest
  obtain ⟨participantId, isParticipant, same⟩ := bind_eq_ok.mp rest
  obtain rfl := Except.ok.inj same
  have distinct : ([lit "ownerId", lit "participantId"] : List Text).Nodup := by decide
  refine bind_eq_ok.mpr ⟨_, object_written rfl path',
    bind_eq_ok.mpr ⟨ownerId, ?_, bind_eq_ok.mpr ⟨participantId, ?_, rfl⟩⟩⟩
  · exact read_eq_ok.mpr (fieldOf_written rfl distinct (by simp)
      (identifier_again (read_eq_ok.mp isOwner) _))
  · exact read_eq_ok.mpr (fieldOf_written rfl distinct (by simp)
      (identifier_again (read_eq_ok.mp isParticipant) _))

variable {limits : ImportedHistoryLimits}

/-- The keys of a record that was written are different. -/
private theorem distinct_record :
    ([lit "v", lit "kind"] ++ recordInputKeys ++ [lit "recordDigest"]).Nodup := by
  decide

/-- The fields of a record that were read once are read again. -/
theorem readRecord_again {r : Members} {fields : ImportedHistoryRecordInput}
    (isFields : readRecordFields limits r path = .ok fields) {recordDigest : Text}
    (shaped : isDigest recordDigest = true) (path' : Text) :
    readRecord limits (sealedRecordJson ⟨fields, recordDigest⟩) path'
      = .ok ⟨fields, recordDigest⟩ := by
  -- A record holds what was read, under the keys that its reader expects.
  obtain ⟨author, -, rest⟩ := bind_eq_ok.mp isFields
  obtain ⟨label, isLabel, rest⟩ := bind_eq_ok.mp rest
  obtain ⟨_, some_, rest⟩ := bind_eq_ok.mp rest
  obtain ⟨sourceRecordId, isId, rest⟩ := bind_eq_ok.mp rest
  obtain ⟨sequence, isSequence, rest⟩ := bind_eq_ok.mp rest
  obtain ⟨kind, -, rest⟩ := bind_eq_ok.mp rest
  obtain ⟨originalSentAt, isTime, rest⟩ := bind_eq_ok.mp rest
  obtain ⟨body, isBody, same⟩ := bind_eq_ok.mp rest
  obtain rfl := Except.ok.inj same
  have distinct : ([lit "label", lit "kind"] : List Text).Nodup := by decide
  have versioned : version (.number (natNumber 1)) (joinPath path' (lit "v")) = .ok () := rfl
  refine bind_eq_ok.mpr ⟨_, object_written rfl path',
    bind_eq_ok.mpr ⟨(), ?_, bind_eq_ok.mpr ⟨(), ?_, bind_eq_ok.mpr ⟨_, ?_,
    bind_eq_ok.mpr ⟨recordDigest, ?_, rfl⟩⟩⟩⟩⟩
  · exact read_eq_ok.mpr (fieldOf_written rfl distinct_record (by simp) versioned)
  · exact of_field (v := .string (lit "imported"))
      (P := fun value => read (literal value _ _) = .ok ()) rfl distinct_record (by simp)
      (by simp [literal, read])
  · -- The fields are read one by one, under their new paths.
    refine bind_eq_ok.mpr ⟨[(lit "label", .string label), (lit "kind", .string kind.text)], ?_,
      bind_eq_ok.mpr ⟨label, ?_,
      bind_eq_ok.mpr ⟨(), ensure_eq_ok.mpr (ensure_eq_ok.mp some_),
        bind_eq_ok.mpr ⟨sourceRecordId, ?_, bind_eq_ok.mpr ⟨sequence, ?_,
        bind_eq_ok.mpr ⟨kind, ?_,
          bind_eq_ok.mpr ⟨originalSentAt, ?_, bind_eq_ok.mpr ⟨body, ?_, rfl⟩⟩⟩⟩⟩⟩⟩⟩
    · exact of_field (v := sealedAuthorJson ⟨label, kind⟩)
        (P := fun value => read (object value _ _) = .ok _) rfl distinct_record
        (by simp) (object_written rfl _)
    · exact of_field (P :=
        fun value => read (displayText value _ _) = .ok label) rfl distinct (by simp)
        (read_eq_ok.mpr (displayText_again (read_eq_ok.mp isLabel) _))
    · exact read_eq_ok.mpr (fieldOf_written rfl distinct_record (by simp)
        (identifier_again (read_eq_ok.mp isId) _))
    · exact read_eq_ok.mpr (fieldOf_written rfl distinct_record (by simp)
        (safeInteger_again (read_eq_ok.mp isSequence) _))
    · exact of_field (P := fun value => read (literal value _ _) = .ok kind) rfl distinct (by simp)
        (read_eq_ok.mpr (kind_again kind _))
    · exact read_eq_ok.mpr (fieldOf_written rfl distinct_record (by simp)
        (utcTimestamp_again (read_eq_ok.mp isTime) _))
    · exact of_field (P :=
        fun value => read (text value _ _) = .ok body) rfl distinct_record (by simp)
        (read_eq_ok.mpr (text_again (read_eq_ok.mp isBody) _))
  · exact fieldOf_written rfl distinct_record (by simp) (digestField_written shaped _)

end

end Khala.Import
