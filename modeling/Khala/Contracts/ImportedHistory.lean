import Khala.Contracts.MessageContent

/-! Imported history: records, chunks and manifests, and the encodings that their digests are taken
of. -/

namespace Khala

open Js Decode

def IMPORTED_RECORD_ENCODING_V1 : Text := lit "khala.imported-history.record.v1"
def IMPORTED_CHUNK_ENCODING_V1 : Text := lit "khala.imported-history.chunk.v1"
def IMPORTED_MANIFEST_ENCODING_V1 : Text := lit "khala.imported-history.manifest.v1"

/-- The internal channel and the snapshot revision the archive was taken from. -/
structure ImportedHistorySource where
  channelId : Text
  revision : Text
deriving DecidableEq

/-- The signed-in owner's participant that performed the import. -/
structure ImportedHistoryActor where
  ownerId : Text
  participantId : Text
deriving DecidableEq

inductive ImportedAuthorKind
  | human
  | agent
deriving DecidableEq

def ImportedAuthorKind.text : ImportedAuthorKind → Text
  | .human => lit "human"
  | .agent => lit "agent"

/-- How the source channel labelled a message's author. -/
structure ImportedOriginalAuthor where
  label : Text
  kind : ImportedAuthorKind
deriving DecidableEq

/-- A source message before sealing. -/
structure ImportedHistoryRecordInput where
  sourceRecordId : Text
  sequence : Number
  originalAuthor : ImportedOriginalAuthor
  originalSentAt : Text
  body : Text
deriving DecidableEq

/-- One imported message, bound by its digest to where it came from. -/
structure ImportedHistoryRecord extends ImportedHistoryRecordInput where
  recordDigest : Text
deriving DecidableEq

structure ImportedHistoryChunkEntry where
  index : Number
  recordCount : Number
  firstSequence : Number
  lastSequence : Number
  chunkDigest : Text
deriving DecidableEq

structure ImportedHistoryManifest where
  archiveId : Text
  source : ImportedHistorySource
  importedBy : ImportedHistoryActor
  importedAt : Text
  recordCount : Number
  chunks : List ImportedHistoryChunkEntry
deriving DecidableEq

/-- What is encoded of a chunk: all of it but its own digest. -/
structure ImportedHistoryChunk where
  archiveId : Text
  index : Number
  records : List ImportedHistoryRecord
deriving DecidableEq

def encodeImportedRecord (channelId : Text) (record : ImportedHistoryRecordInput) : List UInt8 :=
  encodeItems [.string IMPORTED_RECORD_ENCODING_V1, .string channelId,
    .string record.sourceRecordId,
    .number record.sequence, .string record.originalAuthor.label,
      .string record.originalAuthor.kind.text,
    .string record.originalSentAt, .string record.body]

def chunkRecordTuple (record : ImportedHistoryRecord) : Json :=
  .array [.string record.sourceRecordId, .number record.sequence,
    .string record.originalAuthor.label,
    .string record.originalAuthor.kind.text, .string record.originalSentAt, .string record.body,
    .string record.recordDigest]

def encodeImportedHistoryChunk (chunk : ImportedHistoryChunk) : List UInt8 :=
  encodeItems [.string IMPORTED_CHUNK_ENCODING_V1, .string chunk.archiveId, .number chunk.index,
    .array (chunk.records.map chunkRecordTuple)]

/-- An entry of the manifest as the encoding holds it. -/
def chunkEntryTuple (entry : ImportedHistoryChunkEntry) : Json :=
  .array [.number entry.index, .number entry.recordCount, .number entry.firstSequence,
    .number entry.lastSequence,
    .string entry.chunkDigest]

def encodeImportedHistoryManifest (manifest : ImportedHistoryManifest) : List UInt8 :=
  encodeItems [.string IMPORTED_MANIFEST_ENCODING_V1, .string manifest.archiveId,
    .string manifest.source.channelId,
    .string manifest.source.revision, .string manifest.importedBy.ownerId,
      .string manifest.importedBy.participantId,
    .string manifest.importedAt, .number manifest.recordCount,
      .array (manifest.chunks.map chunkEntryTuple)]

/-! ## Every kind has a digest of its own -/

/-- Different kinds of authors have different names. -/
theorem ImportedAuthorKind.text_injective {one two : ImportedAuthorKind}
    (same : one.text = two.text) : one = two := by
  revert same
  cases one <;> cases two <;> decide

/-- Different records are written differently in a chunk. -/
theorem chunkRecordTuple_injective : Function.Injective chunkRecordTuple := by
  intro one two same
  obtain ⟨⟨id, sequence, ⟨label, kind⟩, sentAt, body⟩, digest⟩ := one
  obtain ⟨⟨id', sequence', ⟨label', kind'⟩, sentAt', body'⟩, digest'⟩ := two
  simp only [chunkRecordTuple, Json.array.injEq, List.cons.injEq, Json.string.injEq,
    Json.number.injEq, and_true] at same
  obtain ⟨rfl, rfl, rfl, kinds, rfl, rfl, rfl⟩ := same
  rw [ImportedAuthorKind.text_injective kinds]

/-- Different entries are written differently in a manifest. -/
theorem chunkEntryTuple_injective : Function.Injective chunkEntryTuple := by
  intro one two same
  obtain ⟨index, count, first, last, digest⟩ := one
  obtain ⟨index', count', first', last', digest'⟩ := two
  simpa only [chunkEntryTuple, Json.array.injEq, List.cons.injEq, Json.string.injEq,
    Json.number.injEq, and_true,
    ImportedHistoryChunkEntry.mk.injEq] using same

/-- What a digest can be taken of. -/
inductive Digested
  | message (content : MessageContent)
  | record (channelId : Text) (record : ImportedHistoryRecordInput)
  | chunk (chunk : ImportedHistoryChunk)
  | manifest (manifest : ImportedHistoryManifest)
deriving DecidableEq

section

variable (nfc nfkc : Text → Text)

/-- The bytes that the digest is taken of; only the content of a message may be refused. -/
def Digested.encode : Digested → Except EncodeError (List UInt8)
  | .message content => encodeMessageContent nfc nfkc content
  | .record channelId input => .ok (encodeImportedRecord channelId input)
  | .chunk part => .ok (encodeImportedHistoryChunk part)
  | .manifest listing => .ok (encodeImportedHistoryManifest listing)

/-- The domain that separates a kind from the others. -/
def Digested.domain : Digested → Text
  | .message _ => MESSAGE_ENCODING_V1
  | .record _ _ => IMPORTED_RECORD_ENCODING_V1
  | .chunk _ => IMPORTED_CHUNK_ENCODING_V1
  | .manifest _ => IMPORTED_MANIFEST_ENCODING_V1

variable {nfc nfkc}

/-- An encoding opens with the domain of its kind. -/
theorem Digested.encode_eq {digested : Digested} {bytes : List UInt8}
    (encodes : digested.encode nfc nfkc = .ok bytes) :
    ∃ items, bytes = encodeItems (.string digested.domain :: items) := by
  -- Each of the four begins with the text of its domain.
  cases digested with
  | message content =>
    rw [encodeMessageContent_eq encodes]
    cases content with
    | agentRename participant body => exact ⟨_, rfl⟩
    | agentNameSnapshot participant body source => exact ⟨_, rfl⟩
    | text body reply image => cases reply <;> cases image <;> exact ⟨_, rfl⟩
  | record channelId record =>
    cases encodes
    exact ⟨_, rfl⟩
  | chunk chunk =>
    cases encodes
    exact ⟨_, rfl⟩
  | manifest manifest =>
    cases encodes
    exact ⟨_, rfl⟩

/-- The kinds have different domains. -/
theorem domains_differ :
    [MESSAGE_ENCODING_V1, IMPORTED_RECORD_ENCODING_V1, IMPORTED_CHUNK_ENCODING_V1,
    IMPORTED_MANIFEST_ENCODING_V1].Nodup := by decide

/-- Different records are digested from different bytes. -/
theorem encodeImportedRecord_injective {channelId channelId' : Text}
    {record record' : ImportedHistoryRecordInput}
    (same : encodeImportedRecord channelId record = encodeImportedRecord channelId' record') :
    channelId = channelId' ∧ record = record' := by
  have items := encodeItems_injective same
  obtain ⟨id, sequence, ⟨label, kind⟩, sentAt, body⟩ := record
  obtain ⟨id', sequence', ⟨label', kind'⟩, sentAt', body'⟩ := record'
  simp only [List.cons.injEq, Json.string.injEq, Json.number.injEq, and_true, true_and] at items
  obtain ⟨rfl, rfl, rfl, rfl, kinds, rfl, rfl⟩ := items
  exact ⟨rfl, by rw [ImportedAuthorKind.text_injective kinds]⟩

/-- Different chunks are digested from different bytes. -/
theorem encodeImportedHistoryChunk_injective {chunk chunk' : ImportedHistoryChunk}
    (same : encodeImportedHistoryChunk chunk = encodeImportedHistoryChunk chunk') :
    chunk = chunk' := by
  have items := encodeItems_injective same
  obtain ⟨archiveId, index, records⟩ := chunk
  obtain ⟨archiveId', index', records'⟩ := chunk'
  simp only [List.cons.injEq, Json.string.injEq, Json.number.injEq, Json.array.injEq, and_true,
    true_and] at items
  obtain ⟨rfl, rfl, tuples⟩ := items
  rw [List.map_injective_iff.mpr chunkRecordTuple_injective tuples]

/-- Different manifests are digested from different bytes. -/
theorem encodeImportedHistoryManifest_injective {manifest manifest' : ImportedHistoryManifest}
    (same : encodeImportedHistoryManifest manifest = encodeImportedHistoryManifest manifest') :
    manifest = manifest' := by
  have items := encodeItems_injective same
  obtain ⟨archiveId, ⟨channelId, revision⟩, ⟨ownerId, participantId⟩, importedAt, count, chunks⟩ :=
    manifest
  obtain ⟨archiveId', ⟨channelId', revision'⟩, ⟨ownerId', participantId'⟩, importedAt', count',
    chunks'⟩ := manifest'
  simp only [List.cons.injEq, Json.string.injEq, Json.number.injEq, Json.array.injEq, and_true,
    true_and] at items
  obtain ⟨rfl, rfl, rfl, rfl, rfl, rfl, rfl, tuples⟩ := items
  rw [List.map_injective_iff.mpr chunkEntryTuple_injective tuples]

variable (nfc nfkc)

/--
A digest binds what it is taken of.

Whatever two things of the four kinds have one encoding are the same thing, and a content that is
accepted is read back as it was under limits that its body fits.
-/
theorem digests_bind :
    (∀ one two : Digested, ∀ bytes, one.encode nfc nfkc = .ok bytes →
      two.encode nfc nfkc = .ok bytes → one = two)
      ∧ ∀ content bytes limits path, encodeMessageContent nfc nfkc content = .ok bytes →
      content.FitsLimits limits →
        readMessageContent nfc nfkc content.toJson path limits = .ok content := by
  refine ⟨fun one two bytes first second => ?_,
    fun content bytes limits path encodes fits => readMessageContent_of_encodes encodes fits path⟩
  -- Both encodings open with their domains, so that the kinds are the same.
  have domains : one.domain = two.domain := by
    obtain ⟨items, opens⟩ := Digested.encode_eq first
    obtain ⟨items', opens'⟩ := Digested.encode_eq second
    have heads := encodeItems_injective (opens.symm.trans opens')
    exact Json.string.inj (List.cons.inj heads).1
  have differ := domains_differ
  simp only [List.nodup_cons, List.mem_cons, List.not_mem_nil, or_false, not_or] at differ
  cases one with
  | message content =>
    cases two with
    | message content' =>
      have items :=
        encodeItems_injective
        ((encodeMessageContent_eq first).symm.trans (encodeMessageContent_eq second))
      rw [MessageContent.items_injective items]
    | record channelId record => exact absurd domains differ.1.1
    | chunk chunk => exact absurd domains differ.1.2.1
    | manifest manifest => exact absurd domains differ.1.2.2
  | record channelId record =>
    cases two with
    | message content => exact absurd domains.symm differ.1.1
    | record channelId' record' =>
      cases first
      obtain ⟨rfl, rfl⟩ := encodeImportedRecord_injective (Except.ok.inj second)
      rfl
    | chunk chunk => exact absurd domains differ.2.1.1
    | manifest manifest => exact absurd domains differ.2.1.2
  | chunk chunk =>
    cases two with
    | message content => exact absurd domains.symm differ.1.2.1
    | record channelId record => exact absurd domains.symm differ.2.1.1
    | chunk chunk' =>
      cases first
      rw [encodeImportedHistoryChunk_injective (Except.ok.inj second)]
    | manifest manifest => exact absurd domains differ.2.2.1
  | manifest manifest =>
    cases two with
    | message content => exact absurd domains.symm differ.1.2.2
    | record channelId record => exact absurd domains.symm differ.2.1.2
    | chunk chunk => exact absurd domains.symm differ.2.2.1
    | manifest manifest' =>
      cases first
      rw [encodeImportedHistoryManifest_injective (Except.ok.inj second)]

end

/-- A reply and the snapshot of a name are accepted, and read back as they were. -/
theorem digests_bind_plain :
    let reply : MessageContent := .text (lit "fine") (some (lit "$parent")) none
    let snapshot : MessageContent := .agentNameSnapshot (lit "@agent:khala") (lit "Maya") none
    (∃ bytes, encodeMessageContent id id reply = .ok bytes)
      ∧ (∃ bytes, encodeMessageContent id id snapshot = .ok bytes)
      ∧ readMessageContent id id reply.toJson [] ⟨100, by decide⟩ = .ok reply
      ∧ readMessageContent id id snapshot.toJson [] ⟨100, by decide⟩ = .ok snapshot := by
  intro reply snapshot
  have replies : encodeMessageContent id id reply = .ok (encodeItems reply.items) := rfl
  have named : encodeMessageContent id id snapshot = .ok (encodeItems snapshot.items) := rfl
  have bound := (digests_bind id id).2
  exact ⟨⟨_, replies⟩, ⟨_, named⟩,
    bound reply _ ⟨100, by decide⟩ [] replies (by decide : utf8Length (lit "fine") ≤ 100),
    bound snapshot _ ⟨100, by decide⟩ [] named trivial⟩

end Khala
