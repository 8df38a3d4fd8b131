import Khala.Contracts.ImportedHistory
import Khala.Contracts.Timestamp

/-! How an imported archive is read: its limits, its manifest and its chunks, with every digest
recomputed. -/

namespace Khala.Import

open Js Decode

/-- What can be wrong with an archive. -/
inductive ErrorCode
  | decode (code : DecodeErrorCode)
  | mismatch
  | invalidLimits
  | digestUnavailable
deriving DecidableEq

structure ReadError where
  path : Text
  code : ErrorCode
deriving DecidableEq

abbrev Verified (α : Type) : Type := Except ReadError α

/-- What a reader of values returns. -/
def read {α : Type} (decoded : Decoded α) : Verified α :=
  match decoded with
  | .ok value => .ok value
  | .error error => .error ⟨error.path, .decode error.code⟩

def refuse {α : Type} (path : Text) (code : ErrorCode) : Verified α := .error ⟨path, code⟩

/-- A check on the way. -/
def ensure (passed : Bool) (path : Text) (code : ErrorCode) : Verified Unit :=
  if passed then .ok () else refuse path code

/-- What is decoded is read. -/
theorem read_eq_ok {α : Type} {decoded : Decoded α} {value : α} :
    read decoded = .ok value ↔ decoded = .ok value := by
  cases decoded <;> simp [read]

/-- What is ensured is met exactly when nothing is reported. -/
theorem ensure_eq_ok {passed : Bool} {path : Text} {code : ErrorCode} {u : Unit} :
    ensure passed path code = .ok u ↔ passed = true := by
  cases passed <;> simp [ensure, refuse]

/-- Two readers in sequence both succeed. -/
theorem bind_eq_ok {α β : Type} {first : Verified α} {rest : α → Verified β} {result : β} :
    (first >>= rest) = .ok result ↔ ∃ value, first = .ok value ∧ rest value = .ok result := by
  cases first <;> simp [bind, Except.bind]

/-! ## Limits -/

/-- The bounds of one archive: positive safe integers, so that one maximum-sized body fits one page.
-/
structure ImportedHistoryLimits where
  maxBodyBytes : Nat
  maxAuthorLabelBytes : Nat
  maxRecordsPerChunk : Nat
  maxChunkBytes : Nat
  maxChunks : Nat
  maxPageRecords : Nat
  maxPageBytes : Nat
  /-- Each limit is a positive safe integer. -/
  positive : ∀ limit ∈ [maxBodyBytes, maxAuthorLabelBytes, maxRecordsPerChunk, maxChunkBytes,
    maxChunks, maxPageRecords, maxPageBytes],
    0 < limit ∧ limit ≤ maxSafeInteger
  /-- Each body fits on a page. -/
  fits : maxBodyBytes ≤ maxPageBytes

/-- `LIMIT_KEYS`. -/
def limitKeys : List Text :=
  [lit "maxBodyBytes", lit "maxAuthorLabelBytes", lit "maxRecordsPerChunk", lit "maxChunkBytes",
    lit "maxChunks",
    lit "maxPageRecords", lit "maxPageBytes"]

def readLimit (r : Members) (key : String) :
    Verified { limit : Nat // 0 < limit ∧ limit ≤ maxSafeInteger } :=
  do
  let value ← read (safeInteger (field r (lit key)) (lit key))
  if positive : 0 < value ∧ value ≤ maxSafeInteger then return ⟨value, positive⟩
  else refuse (lit key) (.decode .invalid_value)

def decodeImportedHistoryLimits (input : Json) : Verified ImportedHistoryLimits := do
  let r ← read (object input [] limitKeys)
  let maxBodyBytes ← readLimit r "maxBodyBytes"
  let maxAuthorLabelBytes ← readLimit r "maxAuthorLabelBytes"
  let maxRecordsPerChunk ← readLimit r "maxRecordsPerChunk"
  let maxChunkBytes ← readLimit r "maxChunkBytes"
  let maxChunks ← readLimit r "maxChunks"
  let maxPageRecords ← readLimit r "maxPageRecords"
  let maxPageBytes ← readLimit r "maxPageBytes"
  -- A record must fit on a page.
  if fits : maxBodyBytes.val ≤ maxPageBytes.val then
    return {
      maxBodyBytes := maxBodyBytes
      maxAuthorLabelBytes := maxAuthorLabelBytes
      maxRecordsPerChunk := maxRecordsPerChunk
      maxChunkBytes := maxChunkBytes
      maxChunks := maxChunks
      maxPageRecords := maxPageRecords
      maxPageBytes := maxPageBytes
      positive := by
        simp only [List.mem_cons, List.not_mem_nil, or_false, forall_eq_or_imp, forall_eq]
        exact ⟨maxBodyBytes.2, maxAuthorLabelBytes.2, maxRecordsPerChunk.2, maxChunkBytes.2,
          maxChunks.2, maxPageRecords.2, maxPageBytes.2⟩
      fits := fits }
  else refuse (lit "maxPageBytes") .invalidLimits

/-! ## Parts -/

/-- The number that a natural number was kept as. -/
def natOf (number : Number) : Nat := (spelledNat number.text).getD 0

/-- A number is read as it was written. -/
@[simp] theorem natOf_natNumber (n : Nat) : natOf (natNumber n) = n := by
  rw [natOf, natNumber, spelledNat_decimal]
  rfl

/-- `DIGEST`: the name of the hash, and 64 lower-case hexadecimal digits. -/
def isDigest (value : Text) : Bool :=
  (lit "sha256:").isPrefixOf value && value.length == 71 && (value.drop 7).all fun u =>
    isDigit u || (97 ≤ u && u ≤ 102)

def digestField (input : Json) (path : Text) : Verified Text := do
  let value ← read (identifier input path)
  ensure (isDigest value) path (.decode .invalid_value)
  return value

/-- A member of an object that was read, and its path. -/
def fieldOf {α : Type} (reader : Json → Text → α) (r : Members) (path : Text) (key : String) : α :=
  reader (field r (lit key)) (joinPath path (lit key))

def readSource (input : Json) (path : Text) : Verified ImportedHistorySource := do
  let r ← read (object input path [lit "channelId", lit "revision"])
  let channelId ← read (fieldOf identifier r path "channelId")
  let revision ← read (fieldOf identifier r path "revision")
  return ⟨channelId, revision⟩

def readActor (input : Json) (path : Text) : Verified ImportedHistoryActor := do
  let r ← read (object input path [lit "ownerId", lit "participantId"])
  let ownerId ← read (fieldOf readId r path "ownerId")
  let participantId ← read (fieldOf readId r path "participantId")
  return ⟨ownerId, participantId⟩

def recordInputKeys : List Text :=
  [lit "sourceRecordId", lit "sequence", lit "originalAuthor", lit "originalSentAt", lit "body"]

def readRecordFields (limits : ImportedHistoryLimits) (r : Members) (path : Text) :
    Verified ImportedHistoryRecordInput :=
  do
  let authorPath := joinPath path (lit "originalAuthor")
  let author ← read (object (field r (lit "originalAuthor")) authorPath [lit "label", lit "kind"])
  let label ← read (displayText (field author (lit "label"))
    (joinPath authorPath (lit "label")) limits.maxAuthorLabelBytes)
  -- A label that is empty is refused though its text is well formed.
  ensure (!label.isEmpty) (joinPath authorPath (lit "label")) (.decode .empty)
  let sourceRecordId ← read (fieldOf identifier r path "sourceRecordId")
  let sequence ← read (fieldOf safeInteger r path "sequence")
  let kind ← read (literal (field author (lit "kind")) (joinPath authorPath (lit "kind"))
    [(lit "human", .human), (lit "agent", .agent)])
  let originalSentAt ← read (fieldOf utcTimestamp r path "originalSentAt")
  let body ← read (text (field r (lit "body")) (joinPath path (lit "body")) limits.maxBodyBytes)
  return ⟨sourceRecordId, natNumber sequence, ⟨label, kind⟩, originalSentAt, body⟩

def readRecord (limits : ImportedHistoryLimits) (input : Json) (path : Text) :
    Verified ImportedHistoryRecord :=
  do
  let r ← read
    (object input path ([lit "v", lit "kind"] ++ recordInputKeys ++ [lit "recordDigest"]))
  read (fieldOf version r path "v")
  let _kind ← read (literal (field r (lit "kind")) (joinPath path (lit "kind"))
    [(lit "imported", ())])
  let fields ← readRecordFields limits r path
  let recordDigest ← fieldOf digestField r path "recordDigest"
  return ⟨fields, recordDigest⟩

/-! ## The manifest -/

def readChunkEntry (input : Json) (path : Text) : Verified ImportedHistoryChunkEntry := do
  let r ← read (object input path [lit "index", lit "recordCount", lit "firstSequence",
    lit "lastSequence", lit "chunkDigest"])
  let index ← read (fieldOf safeInteger r path "index")
  let recordCount ← read (fieldOf safeInteger r path "recordCount")
  let firstSequence ← read (fieldOf safeInteger r path "firstSequence")
  let lastSequence ← read (fieldOf safeInteger r path "lastSequence")
  let chunkDigest ← fieldOf digestField r path "chunkDigest"
  ensure (recordCount ≠ 0) (joinPath path (lit "recordCount")) (.decode .invalid_value)
  ensure (firstSequence ≤ lastSequence) (joinPath path (lit "lastSequence"))
    (.decode .invalid_value)
  -- Strictly increasing sequences cannot fit more records than the range holds.
  ensure (recordCount ≤ lastSequence - firstSequence + 1) (joinPath path (lit "recordCount"))
    (.decode .invalid_value)
  return ⟨natNumber index, natNumber recordCount, natNumber firstSequence,
    natNumber lastSequence, chunkDigest⟩

/-- The entries from one index on; each begins after the one before it ends. -/
def readEntries (limits : ImportedHistoryLimits) (previous : Option ImportedHistoryChunkEntry)
    (index : Nat) :
    List Json → Verified (List ImportedHistoryChunkEntry)
  | [] => .ok []
  | value :: rest => do
    let path := elementPath (lit "chunks") index
    let entry ← readChunkEntry value path
    -- Entries are numbered from nought on, and their ranges follow each other.
    ensure (natOf entry.index = index) (path ++ lit ".index") .mismatch
    ensure (natOf entry.recordCount ≤ limits.maxRecordsPerChunk) (path ++ lit ".recordCount")
      (.decode .too_long)
    ensure (previous.all fun previous => natOf previous.lastSequence < natOf entry.firstSequence)
      (path ++ lit ".firstSequence")
      (.decode .invalid_value)
    let entries ← readEntries limits (some entry) (index + 1) rest
    return entry :: entries

def decodeImportedHistoryManifest (limits : ImportedHistoryLimits) (input : Json) :
    Verified ImportedHistoryManifest :=
  do
  let r ← read (object input [] [lit "v", lit "archiveId", lit "source", lit "importedBy",
    lit "importedAt", lit "recordCount",
    lit "chunks"])
  let values ← read (fieldOf array r [] "chunks")
  -- There may not be more chunks than the limit allows.
  ensure (values.length ≤ limits.maxChunks) (lit "chunks") (.decode .too_long)
  let chunks ← readEntries limits none 0 values
  read (fieldOf version r [] "v")
  let archiveId ← read (fieldOf identifier r [] "archiveId")
  let source ← fieldOf readSource r [] "source"
  let importedBy ← fieldOf readActor r [] "importedBy"
  let importedAt ← read (fieldOf utcTimestamp r [] "importedAt")
  let recordCount ← read (fieldOf safeInteger r [] "recordCount")
  -- The records are counted over all the chunks.
  ensure (recordCount = (chunks.map fun entry => natOf entry.recordCount).sum)
    (lit "recordCount") .mismatch
  return ⟨archiveId, source, importedBy, importedAt, natNumber recordCount, chunks⟩

/-! ## Chunks -/

section

-- `sha256` of some bytes as text, when the platform can digest.
variable (sha256 : List UInt8 → Option Text)

def digest (bytes : List UInt8) : Verified Text :=
  match sha256 bytes with
  | some digest => .ok digest
  | none => refuse [] .digestUnavailable

/-- The records of a chunk from one position on; each comes after the one before it, with a digest
that binds it to its source. -/
def readRecords (limits : ImportedHistoryLimits) (channelId path : Text)
    (previous : Option ImportedHistoryRecord) (position : Nat) :
    List Json → Verified (List ImportedHistoryRecord)
  | [] => .ok []
  | value :: rest => do
    let here := elementPath path position
    let record ← readRecord limits value here
    -- Records follow each other in the order of their places.
    ensure (previous.all fun previous => natOf previous.sequence < natOf record.sequence)
      (here ++ lit ".sequence")
      (.decode .invalid_value)
    -- Each record carries its own digest.
    let recordDigest ← digest sha256
      (encodeImportedRecord channelId record.toImportedHistoryRecordInput)
    ensure (recordDigest = record.recordDigest) (here ++ lit ".recordDigest") .mismatch
    let records ← readRecords limits channelId path (some record) (position + 1) rest
    return record :: records

/-- What a manifest lists under an index. -/
def entryAt (manifest : ImportedHistoryManifest) (index : Nat) (path : Text) :
    Verified ImportedHistoryChunkEntry :=
  match manifest.chunks[index]? with
  | some entry => .ok entry
  | none => refuse path (.decode .invalid_value)

/-- A chunk that is exactly what the manifest lists under its index. -/
def readChunk (limits : ImportedHistoryLimits) (manifest : ImportedHistoryManifest) (input : Json)
    (path : Text) :
    Verified ImportedHistoryChunk := do
  let r ← read (object input path [lit "v", lit "archiveId", lit "index", lit "records",
    lit "chunkDigest"])
  read (fieldOf version r path "v")
  let archiveId ← read (fieldOf identifier r path "archiveId")
  -- The chunk belongs to this archive, and the manifest has an entry for it.
  ensure (archiveId = manifest.archiveId) (joinPath path (lit "archiveId")) .mismatch
  let index ← read (fieldOf safeInteger r path "index")
  let entry ← entryAt manifest index (joinPath path (lit "index"))
  let chunkDigest ← fieldOf digestField r path "chunkDigest"
  let values ← read (fieldOf array r path "records")
  let recordsPath := joinPath path (lit "records")
  ensure (values.length ≤ limits.maxRecordsPerChunk) recordsPath (.decode .too_long)
  -- Number and ends of the records are those of the entry.
  ensure (values.length = natOf entry.recordCount) recordsPath .mismatch
  let records ← readRecords sha256 limits manifest.source.channelId recordsPath none 0 values
  ensure (records.head?.map (natOf ·.sequence) = some (natOf entry.firstSequence)
    ∧ records.getLast?.map (natOf ·.sequence) = some (natOf entry.lastSequence))
      recordsPath .mismatch
  let chunk : ImportedHistoryChunk := ⟨archiveId, natNumber index, records⟩
  let bytes := encodeImportedHistoryChunk chunk
  -- The digest is that of the chunk as it is written, which may not be too long.
  ensure (bytes.length ≤ limits.maxChunkBytes) recordsPath (.decode .too_long)
  let computed ← digest sha256 bytes
  -- Chunk, entry and bytes agree on it.
  ensure (computed = chunkDigest ∧ computed = entry.chunkDigest)
    (joinPath path (lit "chunkDigest")) .mismatch
  return chunk

/-- The chunks from one position on, in the order of the manifest; no source record appears twice.
-/
def readChunks (limits : ImportedHistoryLimits) (manifest : ImportedHistoryManifest)
    (seen : List Text) (position : Nat) :
    List Json → Verified (List ImportedHistoryRecord)
  | [] => .ok []
  | value :: rest => do
    let path := elementPath (lit "chunks") position
    let chunk ← readChunk sha256 limits manifest value path
    -- The chunks come in the manifest's order, and no record comes twice.
    ensure (natOf chunk.index = position) (path ++ lit ".index") .mismatch
    let ids := chunk.records.map (·.sourceRecordId)
    ensure (ids.Nodup ∧ ∀ id ∈ ids, id ∉ seen) (path ++ lit ".records") (.decode .duplicate)
    let records ← readChunks limits manifest (seen ++ ids) (position + 1) rest
    return chunk.records ++ records

/-- The manifest of an archive, with its errors under their own path. -/
def openManifest (limits : ImportedHistoryLimits) (input : Json) :
    Verified ImportedHistoryManifest :=
  match decodeImportedHistoryManifest limits input with
  | .ok manifest => .ok manifest
  | .error error =>
    refuse (lit "manifest" ++ if error.path.isEmpty then [] else lit "." ++ error.path) error.code

/-- Verifies a whole archive: the manifest, then every chunk in its order. -/
def openImportedHistory (limits : ImportedHistoryLimits) (manifestInput chunkInputs : Json) :
    Verified (ImportedHistoryManifest × List ImportedHistoryRecord) := do
  let manifest ← openManifest limits manifestInput
  let values ← read (array chunkInputs (lit "chunks"))
  ensure (values.length = manifest.chunks.length) (lit "chunks") .mismatch
  let records ← readChunks sha256 limits manifest [] 0 values
  return (manifest, records)

end

end Khala.Import
