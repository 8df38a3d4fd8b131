import Khala.Contracts.ImportedReading

/-! How an archive is sealed: source records are packed into bounded chunks, and a manifest lists
the chunks. -/

namespace Khala.Import

open Js Decode

/-- The records of a chunk that may still be open, and the size that its encoding has come to. -/
structure Group where
  records : List ImportedHistoryRecord
  bytes : Nat

structure SealedChunk extends ImportedHistoryChunk where
  chunkDigest : Text
deriving DecidableEq

structure SealedImportedHistory where
  manifest : ImportedHistoryManifest
  chunks : List SealedChunk
deriving DecidableEq

section

variable (sha256 : List UInt8 → Option Text) (limits : ImportedHistoryLimits) (archiveId : Text)

/-- Another chunk is begun with a record. -/
def openGroup (path : Text) (groups : List Group) (record : ImportedHistoryRecord) :
    Verified (List Group) :=
  do
  let bytes := (encodeImportedHistoryChunk ⟨archiveId, natNumber groups.length, []⟩).length
    + (jsonBytes (chunkRecordTuple record)).length
  ensure (bytes ≤ limits.maxChunkBytes) path (.decode .too_long)
  ensure (groups.length ≠ limits.maxChunks) (lit "records") (.decode .too_long)
  return groups ++ [⟨[record], bytes⟩]

/-- A record goes into the last chunk if there is room for it, with the comma before it. -/
def pack (path : Text) (groups : List Group) (record : ImportedHistoryRecord) :
    Verified (List Group) :=
  match groups.getLast? with
  | none => openGroup limits archiveId path groups record
  | some current =>
    let bytes := current.bytes + 1 + (jsonBytes (chunkRecordTuple record)).length
    if current.records.length < limits.maxRecordsPerChunk ∧ bytes ≤ limits.maxChunkBytes then
      .ok (groups.dropLast ++ [⟨current.records ++ [record], bytes⟩])
    else openGroup limits archiveId path groups record

/-- The record before the next one. -/
def lastRecord (groups : List Group) : Option ImportedHistoryRecord :=
  groups.getLast?.bind fun group => group.records.getLast?

def sealRecords (channelId : Text) (groups : List Group) (seen : List Text) (position : Nat) :
    List Json → Verified (List Group)
  | [] => .ok groups
  | value :: rest => do
    let path := elementPath (lit "records") position
    let r ← read (object value path recordInputKeys)
    let fields ← readRecordFields limits r path
    -- The records come in the order of their places, and none comes twice.
    ensure ((lastRecord groups).all fun previous =>
      natOf previous.sequence < natOf fields.sequence) (path ++ lit ".sequence")
      (.decode .invalid_value)
    ensure (fields.sourceRecordId ∉ seen) (path ++ lit ".sourceRecordId") (.decode .duplicate)
    let recordDigest ← digest sha256 (encodeImportedRecord channelId fields)
    -- The record goes to the last group, or to a new one.
    let packed ← pack limits archiveId path groups ⟨fields, recordDigest⟩
    sealRecords channelId packed (seen ++ [fields.sourceRecordId]) (position + 1) rest

def sealChunks (index : Nat) : List Group → Verified (List SealedChunk)
  | [] => .ok []
  | group :: rest => do
    let chunk : ImportedHistoryChunk := ⟨archiveId, natNumber index, group.records⟩
    let chunkDigest ← digest sha256 (encodeImportedHistoryChunk chunk)
    let chunks ← sealChunks (index + 1) rest
    return ⟨chunk, chunkDigest⟩ :: chunks

/-- What the manifest lists of a chunk; every chunk has a record. -/
def SealedChunk.entry (chunk : SealedChunk) : ImportedHistoryChunkEntry where
  index := chunk.index
  recordCount := natNumber chunk.records.length
  firstSequence := (chunk.records.head?.map (·.sequence)).getD (natNumber 0)
  lastSequence := (chunk.records.getLast?.map (·.sequence)).getD (natNumber 0)
  chunkDigest := chunk.chunkDigest

end

def sealImportedHistory (sha256 : List UInt8 → Option Text) (limits : ImportedHistoryLimits)
    (input : Json) :
    Verified SealedImportedHistory := do
  let r ← read (object input [] [lit "archiveId", lit "source", lit "importedBy", lit "importedAt",
    lit "records"])
  let archiveId ← read (fieldOf identifier r [] "archiveId")
  let source ← fieldOf readSource r [] "source"
  let importedBy ← fieldOf readActor r [] "importedBy"
  let importedAt ← read (fieldOf utcTimestamp r [] "importedAt")
  let values ← read (fieldOf array r [] "records")
  -- The records are packed into groups before any of these is digested.
  let groups ← sealRecords sha256 limits archiveId source.channelId [] [] 0 values
  let chunks ← sealChunks sha256 archiveId 0 groups
  return ⟨⟨archiveId, source, importedBy, importedAt, natNumber values.length,
    chunks.map SealedChunk.entry⟩, chunks⟩

/-- `digestImportedHistoryManifest`. -/
def digestImportedHistoryManifest (sha256 : List UInt8 → Option Text)
    (manifest : ImportedHistoryManifest) : Verified Text :=
  digest sha256 (encodeImportedHistoryManifest manifest)

/-! ## As objects -/

def sealedAuthorJson (author : ImportedOriginalAuthor) : Json :=
  .object [(lit "label", .string author.label), (lit "kind", .string author.kind.text)]

def sealedRecordJson (record : ImportedHistoryRecord) : Json :=
  .object [(lit "v", .number (natNumber 1)), (lit "kind", .string (lit "imported")),
    (lit "sourceRecordId", .string record.sourceRecordId),
      (lit "sequence", .number record.sequence),
    (lit "originalAuthor", sealedAuthorJson record.originalAuthor),
      (lit "originalSentAt", .string record.originalSentAt),
    (lit "body", .string record.body), (lit "recordDigest", .string record.recordDigest)]

def SealedChunk.json (chunk : SealedChunk) : Json :=
  .object [(lit "v", .number (natNumber 1)), (lit "archiveId", .string chunk.archiveId),
    (lit "index", .number chunk.index),
    (lit "records", .array (chunk.records.map sealedRecordJson)),
      (lit "chunkDigest", .string chunk.chunkDigest)]

def sealedEntryJson (entry : ImportedHistoryChunkEntry) : Json :=
  .object [(lit "index", .number entry.index), (lit "recordCount", .number entry.recordCount),
    (lit "firstSequence", .number entry.firstSequence),
      (lit "lastSequence", .number entry.lastSequence),
    (lit "chunkDigest", .string entry.chunkDigest)]

def sealedManifestJson (manifest : ImportedHistoryManifest) : Json :=
  .object [(lit "v", .number (natNumber 1)), (lit "archiveId", .string manifest.archiveId),
    (lit "source", .object [(lit "channelId", .string manifest.source.channelId),
      (lit "revision", .string manifest.source.revision)]),
    (lit "importedBy", .object [(lit "ownerId", .string manifest.importedBy.ownerId),
      (lit "participantId", .string manifest.importedBy.participantId)]),
    (lit "importedAt", .string manifest.importedAt),
      (lit "recordCount", .number manifest.recordCount),
    (lit "chunks", .array (manifest.chunks.map sealedEntryJson))]

end Khala.Import
