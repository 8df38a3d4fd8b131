import Khala.Contracts.SealedArchive

/-! An archive that was sealed is opened again, with the records that were sealed. -/

namespace Khala.Import

open Js Decode

variable {sha256 : List UInt8 → Option Text} {limits : ImportedHistoryLimits} {channelId : Text}

/-! ## What was sealed is read -/

/-- Records that were sealed in order are read as they are. -/
theorem readRecords_written {path : Text} {previous : Option ImportedHistoryRecord} {position : Nat}
    {records : List ImportedHistoryRecord}
    (each : ∀ record ∈ records, Sealed sha256 limits channelId record) (ordered : Ordered records)
    (after : ∀ record ∈ records, previous.all (sequenceOf · < sequenceOf record) = true) :
    readRecords sha256 limits channelId path previous position (records.map sealedRecordJson)
      = .ok records := by
  induction records generalizing previous position with
  | nil => rfl
  | cons record rest ih =>
    -- Each record passes its checks, and comes after the one before it.
    obtain ⟨own, others⟩ := List.forall_mem_cons.mp each
    obtain ⟨later, ordered⟩ := List.pairwise_cons.mp ordered
    refine bind_eq_ok.mpr ⟨record, own.again _,
      bind_eq_ok.mpr ⟨(), ensure_eq_ok.mpr (after record List.mem_cons_self),
      bind_eq_ok.mpr ⟨record.recordDigest, digest_eq_ok.mpr own.bound,
        bind_eq_ok.mpr ⟨(), ensure_eq_ok.mpr (decide_eq_true rfl),
        bind_eq_ok.mpr ⟨rest, ?_, rfl⟩⟩⟩⟩⟩
    exact ih others ordered fun other inside => by simpa using later other inside

/-- Records in order take up at least as many places as they are. -/
theorem ordered_span {first : ImportedHistoryRecord} {rest : List ImportedHistoryRecord}
    (ordered : Ordered (first :: rest)) :
    ∀ last, (first :: rest).getLast? = some last →
    sequenceOf first + rest.length ≤ sequenceOf last := by
  -- Each step from one record to the next takes at least one place.
  induction rest generalizing first with
  | nil =>
    intro last is
    obtain rfl := Option.some.inj is
    exact Nat.le_refl _
  | cons second rest ih =>
    intro last is
    obtain ⟨later, ordered⟩ := List.pairwise_cons.mp ordered
    rw [List.getLast?_cons_cons] at is
    have := ih ordered last is
    have := later second List.mem_cons_self
    rw [List.length_cons]
    omega

/-- A chunk as it is sealed. -/
structure Chunked (sha256 : List UInt8 → Option Text) (limits : ImportedHistoryLimits)
    (channelId : Text) (index : Nat) (chunk : SealedChunk) : Prop where
  /-- The chunk stands at its own number. -/
  numbered : chunk.index = natNumber index
  safe : index ≤ maxSafeInteger
  some_ : chunk.records ≠ []
  bounded : chunk.records.length ≤ limits.maxRecordsPerChunk
  sized : (encodeImportedHistoryChunk chunk.toImportedHistoryChunk).length ≤ limits.maxChunkBytes
  ordered : Ordered chunk.records
  each : ∀ record ∈ chunk.records, Sealed sha256 limits channelId record
  /-- Its digest is that of its bytes. -/
  digested : sha256 (encodeImportedHistoryChunk chunk.toImportedHistoryChunk)
    = some chunk.chunkDigest
  shaped : isDigest chunk.chunkDigest = true

/-- The records of a chunk are readable. -/
theorem Chunked.readable {index : Nat} {chunk : SealedChunk}
    (chunked : Chunked sha256 limits channelId index chunk) :
    ∀ record ∈ chunk.records, Readable limits record :=
  fun record inside => readable_of_readRecord ((chunked.each record inside).again [])

/-- The first and the last record of a chunk, as its entry lists them. -/
theorem Chunked.ends {index : Nat} {chunk : SealedChunk}
    (chunked : Chunked sha256 limits channelId index chunk) :
    ∃ first last, chunk.records.head? = some first ∧ chunk.records.getLast? = some last
      ∧ first ∈ chunk.records
      ∧ last ∈ chunk.records ∧ sequenceOf first + chunk.records.length ≤ sequenceOf last + 1
      ∧ chunk.entry = ⟨natNumber index, natNumber chunk.records.length,
        natNumber (sequenceOf first), natNumber (sequenceOf last),
        chunk.chunkDigest⟩ := by
  -- The chunk is not empty, so it has a first and a last record.
  obtain ⟨first, rest, is⟩ := List.exists_cons_of_ne_nil chunked.some_
  obtain ⟨last, ends⟩ : ∃ last, chunk.records.getLast? = some last :=
    ⟨_, List.getLast?_eq_some_getLast chunked.some_⟩
  have head : chunk.records.head? = some first := by rw [is]; rfl
  have inside : first ∈ chunk.records := by rw [is]; exact List.mem_cons_self
  have inside' : last ∈ chunk.records := List.mem_of_getLast? ends
  have span := ordered_span (is ▸ chunked.ordered) last (is ▸ ends)
  refine ⟨first, last, head, ends, inside, inside', ?_, ?_⟩
  · rw [is, List.length_cons]
    omega
  · rw [SealedChunk.entry, head, ends, chunked.numbered, Option.map_some, Option.map_some,
      Option.getD_some, Option.getD_some,
      ← (chunked.readable first inside).printed, ← (chunked.readable last inside').printed]

/-- A chunk's entry is read as it is. -/
theorem readChunkEntry_written {index : Nat} {chunk : SealedChunk}
    (chunked : Chunked sha256 limits channelId index chunk) (path : Text) :
    readChunkEntry (sealedEntryJson chunk.entry) path = .ok chunk.entry := by
  -- Every field is one that was counted or taken from the chunk, and is read as it was written.
  obtain ⟨first, last, -, -, inside, inside', span, entry⟩ := chunked.ends
  have some_ : chunk.records.length ≠ 0 := by simpa using chunked.some_
  have distinct :
    ([lit "index", lit "recordCount", lit "firstSequence", lit "lastSequence", lit "chunkDigest"] :
      List Text).Nodup := by
    decide
  have counted : chunk.records.length ≤ maxSafeInteger :=
    Nat.le_trans chunked.bounded (limits.positive _ (by simp)).2
  rw [entry]
  refine bind_eq_ok.mpr ⟨_, object_written rfl path,
    bind_eq_ok.mpr ⟨index, ?_, bind_eq_ok.mpr ⟨chunk.records.length, ?_,
    bind_eq_ok.mpr ⟨sequenceOf first, ?_,
      bind_eq_ok.mpr ⟨sequenceOf last, ?_, bind_eq_ok.mpr ⟨chunk.chunkDigest, ?_,
      bind_eq_ok.mpr ⟨(), ?_, bind_eq_ok.mpr ⟨(), ?_, bind_eq_ok.mpr ⟨(), ?_, rfl⟩⟩⟩⟩⟩⟩⟩⟩⟩
  · exact read_eq_ok.mpr (fieldOf_written rfl distinct (by simp)
      (safeInteger_natNumber chunked.safe _))
  · exact read_eq_ok.mpr (fieldOf_written rfl distinct (by simp) (safeInteger_natNumber counted _))
  · exact read_eq_ok.mpr (fieldOf_written rfl distinct (by simp)
      (safeInteger_natNumber (chunked.readable first inside).safe _))
  · exact read_eq_ok.mpr (fieldOf_written rfl distinct (by simp)
      (safeInteger_natNumber (chunked.readable last inside').safe _))
  · exact fieldOf_written rfl distinct (by simp) (digestField_written chunked.shaped _)
  · exact ensure_eq_ok.mpr (decide_eq_true some_)
  · exact ensure_eq_ok.mpr (decide_eq_true (by omega))
  · exact ensure_eq_ok.mpr (decide_eq_true (by omega))

/-- The chunks of an archive from one index on. -/
def Chunks (sha256 : List UInt8 → Option Text) (limits : ImportedHistoryLimits) (channelId : Text)
    (index : Nat) (chunks : List SealedChunk) : Prop :=
  ∀ i chunk, chunks[i]? = some chunk → Chunked sha256 limits channelId (index + i) chunk

/-- Chunks are a first one and the others. -/
theorem Chunks.cons {index : Nat} {chunk : SealedChunk} {rest : List SealedChunk}
    (chunks : Chunks sha256 limits channelId index (chunk :: rest)) :
    Chunked sha256 limits channelId index chunk ∧ Chunks sha256 limits channelId (index + 1) rest :=
  ⟨chunks 0 chunk rfl, fun i other found => by
    have := chunks (i + 1) other found
    rwa [← Nat.add_assoc, Nat.add_right_comm] at this⟩

/-- The entries of chunks in order are read as they are. -/
theorem readEntries_written {previous : Option ImportedHistoryChunkEntry} {index : Nat}
    {chunks : List SealedChunk} (each : Chunks sha256 limits channelId index chunks)
    (ordered : Ordered (chunks.flatMap (·.records)))
    (after : ∀ record ∈ chunks.flatMap (·.records),
      previous.all (natOf ·.lastSequence < sequenceOf record) = true) :
    readEntries limits previous index (chunks.map fun chunk => sealedEntryJson chunk.entry)
      = .ok (chunks.map SealedChunk.entry) := by
  induction chunks generalizing previous index with
  | nil => rfl
  | cons chunk rest ih =>
    obtain ⟨own, others⟩ := each.cons
    obtain ⟨first, last, -, -, inside, inside', -, entry⟩ := own.ends
    rw [List.flatMap_cons] at ordered after
    obtain ⟨-, ordered', apart⟩ := List.pairwise_append.mp ordered
    -- The entry says what its chunk is.
    have numbers : natOf chunk.entry.index = index
      ∧ natOf chunk.entry.recordCount = chunk.records.length
        ∧ natOf chunk.entry.firstSequence = sequenceOf first
        ∧ natOf chunk.entry.lastSequence = sequenceOf last := by
      simp [entry]
    refine bind_eq_ok.mpr ⟨chunk.entry, readChunkEntry_written own _,
      bind_eq_ok.mpr ⟨(), ?_, bind_eq_ok.mpr ⟨(), ?_,
      bind_eq_ok.mpr ⟨(), ?_,
        bind_eq_ok.mpr ⟨rest.map SealedChunk.entry, ih others ordered' ?_, rfl⟩⟩⟩⟩⟩
    · exact ensure_eq_ok.mpr (decide_eq_true numbers.1)
    · exact ensure_eq_ok.mpr (decide_eq_true (by rw [numbers.2.1]; exact own.bounded))
    · refine ensure_eq_ok.mpr ?_
      rw [numbers.2.2.1]
      exact after first (List.mem_append_left _ inside)
    · -- All later records come after the last of this chunk.
      intro record behind
      rw [Option.all_some, numbers.2.2.2]
      exact decide_eq_true (apart last inside' record behind)

/-- A chunk is read as it was sealed. -/
theorem readChunk_written {manifest : ImportedHistoryManifest} {index : Nat} {chunk : SealedChunk}
    (chunked : Chunked sha256 limits manifest.source.channelId index chunk)
    (named : chunk.archiveId = manifest.archiveId)
    (isId : ∀ path, identifier (.string manifest.archiveId) path = .ok manifest.archiveId)
    (listed : manifest.chunks[index]? = some chunk.entry) (path : Text) :
    readChunk sha256 limits manifest chunk.json path = .ok chunk.toImportedHistoryChunk := by
  -- The checks of the reader are the facts that sealing left, in the order of the fields.
  obtain ⟨first, last, head, tail, -, -, -, entry⟩ := chunked.ends
  have distinct : ([lit "v", lit "archiveId", lit "index", lit "records", lit "chunkDigest"] :
    List Text).Nodup := by decide
  have versioned : version (.number (natNumber 1)) (joinPath path (lit "v")) = .ok () := rfl
  have arrayed : array (.array (chunk.records.map sealedRecordJson)) (joinPath path (lit "records"))
    = .ok (chunk.records.map sealedRecordJson) := rfl
  have numbers : natOf chunk.entry.recordCount = chunk.records.length
    ∧ natOf chunk.entry.firstSequence = sequenceOf first
      ∧ natOf chunk.entry.lastSequence = sequenceOf last
      ∧ chunk.entry.chunkDigest = chunk.chunkDigest := by
    simp [entry]
  have whole : (⟨manifest.archiveId, natNumber index, chunk.records⟩ : ImportedHistoryChunk)
    = chunk.toImportedHistoryChunk := by
    rw [← named, ← chunked.numbered]
  refine bind_eq_ok.mpr ⟨_, object_written rfl path,
    bind_eq_ok.mpr ⟨(), ?_, bind_eq_ok.mpr ⟨manifest.archiveId, ?_,
    bind_eq_ok.mpr ⟨(), ensure_eq_ok.mpr (decide_eq_true rfl),
      bind_eq_ok.mpr ⟨index, ?_, bind_eq_ok.mpr ⟨chunk.entry, ?_,
      bind_eq_ok.mpr ⟨chunk.chunkDigest, ?_,
        bind_eq_ok.mpr ⟨chunk.records.map sealedRecordJson, ?_, bind_eq_ok.mpr ⟨(), ?_,
        bind_eq_ok.mpr ⟨(), ?_,
          bind_eq_ok.mpr ⟨chunk.records, ?_, bind_eq_ok.mpr ⟨(), ?_, bind_eq_ok.mpr ⟨(), ?_,
          bind_eq_ok.mpr ⟨chunk.chunkDigest, ?_, bind_eq_ok.mpr ⟨(), ?_, ?_⟩⟩⟩⟩⟩⟩⟩⟩⟩⟩⟩⟩⟩⟩⟩
  · exact read_eq_ok.mpr (fieldOf_written rfl distinct (by simp) versioned)
  · exact read_eq_ok.mpr (fieldOf_written rfl distinct (by simp [named]) (isId _))
  · exact read_eq_ok.mpr (fieldOf_written rfl distinct (by rw [← chunked.numbered]; simp)
      (safeInteger_natNumber chunked.safe _))
  · rw [entryAt, listed]
  · exact fieldOf_written rfl distinct (by simp) (digestField_written chunked.shaped _)
  · exact read_eq_ok.mpr (fieldOf_written rfl distinct (by simp) arrayed)
  · exact ensure_eq_ok.mpr (decide_eq_true (by rw [List.length_map]; exact chunked.bounded))
  · exact ensure_eq_ok.mpr (decide_eq_true (by rw [List.length_map, numbers.1]))
  · exact readRecords_written chunked.each chunked.ordered fun record _ => rfl
  · refine ensure_eq_ok.mpr (decide_eq_true ⟨?_, ?_⟩)
    · rw [head, Option.map_some, numbers.2.1]
      rfl
    · rw [tail, Option.map_some, numbers.2.2.1]
      rfl
  · rw [whole]
    exact ensure_eq_ok.mpr (decide_eq_true chunked.sized)
  · rw [whole]
    exact digest_eq_ok.mpr chunked.digested
  · exact ensure_eq_ok.mpr (decide_eq_true ⟨rfl, numbers.2.2.2.symm⟩)
  · exact congrArg Except.ok whole

/-- Chunks are read as they were sealed. -/
theorem readChunks_written {manifest : ImportedHistoryManifest} {seen : List Text} {position : Nat}
    {chunks : List SealedChunk}
    (each : Chunks sha256 limits manifest.source.channelId position chunks)
    (named : ∀ chunk ∈ chunks, chunk.archiveId = manifest.archiveId)
    (isId : ∀ path, identifier (.string manifest.archiveId) path = .ok manifest.archiveId)
    (listed : ∀ i chunk, chunks[i]? = some chunk →
      manifest.chunks[position + i]? = some chunk.entry)
    (distinct : ((chunks.flatMap (·.records)).map (·.sourceRecordId)).Nodup)
    (fresh : ∀ id ∈ (chunks.flatMap (·.records)).map (·.sourceRecordId), id ∉ seen) :
    readChunks sha256 limits manifest seen position (chunks.map SealedChunk.json)
      = .ok (chunks.flatMap (·.records)) := by
  induction chunks generalizing seen position with
  | nil => rfl
  | cons chunk rest ih =>
    obtain ⟨own, others⟩ := each.cons
    obtain ⟨name, names⟩ := List.forall_mem_cons.mp named
    rw [List.flatMap_cons, List.map_append] at distinct fresh
    obtain ⟨distinct', distinct'', apart⟩ := List.nodup_append.mp distinct
    -- A chunk stands at its index, and its identifiers are new.
    refine bind_eq_ok.mpr ⟨_, readChunk_written own name isId (listed 0 chunk rfl) _,
      bind_eq_ok.mpr ⟨(), ?_, bind_eq_ok.mpr ⟨(), ?_,
      bind_eq_ok.mpr ⟨rest.flatMap (·.records),
        ih others names (fun i other found => ?_) distinct'' (fun id inside => ?_), rfl⟩⟩⟩⟩
    · exact ensure_eq_ok.mpr (decide_eq_true (by rw [own.numbered, natOf_natNumber]))
    · exact ensure_eq_ok.mpr (decide_eq_true ⟨distinct', fun id inside =>
        fresh id (List.mem_append_left _ inside)⟩)
    · have := listed (i + 1) other found
      rwa [← Nat.add_assoc, Nat.add_right_comm] at this
    · rw [List.mem_append, not_or]
      exact ⟨fresh id (List.mem_append_right _ inside), fun before => apart id before id inside rfl⟩

/-! ## What was sealed is opened -/

section

variable {archiveId : Text}

/-- The chunks of packed groups hold the same records. -/
theorem records_sealed {groups : List Group} {chunks : List SealedChunk}
    (each : List.Forall₂ (fun group (chunk : SealedChunk) => chunk.archiveId = archiveId
      ∧ chunk.records = group.records) groups chunks) :
    chunks.flatMap (·.records) = allRecords groups := by
  -- Sealing a group keeps its records.
  induction each with
  | nil => rfl
  | cons same _ ih =>
    rw [List.flatMap_cons, ih, same.2]
    rfl

/-- What is sealed of packed groups are chunks. -/
theorem Packed.chunks {groups : List Group} {chunks : List SealedChunk}
    (shaped : ∀ bytes digest, sha256 bytes = some digest → isDigest digest = true)
    (isPacked : Packed sha256 limits archiveId channelId groups)
    (seals : sealChunks sha256 archiveId 0 groups = .ok chunks) :
    Chunks sha256 limits channelId 0 chunks := by
  -- Sealing adds index and digest to a group, whose other properties the packing has.
  obtain ⟨each, bound⟩ := sealChunks_ok seals
  intro i chunk found
  obtain ⟨small, is⟩ := List.getElem?_eq_some_iff.mp found
  obtain ⟨numbered, digested⟩ := bound i chunk found
  have few : i < groups.length := by rw [each.length_eq]; exact small
  obtain ⟨named, same⟩ := each.get few small
  rw [List.get_eq_getElem, is] at named
  rw [List.get_eq_getElem, is] at same
  have inside : groups[i] ∈ groups := List.getElem_mem few
  rw [List.get_eq_getElem] at same
  have whole : chunk.toImportedHistoryChunk = ⟨archiveId, natNumber i, groups[i].records⟩ := by
    rw [← named, ← same, ← Nat.zero_add i, ← numbered]
  obtain ⟨size, fits⟩ := isPacked.sized i groups[i] (List.getElem?_eq_getElem few)
  exact {
    numbered := numbered
    safe := by
      rw [Nat.zero_add]
      exact Nat.le_trans (Nat.le_trans (Nat.le_of_lt few) isPacked.few)
        (limits.positive _ (by simp)).2
    some_ := same ▸ isPacked.some_ _ inside
    bounded := same ▸ isPacked.bounded _ inside
    sized := by
      rw [whole, ← size]
      exact fits
    ordered := same ▸ (List.pairwise_flatMap.mp isPacked.ordered).1 _ inside
    each := fun record there =>
      isPacked.each record (List.mem_flatMap.mpr ⟨_, inside, same ▸ there⟩)
    digested := digested
    shaped := shaped _ _ digested }

/-- The manifest of an archive that was sealed is read back. -/
theorem decodeManifest_written {manifest : ImportedHistoryManifest} {chunks : List SealedChunk}
    {total : Nat} (each : Chunks sha256 limits channelId 0 chunks)
    (few : chunks.length ≤ limits.maxChunks) (ordered : Ordered (chunks.flatMap (·.records)))
    (listed : manifest.chunks = chunks.map SealedChunk.entry)
    (isId : ∀ path, identifier (.string manifest.archiveId) path = .ok manifest.archiveId)
    (isSource :
      ∀ path, readSource (.object [(lit "channelId", .string manifest.source.channelId),
        (lit "revision", .string manifest.source.revision)]) path = .ok manifest.source)
    (isActor : ∀ path,
      readActor (.object [(lit "ownerId", .string manifest.importedBy.ownerId),
        (lit "participantId", .string manifest.importedBy.participantId)]) path
        = .ok manifest.importedBy)
    (isTime : ∀ path, utcTimestamp (.string manifest.importedAt) path = .ok manifest.importedAt)
    (counted : manifest.recordCount = natNumber total) (safe : total ≤ maxSafeInteger)
    (sum : total = (chunks.flatMap (·.records)).length) :
    decodeImportedHistoryManifest limits (sealedManifestJson manifest) = .ok manifest := by
  -- The fields are read back one by one, and the counts agree with the entries.
  have distinct :
    ([lit "v", lit "archiveId", lit "source", lit "importedBy", lit "importedAt",
      lit "recordCount", lit "chunks"] :
    List Text).Nodup := by decide
  have versioned : version (.number (natNumber 1)) (joinPath [] (lit "v")) = .ok () := rfl
  have arrayed : array (.array (manifest.chunks.map sealedEntryJson)) (joinPath [] (lit "chunks"))
    = .ok (manifest.chunks.map sealedEntryJson) := rfl
  have entries :
    readEntries limits none 0 (manifest.chunks.map sealedEntryJson) = .ok manifest.chunks := by
    rw [listed, List.map_map]
    exact readEntries_written each ordered fun _ _ => rfl
  have whole :
    (⟨manifest.archiveId, manifest.source, manifest.importedBy, manifest.importedAt,
      natNumber total, manifest.chunks⟩ :
    ImportedHistoryManifest) = manifest := by rw [← counted]
  refine bind_eq_ok.mpr ⟨_, object_written rfl [],
    bind_eq_ok.mpr ⟨manifest.chunks.map sealedEntryJson, ?_, bind_eq_ok.mpr ⟨(), ?_,
    bind_eq_ok.mpr ⟨manifest.chunks, entries,
      bind_eq_ok.mpr ⟨(), ?_, bind_eq_ok.mpr ⟨manifest.archiveId, ?_,
      bind_eq_ok.mpr ⟨manifest.source, ?_,
        bind_eq_ok.mpr ⟨manifest.importedBy, ?_, bind_eq_ok.mpr ⟨manifest.importedAt, ?_,
        bind_eq_ok.mpr ⟨total, ?_, bind_eq_ok.mpr ⟨(), ?_, congrArg Except.ok whole⟩⟩⟩⟩⟩⟩⟩⟩⟩⟩⟩
  · exact read_eq_ok.mpr (fieldOf_written rfl distinct (by simp) arrayed)
  · exact ensure_eq_ok.mpr
      (decide_eq_true (by rw [List.length_map, listed, List.length_map]; exact few))
  · exact read_eq_ok.mpr (fieldOf_written rfl distinct (by simp) versioned)
  · exact read_eq_ok.mpr (fieldOf_written rfl distinct (by simp) (isId _))
  · exact fieldOf_written rfl distinct (by simp) (isSource _)
  · exact fieldOf_written rfl distinct (by simp) (isActor _)
  · exact read_eq_ok.mpr (fieldOf_written rfl distinct (by simp) (isTime _))
  · exact read_eq_ok.mpr (fieldOf_written rfl distinct (by rw [← counted]; simp)
      (safeInteger_natNumber safe _))
  · -- The entries count the records of their chunks.
    refine ensure_eq_ok.mpr (decide_eq_true ?_)
    rw [sum, listed, List.length_flatMap, List.map_map]
    congr 1
    exact List.map_congr_left fun chunk _ => (natOf_natNumber _).symm

/-- A value that is read as an object with some keys is one. -/
private theorem object_members {input : Json} {path : Text} {keys : List Text} {members : Members}
    (isObject : object input path keys = .ok members) : input = .object members := by
  unfold object at isObject
  split at isObject
  · split at isObject
    · cases isObject
    · split at isObject
      · cases isObject
      · exact congrArg Json.object (Except.ok.inj isObject)
  · cases isObject

/-- An array that is read was one. -/
private theorem array_items {input : Json} {path : Text} {items : List Json}
    (isArray : array input path = .ok items) :
    input = .array items := by
  cases input with
  | array values => exact congrArg Json.array (Except.ok.inj isArray)
  | _ => cases isArray

/--
What was sealed is opened.

The archive that sealing makes is verified under the same limits with the same digests, and holds
the records that were read from the input, in their order.
-/
theorem opens_sealed {input : Json} {archive : SealedImportedHistory}
    (shaped : ∀ bytes digest, sha256 bytes = some digest → isDigest digest = true)
    (seals : sealImportedHistory sha256 limits input = .ok archive)
    (safe : natOf archive.manifest.recordCount ≤ maxSafeInteger) :
    ∃ r values records, input = .object r ∧ field r (lit "records") = .array values
      ∧ openImportedHistory sha256 limits (sealedManifestJson archive.manifest)
        (.array (archive.chunks.map SealedChunk.json))
        = .ok (archive.manifest, records) ∧ List.Forall₂ (ReadFrom limits) values records := by
  -- Each part that sealing has read is read again where it stands in the archive.
  obtain ⟨r, isObject, more⟩ := bind_eq_ok.mp seals
  obtain ⟨archiveId, isId, more⟩ := bind_eq_ok.mp more
  obtain ⟨source, isSource, more⟩ := bind_eq_ok.mp more
  obtain ⟨importedBy, isActor, more⟩ := bind_eq_ok.mp more
  obtain ⟨importedAt, isTime, more⟩ := bind_eq_ok.mp more
  obtain ⟨values, isArray, more⟩ := bind_eq_ok.mp more
  obtain ⟨groups, packs, more⟩ := bind_eq_ok.mp more
  obtain ⟨chunks, sealsChunks, same⟩ := bind_eq_ok.mp more
  obtain rfl := Except.ok.inj same
  rw [natOf_natNumber] at safe
  obtain ⟨isPacked, records, all, readFrom⟩ := Packed.nil.sealRecords shaped packs
  obtain ⟨each, -⟩ := sealChunks_ok sealsChunks
  have isChunks := isPacked.chunks shaped sealsChunks
  have joined : chunks.flatMap (·.records) = allRecords groups := records_sealed each
  have whole : allRecords groups = records := all
  have isArchive := identifier_again (read_eq_ok.mp isId)
  let manifest : ImportedHistoryManifest :=
    ⟨archiveId, source, importedBy, importedAt, natNumber values.length,
      chunks.map SealedChunk.entry⟩
  -- The manifest lists the chunks that were packed, with as many records as the input.
  have decoded :
    decodeImportedHistoryManifest limits (sealedManifestJson manifest) = .ok manifest := by
    refine decodeManifest_written isChunks (each.length_eq ▸ isPacked.few)
      (joined ▸ isPacked.ordered) rfl isArchive
      (readSource_again isSource) (readActor_again isActor)
        (utcTimestamp_again (read_eq_ok.mp isTime)) rfl safe ?_
    rw [joined, whole, readFrom.length_eq]
  -- The chunks are those of the manifest, from the first to the last.
  have chunksRead : readChunks sha256 limits manifest [] 0 (chunks.map SealedChunk.json)
    = .ok (chunks.flatMap (·.records)) := by
    refine readChunks_written isChunks (fun chunk inside => ?_) isArchive (fun i chunk found => ?_)
      (joined ▸ isPacked.distinct)
      fun _ _ => List.not_mem_nil
    · obtain ⟨i, small, is⟩ := List.getElem_of_mem inside
      have named := (each.get (each.length_eq ▸ small) small).1
      rw [List.get_eq_getElem, is] at named
      exact named
    · change (chunks.map SealedChunk.entry)[0 + i]? = _
      rw [Nat.zero_add, List.getElem?_map, found]
      rfl
  refine ⟨r, values, records, object_members (read_eq_ok.mp isObject),
    array_items (read_eq_ok.mp isArray), ?_, readFrom⟩
  have opened : openManifest limits (sealedManifestJson manifest)
    = .ok manifest := by rw [openManifest, decoded]
  refine bind_eq_ok.mpr ⟨manifest, opened,
    bind_eq_ok.mpr ⟨chunks.map SealedChunk.json, rfl, bind_eq_ok.mpr ⟨(), ?_,
    bind_eq_ok.mpr ⟨_, chunksRead, ?_⟩⟩⟩⟩
  · exact ensure_eq_ok.mpr (decide_eq_true (by simp [manifest]))
  · rw [joined, whole]
    rfl

end

def smallLimits : ImportedHistoryLimits := ⟨64, 64, 2, 4096, 16, 2, 96, by decide, by decide⟩

/-- A digest by its value. -/
def digestText (value : Nat) : Text :=
  lit "sha256:" ++ (List.range 64).map fun i => hexDigit (value / 16 ^ (63 - i) % 16)

/-- Three records with their digests. -/
def greeting : ImportedHistoryRecord :=
  ⟨⟨lit "m1", natNumber 1, ⟨lit "ada", .human⟩, lit "2025-10-02T10:04:00Z", lit "hi"⟩,
    digestText 0xa6cf1b808eff1adb0e269dc799e2bc02c8c30e215a1038cb2624b7eea25080fc⟩

def reply : ImportedHistoryRecord :=
  ⟨⟨lit "m2", natNumber 3, ⟨lit "bot", .agent⟩, lit "2025-10-02T10:05:00Z", lit "ho"⟩,
    digestText 0x0b8d372046eb7ee604b42c3a2be4bfb3b1aa5f74fbf4ea240aa3a9a3ccb4288c⟩

def farewell : ImportedHistoryRecord :=
  ⟨⟨lit "m3", natNumber 4, ⟨lit "ada", .human⟩, lit "2025-10-02T10:06:00Z", lit "bye"⟩,
    digestText 0x6b704640491c3d6ee35eedacc594fa44ff4dfbf71cb218a3660c1007f4125879⟩

/-- The two chunks that they are packed into. -/
def earlierChunk : SealedChunk :=
  ⟨⟨lit "archive-1", natNumber 0, [greeting, reply]⟩,
    digestText 0x2073ce12252fd04d20dfd3a656ae5cb233b296637b7337f87ca0ee484355b4aa⟩

def laterChunk : SealedChunk :=
  ⟨⟨lit "archive-1", natNumber 1, [farewell]⟩,
    digestText 0x0fb49ff8a28eb8a3a50f37552378c6d79ddb32e1e27be9e8b9eebec6d77fa8ef⟩

def packedManifest : ImportedHistoryManifest :=
  ⟨lit "archive-1", ⟨lit "general", lit "r1"⟩, ⟨lit "ada", lit "@ada:khala"⟩,
    lit "2025-10-02T10:07:00Z", natNumber 3,
    [⟨natNumber 0, natNumber 2, natNumber 1, natNumber 3, earlierChunk.chunkDigest⟩,
      ⟨natNumber 1, natNumber 1, natNumber 4, natNumber 4, laterChunk.chunkDigest⟩]⟩

def packedManifestDigest : Text :=
  digestText 0x8a2c371d7a053666bf1410c6e1111deab5b77dbbd3fa4ebb04c364862127d9d9

/-- The digests of these records, of their chunks and of the manifest, told apart by the first
letter of what they are, and by the digit of the record or of the chunk. -/
def packedDigests (bytes : List UInt8) : Option Text :=
  if bytes[25]? = some 109 then some packedManifestDigest
  else if bytes[25]? = some 99
    then some (if bytes[47]? = some 48 then earlierChunk.chunkDigest else laterChunk.chunkDigest)
  else some (if bytes[48]? = some 49 then greeting.recordDigest
    else if bytes[48]? = some 50 then reply.recordDigest else farewell.recordDigest)

/-- A record as it is given to be sealed. -/
def givenRecord (record : ImportedHistoryRecord) : Json :=
  .object [(lit "sourceRecordId", .string record.sourceRecordId),
    (lit "sequence", .number record.sequence),
    (lit "originalAuthor", sealedAuthorJson record.originalAuthor),
      (lit "originalSentAt", .string record.originalSentAt),
    (lit "body", .string record.body)]

def packedInput : Json :=
  .object [(lit "archiveId", .string (lit "archive-1")),
    (lit "source",
      .object [(lit "channelId", .string (lit "general")), (lit "revision", .string (lit "r1"))]),
    (lit "importedBy", .object [(lit "ownerId", .string (lit "ada")),
      (lit "participantId", .string (lit "@ada:khala"))]),
    (lit "importedAt", .string (lit "2025-10-02T10:07:00Z")),
    (lit "records", .array ([greeting, reply, farewell].map givenRecord))]

def packedSealed : SealedImportedHistory := ⟨packedManifest, [earlierChunk, laterChunk]⟩

/-- Three records are sealed in two chunks, and are opened again. -/
theorem opens_sealed_packed :
    sealImportedHistory packedDigests smallLimits packedInput = .ok packedSealed
    ∧ ∃ r values records, packedInput = .object r ∧ field r (lit "records") = .array values
      ∧ openImportedHistory packedDigests smallLimits (sealedManifestJson packedSealed.manifest)
        (.array (packedSealed.chunks.map SealedChunk.json)) = .ok (packedSealed.manifest, records)
      ∧ List.Forall₂ (ReadFrom smallLimits) values records := by
  have seals : sealImportedHistory packedDigests smallLimits packedInput
    = .ok packedSealed := by decide +kernel
  -- The digests are a table of six, all of them in the form of a digest.
  have shaped : ∀ bytes digest, packedDigests bytes = some digest → isDigest digest = true := by
    intro bytes digest is
    have all : ∀ digest ∈ [packedManifestDigest, earlierChunk.chunkDigest, laterChunk.chunkDigest,
      greeting.recordDigest,
        reply.recordDigest, farewell.recordDigest], isDigest digest = true := by
      decide +kernel
    have among : digest ∈ [packedManifestDigest, earlierChunk.chunkDigest, laterChunk.chunkDigest,
      greeting.recordDigest,
        reply.recordDigest, farewell.recordDigest] := by
      unfold packedDigests at is
      split_ifs at is <;> (rw [← Option.some.inj is]; simp)
    exact all digest among
  exact ⟨seals, opens_sealed shaped seals (by decide)⟩

end Khala.Import
