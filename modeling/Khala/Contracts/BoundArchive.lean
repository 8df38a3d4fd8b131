import Khala.Contracts.SealedOpening

/-! The digest of a manifest binds the whole archive, unless two of the texts that were digested
collide. -/

namespace Khala.Import

open Js Decode

variable {sha256 : List UInt8 → Option Text} {limits : ImportedHistoryLimits}

/-- The chunks that a manifest lists from one index on, with as many of the records as it counts in
each. -/
def chunksFrom (archiveId : Text) (index : Nat) :
    List ImportedHistoryChunkEntry → List ImportedHistoryRecord → List ImportedHistoryChunk
  | [], _ => []
  | entry :: rest, records =>
    ⟨archiveId, natNumber index, records.take (natOf entry.recordCount)⟩
      :: chunksFrom archiveId (index + 1) rest (records.drop (natOf entry.recordCount))

def chunksOf (manifest : ImportedHistoryManifest) (records : List ImportedHistoryRecord) :
    List ImportedHistoryChunk :=
  chunksFrom manifest.archiveId 0 manifest.chunks records

/-- What a whole archive is digested by: its manifest and its chunks. -/
def messages (manifest : ImportedHistoryManifest) (records : List ImportedHistoryRecord) :
    List (List UInt8) :=
  encodeImportedHistoryManifest manifest :: (chunksOf manifest records).map
    encodeImportedHistoryChunk

/-- Two different texts with one digest. -/
def Collision (sha256 : List UInt8 → Option Text) (messages messages' : List (List UInt8)) : Prop :=
  ∃ one ∈ messages, ∃ two ∈ messages', one ≠ two ∧ ∃ digest, sha256 one = some digest
    ∧ sha256 two = some digest

/-- Each value is read as one record. -/
theorem length_readRecords {channelId path : Text} {previous : Option ImportedHistoryRecord}
    {position : Nat} {values : List Json} {records : List ImportedHistoryRecord}
    (isRead : readRecords sha256 limits channelId path previous position values = .ok records) :
    records.length = values.length := by
  induction values generalizing previous position records with
  | nil =>
    obtain rfl := Except.ok.inj isRead
    rfl
  | cons value rest ih =>
    -- One record is read of every value.
    obtain ⟨record, -, more⟩ := bind_eq_ok.mp isRead
    obtain ⟨_, -, more⟩ := bind_eq_ok.mp more
    obtain ⟨_, -, more⟩ := bind_eq_ok.mp more
    obtain ⟨_, -, more⟩ := bind_eq_ok.mp more
    obtain ⟨others, isRest, same⟩ := bind_eq_ok.mp more
    obtain rfl := Except.ok.inj same
    rw [List.length_cons, List.length_cons, ih isRest]

/-- A chunk that is read is the one that the manifest lists under its index, down to its digest. -/
theorem readChunk_listed {manifest : ImportedHistoryManifest} {input : Json} {path : Text}
    {chunk : ImportedHistoryChunk}
    (isRead : readChunk sha256 limits manifest input path = .ok chunk) :
    chunk.archiveId = manifest.archiveId ∧ ∃ index entry, chunk.index = natNumber index
      ∧ manifest.chunks[index]? = some entry
      ∧ chunk.records.length = natOf entry.recordCount
      ∧ sha256 (encodeImportedHistoryChunk chunk) = some entry.chunkDigest := by
  -- The reader compares the chunk with the entry at its index, digest and count included.
  obtain ⟨r, -, rest⟩ := bind_eq_ok.mp isRead
  obtain ⟨_, -, rest⟩ := bind_eq_ok.mp rest
  obtain ⟨archiveId, -, rest⟩ := bind_eq_ok.mp rest
  obtain ⟨_, named, rest⟩ := bind_eq_ok.mp rest
  obtain ⟨index, -, rest⟩ := bind_eq_ok.mp rest
  obtain ⟨entry, isEntry, rest⟩ := bind_eq_ok.mp rest
  obtain ⟨chunkDigest, -, rest⟩ := bind_eq_ok.mp rest
  obtain ⟨values, -, rest⟩ := bind_eq_ok.mp rest
  obtain ⟨_, -, rest⟩ := bind_eq_ok.mp rest
  obtain ⟨_, counted, rest⟩ := bind_eq_ok.mp rest
  obtain ⟨records, isRecords, rest⟩ := bind_eq_ok.mp rest
  obtain ⟨_, -, rest⟩ := bind_eq_ok.mp rest
  obtain ⟨_, -, rest⟩ := bind_eq_ok.mp rest
  obtain ⟨computed, digests, rest⟩ := bind_eq_ok.mp rest
  obtain ⟨_, listed, same⟩ := bind_eq_ok.mp rest
  obtain rfl := Except.ok.inj same
  have found : manifest.chunks[index]? = some entry := by
    unfold entryAt at isEntry
    split at isEntry
    · rename_i there
      rw [there, Except.ok.inj isEntry]
    · cases isEntry
  refine ⟨of_decide_eq_true (ensure_eq_ok.mp named), index, entry, rfl, found, ?_, ?_⟩
  · exact (length_readRecords isRecords).trans (of_decide_eq_true (ensure_eq_ok.mp counted))
  · exact (digest_eq_ok.mp digests).trans
      (congrArg some (of_decide_eq_true (ensure_eq_ok.mp listed)).2)

/-- The chunks that are read have the digests that the manifest lists, and hold all the records. -/
theorem readChunks_listed {manifest : ImportedHistoryManifest} {seen : List Text} {position : Nat}
    {values : List Json} {records : List ImportedHistoryRecord}
    (isRead : readChunks sha256 limits manifest seen position values = .ok records)
    {entries : List ImportedHistoryChunkEntry} (left : manifest.chunks.drop position = entries)
    (each : values.length = entries.length) :
    (chunksFrom manifest.archiveId position entries records).flatMap (·.records) = records
      ∧ List.Forall₂ (fun chunk entry =>
        sha256 (encodeImportedHistoryChunk chunk) = some entry.chunkDigest)
        (chunksFrom manifest.archiveId position entries records) entries := by
  -- The chunks are read in the order of the entries, so their records can be dealt out by the
  -- counts.
  induction values generalizing seen position records entries with
  | nil =>
    obtain rfl := Except.ok.inj isRead
    obtain rfl := List.length_eq_zero_iff.mp each.symm
    exact ⟨rfl, .nil⟩
  | cons value rest ih =>
    obtain ⟨chunk, isChunk, more⟩ := bind_eq_ok.mp isRead
    obtain ⟨_, placed, more⟩ := bind_eq_ok.mp more
    obtain ⟨_, -, more⟩ := bind_eq_ok.mp more
    obtain ⟨others, isRest, same⟩ := bind_eq_ok.mp more
    obtain rfl := Except.ok.inj same
    obtain ⟨named, index, entry, numbered, found, counted, digested⟩ := readChunk_listed isChunk
    -- The chunk stands at its position in the manifest.
    have here : index = position := by
      rw [← natOf_natNumber index, ← numbered]
      exact of_decide_eq_true (ensure_eq_ok.mp placed)
    subst here
    obtain ⟨small, is⟩ := List.getElem?_eq_some_iff.mp found
    rw [List.drop_eq_getElem_cons small, is] at left
    subst left
    obtain ⟨whole, bound⟩ := ih isRest rfl (Nat.succ.inj each)
    have taken : (chunk.records ++ others).take (natOf entry.recordCount) = chunk.records :=
      List.take_left' counted
    have dropped : (chunk.records ++ others).drop (natOf entry.recordCount) = others :=
      List.drop_left' counted
    have same :
      (⟨manifest.archiveId, natNumber index, chunk.records⟩ : ImportedHistoryChunk) = chunk := by
      rw [← named, ← numbered]
    rw [chunksFrom, taken, dropped, List.flatMap_cons, whole]
    exact ⟨rfl, .cons (same.symm ▸ digested) bound⟩

/-- The records of an opened archive are those of its chunks, each with its digest. -/
theorem openImportedHistory_listed {manifest chunks : Json} {verified : ImportedHistoryManifest}
    {records : List ImportedHistoryRecord}
    (opened : openImportedHistory sha256 limits manifest chunks = .ok (verified, records)) :
    (chunksOf verified records).flatMap (·.records) = records
      ∧ List.Forall₂ (fun chunk entry =>
        sha256 (encodeImportedHistoryChunk chunk) = some entry.chunkDigest)
        (chunksOf verified records) verified.chunks := by
  -- The chunks are read from the first entry on, and there are as many as entries.
  obtain ⟨manifest, -, more⟩ := bind_eq_ok.mp opened
  obtain ⟨values, -, more⟩ := bind_eq_ok.mp more
  obtain ⟨_, each, more⟩ := bind_eq_ok.mp more
  obtain ⟨others, isRead, same⟩ := bind_eq_ok.mp more
  obtain ⟨rfl, rfl⟩ := Prod.mk.inj (Except.ok.inj same)
  exact readChunks_listed isRead rfl (of_decide_eq_true (ensure_eq_ok.mp each))

/-- Chunks with the same digests are the same, or two of them collide. -/
theorem chunks_bound {entries : List ImportedHistoryChunkEntry}
    {chunks chunks' : List ImportedHistoryChunk}
    (bound : List.Forall₂ (fun chunk entry =>
      sha256 (encodeImportedHistoryChunk chunk) = some entry.chunkDigest) chunks entries)
    (bound' : List.Forall₂ (fun chunk entry =>
      sha256 (encodeImportedHistoryChunk chunk) = some entry.chunkDigest) chunks' entries) :
    chunks = chunks' ∨ Collision sha256 (chunks.map encodeImportedHistoryChunk)
      (chunks'.map encodeImportedHistoryChunk) := by
  induction bound generalizing chunks' with
  | nil =>
    cases bound'
    exact .inl rfl
  | @cons chunk entry rest entries own others ih =>
    cases bound' with
    | @cons chunk' _ rest' _ own' others' =>
      -- Two chunks under one digest are encoded alike, or the encodings collide.
      by_cases encodings : encodeImportedHistoryChunk chunk = encodeImportedHistoryChunk chunk'
      · rcases ih others' with same | ⟨one, inside, two, inside', collide⟩
        · exact .inl (by rw [encodeImportedHistoryChunk_injective encodings, same])
        · exact .inr ⟨one, List.mem_cons_of_mem _ inside, two,
            List.mem_cons_of_mem _ inside', collide⟩
      · exact .inr ⟨_, List.mem_cons_self, _, List.mem_cons_self, encodings, _, own, own'⟩

/--
The digest of its manifest binds a verified archive.

Two archives that are verified, with manifests of one digest, are the same in every record, unless
two different texts of those that verifying them digests have one digest.
-/
theorem digest_binds_archive {limits' : ImportedHistoryLimits}
    {manifest chunks manifest' chunks' : Json} {verified verified' : ImportedHistoryManifest}
    {records records' : List ImportedHistoryRecord} {manifestDigest : Text}
    (opened : openImportedHistory sha256 limits manifest chunks = .ok (verified, records))
    (opened' : openImportedHistory sha256 limits' manifest' chunks' = .ok (verified', records'))
    (digested : digestImportedHistoryManifest sha256 verified = .ok manifestDigest)
    (digested' : digestImportedHistoryManifest sha256 verified' = .ok manifestDigest) :
    (verified = verified' ∧ records = records') ∨ Collision sha256 (messages verified records)
    (messages verified' records') := by
  -- Either the manifests differ and collide, or they are one, and the chunks are compared.
  obtain ⟨whole, bound⟩ := openImportedHistory_listed opened
  obtain ⟨whole', bound'⟩ := openImportedHistory_listed opened'
  by_cases encodings :
    encodeImportedHistoryManifest verified = encodeImportedHistoryManifest verified'
  · -- One manifest lists the digests of both archives' chunks.
    obtain rfl := encodeImportedHistoryManifest_injective encodings
    rcases chunks_bound bound bound' with same | ⟨one, inside, two, inside', collide⟩
    · exact .inl ⟨rfl, by rw [← whole, same, whole']⟩
    · exact .inr ⟨one, List.mem_cons_of_mem _ inside, two, List.mem_cons_of_mem _ inside', collide⟩
  · exact .inr ⟨_, List.mem_cons_self, _, List.mem_cons_self, encodings, manifestDigest,
      digest_eq_ok.mp digested,
      digest_eq_ok.mp digested'⟩

/-- An object with its members the other way round. -/
def turned : Json → Json
  | .object members => .object members.reverse
  | value => value

/-- More room than there was when the archive was sealed. -/
def widerLimits : ImportedHistoryLimits := ⟨128, 128, 4, 8192, 16, 4, 256, by decide, by decide⟩

/-- An archive of two chunks that is written in two ways is one archive. -/
theorem digest_binds_archive_turned : ∃ verified records verified' records',
    openImportedHistory packedDigests smallLimits (sealedManifestJson packedManifest)
      (.array ([earlierChunk, laterChunk].map SealedChunk.json)) = .ok (verified, records)
    ∧ openImportedHistory packedDigests widerLimits (turned (sealedManifestJson packedManifest))
      (.array ([earlierChunk, laterChunk].map fun chunk => turned chunk.json))
        = .ok (verified', records')
    ∧ digestImportedHistoryManifest packedDigests verified = .ok packedManifestDigest
    ∧ ((verified = verified' ∧ records = records')
      ∨ Collision packedDigests (messages verified records) (messages verified' records')) := by
  have opened : openImportedHistory packedDigests smallLimits (sealedManifestJson packedManifest)
      (.array ([earlierChunk, laterChunk].map SealedChunk.json)) = .ok (packedManifest,
        [greeting, reply, farewell]) := by
    decide +kernel
  have opened' :
    openImportedHistory packedDigests widerLimits (turned (sealedManifestJson packedManifest))
      (.array ([earlierChunk, laterChunk].map fun chunk => turned chunk.json))
        = .ok (packedManifest, [greeting, reply, farewell]) := by
    decide +kernel
  have digested : digestImportedHistoryManifest packedDigests packedManifest
    = .ok packedManifestDigest := by decide +kernel
  exact ⟨_, _, _, _, opened, opened', digested,
    digest_binds_archive opened opened' digested digested⟩

end Khala.Import
