import Khala.Contracts.SealedParts
import Khala.Contracts.SealedSizes
import Khala.Messaging.ImportedView

/-! Sealing an archive: what holds of its chunks while records are packed into them. -/

namespace Khala.Import

open Js Decode

variable {sha256 : List UInt8 → Option Text} {limits : ImportedHistoryLimits}
    {archiveId channelId : Text}

/-- A digest is what is computed of the bytes. -/
theorem digest_eq_ok {bytes : List UInt8} {value : Text} :
    digest sha256 bytes = .ok value ↔ sha256 bytes = some value := by
  unfold digest
  cases sha256 bytes <;> simp [refuse]

/-- A record that is read again wherever it is written, and whose digest binds it to its source. -/
structure Sealed (sha256 : List UInt8 → Option Text) (limits : ImportedHistoryLimits)
    (channelId : Text) (record : ImportedHistoryRecord) : Prop where
  again : ∀ path, readRecord limits (sealedRecordJson record) path = .ok record
  bound : sha256 (encodeImportedRecord channelId record.toImportedHistoryRecordInput)
    = some record.recordDigest

def allRecords (groups : List Group) : List ImportedHistoryRecord := groups.flatMap (·.records)

/-- Groups that are full chunks but for the last, which may take more. -/
structure Packed (sha256 : List UInt8 → Option Text) (limits : ImportedHistoryLimits)
    (archiveId channelId : Text) (groups : List Group) : Prop where
  few : groups.length ≤ limits.maxChunks
  /-- No group is empty. -/
  some_ : ∀ group ∈ groups, group.records ≠ []
  bounded : ∀ group ∈ groups, group.records.length ≤ limits.maxRecordsPerChunk
  /-- The size that is kept is that of the chunk as it will be written. -/
  sized : ∀ i group, groups[i]? = some group →
    group.bytes = (encodeImportedHistoryChunk ⟨archiveId, natNumber i, group.records⟩).length
      ∧ group.bytes ≤ limits.maxChunkBytes
  ordered : Ordered (allRecords groups)
  /-- Each record reads back under the limits. -/
  each : ∀ record ∈ allRecords groups, Sealed sha256 limits channelId record
  distinct : ((allRecords groups).map (·.sourceRecordId)).Nodup

/-- No groups are packed. -/
theorem Packed.nil : Packed sha256 limits archiveId channelId [] where
  few := Nat.zero_le _
  some_ := by simp
  bounded := by simp
  sized := by simp
  ordered := .nil
  each := by simp [allRecords]
  distinct := by simp [allRecords]

/-- The records of two lists of groups are those of each. -/
theorem allRecords_append (one two : List Group) :
    allRecords (one ++ two) = allRecords one ++ allRecords two :=
  List.flatMap_append ..

/-- The record before the next one is the last of all. -/
theorem Packed.lastRecord {groups : List Group} (some_ : ∀ group ∈ groups, group.records ≠ []) :
    Import.lastRecord groups = (allRecords groups).getLast? := by
  -- The last group is not empty, so the last record is in it.
  rcases List.eq_nil_or_concat groups with rfl | ⟨before, last, rfl⟩
  · rfl
  · rw [List.concat_eq_append] at some_ ⊢
    have full := some_ last (by simp)
    rw [Import.lastRecord, List.getLast?_concat, Option.bind_some, allRecords_append]
    simp [allRecords, List.getLast?_append, List.getLast?_eq_some_getLast full]

/-- A record that comes after all others can be added to them. -/
theorem ordered_concat {records : List ImportedHistoryRecord} {record : ImportedHistoryRecord}
    (ordered : Ordered records)
    (after : records.getLast?.all (fun previous => natOf previous.sequence < natOf record.sequence)
      = true) :
    Ordered (records ++ [record]) := by
  -- The new record comes after the last one, and that after all the others.
  rw [Ordered, List.pairwise_append]
  refine ⟨ordered, List.pairwise_singleton _ _, fun other inside last there => ?_⟩
  obtain rfl := List.mem_singleton.mp there
  rcases List.eq_nil_or_concat records with rfl | ⟨before, final, rfl⟩
  · cases inside
  · rw [List.concat_eq_append] at ordered inside after
    rw [List.getLast?_concat, Option.all_some, decide_eq_true_eq] at after
    rcases List.mem_append.mp inside with earlier | same
    · exact Nat.lt_trans ((List.pairwise_append.mp ordered).2.2 other earlier final (by simp)) after
    · exact List.mem_singleton.mp same ▸ after

/-- A group at the end of the others. -/
theorem getElem?_concat_cases {α : Type} {before : List α} {last : α} {i : Nat} {x : α}
    (found : (before ++ [last])[i]? = some x) :
    before[i]? = some x ∨ (i = before.length ∧ x = last) := by
  -- The place lies before the end, at the end, or past it.
  rcases Nat.lt_trichotomy i before.length with small | same | large
  · rw [List.getElem?_append_left small] at found
    exact .inl found
  · subst same
    rw [List.getElem?_concat_length] at found
    exact .inr ⟨rfl, (Option.some.inj found).symm⟩
  · have := (List.getElem?_eq_some_iff.mp found).1
    rw [List.length_append, List.length_singleton] at this
    omega

/-- Another chunk is begun. -/
theorem Packed.opened {groups packed : List Group} {path : Text} {record : ImportedHistoryRecord}
    (isPacked : Packed sha256 limits archiveId channelId groups)
    (ordered : Ordered (allRecords groups ++ [record]))
    (isSealed : Sealed sha256 limits channelId record)
    (fresh : record.sourceRecordId ∉ (allRecords groups).map (·.sourceRecordId))
    (opens : openGroup limits archiveId path groups record = .ok packed) :
    Packed sha256 limits archiveId channelId packed
      ∧ allRecords packed = allRecords groups ++ [record] := by
  -- A new group holds the one record, and the archive has room for it.
  obtain ⟨_, fits, rest⟩ := bind_eq_ok.mp opens
  obtain ⟨_, room, same⟩ := bind_eq_ok.mp rest
  obtain rfl := Except.ok.inj same
  have fits := of_decide_eq_true (ensure_eq_ok.mp fits)
  have room := of_decide_eq_true (ensure_eq_ok.mp room)
  have all : ∀ bytes, allRecords (groups ++ [⟨[record], bytes⟩]) = allRecords groups ++ [record] :=
    fun bytes => by
    rw [allRecords_append]
    rfl
  refine ⟨⟨?_, fun group inside => ?_, fun group inside => ?_, fun i group found =>
    ?_, ?_, fun other inside => ?_, ?_⟩, all _⟩
  · rw [List.length_append, List.length_singleton]
    have := isPacked.few
    omega
  · rcases List.mem_append.mp inside with old | new
    · exact isPacked.some_ group old
    · rw [List.mem_singleton.mp new]
      simp
  · rcases List.mem_append.mp inside with old | new
    · exact isPacked.bounded group old
    · rw [List.mem_singleton.mp new]
      exact (limits.positive _ (by simp)).1
  · rcases getElem?_concat_cases found with old | ⟨rfl, rfl⟩
    · exact isPacked.sized i group old
    -- The size of a chunk with one record is what opening a group counts.
    · refine ⟨?_, fits⟩
      have size := length_chunk_concat archiveId (natNumber groups.length) [] record
      rw [List.nil_append, if_pos rfl] at size
      rw [size]
      rfl
  · rw [all]
    exact ordered
  · rw [all] at inside
    rcases List.mem_append.mp inside with old | new
    · exact isPacked.each other old
    · exact List.mem_singleton.mp new ▸ isSealed
  · rw [all, List.map_append]
    exact List.nodup_append.mpr ⟨isPacked.distinct, List.nodup_singleton _, by
      intro one inside two last same
      rw [List.map_singleton, List.mem_singleton] at last
      exact fresh (last ▸ same ▸ inside)⟩

/-- A record goes into the last chunk, or begins another. -/
theorem Packed.pack {groups packed : List Group} {path : Text} {record : ImportedHistoryRecord}
    (isPacked : Packed sha256 limits archiveId channelId groups)
    (after : (Import.lastRecord groups).all (fun previous =>
      natOf previous.sequence < natOf record.sequence) = true)
    (isSealed : Sealed sha256 limits channelId record)
    (fresh : record.sourceRecordId ∉ (allRecords groups).map (·.sourceRecordId))
    (packs : pack limits archiveId path groups record = .ok packed) :
    Packed sha256 limits archiveId channelId packed
      ∧ allRecords packed = allRecords groups ++ [record] := by
  -- The record goes into the last group if it fits there, and otherwise into a new one.
  rw [Packed.lastRecord isPacked.some_] at after
  have ordered := ordered_concat isPacked.ordered after
  unfold Import.pack at packs
  split at packs
  · exact isPacked.opened ordered isSealed fresh packs
  · rename_i current last
    dsimp only at packs
    split at packs
    · rename_i room
      obtain rfl := Except.ok.inj packs
      -- Only the last group is replaced, by itself with one more record.
      obtain ⟨before, rfl⟩ : ∃ before, groups = before ++ [current] := by
        obtain ⟨before, rfl⟩ := List.getLast?_eq_some_iff.mp last
        exact ⟨before, rfl⟩
      rw [List.dropLast_concat]
      have all : ∀ bytes, allRecords (before ++ [⟨current.records ++ [record], bytes⟩])
        = allRecords (before ++ [current]) ++ [record] :=
        fun bytes => by simp [allRecords]
      obtain ⟨size, -⟩ := isPacked.sized before.length current (by simp)
      have full := isPacked.some_ current (by simp)
      refine ⟨⟨?_, fun group inside => ?_, fun group inside => ?_, fun i group found =>
        ?_, ?_, fun other inside => ?_, ?_⟩, all _⟩
      · have := isPacked.few
        rw [List.length_append, List.length_singleton] at this ⊢
        exact this
      · rcases List.mem_append.mp inside with old | new
        · exact isPacked.some_ group (List.mem_append_left _ old)
        · rw [List.mem_singleton.mp new]
          simp
      · rcases List.mem_append.mp inside with old | new
        · exact isPacked.bounded group (List.mem_append_left _ old)
        · rw [List.mem_singleton.mp new, List.length_append, List.length_singleton]
          exact room.1
      · rcases getElem?_concat_cases found with old | ⟨rfl, rfl⟩
        · refine isPacked.sized i group ?_
          rw [List.getElem?_append_left (List.getElem?_eq_some_iff.mp old).1]
          exact old
        · -- The bytes that were counted are those of the longer encoding.
          refine ⟨?_, room.2⟩
          dsimp only
          rw [length_chunk_concat, if_neg full, ← size]
      · rw [all]
        exact ordered
      · rw [all] at inside
        rcases List.mem_append.mp inside with old | new
        · exact isPacked.each other old
        · exact List.mem_singleton.mp new ▸ isSealed
      · rw [all, List.map_append]
        exact List.nodup_append.mpr ⟨isPacked.distinct, List.nodup_singleton _, by
          intro one inside two last same
          rw [List.map_singleton, List.mem_singleton] at last
          exact fresh (last ▸ same ▸ inside)⟩
    · exact isPacked.opened ordered isSealed fresh packs

/-- The record that was read from a value of the input. -/
def ReadFrom (limits : ImportedHistoryLimits) (value : Json) (record : ImportedHistoryRecord) :
    Prop :=
  ∃ path r, read (object value path recordInputKeys) = .ok r
    ∧ readRecordFields limits r path = .ok record.toImportedHistoryRecordInput

variable (shaped : ∀ bytes digest, sha256 bytes = some digest → isDigest digest = true)

include shaped in
/-- All records are packed in the order of the input. -/
theorem Packed.sealRecords {groups packed : List Group} {position : Nat} {values : List Json}
    (isPacked : Packed sha256 limits archiveId channelId groups)
    (seals : sealRecords sha256 limits archiveId channelId groups
      ((allRecords groups).map (·.sourceRecordId)) position values = .ok packed) :
    Packed sha256 limits archiveId channelId packed ∧ ∃ records,
      allRecords packed = allRecords groups ++ records
        ∧ List.Forall₂ (ReadFrom limits) values records := by
  induction values generalizing groups position with
  | nil =>
    obtain rfl := Except.ok.inj seals
    exact ⟨isPacked, [], (List.append_nil _).symm, .nil⟩
  | cons value rest ih =>
    obtain ⟨r, isObject, more⟩ := bind_eq_ok.mp seals
    obtain ⟨fields, isFields, more⟩ := bind_eq_ok.mp more
    obtain ⟨_, after, more⟩ := bind_eq_ok.mp more
    obtain ⟨_, fresh, more⟩ := bind_eq_ok.mp more
    obtain ⟨recordDigest, digests, more⟩ := bind_eq_ok.mp more
    obtain ⟨packed', packs, more⟩ := bind_eq_ok.mp more
    have bound := digest_eq_ok.mp digests
    -- What was read of the input is read again, and the digest was taken of it.
    have isSealed : Sealed sha256 limits channelId ⟨fields, recordDigest⟩ :=
      ⟨readRecord_again isFields (shaped _ _ bound), bound⟩
    have fresh := of_decide_eq_true (ensure_eq_ok.mp fresh)
    obtain ⟨isPacked', all⟩ := isPacked.pack (ensure_eq_ok.mp after) isSealed fresh packs
    -- The identifiers that were seen are those of the records so far.
    have ids : (allRecords groups).map (·.sourceRecordId) ++ [fields.sourceRecordId]
      = (allRecords packed').map (·.sourceRecordId) := by
      rw [all, List.map_append]
      rfl
    rw [ids] at more
    obtain ⟨isPacked'', records, all', readFrom⟩ := ih isPacked' more
    exact ⟨isPacked'', ⟨fields, recordDigest⟩ :: records, by rw [all', all, List.append_assoc]; rfl,
      .cons ⟨_, r, isObject, isFields⟩ readFrom⟩

/-- A chunk is made of every group, under its index, with the digest of its encoding. -/
theorem sealChunks_ok {index : Nat} {groups : List Group} {chunks : List SealedChunk}
    (seals : sealChunks sha256 archiveId index groups = .ok chunks) :
    List.Forall₂ (fun group (chunk : SealedChunk) => chunk.archiveId = archiveId
      ∧ chunk.records = group.records) groups chunks
      ∧ ∀ i chunk, chunks[i]? = some chunk → chunk.index = natNumber (index + i)
        ∧ sha256 (encodeImportedHistoryChunk chunk.toImportedHistoryChunk)
          = some chunk.chunkDigest := by
  -- The groups are sealed one after another, under indexes that count up.
  induction groups generalizing index chunks with
  | nil =>
    obtain rfl := Except.ok.inj seals
    exact ⟨.nil, by simp⟩
  | cons group rest ih =>
    obtain ⟨chunkDigest, digests, more⟩ := bind_eq_ok.mp seals
    obtain ⟨others, isRest, same⟩ := bind_eq_ok.mp more
    obtain rfl := Except.ok.inj same
    obtain ⟨each, bound⟩ := ih isRest
    refine ⟨.cons ⟨rfl, rfl⟩ each, fun i chunk found => ?_⟩
    cases i with
    | zero =>
      obtain rfl := Option.some.inj found
      exact ⟨rfl, digest_eq_ok.mp digests⟩
    | succ i =>
      obtain ⟨named, digested⟩ := bound i chunk found
      exact ⟨named.trans (by rw [Nat.add_assoc, Nat.add_comm 1 i]), digested⟩

end Khala.Import
