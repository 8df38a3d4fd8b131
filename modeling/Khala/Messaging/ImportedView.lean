import Khala.Contracts.ImportedReading

/-! Verified views of imported history: their records come in order, with bodies that fit the
limits. -/

namespace Khala.Import

open Js Decode

/-- The archive as humans see it. -/
structure ImportedHistoryView where
  archiveId : Text
  source : ImportedHistorySource
  importedBy : ImportedHistoryActor
  importedAt : Text
  records : List ImportedHistoryRecord
deriving DecidableEq

/-- Verifies the whole archive before showing any of it. -/
def projectImportedHistory (sha256 : List UInt8 → Option Text) (limits : ImportedHistoryLimits)
    (manifest chunks : Json) :
    Verified ImportedHistoryView := do
  let (verified, records) ← openImportedHistory sha256 limits manifest chunks
  return ⟨verified.archiveId, verified.source, verified.importedBy, verified.importedAt, records⟩

/-! ## Records -/

/-- The place of a record in its source. -/
def sequenceOf (record : ImportedHistoryRecord) : Nat := natOf record.sequence

/-- A record whose place is a safe integer and whose body fits. -/
structure Readable (limits : ImportedHistoryLimits) (record : ImportedHistoryRecord) : Prop where
  printed : record.sequence = natNumber (sequenceOf record)
  safe : sequenceOf record ≤ maxSafeInteger
  body : utf8Length record.body ≤ limits.maxBodyBytes

/-- Records in the order of their source. -/
def Ordered (records : List ImportedHistoryRecord) : Prop :=
  records.Pairwise fun one other => sequenceOf one < sequenceOf other

/-- A number that is read is a safe integer. -/
private theorem safeInteger_le {input : Json} {path : Text} {n : Nat}
    (isSafe : safeInteger input path = .ok n) : n ≤ maxSafeInteger := by
  unfold safeInteger at isSafe
  split at isSafe
  · split at isSafe
    · split at isSafe
      · rename_i safe
        exact Except.ok.inj isSafe ▸ safe
      · cases isSafe
    · split at isSafe
      · split at isSafe <;> cases isSafe
      · cases isSafe
  · cases isSafe

/-- A text that is read is short enough. -/
private theorem text_le {input : Json} {path s : Text} {maxBytes : Nat}
    (isText : text input path maxBytes = .ok s) :
    utf8Length s ≤ maxBytes := by
  cases input with
  | string t =>
    obtain ⟨rfl, -, fits, -⟩ := text_eq_ok.mp isText
    exact fits
  | _ => cases isText

/-- A record that is read is readable. -/
theorem readable_of_readRecord {limits : ImportedHistoryLimits} {input : Json} {path : Text}
    {record : ImportedHistoryRecord} (isRecord : readRecord limits input path = .ok record) :
    Readable limits record := by
  -- The steps of the reader come one after the other, and only two of them matter here.
  obtain ⟨r, -, rest⟩ := bind_eq_ok.mp isRecord
  obtain ⟨_, -, rest⟩ := bind_eq_ok.mp rest
  obtain ⟨_, -, rest⟩ := bind_eq_ok.mp rest
  obtain ⟨fields, isFields, rest⟩ := bind_eq_ok.mp rest
  obtain ⟨recordDigest, -, same⟩ := bind_eq_ok.mp rest
  obtain rfl := Except.ok.inj same
  obtain ⟨_, -, rest⟩ := bind_eq_ok.mp isFields
  obtain ⟨_, -, rest⟩ := bind_eq_ok.mp rest
  obtain ⟨_, -, rest⟩ := bind_eq_ok.mp rest
  obtain ⟨_, -, rest⟩ := bind_eq_ok.mp rest
  -- The sequence is a safe integer, and the body is no longer than the limit.
  obtain ⟨sequence, isSequence, rest⟩ := bind_eq_ok.mp rest
  obtain ⟨_, -, rest⟩ := bind_eq_ok.mp rest
  obtain ⟨_, -, rest⟩ := bind_eq_ok.mp rest
  obtain ⟨body, isBody, same⟩ := bind_eq_ok.mp rest
  obtain rfl := Except.ok.inj same
  have safe := safeInteger_le (read_eq_ok.mp isSequence)
  have fits := text_le (read_eq_ok.mp isBody)
  exact ⟨by simp [sequenceOf], by simpa [sequenceOf] using safe, fits⟩

section

variable {sha256 : List UInt8 → Option Text} {limits : ImportedHistoryLimits}

/-- The records of a chunk come in order, after the one before them. -/
theorem readRecords_ok {channelId path : Text} {previous : Option ImportedHistoryRecord}
    {position : Nat} {values : List Json} {records : List ImportedHistoryRecord}
    (isRead : readRecords sha256 limits channelId path previous position values = .ok records) :
    Ordered records ∧ (∀ record ∈ records, Readable limits record)
      ∧ ∀ record ∈ records, previous.all (sequenceOf · < sequenceOf record) = true := by
  induction values generalizing previous position records with
  | nil =>
    obtain rfl := Except.ok.inj isRead
    exact ⟨.nil, fun _ none_ => absurd none_ List.not_mem_nil, fun _ none_ =>
      absurd none_ List.not_mem_nil⟩
  | cons value rest ih =>
    -- Each record is read after the one before it.
    obtain ⟨record, isRecord, more⟩ := bind_eq_ok.mp isRead
    obtain ⟨_, after, more⟩ := bind_eq_ok.mp more
    obtain ⟨_, -, more⟩ := bind_eq_ok.mp more
    obtain ⟨_, -, more⟩ := bind_eq_ok.mp more
    obtain ⟨others, isRest, same⟩ := bind_eq_ok.mp more
    obtain rfl := Except.ok.inj same
    -- Its place is past that of the record before.
    have after' : previous.all (sequenceOf · < sequenceOf record) = true := ensure_eq_ok.mp after
    obtain ⟨ordered, readable, later⟩ := ih isRest
    have later' : ∀ other ∈ others, sequenceOf record < sequenceOf other :=
      fun other inside => by simpa using later other inside
    refine ⟨List.pairwise_cons.mpr ⟨later', ordered⟩, fun other inside =>
      ?_, fun other inside => ?_⟩
    -- The new record comes first and all others come behind it.
    · rcases List.mem_cons.mp inside with rfl | behind
      · exact readable_of_readRecord isRecord
      · exact readable other behind
    · rcases List.mem_cons.mp inside with rfl | behind
      · exact after'
      · cases previous with
        | none => rfl
        -- What is past this record is past the one before it too.
        | some before =>
          simp only [Option.all_some, decide_eq_true_eq] at after' ⊢
          exact Nat.lt_trans after' (later' other behind)

/-! ## Chunks in the order of the manifest -/

/-- The entries of a manifest take up ranges one after the other. -/
theorem readEntries_ok {previous : Option ImportedHistoryChunkEntry} {index : Nat}
    {values : List Json} {entries : List ImportedHistoryChunkEntry}
    (isRead : readEntries limits previous index values = .ok entries) :
    (entries.Pairwise fun one other => natOf one.lastSequence < natOf other.firstSequence)
      ∧ (∀ entry ∈ entries, natOf entry.firstSequence ≤ natOf entry.lastSequence)
      ∧ ∀ entry ∈ entries, previous.all (fun previous =>
        natOf previous.lastSequence < natOf entry.firstSequence) = true := by
  induction values generalizing previous index entries with
  | nil =>
    obtain rfl := Except.ok.inj isRead
    exact ⟨.nil, fun _ none_ => absurd none_ List.not_mem_nil, fun _ none_ =>
      absurd none_ List.not_mem_nil⟩
  | cons value rest ih =>
    -- Each entry is read after the one before it.
    obtain ⟨entry, isEntry, more⟩ := bind_eq_ok.mp isRead
    obtain ⟨_, -, more⟩ := bind_eq_ok.mp more
    obtain ⟨_, -, more⟩ := bind_eq_ok.mp more
    obtain ⟨_, after, more⟩ := bind_eq_ok.mp more
    obtain ⟨others, isRest, same⟩ := bind_eq_ok.mp more
    obtain rfl := Except.ok.inj same
    have after' := ensure_eq_ok.mp after
    -- The reader of an entry checks that its range is one.
    have range : natOf entry.firstSequence ≤ natOf entry.lastSequence := by
      obtain ⟨_, -, more⟩ := bind_eq_ok.mp isEntry
      obtain ⟨_, -, more⟩ := bind_eq_ok.mp more
      obtain ⟨_, -, more⟩ := bind_eq_ok.mp more
      obtain ⟨firstSequence, -, more⟩ := bind_eq_ok.mp more
      obtain ⟨lastSequence, -, more⟩ := bind_eq_ok.mp more
      obtain ⟨_, -, more⟩ := bind_eq_ok.mp more
      obtain ⟨_, -, more⟩ := bind_eq_ok.mp more
      obtain ⟨_, ordered, more⟩ := bind_eq_ok.mp more
      obtain ⟨_, -, same⟩ := bind_eq_ok.mp more
      obtain rfl := Except.ok.inj same
      simpa using ensure_eq_ok.mp ordered
    obtain ⟨ordered, ranges, later⟩ := ih isRest
    have later' : ∀ other ∈ others, natOf entry.lastSequence < natOf other.firstSequence :=
      fun other inside => by
      simpa using later other inside
    refine ⟨List.pairwise_cons.mpr ⟨later', ordered⟩, fun other inside =>
      ?_, fun other inside => ?_⟩
    · rcases List.mem_cons.mp inside with rfl | behind
      · exact range
      · exact ranges other behind
    · rcases List.mem_cons.mp inside with rfl | behind
      · exact after'
      · cases previous with
        | none => rfl
        | some before =>
          -- The range begins after this one, which is not before its own start.
          simp only [Option.all_some, decide_eq_true_eq] at after' ⊢
          have := later' other behind
          omega

variable {manifest : ImportedHistoryManifest}

/-- The records of a chunk lie in the range that the manifest lists for it. -/
theorem readChunk_ok {input : Json} {path : Text} {chunk : ImportedHistoryChunk}
    (isRead : readChunk sha256 limits manifest input path = .ok chunk) :
    Ordered chunk.records ∧ (∀ record ∈ chunk.records, Readable limits record)
      ∧ ∃ entry, manifest.chunks[natOf chunk.index]? = some entry ∧ ∀ record ∈ chunk.records,
        natOf entry.firstSequence ≤ sequenceOf record
          ∧ sequenceOf record ≤ natOf entry.lastSequence := by
  -- Only the entry, the records and their range matter of what the reader checks.
  obtain ⟨r, -, rest⟩ := bind_eq_ok.mp isRead
  obtain ⟨_, -, rest⟩ := bind_eq_ok.mp rest
  obtain ⟨archiveId, -, rest⟩ := bind_eq_ok.mp rest
  obtain ⟨_, -, rest⟩ := bind_eq_ok.mp rest
  obtain ⟨index, -, rest⟩ := bind_eq_ok.mp rest
  obtain ⟨entry, isEntry, rest⟩ := bind_eq_ok.mp rest
  obtain ⟨_, -, rest⟩ := bind_eq_ok.mp rest
  obtain ⟨values, -, rest⟩ := bind_eq_ok.mp rest
  obtain ⟨_, -, rest⟩ := bind_eq_ok.mp rest
  obtain ⟨_, -, rest⟩ := bind_eq_ok.mp rest
  obtain ⟨records, isRecords, rest⟩ := bind_eq_ok.mp rest
  obtain ⟨_, ends, rest⟩ := bind_eq_ok.mp rest
  obtain ⟨_, -, rest⟩ := bind_eq_ok.mp rest
  obtain ⟨_, -, rest⟩ := bind_eq_ok.mp rest
  obtain ⟨_, -, same⟩ := bind_eq_ok.mp rest
  obtain rfl := Except.ok.inj same
  obtain ⟨ordered, readable, -⟩ := readRecords_ok isRecords
  -- The entry is the one that the manifest has at this index.
  have found : manifest.chunks[index]? = some entry := by
    unfold entryAt at isEntry
    split at isEntry
    · rename_i there
      rw [there, Except.ok.inj isEntry]
    · cases isEntry
  -- The ends of the records are those of the entry.
  have ends' := ensure_eq_ok.mp ends
  rw [decide_eq_true_eq] at ends'
  refine ⟨ordered, readable, entry, by rwa [natOf_natNumber], fun record inside => ⟨?_, ?_⟩⟩
  · -- The first record has the least place.
    cases records with
    | nil => cases inside
    | cons first others =>
      have first_ : sequenceOf first = natOf entry.firstSequence := Option.some.inj ends'.1
      rcases List.mem_cons.mp inside with rfl | behind
      · exact Nat.le_of_eq first_.symm
      · exact Nat.le_of_lt (first_ ▸ (List.pairwise_cons.mp ordered).1 record behind)
  · -- The last record has the greatest.
    obtain ⟨last, isLast, last_⟩ := Option.map_eq_some_iff.mp ends'.2
    obtain ⟨front, rfl⟩ := List.getLast?_eq_some_iff.mp isLast
    change sequenceOf last = natOf entry.lastSequence at last_
    rcases List.mem_append.mp inside with before | own
    · exact Nat.le_of_lt
        (last_ ▸ (List.pairwise_append.mp ordered).2.2 record before last List.mem_cons_self)
    · exact Nat.le_of_eq (List.mem_singleton.mp own ▸ last_)

/-- The records of all chunks come in order. -/
theorem readChunks_ok
    (ranges : manifest.chunks.Pairwise fun one other =>
      natOf one.lastSequence < natOf other.firstSequence)
    {seen : List Text} {position : Nat} {values : List Json} {records : List ImportedHistoryRecord}
    (isRead : readChunks sha256 limits manifest seen position values = .ok records) :
    Ordered records ∧ (∀ record ∈ records, Readable limits record)
      ∧ ∀ record ∈ records, ∃ i entry, position ≤ i ∧ manifest.chunks[i]? = some entry
        ∧ natOf entry.firstSequence ≤ sequenceOf record := by
  induction values generalizing seen position records with
  | nil =>
    obtain rfl := Except.ok.inj isRead
    exact ⟨.nil, fun _ none_ => absurd none_ List.not_mem_nil, fun _ none_ =>
      absurd none_ List.not_mem_nil⟩
  | cons value rest ih =>
    -- Each chunk is read at its own position.
    obtain ⟨chunk, isChunk, more⟩ := bind_eq_ok.mp isRead
    obtain ⟨_, here, more⟩ := bind_eq_ok.mp more
    obtain ⟨_, -, more⟩ := bind_eq_ok.mp more
    obtain ⟨others, isRest, same⟩ := bind_eq_ok.mp more
    obtain rfl := Except.ok.inj same
    -- So its entry is the manifest's at this position.
    have here' : natOf chunk.index = position := by simpa using ensure_eq_ok.mp here
    obtain ⟨ordered, readable, entry, found, range⟩ := readChunk_ok isChunk
    obtain ⟨ordered', readable', later⟩ := ih isRest
    rw [here'] at found
    refine ⟨List.pairwise_append.mpr ⟨ordered, ordered', fun one inside other behind => ?_⟩,
      fun record inside => ?_, fun record inside => ?_⟩
    -- A later chunk has a later entry, and the ranges do not overlap.
    · obtain ⟨i, entry', after, found', first⟩ := later other behind
      have apart : natOf entry.lastSequence < natOf entry'.firstSequence := by
        obtain ⟨bound, rfl⟩ := List.getElem?_eq_some_iff.mp found
        obtain ⟨bound', rfl⟩ := List.getElem?_eq_some_iff.mp found'
        exact List.pairwise_iff_getElem.mp ranges position i bound bound' after
      have last := (range one inside).2
      omega
    · exact (List.mem_append.mp inside).elim (readable record) (readable' record)
    · rcases List.mem_append.mp inside with own | behind
      · exact ⟨position, entry, Nat.le_refl _, found, (range record own).1⟩
      · obtain ⟨i, entry', after, found', first⟩ := later record behind
        exact ⟨i, entry', Nat.le_of_succ_le after, found', first⟩

/-- A verified view shows its records in order, with bodies that fit. -/
theorem projectImportedHistory_ok {manifestInput chunkInputs : Json} {view : ImportedHistoryView}
    (verified : projectImportedHistory sha256 limits manifestInput chunkInputs = .ok view) :
    Ordered view.records ∧ ∀ record ∈ view.records, Readable limits record := by
  -- The view is made of the manifest and the records that were opened.
  obtain ⟨⟨manifest, records⟩, opened, same⟩ := bind_eq_ok.mp verified
  obtain rfl := Except.ok.inj same
  obtain ⟨manifest', isManifest, rest⟩ := bind_eq_ok.mp opened
  obtain ⟨values, -, rest⟩ := bind_eq_ok.mp rest
  obtain ⟨_, -, rest⟩ := bind_eq_ok.mp rest
  obtain ⟨records', isRead, same⟩ := bind_eq_ok.mp rest
  cases same
  -- The manifest was decoded, so its entries were read in order.
  have decoded : decodeImportedHistoryManifest limits manifestInput = .ok manifest := by
    unfold openManifest at isManifest
    split at isManifest
    · rename_i result
      rw [result, Except.ok.inj isManifest]
    · cases isManifest
  -- Of the decoder only the step that reads the chunks matters.
  obtain ⟨_, -, rest⟩ := bind_eq_ok.mp decoded
  obtain ⟨_, -, rest⟩ := bind_eq_ok.mp rest
  obtain ⟨_, -, rest⟩ := bind_eq_ok.mp rest
  obtain ⟨chunks, isChunks, rest⟩ := bind_eq_ok.mp rest
  obtain ⟨_, -, rest⟩ := bind_eq_ok.mp rest
  obtain ⟨_, -, rest⟩ := bind_eq_ok.mp rest
  obtain ⟨_, -, rest⟩ := bind_eq_ok.mp rest
  obtain ⟨_, -, rest⟩ := bind_eq_ok.mp rest
  obtain ⟨_, -, rest⟩ := bind_eq_ok.mp rest
  obtain ⟨_, -, rest⟩ := bind_eq_ok.mp rest
  obtain ⟨_, -, same⟩ := bind_eq_ok.mp rest
  obtain rfl := Except.ok.inj same
  obtain ⟨ordered, readable, -⟩ := readChunks_ok (readEntries_ok isChunks).1 isRead
  exact ⟨ordered, readable⟩

end

end Khala.Import
