import Khala.Messaging.ImportedView
import Mathlib.Data.List.TakeWhile

/-! Bounded context pages of a verified view, and a reader that follows their cursors. -/

namespace Khala.Import

open Js Decode

/-- A bounded slice an agent reads explicitly; the last page has no next cursor. -/
structure ImportedContextPage where
  archiveId : Text
  records : List ImportedHistoryRecord
  nextCursor : Option Text
deriving DecidableEq

/-- `CURSOR`: decimal digits without a leading zero. -/
def isCursor (cursor : Text) : Bool :=
  cursor == lit "0" || (cursor.all isDigit && !cursor.isEmpty && cursor.head? != some 48)

/-- The last sequence already read, `-1` before the first page; other cursors are refused. -/
def readCursor : Option Text → Option Int
  | none => some (-1)
  | some cursor => if isCursor cursor ∧ readDigits 0 cursor ≤ maxSafeInteger
    then some (readDigits 0 cursor) else none

/-- A safe integer of at least one. -/
def readPageLimit (limit : Number) : Option Nat :=
  (spelledNat limit.text).filter fun n => 1 ≤ n ∧ n ≤ maxSafeInteger

/-- The records that come on a page after `count` others with `bytes` of body, and the records left
for later. -/
def takePage (maxRecords maxBytes count bytes : Nat) :
    List ImportedHistoryRecord → List ImportedHistoryRecord × List ImportedHistoryRecord
  | [] => ([], [])
  | record :: rest =>
    if maxRecords ≤ count ∨ (0 < count ∧ maxBytes < bytes + utf8Length record.body)
      then ([], record :: rest)
    else
      let (page, left) :=
  takePage maxRecords maxBytes (count + 1) (bytes + utf8Length record.body) rest
      (record :: page, left)

/-- The records that come after a sequence. -/
def recordsAfter (after : Int) (records : List ImportedHistoryRecord) :
    List ImportedHistoryRecord :=
  records.dropWhile fun record => ¬ after < sequenceOf record

/-- The page after a cursor, or nothing when the request is invalid. -/
def importedContextPage (view : ImportedHistoryView) (cursor : Option Text) (limit : Number)
    (limits : ImportedHistoryLimits) :
    Option ImportedContextPage := do
  let maxRecords ← readPageLimit limit
  let after ← readCursor cursor
  let (page, left) :=
    takePage (min maxRecords limits.maxPageRecords) limits.maxPageBytes 0 0
    (recordsAfter after view.records)
  return ⟨view.archiveId, page, if left.isEmpty then none else page.getLast?.map (·.sequence.text)⟩

/-- The pages from a cursor on, when the last of them comes within some number of requests. -/
def followPages (view : ImportedHistoryView) (limit : Number) (limits : ImportedHistoryLimits) :
    Nat → Option Text → Option (List ImportedContextPage)
  | 0, _ => none
  | requests + 1, cursor => do
    let page ← importedContextPage view cursor limit limits
    match page.nextCursor with
    | none => return [page]
    | some next => return page :: (← followPages view limit limits requests (some next))

/-! ## One page -/

section

variable {maxRecords maxBytes : Nat}

/-- A page and what is left for later are the records in their order. -/
theorem takePage_append (count bytes : Nat) (records : List ImportedHistoryRecord) :
    (takePage maxRecords maxBytes count bytes records).1
      ++ (takePage maxRecords maxBytes count bytes records).2 = records := by
  induction records generalizing count bytes with
  | nil => rfl
  | cons record rest ih =>
    simp only [takePage]
    split
    · rfl
    · simp [ih]

/-- A page has no more records than there is room for. -/
theorem takePage_length {count : Nat} (room : count ≤ maxRecords) (bytes : Nat)
    (records : List ImportedHistoryRecord) :
    count + (takePage maxRecords maxBytes count bytes records).1.length ≤ maxRecords := by
  induction records generalizing count bytes with
  | nil => exact room
  | cons record rest ih =>
    simp only [takePage]
    split
    · exact room
    · rename_i taken
      rw [not_or] at taken
      have := ih (by omega : count + 1 ≤ maxRecords) (bytes + utf8Length record.body)
      simp only [List.length_cons]
      omega

/-- The bytes of all bodies. -/
def bodyBytes (records : List ImportedHistoryRecord) : Nat :=
  (records.map fun record => utf8Length record.body).sum

/-- The first record fits alone, and every further one was checked. -/
theorem takePage_bytes {count bytes : Nat} (room : bytes ≤ maxBytes) (begun : count = 0 → bytes = 0)
    {records : List ImportedHistoryRecord}
    (fits : ∀ record ∈ records, utf8Length record.body ≤ maxBytes) :
    bytes + bodyBytes (takePage maxRecords maxBytes count bytes records).1 ≤ maxBytes := by
  induction records generalizing count bytes with
  | nil => exact room
  | cons record rest ih =>
    -- The page is full, or it takes this record.
    simp only [takePage]
    split
    · exact room
    -- The first record always fits, and a later one was found to fit.
    · rename_i taken
      have own := fits record List.mem_cons_self
      have room' : bytes + utf8Length record.body ≤ maxBytes := by
        rcases Nat.eq_zero_or_pos count with first | later
        · rw [begun first, Nat.zero_add]
          exact own
        · omega
      have others := @ih (count + 1) _ room' (fun none_ => absurd none_ (Nat.succ_ne_zero count))
        fun other inside => fits other (List.mem_cons_of_mem _ inside)
      simp only [bodyBytes, List.map_cons, List.sum_cons] at others ⊢
      omega

/-- A page takes a record when one is there. -/
theorem takePage_ne_nil (some_ : 0 < maxRecords) {records : List ImportedHistoryRecord}
    (there : records ≠ []) :
    (takePage maxRecords maxBytes 0 0 records).1 ≠ [] := by
  cases records with
  | nil => exact absurd rfl there
  | cons record rest =>
    have taken : ¬ (maxRecords ≤ 0 ∨ (0 < 0 ∧ maxBytes < 0 + utf8Length record.body)) := by omega
    simp only [takePage, if_neg taken]
    exact List.cons_ne_nil _ _

end

variable {view : ImportedHistoryView} {limits : ImportedHistoryLimits}

/-- A page that is given is taken behind its cursor. -/
theorem importedContextPage_eq {cursor : Option Text} {limit : Number} {page : ImportedContextPage}
    (given : importedContextPage view cursor limit limits = some page) :
    ∃ maxRecords after, readPageLimit limit = some maxRecords ∧ readCursor cursor = some after
      ∧ page.records = (takePage (min maxRecords limits.maxPageRecords) limits.maxPageBytes 0 0
        (recordsAfter after view.records)).1 := by
  obtain ⟨maxRecords, isLimit, rest⟩ := Option.bind_eq_some_iff.mp given
  obtain ⟨after, isCursor, same⟩ := Option.bind_eq_some_iff.mp rest
  exact ⟨maxRecords, after, isLimit, isCursor, by rw [← Option.some.inj same]⟩

/-- A limit that is read is positive. -/
theorem readPageLimit_pos {limit : Number} {maxRecords : Nat}
    (isLimit : readPageLimit limit = some maxRecords) : 0 < maxRecords := by
  have bounds := (Option.filter_eq_some_iff.mp isLimit).2
  simp only [decide_eq_true_eq] at bounds
  omega

/-- Every page has room for a record. -/
theorem ImportedHistoryLimits.maxPageRecords_pos (limits : ImportedHistoryLimits) :
    0 < limits.maxPageRecords :=
  (limits.positive limits.maxPageRecords (by simp)).1

/-- What every page of a view keeps to, whichever cursor it was asked for with. -/
theorem importedContextPage_bounds (readable : ∀ record ∈ view.records, Readable limits record)
    {cursor : Option Text} {limit : Number} {page : ImportedContextPage}
    (given : importedContextPage view cursor limit limits = some page) :
    (∀ maxRecords, readPageLimit limit = some maxRecords →
      page.records.length ≤ min maxRecords limits.maxPageRecords)
      ∧ bodyBytes page.records ≤ limits.maxPageBytes
      ∧ ∀ after, readCursor cursor = some after →
      (∃ record ∈ view.records, after < sequenceOf record) → page.records ≠ [] := by
  obtain ⟨maxRecords, after, isLimit, isCursor, records⟩ := importedContextPage_eq given
  have some_ : 0 < min maxRecords limits.maxPageRecords :=
    Nat.lt_min.mpr ⟨readPageLimit_pos isLimit, limits.maxPageRecords_pos⟩
  -- A page takes records from those after the cursor.
  rw [records]
  refine ⟨fun maxRecords' isLimit' => ?_, ?_, fun after' isCursor' remaining => ?_⟩
  · obtain rfl := Option.some.inj (isLimit.symm.trans isLimit')
    simpa using takePage_length (Nat.zero_le (min maxRecords limits.maxPageRecords)) 0
      (recordsAfter after view.records)
  · have fits : ∀ record ∈ recordsAfter after view.records,
      utf8Length record.body ≤ limits.maxPageBytes := fun record inside =>
      Nat.le_trans (readable record ((List.dropWhile_sublist _).subset inside)).body limits.fits
    simpa using takePage_bytes (Nat.zero_le limits.maxPageBytes) (fun _ => rfl) fits
  · obtain rfl := Option.some.inj (isCursor.symm.trans isCursor')
    -- There is a record past the cursor, so these are not none.
    refine takePage_ne_nil some_ fun none_ => ?_
    obtain ⟨record, inside, later⟩ := remaining
    have := List.dropWhile_eq_nil_iff.mp none_ record inside
    simp only [decide_eq_true_eq] at this
    exact this later

/-! ## All pages -/

/-- The cursor with which exactly some first records have been read. -/
inductive Reached : Option Text → List ImportedHistoryRecord → Prop
  | start : Reached none []
  | past (front : List ImportedHistoryRecord) (last : ImportedHistoryRecord) :
  Reached (some last.sequence.text) (front ++ [last])

/-- A printed safe integer is a cursor for itself. -/
theorem readCursor_decimal {n : Nat} (safe : n ≤ maxSafeInteger) :
    readCursor (some (decimal n)) = some (n : Int) := by
  have shape : isCursor (decimal n) = true := by
    rcases Nat.eq_zero_or_pos n with rfl | some_
    · decide
    · have digits : (decimal n).all isDigit = true := List.all_eq_true.mpr fun u inside =>
        isDigit_decimal inside
      simp [isCursor, digits, decimal_ne_nil, head_decimal some_]
  simp [readCursor, shape, readDigits_decimal, safe]

/-- Behind the cursor that was reached are the rest of the records. -/
theorem readCursor_reached {cursor : Option Text} {done rest : List ImportedHistoryRecord}
    (reached : Reached cursor done) (ordered : Ordered (done ++ rest))
    (readable : ∀ record ∈ done ++ rest, Readable limits record) :
    ∃ after, readCursor cursor = some after ∧ recordsAfter after (done ++ rest) = rest := by
  cases reached with
  | start =>
    refine ⟨-1, rfl, ?_⟩
    cases rest with
    | nil => rfl
    | cons record rest =>
      have later : (-1 : Int) < sequenceOf record := by omega
      simp [recordsAfter, later]
  | past front last =>
    have own := readable last (by simp)
    have digits : last.sequence.text = decimal (sequenceOf last) := congrArg Number.text own.printed
    refine ⟨sequenceOf last, by rw [digits, readCursor_decimal own.safe], ?_⟩
    -- Everything read so far is at most the last one, everything else is more.
    have before : ∀ record ∈ front ++ [last], sequenceOf record ≤ sequenceOf last := by
      intro record inside
      rcases List.mem_append.mp inside with inFront | isLast
      · exact Nat.le_of_lt ((List.pairwise_append.mp (List.pairwise_append.mp ordered).1).2.2
          record inFront last List.mem_cons_self)
      · exact Nat.le_of_eq (congrArg sequenceOf (List.mem_singleton.mp isLast))
    have after : ∀ record ∈ rest, sequenceOf last < sequenceOf record := fun record inside =>
      (List.pairwise_append.mp ordered).2.2 last (by simp) record inside
    rw [recordsAfter, List.dropWhile_append_of_pos
      fun record inside => by simpa using before record inside]
    cases rest with
    | nil => rfl
    | cons record rest =>
      have later := after record List.mem_cons_self
      simp [later]

/-- A reader that follows the cursors gets exactly the records that it has not read yet. -/
theorem followPages_reached {limit : Number} {maxRecords : Nat}
    (isLimit : readPageLimit limit = some maxRecords) (ordered : Ordered view.records)
    (readable : ∀ record ∈ view.records, Readable limits record) {cursor : Option Text}
    {done rest : List ImportedHistoryRecord} (reached : Reached cursor done)
    (whole : done ++ rest = view.records) :
    ∃ pages, (∀ requests, rest.length < requests →
      followPages view limit limits requests cursor = some pages)
      ∧ pages.flatMap (·.records) = rest := by
  -- A page has room for one record at least.
  have some_ : 0 < min maxRecords limits.maxPageRecords :=
    Nat.lt_min.mpr ⟨readPageLimit_pos isLimit, limits.maxPageRecords_pos⟩
  induction size : rest.length using Nat.strong_induction_on generalizing cursor done rest with
  | _ n ih =>
    obtain ⟨after, isCursor, unread⟩ :=
      readCursor_reached reached (whole ▸ ordered) (whole ▸ readable)
    rw [whole] at unread
    cases taken : takePage (min maxRecords limits.maxPageRecords) limits.maxPageBytes 0 0 rest with
    | mk page left =>
      have parts : page ++ left = rest := by
        have append :=
          @takePage_append (min maxRecords limits.maxPageRecords) limits.maxPageBytes 0 0 rest
        rwa [taken] at append
      have given : importedContextPage view cursor limit limits
          = some ⟨view.archiveId, page, if left.isEmpty then none
            else page.getLast?.map (·.sequence.text)⟩ := by
        simp only [importedContextPage, isLimit, isCursor, unread, taken, Option.bind_eq_bind,
          Option.bind_some]
        rfl
      -- Nothing is left, so this page is the last.
      cases left with
      | nil =>
        refine ⟨[⟨view.archiveId, page, none⟩], fun requests enough => ?_, by simpa using parts⟩
        obtain ⟨more, rfl⟩ :=
          Nat.exists_eq_succ_of_ne_zero (Nat.ne_of_gt (Nat.zero_lt_of_lt enough))
        simp only [followPages, given, Option.bind_eq_bind, Option.bind_some]
        rfl
      | cons record left =>
        -- Something is left, so the page has a last record, and the reader goes on from there.
        have there : rest ≠ [] := by
          rw [← parts]
          simp
        have page_ : page ≠ [] := by
          have := @takePage_ne_nil _ limits.maxPageBytes some_ rest there
          rwa [taken] at this
        obtain ⟨front, last, rfl⟩ := (List.eq_nil_or_concat' page).resolve_left page_
        have whole' : done ++ (front ++ [last]) ++ (record :: left) = view.records := by
          rw [List.append_assoc, parts, whole]
        -- The page has taken a record, so fewer are left.
        have shorter : (record :: left).length < n := by
          rw [← size, ← parts]
          simp only [List.length_append, List.length_cons, List.length_nil]
          omega
        obtain ⟨pages, follows, covered⟩ :=
          ih _ shorter (List.append_assoc done front [last] ▸ Reached.past (done ++ front) last)
          whole' rfl
        refine ⟨⟨view.archiveId, front ++ [last], some last.sequence.text⟩ :: pages,
          fun requests enough => ?_, ?_⟩
        -- One more request gets this page.
        · obtain ⟨more, rfl⟩ :=
            Nat.exists_eq_succ_of_ne_zero (Nat.ne_of_gt (Nat.zero_lt_of_lt enough))
          have next : importedContextPage view cursor limit limits
              = some ⟨view.archiveId, front ++ [last], some last.sequence.text⟩ := by
            rw [given]
            simp
          simp only [followPages, next, Option.bind_eq_bind, Option.bind_some,
            follows more (by omega)]
          rfl
        · rw [List.flatMap_cons, covered, parts]

/-- A positive safe integer is read as a limit. -/
theorem readPageLimit_natNumber {n : Nat} (positive : 1 ≤ n) (safe : n ≤ maxSafeInteger) :
    readPageLimit (natNumber n) = some n := by
  simp [readPageLimit, natNumber, spelledNat_decimal, positive, safe]

/-- Whoever follows the cursors of a verified view gets all of its records in order, in pages within
their bounds. -/
theorem context_pages {sha256 : List UInt8 → Option Text} {limits : ImportedHistoryLimits}
    {manifest chunks : Json} {view : ImportedHistoryView}
    (verified : projectImportedHistory sha256 limits manifest chunks = .ok view) {limit : Nat}
    (positive : 1 ≤ limit) (safe : limit ≤ maxSafeInteger) :
    (∃ pages, (∀ requests, view.records.length < requests →
      followPages view (natNumber limit) limits requests none = some pages)
      ∧ pages.flatMap (·.records) = view.records)
    ∧ ∀ cursor page, importedContextPage view cursor (natNumber limit) limits = some page →
      page.records.length ≤ min limit limits.maxPageRecords
      ∧ bodyBytes page.records ≤ limits.maxPageBytes
      ∧ ∀ after, readCursor cursor = some after →
      (∃ record ∈ view.records, after < sequenceOf record) → page.records ≠ [] := by
  obtain ⟨ordered, readable⟩ := projectImportedHistory_ok verified
  have isLimit := readPageLimit_natNumber positive safe
  refine ⟨followPages_reached isLimit ordered readable .start rfl, fun cursor page given => ?_⟩
  obtain ⟨length, bytes, progress⟩ := importedContextPage_bounds readable given
  exact ⟨length limit isLimit, bytes, progress⟩

def threeRecords : List ImportedHistoryRecord :=
  [⟨⟨lit "m1", natNumber 1, ⟨lit "ada", .human⟩, lit "2025-10-02T10:04:00Z", lit "hi"⟩,
      lit "sha256:a6cf1b808eff1adb0e269dc799e2bc02c8c30e215a1038cb2624b7eea25080fc"⟩,
    ⟨⟨lit "m2", natNumber 3, ⟨lit "bot", .agent⟩, lit "2025-10-02T10:05:00Z", lit "ho"⟩,
      lit "sha256:0b8d372046eb7ee604b42c3a2be4bfb3b1aa5f74fbf4ea240aa3a9a3ccb4288c"⟩,
    ⟨⟨lit "m3", natNumber 4, ⟨lit "ada", .human⟩, lit "2025-10-02T10:06:00Z", lit "bye"⟩,
      lit "sha256:6b704640491c3d6ee35eedacc594fa44ff4dfbf71cb218a3660c1007f4125879"⟩]

def threeDigest : Text :=
  lit "sha256:c88602d2cc3947971f45367a07b027aa82c01896f3138b6d0a6fceb594991801"

/-- The digests of these records and of their chunk. -/
def threeDigests (bytes : List UInt8) : Option Text :=
  if bytes = encodeImportedHistoryChunk ⟨lit "archive-1", natNumber 0, threeRecords⟩
    then some threeDigest
  else (threeRecords.find? fun record => bytes = encodeImportedRecord
    (lit "general") record.toImportedHistoryRecordInput).map (·.recordDigest)

def recordJson (record : ImportedHistoryRecord) : Json :=
  .object [(lit "v", .number (natNumber 1)), (lit "kind", .string (lit "imported")),
    (lit "sourceRecordId", .string record.sourceRecordId),
      (lit "sequence", .number record.sequence),
    (lit "originalAuthor", .object [(lit "label", .string record.originalAuthor.label),
      (lit "kind", .string record.originalAuthor.kind.text)]),
    (lit "originalSentAt", .string record.originalSentAt), (lit "body", .string record.body),
    (lit "recordDigest", .string record.recordDigest)]

def threeManifest : Json :=
  .object [(lit "v", .number (natNumber 1)), (lit "archiveId", .string (lit "archive-1")),
    (lit "source",
      .object [(lit "channelId", .string (lit "general")), (lit "revision", .string (lit "r1"))]),
    (lit "importedBy", .object [(lit "ownerId", .string (lit "ada")),
      (lit "participantId", .string (lit "@ada:khala"))]),
    (lit "importedAt", .string (lit "2025-10-02T10:07:00Z")),
      (lit "recordCount", .number (natNumber 3)),
    (lit "chunks",
      .array [.object [(lit "index", .number (natNumber 0)),
        (lit "recordCount", .number (natNumber 3)),
      (lit "firstSequence", .number (natNumber 1)), (lit "lastSequence", .number (natNumber 4)),
        (lit "chunkDigest", .string threeDigest)]])]

def threeChunks : Json :=
  .array [.object [(lit "v", .number (natNumber 1)), (lit "archiveId", .string (lit "archive-1")),
    (lit "index", .number (natNumber 0)),
    (lit "records", .array (threeRecords.map recordJson)),
      (lit "chunkDigest", .string threeDigest)]]

def threeView : ImportedHistoryView :=
  ⟨lit "archive-1", ⟨lit "general", lit "r1"⟩, ⟨lit "ada", lit "@ada:khala"⟩,
    lit "2025-10-02T10:07:00Z", threeRecords⟩

def twoPerPage : ImportedHistoryLimits := ⟨64, 64, 3, 4096, 16, 2, 100, by decide, by decide⟩

/-- Three records on pages of two. -/
theorem context_pages_three :
    projectImportedHistory threeDigests twoPerPage threeManifest threeChunks = .ok threeView
    ∧ (∃ pages,
      (∀ requests, 3 < requests →
        followPages threeView (natNumber 10) twoPerPage requests none = some pages)
      ∧ pages.flatMap (·.records) = threeRecords)
    ∧ ∀ cursor page, importedContextPage threeView cursor (natNumber 10) twoPerPage = some page →
      page.records.length ≤ 2 ∧ bodyBytes page.records ≤ 100
      ∧ ∀ after, readCursor cursor = some after →
      (∃ record ∈ threeRecords, after < sequenceOf record) → page.records ≠ [] := by
  have verified : projectImportedHistory threeDigests twoPerPage threeManifest threeChunks
    = .ok threeView := by decide +kernel
  exact ⟨verified, context_pages verified (by decide) (by decide)⟩

end Khala.Import
