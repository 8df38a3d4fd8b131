import Khala.Contracts.Image

/-! Metadata that is still found in an image after it was stripped. -/

namespace Khala

open Js Framing

/-! ## Reading a stripped image -/

/-- A segment as a reader sees it: fill bytes may come before its marker. -/
def jpegMarker (rest : Bytes) : Option Head :=
  if rest.length ≤ 3 ∨ byte rest 0 ≠ 0xff then none
  else if byte rest 1 = 0xff then some ⟨1, false, Nat.one_pos⟩
  else jpegSegment rest

/-- Whether reading the image finds none of the metadata that its type can carry. An end-of-image
marker does not stop the reader, so it reads at least as far as one that stops there. -/
def MetadataFree : ImageMimeType → Bytes → Prop
  | .jpeg, bytes => Unmarked jpegMarker jpegMetadata (bytes.drop 2)
  | .png, bytes => Unmarked pngChunk pngMetadata (bytes.drop 8)
  | .webp, bytes =>
    Unmarked webpChunk webpMetadata (bytes.drop 12)
      ∧ (fourcc bytes 12 = lit "VP8X" → byte bytes 20 &&& 0x0c = 0)
  | .gif, _ => True

def isFill (rest : Bytes) : Bool := byte rest 1 = 0xff

/-- The first segment whose marker the stripping loop takes from a fill byte. -/
def firstFill (bytes : Bytes) : Option Bytes := (walk jpegSegment (bytes.drop 2)).find? isFill

/-- What an image must be like for its metadata to be cut out: nothing runs past its end, or it had
no metadata; and from a fill byte on, a JPEG has no metadata and nothing that the stripping loop
takes for it. -/
def Strippable : ImageMimeType → Bytes → Prop
  | .jpeg, bytes =>
    Whole jpegSegment (bytes.drop 2) ∧ (∀ fill, firstFill bytes = some fill →
      Unmarked jpegSegment jpegMetadata fill ∧ Unmarked jpegMarker jpegMetadata fill)
    ∨ ¬ Whole jpegSegment (bytes.drop 2) ∧ MetadataFree .jpeg bytes
  | .png, bytes => Whole pngChunk (bytes.drop 8) ∨ MetadataFree .png bytes
  | .webp, bytes => Whole webpChunk (bytes.drop 12) ∨ MetadataFree .webp bytes
  | .gif, _ => True

/-! ## Bytes at the start -/

section

variable {one two : Bytes} {n i : Nat}

/-- Bytes that begin alike have the same bytes there. -/
theorem byte_of_take (same : one.take n = two.take n) (inside : i < n) :
    byte one i = byte two i := by
  have here := congrArg (fun bytes : Bytes => bytes[i]?) same
  simp only [List.getElem?_take_of_lt inside] at here
  simp only [byte, List.getD_eq_getElem?_getD, here]

/-- Bytes that begin alike have the same numbers there. -/
theorem u16be_of_take (same : one.take n = two.take n) (inside : i + 1 < n) :
    u16be one i = u16be two i := by
  simp only [u16be, byte_of_take same inside, byte_of_take same (Nat.lt_of_succ_lt inside)]

/-- Bytes that begin alike have the same long numbers there. -/
theorem u32_of_take (same : one.take n = two.take n) (inside : i + 3 < n) :
    u32 one i = u32 two i := by
  simp only [u32, u16be_of_take same inside, u16be_of_take same (show i + 1 < n by omega)]

/-- Bytes that begin alike have the same reversed numbers there. -/
theorem u32le_of_take (same : one.take n = two.take n) (inside : i + 3 < n) :
    u32le one i = u32le two i := by
  simp only [u32le, u16le, byte_of_take same inside, byte_of_take same (show i < n by omega),
    byte_of_take same (show i + 1 < n by omega), byte_of_take same (show i + 2 < n by omega)]

/-- Bytes that begin alike have the same types there. -/
theorem fourcc_of_take (same : one.take n = two.take n) (inside : i + 4 ≤ n) :
    fourcc one i = fourcc two i := by
  have window : ∀ bytes : Bytes, (bytes.drop i).take 4 = ((bytes.take n).drop i).take 4 :=
    fun bytes => by
    rw [List.drop_take, List.take_take, Nat.min_eq_left (by omega)]
  rw [fourcc, fourcc, window one, window two, same]

end

/-- A kept piece starts as the list did, whatever follows it. -/
theorem take_kept {rest out : Bytes} {size n : Nat} (fits : size ≤ rest.length) (start : n ≤ size) :
    (rest.take size ++ out).take n = rest.take n := by
  rw [List.take_append_of_le_length (by rw [List.length_take]; omega), List.take_take,
    Nat.min_eq_left start]

/-! ## JPEG -/

/-- A segment too short to hold its own length ends the loop, so what follows it is kept. -/
theorem jpegSegment_short {rest : Bytes} {next : Head} (starts : jpegSegment rest = some next)
    (short : next.size < 4) :
    jpegSegment (rest.drop next.size) = none := by
  -- The length is then zero or one, and the byte that would start the next segment is one of its
  -- own two.
  unfold jpegSegment at starts
  split at starts
  · cases starts
  · split at starts
    · cases starts
    · cases starts
      dsimp only at short ⊢
      have high : byte rest 2 <<< 8 ≤ u16be rest 2 := Nat.left_le_or
      have low : byte rest 3 ≤ u16be rest 2 := Nat.right_le_or
      rw [Nat.shiftLeft_eq] at high
      have first : byte (rest.drop (2 + u16be rest 2)) 0 = byte rest (2 + u16be rest 2) := by
        simp [byte, List.getD_eq_getElem?_getD]
      have small : byte rest (2 + u16be rest 2) < 2 := by
        have which : u16be rest 2 = 0 ∨ u16be rest 2 = 1 := by omega
        rcases which with zero | one
        · rw [zero]
          show byte rest 2 < 2
          omega
        · rw [one]
          show byte rest 3 < 2
          omega
      unfold jpegSegment
      rw [if_pos (.inr (by omega))]

/-- A kept segment is read as it was. -/
theorem jpegMarker_kept {rest out : Bytes} {next : Head} (starts : jpegSegment rest = some next)
    (plain : byte rest 1 ≠ 0xff) (fits : next.size ≤ rest.length)
    (cut : cutOut jpegSegment jpegMetadata id (rest.drop next.size) = some out) :
    jpegMarker (rest.take next.size ++ out) = some next
      ∧ jpegMetadata (rest.take next.size ++ out) = jpegMetadata rest := by
  -- The walk sees a marker where the cut saw a segment.
  have marked : jpegMarker rest = some next := by
    unfold jpegMarker
    rw [if_neg plain, starts]
    unfold jpegSegment at starts
    split at starts
    · cases starts
    next header => rw [if_neg header]
  -- A marker without a size is followed by what the walk has left.
  by_cases short : next.size < 4
  · rw [cutOut_stop (jpegSegment_short starts short), Option.some.injEq, id] at cut
    rw [← cut, List.take_append_drop]
    exact ⟨marked, rfl⟩
  -- A longer segment keeps its first four bytes.
  · have same : (rest.take next.size ++ out).take 4 = rest.take 4 := take_kept fits (by omega)
    have long : ¬ (rest.take next.size ++ out).length ≤ 3 := by
      rw [List.length_append, List.length_take]
      omega
    have long' : ¬ rest.length ≤ 3 := by omega
    unfold jpegMarker jpegSegment jpegMetadata at *
    simp only [byte_of_take same (show 0 < 4 by omega), byte_of_take same (show 1 < 4 by omega),
      u16be_of_take same (show 2 + 1 < 4 by omega), long, long'] at marked ⊢
    exact ⟨marked, trivial⟩

/-- Where no segment starts no marker stands. -/
theorem jpegMarker_stop {rest : Bytes} (stop : jpegSegment rest = none) :
    jpegMarker rest = none := by
  unfold jpegMarker
  split
  · rfl
  next header =>
    split
    next fill =>
      unfold jpegSegment at stop
      rw [if_neg header, if_neg (by omega)] at stop
      cases stop
    next => exact stop

/-- No segment is the last by itself. -/
theorem jpegSegment_last {rest : Bytes} {next : Head} (starts : jpegSegment rest = some next) :
    next.last = false := by
  unfold jpegSegment at starts
  split at starts
  · cases starts
  · split at starts <;> cases starts
    rfl

/-- What a reader finds in a stripped JPEG: nothing without fill bytes, else what is left from the
first one on. -/
theorem unmarked_stripped {rest kept : Bytes}
    (cut : cutOut jpegSegment jpegMetadata id rest = some kept) :
    ((walk jpegSegment rest).find? isFill = none → Unmarked jpegMarker jpegMetadata kept)
      ∧ ∀ fill, (walk jpegSegment rest).find? isFill = some fill → ∃ left,
        cutOut jpegSegment jpegMetadata id fill = some left
          ∧ (Unmarked jpegMarker jpegMetadata kept ↔ Unmarked jpegMarker jpegMetadata left) := by
  apply unmarked_cutOut jpegMarker isFill rfl (fun rest stop =>
    unmarked_stop (jpegMarker_stop stop)) _ cut
  intro rest next out starts plain fits rests
  rcases rests with ⟨last, -⟩ | ⟨-, cut⟩
  · rw [jpegSegment_last starts] at last
    cases last
  · exact jpegMarker_kept starts (of_decide_eq_false plain) fits cut

/-- A stripped JPEG: nothing is left up to the first fill byte, and what is left from there on was
there before. -/
theorem metadataFree_stripJpeg (bytes : Bytes) :
    (Strippable .jpeg bytes → MetadataFree .jpeg (stripJpeg bytes))
      ∧ (MetadataFree .jpeg (stripJpeg bytes) → Strippable .jpeg bytes
        ∨ ∃ fill, firstFill bytes = some fill ∧ ¬ Unmarked jpegSegment jpegMetadata fill) := by
  unfold Strippable stripJpeg
  cases cut : cutOut jpegSegment jpegMetadata id (bytes.drop 2) with
  | none =>
    simp only [not_whole_of_cutOut cut, false_and, not_false_eq_true, true_and, false_or, imp_self]
    exact .inl
  | some kept =>
    have left : (bytes.take 2 ++ kept).drop 2 = kept := drop_take_append_cutOut rfl rfl cut
    obtain ⟨plain, filled⟩ := unmarked_stripped cut
    simp only [whole_of_cutOut cut, true_and, not_true, false_and, or_false, MetadataFree, left]
    cases first : firstFill bytes with
    | none =>
      refine ⟨fun _ => plain first, fun _ => .inl ?_⟩
      simp
    | some fill =>
      obtain ⟨rest, cutFill, same⟩ := filled fill first
      -- When the loop takes nothing for metadata from the fill byte on, it leaves all of it.
      have untouched : Unmarked jpegSegment jpegMetadata fill → rest = fill := fun clean => by
        rw [cutOut_unmarked (fun _ _ => jpegSegment_last) (whole_of_cutOut cutFill) clean]
          at cutFill
        exact (Option.some.inj cutFill).symm
      constructor
      · intro strippable
        obtain ⟨clean, free⟩ := strippable fill rfl
        rw [same, untouched clean]
        exact free
      · intro free
        by_cases clean : Unmarked jpegSegment jpegMetadata fill
        · refine .inl fun fill' found => ?_
          cases found
          rw [same, untouched clean] at free
          exact ⟨clean, free⟩
        · exact .inr ⟨fill, rfl, clean⟩

/-! ## PNG -/

/-- A PNG is free of metadata exactly when it can be stripped. -/
theorem metadataFree_stripPng (bytes : Bytes) :
    MetadataFree .png (stripPng bytes) ↔ Strippable .png bytes := by
  unfold Strippable stripPng
  -- Where the walk does not go through, the file stays, and may have metadata.
  cases cut : cutOut pngChunk pngMetadata (fun _ => []) (bytes.drop 8) with
  | none => simp [not_whole_of_cutOut cut]
  | some kept =>
    -- Otherwise what is left are the chunks that were kept.
    have left : (bytes.take 8 ++ kept).drop 8 = kept := drop_take_append_cutOut rfl rfl cut
    simp only [whole_of_cutOut cut, true_or, iff_true, MetadataFree, left]
    apply unmarked_of_cutOut rfl (fun _ _ => rfl) _ cut
    intro rest next out starts fits _
    unfold pngChunk at starts
    split at starts
    · cases starts
    next header =>
      cases starts
      dsimp only at fits ⊢
      -- Each of them keeps its header.
      have same : (rest.take (12 + u32 rest 0) ++ out).take 12 = rest.take 12 :=
        take_kept fits (Nat.le_add_right 12 _)
      have long : ¬ (rest.take (12 + u32 rest 0) ++ out).length < 12 := by
        rw [List.length_append, List.length_take]
        omega
      unfold pngChunk pngMetadata
      rw [if_neg long]
      simp only [u32_of_take same (show 0 + 3 < 12 by omega),
        fourcc_of_take same (show 4 + 4 ≤ 12 by omega), true_and]

/-! ## WebP -/

/-- No chunk starts in less than eight bytes. -/
theorem webpChunk_of_short {rest : Bytes} (short : rest.length < 8) : webpChunk rest = none := by
  unfold webpChunk
  rw [dif_neg (by omega)]

/-- No chunk starts where nothing is left. -/
theorem webpChunk_nil : webpChunk [] = none := webpChunk_of_short (Nat.succ_pos 7)

/-- Chunks of the same length and the same size field end at the same place. -/
theorem webpChunk_congr {one two : Bytes} (length : one.length = two.length)
    (size : u32le one 4 = u32le two 4) :
    webpChunk one = webpChunk two := by
  simp only [webpChunk, webpChunkSize, length, size]

/-- A chunk that is padded has an even size. -/
theorem webpChunkSize_padded {rest : Bytes}
    (within : 8 + u32le rest 4 + (u32le rest 4 &&& 1) ≤ rest.length) :
    webpChunkSize rest = 8 + u32le rest 4 + (u32le rest 4 &&& 1) := by
  unfold webpChunkSize
  dsimp only
  rw [if_neg (by omega), Nat.min_eq_right within]

/-- A chunk has at least its header. -/
theorem webpChunk_size {rest : Bytes} {next : Head} (starts : webpChunk rest = some next) :
    8 ≤ next.size := by
  unfold webpChunk at starts
  split at starts
  · cases starts
    dsimp only [webpChunkSize]
    split <;> omega
  · cases starts

/-- No chunk is the last by itself. -/
theorem webpChunk_last {rest : Bytes} {next : Head} (starts : webpChunk rest = some next) :
    next.last = false := by
  unfold webpChunk at starts
  split at starts <;> cases starts
  rfl

/-- A kept chunk is read as it was. Only the last one may lack its padding, and then nothing follows
it. -/
theorem webpChunk_kept {rest out : Bytes} {next : Head} (starts : webpChunk rest = some next)
    (fits : next.size ≤ rest.length)
    (cut : cutOut webpChunk webpMetadata (fun _ => []) (rest.drop next.size) = some out) :
    webpChunk (rest.take next.size ++ out) = some next
      ∧ webpMetadata (rest.take next.size ++ out) = webpMetadata rest := by
  by_cases whole : next.size = rest.length
  · rw [List.drop_eq_nil_of_le (by omega), cutOut_stop webpChunk_nil, Option.some.injEq] at cut
    rw [← cut, whole, List.take_length, List.append_nil]
    exact ⟨starts, rfl⟩
  · unfold webpChunk at starts
    split at starts
    next header =>
      cases starts
      dsimp only at fits whole ⊢
      -- The chunk has its padding, and more bytes follow it.
      have size : webpChunkSize rest = 8 + u32le rest 4 + (u32le rest 4 &&& 1) := by
        unfold webpChunkSize at fits whole ⊢
        dsimp only at fits whole ⊢
        split at fits
        · omega
        next within =>
          rw [if_neg within] at whole ⊢
          omega
      have eight : 8 ≤ webpChunkSize rest := by omega
      have same : (rest.take (webpChunkSize rest) ++ out).take 8 = rest.take 8 :=
        take_kept fits eight
      have length : webpChunkSize rest ≤ (rest.take (webpChunkSize rest) ++ out).length := by
        rw [List.length_append, List.length_take]
        omega
      have field := u32le_of_take same (show 4 + 3 < 8 by omega)
      have again : webpChunkSize (rest.take (webpChunkSize rest) ++ out) = webpChunkSize rest := by
        rw [webpChunkSize_padded (by rw [field]; omega), field, ← size]
      unfold webpChunk webpMetadata
      rw [dif_pos (by omega)]
      simp only [again, fourcc_of_take same (show 0 + 4 ≤ 8 by omega), true_and]
    · cases starts

/-- Flags that are cleared are clear. -/
theorem flags_cleared (flags : UInt8) : flags &&& ~~~0x0c &&& 0x0c = 0 := by
  rw [UInt8.and_assoc, show (~~~0x0c &&& 0x0c : UInt8) = 0 from rfl, UInt8.and_zero]

/-- Clearing two bits of the first byte of a chunk makes no metadata chunk of it. -/
theorem unmarked_modify_first {rest : Bytes} (free : Unmarked webpChunk webpMetadata rest) :
    Unmarked webpChunk webpMetadata (rest.modify 0 (· &&& ~~~0x0c)) := by
  cases rest with
  | nil => exact free
  | cons first rest =>
    rw [List.modify_zero_cons]
    -- The types that carry metadata start with letters that have one of the two bits.
    have plain : webpMetadata ((first &&& ~~~0x0c) :: rest) = false := by
      have letter : ∀ kind : Bytes, (kind.headD 0) &&& 0x0c ≠ 0 →
          fourcc ((first &&& ~~~0x0c) :: rest) 0 ≠ kind.map (·.toUInt16) := by
        intro kind flagged same
        cases kind with
        | nil => cases same
        | cons initial others =>
          have here := congrArg UInt16.toUInt8 (List.cons.inj same).1
          rw [UInt8.toUInt8_toUInt16, UInt8.toUInt8_toUInt16] at here
          exact flagged (by rw [List.headD_cons, ← here, flags_cleared])
      have exif := letter [69, 88, 73, 70] (by decide)
      have xmp := letter [88, 77, 80, 32] (by decide)
      exact Bool.or_eq_false_iff.mpr ⟨decide_eq_false exif, decide_eq_false xmp⟩
    have same : webpChunk ((first &&& ~~~0x0c) :: rest) = webpChunk (first :: rest) :=
      webpChunk_congr rfl rfl
    cases starts : webpChunk (first :: rest) with
    | none => exact unmarked_stop (same.trans starts)
    | some next =>
      unfold Unmarked at free ⊢
      rw [walk_piece starts, List.forall_mem_cons] at free
      rw [walk_piece (same.trans starts), List.forall_mem_cons]
      refine ⟨plain, ?_⟩
      obtain ⟨size, more⟩ := Nat.exists_eq_succ_of_ne_zero next.positive.ne'
      rw [more] at free ⊢
      exact free.2

/-- Nor does clearing two bits of the first byte after the header of a chunk. -/
theorem unmarked_modify {rest : Bytes} (free : Unmarked webpChunk webpMetadata rest) :
    Unmarked webpChunk webpMetadata (rest.modify 8 (· &&& ~~~0x0c)) := by
  have start : (rest.modify 8 (· &&& ~~~0x0c)).take 8 = rest.take 8 := by
    rw [List.take_modify, List.modify_eq_self (by rw [List.length_take]; omega)]
  have same : webpChunk (rest.modify 8 (· &&& ~~~0x0c)) = webpChunk rest :=
    webpChunk_congr (List.length_modify ..) (u32le_of_take start (by omega))
  have kind : webpMetadata (rest.modify 8 (· &&& ~~~0x0c)) = webpMetadata rest := by
    unfold webpMetadata
    rw [fourcc_of_take start (by omega)]
  cases starts : webpChunk rest with
  | none => exact unmarked_stop (same.trans starts)
  | some next =>
    unfold Unmarked at free ⊢
    rw [walk_piece starts, List.forall_mem_cons] at free
    rw [walk_piece (same.trans starts), List.forall_mem_cons, kind, List.length_modify]
    refine ⟨free.1, ?_⟩
    split
    · simp
    next goes =>
      have later := free.2
      rw [if_neg goes] at later
      have eight : 8 ≤ next.size := webpChunk_size starts
      -- The byte is in this chunk, or the first one of the next.
      by_cases data : 8 < next.size
      · rw [List.drop_modify_of_lt _ _ _ _ data]
        exact later
      · rw [List.drop_modify_of_ge _ _ _ _ (by omega), show 8 - next.size = 0 by omega]
        exact unmarked_modify_first later

/-- A WebP is free of metadata exactly when it can be stripped. -/
theorem metadataFree_stripWebp {bytes : Bytes} (long : 12 ≤ bytes.length) :
    MetadataFree .webp (stripWebp bytes) ↔ Strippable .webp bytes := by
  unfold Strippable stripWebp
  cases cut : cutOut webpChunk webpMetadata (fun _ => []) (bytes.drop 12) with
  -- Where the walk does not go through, the file stays as well.
  | none => simp [not_whole_of_cutOut cut]
  | some kept =>
    -- Of the chunks that were kept none is metadata.
    have free : Unmarked webpChunk webpMetadata kept := by
      apply unmarked_of_cutOut webpChunk_nil (fun _ _ => webpChunk_nil) _ cut
      intro rest next out starts fits rests
      rcases rests with ⟨last, -⟩ | ⟨-, cut⟩
      · rw [webpChunk_last starts] at last
        cases last
      · exact webpChunk_kept starts fits cut
    have front : (bytes.take 12).length = 12 := List.length_take_of_le long
    simp only [whole_of_cutOut cut, true_or, iff_true, MetadataFree]
    -- The size in the header says nothing of the chunks.
    generalize sized : (bytes.take 12 ++ kept).take 4 ++ riffSize (bytes.take 12 ++ kept)
      ++ (bytes.take 12 ++ kept).drop 8 = out
    have left : out.drop 12 = kept := by
      have size :
        ((bytes.take 12 ++ kept).take 4 ++ riffSize (bytes.take 12 ++ kept)).length = 8 := by
        simp [riffSize, front]
        omega
      rw [← sized, show 12 = 8 + 4 from rfl, ← List.drop_drop, List.drop_left' size,
        List.drop_drop, List.drop_left' front]
    unfold clearFlags
    split
    next extended =>
      refine ⟨?_, fun _ => ?_⟩
      · rw [List.drop_modify_of_ge _ _ _ _ (by omega), left]
        exact unmarked_modify free
      · unfold byte
        rw [List.getD_eq_getElem?_getD, List.getElem?_modify_eq]
        cases out[20]? with
        | none => rfl
        -- The two flags are cleared.
        | some flags =>
          show (flags &&& ~~~0x0c).toNat &&& UInt8.toNat 0x0c = 0
          rw [← UInt8.toNat_and, flags_cleared]
          rfl
    next plain =>
      rw [left]
      exact ⟨free, fun extended => absurd extended plain⟩

/-! ## Accepted images -/

/-- What is sniffed in a JPEG is a JPEG. -/
theorem sniffJpeg_mimetype {rest : Bytes} {image : SniffedImage}
    (found : sniffJpeg rest = some image) :
    image.mimetype = .jpeg := by
  fun_induction sniffJpeg rest with
  | case4 => cases found; rfl
  | case3 _ _ _ _ _ ih => exact ih found
  | case6 _ _ _ _ _ _ _ ih => exact ih found
  | _ => cases found

/-- An accepted WebP has a whole header. -/
theorem webp_length {bytes : Bytes} {image : SniffedImage} (accepted : checkImage bytes = .ok image)
    (webp : image.mimetype = .webp) : 12 ≤ bytes.length := by
  -- An accepted image was sniffed, and its sides were checked.
  have sniffed : sniffType bytes = some image := by
    unfold checkImage at accepted
    split at accepted
    · cases accepted
    · split at accepted
      · cases accepted
      · split at accepted
        next found sane =>
          cases accepted
          exact (Option.filter_eq_some_iff.mp sane).1
        next => cases accepted
  -- Every other way to be sniffed gives another type.
  unfold sniffType at sniffed
  split at sniffed
  next png => omega
  · split at sniffed
    · cases sniffed
      cases webp
    · split at sniffed
      next header => omega
      · split at sniffed
        · rw [sniffJpeg_mimetype sniffed] at webp
          cases webp
        · cases sniffed

/-- An accepted image that is stripped carries no metadata, when nothing runs past its end and the
stripping loop meets no fill byte, or there was no metadata to find; nor does it carry none
otherwise, unless the loop, once it has taken a fill byte for a marker, cuts out what it then takes
for metadata. -/
theorem metadataFree_strip {bytes : Bytes} {image : SniffedImage}
    (accepted : checkImage bytes = .ok image) :
    (Strippable image.mimetype bytes →
      MetadataFree image.mimetype (stripImageMetadata bytes image.mimetype))
      ∧ (MetadataFree image.mimetype (stripImageMetadata bytes image.mimetype) →
        Strippable image.mimetype bytes
        ∨ image.mimetype = .jpeg ∧ ∃ fill, firstFill bytes = some fill
          ∧ ¬ Unmarked jpegSegment jpegMetadata fill) := by
  cases kind : image.mimetype with
  | jpeg =>
    obtain ⟨free, strippable⟩ := metadataFree_stripJpeg bytes
    exact ⟨free, fun left => (strippable left).imp_right fun past => ⟨rfl, past⟩⟩
  | png =>
    have both := metadataFree_stripPng bytes
    exact ⟨both.mpr, fun free => .inl (both.mp free)⟩
  | webp =>
    have both := metadataFree_stripWebp (webp_length accepted kind)
    exact ⟨both.mpr, fun free => .inl (both.mp free)⟩
  | gif => exact ⟨fun _ => trivial, fun _ => .inl trivial⟩

/-- An EXIF segment with a fill byte before its marker, a frame header and a scan. -/
private def filled : Bytes :=
  [0xff, 0xd8, 0xff, 0xff, 0xe1, 0x00, 0x08, 0x45, 0x78, 0x69, 0x66, 0x00, 0x00,
    0xff, 0xc0, 0x00, 0x0b, 0x08, 0x00, 0x04, 0x00, 0x08, 0x03, 0x01, 0x22, 0x00, 0xff, 0xda, 0x00,
      0x02, 0xff, 0xd9]

/-- A fill byte before the marker of an EXIF segment keeps the segment in the image. -/
theorem fill_byte_keeps_metadata :
    ¬ ∀ (bytes : Bytes) (image : SniffedImage), checkImage bytes = .ok image →
    image.mimetype ≠ .gif →
    MetadataFree image.mimetype (stripImageMetadata bytes image.mimetype) := by
  intro always
  have accepted : checkImage filled = .ok ⟨.jpeg, 8, 4⟩ := by decide +kernel
  have free := always filled _ accepted (by decide)
  have kept : ¬ Unmarked jpegMarker jpegMetadata ((stripJpeg filled).drop 2) := by decide +kernel
  exact kept free

/-- The segment without its fill byte is cut out. -/
theorem metadataFree_strip_plain :
    MetadataFree .jpeg (stripImageMetadata (filled.eraseIdx 2) .jpeg) := by
  have accepted : checkImage (filled.eraseIdx 2) = .ok ⟨.jpeg, 8, 4⟩ := by decide +kernel
  have plain : firstFill (filled.eraseIdx 2) = none := by decide +kernel
  apply (metadataFree_strip accepted).1
  refine .inl ⟨by decide +kernel, fun fill found => ?_⟩
  rw [plain] at found
  cases found

end Khala
