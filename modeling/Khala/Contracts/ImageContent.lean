import Khala.Contracts.ImageMetadata
import Khala.Framing.Kept

/-! What stripping an image leaves as it was: its type and size, and all that is not metadata. -/

namespace Khala

open Js Framing

/-- A chunk without the flags that EXIF and XMP are present. -/
def unflagged (chunk : Bytes) : Bytes :=
  if fourcc chunk 0 = lit "VP8X" then chunk.modify 8 (· &&& ~~~0x0c) else chunk

/-- What an image holds besides metadata: the segments of a JPEG, and all that follows them from the
scan on; the chunks of a PNG up to its last; the chunks of a WebP, the first without its two flags.
-/
def imageContent : ImageMimeType → Bytes → List Bytes
  | .jpeg, bytes => pieces jpegMarker jpegMetadata (fun rest => [rest]) (bytes.drop 2)
  | .png, bytes => pieces pngChunk pngMetadata (fun _ => []) (bytes.drop 8)
  | .webp, bytes =>
    (pieces webpChunk webpMetadata (fun _ => []) (bytes.drop 12)).modifyHead unflagged
  | .gif, bytes => [bytes]

/-- The first segment with a fill byte before its marker or with the size of the image. -/
def firstOdd (bytes : Bytes) : Option Bytes :=
  (walk jpegSegment (bytes.drop 2)).find? fun rest => isFill rest || isFrame (byte rest 1)

/-- How many bytes of its chunks the size of a WebP is read from. -/
def sizeBytes (bytes : Bytes) : Nat := if ascii bytes 12 (lit "VP8L") then 13 else 18

/-- The image is cut, and a byte that sniffing reads is moved or left out: the last one of the size,
or one before it. Or the stripping loop takes a fill byte of a JPEG for a marker, and cuts something
out from there on. -/
def Displaced : ImageMimeType → Bytes → Prop
  | .jpeg, bytes => Whole jpegSegment (bytes.drop 2) ∧
    ((∃ fill, firstFill bytes = some fill ∧ ¬ Unmarked jpegSegment jpegMetadata fill)
      -- Either a fill byte is taken for a marker while there is metadata behind it.
      ∨ ∃ frame, firstOdd bytes = some frame ∧ isFill frame = false
        -- Or the frame header is moved by what is dropped within the bytes that are read of it.
        ∧ untouched jpegSegment jpegMetadata List.length frame < 9)
  | .png, bytes => Whole pngChunk (bytes.drop 8)
    ∧ untouched pngChunk pngMetadata (fun _ => 0) (bytes.drop 8) < 16
  | .webp, bytes => Whole webpChunk (bytes.drop 12)
    ∧ untouched webpChunk webpMetadata (fun _ => 0) (bytes.drop 12) < sizeBytes bytes
  -- A GIF is left as it is.
  | .gif, _ => False

/-- Of an image that is cut enough is spared for it to be sniffed: a byte after the frame header of
a JPEG, 30 bytes of a WebP. And the flags of a WebP that are cleared are flags. -/
def Sniffable : ImageMimeType → Bytes → Prop
  | .jpeg, bytes => Whole jpegSegment (bytes.drop 2) → ∀ frame, firstOdd bytes = some frame →
    isFill frame = false → 10 ≤ spared jpegSegment jpegMetadata List.length frame
  | .webp, bytes => Whole webpChunk (bytes.drop 12) →
    18 ≤ spared webpChunk webpMetadata (fun _ => 0) (bytes.drop 12)
      ∧ (fourcc bytes 12 = lit "VP8X" → u32le bytes 16 = 0 → byte bytes 20 &&& 0x0c = 0)
  | .png, _ | .gif, _ => True

/-- What an image must be like to be the same when it is stripped. -/
def Undisturbed (kind : ImageMimeType) (bytes : Bytes) : Prop :=
  ¬ Displaced kind bytes ∧ Sniffable kind bytes

section

variable {bytes : Bytes}

/-- From a fill byte on nothing is cut, when nothing is displaced. -/
theorem clean_of_not_displaced (kept : ¬ Displaced .jpeg bytes)
    (whole : Whole jpegSegment (bytes.drop 2)) {fill : Bytes}
    (first : firstFill bytes = some fill) : Unmarked jpegSegment jpegMetadata fill := by
  by_contra cut
  exact kept ⟨whole, .inl ⟨fill, first, cut⟩⟩

/-- The first nine bytes of a frame header stay, when nothing is displaced. -/
theorem framed_of_not_displaced (kept : ¬ Displaced .jpeg bytes)
    (whole : Whole jpegSegment (bytes.drop 2)) {frame : Bytes} (first : firstOdd bytes = some frame)
    (isFrame : isFill frame = false) :
    9 ≤ untouched jpegSegment jpegMetadata List.length frame := by
  by_contra few
  exact kept ⟨whole, .inr ⟨frame, first, isFrame, Nat.lt_of_not_le few⟩⟩

/-- The header chunk of a PNG stays up to the size, when nothing is displaced. -/
theorem sized_of_not_displaced (kept : ¬ Displaced .png bytes)
    (whole : Whole pngChunk (bytes.drop 8)) :
    16 ≤ untouched pngChunk pngMetadata (fun _ => 0) (bytes.drop 8) := by
  by_contra few
  exact kept ⟨whole, Nat.lt_of_not_le few⟩

/-- The chunks of a WebP stay up to the size, when nothing is displaced. -/
theorem chunked_of_not_displaced (kept : ¬ Displaced .webp bytes)
    (whole : Whole webpChunk (bytes.drop 12)) :
    sizeBytes bytes ≤ untouched webpChunk webpMetadata (fun _ => 0) (bytes.drop 12) := by
  by_contra few
  exact kept ⟨whole, Nat.lt_of_not_le few⟩

end

/-! ## JPEG -/

/-- A kept segment is read as it was by the stripping loop. -/
theorem jpegSegment_kept {rest out : Bytes} {next : Head} (starts : jpegSegment rest = some next)
    (fits : next.size ≤ rest.length)
    (cut : cutOut jpegSegment jpegMetadata id (rest.drop next.size) = some out) :
    jpegSegment (rest.take next.size ++ out) = some next
      ∧ jpegMetadata (rest.take next.size ++ out) = jpegMetadata rest := by
  -- A marker without a size is followed by what the walk has left, which is kept as it is.
  by_cases short : next.size < 4
  · rw [cutOut_stop (jpegSegment_short starts short), Option.some.injEq, id] at cut
    rw [← cut, List.take_append_drop]
    exact ⟨starts, rfl⟩
  -- A longer segment shows its marker and its size in its first four bytes, which stay.
  · have same : (rest.take next.size ++ out).take 4 = rest.take 4 := take_kept fits (by omega)
    have long : ¬ (rest.take next.size ++ out).length ≤ 3 := by
      rw [List.length_append, List.length_take]
      omega
    have long' : ¬ rest.length ≤ 3 := by omega
    unfold jpegSegment jpegMetadata at *
    simp only [byte_of_take same (show 0 < 4 by omega), byte_of_take same (show 1 < 4 by omega),
      u16be_of_take same (show 2 + 1 < 4 by omega), long, long'] at starts ⊢
    exact ⟨starts, trivial⟩

/-- What is cut out behind a segment does not change how it is read. -/
theorem jpegSegment_keeps (rest : Bytes) (next : Head) (out : Bytes)
    (starts : jpegSegment rest = some next) (fits : next.size ≤ rest.length)
    (rests : next.last = true ∧ out = [] ∨ next.last = false
      ∧ cutOut jpegSegment jpegMetadata id (rest.drop next.size) = some out) :
    jpegSegment (rest.take next.size ++ out) = some next
      ∧ jpegMetadata (rest.take next.size ++ out) = jpegMetadata rest := by
  rcases rests with ⟨last, -⟩ | ⟨-, cut⟩
  · rw [jpegSegment_last starts] at last
    cases last
  · exact jpegSegment_kept starts fits cut

/-- Cutting out of what was already cut changes nothing. -/
theorem strip_same {head : Bytes → Option Head} {marked : Bytes → Bool} {ending : Bytes → Bytes}
    {start : Nat} {bytes kept : Bytes} (empty : head [] = none) (nothing : ending [] = [])
    (cut : cutOut head marked ending (bytes.drop start) = some kept) :
    (bytes.take start ++ kept).take start ++ kept = bytes.take start ++ kept := by
  have left : (bytes.take start ++ kept).drop start = kept :=
    drop_take_append_cutOut empty nothing cut
  have whole := List.take_append_drop start (bytes.take start ++ kept)
  rwa [left] at whole

/-- Stripping a JPEG twice changes nothing. -/
theorem stripJpeg_again (bytes : Bytes) : stripJpeg (stripJpeg bytes) = stripJpeg bytes := by
  cases cut : cutOut jpegSegment jpegMetadata id (bytes.drop 2) with
  | none =>
    have same : stripJpeg bytes = bytes := by rw [stripJpeg, cut]
    rw [same, same]
  | some kept =>
    have again : cutOut jpegSegment jpegMetadata id kept = some kept :=
      cutOut_again rfl rfl (fun rest stop => cutOut_stop stop) jpegSegment_keeps cut
    have stripped : stripJpeg bytes = bytes.take 2 ++ kept := by rw [stripJpeg, cut]
    rw [stripped, stripJpeg, drop_take_append_cutOut rfl rfl cut, again]
    exact strip_same rfl rfl cut

/-- Nothing is cut out from a fill byte on. -/
theorem cutOut_fill {rest : Bytes} {fill : Bytes} (clean : Unmarked jpegSegment jpegMetadata fill)
    {kept : Bytes} (cut : cutOut jpegSegment jpegMetadata id rest = some kept)
    (found : (walk jpegSegment rest).find? isFill = some fill) :
    cutOut jpegSegment jpegMetadata id fill = some fill := by
  obtain ⟨left, cutFill, -⟩ := (unmarked_stripped cut).2 fill found
  exact cutOut_unmarked (fun _ _ => jpegSegment_last) (whole_of_cutOut cutFill) clean

/-- All that is not metadata stays, when the stripping loop cuts nothing from a fill byte on. -/
theorem imageContent_stripJpeg {bytes : Bytes} (undisturbed : ¬ Displaced .jpeg bytes) :
    imageContent .jpeg (stripJpeg bytes) = imageContent .jpeg bytes := by
  -- Where the walk does not go through, nothing is cut.
  cases cut : cutOut jpegSegment jpegMetadata id (bytes.drop 2) with
  | none =>
    have same : stripJpeg bytes = bytes := by rw [stripJpeg, cut]
    rw [same]
  -- Otherwise the segments kept stand one after the other behind the first marker.
  | some kept =>
    have stripped : stripJpeg bytes = bytes.take 2 ++ kept := by rw [stripJpeg, cut]
    rw [stripped, imageContent, imageContent, drop_take_append_cutOut rfl rfl cut]
    -- No segment begins with a fill byte, or the walk would be displaced.
    have clean := fun fill => @clean_of_not_displaced bytes undisturbed (whole_of_cutOut cut) fill
    refine pieces_cutOut jpegMarker isFill (fun rest stop => rfl) (fun rest next starts last => ?_)
      (fun rest next starts plain => ?_)
      (fun rest next out starts plain fits rests => ?_) cut fun fill found =>
        cutOut_fill (clean fill found) cut found
    · rw [jpegSegment_last starts] at last
      cases last
    -- A segment that begins plainly is a marker for both walks.
    · have plain' : byte rest 1 ≠ 0xff := of_decide_eq_false plain
      unfold jpegMarker
      rw [if_neg plain', starts]
      unfold jpegSegment at starts
      split at starts
      · cases starts
      next header => rw [if_neg header]
    -- And it is one after the cut as well.
    · rcases rests with ⟨last, -⟩ | ⟨-, cut⟩
      · rw [jpegSegment_last starts] at last
        cases last
      · exact jpegMarker_kept starts (of_decide_eq_false plain) fits cut

/-- A frame header is read from its first nine bytes, and one byte must follow them. -/
theorem sniffJpeg_frame {rest : Bytes} (long : 9 < rest.length) (starts : byte rest 0 = 0xff)
    (frame : isFrame (byte rest 1) = true) :
    sniffJpeg rest = some ⟨.jpeg, u16be rest 7, u16be rest 5⟩ := by
  have notFill : byte rest 1 ≠ 0xff := by
    intro fill
    rw [fill] at frame
    cases frame
  rw [sniffJpeg, if_neg (by omega), if_neg (by omega)]
  simp only [notFill, frame, if_false, if_true]

/-- A frame header is neither a fill byte nor a scan. -/
theorem isFrame_ne {marker : Nat} (frame : isFrame marker = true) :
    marker ≠ 0xff ∧ marker ≠ 0xda := by
  refine ⟨?_, ?_⟩ <;> rintro rfl <;> cases frame

/-- How long a segment that is no scan is. -/
theorem jpegSegment_eq {rest : Bytes} (long : 3 < rest.length) (starts : byte rest 0 = 0xff)
    (notScan : byte rest 1 ≠ 0xda) :
    jpegSegment rest = some ⟨2 + u16be rest 2, false,
      Nat.lt_of_lt_of_le Nat.two_pos (Nat.le_add_right 2 _)⟩ := by
  rw [jpegSegment, if_neg (by omega), if_neg notScan]

/-- Where the stripping loop stops, sniffing finds nothing. -/
theorem sniffJpeg_stop {rest : Bytes} (stop : jpegSegment rest = none) : sniffJpeg rest = none := by
  -- The walk stops at the scan, or where there is no marker, and then nothing is found.
  rw [sniffJpeg]
  split
  · rfl
  · split
    · rfl
    · rename_i short starts
      have scan : byte rest 1 = 0xda := by
        by_contra notScan
        rw [jpegSegment_eq (by omega) (by omega) notScan] at stop
        cases stop
      simp only [scan]
      rfl

/-- Sniffing finds the same frame in what is left. -/
theorem sniffJpeg_cut {rest out : Bytes} {image : SniffedImage}
    (sniffed : sniffJpeg rest = some image)
    (cut : cutOut jpegSegment jpegMetadata id rest = some out)
    (clean : ∀ fill, (walk jpegSegment rest).find? isFill = some fill →
      Unmarked jpegSegment jpegMetadata fill)
    (framed : ∀ frame, (walk jpegSegment rest).find? (fun at' =>
      isFill at' || isFrame (byte at' 1)) = some frame → isFill frame = false →
      9 ≤ untouched jpegSegment jpegMetadata List.length frame
      ∧ 10 ≤ spared jpegSegment jpegMetadata List.length frame) :
    sniffJpeg out = some image := by
  -- By induction on the sniffing loop; up to the first fill byte the stripping loop reads the same
  -- segments.
  fun_induction sniffJpeg rest generalizing out with
  | case1 => cases sniffed
  | case2 => cases sniffed
  | case3 rest short starts marker fill =>
    have scanless : byte rest 1 ≠ 0xda := by
      rw [show byte rest 1 = 0xff from fill]
      decide
    have segment := @jpegSegment_eq rest (by omega) (by omega) scanless
    have found : (walk jpegSegment rest).find? isFill = some rest := by
      rw [walk_piece segment]
      exact List.find?_cons_of_pos (decide_eq_true fill)
    have same := cutOut_fill (clean rest found) cut found
    rw [Option.some.inj (cut.symm.trans same), sniffJpeg, if_neg short, if_neg starts]
    exact (if_pos fill).trans sniffed
  | case4 rest short starts marker notFill =>
    rename_i frame
    have segment := @jpegSegment_eq rest (by omega) (by omega) (isFrame_ne frame).2
    have found : (walk jpegSegment rest).find? (fun at' => isFill at' || isFrame (byte at' 1))
      = some rest := by
      rw [walk_piece segment]
      exact List.find?_cons_of_pos
        (by rw [show isFrame (byte rest 1) = true from frame, Bool.or_true])
    obtain ⟨start, enough⟩ := framed rest found (decide_eq_false notFill)
    obtain ⟨same, -⟩ := take_cutOut (by exact fun rest _ => ⟨rfl, Nat.le_refl _⟩) cut start
    have long : 10 ≤ out.length := (length_cutOut cut).symm ▸ enough
    have out_ := @sniffJpeg_frame out (by omega) (by rw [byte_of_take same (by omega)]; omega)
      (by rw [byte_of_take same (by omega)]; exact frame)
    rw [out_, u16be_of_take same (by omega), u16be_of_take same (by omega)]
    exact sniffed
  | case5 => cases sniffed
  | case6 rest short starts marker notFill notFrame goes =>
    rename_i ih
    have notScan : byte rest 1 ≠ 0xda := fun scan => goes (.inl scan)
    have segment := @jpegSegment_eq rest (by omega) (by omega) notScan
    have fits : 2 + u16be rest 2 ≤ rest.length := ((whole_piece segment).mp (whole_of_cutOut cut)).1
    have isPlain : isFill rest = false := decide_eq_false notFill
    have notFrame' : isFrame (byte rest 1) = false := Bool.eq_false_iff.mpr notFrame
    rw [walk_piece segment] at clean framed
    simp only [Bool.false_eq_true, false_or, Nat.not_lt.mpr fits, if_false] at clean framed
    rw [List.find?_cons_of_neg (by simp [isPlain])] at clean
    rw [List.find?_cons_of_neg (by simp [isPlain, notFrame'])] at framed
    rw [cutOut_piece segment fits] at cut
    simp only [Bool.false_eq_true, if_false] at cut
    obtain ⟨left, later, rfl⟩ := Option.map_eq_some_iff.mp cut
    have inLeft := ih sniffed later clean framed
    cases dropped : jpegMetadata rest with
    | true => simpa using inLeft
    | false =>
      simp only [Bool.false_eq_true, if_false]
      -- A segment too short for its own length would be followed by none, and sniffing would have
      -- ended.
      have long : 4 ≤ 2 + u16be rest 2 := by
        by_contra short'
        rw [sniffJpeg_stop (jpegSegment_short segment (by simpa using short'))] at sniffed
        cases sniffed
      have more : 9 < left.length := by
        by_contra few
        rw [sniffJpeg, if_pos (by omega)] at inLeft
        cases inLeft
      have size : (rest.take (2 + u16be rest 2)).length = 2 + u16be rest 2 :=
        List.length_take_of_le fits
      have same : (rest.take (2 + u16be rest 2) ++ left).take 4 = rest.take 4 := take_kept fits long
      have length : 9 < (rest.take (2 + u16be rest 2) ++ left).length := by
        rw [List.length_append]
        omega
      have next : sniffJpeg (rest.take (2 + u16be rest 2) ++ left) = sniffJpeg left := by
        rw [sniffJpeg, if_neg (by omega), byte_of_take same (show 0 < 4 by omega),
          byte_of_take same (show 1 < 4 by omega),
          u16be_of_take same (show 2 + 1 < 4 by omega), if_neg starts, List.drop_left' size]
        exact (if_neg notFill).trans ((if_neg notFrame).trans (if_neg goes))
      rw [next]
      exact inLeft

/-- When too little of the frame header and what follows it is spared, sniffing finds nothing in
what is left. -/
theorem sniffJpeg_short {rest frame out : Bytes}
    (cut : cutOut jpegSegment jpegMetadata id rest = some out)
    (first : (walk jpegSegment rest).find? (fun at' =>
      isFill at' || isFrame (byte at' 1)) = some frame)
    (few : spared jpegSegment jpegMetadata List.length frame < 10) : sniffJpeg out = none := by
  -- By induction on the segments before the frame header, of which sniffing passes those that are
  -- kept.
  induction rest using pieces_induction jpegSegment generalizing out with
  | stop rest stop =>
    rw [walk_stop stop] at first
    cases first
  | piece rest next starts ih =>
    have fits : next.size ≤ rest.length := ((whole_piece starts).mp (whole_of_cutOut cut)).1
    have more := jpegSegment_last starts
    rw [walk_piece starts] at first
    cases odd : isFill rest || isFrame (byte rest 1) with
    | true =>
      rw [List.find?_cons_of_pos (by exact odd)] at first
      obtain rfl := Option.some.inj first
      have short : out.length < 10 := (length_cutOut cut).symm ▸ few
      rw [sniffJpeg, if_pos (by omega)]
    | false =>
      rw [List.find?_cons_of_neg (by simp [odd]), if_neg (by simp [more, fits])] at first
      rw [cutOut_piece starts fits, if_neg (by simp [more])] at cut
      obtain ⟨left, later, rfl⟩ := Option.map_eq_some_iff.mp cut
      have none_ := ih more fits later first
      cases dropped : jpegMetadata rest with
      | true => simpa using none_
      | false =>
        simp only [Bool.false_eq_true, if_false]
        obtain ⟨read, -⟩ := jpegSegment_kept starts fits later
        have notFill : byte rest 1 ≠ 0xff := fun fill => by
          rw [isFill, fill] at odd
          cases odd
        have notFrame : isFrame (byte rest 1) = false := (Bool.or_eq_false_iff.mp odd).2
        -- A segment of fewer than four bytes is followed by no frame header.
        have long : 4 ≤ next.size := by
          by_contra short
          rw [walk_stop (jpegSegment_short starts (by omega))] at first
          cases first
        have same : (rest.take next.size ++ left).take 4 = rest.take 4 := take_kept fits long
        have size : next.size = 2 + u16be rest 2 := by
          unfold jpegSegment at starts
          split at starts
          · cases starts
          · split at starts
            · cases starts
            · cases starts
              rfl
        rw [sniffJpeg]
        split
        · rfl
        · split
          · rfl
          · simp only [byte_of_take same (show 1 < 4 by omega),
              u16be_of_take same (show 2 + 1 < 4 by omega), notFill,
              notFrame, if_false, Bool.false_eq_true]
            split
            · rfl
            · rw [← size, List.drop_left' (List.length_take_of_le fits)]
              exact none_

/-! ## Reading at the start -/

/-- Bytes that begin alike are alike at the beginning. -/
theorem getElem?_of_take {one two : Bytes} {n i : Nat} (same : one.take n = two.take n)
    (inside : i < n) : one[i]? = two[i]? := by
  have here := congrArg (fun bytes : Bytes => bytes[i]?) same
  simpa only [List.getElem?_take_of_lt inside] using here

/-- A byte is read at its place. -/
theorem byte_congr {one two : Bytes} {i : Nat} (same : one[i]? = two[i]?) :
    byte one i = byte two i := by
  simp only [byte, List.getD_eq_getElem?_getD, same]

/-- A literal is read at its place. -/
theorem ascii_congr {one two : Bytes} {i : Nat} {text : Text}
    (same : ∀ k < text.length, one[i + k]? = two[i + k]?) :
    ascii one i text = ascii two i text := by
  refine Bool.eq_iff_iff.mpr ?_
  simp only [ascii, List.all_eq_true, decide_eq_true_eq]
  refine forall₂_congr fun entry inside => ?_
  have within : entry.2 < text.length := by
    have := List.snd_lt_of_mem_zipIdx inside
    simpa using this
  rw [same entry.2 within]

/-- Bytes that start with a literal start with its first unit. -/
theorem byte_of_ascii {b : Bytes} {first : CodeUnit} {rest : Text}
    (starts : ascii b 0 (first :: rest) = true) : byte b 0 = first.toNat := by
  have here : (b[0]?).map (fun unit : UInt8 => unit.toUInt16) = some first := by
    have := List.all_eq_true.mp starts (first, 0) (by simp)
    simpa using this
  obtain ⟨unit, is, rfl⟩ := Option.map_eq_some_iff.mp here
  simp [byte, List.getD_eq_getElem?_getD, is]

/-- A sniffed image stands on the branch of its type. -/
theorem sniffType_cases {bytes : Bytes} {image : SniffedImage}
    (sniffed : sniffType bytes = some image) :
    (image.mimetype = .png →
      (24 ≤ bytes.length ∧ byte bytes 0 = 0x89 ∧ ascii bytes 1 (lit "PNG\r\n\x1a\n")
        ∧ ascii bytes 12 (lit "IHDR"))
        ∧ image = ⟨.png, u32 bytes 16, u32 bytes 20⟩)
      ∧ (image.mimetype = .webp → 30 ≤ bytes.length ∧ ascii bytes 0 (lit "RIFF")
        ∧ ascii bytes 8 (lit "WEBP"))
      ∧ (image.mimetype = .jpeg → 4 ≤ bytes.length ∧ byte bytes 0 = 0xff ∧ byte bytes 1 = 0xd8
        ∧ sniffJpeg (bytes.drop 2) = some image) := by
  -- The types are tried in the order of the source.
  unfold sniffType at sniffed
  split at sniffed
  next png =>
    obtain rfl := Option.some.inj sniffed
    exact ⟨fun _ => ⟨png, rfl⟩, nofun, nofun⟩
  · split at sniffed
    · obtain rfl := Option.some.inj sniffed
      exact ⟨nofun, nofun, nofun⟩
    · split at sniffed
      next webp =>
        -- Each of the three kinds of frame gives an image of this type.
        have kind : image.mimetype = .webp := by
          split at sniffed
          · obtain rfl := Option.some.inj sniffed
            rfl
          · split at sniffed
            · obtain rfl := Option.some.inj sniffed
              rfl
            · split at sniffed
              · obtain rfl := Option.some.inj sniffed
                rfl
              · cases sniffed
        rw [kind]
        exact ⟨nofun, fun _ => webp, nofun⟩
      · split at sniffed
        next jpeg =>
          rw [sniffJpeg_mimetype sniffed]
          exact ⟨nofun, nofun, fun _ => ⟨jpeg.1, jpeg.2.1, jpeg.2.2, sniffed⟩⟩
        · cases sniffed

/-- Bytes with the two of a JPEG are sniffed as one. -/
theorem sniffType_jpeg {bytes : Bytes} (long : 4 ≤ bytes.length) (first : byte bytes 0 = 0xff)
    (second : byte bytes 1 = 0xd8) :
    sniffType bytes = sniffJpeg (bytes.drop 2) := by
  have other : ∀ {unit : CodeUnit} {rest : Text}, unit.toNat ≠ 0xff →
    ¬ ascii bytes 0 (unit :: rest) = true := fun differs starts =>
    differs ((byte_of_ascii starts).symm.trans first)
  rw [sniffType, if_neg (by omega), if_neg, if_neg, if_pos ⟨long, first, second⟩]
  · exact fun ⟨_, riff, _⟩ => other (by decide) riff
  · exact fun ⟨_, gif⟩ => gif.elim (other (by decide)) (other (by decide))

/-- An image that is sniffed the same is accepted the same. -/
theorem sniffImage_congr {bytes out : Bytes} {image : SniffedImage}
    (accepted : sniffImage bytes = some image) (sniffed : sniffType out = some image) :
    sniffImage out = some image := by
  rw [sniffImage, sniffed]
  obtain ⟨-, sane⟩ := Option.filter_eq_some_iff.mp accepted
  exact Option.filter_eq_some_iff.mpr ⟨rfl, sane⟩

/-! ## PNG -/

/-- What is cut out behind a chunk does not change how it is read. -/
theorem pngChunk_keeps (rest : Bytes) (next : Head) (out : Bytes)
    (starts : pngChunk rest = some next) (fits : next.size ≤ rest.length) :
    pngChunk (rest.take next.size ++ out) = some next
      ∧ pngMetadata (rest.take next.size ++ out) = pngMetadata rest := by
  -- A chunk has eight bytes of header, and twelve bytes with its checksum.
  unfold pngChunk at starts
  split at starts
  · cases starts
  next header =>
    cases starts
    dsimp only at fits ⊢
    -- The header stays, so the chunk has its size and its name.
    have same : (rest.take (12 + u32 rest 0) ++ out).take 12 = rest.take 12 :=
      take_kept fits (Nat.le_add_right 12 _)
    have long : ¬ (rest.take (12 + u32 rest 0) ++ out).length < 12 := by
      rw [List.length_append, List.length_take]
      omega
    unfold pngChunk pngMetadata
    rw [if_neg long]
    simp only [u32_of_take same (show 0 + 3 < 12 by omega),
      fourcc_of_take same (show 4 + 4 ≤ 12 by omega), true_and]

/-- The last chunk is no metadata. -/
theorem pngChunk_last {rest : Bytes} {next : Head} (starts : pngChunk rest = some next)
    (last : next.last = true) : pngMetadata rest = false := by
  unfold pngChunk at starts
  split at starts
  · cases starts
  · cases starts
    rw [pngMetadata, of_decide_eq_true last]
    decide

/-- Stripping a PNG twice changes nothing. -/
theorem stripPng_again (bytes : Bytes) : stripPng (stripPng bytes) = stripPng bytes := by
  cases cut : cutOut pngChunk pngMetadata (fun _ => []) (bytes.drop 8) with
  | none =>
    have same : stripPng bytes = bytes := by rw [stripPng, cut]
    rw [same, same]
  | some kept =>
    have again : cutOut pngChunk pngMetadata (fun _ => []) kept = some kept :=
      cutOut_again rfl rfl (by exact fun _ _ => cutOut_stop rfl)
        (by exact fun rest next out starts fits _ => pngChunk_keeps rest next out starts fits) cut
    have stripped : stripPng bytes = bytes.take 8 ++ kept := by rw [stripPng, cut]
    rw [stripped, stripPng, drop_take_append_cutOut rfl rfl cut, again]
    exact strip_same rfl rfl cut

/-- All chunks of a PNG that are not metadata stay. -/
theorem imageContent_stripPng (bytes : Bytes) :
    imageContent .png (stripPng bytes) = imageContent .png bytes := by
  -- As before: where the walk does not go through, nothing is cut.
  cases cut : cutOut pngChunk pngMetadata (fun _ => []) (bytes.drop 8) with
  | none =>
    have same : stripPng bytes = bytes := by rw [stripPng, cut]
    rw [same]
  | some kept =>
    have stripped : stripPng bytes = bytes.take 8 ++ kept := by rw [stripPng, cut]
    rw [stripped, imageContent, imageContent, drop_take_append_cutOut rfl rfl cut]
    -- A chunk is one in the content too, and there are no fill bytes.
    refine pieces_cutOut pngChunk (fun _ => false) (fun rest stop => ?_)
      (by exact fun rest next starts last => pngChunk_last starts last)
        (fun rest next starts _ => starts)
      (fun rest next out starts _ fits _ => pngChunk_keeps rest next out starts fits) cut
        fun fill found => ?_
    · rw [pieces_stop stop]
      exact pieces_stop rfl
    · rw [List.find?_eq_none.mpr (by simp)] at found
      cases found

/-- The type and size stay, when the header chunk stays up to the size. -/
theorem sniffType_stripPng {bytes : Bytes} {image : SniffedImage}
    (sniffed : sniffType bytes = some image) (kind : image.mimetype = .png)
    (undisturbed : ¬ Displaced .png bytes) : sniffType (stripPng bytes) = some image := by
  -- What the type is read from are the first twenty-four bytes.
  obtain ⟨⟨long, first, name, header⟩, is⟩ := (sniffType_cases sniffed).1 kind
  cases cut : cutOut pngChunk pngMetadata (fun _ => []) (bytes.drop 8) with
  | none =>
    have same : stripPng bytes = bytes := by rw [stripPng, cut]
    rw [same, sniffed]
  | some kept =>
    have stripped : stripPng bytes = bytes.take 8 ++ kept := by rw [stripPng, cut]
    -- They are not cut, because the walk is not displaced.
    obtain ⟨same, enough⟩ := take_cutOut (by exact fun _ _ => ⟨rfl, Nat.le_refl _⟩) cut
      (sized_of_not_displaced undisturbed (whole_of_cutOut cut))
    have front : (bytes.take 8).length = 8 := List.length_take_of_le (by omega)
    have start : (stripPng bytes).take 24 = bytes.take 24 := by
      rw [stripped, List.take_append, front, List.take_take, Nat.min_eq_right (by omega), same,
        ← List.take_add]
    have length : 24 ≤ (stripPng bytes).length := by
      rw [stripped, List.length_append, front]
      omega
    have text : ∀ {i : Nat} {text : Text}, i + text.length ≤ 24 →
      ascii (stripPng bytes) i text = ascii bytes i text := fun within =>
      ascii_congr fun k less => getElem?_of_take start (by omega)
    -- So every field that is read is the one that was there.
    rw [sniffType, byte_of_take start (by omega), text (by decide), text (by decide),
      if_pos ⟨length, first, name, header⟩,
      u32_of_take start (by omega), u32_of_take start (by omega), is]

/-- The type and size stay, when the frame header stays up to the size and a byte follows it. -/
theorem sniffType_stripJpeg {bytes : Bytes} {image : SniffedImage}
    (sniffed : sniffType bytes = some image) (kind : image.mimetype = .jpeg)
    (undisturbed : Undisturbed .jpeg bytes) :
    sniffType (stripJpeg bytes) = some image := by
  -- The type is read from the markers, up to the first frame header.
  obtain ⟨long, first, second, found⟩ := (sniffType_cases sniffed).2.2 kind
  cases cut : cutOut jpegSegment jpegMetadata id (bytes.drop 2) with
  | none =>
    have same : stripJpeg bytes = bytes := by rw [stripJpeg, cut]
    rw [same, sniffed]
  | some kept =>
    have stripped : stripJpeg bytes = bytes.take 2 ++ kept := by rw [stripJpeg, cut]
    obtain ⟨kept_, enough⟩ := undisturbed
    have whole := whole_of_cutOut cut
    -- It is found among what was kept, as enough of it was.
    have inKept :=
      sniffJpeg_cut found cut (fun fill first => clean_of_not_displaced kept_ whole first)
      fun frame first isFrame =>
        ⟨framed_of_not_displaced kept_ whole first isFrame, enough whole frame first isFrame⟩
    have more : 9 < kept.length := by
      by_contra few
      rw [sniffJpeg, if_pos (by omega)] at inKept
      cases inKept
    -- The two bytes in front are those of the file.
    have front : (bytes.take 2).length = 2 := List.length_take_of_le (by omega)
    have start : (stripJpeg bytes).take 2 = bytes.take 2 := by
      rw [stripped, List.take_append, front, List.take_take, Nat.min_self, Nat.sub_self,
        List.take_zero, List.append_nil]
    have left : (stripJpeg bytes).drop 2 = kept := by rw [stripped, List.drop_left' front]
    rw [sniffType_jpeg (by rw [stripped, List.length_append]; omega)
      (by rw [byte_of_take start (by omega), first])
      (by rw [byte_of_take start (by omega), second]), left]
    exact inKept

/-- What is sniffed as it was has a byte after its frame header. -/
theorem sniffable_of_stripJpeg {bytes : Bytes} {image : SniffedImage}
    (kind : image.mimetype = .jpeg) (sniffed : sniffType (stripJpeg bytes) = some image) :
    Sniffable .jpeg bytes := by
  intro whole frame first _
  obtain ⟨kept, cut⟩ := Option.isSome_iff_exists.mp
    ((@cutOut_isSome _ jpegSegment jpegMetadata id (bytes.drop 2)).mpr whole)
  have stripped : stripJpeg bytes = bytes.take 2 ++ kept := by rw [stripJpeg, cut]
  obtain ⟨-, -, -, found⟩ := (sniffType_cases sniffed).2.2 kind
  rw [stripped, drop_take_append_cutOut rfl rfl cut] at found
  by_contra few
  rw [sniffJpeg_short cut first (Nat.lt_of_not_le few)] at found
  cases found

/-! ## WebP -/

/-- What is cut out behind a chunk does not change how it is read. -/
theorem webpChunk_keeps (rest : Bytes) (next : Head) (out : Bytes)
    (starts : webpChunk rest = some next) (fits : next.size ≤ rest.length)
    (rests : next.last = true ∧ out = [] ∨ next.last = false
      ∧ cutOut webpChunk webpMetadata (fun _ => []) (rest.drop next.size) = some out) :
    webpChunk (rest.take next.size ++ out) = some next
      ∧ webpMetadata (rest.take next.size ++ out) = webpMetadata rest := by
  rcases rests with ⟨last, -⟩ | ⟨-, cut⟩
  · rw [webpChunk_last starts] at last
    cases last
  · exact webpChunk_kept starts fits cut

/-- A file with its size written at its fourth byte. -/
def sized (out : Bytes) : Bytes := out.take 4 ++ riffSize out ++ out.drop 8

/-- Stripping cuts the chunks out, and writes the size and the flags. -/
theorem stripWebp_some {bytes kept : Bytes}
    (cut : cutOut webpChunk webpMetadata (fun _ => []) (bytes.drop 12) = some kept) :
    stripWebp bytes = clearFlags (sized (bytes.take 12 ++ kept)) := by
  rw [stripWebp, cut]
  rfl

/-- A WebP whose chunks run past the end stays as it is. -/
theorem stripWebp_none {bytes : Bytes}
    (cut : cutOut webpChunk webpMetadata (fun _ => []) (bytes.drop 12) = none) :
    stripWebp bytes = bytes := by
  rw [stripWebp, cut]

section

variable {out : Bytes}

/-- Writing the size keeps the length. -/
theorem length_sized (long : 8 ≤ out.length) : (sized out).length = out.length := by
  simp only [sized, riffSize, List.length_append, List.length_take, List.length_drop,
    List.length_cons, List.length_nil]
  omega

/-- Only the size field is written. -/
theorem getElem?_sized (long : 8 ≤ out.length) {i : Nat} (elsewhere : i < 4 ∨ 8 ≤ i) :
    (sized out)[i]? = out[i]? := by
  have front : (out.take 4).length = 4 := List.length_take_of_le (by omega)
  have size : (out.take 4 ++ riffSize out).length = 8 := by
    rw [List.length_append, front]
    rfl
  rcases elsewhere with before | after
  · rw [sized, List.append_assoc, List.getElem?_append_left (by omega),
      List.getElem?_take_of_lt before]
  · rw [sized, List.getElem?_append_right (by omega), size, List.getElem?_drop,
      show 8 + (i - 8) = i by omega]

/-- What is behind the size stays when it is written. -/
theorem sized_drop (long : 8 ≤ out.length) {n : Nat} (after : 8 ≤ n) :
    (sized out).drop n = out.drop n := by
  refine List.ext_getElem? fun i => ?_
  rw [List.getElem?_drop, List.getElem?_drop, getElem?_sized long (.inr (by omega))]

/-- Writing the size again changes nothing. -/
theorem sized_again {file : Bytes} (length : file.length = out.length)
    (field : (file.drop 4).take 4 = riffSize out) : sized file = file := by
  have same : riffSize file = riffSize out := by rw [riffSize, riffSize, length]
  rw [sized, same, ← field, ← List.take_add, List.take_append_drop]

/-- Clearing the flags keeps the length. -/
theorem clearFlags_length (out : Bytes) : (clearFlags out).length = out.length := by
  unfold clearFlags
  split
  · rw [List.length_modify]
  · rfl

/-- Only the byte of the flags is changed. -/
theorem getElem?_clearFlags (out : Bytes) {i : Nat} (elsewhere : i ≠ 20) :
    (clearFlags out)[i]? = out[i]? := by
  unfold clearFlags
  split
  · rw [List.getElem?_modify_ne _ _ (Ne.symm elsewhere)]
  · rfl

/-- Flags that are cleared stay so. -/
theorem cleared_again (flags : UInt8) : flags &&& ~~~0x0c &&& ~~~0x0c = flags &&& ~~~0x0c := by
  rw [UInt8.and_assoc, UInt8.and_self]

/-- A byte whose flags are cleared stays so. -/
theorem modify_again (bytes : Bytes) (i : Nat) :
    (bytes.modify i (· &&& ~~~0x0c)).modify i (· &&& ~~~0x0c) = bytes.modify i (· &&& ~~~0x0c) := by
  refine List.ext_getElem? fun j => ?_
  by_cases here : i = j
  · subst here
    simp only [List.getElem?_modify_eq]
    cases bytes[i]? with
    | none => rfl
    | some flags => exact congrArg some (cleared_again flags)
  · simp only [List.getElem?_modify_ne _ _ here]

/-- Up to its first chunk's flags a file is read as it was. -/
theorem fourcc_clearFlags (out : Bytes) : fourcc (clearFlags out) 12 = fourcc out 12 := by
  have start : (clearFlags out).take 16 = out.take 16 := by
    refine List.ext_getElem? fun i => ?_
    rw [List.getElem?_take, List.getElem?_take]
    split
    · exact getElem?_clearFlags out (by omega)
    · rfl
  exact fourcc_of_take start (by omega)

/-- Clearing the flags twice changes nothing. -/
theorem clearFlags_again (out : Bytes) : clearFlags (clearFlags out) = clearFlags out := by
  have same := fourcc_clearFlags out
  by_cases extended : fourcc out 12 = lit "VP8X"
  · have once : clearFlags out = out.modify 20 (· &&& ~~~0x0c) := if_pos extended
    rw [clearFlags, if_pos (same.trans extended), once, modify_again]
  · rw [clearFlags, if_neg (same ▸ extended)]

end

/-- What was cut already is left as it is when the flags of its first chunk are cleared. -/
theorem cutOut_modify {kept : Bytes}
    (cut : cutOut webpChunk webpMetadata (fun _ => []) kept = some kept)
    (free : Unmarked webpChunk webpMetadata kept) :
    cutOut webpChunk webpMetadata (fun _ => [])
      (kept.modify 8 (· &&& ~~~0x0c)) = some (kept.modify 8 (· &&& ~~~0x0c)) := by
  -- A chunk that is kept is followed by what is kept of the rest.
  have step : ∀ {rest : Bytes} {next : Head}, webpChunk rest = some next →
    next.size ≤ rest.length → webpMetadata rest = false →
      (cutOut webpChunk webpMetadata (fun _ => []) rest = some rest
        ↔ cutOut webpChunk webpMetadata (fun _ => [])
          (rest.drop next.size) = some (rest.drop next.size)) := by
    intro rest next starts fits plain
    rw [cutOut_piece starts fits, webpChunk_last starts]
    simp only [plain, Bool.false_eq_true, if_false, Option.map_eq_some_iff]
    constructor
    · rintro ⟨left, later, whole⟩
      rw [later, ← List.append_cancel_left
        (whole.trans (List.take_append_drop next.size rest).symm)]
    · exact fun later => ⟨_, later, List.take_append_drop _ _⟩
  have start : (kept.modify 8 (· &&& ~~~0x0c)).take 8 = kept.take 8 := by
    rw [List.take_modify, List.modify_eq_self (by rw [List.length_take]; omega)]
  have same : webpChunk (kept.modify 8 (· &&& ~~~0x0c)) = webpChunk kept :=
    webpChunk_congr (List.length_modify ..) (u32le_of_take start (by omega))
  have free' := unmarked_modify free
  cases starts : webpChunk kept with
  | none =>
    rw [cutOut_stop starts, Option.some.injEq] at cut
    rw [← cut]
    exact cutOut_stop webpChunk_nil
  | some next =>
    have fits : next.size ≤ kept.length := ((whole_piece starts).mp (whole_of_cutOut cut)).1
    have fits' : next.size ≤ (kept.modify 8 (· &&& ~~~0x0c)).length := by rwa [List.length_modify]
    have goes : ¬ (next.last = true ∨ kept.length < next.size) := by
      rw [webpChunk_last starts]
      simpa using fits
    have goes' : ¬ (next.last = true ∨ (kept.modify 8 (· &&& ~~~0x0c)).length < next.size) := by
      rwa [List.length_modify]
    unfold Unmarked at free free'
    rw [walk_piece starts, List.forall_mem_cons, if_neg goes] at free
    rw [walk_piece (same.trans starts), List.forall_mem_cons, if_neg goes'] at free'
    rw [step (same.trans starts) fits' free'.1]
    have later := (step starts fits free.1).mp cut
    by_cases data : 8 < next.size
    · rw [List.drop_modify_of_lt _ _ _ _ data]
      exact later
    · have eight : next.size = 8 := by
        have := webpChunk_size starts
        omega
      -- The byte is the first one of the next chunk, and no chunk of metadata comes of it.
      rw [eight] at later free free'
      rw [List.drop_modify_of_ge _ _ _ _ (Nat.le_refl 8), Nat.sub_self] at free'
      rw [eight, List.drop_modify_of_ge _ _ _ _ (Nat.le_refl 8), Nat.sub_self]
      cases rest : kept.drop 8 with
      | nil => exact cutOut_stop webpChunk_nil
      | cons first others =>
        rw [rest] at later free free'
        rw [List.modify_zero_cons] at free' ⊢
        have same' : webpChunk ((first &&& ~~~0x0c) :: others) = webpChunk (first :: others) :=
          webpChunk_congr rfl rfl
        cases starts' : webpChunk (first :: others) with
        | none =>
          rw [cutOut_stop starts'] at later
          cases later
        | some next' =>
          have fits'' : next'.size ≤ (first :: others).length :=
            ((whole_piece starts').mp (whole_of_cutOut later)).1
          obtain ⟨size, more⟩ := Nat.exists_eq_succ_of_ne_zero next'.positive.ne'
          rw [walk_piece starts', List.forall_mem_cons] at free
          rw [walk_piece (same'.trans starts'), List.forall_mem_cons] at free'
          have last := (step starts' fits'' free.2.1).mp later
          rw [step (same'.trans starts') fits'' free'.2.1]
          rw [more, List.drop_succ_cons] at last ⊢
          exact last

section

variable {bytes kept : Bytes}

/-- What the chunks of a stripped file are: the kept ones, and the first without its flags. -/
theorem drop_stripWebp (long : 12 ≤ bytes.length)
    (cut : cutOut webpChunk webpMetadata (fun _ => []) (bytes.drop 12) = some kept) :
    (stripWebp bytes).drop 12
      = if fourcc (bytes.take 12 ++ kept) 12 = lit "VP8X" then kept.modify 8 (· &&& ~~~0x0c)
        else kept := by
  have front : (bytes.take 12).length = 12 := List.length_take_of_le long
  have enough : 8 ≤ (bytes.take 12 ++ kept).length := by
    rw [List.length_append]
    omega
  have left :
    (sized (bytes.take 12 ++ kept)).drop 12
    = kept := by rw [sized_drop enough (by omega), List.drop_left' front]
  have same : fourcc (sized (bytes.take 12 ++ kept)) 12 = fourcc (bytes.take 12 ++ kept) 12 := by
    rw [fourcc, fourcc, sized_drop enough (by omega)]
  rw [stripWebp_some cut, clearFlags, same]
  split
  · rw [List.drop_modify_of_ge _ _ _ _ (by omega), left]
  · exact left

/-- No chunk that is kept is metadata. -/
theorem unmarked_kept
    (cut : cutOut webpChunk webpMetadata (fun _ => []) (bytes.drop 12) = some kept) :
    Unmarked webpChunk webpMetadata kept :=
  unmarked_of_cutOut webpChunk_nil (fun _ _ => webpChunk_nil) webpChunk_keeps cut

/-- From the chunks that are kept nothing is cut. -/
theorem again_kept (cut : cutOut webpChunk webpMetadata (fun _ => []) (bytes.drop 12) = some kept) :
    cutOut webpChunk webpMetadata (fun _ => []) kept = some kept :=
  cutOut_again webpChunk_nil rfl (by exact fun _ _ => cutOut_stop webpChunk_nil)
    (by exact webpChunk_keeps) cut

/-- Stripping a WebP twice changes nothing. -/
theorem stripWebp_again (long : 12 ≤ bytes.length) :
    stripWebp (stripWebp bytes) = stripWebp bytes := by
  -- Nothing is cut, or the chunks that are kept are kept again.
  cases cut : cutOut webpChunk webpMetadata (fun _ => []) (bytes.drop 12) with
  | none => rw [stripWebp_none cut, stripWebp_none cut]
  | some kept =>
    have again := again_kept cut
    -- What stands behind the header are those chunks, with the flags cleared.
    have chunks : cutOut webpChunk webpMetadata (fun _ => [])
      ((stripWebp bytes).drop 12) = some ((stripWebp bytes).drop 12) := by
      rw [drop_stripWebp long cut]
      split
      · exact cutOut_modify again (unmarked_kept cut)
      · exact again
    have enough : 8 ≤ (bytes.take 12 ++ kept).length := by
      rw [List.length_append, List.length_take_of_le long]
      omega
    have stripped := stripWebp_some cut
    -- The size in the header is that of the shorter file already.
    have field : ((stripWebp bytes).drop 4).take 4 = riffSize (bytes.take 12 ++ kept) := by
      have front : ((bytes.take 12 ++ kept).take 4).length = 4 := List.length_take_of_le (by omega)
      rw [stripped]
      have same : ((clearFlags (sized (bytes.take 12 ++ kept))).drop 4).take 4
        = ((sized (bytes.take 12 ++ kept)).drop 4).take 4 := by
        refine List.ext_getElem? fun i => ?_
        rw [List.getElem?_take, List.getElem?_take]
        split
        · rw [List.getElem?_drop, List.getElem?_drop, getElem?_clearFlags _ (by omega)]
        · rfl
      rw [same, sized, List.append_assoc, List.drop_left' front]
      rfl
    -- So the second pass writes the same size and clears the same flags.
    have length :
      (stripWebp bytes).length = (bytes.take 12 ++ kept).length := by
      rw [stripped, clearFlags_length, length_sized enough]
    rw [stripWebp_some chunks, List.take_append_drop, sized_again length field, stripped]
    exact clearFlags_again _

/-- The first chunk of an accepted file, and whether it carries flags. -/
theorem fourcc_kept {n : Nat} (long : 12 ≤ bytes.length)
    (same : kept.take n = (bytes.drop 12).take n) {i : Nat} (within : i + 4 ≤ 12 + n) :
    fourcc (bytes.take 12 ++ kept) i = fourcc bytes i := by
  have front : (bytes.take 12).length = 12 := List.length_take_of_le long
  refine @fourcc_of_take _ _ (12 + n) i ?_ within
  rw [List.take_append, front, List.take_take, Nat.min_eq_right (by omega),
    Nat.add_sub_cancel_left, same, ← List.take_add]

/-- A byte has no flags when they are cleared. -/
theorem flagless (flags : UInt8) : (flags &&& ~~~0x0c).toNat &&& 0x0c = 0 := by
  have each : ∀ n < 256, (UInt8.ofNat n &&& ~~~0x0c).toNat &&& 0x0c = 0 := by decide +kernel
  have own := each flags.toNat flags.toNat_lt
  rwa [UInt8.ofNat_toNat] at own

/-- A byte without the flags is not changed when they are cleared. -/
theorem clear_of_clear (flags : UInt8) (clear : flags.toNat &&& 0x0c = 0) :
    flags &&& ~~~0x0c = flags := by
  have each : ∀ n < 256, n &&& 0x0c = 0 →
    UInt8.ofNat n &&& ~~~0x0c = UInt8.ofNat n := by decide +kernel
  have own := each flags.toNat flags.toNat_lt clear
  rwa [UInt8.ofNat_toNat] at own

/-- Clearing the flags of the first chunk is clearing flags, unless it ends before them. -/
theorem modifyHead_unflagged (kind : fourcc kept 0 = lit "VP8X") (long : 8 < kept.length)
    (whole : Whole webpChunk kept) (clear : u32le kept 4 = 0 → byte kept 8 &&& 0x0c = 0) :
    (pieces webpChunk webpMetadata (fun _ => [])
      (kept.modify 8 (· &&& ~~~0x0c))).modifyHead unflagged
      = (pieces webpChunk webpMetadata (fun _ => []) kept).modifyHead unflagged := by
  -- The first chunk keeps its size, since the flags stand behind it.
  have starts :
    webpChunk kept = some ⟨webpChunkSize kept, false, webpChunkSize_pos (by omega)⟩ := by
    rw [webpChunk, dif_pos (by omega)]
  have fits : webpChunkSize kept ≤ kept.length := ((whole_piece starts).mp whole).1
  have start : (kept.modify 8 (· &&& ~~~0x0c)).take 8 = kept.take 8 := by
    rw [List.take_modify, List.modify_eq_self (by rw [List.length_take]; omega)]
  have starts' : webpChunk (kept.modify 8 (· &&& ~~~0x0c)) = some ⟨webpChunkSize kept, false,
    webpChunkSize_pos (by omega)⟩ :=
    (webpChunk_congr (List.length_modify ..) (u32le_of_take start (by omega))).trans starts
  have fits' :
    webpChunkSize kept ≤ (kept.modify 8 (· &&& ~~~0x0c)).length := by rwa [List.length_modify]
  have kind' :
    fourcc (kept.modify 8 (· &&& ~~~0x0c)) 0
    = lit "VP8X" := by rw [fourcc_of_take start (by omega), kind]
  -- It is no metadata.
  have plain : ∀ {chunk : Bytes}, fourcc chunk 0 = lit "VP8X" → webpMetadata chunk = false :=
    fun is => by
    rw [webpMetadata, is]
    decide
  -- The flags stand in the chunk: they are cleared on both sides.
  by_cases data : 8 < webpChunkSize kept
  · rw [pieces_piece starts fits, pieces_piece starts' fits', plain kind, plain kind',
      List.take_modify, List.drop_modify_of_lt _ _ _ _ data]
    simp only [Bool.false_eq_true, if_false, List.cons_append, List.nil_append,
      List.modifyHead_cons]
    have front : fourcc (kept.take (webpChunkSize kept)) 0 = lit "VP8X" := by
      rw [← kind]
      exact fourcc_of_take (by rw [List.take_take, Nat.min_eq_left (Nat.le_of_lt data)])
        (show 0 + 4 ≤ 8 by omega)
    have front' :
      fourcc ((kept.take (webpChunkSize kept)).modify 8 (· &&& ~~~0x0c)) 0 = lit "VP8X" := by
      rw [← front]
      refine fourcc_of_take ?_ (show 0 + 4 ≤ 8 by omega)
      rw [List.take_modify, List.modify_eq_self (by rw [List.length_take]; omega)]
    rw [unflagged, unflagged, if_pos front, if_pos front', modify_again]
  -- The chunk is empty, so the byte behind it is one of the next, which is clear already.
  · have empty : u32le kept 4 = 0 := by
      unfold webpChunkSize at data fits
      dsimp only at data fits
      split at data
      · omega
      · omega
    have flags := clear empty
    have same : kept.modify 8 (· &&& ~~~0x0c) = kept := by
      refine List.ext_getElem? fun i => ?_
      by_cases here : 8 = i
      · subst here
        rw [List.getElem?_modify_eq]
        cases is : kept[8]? with
        | none => rfl
        | some unit =>
          rw [byte, List.getD_eq_getElem?_getD, is, Option.getD_some] at flags
          exact congrArg some (clear_of_clear unit flags)
      · rw [List.getElem?_modify_ne _ _ here]
    rw [same]

/-- What is left of a WebP has the chunks that are not metadata. -/
theorem pieces_kept
    (cut : cutOut webpChunk webpMetadata (fun _ => []) (bytes.drop 12) = some kept) :
    pieces webpChunk webpMetadata (fun _ => []) kept
      = pieces webpChunk webpMetadata (fun _ => []) (bytes.drop 12) := by
  refine pieces_cutOut webpChunk (fun _ => false) (fun rest stop => ?_)
    (fun rest next starts last => ?_)
    (fun rest next starts _ => starts)
    (fun rest next out starts _ fits rests => webpChunk_keeps rest next out starts fits rests) cut
      fun fill found => ?_
  · rw [pieces_stop stop]
    exact pieces_stop webpChunk_nil
  · rw [webpChunk_last starts] at last
    cases last
  · rw [List.find?_eq_none.mpr (by simp)] at found
    cases found

/-- A code of four letters that stands somewhere is the code that is read there. -/
theorem fourcc_of_ascii {b : Bytes} {i : Nat} {text : Text} (four : text.length = 4)
    (is : ascii b i text = true) :
    fourcc b i = text := by
  refine List.ext_getElem? fun k => ?_
  rw [fourcc, List.getElem?_map, List.getElem?_take]
  split
  next within =>
    have here := List.all_eq_true.mp is (text[k], k)
      (List.mem_zipIdx_iff_getElem?.mpr (List.getElem?_eq_getElem _))
    rw [List.getElem?_drop, of_decide_eq_true here, List.getElem?_eq_getElem]
  next past => rw [Option.map_none, List.getElem?_eq_none (by omega)]

/-- The size of an extended WebP is read from its first 30 bytes. -/
theorem sizeBytes_extended (extended : fourcc bytes 12 = lit "VP8X") : sizeBytes bytes = 18 := by
  refine if_neg fun lossless => ?_
  rw [fourcc_of_ascii (by decide) lossless] at extended
  exact absurd extended (by decide)

/-- The size is read from thirteen bytes at least. -/
theorem sizeBytes_le (bytes : Bytes) : 13 ≤ sizeBytes bytes := by
  unfold sizeBytes
  split <;> omega

/-- A byte of what is left is the file's own, as far as nothing is cut. -/
theorem byte_kept {n : Nat} (same : kept.take n = (bytes.drop 12).take n) {i : Nat}
    (within : i < n) :
    byte kept i = byte bytes (12 + i) := by
  rw [byte_of_take same within, byte, byte, List.getD_eq_getElem?_getD, List.getD_eq_getElem?_getD,
    List.getElem?_drop]

/-- A chunk without data is its header. -/
theorem webpChunkSize_empty {rest : Bytes} (header : 8 ≤ rest.length) (empty : u32le rest 4 = 0) :
    webpChunkSize rest = 8 := by
  rw [webpChunkSize, empty]
  simp only [Nat.zero_and, Nat.add_zero]
  split <;> omega

/-- Chunks of which none is metadata, one at a time. -/
theorem webpPieces_cons {rest : Bytes} (header : 8 ≤ rest.length) (whole : Whole webpChunk rest)
    (free : Unmarked webpChunk webpMetadata rest) :
    pieces webpChunk webpMetadata (fun _ => []) rest
        = rest.take (webpChunkSize rest) :: pieces webpChunk webpMetadata (fun _ => [])
          (rest.drop (webpChunkSize rest))
      ∧ Whole webpChunk (rest.drop (webpChunkSize rest))
      ∧ Unmarked webpChunk webpMetadata (rest.drop (webpChunkSize rest)) := by
  have starts : webpChunk rest = some ⟨webpChunkSize rest, false, webpChunkSize_pos header⟩ := by
    rw [webpChunk, dif_pos header]
  obtain ⟨fits, later⟩ := (whole_piece starts).mp whole
  obtain ⟨plain, rests⟩ := (unmarked_piece starts fits).mp free
  refine ⟨?_, later rfl, rests rfl⟩
  rw [pieces_piece starts fits, plain]
  rfl

section

variable (cut : cutOut webpChunk webpMetadata (fun _ => []) (bytes.drop 12) = some kept)
  (start : kept.take 18 = (bytes.drop 12).take 18)

include start

/-- What is left of an extended WebP starts with the chunk that says so. -/
theorem extended_kept (extended : fourcc bytes 12 = lit "VP8X") : fourcc kept 0 = lit "VP8X" := by
  rw [← extended, fourcc_of_take start (show 0 + 4 ≤ 18 by omega), fourcc, fourcc, List.drop_drop]

/-- The first chunk keeps the size that it states. -/
theorem u32le_kept : u32le kept 4 = u32le bytes 16 := by
  simp only [u32le, u16le, byte_kept start (show 4 < 18 by omega),
    byte_kept start (show 4 + 1 < 18 by omega),
    byte_kept start (show 4 + 2 < 18 by omega), byte_kept start (show 4 + 2 + 1 < 18 by omega)]

include cut

/-- When the flags of an empty first chunk are cleared in the chunk after it, that chunk is another
one. -/
theorem flags_of_content (long : 18 ≤ kept.length) (empty : u32le bytes 16 = 0)
    (content : (pieces webpChunk webpMetadata (fun _ => [])
      (kept.modify 8 (· &&& ~~~0x0c))).modifyHead unflagged
      = (pieces webpChunk webpMetadata (fun _ => []) kept).modifyHead unflagged) :
    byte bytes 20 &&& 0x0c = 0 := by
  have again := again_kept cut
  have free := unmarked_kept cut
  have front : (kept.modify 8 (· &&& ~~~0x0c)).take 8 = kept.take 8 := by
    rw [List.take_modify, List.modify_eq_self (by rw [List.length_take]; omega)]
  have length : (kept.modify 8 (· &&& ~~~0x0c)).length = kept.length := List.length_modify ..
  -- The first chunk is its header alone.
  have eight : webpChunkSize kept = 8 :=
    webpChunkSize_empty (by omega) ((u32le_kept start).trans empty)
  have eight' : webpChunkSize (kept.modify 8 (· &&& ~~~0x0c)) = 8 :=
    webpChunkSize_empty (by omega)
      ((u32le_of_take front (by omega)).trans ((u32le_kept start).trans empty))
  obtain ⟨chunks, whole, free₂⟩ :=
    webpPieces_cons (show 8 ≤ kept.length by omega) (whole_of_cutOut again) free
  obtain ⟨chunks', whole', free₂'⟩ :=
    webpPieces_cons (show 8 ≤ (kept.modify 8 (· &&& ~~~0x0c)).length by omega)
    (whole_of_cutOut (cutOut_modify again free)) (unmarked_modify free)
  rw [chunks, chunks', List.modifyHead_cons, List.modifyHead_cons] at content
  have rests := (List.cons.inj content).2
  rw [eight, eight', List.drop_modify_of_ge _ _ _ _ (Nat.le_refl 8), Nat.sub_self] at rests
  rw [eight] at whole free₂
  rw [eight', List.drop_modify_of_ge _ _ _ _ (Nat.le_refl 8), Nat.sub_self] at whole' free₂'
  -- The second chunk has the byte in which the flags are cleared.
  have here : kept[8]? = some kept[8] := List.getElem?_eq_getElem _
  have rest : kept.drop 8 = kept[8] :: kept.drop 9 := List.drop_eq_getElem_cons (by omega)
  rw [rest] at rests whole free₂ whole' free₂'
  rw [List.modify_zero_cons] at rests whole' free₂'
  have more : ∀ first : UInt8, 8 ≤ (first :: kept.drop 9).length := fun _ => by
    rw [List.length_cons, List.length_drop]
    omega
  rw [(webpPieces_cons (more _) whole free₂).1, (webpPieces_cons (more _) whole' free₂').1] at rests
  -- It is the same with and without the flags, so that there were none in it.
  obtain ⟨size, positive⟩ := Nat.exists_eq_succ_of_ne_zero (webpChunkSize_pos (more kept[8])).ne'
  obtain ⟨size', positive'⟩ :=
    Nat.exists_eq_succ_of_ne_zero (webpChunkSize_pos (more (kept[8] &&& ~~~0x0c))).ne'
  rw [positive, positive', List.take_succ_cons, List.take_succ_cons] at rests
  have clear : kept[8] &&& (~~~0x0c : UInt8) = kept[8] := (List.cons.inj (List.cons.inj rests).1).1
  rw [show 20 = 12 + 8 from rfl, ← byte_kept start (show 8 < 18 by omega), byte,
    List.getD_eq_getElem?_getD, here,
    Option.getD_some, ← clear]
  exact flagless kept[8]

end

/-- All that is not metadata stays, when the flags that are cleared are flags. -/
theorem imageContent_stripWebp (long : 12 ≤ bytes.length) (undisturbed : Undisturbed .webp bytes) :
    imageContent .webp (stripWebp bytes) = imageContent .webp bytes := by
  cases cut : cutOut webpChunk webpMetadata (fun _ => []) (bytes.drop 12) with
  | none => rw [stripWebp_none cut]
  | some kept =>
    -- The first bytes of the chunks are kept, as many as the type is read from.
    have whole := whole_of_cutOut cut
    obtain ⟨same, -⟩ :=
      take_cutOut (by exact fun _ _ => ⟨rfl, Nat.le_refl _⟩) cut
      (chunked_of_not_displaced undisturbed.1 whole)
    obtain ⟨enough, flags⟩ := undisturbed.2 whole
    have length : 18 ≤ kept.length := (length_cutOut cut).symm ▸ enough
    have least := sizeBytes_le bytes
    -- The content of both files are the chunks kept, where only the flags may differ.
    rw [imageContent, imageContent, ← pieces_kept cut, drop_stripWebp long cut,
      fourcc_kept long same (by omega)]
    split
    next extended =>
      rw [sizeBytes_extended extended] at same
      refine modifyHead_unflagged (extended_kept same extended) (by omega)
        (whole_of_cutOut (again_kept cut)) fun empty => ?_
      rw [byte_kept same (show 8 < 18 by omega)]
      exact flags extended ((u32le_kept same).symm.trans empty)
    next => rfl

/-- How a WebP is sniffed. -/
theorem sniffType_webp {b : Bytes} (long : 30 ≤ b.length) (riff : ascii b 0 (lit "RIFF") = true)
    (webp : ascii b 8 (lit "WEBP") = true) :
    sniffType b = if ascii b 12 (lit "VP8 ")
      then some ⟨.webp, u16le b 26 &&& 0x3fff, u16le b 28 &&& 0x3fff⟩
      else if ascii b 12 (lit "VP8L") then
        some ⟨.webp, 1 + ((byte b 22 &&& 0x3f) <<< 8 ||| byte b 21),
          1 + ((byte b 24 &&& 0x0f) <<< 10 ||| byte b 23 <<< 2 ||| (byte b 22 &&& 0xc0) >>> 6)⟩
      else if ascii b 12 (lit "VP8X") then some ⟨.webp, 1 + u24le b 24, 1 + u24le b 27⟩
      else none := by
  have first : byte b 0 = 82 := byte_of_ascii riff
  have other : ∀ {unit : CodeUnit} {rest : Text}, unit.toNat ≠ 82 →
    ¬ ascii b 0 (unit :: rest) = true := fun differs starts =>
    differs ((byte_of_ascii starts).symm.trans first)
  rw [sniffType, if_neg (by omega), if_neg fun ⟨_, gif⟩ =>
    gif.elim (other (by decide)) (other (by decide)), if_pos ⟨long, riff, webp⟩]

/-- The type and size stay, when the chunks stay up to the size and 30 bytes are left. -/
theorem sniffType_stripWebp {image : SniffedImage} (sniffed : sniffType bytes = some image)
    (kind : image.mimetype = .webp) (undisturbed : Undisturbed .webp bytes) :
    sniffType (stripWebp bytes) = some image := by
  obtain ⟨long, riff, webp⟩ := (sniffType_cases sniffed).2.1 kind
  cases cut : cutOut webpChunk webpMetadata (fun _ => []) (bytes.drop 12) with
  | none => rw [stripWebp_none cut, sniffed]
  | some kept =>
    have whole := whole_of_cutOut cut
    have start := chunked_of_not_displaced undisturbed.1 whole
    obtain ⟨same, -⟩ := take_cutOut (by exact fun _ _ => ⟨rfl, Nat.le_refl _⟩) cut start
    have enough : 18 ≤ kept.length := (length_cutOut cut).symm ▸ (undisturbed.2 whole).1
    have front : (bytes.take 12).length = 12 := List.length_take_of_le (by omega)
    have eight : 8 ≤ (bytes.take 12 ++ kept).length := by
      rw [List.length_append]
      omega
    have whole :
      (bytes.take 12 ++ kept).take (12 + sizeBytes bytes) = bytes.take (12 + sizeBytes bytes) := by
      rw [List.take_append, front, List.take_take, Nat.min_eq_right (by omega),
        Nat.add_sub_cancel_left, same, ← List.take_add]
    -- Only the size field and the flags are written, and sniffing reads neither.
    have read : ∀ {i : Nat}, i < 12 + sizeBytes bytes → (i < 4 ∨ 8 ≤ i) → i ≠ 20 →
      (stripWebp bytes)[i]? = bytes[i]? :=
      fun less elsewhere notFlags => by
        rw [stripWebp_some cut, getElem?_clearFlags _ notFlags, getElem?_sized eight elsewhere,
          getElem?_of_take whole less]
    have length : 30 ≤ (stripWebp bytes).length := by
      rw [stripWebp_some cut, clearFlags_length, length_sized eight, List.length_append]
      omega
    have one : ∀ {i : Nat}, i < 12 + sizeBytes bytes → 21 ≤ i →
      byte (stripWebp bytes) i = byte bytes i := fun less after =>
      byte_congr (read less (.inr (by omega)) (by omega))
    have least := sizeBytes_le bytes
    have text : ∀ {i : Nat} {text : Text}, i + text.length ≤ 16 → (i + text.length ≤ 4 ∨ 8 ≤ i) →
        ascii (stripWebp bytes) i text = ascii bytes i text := fun within elsewhere =>
      ascii_congr fun k less => read (by omega) (by omega) (by omega)
    rw [sniffType_webp length (by rw [text (by decide) (by decide), riff])
      (by rw [text (by decide) (by decide), webp])]
    rw [sniffType_webp long riff webp] at sniffed
    rw [text (by decide) (by decide), text (by decide) (by decide), text (by decide) (by decide)]
    by_cases lossless : ascii bytes 12 (lit "VP8L") = true
    · -- The size of a lossless image is read from its 22nd to its 25th byte.
      have thirteen : sizeBytes bytes = 13 := if_pos lossless
      have lossy : ¬ ascii bytes 12 (lit "VP8 ") = true := fun lossy => by
        have both :=
          (fourcc_of_ascii (by decide) lossy).symm.trans (fourcc_of_ascii (by decide) lossless)
        exact absurd both (by decide)
      rw [if_neg lossy, if_pos lossless] at sniffed ⊢
      rw [one (show 21 < _ by omega) (by omega), one (show 22 < _ by omega) (by omega),
        one (show 23 < _ by omega) (by omega),
        one (show 24 < _ by omega) (by omega)]
      exact sniffed
    · have eighteen : sizeBytes bytes = 18 := if_neg lossless
      rw [if_neg lossless] at sniffed ⊢
      simp only [u16le, u24le, one (show 24 < _ by omega) (by omega),
        one (show 24 + 1 < _ by omega) (by omega),
        one (show 24 + 2 < _ by omega) (by omega), one (show 26 + 1 < _ by omega) (by omega),
        one (show 27 + 1 < _ by omega) (by omega), one (show 27 + 2 < _ by omega) (by omega)]
      simpa only [u16le, u24le] using sniffed

/-- What is sniffed as it was has 30 bytes, and what holds the same has the flags cleared that are
flags. -/
theorem sniffable_of_stripWebp {image : SniffedImage} (long : 12 ≤ bytes.length)
    (kind : image.mimetype = .webp) (kept_ : ¬ Displaced .webp bytes)
    (sniffed : sniffType (stripWebp bytes) = some image)
    (content : imageContent .webp (stripWebp bytes) = imageContent .webp bytes) :
    Sniffable .webp bytes := by
  intro whole
  -- The walk goes through, so its first bytes can be compared.
  obtain ⟨kept, cut⟩ := Option.isSome_iff_exists.mp
    ((@cutOut_isSome _ webpChunk webpMetadata (fun _ => []) (bytes.drop 12)).mpr whole)
  obtain ⟨same, -⟩ :=
    take_cutOut (by exact fun _ _ => ⟨rfl, Nat.le_refl _⟩) cut
    (chunked_of_not_displaced kept_ whole)
  obtain ⟨enough, -, -⟩ := (sniffType_cases sniffed).2.1 kind
  have front : (bytes.take 12).length = 12 := List.length_take_of_le long
  -- The image was sniffed in the shorter file, so it has enough bytes.
  have length : 18 ≤ kept.length := by
    rw [stripWebp_some cut, clearFlags_length, length_sized (by rw [List.length_append]; omega),
      List.length_append, front] at enough
    omega
  refine ⟨(length_cutOut cut) ▸ length, fun extended empty => ?_⟩
  rw [sizeBytes_extended extended] at same
  have least := sizeBytes_extended extended
  -- The content is the same, and so the byte of the flags was clear.
  rw [imageContent, imageContent, ← pieces_kept cut, drop_stripWebp long cut,
    fourcc_kept long same (by omega), if_pos extended] at content
  exact flags_of_content cut same length empty content

end

/-! ## Accepted images -/

/-- An image that is accepted was sniffed. -/
theorem sniffImage_of_check {bytes : Bytes} {image : SniffedImage}
    (accepted : checkImage bytes = .ok image) : sniffImage bytes = some image := by
  unfold checkImage at accepted
  split at accepted
  · cases accepted
  · split at accepted
    · cases accepted
    · split at accepted
      next found sane =>
        cases accepted
        exact sane
      next => cases accepted

/-- The stripped image has the same type and size, and all that is not metadata. -/
def Preserved (image : SniffedImage) (bytes : Bytes) : Prop :=
  sniffImage (stripImageMetadata bytes image.mimetype) = some image
    ∧ imageContent image.mimetype (stripImageMetadata bytes image.mimetype)
      = imageContent image.mimetype bytes

/-- An accepted image that is stripped twice is as it is after the first time. When no byte that
sniffing reads is moved or left out and nothing is cut from a fill byte on, it has the same type and
size and all that is not metadata exactly when enough is spared for it to be sniffed and the flags
that are cleared are flags. -/
theorem strip_preserves {bytes : Bytes} {image : SniffedImage}
    (accepted : checkImage bytes = .ok image) :
    stripImageMetadata (stripImageMetadata bytes image.mimetype) image.mimetype
      = stripImageMetadata bytes image.mimetype
      ∧ (Undisturbed image.mimetype bytes → Preserved image bytes)
      ∧ (Preserved image bytes → Undisturbed image.mimetype bytes
        ∨ Displaced image.mimetype bytes) := by
  have found := sniffImage_of_check accepted
  have sniffed : sniffType bytes = some image := (Option.filter_eq_some_iff.mp found).1
  have either : (¬ Displaced image.mimetype bytes → Sniffable image.mimetype bytes) →
      Undisturbed image.mimetype bytes ∨ Displaced image.mimetype bytes := fun enough => by
    by_cases displaced : Displaced image.mimetype bytes
    · exact .inr displaced
    · exact .inl ⟨displaced, enough displaced⟩
  have sniffed' : Preserved image bytes →
    sniffType (stripImageMetadata bytes image.mimetype) = some image :=
    fun preserved => (Option.filter_eq_some_iff.mp preserved.1).1
  -- Each type has its own loop.
  unfold Preserved at sniffed' ⊢
  cases kind : image.mimetype with
  | jpeg =>
    rw [kind] at either sniffed'
    exact ⟨stripJpeg_again bytes,
      fun undisturbed => ⟨sniffImage_congr found (sniffType_stripJpeg sniffed kind undisturbed),
        imageContent_stripJpeg undisturbed.1⟩,
      fun preserved => either fun _ => sniffable_of_stripJpeg kind (sniffed' preserved)⟩
  | png =>
    rw [kind] at either
    exact ⟨stripPng_again bytes,
      fun undisturbed => ⟨sniffImage_congr found (sniffType_stripPng sniffed kind undisturbed.1),
        imageContent_stripPng bytes⟩,
      fun _ => either fun _ => trivial⟩
  | webp =>
    rw [kind] at either sniffed'
    have long := webp_length accepted kind
    exact ⟨stripWebp_again long,
      fun undisturbed => ⟨sniffImage_congr found (sniffType_stripWebp sniffed kind undisturbed),
        imageContent_stripWebp long undisturbed⟩,
      fun preserved => either fun kept =>
        sniffable_of_stripWebp long kind kept (sniffed' preserved) preserved.2⟩
  | gif => exact ⟨rfl, fun _ => ⟨found, rfl⟩, fun _ => .inl ⟨id, trivial⟩⟩

/-- A PNG with a comment between its header and its last chunk. -/
private def commented : Bytes :=
  [0x89, 80, 78, 71, 13, 10, 26, 10, 0, 0, 0, 13, 73, 72, 68, 82, 0, 0, 0, 8, 0, 0, 0, 4, 8, 2, 0,
    0, 0, 0, 0, 0, 0,
    0, 0, 0, 1, 116, 69, 88, 116, 65, 0, 0, 0, 0, 0, 0, 0, 0, 73, 69, 78, 68, 0, 0, 0, 0]

/-- A PNG with a comment loses it, and stays as large an image. -/
theorem strip_preserves_commented :
    sniffImage (stripImageMetadata commented .png) = some ⟨.png, 8, 4⟩
    ∧ imageContent .png (stripImageMetadata commented .png) = imageContent .png commented
    ∧ (stripImageMetadata commented .png).length < commented.length := by
  have accepted : checkImage commented = .ok ⟨.png, 8, 4⟩ := by decide +kernel
  have sized : 16 ≤ untouched pngChunk pngMetadata (fun _ => 0)
    (commented.drop 8) := by decide +kernel
  have undisturbed : Undisturbed .png commented :=
    ⟨fun displaced => absurd sized (Nat.not_le.mpr displaced.2), trivial⟩
  obtain ⟨same, content⟩ := (strip_preserves accepted).2.1 undisturbed
  exact ⟨same, content, by decide +kernel⟩

/-- A PNG whose header chunk says that it is empty. -/
private def emptyHeader : Bytes :=
  [0x89, 80, 78, 71, 13, 10, 26, 10, 0, 0, 0, 0, 73, 72, 68, 82, 0, 0, 0, 8, 0, 0, 0, 4]

/-- What follows an empty header chunk is left out, and the image is none any more. -/
theorem empty_header_breaks_image :
    ¬ ∀ (bytes : Bytes) (image : SniffedImage), checkImage bytes = .ok image →
    sniffImage (stripImageMetadata bytes image.mimetype) = some image
      ∧ stripImageMetadata (stripImageMetadata bytes image.mimetype) image.mimetype
        = stripImageMetadata bytes image.mimetype
      ∧ imageContent image.mimetype (stripImageMetadata bytes image.mimetype)
        = imageContent image.mimetype bytes := by
  intro always
  have accepted : checkImage emptyHeader = .ok ⟨.png, 8, 4⟩ := by decide +kernel
  have same := (always emptyHeader _ accepted).1
  have none_ : sniffImage (stripImageMetadata emptyHeader .png) = none := by decide +kernel
  rw [none_] at same
  cases same

end Khala
