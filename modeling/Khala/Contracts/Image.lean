import Khala.Framing.Pieces
import Khala.Js.Text

/-! Image attachments: the type is sniffed from the bytes, and the metadata is cut out before an
image is sent. -/

namespace Khala

open Js Framing

abbrev Bytes := List UInt8

inductive ImageMimeType
  | jpeg | png | gif | webp
deriving DecidableEq

def IMAGE_MAX_BYTES : Nat := 10 * 1024 * 1024

def MAX_DIMENSION : Nat := 65535

structure SniffedImage where
  mimetype : ImageMimeType
  w : Nat
  h : Nat
deriving DecidableEq

/-- `b[i]`, where it is only read within the array. -/
def byte (b : Bytes) (i : Nat) : Nat := (b.getD i 0).toNat

def u16be (b : Bytes) (i : Nat) : Nat := byte b i <<< 8 ||| byte b (i + 1)

def u16le (b : Bytes) (i : Nat) : Nat := byte b i ||| byte b (i + 1) <<< 8

def u24le (b : Bytes) (i : Nat) : Nat := byte b i ||| byte b (i + 1) <<< 8 ||| byte b (i + 2) <<< 16

def u32 (b : Bytes) (i : Nat) : Nat := u16be b i <<< 16 ||| u16be b (i + 2)

def u32le (b : Bytes) (i : Nat) : Nat := u16le b i ||| u16le b (i + 2) <<< 16

def fourcc (b : Bytes) (i : Nat) : Text := ((b.drop i).take 4).map (·.toUInt16)

def ascii (b : Bytes) (i : Nat) (text : Text) : Bool :=
  text.zipIdx.all fun (c, k) => (b[i + k]?).map (·.toUInt16) = some c

/-! ## Sniffing -/

/-- `SOF0` to `SOF15`: C4, C8 and CC share the range but are not frames. -/
def isFrame (marker : Nat) : Bool :=
  0xc0 ≤ marker && marker ≤ 0xcf && marker ≠ 0xc4 && marker ≠ 0xc8 && marker ≠ 0xcc

/-- The loop over the segments of a JPEG, from `i` on. -/
def sniffJpeg (rest : Bytes) : Option SniffedImage :=
  if rest.length ≤ 9 then none
  -- Too little is left for a frame header, or no marker is there.
  else if byte rest 0 ≠ 0xff then none
  else
    let marker := byte rest 1
    -- A fill byte is skipped.
    if marker = 0xff then sniffJpeg (rest.drop 1)
    else if isFrame marker then some ⟨.jpeg, u16be rest 7, u16be rest 5⟩
    -- The scan has begun, or the file has ended, without a frame header.
    else if marker = 0xda ∨ marker = 0xd9 then none
    -- Any other segment is skipped by its length.
    else sniffJpeg (rest.drop (2 + u16be rest 2))
termination_by rest.length
decreasing_by all_goals rw [List.length_drop]; omega

def sniffType (b : Bytes) : Option SniffedImage :=
  -- The dimensions are those that the header of each type holds.
  if 24 ≤ b.length ∧ byte b 0 = 0x89 ∧ ascii b 1 (lit "PNG\r\n\x1a\n")
    ∧ ascii b 12 (lit "IHDR") then
    some ⟨.png, u32 b 16, u32 b 20⟩
  else if 10 ≤ b.length ∧ (ascii b 0 (lit "GIF87a") ∨ ascii b 0 (lit "GIF89a")) then
    some ⟨.gif, u16le b 6, u16le b 8⟩
  else if 30 ≤ b.length ∧ ascii b 0 (lit "RIFF") ∧ ascii b 8 (lit "WEBP") then
    -- The three kinds of a WebP hold them at different places.
    if ascii b 12 (lit "VP8 ") then some ⟨.webp, u16le b 26 &&& 0x3fff, u16le b 28 &&& 0x3fff⟩
    else if ascii b 12 (lit "VP8L") then
      some ⟨.webp, 1 + ((byte b 22 &&& 0x3f) <<< 8 ||| byte b 21),
        1 + ((byte b 24 &&& 0x0f) <<< 10 ||| byte b 23 <<< 2 ||| (byte b 22 &&& 0xc0) >>> 6)⟩
    else if ascii b 12 (lit "VP8X") then some ⟨.webp, 1 + u24le b 24, 1 + u24le b 27⟩
    else none
  else if 4 ≤ b.length ∧ byte b 0 = 0xff ∧ byte b 1 = 0xd8 then sniffJpeg (b.drop 2)
  else none

/-- The sniffed type and size, when the dimensions are sane. -/
def sniffImage (bytes : Bytes) : Option SniffedImage :=
  (sniffType bytes).filter fun found => 1 ≤ found.w ∧ 1 ≤ found.h ∧ found.w ≤ MAX_DIMENSION
    ∧ found.h ≤ MAX_DIMENSION

inductive ImageRefusal
  | unsupportedType | heic | tooLarge | empty
deriving DecidableEq

/-- `ftyp` brands of HEIC and HEIF stills and sequences. -/
def HEIF_BRANDS : List Text :=
  [lit "heic", lit "heix", lit "hevc", lit "hevx", lit "heim", lit "heis", lit "mif1", lit "msf1"]

def isHeif (b : Bytes) : Bool :=
  12 ≤ b.length && ascii b 4 (lit "ftyp") && HEIF_BRANDS.any fun brand => ascii b 8 brand

/-- The gate before an image is encrypted. -/
def checkImage (bytes : Bytes) : Except ImageRefusal SniffedImage :=
  if bytes.length = 0 then .error .empty
  else if IMAGE_MAX_BYTES < bytes.length then .error .tooLarge
  else
    match sniffImage bytes with
    | some image => .ok image
    | none => .error (if isHeif bytes then .heic else .unsupportedType)

/-! ## Cutting out metadata -/

/-- A segment of a JPEG as the stripping loop reads it, up to the scan: a marker and a length that
counts itself. -/
def jpegSegment (rest : Bytes) : Option Head :=
  if rest.length ≤ 3 ∨ byte rest 0 ≠ 0xff then none
  else if byte rest 1 = 0xda then none
  else some ⟨2 + u16be rest 2, false, Nat.lt_of_lt_of_le Nat.two_pos (Nat.le_add_right 2 _)⟩

/-- APP1 (EXIF, XMP), APP13 (IPTC) and comments. -/
def jpegMetadata (rest : Bytes) : Bool :=
  byte rest 1 = 0xe1 || byte rest 1 = 0xed || byte rest 1 = 0xfe

def stripJpeg (bytes : Bytes) : Bytes :=
  match cutOut jpegSegment jpegMetadata id (bytes.drop 2) with
  | some kept => bytes.take 2 ++ kept
  | none => bytes

/-- A chunk of a PNG: its length, type, data and CRC. -/
def pngChunk (rest : Bytes) : Option Head :=
  if rest.length < 12 then none
  else some ⟨12 + u32 rest 0, fourcc rest 4 = lit "IEND", Nat.lt_of_lt_of_le (Nat.succ_pos 11)
    (Nat.le_add_right 12 _)⟩

def PNG_METADATA : List Text := [lit "eXIf", lit "tEXt", lit "zTXt", lit "iTXt", lit "tIME"]

def pngMetadata (rest : Bytes) : Bool := PNG_METADATA.contains (fourcc rest 4)

/-- What follows the last chunk is left out. -/
def stripPng (bytes : Bytes) : Bytes :=
  match cutOut pngChunk pngMetadata (fun _ => []) (bytes.drop 8) with
  | some kept => bytes.take 8 ++ kept
  | none => bytes

/-- The end of a WebP chunk: chunks pad to even length, unless the file ends first. -/
def webpChunkSize (rest : Bytes) : Nat :=
  let size := 8 + u32le rest 4
  if rest.length < size then size else min rest.length (size + (u32le rest 4 &&& 1))

/-- A chunk has at least its header. -/
theorem webpChunkSize_pos {rest : Bytes} (header : 8 ≤ rest.length) : 0 < webpChunkSize rest := by
  unfold webpChunkSize
  dsimp only
  split <;> omega

def webpChunk (rest : Bytes) : Option Head :=
  if header : 8 ≤ rest.length then some ⟨webpChunkSize rest, false, webpChunkSize_pos header⟩
    else none

def webpMetadata (rest : Bytes) : Bool := fourcc rest 0 = lit "EXIF" || fourcc rest 0 = lit "XMP "

/-- The RIFF size of a file, as it is written at its fourth byte. -/
def riffSize (out : Bytes) : Bytes :=
  let riff := out.length - 8
  [.ofNat (riff &&& 0xff), .ofNat (riff >>> 8 &&& 0xff), .ofNat (riff >>> 16 &&& 0xff),
    .ofNat (riff >>> 24)]

/-- Clears the flags that EXIF and XMP are present. -/
def clearFlags (out : Bytes) : Bytes :=
  if fourcc out 12 = lit "VP8X" then out.modify 20 (· &&& ~~~0x0c) else out

def stripWebp (bytes : Bytes) : Bytes :=
  match cutOut webpChunk webpMetadata (fun _ => []) (bytes.drop 12) with
  | some kept =>
    let out := bytes.take 12 ++ kept
    clearFlags (out.take 4 ++ riffSize out ++ out.drop 8)
  | none => bytes

def stripImageMetadata (bytes : Bytes) (mimetype : ImageMimeType) : Bytes :=
  match mimetype with
  | .jpeg => stripJpeg bytes
  | .png => stripPng bytes
  | .webp => stripWebp bytes
  | .gif => bytes

end Khala
