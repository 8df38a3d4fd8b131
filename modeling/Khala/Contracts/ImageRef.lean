import Khala.Contracts.Decode
import Khala.Contracts.Image

/-! Image references as they come from a room, and the checks that they pass before they are used.
-/

namespace Khala

open Js Decode

/-- What an image message carries besides its caption. -/
structure ImageRef where
  name : Text
  mimetype : ImageMimeType
  /-- The size of the ciphertext. -/
  size : Nat
  w : Nat
  h : Nat
  /-- The mxc URI of the ciphertext. -/
  url : Text
  key : Text
  iv : Text
  sha256 : Text
deriving DecidableEq

/-- `IMAGE_MIME_TYPES`, each with the type it names. -/
def imageMimeTypes : List (Text × ImageMimeType) :=
  [(lit "image/jpeg", .jpeg), (lit "image/png", .png), (lit "image/gif", .gif),
    (lit "image/webp", .webp)]

def ImageMimeType.text : ImageMimeType → Text
  | .jpeg => lit "image/jpeg"
  | .png => lit "image/png"
  | .gif => lit "image/gif"
  | .webp => lit "image/webp"

/-- The reference as the object that it is. -/
def ImageRef.toJson (image : ImageRef) : Json :=
  .object [(lit "name", .string image.name), (lit "mimetype", .string image.mimetype.text),
    (lit "size", .number (natNumber image.size)), (lit "w", .number (natNumber image.w)),
    (lit "h", .number (natNumber image.h)), (lit "url", .string image.url),
      (lit "key", .string image.key),
    (lit "iv", .string image.iv), (lit "sha256", .string image.sha256)]

/-! ## Patterns -/

/-- The number of a code point. -/
def pointNumber : Text → Nat
  | [u] => u.toNat
  | [u, v] => 0x10000 + (u.toNat - 0xD800) * 0x400 + (v.toNat - 0xDC00)
  | _ => 0

/-- The Unicode classes `Cc` and `Cf`. -/
def isControlOrFormat (n : Nat) : Bool :=
  n ≤ 0x1F || (0x7F ≤ n && n ≤ 0x9F) || n == 0xAD || (0x600 ≤ n && n ≤ 0x605) || n == 0x61C
    || n == 0x6DD || n == 0x70F
    || (0x890 ≤ n && n ≤ 0x891) || n == 0x8E2 || n == 0x180E || (0x200B ≤ n && n ≤ 0x200F)
      || (0x202A ≤ n && n ≤ 0x202E)
    || (0x2060 ≤ n && n ≤ 0x2064) || (0x2066 ≤ n && n ≤ 0x206F) || n == 0xFEFF
      || (0xFFF9 ≤ n && n ≤ 0xFFFB)
    || n == 0x110BD || n == 0x110CD || (0x13430 ≤ n && n ≤ 0x1343F) || (0x1BCA0 ≤ n && n ≤ 0x1BCA3)
    || (0x1D173 ≤ n && n ≤ 0x1D17A) || n == 0xE0001 || (0xE0020 ≤ n && n ≤ 0xE007F)

/-- `NAME`: one to 255 code points, no control or format characters and no slashes. -/
def isImageName (name : Text) : Bool :=
  let points := codePoints name
  1 ≤ points.length && points.length ≤ 255
    && points.all fun point =>
      !isControlOrFormat (pointNumber point) && point != [47] && point != [92]

def isLetterOrDigit (u : CodeUnit) : Bool := isDigit u || (65 ≤ u && u ≤ 90) || (97 ≤ u && u ≤ 122)

/-- `[A-Za-z0-9_-]`. -/
def isUrlSafe (u : CodeUnit) : Bool := isLetterOrDigit u || u == 95 || u == 45

/-- `[A-Za-z0-9+/]`. -/
def isBase64 (u : CodeUnit) : Bool := isLetterOrDigit u || u == 43 || u == 47

/-- `[A-Za-z0-9.:[\]-]`. -/
def isServerUnit (u : CodeUnit) : Bool :=
  isLetterOrDigit u || u == 46 || u == 58 || u == 91 || u == 93 || u == 45

/-- `MXC`: a server and a media id, each of one to 255 units. -/
def isMxc (url : Text) : Bool :=
  let scheme := lit "mxc://"
  let rest := url.drop scheme.length
  let server := rest.takeWhile isServerUnit
  let media := (rest.drop server.length).drop 1
  url.take scheme.length == scheme && 1 ≤ server.length && server.length ≤ 255
    && (rest.drop server.length).head? == some 47
    && 1 ≤ media.length && media.length ≤ 255 && media.all isUrlSafe

/-- `/^[A-Za-z0-9_-]{43}$/u`. -/
def isImageKey (key : Text) : Bool := key.length == 43 && key.all isUrlSafe

/-- `/^[A-Za-z0-9+/]{22}(==)?$/u`. -/
def isImageIv (iv : Text) : Bool :=
  (iv.take 22).length == 22 && (iv.take 22).all isBase64
    && (iv.drop 22 == [] || iv.drop 22 == lit "==")

/-- `/^[A-Za-z0-9+/]{43}$/u`. -/
def isImageHash (hash : Text) : Bool := hash.length == 43 && hash.all isBase64

/-! ## Reading -/

def imageKeys : List Text :=
  ["h", "iv", "key", "mimetype", "name", "sha256", "size", "url", "w"].map lit

/-- A text that passes a test. -/
def textWhere (members : Members) (key : Text) (passes : Text → Bool) : Option Text :=
  match lookup members key with
  | some (.string value) => if passes value then some value else none
  | _ => none

/-- An integer from 1 to a maximum. -/
def intUpTo (members : Members) (key : Text) (max : Nat) : Option Nat :=
  match lookup members key with
  | some (.number value) => (spelledNat value.text).filter fun n => 1 ≤ n ∧ n ≤ max
  | _ => none

/-- The mime type, if it is an allowed one. -/
def mimeTypeOf (members : Members) : Option ImageMimeType :=
  match lookup members (lit "mimetype") with
  | some (.string value) => imageMimeTypes.lookup value
  | _ => none

/-- A validated image reference. Content from the room is untrusted. -/
def readImageRef (value : Json) : Option ImageRef :=
  match value with
  | .object members =>
    -- The object has these fields and no others.
    if (members.map (·.1)).isPerm imageKeys then do
      let name ← textWhere members (lit "name") isImageName
      let mimetype ← mimeTypeOf members
      -- The ciphertext may be twice as long as an image.
      let size ← intUpTo members (lit "size") (IMAGE_MAX_BYTES * 2)
      let w ← intUpTo members (lit "w") MAX_DIMENSION
      let h ← intUpTo members (lit "h") MAX_DIMENSION
      let url ← textWhere members (lit "url") isMxc
      let key ← textWhere members (lit "key") isImageKey
      let iv ← textWhere members (lit "iv") isImageIv
      let sha256 ← textWhere members (lit "sha256") isImageHash
      return ⟨name, mimetype, size, w, h, url, key, iv, sha256⟩
    else none
  | _ => none

/-- Different types have different names. -/
theorem ImageMimeType.text_injective {one two : ImageMimeType} (same : one.text = two.text) :
    one = two := by
  revert same
  cases one <;> cases two <;> decide

/-- Each allowed type is found under its text. -/
theorem lookup_mimeType (mimetype : ImageMimeType) :
    imageMimeTypes.lookup mimetype.text = some mimetype := by
  cases mimetype <;> rfl

/-- A text that is read is the one there. -/
theorem textWhere_eq_some {members : Members} {key value : Text} {passes : Text → Bool}
    {read : Text} (found : lookup members key = some (.string value)) :
    textWhere members key passes = some read → read = value := by
  simp only [textWhere, found]
  split <;> simp_all

/-- A number that is read is the one there. -/
theorem intUpTo_eq_some {members : Members} {key : Text} {max n read : Nat}
    (found : lookup members key = some (.number (natNumber n))) :
    intUpTo members key max = some read → read = n := by
  simp only [intUpTo, found, natNumber, spelledNat_decimal]
  intro kept
  exact (Option.some.inj (Option.filter_eq_some_iff.mp kept).1).symm

/-- A reference that is read back is the one that was written. -/
theorem readImageRef_toJson {image read : ImageRef}
    (reads : readImageRef image.toJson = some read) : read = image := by
  -- The reference is put together from what its fields were read as.
  obtain ⟨name, mimetype, size, w, h, url, key, iv, sha256⟩ := image
  simp only [readImageRef, ImageRef.toJson] at reads
  split at reads
  · simp only [Option.bind_eq_bind, Option.bind_eq_some_iff, Option.pure_def, Option.some.injEq]
      at reads
    obtain ⟨name', named, type', typed, size', sized, w', wide, h', high, url', urled, key',
      keyed, iv', ived,
      sha', hashed, rfl⟩ := reads
    -- A type is found by its own text.
    have type_eq : type' = mimetype := by
      change imageMimeTypes.lookup mimetype.text = some type' at typed
      rw [lookup_mimeType] at typed
      exact (Option.some.inj typed).symm
    rw [textWhere_eq_some rfl named, type_eq, intUpTo_eq_some rfl sized, intUpTo_eq_some rfl wide,
      intUpTo_eq_some rfl high,
      textWhere_eq_some rfl urled, textWhere_eq_some rfl keyed, textWhere_eq_some rfl ived,
        textWhere_eq_some rfl hashed]
  · cases reads

end Khala
