import Khala.Contracts.AgentNames
import Khala.Contracts.ImageRef
import Khala.Js.JsonBytes

/-! The content of room messages, and the encoding whose digest stands for it. -/

namespace Khala

open Js Decode

/-- Authored content, of version 1. -/
inductive MessageContent
  /-- A text, with the event it replies to and the image that it is the caption of. -/
  | text (body : Text) (inReplyTo : Option Text) (image : Option ImageRef)
  | agentRename (agentParticipantId body : Text)
  /-- The current name of an agent, and the rename that gave it. -/
  | agentNameSnapshot (agentParticipantId body : Text) (sourceEventId : Option Text)
deriving DecidableEq

/-- What encoding throws. -/
inductive EncodeError
  /-- `invalid agent rename content`. -/
  | invalidRename
  /-- `invalid snapshot source`. -/
  | invalidSource
  /-- `invalid message content:` and where it fails. -/
  | invalidBody (error : DecodeError)
  /-- `invalid image`. -/
  | invalidImage
  /-- `invalid reply parent`. -/
  | invalidParent
deriving DecidableEq

def MESSAGE_ENCODING_V1 : Text := lit "khala.message.v1"

/-- `readId`: an identifier of whatever kind. -/
def readId (input : Json) (path : Text) : Decoded Text := identifier input path

/-- An identifier or null. -/
def textOrNull : Option Text → Json
  | none => .null
  | some value => .string value

/-- `decodeWith(...).ok`. -/
def accepts {α : Type} (result : Decoded α) : Bool := result.toOption.isSome

/-- An image as the encoding holds it. -/
def imageItems (image : ImageRef) : Json :=
  .array [.string image.name, .string image.mimetype.text, .number (natNumber image.size),
    .number (natNumber image.w),
    .number (natNumber image.h), .string image.url, .string image.key, .string image.iv,
      .string image.sha256]

/-- The bytes of a compact array. -/
def encodeItems (items : List Json) : List UInt8 := jsonBytes (.array items)

section

variable (nfc nfkc : Text → Text)

/--
The version 1 encoding of a content.

It is positional, and what only some contents have stands at the end, so that what was encoded
before is unchanged.
-/
def encodeMessageContent (content : MessageContent) : Except EncodeError (List UInt8) :=
  match content with
  | .agentRename agentParticipantId body =>
    -- A name is written only as it was checked.
    if accepts (readId (.string agentParticipantId) (lit "agentParticipantId"))
        ∧ validateAgentName nfc nfkc (.string body) = .ok body then
      .ok (encodeItems [.string MESSAGE_ENCODING_V1, .string (lit "agent_rename"),
        .string agentParticipantId, .string body])
    else .error .invalidRename
  | .agentNameSnapshot agentParticipantId body sourceEventId =>
    if accepts (readId (.string agentParticipantId) (lit "agentParticipantId"))
        ∧ validateAgentName nfc nfkc (.string body) = .ok body then
      -- The event that the snapshot was taken of may be unknown.
      if sourceEventId.all fun source =>
        accepts (readId (.string source) (lit "sourceEventId")) then
        .ok (encodeItems [.string MESSAGE_ENCODING_V1, .string (lit "agent_name_snapshot"),
          .string agentParticipantId,
          .string body, textOrNull sourceEventId])
      else .error .invalidSource
    else .error .invalidRename
  | .text body inReplyTo image =>
    match Decode.text (.string body) (lit "body") maxSafeInteger with
    | .error error => .error (.invalidBody error)
    | .ok _ =>
      -- A parent is checked after the image, as the code does.
      let validParent := inReplyTo.all fun parent =>
        accepts (readId (.string parent) (lit "inReplyTo"))
      match image with
      | some image =>
        match readImageRef image.toJson with
        | none => .error .invalidImage
        | some image =>
          if validParent then
            -- With an image the parent has a place of its own, also when there is none.
            .ok (encodeItems [.string MESSAGE_ENCODING_V1, .string (lit "text"), .string body,
              textOrNull inReplyTo,
              imageItems image])
          else .error .invalidParent
      | none =>
        match inReplyTo with
        -- A plain text without a parent is the shortest form.
        | none => .ok
          (encodeItems [.string MESSAGE_ENCODING_V1, .string (lit "text"), .string body])
        | some parent =>
          if validParent then
            .ok (encodeItems [.string MESSAGE_ENCODING_V1, .string (lit "text"), .string body,
              .string parent])
          else .error .invalidParent

/-! ## Reading -/

/-- The size limit that a substrate declares for bodies: a positive safe integer. -/
structure ContentLimits where
  maxBodyBytes : Nat
  valid : 0 < maxBodyBytes ∧ maxBodyBytes ≤ maxSafeInteger

/-- The kind that an object names. -/
def kindOf (input : Json) : Option Text :=
  match input with
  | .object members =>
    match lookup members (lit "kind") with
    | some (.string kind) => some kind
    | _ => none
  | _ => none

/-- `===` of a value and a text. -/
def isText (input : Json) (value : Text) : Bool :=
  match input with
  | .string s => s == value
  | _ => false

/-- A rename, or a snapshot of the current name. -/
def readNameContent (input : Json) (path : Text) (snapshot : Bool) : Decoded MessageContent := do
  let r ← object input path ([lit "v", lit "kind", lit "agentParticipantId", lit "body"]
    ++ if snapshot then [lit "sourceEventId"] else [])
  -- The version is checked before anything else is.
  version (field r (lit "v")) (joinPath path (lit "v"))
  let kind ← literal (field r (lit "kind")) (joinPath path (lit "kind"))
    [(lit "agent_rename", false), (lit "agent_name_snapshot", true)]
  let agentParticipantId ← readId (field r (lit "agentParticipantId"))
    (joinPath path (lit "agentParticipantId"))
  match validateAgentName nfc nfkc (field r (lit "body")) with
  | .error _ => fail (joinPath path (lit "body")) .invalid_value
  | .ok name =>
    -- The name must be written as it is after checking.
    require (isText (field r (lit "body")) name) (joinPath path (lit "body")) .invalid_value
    if kind then
      let sourceEventId ← nullable (field r (lit "sourceEventId"))
        fun value => readId value (joinPath path (lit "sourceEventId"))
      return .agentNameSnapshot agentParticipantId name sourceEventId
    else return .agentRename agentParticipantId name

/-- The image of a text that has one. -/
def readImageField (r : Members) (path : Text) (hasImage : Bool) : Decoded (Option ImageRef) :=
  if hasImage then
    match readImageRef (field r (lit "image")) with
    | some image => .ok (some image)
    | none => fail (joinPath path (lit "image")) .invalid_value
  else .ok none

/-- The reply parent of a text that has one. -/
def readReplyField (r : Members) (path : Text) (reply : Bool) : Decoded (Option Text) :=
  if reply then some <$> readId (field r (lit "inReplyTo")) (joinPath path (lit "inReplyTo"))
    else .ok none

/-- A text, with what else the object holds. -/
def readTextContent (input : Json) (path : Text) (limits : ContentLimits) :
    Decoded MessageContent :=
  do
  let reply := has input (lit "inReplyTo")
  let hasImage := has input (lit "image")
  -- Parent and image are known fields only where they are there.
  let r ← object input path
    ([lit "v", lit "kind", lit "body"] ++ (if reply then [lit "inReplyTo"] else [])
    ++ if hasImage then [lit "image"] else [])
  let image ← readImageField r path hasImage
  version (field r (lit "v")) (joinPath path (lit "v"))
  literal (field r (lit "kind")) (joinPath path (lit "kind")) [(lit "text", ())]
  let body ← Decode.text (field r (lit "body")) (joinPath path (lit "body")) limits.maxBodyBytes
  let inReplyTo ← readReplyField r path reply
  return .text body inReplyTo image

def readMessageContent (input : Json) (path : Text) (limits : ContentLimits) :
    Decoded MessageContent :=
  if kindOf input = some (lit "agent_rename") then readNameContent nfc nfkc input path false
  else if kindOf input = some (lit "agent_name_snapshot")
    then readNameContent nfc nfkc input path true
  else readTextContent input path limits

end

/-- The object that a content is. -/
def MessageContent.toJson : MessageContent → Json
  | .text body inReplyTo image =>
    .object ([(lit "v", Json.number (natNumber 1)), (lit "kind", .string (lit "text")),
      (lit "body", .string body)]
      -- What is not there is not written.
      ++ (inReplyTo.map fun parent => (lit "inReplyTo", .string parent)).toList
      ++ (image.map fun image => (lit "image", image.toJson)).toList)
  | .agentRename agentParticipantId body =>
    .object [(lit "v", .number (natNumber 1)), (lit "kind", .string (lit "agent_rename")),
      (lit "agentParticipantId", .string agentParticipantId), (lit "body", .string body)]
  | .agentNameSnapshot agentParticipantId body sourceEventId =>
    .object [(lit "v", .number (natNumber 1)), (lit "kind", .string (lit "agent_name_snapshot")),
      (lit "agentParticipantId", .string agentParticipantId), (lit "body", .string body),
      (lit "sourceEventId", textOrNull sourceEventId)]

/-- The body of a text is within the limit; names have a limit of their own. -/
def MessageContent.FitsLimits (content : MessageContent) (limits : ContentLimits) : Prop :=
  match content with
  | .text body _ _ => utf8Length body ≤ limits.maxBodyBytes
  | _ => True

/-! ## The encoding tells contents apart -/

/-- The items of a content's encoding, whether or not it is accepted. -/
def MessageContent.items : MessageContent → List Json
  | .agentRename agentParticipantId body =>
    [.string MESSAGE_ENCODING_V1, .string (lit "agent_rename"),
      .string agentParticipantId, .string body]
  | .agentNameSnapshot agentParticipantId body sourceEventId =>
    [.string MESSAGE_ENCODING_V1, .string (lit "agent_name_snapshot"),
      .string agentParticipantId, .string body,
      textOrNull sourceEventId]
  | .text body inReplyTo (some image) =>
    [.string MESSAGE_ENCODING_V1, .string (lit "text"), .string body, textOrNull inReplyTo,
      imageItems image]
  -- A parent alone is the fourth item.
  | .text body (some parent) none =>
    [.string MESSAGE_ENCODING_V1, .string (lit "text"), .string body, .string parent]
  | .text body none none => [.string MESSAGE_ENCODING_V1, .string (lit "text"), .string body]

/-- Different numbers are written differently. -/
theorem natNumber_injective {m n : Nat} (same : natNumber m = natNumber n) : m = n := by
  have texts : decimal m = decimal n := congrArg Number.text same
  rw [← readDigits_decimal m, texts, readDigits_decimal]

/-- Different texts, or none, are written differently. -/
theorem textOrNull_injective {one two : Option Text} (same : textOrNull one = textOrNull two) :
    one = two := by
  cases one <;> cases two <;> simp_all [textOrNull]

/-- Different images are written differently. -/
theorem imageItems_injective {one two : ImageRef} (same : imageItems one = imageItems two) :
    one = two := by
  obtain ⟨name, mimetype, size, w, h, url, key, iv, sha256⟩ := one
  obtain ⟨name', mimetype', size', w', h', url', key', iv', sha256'⟩ := two
  simp only [imageItems, Json.array.injEq, List.cons.injEq, Json.string.injEq, Json.number.injEq,
    and_true] at same
  obtain ⟨rfl, types, sizes, widths, heights, rfl, rfl, rfl, rfl⟩ := same
  rw [ImageMimeType.text_injective types, natNumber_injective sizes, natNumber_injective widths,
    natNumber_injective heights]

/-- Different items are encoded differently. -/
theorem encodeItems_injective {one two : List Json} (same : encodeItems one = encodeItems two) :
    one = two :=
  Json.array.inj (jsonBytes_injective same)

/-- The kinds differ in the second item, and the shapes of a text in how many there are. -/
theorem MessageContent.items_injective {one two : MessageContent} (same : one.items = two.items) :
    one = two := by
  -- The kinds have different names, so only contents of one kind can agree.
  have kinds : lit "agent_rename" ≠ lit "agent_name_snapshot" ∧ lit "agent_rename" ≠ lit "text"
      ∧ lit "agent_name_snapshot" ≠ lit "text" := by decide
  obtain ⟨renames, renamesText, snapshotsText⟩ := kinds
  cases one with
  | agentRename participant body =>
    cases two with
    | agentRename participant' body' => simpa [items] using same
    | agentNameSnapshot participant' body' source' => simp [items] at same
    | text body' reply' image' => cases reply' <;> cases image' <;> simp [items, renamesText]
      at same
  | agentNameSnapshot participant body source =>
    cases two with
    | agentRename participant' body' => simp [items] at same
    | agentNameSnapshot participant' body' source' =>
      simp only [items, List.cons.injEq, Json.string.injEq, true_and, and_true] at same
      rw [same.1, same.2.1, textOrNull_injective same.2.2]
    | text body' reply' image' => cases reply' <;> cases image' <;> simp [items, snapshotsText]
      at same
  | text body reply image =>
    cases two with
    | agentRename participant' body' =>
      cases reply <;> cases image <;> simp [items, Ne.symm renamesText] at same
    | agentNameSnapshot participant' body' source' =>
      cases reply <;> cases image <;> simp [items, Ne.symm snapshotsText] at same
    | text body' reply' image' =>
      -- A text has an image or none, which its version tells.
      cases image with
      | some image =>
        cases image' with
        | some image' =>
          simp only [items, List.cons.injEq, Json.string.injEq, true_and, and_true] at same
          rw [same.1, textOrNull_injective same.2.1, imageItems_injective same.2.2]
        | none => cases reply' <;> simp [items] at same
      -- Without an image there may be a reply.
      | none =>
        cases image' with
        | some image' => cases reply <;> simp [items] at same
        | none => cases reply <;> cases reply' <;> simp_all [items]

section

variable {nfc nfkc : Text → Text}

/-- What is encoded is the items of the content. -/
theorem encodeMessageContent_eq {content : MessageContent} {bytes : List UInt8}
    (encodes : encodeMessageContent nfc nfkc content = .ok bytes) :
    bytes = encodeItems content.items := by
  cases content with
  | agentRename participant body =>
    rw [encodeMessageContent] at encodes
    split at encodes <;> cases encodes
    rfl
  | agentNameSnapshot participant body source =>
    rw [encodeMessageContent] at encodes
    split at encodes
    · split at encodes <;> cases encodes
      rfl
    · cases encodes
  | text body reply image =>
    rw [encodeMessageContent] at encodes
    split at encodes
    · cases encodes
    · cases image with
      | some image =>
        simp only at encodes
        split at encodes
        · cases encodes
        · rename_i read reads
          -- The image that was read is the one that was given.
          have given := readImageRef_toJson reads
          split at encodes <;> cases encodes
          rw [given]
          rfl
      | none =>
        cases reply with
        | none =>
          cases encodes
          rfl
        | some parent =>
          simp only at encodes
          split at encodes <;> cases encodes
          rfl

/-! ## An accepted content is read back -/

omit nfc nfkc in
/-- Which texts are read. -/
theorem text_eq_ok {s path result : Text} {maxBytes : Nat} :
    Decode.text (.string s) path maxBytes = .ok result
      ↔ result = s ∧ isWellFormed s = true ∧ utf8Length s ≤ maxBytes ∧ s.contains 0 = false := by
  simp only [Decode.text, fail]
  cases formed : isWellFormed s with
  | false => simp
  | true =>
    by_cases large : utf8Length s > maxBytes
    · simp [large, Nat.not_le.mpr large]
    · cases zero : s.contains 0 <;> simp [large, Nat.not_lt.mp large, eq_comm]

omit nfc nfkc in
/-- An identifier that is accepted at one place is read as itself at every other. -/
theorem readId_of_accepts {value path : Text}
    (accepted : accepts (readId (.string value) path) = true) (path' : Text) :
    readId (.string value) path' = .ok value := by
  obtain ⟨read, reads⟩ : ∃ read, readId (.string value) path = .ok read := by
    cases reads : readId (.string value) path with
    | error error => simp [accepts, reads, Except.toOption] at accepted
    | ok read => exact ⟨read, rfl⟩
  simp only [readId, identifier, label] at reads ⊢
  simp only [bind_eq_ok, text_eq_ok, require_eq_ok, pure, Except.pure, Except.ok.injEq] at reads ⊢
  obtain ⟨_, ⟨_, ⟨rfl, checked⟩, ⟨⟩, plain, rfl⟩, ⟨⟩, some_, rfl⟩ := reads
  exact ⟨_, ⟨_, ⟨rfl, checked⟩, (), plain, rfl⟩, (), some_, rfl⟩

omit nfc nfkc in
/-- The first version is read. -/
private theorem version_one (path : Text) : version (.number (natNumber 1)) path = .ok () := rfl

omit nfc nfkc in
/-- The identifiers of a content are read as they are, where there are any. -/
private theorem nullable_readId {value : Option Text} {path : Text}
    (accepted : (value.all fun text => accepts (readId (.string text) path)) = true)
    (path' : Text) :
    nullable (textOrNull value) (fun text => readId text path') = .ok value := by
  cases value with
  | none => rfl
  | some text =>
    have read := readId_of_accepts (by simpa using accepted) path'
    simp [textOrNull, nullable, read, Functor.map, Except.map]

omit nfc nfkc in
/-- The members of a text, in the order of its type. -/
private def textMembers (body : Text) (reply : Option Text) (image : Option ImageRef) : Members :=
  [(lit "v", Json.number (natNumber 1)), (lit "kind", .string (lit "text")),
    (lit "body", .string body)]
    ++ (reply.map fun parent => (lit "inReplyTo", Json.string parent)).toList
    ++ (image.map fun image => (lit "image", image.toJson)).toList

omit nfc nfkc in
/-- The object of a text has its three members, and one for each part that is there. -/
private theorem readTextContent_of {body path : Text} {reply : Option Text}
    {image : Option ImageRef} {limits : ContentLimits}
    (textual : Decode.text (.string body)
      (joinPath path (lit "body")) limits.maxBodyBytes = .ok body)
    (parent : ∀ text, reply = some text → ∀ path', readId (.string text) path' = .ok text)
    (pictured : ∀ picture, image = some picture → readImageRef picture.toJson = some picture) :
    readTextContent (MessageContent.text body reply image).toJson path limits
      = .ok (.text body reply image) := by
  -- The object has a field for the reply and the image exactly where they are there.
  have hasReply :
    has (MessageContent.text body reply image).toJson (lit "inReplyTo") = reply.isSome := by
    cases reply <;> cases image <;> rfl
  have hasImage :
    has (MessageContent.text body reply image).toJson (lit "image") = image.isSome := by
    cases reply <;> cases image <;> rfl
  have shape :
    object (MessageContent.text body reply image).toJson path ([lit "v", lit "kind", lit "body"]
      ++ (if reply.isSome = true then [lit "inReplyTo"] else []) ++ if image.isSome = true
        then [lit "image"] else [])
      = .ok (textMembers body reply image) := by
    cases reply <;> cases image <;> rfl
  unfold readTextContent
  simp only [hasReply, hasImage]
  refine bind_eq_ok.mpr ⟨_, shape, ?_⟩
  -- The image is read as it was written, and then the fields that are always there.
  refine bind_eq_ok.mpr ⟨image, ?_, ?_⟩
  · cases image with
    | none => rfl
    | some picture =>
      have found : field (textMembers body reply (some picture))
        (lit "image") = picture.toJson := by cases reply <;> rfl
      simp only [readImageField, Option.isSome_some, if_true, found, pictured picture rfl]
  · refine bind_eq_ok.mpr ⟨(), version_one _, ?_⟩
    refine bind_eq_ok.mpr ⟨(), rfl, ?_⟩
    refine bind_eq_ok.mpr ⟨body, textual, ?_⟩
    refine bind_eq_ok.mpr ⟨reply, ?_, rfl⟩
    -- The reply comes last.
    cases reply with
    | none => rfl
    | some text =>
      have found : field (textMembers body (some text) image)
        (lit "inReplyTo") = .string text := by cases image <;> rfl
      simp only [readReplyField, Option.isSome_some, if_true, found, parent text rfl]
      rfl

/-- What is accepted is read back unchanged under limits that its body fits. -/
theorem readMessageContent_of_encodes {content : MessageContent} {bytes : List UInt8}
    {limits : ContentLimits} (encodes : encodeMessageContent nfc nfkc content = .ok bytes)
    (fits : content.FitsLimits limits) (path : Text) :
    readMessageContent nfc nfkc content.toJson path limits = .ok content := by
  cases content with
  | agentRename participant body =>
    rw [encodeMessageContent] at encodes
    split at encodes
    · rename_i valid
      have kind : kindOf (MessageContent.agentRename participant body).toJson
        = some (lit "agent_rename") := rfl
      rw [readMessageContent, if_pos kind, readNameContent]
      -- Each field is found under its name, and passes the check that encoding made.
      refine bind_eq_ok.mpr ⟨_, rfl, ?_⟩
      refine bind_eq_ok.mpr ⟨(), version_one _, ?_⟩
      refine bind_eq_ok.mpr ⟨false, rfl, ?_⟩
      refine bind_eq_ok.mpr ⟨participant, readId_of_accepts valid.1 _, ?_⟩
      have named :
        field [(lit "v", .number (natNumber 1)), (lit "kind", .string (lit "agent_rename")),
        (lit "agentParticipantId", .string participant), (lit "body", .string body)]
          (lit "body") = .string body := rfl
      rw [named, valid.2]
      simp [isText, require, bind, Except.bind, pure, Except.pure]
    · cases encodes
  | agentNameSnapshot participant body source =>
    rw [encodeMessageContent] at encodes
    split at encodes
    · rename_i valid
      split at encodes
      · rename_i sourced
        -- A snapshot also names the event that it stems from.
        have kind : kindOf (MessageContent.agentNameSnapshot participant body source).toJson
            = some (lit "agent_name_snapshot") := rfl
        have other : some (lit "agent_name_snapshot") ≠ some (lit "agent_rename") := by decide
        rw [readMessageContent, kind, if_neg other, if_pos rfl, readNameContent]
        refine bind_eq_ok.mpr ⟨_, rfl, ?_⟩
        refine bind_eq_ok.mpr ⟨(), version_one _, ?_⟩
        refine bind_eq_ok.mpr ⟨true, rfl, ?_⟩
        refine bind_eq_ok.mpr ⟨participant, readId_of_accepts valid.1 _, ?_⟩
        have named :
          field [(lit "v", .number (natNumber 1)),
            (lit "kind", .string (lit "agent_name_snapshot")),
          (lit "agentParticipantId", .string participant), (lit "body", .string body),
          (lit "sourceEventId", textOrNull source)] (lit "body") = .string body := rfl
        rw [named, valid.2]
        refine bind_eq_ok.mpr ⟨(), by simp [isText, require], ?_⟩
        exact bind_eq_ok.mpr ⟨source, nullable_readId sourced _, rfl⟩
      · cases encodes
    · cases encodes
  | text body reply image =>
    -- A text is of neither of the two kinds before it.
    have kind : kindOf (MessageContent.text body reply image).toJson = some (lit "text") := rfl
    have others : some (lit "text") ≠ some (lit "agent_rename")
      ∧ some (lit "text") ≠ some (lit "agent_name_snapshot") := by
      decide
    rw [readMessageContent, kind, if_neg others.1, if_neg others.2]
    rw [encodeMessageContent] at encodes
    split at encodes
    · cases encodes
    · rename_i read textual
      obtain ⟨-, formed, -, whole⟩ := text_eq_ok.mp textual
      -- The message it answers is an identifier, with an image or without.
      have parents : ∀ valid : Bool,
        (reply.all fun parent => accepts (readId (.string parent) (lit "inReplyTo"))) = valid →
          valid = true → ∀ text, reply = some text → ∀ path',
            readId (.string text) path' = .ok text := by
        intro valid same holds text given path'
        subst given
        exact readId_of_accepts (by simpa [holds] using same) path'
      apply readTextContent_of (text_eq_ok.mpr ⟨rfl, formed, fits, whole⟩)
      · intro text given
        subst given
        cases image with
        | none =>
          simp only at encodes
          split at encodes
          · rename_i valid
            exact parents _ rfl valid text rfl
          · cases encodes
        | some picture =>
          simp only at encodes
          split at encodes
          · cases encodes
          · split at encodes
            · rename_i valid
              exact parents _ rfl valid text rfl
            · cases encodes
      -- An image that was encoded is read as itself.
      · intro picture given
        subst given
        simp only at encodes
        split at encodes
        · cases encodes
        · rename_i picture' reads
          rw [reads, readImageRef_toJson reads]

end

end Khala
