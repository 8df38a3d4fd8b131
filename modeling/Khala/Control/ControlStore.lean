import Khala.Control.Digest
import Khala.Concurrent.Machine
import Khala.Concurrent.Versions

/-! The control store: compare-and-set and resolve over two stores of blobs that are atomic key by
key. -/

namespace Khala

open Js Concurrent

/-! ## Blobs -/

/-- The two stores of blobs the adapter works on. -/
inductive BlobStore
  | records
  | operations

inductive SetCondition
  | onlyIfNew
  | onlyIfMatch (etag : Nat)

inductive BlobOp
  | getWithMetadata (store : BlobStore) (key : Text)
  | setJSON (store : BlobStore) (key : Text) (data : Json) (condition : SetCondition)

/-- What a blob reads as; the entity tag may be missing from a response. -/
structure Blob where
  data : Json
  etag : Option Nat

structure ProviderError where
  status : Option Nat

structure SetResult where
  modified : Bool
  etag : Option Nat

/-- A read comes with the trusted clock's time at which its reply is handled. -/
abbrev BlobOp.Reply : BlobOp → Type
  | getWithMetadata _ _ => Except ProviderError (Option Blob × Int)
  | setJSON _ _ _ _ => Except ProviderError SetResult

abbrev blobEffects : Interface := ⟨BlobOp, BlobOp.Reply⟩

abbrev BlobProgram := Program blobEffects

/-- A program that may throw what the provider throws. -/
abbrev ThrowingProgram := ExceptT ProviderError BlobProgram

def getWithMetadata (store : BlobStore) (key : Text) : ThrowingProgram (Option Blob × Int) :=
  ExceptT.mk (@Program.call blobEffects (.getWithMetadata store key))

def setJSON (store : BlobStore) (key : Text) (data : Json) (condition : SetCondition) :
    ThrowingProgram SetResult :=
  ExceptT.mk (@Program.call blobEffects (.setJSON store key data condition))

/-! ## Records and ledger entries -/

/-- What a record blob holds. -/
structure StoredEnvelope where
  operationId : Text
  value : Json
  expiresAt : Option Text

structure ControlRecord where
  key : Text
  revision : Option Nat
  operationId : Text
  value : Json
  expiresAt : Option Text

/-- The statuses with which the provider reports that it rejected a request before any write. -/
def DEFINITE_REJECTION_STATUSES : List Nat := [400, 401, 403, 404, 409, 412, 413]

def isDefiniteRejection (error : ProviderError) : Bool :=
  match error.status with
  | some status => DEFINITE_REJECTION_STATUSES.contains status
  | none => false

mutual

/-- Whether a value nests no deeper than the store accepts, counted from the given depth. -/
def isJsonValue (depth : Nat) : Json → Bool
  | .array items => depth ≤ 64 && areJsonItems (depth + 1) items
  | .object members => depth ≤ 64 && areJsonMembers (depth + 1) members
  | _ => depth ≤ 64

def areJsonItems (depth : Nat) : List Json → Bool
  | [] => true
  | item :: rest => isJsonValue depth item && areJsonItems depth rest

def areJsonMembers (depth : Nat) : List (Text × Json) → Bool
  | [] => true
  | (_, value) :: rest => isJsonValue depth value && areJsonMembers depth rest

end

/-- A property of a value, `undefined` unless the value is an object that has it. -/
def property (data : Json) (key : Text) : Option Json :=
  match data with
  | .object members => lookup members key
  | _ => none

def stringProperty (data : Json) (key : Text) : Option Text :=
  match property data key with
  | some (.string s) => some s
  | _ => none

def decodeEnvelope (data : Json) : Option StoredEnvelope := do
  let operationId ← stringProperty data (lit "operationId")
  -- An envelope without an operation is none.
  if operationId = [] then none
  let expiresAt ←
    -- A record may be without an end.
    match property data (lit "expiresAt") with
    | some .null => some none
    | some (.string s) => some (some s)
    | _ => none
  let value ← property data (lit "value")
  -- The value must be a JSON value, and not too deep.
  if isJsonValue 0 value then some ⟨operationId, value, expiresAt⟩ else none

def StoredEnvelope.toJson (envelope : StoredEnvelope) : Json :=
  .object [(lit "operationId", .string envelope.operationId), (lit "value", envelope.value),
    (lit "expiresAt", jsonOption envelope.expiresAt)]

/-- The claim on an operation that the ledger holds: the record's key and the digest of what is
written. -/
structure LedgerEntry where
  key : Text
  digest : Text
deriving DecidableEq

def LedgerEntry.toJson (entry : LedgerEntry) : Json :=
  .object [(lit "key", .string entry.key), (lit "digest", .string entry.digest)]

/-- The key and the digest of a ledger blob, when both are strings. -/
def ledgerEntryOf (data : Json) : Option LedgerEntry := do
  return ⟨← stringProperty data (lit "key"), ← stringProperty data (lit "digest")⟩

/-- `sameLedgerEntry`. -/
def sameLedgerEntry (data : Json) (entry : LedgerEntry) : Bool :=
  ledgerEntryOf data == some entry

/-- A ledger entry together with the hash of the operation it was proved to belong to. -/
structure LegacyLedgerProof where
  entry : LedgerEntry
  operationIdHash : Text

def LegacyLedgerProof.toJson (proof : LegacyLedgerProof) : Json :=
  .object [(lit "key", .string proof.entry.key), (lit "digest", .string proof.entry.digest),
    (lit "operationIdHash", .string proof.operationIdHash)]

def sameLegacyProof (data : Json) (expected : LegacyLedgerProof) : Bool :=
  sameLedgerEntry data expected.entry
    && stringProperty data (lit "operationIdHash") == some expected.operationIdHash

/-- An entity tag a write can be told by. -/
def validEtag (blob : Option Blob) : Bool :=
  (blob.bind (·.etag)).isSome

def sameWrite (record : Option ControlRecord) (operationId : Text) (value : Json)
    (expiresAt : Option Text) : Bool :=
  match record with
  | some record =>
    record.operationId == operationId && record.expiresAt == expiresAt
      && sameJsonValue record.value value
  | none => false

/-! ## Keys -/

/-- `[A-Za-z0-9/_.:@-]`. -/
def isSafeUnit (u : CodeUnit) : Bool :=
  (65 ≤ u && u ≤ 90) || (97 ≤ u && u ≤ 122) || (48 ≤ u && u ≤ 57) || (lit "/_.:@-").contains u

/-- The parts of a key between its slashes. -/
def segments (key : Text) : List Text :=
  key.splitOn 47

def isSafeKey (key : Text) : Bool :=
  key != [] && key.all isSafeUnit
    && (segments key).all fun segment => segment != [] && segment != lit "." && segment != lit ".."

/-- The part of a key before its first `#`, where earlier versions stored what belongs to the whole
key. -/
def legacyFragmentKey (key : Text) : Option Text :=
  if (35 : CodeUnit) ∈ key then some (key.takeWhile (· ≠ 35)) else none

/-- `[0-9a-f]`. -/
def isHexUnit (u : CodeUnit) : Bool :=
  (48 ≤ u && u ≤ 57) || (97 ≤ u && u ≤ 102)

/-- `/^channel-access-exchange\/[0-9a-f]{64}$/`. -/
def isExchangeKey (key : Text) : Bool :=
  (lit "channel-access-exchange/").isPrefixOf key && (key.drop 24).length == 64
    && (key.drop 24).all isHexUnit

/-- `operationId.startsWith(key + '#')`. -/
def belongsTo (operationId key : Text) : Bool :=
  (key ++ [35]).isPrefixOf operationId

section

-- The hexadecimal SHA-256 of a string's UTF-8 encoding, and `Date.parse`.
variable (hash : Text → Text) (dateParse : Text → Option Int)

/-- Keys that are safe in a URL stay; every other key is mapped to a namespace of its own. -/
def physicalKey (key : Text) : Text :=
  if isSafeKey key then key else lit "~v2/" ++ hash key

def proofKey (oldKey : Text) : Text :=
  lit "~legacy/" ++ hash oldKey

/-- Whether the ledger blob under a bare key can belong to the operation whose record is given. -/
def canonicalLegacyBoundClaim (key : Text) (envelope : StoredEnvelope) : Bool :=
  isExchangeKey key
    && (match property envelope.value (lit "seq") with
      | some (.number n) => n.text == lit "1"
      | _ => false)
    && stringProperty envelope.value (lit "phase") == some (lit "bound")
    && envelope.operationId == key ++ lit "#1.bound."
      ++ hash (stringify
        (.array [.string (stringify envelope.value), jsonOption envelope.expiresAt]))

/-- A record authorises reads only before its expiry; an unparseable expiry never authorises. -/
def isRecordLive (expiresAt : Option Text) (now : Int) : Bool :=
  match expiresAt with
  | none => true
  | some s =>
    match dateParse s with
    | some expiry => now < expiry
    | none => false

/-! ## Reading -/

structure LiveRead where
  raw : Option Blob
  live : Option ControlRecord
  corrupt : Bool
  /-- The decoded envelope regardless of liveness. -/
  envelope : Option StoredEnvelope
  legacy : Bool

def toRecord (key : Text) (etag : Option Nat) (envelope : StoredEnvelope) : ControlRecord :=
  ⟨key, etag, envelope.operationId, envelope.value, envelope.expiresAt⟩

/-- What a blob, or none, says about the record under a key. -/
def classify (key : Text) (raw : Option Blob) (legacy : Bool) (now : Int) : LiveRead :=
  match raw with
  -- There is no blob.
  | none => ⟨none, none, false, none, legacy⟩
  | some blob =>
    -- A blob without an entity tag, or that cannot be read, counts as corrupt.
    if blob.etag.isNone then ⟨raw, none, true, none, legacy⟩
    else
      match decodeEnvelope blob.data with
      | none => ⟨raw, none, true, none, legacy⟩
      | some envelope =>
        -- A record that has expired is as if it were not there, but its blob is.
        if isRecordLive dateParse envelope.expiresAt now then
          ⟨raw, some (toRecord key blob.etag envelope), false, some envelope, legacy⟩
        else ⟨raw, none, false, some envelope, legacy⟩

/-- Whether the bytes under a bare key belong to the whole key; only their operation tells. -/
def provesLegacy (key : Text) (data : Json) : Bool :=
  match decodeEnvelope data with
  | some envelope => belongsTo envelope.operationId key
  | none => false

def readLive (key : Text) : ThrowingProgram LiveRead := do
  let (raw, now) ← getWithMetadata .records (physicalKey hash key)
  -- The record under its own key comes first.
  if raw.isSome then return classify dateParse key raw false now
  match legacyFragmentKey key with
  -- Only a key with a long enough name has a legacy blob.
  | none => return classify dateParse key none false now
  | some oldKey =>
    let (old, now) ← getWithMetadata .records oldKey
    match old with
    | some blob =>
      -- A legacy blob counts only when its operation proves that it belongs to the key.
      if provesLegacy key blob.data then return classify dateParse key old true now
      return classify dateParse key none false now
    | none => return classify dateParse key none false now

/-! ## Claiming an operation -/

inductive ClaimResult
  | claimed (retry : Bool)
  | mismatch
  | unknown
  | unavailable
deriving DecidableEq

/-- The proof of whom a bare ledger blob belongs to, made now if it can be; none when nothing can be
proved. -/
def establishProof (oldKey : Text) (entry : LedgerEntry) : ThrowingProgram (Option Blob) := do
  let (proof, _) ← getWithMetadata .operations (proofKey hash oldKey)
  if proof.isSome then return proof
  -- The claim can be proved only while its record is still current.
  let record ← readLive hash dateParse entry.key
  match record.envelope with
  | none => return none
  | some envelope =>
    if !canonicalLegacyBoundClaim hash oldKey envelope
        || digestOf envelope.value envelope.expiresAt != entry.digest then return none
    let value : LegacyLedgerProof := ⟨entry, hash envelope.operationId⟩
    let write ← setJSON .operations (proofKey hash oldKey) value.toJson .onlyIfNew
    let (proof, _) ← getWithMetadata .operations (proofKey hash oldKey)
    match proof with
    | none => return none
    | some blob =>
      if blob.etag.isNone || !sameLegacyProof blob.data value
          || (write.modified && (write.etag.isNone || write.etag != blob.etag)) then return none
      return proof

/-- What a ledger blob under the bare key says about the claim; none when it says nothing. -/
def legacyClaim (operationId : Text) (claim : LedgerEntry) (oldKey : Text) :
    ThrowingProgram (Option ClaimResult) :=
  do
  let (old, _) ← getWithMetadata .operations oldKey
  match old with
  -- No legacy claim is there.
  | none => return none
  | some blob =>
    -- What cannot be read or confirmed leaves the outcome unknown.
    if blob.etag.isNone then return some .unknown
    match ledgerEntryOf blob.data with
    | none => return some .unknown
    | some entry =>
      -- The proof tells which operation the legacy entry belongs to.
      match ← establishProof hash dateParse oldKey entry with
      | none => return some .unknown
      | some proof =>
        match stringProperty proof.data (lit "operationIdHash") with
        | none => return some .unknown
        | some held =>
          if proof.etag.isNone || !sameLedgerEntry proof.data entry then return some .unknown
          -- The entry is this operation's: the same write, or a mismatch.
          if held = hash operationId then
            return some (if entry = claim then .claimed true else .mismatch)
          -- Another operation's entry is no obstacle, unless it looks the same.
          if entry = claim then return some .unknown
          return none

/-- Claims the operation in its own ledger blob; a claim made earlier makes this one a retry. -/
def claimInLedger (operationId : Text) (claim : LedgerEntry) : BlobProgram ClaimResult := do
  let ledgerKey := physicalKey hash operationId
  match ← (setJSON .operations ledgerKey claim.toJson .onlyIfNew).run with
  | .error error => return if isDefiniteRejection error then .unavailable else .unknown
  | .ok result =>
    if result.modified then
      -- The provider can report a write that it rejected, so the entry is read back.
      if result.etag.isNone then return .unknown
      match ← (getWithMetadata .operations ledgerKey).run with
      | .error _ => return .unknown
      | .ok (some confirmed, _) =>
        return if confirmed.etag = result.etag && sameLedgerEntry confirmed.data claim
          then .claimed false else .unknown
      | .ok (none, _) => return .unknown
    else
      match ← (getWithMetadata .operations ledgerKey).run with
      | .error _ => return .unknown
      | .ok (none, _) => return .unknown
      | .ok (some entry, _) =>
        if entry.etag.isNone then return .unknown
        if sameLedgerEntry entry.data claim then return .claimed true
        return if (ledgerEntryOf entry.data).isSome then .mismatch else .unknown

/-- Claims the operation for this key and digest, unless the legacy ledger already decides the
claim. -/
def claimOperation (operationId : Text) (claim : LedgerEntry) : BlobProgram ClaimResult := do
  let legacy ←
    match legacyFragmentKey operationId with
    | some oldKey => (legacyClaim hash dateParse operationId claim oldKey).run
    | none => pure (.ok none)
  match legacy with
  | .error _ => return .unknown
  | .ok (some result) => return result
  | .ok none => claimInLedger hash operationId claim

/-! ## Compare and set -/

structure CompareAndSetInput where
  key : Text
  expectedRevision : Option Nat
  operationId : Text
  value : Json
  expiresAt : Option Text
  /-- Every object has distinct keys. -/
  distinct : value.Distinct

inductive WriteResult
  | applied (record : ControlRecord)
  | conflict (current : Option ControlRecord)
  | operationMismatch
  | outcomeUnknown (operationId : Text)
  | unavailable

def CompareAndSetInput.envelope (input : CompareAndSetInput) : StoredEnvelope :=
  ⟨input.operationId, input.value, input.expiresAt⟩

/-- What a call claims its operation for. -/
def CompareAndSetInput.claim (input : CompareAndSetInput) : LedgerEntry :=
  ⟨input.key, digestOf input.value input.expiresAt⟩

def CompareAndSetInput.wrote (input : CompareAndSetInput) (record : Option ControlRecord) : Bool :=
  sameWrite record input.operationId input.value input.expiresAt

/-- Copies a legacy record to the blob of its whole key; none when another migration may have
interfered. -/
def migrate (key : Text) (before : LiveRead) : ThrowingProgram (Option LiveRead) := do
  match legacyFragmentKey key, before.raw with
  | some oldKey, some old =>
    -- The record is copied, unless somebody else has done that.
    let copied ← setJSON .records (physicalKey hash key) old.data .onlyIfNew
    let migrated ← readLive hash dateParse key
    -- The legacy blob is read once more, to see that it did not change meanwhile.
    let (oldNow, _) ← getWithMetadata .records oldKey
    match migrated.live, before.live with
    | some live, some record =>
      -- The copy must be the record that was read, and its tag must be known.
      if migrated.legacy || migrated.corrupt || oldNow.bind (·.etag) != old.etag
          || !sameWrite (some live) record.operationId record.value record.expiresAt
          || (copied.modified && (copied.etag.isNone || copied.etag != live.revision))
            then return none
      return some migrated
    | _, _ => return none
  | _, _ => return none

/-- Writes the record over what was read, and finds out what became of it. -/
def writeRecord (input : CompareAndSetInput) (retry : Bool) (before : LiveRead) :
    BlobProgram WriteResult :=
  do
  let condition := match before.raw.bind (·.etag) with
    | some etag => SetCondition.onlyIfMatch etag
    | none => .onlyIfNew
  match ← (setJSON .records (physicalKey hash input.key) input.envelope.toJson condition).run with
  | .error error => return if isDefiniteRejection error then .unavailable
    else .outcomeUnknown input.operationId
  | .ok result =>
    if result.modified then
      if result.etag.isNone then return .outcomeUnknown input.operationId
      match ← (readLive hash dateParse input.key).run with
      | .error _ => return .outcomeUnknown input.operationId
      | .ok after =>
        match after.live with
        | some record =>
          if record.revision = result.etag && input.wrote after.live then return .applied record
          return .outcomeUnknown input.operationId
        | none => return .outcomeUnknown input.operationId
    else
      -- Someone else raced the call, or its own earlier write had already landed.
      match ← (readLive hash dateParse input.key).run with
      | .error error => return if isDefiniteRejection error then .unavailable
        else .outcomeUnknown input.operationId
      | .ok after =>
        if after.corrupt then return .outcomeUnknown input.operationId
        match after.live with
        | some record =>
          if input.wrote after.live then return .applied record
          return if retry then .outcomeUnknown input.operationId else .conflict after.live
        | none => return if retry then .outcomeUnknown input.operationId else .conflict none

def compareAndSet (input : CompareAndSetInput) : BlobProgram WriteResult := do
  match ← claimOperation hash dateParse input.operationId input.claim with
  -- A claim that fails ends the call.
  | .mismatch => return .operationMismatch
  | .unavailable => return .unavailable
  | .unknown => return .outcomeUnknown input.operationId
  | .claimed retry =>
    match ← (readLive hash dateParse input.key).run with
    -- A definite refusal has left everything as it was.
    | .error error => return if isDefiniteRejection error then .unavailable
      else .outcomeUnknown input.operationId
    | .ok before =>
      if before.corrupt then return .unavailable
      match before.live, input.wrote before.live with
      -- The write was made by an earlier try.
      | some record, true => return .applied record
      | _, _ =>
        -- A retry cannot tell whether its earlier write came in between.
        if before.live.bind (·.revision) ≠ input.expectedRevision then
          return if retry then .outcomeUnknown input.operationId else .conflict before.live
        -- A legacy record is moved to its own key first.
        if before.legacy then
          match ← (migrate hash dateParse input.key before).run with
          | .ok (some migrated) => writeRecord hash dateParse input retry migrated
          | _ => return .outcomeUnknown input.operationId
        else writeRecord hash dateParse input retry before

/-! ## Read and resolve -/

inductive ControlRead
  | absent
  | record (record : ControlRecord)
  | unavailable

inductive ResolveResult
  | applied (record : ControlRecord)
  | notApplied
  | outcomeUnknown (operationId : Text)
  | unavailable

def read (key : Text) : BlobProgram ControlRead := do
  match ← (readLive hash dateParse key).run with
  | .error _ => return .unavailable
  | .ok found =>
    match found.live with
    | some record => return .record record
    | none => return if found.corrupt then .unavailable else .absent

def resolve (key operationId : Text) : BlobProgram ResolveResult := do
  match ← (readLive hash dateParse key).run with
  | .error _ => return .unavailable
  | .ok current =>
    match current.live with
    | some record =>
      return if record.operationId = operationId then .applied record
        else .outcomeUnknown operationId
    | none =>
      if current.corrupt then return .unavailable
      match current.envelope with
      | some envelope =>
        -- An expired record still proves whether the operation landed.
        return if envelope.operationId = operationId then
          .applied (toRecord key (current.raw.bind (·.etag)) envelope)
        else .outcomeUnknown operationId
      | none => return .notApplied

end

/-! ## The store as a service -/

inductive ControlCall
  | read (key : Text)
  | compareAndSet (input : CompareAndSetInput)
  | resolve (key operationId : Text)

abbrev ControlCall.Reply : ControlCall → Type
  | read _ => ControlRead
  | compareAndSet _ => WriteResult
  | resolve _ _ => ResolveResult

abbrev controlCalls : Interface := ⟨ControlCall, ControlCall.Reply⟩

/-- The call that made a version, with its number; none for what the store held before. -/
abbrev Author := Option (Nat × ControlCall)

abbrev BlobVersion := Version Text Json Author

structure ControlBlobs where
  records : Versions Text Json Author
  operations : Versions Text Json Author

def ControlBlobs.get (blobs : ControlBlobs) : BlobStore → Versions Text Json Author
  | .records => blobs.records
  | .operations => blobs.operations

def ControlBlobs.set (blobs : ControlBlobs) (store : BlobStore)
    (versions : Versions Text Json Author) : ControlBlobs :=
  match store with
  | .records => { blobs with records := versions }
  | .operations => { blobs with operations := versions }

/-- What the provider does with a request. -/
inductive ProviderChoice
  /-- A read is answered, with or without its entity tag, at the given time. -/
  | reads (tagged : Bool) (now : Int)
  /-- A write is carried out if its condition holds; the response may lack the new entity tag. -/
  | writes (tagged : Bool)
  /-- The request fails before anything is written. -/
  | fails (status : Option Nat)
  /-- A write is carried out if its condition holds, but the request fails, not definitely. -/
  | failsAfterwards (status : Option Nat)
  /-- A write is reported that never happened, without an entity tag or with one that belongs to
  nothing. -/
  | pretends (tagged : Bool)
  /-- A write is refused although its condition may hold. -/
  | refuses

/-- Whether the condition of a write holds. -/
def SetCondition.holds (condition : SetCondition) (current : Option BlobVersion) : Bool :=
  match condition, current with
  | .onlyIfNew, none => true
  | .onlyIfMatch etag, some version => version.etag == etag
  | _, _ => false

/-- The write itself, atomic on its key. -/
def ControlBlobs.write (blobs : ControlBlobs) (author : Author) (store : BlobStore) (key : Text)
    (data : Json) (condition : SetCondition) : Option ControlBlobs :=
  if condition.holds ((blobs.get store).current key)
    then some (blobs.set store ((blobs.get store).put key data author))
  else none

def execBlobs (author : Author) : Semantics blobEffects ProviderChoice ControlBlobs
  | .getWithMetadata store key, choice, blobs =>
    match choice with
    | .reads tagged now =>
      -- A read tells of the newest version.
      let blob := ((blobs.get store).current key).map fun version =>
        (⟨version.data, if tagged then some version.etag else none⟩ : Blob)
      some (.ok (blob, now), blobs)
    | .fails status => some (.error ⟨status⟩, blobs)
    | _ => none
  | .setJSON store key data condition, choice, blobs =>
    match choice with
    | .writes tagged =>
      match blobs.write author store key data condition with
      -- The write is made when the condition holds.
      | some after => some (.ok ⟨true, if tagged then some (blobs.get store).next else none⟩, after)
      | none => some (.ok ⟨false, none⟩, blobs)
    | .fails status => some (.error ⟨status⟩, blobs)
    | .failsAfterwards status =>
      -- A definite refusal never comes after a write.
      if isDefiniteRejection ⟨status⟩ then none
      else some (.error ⟨status⟩, (blobs.write author store key data condition).getD blobs)
    -- The provider tells of a write that it did not make.
    | .pretends tagged =>
      some (.ok ⟨true, if tagged then some (blobs.get store).next else none⟩,
        blobs.set store (blobs.get store).skip)
    -- The write is not made, as its condition fails.
    | .refuses => some (.ok ⟨false, none⟩, blobs)
    | .reads _ _ => none

/-- The control store and everyone who calls it. -/
abbrev controlStore (hash : Text → Text) (dateParse : Text → Option Int) : Service where
  Calls := controlCalls
  Effects := blobEffects
  Store := ControlBlobs
  Choice := ProviderChoice
  body
    | .read key => read hash dateParse key
    | .compareAndSet input => compareAndSet hash dateParse input
    | .resolve key operationId => resolve hash dateParse key operationId
  exec := fun tag call => execBlobs (some (tag, call))
  Event := Empty
  outside := fun event _ => nomatch event

end Khala
