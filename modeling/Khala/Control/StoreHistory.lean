import Khala.Control.ControlStore

/-! What the versions kept in the two stores say: which record a key has, who claimed it and who
wrote it. -/

namespace Khala

open Js Concurrent

/-! ## One blob operation -/

/-- One more version under a key, written by the given author. -/
def ControlBlobs.put (blobs : ControlBlobs) (author : Author) (store : BlobStore) (key : Text)
    (data : Json) : ControlBlobs :=
  blobs.set store ((blobs.get store).put key data author)

/-- What a version reads as. -/
def blobOf (tagged : Bool) (version : BlobVersion) : Blob :=
  ⟨version.data, if tagged then some version.etag else none⟩

/-- Everything a conditional write can do and answer. -/
inductive SetOutcome (author : Author) (store : BlobStore) (key : Text) (data : Json)
    (condition : SetCondition) (blobs : ControlBlobs) :
    Except ProviderError SetResult → ControlBlobs → Prop
  /-- The write is made, and this is told. -/
  | wrote (tagged : Bool) (met : condition.holds ((blobs.get store).current key) = true) :
      SetOutcome author store key data condition blobs
        (.ok ⟨true, if tagged then some (blobs.get store).next else none⟩)
        (blobs.put author store key data)
  /-- The condition does not hold. -/
  | unmet : SetOutcome author store key data condition blobs (.ok ⟨false, none⟩) blobs
  /-- The call fails before it writes. -/
  | failed (status : Option Nat) :
  SetOutcome author store key data condition blobs (.error ⟨status⟩) blobs
  /-- The call fails after the write, which a definite refusal never does. -/
  | failedLate (status : Option Nat) (unsure : isDefiniteRejection ⟨status⟩ = false)
      (met : condition.holds ((blobs.get store).current key) = true) :
      SetOutcome author store key data condition blobs (.error ⟨status⟩)
        (blobs.put author store key data)
  /-- The provider tells of a write that it did not make. -/
  | pretended (tagged : Bool) : SetOutcome author store key data condition blobs
      (.ok ⟨true, if tagged then some (blobs.get store).next else none⟩)
      (blobs.set store (blobs.get store).skip)

/-- A read changes nothing, and gives the newest blob unless it fails. -/
theorem execBlobs_get {author : Author} {store : BlobStore} {key : Text} {choice : ProviderChoice}
    {blobs after : ControlBlobs} {reply : Except ProviderError (Option Blob × Int)}
    (ran : execBlobs author (.getWithMetadata store key) choice blobs = some (reply, after)) :
    after = blobs ∧ ((∃ error, reply = .error error) ∨
      ∃ tagged now, reply = .ok (((blobs.get store).current key).map (blobOf tagged), now)) := by
  -- A read is answered or fails; nothing else can happen to it.
  cases choice with
  | reads tagged now => cases ran; exact ⟨rfl, Or.inr ⟨tagged, now, rfl⟩⟩
  | fails status => cases ran; exact ⟨rfl, Or.inl ⟨_, rfl⟩⟩
  | _ => cases ran

/-- A write puts a blob, fails, or does both. -/
theorem execBlobs_set {author : Author} {store : BlobStore} {key : Text} {data : Json}
    {condition : SetCondition} {choice : ProviderChoice} {blobs after : ControlBlobs}
    {reply : Except ProviderError SetResult}
    (ran : execBlobs author (.setJSON store key data condition) choice blobs
      = some (reply, after)) :
    SetOutcome author store key data condition blobs reply after := by
  cases choice with
  | reads tagged now => cases ran
  | writes tagged =>
    -- The write is carried out exactly when its condition holds.
    cases met : condition.holds ((blobs.get store).current key) with
    | true =>
      simp only [execBlobs, ControlBlobs.write, met, if_true, Option.some.injEq, Prod.mk.injEq]
        at ran
      obtain ⟨rfl, rfl⟩ := ran
      exact .wrote tagged met
    | false =>
      simp only [execBlobs, ControlBlobs.write, met, Bool.false_eq_true, if_false,
        Option.some.injEq,
        Prod.mk.injEq] at ran
      obtain ⟨rfl, rfl⟩ := ran
      exact .unmet
  | fails status => cases ran; exact .failed status
  | failsAfterwards status =>
    simp only [execBlobs] at ran
    split at ran
    · cases ran
    · rename_i unsure
      cases met : condition.holds ((blobs.get store).current key) with
      | true =>
        simp only [ControlBlobs.write, met, if_true, Option.getD_some, Option.some.injEq,
          Prod.mk.injEq] at ran
        obtain ⟨rfl, rfl⟩ := ran
        exact .failedLate status (Bool.eq_false_iff.mpr unsure) met
      | false =>
        simp only [ControlBlobs.write, met, Bool.false_eq_true, if_false, Option.getD_none,
          Option.some.injEq,
          Prod.mk.injEq] at ran
        obtain ⟨rfl, rfl⟩ := ran
        exact .failed status
  | pretends tagged => cases ran; exact .pretended tagged
  | refuses => cases ran; exact .unmet

/-- Both stores have moved on from an earlier state, and what the ledger has gained was written by
calls. -/
structure ControlBlobs.Later (before after : ControlBlobs) : Prop where
  records : Versions.Later before.records after.records
  operations : Versions.Later before.operations after.operations
  settled : ∀ version ∈ after.operations.list, version.author = none →
    version ∈ before.operations.list

/-- Blobs come after themselves. -/
theorem ControlBlobs.Later.refl (blobs : ControlBlobs) : blobs.Later blobs :=
  ⟨.refl _, .refl _, fun _ member _ => member⟩

/-- What comes after what comes after comes after. -/
theorem ControlBlobs.Later.trans {first second third : ControlBlobs} (one : first.Later second)
    (two : second.Later third) : first.Later third :=
  ⟨one.records.trans two.records, one.operations.trans two.operations,
    fun version member author => one.settled version (two.settled version member author) author⟩

/-- A ledger condition that asks for a new blob holds only while the key is free. -/
theorem SetCondition.holds_onlyIfNew {current : Option BlobVersion} :
    SetCondition.holds .onlyIfNew current = true ↔ current = none := by
  cases current <;> simp [SetCondition.holds]

/-! ## Envelopes and entries -/

/-- What reads an envelope back is the envelope that was written. -/
theorem decodeEnvelope_toJson {envelope found : StoredEnvelope}
    (decoded : decodeEnvelope envelope.toJson = some found) :
    found = envelope := by
  obtain ⟨operationId, value, expiresAt⟩ := envelope
  -- The three properties are found by their names; what remains are the checks.
  have operation : stringProperty (StoredEnvelope.toJson ⟨operationId, value, expiresAt⟩)
    (lit "operationId")
      = some operationId := by
    simp [stringProperty, property, StoredEnvelope.toJson, lookup]
  have expiry : property (StoredEnvelope.toJson ⟨operationId, value, expiresAt⟩) (lit "expiresAt")
      = some (jsonOption expiresAt) := by
    have differs : lit "operationId" ≠ lit "expiresAt" ∧ lit "value" ≠ lit "expiresAt" := by decide
    simp [property, StoredEnvelope.toJson, lookup, differs]
  have content : property (StoredEnvelope.toJson ⟨operationId, value, expiresAt⟩)
    (lit "value") = some value := by
    have differs : lit "operationId" ≠ lit "value" := by decide
    simp [property, StoredEnvelope.toJson, lookup, differs]
  rw [decodeEnvelope, operation, expiry, content] at decoded
  cases expiresAt <;>
    simp only [jsonOption, Option.bind_eq_bind, Option.bind_some] at decoded <;>
    split at decoded <;> simp_all

/-- An entry of the ledger is read as it was written. -/
@[simp] theorem ledgerEntryOf_toJson (entry : LedgerEntry) :
    ledgerEntryOf entry.toJson = some entry := by
  have differs : lit "key" ≠ lit "digest" := by decide
  simp [ledgerEntryOf, stringProperty, property, LedgerEntry.toJson, lookup, differs]

/-- A proof reads as the entry it was made for, with the hash it was made with. -/
theorem ledgerEntryOf_proof (proof : LegacyLedgerProof) :
    ledgerEntryOf proof.toJson = some proof.entry := by
  have differs : lit "key" ≠ lit "digest" := by decide
  simp [ledgerEntryOf, stringProperty, property, LegacyLedgerProof.toJson, lookup, differs]

/-- A proof names the hash of its operation. -/
theorem operationIdHash_proof (proof : LegacyLedgerProof) :
    stringProperty proof.toJson (lit "operationIdHash") = some proof.operationIdHash := by
  have differs : lit "key" ≠ lit "operationIdHash"
    ∧ lit "digest" ≠ lit "operationIdHash" := by decide
  simp [stringProperty, property, LegacyLedgerProof.toJson, lookup, differs]

/-- The same entry is the one that is read. -/
theorem sameLedgerEntry_iff {data : Json} {entry : LedgerEntry} :
    sameLedgerEntry data entry = true ↔ ledgerEntryOf data = some entry := by
  simp [sameLedgerEntry]

/-- A value is the same as itself when its objects have distinct keys. -/
theorem sameJsonValue_refl {value : Json} (distinct : value.Distinct) :
    sameJsonValue value value = true := by
  induction value using Json.induct with
  | null => rfl
  | bool value => simp [sameJsonValue]
  | number value => simp [sameJsonValue]
  | string value => simp [sameJsonValue]
  | array items ih =>
    simp only [Json.Distinct, distinctItems_iff] at distinct
    simp only [sameJsonValue, beq_self_eq_true, Bool.true_and, sameItems_iff, List.forall₂_same]
    exact fun item member => ih item member (distinct item member)
  | object members ih =>
    simp only [Json.Distinct, distinctMembers_iff] at distinct
    simp only [sameJsonValue, beq_self_eq_true, Bool.true_and, sameMembers_iff]
    -- Each member finds itself under its own key.
    exact fun member inside => ⟨member.2, (lookup_eq_some distinct.1).mpr inside,
      ih member inside (distinct.2 member inside)⟩

section

variable (hash : Text → Text) (dateParse : Text → Option Int)

/-! ## What the versions say -/

/-- The record that a list of versions, the newest first, holds under a key. -/
def recordIn (list : List BlobVersion) (key : Text) : Option StoredEnvelope :=
  match Versions.newest list (physicalKey hash key) with
  | some version => decodeEnvelope version.data
  | none =>
    -- No record has its own key, so the legacy blob may be the record.
    match legacyFragmentKey key with
    | none => none
    | some oldKey =>
      match Versions.newest list oldKey with
      | some version => if provesLegacy key version.data then decodeEnvelope version.data else none
      | none => none

/-- The record that is now under a key. -/
def ControlBlobs.recordAt (blobs : ControlBlobs) (key : Text) : Option StoredEnvelope :=
  recordIn hash blobs.records.list key

/-- A call of the operation wrote this version as its record. -/
def WroteFor (operationId : Text) (input : CompareAndSetInput) (version : BlobVersion) : Prop :=
  (∃ tag, version.author = some (tag, .compareAndSet input)) ∧ input.operationId = operationId
    ∧ version.data = input.envelope.toJson

/-- Some call of the operation has written its record. -/
def ControlBlobs.HasWritten (blobs : ControlBlobs) (operationId : Text) : Prop :=
  ∃ input, ∃ version ∈ blobs.records.list, WroteFor operationId input version

/-- Some call of the operation has written its record under the key. -/
def ControlBlobs.HasWrittenAt (blobs : ControlBlobs) (key operationId : Text) : Prop :=
  ∃ input, input.key = key ∧ ∃ version ∈ blobs.records.list, WroteFor operationId input version

/-- The call has made a version with which the record changed under its own key, or under any key
that is stored elsewhere. -/
def ControlBlobs.ChangedRecord (blobs : ControlBlobs) (tag : Nat) : Prop :=
  ∃ input, ∃ version ∈ blobs.records.list, version.author = some (tag, .compareAndSet input) ∧
    ∃ key, (physicalKey hash key = physicalKey hash input.key → key = input.key) ∧
      recordIn hash (version :: blobs.records.past version) key
        ≠ recordIn hash (blobs.records.past version) key

/-- The ledger blob under this key claims the entry. -/
def ControlBlobs.LedgerHolds (blobs : ControlBlobs) (key : Text) (entry : LedgerEntry) : Prop :=
  ∃ version ∈ blobs.operations.list, version.key = key ∧ ledgerEntryOf version.data = some entry

/-- The operation has a ledger blob of its own. -/
def ControlBlobs.Ledgered (blobs : ControlBlobs) (operationId : Text) : Prop :=
  ∃ version ∈ blobs.operations.list, version.key = physicalKey hash operationId

/-- The call made the operation's ledger blob. -/
def ControlBlobs.LedgerBy (blobs : ControlBlobs) (operationId : Text) (tag : Nat) : Prop :=
  ∃ version ∈ blobs.operations.list, version.key = physicalKey hash operationId ∧ ∃ call,
    version.author = some (tag, call)

/-- The operation is claimed for the entry, by its own ledger blob or by a proven legacy one. -/
def ControlBlobs.Claimed (blobs : ControlBlobs) (operationId : Text) (entry : LedgerEntry) : Prop :=
  blobs.LedgerHolds (physicalKey hash operationId) entry ∨
  ∃ oldKey, legacyFragmentKey operationId = some oldKey ∧ blobs.LedgerHolds oldKey entry ∧
    ∃ version ∈ blobs.operations.list, version.key = proofKey hash oldKey
      ∧ ledgerEntryOf version.data = some entry
      ∧ stringProperty version.data (lit "operationIdHash") = some (hash operationId)

/-- No ledger blob that was found under the operation's legacy key is its claim: there is none, or
it is proved to belong to another operation. -/
def ControlBlobs.Cleared (blobs : ControlBlobs) (operationId : Text) : Prop :=
  ∀ oldKey, legacyFragmentKey operationId = some oldKey →
    ∀ version ∈ blobs.operations.list, version.key = oldKey → version.author = none →
      ∃ proof ∈ blobs.operations.list, proof.key = proofKey hash oldKey
        ∧ stringProperty proof.data (lit "operationIdHash") ≠ some (hash operationId)

/-- A version somewhere under a key's legacy fragment whose bytes belong to the whole key. -/
def ControlBlobs.LegacyCopy (blobs : ControlBlobs) (key : Text) (data : Json) : Prop :=
  ∃ version ∈ blobs.records.list, legacyFragmentKey key = some version.key ∧ version.data = data
    ∧ provesLegacy key data = true

/-- How a call comes to write a record: it has claimed its operation, and it writes its own record
or copies a legacy one to the blob of the whole key. -/
structure RecordMade (blobs : ControlBlobs) (input : CompareAndSetInput) (version : BlobVersion) :
    Prop where
  key : version.key = physicalKey hash input.key
  claimed : blobs.Claimed hash input.operationId input.claim
  data : version.data = input.envelope.toJson ∨ blobs.LegacyCopy input.key version.data

/-- The record from which a legacy claim was proved. -/
structure ProofGrounds (blobs : ControlBlobs) (oldKey : Text) (proof : LegacyLedgerProof)
    (envelope : StoredEnvelope) (version : BlobVersion) : Prop where
  /-- The entry is in the ledger. -/
  ledger : blobs.LedgerHolds oldKey proof.entry
  member : version ∈ blobs.records.list
  decoded : decodeEnvelope version.data = some envelope
  /-- The record belongs to the legacy entry. -/
  canonical : canonicalLegacyBoundClaim hash oldKey envelope = true
  digest : digestOf envelope.value envelope.expiresAt = proof.entry.digest
  hashed : hash envelope.operationId = proof.operationIdHash
  /-- The record has its own key, or that of a legacy blob. -/
  place : version.key = physicalKey hash proof.entry.key ∨
    (legacyFragmentKey proof.entry.key = some version.key
      ∧ provesLegacy proof.entry.key version.data = true)

/-- How a call comes to write a ledger blob: it claims its operation, which no legacy claim names,
or it proves a legacy claim. -/
inductive OperationMade (blobs : ControlBlobs) (input : CompareAndSetInput)
    (version : BlobVersion) : Prop
  | ledger (key : version.key = physicalKey hash input.operationId)
    (data : version.data = input.claim.toJson)
      (cleared : blobs.Cleared hash input.operationId)
  | proof (oldKey : Text) (proof : LegacyLedgerProof) (envelope : StoredEnvelope)
    (record : BlobVersion)
      (fragment : legacyFragmentKey input.operationId = some oldKey)
      (key : version.key = proofKey hash oldKey)
      (data : version.data = proof.toJson)
      (grounds : ProofGrounds hash blobs oldKey proof envelope record)

/-- Every version that a call has made was made as calls make them, and no ledger key has two. -/
structure Kept (usable : CompareAndSetInput → Prop) (next : Nat) (blobs : ControlBlobs) : Prop where
  once : blobs.operations.list.Pairwise fun later earlier => later.key ≠ earlier.key
  records : ∀ version ∈ blobs.records.list, ∀ tag call, version.author = some (tag, call) →
    tag < next ∧ ∃ input, call = .compareAndSet input ∧ usable input
      ∧ RecordMade hash blobs input version
  operations : ∀ version ∈ blobs.operations.list, ∀ tag call, version.author = some (tag, call) →
    tag < next ∧ ∃ input, call = .compareAndSet input ∧ usable input
      ∧ OperationMade hash blobs input version

variable {hash dateParse}

/-! ## What stays true as the stores grow -/

variable {blobs before after : ControlBlobs}

/-- What the ledger holds it holds later. -/
theorem ControlBlobs.LedgerHolds.mono {key : Text} {entry : LedgerEntry}
    (holds : before.LedgerHolds key entry) (later : before.Later after) :
    after.LedgerHolds key entry := by
  obtain ⟨version, member, facts⟩ := holds
  exact ⟨version, later.operations.mem member, facts⟩

/-- An operation in the ledger stays there. -/
theorem ControlBlobs.Ledgered.mono {operationId : Text}
    (ledgered : before.Ledgered hash operationId) (later : before.Later after) :
    after.Ledgered hash operationId := by
  obtain ⟨version, member, facts⟩ := ledgered
  exact ⟨version, later.operations.mem member, facts⟩

/-- Who made an entry of the ledger stays so. -/
theorem ControlBlobs.LedgerBy.mono {operationId : Text} {tag : Nat}
    (ledger : before.LedgerBy hash operationId tag) (later : before.Later after) :
    after.LedgerBy hash operationId tag := by
  obtain ⟨version, member, facts⟩ := ledger
  exact ⟨version, later.operations.mem member, facts⟩

/-- An operation that was claimed stays so. -/
theorem ControlBlobs.Claimed.mono {operationId : Text} {entry : LedgerEntry}
    (claimed : before.Claimed hash operationId entry) (later : before.Later after) :
    after.Claimed hash operationId entry := by
  rcases claimed with own | ⟨oldKey, fragment, holds, version, member, facts⟩
  · exact Or.inl (own.mono later)
  · exact Or.inr ⟨oldKey, fragment, holds.mono later, version, later.operations.mem member, facts⟩

/-- An operation that was cleared stays so. -/
theorem ControlBlobs.Cleared.mono {operationId : Text} (cleared : before.Cleared hash operationId)
    (later : before.Later after) : after.Cleared hash operationId := by
  intro oldKey fragment version member at_ found
  -- What was found is older than anything a call has written.
  obtain ⟨proof, inside, facts⟩ :=
    cleared oldKey fragment version (later.settled version member found) at_ found
  exact ⟨proof, later.operations.mem inside, facts⟩

/-- A copy of a legacy record stays one. -/
theorem ControlBlobs.LegacyCopy.mono {key : Text} {data : Json} (copy : before.LegacyCopy key data)
    (later : before.Later after) : after.LegacyCopy key data := by
  obtain ⟨version, member, facts⟩ := copy
  exact ⟨version, later.records.mem member, facts⟩

/-- What made a record stays there. -/
theorem RecordMade.mono {input : CompareAndSetInput} {version : BlobVersion}
    (made : RecordMade hash before input version) (later : before.Later after) :
    RecordMade hash after input version :=
  ⟨made.key, made.claimed.mono later, made.data.imp_right fun copy => copy.mono later⟩

/-- What made an operation's entry stays there. -/
theorem OperationMade.mono {input : CompareAndSetInput} {version : BlobVersion}
    (made : OperationMade hash before input version) (later : before.Later after) :
    OperationMade hash after input version := by
  cases made with
  | ledger key data cleared => exact .ledger key data (cleared.mono later)
  | proof oldKey proof envelope record fragment key data grounds =>
    exact .proof oldKey proof envelope record fragment key data
      { grounds with ledger := grounds.ledger.mono later,
                     member := later.records.mem grounds.member }

/-- Two versions of one ledger key are one version. -/
theorem Kept.same {usable : CompareAndSetInput → Prop} {next : Nat}
    (kept : Kept hash usable next blobs) {first second : BlobVersion}
    (inFirst : first ∈ blobs.operations.list) (inSecond : second ∈ blobs.operations.list)
    (key : first.key = second.key) : first = second := by
  have apart : (blobs.operations.list.map (·.key)).Nodup := List.pairwise_map.mpr kept.once
  exact List.inj_on_of_nodup_map apart inFirst inSecond key

/-- Who has written its record has claimed its operation. -/
theorem Kept.claimed_of_written {usable : CompareAndSetInput → Prop} {next : Nat}
    (kept : Kept hash usable next blobs) {operationId : Text}
    (written : blobs.HasWritten operationId) :
    ∃ entry, blobs.Claimed hash operationId entry := by
  obtain ⟨input, version, member, ⟨tag, author⟩, rfl, -⟩ := written
  obtain ⟨-, input', call, -, made⟩ := kept.records version member _ _ author
  cases call
  exact ⟨_, made.claimed⟩

end

end Khala
