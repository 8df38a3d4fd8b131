import Khala.Control.StoreHistory
import Khala.Concurrent.Contract

/-! What each call of the control store relies on and guarantees, and what its answer then says. -/

namespace Khala

open Js Concurrent

section

variable (hash : Text → Text) (dateParse : Text → Option Int)

/-! ## Duties -/

/-- The key about which a call gives a definite answer. -/
def ControlCall.outcomeKey : ControlCall → Option Text
  | .read _ => none
  | .compareAndSet input => some input.key
  | .resolve key _ => some key

/-- The operation whose record a call may write. -/
def ControlCall.operation : ControlCall → Option Text
  | .compareAndSet input => some input.operationId
  | _ => none

/-- What the others do while a call waits. Under the strict condition nobody writes the record of
the call's operation once the call holds the ledger, nor as long as nobody holds it. -/
structure Others (strict : Prop) (tag : Nat) (call : ControlCall) (before after : ControlBlobs) :
    Prop where
  later : before.Later after
  foreign : ∀ version ∈ after.records.list, ∀ call', version.author = some (tag, call') →
    version ∈ before.records.list
  held : strict → ∀ operationId, call.operation = some operationId →
    before.LedgerBy hash operationId tag →
    after.HasWritten operationId → before.HasWritten operationId
  unclaimed : strict → ∀ operationId, call.operation = some operationId →
    ¬ after.Ledgered hash operationId →
    after.HasWritten operationId → before.HasWritten operationId

/-- Under the strict condition nobody creates the blob of a key while a call looks for its legacy
blob. -/
def GapKept (strict : Prop) (call : ControlCall) (op : BlobOp) (before after : ControlBlobs) :
    Prop :=
  strict → ∀ key oldKey, call.outcomeKey = some key → legacyFragmentKey key = some oldKey →
    op = .getWithMetadata .records oldKey → before.records.current (physicalKey hash key) = none →
      after.records.current (physicalKey hash key) = none

/-- What one operation of a call does to the stores. -/
inductive Change (usable : CompareAndSetInput → Prop) (tag : Nat) (call : ControlCall)
    (before after : ControlBlobs) : Prop
  /-- Neither records nor operations change. -/
  | silent (later : before.Later after) (records : after.records.list = before.records.list)
      (operations : after.operations.list = before.operations.list)
  /-- One record is written. -/
  | record (later : before.Later after) (input : CompareAndSetInput) (version : BlobVersion)
      (own : call = .compareAndSet input) (ok : usable input)
      (records : after.records.list = version :: before.records.list)
      (operations : after.operations = before.operations)
      (author : version.author = some (tag, call))
      (made : RecordMade hash before input version)
  /-- One entry of the ledger is written, where there was none. -/
  | operation (later : before.Later after) (input : CompareAndSetInput) (version : BlobVersion)
      (own : call = .compareAndSet input) (ok : usable input)
      (operations : after.operations.list = version :: before.operations.list)
      (records : after.records = before.records) (author : version.author = some (tag, call))
      (free : before.operations.current version.key = none)
      (made : OperationMade hash before input version)

/-- The stores are as calls leave them, and the call's own key is one that calls use. -/
structure Orderly (usable : CompareAndSetInput → Prop) (call : ControlCall) (blobs : ControlBlobs) :
    Prop where
  kept : ∃ next, Kept hash usable next blobs
  ok : ∀ input, call = .compareAndSet input → usable input

def storeDuty (strict : Prop) (usable : CompareAndSetInput → Prop) (tag : Nat)
    (call : ControlCall) : Duty blobEffects ControlBlobs where
  rely := fun op before after => Others hash strict tag call before after
    ∧ GapKept hash strict call op before after
  guarantee := Change hash usable tag call
  permits := fun _ blobs => Orderly hash usable call blobs

/-- What a read of a key tells about the stores at the moment of its last operation. Only a sure
read tells that the key has no blob of its own. -/
inductive Sighting (sure : Prop) (blobs : ControlBlobs) (key : Text) : LiveRead → Prop
  /-- The record under its own key. -/
  | direct (version : BlobVersion) (tagged : Bool) (now : Int)
      (current : blobs.records.current (physicalKey hash key) = some version) :
      Sighting sure blobs key (classify dateParse key (some (blobOf tagged version)) false now)
  /-- The legacy blob, which belongs to the key. -/
  | legacy (oldKey : Text) (version : BlobVersion) (tagged : Bool) (now : Int)
      (fragment : legacyFragmentKey key = some oldKey)
      (current : blobs.records.current oldKey = some version)
      (proves : provesLegacy key version.data = true)
      (absent : sure → blobs.records.current (physicalKey hash key) = none) :
      Sighting sure blobs key (classify dateParse key (some (blobOf tagged version)) true now)
  /-- No record, or one that cannot be read. -/
  | nothing (now : Int) (absent : sure → blobs.records.current (physicalKey hash key) = none) :
      Sighting sure blobs key (classify dateParse key none false now)

variable {hash dateParse}

/-- Others may change nothing. -/
theorem Others.refl {strict : Prop} {tag : Nat} {call : ControlCall} (blobs : ControlBlobs) :
    Others hash strict tag call blobs blobs :=
  ⟨.refl _, fun _ member _ _ => member, fun _ _ _ _ written =>
    written, fun _ _ _ _ written => written⟩

/-- What others changed twice, others have changed. -/
theorem Others.trans {strict : Prop} {tag : Nat} {call : ControlCall}
    {first second third : ControlBlobs} (one : Others hash strict tag call first second)
    (two : Others hash strict tag call second third) :
    Others hash strict tag call first third where
  later := one.later.trans two.later
  foreign := fun version member call' author =>
    one.foreign version (two.foreign version member call' author) call' author
  held := fun strictly operationId own ledger written =>
    one.held strictly operationId own ledger
      (two.held strictly operationId own (ledger.mono one.later) written)
  unclaimed := fun strictly operationId own free written =>
    one.unclaimed strictly operationId own (fun ledgered => free (ledgered.mono two.later))
      (two.unclaimed strictly operationId own free written)

/-- Nothing is changed in no gap. -/
theorem GapKept.refl {strict : Prop} {call : ControlCall} {op : BlobOp} (blobs : ControlBlobs) :
    GapKept hash strict call op blobs blobs :=
  fun _ _ _ _ _ _ absent => absent

/-- Two gaps in sequence are kept. -/
theorem GapKept.trans {strict : Prop} {call : ControlCall} {op : BlobOp}
    {first second third : ControlBlobs} (one : GapKept hash strict call op first second)
    (two : GapKept hash strict call op second third) :
    GapKept hash strict call op first third :=
  fun strictly key oldKey own fragment at_ absent =>
    two strictly key oldKey own fragment at_ (one strictly key oldKey own fragment at_ absent)

/-- Changing nothing is a change. -/
theorem Change.refl {usable : CompareAndSetInput → Prop} {tag : Nat} {call : ControlCall}
    (blobs : ControlBlobs) :
    Change hash usable tag call blobs blobs :=
  .silent (.refl _) rfl rfl

/-- After a change the blobs come after. -/
theorem Change.later {usable : CompareAndSetInput → Prop} {tag : Nat} {call : ControlCall}
    {before after : ControlBlobs} (change : Change hash usable tag call before after) :
    before.Later after := by
  cases change with
  | silent later => exact later
  | record later => exact later
  | operation later => exact later

/-! ## What a read tells -/

/-- A live record is a decoded blob with an entity tag. -/
theorem classify_live {key : Text} {raw : Option Blob} {legacy : Bool} {now : Int}
    {record : ControlRecord} (live : (classify dateParse key raw legacy now).live = some record) :
    ∃ blob etag envelope, raw = some blob ∧ blob.etag = some etag
      ∧ decodeEnvelope blob.data = some envelope
      ∧ record = toRecord key (some etag) envelope := by
  -- Every other way to classify a blob leaves no live record.
  unfold classify at live
  split at live
  · cases live
  · rename_i blob
    split at live
    · cases live
    · rename_i tagged
      obtain ⟨etag, held⟩ := Option.ne_none_iff_exists'.mp (by simpa using tagged)
      split at live
      · cases live
      · rename_i envelope decoded
        split at live
        · simp only [Option.some.injEq] at live
          exact ⟨blob, etag, envelope, rfl, held, decoded, by rw [← live, held]⟩
        · cases live

/-- A decoded envelope comes from the blob, whether it is live or not. -/
theorem classify_envelope {key : Text} {raw : Option Blob} {legacy : Bool} {now : Int}
    {envelope : StoredEnvelope}
    (found : (classify dateParse key raw legacy now).envelope = some envelope) :
    ∃ blob etag, raw = some blob ∧ blob.etag = some etag
      ∧ decodeEnvelope blob.data = some envelope := by
  unfold classify at found
  -- There is an envelope only for a blob with a tag whose bytes can be read.
  split at found
  · cases found
  · rename_i blob
    split at found
    · cases found
    · rename_i tagged
      -- The tag that was found is some tag.
      obtain ⟨etag, held⟩ := Option.ne_none_iff_exists'.mp (by simpa using tagged)
      split at found
      · cases found
      · rename_i decoded
        split at found <;> cases found <;> exact ⟨blob, etag, rfl, held, decoded⟩

/-- A live record is that of its envelope. -/
theorem classify_live_envelope {key : Text} {raw : Option Blob} {legacy : Bool} {now : Int}
    {record : ControlRecord} (live : (classify dateParse key raw legacy now).live = some record) :
    ∃ envelope, (classify dateParse key raw legacy now).envelope = some envelope
      ∧ record = toRecord key (raw.bind (·.etag)) envelope := by
  -- The record and the envelope are made from one blob.
  obtain ⟨blob, etag, envelope, rfl, held, decoded, rfl⟩ := classify_live live
  unfold classify at live ⊢
  simp only [held, decoded, Option.isNone_some, Bool.false_eq_true, if_false] at live ⊢
  split at live
  · rename_i fresh
    exact ⟨envelope, by simp [fresh], by simp [held]⟩
  · cases live

/-- A blob that is there is decoded, or reported as corrupt. -/
theorem classify_unseen {key : Text} {raw : Option Blob} {legacy : Bool} {now : Int}
    (corrupt : (classify dateParse key raw legacy now).corrupt = false)
    (unseen : (classify dateParse key raw legacy now).envelope = none) : raw = none := by
  unfold classify at corrupt unseen
  -- Only a blob that is not there is neither corrupt nor read.
  split at corrupt
  · rfl
  · split at corrupt
    · cases corrupt
    · rename_i tagged
      simp only [tagged, Bool.false_eq_true, if_false] at unseen
      split at corrupt
      · cases corrupt
      · rename_i decoded
        simp only [decoded] at unseen
        split at unseen <;> cases unseen

/-- What is classified keeps its blob. -/
@[simp] theorem classify_raw {key : Text} {raw : Option Blob} {legacy : Bool} {now : Int} :
    (classify dateParse key raw legacy now).raw = raw := by
  unfold classify
  split
  · rfl
  · split
    · rfl
    · split
      · rfl
      · split <;> rfl

/-- What is classified keeps whether it is a legacy one. -/
@[simp] theorem classify_legacy {key : Text} {raw : Option Blob} {legacy : Bool} {now : Int} :
    (classify dateParse key raw legacy now).legacy = legacy := by
  unfold classify
  split
  · rfl
  · split
    · rfl
    · split
      · rfl
      · split <;> rfl

namespace Sighting

variable {sure : Prop} {blobs : ControlBlobs} {key : Text} {found : LiveRead}

/-- The envelope a sure read finds is the record under the key. -/
theorem recordAt (sighting : Sighting hash dateParse sure blobs key found) (surely : sure)
    {envelope : StoredEnvelope} (seen : found.envelope = some envelope) :
    blobs.recordAt hash key = some envelope := by
  cases sighting with
  | direct version tagged now current =>
    obtain ⟨blob, etag, same, -, decoded⟩ := classify_envelope seen
    cases same
    rw [ControlBlobs.recordAt, recordIn, ← Versions.current, current]
    exact decoded
  | legacy oldKey version tagged now fragment current proves absent =>
    obtain ⟨blob, etag, same, -, decoded⟩ := classify_envelope seen
    cases same
    -- The key has no blob of its own, so its record is the legacy one.
    rw [ControlBlobs.recordAt, recordIn, ← Versions.current, absent surely, fragment]
    have newest : Versions.newest blobs.records.list oldKey = some version := current
    simp only [newest, proves, if_true]
    exact decoded
  | nothing now absent => cases seen

/-- The envelope any read finds is that of a version under the key or under its legacy fragment. -/
theorem member (sighting : Sighting hash dateParse sure blobs key found) {envelope : StoredEnvelope}
    (seen : found.envelope = some envelope) :
    ∃ version ∈ blobs.records.list, decodeEnvelope version.data = some envelope ∧
      (version.key = physicalKey hash key ∨
        (legacyFragmentKey key = some version.key ∧ provesLegacy key version.data = true)) := by
  -- What was seen lies under its own key, or as a legacy record.
  cases sighting with
  | direct version tagged now current =>
    obtain ⟨blob, etag, same, -, decoded⟩ := classify_envelope seen
    cases same
    obtain ⟨inside, at_⟩ := Versions.mem_of_newest current
    exact ⟨version, inside, decoded, Or.inl at_⟩
  | legacy oldKey version tagged now fragment current proves absent =>
    obtain ⟨blob, etag, same, -, decoded⟩ := classify_envelope seen
    cases same
    obtain ⟨inside, rfl⟩ := Versions.mem_of_newest current
    exact ⟨version, inside, decoded, Or.inr ⟨fragment, proves⟩⟩
  | nothing now absent => cases seen

/-- A sure read that finds nothing, not even a corrupt blob, finds the key without a blob of its
own. -/
theorem absent_of_unseen (sighting : Sighting hash dateParse sure blobs key found) (surely : sure)
    (corrupt : found.corrupt = false) (unseen : found.envelope = none) :
    blobs.records.current (physicalKey hash key) = none := by
  cases sighting with
  | direct version tagged now current => cases classify_unseen corrupt unseen
  | legacy oldKey version tagged now fragment current proves absent =>
    cases classify_unseen corrupt unseen
  | nothing now absent => exact absent surely

/-- A live record that was seen is that of its envelope. -/
theorem live_envelope (sighting : Sighting hash dateParse sure blobs key found)
    {record : ControlRecord} (live : found.live = some record) :
    ∃ envelope, found.envelope = some envelope
      ∧ record = toRecord key (found.raw.bind (·.etag)) envelope := by
  cases sighting with
  | direct version tagged now current =>
    simpa only [classify_raw] using classify_live_envelope live
  | legacy oldKey version tagged now fragment current proves absent =>
    simpa only [classify_raw] using classify_live_envelope live
  | nothing now absent => cases live

end Sighting

end

end Khala
