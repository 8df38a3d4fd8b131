import Khala.Control.StoreAnswers

/-! The contract of the control store: what all its calls together keep of the two stores. -/

namespace Khala

open Js Concurrent

section

variable (hash : Text → Text) {dateParse : Text → Option Int}

/-- What is promised about the control store; what else the invariant says is left open. -/
def storeContract (strict : Prop) (usable : CompareAndSetInput → Prop)
    (also : List (Answer (controlStore hash dateParse)) → ControlBlobs → Prop) :
    Contract (controlStore hash dateParse) where
  invariant := fun log next blobs => Kept hash usable next blobs ∧ also log blobs
  duty := fun tag call => storeDuty hash strict usable tag call
  answer := fun answer _ after => Answered hash strict usable answer after

variable {hash} {strict : Prop} {usable : CompareAndSetInput → Prop} {tag next : Nat}
    {call : ControlCall}
  {before after : ControlBlobs}

/-- A version made by a call is made as calls make them. -/
theorem Kept.change (kept : Kept hash usable next before) (below : tag < next)
    (change : Change hash usable tag call before after) : Kept hash usable next after := by
  have records : ∀ version ∈ before.records.list, ∀ tag call, version.author = some (tag, call) →
    before.Later after →
      tag < next ∧ ∃ input, call = .compareAndSet input ∧ usable input
        ∧ RecordMade hash after input version := by
    intro version member tag call author later
    obtain ⟨low, input, own, ok, made⟩ := kept.records version member tag call author
    exact ⟨low, input, own, ok, made.mono later⟩
  have operations : ∀ version ∈ before.operations.list, ∀ tag call,
    version.author = some (tag, call) →
      before.Later after →
      tag < next ∧ ∃ input, call = .compareAndSet input ∧ usable input
        ∧ OperationMade hash after input version := by
    intro version member tag call author later
    obtain ⟨low, input, own, ok, made⟩ := kept.operations version member tag call author
    exact ⟨low, input, own, ok, made.mono later⟩
  cases change with
  | silent later sameRecords sameOperations =>
    refine ⟨sameOperations ▸ kept.once, ?_, ?_⟩
    · rw [sameRecords]
      exact fun version member tag call author => records version member tag call author later
    · rw [sameOperations]
      exact fun version member tag call author => operations version member tag call author later
  | record later input version own ok grown same author made =>
    refine ⟨same ▸ kept.once, ?_, ?_⟩
    · rw [grown]
      intro other member tag' call' author'
      rcases List.mem_cons.mp member with rfl | old
      · cases author.symm.trans author'
        exact ⟨below, input, own, ok, made.mono later⟩
      · exact records other old tag' call' author' later
    · rw [same]
      exact fun version member tag call author => operations version member tag call author later
  | operation later input version own ok grown same author free made =>
    refine ⟨?_, ?_, ?_⟩
    · rw [grown, List.pairwise_cons]
      -- The key of the new blob was free.
      exact ⟨fun other member equal =>
        Versions.newest_eq_none.mp free other member equal.symm, kept.once⟩
    · rw [same]
      exact fun version member tag call author => records version member tag call author later
    · rw [grown]
      intro other member tag' call' author'
      rcases List.mem_cons.mp member with rfl | old
      · cases author.symm.trans author'
        exact ⟨below, input, own, ok, made.mono later⟩
      · exact operations other old tag' call' author' later

/-- The invariant does not look at numbers that are yet to come. -/
theorem Kept.succ (kept : Kept hash usable next before) : Kept hash usable (next + 1) before where
  once := kept.once
  records version member tag call author :=
    (kept.records version member tag call author).imp_left Nat.lt_succ_of_lt
  operations version member tag call author :=
    (kept.operations version member tag call author).imp_left Nat.lt_succ_of_lt

/-- A call that begins has made nothing yet. -/
theorem Kept.quiet (kept : Kept hash usable next before) : before.Quiet next :=
  fun version member call author => Nat.lt_irrefl _ (kept.records version member next call author).1

/-- Every call keeps its duty from its beginning on. -/
theorem callSafe_body {also : List (Answer (controlStore hash dateParse)) → ControlBlobs → Prop}
    (kept : Kept hash usable next before) (call : ControlCall) :
    (storeContract hash strict usable also).CallSafe next call
    ((controlStore hash dateParse).body call) before := by
  cases call with
  | read key => exact Keeps.read
  | compareAndSet input => exact Keeps.compareAndSet kept.quiet
  | resolve key operationId => exact Keeps.resolve

/-- The part of what a call relies on that every other call grants it unconditionally. -/
theorem Change.foreign {tag' : Nat} (change : Change hash usable tag call before after)
    (differs : tag ≠ tag') :
    before.Later after ∧ ∀ version ∈ after.records.list, ∀ call',
      version.author = some (tag', call') →
      version ∈ before.records.list := by
  cases change with
  | silent later records operations => exact ⟨later, fun version member _ _ => records ▸ member⟩
  | operation later input version own ok operations records author free made =>
    exact ⟨later, fun version member _ _ => records ▸ member⟩
  | record later input version own ok records operations author made =>
    refine ⟨later, fun other member call' author' => ?_⟩
    rw [records] at member
    rcases List.mem_cons.mp member with rfl | old
    · cases author.symm.trans author'
      exact absurd rfl differs
    · exact old

/-- A version appears in the records only by a write to its key whose condition holds. -/
theorem execBlobs_record {author : Author} {op : BlobOp} {choice : ProviderChoice}
    {reply : op.Reply} {version : BlobVersion}
    (ran : execBlobs author op choice before = some (reply, after))
    (grown : after.records.list = version :: before.records.list) :
    ∃ condition, op = .setJSON .records version.key version.data condition
      ∧ condition.holds (before.records.current version.key) = true := by
  -- The operation has added a version, so it was not without effect.
  have unchanged : after.records.list ≠ before.records.list := by
    rw [grown]
    exact fun same => by simpa using congrArg List.length same
  -- Only a write to the records adds one.
  cases op with
  | getWithMetadata store key =>
    obtain ⟨rfl, -⟩ := execBlobs_get ran
    exact absurd rfl unchanged
  | setJSON store key data condition =>
    have outcome := execBlobs_set ran
    cases store with
    | operations => exact absurd (congrArg (·.list) outcome.records_eq) unchanged
    | records =>
      -- The version added is the one written, under the condition that was met.
      have written : ∀ {written : ControlBlobs}, written = before.put author .records key data →
        written = after →
          condition.holds ((before.get .records).current key) = true →
          ∃ condition', BlobOp.setJSON .records key data condition
            = .setJSON .records version.key version.data condition'
            ∧ condition'.holds (before.records.current version.key) = true := by
        rintro _ rfl rfl met
        obtain ⟨rfl, -⟩ := List.cons.inj grown
        exact ⟨condition, rfl, met⟩
      -- It was written at once, or in spite of the failure that was answered.
      cases outcome with
      | wrote tagged met => exact written rfl rfl met
      | unmet => exact absurd rfl unchanged
      | failed status => exact absurd rfl unchanged
      | failedLate status unsure met => exact written rfl rfl met
      | pretended tagged => exact absurd rfl unchanged

/-- A store as it is found: it may hold anything, but a ledger key has one blob, and no call under
way made any. -/
structure Found (blobs : ControlBlobs) : Prop where
  once : blobs.operations.list.Pairwise fun later earlier => later.key ≠ earlier.key
  records : ∀ version ∈ blobs.records.list, version.author = none
  operations : ∀ version ∈ blobs.operations.list, version.author = none

/-- The blobs that are found are kept. -/
theorem Found.kept {blobs : ControlBlobs} (found : Found blobs) (usable : CompareAndSetInput → Prop)
    (next : Nat) :
    Kept hash usable next blobs where
  once := found.once
  records version member _ _ author := by rw [found.records version member] at author; cases author
  operations version member _ _ author := by
    rw [found.operations version member] at author; cases author

end

/-- A store with nothing in it. -/
def ControlBlobs.empty : ControlBlobs := ⟨.empty, .empty⟩

/-- No blobs are found in the empty store. -/
theorem found_empty : Found .empty :=
  ⟨.nil, by simp [ControlBlobs.empty, Versions.empty], by simp [ControlBlobs.empty, Versions.empty]⟩

end Khala
