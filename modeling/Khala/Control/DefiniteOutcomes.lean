import Khala.Control.StoreRuns

/-! When the definite answers of the control store are right in every interleaving. -/

namespace Khala

open Js Concurrent

section

variable (hash : Text → Text) {dateParse : Text → Option Int}

/-- The move carries out the write of a record: the call's own, or a copy of a legacy one. -/
def Lands (config : Config (controlStore hash dateParse))
    (move : Move (controlStore hash dateParse)) (thread tag : Nat) (input : CompareAndSetInput)
    (data : Json) : Prop :=
  ∃ choice condition next client, move = .effect thread choice ∧
    config.threads thread = .busy tag (.compareAndSet input)
      (.perform (.setJSON .records (physicalKey hash input.key) data condition) next) client ∧
    condition.holds (config.store.records.current (physicalKey hash input.key)) = true

/-- A call writes its own record only if no other call of the operation that is under way has
claimed the operation, or can still do so; and no blob is made for a key while another call, having
found none, is about to look for the key's legacy blob. -/
def WritesApart (config : Config (controlStore hash dateParse))
    (move : Move (controlStore hash dateParse)) : Prop :=
  ∀ thread tag input data, Lands hash config move thread tag input data →
    -- The write of an operation comes before no other write of this operation that is still open.
    (data = input.envelope.toJson → ∀ other tag' input' rest client, other ≠ thread →
      config.threads other = .busy tag' (.compareAndSet input') rest client →
        input'.operationId = input.operationId →
          config.store.Ledgered hash input.operationId
            ∧ ¬ config.store.LedgerBy hash input.operationId tag') ∧
    -- A new record comes before no open read of the legacy blob of its key.
    (config.store.records.current (physicalKey hash input.key) = none →
      ∀ other tag' call key oldKey next client, other ≠ thread →
        config.threads other = .busy tag' call
          (.perform (.getWithMetadata .records oldKey) next) client →
          call.outcomeKey = some key → physicalKey hash key = physicalKey hash input.key →
            legacyFragmentKey key ≠ some oldKey)

variable {hash}

/-- What one call may do in a run that keeps writes apart is what every other call relies on. -/
private theorem others_of_change {config : Config (controlStore hash dateParse)}
    {thread other tag tag' : Nat} {choice : ProviderChoice} {call call' : ControlCall} {op : BlobOp}
    {op' : BlobOp} {rest : op.Reply → BlobProgram call.Reply}
    {rest' : op'.Reply → BlobProgram call'.Reply} {client : call.Reply → Program controlCalls Unit}
    {client' : call'.Reply → Program controlCalls Unit} {reply : op.Reply} {after : ControlBlobs}
    (apart : WritesApart hash config (.effect thread choice))
    (busy : config.threads thread = .busy tag call (.perform op rest) client)
    (busy' : config.threads other = .busy tag' call' (.perform op' rest') client')
    (elsewhere : other ≠ thread) (differs : tag ≠ tag')
    (ran : execBlobs (some (tag, call)) op choice config.store = some (reply, after))
    (change : Change hash (fun _ => True) tag call config.store after) :
    Others hash True tag' call' config.store after
      ∧ GapKept hash True call' op' config.store after := by
  obtain ⟨later, foreign⟩ := change.foreign differs
  -- A new version of a record means that the move has landed a write of it.
  have landed : ∀ input version, call = .compareAndSet input →
    after.records.list = version :: config.store.records.list →
      version.key = physicalKey hash input.key →
        Lands hash config (.effect thread choice) thread tag input version.data := by
    rintro input version rfl grown place
    obtain ⟨condition, rfl, met⟩ := execBlobs_record ran grown
    rw [place] at met busy
    exact ⟨choice, condition, rest, client, rfl, busy, met⟩
  -- A record written meanwhile was written in the presence of a ledger blob that is not this
  -- call's.
  have written : ∀ operationId, call'.operation = some operationId → after.HasWritten operationId →
      config.store.HasWritten operationId ∨
        (config.store.Ledgered hash operationId
          ∧ ¬ config.store.LedgerBy hash operationId tag') := by
    rintro operationId own ⟨input, version, member, wrote⟩
    cases change with
    | silent _ records _ => exact Or.inl ⟨input, version, records ▸ member, wrote⟩
    | operation _ _ _ _ _ _ records _ _ _ => exact Or.inl ⟨input, version, records ▸ member, wrote⟩
    | record _ input' version' made_by ok records _ author made =>
      rw [records] at member
      rcases List.mem_cons.mp member with rfl | old
      · obtain ⟨⟨tag₂, author'⟩, same, data⟩ := wrote
        cases author.symm.trans author'
        cases made_by
        cases call' with
        | compareAndSet waiting =>
          cases own
          have lands := landed input version rfl records made.key
          exact Or.inr (same ▸ (apart thread tag input version.data lands).1 data other tag'
            waiting _ client' elsewhere busy' same.symm)
        | read key => cases own
        | resolve key id => cases own
      · exact Or.inl ⟨input, version, old, wrote⟩
  refine ⟨⟨later, foreign, fun _ operationId own ledger wrote =>
    ?_, fun _ operationId own free wrote => ?_⟩, ?_⟩
  · rcases written operationId own wrote with before | ⟨-, none⟩
    · exact before
    · exact absurd ledger none
  · rcases written operationId own wrote with before | ⟨ledgered, -⟩
    · exact before
    · exact absurd (ledgered.mono later) free
  · rintro - key oldKey own fragment rfl absent
    cases change with
    | silent _ records _ => rw [Versions.current, records]; exact absent
    | operation _ _ _ _ _ _ records _ _ _ => rw [records]; exact absent
    | record _ input version made_by ok records _ _ made =>
      by_cases here : physicalKey hash key = physicalKey hash input.key
      · have lands := landed input version made_by records made.key
        exact absurd fragment
          ((apart thread tag input version.data lands).2 (here ▸ absent) other tag' call' key oldKey
          rest' client' elsewhere busy' own here)
      · rw [Versions.current, records, Versions.newest_cons_of_ne fun same =>
          here (same.symm.trans made.key)]
        exact absent

/-- The contract of definite outcomes holds while writes stay apart. -/
private theorem definite_holds :
    (storeContract hash True (fun _ => True) fun _ _ =>
      True : Contract (controlStore hash dateParse)).Holds
      (WritesApart hash) where
  refl _ _ _ blobs := ⟨.refl blobs, .refl blobs⟩
  trans _ _ _ _ _ _ one two := ⟨one.1.trans two.1, one.2.trans two.2⟩
  begins call kept := ⟨callSafe_body kept.1 call, kept.1.succ, trivial⟩
  works _ _ kept below change := ⟨kept.1.change below change, trivial⟩
  rests _ _ blobs := .refl blobs
  answers _ kept below _ change _ := ⟨kept.1.change below change, trivial⟩
  outside event := nomatch event
  permitted sound _ _ _ := ⟨⟨_, sound.invariant.1⟩, fun _ _ => trivial⟩
  interferes sound numbered apart busy busy' elsewhere ran change := by
    obtain ⟨reply, ran⟩ := ran
    refine others_of_change apart busy busy' elsewhere (fun same => ?_) ran change
    -- Two calls under way have two numbers.
    exact elsewhere (numbered.distinct busy' (same ▸ busy))

/-- In a run that keeps writes apart every definite answer is right: a conflict, or a write resolved
as not applied, means that no call of the operation has ever written its record; a call that is not
applied has changed no record; and what is applied is the record at the moment of the answer. -/
theorem definite_outcomes (start : Config (controlStore hash dateParse)) (idle : start.Idle)
    (found : Found start.store) {log : List (Answer (controlStore hash dateParse))}
    {config : Config (controlStore hash dateParse)} (run : Run (WritesApart hash) start log config)
    {move : Move (controlStore hash dateParse)} (apart : WritesApart hash config move)
    {after : Config (controlStore hash dateParse)}
    {answers : List (Answer (controlStore hash dateParse))}
    (moved : step config move = some (after, answers)) :
    ∀ answer ∈ answers, DefiniteAnswer hash answer after.store := by
  have sound := definite_holds.run idle ⟨found.kept _ _, trivial⟩ run
  exact fun answer member =>
    (sound.answered definite_holds (run.numbered idle) apart moved answer member).1 trivial

/-- A thread that nobody overlaps keeps its writes apart from the others. -/
theorem writesApart_of_lone {thread : Nat} {config : Config (controlStore hash dateParse)}
    {move : Move (controlStore hash dateParse)} (lone : config.Lone thread)
    (own : move.thread = some thread) :
    WritesApart hash config move := by
  rintro thread' tag input data ⟨choice, condition, next, client, rfl, -, -⟩
  obtain rfl : thread' = thread := Option.some.inj own
  -- Every other thread is between two calls.
  refine ⟨fun _ other tag' input' rest client' apart busy => ?_,
    fun _ other tag' call key oldKey next client' apart busy => ?_⟩ <;>
  · obtain ⟨idle, shape⟩ := lone other apart
    rw [shape] at busy
    cases busy

end

/-! ## A claim won by a slower call -/

/-- A write of `null` under the key `k`. -/
private def writeOf (operationId : Text) (expectedRevision : Option Nat) : CompareAndSetInput where
  key := lit "k"
  expectedRevision := expectedRevision
  operationId := operationId
  value := .null
  expiresAt := none
  distinct := trivial

private abbrev plainStore : Service := controlStore id fun _ => none

private def reads (thread : Nat) : Move plainStore := .effect thread (.reads true 0)

private def writes (thread : Nat) : Move plainStore := .effect thread (.writes true)

/-- A client that writes twice, the second time as if nothing were there. -/
private def oneWriter : Config plainStore where
  store := .empty
  threads
    | 0 => .idle (.perform (.compareAndSet (writeOf (lit "o") none)) fun _ =>
        .perform (.compareAndSet (writeOf (lit "p") none)) fun _ => .done ())
    | _ => .idle (.done ())
  next := 0

/-- Two calls of one operation, and a call that writes over what they write. -/
private def threeWriters : Config plainStore where
  store := .empty
  threads
    | 0 => .idle (.perform (.compareAndSet (writeOf (lit "o") none)) fun _ => .done ())
    | 1 => .idle (.perform (.compareAndSet (writeOf (lit "o") none)) fun _ => .done ())
    | 2 => .idle (.perform (.compareAndSet (writeOf (lit "p") (some 0))) fun _ => .done ())
    | _ => .idle (.done ())
  next := 0

/-- The first call claims the operation, then the other two run to their ends. -/
private def overtaken : List (Move plainStore) :=
  [.start 0, writes 0, reads 0, .start 1, writes 1, reads 1, reads 1, writes 1, reads 1,
    .start 2, writes 2, reads 2, reads 2, writes 2, reads 2]

/-- A second write by one client is a conflict, and rightly so. -/
theorem definite_outcomes_alone :
    ∃ (config after : Config plainStore) (current : Option ControlRecord),
    step config (reads 0)
      = some (after, [⟨1, .compareAndSet (writeOf (lit "p") none), .conflict current⟩])
      ∧ DefiniteAnswer id (⟨1, .compareAndSet (writeOf (lit "p") none), .conflict current⟩ :
        Answer plainStore) after.store := by
  -- The run is computed: one writer alone, whose first write is late.
  have ran : ∃ log config after current, execute (fun _ move => move.thread = some 0) oneWriter
      [.start 0, writes 0, reads 0, reads 0, writes 0, reads 0, .start 0, writes 0, reads 0]
        = some (log, config)
        ∧ step config (reads 0)
          = some (after, [⟨1, .compareAndSet (writeOf (lit "p") none), .conflict current⟩]) :=
    ⟨_, _, _, _, rfl, rfl⟩
  obtain ⟨log, config, after, current, done, moved⟩ := ran
  have idle : oneWriter.Idle
    | 0 => ⟨_, rfl⟩
    | thread + 1 => ⟨_, rfl⟩
  -- All other threads are idle, so no write can come between.
  have lone : oneWriter.Lone 0
    | 0, apart => absurd rfl apart
    | thread + 1, _ => ⟨_, rfl⟩
  obtain ⟨run, alone⟩ := (Run.of_execute done).strengthen lone
    (fun lone own moved => lone.step (by simpa using own) moved)
    (fun lone own => writesApart_of_lone lone (by simpa using own))
  refine ⟨config, after, current, moved, ?_⟩
  exact definite_outcomes oneWriter idle found_empty run (writesApart_of_lone alone rfl) moved _
    List.mem_cons_self

/-- The first call of an operation is told of a conflict although the second has written their
record. -/
theorem conflict_after_written : ¬ ∀ (hash : Text → Text) (dateParse : Text → Option Int)
    (start : Config (controlStore hash dateParse)), start.Idle → Found start.store →
    ∀ log config, Run (fun _ _ => True) start log config →
    ∀ move after answers, step config move = some (after, answers) →
    ∀ answer ∈ answers, DefiniteAnswer hash answer after.store := by
  intro definite
  -- The run is computed: the late write lands after another one was made over it.
  have ran : ∃ log config after current,
    execute (fun _ _ => true) threeWriters overtaken = some (log, config)
      ∧ step config (reads 0)
        = some (after, [⟨0, .compareAndSet (writeOf (lit "o") none), .conflict current⟩])
      ∧ after.store.HasWritten (lit "o") :=
    ⟨_, _, _, _, rfl, rfl, writeOf (lit "o") none, _, List.mem_cons_of_mem _ List.mem_cons_self,
      ⟨1, rfl⟩, rfl, rfl⟩
  obtain ⟨log, config, after, current, done, moved, written⟩ := ran
  have idle : threeWriters.Idle
    | 0 => ⟨_, rfl⟩
    | 1 => ⟨_, rfl⟩
    | 2 => ⟨_, rfl⟩
    | thread + 3 => ⟨_, rfl⟩
  have run := (Run.of_execute done).mono fun _ _ _ => trivial
  exact (definite id _ threeWriters idle found_empty log config run _ after _ moved _
    List.mem_cons_self).1 written

end Khala
