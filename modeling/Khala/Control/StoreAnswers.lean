import Khala.Control.StoreCalls
import Mathlib.Data.List.TakeWhile

/-! What the answers of the control store say about the record and its writers. -/

namespace Khala

open Js Concurrent

section

variable (hash : Text → Text) {dateParse : Text → Option Int}

/-- A definite answer of a compare-and-set: what was applied is the record; a conflict finds the
operation's record never written; and whatever was not applied has changed no record. -/
def DefiniteWrite (tag : Nat) (input : CompareAndSetInput) (blobs : ControlBlobs) :
    WriteResult → Prop
  | .applied record => input.wrote (some record) = true ∧
      blobs.recordAt hash input.key = some ⟨record.operationId, record.value, record.expiresAt⟩
  | .conflict _ => ¬ blobs.HasWritten input.operationId ∧ ¬ blobs.ChangedRecord hash tag
  | .operationMismatch => ¬ blobs.ChangedRecord hash tag
  | .unavailable => ¬ blobs.ChangedRecord hash tag
  | .outcomeUnknown _ => True

/-- A definite answer of a resolve: what was applied is the record, and what was not was never
written. -/
def DefiniteResolve (key operationId : Text) (blobs : ControlBlobs) : ResolveResult → Prop
  | .applied record => record.operationId = operationId ∧
      blobs.recordAt hash key = some ⟨record.operationId, record.value, record.expiresAt⟩
  | .notApplied => ¬ blobs.HasWrittenAt key operationId
  | .outcomeUnknown _ => True
  | .unavailable => True

/-- Whether an answer says of the stores what a definite answer has to. -/
def DefiniteAnswer (answer : Answer (controlStore hash dateParse)) (blobs : ControlBlobs) : Prop :=
  match answer with
  | ⟨_, .read _, _⟩ => True
  | ⟨tag, .compareAndSet input, reply⟩ => DefiniteWrite hash tag input blobs reply
  | ⟨_, .resolve key operationId, reply⟩ => DefiniteResolve hash key operationId blobs reply

/-- Whoever is told that its write is applied has claimed its operation. -/
def ClaimedAnswer (usable : CompareAndSetInput → Prop)
    (answer : Answer (controlStore hash dateParse)) (blobs : ControlBlobs) : Prop :=
  match answer with
  | ⟨_, .compareAndSet input, .applied _⟩ =>
    usable input ∧ blobs.Claimed hash input.operationId input.claim
  | _ => True

/-- What an answer says; its definiteness depends on the strict condition. -/
def Answered (strict : Prop) (usable : CompareAndSetInput → Prop)
    (answer : Answer (controlStore hash dateParse)) (blobs : ControlBlobs) : Prop :=
  (strict → DefiniteAnswer hash answer blobs) ∧ ClaimedAnswer hash usable answer blobs

variable {hash} {strict : Prop} {usable : CompareAndSetInput → Prop} {tag : Nat}
    {input : CompareAndSetInput}
  {now : ControlBlobs}

/-! ## Copies -/

/-- An operation that belongs to a key has the key's legacy fragment. -/
theorem legacyFragmentKey_of_belongsTo {operationId key oldKey : Text}
    (belongs : belongsTo operationId key = true) (fragment : legacyFragmentKey key = some oldKey) :
    legacyFragmentKey operationId = some oldKey := by
  obtain ⟨rest, rfl⟩ := List.isPrefixOf_iff_prefix.mp belongs
  simp only [legacyFragmentKey, Option.ite_none_right_eq_some, Option.some.injEq] at fragment ⊢
  obtain ⟨marked, rfl⟩ := fragment
  refine ⟨by simp, ?_⟩
  -- The first mark lies inside the key.
  rw [List.append_assoc, List.takeWhile_append]
  split
  · rename_i whole
    rw [← (List.takeWhile_prefix _).eq_of_length whole] at marked
    simpa using List.mem_takeWhile_imp marked
  · rfl

/-- What proves a legacy claim is an envelope of the operation's key. -/
theorem belongsTo_of_provesLegacy {key : Text} {data : Json}
    (proves : provesLegacy key data = true) :
    ∃ envelope, decodeEnvelope data = some envelope
      ∧ belongsTo envelope.operationId key = true := by
  unfold provesLegacy at proves
  split at proves
  · rename_i envelope decoded
    exact ⟨envelope, decoded, proves⟩
  · cases proves

/-- Copying a legacy record to the free blob of its whole key changes no record. -/
theorem recordIn_copy {list : List BlobVersion} {key oldKey : Text} {old version : BlobVersion}
    (at_ : version.key = physicalKey hash key)
    (free : Versions.newest list (physicalKey hash key) = none)
    (fragment : legacyFragmentKey key = some oldKey)
    (current : Versions.newest list oldKey = some old) (data : version.data = old.data)
    (proves : provesLegacy key old.data = true) {other : Text}
    (apart : physicalKey hash other = physicalKey hash key → other = key) :
    recordIn hash (version :: list) other = recordIn hash list other := by
  by_cases same : physicalKey hash other = physicalKey hash key
  · -- Under its own key the record is read from the copy instead of the legacy blob.
    obtain rfl := apart same
    simp only [recordIn, ← at_, Versions.newest_cons_self]
    simp only [at_, free, fragment, current, proves, if_true, data]
  · have elsewhere : Versions.newest (version :: list) (physicalKey hash other)
        = Versions.newest list (physicalKey hash other) :=
      Versions.newest_cons_of_ne (fun equal => same (equal.symm.trans at_)) list
    simp only [recordIn, elsewhere]
    -- Only a key without a blob of its own reads a legacy blob.
    split
    · rfl
    · cases shared : legacyFragmentKey other with
      | none => rfl
      | some oldKey' =>
        by_cases hit : version.key = oldKey'
        · -- The copy's operation belongs to one legacy fragment, and that one has a blob.
          subst hit
          simp only [Versions.newest_cons_self]
          simp only [at_, free, data, ite_eq_right_iff]
          intro proves'
          obtain ⟨envelope, decoded, belongs⟩ := belongsTo_of_provesLegacy proves
          obtain ⟨envelope', decoded', belongs'⟩ := belongsTo_of_provesLegacy proves'
          cases decoded.symm.trans decoded'
          have one := legacyFragmentKey_of_belongsTo belongs fragment
          have two := legacyFragmentKey_of_belongsTo belongs' shared
          cases one.symm.trans two
          rw [at_, free] at current
          cases current
        · simp only [Versions.newest_cons_of_ne hit]

/-- A call that has tried nothing has changed no record. -/
theorem ControlBlobs.Quiet.inert {blobs : ControlBlobs} (quiet : blobs.Quiet tag) :
    ¬ blobs.ChangedRecord hash tag := by
  rintro ⟨input, version, member, author, -⟩
  exact quiet version member _ author

/-- A call that has changed no record still has not when others have acted. -/
theorem inert_others {call : ControlCall} {before after : ControlBlobs}
    (inert : ¬ before.ChangedRecord hash tag) (others : Others hash strict tag call before after) :
    ¬ after.ChangedRecord hash tag := by
  rintro ⟨input, version, member, author, key, apart, changed⟩
  have old := others.foreign version member _ author
  rw [others.later.records.past_eq old] at changed
  exact inert ⟨input, version, old, author, key, apart, changed⟩

/-- A call that has written nothing but a copy has changed no record. -/
theorem inert_copy {mid : ControlBlobs} (quiet : mid.Quiet tag) {oldKey : Text} {old : BlobVersion}
    (free : mid.records.current (physicalKey hash input.key) = none)
    (fragment : legacyFragmentKey input.key = some oldKey)
    (current : mid.records.current oldKey = some old)
    (proves : provesLegacy input.key old.data = true) :
    ¬ (mid.put (some (tag, .compareAndSet input)) .records (physicalKey hash input.key)
      old.data).ChangedRecord hash tag := by
  rintro ⟨input', version, member, author, key, apart, changed⟩
  rcases List.mem_cons.mp member with rfl | earlier
  · cases author
    have past := Versions.past_of_cons (show (mid.put (some (tag, .compareAndSet input)) .records
      (physicalKey hash input.key) old.data).records.list = _ :: mid.records.list from rfl) rfl
    rw [past] at changed
    refine changed (recordIn_copy ?_ free fragment current ?_ proves apart) <;> rfl
  · exact quiet version earlier _ author

/-! ## What a call knows while it writes -/

/-- What is known stays known when the records stay as they are. -/
theorem Standing.same_records {retry : Bool} {before after : ControlBlobs}
    (standing : Standing hash strict tag input retry before) (later : before.Later after)
    (records : after.records.list = before.records.list) :
    Standing hash strict tag input retry after := by
  refine ⟨standing.claimed.mono later, fun strictly fresh => ?_⟩
  obtain ⟨ledger, unwritten⟩ := standing.won strictly fresh
  refine ⟨ledger.mono later, fun written => unwritten ?_⟩
  obtain ⟨input', version, member, wrote⟩ := written
  exact ⟨input', version, records ▸ member, wrote⟩

/-- Nor does a copy of another operation's record make it known less. -/
theorem Standing.copy {retry : Bool} {mid : ControlBlobs} {key : Text} {data : Json}
    (standing : Standing hash strict tag input retry mid) (other : data ≠ input.envelope.toJson) :
    Standing hash strict tag input retry
      (mid.put (some (tag, .compareAndSet input)) .records key data) := by
  refine ⟨standing.claimed.mono (mid.later_put ..), fun strictly fresh => ?_⟩
  obtain ⟨ledger, unwritten⟩ := standing.won strictly fresh
  refine ⟨ledger.mono (mid.later_put ..), ?_⟩
  rintro ⟨input', version, member, ⟨tag', author⟩, same, written⟩
  rcases List.mem_cons.mp member with rfl | earlier
  · cases author
    exact other written
  · exact unwritten ⟨input', version, earlier, ⟨tag', author⟩, same, written⟩

/-- The own envelope is what the call wrote. -/
theorem wrote_of_own {record : ControlRecord} {key : Text} {etag : Option Nat}
    {envelope : StoredEnvelope} {data : Json} (decoded : decodeEnvelope data = some envelope)
    (own : data = input.envelope.toJson) (made : record = toRecord key etag envelope) :
    input.wrote (some record) = true := by
  -- The envelope read back is the one the call would write.
  subst own made
  rw [decodeEnvelope_toJson decoded]
  simp [CompareAndSetInput.wrote, sameWrite, toRecord, CompareAndSetInput.envelope,
    sameJsonValue_refl input.distinct]

/-! ## Writing -/

/-- A blob that reads with the same entity tag as before has been the same version all along. -/
theorem current_of_etag {first mid last : Versions Text Json Author} {key : Text}
    {version : BlobVersion} {tagged tagged' : Bool} {etag : Nat} (one : Versions.Later first mid)
    (two : Versions.Later mid last) (before : first.current key = some version)
    (known : (blobOf tagged version).etag = some etag)
    (same : ((last.current key).map (blobOf tagged')).bind (·.etag)
      = (blobOf tagged version).etag) :
    mid.current key = some version := by
  -- Both reads showed the tag, so both versions have it.
  rw [known] at same
  obtain ⟨blob, read, shown⟩ := Option.bind_eq_some_iff.mp same
  obtain ⟨version', after, rfl⟩ := Option.map_eq_some_iff.mp read
  refine one.unchanged two before after ?_
  cases tagged <;> cases tagged' <;> simp_all [blobOf]

/-- A migration that succeeds has changed no record, and all that was known stays known. -/
theorem Keeps.migrate {retry : Bool} {sure : Prop} {before : LiveRead}
    (sighting : Sighting hash dateParse sure now input.key before) (legacy : before.legacy = true)
    (other : ∀ record, before.live = some record → input.wrote (some record) = false)
    (quiet : now.Quiet tag) (standing : Standing hash strict tag input retry now) :
    Keeps hash strict usable tag (.compareAndSet input)
      (migrate hash dateParse input.key before).run
      (fun result later => ∀ migrated, result = .ok (some migrated) →
        Standing hash strict tag input retry later ∧ ¬ later.ChangedRecord hash tag) now := by
  cases sighting with
  | direct version tagged time current => simp at legacy
  | nothing time absent => simp at legacy
  | legacy oldKey version tagged time fragment current proves absent =>
    simp only [Khala.migrate, fragment, classify_raw, ExceptT.run_bind]
    refine Keeps.bind (Keeps.set (fun mid others orderly met => ?_)
      fun mid reply after others orderly outcome => ?_)
    · -- The legacy blob is still there for the copy to be one.
      obtain ⟨member, at_⟩ := Versions.mem_of_newest current
      exact .record (mid.later_put ..) input _ rfl (orderly.ok input rfl) rfl rfl rfl
        ⟨rfl, standing.claimed.mono others.later,
          Or.inr ⟨version, others.later.records.mem member, at_ ▸ fragment, rfl, proves⟩⟩
    cases reply with
    | error error => exact nofun
    | ok copied =>
      refine Keeps.bind (Keeps.readLive (fun impossible : False => impossible.elim)
        (fun later error _ _ => nofun) fun second migrated others₂ _ _ => ?_)
      refine Keeps.bind (Keeps.get (fun later error _ _ => nofun)
        fun third tagged' time' others₃ tidy _ => ?_)
      simp only
      split
      · rename_i live record live' live''
        split
        · exact nofun
        · rename_i passed
          simp only [Bool.or_eq_true, not_or, bne_iff_ne, ne_eq, not_not] at passed
          obtain ⟨blob, etag, envelope, same, known, decoded, made⟩ := classify_live live''
          cases same
          have kept := current_of_etag others.later.records
            (outcome.later.records.trans (others₂.later.records.trans others₃.later.records))
              current known passed.1.1.2
          have foreign : version.data ≠ input.envelope.toJson := fun own => by
            have wrote := wrote_of_own decoded own made
            rw [other record live''] at wrote
            cases wrote
          have calm := quiet.others others
          have known₂ := standing.others others
          -- Whether or not the copy was made, nothing that is known has changed.
          have facts : Standing hash strict tag input retry after
            ∧ ¬ after.ChangedRecord hash tag := by
            cases outcome with
            | wrote tagged met =>
              exact ⟨known₂.copy foreign,
                inert_copy calm (SetCondition.holds_onlyIfNew.mp met) fragment kept proves⟩
            | unmet => exact ⟨known₂, calm.inert⟩
            | pretended tagged =>
              exact ⟨known₂.same_records (mid.later_skip .records) rfl,
                ControlBlobs.Quiet.inert calm⟩
          rintro _ -
          exact ⟨(facts.1.others others₂).others others₃,
            inert_others (inert_others facts.2 others₂) others₃⟩
      · exact nofun

/-- A record that was read and is what the call writes answers the call. -/
theorem answered_applied {blobs : ControlBlobs} {found : LiveRead} {record : ControlRecord}
    (sighting : Sighting hash dateParse strict blobs input.key found)
    (live : found.live = some record) (wrote : input.wrote (some record) = true)
    (orderly : Orderly hash usable (.compareAndSet input) blobs)
    (claimed : blobs.Claimed hash input.operationId input.claim) :
    Answered hash strict usable (⟨tag, .compareAndSet input, .applied record⟩ :
      Answer (controlStore hash dateParse)) blobs := by
  refine ⟨fun strictly => ⟨wrote, ?_⟩, orderly.ok input rfl, claimed⟩
  obtain ⟨envelope, seen, rfl⟩ := sighting.live_envelope live
  exact sighting.recordAt strictly seen

/-- Writing the record keeps to the contract, and its answer is true. -/
theorem Keeps.writeRecord {retry : Bool} {before : LiveRead} (inert : ¬ now.ChangedRecord hash tag)
    (standing : Standing hash strict tag input retry now) :
    Keeps hash strict usable tag (.compareAndSet input)
      (writeRecord hash dateParse input retry before)
      (fun reply later => Answered hash strict usable
        (⟨tag, .compareAndSet input, reply⟩ : Answer (controlStore hash dateParse)) later) now := by
  have unknown : ∀ {later : ControlBlobs}, Answered hash strict usable
      (⟨tag, .compareAndSet input, .outcomeUnknown input.operationId⟩ :
        Answer (controlStore hash dateParse)) later :=
    ⟨fun _ => trivial, trivial⟩
  unfold Khala.writeRecord
  refine Keeps.bind (Keeps.set (fun mid others orderly met => ?_)
    fun mid reply after others orderly outcome => ?_)
  · exact .record (mid.later_put ..) input _ rfl (orderly.ok input rfl) rfl rfl rfl
      ⟨rfl, standing.claimed.mono others.later, Or.inl rfl⟩
  have claimed : after.Claimed hash input.operationId input.claim :=
    standing.claimed.mono (others.later.trans outcome.later)
  cases reply with
  | error error =>
    simp only
    split
    · rename_i definite
      -- A definite rejection has written nothing.
      cases outcome with
      | failed status => exact ⟨fun _ => inert_others inert others, trivial⟩
      | failedLate status unsure met => rw [unsure] at definite; cases definite
    · exact unknown
  | ok result =>
    simp only
    split
    · split
      · exact unknown
      · refine Keeps.bind (Keeps.readLive (fun strictly : strict => ⟨strictly, rfl⟩)
          (fun later error others₂ _ => unknown) fun later found others₂ tidy sighting => ?_)
        simp only
        cases live : found.live with
        | none => exact unknown
        | some record =>
          simp only
          split
          · rename_i same
            simp only [Bool.and_eq_true] at same
            exact answered_applied sighting live same.2 tidy (claimed.mono others₂.later)
          · exact unknown
    · rename_i modified
      -- An unmet condition has written nothing, so what was known still is.
      have same : after = mid := by
        cases outcome with
        | unmet => rfl
        | wrote => exact absurd rfl modified
        | pretended => exact absurd rfl modified
      subst same
      have quiet := inert_others inert others
      refine Keeps.bind (Keeps.readLive (fun strictly : strict => ⟨strictly, rfl⟩)
        (fun later error others₂ _ => ?_) fun later found others₂ tidy sighting => ?_)
      · simp only
        split
        · exact ⟨fun _ => inert_others quiet others₂, trivial⟩
        · exact unknown
      · simp only
        split
        · exact unknown
        · have known := (standing.others others).others others₂
          have conflict : ∀ current, Answered hash strict usable (⟨tag, .compareAndSet input,
              if retry = true then .outcomeUnknown input.operationId else .conflict current⟩ :
                Answer (controlStore hash dateParse)) later := by
            intro current
            cases retry with
            | true => exact unknown
            | false =>
              exact ⟨fun strictly =>
                ⟨(known.won strictly rfl).unwritten, inert_others quiet others₂⟩, trivial⟩
          cases live : found.live with
          | none => exact conflict none
          | some record =>
            simp only
            split
            · rename_i wrote
              exact answered_applied sighting live wrote tidy (claimed.mono others₂.later)
            · exact conflict _

/-- A compare-and-set keeps to the contract, and its answer is true. -/
theorem Keeps.compareAndSet (quiet : now.Quiet tag) :
    Keeps hash strict usable tag (.compareAndSet input) (compareAndSet hash dateParse input)
      (fun reply later => Answered hash strict usable
        (⟨tag, .compareAndSet input, reply⟩ : Answer (controlStore hash dateParse)) later) now := by
  -- A call whose outcome is unknown has promised nothing.
  have unknown : ∀ {later : ControlBlobs}, Answered hash strict usable
      (⟨tag, .compareAndSet input, .outcomeUnknown input.operationId⟩ :
        Answer (controlStore hash dateParse)) later :=
    ⟨fun _ => trivial, trivial⟩
  unfold Khala.compareAndSet
  -- The operation is claimed first, and a claim that fails leaves the records alone.
  refine Keeps.bind ((Keeps.claimOperation quiet).mono fun result first known => ?_)
  obtain ⟨calm, known⟩ := known
  cases result with
  | mismatch => exact ⟨fun _ => calm.inert, trivial⟩
  | unavailable => exact ⟨fun _ => calm.inert, trivial⟩
  | unknown => exact unknown
  | claimed retry =>
    -- The record is read under the claim, and others may have written meanwhile.
    have standing := known retry rfl
    refine Keeps.bind (Keeps.readLive (fun strictly : strict => ⟨strictly, rfl⟩)
      (fun later error others _ => ?_) fun second before others orderly sighting => ?_)
    · simp only
      split
      · exact ⟨fun _ => (calm.others others).inert, trivial⟩
      · exact unknown
    · have calm₂ := calm.others others
      have standing₂ := standing.others others
      simp only
      split
      · exact ⟨fun _ => calm₂.inert, trivial⟩
      -- A record that this write made is answered as applied.
      · split
        · rename_i record live wrote
          rw [live] at wrote
          exact answered_applied sighting live wrote orderly standing₂.claimed
        · rename_i other
          split
          · -- The revision is another one: a conflict, unless an earlier try may have written.
            cases retry with
            | true => exact unknown
            | false =>
              exact ⟨fun strictly => ⟨(standing₂.won strictly rfl).unwritten, calm₂.inert⟩, trivial⟩
          -- A legacy record is moved to its new key before it is written over.
          · split
            · rename_i legacy
              have differs : ∀ record, before.live = some record →
                input.wrote (some record) = false := by
                intro record live
                exact Bool.eq_false_iff.mpr fun wrote => other record live (live ▸ wrote)
              refine Keeps.bind ((Keeps.migrate sighting legacy differs calm₂ standing₂).mono
                fun result later kept => ?_)
              match result with
              | .ok (some migrated) =>
                obtain ⟨standing₃, inert⟩ := kept migrated rfl
                exact Keeps.writeRecord inert standing₃
              | .ok none => exact unknown
              | .error error => exact unknown
            -- Otherwise the write goes to the record as it is.
            · exact Keeps.writeRecord calm₂.inert standing₂

/-- A resolve keeps to the contract, and its answer is true. -/
theorem Keeps.resolve {key operationId : Text} :
    Keeps hash strict usable tag (.resolve key operationId) (resolve hash dateParse key operationId)
      (fun reply later => Answered hash strict usable
        (⟨tag, .resolve key operationId, reply⟩ : Answer (controlStore hash dateParse)) later)
          now := by
  unfold Khala.resolve
  refine Keeps.bind (Keeps.readLive (fun strictly : strict => ⟨strictly, rfl⟩)
    (fun mid error others _ => ⟨fun _ => trivial, trivial⟩)
      fun mid found others orderly sighting => ?_)
  simp only
  cases live : found.live with
  | some record =>
    obtain ⟨envelope, seen, rfl⟩ := sighting.live_envelope live
    simp only
    split
    · rename_i same
      exact ⟨fun strictly => ⟨same, sighting.recordAt strictly seen⟩, trivial⟩
    · exact ⟨fun _ => trivial, trivial⟩
  | none =>
    simp only
    split
    · exact ⟨fun _ => trivial, trivial⟩
    · rename_i sound
      cases seen : found.envelope with
      | some envelope =>
        simp only
        split
        · rename_i same
          exact ⟨fun strictly => ⟨same, sighting.recordAt strictly seen⟩, trivial⟩
        · exact ⟨fun _ => trivial, trivial⟩
      | none =>
        refine ⟨fun strictly => ?_, trivial⟩
        -- Whoever had written under this key would have left a version of its blob.
        rintro ⟨input, rfl, version, member, ⟨tag', author⟩, -⟩
        have absent := sighting.absent_of_unseen strictly (Bool.eq_false_iff.mpr sound) seen
        obtain ⟨next, kept⟩ := orderly.kept
        obtain ⟨-, input', equal, -, made⟩ := kept.records version member _ _ author
        cases equal
        exact Versions.newest_eq_none.mp absent version member made.key

/-- A read keeps to the contract, and its answer is true. -/
theorem Keeps.read {key : Text} :
    Keeps hash strict usable tag (.read key) (read hash dateParse key)
      (fun reply later => Answered hash strict usable
        (⟨tag, .read key, reply⟩ : Answer (controlStore hash dateParse)) later) now := by
  unfold Khala.read
  -- Nothing is promised about a plain read.
  refine Keeps.bind (Keeps.readLive (fun impossible : False => impossible.elim)
    (fun mid error others _ => ⟨fun _ => trivial, trivial⟩)
      fun mid found others orderly sighting => ?_)
  simp only
  split <;> exact ⟨fun _ => trivial, trivial⟩

end

end Khala
