import Khala.Control.StoreContract

/-! Every call of the control store keeps its duty, function by function. -/

namespace Khala

open Js Concurrent

/-! ## Writes -/

/-- A blob that is put comes after. -/
theorem ControlBlobs.later_put (blobs : ControlBlobs) (tag : Nat) (call : ControlCall)
    (store : BlobStore) (key : Text) (data : Json) :
    blobs.Later (blobs.put (some (tag, call)) store key data) := by
  -- Only the store that is written to gets a version, and the version has an author.
  cases store with
  | records => exact ⟨Versions.later_of_cons rfl rfl, .refl _, fun _ member _ => member⟩
  | operations =>
    refine ⟨.refl _, Versions.later_of_cons rfl rfl, fun version member found => ?_⟩
    rcases List.mem_cons.mp member with rfl | old
    · cases found
    · exact old

/-- A number that is skipped comes after. -/
theorem ControlBlobs.later_skip (blobs : ControlBlobs) (store : BlobStore) :
    blobs.Later (blobs.set store (blobs.get store).skip) := by
  cases store with
  | records => exact ⟨Versions.later_of_eq rfl (Nat.le_succ _), .refl _, fun _ member _ => member⟩
  | operations =>
    exact ⟨.refl _, Versions.later_of_eq rfl (Nat.le_succ _), fun _ member _ => member⟩

/-- However a write ends, the blobs come after. -/
theorem SetOutcome.later {tag : Nat} {call : ControlCall} {store : BlobStore} {key : Text}
    {data : Json} {condition : SetCondition} {blobs after : ControlBlobs}
    {reply : Except ProviderError SetResult}
    (outcome : SetOutcome (some (tag, call)) store key data condition blobs reply after) :
    blobs.Later after := by
  cases outcome with
  | wrote tagged met => exact blobs.later_put ..
  | unmet => exact .refl _
  | failed status => exact .refl _
  | failedLate status unsure met => exact blobs.later_put ..
  | pretended tagged => exact blobs.later_skip store

/-- Writing a ledger blob leaves the records alone. -/
theorem SetOutcome.records_eq {author : Author} {key : Text} {data : Json}
    {condition : SetCondition} {blobs after : ControlBlobs} {reply : Except ProviderError SetResult}
    (outcome : SetOutcome author .operations key data condition blobs reply after) :
    after.records = blobs.records := by
  cases outcome <;> rfl

section

variable {hash : Text → Text} {dateParse : Text → Option Int} {strict : Prop}
    {usable : CompareAndSetInput → Prop} {tag : Nat}
  {call : ControlCall} {α β : Type} {now : ControlBlobs}

/-- The program keeps the duty of its call from here on, and its result is as described. -/
abbrev Keeps (hash : Text → Text) (strict : Prop) (usable : CompareAndSetInput → Prop) (tag : Nat)
    (call : ControlCall) (program : BlobProgram α) (post : α → ControlBlobs → Prop)
    (now : ControlBlobs) : Prop :=
  program.Safe (execBlobs (some (tag, call))) (storeDuty hash strict usable tag call)
    (fun result _ later => post result later) now now

/-- Two programs in sequence keep to the contract in sequence. -/
theorem Keeps.bind {first : BlobProgram α} {rest : α → BlobProgram β}
    {post : β → ControlBlobs → Prop}
    (safe : Keeps hash strict usable tag call first (fun result later =>
      Keeps hash strict usable tag call (rest result) post later) now) :
    Keeps hash strict usable tag call (first >>= rest) post now := by
  refine Program.Safe.bind (safe.mono fun result before later kept => ?_)
  change Keeps hash strict usable tag call (rest result) post later at kept
  -- What was there before the last operation plays no part.
  cases shape : rest result with
  | done result' => rw [shape] at kept; exact kept
  | perform op next => rw [shape] at kept; exact kept

/-- What is known less of at the end is known. -/
theorem Keeps.mono {program : BlobProgram α} {post weaker : α → ControlBlobs → Prop}
    (safe : Keeps hash strict usable tag call program post now)
    (imp : ∀ result later, post result later → weaker result later) :
    Keeps hash strict usable tag call program weaker now :=
  Program.Safe.mono safe fun result _ later => imp result later

/-- A read answers with what the store holds when it is performed. -/
theorem Keeps.get {store : BlobStore} {key : Text}
    {post : Except ProviderError (Option Blob × Int) → ControlBlobs → Prop}
    (fails : ∀ mid error, Others hash strict tag call now mid → Orderly hash usable call mid →
      post (.error error) mid)
    (reads : ∀ mid tagged time, Others hash strict tag call now mid →
      Orderly hash usable call mid →
      GapKept hash strict call (.getWithMetadata store key) now mid →
      post (.ok (((mid.get store).current key).map (blobOf tagged), time)) mid) :
    Keeps hash strict usable tag call (getWithMetadata store key).run post now := by
  intro mid choice reply after others permitted ran
  obtain ⟨rfl, ⟨error, rfl⟩ | ⟨tagged, time, rfl⟩⟩ := execBlobs_get ran
  · exact ⟨.refl _, fails after error others.1 permitted⟩
  · exact ⟨.refl _, reads after tagged time others.1 permitted others.2⟩

/-- A write has one of the outcomes of conditional writes; the change it makes must be one the call
may make. -/
theorem Keeps.set {store : BlobStore} {key : Text} {data : Json} {condition : SetCondition}
    {post : Except ProviderError SetResult → ControlBlobs → Prop}
    (granted : ∀ mid, Others hash strict tag call now mid → Orderly hash usable call mid →
      condition.holds ((mid.get store).current key) = true →
        Change hash usable tag call mid (mid.put (some (tag, call)) store key data))
    (done : ∀ mid reply after, Others hash strict tag call now mid → Orderly hash usable call mid →
      SetOutcome (some (tag, call)) store key data condition mid reply after → post reply after) :
    Keeps hash strict usable tag call (setJSON store key data condition).run post now := by
  intro mid choice reply after others permitted ran
  have outcome := execBlobs_set ran
  refine ⟨?_, done mid reply after others.1 permitted outcome⟩
  cases outcome with
  | wrote tagged met => exact granted mid others.1 permitted met
  | unmet => exact .refl _
  | failed status => exact .refl _
  | failedLate status unsure met => exact granted mid others.1 permitted met
  | pretended tagged =>
    -- A number is used up, but no version is made.
    cases store with
    | records => exact .silent (mid.later_skip .records) rfl rfl
    | operations => exact .silent (mid.later_skip .operations) rfl rfl

/-! ## Reading -/

/-- What is read of a key is a sighting of it, sure if the call may be sure of this key. -/
theorem Keeps.readLive {key : Text} {sure : Prop}
    {post : Except ProviderError LiveRead → ControlBlobs → Prop}
    (own : sure → strict ∧ call.outcomeKey = some key)
    (fails : ∀ mid error, Others hash strict tag call now mid → Orderly hash usable call mid →
      post (.error error) mid)
    (reads : ∀ mid found, Others hash strict tag call now mid → Orderly hash usable call mid →
      Sighting hash dateParse sure mid key found → post (.ok found) mid) :
    Keeps hash strict usable tag call (readLive hash dateParse key).run post now := by
  simp only [Khala.readLive, ExceptT.run_bind]
  refine Keeps.bind (Keeps.get (fun mid error others orderly => fails mid error others orderly)
    fun first tagged time others orderly _ => ?_)
  cases current : first.records.current (physicalKey hash key) with
  | some version =>
    simp only [ControlBlobs.get, current, Option.map_some, Option.isSome_some, if_true]
    exact reads first _ others orderly (.direct version tagged time current)
  | none =>
    simp only [ControlBlobs.get, current, Option.map_none, Option.isSome_none,
      Bool.false_eq_true, if_false]
    cases fragment : legacyFragmentKey key with
    | none => exact reads first _ others orderly (.nothing time fun _ => current)
    | some oldKey =>
      simp only [ExceptT.run_bind]
      refine Keeps.bind
        (Keeps.get (fun mid error more tidy => fails mid error (others.trans more) tidy)
        fun second tagged' time' more tidy gap => ?_)
      -- Nobody has created the blob of the key between the two reads.
      have absent : sure → second.records.current (physicalKey hash key) = none := fun surely =>
        gap (own surely).1 key oldKey (own surely).2 fragment rfl current
      cases old : second.records.current oldKey with
      | none =>
        simp only [ControlBlobs.get, old, Option.map_none]
        exact reads second _ (others.trans more) tidy (.nothing time' absent)
      | some version =>
        simp only [ControlBlobs.get, old, Option.map_some]
        split
        · rename_i proves
          exact reads second _ (others.trans more) tidy
            (.legacy oldKey version tagged' time' fragment old proves absent)
        · exact reads second _ (others.trans more) tidy (.nothing time' absent)

/-! ## What a call knows -/

/-- The call has made no version of a record. -/
def ControlBlobs.Quiet (blobs : ControlBlobs) (tag : Nat) : Prop :=
  ∀ version ∈ blobs.records.list, ∀ call, version.author ≠ some (tag, call)

/-- Others do not make a call try anything. -/
theorem ControlBlobs.Quiet.others {before after : ControlBlobs} (quiet : before.Quiet tag)
    (others : Others hash strict tag call before after) : after.Quiet tag :=
  fun version member call' author =>
    quiet version (others.foreign version member call' author) call' author

/-- The call holds the ledger and nobody has written the record of its operation. -/
structure Won (hash : Text → Text) (tag : Nat) (operationId : Text) (blobs : ControlBlobs) :
    Prop where
  ledger : blobs.LedgerBy hash operationId tag
  unwritten : ¬ blobs.HasWritten operationId

/-- Others do not take a claim that was won. -/
theorem Won.others {before after : ControlBlobs} {operationId : Text}
    (won : Won hash tag operationId before) (strictly : strict)
    (own : call.operation = some operationId) (others : Others hash strict tag call before after) :
    Won hash tag operationId after :=
  ⟨won.ledger.mono others.later, fun written =>
    won.unwritten (others.held strictly operationId own won.ledger written)⟩

/-- Whoever has written its record has an own blob in the ledger. -/
def Behind (hash : Text → Text) (operationId : Text) (blobs : ControlBlobs) : Prop :=
  blobs.HasWritten operationId → blobs.Ledgered hash operationId

/-- Others do not undo that a call is behind. -/
theorem Behind.others {before after : ControlBlobs} {operationId : Text}
    (behind : Behind hash operationId before) (strictly : strict)
    (own : call.operation = some operationId) (others : Others hash strict tag call before after) :
    Behind hash operationId after := by
  intro written
  by_contra free
  -- While nobody holds the ledger nobody can have written since.
  exact free ((behind (others.unclaimed strictly operationId own free written)).mono others.later)

/-- What is known when a call has claimed its operation; only a claim made just now rules out
earlier writes. -/
structure Standing (hash : Text → Text) (strict : Prop) (tag : Nat) (input : CompareAndSetInput)
    (retry : Bool) (blobs : ControlBlobs) : Prop where
  claimed : blobs.Claimed hash input.operationId input.claim
  won : strict → retry = false → Won hash tag input.operationId blobs

/-- Others leave a call where it stands. -/
theorem Standing.others {before after : ControlBlobs} {input : CompareAndSetInput} {retry : Bool}
    (standing : Standing hash strict tag input retry before)
    (others : Others hash strict tag (.compareAndSet input) before after) :
    Standing hash strict tag input retry after :=
  ⟨standing.claimed.mono others.later, fun strictly fresh =>
    (standing.won strictly fresh).others strictly rfl others⟩

/-! ## Claiming -/

variable {input : CompareAndSetInput}

/-- A blob that is read is a version in the store. -/
theorem blob_member {blobs : ControlBlobs} {key : Text} {tagged : Bool} {blob : Blob}
    (read : ((blobs.get .operations).current key).map (blobOf tagged) = some blob) :
    ∃ version ∈ blobs.operations.list, version.key = key ∧ version.data = blob.data := by
  obtain ⟨version, current, rfl⟩ := Option.map_eq_some_iff.mp read
  obtain ⟨member, at_⟩ := Versions.mem_of_newest current
  exact ⟨version, member, at_, rfl⟩

/-- Whoever asks for a proof makes one at most, from the record that is there. -/
theorem Keeps.establishProof {oldKey : Text} {entry : LedgerEntry}
    {post : Except ProviderError (Option Blob) → ControlBlobs → Prop}
    (fragment : legacyFragmentKey input.operationId = some oldKey)
    (ledger : now.LedgerHolds oldKey entry) (quiet : now.Quiet tag)
    (fails : ∀ later error, later.Quiet tag → post (.error error) later)
    (unproved : ∀ later, later.Quiet tag → post (.ok none) later)
    (proved : ∀ later proof, later.Quiet tag → now.Later later →
      Orderly hash usable (.compareAndSet input) later →
      (∃ version ∈ later.operations.list, version.key = proofKey hash oldKey
        ∧ version.data = proof.data) → post (.ok (some proof)) later) :
    Keeps hash strict usable tag (.compareAndSet input)
      (establishProof hash dateParse oldKey entry).run post now := by
  simp only [Khala.establishProof, ExceptT.run_bind]
  refine Keeps.bind (Keeps.get (fun mid error others _ => fails mid error (quiet.others others))
    fun first tagged time others orderly _ => ?_)
  have calm := quiet.others others
  cases present : (first.get .operations).current (proofKey hash oldKey) with
  | some version =>
    -- An earlier proof is taken as it is.
    obtain ⟨member, at_⟩ := Versions.mem_of_newest present
    simp only [Option.map_some, Option.isSome_some, if_true]
    exact proved first (blobOf tagged version) calm others.later orderly ⟨version, member, at_, rfl⟩
  -- Without a proof the record is looked for.
  | none =>
    simp only [Option.map_none, Option.isSome_none, Bool.false_eq_true, if_false, ExceptT.run_bind]
    refine Keeps.bind (Keeps.readLive (fun impossible : False => impossible.elim)
      (fun mid error more _ => fails mid error (calm.others more))
        fun second found more tidy sighting => ?_)
    have calm₂ := calm.others more
    cases seen : found.envelope with
    | none =>
      simp only [seen]
      exact unproved second calm₂
    | some envelope =>
      simp only [seen]
      -- The record must be the operation's own, with the digest of the entry.
      split
      · exact unproved second calm₂
      · rename_i passed
        simp only [Bool.or_eq_true, not_or, Bool.not_eq_true, Bool.not_eq_false',
          bne_eq_false_iff_eq] at passed
        obtain ⟨canonical, digest⟩ := passed
        obtain ⟨record, member, decoded, place⟩ := sighting.member seen
        simp only [ExceptT.run_bind]
        refine Keeps.bind (Keeps.set (fun third others₃ tidy₃ met => ?_)
          fun third reply after others₃ tidy₃ outcome => ?_)
        · -- The proof is made from a record that is in the store.
          have later := (others.trans more).trans others₃ |>.later
          refine .operation (third.later_put ..) input _ rfl (tidy₃.ok input rfl) rfl rfl rfl
            (SetCondition.holds_onlyIfNew.mp met) ?_
          exact .proof oldKey ⟨entry, hash envelope.operationId⟩ envelope record fragment rfl rfl
            ⟨ledger.mono later, others₃.later.records.mem member, decoded, canonical,
              digest, rfl, place⟩
        -- Writing the proof leaves the records as they are.
        · have calm₃ : after.Quiet tag := by
            intro version inside
            rw [outcome.records_eq] at inside
            exact (calm₂.others others₃) version inside
          have later := ((others.trans more).trans others₃).later.trans outcome.later
          cases reply with
          | error error => exact fails after error calm₃
          | ok write =>
            -- The proof counts as it is read back.
            refine Keeps.bind
              (Keeps.get (fun mid error others₄ _ => fails mid error (calm₃.others others₄))
              fun fourth tagged' time' others₄ tidy₄ _ => ?_)
            have calm₄ := calm₃.others others₄
            cases proof :
              ((fourth.get .operations).current (proofKey hash oldKey)).map (blobOf tagged') with
            | none => exact unproved fourth calm₄
            | some blob =>
              simp only
              split
              · exact unproved fourth calm₄
              · exact proved fourth blob calm₄ (later.trans others₄.later) tidy₄ (blob_member proof)

/-- What is known of a claim that the legacy ledger decides, or leaves open. -/
def LegacyKnown (hash : Text → Text) (strict : Prop) (tag : Nat) (input : CompareAndSetInput)
    (result : Except ProviderError (Option ClaimResult)) (blobs : ControlBlobs) : Prop :=
  blobs.Quiet tag ∧
    (∀ retry, result = .ok (some (.claimed retry)) → retry = true
      ∧ blobs.Claimed hash input.operationId input.claim) ∧
    (result = .ok none → blobs.Cleared hash input.operationId
      ∧ (strict → Behind hash input.operationId blobs))

/-- A legacy claim that is not the operation's leaves writers with a ledger blob of their own. -/
theorem behind_of_unproved {usable : CompareAndSetInput → Prop} {call : ControlCall}
    {blobs : ControlBlobs} {operationId : Text} (orderly : Orderly hash usable call blobs)
    (other : ∀ oldKey entry, legacyFragmentKey operationId = some oldKey →
      blobs.LedgerHolds oldKey entry → ∀ version ∈ blobs.operations.list,
      version.key = proofKey hash oldKey →
      stringProperty version.data (lit "operationIdHash") ≠ some (hash operationId)) :
    Behind hash operationId blobs := by
  intro written
  obtain ⟨next, kept⟩ := orderly.kept
  obtain ⟨entry, claimed⟩ := kept.claimed_of_written written
  rcases claimed with ⟨version, member, at_, -⟩ | ⟨oldKey, fragment, holds, version, member,
    at_, -, hashed⟩
  · exact ⟨version, member, at_⟩
  · exact absurd hashed (other oldKey entry fragment holds version member at_)

/-- Claiming a legacy operation keeps to the contract. -/
theorem Keeps.legacyClaim {oldKey : Text}
    (fragment : legacyFragmentKey input.operationId = some oldKey) (quiet : now.Quiet tag) :
    Keeps hash strict usable tag (.compareAndSet input)
      (legacyClaim hash dateParse input.operationId input.claim oldKey).run
      (LegacyKnown hash strict tag input) now := by
  simp only [Khala.legacyClaim, ExceptT.run_bind]
  -- Most answers say no more than that the call has written nothing.
  have error : ∀ {later : ControlBlobs} error, later.Quiet tag →
    LegacyKnown hash strict tag input (.error error) later :=
    fun error calm => ⟨calm, nofun, nofun⟩
  have unknown : ∀ {later : ControlBlobs}, later.Quiet tag →
      LegacyKnown hash strict tag input (.ok (some .unknown)) later :=
        fun calm => ⟨calm, nofun, nofun⟩
  refine Keeps.bind (Keeps.get (fun mid fault others _ => error fault (quiet.others others))
    fun first tagged time others orderly _ => ?_)
  have calm := quiet.others others
  cases old : ((first.get .operations).current oldKey).map (blobOf tagged) with
  | none =>
    -- There is no legacy blob at all.
    have none : ∀ version ∈ first.operations.list, version.key ≠ oldKey :=
      Versions.newest_eq_none.mp (Option.map_eq_none_iff.mp old)
    refine ⟨calm, nofun, fun _ => ⟨fun oldKey' fragment' version member at_ => ?_,
      fun _ => behind_of_unproved orderly fun oldKey' entry fragment' holds => ?_⟩⟩
    · cases fragment.symm.trans fragment'
      exact absurd at_ (none version member)
    · obtain ⟨version, member, at_, -⟩ := holds
      cases fragment.symm.trans fragment'
      exact absurd at_ (none version member)
  | some blob =>
    simp only
    split
    · exact unknown calm
    · cases entryOf : ledgerEntryOf blob.data with
      | none => exact unknown calm
      | some entry =>
        obtain ⟨version, member, at_, data⟩ := blob_member old
        have ledger : first.LedgerHolds oldKey entry := ⟨version, member, at_, data ▸ entryOf⟩
        simp only [ExceptT.run_bind]
        refine Keeps.bind (Keeps.establishProof fragment ledger calm (fun later fault calm =>
          error fault calm)
          (fun later calm => unknown calm) fun later proof calm₂ grown tidy made => ?_)
        obtain ⟨witness, inside, place, same⟩ := made
        simp only
        cases held : stringProperty proof.data (lit "operationIdHash") with
        | none => exact unknown calm₂
        | some hashed =>
          simp only
          split
          · exact unknown calm₂
          · rename_i sound
            simp only [Bool.or_eq_true, not_or, Bool.not_eq_true, Bool.not_eq_false',
              sameLedgerEntry_iff] at sound
            split
            · rename_i mine
              refine ⟨calm₂, fun retry claimed => ?_, nofun⟩
              by_cases equal : entry = input.claim
              · -- The proven claim is for this very operation, key and digest.
                rw [if_pos equal] at claimed
                cases claimed
                subst equal mine
                exact ⟨rfl, Or.inr ⟨oldKey, fragment, ledger.mono grown, witness, inside, place,
                  same ▸ sound.2, same ▸ held⟩⟩
              · rw [if_neg equal] at claimed
                cases claimed
            · rename_i foreign
              split
              · exact unknown calm₂
              · -- The one proof there is belongs to another operation.
                have another : stringProperty witness.data (lit "operationIdHash")
                  ≠ some (hash input.operationId) := by
                  rw [same, held]
                  exact fun equal => foreign (Option.some.inj equal)
                refine ⟨calm₂, nofun, fun _ => ⟨fun oldKey' fragment' _ _ _ _ => ?_,
                  fun _ => behind_of_unproved tidy
                    fun oldKey' entry' fragment' _ other inside' place' => ?_⟩⟩
                · cases fragment.symm.trans fragment'
                  exact ⟨witness, inside, place, another⟩
                · cases fragment.symm.trans fragment'
                  obtain ⟨next, kept⟩ := tidy.kept
                  rw [kept.same inside' inside (place'.trans place.symm)]
                  exact another

/-- A claimed operation stays quiet, and what is known of it depends on whether it was claimed just
now. -/
def ClaimKnown (hash : Text → Text) (strict : Prop) (tag : Nat) (input : CompareAndSetInput)
    (result : ClaimResult) (blobs : ControlBlobs) : Prop :=
  blobs.Quiet tag ∧ ∀ retry, result = .claimed retry → Standing hash strict tag input retry blobs

/-- A write that is read back under its own entity tag has been carried out: a pretended write's tag
never belongs to a version. -/
private theorem won_of_confirmed {mid after later : ControlBlobs} {result : SetResult}
    {tagged : Bool} {confirmed : Blob} (behind : Behind hash input.operationId mid)
    (outcome : SetOutcome (some (tag, .compareAndSet input)) .operations
      (physicalKey hash input.operationId) input.claim.toJson .onlyIfNew mid (.ok result) after)
    (modified : result.modified = true) (tagged' : ¬ result.etag.isNone = true)
    (read : ((later.get .operations).current (physicalKey hash input.operationId)).map
      (blobOf tagged) = some confirmed)
    (same : confirmed.etag = result.etag)
    (others : Others hash strict tag (.compareAndSet input) after later) (strictly : strict) :
    Won hash tag input.operationId later := by
  cases outcome with
  | unmet => cases modified
  | pretended known =>
    obtain ⟨version, current, rfl⟩ := Option.map_eq_some_iff.mp read
    obtain ⟨member, -⟩ := Versions.mem_of_newest current
    -- The entity tag of the reply is the number that was skipped.
    have differs : version.etag ≠ mid.operations.next := others.later.operations.skipped member
    cases known <;> cases tagged <;> simp_all [blobOf, ControlBlobs.get]
  | wrote known met =>
    have free := SetCondition.holds_onlyIfNew.mp met
    have unwritten : ¬ mid.HasWritten input.operationId := by
      intro written
      obtain ⟨version, member, at_⟩ := behind written
      exact absurd at_ (Versions.newest_eq_none.mp free version member)
    have ledger :
      (mid.put (some (tag, .compareAndSet input)) .operations (physicalKey hash input.operationId)
        input.claim.toJson).LedgerBy hash input.operationId tag :=
      ⟨_, List.mem_cons_self, rfl, _, rfl⟩
    exact ⟨ledger.mono others.later, fun written =>
      unwritten (others.held strictly _ rfl ledger written)⟩

/-- A claim made in the ledger just now is known to be the first. -/
theorem Keeps.claimInLedger (quiet : now.Quiet tag) (cleared : now.Cleared hash input.operationId)
    (behind : ∀ mid, Others hash strict tag (.compareAndSet input) now mid →
      Orderly hash usable (.compareAndSet input) mid → strict → Behind hash input.operationId mid) :
    Keeps hash strict usable tag (.compareAndSet input)
      (claimInLedger hash input.operationId input.claim)
      (ClaimKnown hash strict tag input) now := by
  -- An answer that claims nothing needs no more than that the operation is quiet.
  have silent : ∀ {later : ControlBlobs} {result : ClaimResult}, later.Quiet tag →
    (∀ retry, result ≠ .claimed retry) →
      ClaimKnown hash strict tag input result later :=
    fun calm other => ⟨calm, fun retry claimed => absurd claimed (other retry)⟩
  -- The claim is set unless there is one.
  refine Keeps.bind (Keeps.set (fun mid others orderly met => ?_)
    fun mid reply after others orderly outcome => ?_)
  · exact .operation (mid.later_put ..) input _ rfl (orderly.ok input rfl) rfl rfl rfl
      (SetCondition.holds_onlyIfNew.mp met) (.ledger rfl rfl (cleared.mono others.later))
  -- Setting a claim writes no record.
  have calm : after.Quiet tag := by
    intro version inside
    rw [outcome.records_eq] at inside
    exact (quiet.others others) version inside
  -- The set may have failed, may have written, or may have found a claim.
  cases reply with
  | error error =>
    simp only
    split <;> exact silent calm nofun
  | ok result =>
    simp only
    split
    · rename_i modified
      split
      · exact silent calm nofun
      · rename_i tagged
        refine Keeps.bind
          (Keeps.get (fun later error others₂ _ => silent (calm.others others₂) nofun)
          fun later tagged' time others₂ tidy _ => ?_)
        -- What was set is read back, as the claim under this name can be another's.
        have calm₂ := calm.others others₂
        cases read : ((later.get .operations).current (physicalKey hash input.operationId)).map
          (blobOf tagged') with
        | none => exact silent calm₂ nofun
        | some confirmed =>
          simp only
          split
          · rename_i same
            simp only [Bool.and_eq_true, decide_eq_true_eq, sameLedgerEntry_iff] at same
            -- It is the entry of this very call, so this call has won the claim.
            obtain ⟨version, member, at_, data⟩ := blob_member read
            refine ⟨calm₂, fun retry claimed =>
              ⟨Or.inl ⟨version, member, at_, data ▸ same.2⟩, fun strictly _ => ?_⟩⟩
            exact won_of_confirmed (behind mid others orderly strictly) outcome modified tagged
              read same.1 others₂ strictly
          · exact silent calm₂ nofun
    -- A claim was there before, and it is read to see whose it is.
    · refine Keeps.bind (Keeps.get (fun later error others₂ _ => silent (calm.others others₂) nofun)
        fun later tagged' time others₂ tidy _ => ?_)
      have calm₂ := calm.others others₂
      cases read : ((later.get .operations).current (physicalKey hash input.operationId)).map
        (blobOf tagged') with
      | none => exact silent calm₂ nofun
      | some entry =>
        simp only
        split
        · exact silent calm₂ nofun
        · split
          -- It has the same content, so this call is a retry.
          · rename_i same
            obtain ⟨version, member, at_, data⟩ := blob_member read
            refine ⟨calm₂, fun retry claimed => ?_⟩
            cases claimed
            exact ⟨Or.inl ⟨version, member, at_, data ▸ sameLedgerEntry_iff.mp same⟩, nofun⟩
          · split <;> exact silent calm₂ nofun

/-- Claiming an operation keeps to the contract. -/
theorem Keeps.claimOperation (quiet : now.Quiet tag) :
    Keeps hash strict usable tag (.compareAndSet input)
      (claimOperation hash dateParse input.operationId input.claim)
      (ClaimKnown hash strict tag input) now := by
  unfold Khala.claimOperation
  cases fragment : legacyFragmentKey input.operationId with
  | none =>
    -- Without a legacy key only the operation's own blob can hold the claim.
    have none : ∀ oldKey, legacyFragmentKey input.operationId ≠ some oldKey := by simp [fragment]
    refine Keeps.claimInLedger quiet (fun oldKey some_ => absurd some_ (none oldKey))
      fun mid others orderly strictly => behind_of_unproved orderly fun oldKey _ some_ =>
        absurd some_ (none oldKey)
  | some oldKey =>
    refine Keeps.bind ((Keeps.legacyClaim fragment quiet).mono fun result later known => ?_)
    obtain ⟨calm, decided, undecided⟩ := known
    match result with
    | .error error => exact ⟨calm, nofun⟩
    | .ok (some result) =>
      refine ⟨calm, fun retry claimed => ?_⟩
      obtain ⟨rfl, claims⟩ := decided retry (by rw [claimed])
      exact ⟨claims, nofun⟩
    | .ok none =>
      obtain ⟨cleared, behind⟩ := undecided rfl
      exact Keeps.claimInLedger calm cleared fun mid others orderly strictly =>
        (behind strictly).others strictly rfl others

end

end Khala
