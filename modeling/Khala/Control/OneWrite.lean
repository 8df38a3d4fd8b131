import Khala.Control.StoreRuns
import Khala.Control.DigestLaws

/-! When an operation of the control store names one write only. -/

namespace Khala

open Js Concurrent

section

variable (hash : Text → Text) {dateParse : Text → Option Int}

/-- A store as earlier versions of the adapter leave it, or an empty one: none of its ledger keys
begins with `~`, and the operation of every record has a ledger blob under its legacy key. -/
structure LegacyStore (blobs : ControlBlobs) : Prop extends Found blobs where
  plain : ∀ version ∈ blobs.operations.list, version.key.head? ≠ some 126
  ledgered : ∀ version ∈ blobs.records.list, ∀ envelope oldKey,
    decodeEnvelope version.data = some envelope →
    legacyFragmentKey envelope.operationId = some oldKey → ∃ ledger ∈ blobs.operations.list,
      ledger.key = oldKey

/-- The texts that a store already names. -/
structure Names (inUse : Text → Prop) (blobs : ControlBlobs) : Prop where
  fragments : ∀ version ∈ blobs.records.list, ∀ envelope oldKey,
    decodeEnvelope version.data = some envelope →
    legacyFragmentKey envelope.operationId = some oldKey → inUse oldKey
  keys : ∀ version ∈ blobs.operations.list, ∀ entry, ledgerEntryOf version.data = some entry →
    inUse entry.key

/-- The texts that a write names. -/
structure CompareAndSetInput.Names (inUse : Text → Prop) (input : CompareAndSetInput) : Prop where
  key : inUse input.key
  operation : inUse input.operationId
  fragment : ∀ oldKey, legacyFragmentKey input.operationId = some oldKey → inUse oldKey

/-- Every write that begins names texts in use. -/
def BeginsNaming (inUse : Text → Prop) (config : Config (controlStore hash dateParse))
    (move : Move (controlStore hash dateParse)) : Prop :=
  ∀ thread input client, move = .start thread →
    config.threads thread = .idle (.perform (.compareAndSet input) client) →
    input.Names inUse

variable {hash}

/-! ## Keys -/

/-- A safe key does not begin with a tilde. -/
theorem isSafeKey_head {key : Text} (safe : isSafeKey key = true) : key.head? ≠ some 126 := by
  -- A tilde is not a safe unit.
  intro head
  obtain ⟨rest, rfl⟩ : ∃ rest, key = 126 :: rest := by
    cases key with
    | nil => cases head
    | cons first rest => cases head; exact ⟨rest, rfl⟩
  have unsafe_ : isSafeUnit 126 = false := by decide
  simp [isSafeKey, unsafe_] at safe

/-- A key that is not safe is stored under its hash. -/
theorem physicalKey_of_risky {key : Text} (risky : isSafeKey key = false) :
    physicalKey hash key = lit "~v2/" ++ hash key := by
  simp [physicalKey, risky]

/-- A key with a mark is never safe. -/
theorem physicalKey_of_fragment {key oldKey : Text}
    (fragment : legacyFragmentKey key = some oldKey) :
    physicalKey hash key = lit "~v2/" ++ hash key := by
  refine physicalKey_of_risky (Bool.eq_false_iff.mpr fun safe => ?_)
  simp only [legacyFragmentKey, Option.ite_none_right_eq_some] at fragment
  simp only [isSafeKey, Bool.and_eq_true, List.all_eq_true] at safe
  have mark : isSafeUnit 35 = false := by decide
  rw [safe.1.2 35 fragment.1] at mark
  cases mark

/-- Keys in use are told apart by where they are stored. -/
theorem physicalKey_inj {inUse : Text → Prop}
    (apart : ∀ a b, inUse a → inUse b → hash a = hash b → a = b) {a b : Text} (inA : inUse a)
    (inB : inUse b) (same : physicalKey hash a = physicalKey hash b) : a = b := by
  cases safeA : isSafeKey a <;> cases safeB :
    isSafeKey b <;> simp only [physicalKey, safeA, safeB] at same
  · exact apart a b inA inB (List.append_cancel_left same)
  · exact absurd (congrArg List.head? same.symm) (isSafeKey_head safeB)
  · exact absurd (congrArg List.head? same) (isSafeKey_head safeA)
  · exact same

/-- No proof is stored under a record's key. -/
theorem proofKey_ne_physicalKey (oldKey key : Text) :
    proofKey hash oldKey ≠ physicalKey hash key := by
  intro same
  cases safe : isSafeKey key with
  | true =>
    rw [physicalKey, if_pos safe] at same
    exact isSafeKey_head safe (congrArg List.head? same.symm)
  | false =>
    rw [physicalKey_of_risky safe] at same
    have second :
      (lit "~legacy/" ++ hash oldKey).tail.head? = (lit "~v2/" ++ hash key).tail.head? :=
      congrArg (·.tail.head?) same
    have differs : (lit "~legacy/").tail.head? ≠ (lit "~v2/").tail.head? := by decide
    exact differs second

/-- Proofs under one key are of keys with one hash. -/
theorem proofKey_inj {first second : Text} (same : proofKey hash first = proofKey hash second) :
    hash first = hash second :=
  List.append_cancel_left same

/-! ## Operations whose claim can be proved -/

/-- No hexadecimal digit is the mark. -/
theorem isHexUnit_ne_mark {u : CodeUnit} (hex : isHexUnit u = true) : u ≠ 35 := by
  rintro rfl
  have mark : isHexUnit 35 = false := by decide
  rw [hex] at mark
  cases mark

/-- A provable operation has one mark, right after the bare key of the exchange. -/
theorem canonical_shape (hexadecimal : ∀ text, ∀ u ∈ hash text, isHexUnit u = true) {oldKey : Text}
    {envelope : StoredEnvelope}
    (canonical : canonicalLegacyBoundClaim hash oldKey envelope = true) :
    oldKey.head? ≠ some 126 ∧ legacyFragmentKey envelope.operationId = some oldKey ∧
      envelope.operationId.count 35 = 1 := by
  simp only [canonicalLegacyBoundClaim, isExchangeKey, Bool.and_eq_true, beq_iff_eq,
    List.all_eq_true] at canonical
  obtain ⟨⟨⟨⟨⟨start, -⟩, hex⟩, -⟩, -⟩, operation⟩ := canonical
  obtain ⟨rest, rfl⟩ := List.isPrefixOf_iff_prefix.mp start
  have width : (lit "channel-access-exchange/").length = 24 := by decide
  rw [← width, List.drop_left] at hex
  -- Neither the name of the exchange nor the hexadecimal digits have a mark.
  have named : ∀ u ∈ lit "channel-access-exchange/", u ≠ 35 := forall_of_all (by decide)
  have bare : ∀ u ∈ lit "channel-access-exchange/" ++ rest, u ≠ 35 := by
    intro u member
    rcases List.mem_append.mp member with left | right
    · exact named u left
    · exact isHexUnit_ne_mark (hex u right)
  have shape : lit "#1.bound." = 35 :: lit "1.bound." := by decide
  have tail : (lit "1.bound.").count 35 = 0 := by decide
  have head : (lit "channel-access-exchange/").head? = some 99 := by decide
  refine ⟨by simp [List.head?_append, head], ?_, ?_⟩
  · rw [operation, shape, List.append_assoc, legacyFragmentKey, if_pos (by simp)]
    rw [List.takeWhile_append_of_pos (by simpa using bare)]
    simp
  · have digest : ∀ text, (hash text).count 35 = 0 := fun text =>
      List.count_eq_zero.mpr fun member => isHexUnit_ne_mark (hexadecimal text 35 member) rfl
    rw [operation, shape, List.count_append, List.count_append, List.count_cons_self, digest, tail,
      List.count_eq_zero.mpr fun member => bare 35 member rfl]

/-- The bytes of a provable operation never belong to a key with a mark. -/
theorem canonical_belongs {envelope : StoredEnvelope} (single : envelope.operationId.count 35 = 1)
    {key oldKey : Text} (fragment : legacyFragmentKey key = some oldKey) :
    belongsTo envelope.operationId key = false := by
  refine Bool.eq_false_iff.mpr fun belongs => ?_
  obtain ⟨rest, shape⟩ := List.isPrefixOf_iff_prefix.mp belongs
  simp only [legacyFragmentKey, Option.ite_none_right_eq_some] at fragment
  -- The key has a mark and is followed by another.
  have marks := List.count_pos_iff.mpr fragment.1
  rw [← shape] at single
  simp only [List.count_append, List.count_singleton_self] at single
  omega

/-! ## Where proofs come from -/

/-- What is kept of a store that was found with legacy blobs: who found them can still see them, and
every proof of a legacy claim repeats the operation's own claim or goes back to a record that was
found. -/
structure Ancestry (hash : Text → Text) (inUse : Text → Prop) (blobs : ControlBlobs) : Prop where
  /-- No old entry of the ledger has a name of the new form. -/
  plain : ∀ version ∈ blobs.operations.list, version.author = none → version.key.head? ≠ some 126
  /-- An old record has its entry in the ledger. -/
  ledgered : ∀ version ∈ blobs.records.list, version.author = none → ∀ envelope oldKey,
    decodeEnvelope version.data = some envelope →
      legacyFragmentKey envelope.operationId = some oldKey →
      inUse oldKey ∧ ∃ ledger ∈ blobs.operations.list, ledger.key = oldKey ∧ ledger.author = none
  /-- The keys that the old entries name are in use. -/
  keys : ∀ version ∈ blobs.operations.list, version.author = none → ∀ entry,
    ledgerEntryOf version.data = some entry → inUse entry.key
  /-- What a proof names is in the ledger, or stems from an old record. -/
  grounded : ∀ proof ∈ blobs.operations.list, ∀ oldKey, proof.key = proofKey hash oldKey →
    ∀ entry hashed,
    ledgerEntryOf proof.data = some entry →
      stringProperty proof.data (lit "operationIdHash") = some hashed →
      blobs.LedgerHolds (lit "~v2/" ++ hashed) entry ∨
      ∃ record ∈ blobs.records.list, record.author = none ∧ ∃ envelope found,
        decodeEnvelope record.data = some envelope
          ∧ legacyFragmentKey envelope.operationId = some found
          ∧ hash found = hash oldKey

variable {inUse : Text → Prop} {tag next : Nat} {call : ControlCall} {before after : ControlBlobs}

/-- The records that an older version left have their ancestry. -/
theorem LegacyStore.ancestry {blobs : ControlBlobs} (legacy : LegacyStore blobs)
    (names : Names inUse blobs) :
    Ancestry hash inUse blobs where
  plain version member _ := legacy.plain version member
  ledgered version member _ envelope oldKey decoded fragment := by
    obtain ⟨ledger, inside, at_⟩ := legacy.ledgered version member envelope oldKey decoded fragment
    exact ⟨names.fragments version member envelope oldKey decoded fragment, ledger, inside, at_,
      legacy.operations ledger inside⟩
  keys version member _ entry holds := names.keys version member entry holds
  grounded proof member oldKey at_ := by
    -- No proof is found: its key would begin with a tilde.
    exact absurd (by rw [at_]; rfl) (legacy.plain proof member)

/-- The key that a ledger blob claims is in use. -/
theorem entry_inUse (kept : Kept hash (CompareAndSetInput.Names inUse) next before)
    (ancestry : Ancestry hash inUse before) {oldKey : Text} (clean : oldKey.head? ≠ some 126)
    {entry : LedgerEntry} (holds : before.LedgerHolds oldKey entry) : inUse entry.key := by
  obtain ⟨version, member, rfl, data⟩ := holds
  -- The blob was there from the start, or an operation made it.
  cases author : version.author with
  | none => exact ancestry.keys version member author entry data
  | some made =>
    obtain ⟨tag, call⟩ := made
    obtain ⟨-, input, -, usable, operationMade⟩ := kept.operations version member tag call author
    -- An operation made it as its own entry, or as a proof under another key.
    cases operationMade with
    | ledger at_ written cleared =>
      rw [written, ledgerEntryOf_toJson] at data
      cases data
      exact usable.key
    | proof oldKey' proof envelope record fragment at_ written grounds =>
      exact absurd (by rw [at_]; rfl) clean

/-- A proof that is made now repeats the claim in its operation's own ledger blob, unless its record
was found. -/
theorem grounds_own (hexadecimal : ∀ text, ∀ u ∈ hash text, isHexUnit u = true)
    (apart : ∀ a b, inUse a → inUse b → hash a = hash b → a = b)
    (kept : Kept hash (CompareAndSetInput.Names inUse) next before)
    (ancestry : Ancestry hash inUse before) {oldKey : Text} {proof : LegacyLedgerProof}
    {envelope : StoredEnvelope} {record : BlobVersion}
    (grounds : ProofGrounds hash before oldKey proof envelope record)
    (free : ∀ version ∈ before.operations.list, version.key ≠ proofKey hash oldKey) :
    before.LedgerHolds (lit "~v2/" ++ proof.operationIdHash) proof.entry
      ∨ record.author = none := by
  cases author : record.author with
  | none => exact Or.inr rfl
  | some made =>
    left
    obtain ⟨tag, call⟩ := made
    obtain ⟨-, input, rfl, usable, recordMade⟩ := kept.records record grounds.member tag call author
    obtain ⟨clean, fragment, single⟩ := canonical_shape hexadecimal grounds.canonical
    -- The record is the call's own, for a copy would belong to a key with a mark.
    have own : record.data = input.envelope.toJson := by
      rcases recordMade.data with own | ⟨old, -, marked, -, proves⟩
      · exact own
      · obtain ⟨found, decoded, belongs⟩ := belongsTo_of_provesLegacy proves
        cases decoded.symm.trans grounds.decoded
        rw [canonical_belongs single marked] at belongs
        cases belongs
    have decoded := grounds.decoded
    rw [own] at decoded
    obtain rfl := decodeEnvelope_toJson decoded
    -- The key of the claim is the key the record was written under.
    have inUse_ : inUse proof.entry.key := entry_inUse kept ancestry clean grounds.ledger
    have sameKey : input.key = proof.entry.key := by
      rcases grounds.place with here | ⟨marked, proves⟩
      · exact physicalKey_inj apart usable.key inUse_ (recordMade.key.symm.trans here)
      · obtain ⟨found, decoded', belongs⟩ := belongsTo_of_provesLegacy proves
        cases decoded'.symm.trans grounds.decoded
        rw [canonical_belongs single marked] at belongs
        cases belongs
    have sameClaim : input.claim = proof.entry := by
      rw [CompareAndSetInput.claim, sameKey]
      exact congrArg (LedgerEntry.mk _) grounds.digest
    have place : physicalKey hash input.operationId = _ := physicalKey_of_fragment fragment
    rcases recordMade.claimed with holds | ⟨oldKey', fragment', -, version, member, at_, -⟩
    · rw [← sameClaim, ← grounds.hashed]
      exact place ▸ holds
    · -- The claim cannot rest on the proof that is only now made.
      cases fragment.symm.trans fragment'
      exact absurd at_ (free version member)

/-- A change that is allowed keeps the ancestry. -/
theorem Ancestry.change (hexadecimal : ∀ text, ∀ u ∈ hash text, isHexUnit u = true)
    (apart : ∀ a b, inUse a → inUse b → hash a = hash b → a = b)
    (kept : Kept hash (CompareAndSetInput.Names inUse) next before)
    (ancestry : Ancestry hash inUse before)
    (change : Change hash (CompareAndSetInput.Names inUse) tag call before after) :
    Ancestry hash inUse after := by
  -- What no call has made was there before.
  have later := change.later
  have found : ∀ version ∈ after.records.list, version.author = none →
    version ∈ before.records.list := by
    intro version member author
    cases change with
    | silent _ records => exact records ▸ member
    | operation _ _ _ _ _ _ records => exact records ▸ member
    | record _ _ made _ _ records _ author' =>
      rw [records] at member
      rcases List.mem_cons.mp member with rfl | old
      · rw [author] at author'; cases author'
      · exact old
  refine ⟨fun version member author =>
    ancestry.plain version (later.settled version member author) author,
    fun version member author envelope oldKey decoded fragment => ?_,
    fun version member author => ancestry.keys version (later.settled version member author) author,
    fun proof member oldKey at_ entry hashed holds names => ?_⟩
  · obtain ⟨used, ledger, inside, facts⟩ :=
      ancestry.ledgered version (found version member author) author envelope oldKey
        decoded fragment
    exact ⟨used, ledger, later.operations.mem inside, facts⟩
  · have old : proof ∈ before.operations.list → after.LedgerHolds (lit "~v2/" ++ hashed) entry ∨
        ∃ record ∈ after.records.list, record.author = none ∧ ∃ envelope found,
          decodeEnvelope record.data = some envelope ∧
          legacyFragmentKey envelope.operationId = some found ∧ hash found = hash oldKey := by
      intro inside
      rcases ancestry.grounded proof inside oldKey at_ entry hashed holds names with own | ⟨record, inside, facts⟩
      · exact Or.inl (own.mono later)
      · exact Or.inr ⟨record, later.records.mem inside, facts⟩
    cases change with
    | silent _ _ operations => exact old (operations ▸ member)
    | record _ _ _ _ _ _ operations => exact old (operations ▸ member)
    | operation _ input version own usable operations records author free made =>
      rw [operations] at member
      rcases List.mem_cons.mp member with rfl | inside
      · cases made with
        | ledger here _ _ => exact absurd (at_.symm.trans here) (proofKey_ne_physicalKey oldKey input.operationId)
        | proof oldKey' value envelope record fragment here written grounds =>
          rw [written] at holds names
          cases (ledgerEntryOf_proof value).symm.trans holds
          cases (operationIdHash_proof value).symm.trans names
          have unproved : ∀ version ∈ before.operations.list,
            version.key ≠ proofKey hash oldKey' := by
            rw [here] at free
            exact Versions.newest_eq_none.mp free
          rcases grounds_own hexadecimal apart kept ancestry grounds unproved with repeated | older
          · exact Or.inl (repeated.mono later)
          · obtain ⟨-, marked, -⟩ := canonical_shape hexadecimal grounds.canonical
            exact Or.inr ⟨record, later.records.mem grounds.member, older, envelope, oldKey',
              grounds.decoded, marked,
              proofKey_inj (here.symm.trans at_)⟩
      · exact old inside

/-- A proven legacy claim is the one in the operation's own ledger blob, if there is one. -/
theorem own_of_legacy (apart : ∀ a b, inUse a → inUse b → hash a = hash b → a = b)
    (kept : Kept hash (CompareAndSetInput.Names inUse) next before)
    (ancestry : Ancestry hash inUse before) {operationId oldKey : Text} (used : inUse operationId)
    (usedKey : inUse oldKey) (fragment : legacyFragmentKey operationId = some oldKey)
    {own legacy : LedgerEntry} (holds : before.LedgerHolds (physicalKey hash operationId) own)
    {proof : BlobVersion} (member : proof ∈ before.operations.list)
    (at_ : proof.key = proofKey hash oldKey) (entry : ledgerEntryOf proof.data = some legacy)
    (hashed : stringProperty proof.data (lit "operationIdHash") = some (hash operationId)) :
    own = legacy := by
  obtain ⟨ledger, inside, here, data⟩ := holds
  have place : physicalKey hash operationId = _ := physicalKey_of_fragment fragment
  rcases ancestry.grounded proof member oldKey at_ legacy _ entry hashed
    with ⟨ledger', inside', here', data'⟩ | old
  · -- The proof repeats what the operation's own blob holds.
    rw [kept.same inside' inside (here'.trans (place.symm.trans here.symm)), data] at data'
    exact Option.some.inj data'
  · -- A record that was found has a ledger blob that was found, which the claimant must have seen.
    exfalso
    obtain ⟨record, inRecords, older, envelope, found, decoded, marked, alike⟩ := old
    obtain ⟨usedFound, legacyBlob, inLedger, atFound, unwritten⟩ :=
      ancestry.ledgered record inRecords older envelope found decoded marked
    obtain rfl := apart found oldKey usedFound usedKey alike
    -- The blob is an old one, or a call of this store has written it.
    cases author : ledger.author with
    | none => exact ancestry.plain ledger inside author (by rw [here, place]; rfl)
    | some made =>
      obtain ⟨tag, call⟩ := made
      obtain ⟨-, input, rfl, usable, operationMade⟩ := kept.operations ledger inside tag call author
      cases operationMade with
      -- A proof never stands under an operation's own key.
      | proof oldKey' value envelope' record' _ here' _ _ =>
        exact proofKey_ne_physicalKey oldKey' operationId (here'.symm.trans here)
      -- The claim was made after the legacy blob had been found to differ.
      | ledger here' _ cleared =>
        obtain rfl := physicalKey_inj apart usable.operation used (here'.symm.trans here)
        obtain ⟨another, inside'', at', differs⟩ :=
          cleared found fragment legacyBlob inLedger atFound unwritten
        rw [kept.same inside'' member (at'.trans at_.symm)] at differs
        exact differs hashed

/-- An operation is claimed for one entry only. -/
theorem claims_agree (apart : ∀ a b, inUse a → inUse b → hash a = hash b → a = b)
    (kept : Kept hash (CompareAndSetInput.Names inUse) next before)
    (ancestry : Ancestry hash inUse before) {operationId : Text} (used : inUse operationId)
    (usedKey : ∀ oldKey, legacyFragmentKey operationId = some oldKey → inUse oldKey)
    {first second : LedgerEntry} (one : before.Claimed hash operationId first)
    (two : before.Claimed hash operationId second) : first = second := by
  -- One blob holds one entry.
  have once : ∀ {key first second}, before.LedgerHolds key first → before.LedgerHolds key second →
    first = second := by
    rintro key first second ⟨a, inA, atA, dataA⟩ ⟨b, inB, atB, dataB⟩
    rw [kept.same inA inB (atA.trans atB.symm), dataB] at dataA
    exact (Option.some.inj dataA).symm
  -- Each of the two entries is the operation's own, or that of a legacy blob.
  rcases one with own | ⟨oldKey, fragment, holds, proof, member, at_, entry, hashed⟩
  · rcases two with own' | ⟨oldKey, fragment, holds, proof, member, at_, entry, hashed⟩
    · exact once own own'
    · exact own_of_legacy apart kept ancestry used (usedKey _ fragment) fragment own member
        at_ entry hashed
  -- Two legacy blobs have the same fragment, hence they are one.
  · rcases two with own' | ⟨oldKey', fragment', holds', -⟩
    · exact (own_of_legacy apart kept ancestry used (usedKey _ fragment) fragment own' member at_
        entry hashed).symm
    · cases fragment.symm.trans fragment'
      exact once holds holds'

/-! ## All interleavings -/

/-- An answer that was claimed stays so. -/
theorem ClaimedAnswer.mono {usable : CompareAndSetInput → Prop}
    {answer : Answer (controlStore hash dateParse)}
    (claimed : ClaimedAnswer hash usable answer before) (later : before.Later after) :
    ClaimedAnswer hash usable answer after := by
  obtain ⟨tag, call, reply⟩ := answer
  cases call with
  | read key => trivial
  | resolve key operationId => trivial
  | compareAndSet input =>
    cases reply with
    | applied record => exact claimed.imp_right fun holds => holds.mono later
    | _ => trivial

/-- Every write under way names texts in use. -/
private def Naming (inUse : Text → Prop) (config : Config (controlStore hash dateParse)) : Prop :=
  ∀ thread tag input rest client,
    config.threads thread = .busy tag (.compareAndSet input) rest client →
    input.Names inUse

/-- Writes that name texts in use when they begin do so all the time. -/
private theorem Naming.step {config after : Config (controlStore hash dateParse)}
    {move : Move (controlStore hash dateParse)}
    {answers : List (Answer (controlStore hash dateParse))} (naming : Naming inUse config)
    (begins : BeginsNaming hash inUse config move)
    (moved : step config move = some (after, answers)) : Naming inUse after := by
  -- A thread that is under way afterwards was so before, or has just begun.
  rcases step_cases moved with ⟨thread, call, client, rfl, idle, rfl, rfl⟩
    | ⟨thread, choice, tag, call, op, next, client, reply, store, rfl, busy, ran, rfl,
      rfl⟩ | ⟨event, -⟩
  · intro other tag input rest client' view
    by_cases same : other = thread
    · subst same
      rcases settle_cases config.next call client ((controlStore hash dateParse).body call) with
        ⟨reply, -, settled⟩ | ⟨op, next, -, settled⟩
      · simp [settled] at view
      · simp only [Function.update_self, settled, Thread.busy.injEq] at view
        obtain ⟨-, rfl, -⟩ := view
        exact begins other input client rfl idle
    · simp only [Function.update_of_ne same] at view
      exact naming other tag input rest client' view
  · intro other tag' input rest client' view
    by_cases same : other = thread
    · subst same
      rcases settle_cases tag call client (next reply)
        with ⟨result, -, settled⟩ | ⟨op', next', -, settled⟩
      · simp [settled] at view
      · simp only [Function.update_self, settled, Thread.busy.injEq] at view
        obtain ⟨-, rfl, -⟩ := view
        exact naming other tag input _ client busy
    · simp only [Function.update_of_ne same] at view
      exact naming other tag' input rest client' view
  · exact nomatch event

/-- The contract of one write for each operation holds of every call. -/
private theorem oneWrite_holds (hexadecimal : ∀ text, ∀ u ∈ hash text, isHexUnit u = true)
    (apart : ∀ a b, inUse a → inUse b → hash a = hash b → a = b) :
    (storeContract hash False (CompareAndSetInput.Names inUse)
      (fun log blobs => Ancestry hash inUse blobs ∧
      ∀ answer ∈ log, ClaimedAnswer hash (CompareAndSetInput.Names inUse) answer blobs) :
        Contract (controlStore hash dateParse)).Holds (fun config _ => Naming inUse config) where
  refl _ _ _ blobs := ⟨.refl blobs, .refl blobs⟩
  trans _ _ _ _ _ _ one two := ⟨one.1.trans two.1, one.2.trans two.2⟩
  begins call kept := ⟨callSafe_body kept.1 call, kept.1.succ, kept.2⟩
  works tag call kept below change := by
    refine ⟨kept.1.change below change, kept.2.1.change hexadecimal apart kept.1 change,
      fun answer member => ?_⟩
    exact (kept.2.2 answer member).mono change.later
  rests _ _ blobs := .refl blobs
  answers answer kept below _ change answered := by
    refine ⟨kept.1.change below change, kept.2.1.change hexadecimal apart kept.1 change,
      fun other member => ?_⟩
    rcases List.mem_append.mp member with old | new
    · exact (kept.2.2 other old).mono change.later
    · rw [List.mem_singleton] at new
      exact new ▸ answered.2
  outside event := nomatch event
  permitted sound _ naming busy := ⟨⟨_, sound.invariant.1⟩, fun input same => by
    subst same
    exact naming _ _ input _ _ busy⟩
  interferes sound numbered _ busy busy' elsewhere _ change := by
    -- Two calls under way have two numbers, and no more is relied on.
    obtain ⟨later, foreign⟩ := Change.foreign change fun same =>
      elsewhere (numbered.distinct busy' (same ▸ busy))
    exact ⟨⟨later, foreign, False.elim, False.elim⟩, False.elim⟩

/-- Without `__proto__` the digest tells values apart exactly as structural equality does; and in
every run on a store that earlier versions have left, whose texts are told apart by their hashes,
two calls of one operation that are both told that their write is applied have the same key, value
and expiry. -/
theorem one_write_per_operation (hexadecimal : ∀ text, ∀ u ∈ hash text, isHexUnit u = true)
    (apart : ∀ a b, inUse a → inUse b → hash a = hash b → a = b) :
    (∀ a b : Json, a.Distinct → b.Distinct → ProtoFree a → ProtoFree b → ∀ e f,
      digestOf a e = digestOf b f ↔ sameJsonValue a b = true ∧ e = f) ∧
    ∀ start : Config (controlStore hash dateParse), start.Idle → LegacyStore start.store →
    Names inUse start.store →
      ∀ log config, Run (BeginsNaming hash inUse) start log config →
      ∀ tag input record tag' input' record',
        ⟨tag, .compareAndSet input, .applied record⟩ ∈ log →
        ⟨tag', .compareAndSet input', .applied record'⟩ ∈ log →
          input.operationId = input'.operationId → ProtoFree input.value → ProtoFree input'.value →
            input.key = input'.key ∧ sameJsonValue input.value input'.value = true
              ∧ input.expiresAt = input'.expiresAt := by
  have equal : ∀ a b : Json, a.Distinct → b.Distinct → ProtoFree a → ProtoFree b → ∀ e f,
      digestOf a e = digestOf b f ↔ sameJsonValue a b = true ∧ e = f := by
    intro a b distinctA distinctB freeA freeB e f
    rw [digestOf_eq_iff distinctA distinctB, freeA, freeB]
  refine ⟨equal, fun start idle legacy names log config run tag input record tag' input' record'
    one two same free free' => ?_⟩
  have initial : Naming inUse start := by
    intro thread tag input rest client busy
    obtain ⟨client', shape⟩ := idle thread
    rw [shape] at busy
    cases busy
  obtain ⟨run, -⟩ :=
    run.strengthen initial (fun naming begins moved => Naming.step naming begins moved)
    (fun naming _ => (naming : Naming inUse _))
  have sound := (oneWrite_holds hexadecimal apart).run idle
    ⟨legacy.kept _ _, legacy.ancestry names, by simp⟩ run
  obtain ⟨kept, ancestry, answered⟩ := sound.invariant
  obtain ⟨usable, claimed⟩ := answered _ one
  obtain ⟨-, claimed'⟩ := answered _ two
  have agree :=
    claims_agree apart kept ancestry usable.operation usable.fragment claimed (same ▸ claimed')
  -- One claim means one key and one digest.
  simp only [CompareAndSetInput.claim, LedgerEntry.mk.injEq] at agree
  exact ⟨agree.1, (equal _ _ input.distinct input'.distinct free free' _ _).mp agree.2⟩

end

/-! ## A value that loses a member -/

/-- The SHA-256 of the two texts that the writes below name. -/
private def hashOfTwo (text : Text) : Text :=
  if text = lit "k" then lit "8254c329a92850f6d539dd376f4816ee2764517da5e0235514af433164480d7a"
  else if text = lit "o" then lit "65c74c15a686187bb6bbf9958f494fc6b80068034a659a9ad44991b08c58f2d2"
  else []

/-- The write of a value under the key `k` by the operation `o`. -/
private def writeValue (value : Json) (distinct : value.Distinct) (expectedRevision : Option Nat) :
    CompareAndSetInput where
  key := lit "k"
  expectedRevision := expectedRevision
  operationId := lit "o"
  value := value
  expiresAt := none
  distinct := distinct

private abbrev plainWrite : CompareAndSetInput := writeValue .null trivial none

private abbrev emptyWrite : CompareAndSetInput :=
  writeValue (.object []) (by simp [Json.Distinct, distinctMembers_iff]) (some 0)

/-- The object has a member `__proto__`. -/
private abbrev protoWrite : CompareAndSetInput :=
  writeValue (.object [(protoKey, .bool true)]) (by simp [Json.Distinct, distinctMembers_iff]) none

private abbrev smallStore : Service := controlStore hashOfTwo fun _ => none

/-- A client that makes two writes one after the other. -/
private def inTurn (first second : CompareAndSetInput) : Config smallStore where
  store := .empty
  threads
    | 0 => .idle (.perform (.compareAndSet first) fun _ =>
      .perform (.compareAndSet second) fun _ => .done ())
    | _ => .idle (.done ())
  next := 0

/-- No call has begun. -/
private theorem inTurn_idle (first second : CompareAndSetInput) : (inTurn first second).Idle
  | 0 => ⟨_, rfl⟩
  | _ + 1 => ⟨_, rfl⟩

private def readNext : Move smallStore := .effect 0 (.reads true 0)

private def writeNext : Move smallStore := .effect 0 (.writes true)

/-- Whether a write that begins names the two texts. -/
private def namesTwo (config : Config smallStore) : Move smallStore → Bool
  | .start thread =>
    match config.threads thread with
    | .idle (.perform (.compareAndSet input) _) =>
      input.key == lit "k" && input.operationId == lit "o"
    | _ => true
  | _ => true

/-- A write repeated by its client is applied twice, and it is one write. -/
theorem one_write_per_operation_repeated :
    ∃ (record record' : ControlRecord) (log : List (Answer smallStore)),
    ⟨0, .compareAndSet plainWrite, .applied record⟩ ∈ log
      ∧ ⟨1, .compareAndSet plainWrite, .applied record'⟩ ∈ log ∧
      plainWrite.key = plainWrite.key ∧ sameJsonValue plainWrite.value plainWrite.value = true
        ∧ plainWrite.expiresAt = plainWrite.expiresAt := by
  have differ : hashOfTwo (lit "k") ≠ hashOfTwo (lit "o") := by decide +kernel
  -- The hash used here tells the two texts apart, and no other text is asked for.
  have apart : ∀ a b, a = lit "k" ∨ a = lit "o" → b = lit "k" ∨ b = lit "o" →
    hashOfTwo a = hashOfTwo b → a = b := by
    rintro a b (rfl | rfl) (rfl | rfl) same
    · rfl
    · exact absurd same differ
    · exact absurd same.symm differ
    · rfl
  have hexadecimal : ∀ text, ∀ u ∈ hashOfTwo text, isHexUnit u = true := by
    intro text
    unfold hashOfTwo
    split
    · exact forall_of_all (by decide +kernel)
    · split
      · exact forall_of_all (by decide +kernel)
      · simp
  -- The same write twice, each time applied.
  have ran : ∃ record record' config, execute namesTwo (inTurn plainWrite plainWrite)
      [.start 0, writeNext, readNext, readNext, writeNext, readNext, .start 0, writeNext,
        readNext, readNext]
        = some ([⟨0, .compareAndSet plainWrite, .applied record⟩,
          ⟨1, .compareAndSet plainWrite, .applied record'⟩], config) :=
    ⟨_, _, _, rfl⟩
  obtain ⟨record, record', config, done⟩ := ran
  have begins : ∀ config move, namesTwo config move = true →
      BeginsNaming hashOfTwo (fun text => text = lit "k" ∨ text = lit "o") config move := by
    rintro config move named thread input client rfl shape
    simp only [namesTwo, shape, Bool.and_eq_true, beq_iff_eq] at named
    obtain ⟨key, operation⟩ := named
    refine ⟨Or.inl key, Or.inr operation, fun oldKey fragment => ?_⟩
    -- The operation's name is no fragment of a longer key.
    have whole : legacyFragmentKey (lit "o") = none := by decide
    rw [operation, whole] at fragment
    cases fragment
  have legacy : LegacyStore .empty := ⟨found_empty, by simp [ControlBlobs.empty, Versions.empty],
    by simp [ControlBlobs.empty, Versions.empty]⟩
  -- So the theorem is about two writes of one operation, and both are the write made.
  have once := (one_write_per_operation hexadecimal apart).2 (inTurn plainWrite plainWrite)
    (inTurn_idle _ _) legacy
    ⟨by simp [inTurn, ControlBlobs.empty, Versions.empty], by simp [inTurn, ControlBlobs.empty,
      Versions.empty]⟩
    _ config ((Run.of_execute done).mono begins) _ _ _ _ _ _ List.mem_cons_self
    (List.mem_cons_of_mem _ List.mem_cons_self) rfl rfl rfl
  exact ⟨record, record', [⟨0, .compareAndSet plainWrite, .applied record⟩,
    ⟨1, .compareAndSet plainWrite, .applied record'⟩],
    List.mem_cons_self, List.mem_cons_of_mem _ List.mem_cons_self, once⟩

/-- Two applied writes under one operation, whose values differ. -/
private def rewrites : List (Answer smallStore) → Bool
  | [⟨_, .compareAndSet first, .applied _⟩, ⟨_, .compareAndSet second, .applied _⟩] =>
    first.operationId == second.operationId && !sameJsonValue first.value second.value
  | _ => false

/-- A value with a member `__proto__` and one without share a digest, and one operation can write
both. -/
theorem applied_twice :
    (¬ ∀ a b : Json, a.Distinct → b.Distinct → ∀ e f,
      digestOf a e = digestOf b f ↔ sameJsonValue a b = true ∧ e = f) ∧
    ¬ ∀ (hash : Text → Text) (dateParse : Text → Option Int)
      (start : Config (controlStore hash dateParse)),
      start.Idle → start.store = .empty → ∀ log config, Run (fun _ _ => True) start log config →
        ∀ tag input record tag' input' record', ⟨tag, .compareAndSet input, .applied record⟩ ∈ log →
          ⟨tag', .compareAndSet input', .applied record'⟩ ∈ log →
          input.operationId = input'.operationId →
            input.key = input'.key ∧ sameJsonValue input.value input'.value = true
              ∧ input.expiresAt = input'.expiresAt := by
  constructor
  · intro equal
    -- The two values differ in a key that the digest leaves out.
    have digests :
      digestOf protoWrite.value none = digestOf emptyWrite.value none := by decide +kernel
    have same := ((equal _ _ protoWrite.distinct emptyWrite.distinct none none).mp digests).1
    revert same
    decide
  · intro once
    -- Both are applied under one operation, the second over the first.
    have ran : (execute (fun _ _ => true) (inTurn protoWrite emptyWrite)
        [.start 0, writeNext, readNext, readNext, writeNext, readNext, .start 0, writeNext,
          readNext, readNext, writeNext, readNext]).any
          (fun ran => rewrites ran.1) := by decide +kernel
    obtain ⟨⟨log, config⟩, done, shape⟩ := (Option.any_eq_true _ _).mp ran
    have run := (Run.of_execute done).mono fun _ _ _ => trivial
    simp only [rewrites] at shape
    split at shape
    · simp only [Bool.and_eq_true, beq_iff_eq, Bool.not_eq_true'] at shape
      -- One operation would have written one value.
      have same :=
        (once hashOfTwo _ _ (inTurn_idle _ _) rfl _ config run _ _ _ _ _ _ List.mem_cons_self
        (List.mem_cons_of_mem _ List.mem_cons_self) shape.1).2.1
      rw [shape.2] at same
      cases same
    · cases shape

end Khala
