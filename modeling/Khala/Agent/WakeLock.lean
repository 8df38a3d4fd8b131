import Khala.Js.Text
import Khala.Concurrent.Contract

/-! The lock directory that keeps wakes of one agent apart: acquired by a rename, reclaimed when its
owner has died. -/

namespace Khala.WakeLock

open Js Concurrent

/-- What `owner-<pid>-<random>` names. -/
structure Owner where
  pid : Nat
  random : Nat
deriving DecidableEq

/-- A name in a lock directory: one that the pattern of owners matches, or another. -/
inductive Entry
  | owner (owner : Owner)
  | other (name : Text)
deriving DecidableEq

/-- A call's number and the process that makes it. -/
abbrev Holder : Type := Nat × Nat

/-- The lock directory with its entries, the candidate directories, and the processes of the
machine. -/
structure WakeDir where
  lock : Option (List Entry)
  candidate : Owner → Option (List Entry)
  /-- The random numbers drawn so far with who drew them; nobody for what was left behind by then.
  -/
  drawn : List (Nat × Option Holder)
  alive : List Nat
  dead : List Nat
  /-- The calls whose work has ended. -/
  worked : List Nat

/-- How renaming the candidate ended. -/
inductive Renaming
  | moved
  | taken
  | failed

inductive Listing
  | entries (names : List Entry)
  | absent
  | failed

inductive WakeOp
  /-- The directory of the state is made, if it is not there. -/
  | makeDir
  /-- The random part of the owner's file name. -/
  | random
  /-- The candidate's directory is made. -/
  | makeCandidate (owner : Owner)
  | writeOwner (owner : Owner)
  /-- The candidate takes the lock's place, unless there is a lock. -/
  | rename (owner : Owner)
  | removeCandidate (owner : Owner)
  /-- The entries of the lock's directory are listed. -/
  | readLock
  /-- Whether the process of an owner is alive. -/
  | probe (pid : Nat)
  | removeEntry (owner : Owner)
  | removeLock
  | sleep
  /-- The work under the lock. -/
  | work

/-- A reply that is false is an exception, but for a probe, which tells whether it found no such
process. -/
abbrev WakeOp.Reply : WakeOp → Type
  | random => Nat
  | rename _ => Renaming
  | readLock => Listing
  | _ => Bool

abbrev wakeEffects : Interface := ⟨WakeOp, WakeOp.Reply⟩

abbrev WakeProgram := Program wakeEffects

/-- A call of `withWakeLock` by a process. -/
structure WakeCall where
  process : Nat

/-- Whether the call ends without an exception. -/
abbrev wakeCalls : Interface := ⟨WakeCall, fun _ => Bool⟩

/-- An operation works, does half of what it should and fails, is denied, or fails. -/
inductive FileFate
  | works
  | partly
  | denied
  | fails
deriving DecidableEq

structure WakeChoice where
  fate : FileFate
  random : Nat

section

-- The process identifier of a process; it may be used again.
variable (pid : Nat → Nat)

/-- Operations as the file system and the machine have them, for a process that is alive. -/
def performWake (tag : Nat) (process : Nat) :
    (op : WakeOp) → WakeChoice → WakeDir → Option (op.Reply × WakeDir)
  | .makeDir, choice, store => some (choice.fate = .works, store)
  | .random, choice, store =>
    if choice.random ∈ store.drawn.map (·.1) then none
    else some (choice.random,
      { store with drawn := (choice.random, some (tag, process)) :: store.drawn })
  | .makeCandidate owner, choice, store =>
    if choice.fate = .works ∧ store.candidate owner = none then
      some (true, { store with candidate := Function.update store.candidate owner (some []) })
    else some (false, store)
  | .writeOwner owner, choice, store =>
    match store.candidate owner with
    | none => some (false, store)
    | some entries =>
      if choice.fate = .works ∨ choice.fate = .partly then
        some (choice.fate = .works,
          { store with candidate := Function.update store.candidate owner (some (entries.insert (.owner owner))) })
      else some (false, store)
  | .rename owner, choice, store =>
    match choice.fate, store.candidate owner with
    | .works, some entries =>
      -- A directory takes the place of nothing or of an empty directory.
      if store.lock = none ∨ store.lock = some [] then
        some (.moved, { store with lock := some entries, candidate := Function.update store.candidate owner none })
      else some (.taken, store)
    | .denied, _ => some (.taken, store)
    | _, _ => some (.failed, store)
  | .removeCandidate owner, choice, store =>
    match choice.fate with
    | .works => some (true, { store with candidate := Function.update store.candidate owner none })
    | .partly =>
      some (false, { store with candidate := Function.update store.candidate owner ((store.candidate owner).map fun _ => []) })
    | _ => some (false, store)
  | .readLock, choice, store =>
    match choice.fate, store.lock with
    | .works, some entries => some (.entries entries, store)
    | .works, none => some (.absent, store)
    | _, _ => some (.failed, store)
  | .probe number, choice, store =>
    some (choice.fate = .works ∧ ∀ process ∈ store.alive, pid process ≠ number, store)
  | .removeEntry owner, choice, store =>
    if choice.fate = .works then
      some (true, { store with lock := store.lock.map fun entries => entries.filter (· ≠ .owner owner) })
    else some (false, store)
  | .removeLock, choice, store =>
    if choice.fate = .works then
      some (true, { store with lock := if store.lock = some [] then none else store.lock })
    else some (false, store)
  | .sleep, _, store => some (true, store)
  | .work, choice, store => some (choice.fate = .works, { store with worked := tag :: store.worked })

def execWake (tag : Nat) (call : WakeCall) : Semantics wakeEffects WakeChoice WakeDir :=
  fun op choice store =>
  if call.process ∈ store.alive then performWake pid tag call.process op choice store else none

/-- A process begins, or it crashes. -/
inductive WakeEvent
  | spawn (process : Nat)
  | crash (process : Nat)

def outsideWake : WakeEvent → WakeDir → Option WakeDir
  | .spawn process, store =>
    if process ∈ store.alive ∨ process ∈ store.dead then none else some { store with alive := process :: store.alive }
  | .crash process, store =>
    if process ∈ store.alive then
      some { store with alive := store.alive.filter (· ≠ process), dead := process :: store.dead }
    else none

/-! ## The programs -/

def perform (op : WakeOp) : WakeProgram op.Reply := @Program.call wakeEffects op

/-- The loop over the entries of the lock: it removes those whose process is gone. -/
def clearEntries : List Entry → WakeProgram Bool
  | [] => return true
  | .other _ :: rest => clearEntries rest
  | .owner owner :: rest => do
    if ← perform (.probe owner.pid) then
      if ← perform (.removeEntry owner) then clearEntries rest else return false
    else clearEntries rest

def clearAbandonedLock : WakeProgram Bool := do
  match ← perform .readLock with
  | .absent => return true
  | .failed => return false
  | .entries names =>
    if ← clearEntries names then perform .removeLock else return false

/-- The tries to rename the candidate to the lock: whether one was made without an exception and
succeeded. -/
def acquire (owner : Owner) : Nat → WakeProgram Bool
  | 0 => return false
  | tries + 1 => do
    match ← perform (.rename owner) with
    -- Either the rename was the lock, or another holder has it.
    | .moved => return true
    | .failed => return false
    | .taken =>
      -- An abandoned lock is taken away, and the candidate tries again.
      if ← clearAbandonedLock then
        let _ ← perform .sleep
        acquire owner tries
      else return false

/-- The work, and what happens finally. -/
def workLocked (owner : Owner) : WakeProgram Bool := do
  let returned ← perform .work
  if ← perform (.removeEntry owner) then
    let removed ← perform .removeLock
    return returned && removed
  else return false

def withWakeLock (process : Nat) : WakeProgram Bool := do
  if ← perform .makeDir then
    let random ← perform .random
    let owner : Owner := ⟨pid process, random⟩
    if ← perform (.makeCandidate owner) then
      if ← perform (.writeOwner owner) then
        -- The candidate tries two hundred times.
        if ← acquire owner 200 then workLocked owner
        else
          -- It leaves nothing behind when it gives up.
          let _ ← perform (.removeCandidate owner)
          return false
      else return false
    else return false
  else return false

abbrev wakeService : Service where
  Calls := wakeCalls
  Effects := wakeEffects
  Store := WakeDir
  Choice := WakeChoice
  body := fun call => withWakeLock pid call.process
  exec := execWake pid
  Event := WakeEvent
  outside := outsideWake

/-! ## Owners -/

/-- The owner is in the lock directory. -/
def InLock (owner : Owner) (store : WakeDir) : Prop :=
  ∃ entries, store.lock = some entries ∧ .owner owner ∈ entries

/-- The call has drawn the number in the owner's name. -/
def Drew (holder : Holder) (owner : Owner) (store : WakeDir) : Prop :=
  owner.pid = pid holder.2 ∧ (owner.random, some holder) ∈ store.drawn

/-- The owner's process has died. -/
def Gone (owner : Owner) (store : WakeDir) : Prop :=
  ∃ drawer, (owner.random, drawer) ∈ store.drawn ∧ ∀ holder, drawer = some holder →
    holder.2 ∈ store.dead

/-- Whoever drew the number in the owner's name, the owner names its process. -/
def Named (owner : Owner) (store : WakeDir) : Prop :=
  ∃ drawer, (owner.random, drawer) ∈ store.drawn ∧ ∀ holder, drawer = some holder →
    owner.pid = pid holder.2

/-- What holds of the directory at all times. -/
structure Kept (store : WakeDir) : Prop where
  numbers : (store.drawn.map (·.1)).Nodup
  apart : ∀ process ∈ store.alive, process ∉ store.dead
  born : ∀ random holder, (random, some holder) ∈ store.drawn → holder.2 ∈ store.alive
    ∨ holder.2 ∈ store.dead
  candidates : ∀ owner entries, store.candidate owner = some entries → ∀ entry ∈ entries,
    entry = .owner owner
  named : ∀ owner, InLock owner store → Named pid owner store
  /-- All owners in the lock whose processes live are one. -/
  single : ∀ one two, InLock one store → InLock two store → ∀ holder holder',
    Drew pid holder one store →
    Drew pid holder' two store → holder.2 ∉ store.dead → holder'.2 ∉ store.dead → one = two

/-- What another call or the outside may do while a call waits. -/
structure WakeRely (holder : Holder) (before after : WakeDir) : Prop where
  drawn : ∀ pair ∈ before.drawn, pair ∈ after.drawn
  dead : ∀ process ∈ before.dead, process ∈ after.dead
  candidate : ∀ owner, Drew pid holder owner before → after.candidate owner = before.candidate owner
  lock : ∀ owner, Drew pid holder owner before → InLock owner before → holder.2 ∈ after.dead
    ∨ InLock owner after

/-- What an operation of a call does. -/
structure WakeChange (holder : Holder) (before after : WakeDir) : Prop where
  drawn : ∀ pair ∈ before.drawn, pair ∈ after.drawn
  processes : after.alive = before.alive ∧ after.dead = before.dead
  kept : Kept pid before → Kept pid after
  candidate : ∀ owner other, other ≠ holder → Drew pid other owner before →
    after.candidate owner = before.candidate owner
  lock : ∀ owner other, other ≠ holder → Drew pid other owner before → InLock owner before →
    other.2 ∈ before.dead ∨ InLock owner after
  worked : after.worked ≠ before.worked → ∃ owner, Drew pid holder owner before
    ∧ InLock owner before

def wakeDuty (tag : Nat) (call : WakeCall) : Duty wakeEffects WakeDir where
  rely := fun _ before after => WakeRely pid (tag, call.process) before after
  guarantee := WakeChange pid (tag, call.process)
  permits := fun _ store => Kept pid store

end

variable {pid : Nat → Nat} {tag : Nat} {call : WakeCall} {holder : Holder} {store : WakeDir}

/-- Who drew a number is settled by the number. -/
theorem Kept.drawer (kept : Kept pid store) {number : Nat} {one two : Option Holder}
    (first : (number, one) ∈ store.drawn) (second : (number, two) ∈ store.drawn) : one = two :=
  congrArg Prod.snd (List.inj_on_of_nodup_map kept.numbers first second rfl)

/-- An owner belongs to one call. -/
theorem Kept.holder_eq (kept : Kept pid store) {owner : Owner} {other : Holder}
    (one : Drew pid holder owner store) (two : Drew pid other owner store) : other = holder :=
  Option.some.inj (kept.drawer two.2 one.2)

/-- The holder of an owner that is gone is dead. -/
theorem Kept.gone_dead (kept : Kept pid store) {owner : Owner} (gone : Gone owner store)
    (drew : Drew pid holder owner store) :
    holder.2 ∈ store.dead := by
  obtain ⟨drawer, drawn, dead⟩ := gone
  exact dead holder (kept.drawer drawn drew.2)

/-- An owner of which no process with its identifier is alive has died. -/
theorem Kept.gone (kept : Kept pid store) {owner : Owner} (named : Named pid owner store)
    (nobody : ∀ process ∈ store.alive, pid process ≠ owner.pid) : Gone owner store := by
  obtain ⟨drawer, drawn, same⟩ := named
  refine ⟨drawer, drawn, fun holder is => ?_⟩
  have born := kept.born owner.random holder (is ▸ drawn)
  exact born.resolve_left fun alive => nobody _ alive (same holder is).symm

/-- The owner of a call names the call's process. -/
theorem Drew.named {owner : Owner} (drew : Drew pid holder owner store) : Named pid owner store :=
  ⟨some holder, drew.2, fun _ same => Option.some.inj same ▸ drew.1⟩

/-! ## What the operations do -/

/-- Changing nothing is a change. -/
theorem WakeChange.refl (pid : Nat → Nat) (holder : Holder) (store : WakeDir) :
    WakeChange pid holder store store where
  drawn := fun _ member => member
  processes := ⟨rfl, rfl⟩
  kept := id
  candidate := fun _ _ _ _ => rfl
  lock := fun _ _ _ _ inside => Or.inr inside
  worked := fun changed => absurd rfl changed

/-- The same store may be relied on. -/
theorem WakeRely.refl (pid : Nat → Nat) (holder : Holder) (store : WakeDir) :
    WakeRely pid holder store store :=
  ⟨fun _ member => member, fun _ member => member, fun _ _ => rfl, fun _ _ inside => Or.inr inside⟩

/-- What is relied on over two stretches is over both. -/
theorem WakeRely.trans {first second third : WakeDir} (one : WakeRely pid holder first second)
    (two : WakeRely pid holder second third) : WakeRely pid holder first third where
  drawn := fun pair member => two.drawn pair (one.drawn pair member)
  dead := fun process member => two.dead process (one.dead process member)
  candidate := fun owner drew =>
    (two.candidate owner ⟨drew.1, one.drawn _ drew.2⟩).trans (one.candidate owner drew)
  lock := by
    intro owner drew inside
    rcases one.lock owner drew inside with dead | still
    · exact Or.inl (two.dead _ dead)
    · exact two.lock owner ⟨drew.1, one.drawn _ drew.2⟩ still

/-- What one call does, another relies on. -/
theorem WakeChange.rely {before after : WakeDir} {other : Holder}
    (change : WakeChange pid holder before after) (apart : other ≠ holder) :
    WakeRely pid other before after where
  drawn := change.drawn
  dead := fun _ member => change.processes.2.symm ▸ member
  candidate := fun owner drew => change.candidate owner other apart drew
  lock := fun owner drew inside =>
    (change.lock owner other apart drew inside).imp (fun dead => change.processes.2.symm ▸ dead) id

/-- A lock directory with fewer owners in it is as good. -/
theorem Kept.of_lock (kept : Kept pid store) {lock : Option (List Entry)}
    (fewer : ∀ owner, InLock owner { store with lock := lock } → InLock owner store) :
    Kept pid { store with lock := lock } where
  numbers := kept.numbers
  apart := kept.apart
  born := kept.born
  candidates := kept.candidates
  named := fun owner inside => kept.named owner (fewer owner inside)
  single := fun one two first second => kept.single one two (fewer one first) (fewer two second)

/-- Taking owners out of the lock that are the call's own or whose process has died. -/
theorem WakeChange.of_lock {lock : Option (List Entry)}
    (fewer : ∀ owner, InLock owner { store with lock := lock } → InLock owner store)
    (stays : ∀ owner other, other ≠ holder → Drew pid other owner store → InLock owner store →
      other.2 ∈ store.dead ∨ InLock owner { store with lock := lock }) :
    WakeChange pid holder store { store with lock := lock } where
  drawn := fun _ member => member
  processes := ⟨rfl, rfl⟩
  kept := fun kept => kept.of_lock fewer
  candidate := fun _ _ _ _ => rfl
  lock := stays
  worked := fun changed => absurd rfl changed

/-- Changing a candidate of one's own. -/
theorem WakeChange.of_candidate (kept : Kept pid store) {owner : Owner}
    (drew : Drew pid holder owner store) {entries : Option (List Entry)}
    (own : ∀ names, entries = some names → ∀ entry ∈ names, entry = .owner owner) :
    WakeChange pid holder store { store with candidate := Function.update store.candidate owner entries } where
  drawn := fun _ member => member
  processes := ⟨rfl, rfl⟩
  kept := fun _ =>
    { numbers := kept.numbers
      apart := kept.apart
      born := kept.born
      named := kept.named
      single := kept.single
      candidates := by
        intro other names found
        have found : Function.update store.candidate owner entries other = some names := found
        by_cases same : other = owner
        · rw [same, Function.update_self] at found
          exact same ▸ own names found
        · rw [Function.update_of_ne same] at found
          exact kept.candidates other names found }
  candidate := by
    -- Another call's owner is another owner.
    intro other holder' apart drew'
    have differs : other ≠ owner := by
      rintro rfl
      exact apart (kept.holder_eq drew drew')
    exact Function.update_of_ne differs _ _
  lock := fun _ _ _ _ inside => Or.inr inside
  worked := fun changed => absurd rfl changed

/-- A candidate takes the place of a lock without entries. -/
theorem WakeChange.of_rename (kept : Kept pid store) {owner : Owner}
    (drew : Drew pid holder owner store) (free : store.lock = none ∨ store.lock = some [])
    {entries : List Entry} (found : store.candidate owner = some entries) :
    WakeChange pid holder store
      { store with lock := some entries, candidate := Function.update store.candidate owner none } := by
  have change := @WakeChange.of_candidate _ _ _ kept _ drew none (by simp)
  have empty : ∀ other, ¬ InLock other store := by
    rintro other ⟨names, is, member⟩
    rcases free with absent | nothing
    · rw [absent] at is
      cases is
    · rw [nothing] at is
      cases is
      cases member
  -- Everything in the lock is now the call's own.
  have only : ∀ other, InLock other
      { store with lock := some entries,
                   candidate := Function.update store.candidate owner none } → other = owner := by
    rintro other ⟨names, is, member⟩
    cases is
    exact Entry.owner.inj (kept.candidates owner entries found _ member)
  have kept' := change.kept kept
  exact
    { drawn := change.drawn
      processes := change.processes
      kept := fun _ =>
        { numbers := kept'.numbers
          apart := kept'.apart
          born := kept'.born
          candidates := kept'.candidates
          named := fun other inside => only other inside ▸ drew.named
          single := fun one two first second _ _ _ _ _ _ =>
            (only one first).trans (only two second).symm }
      candidate := change.candidate
      lock := fun other _ _ _ inside => absurd inside (empty other)
      worked := fun changed => absurd rfl changed }

/-- A number that nobody has drawn before. -/
theorem WakeChange.of_random {random : Nat} (fresh : random ∉ store.drawn.map (·.1))
    (alive : holder.2 ∈ store.alive) :
    WakeChange pid holder store { store with drawn := (random, some holder) :: store.drawn } := by
  -- Nothing with an owner that was there has the new number.
  have old : ∀ owner, Named pid owner store → ∀ other,
      Drew pid other owner { store with drawn := (random, some holder) :: store.drawn } → Drew pid other owner store := by
    rintro owner ⟨drawer, drawn, -⟩ other drew
    rcases List.mem_cons.mp drew.2 with same | member
    · rw [Prod.mk.injEq] at same
      exact absurd (List.mem_map.mpr ⟨_, drawn, same.1⟩) fresh
    · exact ⟨drew.1, member⟩
  refine ⟨fun _ member => List.mem_cons_of_mem _ member, ⟨rfl, rfl⟩, fun kept => ?_, fun _ _ _ _ => rfl,
    fun _ _ _ _ inside => Or.inr inside, fun changed => absurd rfl changed⟩
  exact
    { numbers := List.nodup_cons.mpr ⟨fresh, kept.numbers⟩
      apart := kept.apart
      born := by
        intro number other member
        rcases List.mem_cons.mp member with same | before
        · rw [Prod.mk.injEq, Option.some.injEq] at same
          exact Or.inl (same.2 ▸ alive)
        · exact kept.born number other before
      candidates := kept.candidates
      named := by
        intro owner inside
        obtain ⟨drawer, drawn, same⟩ := kept.named owner inside
        exact ⟨drawer, List.mem_cons_of_mem _ drawn, same⟩
      single := fun one two first second holder' holder'' drew drew' =>
        kept.single one two first second holder' holder'' (old one (kept.named one first) _ drew)
          (old two (kept.named two second) _ drew') }

/-! ## What a call knows -/

/-- A fact that the others leave true. -/
def Undisturbed (pid : Nat → Nat) (holder : Holder) (known : WakeDir → Prop) : Prop :=
  ∀ before after, WakeRely pid holder before after → known before → known after

/-- A fact that does not depend on the lock. -/
def LockFree (known : WakeDir → Prop) : Prop :=
  ∀ store lock, known store → known { store with lock := lock }

/-- What always holds is not disturbed. -/
theorem undisturbed_true : Undisturbed pid holder fun _ => True := fun _ _ _ _ => trivial

/-- Two facts that are not disturbed are not together. -/
theorem Undisturbed.and {first second : WakeDir → Prop} (one : Undisturbed pid holder first)
    (two : Undisturbed pid holder second) :
    Undisturbed pid holder fun store => first store ∧ second store :=
  fun before after others held => ⟨one before after others held.1, two before after others held.2⟩

/-- Others do not disturb what was drawn. -/
theorem undisturbed_drew (owner : Owner) : Undisturbed pid holder (Drew pid holder owner) :=
  fun _ _ others drew => ⟨drew.1, others.drawn _ drew.2⟩

/-- Others do not disturb a named owner. -/
theorem undisturbed_named (owner : Owner) : Undisturbed pid holder (Named pid owner) := by
  rintro before after others ⟨drawer, drawn, same⟩
  exact ⟨drawer, others.drawn _ drawn, same⟩

/-- Others do not bring back an owner that is gone. -/
theorem undisturbed_gone (owner : Owner) : Undisturbed pid holder (Gone owner) := by
  rintro before after others ⟨drawer, drawn, dead⟩
  exact ⟨drawer, others.drawn _ drawn, fun holder same => others.dead _ (dead holder same)⟩

/-- The call's candidate has the given entries. -/
def Candidate (pid : Nat → Nat) (holder : Holder) (owner : Owner) (entries : Option (List Entry))
    (store : WakeDir) : Prop :=
  Drew pid holder owner store ∧ store.candidate owner = entries

/-- Others do not touch a candidate. -/
theorem undisturbed_candidate (owner : Owner) (entries : Option (List Entry)) :
    Undisturbed pid holder (Candidate pid holder owner entries) :=
  fun before after others held =>
    ⟨undisturbed_drew owner before after others held.1, (others.candidate owner held.1).trans held.2⟩

/-- The call's owner is in the lock, as long as its process lives. -/
def Holding (pid : Nat → Nat) (holder : Holder) (owner : Owner) (store : WakeDir) : Prop :=
  Drew pid holder owner store ∧ (holder.2 ∈ store.dead ∨ InLock owner store)

/-- Others do not take a lock that is held. -/
theorem undisturbed_holding (owner : Owner) :
    Undisturbed pid holder (Holding pid holder owner) := by
  rintro before after others ⟨drew, dead | inside⟩
  · exact ⟨undisturbed_drew owner before after others drew, Or.inl (others.dead _ dead)⟩
  · exact ⟨undisturbed_drew owner before after others drew, others.lock owner drew inside⟩

/-! ## Programs -/

/-- What a program does as part of a call. -/
abbrev Guards (pid : Nat → Nat) (tag : Nat) (call : WakeCall) (known : WakeDir → Prop) {α : Type}
    (program : WakeProgram α) (post : α → WakeDir → Prop) : Prop :=
  Triple (execWake pid tag call) (wakeDuty pid tag call) (Kept pid) known program post

namespace Guards

variable {known : WakeDir → Prop}

/-- One operation of a process that is alive. -/
theorem op {op : WakeOp} {post : op.Reply → WakeDir → Prop}
    (stable : Undisturbed pid (tag, call.process) known)
    (works : ∀ choice store reply after, Kept pid store → known store → call.process ∈ store.alive → performWake pid tag call.process op choice store = some (reply, after) → WakeChange pid (tag, call.process) store after ∧ post reply after) :
    Guards pid tag call known (perform op) post := by
  refine Triple.call (fun before after kept others held => ⟨kept, stable before after others held⟩) ?_
  intro choice store reply after kept held _ ran
  simp only [execWake] at ran
  split at ran
  · rename_i alive
    obtain ⟨change, said⟩ := works choice store reply after kept held alive ran
    exact ⟨change, change.kept kept, said⟩
  · cases ran

/-- An operation that changes nothing. -/
theorem look {op : WakeOp} {post : op.Reply → WakeDir → Prop}
    (stable : Undisturbed pid (tag, call.process) known)
    (looks : ∀ choice store reply after, Kept pid store →
      performWake pid tag call.process op choice store = some (reply, after) → after = store
      ∧ post reply store) :
    Guards pid tag call known (perform op) fun reply store => known store ∧ post reply store := by
  refine Guards.op stable fun choice store reply after kept held _ ran => ?_
  obtain ⟨rfl, said⟩ := looks choice store reply after kept ran
  exact ⟨.refl .., held, said⟩

/-- Making the directory changes no lock. -/
theorem makeDir (stable : Undisturbed pid (tag, call.process) known) :
    Guards pid tag call known (perform .makeDir) fun _ store => known store ∧ True := by
  refine look stable fun choice store reply after _ ran => ?_
  simp only [performWake, Option.some.injEq, Prod.mk.injEq] at ran
  exact ⟨ran.2.symm, trivial⟩

/-- Sleeping changes no lock. -/
theorem sleep (stable : Undisturbed pid (tag, call.process) known) :
    Guards pid tag call known (perform .sleep) fun _ store => known store ∧ True := by
  refine look stable fun choice store reply after _ ran => ?_
  simp only [performWake, Option.some.injEq, Prod.mk.injEq] at ran
  exact ⟨ran.2.symm, trivial⟩

/-- The owners listed have names of processes. -/
theorem readLock (stable : Undisturbed pid (tag, call.process) known) :
    Guards pid tag call known (perform .readLock) fun reply store => known store ∧
      ∀ names, reply = .entries names → ∀ owner, .owner owner ∈ names → Named pid owner store := by
  -- The lock is only read: what it lists of owners was drawn by processes.
  refine look stable fun choice store reply after kept ran => ?_
  simp only [performWake] at ran
  split at ran
  · rename_i entries _ found
    simp only [Option.some.injEq, Prod.mk.injEq] at ran
    obtain ⟨rfl, rfl⟩ := ran
    refine ⟨rfl, fun names same owner member => kept.named owner ⟨entries, found, ?_⟩⟩
    cases same
    exact member
  · simp only [Option.some.injEq, Prod.mk.injEq] at ran
    obtain ⟨rfl, rfl⟩ := ran
    exact ⟨rfl, fun _ same => by cases same⟩
  -- The lock is missing or cannot be read, and then nothing is listed.
  · simp only [Option.some.injEq, Prod.mk.injEq] at ran
    obtain ⟨rfl, rfl⟩ := ran
    exact ⟨rfl, fun _ same => by cases same⟩

/-- A live process is never reported as gone. -/
theorem probe (stable : Undisturbed pid (tag, call.process) known) (owner : Owner) :
    Guards pid tag call (fun store => known store ∧ Named pid owner store)
      (perform (.probe owner.pid)) fun reply store =>
      known store ∧ (reply = true → Gone owner store) := by
  refine Guards.op (stable.and (undisturbed_named owner))
    fun choice store reply after kept held _ ran => ?_
  simp only [performWake, Option.some.injEq, Prod.mk.injEq] at ran
  obtain ⟨rfl, rfl⟩ := ran
  refine ⟨.refl .., held.1, fun said => kept.gone held.2 ?_⟩
  simp only [decide_eq_true_eq] at said
  exact said.2

/-- A random number names a new owner. -/
theorem random (stable : Undisturbed pid (tag, call.process) fun _ => True) :
    Guards pid tag call (fun _ => True) (perform .random) fun random store =>
      Drew pid (tag, call.process) ⟨pid call.process, random⟩ store := by
  refine Guards.op stable fun choice store reply after kept held alive ran => ?_
  simp only [performWake] at ran
  split at ran
  · cases ran
  rename_i fresh
  simp only [Option.some.injEq, Prod.mk.injEq] at ran
  obtain ⟨rfl, rfl⟩ := ran
  exact ⟨.of_random fresh alive, rfl, List.mem_cons_self⟩

/-- A candidate that is made is empty. -/
theorem makeCandidate (owner : Owner) :
    Guards pid tag call (Drew pid (tag, call.process) owner) (perform (.makeCandidate owner))
      fun made store =>
      Drew pid (tag, call.process) owner store
        ∧ (made = true → Candidate pid (tag, call.process) owner (some []) store) := by
  refine Guards.op (undisturbed_drew owner) fun choice store reply after kept held alive ran => ?_
  simp only [performWake] at ran
  split at ran
  · simp only [Option.some.injEq, Prod.mk.injEq] at ran
    obtain ⟨rfl, rfl⟩ := ran
    refine ⟨.of_candidate kept held (by rintro names same entry member; cases same; cases member),
      held, fun _ => ⟨held, ?_⟩⟩
    exact Function.update_self ..
  · simp only [Option.some.injEq, Prod.mk.injEq] at ran
    obtain ⟨rfl, rfl⟩ := ran
    exact ⟨.refl .., held, fun same => by cases same⟩

/-- An owner that is written is the candidate's one entry. -/
theorem writeOwner (owner : Owner) :
    Guards pid tag call (Candidate pid (tag, call.process) owner (some []))
      (perform (.writeOwner owner)) fun written store =>
      Drew pid (tag, call.process) owner store
        ∧ (written = true →
          Candidate pid (tag, call.process) owner (some [.owner owner]) store) := by
  -- The candidate is this process's own, so nobody else writes to it.
  refine Guards.op (undisturbed_candidate owner _)
    fun choice store reply after kept held alive ran => ?_
  simp only [performWake, held.2] at ran
  split at ran
  -- The file is written, and the candidate names its owner.
  · simp only [Option.some.injEq, Prod.mk.injEq] at ran
    obtain ⟨rfl, rfl⟩ := ran
    refine ⟨.of_candidate kept held.1 ?_, held.1, fun _ => ⟨held.1, ?_⟩⟩
    · rintro names same entry member
      cases same
      simpa using member
    · simp
  -- The write failed, and the candidate is as it was.
  · simp only [Option.some.injEq, Prod.mk.injEq] at ran
    obtain ⟨rfl, rfl⟩ := ran
    exact ⟨.refl .., held.1, fun same => by cases same⟩

/-- Renaming a candidate puts its owner into the lock, or it leaves the candidate as it is. -/
theorem rename (owner : Owner) :
    Guards pid tag call (Candidate pid (tag, call.process) owner (some [.owner owner]))
      (perform (.rename owner))
      fun outcome store => match outcome with
        | .moved => Holding pid (tag, call.process) owner store
        | _ => Candidate pid (tag, call.process) owner (some [.owner owner]) store := by
  -- The candidate becomes the lock only where there is none, or an empty one.
  refine Guards.op (undisturbed_candidate owner _)
    fun choice store reply after kept held alive ran => ?_
  simp only [performWake, held.2] at ran
  split at ran
  · rename_i entries _ same
    cases same
    split at ran
    · rename_i free
      simp only [Option.some.injEq, Prod.mk.injEq] at ran
      obtain ⟨rfl, rfl⟩ := ran
      -- It is moved: the process holds the lock.
      exact ⟨.of_rename kept held.1 free held.2, held.1, Or.inr ⟨_, rfl, List.mem_cons_self⟩⟩
    · simp only [Option.some.injEq, Prod.mk.injEq] at ran
      obtain ⟨rfl, rfl⟩ := ran
      exact ⟨.refl .., held⟩
  · simp only [Option.some.injEq, Prod.mk.injEq] at ran
    obtain ⟨rfl, rfl⟩ := ran
    exact ⟨.refl .., held⟩
  · simp only [Option.some.injEq, Prod.mk.injEq] at ran
    obtain ⟨rfl, rfl⟩ := ran
    exact ⟨.refl .., held⟩

/-- Removing the own candidate harms nobody. -/
theorem removeCandidate (owner : Owner) :
    Guards pid tag call (Drew pid (tag, call.process) owner) (perform (.removeCandidate owner))
      fun _ _ => True := by
  -- Only the own candidate goes, wholly or up to its entries.
  refine Guards.op (undisturbed_drew owner) fun choice store reply after kept held alive ran =>
    ⟨?_, trivial⟩
  simp only [performWake] at ran
  split at ran
  · simp only [Option.some.injEq, Prod.mk.injEq] at ran
    obtain ⟨-, rfl⟩ := ran
    exact .of_candidate kept held (by simp)
  · simp only [Option.some.injEq, Prod.mk.injEq] at ran
    obtain ⟨-, rfl⟩ := ran
    refine .of_candidate kept held ?_
    rintro names same entry member
    obtain ⟨-, -, rfl⟩ := Option.map_eq_some_iff.mp same
    cases member
  · simp only [Option.some.injEq, Prod.mk.injEq] at ran
    obtain ⟨-, rfl⟩ := ran
    exact .refl ..

/-- An owner may be taken out of the lock that is the call's own or that has died. -/
theorem removeEntry (owner : Owner) (stable : Undisturbed pid (tag, call.process) known)
    (free : LockFree known)
    (may : ∀ store, known store → Drew pid (tag, call.process) owner store ∨ Gone owner store) :
    Guards pid tag call known (perform (.removeEntry owner)) fun _ => known := by
  -- The entry removed is the own one, or that of a process that has gone.
  refine Guards.op stable fun choice store reply after kept held alive ran => ?_
  simp only [performWake] at ran
  split at ran
  · simp only [Option.some.injEq, Prod.mk.injEq] at ran
    obtain ⟨-, rfl⟩ := ran
    refine ⟨.of_lock ?_ ?_, free _ _ held⟩
    -- What is still listed was listed before.
    · rintro other ⟨entries, same, member⟩
      obtain ⟨names, found, rfl⟩ := Option.map_eq_some_iff.mp same
      exact ⟨names, found, (List.mem_filter.mp member).1⟩
    -- Another holder's entry stays, unless that holder is dead.
    · rintro other holder apart drew ⟨names, found, member⟩
      by_cases same : other = owner
      · subst same
        rcases may store held with own | gone
        · exact absurd (kept.holder_eq own drew) apart
        · exact Or.inl (kept.gone_dead gone drew)
      · refine Or.inr ⟨_, Option.map_eq_some_iff.mpr ⟨names, found, rfl⟩,
          List.mem_filter.mpr ⟨member, ?_⟩⟩
        simpa using same
  · simp only [Option.some.injEq, Prod.mk.injEq] at ran
    obtain ⟨-, rfl⟩ := ran
    exact ⟨.refl .., held⟩

/-- Only an empty directory is removed. -/
theorem removeLock (stable : Undisturbed pid (tag, call.process) known) (free : LockFree known) :
    Guards pid tag call known (perform .removeLock) fun _ => known := by
  -- Only an empty lock is removed.
  refine Guards.op stable fun choice store reply after kept held alive ran => ?_
  simp only [performWake] at ran
  split at ran
  · simp only [Option.some.injEq, Prod.mk.injEq] at ran
    obtain ⟨-, rfl⟩ := ran
    refine ⟨.of_lock ?_ ?_, free _ _ held⟩
    · rintro other ⟨entries, same, member⟩
      split at same
      · cases same
      · exact ⟨entries, same, member⟩
    -- A lock with an entry is not empty, so it stays.
    · rintro other holder apart drew ⟨names, found, member⟩
      have full : store.lock ≠ some [] := by
        intro empty
        cases found.symm.trans empty
        cases member
      exact Or.inr ⟨names, (if_neg full).trans found, member⟩
  · simp only [Option.some.injEq, Prod.mk.injEq] at ran
    obtain ⟨-, rfl⟩ := ran
    exact ⟨.refl .., held⟩

/-- The work is done while the call's owner is in the lock. -/
theorem work (owner : Owner) :
    Guards pid tag call (Holding pid (tag, call.process) owner) (perform .work) fun _ store =>
      Drew pid (tag, call.process) owner store := by
  refine Guards.op (undisturbed_holding owner) fun choice store reply after kept held alive ran =>
    ?_
  simp only [performWake, Option.some.injEq, Prod.mk.injEq] at ran
  obtain ⟨-, rfl⟩ := ran
  refine ⟨⟨fun _ member => member, ⟨rfl, rfl⟩, fun kept =>
    ⟨kept.numbers, kept.apart, kept.born, kept.candidates, kept.named,
    kept.single⟩, fun _ _ _ _ => rfl, fun _ _ _ _ inside => Or.inr inside, fun _ =>
      ⟨owner, held.1, ?_⟩⟩, held.1⟩
  exact held.2.resolve_left (kept.apart _ alive)

end Guards

/-- Going over the entries takes out only owners that have died. -/
theorem clearEntries_guards {known : WakeDir → Prop}
    (stable : Undisturbed pid (tag, call.process) known) (free : LockFree known)
    (names : List Entry) :
    Guards pid tag call (fun store => known store ∧ ∀ owner, .owner owner ∈ names →
      Named pid owner store)
      (clearEntries names) fun _ => known := by
  induction names with
  | nil => exact .done _ fun _ _ held => held.1
  | cons entry rest ih =>
    have later : Undisturbed pid (tag, call.process) fun store =>
        known store ∧ ∀ owner, .owner owner ∈ rest → Named pid owner store :=
      stable.and fun before after others named owner member =>
        undisturbed_named owner before after others (named owner member)
    cases entry with
    | other name =>
      exact ih.weaken fun _ _ held =>
        ⟨held.1, fun owner member => held.2 owner (List.mem_cons_of_mem _ member)⟩
    | owner owner =>
      refine .bind ((Guards.probe later owner).weaken fun _ _ held =>
        ⟨⟨held.1, fun other member => held.2 other (List.mem_cons_of_mem _ member)⟩,
          held.2 owner List.mem_cons_self⟩) ?_
      intro gone
      cases gone with
      | false => exact ih.weaken fun _ _ held => held.1
      | true =>
        -- The owner stays dead, so nobody misses its entry.
        refine .knowing (fun store =>
          (known store ∧ ∀ owner, .owner owner ∈ rest → Named pid owner store) ∧ Gone owner store)
          (fun _ _ held => ⟨held.1, held.2 rfl⟩) ?_
        refine .bind (Guards.removeEntry owner (later.and (undisturbed_gone owner))
          (fun _ _ held => ⟨⟨free _ _ held.1.1, held.1.2⟩, held.2⟩) fun _ held => Or.inr held.2) ?_
        intro removed
        cases removed with
        | false => exact .done _ fun _ _ held => held.1.1
        | true => exact ih.weaken fun _ _ held => held.1

/-- Clearing an abandoned lock keeps to the rules. -/
theorem clearAbandonedLock_guards {known : WakeDir → Prop}
    (stable : Undisturbed pid (tag, call.process) known) (free : LockFree known) :
    Guards pid tag call known clearAbandonedLock fun _ => known := by
  refine .bind (Guards.readLock stable) fun listing => ?_
  cases listing with
  | absent => exact .done _ fun _ _ held => held.1
  | failed => exact .done _ fun _ _ held => held.1
  | entries names =>
    refine .bind ((clearEntries_guards stable free names).weaken fun _ _ held =>
      ⟨held.1, held.2 names rfl⟩) fun cleared => ?_
    cases cleared with
    | false => exact .done _ fun _ _ held => held
    | true => exact Guards.removeLock stable free

/-- A call that acquires the lock has its owner in it. -/
theorem acquire_guards (owner : Owner) (tries : Nat) :
    Guards pid tag call (Candidate pid (tag, call.process) owner (some [.owner owner]))
      (acquire owner tries)
      fun acquired store => Drew pid (tag, call.process) owner store
        ∧ (acquired = true → Holding pid (tag, call.process) owner store) := by
  -- The induction is on the tries.
  induction tries with
  | zero => exact .done _ fun _ _ held => ⟨held.1, fun same => by cases same⟩
  | succ tries ih =>
    refine .bind (Guards.rename owner) fun outcome => ?_
    cases outcome with
    | moved => exact .done _ fun _ _ held => ⟨held.1, fun _ => held⟩
    | failed => exact .done _ fun _ _ held => ⟨held.1, fun same => by cases same⟩
    -- Somebody has the lock: it is cleared where its owner is gone, and tried again.
    | taken =>
      have stable : Undisturbed pid (tag, call.process)
        (Candidate pid (tag, call.process) owner (some [.owner owner])) :=
        undisturbed_candidate owner _
      refine .bind (clearAbandonedLock_guards stable fun _ _ held => held) fun cleared => ?_
      cases cleared with
      | false => exact .done _ fun _ _ held => ⟨held.1, fun same => by cases same⟩
      | true => exact .bind (Guards.sleep stable) fun _ => ih.weaken fun _ _ held => held.1

/-- Working and releasing keeps to the rules. -/
theorem workLocked_guards (owner : Owner) :
    Guards pid tag call (Holding pid (tag, call.process) owner) (workLocked owner) fun _ _ => True := by
  refine .bind (Guards.work owner) fun returned => ?_
  refine .bind (Guards.removeEntry owner (undisturbed_drew owner) (fun _ _ held => held) fun _ held => Or.inl held) fun removed => ?_
  cases removed with
  | false => exact .done _ fun _ _ _ => trivial
  | true => exact .bind (Guards.removeLock (undisturbed_drew owner) fun _ _ held => held) fun _ => .done _ fun _ _ _ => trivial

/-- The whole call keeps to the rules. -/
theorem withWakeLock_guards (tag : Nat) (call : WakeCall) :
    Guards pid tag call (fun _ => True) (withWakeLock pid call.process) fun _ _ => True := by
  -- Wherever the program gives up it holds nothing.
  have ended : ∀ {known : WakeDir → Prop}, Guards pid tag call known (pure false) fun _ _ => True :=
    .done _ fun _ _ _ => trivial
  -- The candidate is made and named before it is moved in place.
  refine .bind (Guards.makeDir undisturbed_true) fun made => ?_
  cases made with
  | false => exact ended
  | true =>
    refine .bind (Guards.random undisturbed_true |>.weaken fun _ _ _ => trivial) fun random => ?_
    refine .bind (Guards.makeCandidate _) fun made => ?_
    cases made with
    | false => exact ended
    | true =>
      refine .bind ((Guards.writeOwner _).weaken fun _ _ held => held.2 rfl) fun written => ?_
      cases written with
      | false => exact ended
      | true =>
        refine .bind ((acquire_guards _ 200).weaken fun _ _ held => held.2 rfl) fun acquired => ?_
        cases acquired with
        | true => exact (workLocked_guards _).weaken fun _ _ held => held.2 rfl
        | false => exact .bind ((Guards.removeCandidate _).weaken fun _ _ held => held.1) fun _ =>
          ended

/-! ## Runs -/

/-- The directory is kept, and each call keeps its duty. -/
def wakeContract (pid : Nat → Nat) : Contract (wakeService pid) where
  invariant := fun _ _ store => Kept pid store
  duty := wakeDuty pid
  answer := fun _ _ _ => True

/-- What happens outside keeps the directory, and no call minds it. -/
theorem outside_kept {event : WakeEvent} {after : WakeDir} (kept : Kept pid store)
    (happened : outsideWake event store = some after) :
    Kept pid after ∧ ∀ holder, WakeRely pid holder store after := by
  -- A process comes or goes; no file changes.
  cases event with
  | spawn process =>
    simp only [outsideWake, Option.ite_none_left_eq_some, Option.some.injEq, not_or] at happened
    -- A new process has a number that was never used.
    obtain ⟨⟨-, unborn⟩, rfl⟩ := happened
    refine ⟨{ kept with apart := ?_, born := fun random holder member => ?_ },
      fun holder => ⟨fun _ member => member, fun _ member => member, fun _ _ =>
        rfl, fun _ _ inside => Or.inr inside⟩⟩
    · intro other member
      rcases List.mem_cons.mp member with rfl | old
      · exact unborn
      · exact kept.apart other old
    · exact (kept.born random holder member).imp (List.mem_cons_of_mem _) id
  | crash process =>
    simp only [outsideWake, Option.ite_none_right_eq_some, Option.some.injEq] at happened
    obtain ⟨-, rfl⟩ := happened
    refine ⟨{ kept with apart := ?_, born := fun random holder member => ?_, single := ?_ },
      fun holder =>
        ⟨fun _ member => member, fun _ member => List.mem_cons_of_mem _ member, fun _ _ => rfl,
        fun _ _ inside => Or.inr inside⟩⟩
    -- The crashed process is dead, and was not before.
    · intro other member dead
      obtain ⟨old, apart⟩ := List.mem_filter.mp member
      rcases List.mem_cons.mp dead with rfl | before
      · simp at apart
      · exact kept.apart other old before
    · rcases kept.born random holder member with alive | dead
      · by_cases same : holder.2 = process
        · exact Or.inr (List.mem_cons.mpr (Or.inl same))
        · exact Or.inl (List.mem_filter.mpr ⟨alive, by simpa using same⟩)
      · exact Or.inr (List.mem_cons_of_mem _ dead)
    · -- The crash leaves fewer processes alive.
      intro one two first second holder holder' drew drew' lives lives'
      exact kept.single one two first second holder holder' drew drew'
        (fun dead => lives (List.mem_cons_of_mem _ dead)) fun dead =>
          lives' (List.mem_cons_of_mem _ dead)

/-- The contract of the lock holds of every call. -/
theorem wakeContract_holds : (wakeContract pid).Holds fun _ _ => True where
  refl := fun _ _ _ store => WakeRely.refl ..
  trans := fun _ _ _ _ _ _ one two => one.trans two
  begins := fun {_ next store} call kept =>
    -- What a call does is what its program is guarded to do.
    ⟨(withWakeLock_guards next call store store kept trivial).mono fun _ _ _ _ => trivial, kept⟩
  works := fun _ _ kept _ change => change.kept kept
  rests := fun _ _ _ => .refl ..
  answers := fun _ kept _ _ change _ => change.kept kept
  outside := by
    intro log next store after event kept happened
    obtain ⟨still, others⟩ := outside_kept kept happened
    exact ⟨still, fun _ _ _ => others _⟩
  permitted := fun sound _ _ _ => sound.invariant
  -- What one call does to the files the others can bear.
  interferes := by
    intro log config thread choice tag call op next client other tag' call' op' next' client' after
      sound numbered
      permitted busy waiting apart ran change
    refine change.rely fun same => apart ?_
    obtain rfl : tag' = tag := congrArg Prod.fst same
    exact numbered.distinct waiting busy

section

variable {start config after : Config (wakeService pid)}
    {log answers : List (Answer (wakeService pid))}
  {move : Move (wakeService pid)}

/-- The thread is inside its work, in a process that is alive. -/
def Working (config : Config (wakeService pid)) (thread tag : Nat) (call : WakeCall) : Prop :=
  (∃ next client, config.threads thread = .busy tag call (.perform .work next) client)
    ∧ call.process ∈ config.store.alive

/-- A directory that calls of earlier times have left behind. -/
structure Left (store : WakeDir) : Prop where
  numbers : (store.drawn.map (·.1)).Nodup
  apart : ∀ process ∈ store.alive, process ∉ store.dead
  nobody : ∀ pair ∈ store.drawn, pair.2 = none
  candidates : ∀ owner entries, store.candidate owner = some entries → ∀ entry ∈ entries,
    entry = .owner owner
  drawn : ∀ owner, InLock owner store → owner.random ∈ store.drawn.map (·.1)

/-- What an earlier run left is kept. -/
theorem Left.kept (left : Left store) : Kept pid store where
  numbers := left.numbers
  apart := left.apart
  born := fun random holder member => by cases left.nobody _ member
  candidates := left.candidates
  named := by
    intro owner inside
    obtain ⟨⟨random, drawer⟩, member, rfl⟩ := List.mem_map.mp (left.drawn owner inside)
    exact ⟨drawer, member, fun holder same => by cases (left.nobody _ member).symm.trans same⟩
  single := fun one two first second holder holder' drew drew' => by cases left.nobody _ drew.2

/-- Whoever is inside the work has its owner in the lock. -/
theorem working_holds (sound : (wakeContract pid).Sound log config) (numbered : Numbered log config)
    {thread : Nat} (working : Working config thread tag call) :
    ∃ owner, Drew pid (tag, call.process) owner config.store ∧ InLock owner config.store := by
  obtain ⟨⟨next, client, busy⟩, alive⟩ := working
  -- The next operation of the call ends the work, which is only done with the lock.
  have ran : execWake pid tag call .work ⟨.works, 0⟩ config.store
      = some (true, { config.store with worked := tag :: config.store.worked }) := if_pos alive
  exact (sound.guaranteed wakeContract_holds numbered trivial busy ran).worked
    (List.cons_ne_self _ _)

/-- In every run at most one live caller is inside the work, and its owner is in the lock; and no
call and no crash takes an owner out of the lock whose process lives, unless it is the call's own.
-/
theorem one_worker (idle : start.Idle) (left : Left start.store)
    (run : Run (fun _ _ => True) start log config) :
    (∀ thread tag call other tag' call', Working config thread tag call →
      Working config other tag' call' → thread = other) ∧
    (∀ thread tag call, Working config thread tag call →
      ∃ owner, Drew pid (tag, call.process) owner config.store ∧ InLock owner config.store) ∧
    ∀ move after answers, step config move = some (after, answers) → ∀ owner tag process,
      Drew pid (tag, process) owner config.store → InLock owner config.store →
      process ∈ config.store.alive →
        InLock owner after.store ∨
          ∃ thread call rest client, move.thread = some thread
            ∧ config.threads thread = .busy tag call rest client := by
  have sound := wakeContract_holds.run idle left.kept run
  have numbered := run.numbered idle
  have kept : Kept pid config.store := sound.invariant
  refine ⟨fun thread tag call other tag' call' one two => ?_, fun _ _ _ working =>
    working_holds sound numbered working,
    fun move after answers moved owner tag process drew inside alive => ?_⟩
  · obtain ⟨owner, drew, inside⟩ := working_holds sound numbered one
    obtain ⟨owner', drew', inside'⟩ := working_holds sound numbered two
    -- Both owners are in the lock and live, so they are one owner, and it was drawn by one call.
    have same : owner = owner' :=
      kept.single owner owner' inside inside' _ _ drew drew' (kept.apart _ one.2)
      (kept.apart _ two.2)
    subst same
    obtain rfl : tag' = tag := congrArg Prod.fst (kept.holder_eq drew drew')
    obtain ⟨⟨next, client, busy⟩, -⟩ := one
    obtain ⟨⟨next', client', busy'⟩, -⟩ := two
    exact numbered.distinct busy busy'
  · rcases step_cases moved with ⟨thread, call, client, rfl, -, rfl, -⟩
      | ⟨thread, choice, tag', call, op, next, client, reply, changed, rfl, busy, ran, rfl, -⟩
      | ⟨event, changed, rfl, happened, rfl, -⟩
    · exact Or.inl inside
    · have change : WakeChange pid (tag', call.process) config.store changed :=
        sound.guaranteed wakeContract_holds numbered trivial busy ran
      by_cases own : (tag, process) = (tag', call.process)
      · cases own
        exact Or.inr ⟨thread, call, _, client, rfl, busy⟩
      · exact Or.inl ((change.lock owner _ own drew inside).resolve_left (kept.apart _ alive))
    · obtain ⟨entries, same, member⟩ := inside
      refine Or.inl ⟨entries, ?_, member⟩
      cases event with
      | spawn process =>
        simp only [wakeService, outsideWake, Option.ite_none_left_eq_some, Option.some.injEq]
          at happened
        obtain ⟨-, rfl⟩ := happened
        exact same
      | crash process =>
        simp only [wakeService, outsideWake, Option.ite_none_right_eq_some, Option.some.injEq]
          at happened
        obtain ⟨-, rfl⟩ := happened
        exact same

end

/-! ## A crash and its successor -/

/-- Two processes that each do their work once; the directory is empty at first. -/
private def twoProcesses : Config (wakeService id) where
  store := ⟨none, fun _ => none, [], [1, 2], [], []⟩
  threads
    | 0 => .idle (do let _ ← @Program.call wakeCalls ⟨1⟩)
    | 1 => .idle (do let _ ← @Program.call wakeCalls ⟨2⟩)
    | _ => .idle (.done ())
  next := 0

/-- A process takes a number of steps, each with the number at hand. -/
private def wakeSteps (thread random count : Nat) : List (Move (wakeService id)) :=
  List.replicate count (.effect thread ⟨.works, random⟩)

/-- A run in which the first process has crashed inside its work and the second has reclaimed the
lock. -/
theorem one_worker_reclaimed : ∃ log config, Run (fun _ _ => True) twoProcesses log config ∧
    Working config 1 1 ⟨2⟩ ∧ ∀ thread tag call, Working config thread tag call → thread = 1 := by
  -- The run is computed: one process crashes with the lock, and the other takes it over.
  have ran : ∃ log config, execute (fun _ _ => true) twoProcesses
      (Move.start 0 :: wakeSteps 0 7 5 ++ Move.start 1 :: wakeSteps 1 8 4 ++ .outside (.crash 1)
        :: wakeSteps 1 8 7) = some (log, config)
      ∧ Working config 1 1 ⟨2⟩ :=
    ⟨_, _, rfl, ⟨_, _, rfl⟩, by decide⟩
  obtain ⟨log, config, done, working⟩ := ran
  have idle : twoProcesses.Idle
    | 0 => ⟨_, rfl⟩
    | 1 => ⟨_, rfl⟩
    | _ + 2 => ⟨_, rfl⟩
  have left : Left twoProcesses.store :=
    ⟨List.nodup_nil, by decide, fun _ member => (List.not_mem_nil member).elim,
      (fun _ _ same => by cases same),
      fun _ ⟨_, same, _⟩ => by cases same⟩
  have run : Run (fun _ _ => True) twoProcesses log config :=
    (Run.of_execute done).mono fun _ _ _ => trivial
  exact ⟨log, config, run, working, fun thread tag call held =>
    (one_worker idle left run).1 thread tag call 1 1 ⟨2⟩ held working⟩

end Khala.WakeLock
