import Mathlib.Logic.Function.Basic

/-! Programs that act on a shared store one effect at a time, and what each may rely on and must
keep. -/

namespace Concurrent

/-- The operations one side offers and the reply each of them has. -/
structure Interface where
  Op : Type
  Reply : Op → Type

/-- A program performs operations one after another and ends with a result. -/
inductive Program (I : Interface) (α : Type) : Type
  | done (result : α)
  | perform (op : I.Op) (next : I.Reply op → Program I α)

variable {I : Interface} {α β γ : Type}

namespace Program

/-- Runs the second program on the result of the first. -/
def bind : Program I α → (α → Program I β) → Program I β
  | done result, rest => rest result
  | perform op next, rest => perform op fun reply => (next reply).bind rest

instance : Monad (Program I) where
  pure := done
  bind := bind

/-- The program that performs one operation and returns its reply. -/
def call (op : I.Op) : Program I (I.Reply op) := perform op done

/-- A pure program is done. -/
@[simp] theorem pure_eq (result : α) : (pure result : Program I α) = done result := rfl

/-- What is done goes on with the rest. -/
@[simp] theorem done_bind (result : α) (rest : α → Program I β) :
    (done result >>= rest) = rest result :=
  rfl

/-- What performs an operation goes on behind it. -/
@[simp] theorem perform_bind (op : I.Op) (next : I.Reply op → Program I α)
    (rest : α → Program I β) :
    (perform op next >>= rest) = perform op fun reply => next reply >>= rest := rfl

/-- A call goes on with its reply. -/
@[simp] theorem call_bind (op : I.Op) (rest : I.Reply op → Program I β) :
    (call op >>= rest) = perform op rest := rfl

/-- Running three programs in a row does not depend on how they are grouped. -/
theorem bind_assoc (first : Program I α) (second : α → Program I β) (third : β → Program I γ) :
    (first >>= second >>= third) = first >>= fun result => second result >>= third := by
  induction first with
  | done result => rfl
  | perform op next ih => simp only [perform_bind, ih]

/-- Mapping the identity over the result changes nothing. -/
theorem id_map (program : Program I α) : id <$> program = program := by
  induction program with
  | done result => rfl
  | perform op next ih =>
    have step : id <$> perform op next = perform op fun reply => id <$> next reply := rfl
    rw [step]
    simp only [ih]

instance : LawfulMonad (Program I) := LawfulMonad.mk' _ id_map (fun _ _ => rfl) bind_assoc

end Program

/-- How operations act on a store: a choice settles what is left open, and an operation may have to
wait. -/
abbrev Semantics (I : Interface) (Choice σ : Type) : Type :=
  (op : I.Op) → Choice → σ → Option (I.Reply op × σ)

variable {Choice σ : Type}

/-- Runs a program without interruption, with the same choice for each operation. -/
def Program.alone (exec : Semantics I Choice σ) (choice : Choice) : Program I α → σ → Option (α × σ)
  | .done result, store => some (result, store)
  | .perform op next, store =>
    (exec op choice store).bind fun (reply, after) => (next reply).alone exec choice after

/-- Two programs in a row run one after the other. -/
theorem Program.alone_bind (exec : Semantics I Choice σ) (choice : Choice) (first : Program I α)
    (rest : α → Program I β) (store : σ) :
    (first >>= rest).alone exec choice store
      = (first.alone exec choice store).bind fun (result, after) =>
        (rest result).alone exec choice after := by
  induction first generalizing store with
  | done result => rfl
  | perform op next ih =>
    simp only [perform_bind, alone, Option.bind_assoc, ih]

/-- What a program counts on while it runs among others, and what it owes them. -/
structure Duty (I : Interface) (σ : Type) where
  /-- How others may change the store while the program waits to perform the operation. -/
  rely : I.Op → σ → σ → Prop
  /-- How an operation of this program may change it. -/
  guarantee : σ → σ → Prop
  /-- What holds of the store whenever an operation is performed. -/
  permits : I.Op → σ → Prop

/-- A program that keeps its duty from here on and whose result meets the condition, which sees the
stores before and after the last operation. -/
def Program.Safe (exec : Semantics I Choice σ) (duty : Duty I σ) (post : α → σ → σ → Prop) :
    Program I α → σ → σ → Prop
  | .done result, before, now => post result before now
  | .perform op next, _, now => ∀ mid choice reply after, duty.rely op now mid →
  duty.permits op mid →
      exec op choice mid = some (reply, after) →
        duty.guarantee mid after ∧ (next reply).Safe exec duty post mid after

namespace Program

variable {exec : Semantics I Choice σ} {duty : Duty I σ} {post : α → σ → σ → Prop}

/-- Two safe programs in a row are safe. -/
theorem Safe.bind {first : Program I α} {rest : α → Program I β} {post : β → σ → σ → Prop}
    {before now : σ}
    (safe : first.Safe exec duty (fun result => (rest result).Safe exec duty post) before now) :
    (first >>= rest).Safe exec duty post before now := by
  induction first generalizing before now with
  | done result => exact safe
  | perform op next ih =>
    intro mid choice reply after others permitted ran
    obtain ⟨kept, tail⟩ := safe mid choice reply after others permitted ran
    exact ⟨kept, ih reply tail⟩

/-- A weaker condition holds too. -/
theorem Safe.mono {program : Program I α} {weaker : α → σ → σ → Prop} {before now : σ}
    (safe : program.Safe exec duty post before now)
    (imp : ∀ result before now, post result before now → weaker result before now) :
    program.Safe exec duty weaker before now := by
  induction program generalizing before now with
  | done result => exact imp _ _ _ safe
  | perform op next ih =>
    intro mid choice reply after others permitted ran
    obtain ⟨kept, tail⟩ := safe mid choice reply after others permitted ran
    exact ⟨kept, ih reply tail⟩

/-- What others do beforehand cannot make a waiting program unsafe. -/
theorem Safe.stable {op : I.Op}
    (trans : ∀ {a b c}, duty.rely op a b → duty.rely op b c → duty.rely op a c)
    {next : I.Reply op → Program I α} {before now later : σ}
    (safe : (perform op next).Safe exec duty post before now) (others : duty.rely op now later)
    (any : σ) :
    (perform op next).Safe exec duty post any later :=
  fun mid choice reply after more => safe mid choice reply after (trans others more)

end Program

/-! ## Triples -/

/-- From every store that is in order and in which the fact is known, the program keeps its duty,
and it ends with its condition and the store in order. -/
def Triple (exec : Semantics I Choice σ) (duty : Duty I σ) (kept known : σ → Prop)
    (program : Program I α) (post : α → σ → Prop) : Prop :=
  ∀ before now, kept now → known now →
    program.Safe exec duty (fun result _ after => kept after ∧ post result after) before now

namespace Triple

variable {exec : Semantics I Choice σ} {duty : Duty I σ} {kept known : σ → Prop}

/-- A program that is done knows what it knew. -/
theorem done {post : α → σ → Prop} (result : α)
    (held : ∀ store, kept store → known store → post result store) :
    Triple exec duty kept known (pure result) post :=
  fun _ now order have_ => ⟨order, held now order have_⟩

/-- Two programs in sequence are triples in sequence. -/
theorem bind {first : Program I α} {rest : α → Program I β} {mid : α → σ → Prop}
    {post : β → σ → Prop} (one : Triple exec duty kept known first mid)
    (two : ∀ result, Triple exec duty kept (mid result) (rest result) post) :
    Triple exec duty kept known (first >>= rest) post :=
  fun before now order have_ =>
    Program.Safe.bind ((one before now order have_).mono fun result before now held =>
    two result before now held.1 held.2)

/-- What is known less of is known. -/
theorem mono {program : Program I α} {weaker post : α → σ → Prop}
    (triple : Triple exec duty kept known program post)
    (imp : ∀ result store, post result store → weaker result store) :
    Triple exec duty kept known program weaker :=
  fun before now order have_ =>
    (triple before now order have_).mono fun result _ after held =>
      ⟨held.1, imp result after held.2⟩

/-- What is known more of before is enough. -/
theorem weaken {program : Program I α} {post : α → σ → Prop} {stronger : σ → Prop}
    (triple : Triple exec duty kept known program post)
    (imp : ∀ store, kept store → stronger store → known store) :
    Triple exec duty kept stronger program post :=
  fun before now order have_ => triple before now order (imp now order have_)

/-- A triple under what follows from what is known. -/
theorem knowing {program : Program I α} {post : α → σ → Prop} {stronger : σ → Prop}
    (known : σ → Prop) (imp : ∀ store, kept store → stronger store → known store)
    (triple : Triple exec duty kept known program post) :
    Triple exec duty kept stronger program post :=
  triple.weaken imp

/-- A fact that does not depend on the store follows from what is known. -/
theorem of_fact {p : Prop} {program : Program I α} {post : α → σ → Prop}
    (fact : ∀ store, kept store → known store → p)
    (triple : p → Triple exec duty kept known program post) :
    Triple exec duty kept known program post :=
  fun before now order have_ => triple (fact now order have_) before now order have_

/-- One operation: the others leave true what is known, and it keeps its duty and the store in
order. -/
theorem call {op : I.Op} {post : I.Reply op → σ → Prop}
    (stable : ∀ before after, duty.permits op after → duty.rely op before after → known before →
      kept after ∧ known after)
    (works : ∀ choice store reply after, kept store → known store → duty.permits op store →
      exec op choice store = some (reply, after) → duty.guarantee store after ∧ kept after
      ∧ post reply after) :
    Triple exec duty kept known (Program.call op) post := by
  intro before now _ held mid choice reply after others permitted ran
  obtain ⟨order, still⟩ := stable now mid permitted others held
  exact works choice mid reply after order still permitted ran

end Triple

end Concurrent
