import Khala.Concurrent.Program

/-! Programs that can be cut off between any two operations, and are then started again on the store
they leave. -/

namespace Concurrent

variable {I : Interface} {Choice σ α β : Type}

section

variable (exec : Semantics I Choice σ)

/-- The stores at which a program can be cut off. -/
inductive Cut : Program I α → σ → σ → Prop
  | here (program : Program I α) (store : σ) : Cut program store store
  | later {op : I.Op} {next : I.Reply op → Program I α} {choice : Choice} {reply : I.Reply op}
    {store mid cut : σ}
      (ran : exec op choice store = some (reply, mid)) (rest : Cut (next reply) mid cut) :
      Cut (.perform op next) store cut

/-- A program that runs to its end. -/
inductive Ends : Program I α → σ → α → σ → Prop
  | done (result : α) (store : σ) : Ends (.done result) store result store
  | later {op : I.Op} {next : I.Reply op → Program I α} {choice : Choice} {reply : I.Reply op}
    {store mid after : σ}
      {result : α} (ran : exec op choice store = some (reply, mid))
      (rest : Ends (next reply) mid result after) :
      Ends (.perform op next) store result after

/-- A program that is started again each time it is cut off, until it runs to its end. -/
inductive Reruns (program : Program I α) : σ → α → σ → Prop
  | ends {store after : σ} {result : α} (ends : Ends exec program store result after) :
  Reruns program store result after
  | crashes {store mid after : σ} {result : α} (cut : Cut exec program store mid)
    (rest : Reruns program mid result after) :
      Reruns program store result after

/-- A program that keeps an invariant at each point where it can be cut off, and ends with the
condition. -/
def Program.Throughout (invariant : σ → Prop) (post : α → σ → Prop) : Program I α → σ → Prop
  | .done result, store => invariant store ∧ post result store
  | .perform op next, store => invariant store ∧ ∀ choice reply after,
    exec op choice store = some (reply, after) →
      (next reply).Throughout invariant post after

end

variable {exec : Semantics I Choice σ} {invariant : σ → Prop}

namespace Program

/-- The invariant holds now. -/
theorem Throughout.now {post : α → σ → Prop} {program : Program I α} {store : σ}
    (safe : program.Throughout exec invariant post store) : invariant store := by
  cases program with
  | done result => exact safe.1
  | perform op next => exact safe.1

/-- Two programs in a row. -/
theorem Throughout.bind {first : Program I α} {rest : α → Program I β} {post : β → σ → Prop}
    {store : σ}
    (safe : first.Throughout exec invariant (fun result =>
      (rest result).Throughout exec invariant post) store) :
    (first >>= rest).Throughout exec invariant post store := by
  induction first generalizing store with
  | done result => exact safe.2
  | perform op next ih =>
    exact ⟨safe.1, fun choice reply after ran => ih reply (safe.2 choice reply after ran)⟩

/-- What is known less of at the end is known throughout. -/
theorem Throughout.mono {post weaker : α → σ → Prop} {program : Program I α} {store : σ}
    (safe : program.Throughout exec invariant post store)
    (imp : ∀ result after, post result after → weaker result after) :
    program.Throughout exec invariant weaker store := by
  induction program generalizing store with
  | done result => exact ⟨safe.1, imp _ _ safe.2⟩
  | perform op next ih =>
    exact ⟨safe.1, fun choice reply after ran => ih reply (safe.2 choice reply after ran)⟩

/-- One operation, whose reply and effect are settled. -/
theorem Throughout.call {op : I.Op} {post : I.Reply op → σ → Prop} {store after : σ}
    {reply : I.Reply op} (ran : ∀ choice, exec op choice store = some (reply, after))
    (before : invariant store) (kept : invariant after) (done : post reply after) :
    (Program.call op).Throughout exec invariant post store := by
  refine ⟨before, fun choice reply' after' ran' => ?_⟩
  rw [ran choice, Option.some.injEq, Prod.mk.injEq] at ran'
  obtain ⟨rfl, rfl⟩ := ran'
  exact ⟨kept, done⟩

/-- The invariant holds wherever the program is cut off. -/
theorem Throughout.cut {post : α → σ → Prop} {program : Program I α} {store mid : σ}
    (cut : Cut exec program store mid) (safe : program.Throughout exec invariant post store) :
    invariant mid := by
  induction cut with
  | here program store => exact safe.now
  | later ran rest ih => exact ih (safe.2 _ _ _ ran)

/-- A program that ends meets its postcondition. -/
theorem Throughout.ends {post : α → σ → Prop} {program : Program I α} {store after : σ} {result : α}
    (ends : Ends exec program store result after)
    (safe : program.Throughout exec invariant post store) :
    post result after := by
  induction ends with
  | done result store => exact safe.2
  | later ran rest ih => exact ih (safe.2 _ _ _ ran)

end Program

/-- A program that can be started wherever it may have been cut off ends with its condition, however
often it is. -/
theorem Reruns.post {post : α → σ → Prop} {program : Program I α} {store after : σ} {result : α}
    (restarts : ∀ store, invariant store → program.Throughout exec invariant post store)
    (runs : Reruns exec program store result after) (start : invariant store) :
    post result after := by
  induction runs with
  | ends ends => exact (restarts _ start).ends ends
  | crashes cut rest ih => exact ih ((restarts _ start).cut cut)

/-- An uninterrupted run is one of them. -/
theorem Ends.of_alone {choice : Choice} {program : Program I α} {store after : σ} {result : α}
    (ran : program.alone exec choice store = some (result, after)) :
    Ends exec program store result after := by
  induction program generalizing store with
  | done result =>
    cases ran
    exact .done _ _
  | perform op next ih =>
    obtain ⟨⟨reply, mid⟩, first, rest⟩ := Option.bind_eq_some_iff.mp ran
    exact .later first (ih reply rest)

end Concurrent
