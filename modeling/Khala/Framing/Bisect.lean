import Mathlib.Order.Basic

/-! Bisection: the two loops that halve a range until one place is left, and where they stop. -/

namespace Bisect

/-- Keeps the last place that passes: a place that fails takes everything from it on away. -/
def lastFrom {m : Type → Type} [Monad m] (passes : Nat → m Bool) : (fuel low high : Nat) → m Nat
  | 0, low, _ => pure low
  | fuel + 1, low, high =>
    if low < high then do
      let middle := (low + high + 1) / 2
      if ← passes middle then lastFrom passes fuel middle high
        else lastFrom passes fuel low (middle - 1)
    else pure low

/-- Keeps the first place that fails: a place that passes takes everything up to it away. -/
def firstFrom (passes : Nat → Bool) : (fuel low high : Nat) → Nat
  | 0, low, _ => low
  | fuel + 1, low, high =>
    if low < high then
      let middle := (low + high) / 2
      if passes middle then firstFrom passes fuel (middle + 1) high
        else firstFrom passes fuel low middle
    else low

/-- Where what passes is an initial part, the loop stops at its last place, or at the lower end if
there is none. -/
theorem lastFrom_eq {m : Type → Type} [Monad m] [LawfulMonad m] {passes : Nat → m Bool}
    {good : Nat → Bool} (tests : ∀ place, passes place = pure (good place))
    (initial : ∀ earlier place, earlier ≤ place → good place = true → good earlier = true) :
    ∀ fuel low high, low ≤ high → high - low ≤ fuel →
      ∃ last, lastFrom passes fuel low high = pure last ∧ low ≤ last ∧ last ≤ high
        ∧ (last = low ∨ good last = true) ∧ ∀ place, last < place → place ≤ high →
        good place = false := by
  intro fuel
  induction fuel with
  | zero =>
    intro low high ordered enough
    exact ⟨low, rfl, Nat.le_refl low, ordered, .inl rfl, fun place above below => by omega⟩
  | succ fuel ih =>
    intro low high ordered enough
    unfold lastFrom
    by_cases open_ : low < high
    · simp only [if_pos open_, tests, pure_bind]
      cases passed : good ((low + high + 1) / 2) with
      | true =>
        -- The middle passes, so the last place is there or further on.
        obtain ⟨last, stops, lower, upper, found, rest⟩ :=
          ih ((low + high + 1) / 2) high (by omega) (by omega)
        refine ⟨last, stops, by omega, upper, .inr ?_, rest⟩
        rcases found with same | found
        · exact same ▸ passed
        · exact found
      | false =>
        -- Everything from the middle on fails with it.
        obtain ⟨last, stops, lower, upper, found, rest⟩ :=
          ih low ((low + high + 1) / 2 - 1) (by omega) (by omega)
        refine ⟨last, stops, lower, by omega, found, fun place above below => ?_⟩
        rcases Nat.lt_or_ge place ((low + high + 1) / 2) with before | after
        · exact rest place above (by omega)
        · cases later : good place with
          | false => rfl
          | true =>
            rw [initial _ place after later] at passed
            cases passed
    · simp only [if_neg open_]
      exact ⟨low, rfl, Nat.le_refl low, ordered, .inl rfl, fun place above below => by omega⟩

/-- Where what passes is an initial part, the loop stops at the first place after it. -/
theorem firstFrom_eq {passes : Nat → Bool}
    (initial : ∀ earlier place, earlier ≤ place → passes place = true → passes earlier = true) :
    ∀ fuel low high, low ≤ high → high - low ≤ fuel →
      low ≤ firstFrom passes fuel low high ∧ firstFrom passes fuel low high ≤ high
        ∧ (∀ place, low ≤ place → place < firstFrom passes fuel low high → passes place = true)
        ∧ ∀ place, firstFrom passes fuel low high ≤ place → place < high →
        passes place = false := by
  intro fuel
  induction fuel with
  | zero =>
    intro low high ordered enough
    have closed : firstFrom passes 0 low high = low := rfl
    rw [closed]
    exact ⟨Nat.le_refl low, ordered, fun place above below => by omega,
      fun place above below => by omega⟩
  | succ fuel ih =>
    intro low high ordered enough
    unfold firstFrom
    by_cases open_ : low < high
    · simp only [if_pos open_]
      cases passed : passes ((low + high) / 2) with
      | true =>
        -- Everything up to the middle passes with it.
        obtain ⟨lower, upper, before, after⟩ := ih ((low + high) / 2 + 1) high (by omega) (by omega)
        simp only [if_true]
        refine ⟨by omega, upper, fun place above below => ?_, after⟩
        rcases Nat.lt_or_ge ((low + high) / 2) place with past | upTo
        · exact before place (by omega) below
        · exact initial place _ upTo passed
      | false =>
        obtain ⟨lower, upper, before, after⟩ := ih low ((low + high) / 2) (by omega) (by omega)
        simp only [Bool.false_eq_true, if_false]
        refine ⟨lower, by omega, before, fun place above below => ?_⟩
        rcases Nat.lt_or_ge place ((low + high) / 2) with before' | from_
        · exact after place above before'
        · cases later : passes place with
          | false => rfl
          | true =>
            rw [initial _ place from_ later] at passed
            cases passed
    · simp only [if_neg open_]
      exact ⟨Nat.le_refl low, ordered, fun place above below => by omega,
        fun place above below => by omega⟩

end Bisect
