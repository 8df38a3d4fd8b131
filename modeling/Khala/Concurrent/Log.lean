import Mathlib.Data.List.Infix

/-! A log that grows at its end: what lies before and after its entries, and what has been opened in
it and not closed. -/

namespace Concurrent

section

variable {ω : Type} {log whats before after mid : List ω} {last what : ω}

/-- A final part of a longer log is a final part of what is new, or has all of it. -/
theorem suffix_append (suffix : after <:+ log ++ whats) :
    after <:+ whats ∨ ∃ before, after = before ++ whats ∧ before <:+ log := by
  obtain ⟨front, same⟩ := suffix
  rcases List.append_eq_append_iff.mp same with ⟨middle, rfl, rfl⟩ | ⟨middle, rfl, rfl⟩
  · exact .inr ⟨middle, rfl, List.suffix_append front middle⟩
  · exact .inl (List.suffix_append middle after)

/-- What follows an entry that is not new ends with all that is. -/
theorem split_append (same : log ++ whats = before ++ what :: mid) (old : what ∉ whats) :
    ∃ between, mid = between ++ whats ∧ log = before ++ what :: between := by
  rcases List.append_eq_append_iff.mp same with ⟨middle, rfl, rest⟩ | ⟨middle, split, rest⟩
  · exact absurd (rest ▸ List.mem_append_right _ List.mem_cons_self) old
  · cases middle with
    | nil =>
      rw [List.nil_append] at rest
      exact absurd (rest ▸ List.mem_cons_self) old
    | cons first between =>
      obtain ⟨rfl, rfl⟩ := List.cons.inj rest
      exact ⟨between, rfl, split⟩

/-- An entry of a log with one more is that one, or an earlier one. -/
theorem split_last (same : log ++ [last] = before ++ what :: mid) :
    (mid = [] ∧ log = before ∧ last = what) ∨ ∃ between, mid = between ++ [last]
      ∧ log = before ++ what :: between := by
  rcases List.eq_nil_or_concat mid with rfl | ⟨between, final, rfl⟩
  · obtain ⟨rfl, is⟩ := List.append_inj' same rfl
    exact .inl ⟨rfl, rfl, List.head_eq_of_cons_eq is⟩
  · rw [List.concat_eq_append, ← List.cons_append, ← List.append_assoc] at same
    obtain ⟨rfl, is⟩ := List.append_inj' same rfl
    exact .inr ⟨between, by rw [List.concat_eq_append, List.head_eq_of_cons_eq is], rfl⟩

end

section

variable {ω κ : Type} [DecidableEq κ] (opens closes : ω → Option κ)

/-- What has been opened and not closed since, in the order in which it was opened. -/
def pending (log : List ω) : List κ :=
  log.foldl (fun keys what => match opens what with
    | some key => keys ++ [key]
    | none => match closes what with
      | some key => keys.filter (· ≠ key)
      | none => keys) []

/-- What opens at the end is pending after the others. -/
theorem pending_concat (log : List ω) (what : ω) :
    pending opens closes (log ++ [what]) = match opens what with
    | some key => pending opens closes log ++ [key]
    | none => match closes what with
      | some key => (pending opens closes log).filter (· ≠ key)
      | none => pending opens closes log := by
  rw [pending, List.foldl_append]
  rfl

/-- Where nothing is opened, things are only closed. -/
theorem pending_append (log : List ω) {whats : List ω} (quiet : ∀ what ∈ whats, opens what = none) :
    (pending opens closes (log ++ whats)).Sublist (pending opens closes log) ∧
      ∀ key ∈ pending opens closes (log ++ whats), ∀ what ∈ whats, closes what ≠ some key := by
  -- The induction takes the last of the quiet events: it opens nothing, and may close a key.
  induction whats using List.reverseRecOn with
  | nil => simp
  | append_singleton whats what ih =>
    obtain ⟨fewer, unclosed⟩ := ih fun earlier inside =>
      quiet earlier (List.mem_append_left _ inside)
    rw [← List.append_assoc, pending_concat,
      quiet what (List.mem_append_right _ List.mem_cons_self)]
    dsimp only
    cases shuts : closes what with
    | none =>
      refine ⟨fewer, fun key there other inside => ?_⟩
      rcases List.mem_append.mp inside with earlier | last
      · exact unclosed key there other earlier
      · rw [List.mem_singleton.mp last, shuts]
        simp
    | some shut =>
      -- The key it closes is no longer pending, and no other key comes in.
      refine ⟨List.filter_sublist.trans fewer, fun key there other inside => ?_⟩
      obtain ⟨there, differs⟩ := List.mem_filter.mp there
      rcases List.mem_append.mp inside with earlier | last
      · exact unclosed key there other earlier
      · rw [List.mem_singleton.mp last, shuts]
        intro same
        simp [Option.some.inj same] at differs

end

end Concurrent
