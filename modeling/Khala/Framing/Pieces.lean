import Mathlib.Data.List.Basic

/-! Lists read piece by piece, where the head of each piece says how long it is, and cutting pieces
out of them. -/

namespace Framing

/-- What the head of a piece says: the length of the piece, and whether nothing after it is read. -/
structure Head where
  size : Nat
  last : Bool
  positive : 0 < size

section

variable {α : Type} (head : List α → Option Head)

/-- The lists at which the pieces of a list start, each with all that follows it. -/
def walk (rest : List α) : List (List α) :=
  match head rest with
  | none => []
  | some next =>
    -- The walk stands here, and goes on behind the next part unless this is the last.
    if next.last ∨ rest.length < next.size then [rest] else rest :: walk (rest.drop next.size)
termination_by rest.length
decreasing_by
  have := next.positive
  rw [List.length_drop]
  omega

/-- No piece runs past the end of the list. -/
def Whole (rest : List α) : Prop :=
  ∀ at' ∈ walk head rest, ∀ next, head at' = some next → next.size ≤ at'.length

/-- No piece is marked. -/
def Unmarked (marked : List α → Bool) (rest : List α) : Prop :=
  ∀ at' ∈ walk head rest, marked at' = false

variable (marked : List α → Bool) (ending : List α → List α)

/-- The list without its marked pieces, followed by what is made of the rest where no piece starts;
nothing, when a piece runs past the end. -/
def cutOut (rest : List α) : Option (List α) :=
  match head rest with
  | none => some (ending rest)
  | some next =>
    -- A part that is cut off fails the whole walk.
    if rest.length < next.size then none
    else
      let kept := if marked rest then [] else rest.take next.size
      -- What stands behind the last part is dropped.
      if next.last then some kept else (cutOut (rest.drop next.size)).map (kept ++ ·)
termination_by rest.length
decreasing_by
  have := next.positive
  rw [List.length_drop]
  omega

variable {head marked ending}

/-! ## One piece at a time -/

/-- Where no piece starts the walk ends. -/
theorem walk_stop {rest : List α} (stop : head rest = none) : walk head rest = [] := by
  rw [walk]
  simp only [stop]

/-- The walk goes from a piece to the next, while they fit. -/
theorem walk_piece {rest : List α} {next : Head} (starts : head rest = some next) :
    walk head rest = rest :: if next.last ∨ rest.length < next.size then []
      else walk head (rest.drop next.size) := by
  rw [walk]
  simp only [starts]
  split <;> rfl

/-- Where no piece starts the ending is left. -/
theorem cutOut_stop {rest : List α} (stop : head rest = none) :
    cutOut head marked ending rest = some (ending rest) := by
  rw [cutOut]
  simp only [stop]

/-- A piece is cut out when it is marked, and the walk goes on. -/
theorem cutOut_piece {rest : List α} {next : Head} (starts : head rest = some next)
    (fits : next.size ≤ rest.length) :
    cutOut head marked ending rest = if next.last
      then some (if marked rest then [] else rest.take next.size)
      else (cutOut head marked ending (rest.drop next.size)).map
        ((if marked rest then [] else rest.take next.size) ++ ·) := by
  rw [cutOut]
  simp only [starts, if_neg (Nat.not_lt.mpr fits)]

/-- Pieces are read from the front. -/
theorem pieces_induction (head : List α → Option Head) {motive : List α → Prop}
    (stop : ∀ rest, head rest = none → motive rest)
    (piece : ∀ rest next, head rest = some next →
      (next.last = false → next.size ≤ rest.length → motive (rest.drop next.size)) → motive rest)
    (rest : List α) : motive rest := by
  -- By induction on the length: a piece is not empty.
  generalize bound : rest.length = length
  induction length using Nat.strongRecOn generalizing rest with
  | ind length ih =>
    cases starts : head rest with
    | none => exact stop rest starts
    | some next =>
      apply piece rest next starts
      intro _ fits
      have positive := next.positive
      exact ih (rest.drop next.size).length (by rw [List.length_drop]; omega) _ rfl

/-- A piece fits, and so do the others. -/
theorem whole_piece {rest : List α} {next : Head} (starts : head rest = some next) :
    Whole head rest ↔ next.size ≤ rest.length
      ∧ (next.last = false → Whole head (rest.drop next.size)) := by
  unfold Whole
  -- The walk is this piece and the walk of what follows it.
  rw [walk_piece starts, List.forall_mem_cons]
  constructor
  · rintro ⟨first, later⟩
    have fits := first next starts
    refine ⟨fits, fun more => ?_⟩
    rwa [if_neg (by simp [more, fits])] at later
  · rintro ⟨fits, later⟩
    -- The first place is this piece's, which fits.
    refine ⟨fun other same => ?_, ?_⟩
    · rw [starts] at same
      cases same
      exact fits
    -- Where it is not the last one, the later places are those of the rest.
    · cases more : next.last with
      | true => simp
      | false =>
        rw [if_neg (by simp [fits])]
        exact later more

/-- Cutting fails when a piece runs past the end, and only then. -/
theorem cutOut_isSome (rest : List α) :
    (cutOut head marked ending rest).isSome ↔ Whole head rest := by
  induction rest using pieces_induction head with
  | stop rest starts => simp [cutOut_stop starts, Whole, walk_stop starts]
  | piece rest next starts ih =>
    rw [whole_piece starts]
    by_cases fits : next.size ≤ rest.length
    · rw [cutOut_piece starts fits]
      cases more : next.last with
      | true => simp [fits]
      | false => simp [fits, ih more fits]
    · rw [cutOut]
      simp [starts, fits]

/-- What can be cut is whole. -/
theorem whole_of_cutOut {rest out : List α} (cut : cutOut head marked ending rest = some out) :
    Whole head rest :=
  (cutOut_isSome rest).mp (by rw [cut]; rfl)

/-- What cannot be cut is not whole. -/
theorem not_whole_of_cutOut {rest : List α} (cut : cutOut head marked ending rest = none) :
    ¬ Whole head rest := by
  rw [← cutOut_isSome, cut]
  simp

/-- After the same start, what was cut out of the rest is what is left. -/
theorem drop_take_append_cutOut (empty : head [] = none) (nothing : ending [] = [])
    {whole out : List α} {start : Nat}
    (cut : cutOut head marked ending (whole.drop start) = some out) :
    (whole.take start ++ out).drop start = out := by
  by_cases long : start ≤ whole.length
  · rw [List.drop_append, List.length_take_of_le long, List.drop_take, Nat.sub_self]
    simp
  · rw [List.drop_eq_nil_of_le (by omega), cutOut_stop empty, nothing, Option.some.injEq] at cut
    rw [← cut, List.append_nil, List.drop_eq_nil_of_le (List.length_take_le _ _)]

instance (rest : List α) : Decidable (Whole head rest) :=
  decidable_of_iff _ (@cutOut_isSome _ head (fun _ => false) id rest)

instance (rest : List α) : Decidable (Unmarked head marked rest) :=
  inferInstanceAs (Decidable (∀ at' ∈ walk head rest, marked at' = false))

/-! ## What is left reads as unmarked -/

/-- Where no piece starts none is marked. -/
theorem unmarked_stop {rest : List α} (stop : head rest = none) : Unmarked head marked rest := by
  simp [Unmarked, walk_stop stop]

/-- A piece in front, and what follows it. -/
theorem unmarked_append {piece out : List α} {next : Head}
    (starts : head (piece ++ out) = some next) (size : piece.length = next.size)
    (more : next.last = false) :
    Unmarked head marked (piece ++ out) ↔ marked (piece ++ out) = false
      ∧ Unmarked head marked out := by
  unfold Unmarked
  rw [walk_piece starts, List.forall_mem_cons, ← size, if_neg (by simp [more])]
  simp

/-- A piece that fits is not marked, and none after it is. -/
theorem unmarked_piece {rest : List α} {next : Head} (starts : head rest = some next)
    (fits : next.size ≤ rest.length) :
    Unmarked head marked rest
      ↔ marked rest = false ∧ (next.last = false → Unmarked head marked (rest.drop next.size)) := by
  unfold Unmarked
  rw [walk_piece starts, List.forall_mem_cons]
  cases next.last <;> simp [fits]

/-- A list without marked pieces is not changed where nothing is made of its rest. -/
theorem cutOut_unmarked (single : ∀ rest next, head rest = some next → next.last = false)
    {rest : List α} (whole : Whole head rest) (none : Unmarked head marked rest) :
    cutOut head marked id rest = some rest := by
  induction rest using pieces_induction head with
  | stop rest starts => exact cutOut_stop starts
  | piece rest next starts ih =>
    have more := single rest next starts
    obtain ⟨fits, later⟩ := (whole_piece starts).mp whole
    unfold Unmarked at none
    rw [walk_piece starts, List.forall_mem_cons, if_neg (by simp [more, fits])] at none
    rw [cutOut_piece starts fits, ih more fits (later more) none.2]
    simp [more, none.1]

/-- Whoever reads kept pieces as they were read when they were kept finds no marked piece in what is
left; where a piece is read otherwise, this depends on what is left of the list from there on. -/
theorem unmarked_cutOut (look : List α → Option Head) (odd : List α → Bool) (empty : look [] = none)
    (stops : ∀ rest, head rest = none → Unmarked look marked (ending rest))
    (keeps : ∀ rest next out, head rest = some next → odd rest = false → next.size ≤ rest.length →
      next.last = true ∧ out = [] ∨ next.last = false
      ∧ cutOut head marked ending (rest.drop next.size) = some out →
      look (rest.take next.size ++ out) = some next
      ∧ marked (rest.take next.size ++ out) = marked rest)
    {rest out : List α} (cut : cutOut head marked ending rest = some out) :
    ((walk head rest).find? odd = none → Unmarked look marked out)
      ∧ ∀ at', (walk head rest).find? odd = some at' →
        ∃ left, cutOut head marked ending at' = some left
          ∧ (Unmarked look marked out ↔ Unmarked look marked left) := by
  induction rest using pieces_induction head generalizing out with
  | stop rest starts =>
    rw [cutOut_stop starts, Option.some.injEq] at cut
    rw [walk_stop starts, ← cut]
    exact ⟨fun _ => stops rest starts, fun at' found => by simp at found⟩
  | piece rest next starts ih =>
    -- What is cut out of a whole walk has each piece whole.
    have fits : next.size ≤ rest.length :=
      ((whole_piece starts).mp (whole_of_cutOut cut)).1
    have size : (rest.take next.size).length = next.size := List.length_take_of_le fits
    rw [walk_piece starts]
    cases apart : odd rest with
    -- The piece itself is the odd one.
    | true =>
      rw [List.find?_cons_of_pos apart]
      refine ⟨fun found => by simp at found, fun at' found => ?_⟩
      cases found
      exact ⟨out, cut, Iff.rfl⟩
    | false =>
      rw [List.find?_cons_of_neg (by simp [apart])]
      rw [cutOut_piece starts fits] at cut
      cases more : next.last with
      | true =>
        -- The last piece is all that is left.
        obtain ⟨read, same⟩ := keeps rest next [] starts apart fits (.inl ⟨more, rfl⟩)
        rw [List.append_nil] at read same
        rw [more, if_pos rfl, Option.some.injEq] at cut
        simp only [true_or, if_true, List.find?_nil]
        refine ⟨fun _ => ?_, fun at' found => by simp at found⟩
        subst cut
        split
        · exact unmarked_stop empty
        next kept =>
          intro at' member
          rw [walk_piece read, if_pos (.inl more), List.mem_singleton] at member
          rw [member, same]
          simpa using kept
      | false =>
        rw [more, if_neg (by simp)] at cut
        obtain ⟨left, later, rfl⟩ := Option.map_eq_some_iff.mp cut
        obtain ⟨read, same⟩ := keeps rest next left starts apart fits (.inr ⟨more, later⟩)
        have rests := ih more fits later
        rw [if_neg (by simp [fits])]
        -- A marked piece is dropped, and the rest is what is left.
        by_cases dropped : marked rest = true
        · rw [if_pos dropped]
          exact rests
        · -- The kept piece is read as it was, and then what is left after it.
          have unmarked : marked (rest.take next.size ++ left) = false := by
            rw [same]
            simpa using dropped
          have front : Unmarked look marked (rest.take next.size ++ left)
            ↔ Unmarked look marked left := by
            rw [unmarked_append read size more]
            exact and_iff_right unmarked
          rw [if_neg dropped]
          simpa only [front] using rests

/-- Whoever reads every kept piece as it was read finds no marked piece in what is left. -/
theorem unmarked_of_cutOut (empty : head [] = none)
    (stops : ∀ rest, head rest = none → head (ending rest) = none)
    (keeps : ∀ rest next out, head rest = some next → next.size ≤ rest.length → next.last = true
      ∧ out = [] ∨ next.last = false ∧ cutOut head marked ending (rest.drop next.size) = some out →
      head (rest.take next.size ++ out) = some next
      ∧ marked (rest.take next.size ++ out) = marked rest)
    {rest out : List α} (cut : cutOut head marked ending rest = some out) :
    Unmarked head marked out := by
  apply (unmarked_cutOut head (fun _ => false) empty (fun rest stop =>
    unmarked_stop (stops rest stop))
    (fun rest next out starts _ => keeps rest next out starts) cut).1
  rw [List.find?_eq_none]
  simp

end

end Framing
