import Khala.Framing.Pieces

/-! What cutting pieces out of a list leaves as it was. -/

namespace Framing

section

variable {α : Type} (head : List α → Option Head) (marked : List α → Bool)

/-- The pieces that are not marked, and what stands for the rest where no piece starts. -/
def pieces (tail : List α → List (List α)) (rest : List α) : List (List α) :=
  match head rest with
  | none => tail rest
  | some next =>
    let kept := if marked rest then [] else [rest.take next.size]
    -- The walk ends with the last part, or in the middle of one.
    if next.last ∨ rest.length < next.size then kept else kept ++ pieces tail (rest.drop next.size)
termination_by rest.length
decreasing_by
  have := next.positive
  rw [List.length_drop]
  omega

/-- How much of a list comes before its first marked piece; `tail` says how much of the rest counts
where no piece starts. -/
def untouched (tail : List α → Nat) (rest : List α) : Nat :=
  match head rest with
  | none => tail rest
  | some next =>
    if marked rest then 0
    else if next.last ∨ rest.length < next.size then next.size
    else next.size + untouched tail (rest.drop next.size)
termination_by rest.length
decreasing_by
  have := next.positive
  rw [List.length_drop]
  omega

/-- How much of a list is in pieces that are not marked; `tail` says how much of the rest counts
where no piece starts. -/
def spared (tail : List α → Nat) (rest : List α) : Nat :=
  match head rest with
  | none => tail rest
  | some next =>
    (if marked rest then 0 else next.size)
      + if next.last ∨ rest.length < next.size then 0 else spared tail (rest.drop next.size)
termination_by rest.length
decreasing_by
  have := next.positive
  rw [List.length_drop]
  omega

variable {head marked} {ending : List α → List α} {tail : List α → List (List α)}
    {size : List α → Nat}

/-- Where no piece starts only the tail is left. -/
theorem pieces_stop {rest : List α} (stop : head rest = none) :
    pieces head marked tail rest = tail rest := by
  rw [pieces]
  simp only [stop]

/-- A piece is there unless it is marked, and the others follow. -/
theorem pieces_piece {rest : List α} {next : Head} (starts : head rest = some next)
    (fits : next.size ≤ rest.length) :
    pieces head marked tail rest = (if marked rest then [] else [rest.take next.size])
      ++ if next.last then [] else pieces head marked tail (rest.drop next.size) := by
  rw [pieces]
  simp only [starts, Nat.not_lt.mpr fits, or_false]
  split
  · rw [List.append_nil]
  · rfl

/-- Where no piece starts the rest is untouched. -/
theorem untouched_stop {rest : List α} (stop : head rest = none) :
    untouched head marked size rest = size rest := by
  rw [untouched]
  simp only [stop]

/-- A marked piece ends what is untouched, and another one adds to it. -/
theorem untouched_piece {rest : List α} {next : Head} (starts : head rest = some next)
    (fits : next.size ≤ rest.length) :
    untouched head marked size rest = if marked rest then 0
      else next.size + if next.last then 0
        else untouched head marked size (rest.drop next.size) := by
  rw [untouched]
  simp only [starts, Nat.not_lt.mpr fits, or_false]
  cases next.last <;> rfl

/-- Up to its first marked piece a list is left as it is. -/
theorem take_cutOut
    (ends : ∀ rest, head rest = none → (ending rest).take (size rest) = rest.take (size rest)
      ∧ size rest ≤ (ending rest).length)
    {rest out : List α} (cut : cutOut head marked ending rest = some out) {n : Nat}
    (few : n ≤ untouched head marked size rest) :
    out.take n = rest.take n ∧ n ≤ out.length := by
  -- The induction is on the pieces, with the bytes yet to be compared.
  induction rest using pieces_induction head generalizing out n with
  | stop rest stop =>
    rw [cutOut_stop stop, Option.some.injEq] at cut
    rw [untouched_stop stop] at few
    obtain ⟨same, long⟩ := ends rest stop
    rw [← cut]
    have both := congrArg (List.take n) same
    rw [List.take_take, List.take_take, Nat.min_eq_left few] at both
    exact ⟨both, Nat.le_trans few long⟩
  | piece rest next starts ih =>
    -- The file was cut, so this piece is there in full.
    have fits : next.size ≤ rest.length := ((whole_piece starts).mp (whole_of_cutOut cut)).1
    have length : (rest.take next.size).length = next.size := List.length_take_of_le fits
    rw [untouched_piece starts fits] at few
    rw [cutOut_piece starts fits] at cut
    cases dropped : marked rest with
    -- A marked piece ends what is untouched.
    | true =>
      rw [dropped, if_pos rfl, Nat.le_zero] at few
      rw [few]
      exact ⟨rfl, Nat.zero_le _⟩
    | false =>
      -- The last piece is followed by nothing that the cut reads.
      cases more : next.last with
      | true =>
        simp only [dropped, more, Bool.false_eq_true, if_false, if_true] at few cut
        obtain rfl := Option.some.inj cut
        rw [List.take_take, Nat.min_eq_left (by omega), length]
        exact ⟨rfl, by omega⟩
      | false =>
        simp only [dropped, more, Bool.false_eq_true, if_false] at few cut
        obtain ⟨left, later, rfl⟩ := Option.map_eq_some_iff.mp cut
        -- The rest is shorter by this piece, and so is what is compared.
        obtain ⟨same, long⟩ := @ih more fits left later (n - next.size) (by omega)
        refine ⟨?_, by rw [List.length_append, length]; omega⟩
        rw [List.take_append, length, same, List.take_take]
        -- The bound lies within this piece, or past it.
        by_cases within : n ≤ next.size
        · rw [Nat.min_eq_left within, Nat.sub_eq_zero_of_le within, List.take_zero, List.append_nil]
        · rw [Nat.min_eq_right (by omega), ← List.take_add,
            show next.size + (n - next.size) = n by omega]

/-- Where no piece starts, all that counts of the rest is spared. -/
theorem spared_stop {rest : List α} (stop : head rest = none) :
    spared head marked size rest = size rest := by
  rw [spared]
  simp only [stop]

/-- A piece that is not marked is spared, and then what follows it. -/
theorem spared_piece {rest : List α} {next : Head} (starts : head rest = some next)
    (fits : next.size ≤ rest.length) :
    spared head marked size rest = (if marked rest then 0 else next.size)
      + if next.last then 0 else spared head marked size (rest.drop next.size) := by
  rw [spared]
  simp only [starts, Nat.not_lt.mpr fits, or_false]

/-- What is spared is what is left when the marked pieces are cut out. -/
theorem length_cutOut {rest out : List α} (cut : cutOut head marked ending rest = some out) :
    out.length = spared head marked (fun rest => (ending rest).length) rest := by
  -- By induction on the pieces, as they are cut out.
  induction rest using pieces_induction head generalizing out with
  | stop rest stop =>
    rw [cutOut_stop stop, Option.some.injEq] at cut
    rw [spared_stop stop, cut]
  | piece rest next starts ih =>
    have fits : next.size ≤ rest.length :=
      ((whole_piece starts).mp (whole_of_cutOut cut)).1
    have own : (if marked rest then [] else rest.take next.size).length
        = if marked rest then 0 else next.size := by
      split
      · rfl
      · exact List.length_take_of_le fits
    rw [cutOut_piece starts fits] at cut
    rw [spared_piece starts fits, ← own]
    cases more : next.last with
    | true =>
      rw [more, if_pos rfl, Option.some.injEq] at cut
      rw [← cut, if_pos rfl, Nat.add_zero]
    | false =>
      rw [more, if_neg Bool.false_ne_true] at cut
      obtain ⟨left, later, rfl⟩ := Option.map_eq_some_iff.mp cut
      rw [List.length_append, ih more fits later, if_neg Bool.false_ne_true]

/-- Whoever reads kept pieces as they were read finds the same pieces in what is left; where a piece
is read otherwise, nothing may be cut out from there on. -/
theorem pieces_cutOut (look : List α → Option Head) (odd : List α → Bool)
    (stops : ∀ rest, head rest = none →
      pieces look marked tail (ending rest) = pieces look marked tail rest)
    (lasts : ∀ rest next, head rest = some next → next.last = true → marked rest = false)
    (reads : ∀ rest next, head rest = some next → odd rest = false → look rest = some next)
    (keeps : ∀ rest next out, head rest = some next → odd rest = false → next.size ≤ rest.length →
      next.last = true ∧ out = [] ∨ next.last = false
      ∧ cutOut head marked ending (rest.drop next.size) = some out →
      look (rest.take next.size ++ out) = some next
      ∧ marked (rest.take next.size ++ out) = marked rest)
    {rest out : List α} (cut : cutOut head marked ending rest = some out)
    (left : ∀ at', (walk head rest).find? odd = some at' →
      cutOut head marked ending at' = some at') :
    pieces look marked tail out = pieces look marked tail rest := by
  -- The induction is on the pieces as the cut reads them.
  induction rest using pieces_induction head generalizing out with
  | stop rest stop =>
    rw [cutOut_stop stop, Option.some.injEq] at cut
    rw [← cut]
    exact stops rest stop
  | piece rest next starts ih =>
    have fits : next.size ≤ rest.length := ((whole_piece starts).mp (whole_of_cutOut cut)).1
    have length : (rest.take next.size).length = next.size := List.length_take_of_le fits
    rw [walk_piece starts] at left
    -- From an odd piece on, the cut changes nothing, so both readings go on alike.
    cases apart : odd rest with
    | true =>
      have same := left rest (List.find?_cons_of_pos apart)
      rw [Option.some.inj (cut.symm.trans same)]
    | false =>
      rw [List.find?_cons_of_neg (by simp [apart])] at left
      -- A piece that is not odd is read alike on both sides.
      rw [pieces_piece (reads rest next starts apart) fits]
      rw [cutOut_piece starts fits] at cut
      -- The last piece is kept, and it alone is left.
      cases more : next.last with
      | true =>
        have kept := lasts rest next starts more
        obtain ⟨read, same⟩ := keeps rest next [] starts apart fits (.inl ⟨more, rfl⟩)
        rw [List.append_nil] at read same
        simp only [more, kept, Bool.false_eq_true, if_false, if_true] at cut
        obtain rfl := Option.some.inj cut
        rw [pieces_piece read (Nat.le_of_eq length.symm), same, kept, more,
          List.take_take, Nat.min_self]
        simp
      | false =>
        simp only [more, Bool.false_eq_true, if_false] at cut
        obtain ⟨rests, later, rfl⟩ := Option.map_eq_some_iff.mp cut
        obtain ⟨read, same⟩ := keeps rest next rests starts apart fits (.inr ⟨more, later⟩)
        have tail_ := ih more fits later (by simpa [more, Nat.not_lt.mpr fits] using left)
        -- A marked piece is dropped on both sides, and another is kept on both.
        cases dropped : marked rest with
        | true => simpa using tail_
        | false =>
          have fits' : next.size ≤ (rest.take next.size ++ rests).length := by
            rw [List.length_append, length]
            omega
          simp only [Bool.false_eq_true, if_false]
          rw [pieces_piece read fits', same, dropped, more, List.take_left' length,
            List.drop_left' length]
          simp only [Bool.false_eq_true, if_false, tail_]

/-- Cutting out again changes nothing. -/
theorem cutOut_again (empty : head [] = none) (nothing : ending [] = [])
    (stops : ∀ rest, head rest = none →
      cutOut head marked ending (ending rest) = some (ending rest))
    (keeps : ∀ rest next out, head rest = some next → next.size ≤ rest.length → next.last = true
      ∧ out = [] ∨ next.last = false ∧ cutOut head marked ending (rest.drop next.size) = some out →
      head (rest.take next.size ++ out) = some next
      ∧ marked (rest.take next.size ++ out) = marked rest)
    {rest out : List α} (cut : cutOut head marked ending rest = some out) :
    cutOut head marked ending out = some out := by
  -- The induction is on the pieces of the first cut.
  induction rest using pieces_induction head generalizing out with
  | stop rest stop =>
    rw [cutOut_stop stop, Option.some.injEq] at cut
    rw [← cut]
    exact stops rest stop
  | piece rest next starts ih =>
    have fits : next.size ≤ rest.length := ((whole_piece starts).mp (whole_of_cutOut cut)).1
    have length : (rest.take next.size).length = next.size := List.length_take_of_le fits
    rw [cutOut_piece starts fits] at cut
    -- What the first cut left is read alike by the second.
    cases more : next.last with
    | true =>
      obtain ⟨read, same⟩ := keeps rest next [] starts fits (.inl ⟨more, rfl⟩)
      rw [List.append_nil] at read same
      simp only [more, if_true, Option.some.injEq] at cut
      -- A last piece is dropped and leaves nothing, or is kept as it is.
      cases dropped : marked rest with
      | true =>
        simp only [dropped, if_true] at cut
        rw [← cut, cutOut_stop empty, nothing]
      | false =>
        simp only [dropped, Bool.false_eq_true, if_false] at cut
        rw [← cut, cutOut_piece read (Nat.le_of_eq length.symm), same, dropped, more,
          List.take_take, Nat.min_self]
        rfl
    | false =>
      simp only [more, Bool.false_eq_true, if_false] at cut
      obtain ⟨rests, later, rfl⟩ := Option.map_eq_some_iff.mp cut
      obtain ⟨read, same⟩ := keeps rest next rests starts fits (.inr ⟨more, later⟩)
      have again := ih more fits later
      -- A dropped piece is not there to be read again.
      cases dropped : marked rest with
      | true => simpa using again
      | false =>
        have fits' : next.size ≤ (rest.take next.size ++ rests).length := by
          rw [List.length_append, length]
          omega
        simp only [Bool.false_eq_true, if_false]
        rw [cutOut_piece read fits', same, dropped, more, List.take_left' length,
          List.drop_left' length, again]
        rfl

end

end Framing
