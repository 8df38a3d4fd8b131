import Khala.Contracts.AiurFields

/-! Which records become events: everything that was cleaned passes the encoder's checks, apart from
its kind, the year of its date and the size of the whole. -/

namespace Khala.Aiur

open Js Decode Event Local

/-! ## What depends on the class -/

/-- A summary that may be sent. -/
structure Summary (s : Text) : Prop where
  line : Line 200 s
  shows_ : Shows s

/-- A literal that is checked is a summary. -/
theorem Summary.of_lit {s : Text} (checked : (isLine 200 s && s.any fun u => !isWhite u) = true) :
    Summary s :=
  ⟨.of_isLine (Bool.and_eq_true_iff.mp checked).1, .of_any (Bool.and_eq_true_iff.mp checked).2⟩

/-- A summary is said of a value, or another in its place. -/
theorem Summary.getD_map {α : Type} {value : Option α} {say : α → Text} {other : Text}
    (some_ : ∀ a, value = some a → Summary (say a)) (none_ : Summary other) :
    Summary ((value.map say).getD other) := by
  cases value with
  | none => exact none_
  | some a => exact some_ a rfl

/-- What is not read as one line is summarised otherwise. -/
theorem Summary.getD {value : Option Json} {other : Text} (none_ : Summary other) :
    Summary ((oneLine value 200).getD other) := by
  cases read : oneLine value 200 with
  | none => exact none_
  | some line => exact ⟨(oneLine_eq_some read).1, (oneLine_eq_some read).2⟩

/-- A literal in front of a line that is not too long for it. -/
theorem Summary.append_line {before line : Text} {n m : Nat} (isLine_ : isLine n before = true)
    (any : (before.any fun u => !isWhite u) = true) (after : Line m line) (enough : n + m ≤ 200) :
    Summary (before ++ line) :=
  ⟨((Line.of_isLine isLine_).append after).mono enough, (Shows.of_any any).append_left line⟩

/-- What the rest of the cleaning relies on. -/
structure Described.Checked (isHttps : Text → Bool) (described : Described) : Prop where
  summary : Summary described.summary
  actor : ∀ actor, described.actor = some actor → Line 64 actor ∧ Shows actor
  url : ∀ url, described.url = some url → utf8Length url ≤ 2048 ∧ isHttps url = true
  prNumber : ∀ n, described.prNumber = some n → n ≤ maxSafeInteger ∧ n ≠ 0

section

variable {isHttps : Text → Bool}

/-- A head that is read is a plain commit hash. -/
theorem headShaOf_eq_some {raw : Members} {head : Text} (read : headShaOf raw = some head) :
    Plain head ∧ head.length ≤ 64 ∧ isSha head = true := by
  simp only [headShaOf, Option.orElse_eq_or, Option.or_eq_some_iff] at read
  rcases read with one | ⟨-, two | ⟨-, three⟩⟩
  · exact sha_eq_some one
  · exact sha_eq_some two
  · exact sha_eq_some three

/-- A number that is read is a positive safe integer. -/
theorem firstPrNumber_eq_some {raw : Members} {n : Nat} (read : firstPrNumber raw = some n) :
    n ≤ maxSafeInteger ∧ n ≠ 0 := by
  simp only [firstPrNumber, Option.orElse_eq_or, Option.or_eq_some_iff] at read
  rcases read with one | ⟨-, two⟩
  · exact num_eq_some one
  · exact num_eq_some two

/-- What is said of a push is a summary. -/
private theorem summary_pushed {raw : Members} :
    Summary (((headShaOf raw).map fun headSha => lit "pushed " ++ headSha.take 7).getD
      (lit "branch pushed")) := by
  refine .getD_map (fun head read => ?_) (.of_lit (by decide))
  obtain ⟨plain, -⟩ := headShaOf_eq_some read
  have short : Line 7 (head.take 7) :=
    line_plain (fun u inside => plain u (List.mem_of_mem_take inside)) (List.length_take_le 7 head)
  exact .append_line (n := 7) (by decide) (by decide) short (by decide)

/-- What is said of an opened pull request is a summary. -/
private theorem summary_opened {raw : Members} {draft : Text}
    (isDraft : draft = lit "draft " ∨ draft = []) :
    Summary (((firstPrNumber raw).map fun n =>
      draft ++ lit "PR #" ++ decimal n ++ lit " opened").getD (lit "PR opened")) := by
  refine .getD_map (fun n read => ?_) (.of_lit (by decide))
  have number := line_decimal (firstPrNumber_eq_some read).1
  have tail : Line 7 (lit " opened") := .of_isLine (by decide)
  rcases isDraft with rfl | rfl
  · rw [List.append_assoc]
    exact .append_line (n := 10) (by decide) (by decide) (number.append tail) (by decide)
  · rw [List.append_assoc]
    exact .append_line (n := 4) (by decide) (by decide) (number.append tail) (by decide)

/-- What is said of a merged pull request is a summary. -/
private theorem summary_merged {raw : Members} :
    Summary (((firstPrNumber raw).map fun n => lit "PR #" ++ decimal n ++ lit " merged").getD
      (lit "PR merged")) := by
  refine .getD_map (fun n read => ?_) (.of_lit (by decide))
  have number := line_decimal (firstPrNumber_eq_some read).1
  have tail : Line 7 (lit " merged") := .of_isLine (by decide)
  rw [List.append_assoc]
  exact .append_line (n := 4) (by decide) (by decide) (number.append tail) (by decide)

/-- What is said of a reviewer is a summary. -/
private theorem summary_by {value : Option Json} {what : Text}
    (known : what = lit "changes requested" ∨ what = lit "approved" ∨ what = lit "review comment"
      ∨ what = lit "comment") :
    Summary (((oneLine value 64).map fun actor => what ++ lit " by " ++ actor).getD what) := by
  refine .getD_map (fun actor read => ?_) ?_
  · have line := (oneLine_eq_some read).1
    rcases known with rfl | rfl | rfl | rfl
    all_goals exact .append_line (n := 22) (by decide) (by decide) line (by decide)
  · rcases known with rfl | rfl | rfl | rfl
    all_goals exact .of_lit (by decide)

/-- What is said of a failed check is a summary. -/
private theorem summary_failed {raw : Members} : Summary (((match get raw "checks" with
    | some (.array checks) => oneLine (get (object checks.head?) "name") 120
    | _ => none).map fun check => lit "CI failed: " ++ check).getD (lit "CI failed")) := by
  refine .getD_map (fun check read => ?_) (.of_lit (by decide))
  have line : Line 120 check := by
    split at read
    · exact (oneLine_eq_some read).1
    · cases read
  exact .append_line (n := 11) (by decide) (by decide) line (by decide)

/-- Of two checked descriptions either is checked. -/
private theorem Described.Checked.ite {c : Prop} [Decidable c] {one two : Described}
    (first : one.Checked isHttps) (second : two.Checked isHttps) :
    (if c then one else two).Checked isHttps := by
  split
  · exact first
  · exact second

/-- Every event is described as the encoder checks it. -/
theorem describe_checked (raw : Members) (cls : Text) :
    (describe isHttps raw cls).Checked isHttps := by
  -- The number of a pull request is always a checked one.
  have pr : ∀ n, firstPrNumber raw = some n → n ≤ maxSafeInteger ∧ n ≠ 0 :=
    fun n => firstPrNumber_eq_some
  -- So are the actor and the link of a lifecycle event.
  have actor : ∀ value : Option Json, ∀ actor,
    (if lifecycle.contains cls then oneLine value 64 else none) = some actor →
      Line 64 actor ∧ Shows actor := by
    intro value actor read
    split at read
    · exact oneLine_eq_some read
    · cases read
  have url : ∀ value : Option Json, ∀ url,
    (if lifecycle.contains cls then https isHttps value else none) = some url →
      utf8Length url ≤ 2048 ∧ isHttps url = true := by
    intro value url read
    split at read
    · exact https_eq_some read
    · cases read
  -- Each summary is a fixed text or made of checked parts.
  have event : Summary (lit "event") := .of_lit (by decide)
  have attention : Summary (lit "attention") := .of_lit (by decide)
  have requested : Summary (lit "review requested") := .of_lit (by decide)
  have passed : Summary (lit "CI passed") := .of_lit (by decide)
  have ready : Summary (lit "ready to merge") := .of_lit (by decide)
  have paused : Summary (lit "paused") := .of_lit (by decide)
  -- The classes are gone through in the order of the source.
  unfold describe
  extract_lets _ _ _ _ _ _ _ _ _ _ draft changes approved review
  have isDraft : draft = lit "draft " ∨ draft = [] := ite_eq_or_eq _ _ _
  have isReview : review = lit "changes requested" ∨ review = lit "approved"
    ∨ review = lit "review comment" ∨ review = lit "comment" := by
    rcases ite_eq_or_eq (changes = true) (lit "changes requested")
      (if approved then lit "approved" else lit "review comment") with one | other
    · exact .inl one
    · rcases ite_eq_or_eq (approved = true) (lit "approved") (lit "review comment") with two | three
      · exact .inr (.inl (other.trans two))
      · exact .inr (.inr (.inl (other.trans three)))
  apply Described.Checked.ite
  · exact ⟨summary_pushed, actor _, url _, pr⟩
  apply Described.Checked.ite
  · exact ⟨summary_opened isDraft, actor _, url _, pr⟩
  apply Described.Checked.ite
  · exact ⟨requested, actor _, url _, pr⟩
  apply Described.Checked.ite
  · exact ⟨summary_merged, actor _, url _, pr⟩
  apply Described.Checked.ite
  · exact ⟨summary_by isReview, fun _ => oneLine_eq_some, fun _ => https_eq_some, fun _ =>
      reviewPr_eq_some⟩
  apply Described.Checked.ite
  · exact ⟨summary_by (.inr (.inr (.inr rfl))), fun _ => oneLine_eq_some, fun _ =>
      https_eq_some, pr⟩
  apply Described.Checked.ite
  · exact ⟨passed, actor _, url _, pr⟩
  apply Described.Checked.ite
  · exact ⟨summary_failed, actor _, url _, pr⟩
  apply Described.Checked.ite
  · exact ⟨ready, actor _, url _, pr⟩
  apply Described.Checked.ite
  · exact ⟨paused, actor _, url _, pr⟩
  apply Described.Checked.ite
  · exact ⟨.getD attention, actor _, url _, pr⟩
  apply Described.Checked.ite
  · exact ⟨.getD (.getD event), actor _, url _, pr⟩
  · exact ⟨.getD event, actor _, url _, pr⟩

end

/-! ## The line of an event -/

/-- A ticket that is read is short and shown. -/
theorem ticketOf_eq_some {opts : Options} {raw : Members} {ticketId : Option Text} {ticket : Text}
    (read : ticketOf opts raw ticketId = some ticket) : IsDisplay 256 64 ticket := by
  obtain ⟨id, -, isValid⟩ := Option.bind_eq_some_iff.mp read
  obtain ⟨some_, isLabel, visible, points⟩ := valid_eq_some isValid
  exact ⟨isLabel, visible rfl, some_, points 64 rfl⟩

/-- A branch that is read is a label without a leading `refs/`. -/
theorem branchOf_eq_some {raw : Members} {name : Text} (read : branchOf raw = some name) :
    (IsLabel 255 name ∧ name ≠ []) ∧ (lit "refs/").isPrefixOf name = false := by
  simp only [branchOf, Option.orElse_eq_or, Option.or_eq_some_iff] at read
  rcases read with one | ⟨-, two⟩
  · exact branch_eq_some one
  · exact branch_eq_some two

/-- A repository that is read is a label of its form. -/
theorem repoOf_eq_some {opts : Options} {raw : Members} {repo : Text}
    (read : repoOf opts raw = some repo) :
    IsLabel 140 repo ∧ isRepo repo = true := by
  obtain ⟨isValid, shape⟩ := Option.filter_eq_some_iff.mp read
  exact ⟨(valid_eq_some isValid).2.1, shape⟩

/-- An event's identifier that is read is a label. -/
theorem eventIdOf_eq_some {raw : Members} {id : Text} (read : eventIdOf raw = some id) :
    IsLabel 64 id := by
  simp only [eventIdOf, Option.orElse_eq_or, Option.or_eq_some_iff] at read
  rcases read with one | ⟨-, two⟩
  · exact idOf_eq_some one
  · exact idOf_eq_some two

/-- The subject of every event is checked. -/
theorem subjectOf_checks {isHttps : Text → Bool} {opts : Options} {raw : Members} {topic : Topic} :
    (subjectOf isHttps opts raw topic).Checks where
  ticket := fun _ => ticketOf_eq_some
  pr := (describe_checked raw topic.cls).prNumber
  branch := fun _ => branchOf_eq_some
  repo := fun _ => repoOf_eq_some
  sha := fun _ read =>
    let ⟨plain, short, shape⟩ := headShaOf_eq_some read
    ⟨isLabel_plain plain short, shape⟩

/-- What stands before the summary in the line of an event. -/
def lineHead (subject : Event.Subject) : Text :=
  match subject.ticket with
  | some ticket => ticket ++ lit " "
  | none => []

/-- What stands after it. -/
def lineTail (subject : Event.Subject) : Text :=
  match subject.branch.or (subject.pr.map fun pr => lit "PR #" ++ decimal pr) with
  | some tail => lit " · " ++ tail
  | none => []

/-- The line of an event is its head, its summary and its tail. -/
theorem formatChannelEventLine_eq {subject : Event.Subject} (checks : subject.Checks)
    (summary : Text) :
    Event.formatChannelEventLine summary (some subject) = lineHead subject ++ summary
      ++ lineTail subject := by
  -- Every part that is there is a text that is not empty.
  obtain ⟨ticket, pr, branch, repo, sha⟩ := subject
  have named : ∀ text, ticket = some text → text ≠ [] := fun text same =>
    (checks.ticket text same).nonempty
  have based : ∀ text, branch = some text → text ≠ [] := fun text same =>
    (checks.branch text same).1.2
  clear checks
  simp only [Event.formatChannelEventLine, lineHead, lineTail, Option.bind_some,
    Option.orElse_eq_or]
  cases ticket with
  | none =>
    cases branch with
    | some branch => simp [based branch rfl]
    | none => cases pr <;> simp [decimal_ne_nil]
  | some ticket =>
    cases branch with
    | some branch => simp [named ticket rfl, based branch rfl]
    | none => cases pr <;> simp [named ticket rfl, decimal_ne_nil]

/-- The head and the tail of a line can be shown, and leave room for a summary. -/
theorem line_around {subject : Event.Subject} (checks : subject.Checks) :
    IsLabel 257 (lineHead subject) ∧ IsLabel 259 (lineTail subject) := by
  -- Two labels side by side make one of both their sizes.
  have append : ∀ {n m : Nat} {s t : Text}, IsLabel n s → IsLabel m t →
    IsLabel (n + m) (s ++ t) := by
    intro n m s t one two
    refine ⟨isWellFormed_append one.formed two.formed, ?_, ?_⟩
    · rw [utf8Length_append (paired_of_isWellFormed one.formed)]
      exact Nat.add_le_add one.fits two.fits
    · rw [List.any_append, one.plain, two.plain]
      rfl
  constructor
  -- Before the summary stands the ticket with a space.
  · unfold lineHead
    split
    · rename_i ticket isTicket
      exact append (checks.ticket ticket isTicket).toIsLabel (⟨rfl, by decide, by decide⟩ :
        IsLabel 1 (lit " "))
    · exact ⟨rfl, Nat.zero_le _, rfl⟩
  -- Behind it stands the branch, or else the number of the pull request.
  · unfold lineTail
    split
    · rename_i tail isTail
      have dot : IsLabel 4 (lit " · ") := ⟨by decide, by decide, by decide⟩
      refine @append 4 255 _ _ dot ?_
      rcases Option.or_eq_some_iff.mp isTail with isBranch | ⟨-, isPr⟩
      · exact (checks.branch tail isBranch).1.1
      · obtain ⟨pr, isPr', rfl⟩ := Option.map_eq_some_iff.mp isPr
        have number := isLabel_plain (plain_decimal pr) (length_decimal (checks.pr pr isPr').1)
        exact (append (⟨rfl, by decide, by decide⟩ : IsLabel 4 (lit "PR #")) number).mono
          (by decide)
    · exact ⟨rfl, Nat.zero_le _, rfl⟩

/-! ## A summary that fits -/

/-- Points are taken from the front while they fit, and not all of them when they do not all fit. -/
theorem takePoints_eq {s : Text} (paired : Paired s) (room : Nat) : ∃ count,
    takePoints room (codePoints s) = ((codePoints s).take count).flatten
      ∧ utf8Length (takePoints room (codePoints s)) ≤ room
      ∧ (room < utf8Length s → count < (codePoints s).length) := by
  -- One point in front of a text for which it is known.
  have step : ∀ (point rest : Text), Paired point →
    codePoints (point ++ rest) = point :: codePoints rest →
      (∀ room, ∃ count, takePoints room (codePoints rest) = ((codePoints rest).take count).flatten
        ∧ utf8Length (takePoints room (codePoints rest)) ≤ room
        ∧ (room < utf8Length rest → count < (codePoints rest).length)) →
      ∀ room, ∃ count, takePoints room (codePoints (point ++ rest))
        = ((codePoints (point ++ rest)).take count).flatten
        ∧ utf8Length (takePoints room (codePoints (point ++ rest))) ≤ room
        ∧ (room < utf8Length (point ++ rest) → count < (codePoints (point ++ rest)).length) := by
    intro point rest paired first known room
    rw [first, utf8Length_append paired, takePoints]
    split
    · exact ⟨0, rfl, Nat.zero_le _, fun _ => Nat.succ_pos _⟩
    · rename_i fits
      obtain ⟨count, same, small, short⟩ := known (room - utf8Length point)
      refine ⟨count + 1, ?_, ?_, fun large => ?_⟩
      · rw [same, List.take_succ_cons, List.flatten_cons]
      · rw [utf8Length_append paired]
        omega
      · have := short (by omega)
        rw [List.length_cons]
        omega
  induction paired generalizing room with
  | nil => exact ⟨0, rfl, Nat.zero_le _, fun large => absurd large (Nat.not_lt_zero _)⟩
  | @unit u rest single others ih => exact step [u] rest (.unit single .nil) (codePoints_cons single rest) ih room
  | @pair u v rest high low others ih =>
    exact step [u, v] rest (.pair high low .nil) (by rw [List.cons_append, List.cons_append, codePoints,
      if_pos ⟨high.1, high.2, low.1, low.2⟩, List.nil_append]) ih room

/-- The summary that is sent can be shown, and its line is not too long. -/
theorem fitSummary_checks {summary : Text} (good : Summary summary) {subject : Event.Subject}
    (checks : subject.Checks) :
    Summary (fitSummary summary subject)
      ∧ utf8Length (Event.formatChannelEventLine (fitSummary summary subject) (some subject))
        ≤ 1024 := by
  obtain ⟨head, tail⟩ := line_around checks
  -- The line has the size of its parts.
  have size : ∀ s, isWellFormed s = true →
    utf8Length (Event.formatChannelEventLine s (some subject))
      = utf8Length (lineHead subject) + utf8Length s + utf8Length (lineTail subject) := by
    intro s formed
    have before := (paired_of_isWellFormed head.formed).append (paired_of_isWellFormed formed)
    rw [formatChannelEventLine_eq checks, utf8Length_append before,
      utf8Length_append (paired_of_isWellFormed head.formed)]
  have around := size [] rfl
  have dots : utf8Length (lit "…") = 3 := by decide
  have headFits := head.fits
  have tailFits := tail.fits
  rw [utf8Length_nil, Nat.add_zero] at around
  unfold fitSummary
  rw [around, dots]
  dsimp only
  split
  -- It is too large: the summary is cut to what is left, and ends with dots.
  · rename_i large
    obtain ⟨count, same, small, short⟩ := takePoints_eq (paired_of_isWellFormed good.line.formed)
      (1024 - (utf8Length (lineHead subject) + utf8Length (lineTail subject)) - 3)
    have fewer := short (by omega)
    rw [same] at small ⊢
    have front : Line 199 ((codePoints summary).take count).flatten :=
      (good.line.take count).mono (by have := good.line.points; omega)
    have end_ : Line 1 (lit "…") := .of_isLine (by decide)
    have whole := front.append end_
    refine ⟨⟨whole, .append_right (.of_any (by decide)) _⟩, ?_⟩
    rw [size _ whole.formed, utf8Length_append (paired_of_isWellFormed front.formed), dots]
    omega
  -- It fits as it is.
  · refine ⟨good, ?_⟩
    rw [size _ good.line.formed]
    omega

end Khala.Aiur
