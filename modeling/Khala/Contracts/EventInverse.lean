import Khala.Contracts.EventReading
import Khala.Contracts.TextLines
import Mathlib.Algebra.Order.BigOperators.Group.List

/-! What an accepted channel event holds: every part of it passes its check, and takes no more space
than in the input. -/

namespace Khala.Event

open Js Decode

/-! ## Sizes -/

def size (value : Json) : Nat := utf8Length (stringify value)

/-- Every member stands for one of the same key that takes at least as much space. -/
def Within (small large : Members) : Prop :=
  ∀ key value, (key, value) ∈ small → ∃ old, lookup large key = some old ∧ size value ≤ size old

/-- Members that are within others are so together. -/
theorem Within.append {one two large : Members} (first : Within one large)
    (second : Within two large) :
    Within (one ++ two) large := by
  intro key value inside
  exact (List.mem_append.mp inside).elim (first key value) (second key value)

/-- A member is within others that have one as large under its key. -/
theorem within_member {large : Members} {key : Text} {value : Option Json}
    (there : ∀ json, value = some json → ∃ old, lookup large key = some old
      ∧ size json ≤ size old) :
    Within (member key value) large := by
  intro other json inside
  cases value with
  | none => cases inside
  | some content =>
    obtain ⟨rfl, rfl⟩ : other = key ∧ json = content := by simpa [member] using inside
    exact there _ rfl

/-- Nothing is within anything. -/
theorem within_nil (large : Members) : Within [] large := by
  intro key value inside
  cases inside

/-- The room that the members of some keys take. -/
private def room (members : Members) (keys : List Text) : Nat :=
  (keys.map fun key =>
    ((lookup members key).map fun value => memberSize (key, value) + 1).getD 0).sum

/-- The room of some keys is no more than that of all members. -/
private theorem room_le {members : Members} {keys : List Text} (distinct : keys.Nodup) :
    room members keys ≤ (members.map fun member => memberSize member + 1).sum := by
  induction members with
  | nil =>
    have nothing : room [] keys = 0 := by
      induction keys with
      | nil => rfl
      | cons key rest ih =>
        have tail := ih (List.nodup_cons.mp distinct).2
        rw [room, List.map_cons, List.sum_cons]
        exact (Nat.zero_add _).trans tail
    exact Nat.le_of_eq nothing
  | cons first rest ih =>
    obtain ⟨other, content⟩ := first
    -- At most one of the keys is that of the first member.
    have split :
      room ((other, content) :: rest) keys ≤ memberSize (other, content) + 1 + room rest keys := by
      have step : ∀ keys : List Text, keys.Nodup → room ((other, content) :: rest) keys
          ≤ (if other ∈ keys then memberSize (other, content) + 1 else 0) + room rest keys := by
        intro keys
        induction keys with
        | nil => exact fun _ => Nat.zero_le _
        | cons key more ih =>
          intro distinct
          obtain ⟨fresh, others⟩ := List.nodup_cons.mp distinct
          have tail := ih others
          simp only [room, List.map_cons, List.sum_cons, lookup_cons] at tail ⊢
          by_cases same : other = key
          · subst same
            simp only [if_true, Option.map_some, Option.getD_some, List.mem_cons_self, fresh,
              if_false, Nat.zero_add] at tail ⊢
            omega
          · have among : (other ∈ key :: more) ↔ other ∈ more := by simp [same]
            simp only [if_neg same, among]
            omega
      have := step keys distinct
      split at this <;> omega
    rw [List.map_cons, List.sum_cons]
    omega

/-- Members within others are no larger than they. -/
theorem Within.size_le {small large : Members} (within : Within small large)
    (distinct : (small.map (·.1)).Nodup) :
    size (.object small) ≤ size (.object large) := by
  cases small with
  | nil =>
    -- An object is at least as large as one without members.
    have two : size (.object []) = 2 := by decide
    rw [two]
    cases large with
    | nil => exact Nat.le_of_eq two.symm
    | cons member rest =>
      rw [size, utf8Length_object (List.cons_ne_nil _ _), List.map_cons, List.sum_cons]
      omega
  | cons first rest =>
    have some_ : large ≠ [] := by
      rintro rfl
      obtain ⟨old, found, -⟩ := within first.1 first.2 List.mem_cons_self
      cases found
    have bound := @room_le large _ distinct
    have each : ((first :: rest).map fun member => memberSize member + 1).sum
      ≤ room large ((first :: rest).map (·.1)) := by
      rw [room, List.map_map]
      refine List.sum_le_sum fun member inside => ?_
      obtain ⟨old, found, smaller⟩ := within member.1 member.2 inside
      rw [size, size] at smaller
      simp only [Function.comp_apply, found, Option.map_some, Option.getD_some, memberSize]
      omega
    rw [size, size, utf8Length_object (List.cons_ne_nil _ _), utf8Length_object some_]
    omega

/-! ## Readers of texts -/

section

variable {input : Json} {path s : Text} {maxBytes maxPoints : Nat}

/-- A text that is read was text. -/
private theorem string_of_text (read : text input path maxBytes = .ok s) :
    ∃ t, input = .string t := by
  cases input with
  | string t => exact ⟨t, rfl⟩
  | _ => cases read

/-- A label that is read was text. -/
private theorem string_of_label (read : label input path maxBytes = .ok s) :
    ∃ t, input = .string t :=
  let ⟨_, isText, _⟩ := bind_eq_ok.mp read
  string_of_text isText

/-- A label is read as it is. -/
theorem label_ok (read : label input path maxBytes = .ok s) :
    input = .string s ∧ IsLabel maxBytes s := by
  obtain ⟨t, rfl⟩ := string_of_label read
  obtain ⟨rfl, accepts⟩ := label_eq_ok.mp read
  exact ⟨rfl, accepts⟩

/-- A text for display is read as it is. -/
theorem display_ok (read : display input path maxBytes maxPoints = .ok s) :
    input = .string s ∧ IsDisplay maxBytes maxPoints s := by
  obtain ⟨_, isShown, -⟩ := bind_eq_ok.mp read
  obtain ⟨_, isLabel, -⟩ := bind_eq_ok.mp isShown
  obtain ⟨t, rfl⟩ := string_of_label isLabel
  obtain ⟨rfl, accepts⟩ := display_eq_ok.mp read
  exact ⟨rfl, accepts⟩

/-- A text that is not empty is read as it is. -/
theorem readNonempty_ok (read : readNonempty input path maxBytes = .ok s) :
    input = .string s ∧ IsLabel maxBytes s ∧ s ≠ [] := by
  obtain ⟨_, isLabel, -⟩ := bind_eq_ok.mp read
  obtain ⟨t, rfl⟩ := string_of_label isLabel
  obtain ⟨rfl, accepts⟩ := readNonempty_eq_ok.mp read
  exact ⟨rfl, accepts⟩

/-- A branch is read as it is. -/
theorem readBranch_ok (read : readBranch input path = .ok s) :
    input = .string s ∧ (IsLabel 255 s ∧ s ≠ []) ∧ (lit "refs/").isPrefixOf s = false := by
  obtain ⟨_, isLabel, -⟩ := bind_eq_ok.mp read
  obtain ⟨t, rfl⟩ := string_of_label isLabel
  obtain ⟨rfl, accepts⟩ := readBranch_eq_ok.mp read
  exact ⟨rfl, accepts⟩

/-- A text of a pattern is read as it is. -/
theorem readMatching_ok {pattern : Text → Bool}
    (read : readMatching input path maxBytes pattern = .ok s) :
    input = .string s ∧ IsLabel maxBytes s ∧ pattern s = true := by
  obtain ⟨_, isLabel, -⟩ := bind_eq_ok.mp read
  obtain ⟨t, rfl⟩ := string_of_label isLabel
  obtain ⟨rfl, accepts⟩ := readMatching_eq_ok.mp read
  exact ⟨rfl, accepts⟩

/-- A link is read as it is. -/
theorem readUrl_ok {isHttps : Text → Bool} (read : readUrl isHttps input = .ok s) :
    input = .string s ∧ utf8Length s ≤ 2048 ∧ isHttps s = true := by
  cases input with
  | string t =>
    obtain ⟨rfl, accepts⟩ := readUrl_eq_ok.mp read
    exact ⟨rfl, accepts⟩
  | _ => cases read

/-- A timestamp is read as it is, and is read again. -/
theorem utcTimestamp_ok (read : utcTimestamp input path = .ok s) :
    input = .string s ∧ utcTimestamp (.string s) [] = .ok s := by
  cases input with
  | string t =>
    obtain ⟨rfl, accepts⟩ := utcTimestamp_eq_ok.mp read
    exact ⟨rfl, accepts⟩
  | _ => cases read

/-- A kind is read as it is. -/
theorem readKind_ok (read : readKind input = .ok s) :
    input = .string s ∧ (IsLabel 128 s ∧ s ≠ []) ∧ isKind s = true := by
  obtain ⟨_, isLabel, -⟩ := bind_eq_ok.mp read
  obtain ⟨rfl, -⟩ := readNonempty_ok isLabel
  obtain ⟨rfl, accepts⟩ := readKind_eq_ok.mp read
  exact ⟨rfl, accepts⟩

/-- A summary is read as it is, and shows something. -/
theorem readSummary_ok (read : readSummary input = .ok s) :
    input = .string s ∧ IsDisplay 800 200 s ∧ trim s ≠ [] := by
  obtain ⟨_, isShown, -⟩ := bind_eq_ok.mp read
  obtain ⟨rfl, -⟩ := display_ok isShown
  obtain ⟨rfl, accepts⟩ := readSummary_eq_ok.mp read
  exact ⟨rfl, accepts⟩

/-- What is found in a table is in it. -/
private theorem mem_of_lookup {α : Type} {entries : List (Text × α)} {key : Text} {value : α}
    (found : entries.lookup key = some value) : (key, value) ∈ entries := by
  obtain ⟨before, after, rfl, -⟩ := List.lookup_eq_some_iff.mp found
  exact List.mem_append_right before List.mem_cons_self

/-- A status is read from its name. -/
theorem readStatus_ok {status : ChannelEventStatus}
    (read : literal input path channelEventStatuses = .ok status) :
    input = .string status.name := by
  cases input with
  | string t =>
    simp only [literal] at read
    split at read
    · rename_i found
      obtain rfl := Except.ok.inj read
      -- Every status stands under its own name.
      have own : ∀ entry ∈ channelEventStatuses, entry.1 = entry.2.name := by decide
      exact congrArg Json.string (own _ (mem_of_lookup found))
    · cases read
  | _ => cases read

/-- Digits read are less than the power of ten of their length. -/
private theorem readDigits_lt {digits : Text} (all : ∀ u ∈ digits, isDigit u = true) (start : Nat) :
    readDigits start digits < (start + 1) * 10 ^ digits.length := by
  -- The induction is on the digits, with the number read so far.
  induction digits generalizing start with
  | nil => exact Nat.lt_of_lt_of_eq (Nat.lt_succ_self start) (Nat.mul_one _).symm
  | cons u rest ih =>
    -- A digit adds less than ten.
    have digit : digitValue u < 10 := by
      have := all u List.mem_cons_self
      simp only [isDigit, Bool.and_eq_true, decide_eq_true_eq, UInt16.le_iff_toNat_le,
        UInt16.toNat_ofNat] at this
      rw [digitValue]
      omega
    calc readDigits start (u :: rest) = readDigits (10 * start + digitValue u) rest := rfl
      _ < (10 * start + digitValue u + 1) * 10 ^ rest.length :=
        ih (fun v inside => all v (List.mem_cons_of_mem _ inside)) _
      _ ≤ ((start + 1) * 10) * 10 ^ rest.length := Nat.mul_le_mul_right _ (by omega)
      _ = (start + 1) * 10 ^ (u :: rest).length := by
        rw [List.length_cons, pow_succ, Nat.mul_assoc, Nat.mul_comm 10]

/-- A printed number has no more digits than any text that spells it. -/
theorem size_natNumber {value : Number} {n : Nat} (spells : spelledNat value.text = some n) :
    size (.number (natNumber n)) ≤ size (.number value) := by
  unfold spelledNat at spells
  split at spells
  -- Only digits spell a number, and leading zeros can only make them longer.
  · rename_i digits
    obtain ⟨all, some_⟩ := Bool.and_eq_true_iff.mp digits
    have units := List.all_eq_true.mp all
    obtain rfl := Option.some.inj spells
    have long : 0 < value.text.length := List.length_pos_iff.mpr value.shape.1
    have below := readDigits_lt units 0
    rw [Nat.zero_add, Nat.one_mul] at below
    -- The decimal has as many digits as the number needs.
    have short : (decimal (readDigits 0 value.text)).length ≤ value.text.length := by
      rw [decimal, List.length_map]
      exact Nat.toDigits_length 10 _ _ long below
    rw [size, size, stringify, stringify, Local.utf8Length_plain (plain_digits units)]
    exact Nat.le_trans
      (Nat.le_of_eq (Local.utf8Length_plain (plain_digits fun u => isDigit_decimal))) short
  · cases spells

/-- The number of a pull request is read from a number no smaller in size. -/
theorem readPr_ok {pr : Nat} (read : readPr input path = .ok pr) :
    size (.number (natNumber pr)) ≤ size input ∧ pr ≤ maxSafeInteger ∧ pr ≠ 0 := by
  -- The number is safe first, and then positive.
  obtain ⟨n, isSafe, rest⟩ := bind_eq_ok.mp read
  obtain ⟨_, positive, same⟩ := bind_eq_ok.mp rest
  obtain rfl := Except.ok.inj same
  rw [require_eq_ok, decide_eq_true_eq] at positive
  unfold safeInteger at isSafe
  -- Every other way to spell it is refused.
  split at isSafe
  · split at isSafe
    · rename_i spells
      split at isSafe
      · rename_i safe
        obtain rfl := Except.ok.inj isSafe
        exact ⟨size_natNumber spells, safe, positive⟩
      · cases isSafe
    · split at isSafe
      · split at isSafe <;> cases isSafe
      · cases isSafe
  · cases isSafe

end

/-! ## Objects -/

section

variable {α : Type} {members : Members} {key : Text} {value : Option α} {read : Json → Decoded α}

/-- An optional member is absent, or there is one that its reader accepts. -/
theorem optional_ok (isRead : optional members key read = .ok value) :
    ∀ a, value = some a → ∃ input, lookup members key = some input ∧ read input = .ok a := by
  rintro a rfl
  -- Only a field that is there is read.
  unfold optional at isRead
  split at isRead
  · rename_i input found
    refine ⟨input, found, ?_⟩
    cases reads : read input with
    | error error =>
      rw [reads] at isRead
      cases isRead
    | ok accepted =>
      rw [reads] at isRead
      cases isRead
      rfl
  · cases isRead

/-- An optional text takes the place of the member that it was read from. -/
theorem optional_within {write : α → Json} {Accepts : α → Prop}
    (isRead : optional members key read = .ok value)
    (inverts : ∀ input a, read input = .ok a → size (write a) ≤ size input ∧ Accepts a) :
    Within (member key (value.map write)) members ∧ ∀ a, value = some a → Accepts a := by
  have found := optional_ok isRead
  refine ⟨within_member fun json isJson => ?_, fun a same => ?_⟩
  · obtain ⟨a, same, rfl⟩ := Option.map_eq_some_iff.mp isJson
    obtain ⟨input, there, reads⟩ := found a same
    exact ⟨input, there, (inverts input a reads).1⟩
  · obtain ⟨input, -, reads⟩ := found a same
    exact (inverts input a reads).2

/-- A reader that returns what is written accepts nothing larger. -/
theorem smaller_of_eq {input : Json} {s : Text} {P : Prop} (same : input = .string s ∧ P) :
    size (.string s) ≤ size input ∧ P :=
  ⟨Nat.le_of_eq (congrArg size same.1.symm), same.2⟩

end

/-- A record that is read was an object. -/
theorem object_of_record {input : Json} {path : Text} {members : Members}
    (read : record input path = .ok members) :
    input = .object members := by
  cases input with
  | object => exact congrArg Json.object (Except.ok.inj read)
  | _ => cases read

/-- A field that is read is there. -/
theorem field_ok {members : Members} {path key : Text} {value : Json}
    (read : field members path key = .ok value) :
    lookup members key = some value := by
  unfold field at read
  split at read
  · rename_i found
    rw [found, Except.ok.inj read]
  · cases read

/-- A value that is mapped was read. -/
theorem map_ok {α β : Type} {f : α → β} {read : Decoded α} {result : β}
    (mapped : f <$> read = .ok result) :
    ∃ a, read = .ok a ∧ f a = result := by
  cases read with
  | error error => cases mapped
  | ok a => exact ⟨a, rfl, Except.ok.inj mapped⟩

/-- One member is within others that have one as large. -/
theorem within_single {large : Members} {key : Text} {value old : Json}
    (found : lookup large key = some old) (smaller : size value ≤ size old) :
    Within [(key, value)] large := by
  intro other json inside
  obtain ⟨rfl, rfl⟩ : other = key ∧ json = value := by simpa using inside
  exact ⟨old, found, smaller⟩

/-- A member has its key once at most. -/
private theorem nodup_member (key : Text) (value : Option Json) :
    ((member key value).map (·.1)).Sublist [key] := by
  cases value with
  | none => exact List.nil_sublist _
  | some value => exact List.Sublist.refl _

/-- A subject has no key twice. -/
theorem Subject.distinct (subject : Subject) : (subject.members.map (·.1)).Nodup := by
  have keys : (subject.members.map (·.1)).Sublist [lit "ticket", lit "pr", lit "branch",
    lit "repo", lit "sha"] := by
    simp only [Subject.members, List.map_append]
    exact ((((nodup_member _ _).append (nodup_member _ _)).append (nodup_member _ _)).append
      (nodup_member _ _)).append
      (nodup_member _ _)
  exact keys.nodup (by decide)

/-- A source has no key twice. -/
theorem Source.distinct (source : Source) : (source.members.map (·.1)).Nodup := by
  have keys : (source.members.map (·.1)).Sublist [lit "system", lit "topic", lit "event_id"] := by
    simp only [Source.members, List.map_cons, List.map_append]
    exact ((nodup_member _ _).append (nodup_member _ _)).cons_cons _
  exact keys.nodup (by decide)

/-- A content has no key twice. -/
theorem Content.distinct (content : Content) : (content.members.map (·.1)).Nodup := by
  have keys : (content.members.map (·.1)).Sublist [lit "v", lit "kind", lit "summary", lit "body",
    lit "status", lit "subject", lit "actor",
      lit "url", lit "occurred_at", lit "source", lit "key", lit "data"] := by
    simp only [Content.members, List.map_append, List.map_cons, List.map_nil]
    have four := List.Sublist.refl [lit "v", lit "kind", lit "summary", lit "body"]
    exact (((((((four.append (nodup_member _ _)).append (nodup_member _ _)).append
      (nodup_member _ _)).append (nodup_member _ _)).append
      (nodup_member _ _)).append (nodup_member _ _)).append (nodup_member _ _)).append
        (nodup_member _ _)
  exact keys.nodup (by decide)

/-- A subject that is read is checked, and no larger than what it is read from. -/
theorem readSubject_ok {input : Json} {subject : Subject} (read : readSubject input = .ok subject) :
    size (.object subject.members) ≤ size input ∧ subject.Checks := by
  -- The fields are read in the order of the source.
  obtain ⟨members, isObject, rest⟩ := bind_eq_ok.mp read
  obtain ⟨pr, isPr, rest⟩ := bind_eq_ok.mp rest
  obtain ⟨branch, isBranch, rest⟩ := bind_eq_ok.mp rest
  obtain ⟨ticket, isTicket, rest⟩ := bind_eq_ok.mp rest
  obtain ⟨repo, isRepo, rest⟩ := bind_eq_ok.mp rest
  obtain ⟨sha, isSha, same⟩ := bind_eq_ok.mp rest
  obtain rfl := Except.ok.inj same
  -- Each of them is no larger than what it was read from, and passes its check.
  obtain ⟨pr, prChecks⟩ := optional_within isPr fun _ _ => readPr_ok
  obtain ⟨branch, branchChecks⟩ := optional_within isBranch fun _ _ read =>
    smaller_of_eq (readBranch_ok read)
  obtain ⟨ticket, ticketChecks⟩ := optional_within isTicket fun _ _ read =>
    smaller_of_eq (display_ok read)
  obtain ⟨repo, repoChecks⟩ := optional_within isRepo fun _ _ read =>
    smaller_of_eq (readMatching_ok read)
  obtain ⟨sha, shaChecks⟩ := optional_within isSha fun _ _ read =>
    smaller_of_eq (readMatching_ok read)
  refine ⟨?_, ticketChecks, prChecks, branchChecks, repoChecks, shaChecks⟩
  -- Written in another order they still fit into the object.
  rw [object_of_record isObject]
  exact (((((ticket.append pr).append branch).append repo).append sha)).size_le
    (Subject.distinct ⟨_, _, _, _, _⟩)

/-- A source that is read is checked, and no larger than what it is read from. -/
theorem readSource_ok {input : Json} {source : Source} (read : readSource input = .ok source) :
    size (.object source.members) ≤ size input ∧ source.Checks := by
  -- As for the subject, with a field that is always there.
  obtain ⟨members, isObject, rest⟩ := bind_eq_ok.mp read
  obtain ⟨value, isField, rest⟩ := bind_eq_ok.mp rest
  obtain ⟨system, isSystem, rest⟩ := bind_eq_ok.mp rest
  obtain ⟨topic, isTopic, rest⟩ := bind_eq_ok.mp rest
  obtain ⟨eventId, isEventId, same⟩ := bind_eq_ok.mp rest
  obtain rfl := Except.ok.inj same
  obtain ⟨isString, systemChecks⟩ := readNonempty_ok isSystem
  obtain ⟨topic, topicChecks⟩ := optional_within isTopic fun _ _ read =>
    smaller_of_eq (label_ok read)
  obtain ⟨eventId, eventIdChecks⟩ := optional_within isEventId fun _ _ read =>
    smaller_of_eq (label_ok read)
  refine ⟨?_, systemChecks, topicChecks, eventIdChecks⟩
  rw [object_of_record isObject]
  exact ((within_single (field_ok isField) (Nat.le_of_eq (congrArg size isString.symm))).append
    (topic.append eventId)).size_le (Source.distinct ⟨_, _, _⟩)

/-! ## Payloads -/

/-- A field that was read takes no more space than before, and is read as it is. -/
theorem readDatum_ok {input value : Json} {path key : Text}
    (read : readDatum input path key = .ok value) :
    size value ≤ size input ∧ readDatum value path key = .ok value := by
  -- A reader of texts returns the text that it was given.
  have strings : ∀ {reads : Decoded Text}, (∀ s, reads = .ok s → input = .string s) →
      (Json.string <$> reads) = .ok value → value = input := by
    intro reads inverts mapped
    obtain ⟨s, isText, rfl⟩ := map_ok mapped
    exact (inverts s isText).symm
  by_cases isPr : key = lit "pr"
  · simp only [readDatum, if_pos isPr] at read ⊢
    obtain ⟨pr, reads, rfl⟩ := map_ok read
    obtain ⟨smaller, checks⟩ := readPr_ok reads
    refine ⟨smaller, ?_⟩
    rw [readPr_eq_ok.mpr ⟨rfl, checks⟩]
    rfl
  · have same : value = input := by
      unfold readDatum at read
      rw [if_neg isPr] at read
      split at read
      · cases input with
        | string t =>
          simp only [literal] at read
          split at read
          · rename_i found
            obtain rfl := Except.ok.inj read
            rcases List.mem_cons.mp (mem_of_lookup found) with one | two
            · cases one
              rfl
            · cases List.mem_singleton.mp two
              rfl
          · cases read
        | _ => cases read
      split at read
      · exact strings (fun _ reads => (display_ok reads).1) read
      split at read
      · exact strings (fun _ reads => (readNonempty_ok reads).1) read
      split at read
      · split at read
        · exact (Except.ok.inj read).symm
        · exact strings (fun _ reads => (display_ok reads).1) read
      · exact strings (fun _ reads => (display_ok reads).1) read
    subst same
    exact ⟨Nat.le_refl _, read⟩

/-- Keys are read one by one. -/
private theorem mapM_ok {keys : List Text} {reads : Text → Decoded Json} {data : Members} :
    (keys.mapM fun key => do
      let value ← reads key
      return (key, value)) = .ok data
        ↔ List.Forall₂ (fun key member => member.1 = key ∧ reads key = .ok member.2) keys data := by
  -- The induction is on the keys, each of which is read alone.
  induction keys generalizing data with
  | nil =>
    rw [List.mapM_nil]
    constructor
    · intro same
      cases same
      exact .nil
    · intro all
      cases all
      rfl
  | cons key rest ih =>
    rw [List.mapM_cons, bind_eq_ok]
    constructor
    · rintro ⟨member, first, others⟩
      obtain ⟨value, isValue, same⟩ := bind_eq_ok.mp first
      obtain ⟨more, isMore, same'⟩ := bind_eq_ok.mp others
      cases same
      cases same'
      exact .cons ⟨rfl, isValue⟩ (ih.mp isMore)
    · intro all
      cases all with
      | @cons _ member _ more first others =>
        obtain ⟨key', value⟩ := member
        obtain ⟨rfl, isValue⟩ := first
        simp only at isValue
        exact ⟨(key', value), by rw [isValue]; rfl, bind_eq_ok.mpr ⟨more, ih.mpr others, rfl⟩⟩

/-- No kind has a field twice. -/
theorem nodup_dataFields (kind : Text) : (dataFields kind).Nodup := by
  unfold dataFields
  split
  · decide
  split
  · decide
  split
  · decide
  split
  · decide
  · decide

/-- An object that is read has the fields that it must have. -/
private theorem object_ok {input : Json} {path : Text} {keys : List Text} {members : Members}
    (read : object input path keys = .ok members) :
    input = .object members ∧ ∀ key ∈ keys, ∃ value, lookup members key = some value := by
  -- No key is foreign and none is missing, or the object is refused.
  unfold object at read
  split at read
  · split at read
    · cases read
    · split at read
      · cases read
      · rename_i all
        obtain rfl := Except.ok.inj read
        refine ⟨rfl, fun key inside => ?_⟩
        have there := List.find?_eq_none.mp all key inside
        cases found : lookup _ key with
        | none => exact absurd (by rw [found]; rfl) there
        | some value => exact ⟨value, rfl⟩
  · cases read

/-- A payload that was read has exactly its kind's fields, each as it is read. -/
structure DataOf (kind : Text) (data : Members) : Prop where
  keys : data.map (·.1) = dataFields kind
  reads : ∀ key value, (key, value) ∈ data →
    readDatum value (joinPath (lit "data") key) key = .ok value

/-- Data have no key twice. -/
theorem DataOf.distinct {kind : Text} {data : Members} (dataOf : DataOf kind data) :
    (data.map (·.1)).Nodup :=
  dataOf.keys ▸ nodup_dataFields kind

/-- Such a payload is read as it is. -/
theorem DataOf.readData {kind : Text} {data : Members} (dataOf : DataOf kind data) :
    readData kind (.object data) = .ok data := by
  -- Every member of the data is one of the kind, and is found under its key.
  have among : ∀ member ∈ data, member.1 ∈ dataFields kind := fun member inside =>
    dataOf.keys ▸ List.mem_map_of_mem inside
  have found : ∀ member ∈ data, lookup data member.1 = some member.2 := fun member inside =>
    (lookup_eq_some dataOf.distinct).mpr inside
  -- So the object has exactly the keys it should have.
  have whole : object (.object data) (lit "data") (dataFields kind) = .ok data := by
    have known : (data.find? fun member => member.1 ∉ dataFields kind) = none :=
      List.find?_eq_none.mpr fun member inside => by simpa using among member inside
    have there : ((dataFields kind).find? fun key => (lookup data key).isNone) = none := by
      refine List.find?_eq_none.mpr fun key inside => ?_
      rw [← dataOf.keys] at inside
      obtain ⟨member, inside', rfl⟩ := List.mem_map.mp inside
      rw [found member inside']
      exact Bool.false_ne_true
    simp only [object, known, there]
  rw [Event.readData, whole]
  -- Each member is read as it stands.
  refine mapM_ok.mpr ?_
  rw [← dataOf.keys, List.forall₂_map_left_iff, List.forall₂_same]
  intro member inside
  refine ⟨rfl, ?_⟩
  rw [Decode.field, found member inside]
  exact dataOf.reads member.1 member.2 inside

/-- A payload that is accepted takes no more space than before, and its fields were read one by one.
-/
theorem readData_fields {kind : Text} {input : Json} {data : Members}
    (read : readData kind input = .ok data) :
    size (.object data) ≤ size input ∧ DataOf kind data ∧ ∃ members, input = .object members
      ∧ ∀ key value, (key, value) ∈ data →
      ∃ old, lookup members key = some old
        ∧ readDatum old (joinPath (lit "data") key) key = .ok value := by
  -- The object has the right keys, and each of them is read.
  obtain ⟨members, isObject, all⟩ := bind_eq_ok.mp read
  obtain ⟨rfl, there⟩ := object_ok isObject
  have fields := mapM_ok.mp all
  -- The keys come in the order of the kind.
  have keys : data.map (·.1) = dataFields kind := by
    clear read isObject there all
    generalize dataFields kind = keys at fields
    induction fields with
    | nil => rfl
    | cons first _ ih => rw [List.map_cons, first.1, ih]
  -- Each member of the result stems from the read of its key.
  have each : ∀ key value, (key, value) ∈ data →
      key ∈ dataFields kind ∧ readDatum (Decode.field members key)
        (joinPath (lit "data") key) key = .ok value := by
    intro key value inside
    refine ⟨keys ▸ List.mem_map_of_mem inside, ?_⟩
    obtain ⟨key', -, rfl, reads⟩ : ∃ key' ∈ dataFields kind, (key, value).1 = key'
        ∧ readDatum (Decode.field members key')
          (joinPath (lit "data") key') key' = .ok (key, value).2 := by
      clear read isObject there all keys
      generalize dataFields kind = keys at fields
      induction fields with
      | nil => cases inside
      | cons first _ ih =>
        rcases List.mem_cons.mp inside with rfl | later
        · exact ⟨_, List.mem_cons_self, first⟩
        · obtain ⟨key', inside', found⟩ := ih later
          exact ⟨key', List.mem_cons_of_mem _ inside', found⟩
    exact reads
  have dataOf : DataOf kind data :=
    ⟨keys, fun key value inside => (readDatum_ok (each key value inside).2).2⟩
  have origin : ∀ key value, (key, value) ∈ data →
      ∃ old, lookup members key = some old
        ∧ readDatum old (joinPath (lit "data") key) key = .ok value := by
    intro key value inside
    obtain ⟨isField, reads⟩ := each key value inside
    obtain ⟨old, found⟩ := there key isField
    rw [Decode.field, found] at reads
    exact ⟨old, found, reads⟩
  -- What was read is no larger than what it was read from.
  refine ⟨Within.size_le (fun key value inside => ?_) dataOf.distinct, dataOf, members, rfl, origin⟩
  obtain ⟨old, found, reads⟩ := origin key value inside
  exact ⟨old, found, (readDatum_ok reads).1⟩

/-- Data that are read are of their kind, and no larger than what they are read from. -/
theorem readData_ok {kind : Text} {input : Json} {data : Members}
    (read : readData kind input = .ok data) :
    size (.object data) ≤ size input ∧ DataOf kind data :=
  let ⟨smaller, dataOf, _⟩ := readData_fields read
  ⟨smaller, dataOf⟩

/-! ## Events -/

/-- What is known of a content that was read from some members. -/
structure Content.From (isHttps : Text → Bool) (members : Members) (content : Content) : Prop where
  within : Within content.members members
  checks : content.Checks isHttps
  kind : lookup members (lit "kind") = some (.string content.kind)
  payload : ∀ data, content.data = some data → isCoordinationKind content.kind = true
    ∧ DataOf content.kind data
  read : readPayload members content.kind = .ok content.data
  status : ∀ value, lookup members (lit "status") = some value → content.status.isSome = true

/-- A content that was read has the payload of its kind. -/
theorem Content.From.isPayload {isHttps : Text → Bool} {members : Members} {content : Content}
    (origin : content.From isHttps members) : content.Payload := by
  intro data isData
  obtain ⟨coordinates, dataOf⟩ := origin.payload data isData
  exact ⟨coordinates, dataOf.readData⟩

/-- What is read of the fields comes from them. -/
theorem readFields_ok {isHttps : Text → Bool} {members : Members} {content : Content}
    (read : readFields isHttps members = .ok content) : content.From isHttps members := by
  obtain ⟨v, isV, rest⟩ := bind_eq_ok.mp read
  obtain ⟨_, isVersion, rest⟩ := bind_eq_ok.mp rest
  obtain ⟨kindValue, hasKind, rest⟩ := bind_eq_ok.mp rest
  obtain ⟨kind, isKind, rest⟩ := bind_eq_ok.mp rest
  obtain ⟨summaryValue, hasSummary, rest⟩ := bind_eq_ok.mp rest
  obtain ⟨summary, isSummary, rest⟩ := bind_eq_ok.mp rest
  obtain ⟨bodyValue, hasBody, rest⟩ := bind_eq_ok.mp rest
  obtain ⟨body, isBody, rest⟩ := bind_eq_ok.mp rest
  obtain ⟨status, isStatus, rest⟩ := bind_eq_ok.mp rest
  obtain ⟨subject, isSubject, rest⟩ := bind_eq_ok.mp rest
  obtain ⟨actor, isActor, rest⟩ := bind_eq_ok.mp rest
  obtain ⟨url, isUrl, rest⟩ := bind_eq_ok.mp rest
  obtain ⟨occurredAt, isOccurredAt, rest⟩ := bind_eq_ok.mp rest
  obtain ⟨source, isSource, rest⟩ := bind_eq_ok.mp rest
  obtain ⟨key, isKey, rest⟩ := bind_eq_ok.mp rest
  obtain ⟨data, isData, same⟩ := bind_eq_ok.mp rest
  obtain rfl := Except.ok.inj same
  -- Every reader returns what it was given, or something that takes less room.
  obtain ⟨kindSame, kindChecks⟩ := readKind_ok isKind
  obtain ⟨summarySame, summaryChecks⟩ := readSummary_ok isSummary
  obtain ⟨bodySame, bodyChecks⟩ := label_ok isBody
  obtain ⟨statusWithin, -⟩ := optional_within isStatus fun _ _ read =>
    (⟨Nat.le_of_eq (congrArg size (readStatus_ok read).symm), trivial⟩ : _ ∧ True)
  obtain ⟨subjectWithin, subjectChecks⟩ := optional_within isSubject fun _ _ => readSubject_ok
  obtain ⟨actorWithin, actorChecks⟩ := optional_within isActor fun _ _ read =>
    smaller_of_eq (display_ok read)
  obtain ⟨urlWithin, urlChecks⟩ := optional_within isUrl fun _ _ read =>
    smaller_of_eq (readUrl_ok read)
  obtain ⟨occurredAtWithin, occurredAtChecks⟩ := optional_within isOccurredAt fun _ _ read =>
    smaller_of_eq (utcTimestamp_ok read)
  obtain ⟨sourceWithin, sourceChecks⟩ := optional_within isSource fun _ _ => readSource_ok
  obtain ⟨keyWithin, keyChecks⟩ := optional_within isKey fun _ _ read =>
    smaller_of_eq (readNonempty_ok read)
  -- The version may be written longer than it is kept.
  have vSmaller : size (.number (natNumber 1)) ≤ size v := by
    cases v with
    | number value =>
      have text := require_eq_ok.mp isVersion
      rw [beq_iff_eq] at text
      have spells : spelledNat value.text = some 1 := by rw [text]; decide
      exact size_natNumber spells
    | _ => cases isVersion
  -- Only a coordination event has a payload.
  have payload : Within (member (lit "data") (data.map .object)) members ∧ ∀ found,
    data = some found →
      isCoordinationKind kind = true ∧ DataOf kind found := by
    unfold readPayload at isData
    split at isData
    · rename_i coordinates
      obtain ⟨dataWithin, dataOf⟩ := optional_within isData fun _ _ => readData_ok
      exact ⟨dataWithin, fun found same => ⟨coordinates, dataOf found same⟩⟩
    · cases isData
      exact ⟨within_nil members, fun _ absent => by cases absent⟩
  -- The four fields that are always there take no more room than they did.
  have required : Within [(lit "v", .number (natNumber 1)), (lit "kind", .string kind),
    (lit "summary", .string summary),
      (lit "body", .string body)] members :=
    (within_single (field_ok isV) vSmaller).append
      ((within_single (field_ok hasKind) (Nat.le_of_eq (congrArg size kindSame.symm))).append
        ((within_single (field_ok hasSummary)
          (Nat.le_of_eq (congrArg size summarySame.symm))).append
          (within_single (field_ok hasBody) (Nat.le_of_eq (congrArg size bodySame.symm)))))
  exact {
    within := ((((((((required.append statusWithin).append subjectWithin).append
      actorWithin).append urlWithin).append
      occurredAtWithin).append sourceWithin).append keyWithin).append payload.1)
    checks := ⟨kindChecks, summaryChecks, bodyChecks, subjectChecks, actorChecks, urlChecks,
      occurredAtChecks, sourceChecks,
      keyChecks⟩
    kind := by rw [field_ok hasKind, kindSame]
    payload := payload.2
    read := isData
    status := fun value found => by
      unfold optional at isStatus
      rw [found] at isStatus
      obtain ⟨_, -, rfl⟩ := map_ok isStatus
      rfl }

/-- An event that was read from some input decodes to itself. -/
theorem decodeChannelEvent_ok {isHttps : Text → Bool} {raw : Json} {content : Content}
    (read : decodeChannelEvent isHttps raw = .ok content) :
    (∃ members, raw = .object members ∧ content.From isHttps members)
      ∧ size content.toJson ≤ size raw
      ∧ decodeChannelEvent isHttps content.toJson = .ok content := by
  obtain ⟨_, fits, rest⟩ := bind_eq_ok.mp read
  obtain ⟨members, isObject, isRead⟩ := bind_eq_ok.mp rest
  obtain rfl := object_of_record isObject
  rw [require_eq_ok, decide_eq_true_eq] at fits
  have origin := readFields_ok isRead
  have smaller := origin.within.size_le content.distinct
  refine ⟨⟨members, rfl, origin⟩, smaller, ?_⟩
  exact (decodeChannelEvent_eq_ok (Content.found_members origin.isPayload)).mpr
    ⟨rfl, Nat.le_trans smaller fits, origin.checks⟩

end Khala.Event
