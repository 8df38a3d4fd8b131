import Khala.Contracts.ChannelEvent
import Khala.Js.Digits

/-! Who holds which claim, which handoffs are open and what the notes say, read off the history of a
channel. -/

namespace Khala

open Js

/-- A field of an event's payload: a text, or a number such as a verdict's `pr`. -/
inductive DataValue
  | text (value : Text)
  | number (value : Nat)
deriving DecidableEq

/-- `String(value)`. -/
def DataValue.shown : DataValue → Text
  | .text value => value
  | .number value => decimal value

/-- An event as the fold receives it: of any kind, with or without a payload. -/
structure CoordinationInput where
  sender : Text
  /-- `by`: how the sender is shown. -/
  shownAs : Text
  time : Text
  kind : Text
  data : Option (List (Text × DataValue))
deriving DecidableEq

/-- `String(data[key])`. -/
def fieldText (data : List (Text × DataValue)) (key : Text) : Text :=
  match data.lookup key with
  | some value => value.shown
  | none => lit "undefined"

/-- What the fold reads in an event; one without a payload, or of another kind, says nothing. -/
def CoordinationInput.tells (event : CoordinationInput) : Option CoordinationData :=
  match event.data with
  -- Without a payload the event says nothing.
  | none => none
  | some data =>
    let s := fun key => fieldText data (lit key)
    if event.kind = lit "handoff" then
      some (.handoff (s "ticket") (s "from") (s "to") (s "reason") (s "state"))
    else if event.kind = lit "handoff_ack" then some (.handoffAck (s "ticket"))
    else if event.kind = lit "claim" then some (.claim (s "key"))
    else if event.kind = lit "release" then some (.release (s "key"))
    else if event.kind = lit "note" then some (.note (s "key") (s "value"))
    else none

/-- The event with the payload that was read in it. -/
def CoordinationInput.event (event : CoordinationInput) : Option CoordinationEvent :=
  event.tells.map fun data => ⟨event.sender, event.shownAs, event.time, data⟩

/-- What one received event does to the maps. -/
def CoordinationMaps.afterInput (maps : CoordinationMaps) (input : CoordinationInput) :
    CoordinationMaps :=
  match input.event with
  | none => maps
  | some event => maps.after event

/-- The maps after a history, oldest event first. -/
def mapsOf (history : List CoordinationInput) : CoordinationMaps :=
  history.foldl CoordinationMaps.afterInput CoordinationMaps.empty

/-- The state that a history of received events folds into. -/
def foldInputs (history : List CoordinationInput) : CoordinationState :=
  let maps := mapsOf history
  ⟨maps.handoffs.entries.map (·.2), maps.claims.entries.map (·.2), maps.notes.entries⟩

/-! ## The words of the laws -/

/-- The claim that is in force on a key. -/
def CoordinationState.claimOn (state : CoordinationState) (key : Text) : Option ActiveClaim :=
  state.activeClaims.find? (·.key = key)

/-- The event asks for the key. -/
def CoordinationInput.claims (event : CoordinationInput) (key : Text) : Bool :=
  event.tells = some (.claim key)

/-- The claim that such an event makes. -/
def CoordinationInput.claimOf (event : CoordinationInput) (key : Text) : ActiveClaim :=
  ⟨key, event.shownAs, event.sender, event.time⟩

/-- The event, sent after the history `earlier`, is a release of the key by the sender who then
holds it. -/
def CoordinationInput.Frees (event : CoordinationInput) (earlier : List CoordinationInput)
    (key : Text) : Prop :=
  event.tells = some (.release key) ∧ ((foldInputs earlier).claimOn key).map (·.sender)
    = some event.sender

/-- What an event is about. -/
inductive Subject
  | claim (key : Text)
  | ticket (ticket : Text)
  | note (key : Text)
deriving DecidableEq

def CoordinationData.subject : CoordinationData → Option Subject
  | .handoff ticket _ _ _ _ => some (.ticket ticket)
  | .handoffAck ticket => some (.ticket ticket)
  | .claim key => some (.claim key)
  | .release key => some (.claim key)
  | .note key _ => some (.note key)
  | .verdict _ _ _ => none

def CoordinationInput.subject (event : CoordinationInput) : Option Subject :=
  event.tells.bind CoordinationData.subject

/-- The two events are not about the same key, ticket or note. -/
def CoordinationInput.Apart (first second : CoordinationInput) : Prop :=
  ∀ subject, first.subject = some subject → second.subject ≠ some subject

/-- The event hands a ticket over, and this is the handoff it opens. -/
def CoordinationInput.Opens (event : CoordinationInput) (handoff : OpenHandoff) : Prop :=
  event.tells
    = some (.handoff handoff.ticket handoff.sender handoff.recipient handoff.reason handoff.state)
    ∧ handoff.shownAs = event.shownAs ∧ handoff.time = event.time

/-- The same entries, each list in the order in which its keys came to be set. -/
structure CoordinationState.Same (one two : CoordinationState) : Prop where
  openHandoffs : one.openHandoffs.Perm two.openHandoffs
  activeClaims : one.activeClaims.Perm two.activeClaims
  notes : one.notes.Perm two.notes

/-! ## One key at a time -/

/-- What an event does to the claim on one key. -/
def claimStep (key : Text) (held : Option ActiveClaim) (event : CoordinationInput) :
    Option ActiveClaim :=
  match event.tells with
  | some (.claim asked) => if asked = key ∧ held = none then some (event.claimOf key) else held
  | some (.release freed) => if freed = key ∧ held.map (·.sender) = some event.sender
    then none else held
  | _ => held

/-- What an event puts in place of the handoff of one ticket, if it is about it. -/
def handoffEffect (ticket : Text) (event : CoordinationInput) : Option (Option OpenHandoff) :=
  match event.tells with
  | some (.handoff handed sender recipient reason state) =>
    if handed = ticket then
      some (some ⟨handed, sender, recipient, reason, state, event.shownAs, event.time⟩) else none
  | some (.handoffAck done) => if done = ticket then some none else none
  | _ => none

/-- What an event does to the handoff of one ticket. -/
def handoffStep (ticket : Text) (opened : Option OpenHandoff) (event : CoordinationInput) :
    Option OpenHandoff :=
  (handoffEffect ticket event).getD opened

/-- What an event puts in place of one note, if it is about it. -/
def noteEffect (key : Text) (event : CoordinationInput) : Option (Option Text) :=
  match event.tells with
  | some (.note noted text) => if noted = key then some (if text = [] then none else some text)
    else none
  | _ => none

/-- What an event does to one note. -/
def noteStep (key : Text) (value : Option Text) (event : CoordinationInput) : Option Text :=
  (noteEffect key event).getD value

/-- An event takes each claim its step. -/
theorem claims_afterInput (maps : CoordinationMaps) (event : CoordinationInput) (key : Text) :
    (maps.afterInput event).claims.get key = claimStep key (maps.claims.get key) event := by
  unfold CoordinationMaps.afterInput CoordinationInput.event claimStep
  cases said : event.tells with
  | none => rfl
  | some data =>
    cases data with
    | handoff | handoffAck | verdict | note => rfl
    | claim asked =>
      -- A key that is already claimed keeps its claim, and setting one key leaves the others.
      simp only [Option.map_some, CoordinationMaps.after]
      by_cases same : asked = key
      · subst same
        cases held : maps.claims.get asked <;> simp [held, CoordinationInput.claimOf]
      · have other : key ≠ asked := Ne.symm same
        split <;> simp [Map.get_set, same, other]
    | release freed =>
      simp only [Option.map_some, CoordinationMaps.after]
      by_cases same : freed = key
      · subst same
        split <;> simp [*, Map.get_delete]
      · have other : key ≠ freed := Ne.symm same
        split <;> simp [Map.get_delete, same, other]

/-- An event takes each handoff its step. -/
theorem handoffs_afterInput (maps : CoordinationMaps) (event : CoordinationInput) (ticket : Text) :
    (maps.afterInput event).handoffs.get ticket = handoffStep ticket
    (maps.handoffs.get ticket) event := by
  -- Only a handoff and its acknowledgement change what is open.
  unfold CoordinationMaps.afterInput CoordinationInput.event handoffStep handoffEffect
  cases said : event.tells with
  | none => rfl
  | some data =>
    cases data with
    | claim =>
      simp only [Option.map_some, CoordinationMaps.after]
      split <;> rfl
    | release =>
      simp only [Option.map_some, CoordinationMaps.after]
      split <;> rfl
    | verdict | note => rfl
    | handoff handed sender recipient reason state =>
      simp only [Option.map_some, CoordinationMaps.after]
      -- The event is about this ticket or about another one.
      by_cases same : handed = ticket
      · simp [same]
      · have other : ticket ≠ handed := Ne.symm same
        simp [Map.get_set, Map.get_delete, same, other]
    | handoffAck done =>
      simp only [Option.map_some, CoordinationMaps.after]
      by_cases same : done = ticket
      · simp [Map.get_delete, same]
      · have other : ticket ≠ done := Ne.symm same
        simp [Map.get_delete, same, other]

/-- An event takes each note its step. -/
theorem notes_afterInput (maps : CoordinationMaps) (event : CoordinationInput) (key : Text) :
    (maps.afterInput event).notes.get key = noteStep key (maps.notes.get key) event := by
  -- Only a note changes what is noted.
  unfold CoordinationMaps.afterInput CoordinationInput.event noteStep noteEffect
  cases said : event.tells with
  | none => rfl
  | some data =>
    cases data with
    | claim =>
      simp only [Option.map_some, CoordinationMaps.after]
      split <;> rfl
    | release =>
      simp only [Option.map_some, CoordinationMaps.after]
      split <;> rfl
    | verdict | handoff | handoffAck => rfl
    | note noted text =>
      simp only [Option.map_some, CoordinationMaps.after]
      by_cases same : noted = key
      -- An empty note clears the key.
      · by_cases cleared : text = [] <;> simp [Map.get_delete, same, cleared]
      · have other : key ≠ noted := Ne.symm same
        by_cases cleared : text = [] <;> simp [Map.get_set, Map.get_delete, same, other, cleared]

/-- A map read off the history is, at each key, the run of that key's own step. -/
private theorem foldl_at {σ ν : Type} (read : σ → Option ν) (after : σ → CoordinationInput → σ)
    (step : Option ν → CoordinationInput → Option ν)
    (one : ∀ maps event, read (after maps event) = step (read maps) event)
    (history : List CoordinationInput) (start : σ) :
    read (history.foldl after start) = history.foldl step (read start) := by
  induction history generalizing start with
  | nil => rfl
  | cons event rest ih => rw [List.foldl_cons, List.foldl_cons, ih, one]

/-- A claim has taken the steps of all events. -/
theorem claims_mapsOf (history : List CoordinationInput) (key : Text) :
    (mapsOf history).claims.get key = history.foldl (claimStep key) none :=
  foldl_at (fun maps : CoordinationMaps => maps.claims.get key) CoordinationMaps.afterInput
    (claimStep key)
    (fun maps event => claims_afterInput maps event key) history .empty

/-- A handoff has taken the steps of all events. -/
theorem handoffs_mapsOf (history : List CoordinationInput) (ticket : Text) :
    (mapsOf history).handoffs.get ticket = history.foldl (handoffStep ticket) none :=
  foldl_at (fun maps : CoordinationMaps => maps.handoffs.get ticket) CoordinationMaps.afterInput
    (handoffStep ticket)
    (fun maps event => handoffs_afterInput maps event ticket) history .empty

/-- A note has taken the steps of all events. -/
theorem notes_mapsOf (history : List CoordinationInput) (key : Text) :
    (mapsOf history).notes.get key = history.foldl (noteStep key) none :=
  foldl_at (fun maps : CoordinationMaps => maps.notes.get key) CoordinationMaps.afterInput
    (noteStep key)
    (fun maps event => notes_afterInput maps event key) history .empty

/-- A claim stands under the key that it names. -/
theorem key_of_claim {history : List CoordinationInput} {key : Text} {claim : ActiveClaim}
    (found : (mapsOf history).claims.get key = some claim) : claim.key = key := by
  rw [claims_mapsOf] at found
  induction history using List.reverseRecOn generalizing claim with
  | nil => cases found
  | append_singleton before event ih =>
    rw [List.foldl_append, List.foldl_cons, List.foldl_nil, claimStep] at found
    -- Only a fresh claim can put another entry there, and it names the key.
    split at found
    · split at found
      · cases found
        rfl
      · exact ih found
    · split at found
      · cases found
      · exact ih found
    · exact ih found

/-- A handoff stands under the ticket that it names. -/
theorem ticket_of_handoff {history : List CoordinationInput} {ticket : Text} {handoff : OpenHandoff}
    (found : (mapsOf history).handoffs.get ticket = some handoff) : handoff.ticket = ticket := by
  rw [handoffs_mapsOf] at found
  induction history using List.reverseRecOn generalizing handoff with
  | nil => cases found
  | append_singleton before event ih =>
    rw [List.foldl_append, List.foldl_cons, List.foldl_nil, handoffStep] at found
    cases put : handoffEffect ticket event with
    | none =>
      rw [put, Option.getD_none] at found
      exact ih found
    | some opened =>
      rw [put, Option.getD_some] at found
      subst found
      -- A handoff is put under the ticket that the event hands over.
      unfold handoffEffect at put
      split at put
      · split at put
        · rename_i same
          cases put
          exact same
        · cases put
      · split at put <;> cases put
      · cases put

/-- The claims that are listed are those held. -/
theorem mem_activeClaims {history : List CoordinationInput} {claim : ActiveClaim} :
    claim ∈ (foldInputs history).activeClaims
      ↔ (mapsOf history).claims.get claim.key = some claim := by
  simp only [foldInputs, List.mem_map, Prod.exists, exists_eq_right]
  constructor
  · rintro ⟨key, inside⟩
    have found := Map.get_eq_some.mpr inside
    rwa [key_of_claim found]
  · intro found
    exact ⟨claim.key, Map.get_eq_some.mp found⟩

/-- The handoffs that are listed are those open. -/
theorem mem_openHandoffs {history : List CoordinationInput} {handoff : OpenHandoff} :
    handoff ∈ (foldInputs history).openHandoffs
      ↔ (mapsOf history).handoffs.get handoff.ticket = some handoff := by
  simp only [foldInputs, List.mem_map, Prod.exists, exists_eq_right]
  constructor
  · rintro ⟨ticket, inside⟩
    have found := Map.get_eq_some.mpr inside
    rwa [ticket_of_handoff found]
  · intro found
    exact ⟨handoff.ticket, Map.get_eq_some.mp found⟩

/-- The notes that are listed are those in force. -/
theorem mem_notes {history : List CoordinationInput} {key value : Text} :
    (key, value) ∈ (foldInputs history).notes ↔ (mapsOf history).notes.get key = some value :=
  Map.get_eq_some.symm

/-- The entries of a map, listed by what they name, name their keys. -/
private theorem names_eq {ν : Type} (m : Map Text ν) (name : ν → Text)
    (named : ∀ {key : Text} {entry : ν}, m.get key = some entry → name entry = key) :
    (m.entries.map (·.2)).map name = m.entries.map (·.1) := by
  rw [List.map_map]
  refine List.map_congr_left fun entry inside => ?_
  exact named (Map.get_eq_some.mpr inside)

/-- No key is listed twice. -/
theorem activeClaims_nodup (history : List CoordinationInput) :
    ((foldInputs history).activeClaims.map (·.key)).Nodup := by
  simp only [foldInputs]
  rw [names_eq _ _ key_of_claim]
  exact (mapsOf history).claims.distinct

/-- No ticket is listed twice. -/
theorem openHandoffs_nodup (history : List CoordinationInput) :
    ((foldInputs history).openHandoffs.map (·.ticket)).Nodup := by
  simp only [foldInputs]
  rw [names_eq _ _ ticket_of_handoff]
  exact (mapsOf history).handoffs.distinct

/-- No note is listed twice. -/
theorem notes_nodup (history : List CoordinationInput) :
    ((foldInputs history).notes.map (·.1)).Nodup :=
  (mapsOf history).notes.distinct

/-- The claim listed for a key is the one that the fold keeps under it. -/
theorem claimOn_eq (history : List CoordinationInput) (key : Text) :
    (foldInputs history).claimOn key = history.foldl (claimStep key) none := by
  rw [← claims_mapsOf]
  cases kept : (mapsOf history).claims.get key with
  | none =>
    refine List.find?_eq_none.mpr fun claim inside => ?_
    have listed := mem_activeClaims.mp inside
    simp only [decide_eq_true_eq]
    intro same
    rw [same, kept] at listed
    cases listed
  | some claim =>
    have named := key_of_claim kept
    have inside : claim ∈ (foldInputs history).activeClaims := mem_activeClaims.mpr (named ▸ kept)
    cases found : (foldInputs history).claimOn key with
    | none => exact absurd (List.find?_eq_none.mp found claim inside) (by simp [named])
    | some other =>
      -- Whatever is found names the key too, and a key has one entry.
      have same : other.key = key := by simpa using List.find?_some found
      have listed := mem_activeClaims.mp (List.mem_of_find?_eq_some found)
      rw [same, kept] at listed
      exact listed.symm

/-! ## The holder of a key -/

/-- Unless it frees the key, an event keeps the claim on it or, where there is none, may make one.
-/
theorem claimStep_kept {history : List CoordinationInput} {event : CoordinationInput} {key : Text}
    (stays : ¬ event.Frees history key) :
    claimStep key (history.foldl (claimStep key) none) event
      = (history.foldl (claimStep key) none).or (if event.claims key then some (event.claimOf key)
        else none) := by
  unfold CoordinationInput.Frees at stays
  rw [claimOn_eq] at stays
  -- What matters of the history is who holds the key.
  generalize history.foldl (claimStep key) none = held at stays ⊢
  unfold claimStep CoordinationInput.claims
  split
  -- A claim takes the key where it is free, and changes nothing where it is held.
  · rename_i asked said
    by_cases same : asked = key <;> cases held <;> simp [said, same]
  -- A release by someone else changes nothing.
  · rename_i freed said
    by_cases same : freed = key
    · subst same
      have foreign : held.map (·.sender) ≠ some event.sender := fun by_ => stays ⟨said, by_⟩
      simp [said, foreign]
    · simp [said, same]
  -- Any other event says nothing of claims.
  · rename_i notClaim _
    have silent : event.tells ≠ some (.claim key) := notClaim key
    simp [silent]

/-- The event frees the key from the sender who holds it. -/
theorem claimStep_freed {history : List CoordinationInput} {event : CoordinationInput} {key : Text}
    (frees : event.Frees history key) :
    claimStep key (history.foldl (claimStep key) none) event = none := by
  obtain ⟨said, held⟩ := frees
  rw [claimOn_eq] at held
  simp [claimStep, said, held]

/-- A list with one more at its end splits at an earlier place, or at that end. -/
private theorem split_concat {α : Type} {list front back : List α} {last middle : α}
    (split : list ++ [last] = front ++ middle :: back) :
    (back = [] ∧ front = list ∧ middle = last) ∨ ∃ back', back = back' ++ [last]
      ∧ list = front ++ middle :: back' := by
  rcases List.eq_nil_or_concat back with rfl | ⟨back', end_, rfl⟩
  · obtain ⟨same, lasts⟩ := List.append_inj' split rfl
    cases lasts
    exact .inl ⟨rfl, same.symm, rfl⟩
  · have regrouped : list ++ [last] = (front ++ middle :: back') ++ [end_] := by simpa using split
    obtain ⟨same, lasts⟩ := List.append_inj' regrouped rfl
    cases lasts
    exact .inr ⟨back', by simp, same⟩

/-- A key is held by the earliest claim on it since it was last freed. -/
theorem claimOn_first (history : List CoordinationInput) (key : Text) :
    ∃ before since : List CoordinationInput, history = before ++ since
      ∧ (before = [] ∨ ∃ (earlier : List CoordinationInput) (release : CoordinationInput),
        before = earlier ++ [release] ∧ release.Frees earlier key)
      ∧ (∀ front (event : CoordinationInput) back, since = front ++ event :: back →
        ¬ event.Frees (before ++ front) key)
      ∧ (foldInputs history).claimOn key = (since.find? (·.claims key)).map (·.claimOf key) := by
  simp only [claimOn_eq]
  -- The induction takes the last event: it frees the key, or leaves it as it was.
  induction history using List.reverseRecOn with
  | nil => exact ⟨[], [], rfl, .inl rfl, by simp, rfl⟩
  | append_singleton history event ih =>
    rw [List.foldl_append, List.foldl_cons, List.foldl_nil]
    by_cases frees : event.Frees history key
    · -- The key is free again, and nothing has come since.
      exact ⟨history ++ [event], [], by simp, .inr ⟨history, event, rfl, frees⟩, by simp,
        claimStep_freed frees⟩
    · obtain ⟨before, since, same, opened, quiet, held⟩ := ih
      refine ⟨before, since ++ [event], by rw [same, List.append_assoc], opened, ?_, ?_⟩
      · intro front middle back split
        rcases split_concat split with ⟨-, rfl, rfl⟩ | ⟨back', -, earlier⟩
        · exact same ▸ frees
        · exact quiet front middle back' earlier
      · -- The first claim stays the first, and a claim on a free key becomes it.
        rw [claimStep_kept frees, held, List.find?_append]
        cases since.find? (·.claims key) <;> cases asks : event.claims key <;> simp [asks]

/-- A release by somebody else, and a claim on a key that is held, leave the maps as they are. -/
theorem idle_afterInput {history : List CoordinationInput} {event : CoordinationInput} {key : Text}
    (idle : (event.tells = some (.release key)
        ∧ ((foldInputs history).claimOn key).map (·.sender) ≠ some event.sender)
      ∨ (event.tells = some (.claim key) ∧ (foldInputs history).claimOn key ≠ none)) :
    (mapsOf history).afterInput event = mapsOf history := by
  rw [claimOn_eq, ← claims_mapsOf] at idle
  unfold CoordinationMaps.afterInput CoordinationInput.event
  obtain ⟨said, foreign⟩ | ⟨said, held⟩ := idle
  · simp [said, CoordinationMaps.after, foreign]
  · simp [said, CoordinationMaps.after, Option.isSome_iff_ne_none.mpr held]

/-! ## Events that are about different things -/

/-- An event about something else leaves a claim. -/
theorem claimStep_other {key : Text} {event : CoordinationInput}
    (other : event.subject ≠ some (.claim key)) (held : Option ActiveClaim) :
    claimStep key held event = held := by
  unfold claimStep
  unfold CoordinationInput.subject at other
  split <;> simp_all [CoordinationData.subject]

/-- Only an event about a ticket has an effect on it. -/
theorem handoffEffect_eq_none {ticket : Text} {event : CoordinationInput} :
    handoffEffect ticket event = none ↔ event.subject ≠ some (.ticket ticket) := by
  unfold handoffEffect CoordinationInput.subject
  cases event.tells with
  | none => simp
  | some data => cases data <;> simp [CoordinationData.subject]

/-- Only an event about a note has an effect on it. -/
theorem noteEffect_eq_none {key : Text} {event : CoordinationInput} :
    noteEffect key event = none ↔ event.subject ≠ some (.note key) := by
  unfold noteEffect CoordinationInput.subject
  cases event.tells with
  | none => simp
  | some data => cases data <;> simp [CoordinationData.subject]

/-- An event about something else leaves a handoff. -/
theorem handoffStep_other {ticket : Text} {event : CoordinationInput}
    (other : event.subject ≠ some (.ticket ticket)) (opened : Option OpenHandoff) :
    handoffStep ticket opened event = opened := by
  rw [handoffStep, handoffEffect_eq_none.mpr other, Option.getD_none]

/-- An event about something else leaves a note. -/
theorem noteStep_other {key : Text} {event : CoordinationInput}
    (other : event.subject ≠ some (.note key)) (value : Option Text) :
    noteStep key value event = value := by
  rw [noteStep, noteEffect_eq_none.mpr other, Option.getD_none]

/-- Where one of two neighbours has no effect, their order has none. -/
private theorem foldl_swap {ν : Type} {step : Option ν → CoordinationInput → Option ν}
    {about : Subject}
    (other : ∀ {event : CoordinationInput}, event.subject ≠ some about →
      ∀ kept, step kept event = kept)
    {first second : CoordinationInput} (apart : first.Apart second)
    (before after : List CoordinationInput) :
    (before ++ first :: second :: after).foldl step none
      = (before ++ second :: first :: after).foldl step none := by
  simp only [List.foldl_append, List.foldl_cons]
  by_cases mine : first.subject = some about
  · rw [other (apart about mine), other (apart about mine)]
  · rw [other mine, other mine]

/-- Two maps that hold the same under every key hold the same entries. -/
private theorem perm_of_get {ν : Type} {one two : Map Text ν}
    (same : ∀ key, one.get key = two.get key) :
    one.entries.Perm two.entries := by
  refine (List.perm_ext_iff_of_nodup (.of_map _ one.distinct) (.of_map _ two.distinct)).mpr
    fun entry => ?_
  obtain ⟨key, value⟩ := entry
  rw [← Map.get_eq_some, ← Map.get_eq_some, same]

/-- Neighbours that are about different things may change places. -/
theorem foldInputs_swap {first second : CoordinationInput} (apart : first.Apart second)
    (before after : List CoordinationInput) :
    (foldInputs (before ++ first :: second :: after)).Same
    (foldInputs (before ++ second :: first :: after)) where
  -- Two events that are apart change different tickets, keys and notes.
  openHandoffs := by
    refine (perm_of_get fun ticket => ?_).map _
    rw [handoffs_mapsOf, handoffs_mapsOf]
    exact foldl_swap handoffStep_other apart before after
  activeClaims := by
    refine (perm_of_get fun key => ?_).map _
    rw [claims_mapsOf, claims_mapsOf]
    exact foldl_swap claimStep_other apart before after
  notes := by
    refine perm_of_get fun key => ?_
    rw [notes_mapsOf, notes_mapsOf]
    exact foldl_swap noteStep_other apart before after

/-! ## The latest of a history -/

section

variable {ε ν : Type}

/-- A step that replaces what is kept, or leaves it, keeps what the latest replacement put there. -/
theorem foldl_latest {step : Option ν → ε → Option ν} {effect : ε → Option (Option ν)}
    (step_eq : ∀ kept event, step kept event = (effect event).getD kept) {history : List ε}
    {value : ν} :
    history.foldl step none = some value ↔ ∃ before event after, history = before ++ event :: after
      ∧ effect event = some (some value) ∧ ∀ later ∈ after, effect later = none := by
  induction history using List.reverseRecOn with
  | nil => simp
  | append_singleton history event ih =>
    rw [List.foldl_append, List.foldl_cons, List.foldl_nil, step_eq]
    constructor
    · intro kept
      cases replaced : effect event with
      | none =>
        -- The last event has no effect, so the latest replacement is an earlier one.
        rw [replaced, Option.getD_none] at kept
        obtain ⟨before, latest, after, rfl, put, quiet⟩ := ih.mp kept
        refine ⟨before, latest, after ++ [event], by simp, put, fun later inside => ?_⟩
        rcases List.mem_append.mp inside with earlier | last
        · exact quiet later earlier
        · rw [List.mem_singleton.mp last, replaced]
      | some content =>
        rw [replaced, Option.getD_some] at kept
        exact ⟨history, event, [], rfl, by rw [replaced, kept], by simp⟩
    · intro ⟨before, latest, after, split, put, quiet⟩
      rcases split_concat split with ⟨-, -, rfl⟩ | ⟨after', rfl, earlier⟩
      · rw [put, Option.getD_some]
      · rw [quiet event (by simp), Option.getD_none]
        exact ih.mpr ⟨before, latest, after', earlier, put, fun later inside =>
          quiet later (by simp [inside])⟩

end

/-- The event puts exactly the handoff that it opens. -/
theorem handoffEffect_opens {event : CoordinationInput} {handoff : OpenHandoff} :
    handoffEffect handoff.ticket event = some (some handoff) ↔ event.Opens handoff := by
  obtain ⟨ticket, sender, recipient, reason, state, shownAs, time⟩ := handoff
  unfold handoffEffect CoordinationInput.Opens
  cases event.tells with
  | none => simp
  | some data =>
    cases data with
    | handoff handed sender' recipient' reason' state' =>
      simp only [Option.some.injEq, CoordinationData.handoff.injEq]
      split <;> grind
    | handoffAck | claim | release | note | verdict => simp

/-- The event puts exactly the text that it writes, unless that is empty. -/
theorem noteEffect_writes {event : CoordinationInput} {key value : Text} :
    noteEffect key event = some (some value) ↔ value ≠ []
      ∧ event.tells = some (.note key value) := by
  unfold noteEffect
  cases event.tells with
  | none => simp
  | some data =>
    cases data with
    | note noted text =>
      simp only [Option.some.injEq, CoordinationData.note.injEq]
      split <;> grind
    | handoff | handoffAck | claim | release | verdict => simp

/-- A handoff is open when it is the latest on its ticket and nothing has acknowledged it since. -/
theorem mem_openHandoffs_iff {history : List CoordinationInput} {handoff : OpenHandoff} :
    handoff ∈ (foldInputs history).openHandoffs ↔
      ∃ (before : List CoordinationInput) (event : CoordinationInput) (after : List CoordinationInput),
      history = before ++ event :: after
      ∧ event.Opens handoff ∧ ∀ later ∈ after, later.subject ≠ some (.ticket handoff.ticket) := by
  have latest := @foldl_latest _ _ (handoffStep handoff.ticket) (handoffEffect handoff.ticket)
    (fun opened event => rfl) history handoff
  rw [mem_openHandoffs, handoffs_mapsOf, latest]
  simp only [handoffEffect_opens, handoffEffect_eq_none]

/-- A note holds the latest text that was written under its key, when that text is not empty. -/
theorem mem_notes_iff {history : List CoordinationInput} {key value : Text} :
    (key, value) ∈ (foldInputs history).notes ↔ value ≠ [] ∧
      ∃ (before : List CoordinationInput) (event : CoordinationInput) (after : List CoordinationInput),
      history = before ++ event :: after
      ∧ event.tells = some (.note key value) ∧ ∀ later ∈ after,
        later.subject ≠ some (.note key) := by
  have latest :=
    @foldl_latest _ _ (noteStep key) (noteEffect key) (fun kept event => rfl) history value
  rw [mem_notes, notes_mapsOf, latest]
  simp only [noteEffect_writes, noteEffect_eq_none]
  constructor
  · intro ⟨before, event, after, split, ⟨filled, said⟩, quiet⟩
    exact ⟨filled, before, event, after, split, said, quiet⟩
  · intro ⟨filled, before, event, after, split, said, quiet⟩
    exact ⟨before, event, after, split, ⟨filled, said⟩, quiet⟩

/-! ## The laws of the fold -/

/--
Claims are exclusive and go to the first who asks.

The state lists one claim a key, made by the first event that asked for the key since its holder
last released it. Whatever else is sent about a key changes nothing, and events about different
things may come in either order. A ticket and a note show what was last said about them.
-/
theorem claims_first_come (history : List CoordinationInput) :
    (((foldInputs history).activeClaims.map (·.key)).Nodup
      ∧ ∀ key, ∃ before since : List CoordinationInput, history = before ++ since
        ∧ (before = [] ∨ ∃ (earlier : List CoordinationInput) (release : CoordinationInput),
          before = earlier ++ [release] ∧ release.Frees earlier key)
        ∧ (∀ front (event : CoordinationInput) back, since = front ++ event :: back →
          ¬ event.Frees (before ++ front) key)
        ∧ (foldInputs history).claimOn key = (since.find? (·.claims key)).map (·.claimOf key))
    ∧ (∀ (event : CoordinationInput) key after,
        ((event.tells = some (.release key) ∧ ((foldInputs history).claimOn key).map (·.sender)
          ≠ some event.sender)
          ∨ (event.tells = some (.claim key) ∧ (foldInputs history).claimOn key ≠ none)) →
        foldInputs (history ++ event :: after) = foldInputs (history ++ after))
    ∧ (∀ (first second : CoordinationInput) after, first.Apart second →
        (foldInputs (history ++ first :: second :: after)).Same
        (foldInputs (history ++ second :: first :: after)))
    ∧ (((foldInputs history).openHandoffs.map (·.ticket)).Nodup
      ∧ ∀ handoff, handoff ∈ (foldInputs history).openHandoffs ↔
        ∃ (before : List CoordinationInput) (event : CoordinationInput) (after : List CoordinationInput),
          history = before ++ event :: after ∧ event.Opens handoff
            ∧ ∀ later ∈ after, later.subject ≠ some (.ticket handoff.ticket))
    ∧ (((foldInputs history).notes.map (·.1)).Nodup
      ∧ ∀ key value, (key, value) ∈ (foldInputs history).notes ↔ value ≠ []
        ∧ ∃ (before : List CoordinationInput) (event : CoordinationInput)
          (after : List CoordinationInput),
          history = before ++ event :: after ∧ event.tells = some (.note key value)
            ∧ ∀ later ∈ after, later.subject ≠ some (.note key)) := by
  refine ⟨⟨activeClaims_nodup history, claimOn_first history⟩, fun event key after idle => ?_,
    fun first second after apart => foldInputs_swap apart history after,
    ⟨openHandoffs_nodup history, fun handoff => mem_openHandoffs_iff⟩,
    ⟨notes_nodup history, fun key value => mem_notes_iff⟩⟩
  -- An idle event leaves the maps, so the rest of the history starts from the same ones.
  have maps : mapsOf (history ++ event :: after) = mapsOf (history ++ after) := by
    have left := idle_afterInput idle
    unfold mapsOf at left ⊢
    rw [List.foldl_append, List.foldl_cons, left, List.foldl_append]
  simp only [foldInputs, maps]

/-- A claim on one key, and an event of a sender about a key. -/
def keyEvent (sender kind key : Text) : CoordinationInput :=
  ⟨sender, sender, lit "2026-01-01T00:00:00Z", kind, some [(lit "key", .text key)]⟩

/-- A second claim and a stranger's release leave the first claim, and a claim on another key
commutes with them. -/
theorem claims_first_come_contested :
    let history := [keyEvent (lit "a") (lit "claim") (lit "k")]
    let second := keyEvent (lit "b") (lit "claim") (lit "k")
    let stranger := keyEvent (lit "b") (lit "release") (lit "k")
    let other := keyEvent (lit "b") (lit "claim") (lit "other")
    foldInputs (history ++ [second]) = foldInputs history
      ∧ foldInputs (history ++ [stranger]) = foldInputs history
      ∧ (foldInputs (history ++ [second, other])).Same
        (foldInputs (history ++ [other, second])) := by
  intro history second stranger other
  have laws := claims_first_come history
  refine ⟨?_, ?_, ?_⟩
  -- The second claim and the stranger's release change nothing, by the law.
  · have kept := laws.2.1 second (lit "k") [] (.inr ⟨by decide, by decide⟩)
    rwa [List.append_nil] at kept
  · have kept := laws.2.1 stranger (lit "k") [] (.inl ⟨by decide, by decide⟩)
    rwa [List.append_nil] at kept
  · refine laws.2.2.1 second other [] fun subject about => ?_
    have key : second.subject = some (.claim (lit "k")) := by decide
    rw [key] at about
    cases about
    decide

end Khala
