import Khala.Js.Map
import Khala.Js.Text

/-! Coordination events of a channel, and the state they fold into. -/

namespace Khala

open Js

/-- The validated payloads that change the state, with the kind each of them belongs to; a verdict
changes nothing. -/
inductive CoordinationData
  | handoff (ticket sender recipient reason state : Text)
  | handoffAck (ticket : Text)
  | verdict (pr : Nat) (verdict reason : Text)
  | claim (key : Text)
  | release (key : Text)
  | note (key value : Text)
deriving DecidableEq

structure CoordinationEvent where
  sender : Text
  /-- `by`: how the sender is shown. -/
  shownAs : Text
  time : Text
  data : CoordinationData
deriving DecidableEq

structure ActiveClaim where
  key : Text
  shownAs : Text
  sender : Text
  time : Text
deriving DecidableEq

structure OpenHandoff where
  ticket : Text
  sender : Text
  recipient : Text
  reason : Text
  state : Text
  shownAs : Text
  time : Text
deriving DecidableEq

structure CoordinationState where
  openHandoffs : List OpenHandoff
  activeClaims : List ActiveClaim
  notes : List (Text × Text)
deriving DecidableEq

/-- The maps that the fold fills. -/
structure CoordinationMaps where
  handoffs : Map Text OpenHandoff
  claims : Map Text ActiveClaim
  notes : Map Text Text

def CoordinationMaps.empty : CoordinationMaps := ⟨Map.empty, Map.empty, Map.empty⟩

/-- What one event does. The earliest claim of a key wins, and only its holder's release frees the
key. -/
def CoordinationMaps.after (maps : CoordinationMaps) (event : CoordinationEvent) :
    CoordinationMaps :=
  match event.data with
  | .handoff ticket sender recipient reason state =>
    let opened := ⟨ticket, sender, recipient, reason, state, event.shownAs, event.time⟩
    -- The handoff moves to the end, also when the ticket had one.
    { maps with handoffs := (maps.handoffs.delete ticket).set ticket opened }
  | .handoffAck ticket => { maps with handoffs := maps.handoffs.delete ticket }
  | .claim key =>
    -- The first claim of a key wins.
    if (maps.claims.get key).isSome then maps
    else { maps with claims := maps.claims.set key ⟨key, event.shownAs, event.sender, event.time⟩ }
  | .release key =>
    -- Only who claimed a key can release it.
    if (maps.claims.get key).map (·.sender) = some event.sender then
      { maps with claims := maps.claims.delete key }
    else maps
  | .note key value =>
    let cleared := maps.notes.delete key
    -- A note without a value clears the key.
    { maps with notes := if value = [] then cleared else cleared.set key value }
  -- A verdict is part of no list.
  | .verdict _ _ _ => maps

/-- Folds coordination events, oldest first, into the channel's current state. -/
def foldCoordination (events : List CoordinationEvent) : CoordinationState :=
  let maps := events.foldl CoordinationMaps.after CoordinationMaps.empty
  ⟨maps.handoffs.entries.map (·.2), maps.claims.entries.map (·.2), maps.notes.entries⟩

/-- Who holds which key. -/
def CoordinationState.holders (state : CoordinationState) : List (Text × Text) :=
  state.activeClaims.map fun claim => (claim.key, claim.sender)

/-! ## Holders do not depend on how senders are shown -/

/-- The claims without how their holders are shown. -/
private def claimants (claims : Map Text ActiveClaim) : Map Text (Text × Text) :=
  claims.mapValues fun claim => (claim.key, claim.sender)

/-- One event keeps the claimants of two maps equal when it differs only in how the sender is shown.
-/
private theorem claimants_after {one two : CoordinationMaps} {event event' : CoordinationEvent}
    (sender : event.sender = event'.sender) (data : event.data = event'.data)
    (claims : claimants one.claims = claimants two.claims) :
    claimants (one.after event).claims = claimants (two.after event').claims := by
  -- The claimants tell each key's holder.
  have found : ∀ key, (one.claims.get key).map (fun claim => (claim.key, claim.sender))
      = (two.claims.get key).map fun claim => (claim.key, claim.sender) := fun key => by
    rw [← Map.get_mapValues, ← Map.get_mapValues]
    exact congrArg (fun claims => claims.get key) claims
  unfold CoordinationMaps.after
  rw [data]
  -- Only a claim and a release change who holds a key.
  cases event'.data with
  | handoff ticket origin recipient reason state => exact claims
  | handoffAck ticket => exact claims
  | verdict pr verdict reason => exact claims
  | note key value => exact claims
  | claim key =>
    -- A key is free on both sides or on neither.
    have present : (one.claims.get key).isSome = (two.claims.get key).isSome := by
      simpa using congrArg Option.isSome (found key)
    simp only [present]
    split
    · exact claims
    · simp only [claimants, Map.mapValues_set, sender] at claims ⊢
      rw [claims]
  | release key =>
    -- It is held by the same sender, so both release it or neither does.
    have holder : (one.claims.get key).map (·.sender) = (two.claims.get key).map (·.sender) := by
      have both := congrArg (Option.map Prod.snd) (found key)
      rwa [Option.map_map, Option.map_map] at both
    simp only [holder, sender]
    split
    · simp only [claimants, Map.mapValues_delete] at claims ⊢
      rw [claims]
    · exact claims

/-- Two lists of events that differ only in how the senders are shown leave the same holders. -/
theorem holders_foldCoordination (first second : List CoordinationEvent)
    (same : first.map (fun event => (event.sender, event.data)) = second.map fun event =>
      (event.sender, event.data)) :
    (foldCoordination first).holders = (foldCoordination second).holders := by
  -- The statement is for two maps with the same claimants, which each event keeps.
  have general : ∀ (first second : List CoordinationEvent) (one two : CoordinationMaps),
      first.map (fun event => (event.sender, event.data)) = second.map (fun event =>
        (event.sender, event.data)) →
      claimants one.claims = claimants two.claims →
      claimants (first.foldl CoordinationMaps.after one).claims
        = claimants (second.foldl CoordinationMaps.after two).claims := by
    intro first
    induction first with
    | nil =>
      intro second one two same claims
      rw [List.map_nil, eq_comm, List.map_eq_nil_iff] at same
      rw [same]
      exact claims
    | cons event rest ih =>
      intro second one two same claims
      cases second with
      | nil => cases same
      | cons event' rest' =>
        simp only [List.map_cons, List.cons.injEq, Prod.mk.injEq] at same
        exact ih rest' _ _ same.2 (claimants_after same.1.1 same.1.2 claims)
  -- The holders are the claimants without their keys.
  have done := congrArg (fun claims : Map Text (Text × Text) => claims.entries.map Prod.snd)
    (general first second .empty .empty same rfl)
  simp only [claimants, Map.mapValues, List.map_map] at done
  simp only [CoordinationState.holders, foldCoordination, List.map_map]
  exact done

end Khala
