import Khala.Agent.ListeningMode
import Mathlib.Tactic.Common

/-! When the lock, the archive flag and the timeout that an owner set last stay in force. -/

namespace Khala

open Js

/-- Everything that writes `mode.json`. The last two belong to a fresh join. -/
inductive ModeStep
  | command (command : ModeCommand) (published : Bool)
  | archive (archived : Bool)
  | setMode (mode : ListeningMode) (input : SetModeInput) (published : Bool)
  | idleMute (lastHumanAt joinedAt : Int) (reason : Text) (published : Bool)
  | joinMode (reported : Option ListeningMode)
  | joinArchived (archived : Option Bool)

/-- The file after an attempt of the agent, which leaves it alone when it is refused or fails. -/
def settled (file : ModeFile) : Except SetModeError ModeFile → ModeFile
  | .ok after => after
  | .error _ => file

/-- The file after a step; a step that fails writes nothing. -/
def takeModeStep (asyncOnly : Bool) (moment : ModeMoment) (file : ModeFile) : ModeStep → ModeFile
  | .command command published => (intakeMode asyncOnly moment command published file).getD file
  | .archive archived => (applyArchived moment archived file).getD file
  | .setMode mode input published =>
    settled file (setMode asyncOnly moment mode input published file)
  | .idleMute lastHumanAt joinedAt reason published =>
    settled file (idleMute asyncOnly moment lastHumanAt joinedAt reason published file)
  | .joinMode reported => joinMode asyncOnly reported file
  | .joinArchived archived => (joinArchived asyncOnly moment archived file).getD file

/-- What the owner decides: the archive flag, the lock, the timeout and the time of the last
command. -/
structure OwnerForce where
  archived : Bool
  locked : Bool
  idleMuteMin : IdleMuteMinutes
  eventTs : Option Int
deriving DecidableEq, Repr

/-- What holds before any action of the owner. -/
def OwnerForce.unset : OwnerForce := ⟨false, false, .hour, none⟩

/-- What the file keeps in force. -/
def inForce (file : ModeFile) : OwnerForce :=
  let state := readModeState file
  ⟨state.archived, state.locked, state.idleMuteMin, (file.getD .empty).eventTs⟩

/-- What the owner's actions put in force. A command or an archive update counts once it is applied,
and every other step leaves things as they are. -/
def ownerAction (asyncOnly : Bool) (moment : ModeMoment) (file : ModeFile) (force : OwnerForce) :
    ModeStep → OwnerForce
  | .command command published =>
    -- A command that is stale or cannot be written changes nothing.
    if staleCommand file command = false
      ∧ (intakeMode asyncOnly moment command published file).isSome then
      { force with
        locked := command.locked.getD force.locked
        idleMuteMin := command.idleMuteMin.getD force.idleMuteMin
        eventTs := some command.ts }
    else force
  | .archive archived =>
    if (applyArchived moment archived file).isSome then { force with archived } else force
  -- An agent that is asynchronous only is not archived by its join.
  | .joinArchived (some archived) =>
    if !asyncOnly && (applyArchived moment archived file).isSome
      then { force with archived } else force
  -- The other steps are not the owner's.
  | _ => force

/-- Steps from a channel without a mode file, with what the owner has put in force so far. -/
inductive ModeRun (asyncOnly : Bool) (allowed : ModeFile → ModeStep → Prop) :
    OwnerForce → ModeFile → Prop
  | start : ModeRun asyncOnly allowed .unset none
  | step {force : OwnerForce} {file : ModeFile} {step : ModeStep}
    (before : ModeRun asyncOnly allowed force file)
      (moment : ModeMoment) (permitted : allowed file step) :
      ModeRun asyncOnly allowed (ownerAction asyncOnly moment file force step)
        (takeModeStep asyncOnly moment file step)

/-- A join finds nothing in the file that its write would drop: a harness that only listens
asynchronously keeps no more than the mode and the timeout, and without a reported mode the file is
removed. -/
def JoinKeeps (asyncOnly : Bool) (file : ModeFile) : ModeStep → Prop
  | .joinMode reported =>
    if asyncOnly then (inForce file).archived = false ∧ (inForce file).locked = false
      ∧ (inForce file).eventTs = none
    else reported.isSome ∨ inForce file = .unset
  | _ => True

/-- The steps that are no action of the owner. -/
def ModeStep.ofAgent : ModeStep → Bool
  | .setMode .. => true
  | .idleMute .. => true
  | .joinMode _ => true
  | _ => false

/-! ## One step -/

section

variable {asyncOnly : Bool} {moment : ModeMoment} {file : ModeFile}

/-- What a mode change puts in force over what it read. -/
theorem inForce_modeRecord (next : ListeningMode) (info : ModeMeta) (now : Int) :
    inForce (some (modeRecord (readModeState file) next info now))
      = { inForce file with
          locked := info.locked.getD (inForce file).locked
          idleMuteMin := info.idleMuteMin.getD (inForce file).idleMuteMin
          eventTs := info.eventTs } := by
  simp only [inForce, readModeState, modeRecord, Option.getD_some]
  congr 1
  · by_cases archived : (file.getD .empty).archived = some true <;> simp [archived]
  · cases info.locked with
    | some locked => cases locked <;> rfl
    | none => by_cases locked : (file.getD .empty).locked = some true <;> simp [locked]
  · cases info.idleMuteMin with
    | some idle => rfl
    | none => by_cases default :
      (file.getD .empty).idleMuteMin.getD .hour = .hour <;> simp [default]

/-- A command puts its own settings in force and leaves the others. -/
theorem inForce_applyListeningMode {next : ListeningMode} {info : ModeMeta} {after : ModeFile}
    (applied : applyListeningMode moment next info file = some after) :
    inForce after = { inForce file with
      locked := info.locked.getD (inForce file).locked
      idleMuteMin := info.idleMuteMin.getD (inForce file).idleMuteMin
      eventTs := info.eventTs } := by
  simp only [applyListeningMode] at applied
  split at applied
  · cases applied
  · obtain rfl := Option.some.inj applied
    exact inForce_modeRecord next info moment.now

/-- An archive update changes the archive flag only. -/
theorem inForce_applyArchived {archived : Bool} {after : ModeFile}
    (applied : applyArchived moment archived file = some after) :
    inForce after = { inForce file with archived } := by
  simp only [applyArchived] at applied
  split at applied
  · rename_i same
    obtain rfl := Option.some.inj applied
    simp only [inForce, ← same]
  · split at applied
    · cases applied
    · obtain rfl := Option.some.inj applied
      cases archived <;> rfl

/-- A mode change of the agent keeps what the owner put in force, and is refused under a lock or an
archive. -/
theorem setMode_keeps {mode : ListeningMode} {input : SetModeInput} {published : Bool} :
    inForce (settled file (setMode asyncOnly moment mode input published file)) = inForce file
      ∧ ((inForce file).locked = true ∨ (inForce file).archived = true →
          settled file (setMode asyncOnly moment mode input published file) = file) := by
  have state : (readModeState file).archived = (inForce file).archived
    ∧ (readModeState file).locked = (inForce file).locked :=
    ⟨rfl, rfl⟩
  rw [setMode, state.1, state.2]
  by_cases archived : (inForce file).archived = true
  · simp [archived, settled]
  rw [if_neg archived]
  by_cases locked : (inForce file).locked = true
  · simp [locked, settled]
  rw [if_neg locked]
  refine ⟨?_, fun force => absurd force (by simp [archived, locked])⟩
  -- Past the refusals the new record inherits everything that the agent does not name.
  split
  · rfl
  split
  · rfl
  split
  · rfl
  split
  · rfl
  dsimp only
  split
  · rename_i after applied
    simp only [settled, inForce_applyListeningMode applied, Option.getD_none]
    rfl
  · rfl

/-- Idle muting leaves what is in force, and changes nothing of a locked or archived mode. -/
theorem idleMute_keeps {lastHumanAt joinedAt : Int} {reason : Text} {published : Bool} :
    inForce (settled file (idleMute asyncOnly moment lastHumanAt joinedAt reason published file))
      = inForce file
      ∧ ((inForce file).locked = true ∨ (inForce file).archived = true →
          settled file (idleMute asyncOnly moment lastHumanAt joinedAt reason published file)
            = file) := by
  rw [idleMute]
  split
  · exact setMode_keeps
  · exact ⟨rfl, fun _ => rfl⟩

/-- A join keeps what is in force exactly when its write drops nothing. -/
theorem joinMode_keeps {reported : Option ListeningMode} :
    inForce (joinMode asyncOnly reported file) = inForce file
      ↔ JoinKeeps asyncOnly file (.joinMode reported) := by
  -- Either the join writes the mode for asynchronous work, or it takes the one reported.
  cases asyncOnly with
  | true =>
    -- The idle minutes are the ones in force, written only where they are not the default.
    have idle :
      (if (readModeState file).idleMuteMin ≠ .hour then some (readModeState file).idleMuteMin
        else none).getD .hour
        = (inForce file).idleMuteMin := by
      by_cases default : (readModeState file).idleMuteMin = .hour
      · simp [default, inForce]
      · simp [default, inForce]
    have written :
      inForce (joinMode true reported file) = ⟨false, false, (inForce file).idleMuteMin, none⟩ := by
      rw [← idle]
      rfl
    rw [written]
    cases force : inForce file
    simp [JoinKeeps, force, eq_comm]
  | false =>
    cases reported with
    | some mode => simp [JoinKeeps, joinMode, inForce, readModeState]
    -- Nothing was reported, so the file goes.
    | none =>
      have removed : inForce (joinMode false none file) = .unset := rfl
      simp [JoinKeeps, removed, eq_comm]

/-- A command that is applied puts in force what it carries and its time. -/
theorem command_puts {command : ModeCommand} {published : Bool} {force : OwnerForce}
    (same : inForce file = force) :
    inForce (takeModeStep asyncOnly moment file (.command command published))
      = ownerAction asyncOnly moment file force (.command command published) := by
  simp only [takeModeStep, ownerAction]
  by_cases stale : staleCommand file command = true
  · simp [intakeMode, stale, same]
  · rw [Bool.not_eq_true] at stale
    cases ran : intakeMode asyncOnly moment command published file with
    | none => simp [same]
    | some after =>
      simp only [intakeMode, stale, Bool.false_eq_true, if_false] at ran
      rw [Option.getD_some, inForce_applyListeningMode ran, same]
      simp [stale]

/-- Archiving puts itself in force where it is applied. -/
theorem archive_puts {archived : Bool} {force : OwnerForce} (same : inForce file = force) :
    inForce ((applyArchived moment archived file).getD file)
      = if (applyArchived moment archived file).isSome then { force with archived } else force := by
  cases ran : applyArchived moment archived file with
  | none => simp [same]
  | some after => simp [inForce_applyArchived ran, same]

end

/-! ## Whole runs -/

/-- Until a join drops it, everything the owner put in force last is in force. -/
theorem ModeRun.inForce_eq {asyncOnly : Bool} {force : OwnerForce} {file : ModeFile}
    (run : ModeRun asyncOnly (JoinKeeps asyncOnly) force file) : inForce file = force := by
  -- One step of the run after the other: each has a lemma that says what it puts in force.
  induction run with
  | start => rfl
  | @step force file step before moment permitted ih =>
    cases step with
    | command command published => exact command_puts ih
    | archive archived => exact archive_puts ih
    | setMode mode input published => exact setMode_keeps.1.trans ih
    | idleMute lastHumanAt joinedAt reason published => exact idleMute_keeps.1.trans ih
    | joinMode reported => exact (joinMode_keeps.mpr permitted).trans ih
    | joinArchived archived =>
      -- A join that tells nothing of the archive changes nothing.
      cases archived with
      | none => exact ih
      | some flag =>
        cases asyncOnly with
        | true => exact ih
        | false => simpa [takeModeStep, joinArchived, ownerAction] using archive_puts ih

/-- In every run in which no join drops anything, what the owner put in force last is in force; a
step of the agent keeps it exactly when it is no join that drops something; and while the lock or
the archive flag is in force no mode change of the agent has an effect. -/
theorem owner_in_force {asyncOnly : Bool} {force : OwnerForce} {file : ModeFile}
    (run : ModeRun asyncOnly (JoinKeeps asyncOnly) force file) :
    inForce file = force
      ∧ (∀ moment step, step.ofAgent = true →
          (inForce (takeModeStep asyncOnly moment file step) = inForce file
            ↔ JoinKeeps asyncOnly file step))
      ∧ (force.locked = true ∨ force.archived = true →
          ∀ moment mode input published,
            takeModeStep asyncOnly moment file (.setMode mode input published) = file)
      ∧ (force.locked = true ∨ force.archived = true →
        ∀ moment lastHumanAt joinedAt reason published,
          takeModeStep asyncOnly moment file (.idleMute lastHumanAt joinedAt reason published)
            = file) := by
  have same := run.inForce_eq
  refine ⟨same, ?_, fun held _ _ _ _ => setMode_keeps.2 (same ▸ held), fun held _ _ _ _ _ =>
    idleMute_keeps.2 (same ▸ held)⟩
  -- An agent's step leaves what is in force, except for a join that reports otherwise.
  intro moment step agent
  cases step with
  | command command published => cases agent
  | archive archived => cases agent
  | joinArchived archived => cases agent
  | setMode mode input published => exact ⟨fun _ => trivial, fun _ => setMode_keeps.1⟩
  | idleMute lastHumanAt joinedAt reason published =>
    exact ⟨fun _ => trivial, fun _ => idleMute_keeps.1⟩
  | joinMode reported => exact joinMode_keeps

/-- A command that locks the mode and sets a timeout. -/
private def lockingCommand : ModeCommand := ⟨lit "$lock", 1, .sync, some true, some .day⟩

/-- An agent whose session reports modes stays locked across a restart. -/
theorem owner_in_force_rejoined :
    inForce (joinMode false (some .steer) (some (modeRecord (readModeState none) .sync
      ⟨.owner, none, some (lit "$lock"), some 1, some true, some .day, false, false⟩ 5)))
      = ⟨false, true, .day, some 1⟩ := by
  have locked :
    ModeRun false (JoinKeeps false) ⟨false, true, .day, some 1⟩
    (some (modeRecord (readModeState none) .sync
      ⟨.owner, none, some (lit "$lock"), some 1, some true, some .day, false, false⟩ 5)) :=
    @ModeRun.step false _ _ _ (.command lockingCommand true) .start ⟨5, true⟩ trivial
  have rejoined : ModeRun false (JoinKeeps false) _ _ :=
    @ModeRun.step false _ _ _ (.joinMode (some .steer)) locked ⟨6, true⟩ (Or.inl rfl)
  exact (owner_in_force rejoined).1

/-- The join of a harness that only listens asynchronously drops the owner's lock. -/
theorem lock_lost_at_join :
    ¬ ∀ {asyncOnly : Bool} {force : OwnerForce} {file : ModeFile},
      ModeRun asyncOnly (fun _ _ => True) force file → inForce file = force := by
  intro always
  have locked :=
    @ModeRun.step true (fun _ _ => True) _ _ (.command lockingCommand true) .start ⟨5, true⟩ trivial
  have rejoined :=
    @ModeRun.step true (fun _ _ => True) _ _ (.joinMode none) locked ⟨6, true⟩ trivial
  exact absurd (always rejoined) (by decide)

end Khala
