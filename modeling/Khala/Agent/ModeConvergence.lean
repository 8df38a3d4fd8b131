import Khala.Agent.ListeningMode
import Mathlib.Data.List.Pairwise
import Mathlib.Order.Defs.LinearOrder
import Mathlib.Tactic.Common

/-! When owner mode commands leave the same settings behind in whatever order they arrive. -/

namespace Khala

open Js

/-- One time an agent handles a command: whether the mode could be published, and the clock. -/
structure Handling where
  command : ModeCommand
  published : Bool
  now : Int

/-- The agent handles commands one after another, and its inbox takes every skip. -/
def handleAll (asyncOnly : Bool) (file : ModeFile) (history : List Handling) : ModeFile :=
  history.foldl (fun file handling =>
    (intakeMode asyncOnly ⟨handling.now, true⟩ handling.command handling.published file).getD file)
      file

/-- What the owner's commands decide. -/
structure OwnerSettings where
  mode : ListeningMode
  locked : Bool
  idleMuteMin : IdleMuteMinutes
deriving DecidableEq, Repr

def ownerSettings (file : ModeFile) : OwnerSettings :=
  let state := readModeState file
  ⟨state.mode, state.locked, state.idleMuteMin⟩

/-- The settings after a command that is applied. -/
def OwnerSettings.after (asyncOnly : Bool) (settings : OwnerSettings) (command : ModeCommand) :
    OwnerSettings where
  mode := if asyncOnly && command.mode != .mute then .async else command.mode
  locked := command.locked.getD settings.locked
  idleMuteMin := command.idleMuteMin.getD settings.idleMuteMin

/-- The commands that are handled before every newer one, each at its first time. -/
def inTime : (newest : Option Int) → List ModeCommand → List ModeCommand
  | _, [] => []
  | newest, command :: rest =>
    if newest.any (command.ts ≤ ·) then inTime newest rest
      else command :: inTime (some command.ts) rest

/-- The commands that a file does not already stand for. -/
def awaited (file : ModeFile) (commands : List ModeCommand) : List ModeCommand :=
  commands.filter fun command => !staleCommand file command

/-- What the commands with a field leave behind: the newest of them that carries it. -/
def lastCarried {α : Type} (field : ModeCommand → Option α) (initial : α)
    (commands : List ModeCommand) : α :=
  commands.foldl (fun value command => (field command).getD value) initial

/-- The newest command that carries a field is handled before every newer command, or carries the
value that the commands in time leave behind anyway. -/
def FieldInTime {α : Type} (field : ModeCommand → Option α) (initial : α)
    (commands history : List ModeCommand) : Prop :=
  ∀ command ∈ commands, ∀ value, field command = some value →
    (∀ newer ∈ commands, command.ts < newer.ts → field newer = none) →
      command ∈ inTime none history ∨ value = lastCarried field initial (inTime none history)

/-- Neither the lock nor the listener timeout of a newest command comes too late to count. -/
def SettingsInTime (file : ModeFile) (commands history : List ModeCommand) : Prop :=
  FieldInTime (·.locked) (ownerSettings file).locked (awaited file commands) (awaited file history)
    ∧ FieldInTime (·.idleMuteMin) (ownerSettings file).idleMuteMin (awaited file commands)
      (awaited file history)

/-- The id that a file holds belongs to the command of the time it holds. -/
def KnowsCommands (file : ModeFile) (commands : List ModeCommand) : Prop :=
  ∀ command ∈ commands, ∀ record ∈ file, record.eventId = some command.eventId →
    record.eventTs = some command.ts

/-! ## One command -/

section

variable {asyncOnly : Bool} {file : ModeFile} {handling : Handling}

/-- A stale command changes nothing. -/
theorem handle_stale (stale : staleCommand file handling.command = true) :
    intakeMode asyncOnly ⟨handling.now, true⟩ handling.command handling.published file
      = some file := by
  simp [intakeMode, stale]

/-- Any other command is applied and leaves its id and time. -/
theorem handle_fresh (fresh : staleCommand file handling.command = false) :
    ∃ record, intakeMode asyncOnly ⟨handling.now, true⟩ handling.command handling.published file
      = some (some record)
      ∧ record.eventId = some handling.command.eventId ∧ record.eventTs = some handling.command.ts
      ∧ ownerSettings (some record) = (ownerSettings file).after asyncOnly handling.command := by
  refine ⟨modeRecord (readModeState file)
    ((ownerSettings file).after asyncOnly handling.command).mode
    ⟨.owner, none, some handling.command.eventId, some handling.command.ts, handling.command.locked,
      handling.command.idleMuteMin, !handling.published, false⟩ handling.now, ?_, rfl, rfl, ?_⟩
  · simp only [intakeMode, fresh, Bool.false_eq_true, if_false, applyListeningMode, Bool.not_true,
      Bool.and_false]
    rfl
  -- A lock or a timeout that is not sent is inherited from what was read.
  simp only [ownerSettings, readModeState, modeRecord, OwnerSettings.after, Option.getD_some]
  congr 1
  · cases handling.command.locked with
    | some locked => cases locked <;> rfl
    | none => by_cases locked : (file.getD .empty).locked = some true <;> simp [locked]
  · cases handling.command.idleMuteMin with
    | some idle => rfl
    | none =>
      by_cases default : (file.getD .empty).idleMuteMin.getD .hour = .hour
      · simp [default]
      · simp [default]

end

/-- Applying a command again changes no setting. -/
theorem OwnerSettings.after_twice (asyncOnly : Bool) (settings : OwnerSettings)
    (command : ModeCommand) :
    (settings.after asyncOnly command).after asyncOnly command
      = settings.after asyncOnly command := by
  simp only [OwnerSettings.after, OwnerSettings.mk.injEq, true_and]
  constructor
  · cases command.locked <;> rfl
  · cases command.idleMuteMin <;> rfl

/-! ## All commands -/

section

variable {asyncOnly : Bool} {start : ModeFile} {commands : List ModeCommand}

/-- What a file remembers of the commands that were handled: nothing yet, or the newest of them. -/
structure Remembers (start : ModeFile) (newest : Option ModeCommand) (file : ModeFile) : Prop where
  untouched : newest = none → file = start
  stamped : ∀ command, newest = some command →
    ∃ record, file = some record ∧ record.eventId = some command.eventId
      ∧ record.eventTs = some command.ts

/-- A command that the first file already stands for is never applied. -/
private theorem stale_of_stale (known : KnowsCommands start commands)
    (times : ∀ a ∈ commands, ∀ b ∈ commands, a.ts = b.ts → a = b) {newest : Option ModeCommand}
    {file : ModeFile} (remembers : Remembers start newest file)
    (fromCommands : ∀ command, newest = some command → command ∈ commands
      ∧ staleCommand start command = false)
    {command : ModeCommand} (member : command ∈ commands)
    (stale : staleCommand start command = true) :
    staleCommand file command = true := by
  cases newest with
  | none => rw [remembers.untouched rfl]; exact stale
  | some latest =>
    obtain ⟨inside, live⟩ := fromCommands latest rfl
    obtain ⟨record, rfl, -, stamp⟩ := remembers.stamped latest rfl
    cases start with
    | none => simp [staleCommand] at stale
    | some first =>
      -- The first file's command time lies between the two.
      obtain ⟨ts, held, order⟩ : ∃ ts, first.eventTs = some ts ∧ command.ts ≤ ts := by
        simp only [staleCommand, Option.any_some, Bool.or_eq_true, Bool.and_eq_true, beq_iff_eq]
          at stale
        rcases stale with ⟨same, -⟩ | below
        · exact ⟨command.ts, known command member first rfl same, le_rfl⟩
        · cases held : first.eventTs with
          | none => simp [held] at below
          | some ts => exact ⟨ts, rfl, le_of_lt (by simpa [held] using below)⟩
      have least : ts ≤ latest.ts := by
        simp only [staleCommand, Option.any_some, Bool.or_eq_false_iff] at live
        simpa [held] using live.2
      have strict : command.ts ≠ latest.ts := by
        intro same
        rw [times command member latest inside same] at stale
        rw [stale] at live
        cases live
      have less : command.ts < latest.ts := lt_of_le_of_ne (order.trans least) strict
      simp [staleCommand, stamp, less]

/-- Handling a history applies exactly the awaited commands that come in time. -/
private theorem handleAll_settings (known : KnowsCommands start commands)
    (times : ∀ a ∈ commands, ∀ b ∈ commands, a.ts = b.ts → a = b)
    (ids : ∀ a ∈ commands, ∀ b ∈ commands, a.eventId = b.eventId → a = b) (history : List Handling)
    (inside : ∀ handling ∈ history, handling.command ∈ commands) {newest : Option ModeCommand}
    {file : ModeFile} (remembers : Remembers start newest file)
    (fromCommands : ∀ command, newest = some command → command ∈ commands
      ∧ staleCommand start command = false)
    (applied : ∀ command, newest = some command →
      (ownerSettings file).after asyncOnly command = ownerSettings file) :
    ownerSettings (handleAll asyncOnly file history)
      = (inTime (newest.map (·.ts)) (awaited start (history.map (·.command)))).foldl
          (OwnerSettings.after asyncOnly) (ownerSettings file) := by
  -- The file remembers the newest command, so the induction carries that command along.
  induction history generalizing newest file with
  | nil => rfl
  | cons handling rest ih =>
    obtain ⟨member, others⟩ := List.forall_mem_cons.mp inside
    have unfolded : handleAll asyncOnly file (handling :: rest)
        = handleAll asyncOnly
          ((intakeMode asyncOnly ⟨handling.now, true⟩ handling.command handling.published
            file).getD file)
            rest := rfl
    rw [unfolded, List.map_cons]
    cases dead : staleCommand start handling.command with
    | true =>
      -- The first file already stood for the command.
      have stale := stale_of_stale known times remembers fromCommands member dead
      have skipped : awaited start (handling.command :: rest.map (·.command))
        = awaited start (rest.map (·.command)) := by
        simp [awaited, dead]
      rw [handle_stale stale, Option.getD_some, skipped]
      exact ih others remembers fromCommands applied
    | false =>
      have kept : awaited start (handling.command :: rest.map (·.command))
          = handling.command :: awaited start (rest.map (·.command)) := by simp [awaited, dead]
      rw [kept, inTime]
      by_cases late : ∃ latest, newest = some latest ∧ handling.command.ts ≤ latest.ts
      · -- The command is not newer than the newest one: it is dropped, or applied once more.
        obtain ⟨latest, rfl, order⟩ := late
        rw [if_pos (by simpa using order)]
        obtain ⟨record, rfl, id, stamp⟩ := remembers.stamped latest rfl
        -- A command that was handled before is dropped.
        by_cases again : staleCommand (some record) handling.command = true
        · rw [handle_stale again, Option.getD_some]
          exact ih others remembers fromCommands applied
        · rw [Bool.not_eq_true] at again
          have same : handling.command = latest := by
            refine times _ member _ (fromCommands latest rfl).1 (le_antisymm order ?_)
            simp only [staleCommand, Option.any_some, Bool.or_eq_false_iff, stamp] at again
            simpa using again.2
          obtain ⟨next, ran, nextId, nextTs, settled⟩ := @handle_fresh asyncOnly _ _ again
          have unchanged : ownerSettings (some next) = ownerSettings (some record) := by
            rw [settled, same]; exact applied latest rfl
          rw [ran, Option.getD_some, ← unchanged]
          -- It is the newest command once more, and changes nothing.
          have still : Remembers start (some latest) (some next) := by
            refine ⟨fun absent => absurd absent (Option.some_ne_none _), ?_⟩
            rintro command ⟨⟩
            exact ⟨next, rfl, same ▸ nextId, same ▸ nextTs⟩
          refine ih others still fromCommands ?_
          rintro command ⟨⟩
          rw [unchanged]; exact applied latest rfl
      · -- The command is newer than everything handled so far.
        have newer : ∀ latest, newest = some latest → latest.ts < handling.command.ts := by
          intro latest is
          exact lt_of_not_ge fun order => late ⟨latest, is, order⟩
        have fresh : staleCommand file handling.command = false := by
          cases newest with
          | none => rw [remembers.untouched rfl]; exact dead
          | some latest =>
            obtain ⟨record, rfl, id, stamp⟩ := remembers.stamped latest rfl
            have less := newer latest rfl
            have differs : latest.eventId ≠ handling.command.eventId := by
              intro same
              rw [ids _ (fromCommands latest rfl).1 _ member same] at less
              exact lt_irrefl _ less
            simp [staleCommand, id, stamp, differs, le_of_lt less]
        -- It is applied, and the file remembers it as the newest.
        obtain ⟨next, ran, nextId, nextTs, settled⟩ := @handle_fresh asyncOnly _ _ fresh
        have past : ((newest.map (·.ts)).any (handling.command.ts ≤ ·)) = false := by
          cases newest with
          | none => rfl
          | some latest => simpa using newer latest rfl
        rw [ran, Option.getD_some, if_neg (by simp [past]), List.foldl_cons, ← settled]
        have stamped : Remembers start (some handling.command) (some next) := by
          refine ⟨fun absent => absurd absent (Option.some_ne_none _), ?_⟩
          rintro command ⟨⟩
          exact ⟨next, rfl, nextId, nextTs⟩
        refine ih others stamped ?_ ?_
        · rintro command ⟨⟩
          exact ⟨member, dead⟩
        · rintro command ⟨⟩
          rw [settled]; exact OwnerSettings.after_twice _ _ _

end

/-! ## Commands in time -/

/-- The commands in time are some of the history. -/
theorem inTime_sublist (newest : Option Int) (history : List ModeCommand) :
    (inTime newest history).Sublist history := by
  induction history generalizing newest with
  | nil => exact List.Sublist.slnil
  | cons command rest ih =>
    rw [inTime]
    split
    · exact (ih newest).cons command
    · exact (ih _).cons_cons command

/-- The commands in time are ever newer. -/
theorem inTime_increasing (newest : Option Int) (history : List ModeCommand) :
    (inTime newest history).Pairwise (·.ts < ·.ts) ∧ ∀ command ∈ inTime newest history,
      newest.all (· < command.ts) := by
  -- The induction is on the history, with the newest command in force so far.
  induction history generalizing newest with
  | nil => simp [inTime]
  | cons command rest ih =>
    rw [inTime]
    split
    -- A command that is not newer is dropped.
    · exact ih newest
    -- A newer one comes first, and all later ones lie above it.
    · rename_i past
      obtain ⟨ordered, above⟩ := ih (some command.ts)
      simp only [Option.all_some, decide_eq_true_eq] at above
      refine ⟨List.pairwise_cons.mpr ⟨above, ordered⟩, ?_⟩
      cases newest with
      | none => simp
      | some top =>
        have next : top < command.ts := by simpa using past
        simp only [Option.all_some, decide_eq_true_eq, List.mem_cons, forall_eq_or_imp]
        exact ⟨next, fun later inside => next.trans (above later inside)⟩

/-- No command is newer than all that were in time. -/
theorem inTime_covers (newest : Option Int) (history : List ModeCommand) :
    ∀ command ∈ history, newest.any (command.ts ≤ ·) = true ∨ ∃ later ∈ inTime newest history,
      command.ts ≤ later.ts := by
  -- The same induction: each command is dropped, kept, or covered by a later one.
  induction history generalizing newest with
  | nil => simp
  | cons first rest ih =>
    intro command member
    rw [inTime]
    rcases List.mem_cons.mp member with rfl | inside
    -- It is dropped because a newer one was in force.
    · by_cases past : newest.any (command.ts ≤ ·) = true
      · exact Or.inl past
      · rw [if_neg past]
        exact Or.inr ⟨command, by simp, le_rfl⟩
    -- It comes later, and then only the newest so far matters.
    · by_cases past : newest.any (first.ts ≤ ·) = true
      · rw [if_pos past]
        exact ih newest command inside
      · rw [if_neg past]
        rcases ih (some first.ts) command inside with below | ⟨later, among, order⟩
        · exact Or.inr ⟨first, by simp, by simpa using below⟩
        · exact Or.inr ⟨later, List.mem_cons_of_mem _ among, order⟩

/-- Commands that come in the order of their times are all in time. -/
theorem inTime_ordered {commands : List ModeCommand} (ordered : commands.Pairwise (·.ts < ·.ts)) :
    ∀ newest, (∀ command ∈ commands, newest.all (· < command.ts)) →
    inTime newest commands = commands := by
  induction commands with
  | nil => intros; rfl
  | cons command rest ih =>
    intro newest above
    obtain ⟨first, others⟩ := List.pairwise_cons.mp ordered
    have past : newest.any (command.ts ≤ ·) = false := by
      cases newest with
      | none => rfl
      | some top => simpa using above command (by simp)
    rw [inTime, if_neg (by simp [past]), ih others (some command.ts) (by simpa using first)]

/-- Commands of an ordered list have different times. -/
private theorem ne_of_mem_pairwise {commands : List ModeCommand}
    (ordered : commands.Pairwise (·.ts < ·.ts)) {a b : ModeCommand} (inA : a ∈ commands)
    (inB : b ∈ commands) (apart : a ≠ b) : a.ts ≠ b.ts := by
  have different : commands.Pairwise fun a b => a.ts ≠ b.ts := ordered.imp fun less => ne_of_lt less
  have symmetric : Std.Symm fun a b : ModeCommand => a.ts ≠ b.ts := ⟨fun _ _ differ => differ.symm⟩
  exact different.forall inA inB apart

section

variable {α : Type} {field : ModeCommand → Option α} {initial : α}

/-- A later command's value comes before an earlier one's. -/
theorem lastCarried_cons (command : ModeCommand) (rest : List ModeCommand) :
    lastCarried field initial (command :: rest) = lastCarried field
      ((field command).getD initial) rest := rfl

/-- Without a command that carries the field nothing changes. -/
theorem lastCarried_of_none {commands : List ModeCommand}
    (bare : ∀ command ∈ commands, field command = none) :
    lastCarried field initial commands = initial := by
  induction commands with
  | nil => rfl
  | cons command rest ih =>
    obtain ⟨first, others⟩ := List.forall_mem_cons.mp bare
    rw [lastCarried_cons, first, Option.getD_none, ih others]

/-- The newest command that carries the field decides. -/
theorem lastCarried_of_newest {commands : List ModeCommand}
    (ordered : commands.Pairwise (·.ts < ·.ts)) {command : ModeCommand}
    (member : command ∈ commands) {value : α} (carries : field command = some value)
    (newest : ∀ newer ∈ commands, command.ts < newer.ts → field newer = none) :
    lastCarried field initial commands = value := by
  induction commands generalizing initial with
  | nil => cases member
  | cons first rest ih =>
    obtain ⟨before, others⟩ := List.pairwise_cons.mp ordered
    rw [lastCarried_cons]
    rcases List.mem_cons.mp member with rfl | inside
    · rw [carries, Option.getD_some]
      exact lastCarried_of_none fun later among => newest later (List.mem_cons_of_mem _ among)
        (before later among)
    · exact ih others inside fun newer among => newest newer (List.mem_cons_of_mem _ among)

/-- Some command is the newest to carry the field, unless none does. -/
theorem exists_newest {commands : List ModeCommand} (ordered : commands.Pairwise (·.ts < ·.ts)) :
    (∀ command ∈ commands, field command = none) ∨ ∃ command ∈ commands, ∃ value,
      field command = some value
      ∧ ∀ newer ∈ commands, command.ts < newer.ts → field newer = none := by
  -- The induction is on the commands; the later ones come first as newer.
  induction commands with
  | nil => exact Or.inl (by simp)
  | cons first rest ih =>
    obtain ⟨before, others⟩ := List.pairwise_cons.mp ordered
    rcases ih others with bare | ⟨command, inside, value, carries, newest⟩
    -- None of the later ones carries the field, so it is this one or none.
    · cases carried : field first with
      | none => exact Or.inl (List.forall_mem_cons.mpr ⟨carried, bare⟩)
      | some value =>
        refine Or.inr ⟨first, by simp, value, carried,
          List.forall_mem_cons.mpr ⟨fun self => absurd self (lt_irrefl _), ?_⟩⟩
        exact fun newer among _ => bare newer among
    -- A later one carries it, and it is newer than the first.
    · refine Or.inr ⟨command, List.mem_cons_of_mem _ inside, value, carries,
        List.forall_mem_cons.mpr ⟨?_, newest⟩⟩
      exact fun newer => absurd (newer.trans (before command inside)) (lt_irrefl _)

/-- The same value is left behind exactly when the newest command with the field does not come too
late. -/
theorem lastCarried_eq_iff {commands history : List ModeCommand}
    (ordered : commands.Pairwise (·.ts < ·.ts))
    (covers : ∀ command, command ∈ history ↔ command ∈ commands) :
    lastCarried field initial (inTime none history) = lastCarried field initial commands
      ↔ FieldInTime field initial commands history := by
  have among : ∀ command ∈ inTime none history, command ∈ commands := fun command inside =>
    (covers command).mp ((inTime_sublist none history).subset inside)
  rcases @exists_newest _ field _ ordered with bare | ⟨command, member, value, carries, newest⟩
  · -- No command carries the field at all.
    rw [lastCarried_of_none bare, lastCarried_of_none fun command inside =>
      bare command (among command inside)]
    refine ⟨fun _ command member value carries => ?_, fun _ => rfl⟩
    rw [bare command member] at carries
    cases carries
  · rw [lastCarried_of_newest ordered member carries newest]
    constructor
    · intro same other inside value' carries' newest'
      -- Only one command is the newest to carry the field.
      obtain rfl : other = command := by
        rcases lt_trichotomy other.ts command.ts with less | equal | more
        · rw [newest' command member less] at carries
          cases carries
        · by_contra apart
          exact absurd equal (ne_of_mem_pairwise ordered inside member apart)
        · rw [newest other inside more] at carries'
          cases carries'
      rw [carries] at carries'
      cases carries'
      exact Or.inr same.symm
    · intro inTime_
      rcases inTime_ command member value carries newest with timely | same
      · exact lastCarried_of_newest (inTime_increasing none history).1 timely carries
          fun newer inside => newest newer (among newer inside)
      · exact same.symm

end

/-! ## Convergence -/

/-- The settings that commands leave behind, field by field. -/
theorem foldl_after (asyncOnly : Bool) (settings : OwnerSettings) (commands : List ModeCommand) :
    commands.foldl (OwnerSettings.after asyncOnly) settings
      = ⟨(commands.getLast?.map fun command =>
        (settings.after asyncOnly command).mode).getD settings.mode,
          lastCarried (·.locked) settings.locked commands,
            lastCarried (·.idleMuteMin) settings.idleMuteMin commands⟩ := by
  induction commands generalizing settings with
  | nil => rfl
  | cons command rest ih =>
    rw [List.foldl_cons, ih]
    congr 1
    cases rest with
    | nil => rfl
    | cons next others =>
      obtain ⟨final, ends⟩ : ∃ final, (next :: others).getLast? = some final :=
        ⟨_, List.getLast?_eq_some_getLast (List.cons_ne_nil _ _)⟩
      simp [List.getLast?_cons_cons, ends, OwnerSettings.after]

/-- Whatever comes first, the newest command is in time and the last to be so. -/
theorem getLast?_inTime {commands history : List ModeCommand}
    (ordered : commands.Pairwise (·.ts < ·.ts))
    (covers : ∀ command, command ∈ history ↔ command ∈ commands) :
    (inTime none history).getLast? = commands.getLast? := by
  have among : ∀ command ∈ inTime none history, command ∈ commands := fun command inside =>
    (covers command).mp ((inTime_sublist none history).subset inside)
  have apart : ∀ {a b}, a ∈ commands → b ∈ commands → a.ts = b.ts → a = b := fun inA inB same =>
    by_contra fun differ => ne_of_mem_pairwise ordered inA inB differ same
  -- The last command of an increasing list is its newest one.
  have newest : ∀ {list : List ModeCommand} {last}, list.Pairwise (·.ts < ·.ts) →
    list.getLast? = some last →
      last ∈ list ∧ ∀ command ∈ list, command.ts ≤ last.ts := by
    intro list last increasing ends
    obtain ⟨before, rfl⟩ := List.getLast?_eq_some_iff.mp ends
    refine ⟨by simp, fun command inside => ?_⟩
    rcases List.mem_append.mp inside with earlier | final
    · exact le_of_lt ((List.pairwise_append.mp increasing).2.2 command earlier last (by simp))
    · rw [List.mem_singleton.mp final]
  cases ends : commands.getLast? with
  | none =>
    have empty : commands = [] := List.getLast?_eq_none_iff.mp ends
    rw [List.getLast?_eq_none_iff]
    exact List.eq_nil_iff_forall_not_mem.mpr
      fun command inside => by simpa [empty] using among command inside
  | some last =>
    obtain ⟨inside, top⟩ := newest ordered ends
    rcases inTime_covers none history last ((covers last).mpr inside)
      with below | ⟨later, timely, order⟩
    · cases below
    · cases final : (inTime none history).getLast? with
      | none => rw [List.getLast?_eq_none_iff.mp final] at timely; cases timely
      | some end_ =>
        obtain ⟨timelyEnd, topEnd⟩ := newest (inTime_increasing none history).1 final
        have upper := top end_ (among end_ timelyEnd)
        have lower := order.trans (topEnd later timely)
        rw [apart (among end_ timelyEnd) inside (le_antisymm upper lower)]

/-- An agent that handles owner commands in any order and any number of times ends with the mode,
the lock and the listener timeout of handling each once in the order of their times exactly when no
newest lock or timeout comes too late to count. -/
theorem commands_converge_iff {asyncOnly : Bool} {start : ModeFile} {commands : List ModeCommand}
    {history reference : List Handling} (ordered : commands.Pairwise (·.ts < ·.ts))
    (ids : (commands.map (·.eventId)).Nodup) (known : KnowsCommands start commands)
    (covers : ∀ command, command ∈ history.map (·.command) ↔ command ∈ commands)
    (once : reference.map (·.command) = commands) :
    ownerSettings (handleAll asyncOnly start history)
      = ownerSettings (handleAll asyncOnly start reference)
      ↔ SettingsInTime start commands (history.map (·.command)) := by
  -- Times and identifiers both tell the commands apart.
  have times : ∀ a ∈ commands, ∀ b ∈ commands, a.ts = b.ts → a = b := fun a inA b inB same =>
    by_contra fun differ => ne_of_mem_pairwise ordered inA inB differ same
  have names : ∀ a ∈ commands, ∀ b ∈ commands, a.eventId = b.eventId → a = b := fun a inA b inB =>
    List.inj_on_of_nodup_map ids inA inB
  have untouched : Remembers start none start :=
    ⟨fun _ => rfl, fun _ absent => absurd absent (by simp)⟩
  -- Handling a list leaves the settings that its commands in time give one after the other.
  have result : ∀ list : List Handling, (∀ handling ∈ list, handling.command ∈ commands) →
      ownerSettings (handleAll asyncOnly start list)
        = (inTime none (awaited start (list.map (·.command)))).foldl
        (OwnerSettings.after asyncOnly) (ownerSettings start) := fun list inside =>
    handleAll_settings known times names list inside untouched (by simp) (by simp)
  have handled : ∀ handling ∈ history, handling.command ∈ commands := fun handling inside =>
    (covers _).mp (List.mem_map_of_mem inside)
  have referred : ∀ handling ∈ reference, handling.command ∈ commands := fun handling inside =>
    once ▸ List.mem_map_of_mem inside
  have awaitedOrdered : (awaited start commands).Pairwise (·.ts < ·.ts) := ordered.filter _
  -- Both histories handle the same commands, so they wait for the same ones.
  have awaitedCovers : ∀ command, command ∈ awaited start (history.map (·.command))
    ↔ command ∈ awaited start commands := by
    intro command
    simp only [awaited, List.mem_filter, covers command]
  -- In their own order all of the commands are in time.
  have all : inTime none (awaited start commands) = awaited start commands :=
    inTime_ordered awaitedOrdered none (by simp)
  -- So the settings agree exactly when each field has the same last value on both sides.
  rw [result history handled, result reference referred, once, all, foldl_after, foldl_after,
    getLast?_inTime awaitedOrdered awaitedCovers, OwnerSettings.mk.injEq, SettingsInTime,
    ← lastCarried_eq_iff awaitedOrdered awaitedCovers,
      ← lastCarried_eq_iff awaitedOrdered awaitedCovers]
  simp

/-- A command that locks the mode and a newer one that only changes it. -/
private def lockCommand : ModeCommand := ⟨lit "$lock", 1, .sync, some true, none⟩
private def modeCommand : ModeCommand := ⟨lit "$mode", 2, .steer, none, none⟩

/-- In the order of their times both count. -/
theorem commands_converge_ordered :
    ownerSettings (handleAll false none [⟨lockCommand, true, 5⟩, ⟨modeCommand, true, 6⟩,
      ⟨lockCommand, true, 7⟩])
      = ownerSettings (handleAll false none [⟨lockCommand, true, 5⟩, ⟨modeCommand, true, 6⟩]) := by
  have covers : ∀ command, command ∈ [lockCommand, modeCommand, lockCommand]
    ↔ command ∈ [lockCommand, modeCommand] := by
    intro command
    simp only [List.mem_cons, List.not_mem_nil, or_false]
    constructor
    · rintro (lock | mode | lock)
      · exact .inl lock
      · exact .inr mode
      · exact .inl lock
    · rintro (lock | mode)
      · exact .inl lock
      · exact .inr (.inl mode)
  have known : KnowsCommands none [lockCommand, modeCommand] := fun _ _ _ absent =>
    absurd absent (by simp)
  have all : awaited none [lockCommand, modeCommand] = [lockCommand, modeCommand] := rfl
  have timely : inTime none (awaited none [lockCommand, modeCommand, lockCommand])
    = [lockCommand, modeCommand] := rfl
  refine (@commands_converge_iff false none [lockCommand, modeCommand]
    [⟨lockCommand, true, 5⟩, ⟨modeCommand, true, 6⟩,
    ⟨lockCommand, true, 7⟩] [⟨lockCommand, true, 5⟩, ⟨modeCommand, true, 6⟩] (by decide)
      (by decide) known covers rfl).mpr
    ⟨?_, ?_⟩
  · exact fun command member value _ _ => Or.inl (timely.symm ▸ all ▸ member)
  · exact fun command member value _ _ => Or.inl (timely.symm ▸ all ▸ member)

/-- A lock that arrives after a newer command is dropped with its whole command. -/
theorem lock_dropped :
    ¬ ∀ {asyncOnly : Bool} {start : ModeFile} {commands : List ModeCommand}
      {history reference : List Handling},
      commands.Pairwise (·.ts < ·.ts) → (commands.map (·.eventId)).Nodup →
      KnowsCommands start commands →
      (∀ command, command ∈ history.map (·.command) ↔ command ∈ commands) →
      reference.map (·.command) = commands →
      ownerSettings (handleAll asyncOnly start history)
        = ownerSettings (handleAll asyncOnly start reference) := by
  intro always
  have known : KnowsCommands none [lockCommand, modeCommand] := fun _ _ _ absent =>
    absurd absent (by simp)
  have covers : ∀ command, command ∈ [modeCommand, lockCommand]
    ↔ command ∈ [lockCommand, modeCommand] := by
    intro command
    simp [or_comm]
  have same :=
    @always false none [lockCommand, modeCommand] [⟨modeCommand, true, 5⟩, ⟨lockCommand, true, 6⟩]
    [⟨lockCommand, true, 5⟩, ⟨modeCommand, true, 6⟩] (by decide) (by decide) known covers rfl
  exact absurd same (by decide)

end Khala
