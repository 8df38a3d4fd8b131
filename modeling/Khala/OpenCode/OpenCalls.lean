import Khala.OpenCode.HookChanges
import Khala.Concurrent.Log

/-! One delivery and one prompt at a time, and no prompt once somebody was active. -/

namespace Khala.OpenCode

open Js Concurrent

/-! ### Deliveries and prompts that are open -/

namespace Observed

/-- The call that a delivery is called by, or answers. -/
def delivering : Observed → Option Nat
  | .delivers call _ => some call
  | _ => none

def answering : Observed → Option Nat
  | .delivered call _ => some call
  | _ => none

/-- The call that a prompt is sent by, or that it is settled or aborted for. -/
def prompting : Observed → Option Nat
  | .prompts call _ => some call
  | _ => none

def settling : Observed → Option Nat
  | .prompted call _ => some call
  | _ => none

end Observed

/-- The calls whose deliveries have not been answered. -/
def openDelivers (log : List Observed) : List Nat :=
  pending Observed.delivering Observed.answering log

/-- The calls whose prompts are neither settled nor aborted. -/
def openPrompts (log : List Observed) : List Nat := pending Observed.prompting Observed.settling log

/-- Where nothing is called, only answered deliveries are no longer open. -/
theorem openDelivers_append (log : List Observed) {whats : List Observed}
    (none_ : ∀ call input, .delivers call input ∉ whats) :
    (openDelivers (log ++ whats)).Sublist (openDelivers log) ∧
      ∀ call ∈ openDelivers (log ++ whats), ∀ stdout, .delivered call stdout ∉ whats := by
  -- Entries that call nothing can only take calls off what is pending.
  obtain ⟨fewer, unanswered⟩ :=
    pending_append Observed.delivering Observed.answering log fun what there => by
    cases what with
    | delivers call input => exact absurd there (none_ call input)
    | _ => rfl
  exact ⟨fewer, fun call inside stdout there => unanswered call inside _ there rfl⟩

/-- Without a new prompt no more of them are open. -/
theorem openPrompts_append (log : List Observed) {whats : List Observed}
    (none_ : ∀ call parts, .prompts call parts ∉ whats) :
    (openPrompts (log ++ whats)).Sublist (openPrompts log) ∧
      ∀ call ∈ openPrompts (log ++ whats), ∀ accepted, .prompted call accepted ∉ whats := by
  -- Entries that prompt nothing can only take prompts off what is pending.
  obtain ⟨fewer, unsettled⟩ :=
    pending_append Observed.prompting Observed.settling log fun what there => by
    cases what with
    | prompts call parts => exact absurd there (none_ call parts)
    | _ => rfl
  exact ⟨fewer, fun call inside accepted there => unsettled call inside _ there rfl⟩

namespace Session

/-- An open delivery belongs to a call that waits for it, with the entry that `sessions` holds. -/
def Delivering (session : Session) : Prop :=
  ∀ after, after <:+ session.log → Observed.deleted ∉ after → (openDelivers after).length ≤ 1 ∧
    ∀ call ∈ openDelivers after, ∃ wake input, session.wakes call = some wake
      ∧ wake.stage = .delivering input
      ∧ (session.disposed = true ∨ session.current = some wake.state)

/-- An open prompt belongs to a call that waits for it. -/
def Prompting (session : Session) : Prop :=
  (openPrompts session.log).length ≤ 1 ∧
    ∀ call ∈ openPrompts session.log, ∃ wake, session.wakes call = some wake
      ∧ wake.stage = .prompting none

section

variable {session session' : Session}

/-- Without a new delivery none more is under way. -/
theorem Delivering.remains (delivering : Delivering session) (whats : List Observed)
    (log : session'.log = session.log ++ whats) (none_ : ∀ call input, .delivers call input ∉ whats)
    (waits : ∀ call wake input, session.wakes call = some wake → wake.stage = .delivering input →
      session'.wakes call = some wake ∨ ∃ stdout, .delivered call stdout ∈ whats)
    (current : .deleted ∈ whats ∨ ∀ number, session.disposed = true
      ∨ session.current = some number → session'.disposed = true ∨ session'.current = some number) :
    Delivering session' := by
  intro after suffix undeleted
  rw [log] at suffix
  rcases suffix_append suffix with inside | ⟨before, rfl, inside⟩
  · -- Nothing is called in what is new.
    have nothing :=
      (openDelivers_append [] fun call input there => none_ call input (inside.subset there)).1
    rw [List.nil_append] at nothing
    have empty : openDelivers after = [] := List.sublist_nil.mp nothing
    simp [empty]
  -- The suffix reaches into the old log, where the deliveries were open already.
  · obtain ⟨fewer, unanswered⟩ := openDelivers_append before none_
    obtain ⟨one, waiting⟩ := delivering before inside fun there =>
      undeleted (List.mem_append_left _ there)
    refine ⟨Nat.le_trans fewer.length_le one, fun call there => ?_⟩
    obtain ⟨wake, input, is, asks, holds⟩ := waiting call (fewer.subset there)
    rcases waits call wake input is asks with still | ⟨stdout, answered⟩
    · rcases current with gone | keeps
      · exact absurd (List.mem_append_right _ gone) undeleted
      · exact ⟨wake, input, still, asks, keeps _ holds⟩
    · exact absurd answered (unanswered call there stdout)

/-- Without a new prompt none more is under way. -/
theorem Prompting.remains (prompting : Prompting session) (whats : List Observed)
    (log : session'.log = session.log ++ whats) (none_ : ∀ call parts, .prompts call parts ∉ whats)
    (waits : ∀ call wake, session.wakes call = some wake → wake.stage = .prompting none → session'.wakes call = some wake ∨ ∃ accepted, .prompted call accepted ∈ whats) :
    Prompting session' := by
  -- What is open now was open before, and its call has not settled it since.
  obtain ⟨one, waiting⟩ := prompting
  obtain ⟨fewer, unanswered⟩ := openPrompts_append session.log none_
  rw [Prompting, log]
  refine ⟨Nat.le_trans fewer.length_le one, fun call there => ?_⟩
  obtain ⟨wake, is, asks⟩ := waiting call (fewer.subset there)
  rcases waits call wake is asks with still | ⟨accepted, answered⟩
  · exact ⟨wake, still, asks⟩
  · exact absurd answered (unanswered call there accepted)

/-- What a change of one call leaves of the others. -/
theorem update_of_stage {call : Nat} {wake wake' : Wake} (is : session.wakes call = some wake)
    {other : Nat} {found : Wake} (there : session.wakes other = some found) :
    Function.update session.wakes call (some wake') other = some found
      ∨ found = wake ∧ other = call := by
  by_cases same : other = call
  · subst same
    exact .inr ⟨Option.some.inj (there.symm.trans is), rfl⟩
  · exact .inl (by rw [Function.update_of_ne same, there])

/-- Every change keeps one delivery at most. -/
theorem Delivering.change (change : Change session session') (sound : Sound session)
    (delivering : Delivering session) :
    Delivering session' := by
  cases change with
  | make absent =>
    refine delivering.remains [] (List.append_nil _).symm (by simp) (fun _ _ _ is _ => .inl is) (.inr fun number holds => ?_)
    rw [absent] at holds
    exact .inl (holds.resolve_right fun same => by cases same)
  | rest is => exact delivering.remains [] (List.append_nil _).symm (by simp) (fun _ _ _ is _ => .inl is) (.inr fun _ holds => holds)
  | touch is typed => exact delivering.remains _ rfl (by simp) (fun _ _ _ is _ => .inl is) (.inr fun _ holds => holds)
  | ignore ended is =>
    refine delivering.remains _ rfl (fun call input there => ?_) (fun _ _ _ is _ => .inl is)
      (.inr fun _ holds => holds)
    obtain rfl := List.mem_singleton.mp there
    simp at is
  | deliver is alive free few =>
    rename_i number
    intro after suffix undeleted
    rcases List.suffix_concat_iff.mp suffix with rfl | ⟨before, rfl, inside⟩
    -- At the very end nothing is open.
    · simp [openDelivers, pending]
    obtain ⟨-, waiting⟩ := delivering before inside fun there =>
      undeleted (List.mem_append_left _ there)
    -- A delivery that is open would be one of the entry, which no call holds.
    have nothing : openDelivers before = [] := by
      refine List.eq_nil_iff_forall_not_mem.mpr fun call there => ?_
      obtain ⟨wake, input, found, asks, holds⟩ := waiting call there
      rcases holds with ended | own
      · rw [alive] at ended
        cases ended
      · obtain rfl := Option.some.inj (is.symm.trans own)
        rw [sound.inFlight call wake found (by rw [asks]; simp)] at free
        cases free
    rw [openDelivers, pending_concat]
    simp only [Observed.delivering]
    rw [show pending _ _ before = [] from nothing]
    refine ⟨Nat.le_refl 1, fun call there => ?_⟩
    obtain rfl := List.mem_singleton.mp there
    exact ⟨_, _, Function.update_self .., rfl, .inr is⟩
  | fail is asks now =>
    -- Each answer closes the delivery of its own call.
    refine delivering.remains _ rfl (by simp) (fun other found input there asked => ?_)
      (.inr fun _ holds => holds)
    exact (update_of_stage is there).imp_right fun same => ⟨none, by simp [same.2]⟩
  | suppress is asks approval =>
    refine delivering.remains _ rfl (by simp) (fun other found input there asked => ?_)
      (.inr fun _ holds => holds)
    exact (update_of_stage is there).imp_right fun same => ⟨some approval, by simp [same.2]⟩
  | @keep call wake input answer stdout is asks brings =>
    refine delivering.remains _ rfl (by simp) (fun other found input there asked => ?_)
      (.inr fun _ holds => holds)
    exact (update_of_stage is there).imp_right fun same => ⟨some answer, by simp [same.2]⟩
  | @prompt call wake input answer stdout is asks brings some_ alive own untouched =>
    refine delivering.remains [.delivered call (some answer), .prompts call (wakeParts stdout)]
      (List.append_assoc ..) (by simp)
      (fun other found input there asked => ?_) (.inr fun _ holds => holds)
    exact (update_of_stage is there).imp_right fun same => ⟨some answer, by simp [same.2]⟩
  | settle is open_ accepted =>
    refine delivering.remains _ rfl (by simp) (fun other found input there asked => ?_)
      (.inr fun _ holds => holds)
    -- A prompt that is answered was no open delivery.
    exact (update_of_stage is there).imp_right
      fun same => by rw [same.1, open_] at asked; cases asked
  | accepted is ended =>
    refine delivering.remains [] (List.append_nil _).symm (by simp)
      (fun other found input there asked => ?_) (.inr fun _ holds => holds)
    exact (update_of_stage is there).imp_right fun same => by rw [same.1, ended] at asked; cases asked
  | refused is ended now =>
    refine delivering.remains [] (List.append_nil _).symm (by simp) (fun other found input there asked => ?_) (.inr fun _ holds => holds)
    exact (update_of_stage is there).imp_right fun same => by rw [same.1, ended] at asked; cases asked
  | delete alive settled => exact delivering.remains _ rfl (by simp) (fun _ _ _ is _ => .inl is) (.inl (by simp))
  | dispose settled => exact delivering.remains _ rfl (by simp) (fun _ _ _ is _ => .inl is) (.inr fun _ _ => .inl rfl)

/-- Every change keeps one prompt at most. -/
theorem Prompting.change (change : Change session session') (sound : Sound session)
    (prompting : Prompting session) : Prompting session' := by
  cases change with
  | make absent => exact prompting.remains [] (List.append_nil _).symm (by simp) fun _ _ is _ => .inl is
  | rest is => exact prompting.remains [] (List.append_nil _).symm (by simp) fun _ _ is _ => .inl is
  | touch is typed => exact prompting.remains _ rfl (by simp) fun _ _ is _ => .inl is
  | ignore ended is =>
    refine prompting.remains _ rfl (fun call parts there => ?_) fun _ _ is _ => .inl is
    obtain rfl := List.mem_singleton.mp there
    simp at is
  | deliver is alive free few =>
    refine prompting.remains _ rfl (by simp) fun call wake found asks => .inl ?_
    -- The new call has sent no prompt yet.
    exact (Function.update_of_ne (Nat.ne_of_lt (sound.called call wake found)) _ _).trans found
  | fail is asks now =>
    refine prompting.remains _ rfl (by simp) fun other found there asked => ?_
    -- A delivery that ends was no open prompt.
    exact (update_of_stage is there).imp_right
      fun same => by rw [same.1, asks] at asked; cases asked
  | suppress is asks approval =>
    refine prompting.remains _ rfl (by simp) fun other found there asked => ?_
    exact (update_of_stage is there).imp_right
      fun same => by rw [same.1, asks] at asked; cases asked
  | keep is asks brings =>
    refine prompting.remains _ rfl (by simp) fun other found there asked => ?_
    exact (update_of_stage is there).imp_right
      fun same => by rw [same.1, asks] at asked; cases asked
  | @prompt call wake input answer stdout is asks brings some_ alive own untouched =>
    -- A prompt that is open would be one of the same entry, which only this call holds.
    have nothing : openPrompts session.log = [] := by
      refine List.eq_nil_iff_forall_not_mem.mpr fun other there => ?_
      obtain ⟨found, stood, open_⟩ := prompting.2 other there
      have same : found.state = wake.state :=
        Option.some.inj ((sound.prompting other found stood open_).2.1.symm.trans own)
      obtain rfl := sound.single other found call wake stood is (by rw [open_]; simp)
        (by rw [asks]; simp) same
      rw [Option.some.inj (stood.symm.trans is), asks] at open_
      cases open_
    -- The new prompt is the only open one.
    have log : ∀ parts,
      openPrompts (session.log ++ [Observed.delivered call (some answer)]
        ++ [Observed.prompts call parts])
      = [call] := by
      intro parts
      rw [openPrompts, pending_concat, pending_concat]
      simp only [Observed.prompting, Observed.settling]
      rw [show pending _ _ session.log = [] from nothing]
      rfl
    refine ⟨Nat.le_of_eq (congrArg List.length (log _)), fun other there => ?_⟩
    obtain rfl := List.mem_singleton.mp (log _ ▸ there)
    exact ⟨_, Function.update_self .., rfl⟩
  | settle is open_ accepted =>
    refine prompting.remains _ rfl (by simp) fun other found there asked => ?_
    -- The answer closes the prompt of its own call.
    exact (update_of_stage is there).imp_right fun same => ⟨accepted, by simp [same.2]⟩
  | accepted is ended =>
    refine prompting.remains [] (List.append_nil _).symm (by simp) fun other found there asked => ?_
    -- A call that goes on has had its answer.
    exact (update_of_stage is there).imp_right
      fun same => by rw [same.1, ended] at asked; cases asked
  | refused is ended now =>
    refine prompting.remains [] (List.append_nil _).symm (by simp) fun other found there asked => ?_
    exact (update_of_stage is there).imp_right
      fun same => by rw [same.1, ended] at asked; cases asked
  | delete alive settled => exact prompting.remains _ rfl (by simp) fun _ _ is _ => .inl is
  | dispose settled => exact prompting.remains _ rfl (by simp) fun _ _ is _ => .inl is

/-! ### What happens while a delivery is open -/

/-- A call that waits for a delivery knows when it was called, and all that has happened since. -/
structure Called (session : Session) : Prop where
  logged : ∀ call input, .delivers call input ∈ session.log → call < session.called
  asked : ∀ call wake input, session.wakes call = some wake → wake.stage = .delivering input →
    .delivers call input ∈ session.log
  since : ∀ call wake input, session.wakes call = some wake → wake.stage = .delivering input →
    ∀ before input' mid, session.log = before ++ Observed.delivers call input' :: mid →
      input' = input
      ∧ (session.current = some wake.state ∨ .deleted ∈ mid ∨ .disposed ∈ mid)
      ∧ (session.current = some wake.state → .deleted ∉ mid ∧ .disposed ∉ mid)
      ∧ ∀ typed, .touched typed ∈ mid → session.current = some wake.state →
        wake.generation < (session.states wake.state).generation

/-- A prompt is sent on the answer to its delivery, and only if since the call of the delivery
nobody was active and the session was not lost. -/
def Untouched (log : List Observed) : Prop :=
  ∀ before call parts after, log = before ++ Observed.prompts call parts :: after →
    ∃ earlier input mid answer,
    before = earlier ++ Observed.delivers call input
      :: (mid ++ [Observed.delivered call (some answer)])
      ∧ (∀ typed, .touched typed ∉ mid) ∧ .deleted ∉ mid ∧ .disposed ∉ mid

/-- A field of the entries, when something else of one changes. -/
theorem field_update {β : Type} (field : SessionState → β) {number : Nat} {state : SessionState}
    (same : field state = field (session.states number)) (other : Nat) :
    field ((Function.update session.states number state) other) = field (session.states other) := by
  -- Only the one entry is written, and not in this field.
  rw [Function.update_apply]
  split
  · rename_i is
    rw [same, is]
  · rfl

/-- A change that calls no delivery, as the calls that wait see it. -/
theorem Called.remains (called : Called session) (sound : Sound session) (whats : List Observed)
    (log : session'.log = session.log ++ whats) (none_ : ∀ call input, .delivers call input ∉ whats)
    (calls : session'.called = session.called)
    (drops : .deleted ∈ whats ∨ .disposed ∈ whats → ∀ call wake, session.wakes call = some wake →
      session'.current ≠ some wake.state)
    (waits : ∀ call wake input, session'.wakes call = some wake → wake.stage = .delivering input →
      session.wakes call = some wake)
    (current : ∀ number < session.made, session'.current = some number →
      session.current = some number)
    (keeps : ∀ number, session.current = some number → session'.current = some number
      ∨ .deleted ∈ whats ∨ .disposed ∈ whats)
    (grows : ∀ number < session.made,
      (session.states number).generation ≤ (session'.states number).generation)
    (touches : ∀ typed, .touched typed ∈ whats → ∀ call wake, session.wakes call = some wake →
      session'.current = some wake.state →
      (session.states wake.state).generation < (session'.states wake.state).generation) :
    Called session' where
  logged call input there := by
    rw [log] at there
    rw [calls]
    exact called.logged call input ((List.mem_append.mp there).resolve_right (none_ call input))
  asked call wake input is asks := by
    rw [log]
    exact List.mem_append_left _ (called.asked call wake input (waits call wake input is asks) asks)
  since call wake input is asks before input' mid same := by
    rw [log] at same
    -- The delivery was called in the old log, and what is new comes after it.
    obtain ⟨between, rfl, split⟩ := split_append same (none_ call input')
    have stood := waits call wake input is asks
    have made := sound.entries call wake stood
    obtain ⟨right, holds, stays, touched⟩ :=
      called.since call wake input stood asks before input' between split
    refine ⟨right, ?_, fun own => ?_, fun typed there own => ?_⟩
    · rcases holds with own | gone | gone
      · rcases keeps _ own with own' | gone | gone
        · exact .inl own'
        · exact .inr (.inl (List.mem_append_right _ gone))
        · exact .inr (.inr (List.mem_append_right _ gone))
      · exact .inr (.inl (List.mem_append_left _ gone))
      · exact .inr (.inr (List.mem_append_left _ gone))
    · -- Whoever holds the entry now has held it before.
      obtain ⟨undeleted, alive⟩ := stays (current _ made own)
      have none_' : .deleted ∉ whats ∧ .disposed ∉ whats := not_or.mp fun gone =>
        drops gone call wake stood own
      exact ⟨fun there => (List.mem_append.mp there).elim undeleted none_'.1,
        fun there => (List.mem_append.mp there).elim alive none_'.2⟩
    · rcases List.mem_append.mp there with earlier | new
      · exact Nat.lt_of_lt_of_le (touched typed earlier (current _ made own)) (grows _ made)
      · exact Nat.lt_of_le_of_lt (sound.generations call wake stood)
          (touches typed new call wake stood own)

/-- Only a call that waits for a delivery goes on waiting for it. -/
theorem waits_of_update {call : Nat} {wake' : Wake}
    (past : ∀ input, wake'.stage ≠ .delivering input) {other : Nat} {found : Wake}
    {input : IdleInput} (there : Function.update session.wakes call (some wake') other = some found)
    (asks : found.stage = .delivering input) :
    session.wakes other = some found := by
  rw [Function.update_apply] at there
  split at there
  · obtain rfl := Option.some.inj there
    exact absurd asks (past input)
  · exact there

/-- Every change keeps the calls that are under way untouched. -/
theorem Called.change (change : Change session session') (sound : Sound session)
    (called : Called session) : Called session' := by
  cases change with
  | make absent =>
    -- Of a state that is made now nothing was asked before.
    refine called.remains sound [] (List.append_nil _).symm (by simp) rfl (by simp)
      (fun _ _ _ is _ => is) (fun number less is => ?_)
      (fun number is => ?_) (fun number less => ?_) (by simp)
    · exact absurd (Option.some.inj is).symm (Nat.ne_of_lt less)
    · cases absent.symm.trans is
    · simp only [Function.update_of_ne (Nat.ne_of_lt less), Nat.le_refl]
  | rest is =>
    exact called.remains sound [] (List.append_nil _).symm (by simp) rfl (by simp)
      (fun _ _ _ is _ => is) (fun _ _ is => is)
      (fun _ is => .inl is) (fun number _ =>
        Nat.le_of_eq (field_update SessionState.generation (by exact rfl) number).symm) (by simp)
  | @touch number is typed =>
    -- A touch makes the generation larger, which is what marks older attempts.
    refine called.remains sound _ rfl (by simp) rfl (by simp) (fun _ _ _ is _ => is)
      (fun _ _ is => is) (fun _ is => .inl is)
      (fun other _ => ?_) (fun _ _ call wake there own => ?_)
    · rw [put_states]
      split
      · rename_i same
        exact same ▸ Nat.le_succ _
      · exact Nat.le_refl _
    · obtain rfl := Option.some.inj (is.symm.trans own)
      rw [put_states, if_pos rfl]
      exact Nat.lt_succ_self _
  | ignore ended is =>
    refine called.remains sound _ rfl (fun call input there => ?_) rfl (fun _ => sound.ended ended)
      (fun _ _ _ is _ => is) (fun _ _ is => is) (fun _ is => .inl is)
      (fun other _ => Nat.le_refl _)
        (fun _ _ call wake there own => absurd own (sound.ended ended call wake there))
    obtain rfl := List.mem_singleton.mp there
    simp at is
  | @deliver number is alive free few =>
    refine ⟨fun call input there => ?_, fun call wake input there asks =>
      ?_, fun call wake input there asks before input' mid same => ?_⟩
    -- The new call is the last one that is logged, and asks for its input.
    · rcases List.mem_append.mp there with earlier | new
      · exact Nat.lt_succ_of_lt (called.logged call input earlier)
      · simp only [List.mem_singleton, Observed.delivers.injEq] at new
        exact new.1 ▸ Nat.lt_succ_self _
    · simp only [Session.deliver, Function.update_apply] at there
      split at there
      · rename_i self
        obtain rfl := Option.some.inj there
        obtain rfl := Stage.delivering.inj asks
        exact self ▸ List.mem_append_right _ List.mem_cons_self
      · exact List.mem_append_left _ (called.asked call wake input there asks)
    · simp only [Session.deliver, Function.update_apply] at there ⊢
      -- The delivery is the one that is called now, or an earlier one.
      rcases split_last same with ⟨rfl, rfl, what⟩ | ⟨between, rfl, split⟩
      · obtain ⟨rfl, rfl⟩ := Observed.delivers.inj what
        rw [if_pos rfl] at there
        obtain rfl := Option.some.inj there
        exact ⟨Stage.delivering.inj asks, .inl is, fun _ => ⟨List.not_mem_nil, List.not_mem_nil⟩,
          fun typed none_ => by cases none_⟩
      · have old := called.logged call input' (split ▸ List.mem_append_right _ List.mem_cons_self)
        rw [if_neg (Nat.ne_of_lt old)] at there
        obtain ⟨right, holds, stays, touched⟩ :=
          called.since call wake input there asks before input' between split
        refine ⟨right, holds.imp_right fun gone => gone.imp (List.mem_append_left _)
          (List.mem_append_left _),
          fun own => (stays own).imp (fun undeleted => by simpa using undeleted)
            fun alive => by simpa using alive,
          fun typed inside own => ?_⟩
        have less := touched typed ((List.mem_append.mp inside).resolve_right (by simp)) own
        split
        · rename_i entry
          exact entry ▸ less
        · exact less
  | fail is asks now =>
    refine called.remains sound _ rfl (by simp) rfl (by simp)
      (fun _ _ _ there => waits_of_update (by simp) there) (fun _ _ is => is)
      (fun _ is => .inl is) (fun number _ => Nat.le_of_eq ?_) (by simp)
    -- Ending a call leaves all generations as they are.
    rw [Session.fail, finish_put, field_update SessionState.generation (by exact rfl)]
    rfl
  | suppress is asks approval =>
    refine called.remains sound _ rfl (by simp) rfl (by simp)
      (fun _ _ _ there => waits_of_update (by simp) there) (fun _ _ is => is)
      (fun _ is => .inl is) (fun number _ => Nat.le_of_eq ?_) (by simp)
    exact (field_update SessionState.generation (by exact rfl) number).symm
  | keep is asks brings =>
    refine called.remains sound _ rfl (by simp) rfl (by simp)
      (fun _ _ _ there => waits_of_update (by simp) there) (fun _ _ is => is)
      (fun _ is => .inl is) (fun number _ => Nat.le_of_eq ?_) (by simp)
    rw [finish_put]
    exact (field_update SessionState.generation (by exact rfl) number).symm
  | @prompt call wake input answer stdout is asks brings some_ alive own untouched =>
    exact called.remains sound [.delivered call (some answer), .prompts call (wakeParts stdout)]
      (List.append_assoc ..) (by simp) rfl (by simp)
      (fun _ _ _ there => waits_of_update (by simp) there) (fun _ _ is => is) (fun _ is => .inl is)
      (fun number _ =>
        Nat.le_of_eq (field_update SessionState.generation (by exact rfl) number).symm) (by simp)
  | settle is open_ accepted =>
    exact called.remains sound _ rfl (by simp) rfl (by simp)
      (fun _ _ _ there => waits_of_update (by simp) there) (fun _ _ is => is)
      (fun _ is => .inl is) (fun number _ => Nat.le_refl _) (by simp)
  | accepted is ended =>
    refine called.remains sound [] (List.append_nil _).symm (by simp) rfl (by simp)
      (fun _ _ _ there => waits_of_update (by simp) there)
      (fun _ _ is => is) (fun _ is => .inl is) (fun number _ => Nat.le_of_eq ?_) (by simp)
    rw [finish_put]
    exact (field_update SessionState.generation (by exact rfl) number).symm
  | refused is ended now =>
    refine called.remains sound [] (List.append_nil _).symm (by simp) rfl (by simp)
      (fun _ _ _ there => waits_of_update (by simp) there)
      (fun _ _ is => is) (fun _ is => .inl is) (fun number _ => Nat.le_of_eq ?_) (by simp)
    obtain ⟨idle, fails⟩ := fail_put session _ { session.states _ with abort := none } now
    rw [fails, finish_put]
    exact (field_update SessionState.generation (by exact rfl) number).symm
  | delete alive settled =>
    -- No call needs the current state to stay after a deletion.
    exact called.remains sound _ rfl (by simp) rfl (fun _ _ _ _ none_ => by cases none_)
      (fun _ _ _ is _ => is) (fun _ _ none_ => by cases none_)
      (fun _ _ => .inr (.inl (by simp))) (fun _ _ => Nat.le_refl _) (by simp)
  | dispose settled =>
    exact called.remains sound _ rfl (by simp) rfl (fun _ _ _ _ none_ => by cases none_)
      (fun _ _ _ is _ => is) (fun _ _ none_ => by cases none_)
      (fun _ _ => .inr (.inr (by simp))) (fun _ _ => Nat.le_refl _) (by simp)

/-- What a change adds to the log, when it prompts nothing. -/
theorem Change.prompts (change : Change session session') :
    (∃ whats, session'.log = session.log ++ whats ∧ ∀ call parts, .prompts call parts ∉ whats)
      ∨ ∃ call wake input answer stdout, session.wakes call = some wake
        ∧ wake.stage = .delivering input
        ∧ Brings (session.states wake.state).pending input answer stdout
        ∧ session.current = some wake.state
        ∧ (session.states wake.state).generation = wake.generation ∧ wakeParts stdout ≠ []
        ∧ session'.log = session.log ++ [Observed.delivered call (some answer)]
          ++ [Observed.prompts call (wakeParts stdout)] := by
  -- Only one of the changes prompts, and it logs the delivery just before.
  cases change with
  | make absent => exact .inl ⟨[], (List.append_nil _).symm, by simp⟩
  | rest is => exact .inl ⟨[], (List.append_nil _).symm, by simp⟩
  | touch is typed => exact .inl ⟨_, rfl, by simp⟩
  -- What is observed of an ignored event is no prompt.
  | ignore ended is =>
    refine .inl ⟨_, rfl, fun call parts there => ?_⟩
    obtain rfl := List.mem_singleton.mp there
    simp at is
  | deliver is alive free few => exact .inl ⟨_, rfl, by simp⟩
  | fail is asks now => exact .inl ⟨_, rfl, by simp⟩
  | suppress is asks approval => exact .inl ⟨_, rfl, by simp⟩
  | keep is asks brings => exact .inl ⟨_, rfl, by simp⟩
  -- The prompt has the parts of what its delivery brought.
  | prompt is asks brings some_ alive own untouched =>
    exact .inr ⟨_, _, _, _, _, is, asks, brings, own, untouched, some_, rfl⟩
  | settle is open_ accepted => exact .inl ⟨_, rfl, by simp⟩
  | accepted is ended => exact .inl ⟨[], (List.append_nil _).symm, by simp⟩
  | refused is ended now => exact .inl ⟨[], (List.append_nil _).symm, by simp⟩
  | delete alive settled => exact .inl ⟨_, rfl, by simp⟩
  | dispose settled => exact .inl ⟨_, rfl, by simp⟩

/-- A prompt that is sent now keeps to it, and earlier ones have done so. -/
theorem Untouched.change (change : Change session session') (called : Called session)
    (untouched : Untouched session.log) :
    Untouched session'.log := by
  intro before call parts after same
  rcases change.prompts with ⟨whats, log, none_⟩ | ⟨caller, wake, input, answer, stdout, is, asks,
    -, own, began, -, log⟩
  · obtain ⟨between, -, split⟩ := split_append (log ▸ same) (none_ call parts)
    exact untouched before call parts between split
  · rcases split_last (log ▸ same) with ⟨-, rfl, what⟩ | ⟨between, -, split⟩
    · obtain ⟨rfl, -⟩ := Observed.prompts.inj what
      obtain ⟨earlier, mid, asked⟩ := List.append_of_mem (called.asked caller wake input is asks)
      obtain ⟨-, -, stays, touched⟩ :=
        called.since caller wake input is asks earlier input mid asked
      refine ⟨earlier, input, mid, answer, by simp [asked], fun typed there => ?_, stays own⟩
      -- The generation has not grown since.
      have less := touched typed there own
      omega
    · rcases split_last split with ⟨-, -, what⟩ | ⟨between', -, split'⟩
      · cases what
      · exact untouched before call parts between' split'

end

end Session

open Session

/-- A session has at most one idle delivery pending that was called since it was last deleted, and
at most one prompt that is neither settled nor aborted. -/
theorem one_at_a_time (resumedSession : Option Text) (now : Nat) (inputs : List Input) (id : Text) :
    (∀ after, after <:+ ((createHooks resumedSession now).after inputs id).log → .deleted ∉ after →
      (openDelivers after).length ≤ 1)
      ∧ (openPrompts ((createHooks resumedSession now).after inputs id).log).length ≤ 1 := by
  have start : Delivering .start ∧ Prompting .start := by
    refine ⟨fun after suffix => ?_, by simp [Prompting, Session.start, openPrompts, pending]⟩
    simp [List.suffix_nil.mp suffix, openDelivers, pending]
  obtain ⟨delivering, prompting⟩ :=
    always (P := fun session => session.Delivering ∧ session.Prompting) start
    (fun change sound good => ⟨good.1.change change sound, good.2.change change sound⟩)
      resumedSession now inputs id
  exact ⟨fun after suffix undeleted => (delivering after suffix undeleted).1, prompting.1⟩

/-- At the start no call is under way. -/
theorem Session.Called.start : Called .start :=
  ⟨by simp [Session.start], by simp [Session.start], by simp [Session.start]⟩

/-- Every prompt is sent on the answer to its own delivery, and since the call of that delivery
there was no hook, typed message or busy status, the session was not deleted and the plugin was not
disposed of. -/
theorem prompts_untouched (resumedSession : Option Text) (now : Nat) (inputs : List Input)
    (id : Text) :
    Untouched ((createHooks resumedSession now).after inputs id).log := by
  have start : Called .start ∧ Untouched Session.start.log :=
    ⟨.start, by simp [Untouched, Session.start]⟩
  exact (always (P := fun session => session.Called ∧ Untouched session.log) start
    (fun change sound good => ⟨good.1.change change sound, good.2.change change good.1⟩)
      resumedSession now inputs id).2

end Khala.OpenCode
