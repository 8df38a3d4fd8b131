import Khala.OpenCode.OpenCalls

/-! A frame that the CLI has handed over is prompted until one prompt succeeds, and not again. -/

namespace Khala.OpenCode

open Js Concurrent

namespace Session

section

variable {session session' : Session}

/-! ### A frame that was acknowledged -/

/-- An entry's frame was delivered, and has not been prompted with success or lost, in the part
`after` of the log. -/
def Quiet (after : List Observed) : Prop :=
  .deleted ∉ after ∧ .disposed ∉ after ∧ ∀ call, .prompted call true ∉ after

/-- A delivery that was not a replay has brought something, and the session was not lost since it
was called. -/
structure Acknowledged (log : List Observed) (call : Nat) (stdout : Text) (after : List Observed) :
    Prop where
  split : ∃ before continuation mid, log = before ++ Observed.delivers call (.fresh continuation) ::
    (mid ++ Observed.delivered call (some stdout) :: after)
    ∧ Observed.deleted ∉ mid ∧ .disposed ∉ mid
  quiet : Quiet after

/-- The session's entry keeps a frame, and no call with the entry asks for another or has prompted
it with success. -/
structure Holds (session : Session) (number : Nat) (frame : List Part) : Prop where
  current : session.current = some number
  pending : cached (session.states number).pending = frame
  calls : ∀ call wake, session.wakes call = some wake → wake.state = number →
    (∀ continuation, wake.stage ≠ .delivering (.fresh continuation))
      ∧ wake.stage ≠ .prompting (some true)

/-- While a frame is acknowledged, nothing else is asked for, every prompt is that frame behind the
line of its own delivery, and the session keeps the frame. -/
structure Keeps (session : Session) (call : Nat) (stdout : Text) (after : List Observed) :
    Prop where
  fresh : ∀ other continuation, .delivers other (.fresh continuation) ∉ after
  prompts : ∀ between other parts later, after = between ++ Observed.prompts other parts :: later →
    ∃ approval,
    (.delivered call (some stdout) :: between).getLast? = some (.delivered other (some approval))
      ∧ parts = visible approval ++ cached stdout ∧ visible approval ≠ []
  holds : ∃ number, Holds session number (cached stdout)

def Retained (session : Session) : Prop :=
  ∀ call stdout after, Acknowledged session.log call stdout after → cached stdout ≠ [] →
    Keeps session call stdout after

/-- What is quiet is quiet in each part. -/
theorem Quiet.append {before after : List Observed} (quiet : Quiet (before ++ after)) :
    Quiet before ∧ Quiet after :=
  ⟨⟨fun there => quiet.1 (List.mem_append_left _ there), fun there =>
    quiet.2.1 (List.mem_append_left _ there),
      fun call there => quiet.2.2 call (List.mem_append_left _ there)⟩,
    fun there => quiet.1 (List.mem_append_right _ there), fun there =>
      quiet.2.1 (List.mem_append_right _ there),
    fun call there => quiet.2.2 call (List.mem_append_right _ there)⟩

/-- An acknowledgement of a longer log is one of the log, or is among what is new. -/
theorem Acknowledged.before {log whats after : List Observed} {call : Nat} {stdout : Text}
    (acknowledged : Acknowledged (log ++ whats) call stdout after) :
    (∃ earlier, after = earlier ++ whats ∧ Acknowledged log call stdout earlier ∧ Quiet whats)
      ∨ ∃ front before continuation mid,
        whats = front ++ Observed.delivered call (some stdout) :: after
        ∧ log ++ front = before ++ Observed.delivers call (.fresh continuation) :: mid
        ∧ Observed.deleted ∉ mid
        ∧ .disposed ∉ mid := by
  -- The answer stands in the old log or among the new entries, wherever the two were joined.
  obtain ⟨⟨before, continuation, mid, same, alive⟩, quiet⟩ := acknowledged
  rw [← List.cons_append, ← List.append_assoc] at same
  rcases List.append_eq_append_iff.mp same with ⟨front, split, rest⟩ | ⟨front, split, rest⟩
  · exact .inr ⟨front, before, continuation, mid, rest, split.symm, alive⟩
  · cases front with
    | nil => exact .inr ⟨[], before, continuation, mid, rest.symm, by simpa using split, alive⟩
    | cons first earlier =>
      obtain ⟨rfl, rfl⟩ := List.cons.inj rest
      exact .inl ⟨earlier, rfl,
        ⟨⟨before, continuation, mid, by simpa using split, alive⟩, quiet.append.1⟩, quiet.append.2⟩

/-- What neither hands over nor prompts leaves the frame. -/
theorem Retained.remains (retained : Retained session) (whats : List Observed)
    (log : session'.log = session.log ++ whats)
    (old : ∀ call stdout, .delivered call (some stdout) ∉ whats)
    (quiet : ∀ call parts, .prompts call parts ∉ whats)
    (keeps : ∀ number frame, frame ≠ [] → Quiet whats → Holds session number frame →
      Holds session' number frame ∧ ∀ other continuation,
      .delivers other (.fresh continuation) ∉ whats) :
    Retained session' := by
  -- An acknowledgement needs an answer, so with none among the new entries it is an old one.
  intro call stdout after acknowledged framed
  rw [log] at acknowledged
  rcases acknowledged.before
    with ⟨earlier, rfl, stood, silent⟩ | ⟨front, before, continuation, mid, new, -⟩
  case inr => exact absurd (new ▸ List.mem_append_right _ List.mem_cons_self) (old call stdout)
  obtain ⟨fresh, prompts, number, holds⟩ := retained call stdout earlier stood framed
  obtain ⟨holds', none_⟩ := keeps number _ framed silent holds
  refine ⟨fun other continuation there => ?_, fun between other parts later same =>
    ?_, number, holds'⟩
  · rcases List.mem_append.mp there with before | new
    · exact fresh other continuation before
    · exact none_ other continuation new
  · obtain ⟨later', -, split⟩ := split_append same (quiet other parts)
    exact prompts between other parts later' split

/-- A call that has a frame, or what replaces it, keeps it, and prompts it at most. -/
theorem Retained.takes (retained : Retained session) (sound : Sound session)
    (called : Called session) {call : Nat} {wake : Wake} {input : IdleInput} {answer stdout : Text}
    (is : session.wakes call = some wake) (asks : wake.stage = .delivering input)
    (brings : Brings (session.states wake.state).pending input answer stdout) (more : List Observed)
    (log : session'.log = session.log ++ Observed.delivered call (some answer) :: more)
    (prompts : more = [] ∨ more = [.prompts call (wakeParts stdout)] ∧ wakeParts stdout ≠ []
      ∧ session.current = some wake.state)
    (current : session'.current = session.current)
    (states : ∀ number, (session'.states number).pending = if number = wake.state then stdout
      else (session.states number).pending)
    (stage : Stage) (stays : stage ≠ .prompting (some true) ∧ ∀ input, stage ≠ .delivering input)
    (wakes : session'.wakes = Function.update session.wakes call (some { wake with stage })) :
    Retained session' := by
  -- The one call goes on to its new stage, and the others are as they were.
  have own : ∀ {other found}, session'.wakes other = some found → other = call
    ∧ found.stage = stage ∧ found.state = wake.state
      ∨ other ≠ call ∧ session.wakes other = some found := by
    intro other found there
    rw [wakes, Function.update_apply] at there
    split at there
    · obtain rfl := Option.some.inj there
      exact .inl ⟨‹_›, rfl, rfl⟩
    · exact .inr ⟨‹_›, there⟩
  have nothing : ∀ other continuation, .delivers other (.fresh continuation) ∉ more := by
    rintro other continuation there
    rcases prompts with rfl | ⟨rfl, -⟩ <;> simp at there
  intro call' stdout' after acknowledged framed
  rw [log] at acknowledged
  rcases acknowledged.before with ⟨earlier, rfl, stood, silent⟩ | ⟨front, before, continuation,
    mid, new, asked, alive⟩
  case inr =>
    -- The delivery that is acknowledged now is the one that the call waits for.
    obtain ⟨rfl, what, rfl⟩ : front = []
      ∧ Observed.delivered call (some answer) = .delivered call' (some stdout') ∧ more = after := by
      cases front with
      | nil => exact ⟨rfl, List.cons.inj new⟩
      | cons first front =>
        have inside : .delivered call' (some stdout') ∈ more :=
          (List.cons.inj new).2 ▸ List.mem_append_right _ List.mem_cons_self
        rcases prompts with rfl | ⟨rfl, -⟩ <;> simp at inside
    obtain ⟨rfl, rfl⟩ : call = call' ∧ answer = stdout' := by simpa using what
    rw [List.append_nil] at asked
    -- It asked for no replay, so what the CLI answered is the frame.
    obtain ⟨rfl, holds, -, -⟩ := called.since call wake input is asks before _ mid asked
    obtain rfl : answer = stdout := brings
    have entry : session.current = some wake.state := holds.resolve_right fun gone =>
      gone.elim alive.1 alive.2
    refine ⟨nothing, fun between other parts later same =>
      ?_, wake.state, current.trans entry, by rw [states, if_pos rfl], ?_⟩
    · rcases prompts with rfl | ⟨rfl, some_, -⟩
      · simp at same
      · obtain ⟨rfl, is'⟩ | ⟨first, rest, rfl⟩ :
          between = [] ∧ Observed.prompts call (wakeParts answer) = .prompts other parts
            ∨ ∃ first rest, between = first :: rest := by
          cases between with
          | nil => exact .inl ⟨rfl, (List.cons.inj same).1⟩
          | cons first rest => exact .inr ⟨first, rest, rfl⟩
        · obtain ⟨rfl, rfl⟩ := Observed.prompts.inj is'
          exact ⟨answer, rfl, wakeParts_eq answer, fun unseen => some_ (wakeParts_eq_nil unseen)⟩
        · simp at same
    · intro other found there same
      rcases own there with ⟨rfl, is', -⟩ | ⟨differs, stood⟩
      · rw [is']
        exact ⟨fun _ => stays.2 _, stays.1⟩
      · have past : found.stage = .finished := Decidable.byContradiction fun live =>
          differs (sound.single other found call wake stood is live (by rw [asks]; simp) same)
        rw [past]
        exact ⟨by simp, by simp⟩
  case inl =>
    obtain ⟨fresh, prompted, number, holds⟩ := retained call' stdout' earlier stood framed
    -- A call of the entry that keeps the frame has asked for a replay.
    have replays : wake.state = number → cached stdout = cached stdout'
      ∧ wakeParts stdout = visible answer ++ cached stdout'
        ∧ visible answer ≠ [] := by
      rintro rfl
      cases input with
      | fresh continuation => exact absurd asks ((holds.calls call wake is rfl).1 continuation)
      | replay =>
        obtain ⟨parts, some_⟩ := wakeParts_replayOf brings
        rw [holds.pending] at parts
        exact ⟨(cached_replayOf brings).trans holds.pending, parts, some_⟩
    refine ⟨fun other continuation there => ?_, fun between other parts later same =>
      ?_, number, ?_⟩
    · rcases List.mem_append.mp there with before | there
      · exact fresh other continuation before
      · rcases List.mem_cons.mp there with head | there
        · cases head
        · exact nothing other continuation there
    · rcases prompts with rfl | ⟨rfl, -, entry⟩
      · obtain ⟨later', -, split⟩ := split_append same (by simp)
        exact prompted between other parts later' split
      · have same' :
          earlier ++ [Observed.delivered call (some answer)]
            ++ [Observed.prompts call (wakeParts stdout)]
          = between ++ Observed.prompts other parts :: later := by
          simpa using same
        rcases split_last same' with ⟨-, rfl, what⟩ | ⟨later', -, split⟩
        · obtain ⟨rfl, rfl⟩ := Observed.prompts.inj what
          obtain ⟨-, parts, some_⟩ := replays (Option.some.inj (entry.symm.trans holds.current))
          refine ⟨answer, ?_, parts, some_⟩
          rw [← List.cons_append, List.getLast?_concat]
        · obtain ⟨later'', -, split'⟩ := split_append split (by simp)
          exact prompted between other parts later'' split'
    · refine ⟨current.trans holds.current, ?_, fun other found there entry => ?_⟩
      · rw [states]
        split
        · rename_i entry
          exact (replays entry.symm).1
        · exact holds.pending
      · rcases own there with ⟨rfl, is', -⟩ | ⟨-, stood⟩
        · rw [is']
          exact ⟨fun _ => stays.2 _, stays.1⟩
        · exact holds.calls other found stood entry

/-- An entry keeps its frame while only other things of it, or of calls, change. -/
theorem Holds.remains {number : Nat} {frame : List Part} (holds : Holds session number frame)
    (current : session'.current = session.current)
    (pending : (session'.states number).pending = (session.states number).pending)
    (calls : ∀ call wake, session'.wakes call = some wake → wake.state = number →
      session.wakes call = some wake
      ∨ (∀ continuation, wake.stage ≠ .delivering (.fresh continuation))
      ∧ wake.stage ≠ .prompting (some true)) :
    Holds session' number frame where
  current := current.trans holds.current
  pending := (congrArg cached pending).trans holds.pending
  calls call wake is entry :=
    (calls call wake is entry).elim (fun stood => holds.calls call wake stood entry) id

/-- A call that goes on to another stage has asked for nothing else. -/
theorem calls_of_update {call : Nat} {wake' : Wake}
    (stays : (∀ continuation, wake'.stage ≠ .delivering (.fresh continuation))
      ∧ wake'.stage ≠ .prompting (some true))
    {other : Nat} {found : Wake}
    (there : Function.update session.wakes call (some wake') other = some found) :
    session.wakes other = some found
      ∨ (∀ continuation, found.stage ≠ .delivering (.fresh continuation))
        ∧ found.stage ≠ .prompting (some true) := by
  -- The call that changed is in its new stage, and any other is as it was.
  rw [Function.update_apply] at there
  split at there
  · obtain rfl := Option.some.inj there
    exact .inr stays
  · exact .inl there

/-- Every change keeps the frame. -/
theorem Retained.change (change : Change session session') (sound : Sound session)
    (called : Called session) (retained : Retained session) :
    Retained session' := by
  cases change with
  | make absent =>
    refine retained.remains [] (List.append_nil _).symm (by simp) (by simp)
      fun number frame framed silent holds => ?_
    cases absent.symm.trans holds.current
  | rest is =>
    refine retained.remains [] (List.append_nil _).symm (by simp) (by simp)
      fun number frame framed silent holds => ⟨?_, by simp⟩
    exact holds.remains rfl (field_update SessionState.pending (by exact rfl) number)
      fun _ _ stood _ => .inl stood
  | touch is typed =>
    refine retained.remains _ rfl (by simp) (by simp) fun number frame framed silent holds =>
      ⟨?_, by simp⟩
    exact holds.remains rfl (field_update SessionState.pending (by exact rfl) number)
      fun _ _ stood _ => .inl stood
  | ignore ended is =>
    refine retained.remains _ rfl (fun call stdout there => ?_) (fun call parts there => ?_)
      fun number frame framed silent holds =>
      ⟨holds.remains rfl rfl fun _ _ stood _ => .inl stood, fun other continuation there => ?_⟩
    all_goals
      obtain rfl := List.mem_singleton.mp there
      simp at is
  | @deliver number is alive free few =>
    refine retained.remains _ rfl (by simp) (by simp) fun other frame framed silent holds => ?_
    obtain rfl := Option.some.inj (is.symm.trans holds.current)
    -- With a frame that is kept, the call asks for a replay.
    have replay : (session.states number).input = .replay := by
      have some_ : (session.states number).pending ≠ [] := by
        intro empty
        rw [← holds.pending, empty] at framed
        exact framed (by decide)
      simp [SessionState.input, some_]
    refine ⟨holds.remains rfl (field_update SessionState.pending (by exact rfl) number)
      fun call wake there _ => ?_, ?_⟩
    · refine @calls_of_update session _ _ ?_ _ _ there
      rw [replay]
      simp
    · simp [replay]
  | @fail call wake input is asks now =>
    refine retained.remains _ rfl (by simp) (by simp) fun number frame framed silent holds =>
      ⟨?_, by simp⟩
    refine holds.remains rfl ?_ fun _ _ there _ => calls_of_update (by simp) there
    rw [Session.fail, finish_put]
    exact field_update SessionState.pending (by exact rfl) number
  | @suppress call wake is asks approval =>
    intro call' stdout after acknowledged framed
    rcases acknowledged.before with ⟨earlier, rfl, stood, silent⟩ | ⟨front, before, continuation,
      mid, new, asked, -⟩
    · obtain ⟨fresh, prompts, number, holds⟩ := retained call' stdout earlier stood framed
      refine ⟨fun other continuation there => ?_, fun between other parts later same =>
        ?_, number, ?_⟩
      · exact fresh other continuation ((List.mem_append.mp there).resolve_right (by simp))
      · obtain ⟨later', -, split⟩ := split_append same (by simp)
        exact prompts between other parts later' split
      · exact holds.remains rfl (field_update SessionState.pending (by exact rfl) number)
          fun _ _ there _ => calls_of_update (by simp) there
    · -- The call waits for a replay.
      obtain ⟨rfl, what⟩ :
        front = [] ∧ Observed.delivered call (some approval) = .delivered call' (some stdout) := by
        cases front with
        | nil => exact ⟨rfl, (List.cons.inj new).1⟩
        | cons first front =>
          have none_ := (List.cons.inj new).2
          simp at none_
      obtain ⟨rfl, -⟩ := Observed.delivered.inj what
      rw [List.append_nil] at asked
      cases (called.since call wake _ is asks before _ mid asked).1
  | @keep call wake input answer stdout is asks brings =>
    refine retained.takes sound called is asks brings [] rfl (.inl rfl) rfl (fun number =>
      ?_) .finished (by simp) rfl
    simp only [finish_put, Function.update_apply]
    split <;> rfl
  | @prompt call wake input answer stdout is asks brings some_ alive own untouched =>
    refine retained.takes sound called is asks brings [.prompts call (wakeParts stdout)]
      (List.append_assoc ..)
      (.inr ⟨rfl, some_, own⟩) rfl (fun number => ?_) (.prompting none) (by simp) rfl
    simp only [observe, await, put, Function.update_apply]
    split <;> rfl
  | @settle call wake is open_ accepted =>
    refine retained.remains _ rfl (by simp) (by simp) fun number frame framed silent holds =>
      ⟨?_, by simp⟩
    -- A prompt that succeeded would end the acknowledgement.
    have refused : accepted = false := by
      cases accepted
      · rfl
      · exact absurd List.mem_cons_self (silent.2.2 call)
    subst refused
    exact holds.remains rfl rfl fun _ _ there _ => calls_of_update (by simp) there
  | @accepted call wake is ended =>
    refine retained.remains [] (List.append_nil _).symm (by simp) (by simp)
      fun number frame framed silent holds => ⟨?_, by simp⟩
    -- The entry that the prompt succeeded for keeps no frame that is acknowledged.
    have differs : number ≠ wake.state := fun entry => (holds.calls call wake is entry.symm).2 ended
    refine holds.remains rfl ?_ fun _ _ there _ => calls_of_update (by simp) there
    rw [finish_put]
    exact congrArg SessionState.pending (Function.update_of_ne differs _ _)
  | @refused call wake is ended now =>
    refine retained.remains [] (List.append_nil _).symm (by simp) (by simp)
      fun number frame framed silent holds => ⟨?_, by simp⟩
    refine holds.remains rfl ?_ fun _ _ there _ => calls_of_update (by simp) there
    obtain ⟨idle, fails⟩ :=
      fail_put session wake { session.states wake.state with abort := none } now
    rw [fails, finish_put]
    exact field_update SessionState.pending (by exact rfl) number
  | delete alive settled =>
    exact retained.remains _ rfl (by simp) (by simp) fun _ _ _ silent _ =>
      absurd List.mem_cons_self silent.1
  | dispose settled =>
    exact retained.remains _ rfl (by simp) (by simp) fun _ _ _ silent _ =>
      absurd List.mem_cons_self silent.2.1

/-! ### After a prompt that succeeded -/

/-- A delivery that is called and answered in the part of the log has brought the frame. -/
def Origin (after : List Observed) (frame : List Part) : Prop :=
  ∃ call continuation stdout, .delivers call (.fresh continuation) ∈ after
    ∧ .delivered call (some stdout) ∈ after ∧ cached stdout = frame

/-- A frame stems from there later too. -/
theorem Origin.append {after : List Observed} {frame : List Part} (origin : Origin after frame)
    (whats : List Observed) :
    Origin (after ++ whats) frame := by
  obtain ⟨call, continuation, stdout, called, answered, is⟩ := origin
  exact ⟨call, continuation, stdout, List.mem_append_left _ called,
    List.mem_append_left _ answered, is⟩

/-- No call with the entry has prompted with success and not gone on. -/
def Unsettled (session : Session) (number : Nat) : Prop :=
  ∀ call wake, session.wakes call = some wake → wake.state = number →
    wake.stage ≠ .prompting (some true)

/-- What an entry keeps, and what calls with it wait for, stems from the part of the log. -/
structure Stems (session : Session) (number : Nat) (after : List Observed) : Prop where
  pending : (session.states number).pending ≠ [] →
    Origin after (cached (session.states number).pending)
  replays : ∀ call wake, session.wakes call = some wake → wake.state = number →
    wake.stage = .delivering .replay →
    Origin after (cached (session.states number).pending)
  fresh : ∀ call wake continuation, session.wakes call = some wake → wake.state = number →
    wake.stage = .delivering (.fresh continuation) → .delivers call (.fresh continuation) ∈ after

/-- After a success, all frames are new ones. -/
structure Renewed (session : Session) : Prop where
  prompts : ∀ before done between call parts after,
    session.log = before ++ Observed.prompted done true
      :: (between ++ Observed.prompts call parts :: after) →
      Origin between (parts.filter (·.synthetic))
  entry : ∀ before done after, session.log = before ++ Observed.prompted done true :: after →
    ∀ number, session.current = some number → Unsettled session number → Stems session number after

/-- What neither prompts nor succeeds leaves where frames stem from. -/
theorem Renewed.of_log (renewed : Renewed session) (whats : List Observed)
    (log : session'.log = session.log ++ whats) (none_ : ∀ call parts, .prompts call parts ∉ whats)
    (unsuccessful : ∀ call, .prompted call true ∉ whats)
    (stems : ∀ number after, session'.current = some number → Unsettled session' number →
      (session.current = some number → Unsettled session number → Stems session number after) →
      Stems session' number (after ++ whats)) :
    Renewed session' where
  prompts before done between call parts after same := by
    rw [log, ← List.cons_append, ← List.append_assoc] at same
    -- The prompt is an old one, and so is the success before it.
    obtain ⟨after', -, split⟩ := split_append same (none_ call parts)
    exact renewed.prompts before done between call parts after' (by simpa using split)
  entry before done after same number own unsettled := by
    rw [log] at same
    obtain ⟨after', rfl, split⟩ := split_append same (unsuccessful done)
    exact stems number after' own unsettled fun own' unsettled' =>
      renewed.entry before done after' split number own' unsettled'

/-- What leaves the pending frame leaves where it stems from. -/
theorem Stems.remains {number : Nat} {after : List Observed} (stems : Stems session number after)
    (whats : List Observed)
    (pending : (session'.states number).pending = (session.states number).pending)
    (calls : ∀ call wake input, session'.wakes call = some wake → wake.stage = .delivering input →
      session.wakes call = some wake) :
    Stems session' number (after ++ whats) where
  pending some_ := by
    rw [pending] at some_ ⊢
    exact (stems.pending some_).append whats
  replays call wake is entry asks := by
    rw [pending]
    exact (stems.replays call wake (calls call wake _ is asks) entry asks).append whats
  fresh call wake continuation is entry asks :=
    List.mem_append_left _
      (stems.fresh call wake continuation (calls call wake _ is asks) entry asks)

/-- A call that goes on, but not from a success, leaves the entries unsettled that were. -/
theorem unsettled_of_update {call : Nat} {wake wake' : Wake} (is : session.wakes call = some wake)
    (pending : wake.stage ≠ .prompting (some true)) {number : Nat}
    (unsettled : ∀ other found, Function.update session.wakes call (some wake') other
      = some found → found.state = number → found.stage ≠ .prompting (some true)) :
    Unsettled session number := by
  -- The call itself had not succeeded, and the others did not change.
  intro other found there entry
  by_cases same : other = call
  · subst same
    obtain rfl := Option.some.inj (is.symm.trans there)
    exact pending
  · exact unsettled other found (by rw [Function.update_of_ne same, there]) entry

/-- What a call brings stems from where its entry's frame does, or from its own delivery. -/
theorem Stems.brings {number : Nat} {after : List Observed} (stems : Stems session number after)
    {call : Nat} {wake : Wake} {input : IdleInput} {answer stdout : Text}
    (is : session.wakes call = some wake) (entry : wake.state = number)
    (asks : wake.stage = .delivering input)
    (brings : Brings (session.states wake.state).pending input answer stdout)
    (more : List Observed) :
    Origin (after ++ Observed.delivered call (some answer) :: more) (cached stdout) := by
  cases input with
  | replay =>
    -- A replay brings what its entry kept.
    rw [cached_replayOf brings, entry]
    exact (stems.replays call wake is entry asks).append _
  | fresh continuation =>
    obtain rfl : answer = stdout := brings
    exact ⟨call, continuation, answer,
      List.mem_append_left _ (stems.fresh call wake continuation is entry asks),
      List.mem_append_right _ List.mem_cons_self, rfl⟩

/-- A frame that is taken stems from its own delivery. -/
theorem Stems.takes {number : Nat} {after : List Observed} (stems : Stems session number after)
    (sound : Sound session) {call : Nat} {wake : Wake} {input : IdleInput} {answer stdout : Text}
    (is : session.wakes call = some wake) (asks : wake.stage = .delivering input)
    (brings : Brings (session.states wake.state).pending input answer stdout) (more : List Observed)
    (states : (session'.states number).pending = if number = wake.state then stdout
      else (session.states number).pending)
    (stage : Stage) (stays : ∀ input, stage ≠ .delivering input)
    (wakes : session'.wakes = Function.update session.wakes call (some { wake with stage })) :
    Stems session' number (after ++ Observed.delivered call (some answer) :: more) := by
  -- A call with the same entry that waits for a delivery would be this one.
  have other : ∀ {other found input'}, session'.wakes other = some found →
    found.stage = .delivering input' →
      session.wakes other = some found ∧ found.state ≠ wake.state := by
    intro other found input' there asks'
    rw [wakes, Function.update_apply] at there
    split at there
    · obtain rfl := Option.some.inj there
      exact absurd asks' (stays input')
    · rename_i differs
      exact ⟨there, fun same =>
        differs (sound.single other found call wake there is (by rw [asks']; simp)
          (by rw [asks]; simp) same)⟩
  refine ⟨fun some_ => ?_, fun other' found there entry asks' =>
    ?_, fun other' found continuation there entry asks' => ?_⟩
  · rw [states] at some_ ⊢
    split
    · rename_i entry
      exact stems.brings is entry.symm asks brings more
    · rename_i differs
      rw [if_neg differs] at some_
      exact (stems.pending some_).append _
  · obtain ⟨stood, differs⟩ := other there asks'
    rw [states, if_neg (fun same => differs (entry.trans same))]
    exact (stems.replays other' found stood entry asks').append _
  · exact List.mem_append_left _
      (stems.fresh other' found continuation (other there asks').1 entry asks')

/-- Every change keeps where frames stem from. -/
theorem Renewed.change (change : Change session session') (sound : Sound session)
    (renewed : Renewed session) : Renewed session' := by
  cases change with
  | make absent =>
    refine renewed.of_log [] (List.append_nil _).symm (by simp) (by simp)
      fun number after own unsettled stems => ?_
    obtain rfl := Option.some.inj own
    have old : ∀ call wake, session.wakes call = some wake → wake.state ≠ session.made :=
      fun call wake is =>
      Nat.ne_of_lt (sound.entries call wake is)
    -- A new entry keeps nothing, and no call has it.
    exact ⟨fun some_ => by simp [SessionState.new] at some_, fun call wake is entry =>
      absurd entry (old call wake is),
      fun call wake continuation is entry => absurd entry (old call wake is)⟩
  | rest is =>
    refine renewed.of_log [] (List.append_nil _).symm (by simp) (by simp)
      fun number after own unsettled stems => ?_
    -- Neither rest nor a touch changes what is pending or what the calls ask for.
    exact (stems own unsettled).remains []
      (field_update SessionState.pending (by exact rfl) number) fun _ _ _ stood _ => stood
  | touch is typed =>
    refine renewed.of_log _ rfl (by simp) (by simp) fun number after own unsettled stems => ?_
    exact (stems own unsettled).remains _ (field_update SessionState.pending (by exact rfl) number)
      fun _ _ _ stood _ => stood
  | ignore ended is =>
    refine renewed.of_log _ rfl (fun call parts there => ?_) (fun call there => ?_)
      fun number after own unsettled stems =>
      (stems own unsettled).remains _ rfl fun _ _ _ stood _ => stood
    all_goals
      obtain rfl := List.mem_singleton.mp there
      simp at is
  | @deliver number is alive free few =>
    refine renewed.of_log _ rfl (by simp) (by simp) fun other after own unsettled stems => ?_
    obtain rfl := Option.some.inj (is.symm.trans own)
    have old : ∀ {call wake}, session.wakes call = some wake →
      (session.deliver number).wakes call = some wake := fun there =>
      (Function.update_of_ne (Nat.ne_of_lt (sound.called _ _ there)) _ _).trans there
    have stems := stems own fun call wake there entry => unsettled call wake (old there) entry
    have pending :
      ((session.deliver number).states number).pending = (session.states number).pending :=
      field_update SessionState.pending (by exact rfl) number
    -- The call that is made asks for what its entry tells it to.
    have began : ∀ {call wake}, (session.deliver number).wakes call = some wake →
        call = session.called ∧ wake.stage = .delivering (session.states number).input
          ∨ session.wakes call = some wake := by
      intro call wake there
      simp only [Session.deliver, Function.update_apply] at there
      split at there
      · obtain rfl := Option.some.inj there
        exact .inl ⟨‹_›, rfl⟩
      · exact .inr there
    refine ⟨fun some_ => ?_, fun call wake there entry asks =>
      ?_, fun call wake continuation there entry asks => ?_⟩
    · rw [pending] at some_ ⊢
      exact (stems.pending some_).append _
    · rw [pending]
      rcases began there with ⟨-, asks'⟩ | stood
      · -- A replay is asked for when something is pending.
        refine (stems.pending fun empty => ?_).append _
        have input := Stage.delivering.inj (asks.symm.trans asks')
        simp [SessionState.input, empty] at input
      · exact (stems.replays call wake stood entry asks).append _
    · rcases began there with ⟨rfl, asks'⟩ | stood
      · rw [Stage.delivering.inj (asks.symm.trans asks')]
        exact List.mem_append_right _ List.mem_cons_self
      · exact List.mem_append_left _ (stems.fresh call wake continuation stood entry asks)
  | @fail call wake input is asks now =>
    refine renewed.of_log _ rfl (by simp) (by simp) fun number after own unsettled stems => ?_
    refine (stems own (unsettled_of_update is (by rw [asks]; simp) unsettled)).remains _ ?_
      fun _ _ _ there => waits_of_update (by simp) there
    -- A failure leaves what was pending.
    rw [Session.fail, finish_put]
    exact field_update SessionState.pending (by exact rfl) number
  | @suppress call wake is asks approval =>
    refine renewed.of_log _ rfl (by simp) (by simp) fun number after own unsettled stems => ?_
    exact (stems own (unsettled_of_update is (by rw [asks]; simp) unsettled)).remains _
      (field_update SessionState.pending (by exact rfl) number)
      fun _ _ _ there => waits_of_update (by simp) there
  | @keep call wake input answer stdout is asks brings =>
    refine renewed.of_log _ rfl (by simp) (by simp) fun number after own unsettled stems => ?_
    refine (stems own (unsettled_of_update is (by rw [asks]; simp) unsettled)).takes sound is asks
      brings [] ?_ .finished (by simp) rfl
    -- What the answer brought is pending now.
    simp only [finish_put, Function.update_apply]
    split <;> rfl
  | @prompt call wake input answer stdout is asks brings some_ alive own untouched =>
    -- The prompt shows what its call brought, which stems from a delivery since the success.
    have own' := own
    have mine : Unsettled session wake.state := fun other found there entry ended => by
      obtain rfl := sound.single other found call wake there is (by rw [ended]; simp)
        (by rw [asks]; simp) entry
      rw [Option.some.inj (there.symm.trans is), asks] at ended
      cases ended
    refine ⟨fun before done between other parts after same =>
      ?_, fun before done after same number own unsettled => ?_⟩
    · rw [← List.cons_append, ← List.append_assoc] at same
      rcases split_last same with ⟨-, split, what⟩ | ⟨after', -, split⟩
      · obtain ⟨rfl, rfl⟩ := Observed.prompts.inj what
        obtain ⟨between', rfl, split'⟩ := split_append split (by simp)
        exact (renewed.entry before done between' split' wake.state own' mine).brings is rfl
          asks brings []
      · obtain ⟨after'', -, split'⟩ := split_append split (by simp)
        exact renewed.prompts before done between other parts after'' (by simpa using split')
    -- The entry keeps what its call brought.
    · obtain ⟨after', rfl, split⟩ := split_append same (by simp)
      obtain ⟨after'', rfl, split'⟩ := split_append split (by simp)
      have stems :=
        renewed.entry before done after'' split' number own
        (unsettled_of_update is (by rw [asks]; simp) unsettled)
      rw [List.append_assoc]
      refine stems.takes sound is asks brings [.prompts call (wakeParts stdout)] ?_
        (.prompting none) (by simp) rfl
      simp only [observe, await, put, Function.update_apply]
      split <;> rfl
  | @settle call wake is open_ accepted =>
    cases accepted with
    | false =>
      refine renewed.of_log _ rfl (by simp) (by simp) fun number after own unsettled stems => ?_
      exact (stems own (unsettled_of_update is (by rw [open_]; simp) unsettled)).remains _ rfl
        fun _ _ _ there =>
        waits_of_update (by simp) there
    | true =>
      refine ⟨fun before done between other parts after same =>
        ?_, fun before done after same number own unsettled => ?_⟩
      -- The success adds no prompt.
      · rw [← List.cons_append, ← List.append_assoc] at same
        obtain ⟨after', -, split⟩ := split_append same (by simp)
        exact renewed.prompts before done between other parts after'
          (Eq.trans (show session.log = _ by exact split) (by simp))
      · -- The entry is the one of the prompt that has just succeeded.
        have entry : wake.state = number :=
          Option.some.inj ((sound.prompting call wake is open_).2.1.symm.trans own)
        exact absurd rfl (unsettled call { wake with stage := .prompting (some true) }
          (Function.update_self ..) entry)
  | @accepted call wake is ended =>
    refine renewed.of_log [] (List.append_nil _).symm (by simp) (by simp)
      fun number after own unsettled stems => ?_
    -- After the success its entry is empty, and no call waits with it.
    by_cases entry : number = wake.state
    · subst entry
      have none_ : ∀ {other found input}, ((session.put wake.state { session.states wake.state with
          pending := [], failures := 0, retryAt := 0, abort := none }).finish call wake).wakes
            other = some found →
          found.state = wake.state → found.stage ≠ .delivering input := by
        intro other found input there entry asks
        have stood := waits_of_update (by simp) there asks
        obtain rfl := sound.single other found call wake stood is (by rw [asks]; simp)
          (by rw [ended]; simp) entry
        rw [Option.some.inj (stood.symm.trans is), ended] at asks
        cases asks
      refine ⟨fun some_ => ?_, fun other found there entry asks => absurd asks (none_ there entry),
        fun other found continuation there entry asks => absurd asks (none_ there entry)⟩
      rw [finish_put] at some_
      simp at some_
    -- Another entry is as it was before the success.
    · have unsettled' : Unsettled session number := by
        intro other found there entry'
        by_cases same : other = call
        · subst same
          obtain rfl := Option.some.inj (is.symm.trans there)
          exact absurd entry'.symm entry
        · exact unsettled other found ((Function.update_of_ne same _ _).trans there) entry'
      refine (stems own unsettled').remains [] ?_ fun _ _ _ there => waits_of_update (by simp) there
      rw [finish_put]
      exact congrArg SessionState.pending (Function.update_of_ne entry _ _)
  | @refused call wake is ended now =>
    refine renewed.of_log [] (List.append_nil _).symm (by simp) (by simp)
      fun number after own unsettled stems => ?_
    refine (stems own (unsettled_of_update is (by rw [ended]; simp) unsettled)).remains _ ?_
      fun _ _ _ there => waits_of_update (by simp) there
    -- A refused prompt leaves what was pending.
    obtain ⟨idle, fails⟩ :=
      fail_put session wake { session.states wake.state with abort := none } now
    rw [fails, finish_put]
    exact field_update SessionState.pending (by exact rfl) number
  | delete alive settled =>
    -- No entry is current any more.
    exact renewed.of_log _ rfl (by simp) (by simp) fun _ _ none_ => by cases none_
  | dispose settled =>
    exact renewed.of_log _ rfl (by simp) (by simp) fun _ _ none_ => by cases none_

end

end Session

open Session

/-- While a frame that the CLI handed over has not been prompted with success, and the session not
been lost since the frame was asked for, no other is asked for, and each prompt is that frame behind
the line of its own delivery. -/
theorem acknowledged_frames (resumedSession : Option Text) (now : Nat) (inputs : List Input)
    (id : Text) {call : Nat} {stdout : Text} {after : List Observed}
    (acknowledged :
      Acknowledged ((createHooks resumedSession now).after inputs id).log call stdout after)
    (framed : cached stdout ≠ []) :
    (∀ other continuation, .delivers other (.fresh continuation) ∉ after)
      ∧ ∀ between other parts later, after = between ++ Observed.prompts other parts :: later →
        ∃ approval,
        (.delivered call (some stdout) :: between).getLast?
          = some (.delivered other (some approval))
          ∧ parts = visible approval ++ cached stdout ∧ visible approval ≠ [] := by
  -- In every state the frames that were acknowledged are kept, and this is one of them.
  have start : Called .start ∧ Retained .start := by
    refine ⟨.start, ?_⟩
    rintro call stdout after ⟨⟨before, continuation, mid, same, -⟩, -⟩
    simp [Session.start] at same
  have retained := (always (P := fun session => session.Called ∧ session.Retained) start
    (fun change sound good => ⟨good.1.change change sound, good.2.change change sound good.1⟩)
      resumedSession now inputs id).2
  obtain ⟨fresh, prompts, -⟩ := retained call stdout after acknowledged framed
  exact ⟨fresh, prompts⟩

/-- After a prompt that succeeded, each frame comes from a delivery that was called and answered
since. -/
theorem frames_renewed (resumedSession : Option Text) (now : Nat) (inputs : List Input) (id : Text)
    {before between after : List Observed} {done call : Nat} {parts : List Part}
    (same : ((createHooks resumedSession now).after inputs id).log
      = before ++ Observed.prompted done true :: (between ++ Observed.prompts call parts :: after)) :
    Origin between (parts.filter (·.synthetic)) :=
  (always (P := Renewed) ⟨by simp [Session.start], by simp [Session.start]⟩
    (fun change sound renewed => renewed.change change sound)
    resumedSession now inputs id).prompts before done between call parts after same

/-- What the CLI answers when it approves a prompt, under a nonce. -/
def approvalOf (unit : CodeUnit) : Text := wakeLine (List.replicate 8 unit)

/-- A prompt that is refused is sent again. -/
private def refusedOnce : List Input := [.session [] (.idle 0),
  .session [] (.deliverSettles 0 (some (approvalOf 97 ++ 10 :: lit "frame")) 0), .session []
    (.promptSettles 0 false),
  .session [] (.resumes 0 0), .session [] (.poll 2000), .session []
    (.deliverSettles 1 (some (approvalOf 98)) 2000)]

/-- A prompt that was refused is made again with the same frame. -/
theorem acknowledged_frames_refused :
    ∃ after, Acknowledged ((createHooks none 0).after refusedOnce []).log 0
      (approvalOf 97 ++ 10 :: lit "frame") after
    ∧ .prompts 1 [⟨approvalOf 98, false⟩, ⟨lit "frame", true⟩] ∈ after
    ∧ ∀ other continuation, .delivers other (.fresh continuation) ∉ after := by
  have acknowledged :
    Acknowledged ((createHooks none 0).after refusedOnce []).log 0
    (approvalOf 97 ++ 10 :: lit "frame")
      [.prompts 0 [⟨approvalOf 97, false⟩, ⟨lit "frame", true⟩], .prompted 0 false,
        .delivers 1 .replay,
        .delivered 1 (some (approvalOf 98)),
          .prompts 1 [⟨approvalOf 98, false⟩, ⟨lit "frame", true⟩]] :=
    ⟨⟨[], false, [], by decide +kernel, by simp, by simp⟩, by decide, by decide, by simp⟩
  exact ⟨_, acknowledged, by simp,
    (acknowledged_frames none 0 refusedOnce [] acknowledged (by decide +kernel)).1⟩

/-- A frame that was prompted, and the next one. -/
private def acceptedOnce : List Input := [.session [] (.idle 0),
  .session [] (.deliverSettles 0 (some (approvalOf 97 ++ 10 :: lit "first")) 0), .session []
    (.promptSettles 0 true),
  .session [] (.resumes 0 0), .session [] (.idle 1), .session []
    (.deliverSettles 1 (some (approvalOf 98 ++ 10 :: lit "second")) 1)]

/-- After a prompt that was taken the next frame is a new one. -/
theorem frames_renewed_accepted : ∃ between, Origin between [⟨lit "second", true⟩]
    ∧ .delivers 1 (.fresh true) ∈ between := by
  have same : ((createHooks none 0).after acceptedOnce []).log
      = [Observed.delivers 0 (.fresh false),
      .delivered 0 (some (approvalOf 97 ++ 10 :: lit "first")),
        .prompts 0 [⟨approvalOf 97, false⟩, ⟨lit "first", true⟩]]
        ++ Observed.prompted 0 true ::
          ([Observed.delivers 1 (.fresh true),
            .delivered 1 (some (approvalOf 98 ++ 10 :: lit "second"))]
          ++ Observed.prompts 1 [⟨approvalOf 98, false⟩, ⟨lit "second", true⟩] :: []) := by
    decide +kernel
  exact ⟨_, frames_renewed none 0 acceptedOnce [] same, by simp⟩

end Khala.OpenCode
