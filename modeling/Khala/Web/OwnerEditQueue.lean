import Khala.Web.OwnerEdits

/-! Which writes are under way, and in whose turn. -/

namespace Khala.OwnerEdits

open Js

def Request.target : Request → Option Target
  | .updateOwnMember _ => some .member
  | .setRoomAccountData type _ => some (.data type)
  | .send => none

/-- Turns and writes belong to calls that await them; only the first turn has been read. -/
structure Control (tab : Tab) : Prop where
  /-- A turn belongs to an update that waits for it or has read the profile. -/
  turns : ∀ turn ∈ tab.ownMemberWrites, ∃ running rest, tab.running[turn.index]? = some running
    ∧ running.requests = .updateOwnMember turn.change :: rest
    ∧ (turn.read = false ↔ running.progress = .waiting)
  /-- A call has one turn at most. -/
  apart : (tab.ownMemberWrites.map (·.index)).Nodup
  /-- Only the first turn has read the profile. -/
  first : ∀ turn ∈ tab.ownMemberWrites.tail, turn.read = false
  /-- An update that has not been sent has its turn. -/
  queued : ∀ {index running change rest}, tab.running[index]? = some running →
    running.requests = .updateOwnMember change :: rest →
    ∃ turn ∈ tab.ownMemberWrites, turn.index = index
  /-- A write under way belongs to a call that awaits it. -/
  flying : ∀ write ∈ tab.flying, ∃ running request rest, tab.running[write.index]? = some running
    ∧ running.requests = request :: rest ∧ running.progress = .sent
    ∧ request.target = some write.target
  /-- A call has one write under way at most. -/
  alone : (tab.flying.map (·.index)).Nodup

/-- At most one write to the target is under way. -/
def Tab.Sole (tab : Tab) (target : Target) : Prop :=
  (tab.flying.filter (·.target = target)).length ≤ 1

/-- What the homeserver holds. -/
def Tab.held (tab : Tab) : Target → Content
  | .member => tab.member
  | .data type => tab.data type

/-- What it holds once it has received the write that is under way. -/
def Tab.will (tab : Tab) (target : Target) : Content :=
  ((tab.flying.find? (·.target = target)).map (·.content)).getD (tab.held target)

/-- What the change of a turn makes of the member event. -/
def Turn.apply (content : Content) (turn : Turn) : Content :=
  (turn.change content).set (lit "membership") (.string (lit "join"))

/-- What the member event is once every turn has been taken. -/
def Tab.memberWill (tab : Tab) : Content :=
  (tab.ownMemberWrites.filter (!·.read)).foldl Turn.apply (tab.will .member)

section

variable {tab : Tab} {index : Nat} {running : Running}

/-- A call that is updated is changed, and the others are as they were. -/
@[simp] theorem running_update (tab : Tab) (index : Nat) (running : Running) (other : Nat) :
    (tab.update index running).running[other]? = if index = other then (tab.running[other]?).map
      fun _ => running else tab.running[other]? := by
  rw [Tab.update, List.getElem?_set]
  split
  · rename_i same
    subst same
    split
    · rename_i inside
      rw [List.getElem?_eq_getElem inside, Option.map_some]
    · rename_i outside
      rw [List.getElem?_eq_none (Nat.le_of_not_lt outside), Option.map_none]
  · rfl

/-- A call that is updated is changed. -/
theorem running_update_self (is : tab.running[index]? = some running) (running' : Running) :
    (tab.update index running').running[index]? = some running' := by
  rw [running_update, if_pos rfl, is, Option.map_some]

/-- Updating a call leaves the others. -/
theorem running_update_of_ne {other : Nat} (differs : other ≠ index) (running' : Running) :
    (tab.update index running').running[other]? = tab.running[other]? := by
  rw [running_update, if_neg (Ne.symm differs)]

/-! ## The queue -/

/-- A turn that has been read is the first. -/
theorem Control.head_of_read (control : Control tab) {turn : Turn}
    (inside : turn ∈ tab.ownMemberWrites) (read : turn.read = true) :
    tab.ownMemberWrites.head? = some turn := by
  cases queue : tab.ownMemberWrites with
  | nil => simp [queue] at inside
  | cons front rest =>
    rcases List.mem_cons.mp (queue ▸ inside) with rfl | behind
    · rfl
    · have := control.first turn (by rw [queue]; exact behind)
      rw [read] at this
      cases this

/-- A write to the member event is the one of the first turn. -/
theorem Control.turn_of_flying (control : Control tab) {write : Write} (inside : write ∈ tab.flying)
    (target : write.target = .member) :
    ∃ turn, tab.ownMemberWrites.head? = some turn ∧ turn.index = write.index
      ∧ turn.read = true := by
  -- The write belongs to a call whose first request is under way.
  obtain ⟨running, request, rest, is, requests, progress, wants⟩ := control.flying write inside
  cases request with
  | updateOwnMember change =>
    -- The request is to the owner's own member, so the call stands in the queue.
    obtain ⟨turn, there, same⟩ := control.queued is requests
    obtain ⟨running', _, is', -, waits⟩ := control.turns turn there
    obtain rfl := Option.some.inj ((same ▸ is').symm.trans is)
    -- It was read there, as a request that waits is not sent.
    have read : turn.read = true := by
      by_contra unread
      rw [waits.mp (Bool.eq_false_iff.mpr unread)] at progress
      cases progress
    exact ⟨turn, control.head_of_read there read, same, read⟩
  | setRoomAccountData type change =>
    rw [target] at wants
    cases wants
  | send => cases wants

/-- Writes of one target that are one call's are one. -/
theorem sole_of_same {flying : List Write} (apart : (flying.map (·.index)).Nodup) {target : Target}
    (same : ∀ write ∈ flying, ∀ other ∈ flying, write.target = target → other.target = target →
      write.index = other.index) :
    (flying.filter (·.target = target)).length ≤ 1 := by
  by_contra many
  -- Two of them have different indices by the list, and one index by assumption.
  have apart' : ((flying.filter (·.target = target)).map (·.index)).Nodup :=
    apart.sublist (List.filter_sublist.map _)
  match several : flying.filter (·.target = target) with
  | [] => simp [several] at many
  | [_] => simp [several] at many
  | write :: other :: rest =>
    rw [several] at apart'
    -- Both are writes of the target.
    have inside : ∀ entry ∈ [write, other], entry ∈ flying ∧ entry.target = target := by
      intro entry here
      have there : entry ∈ flying.filter (·.target = target) := by
        rw [several]
        exact List.mem_append_left rest here
      obtain ⟨inFlying, isTarget⟩ := List.mem_filter.mp there
      exact ⟨inFlying, of_decide_eq_true isTarget⟩
    obtain ⟨first, isFirst⟩ := inside write (by simp)
    obtain ⟨second, isSecond⟩ := inside other (by simp)
    simp [same write first other second isFirst isSecond] at apart'

/-- One write of the member is in flight at most. -/
theorem Control.sole_member (control : Control tab) : tab.Sole .member :=
  sole_of_same control.alone fun write inside other inside' target target' => by
    obtain ⟨turn, head, same, -⟩ := control.turn_of_flying inside target
    obtain ⟨turn', head', same', -⟩ := control.turn_of_flying inside' target'
    rw [← same, ← same', Option.some.inj (head.symm.trans head')]

/-- Before the first turn is read no write to the member event is under way. -/
theorem Control.will_member (control : Control tab) {turn : Turn}
    (head : tab.ownMemberWrites.head? = some turn) (unread : turn.read = false) :
    tab.will .member = tab.member := by
  have none_ : tab.flying.find? (·.target = .member) = none :=
    List.find?_eq_none.mpr fun write inside target => by
    obtain ⟨turn', head', -, read⟩ := control.turn_of_flying inside (of_decide_eq_true target)
    rw [Option.some.inj (head.symm.trans head'), read] at unread
    cases unread
  rw [Tab.will, none_]
  rfl

/-! ## Steps -/

/-- The call with its request done and the next not yet begun. -/
def Running.park (running : Running) : Running :=
  { running with requests := .send :: running.requests.tail, progress := .received }

/-- A call that is made and has not begun its first request. -/
def Tab.await (tab : Tab) (call : Call) (requests : List Request) : Tab :=
  { tab with running := tab.running ++ [⟨call, .send :: requests, .received, false⟩] }

/-- A call gives up its turn and has not begun its next request. -/
def Tab.park (tab : Tab) (index : Nat) (running : Running) : Tab :=
  (tab.leave index).update index running.park

/-- A call that has no turn leaves none. -/
theorem leave_of_not_mem (absent : ∀ turn ∈ tab.ownMemberWrites, turn.index ≠ index) :
    tab.leave index = tab := by
  rw [Tab.leave, List.filter_eq_self.mpr fun turn inside => by simpa using absent turn inside]

/-- Without a turn, a call has none to give up. -/
theorem Control.leave (control : Control tab) (is : tab.running[index]? = some running)
    {rest : List Request} (requests : running.requests = .send :: rest) : tab.leave index = tab :=
  leave_of_not_mem fun turn inside same => by
    obtain ⟨running', rest', is', requests', -⟩ := control.turns turn inside
    obtain rfl := Option.some.inj ((same ▸ is').symm.trans is)
    rw [requests] at requests'
    cases requests'

/-- Going on is parking and going on. -/
theorem goOn_eq (tab : Tab) (index : Nat) (running : Running) :
    tab.goOn index running = (tab.park index running).goOn index running.park := by
  have left :
    (tab.park index running).leave index = (tab.leave index).update index running.park := by
    simp [Tab.park, Tab.leave, Tab.update, List.filter_filter]
  rw [Tab.goOn, Tab.goOn, left]
  cases rest : running.requests.tail with
  | nil => simp [Running.park, rest, Tab.launch, Tab.update]
  | cons request _ => cases request <;> simp [Running.park, rest, Tab.launch, Tab.update, Tab.leave]

/-- A new call begins as one that goes on to its first request. -/
theorem Control.begin_eq (control : Control tab) (toLowerCase : Text → Text) {call : Call}
    {requests : List Request} (asks : call.requests toLowerCase = .ok requests) :
    tab.begin toLowerCase call
      = (tab.await call requests).goOn tab.running.length ⟨call, .send :: requests,
        .received, false⟩ := by
  have absent : ∀ turn ∈ (tab.await call requests).ownMemberWrites,
    turn.index ≠ tab.running.length := by
    intro turn inside same
    obtain ⟨_, _, is, -⟩ := control.turns turn inside
    have := (List.getElem?_eq_some_iff.mp is).1
    omega
  rw [Tab.begin, asks, Tab.goOn, leave_of_not_mem absent]
  cases requests with
  | nil => simp [Tab.launch, Tab.update, Tab.await]
  | cons request _ => cases request <;> simp [Tab.launch, Tab.update, Tab.await]

/-- A call that begins keeps the control. -/
theorem Control.await (control : Control tab) (call : Call) (requests : List Request) :
    Control (tab.await call requests) := by
  -- The calls before keep their places.
  have old : ∀ {other : Nat} {entry : Running}, tab.running[other]? = some entry →
    (tab.await call requests).running[other]? = some entry := by
    intro other entry is
    rw [Tab.await, List.getElem?_append_left (List.getElem?_eq_some_iff.mp is).1, is]
  refine ⟨fun turn inside => ?_, control.apart, control.first,
    fun {index running change rest} is requests' => ?_, fun write inside => ?_, control.alone⟩
  · obtain ⟨running, rest, is, facts⟩ := control.turns turn inside
    exact ⟨running, rest, old is, facts⟩
  -- The new call waits for nothing, as it has not begun.
  · rw [Tab.await, List.getElem?_append] at is
    split at is
    · exact control.queued is requests'
    · obtain rfl := List.mem_singleton.mp (List.mem_of_getElem? is)
      cases requests'
  · obtain ⟨running, request, rest, is, facts⟩ := control.flying write inside
    exact ⟨running, request, rest, old is, facts⟩

/-- A call that is parked keeps the control. -/
theorem Control.park (control : Control tab) (is : tab.running[index]? = some running)
    (progress : running.progress = .received) :
    Control (tab.park index running) := by
  refine ⟨fun turn inside => ?_, control.apart.sublist (List.filter_sublist.map _),
    fun turn inside => ?_,
    fun {other running' change rest} is' requests' => ?_, fun write inside => ?_, control.alone⟩
  -- Whoever is left in the queue is not the call that was parked.
  · obtain ⟨there, differs⟩ := List.mem_filter.mp inside
    obtain ⟨running', rest, is', facts⟩ := control.turns turn there
    exact ⟨running',
      rest, by rw [Tab.park, running_update_of_ne (of_decide_eq_true differs)]; exact is', facts⟩
  · exact control.first turn ((List.filter_sublist.tail).subset inside)
  -- The parked call waits no more, so it needs no turn.
  · by_cases same : other = index
    · subst same
      rw [Tab.park, running_update_self (by exact is)] at is'
      obtain rfl := Option.some.inj is'
      cases requests'
    · rw [Tab.park, running_update_of_ne same] at is'
      obtain ⟨turn, there, own⟩ := control.queued is' requests'
      exact ⟨turn, List.mem_filter.mpr ⟨there, decide_eq_true (own ▸ same)⟩, own⟩
  · obtain ⟨running', request, rest, is', requests', sent, target⟩ := control.flying write inside
    -- The call of a write under way has not received its answer.
    have differs : write.index ≠ index := by
      rintro rfl
      rw [Option.some.inj (is.symm.trans is'), sent] at progress
      cases progress
    exact ⟨running', request, rest, by rw [Tab.park, running_update_of_ne differs]; exact is',
      requests', sent, target⟩

/-- Giving up a turn that has been read changes nothing that is still to come. -/
theorem Control.memberWill_park (control : Control tab) (is : tab.running[index]? = some running)
    (progress : running.progress = .received) :
    (tab.park index running).memberWill = tab.memberWill := by
  -- The call that leaves the queue has been read, so the unread turns stay.
  have unread : (tab.park index running).ownMemberWrites.filter (!·.read)
    = tab.ownMemberWrites.filter (!·.read) := by
    simp only [Tab.park, Tab.leave, Tab.update, List.filter_filter]
    refine List.filter_congr fun turn inside => ?_
    by_cases same : turn.index = index
    · obtain ⟨running', _, is', -, waits⟩ := control.turns turn inside
      -- It has its answer, so it waits for none.
      obtain rfl := Option.some.inj ((same ▸ is').symm.trans is)
      have : turn.read = true := by
        by_contra not_
        rw [waits.mp (Bool.eq_false_iff.mpr not_)] at progress
        cases progress
      simp [this]
    · simp [same]
  rw [Tab.memberWill, Tab.memberWill, unread]
  rfl

/-- Nothing is under way for a call that has not begun its next request. -/
theorem Control.idle (control : Control tab) (is : tab.running[index]? = some running)
    (progress : running.progress = .received) :
    ∀ write ∈ tab.flying, write.index ≠ index := by
  rintro write inside rfl
  obtain ⟨running', _, _, is', -, sent, -⟩ := control.flying write inside
  rw [Option.some.inj (is.symm.trans is'), sent] at progress
  cases progress

/-- A call that sends keeps the control. -/
theorem Control.next (control : Control tab) (is : tab.running[index]? = some running)
    (progress : running.progress = .received) {rest : List Request}
    (requests : running.requests = .send :: rest) : Control (tab.goOn index running) := by
  -- A call whose request was sent has no turn and no write under way.
  have noTurn : ∀ turn ∈ tab.ownMemberWrites, turn.index ≠ index := by
    rintro turn inside rfl
    obtain ⟨running', rest', is', requests', -⟩ := control.turns turn inside
    rw [Option.some.inj (is'.symm.trans is), requests] at requests'
    cases requests'
  have idle := control.idle is progress
  -- The turns and the writes of the other calls stay.
  have turns : ∀ (running' : Running), ∀ turn ∈ tab.ownMemberWrites, ∃ entry others,
    (tab.update index running').running[turn.index]? = some entry
      ∧ entry.requests = .updateOwnMember turn.change :: others
      ∧ (turn.read = false ↔ entry.progress = .waiting) := by
    intro running' turn inside
    rw [running_update_of_ne (noTurn turn inside)]
    exact control.turns turn inside
  have flying : ∀ (running' : Running), ∀ write ∈ tab.flying, ∃ entry request others,
    (tab.update index running').running[write.index]? = some entry
      ∧ entry.requests = request :: others ∧ entry.progress = .sent
      ∧ request.target = some write.target := by
    intro running' write inside
    rw [running_update_of_ne (idle write inside)]
    exact control.flying write inside
  have queued : ∀ (running' : Running) {other : Nat} {entry : Running} {change : Content → Content}
    {others : List Request}, other ≠ index →
      (tab.update index running').running[other]? = some entry →
        entry.requests = .updateOwnMember change :: others →
      ∃ turn ∈ tab.ownMemberWrites, turn.index = other := by
    intro running' other entry change others differs is' requests'
    rw [running_update_of_ne differs] at is'
    exact control.queued is' requests'
  have self : ∀ running', (tab.update index running').running[index]? = some running' :=
    running_update_self is
  rw [Tab.goOn, control.leave is requests, requests, List.tail_cons]
  -- By the request that comes next.
  cases rest with
  -- The call is over.
  | nil =>
    refine ⟨turns _, control.apart, control.first, fun {other entry change others} is' requests' =>
      ?_, flying _, control.alone⟩
    by_cases same : other = index
    · subst same
      obtain rfl := Option.some.inj ((self _).symm.trans is')
      cases requests'
    · exact queued _ same is' requests'
  | cons request rest =>
    cases request with
    | send =>
      -- A request of another kind needs neither a turn nor a write.
      refine ⟨turns _, control.apart, control.first,
        fun {other entry change others} is' requests' => ?_, flying _, control.alone⟩
      by_cases same : other = index
      · subst same
        obtain rfl := Option.some.inj ((self _).symm.trans is')
        cases requests'
      · exact queued _ same is' requests'
    | updateOwnMember change =>
      -- A member update gets in line behind all others.
      refine ⟨fun turn inside => ?_, ?_, fun turn inside =>
        ?_, fun {other entry change' others} is' requests' => ?_, flying _, control.alone⟩
      · rcases List.mem_append.mp inside with old | new
        · exact turns _ turn old
        · obtain rfl := List.mem_singleton.mp new
          exact ⟨_, rest, self _, rfl, by simp⟩
      · change ((tab.ownMemberWrites ++ [_]).map Turn.index).Nodup
        rw [List.map_append, List.nodup_append]
        refine ⟨control.apart, by simp, fun other there entry new => ?_⟩
        obtain ⟨turn, inside, rfl⟩ := List.mem_map.mp there
        rw [List.mem_singleton.mp new]
        exact noTurn turn inside
      · have there : turn ∈ (tab.ownMemberWrites ++ [(⟨index, change, false⟩ : Turn)]).tail :=
          inside
        cases queue : tab.ownMemberWrites with
        | nil =>
          rw [queue] at there
          cases there
        | cons front behind =>
          rw [queue, List.cons_append, List.tail_cons] at there
          rcases List.mem_append.mp there with old | new
          · exact control.first turn (by rw [queue]; exact old)
          · rw [List.mem_singleton.mp new]
      · by_cases same : other = index
        · exact ⟨⟨index, change, false⟩, List.mem_append_right _ (List.mem_singleton.mpr rfl),
            same.symm⟩
        · obtain ⟨turn, inside, own⟩ := queued _ same is' requests'
          exact ⟨turn, List.mem_append_left _ inside, own⟩
    | setRoomAccountData type change =>
      -- The room's data are written at once.
      refine ⟨turns _, control.apart, control.first,
        fun {other entry change' others} is' requests' => ?_, fun write inside => ?_, ?_⟩
      · by_cases same : other = index
        · subst same
          obtain rfl := Option.some.inj ((self _).symm.trans is')
          cases requests'
        · exact queued _ same is' requests'
      · rcases List.mem_append.mp inside with old | new
        · exact flying _ write old
        · obtain rfl := List.mem_singleton.mp new
          exact ⟨_, _, rest, self _, rfl, rfl, rfl⟩
      · change ((tab.flying ++ [_]).map Write.index).Nodup
        rw [List.map_append, List.nodup_append]
        refine ⟨control.alone, by simp, fun other there entry new => ?_⟩
        obtain ⟨write, inside, rfl⟩ := List.mem_map.mp there
        rw [List.mem_singleton.mp new]
        exact idle write inside

/-- What the first of requests makes of the member event. -/
def applied : List Request → Content → Content
  | .updateOwnMember change :: _, content => (change content).set (lit "membership")
    (.string (lit "join"))
  | _, content => content

/-- A member write that takes its place in the queue is applied after all others. -/
theorem Control.memberWill_next (control : Control tab) (is : tab.running[index]? = some running)
    {rest : List Request} (requests : running.requests = .send :: rest) :
    (tab.goOn index running).memberWill = applied rest tab.memberWill := by
  rw [Tab.goOn, control.leave is requests, requests, List.tail_cons]
  cases rest with
  | nil => rfl
  | cons request rest =>
    cases request with
    | send => rfl
    | updateOwnMember change =>
      simp only [Tab.memberWill, Tab.launch, Tab.update, List.filter_append, List.foldl_append]
      rfl
    | setRoomAccountData type change =>
      simp [Tab.memberWill, Tab.will, Tab.launch, Tab.update, Tab.held, List.find?_append, applied]

/-- What the first turn finds, when it is read. -/
theorem Control.unread (control : Control tab) {turn : Turn}
    (head : tab.ownMemberWrites.head? = some turn) (unread : turn.read = false)
    (is : tab.running[turn.index]? = some running) :
    (∃ rest, running.requests = .updateOwnMember turn.change :: rest) ∧ running.progress = .waiting
      ∧ tab.ownMemberWrites = turn :: tab.ownMemberWrites.tail := by
  obtain ⟨running', rest, is', requests, waits⟩ := control.turns turn (List.mem_of_head? head)
  obtain rfl := Option.some.inj (is'.symm.trans is)
  exact ⟨⟨rest, requests⟩, waits.mp unread, (List.cons_head?_tail head).symm⟩

/-- A call that reads keeps the control. -/
theorem Control.read (control : Control tab) {turn : Turn}
    (head : tab.ownMemberWrites.head? = some turn) (unread : turn.read = false)
    (is : tab.running[turn.index]? = some running) (joined : isJoined tab.member = true) :
    Control (tab.read turn running) := by
  -- The head of the queue is unread, so its request is not under way.
  obtain ⟨⟨rest, requests⟩, progress, queue⟩ := control.unread head unread is
  have apart := control.apart
  rw [queue, List.map_cons, List.nodup_cons] at apart
  -- Its index is that of nobody else.
  have differs : ∀ other ∈ tab.ownMemberWrites.tail, other.index ≠ turn.index :=
    fun other inside same =>
    apart.1 (same ▸ List.mem_map_of_mem inside)
  -- And no write has it.
  have idle : ∀ write ∈ tab.flying, write.index ≠ turn.index := by
    rintro write inside same
    obtain ⟨running', _, _, is', -, sent, -⟩ := control.flying write inside
    rw [same] at is'
    rw [Option.some.inj (is.symm.trans is'), sent] at progress
    cases progress
  have self : ∀ running', (tab.update turn.index running').running[turn.index]? = some running' :=
    running_update_self is
  rw [Tab.read, if_pos joined]
  refine ⟨fun other inside => ?_, ?_, fun other inside => control.first other inside,
    fun {other entry change others} is' requests' => ?_,
    fun write inside => ?_, ?_⟩
  -- The head is read now, and those behind it are as before.
  · rcases List.mem_cons.mp inside with rfl | behind
    · exact ⟨_, rest, self _, requests, by simp⟩
    · obtain ⟨entry, others, is', facts⟩ :=
        control.turns other (queue ▸ List.mem_cons_of_mem _ behind)
      exact ⟨entry, others, (running_update_of_ne (differs other behind) _).trans is', facts⟩
  · exact List.nodup_cons.mpr apart
  -- Each call that asks for the member stands in the queue.
  · by_cases same : other = turn.index
    · exact ⟨_, List.mem_cons_self, same.symm⟩
    · obtain ⟨own, inside, is_⟩ :=
        control.queued ((running_update_of_ne same _).symm.trans is') requests'
      rw [queue] at inside
      rcases List.mem_cons.mp inside with rfl | behind
      · exact absurd is_.symm same
      · exact ⟨own, List.mem_cons_of_mem _ behind, is_⟩
  -- The write that was sent is that of the head.
  · rcases List.mem_append.mp inside with old | new
    · obtain ⟨entry, request, others, is', facts⟩ := control.flying write old
      exact ⟨entry, request, others, (running_update_of_ne (idle write old) _).trans is', facts⟩
    · obtain rfl := List.mem_singleton.mp new
      exact ⟨_, _, rest, self _, requests, rfl, rfl⟩
  · change ((tab.flying ++ [_]).map Write.index).Nodup
    rw [List.map_append, List.nodup_append]
    -- It is the only one of its call.
    refine ⟨control.alone, by simp, fun other there entry new => ?_⟩
    obtain ⟨write, inside, rfl⟩ := List.mem_map.mp there
    rw [List.mem_singleton.mp new]
    exact idle write inside

/-- Reading leaves what will be written of the member. -/
theorem Control.memberWill_read (control : Control tab) {turn : Turn}
    (head : tab.ownMemberWrites.head? = some turn) (unread : turn.read = false)
    (is : tab.running[turn.index]? = some running) (joined : isJoined tab.member = true) :
    (tab.read turn running).memberWill = tab.memberWill := by
  obtain ⟨-, -, queue⟩ := control.unread head unread is
  have none_ : tab.flying.find? (·.target = .member) = none :=
    List.find?_eq_none.mpr fun write inside target => by
    obtain ⟨turn', head', -, read⟩ := control.turn_of_flying inside (of_decide_eq_true target)
    rw [Option.some.inj (head.symm.trans head'), read] at unread
    cases unread
  have before : tab.memberWill = (tab.ownMemberWrites.tail.filter (!·.read)).foldl Turn.apply
    (Turn.apply tab.member turn) := by
    rw [Tab.memberWill, control.will_member head unread, queue,
      List.filter_cons_of_pos (by simp [unread]), List.foldl_cons, List.tail_cons]
  rw [before, Tab.read, if_pos joined]
  simp only [Tab.memberWill, Tab.will, Tab.update, List.find?_append, none_, Option.none_or]
  rfl

/-- A write that returns keeps the control. -/
theorem Control.receive (control : Control tab) {before after : List Write} {write : Write}
    (flying : tab.flying = before ++ write :: after)
    (is : tab.running[write.index]? = some running) :
    Control (tab.receive before after write running) := by
  have inside : write ∈ tab.flying := by simp [flying]
  -- The write belongs to a call that waits for its answer.
  obtain ⟨running', request, rest, is', requests, sent, -⟩ := control.flying write inside
  obtain rfl := Option.some.inj (is'.symm.trans is)
  have alone := control.alone
  rw [flying, List.map_append, List.map_cons, List.nodup_append, List.nodup_cons] at alone
  -- No other write belongs to this call.
  have differs : ∀ other ∈ before ++ after, other.index ≠ write.index := by
    intro other there same
    rcases List.mem_append.mp there with front | behind
    · exact alone.2.2 other.index (List.mem_map_of_mem front) write.index List.mem_cons_self same
    · exact alone.2.1.1 (same ▸ List.mem_map_of_mem behind)
  have self : ∀ running', (tab.update write.index running').running[write.index]?
    = some running' := running_update_self is
  -- The calls and the queue are those of the update, whatever the target was.
  have running_ : ∀ other : Nat, (tab.receive before after write running').running[other]?
      = (tab.update write.index { running' with progress := .received }).running[other]? := by
    intro other
    rw [Tab.receive]
    cases write.target <;> rfl
  have queue_ :
    (tab.receive before after write running').ownMemberWrites = tab.ownMemberWrites := by
    rw [Tab.receive]
    cases write.target <;> rfl
  refine ⟨fun turn there => ?_, queue_ ▸ control.apart, queue_ ▸ control.first,
    fun {other entry change others} is' requests' => ?_,
    fun other there => ?_, ?_⟩
  · obtain ⟨entry, others, is', requests', waits⟩ := control.turns turn (queue_ ▸ there)
    rw [running_]
    -- The call that was waiting has its answer.
    by_cases same : turn.index = write.index
    · obtain rfl := Option.some.inj ((same ▸ is').symm.trans is)
      refine ⟨{ entry with progress := .received }, others, by rw [same]; exact self _,
        requests', ?_⟩
      simp [waits, sent]
    · exact ⟨entry, others, (running_update_of_ne same _).trans is', requests', waits⟩
  · rw [running_] at is'
    rw [queue_]
    -- Its requests are as before.
    by_cases same : other = write.index
    · subst same
      obtain rfl := Option.some.inj ((self _).symm.trans is')
      exact control.queued is requests'
    · exact control.queued ((running_update_of_ne same _).symm.trans is') requests'
  · have there' : other ∈ before ++ after := by
      rw [Tab.receive] at there
      exact there
    -- A write that is left was there before.
    have inFlying : other ∈ tab.flying := by
      rw [flying]
      rcases List.mem_append.mp there' with front | behind
      · exact List.mem_append_left _ front
      · exact List.mem_append_right _ (List.mem_cons_of_mem _ behind)
    obtain ⟨entry, request', others, is', facts⟩ := control.flying other inFlying
    exact ⟨entry, request',
      others, by rw [running_]; exact (running_update_of_ne (differs other there') _).trans is',
      facts⟩
  -- The indices of the writes left are some of those before.
  · change ((before ++ after).map Write.index).Nodup
    rw [List.map_append, List.nodup_append]
    exact ⟨alone.1, alone.2.1.2, fun other front entry behind =>
      alone.2.2 other front entry (List.mem_cons_of_mem _ behind)⟩

/-- When it is the only one to its target, a write that arrives leaves what the homeserver will hold
as it is. -/
theorem will_receive {before after : List Write} {write : Write}
    (flying : tab.flying = before ++ write :: after) {target : Target} (sole : tab.Sole target) :
    (tab.receive before after write running).will target = tab.will target := by
  have flying_ :
    (tab.receive before after write running).flying = before ++ after := by rw [Tab.receive]; rfl
  -- What was under way for this target was at most this write.
  rw [Tab.will, Tab.will, flying_, flying]
  by_cases same : write.target = target
  -- So none is left, and the content held is what the write brought.
  · have none_ : ∀ other ∈ before ++ after, ¬ decide (other.target = target) = true := by
      rw [Tab.Sole, flying, List.filter_append, List.filter_cons_of_pos (by simpa using same)]
        at sole
      simp only [List.length_append, List.length_cons] at sole
      intro other there isTarget
      have few : (before.filter (·.target = target)).length = 0
        ∧ (after.filter (·.target = target)).length = 0 := by omega
      rcases List.mem_append.mp there with front | behind
      · have this : other ∈ before.filter (·.target = target) :=
          List.mem_filter.mpr ⟨front, isTarget⟩
        rw [List.length_eq_zero_iff.mp few.1] at this
        cases this
      · have this : other ∈ after.filter (·.target = target) :=
          List.mem_filter.mpr ⟨behind, isTarget⟩
        rw [List.length_eq_zero_iff.mp few.2] at this
        cases this
    rw [List.find?_eq_none.mpr none_, List.find?_append,
      List.find?_eq_none.mpr fun other front => none_ other (List.mem_append_left _ front),
        Option.none_or,
      List.find?_cons_of_pos (by simpa using same)]
    subst same
    rw [Tab.receive]
    cases write.target <;> simp [Tab.held, Tab.update]
  -- For another target the write is of no matter.
  · rw [List.find?_append, List.find?_append, List.find?_cons_of_neg (by simpa using same)]
    have held_ : (tab.receive before after write running).held target = tab.held target := by
      rw [Tab.receive]
      cases isTarget : write.target with
      | member =>
        cases target with
        | member => exact absurd isTarget same
        | data type => rfl
      | data type =>
        cases target with
        | member => rfl
        | data type' =>
          have differs : type' ≠ type := fun equal => same (isTarget.trans (by rw [equal]))
          simp [Tab.held, Tab.update, differs]
    rw [held_]

end

end Khala.OwnerEdits
