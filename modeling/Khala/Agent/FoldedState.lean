import Khala.Contracts.ChannelEvent
import Khala.Js.Date

/-! The coordination state of a room, folded from pages of its history and from what an earlier fold
kept. -/

namespace Khala

open Js

def FOLD_PAGES : Nat := 5

def FOLD_EVENTS : Nat := 1000

/-! ## Messages -/

/-- What is read from a decoded channel event; the kind goes with the payload. -/
structure ChannelEventContent where
  key : Option Text
  data : Option CoordinationData
deriving DecidableEq

inductive SessionContent
  | message
  /-- A channel event, or a member's rename, that decodes. -/
  | event (content : ChannelEventContent)
  | unreadable
deriving DecidableEq

structure SessionMessage where
  eventId : Text
  roomId : Text
  sender : Text
  ts : Int
  content : SessionContent
deriving DecidableEq

/-- The part of an inbox entry that a fold reads. -/
structure ScannedEntry where
  eventId : Text
  sender : Text
  senderLabel : Text
  ts : Text
  data : Option CoordinationData

/-- `/^@([^:]+):/`, or the whole name. -/
def localpart : Text → Text
  | 64 :: rest =>
    let name := rest.takeWhile fun u => u ≠ 58
    if name ≠ [] ∧ 58 ∈ rest then name else 64 :: rest
  | userId => userId

/-- How a sender is shown, given the name the session has for them. -/
def senderLabel (displayName : Text → Option Text) (sender : Text) : Text :=
  match displayName sender with
  | some name => if name ≠ [] ∧ name ≠ sender then name else localpart sender
  | none => localpart sender

section

variable (displayName : Text → Option Text) (roomId : Text)

def scannedEntry (message : SessionMessage) : ScannedEntry where
  eventId := message.eventId
  sender := message.sender
  senderLabel := senderLabel displayName message.sender
  ts := toISOString message.ts
  data :=
    match message.content with
    | .event content => content.data
    | _ => none

/-- `inboxEntry`, with the dedupe keys seen so far in the scan. -/
def inboxEntry (seen : List Text) (message : SessionMessage) : Option ScannedEntry × List Text :=
  match message.content with
  | .message => (some (scannedEntry displayName message), seen)
  | .unreadable => (none, seen)
  | .event content =>
    match content.key with
    | none => (some (scannedEntry displayName message), seen)
    | some key => if key ∈ seen then (none, seen)
      else (some (scannedEntry displayName message), key :: seen)

/-- The entries of one page, oldest first. -/
def scanPage : List Text → List SessionMessage → List ScannedEntry × List Text
  | seen, [] => ([], seen)
  | seen, message :: rest =>
    if message.roomId ≠ roomId then scanPage seen rest
    else
      let accepted := inboxEntry displayName seen message
      let others := scanPage accepted.2 rest
      (accepted.1.toList ++ others.1, others.2)

/-- Pages back, newest page first, until there are enough entries or no pages left. -/
def scanPages (enough : List ScannedEntry → Bool) :
    Nat → List Text → List ScannedEntry → List (List SessionMessage) → List ScannedEntry
  | 0, _, entries, _ => entries
  | _, _, entries, [] => entries
  | pages + 1, seen, entries, page :: older =>
    let scanned := scanPage displayName roomId seen page
    let entries := scanned.1 ++ entries
    if older = [] ∨ enough entries = true then entries
      else scanPages enough pages scanned.2 entries older

/-- `scan` from the newest page. -/
def scan (enough : List ScannedEntry → Bool) (pages : List (List SessionMessage)) :
    List ScannedEntry :=
  scanPages displayName roomId enough FOLD_PAGES [] [] pages

def ScannedEntry.coordination (entry : ScannedEntry) : Option CoordinationEvent :=
  entry.data.map fun data => ⟨entry.sender, entry.senderLabel, entry.ts, data⟩

/-- What `fold.json` holds. -/
structure Fold where
  lastEventId : Text
  events : List CoordinationEvent
deriving DecidableEq

/-- Whether a fold was stored when this entry was the newest. -/
def Fold.endsAt (fold : Fold) (entry : ScannedEntry) : Bool :=
  entry.eventId = fold.lastEventId

/-- The events of a fold and of what was scanned after it; all that was scanned, when its last entry
was not. -/
def foldedEvents (cached : Option Fold) (entries : List ScannedEntry) : List CoordinationEvent :=
  match cached.bind fun fold => (entries.findIdx? fold.endsAt).map fun index => (fold, index) with
  | some (fold, index) =>
    fold.events ++ (entries.drop (index + 1)).filterMap ScannedEntry.coordination
  | none => entries.filterMap ScannedEntry.coordination

/-- The state of the room and what is then stored in `fold.json`, if anything. -/
def foldedState (cached : Option Fold) (pages : List (List SessionMessage)) :
    CoordinationState × Option Fold :=
  let entries :=
    scan displayName roomId (fun entries => cached.any fun fold => entries.any fold.endsAt) pages
  let events := foldedEvents cached entries
  let events := events.drop (events.length - FOLD_EVENTS)
  let stored :=
    match entries.getLast? with
    | some newest => if cached.map (·.lastEventId) = some newest.eventId then none
      else some ⟨newest.eventId, events⟩
    | none => none
  (foldCoordination events, stored)

end

/-! ## Events of a room -/

/-- The coordination event that a message of the room carries, its sender shown under the given
label. -/
def coordinationEvent (label : Text → Text) (roomId : Text) (message : SessionMessage) :
    Option CoordinationEvent :=
  if message.roomId = roomId then
    match message.content with
    | .event content => content.data.map fun data =>
      ⟨message.sender, label message.sender, toISOString message.ts, data⟩
    | _ => none
  else none

/-- The coordination events of a history, oldest first. -/
def coordinationEvents (label : Text → Text) (roomId : Text) (history : List SessionMessage) :
    List CoordinationEvent :=
  history.filterMap (coordinationEvent label roomId)

/-- A message that a scan of the room reads. -/
def Readable (roomId : Text) (message : SessionMessage) : Prop :=
  message.roomId = roomId ∧ message.content ≠ .unreadable

/-- The dedupe key of a message. -/
def SessionMessage.key (message : SessionMessage) : Option Text :=
  match message.content with
  | .event content => content.key
  | _ => none

/-- A message of the room that shares its dedupe key with no other. -/
def Alone (roomId : Text) (history : List SessionMessage) (message : SessionMessage) : Prop :=
  Readable roomId message ∧ ∀ other ∈ history, Readable roomId other →
    other.eventId ≠ message.eventId →
    ∀ key, message.key = some key → other.key ≠ some key

/-- No coordination event shares its dedupe key with another event of the room. -/
def KeysApart (roomId : Text) (history : List SessionMessage) : Prop :=
  ∀ message ∈ history, (coordinationEvent id roomId message).isSome → Alone roomId history message

/-! ## Leaving messages out -/

/-- A list of messages from which some were left out: only what may stay stayed, and all that must.
-/
inductive Thinned (may must : SessionMessage → Prop) :
    List SessionMessage → List SessionMessage → Prop
  | nil : Thinned may must [] []
  | keep (message : SessionMessage) {kept all : List SessionMessage} (allowed : may message)
      (rest : Thinned may must kept all) : Thinned may must (message :: kept) (message :: all)
  | skip (message : SessionMessage) {kept all : List SessionMessage} (free : ¬ must message)
      (rest : Thinned may must kept all) : Thinned may must kept (message :: all)

namespace Thinned

variable {may must : SessionMessage → Prop} {kept all : List SessionMessage}

/-- What is kept of two lists is kept of both. -/
theorem append (first : Thinned may must kept all) {kept' all' : List SessionMessage}
    (second : Thinned may must kept' all') :
    Thinned may must (kept ++ kept') (all ++ all') := by
  induction first with
  | nil => exact second
  | keep message allowed rest ih => exact .keep message allowed ih
  | skip message free rest ih => exact .skip message free ih

/-- What is kept was there. -/
theorem mem (thinned : Thinned may must kept all) {message : SessionMessage}
    (inside : message ∈ kept) : message ∈ all := by
  induction thinned with
  | nil => exact inside
  | keep other allowed rest ih =>
    rcases List.mem_cons.mp inside with rfl | later
    · exact List.mem_cons_self
    · exact List.mem_cons_of_mem _ (ih later)
  | skip other free rest ih => exact List.mem_cons_of_mem _ (ih inside)

/-- What is kept may be kept. -/
theorem allowed (thinned : Thinned may must kept all) {message : SessionMessage}
    (inside : message ∈ kept) : may message := by
  induction thinned with
  | nil => simp at inside
  | keep other allowed rest ih =>
    rcases List.mem_cons.mp inside with rfl | later
    · exact allowed
    · exact ih later
  | skip other free rest ih => exact ih inside

/-- What must stay has stayed. -/
theorem mem_of_must (thinned : Thinned may must kept all) {message : SessionMessage}
    (inside : message ∈ all) (stays : must message) : message ∈ kept := by
  induction thinned with
  | nil => exact inside
  | keep other allowed rest ih =>
    rcases List.mem_cons.mp inside with rfl | later
    · exact List.mem_cons_self
    · exact List.mem_cons_of_mem _ (ih later)
  | skip other free rest ih =>
    rcases List.mem_cons.mp inside with rfl | later
    · exact absurd stays free
    · exact ih later

/-- What is read only from messages that must stay reads the same. -/
theorem filterMap_eq {β : Type} (thinned : Thinned may must kept all)
    {read : SessionMessage → Option β}
    (only : ∀ message ∈ all, (read message).isSome → must message) :
    kept.filterMap read = all.filterMap read := by
  induction thinned with
  | nil => rfl
  | keep message allowed rest ih =>
    simp only [List.filterMap_cons]
    rw [ih fun other inside => only other (List.mem_cons_of_mem _ inside)]
  | skip message free rest ih =>
    have silent : read message = none := by
      cases shape : read message with
      | none => rfl
      | some value => exact absurd (only message List.mem_cons_self (by simp [shape])) free
    rw [ih fun other inside => only other (List.mem_cons_of_mem _ inside),
      List.filterMap_cons, silent]

/-- What comes after a message that stayed. -/
theorem after (thinned : Thinned may must kept all) (distinct : (all.map (·.eventId)).Nodup)
    {before later : List SessionMessage} {message : SessionMessage}
    (shape : kept = before ++ message :: later) :
    ∃ first rest, all = first ++ message :: rest ∧ Thinned may must later rest := by
  -- The induction follows how the list was thinned: each message is kept or skipped.
  induction thinned generalizing before with
  | nil => simp at shape
  | keep other allowed rest ih =>
    have fewer : (_ : List Text).Nodup := (List.nodup_cons.mp distinct).2
    cases before with
    -- The message itself: what follows it is the rest on both sides.
    | nil =>
      simp only [List.nil_append, List.cons.injEq] at shape
      obtain ⟨rfl, rfl⟩ := shape
      exact ⟨[], _, rfl, rest⟩
    | cons head before =>
      simp only [List.cons_append, List.cons.injEq] at shape
      obtain ⟨first, remaining, split, thin⟩ := ih fewer shape.2
      exact ⟨other :: first, remaining, by rw [split]; rfl, thin⟩
  -- A skipped message stands in the whole list alone, before the one that is looked for.
  | skip other free rest ih =>
    obtain ⟨first, remaining, split, thin⟩ := ih (List.nodup_cons.mp distinct).2 shape
    exact ⟨other :: first, remaining, by rw [split]; rfl, thin⟩

end Thinned

/-! ## What a scan reads -/

/-- What a scan of some messages keeps: messages of the room, and all that share their keys with no
other. -/
abbrev Scanned (roomId : Text) (history : List SessionMessage) :
    List SessionMessage → List SessionMessage → Prop :=
  Thinned (fun message => message.roomId = roomId) (Alone roomId history)

section

variable (displayName : Text → Option Text) {roomId : Text} {history : List SessionMessage}

/-- The keys that a scan remembers belong to messages it has read. -/
def KeysFrom (roomId : Text) (read : List SessionMessage) (seen : List Text) : Prop :=
  ∀ key ∈ seen, ∃ message ∈ read, Readable roomId message ∧ message.key = some key

/-- Keys stem from every longer list too. -/
theorem KeysFrom.mono {read more : List SessionMessage} {seen : List Text}
    (keys : KeysFrom roomId read seen) (within : ∀ message ∈ read, message ∈ more) :
    KeysFrom roomId more seen := by
  intro key remembered
  obtain ⟨message, member, facts⟩ := keys key remembered
  exact ⟨message, within message member, facts⟩

/-- A message of the room gives its entry, or no entry only when it need not be read; its key is
then remembered. -/
theorem inboxEntry_cases {read : List SessionMessage} {seen : List Text} {message : SessionMessage}
    (keys : KeysFrom roomId read seen) (inside : ∀ other ∈ read, other ∈ history)
    (fresh : ∀ other ∈ read, other.eventId ≠ message.eventId) (here : message.roomId = roomId) :
    ((inboxEntry displayName seen message).1 = some (scannedEntry displayName message)
        ∨ (inboxEntry displayName seen message).1 = none ∧ ¬ Alone roomId history message)
      ∧ KeysFrom roomId (message :: read) (inboxEntry displayName seen message).2 := by
  -- Every key seen stands on some message read, and stays so with one message more.
  have before : KeysFrom roomId (message :: read) seen := keys.mono fun _ member =>
    List.mem_cons_of_mem _ member
  unfold inboxEntry
  cases shape : message.content with
  | message => exact ⟨.inl rfl, before⟩
  | unreadable => exact ⟨.inr ⟨rfl, fun alone => alone.1.2 shape⟩, before⟩
  | event content =>
    have readable : Readable roomId message := ⟨here, by simp [shape]⟩
    have own : message.key = content.key := by simp [SessionMessage.key, shape]
    cases known : content.key with
    | none =>
      simp only [known]
      exact ⟨.inl trivial, before⟩
    | some key =>
      simp only [known] at own ⊢
      by_cases repeated : key ∈ seen
      · -- The key was seen on another message, so this one shares it.
        rw [if_pos repeated]
        obtain ⟨other, member, facts, same⟩ := keys key repeated
        exact ⟨.inr ⟨rfl, fun alone =>
          alone.2 other (inside other member) facts (fresh other member) key own same⟩, before⟩
      -- A new key is remembered together with this message.
      · rw [if_neg repeated]
        refine ⟨.inl rfl, ?_⟩
        intro known remembered
        rcases List.mem_cons.mp remembered with rfl | earlier
        · exact ⟨message, List.mem_cons_self, readable, own⟩
        · exact before known earlier

/-- One page leaves out only messages that share a key, or that the room does not show. -/
theorem scanPage_kept (page : List SessionMessage) {read : List SessionMessage} {seen : List Text}
    (keys : KeysFrom roomId read seen) (inside : ∀ message ∈ page ++ read, message ∈ history)
    (distinct : ((page ++ read).map (·.eventId)).Nodup) :
    (∃ kept, Scanned roomId history kept page
        ∧ (scanPage displayName roomId seen page).1 = kept.map (scannedEntry displayName))
      ∧ KeysFrom roomId (page ++ read) (scanPage displayName roomId seen page).2 := by
  -- Each message of the page joins the messages already read.
  induction page generalizing read seen with
  | nil => exact ⟨⟨[], .nil, rfl⟩, keys⟩
  | cons message rest ih =>
    have moved : (rest ++ message :: read).Perm (message :: rest ++ read) := List.perm_middle
    have inside' : ∀ other ∈ rest ++ message :: read, other ∈ history := fun other member =>
      inside other (moved.mem_iff.mp member)
    have distinct' : ((rest ++ message :: read).map (·.eventId)).Nodup :=
      (moved.map _).nodup_iff.mpr distinct
    have back : ∀ {seen : List Text}, KeysFrom roomId (rest ++ message :: read) seen →
        KeysFrom roomId (message :: rest ++ read) seen := fun keys => keys.mono fun _ member =>
          moved.mem_iff.mp member
    unfold scanPage
    by_cases here : message.roomId = roomId
    · have fresh : ∀ other ∈ read, other.eventId ≠ message.eventId := by
        intro other member same
        have absent : message.eventId ∉ (rest ++ read).map (·.eventId) :=
          (List.nodup_cons.mp distinct).1
        rw [← same] at absent
        exact absent (List.mem_map_of_mem (List.mem_append_right _ member))
      rw [if_neg (not_not_intro here)]
      obtain ⟨accepted, keys'⟩ := inboxEntry_cases displayName keys
        (fun other member =>
          inside other (List.mem_cons_of_mem _ (List.mem_append_right _ member))) fresh here
      obtain ⟨⟨kept, thinned, entries⟩, after⟩ := ih keys' inside' distinct'
      refine ⟨?_, back after⟩
      dsimp only
      rw [entries]
      rcases accepted with taken | ⟨dropped, shared⟩
      · exact ⟨message :: kept, .keep message here thinned, by rw [taken]; rfl⟩
      · exact ⟨kept, .skip message shared thinned, by rw [dropped]; rfl⟩
    · rw [if_pos here]
      have keys' : KeysFrom roomId (message :: read) seen := keys.mono fun _ member =>
        List.mem_cons_of_mem _ member
      obtain ⟨⟨kept, thinned, entries⟩, after⟩ := ih keys' inside' distinct'
      exact ⟨⟨kept, .skip message (fun alone => here alone.1.1) thinned, entries⟩, back after⟩

/-- A scan reads the end of the history: all the pages it may read, or enough of them. -/
theorem scanPages_kept (history : List SessionMessage) (enough : List ScannedEntry → Bool)
    (count : Nat) (pages : List (List SessionMessage)) {seen : List Text}
    {newer kept : List SessionMessage} (thinned : Scanned roomId history kept newer)
    (keys : KeysFrom roomId newer seen)
    (inside : ∀ message ∈ pages.reverse.flatten ++ newer, message ∈ history)
    (distinct : ((pages.reverse.flatten ++ newer).map (·.eventId)).Nodup) :
    ∃ older scanned kept', pages.reverse.flatten ++ newer = older ++ scanned
      ∧ Scanned roomId history kept' scanned
      ∧ scanPages displayName roomId enough count seen (kept.map (scannedEntry displayName)) pages
          = kept'.map (scannedEntry displayName)
      ∧ (scanned = (pages.take count).reverse.flatten ++ newer
        ∨ enough (kept'.map (scannedEntry displayName)) = true) := by
  -- The induction is on the number of pages that may still be read.
  induction count generalizing seen newer kept pages with
  | zero => exact ⟨pages.reverse.flatten, newer, kept, rfl, thinned, rfl, .inl (by simp)⟩
  | succ count ih =>
    cases pages with
    | nil => exact ⟨[], newer, kept, by simp, thinned, rfl, .inl (by simp)⟩
    | cons page pages =>
      have whole : (page :: pages).reverse.flatten ++ newer = pages.reverse.flatten
        ++ (page ++ newer) := by simp
      rw [whole] at inside distinct ⊢
      -- Identifiers are distinct within the page and what is newer.
      have suffix : ((page ++ newer).map (·.eventId)).Nodup := by
        rw [List.map_append] at distinct
        exact (List.nodup_append.mp distinct).2.1
      -- The page keeps a thinned part of its messages, and so do both together.
      obtain ⟨⟨read, thin, entries⟩, keys'⟩ := scanPage_kept displayName page keys
        (fun message member => inside message (List.mem_append_right _ member)) suffix
      have both := thin.append thinned
      unfold scanPages
      simp only [entries, ← List.map_append]
      split
      -- The scan stops here: all pages are read, or there is enough.
      next stop =>
        refine ⟨pages.reverse.flatten, page ++ newer, read ++ kept, rfl, both, rfl, ?_⟩
        rcases stop with done | found
        · exact .inl (by simp [done])
        · exact .inr found
      -- The scan goes on with the next older page.
      next =>
        obtain ⟨older, scanned, kept', split, thin', result, stop⟩ :=
          ih pages both keys' inside distinct
        exact ⟨older, scanned, kept', split, thin', result, by simpa using stop⟩

end

/-! ## Folding from a cache -/

/-- What a stored fold holds: the coordination events up to the message it names. -/
def Fold.UpTo (label : Text → Text) (roomId : Text) (history : List SessionMessage) (fold : Fold) :
    Prop :=
  ∃ before message later, history = before ++ message :: later ∧ message.eventId = fold.lastEventId
    ∧ fold.events = coordinationEvents label roomId (before ++ [message])

/-- A fold of a history is one of a longer history. -/
theorem Fold.UpTo.append {label : Text → Text} {roomId : Text} {history : List SessionMessage}
    {fold : Fold} (upTo : fold.UpTo label roomId history) (more : List SessionMessage) :
    fold.UpTo label roomId (history ++ more) := by
  obtain ⟨before, message, later, split, facts⟩ := upTo
  exact ⟨before, message, later ++ more, by simp [split], facts⟩

/-- The pages of a history that a fold can take whole, whatever it has cached. -/
structure Foldable (displayName : Text → Option Text) (label : Text → Text) (roomId : Text)
    (history : List SessionMessage) (cached : Option Fold) (pages : List (List SessionMessage)) :
    Prop where
  /-- The pages are the history, newest first. -/
  paged : pages.reverse.flatten = history
  distinct : (history.map (·.eventId)).Nodup
  /-- The fold keeps every event. -/
  few : (coordinationEvents label roomId history).length ≤ FOLD_EVENTS
  /-- No coordination event shares its dedupe key. -/
  apart : KeysApart roomId history
  /-- The senders of coordination events are shown as they always are. -/
  shown : ∀ message ∈ history, (coordinationEvent id roomId message).isSome →
    senderLabel displayName message.sender = label message.sender
  /-- All the pages can be read, or those that can be read hold the cached message, which shares its
  key with no other. -/
  reaches : pages.length ≤ FOLD_PAGES ∨ ∃ fold, cached = some fold
    ∧ ∃ message ∈ (pages.take FOLD_PAGES).flatten, Alone roomId history message
    ∧ message.eventId = fold.lastEventId

section

variable {displayName : Text → Option Text} {label : Text → Text} {roomId : Text}
    {history : List SessionMessage}
  {cached : Option Fold} {pages : List (List SessionMessage)}

/-- Whether a message is a coordination event does not depend on the labels. -/
theorem coordinationEvent_isSome (label : Text → Text) (message : SessionMessage) :
    (coordinationEvent label roomId message).isSome
      = (coordinationEvent id roomId message).isSome := by
  unfold coordinationEvent
  split
  · cases message.content <;> simp
  · rfl

/-- Apart from how its sender is shown, the event of a message is the same under all labels. -/
theorem coordinationEvent_shown (label label' : Text → Text) (message : SessionMessage) :
    (coordinationEvent label roomId message).map (fun event => (event.sender, event.data))
      = (coordinationEvent label' roomId message).map fun event => (event.sender, event.data) := by
  unfold coordinationEvent
  split
  · cases message.content with
    | event content => cases content with | mk key data => cases data <;> rfl
    | message => rfl
    | unreadable => rfl
  · rfl

/-- The entry of a readable message carries its coordination event. -/
theorem coordination_scannedEntry {message : SessionMessage} (here : message.roomId = roomId)
    (shown : (coordinationEvent id roomId message).isSome →
      senderLabel displayName message.sender = label message.sender) :
    (scannedEntry displayName message).coordination = coordinationEvent label roomId message := by
  -- Both sides read the content, and only an event with a payload takes the label.
  unfold coordinationEvent at shown ⊢
  rw [if_pos here] at shown ⊢
  unfold ScannedEntry.coordination scannedEntry
  cases content : message.content with
  | message => rfl
  | unreadable => rfl
  | event content' =>
    cases data : content'.data with
    | none => simp [data]
    | some payload =>
      have name := shown (by simp [content, data])
      simp [data, name]

/-- What is scanned of the room's coordination events is what its messages carry. -/
theorem coordination_of_scanned (foldable : Foldable displayName label roomId history cached pages)
    {kept all : List SessionMessage} (within : ∀ message ∈ all, message ∈ history)
    (scanned : Scanned roomId history kept all) :
    (kept.map (scannedEntry displayName)).filterMap ScannedEntry.coordination
      = coordinationEvents label roomId all := by
  have read : ∀ message ∈ kept,
      (ScannedEntry.coordination ∘ scannedEntry displayName) message
        = coordinationEvent label roomId message := by
    intro message inside
    exact coordination_scannedEntry (scanned.allowed inside)
      (foldable.shown message (within message (scanned.mem inside)))
  rw [List.filterMap_map, List.filterMap_congr read]
  apply scanned.filterMap_eq
  intro message inside carries
  rw [coordinationEvent_isSome] at carries
  exact foldable.apart message (within message inside) carries

/-- The end of a list is settled by what it starts with. -/
theorem later_eq_of_split (distinct : (history.map (·.eventId)).Nodup)
    {before before' later later' : List SessionMessage} {message message' : SessionMessage}
    (split : history = before ++ message :: later)
    (split' : history = before' ++ message' :: later') (same : message.eventId = message'.eventId) :
    before = before' ∧ message = message' ∧ later = later' := by
  subst split
  -- The induction is on what comes first in one of the two splits.
  induction before generalizing before' with
  | nil =>
    cases before' with
    | nil =>
      simp only [List.nil_append, List.cons.injEq] at split'
      exact ⟨rfl, split'⟩
    | cons first rest =>
      simp only [List.nil_append, List.cons_append, List.cons.injEq] at split'
      obtain ⟨rfl, rfl⟩ := split'
      -- The message would stand twice in the history, at its head and further on.
      have absent := (List.nodup_cons.mp distinct).1
      exact absurd (List.mem_map.mpr ⟨message', by simp, same.symm⟩) absent
  | cons first rest ih =>
    cases before' with
    | nil =>
      simp only [List.nil_append, List.cons_append, List.cons.injEq] at split'
      obtain ⟨rfl, rfl⟩ := split'
      have absent := (List.nodup_cons.mp distinct).1
      exact absurd (List.mem_map.mpr ⟨message, by simp, same⟩) absent
    | cons first' rest' =>
      simp only [List.cons_append, List.cons.injEq] at split'
      obtain ⟨rfl, rest⟩ := split'
      obtain ⟨rfl, facts⟩ := ih (List.nodup_cons.mp distinct).2 rest
      exact ⟨rfl, facts⟩

/-- The coordination events of two histories are those of each. -/
theorem coordinationEvents_append (one two : List SessionMessage) :
    coordinationEvents label roomId (one ++ two) = coordinationEvents label roomId one
      ++ coordinationEvents label roomId two :=
  List.filterMap_append

/-- The coordination events of the whole history, from a scan and what an earlier fold kept. -/
theorem events_of_scan (foldable : Foldable displayName label roomId history cached pages)
    (upTo : ∀ fold, cached = some fold → fold.UpTo label roomId history)
    {older scanned kept : List SessionMessage} (split : history = older ++ scanned)
    (thinned : Scanned roomId history kept scanned)
    (stop : scanned = (pages.take FOLD_PAGES).reverse.flatten
      ∨ (cached.any fun fold => (kept.map (scannedEntry displayName)).any fold.endsAt) = true) :
    foldedEvents cached (kept.map (scannedEntry displayName))
      = coordinationEvents label roomId history := by
  have within : ∀ message ∈ scanned, message ∈ history := fun message inside => by
    rw [split]
    exact List.mem_append_right _ inside
  unfold foldedEvents
  split
  next fold index found =>
    -- The cached message was read again: what came before it is cached, what came after was read.
    obtain ⟨fold', known, position⟩ := Option.bind_eq_some_iff.mp found
    obtain ⟨index', place, same⟩ := Option.map_eq_some_iff.mp position
    cases same
    obtain ⟨before, message, later, cut, named, events⟩ := upTo fold known
    obtain ⟨bound, named', -⟩ := List.findIdx?_eq_some_iff_getElem.mp place
    rw [List.length_map] at bound
    rw [List.getElem_map, Fold.endsAt, decide_eq_true_eq] at named'
    have shape : kept = kept.take index ++ kept[index] :: kept.drop (index + 1) := by simp
    have distinct : (scanned.map (·.eventId)).Nodup := by
      have whole := foldable.distinct
      rw [split, List.map_append] at whole
      exact (List.nodup_append.mp whole).2.1
    obtain ⟨first, rest, scannedSplit, thin⟩ := thinned.after distinct shape
    have whole :
      history = (older ++ first) ++ kept[index] :: rest := by
      rw [split, scannedSplit, List.append_assoc]
    obtain ⟨-, -, rfl⟩ := later_eq_of_split foldable.distinct cut whole (named.trans named'.symm)
    have tail := coordination_of_scanned foldable
      (fun message inside => within message (by rw [scannedSplit]; simp [inside])) thin
    rw [← List.map_drop, tail, events, cut, ← coordinationEvents_append]
    simp
  next unseen =>
    -- The cached message was not read, so everything was.
    have nowhere : ∀ fold, cached = some fold → ∀ message ∈ kept,
      message.eventId ≠ fold.lastEventId := by
      rintro fold rfl message inside named
      have missing := Option.bind_eq_none_iff.mp unseen fold rfl
      rw [Option.map_eq_none_iff, List.findIdx?_eq_none_iff] at missing
      exact of_decide_eq_false (missing _ (List.mem_map_of_mem inside)) named
    have read : scanned = (pages.take FOLD_PAGES).reverse.flatten := by
      rcases stop with read | enough
      · exact read
      · obtain ⟨fold, known, found⟩ := Option.any_eq_true _ _ |>.mp enough
        obtain ⟨entry, member, named⟩ := List.any_eq_true.mp found
        obtain ⟨message, inside, rfl⟩ := List.mem_map.mp member
        exact absurd (of_decide_eq_true named) (nowhere fold known message inside)
    have all : scanned = history := by
      rcases foldable.reaches with short | ⟨fold, known, message, member, alone, named⟩
      · rw [read, List.take_of_length_le short, foldable.paged]
      · -- A message that shares its key with no other cannot have been left out.
        have inside : message ∈ scanned := by
          rw [read]
          simpa [and_comm] using member
        exact absurd named (nowhere fold known message (thinned.mem_of_must inside alone))
    rw [coordination_of_scanned foldable within thinned, all]

/-- One call: it folds the whole history, and stores what it has read of it. -/
theorem foldedState_eq (foldable : Foldable displayName label roomId history cached pages)
    (upTo : ∀ fold, cached = some fold → fold.UpTo label roomId history) :
    (foldedState displayName roomId cached pages).1 = foldCoordination
    (coordinationEvents label roomId history)
      ∧ ∀ fold, (foldedState displayName roomId cached pages).2 = some fold →
      fold.UpTo label roomId history := by
  have whole : pages.reverse.flatten ++ [] = history := by rw [List.append_nil, foldable.paged]
  obtain ⟨older, scanned, kept, split, thinned, result, stop⟩ := scanPages_kept displayName history
    (fun entries => cached.any fun fold => entries.any fold.endsAt) FOLD_PAGES pages .nil
    (fun key (remembered : key ∈ []) => absurd remembered List.not_mem_nil)
    (fun message inside => whole ▸ inside) (whole ▸ foldable.distinct)
  rw [whole] at split
  rw [List.append_nil] at stop
  have events := events_of_scan foldable upTo split thinned stop
  have latest : (coordinationEvents label roomId history).length - FOLD_EVENTS = 0 :=
    Nat.sub_eq_zero_of_le foldable.few
  unfold foldedState scan
  simp only [List.map_nil] at result
  simp only [result, events, latest, List.drop_zero, true_and]
  intro fold stored
  split at stored
  next newest last =>
    -- After the newest message that was kept there is no coordination event.
    split at stored
    · cases stored
    · cases stored
      rw [List.getLast?_map, Option.map_eq_some_iff] at last
      obtain ⟨message, end', rfl⟩ := last
      obtain ⟨before, shape⟩ := List.getLast?_eq_some_iff.mp end'
      have distinct : (scanned.map (·.eventId)).Nodup := by
        have all := foldable.distinct
        rw [split, List.map_append] at all
        exact (List.nodup_append.mp all).2.1
      obtain ⟨first, rest, cut, thin⟩ := thinned.after distinct shape
      have within : ∀ other ∈ rest, other ∈ history := fun other inside => by
        rw [split, cut]
        simp [inside]
      have silent := coordination_of_scanned foldable within thin
      refine ⟨older ++ first, message, rest, by rw [split, cut, List.append_assoc], rfl, ?_⟩
      rw [split, cut, ← List.append_assoc, List.append_cons, coordinationEvents_append, ← silent]
      simp
  next => cases stored

/-- What `fold.json` can hold when the room has a history, after any calls of `foldedState` that
could take the history whole. -/
inductive FoldFile (label : Text → Text) (roomId : Text) : List SessionMessage → Option Fold → Prop
  /-- Nothing is folded before the first call. -/
  | absent : FoldFile label roomId [] none
  /-- The room's history grows. -/
  | sent {history : List SessionMessage} {file : Option Fold} (more : List SessionMessage)
      (before : FoldFile label roomId history file) : FoldFile label roomId (history ++ more) file
  /-- A call reads the file, or fails to, and writes it, or fails to. -/
  | folded {history : List SessionMessage} {file read written : Option Fold}
    (displayName : Text → Option Text)
      (pages : List (List SessionMessage)) (before : FoldFile label roomId history file)
      (reads : read = file ∨ read = none)
      (foldable : Foldable displayName label roomId history read pages)
      (writes : written = file
        ∨ written = ((foldedState displayName roomId read pages).2.or file)) :
      FoldFile label roomId history written

/-- The fold on file is of the history, whatever was sent and folded. -/
theorem FoldFile.upTo {file : Option Fold} (run : FoldFile label roomId history file) :
    ∀ fold, file = some fold → fold.UpTo label roomId history := by
  -- The induction is over the writes of the file: a send appends, a fold folds from what it read.
  induction run with
  | absent => simp
  | sent more before ih => exact fun fold held => (ih fold held).append more
  | @folded history file read written displayName pages before reads foldable writes ih =>
    -- What the fold reads is the file or nothing, so it is right up to where it goes.
    have known : ∀ fold, read = some fold → fold.UpTo label roomId history := by
      rcases reads with rfl | rfl
      · exact ih
      · simp
    intro fold held
    rcases writes with rfl | rfl
    · exact ih fold held
    -- A write that fails keeps the file, which was right already.
    · rcases Option.or_eq_some_iff.mp held with stored | ⟨-, kept⟩
      · exact (foldedState_eq foldable known).2 fold stored
      · exact ih fold kept

/-- The coordination state is that of the room's history, whatever was cached before and however the
history is paged, when no coordination event shares its key and the cached message is within reach;
the holders are then the same for everyone. -/
theorem foldedState_of_history {file : Option Fold} (run : FoldFile label roomId history file)
    (reads : cached = file ∨ cached = none)
    (foldable : Foldable displayName label roomId history cached pages) :
    (foldedState displayName roomId cached pages).1 = foldCoordination
    (coordinationEvents label roomId history)
      ∧ ∀ label', (foldedState displayName roomId cached pages).1.holders
        = (foldCoordination (coordinationEvents label' roomId history)).holders := by
  have known : ∀ fold, cached = some fold → fold.UpTo label roomId history := by
    rcases reads with rfl | rfl
    · exact run.upTo
    · simp
  have state := (foldedState_eq foldable known).1
  refine ⟨state, fun label' => ?_⟩
  rw [state]
  apply holders_foldCoordination
  -- The two lists differ only in how the senders are shown.
  simp only [coordinationEvents, List.map_filterMap, coordinationEvent_shown label label']

end

/-! ## A shared dedupe key -/

section

private def claimed (eventId sender : String) (key : Option Text) : SessionMessage :=
  ⟨lit eventId, lit "!room", lit sender, 0, .event ⟨key, some (.claim (lit "build"))⟩⟩

private def released (eventId sender : String) : SessionMessage :=
  ⟨lit eventId, lit "!room", lit sender, 0, .event ⟨none, some (.release (lit "build"))⟩⟩

/-- A claim, its release and a second claim under the same dedupe key. -/
private def sharedKey : List SessionMessage :=
  [claimed "$1" "@ada:khala" (some (lit "build-1")), released "$2" "@ada:khala",
    claimed "$3" "@bo:khala" (some (lit "build-1"))]

/-- When two coordination events share a dedupe key, who holds a claim depends on where the pages of
the history end. -/
theorem holders_depend_on_pages :
    ¬ ∀ (displayName : Text → Option Text) (roomId : Text) (history : List SessionMessage)
    (pages pages' : List (List SessionMessage)), (history.map (·.eventId)).Nodup →
    history.length ≤ FOLD_PAGES * 100 →
    (coordinationEvents id roomId history).length ≤ FOLD_EVENTS → pages.reverse.flatten = history →
    pages'.reverse.flatten = history →
    (foldedState displayName roomId none pages).1.holders
      = (foldedState displayName roomId none pages').1.holders := by
  intro same
  have split : [sharedKey.drop 2, sharedKey.take 2].reverse.flatten = sharedKey := rfl
  have differ := same (fun _ => none) (lit "!room") sharedKey [sharedKey]
    [sharedKey.drop 2, sharedKey.take 2]
    (by decide) (by decide) (by decide) rfl split
  -- In one page the second claim is the duplicate; in two pages the first claim is.
  revert differ
  decide

private def firstClaim : SessionMessage := claimed "$1" "@ada:khala" (some (lit "build-1"))

private def laterMessage : SessionMessage := ⟨lit "$2", lit "!room", lit "@bo:khala", 0, .message⟩

private def cachedClaim : Fold :=
  ⟨lit "$1", coordinationEvents localpart (lit "!room") [firstClaim]⟩

/-- A history of one or two messages can be folded from one page. -/
private theorem foldable_small {cached : Option Fold} {history : List SessionMessage}
    (which : history = [firstClaim] ∨ history = [firstClaim, laterMessage]) :
    Foldable (fun _ => none) localpart (lit "!room") history cached [history] where
  paged := by simp
  distinct := by rcases which with rfl | rfl <;> decide
  few := by rcases which with rfl | rfl <;> decide
  apart := by
    have members : ∀ message ∈ history, message = firstClaim ∨ message = laterMessage := by
      rcases which with rfl | rfl <;> simp
    intro message inside carries
    -- Only the claim carries an event, and the other message has no key.
    rcases members message inside with rfl | rfl
    · refine ⟨⟨rfl, by decide⟩, fun other among _ apart key _ => ?_⟩
      rcases members other among with rfl | rfl
      · exact absurd rfl apart
      · have unkeyed : laterMessage.key = none := rfl
        simp [unkeyed]
    · exact absurd carries (by decide)
  shown _ _ _ := rfl
  reaches := .inl (Nat.le_add_left 1 4)

/-- A claim that was cached, and a message sent later. -/
theorem foldedState_of_history_cached :
    (foldedState (fun _ => none) (lit "!room") (some cachedClaim) [[firstClaim, laterMessage]]).1
      = foldCoordination (coordinationEvents localpart (lit "!room") [firstClaim, laterMessage])
    ∧ ∀ label', (foldedState (fun _ => none) (lit "!room") (some cachedClaim)
      [[firstClaim, laterMessage]]).1.holders
        = (foldCoordination (coordinationEvents label' (lit "!room")
          [firstClaim, laterMessage])).holders :=
  have stored : FoldFile localpart (lit "!room") [firstClaim] (some cachedClaim) :=
    .folded (fun _ => none) [[firstClaim]] (.sent [firstClaim] .absent) (.inl rfl)
      (foldable_small (.inl rfl)) (.inr rfl)
  foldedState_of_history (stored.sent [laterMessage]) (.inl rfl) (foldable_small (.inr rfl))

end

end Khala
