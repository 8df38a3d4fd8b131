import Khala.Js.Map
import Khala.Js.Members
import Khala.Js.Utf8
import Mathlib.Data.Finset.Card
import Mathlib.Data.List.Rotate
import Mathlib.Data.List.Sort

/-! The colours that a channel's members have on a viewer's page. -/

namespace Khala

open Js

/-- `HUMAN_COLOR_IDS`. -/
inductive HumanColorId
  | red | orange | amber | lime | green | teal | blue | indigo | purple | pink
deriving DecidableEq, Repr

def humanColorIds : List HumanColorId :=
  [.red, .orange, .amber, .lime, .green, .teal, .blue, .indigo, .purple, .pink]

/-- `CHANNEL_SHADE_COUNT`. -/
def channelShadeCount : Nat := 8

/-- A base colour as its shade zero, or one of its shades. -/
structure ChannelColorKey where
  base : HumanColorId
  shade : Fin (channelShadeCount + 1)
deriving DecidableEq

/-- 32-bit FNV-1a of the UTF-8 bytes of a text. -/
def fnv1a (value : Text) : UInt32 :=
  (encodeUtf8 value).foldl (fun hash byte => (hash ^^^ byte.toUInt32) * 0x01000193) 0x811c9dc5

/-- The base colours and a ring of shades for every ten further members. -/
def channelPalette (members : Nat) : List ChannelColorKey :=
  let rings := min (max 1 ((members + 9) / humanColorIds.length)) (channelShadeCount + 1)
  (List.range rings).flatMap fun ring => humanColorIds.map fun id => ⟨id, Fin.ofNat _ ring⟩

/-- A human by the owner's id, or an agent by its own. -/
structure ColorMember where
  id : Text
  ownerId : Text
  pick : Option ChannelColorKey
deriving DecidableEq

/-- The first member of every id. -/
def firstById (input : List ColorMember) : List ColorMember :=
  input.foldl (fun kept member => if kept.any (·.id == member.id) then kept else kept ++ [member])
    []

/-- The two digits of a member's rank as one number: whether it is the viewer's, and whether it is a
human. -/
def rank (viewerOwnerId : Text) (member : ColorMember) : Nat :=
  (if member.ownerId = viewerOwnerId then 0 else 2) + if member.id = member.ownerId then 0 else 1

def isRanked (viewerOwnerId : Text) (a b : ColorMember) : Bool :=
  rank viewerOwnerId a < rank viewerOwnerId b
    || (rank viewerOwnerId a == rank viewerOwnerId b && textLe a.id b.id)

def rankedMembers (viewerOwnerId : Text) (input : List ColorMember) : List ColorMember :=
  (firstById input).mergeSort (isRanked viewerOwnerId)

structure Coloring where
  taken : Finset ChannelColorKey
  keys : Map Text ChannelColorKey

def Coloring.take (state : Coloring) (id : Text) (key : ChannelColorKey) : Coloring :=
  ⟨insert key state.taken, state.keys.set id key⟩

/-- A member keeps its pick when it is not taken yet. -/
def takePick (state : Coloring) (member : ColorMember) : Coloring :=
  match member.pick with
  | some pick => if pick ∈ state.taken then state else state.take member.id pick
  | none => state

/-- Where a member's search through the palette starts. -/
def paletteStart (palette : List ChannelColorKey) (member : ColorMember) : Nat :=
  match member.pick with
  | some pick => if pick ∈ palette then palette.idxOf pick
    else (fnv1a member.id).toNat % palette.length
  | none => (fnv1a member.id).toNat % palette.length

/-- A member without a key takes the first palette colour from its start on that is free. -/
def takeFree (palette : List ChannelColorKey) (state : Coloring) (member : ColorMember) :
    Coloring :=
  if (state.keys.get member.id).isSome then state
  else
    let turned := palette.rotate (paletteStart palette member)
    match (turned.find? (· ∉ state.taken)).or turned.head? with
    | some free => state.take member.id free
    | none => state

/-- Every member's key. -/
def channelColorKeys (viewerOwnerId : Text) (input : List ColorMember) : Map Text ChannelColorKey :=
  let members := rankedMembers viewerOwnerId input
  let picked := members.foldl takePick ⟨∅, .empty⟩
  (members.foldl (takeFree (channelPalette members.length)) picked).keys

/-- Every member's colour, as its key is drawn. -/
def resolveChannelColors {γ : Type} (colorOf : ChannelColorKey → γ) (viewerOwnerId : Text)
    (input : List ColorMember) : Map Text γ :=
  (channelColorKeys viewerOwnerId input).mapValues colorOf

/-! ## The palette -/

/-- Up to ninety members, a palette has a colour for each, all different. -/
theorem channelPalette_enough {members : Nat}
    (few : members ≤ (channelShadeCount + 1) * humanColorIds.length) :
    (channelPalette members).Nodup ∧ members ≤ (channelPalette members).length := by
  constructor
  · rw [channelPalette, List.nodup_flatMap]
    refine ⟨fun ring _ => List.Nodup.map ?_ (by decide), ?_⟩
    · intro one other same
      exact congrArg ChannelColorKey.base same
    -- Two rings have different shades.
    · refine List.nodup_range.imp_of_mem fun {one two} first second apart => ?_
      rw [List.mem_range, Nat.lt_min] at first second
      intro key inside inside'
      obtain ⟨id, -, rfl⟩ := List.mem_map.mp inside
      obtain ⟨id', -, same⟩ := List.mem_map.mp inside'
      have shade := congrArg (fun key : ChannelColorKey => key.shade.val) same
      simp only [Fin.val_ofNat, Nat.mod_eq_of_lt first.2, Nat.mod_eq_of_lt second.2] at shade
      exact apart shade.symm
  · have bounds : humanColorIds.length = 10 ∧ channelShadeCount = 8 := ⟨rfl, rfl⟩
    rw [bounds.1, bounds.2] at few
    simp only [channelPalette, List.length_flatMap, List.length_map, bounds, List.map_const',
      List.sum_replicate_nat, List.length_range]
    omega

/-! ## Ranks -/

variable {viewerOwnerId : Text}

/-- One of two members comes before the other. -/
def Precedes (viewerOwnerId : Text) (a b : ColorMember) : Prop :=
  isRanked viewerOwnerId a b = true ∧ a.id ≠ b.id

/-- Of two members one comes first, or they are level. -/
private theorem isRanked_total (a b : ColorMember) :
    (isRanked viewerOwnerId a b || isRanked viewerOwnerId b a) = true := by
  simp only [isRanked]
  rcases Nat.lt_trichotomy (rank viewerOwnerId a) (rank viewerOwnerId b) with less | same | more
  · simp [less]
  · simpa [same] using textLe_total a.id b.id
  · simp [more]

/-- The order of members is transitive. -/
private theorem isRanked_trans (a b c : ColorMember) (first : isRanked viewerOwnerId a b = true)
    (second : isRanked viewerOwnerId b c = true) : isRanked viewerOwnerId a c = true := by
  simp only [isRanked, Bool.or_eq_true, Bool.and_eq_true, decide_eq_true_eq, beq_iff_eq] at *
  rcases first with less | ⟨same, le⟩
  · rcases second with less' | ⟨same', -⟩
    · exact .inl (Nat.lt_trans less less')
    · exact .inl (same' ▸ less)
  · rcases second with less' | ⟨same', le'⟩
    · exact .inl (same ▸ less')
    · exact .inr ⟨same.trans same', textLe_trans le le'⟩

/-- Members that are level are one. -/
private theorem isRanked_antisymm {a b : ColorMember} (first : isRanked viewerOwnerId a b = true)
    (second : isRanked viewerOwnerId b a = true) : a.id = b.id := by
  simp only [isRanked, Bool.or_eq_true, Bool.and_eq_true, decide_eq_true_eq, beq_iff_eq] at *
  rcases first with less | ⟨same, le⟩
  · rcases second with more | ⟨same', -⟩
    · exact absurd less (Nat.lt_asymm more)
    · exact absurd less (same' ▸ Nat.lt_irrefl _)
  · rcases second with more | ⟨-, ge⟩
    · exact absurd more (same ▸ Nat.lt_irrefl _)
    · exact textLe_antisymm le ge

/-- Of two members not both come first. -/
theorem Precedes.asymm {a b : ColorMember} (first : Precedes viewerOwnerId a b) :
    ¬ Precedes viewerOwnerId b a :=
  fun second => first.2 (isRanked_antisymm first.1 second.1)

/-- Members that differ are all kept. -/
theorem firstById_of_nodup {input : List ColorMember} (distinct : (input.map (·.id)).Nodup) :
    firstById input = input := by
  induction input using List.reverseRecOn with
  | nil => rfl
  | append_singleton rest member ih =>
    rw [List.map_append, List.nodup_append] at distinct
    obtain ⟨front, -, apart⟩ := distinct
    have fresh : (rest.any (·.id == member.id)) = false := by
      rw [List.any_eq_false]
      intro other inside same
      exact apart _ (List.mem_map_of_mem inside) _ List.mem_cons_self (beq_iff_eq.mp same)
    have before : rest.foldl (fun kept member => if kept.any (·.id == member.id) then kept
      else kept ++ [member]) [] = rest := ih front
    rw [firstById, List.foldl_append, before, List.foldl_cons, List.foldl_nil, fresh,
      if_neg Bool.false_ne_true]

section

variable {input : List ColorMember} (distinct : (input.map (·.id)).Nodup)
include distinct

/-- Ranking keeps the members. -/
theorem rankedMembers_perm : (rankedMembers viewerOwnerId input).Perm input := by
  rw [rankedMembers, firstById_of_nodup distinct]
  exact List.mergeSort_perm _ _

/-- Ranked members differ. -/
theorem nodup_rankedMembers : ((rankedMembers viewerOwnerId input).map (·.id)).Nodup :=
  ((rankedMembers_perm distinct).map _).nodup_iff.mpr distinct

/-- Members come in the order of their ranks. -/
theorem pairwise_rankedMembers :
    (rankedMembers viewerOwnerId input).Pairwise (Precedes viewerOwnerId) := by
  have sorted :=
    List.pairwise_mergeSort (@isRanked_trans viewerOwnerId) isRanked_total (firstById input)
  have places := @nodup_rankedMembers viewerOwnerId _ distinct
  rw [List.nodup_iff_pairwise_ne, List.pairwise_map] at places
  exact sorted.and places

/-- The order in which members are listed makes no difference. -/
theorem rankedMembers_eq_of_perm {input' : List ColorMember} (perm : input.Perm input') :
    rankedMembers viewerOwnerId input = rankedMembers viewerOwnerId input' := by
  have distinct' : (input'.map (·.id)).Nodup := (perm.map _).nodup_iff.mp distinct
  refine List.Perm.eq_of_pairwise (fun a b _ _ first second => absurd second first.asymm)
    (pairwise_rankedMembers distinct)
    (pairwise_rankedMembers distinct') ?_
  exact (rankedMembers_perm distinct).trans (perm.trans (rankedMembers_perm distinct').symm)

end

/-! ## The picks -/

/-- What has been taken after some members, each of whom comes before those that are left. -/
structure Picked (viewerOwnerId : Text) (members : List ColorMember) (state : Coloring) : Prop where
  taken : ∀ key, key ∈ state.taken ↔ ∃ m ∈ members, m.pick = some key
  keys : ∀ id key, state.keys.get id = some key ↔ ∃ m ∈ members, m.id = id ∧ m.pick = some key
    ∧ ∀ other ∈ members, other.pick = some key → ¬ Precedes viewerOwnerId other m

/-- One more member keeps its pick, or finds it taken. -/
private theorem picked_takePick {members : List ColorMember} {state : Coloring}
    (picked : Picked viewerOwnerId members state) {member : ColorMember}
    (last : ∀ m ∈ members, Precedes viewerOwnerId m member) :
    Picked viewerOwnerId (members ++ [member]) (takePick state member) := by
  have irrefl : ¬ Precedes viewerOwnerId member member := fun self => self.2 rfl
  -- Where the pick is taken already, the member adds nothing.
  have unchanged : (∀ key, member.pick = some key → key ∈ state.taken) →
    Picked viewerOwnerId (members ++ [member]) state := by
    intro held
    refine ⟨fun key => ?_, fun id key => ?_⟩
    -- The keys that are taken are those picked.
    · rw [picked.taken]
      constructor
      · rintro ⟨m, inside, isPick⟩
        exact ⟨m, List.mem_append_left _ inside, isPick⟩
      · rintro ⟨m, inside, isPick⟩
        rcases List.mem_append.mp inside with early | own
        · exact ⟨m, early, isPick⟩
        · obtain rfl := List.mem_singleton.mp own
          exact (picked.taken key).mp (held key isPick)
    -- Who has a key is the first one to have picked it.
    · rw [picked.keys]
      constructor
      · rintro ⟨m, inside, own, isPick, first⟩
        refine ⟨m, List.mem_append_left _ inside, own, isPick, fun other inside' isPick' => ?_⟩
        rcases List.mem_append.mp inside' with early | late
        · exact first other early isPick'
        · obtain rfl := List.mem_singleton.mp late
          exact (last m inside).asymm
      · rintro ⟨m, inside, own, isPick, first⟩
        rcases List.mem_append.mp inside with early | late
        · exact ⟨m, early, own, isPick, fun other inside' =>
            first other (List.mem_append_left _ inside')⟩
        · -- Someone before the member has its pick.
          obtain rfl := List.mem_singleton.mp late
          obtain ⟨holder, there, isPick'⟩ := (picked.taken key).mp (held key isPick)
          exact absurd (last holder there) (first holder (List.mem_append_left _ there) isPick')
  unfold takePick
  -- The member has a pick that is taken, a pick that is free, or none.
  split
  · rename_i pick isPick
    split
    · rename_i held
      refine unchanged fun key isPick' => ?_
      obtain rfl := Option.some.inj (isPick.symm.trans isPick')
      exact held
    · rename_i free
      -- A free key was picked by nobody before.
      have fresh : ∀ m ∈ members, m.pick ≠ some pick := fun m inside same =>
        free ((picked.taken pick).mpr ⟨m, inside, same⟩)
      -- So it is taken now, by this member.
      refine ⟨fun key => ?_, fun id key => ?_⟩
      · rw [Coloring.take, Finset.mem_insert, picked.taken]
        constructor
        · rintro (rfl | ⟨m, inside, isPick'⟩)
          · exact ⟨member, List.mem_append_right _ List.mem_cons_self, isPick⟩
          · exact ⟨m, List.mem_append_left _ inside, isPick'⟩
        · rintro ⟨m, inside, isPick'⟩
          rcases List.mem_append.mp inside with early | own
          · exact .inr ⟨m, early, isPick'⟩
          · obtain rfl := List.mem_singleton.mp own
            exact .inl (Option.some.inj (isPick'.symm.trans isPick))
      · rw [Coloring.take, Map.get_set]
        -- The member has its pick, and everybody else what they had.
        by_cases own : id = member.id
        · rw [if_pos own, Option.some.injEq]
          constructor
          · rintro rfl
            refine ⟨member, List.mem_append_right _ List.mem_cons_self, own.symm, isPick,
              fun other inside isPick' => ?_⟩
            rcases List.mem_append.mp inside with early | late
            · exact absurd isPick' (fresh other early)
            · exact List.mem_singleton.mp late ▸ irrefl
          -- The first one to have picked is this member, as nobody did before.
          · rintro ⟨m, inside, own', isPick', -⟩
            rcases List.mem_append.mp inside with early | late
            · exact absurd (own'.trans own) (last m early).2
            · obtain rfl := List.mem_singleton.mp late
              exact Option.some.inj (isPick.symm.trans isPick')
        · rw [if_neg own, picked.keys]
          constructor
          · rintro ⟨m, inside, isId, isPick', first⟩
            refine ⟨m, List.mem_append_left _ inside, isId, isPick', fun other inside' isPick'' =>
              ?_⟩
            rcases List.mem_append.mp inside' with early | late
            · exact first other early isPick''
            · obtain rfl := List.mem_singleton.mp late
              exact (last m inside).asymm
          · rintro ⟨m, inside, isId, isPick', first⟩
            rcases List.mem_append.mp inside with early | late
            · exact ⟨m, early, isId, isPick', fun other inside' =>
                first other (List.mem_append_left _ inside')⟩
            · exact absurd (List.mem_singleton.mp late ▸ isId.symm) own
  · rename_i none_
    exact unchanged fun key isPick => by rw [none_] at isPick; cases isPick

/-- Each pick is the first member's that made it. -/
theorem picked_foldl {members : List ColorMember}
    (sorted : members.Pairwise (Precedes viewerOwnerId)) :
    Picked viewerOwnerId members (members.foldl takePick ⟨∅, .empty⟩) := by
  induction members using List.reverseRecOn with
  | nil =>
    refine ⟨fun key => ?_, fun id key => ?_⟩
    · simp
    · simp
  | append_singleton rest member ih =>
    rw [List.pairwise_append] at sorted
    rw [List.foldl_append]
    exact picked_takePick (ih sorted.1) fun m inside =>
      sorted.2.2 m inside member List.mem_cons_self

/-! ## Free colours -/

/-- No two members have one key, and a key is taken when a member has it. -/
structure Coloring.Sound (ids : List Text) (state : Coloring) : Prop where
  taken : ∀ key, key ∈ state.taken ↔ ∃ id, state.keys.get id = some key
  apart : ∀ id id' key, state.keys.get id = some key → state.keys.get id' = some key → id = id'
  among : ∀ id key, state.keys.get id = some key → id ∈ ids

/-- Among those who picked a key one comes first. -/
private theorem exists_first {members : List ColorMember}
    (sorted : members.Pairwise (Precedes viewerOwnerId)) {key : ChannelColorKey}
    (some_ : ∃ m ∈ members, m.pick = some key) :
    ∃ m ∈ members, m.pick = some key ∧ ∀ other ∈ members, other.pick = some key →
    ¬ Precedes viewerOwnerId other m := by
  -- In a sorted list the first one to pick is the first in the list.
  induction members with
  | nil => simp at some_
  | cons member rest ih =>
    rw [List.pairwise_cons] at sorted
    by_cases isPick : member.pick = some key
    · refine ⟨member, List.mem_cons_self, isPick, fun other inside _ => ?_⟩
      rcases List.mem_cons.mp inside with rfl | later
      · exact fun self => self.2 rfl
      · exact (sorted.1 other later).asymm
    -- Whoever picks comes later, so the rest of the list has a first one.
    · obtain ⟨m, inside, isPick'⟩ := some_
      have there : m ∈ rest := (List.mem_cons.mp inside).resolve_left fun same =>
        isPick (same ▸ isPick')
      obtain ⟨first, inside', isPick'', least⟩ := ih sorted.2 ⟨m, there, isPick'⟩
      refine ⟨first, List.mem_cons_of_mem _ inside', isPick'', fun other among same => ?_⟩
      rcases List.mem_cons.mp among with rfl | later
      · exact absurd same isPick
      · exact least other later same

/-- Of two members that differ one comes first. -/
private theorem precedes_or {a b : ColorMember} (differs : a.id ≠ b.id) :
    Precedes viewerOwnerId a b ∨ Precedes viewerOwnerId b a := by
  have total := @isRanked_total viewerOwnerId a b
  rw [Bool.or_eq_true] at total
  exact total.imp (fun le => ⟨le, differs⟩) fun ge => ⟨ge, differs.symm⟩

/-- The picks that were kept are kept by one member each. -/
theorem Picked.sound {members : List ColorMember} {state : Coloring}
    (picked : Picked viewerOwnerId members state)
    (sorted : members.Pairwise (Precedes viewerOwnerId)) : state.Sound (members.map (·.id)) := by
  -- A key has one holder, the first one to have picked it.
  refine ⟨fun key => ?_, ?_, ?_⟩
  · rw [picked.taken]
    constructor
    · intro some_
      obtain ⟨m, inside, isPick, first⟩ := exists_first sorted some_
      exact ⟨m.id, (picked.keys _ _).mpr ⟨m, inside, rfl, isPick, first⟩⟩
    · rintro ⟨id, has⟩
      obtain ⟨m, inside, -, isPick, -⟩ := (picked.keys _ _).mp has
      exact ⟨m, inside, isPick⟩
  · intro id id' key has has'
    obtain ⟨m, inside, rfl, isPick, first⟩ := (picked.keys _ _).mp has
    obtain ⟨m', inside', rfl, isPick', first'⟩ := (picked.keys _ _).mp has'
    -- Of two holders either one comes first.
    by_contra differs
    rcases @precedes_or viewerOwnerId _ _ differs with before | before
    · exact first' m inside isPick before
    · exact first m' inside' isPick' before
  · intro id key has
    obtain ⟨m, inside, rfl, -⟩ := (picked.keys _ _).mp has
    exact List.mem_map_of_mem inside

/-- A colour that is free is given to a member without one. -/
theorem Coloring.Sound.take {ids : List Text} {state : Coloring} (sound : state.Sound ids)
    {id : Text} (inside : id ∈ ids) (none_ : state.keys.get id = none) {key : ChannelColorKey}
    (free : key ∉ state.taken) : (state.take id key).Sound ids := by
  -- The free key has no holder.
  have unheld : ∀ other, state.keys.get other ≠ some key := fun other has =>
    free ((sound.taken key).mpr ⟨other, has⟩)
  -- Only the new holder is changed by it.
  refine ⟨fun other => ?_, fun one two other => ?_, fun one other => ?_⟩
  · rw [Coloring.take, Finset.mem_insert, sound.taken]
    constructor
    · rintro (rfl | ⟨holder, has⟩)
      · exact ⟨id, Map.get_set_self _ _ _⟩
      · refine ⟨holder, ?_⟩
        rw [Map.get_set, if_neg]
        · exact has
        · rintro rfl
          rw [none_] at has
          cases has
    · rintro ⟨holder, has⟩
      rw [Map.get_set] at has
      split at has
      · exact .inl (Option.some.inj has).symm
      · exact .inr ⟨holder, has⟩
  · simp only [Coloring.take, Map.get_set]
    -- Both are the new holder, one of them is, or neither.
    split <;> split
    · rename_i same same'
      exact fun _ _ => same.trans same'.symm
    · rename_i same differs
      exact fun own has => absurd (Option.some.inj own ▸ has) (unheld two)
    · rename_i differs same
      exact fun has own => absurd (Option.some.inj own ▸ has) (unheld one)
    · exact sound.apart one two other
  · simp only [Coloring.take, Map.get_set]
    split
    · rename_i same
      exact fun _ => same ▸ inside
    · exact sound.among one other

/-- While a member has no colour, fewer colours are taken than there are members. -/
theorem Coloring.Sound.card_lt {ids : List Text} {state : Coloring} (sound : state.Sound ids)
    {id : Text} (inside : id ∈ ids) (none_ : state.keys.get id = none) :
    state.taken.card < ids.length := by
  -- The keys taken are those of the members but this one.
  have within : state.taken ⊆ ((ids.erase id).filterMap state.keys.get).toFinset := by
    intro key held
    obtain ⟨holder, has⟩ := (sound.taken key).mp held
    have other : holder ≠ id := by
      rintro rfl
      rw [none_] at has
      cases has
    exact List.mem_toFinset.mpr (List.mem_filterMap.mpr
      ⟨holder, (List.mem_erase_of_ne other).mpr (sound.among holder key has), has⟩)
  have some_ := List.length_pos_of_mem inside
  -- Each member has at most one of them.
  calc state.taken.card ≤ ((ids.erase id).filterMap state.keys.get).toFinset.card :=
    Finset.card_le_card within
    _ ≤ ((ids.erase id).filterMap state.keys.get).length := List.toFinset_card_le _
    _ ≤ (ids.erase id).length := List.length_filterMap_le _ _
    _ = ids.length - 1 := List.length_erase_of_mem inside
    _ < ids.length := by omega

/-- No member loses its colour. -/
def Extends (before after : Coloring) : Prop :=
  ∀ id key, before.keys.get id = some key → after.keys.get id = some key

/-- The member gets a colour, and nobody loses theirs. -/
private theorem takeFree_sound {palette : List ChannelColorKey} (apart : palette.Nodup)
    {ids : List Text} (enough : ids.length ≤ palette.length) {state : Coloring}
    (sound : state.Sound ids) {member : ColorMember} (inside : member.id ∈ ids) :
    (takeFree palette state member).Sound ids ∧ Extends state (takeFree palette state member)
      ∧ ((takeFree palette state member).keys.get member.id).isSome = true := by
  unfold takeFree
  -- The member has a key from before, or takes one.
  split
  · rename_i has
    exact ⟨sound, fun _ _ has => has, has⟩
  · rename_i none_
    rw [Bool.not_eq_true, Option.isSome_eq_false_iff, Option.isNone_iff_eq_none] at none_
    -- There are more keys than are taken.
    obtain ⟨free, among, isFree⟩ : ∃ key ∈ palette, key ∉ state.taken := by
      have fewer := Nat.lt_of_lt_of_le (sound.card_lt inside none_) enough
      rw [← List.toFinset_card_of_nodup apart] at fewer
      obtain ⟨key, among, isFree⟩ := Finset.exists_mem_notMem_of_card_lt_card fewer
      exact ⟨key, List.mem_toFinset.mp among, isFree⟩
    -- So the search from the member's place finds a free one.
    have found :
      ((palette.rotate (paletteStart palette member)).find? (· ∉ state.taken)).isSome = true :=
      List.find?_isSome.mpr ⟨free, List.mem_rotate.mpr among, by simpa using isFree⟩
    obtain ⟨key, found⟩ := Option.isSome_iff_exists.mp found
    have isFree' : key ∉ state.taken := by simpa using List.find?_some found
    simp only [found, Option.some_or]
    -- The others keep what they had.
    refine ⟨sound.take inside none_ isFree', fun id other has => ?_, ?_⟩
    · rw [Coloring.take, Map.get_set, if_neg]
      · exact has
      · rintro rfl
        rw [none_] at has
        cases has
    · rw [Coloring.take, Map.get_set_self]
      rfl

/-- Members without a pick take keys that are free. -/
theorem takeFree_foldl {palette : List ChannelColorKey} (apart : palette.Nodup) {ids : List Text}
    (enough : ids.length ≤ palette.length) (members : List ColorMember)
    (inside : ∀ m ∈ members, m.id ∈ ids) {state : Coloring} (sound : state.Sound ids) :
    (members.foldl (takeFree palette) state).Sound ids
      ∧ Extends state (members.foldl (takeFree palette) state)
      ∧ ∀ m ∈ members, ((members.foldl (takeFree palette) state).keys.get m.id).isSome = true := by
  induction members generalizing state with
  | nil => exact ⟨sound, fun _ _ has => has, fun _ none_ => absurd none_ List.not_mem_nil⟩
  | cons member rest ih =>
    obtain ⟨sound', kept, has⟩ :=
      takeFree_sound apart enough sound (inside member List.mem_cons_self)
    obtain ⟨sound'', kept', all⟩ :=
      ih (fun m there => inside m (List.mem_cons_of_mem _ there)) sound'
    refine ⟨sound'', fun id key had => kept' id key (kept id key had), fun m there => ?_⟩
    rcases List.mem_cons.mp there with rfl | later
    · obtain ⟨key, had⟩ := Option.isSome_iff_exists.mp has
      rw [List.foldl_cons, kept' _ key had]
      rfl
    · exact all m later

/-! ## The colours of a channel -/

/-- Up to ninety members with ids of their own have keys, no two the same one, in whatever order
they are listed, and a member keeps its pick exactly when nobody of a lower rank picked the same.
Where a colour tells its key, no two of the colours that are returned tell the same one. -/
theorem channel_colors {γ : Type} (colorOf : ChannelColorKey → γ) (viewerOwnerId : Text)
    (members : List ColorMember)
    (few : members.length ≤ (channelShadeCount + 1) * humanColorIds.length)
    (distinct : (members.map (·.id)).Nodup) :
    (∀ m ∈ members, ∃ key, (channelColorKeys viewerOwnerId members).get m.id = some key
      ∧ (resolveChannelColors colorOf viewerOwnerId members).get m.id = some (colorOf key))
    ∧ (∀ m ∈ members, ∀ m' ∈ members, ∀ key,
      (channelColorKeys viewerOwnerId members).get m.id = some key →
      (channelColorKeys viewerOwnerId members).get m'.id = some key → m = m')
    ∧ (∀ keyOf : γ → ChannelColorKey, Function.LeftInverse keyOf colorOf → ∀ m ∈ members,
      ∀ m' ∈ members,
      ((resolveChannelColors colorOf viewerOwnerId members).get m.id).map keyOf
        = ((resolveChannelColors colorOf viewerOwnerId members).get m'.id).map keyOf → m = m')
    ∧ (∀ members', members.Perm members' →
      resolveChannelColors colorOf viewerOwnerId members'
        = resolveChannelColors colorOf viewerOwnerId members)
    ∧ ∀ m ∈ members, ∀ pick, m.pick = some pick →
    ((channelColorKeys viewerOwnerId members).get m.id = some pick
      ↔ ∀ other ∈ members, Precedes viewerOwnerId other m → other.pick ≠ some pick) := by
  have perm := @rankedMembers_perm viewerOwnerId _ distinct
  have sorted := @pairwise_rankedMembers viewerOwnerId _ distinct
  -- First the picks are given out, then the free colours.
  have picked := picked_foldl sorted
  obtain ⟨apart, enough⟩ :=
    channelPalette_enough (perm.length_eq ▸ few : (rankedMembers viewerOwnerId members).length ≤ _)
  obtain ⟨sound, kept, all⟩ := takeFree_foldl apart (by rw [List.length_map]; exact enough)
    (rankedMembers viewerOwnerId members)
    (fun m inside => List.mem_map_of_mem inside) (picked.sound sorted)
  have resolved : ∀ m ∈ members, ∃ key, (channelColorKeys viewerOwnerId members).get m.id = some key
      ∧ (resolveChannelColors colorOf viewerOwnerId members).get m.id = some (colorOf key) := by
    intro m inside
    obtain ⟨key, has⟩ := Option.isSome_iff_exists.mp (all m (perm.mem_iff.mpr inside))
    refine ⟨key, has, ?_⟩
    rw [resolveChannelColors, Map.get_mapValues, channelColorKeys, has]
    rfl
  have differ : ∀ m ∈ members, ∀ m' ∈ members, ∀ key,
    (channelColorKeys viewerOwnerId members).get m.id = some key →
      (channelColorKeys viewerOwnerId members).get m'.id = some key → m = m' :=
    fun m inside m' inside' key has has' =>
      List.inj_on_of_nodup_map distinct inside inside' (sound.apart _ _ key has has')
  refine ⟨resolved, differ, fun keyOf tells m inside m' inside' same =>
    ?_, fun members' perm' => ?_,
    fun m inside pick isPick => ?_⟩
  · -- Two colours that tell one key are those of one key.
    obtain ⟨key, has, drawn⟩ := resolved m inside
    obtain ⟨key', has', drawn'⟩ := resolved m' inside'
    rw [drawn, drawn', Option.map_some, Option.map_some, Option.some.injEq, tells key, tells key']
      at same
    exact differ m inside m' inside' key has (same ▸ has')
  -- The ranking does not depend on the order of the members.
  · rw [resolveChannelColors, resolveChannelColors, channelColorKeys, channelColorKeys,
      rankedMembers_eq_of_perm distinct perm']
  · constructor
    · intro has other inside' before isPick'
      -- Whoever keeps the pick is the member, and nobody before it picked the same.
      obtain ⟨holder, had⟩ := ((picked.sound sorted).taken pick).mp
        ((picked.taken pick).mpr ⟨m, perm.mem_iff.mpr inside, isPick⟩)
      obtain ⟨m', among, own, -, first⟩ := (picked.keys _ _).mp had
      obtain rfl : m' = m := List.inj_on_of_nodup_map distinct (perm.mem_iff.mp among) inside
        (own.trans (sound.apart _ _ pick (kept _ _ had) has))
      exact first other (perm.mem_iff.mpr inside') isPick' before
    -- Whoever picks first gets the pick, and keeps it.
    · intro first
      refine kept _ _ ((picked.keys _ _).mpr ⟨m, perm.mem_iff.mpr inside, rfl, isPick,
        fun other among isPick' before => ?_⟩)
      exact first other (perm.mem_iff.mp among) before isPick'

/-- A viewer who picked what another human picked keeps it. -/
theorem channel_colors_viewer :
    (channelColorKeys (lit "v")
      [⟨lit "a", lit "a", some ⟨.red, 0⟩⟩, ⟨lit "v", lit "v", some ⟨.red, 0⟩⟩]).get (lit "v")
      = some ⟨.red, 0⟩ := by
  obtain ⟨-, -, -, -, keeps⟩ := channel_colors (fun key => key) (lit "v")
    [⟨lit "a", lit "a", some ⟨.red, 0⟩⟩, ⟨lit "v", lit "v", some ⟨.red, 0⟩⟩] (by decide) (by decide)
  refine (keeps ⟨lit "v", lit "v", some ⟨.red, 0⟩⟩ (by decide) ⟨.red, 0⟩ rfl).mpr
    fun other inside before => ?_
  simp only [List.mem_cons, List.not_mem_nil, or_false] at inside
  rcases inside with rfl | rfl
  · exact absurd before.1 (by decide)
  · exact absurd rfl before.2

end Khala
