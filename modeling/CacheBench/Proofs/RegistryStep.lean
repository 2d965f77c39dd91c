import CacheBench.Cluster.Registry
import Mathlib.Tactic.Common
import Mathlib.Data.List.Nodup

/-!
# What one call does to the registry

A `Roll` is what a cluster keeps of its members: who they are, who listens, and the next number.
Each operation of the registry has one description here, of the rolls, the handles and the channels
that it leaves, and later modules use it in place of the definition. Most operations change no
membership at all (`SameMembers`); the others are `enroll`, `depart`, `listen` and `forget`.
-/

namespace CacheBench

open Std (TreeMap)

/-- What a cluster keeps of its members. -/
structure Roll where
  nextNode : NodeId := 1
  members : TreeMap NodeId (List String) := ∅
  listeners : List Listener := []

def Cluster.roll (c : Cluster) : Roll := ⟨c.nextNode, c.members, c.listeners⟩

@[simp, grind =] theorem Cluster.nextNode_roll (c : Cluster) : c.roll.nextNode = c.nextNode := rfl

@[simp, grind =] theorem Cluster.members_roll (c : Cluster) : c.roll.members = c.members := rfl

@[simp, grind =] theorem Cluster.listeners_roll (c : Cluster) : c.roll.listeners = c.listeners :=
  rfl

namespace Registry

variable (r : Registry)

def roll? (id : ClusterId) : Option Roll := r.clusters[id]?.map Cluster.roll

theorem roll?_eq_some_iff {id : ClusterId} {c : Roll} :
    r.roll? id = some c ↔ ∃ c', r.clusters[id]? = some c' ∧ c'.roll = c := Option.map_eq_some_iff

theorem roll?_of_cluster {id : ClusterId} {c : Cluster} (hc : r.clusters[id]? = some c) :
    r.roll? id = some c.roll := r.roll?_eq_some_iff.2 ⟨c, hc, rfl⟩

theorem isOpen_iff (ch : ChannelId) :
    r.isOpen ch ↔ ∃ id c, r.roll? id = some c ∧ ∃ l ∈ c.listeners, l.channel = ch := by
  simp only [isOpen, List.any_eq_true, Prod.exists, TreeMap.mem_toList_iff_getElem?_eq_some,
    decide_eq_true_eq, roll?_eq_some_iff]
  constructor
  · rintro ⟨id, c, hc, hl⟩
    exact ⟨id, c.roll, ⟨c, hc, rfl⟩, hl⟩
  · rintro ⟨id, -, ⟨c, hc, rfl⟩, hl⟩
    exact ⟨id, c, hc, hl⟩

theorem holder?_eq_some_iff {h : HandleId} {x : Handle} {c : Cluster} :
    r.holder? h = some (x, c) ↔ r.handles[h]? = some x ∧ r.clusters[x.cluster]? = some c := by
  unfold holder?
  constructor
  · intro he
    obtain ⟨x', hx, he⟩ := Option.bind_eq_some_iff.1 he
    obtain ⟨c', hc, he⟩ := Option.bind_eq_some_iff.1 he
    cases he
    exact ⟨hx, hc⟩
  · rintro ⟨hx, hc⟩
    rw [hx]
    change (r.clusters[x.cluster]?).bind _ = _
    rw [hc]
    rfl

theorem roll?_setCluster (id a : ClusterId) (c : Cluster) :
    (r.setCluster id c).roll? a = if id = a then some c.roll else r.roll? a := by
  simp only [roll?, setCluster, TreeMap.getElem?_insert, Std.LawfulEqCmp.compare_eq_iff_eq]
  split <;> rfl

/-! ## Telling of a change -/

theorem getElem?_send (events : List Event) (channels : TreeMap ChannelId (List Event))
    (ch a : ChannelId) :
    (send events channels ch)[a]? =
      if ch = a then channels[a]?.map (· ++ events) else channels[a]? := by
  simp only [send, TreeMap.getElem?_modify, Std.LawfulEqCmp.compare_eq_iff_eq]
  split
  · subst a
    rfl
  · rfl

theorem getElem?_foldl_send (events : List Event) {chs : List ChannelId} (hd : chs.Nodup)
    (channels : TreeMap ChannelId (List Event)) (a : ChannelId) :
    (chs.foldl (send events) channels)[a]? =
      if a ∈ chs then channels[a]?.map (· ++ events) else channels[a]? := by
  induction chs generalizing channels with
  | nil => simp
  | cons ch chs ih =>
      obtain ⟨hch, hd⟩ := List.nodup_cons.1 hd
      rw [List.foldl_cons, ih hd, getElem?_send]
      by_cases ha : ch = a
      · subst a
        simp [hch]
      · have ha' : ¬ a = ch := fun h => ha h.symm
        simp [ha, ha']

theorem mem_foldl_send (events : List Event) (chs : List ChannelId)
    (channels : TreeMap ChannelId (List Event)) (a : ChannelId) :
    a ∈ chs.foldl (send events) channels ↔ a ∈ channels := by
  induction chs generalizing channels with
  | nil => rfl
  | cons ch chs ih => rw [List.foldl_cons, ih, send, TreeMap.mem_modify]

section Publish

variable (id a : ClusterId) (c : Cluster) (change : Change)

@[simp] theorem handles_publish : (r.publish id c change).handles = r.handles := rfl

theorem roll?_publish :
    (r.publish id c change).roll? a = if id = a then
      some ⟨c.nextNode, c.members, c.listeners.filter fun l => r.channels.contains l.channel⟩
    else r.roll? a := r.roll?_setCluster id a _

theorem mem_channels_publish (ch : ChannelId) :
    ch ∈ (r.publish id c change).channels ↔ ch ∈ r.channels := mem_foldl_send _ _ _ _

/-- A listener of the cluster gets both phases of the change, and nobody else gets anything. -/
theorem getElem?_channels_publish (hd : (c.listeners.map Listener.channel).Nodup) (ch : ChannelId) :
    (r.publish id c change).channels[ch]? =
      if ∃ l ∈ c.listeners, l.channel = ch then
        r.channels[ch]?.map (· ++ Event.phases c.members.size change)
      else r.channels[ch]? := by
  have hsub : ((c.listeners.filter fun l => r.channels.contains l.channel).map
      Listener.channel).Nodup := hd.sublist (List.filter_sublist.map _)
  have hfold := getElem?_foldl_send (Event.phases c.members.size change) hsub r.channels ch
  refine hfold.trans ?_
  by_cases hch : r.channels.contains ch
  · have hmem : ch ∈ (c.listeners.filter fun l => r.channels.contains l.channel).map
        Listener.channel ↔ ∃ l ∈ c.listeners, l.channel = ch := by
      simp only [List.mem_map, List.mem_filter]
      constructor
      · rintro ⟨l, ⟨hl, -⟩, he⟩
        exact ⟨l, hl, he⟩
      · rintro ⟨l, hl, rfl⟩
        exact ⟨l, ⟨hl, hch⟩, rfl⟩
    simp only [hmem]
  · have hnone : r.channels[ch]? = none := TreeMap.getElem?_eq_none hch
    simp [hnone]

end Publish

/-! ## Making sure of a cluster -/

section Ensure

variable (name : String)

theorem named?_eq_some {id : ClusterId} (h : r.named? name = some id) :
    ∃ c, r.clusters[id]? = some c ∧ c.name = name := by
  obtain ⟨⟨a, c⟩, hfind, rfl⟩ := Option.map_eq_some_iff.1 h
  have hname := List.find?_some hfind
  have hmem := List.mem_of_find?_eq_some hfind
  exact ⟨c, TreeMap.mem_toList_iff_getElem?_eq_some.1 hmem, by simpa using hname⟩

theorem ensure_cases :
    (∃ id c, r.clusters[id]? = some c ∧ c.name = name ∧ r.ensure name = (id, r)) ∨
      r.ensure name = (r.next, { r.setCluster r.next { name } with next := r.next + 1 }) := by
  unfold ensure
  cases hn : r.named? name with
  | none => exact .inr rfl
  | some id =>
      obtain ⟨c, hc, hname⟩ := r.named?_eq_some name hn
      exact .inl ⟨id, c, hc, hname, rfl⟩

theorem exists_ensure : ∃ c, (r.ensure name).2.clusters[(r.ensure name).1]? = some c := by
  rcases r.ensure_cases name with ⟨id, c, hc, -, he⟩ | he
  · rw [he]
    exact ⟨c, hc⟩
  · rw [he]
    exact ⟨{ name }, by simp [setCluster]⟩

end Ensure

/-- From one registry to another no member and no listener came or went. Channels may have been
given up and a cluster without members may have been made. -/
structure SameMembers (r r' : Registry) : Prop where
  handles : r'.handles = r.handles
  next : r.next ≤ r'.next
  roll : ∀ a, r'.roll? a = r.roll? a ∨ r.next ≤ a ∧ a < r'.next ∧ r'.roll? a = some {}
  channels : ∀ ch, ch ∈ r'.channels → ch ∈ r.channels

theorem SameMembers.refl : SameMembers r r :=
  ⟨rfl, Nat.le_refl _, fun _ => .inl rfl, fun _ h => h⟩

theorem sameMembers_ensure (name : String) : SameMembers r (r.ensure name).2 := by
  rcases r.ensure_cases name with ⟨id, c, -, -, he⟩ | he
  · rw [he]
    exact .refl r
  · rw [he]
    refine ⟨rfl, Nat.le_succ _, fun a => ?_, fun _ h => h⟩
    have hroll := r.roll?_setCluster r.next a { name }
    by_cases ha : r.next = a
    · rw [if_pos ha] at hroll
      exact .inr ⟨Nat.le_of_eq ha, ha ▸ Nat.lt_succ_self _, hroll⟩
    · rw [if_neg ha] at hroll
      exact .inl hroll

theorem sameMembers_modify (ch : ChannelId) (f : List Event → List Event) :
    SameMembers r { r with channels := r.channels.modify ch f } :=
  ⟨rfl, Nat.le_refl _, fun _ => .inl rfl, fun _ h => TreeMap.mem_modify.1 h⟩

theorem sameMembers_close (ch : ChannelId) : SameMembers r (r.close ch) :=
  ⟨rfl, Nat.le_refl _, fun _ => .inl rfl, fun _ h => (TreeMap.mem_erase.1 h).2⟩

theorem sameMembers_define {h : HandleId} {settings : Settings} {id : CacheId} {r' : Registry}
    (hd : r.define h settings = some (id, r')) : SameMembers r r' := by
  obtain ⟨⟨x, c⟩, hx, hd⟩ := Option.map_eq_some_iff.1 hd
  dsimp only at hd
  cases hc : c.caches[settings.name]? with
  | some id' =>
      rw [hc] at hd
      cases hd
      exact .refl r
  | none =>
      rw [hc] at hd
      cases hd
      refine ⟨rfl, Nat.le_succ _, fun a => .inl ?_, fun _ h => h⟩
      have hroll := r.roll?_setCluster x.cluster a
        { c with caches := c.caches.insert settings.name r.next }
      refine hroll.trans ?_
      split
      · rename_i ha
        subst a
        exact (r.roll?_eq_some_iff.2 ⟨c, (r.holder?_eq_some_iff.1 hx).2, rfl⟩).symm
      · rfl

theorem channels_define {h : HandleId} {settings : Settings} {id : CacheId} {r' : Registry}
    (hd : r.define h settings = some (id, r')) : r'.channels = r.channels := by
  obtain ⟨⟨x, c⟩, -, hd⟩ := Option.map_eq_some_iff.1 hd
  dsimp only at hd
  split at hd <;> cases hd <;> rfl

/-! ## Joining -/

section Enroll

variable (id a : ClusterId) (c : Cluster) (seeds : List String)

theorem join_eq (name : String) : ∃ c, (r.ensure name).2.clusters[(r.ensure name).1]? = some c ∧
    r.join name seeds =
      ((r.ensure name).2.next, (r.ensure name).2.enroll (r.ensure name).1 c seeds) := by
  obtain ⟨c, hc⟩ := r.exists_ensure name
  refine ⟨c, hc, ?_⟩
  unfold join
  dsimp only
  rw [TreeMap.getD_eq_getD_getElem?, hc]
  rfl

theorem getElem?_handles_enroll (h : HandleId) : (r.enroll id c seeds).handles[h]? =
    if r.next = h then some { cluster := id, node := c.nextNode } else r.handles[h]? := by
  simp [enroll, TreeMap.getElem?_insert]

@[simp] theorem next_enroll : (r.enroll id c seeds).next = r.next + 1 := rfl

theorem roll?_enroll :
    (r.enroll id c seeds).roll? a = if id = a then
      some ⟨c.nextNode + 1, c.members.insert c.nextNode seeds,
        c.listeners.filter fun l => r.channels.contains l.channel⟩
    else r.roll? a := roll?_publish _ id a _ _

theorem mem_channels_enroll (ch : ChannelId) :
    ch ∈ (r.enroll id c seeds).channels ↔ ch ∈ r.channels := mem_channels_publish _ id _ _ ch

theorem getElem?_channels_enroll (hd : (c.listeners.map Listener.channel).Nodup) (ch : ChannelId) :
    (r.enroll id c seeds).channels[ch]? =
      if ∃ l ∈ c.listeners, l.channel = ch then
        r.channels[ch]?.map
          (· ++ Event.phases (c.members.insert c.nextNode seeds).size (.joined c.nextNode))
      else r.channels[ch]? := by
  unfold enroll
  exact getElem?_channels_publish _ id _ _ (by exact hd) ch

end Enroll

/-! ## Leaving -/

section Depart

variable (h : HandleId) (x : Handle) (c : Cluster)

theorem leave_eq_depart {h : HandleId} {x : Handle} {c : Cluster} (hx : r.handles[h]? = some x)
    (hl : x.left = false) (hc : r.clusters[x.cluster]? = some c) : r.leave h = r.depart h x c := by
  simp [leave, r.holder?_eq_some_iff.2 ⟨hx, hc⟩, hl]

theorem leave_of_left {h : HandleId} {x : Handle} (hx : r.handles[h]? = some x)
    (hl : x.left = true) : r.leave h = r := by
  unfold leave
  split
  · rename_i x' c hx'
    cases hx.symm.trans (r.holder?_eq_some_iff.1 hx').1
    rw [if_pos hl]
  · rfl

theorem leave_of_none {h : HandleId} (hx : r.handles[h]? = none) : r.leave h = r := by
  simp [leave, holder?, hx]

theorem getElem?_handles_depart (a : HandleId) : (r.depart h x c).handles[a]? =
    if h = a then some { x with left := true } else r.handles[a]? := by
  simp [depart, TreeMap.getElem?_insert]

@[simp] theorem next_depart : (r.depart h x c).next = r.next := rfl

theorem roll?_depart (a : ClusterId) :
    (r.depart h x c).roll? a = if x.cluster = a then
      some ⟨c.nextNode, c.members.erase x.node,
        (c.listeners.filter fun l => l.owner ≠ x.node).filter
          fun l => r.channels.contains l.channel⟩
    else r.roll? a := roll?_publish _ x.cluster a _ _

theorem mem_channels_depart (ch : ChannelId) :
    ch ∈ (r.depart h x c).channels ↔ ch ∈ r.channels := mem_channels_publish _ x.cluster _ _ ch

theorem getElem?_channels_depart (hd : (c.listeners.map Listener.channel).Nodup) (ch : ChannelId) :
    (r.depart h x c).channels[ch]? =
      if ∃ l ∈ c.listeners, l.owner ≠ x.node ∧ l.channel = ch then
        r.channels[ch]?.map (· ++ Event.phases (c.members.erase x.node).size (.left x.node))
      else r.channels[ch]? := by
  have hsub : ((c.listeners.filter fun l => l.owner ≠ x.node).map Listener.channel).Nodup :=
    hd.sublist (List.filter_sublist.map _)
  refine (getElem?_channels_publish _ x.cluster _ _ hsub ch).trans ?_
  simp only [List.mem_filter, decide_eq_true_eq, and_assoc]

end Depart

/-! ## Dropping a handle -/

section Forget

theorem forget_of_none {h : HandleId} (hx : r.handles[h]? = none) : r.forget h = r := by
  simp [forget, hx]

theorem getElem?_handles_forget (h a : HandleId) :
    (r.forget h).handles[a]? = if h = a then none else r.handles[a]? := by
  cases hx : r.handles[h]? with
  | none =>
      rw [r.forget_of_none hx]
      split
      · rename_i ha
        rw [← ha, hx]
      · rfl
  | some x => simp [forget, hx, TreeMap.getElem?_erase]

theorem channels_forget (h : HandleId) : (r.forget h).channels = r.channels := by
  unfold forget
  split <;> rfl

theorem next_forget (h : HandleId) : (r.forget h).next = r.next := by
  unfold forget
  split <;> rfl

/-- A cluster goes away when its last handle is dropped. -/
theorem roll?_forget_cases (h : HandleId) (a : ClusterId) :
    (r.forget h).roll? a = r.roll? a ∨
      (r.forget h).roll? a = none ∧ ∃ x, r.handles[h]? = some x ∧ x.cluster = a ∧
        ∀ h' x', r.handles[h']? = some x' → x'.cluster = a → h' = h := by
  cases hx : r.handles[h]? with
  | none =>
      rw [r.forget_of_none hx]
      exact .inl rfl
  | some x =>
      unfold forget
      rw [hx]
      dsimp only
      split
      · exact .inl rfl
      · rename_i hkept
        by_cases ha : x.cluster = a
        · refine .inr ⟨by simp [roll?, ha], x, rfl, ha, fun h' x' hx' hc => ?_⟩
          by_contra hne
          refine hkept (List.any_eq_true.2 ⟨(h', x'), ?_, by simp [hc, ha]⟩)
          rw [TreeMap.mem_toList_iff_getElem?_eq_some]
          simp [TreeMap.getElem?_erase, hx', Ne.symm hne]
        · exact .inl (by simp [roll?, TreeMap.getElem?_erase, ha])

theorem roll?_of_forget {h : HandleId} {a : ClusterId} {c : Roll}
    (hc : (r.forget h).roll? a = some c) : r.roll? a = some c := by
  rcases r.roll?_forget_cases h a with he | ⟨he, -⟩
  · exact he ▸ hc
  · cases he.symm.trans hc

theorem getElem?_handles_leave (h a : HandleId) (hne : h ≠ a) :
    (r.leave h).handles[a]? = r.handles[a]? := by
  unfold leave
  split
  · split
    · rfl
    · rw [getElem?_handles_depart, if_neg hne]
  · rfl

theorem getElem?_handles_release (h a : HandleId) :
    (r.release h).handles[a]? = if h = a then none else r.handles[a]? := by
  rw [release, getElem?_handles_forget]
  split
  · rfl
  · rename_i hne
    exact r.getElem?_handles_leave h a hne

end Forget

/-! ## Listening -/

section Listen

variable (x : Handle) (c : Cluster)

theorem subscribe_eq {h : HandleId} {x : Handle} {c : Cluster} (hx : r.handles[h]? = some x)
    (hc : r.clusters[x.cluster]? = some c) : r.subscribe h = some (r.next, r.listen x c) := by
  simp [subscribe, r.holder?_eq_some_iff.2 ⟨hx, hc⟩]

theorem subscribe_eq_some_iff {h : HandleId} {ch : ChannelId} {r' : Registry} :
    r.subscribe h = some (ch, r') ↔ ∃ x c, r.handles[h]? = some x ∧
      r.clusters[x.cluster]? = some c ∧ ch = r.next ∧ r' = r.listen x c := by
  simp only [subscribe, Option.map_eq_some_iff, Prod.exists, holder?_eq_some_iff, Prod.mk.injEq,
    and_assoc]
  constructor
  · rintro ⟨x, c, hx, hc, rfl, rfl⟩
    exact ⟨x, c, hx, hc, rfl, rfl⟩
  · rintro ⟨x, c, hx, hc, rfl, rfl⟩
    exact ⟨x, c, hx, hc, rfl, rfl⟩

@[simp] theorem handles_listen : (r.listen x c).handles = r.handles := rfl

@[simp] theorem next_listen : (r.listen x c).next = r.next + 1 := rfl

theorem roll?_listen (a : ClusterId) :
    (r.listen x c).roll? a = if x.cluster = a then
      some ⟨c.nextNode, c.members, c.listeners ++ [{ owner := x.node, channel := r.next }]⟩
    else r.roll? a := r.roll?_setCluster x.cluster a _

theorem getElem?_channels_listen (ch : ChannelId) :
    (r.listen x c).channels[ch]? = if r.next = ch then some [] else r.channels[ch]? := by
  simp [listen, TreeMap.getElem?_insert]

end Listen

end Registry

end CacheBench
