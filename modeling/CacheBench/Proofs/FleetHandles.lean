import CacheBench.Node.Fleet
import CacheBench.Proofs.NodeStart

/-!
# The handles of a fleet

Between calls a node is stopped and holds nothing, or it is online (`Node.Settled`). A member node
has one handle of the registry while it is online, and none when it is stopped. So the handles of
the registry are those that it had before the fleet began, and one for each member node that is
online (`Fleet.Sound`). A node that somebody else holds, next to the fleet, counts as one of it.
-/

namespace CacheBench

open Std (TreeMap)

namespace Registry

/-- What a call on one node does to the handles, the node having one of them or none before and
after. -/
inductive HandleChange (r r' : Registry) : Option HandleId → Option HandleId → Prop
  | keeps {h? : Option HandleId} (same : r.SameHandles r') : HandleChange r r' h? h?
  | takes {h : HandleId} (enrolled : r.Enrolled h r') : HandleChange r r' none (some h)
  | gives {h : HandleId} (coherent : r'.Coherent)
    (handles : ∀ a, r'.handles[a]? = if h = a then none else r.handles[a]?) :
    HandleChange r r' (some h) none

end Registry

open Registry (HandleChange)

namespace Node

variable {host : Host} {config : Config} {n n' : Node} {w w' : World}

def handle? (n : Node) : Option HandleId := n.member.map Starter.handle

/-- A node between calls. While the start of a member waits, it is online but not ready. -/
inductive Settled (r : Registry) (n : Node) : Prop
  | stopped (idle : n = { role := n.role })
  | member {h : HandleId} {x : Handle} (role : n.role = .member)
    (state : n.state = .ready ∨ n.state = .awaitingConvergence) (handle : n.handle? = some h)
    (live : r.handles[h]? = some x) (current : x.left = false)
  | client (role : n.role = .client) (state : n.state = .ready) (handle : n.handle? = none)

theorem Settled.idle {r : Registry} (h : n.Settled r) (hstate : n.state = .stopped) :
    n = { role := n.role } := by
  cases h with
  | stopped idle => exact idle
  | member _ state => rcases state with state | state <;> cases hstate.symm.trans state
  | client _ state => cases hstate.symm.trans state

theorem Settled.live {r : Registry} (h : n.Settled r) {a : HandleId} (ha : n.handle? = some a) :
    ∃ x, r.handles[a]? = some x := by
  cases h with
  | stopped idle =>
      rw [idle] at ha
      cases ha
  | member _ _ handle live =>
      cases handle.symm.trans ha
      exact ⟨_, live⟩
  | client _ _ handle => cases handle.symm.trans ha

theorem Settled.congr {r r' : Registry} (h : n.Settled r)
    (hsame : ∀ a, n.handle? = some a → r'.handles[a]? = r.handles[a]?) : n.Settled r' := by
  cases h with
  | stopped idle => exact .stopped idle
  | member role state handle live current =>
      exact .member role state handle ((hsame _ handle).trans live) current
  | client role state handle => exact .client role state handle

/-! ## One call -/

theorem handleChange_start (hw : w.registry.Coherent) (hn : n.Settled w.registry)
    {result : Except NodeError Unit} (h : n.start host config w = (result, n', w')) :
    HandleChange w.registry w'.registry n.handle? n'.handle? ∧ n'.Settled w'.registry := by
  by_cases hstate : n.state = .stopped
  · have hidle := hn.idle hstate
    generalize n.role = role at hidle
    subst hidle
    cases started hw h with
    | failed restored => exact ⟨.keeps restored.registry, .stopped rfl⟩
    | member _ node starter enrolled seated =>
        have hhandle := congrArg (Option.map Starter.handle) starter
        obtain ⟨x, hx, hleft⟩ := enrolled.live
        rw [← handle?] at hhandle
        rw [hhandle]
        exact ⟨.takes enrolled, .member node seated.state_cases hhandle hx hleft⟩
    | client _ node state member _ restored =>
        have hhandle := congrArg (Option.map Starter.handle) member
        rw [← handle?] at hhandle
        rw [hhandle]
        exact ⟨.keeps restored.registry, .client node state hhandle⟩
  · rw [start, if_pos hstate] at h
    cases h
    exact ⟨.keeps (.refl hw), hn⟩

theorem handleChange_stop (hw : w.registry.Coherent) (n : Node) :
    HandleChange w.registry (n.stop w).2.registry n.handle? none := by
  cases hmember : n.member with
  | none =>
      rw [handle?, hmember, registry_stop_of_none hmember]
      exact .keeps (.refl hw)
  | some s =>
      have hclose := (w.registry.release s.handle).handles_run_close s.channel.toList
      rw [handle?, hmember, registry_stop hmember, s.registry_giveUp]
      refine .gives (hw.run _) fun a => ?_
      exact (congrArg (fun handles => handles[a]?) hclose).trans
        (w.registry.getElem?_handles_release s.handle a)

theorem handleChange_cache (hw : w.registry.Coherent) (hn : n.Settled w.registry) {name : String}
    {result : Except NodeError CacheHandle} (h : n.cache host w name = (result, n', w')) :
    HandleChange w.registry w'.registry n.handle? n'.handle? ∧ n'.Settled w'.registry := by
  by_cases hstate : n.state = .ready
  · obtain ⟨⟨remotes, rfl⟩, hrestored, -⟩ := cache_cases hw h
    refine ⟨.keeps hrestored.registry, ?_⟩
    refine Settled.congr (r := w.registry) ?_ fun a _ => hrestored.registry.handles a
    cases hn with
    | stopped idle =>
        rw [idle] at hstate
        cases hstate
    | member role state handle live current => exact .member role state handle live current
    | client role state handle => exact .client role state handle
  · rw [Node.cache, if_pos hstate] at h
    cases h
    exact ⟨.keeps (.refl hw), hn⟩

/-- Passing events on leaves the handles alone, and at most makes a node ready. -/
theorem handleChange_resume (hw : w.registry.Coherent) (hn : n.Settled w.registry) :
    HandleChange w.registry (n.resume w).2.registry n.handle? (n.resume w).1.handle? ∧
      (n.resume w).1.Settled (n.resume w).2.registry := by
  unfold resume
  cases hmember : n.member with
  | none => exact ⟨.keeps (.refl hw), hn⟩
  | some s =>
      obtain ⟨hhandle, hsame⟩ := s.sameHandles_deliverAll w.registry hw
      have hold : n.handle? = some s.handle := congrArg (Option.map Starter.handle) hmember
      have hkept : some (s.deliverAll w.registry).1.handle = n.handle? := by rw [hhandle, hold]
      have hchange : HandleChange w.registry (s.deliverAll w.registry).2 n.handle?
          (some (s.deliverAll w.registry).1.handle) := by
        rw [hkept]
        exact .keeps hsame
      refine ⟨hchange, ?_⟩
      refine Settled.congr (r := w.registry) ?_ fun a _ => hsame.handles a
      cases hn with
      | stopped idle =>
          rw [idle] at hmember
          cases hmember
      | client _ _ handle => cases hold.symm.trans handle
      | member role state handle live current =>
          refine .member role ?_ (hkept.trans handle) live current
          dsimp only
          split
          · exact .inl rfl
          · exact state

end Node

namespace Fleet

variable {r₀ : Registry} {f f' : Fleet} {own own' : Option Node} {name : String} {n : Node}

/-- The nodes of a fleet by name, and next to them one that somebody else holds. -/
def node? (own : Option Node) (f : Fleet) : Option String → Option Node
  | none => own
  | some name => f.nodes[name]?

def handle? (own : Option Node) (f : Fleet) (i : Option String) : Option HandleId :=
  (f.node? own i).bind Node.handle?

/-- What holds between the calls on a fleet and a node next to it, both of which began when the
registry was `r₀`. -/
structure Sound (r₀ : Registry) (own : Option Node) (f : Fleet) : Prop where
  coherent : f.world.registry.Coherent
  settled : ∀ i n, f.node? own i = some n → n.Settled f.world.registry
  others : ∀ h : HandleId, (∀ i, f.handle? own i ≠ some h) →
    f.world.registry.handles[h]? = r₀.handles[h]?
  fresh : ∀ i h, f.handle? own i = some h → r₀.handles[h]? = none
  distinct : ∀ i i' h, f.handle? own i = some h → f.handle? own i' = some h → i = i'

theorem sound_start {w₀ : World} (hw₀ : w₀.registry.Coherent) :
    ({ world := w₀ } : Fleet).Sound w₀.registry none := by
  have hnode : ∀ i, ({ world := w₀ } : Fleet).node? none i = none := by
    rintro (_ | name) <;> simp [node?]
  refine ⟨hw₀, ?_, fun _ _ => rfl, ?_, ?_⟩ <;> simp [handle?, hnode]

theorem Sound.live (hf : f.Sound r₀ own) {i : Option String} {h : HandleId}
    (hh : f.handle? own i = some h) : ∃ x, f.world.registry.handles[h]? = some x := by
  obtain ⟨n, hn, hh⟩ := Option.bind_eq_some_iff.1 hh
  exact (hf.settled i n hn).live hh

section Change

variable {i : Option String} {m : Option Node}
  (hnodes : ∀ a, f'.node? own' a = if i = a then m else f.node? own a)
include hnodes

theorem handle?_of_nodes (a : Option String) :
    f'.handle? own' a = if i = a then m.bind Node.handle? else f.handle? own a := by
  rw [handle?, hnodes]
  split
  · rfl
  · rfl

/-- The other nodes stay settled if their handles stay. -/
theorem Sound.settled_of_nodes (hf : f.Sound r₀ own)
    (hsettled : ∀ n : Node, m = some n → n.Settled f'.world.registry)
    (hkept : ∀ (a : Option String) (h : HandleId), i ≠ a → f.handle? own a = some h →
      f'.world.registry.handles[h]? = f.world.registry.handles[h]?)
    (a : Option String) (n : Node) (hn : f'.node? own' a = some n) : n.Settled f'.world.registry := by
  rw [hnodes] at hn
  split at hn
  · exact hsettled n hn
  · rename_i hne
    refine (hf.settled a n hn).congr fun h hh => hkept a h hne ?_
    rw [handle?, hn, Option.bind_some, hh]

theorem Sound.of_keeps (hf : f.Sound r₀ own) (hsame : m.bind Node.handle? = f.handle? own i)
    (same : f.world.registry.SameHandles f'.world.registry)
    (hsettled : ∀ n : Node, m = some n → n.Settled f'.world.registry) : f'.Sound r₀ own' := by
  have hhandle : ∀ a, f'.handle? own' a = f.handle? own a := by
    intro a
    rw [handle?_of_nodes hnodes]
    split
    · rename_i ha
      rw [← ha, hsame]
    · rfl
  refine ⟨same.coherent, hf.settled_of_nodes hnodes hsettled fun a h _ _ => same.handles h,
    fun h hh => ?_, ?_, ?_⟩
  · rw [same.handles, hf.others h fun a => hhandle a ▸ hh a]
  · simpa only [hhandle] using hf.fresh
  · simpa only [hhandle] using hf.distinct

theorem Sound.of_takes (hf : f.Sound r₀ own) {h : HandleId} (hnone : f.handle? own i = none)
    (hnew : m.bind Node.handle? = some h)
    (enrolled : f.world.registry.Enrolled h f'.world.registry)
    (hsettled : ∀ n : Node, m = some n → n.Settled f'.world.registry) : f'.Sound r₀ own' := by
  have hfresh : ∀ a, f.handle? own a ≠ some h := by
    intro a ha
    obtain ⟨x, hx⟩ := hf.live ha
    cases enrolled.fresh.symm.trans hx
  have hcases : ∀ {a b}, f'.handle? own' a = some b →
      i = a ∧ b = h ∨ i ≠ a ∧ b ≠ h ∧ f.handle? own a = some b := by
    intro a b hb
    rw [handle?_of_nodes hnodes, hnew] at hb
    split at hb
    · exact .inl ⟨‹_›, (Option.some.inj hb).symm⟩
    · refine .inr ⟨‹_›, ?_, hb⟩
      rintro rfl
      exact hfresh a hb
  have hkept : ∀ (a : Option String) (b : HandleId), i ≠ a → f.handle? own a = some b →
      f'.world.registry.handles[b]? = f.world.registry.handles[b]? := by
    intro a b _ hb
    refine enrolled.others b ?_
    rintro rfl
    exact hfresh a hb
  refine ⟨enrolled.coherent, hf.settled_of_nodes hnodes hsettled hkept, fun b hb => ?_,
    fun a b hb => ?_, fun a a' b hb hb' => ?_⟩
  · have hbh : h ≠ b := by
      rintro rfl
      exact hb i ((handle?_of_nodes hnodes i).trans ((if_pos rfl).trans hnew))
    rw [enrolled.others b hbh]
    refine hf.others b fun a ha => ?_
    refine hb a ((handle?_of_nodes hnodes a).trans ((if_neg ?_).trans ha))
    rintro rfl
    cases hnone.symm.trans ha
  · rcases hcases hb with ⟨-, rfl⟩ | ⟨-, -, hb⟩
    · rw [← hf.others b hfresh, enrolled.fresh]
    · exact hf.fresh a b hb
  · rcases hcases hb with ⟨rfl, rfl⟩ | ⟨-, hne, hb⟩
    · rcases hcases hb' with ⟨rfl, -⟩ | ⟨-, hne, -⟩
      · rfl
      · exact absurd rfl hne
    · rcases hcases hb' with ⟨-, rfl⟩ | ⟨-, -, hb'⟩
      · exact absurd rfl hne
      · exact hf.distinct a a' b hb hb'

theorem Sound.of_gives (hf : f.Sound r₀ own) {h : HandleId} (hold : f.handle? own i = some h)
    (hnone : m.bind Node.handle? = none) (hcoherent : f'.world.registry.Coherent)
    (handles : ∀ a, f'.world.registry.handles[a]? =
      if h = a then none else f.world.registry.handles[a]?)
    (hsettled : ∀ n : Node, m = some n → n.Settled f'.world.registry) : f'.Sound r₀ own' := by
  have hcases : ∀ {a b}, f'.handle? own' a = some b → f.handle? own a = some b := by
    intro a b hb
    rw [handle?_of_nodes hnodes, hnone] at hb
    split at hb
    · cases hb
    · exact hb
  have hkept : ∀ (a : Option String) (b : HandleId), i ≠ a → f.handle? own a = some b →
      f'.world.registry.handles[b]? = f.world.registry.handles[b]? := by
    intro a b hne hb
    rw [handles, if_neg]
    rintro rfl
    exact hne (hf.distinct i a h hold hb)
  refine ⟨hcoherent, hf.settled_of_nodes hnodes hsettled hkept, fun b hb => ?_,
    fun a b hb => hf.fresh a b (hcases hb),
    fun a a' b hb hb' => hf.distinct a a' b (hcases hb) (hcases hb')⟩
  rw [handles]
  split
  · subst b
    exact (hf.fresh i h hold).symm
  · rename_i hne
    refine hf.others b fun a ha => hb a ?_
    rw [handle?_of_nodes hnodes, if_neg, ha]
    rintro rfl
    exact hne (Option.some.inj (hold.symm.trans ha))

end Change

/-- A call on one node, which may come, go or change. -/
theorem Sound.change (hf : f.Sound r₀ own) {i : Option String} {m : Option Node}
    (hnodes : ∀ a, f'.node? own' a = if i = a then m else f.node? own a)
    (hchange : HandleChange f.world.registry f'.world.registry (f.handle? own i)
      (m.bind Node.handle?))
    (hsettled : ∀ n : Node, m = some n → n.Settled f'.world.registry) : f'.Sound r₀ own' := by
  generalize hold : f.handle? own i = old at hchange
  generalize hnew : m.bind Node.handle? = new at hchange
  cases hchange with
  | keeps same => exact hf.of_keeps hnodes (hnew.trans hold.symm) same hsettled
  | takes enrolled => exact hf.of_takes hnodes hold hnew enrolled hsettled
  | gives coherent handles => exact hf.of_gives hnodes hold hnew coherent handles hsettled

theorem Sound.change_own (hf : f.Sound r₀ own) {w' : World}
    (hchange : HandleChange f.world.registry w'.registry (own.bind Node.handle?)
      (own'.bind Node.handle?))
    (hsettled : ∀ n : Node, own' = some n → n.Settled w'.registry) :
    ({ f with world := w' } : Fleet).Sound r₀ own' := by
  have hnodes : ∀ a, ({ f with world := w' } : Fleet).node? own' a =
      if none = a then own' else f.node? own a := by
    rintro (_ | name) <;> rfl
  exact hf.change hnodes hchange hsettled

theorem Sound.change_own_none (hf : f.Sound r₀ own) {w' : World}
    (hchange : HandleChange f.world.registry w'.registry (own.bind Node.handle?) none) :
    ({ f with world := w' } : Fleet).Sound r₀ none :=
  hf.change_own hchange fun _ hnone => by cases hnone

theorem node?_insert (own : Option Node) (f : Fleet) (w' : World) (name : String) (n : Node)
    (i : Option String) :
    ({ world := w', nodes := f.nodes.insert name n } : Fleet).node? own i =
      if some name = i then some n else f.node? own i := by
  cases i <;> simp [node?, TreeMap.getElem?_insert]

theorem node?_erase (own : Option Node) (f : Fleet) (w' : World) (name : String)
    (i : Option String) :
    ({ world := w', nodes := f.nodes.erase name } : Fleet).node? own i =
      if some name = i then none else f.node? own i := by
  cases i <;> simp [node?, TreeMap.getElem?_erase]

theorem handle?_some (own : Option Node) (hn : f.nodes[name]? = some n) :
    f.handle? own (some name) = n.handle? := by
  rw [handle?, node?, hn, Option.bind_some]

theorem Sound.update {α : Type} (hf : f.Sound r₀ own) (name : String)
    (call : Node → World → α × Node × World)
    (hcall : ∀ n : Node, n.Settled f.world.registry →
      HandleChange f.world.registry (call n f.world).2.2.registry n.handle?
        (call n f.world).2.1.handle? ∧
      (call n f.world).2.1.Settled (call n f.world).2.2.registry) :
    (f.update name call).2.Sound r₀ own := by
  unfold Fleet.update
  cases hn : f.nodes[name]? with
  | none => exact hf
  | some n =>
      obtain ⟨hchange, hsettled⟩ := hcall n (hf.settled (some name) n hn)
      dsimp only
      generalize call n f.world = called at hchange hsettled ⊢
      obtain ⟨a, n', w'⟩ := called
      rw [← handle?_some own hn] at hchange
      refine hf.change (f.node?_insert own w' name n') hchange ?_
      rintro _ ⟨⟩
      exact hsettled

theorem Sound.drop (hf : f.Sound r₀ own) (name : String) : (f.drop name).Sound r₀ own := by
  unfold Fleet.drop
  cases hn : f.nodes[name]? with
  | none => exact hf
  | some n =>
      have hchange := n.handleChange_stop hf.coherent
      rw [← handle?_some own hn] at hchange
      exact hf.change (f.node?_erase own _ name) hchange fun _ h => absurd h (by simp)

theorem getElem?_nodes_drop (f : Fleet) (name : String) : (f.drop name).nodes[name]? = none := by
  unfold Fleet.drop
  cases hn : f.nodes[name]? with
  | none => exact hn
  | some n => exact TreeMap.getElem?_erase_self

theorem Sound.place (hf : f.Sound r₀ own) (name : String) (role : Role) :
    (f.place name { role }).Sound r₀ own := by
  have hdrop := hf.drop name
  unfold Fleet.place
  refine hdrop.change ((f.drop name).node?_insert own _ name { role }) ?_ ?_
  · rw [handle?, node?, getElem?_nodes_drop]
    exact .keeps (.refl hdrop.coherent)
  · rintro _ ⟨⟩
    exact .stopped rfl

theorem Sound.step (hf : f.Sound r₀ own) (call : Call) : (f.step call).Sound r₀ own := by
  cases call with
  | create name role => exact hf.place name role
  | start name host config =>
      exact hf.update name _ fun n hn => Node.handleChange_start hf.coherent hn rfl
  | resume name => exact hf.update name _ fun n hn => Node.handleChange_resume hf.coherent hn
  | cache name host cacheName =>
      exact hf.update name _ fun n hn => Node.handleChange_cache hf.coherent hn rfl
  | stop name =>
      exact hf.update name _ fun n hn => ⟨n.handleChange_stop hf.coherent, .stopped rfl⟩
  | drop name => exact hf.drop name
  | occupy addresses =>
      exact hf.change_own (.keeps (.refl hf.coherent)) fun n hn => hf.settled none n hn

theorem Sound.run (hf : f.Sound r₀ own) (calls : List Call) : (f.run calls).Sound r₀ own := by
  induction calls generalizing f with
  | nil => exact hf
  | cons call calls ih => exact ih (hf.step call)

/-! ## Members -/

def IsMember (f : Fleet) (n : Node) (id : ClusterId) (k : NodeId) : Prop :=
  ∃ h, n.handle? = some h ∧ f.world.registry.handles[h]? = some ⟨id, k, false⟩

theorem Sound.mem_membersOf (hf : f.Sound r₀ own) (hr₀ : r₀.Coherent) (id : ClusterId)
    (k : NodeId) : k ∈ f.world.registry.membersOf id ↔ k ∈ r₀.membersOf id ∨
      ∃ i n, f.node? own i = some n ∧ f.IsMember n id k := by
  rw [hf.coherent.mem_membersOf, hr₀.mem_membersOf]
  constructor
  · rintro ⟨h, hh⟩
    by_cases hused : ∃ i, f.handle? own i = some h
    · obtain ⟨i, hi⟩ := hused
      obtain ⟨n, hn, hhandle⟩ := Option.bind_eq_some_iff.1 hi
      exact .inr ⟨i, n, hn, h, hhandle, hh⟩
    · exact .inl ⟨h, by rw [← hf.others h fun i hi => hused ⟨i, hi⟩, hh]⟩
  · rintro (⟨h, hh⟩ | ⟨i, n, -, h, -, hh⟩)
    · refine ⟨h, ?_⟩
      rw [hf.others h, hh]
      intro i hi
      cases (hf.fresh i h hi).symm.trans hh
    · exact ⟨h, hh⟩

theorem Sound.mem_membersOf_named (hf : f.Sound r₀ none) (hr₀ : r₀.Coherent) (id : ClusterId)
    (k : NodeId) : k ∈ f.world.registry.membersOf id ↔ k ∈ r₀.membersOf id ∨
      ∃ (name : String) (n : Node), f.nodes[name]? = some n ∧ f.IsMember n id k := by
  rw [hf.mem_membersOf hr₀]
  refine or_congr_right ⟨?_, fun ⟨name, n, hn, hmember⟩ => ⟨some name, n, hn, hmember⟩⟩
  rintro ⟨_ | name, n, hn, hmember⟩
  · cases hn
  · exact ⟨name, n, hn, hmember⟩

/-- A member node that is online is one member, which was not there before and which no other node
is. -/
theorem Sound.isMember (hf : f.Sound r₀ own) (hr₀ : r₀.Coherent) {i : Option String}
    (hn : f.node? own i = some n) (hrole : n.role = .member) (hstate : n.state ≠ .stopped) :
    ∃ id k, f.IsMember n id k ∧ k ∉ r₀.membersOf id ∧
      ∀ i' n', f.node? own i' = some n' → f.IsMember n' id k → i' = i := by
  cases hf.settled i n hn with
  | stopped idle =>
      rw [idle] at hstate
      exact absurd rfl hstate
  | client role => cases hrole.symm.trans role
  | @member h x _ _ handle live current =>
      have hhandle : f.handle? own i = some h := by rw [handle?, hn, Option.bind_some, handle]
      have hx : f.world.registry.handles[h]? = some ⟨x.cluster, x.node, false⟩ := by
        rw [live, ← current]
      refine ⟨x.cluster, x.node, ⟨h, handle, hx⟩, fun hmem => ?_, fun i' n' hn' hmember => ?_⟩
      · obtain ⟨h₀, hh₀⟩ := hr₀.mem_membersOf.1 hmem
        have hold : f.world.registry.handles[h₀]? = some ⟨x.cluster, x.node, false⟩ := by
          rw [hf.others h₀, hh₀]
          intro i' hi'
          cases (hf.fresh i' h₀ hi').symm.trans hh₀
        cases hf.coherent.handle_unique h h₀ _ _ hx hold rfl rfl
        cases (hf.fresh i h hhandle).symm.trans hh₀
      · obtain ⟨h', handle', hx'⟩ := hmember
        cases hf.coherent.handle_unique h h' _ _ hx hx' rfl rfl
        refine hf.distinct i' i h ?_ hhandle
        rw [handle?, hn', Option.bind_some, handle']

end Fleet

end CacheBench
