import CacheBench.Node
import CacheBench.Proofs.Starters

/-!
# What a node takes and gives back

A member takes one handle of the registry, a client only connections. A world is `Restored` when
the handles and the endpoints are those that it had at an earlier time. `Node.Since` says of a node
what it has taken since then, and stopping such a node restores the world, whether its start
succeeded or failed (`since_start`, `Since.stop`).
-/

namespace CacheBench

open Std (TreeMap)

namespace Registry

variable (r : Registry) (h a : HandleId)

/-! ## Handles -/

theorem handles_subscribe : (r.step (.subscribe h)).handles = r.handles := by
  rw [step]
  cases hs : r.subscribe h with
  | none => rfl
  | some p =>
      obtain ⟨x, c, -, -, -, hr⟩ := r.subscribe_eq_some_iff.1 hs
      rw [Option.map_some, Option.getD_some, hr, handles_listen]

theorem handles_define (settings : Settings) :
    (r.step (.define h settings)).handles = r.handles := by
  rw [step]
  cases hd : r.define h settings with
  | none => rfl
  | some p => exact (r.sameMembers_define hd).handles

theorem handles_run_define (settings : List Settings) :
    (r.run (settings.map (.define h))).handles = r.handles := by
  induction settings generalizing r with
  | nil => rfl
  | cons s settings ih => exact (ih _).trans (r.handles_define h s)

theorem handles_run_close (chs : List ChannelId) :
    (r.run (chs.map .close)).handles = r.handles := by
  induction chs generalizing r with
  | nil => rfl
  | cons ch chs ih => exact ih (r.close ch)

theorem getElem?_handles_join (name : String) (seeds : List String)
    (hne : (r.join name seeds).1 ≠ a) :
    (r.join name seeds).2.handles[a]? = r.handles[a]? := by
  obtain ⟨c, -, hjoin⟩ := r.join_eq seeds name
  rw [hjoin] at hne ⊢
  rw [getElem?_handles_enroll, if_neg hne, (r.sameMembers_ensure name).handles]

structure SameHandles (r r' : Registry) : Prop where
  coherent : r'.Coherent
  handles : ∀ h : HandleId, r'.handles[h]? = r.handles[h]?

/-- A later registry with the handle `h` of a member besides those of `r`. -/
structure Enrolled (r : Registry) (h : HandleId) (r' : Registry) : Prop where
  coherent : r'.Coherent
  fresh : r.handles[h]? = none
  live : ∃ x, r'.handles[h]? = some x ∧ x.left = false
  others : ∀ a, h ≠ a → r'.handles[a]? = r.handles[a]?

variable {r h}
variable {r' : Registry}

theorem SameHandles.refl (hr : r.Coherent) : r.SameHandles r := ⟨hr, fun _ => rfl⟩

theorem SameHandles.membersOf (h : r.SameHandles r') (hr : r.Coherent) (id : ClusterId) :
    r'.membersOf id = r.membersOf id := by
  refine hr.membersOf_congr h.coherent fun n => ?_
  simp only [h.handles]

theorem Coherent.enrolled_join (hr : r.Coherent) (name : String) (seeds : List String) :
    r.Enrolled (r.join name seeds).1 (r.join name seeds).2 := by
  obtain ⟨c, -, hjoin⟩ := r.join_eq seeds name
  have hensure := r.sameMembers_ensure name
  refine ⟨hr.step (.join name seeds), ?fresh, ?live,
    fun a hne => r.getElem?_handles_join a name seeds hne⟩
  case fresh =>
    rw [hjoin, ← hensure.handles]
    cases hx : (r.ensure name).2.handles[(r.ensure name).2.next]? with
    | none => rfl
    | some x => exact absurd ((hr.sameMembers hensure).handle_lt _ x hx) (Nat.lt_irrefl _)
  case live =>
    rw [hjoin]
    exact ⟨_, (getElem?_handles_enroll ..).trans (if_pos rfl), rfl⟩

theorem Enrolled.run (he : r.Enrolled h r') {calls : List Call}
    (hcalls : (r'.run calls).handles = r'.handles) : r.Enrolled h (r'.run calls) := by
  refine ⟨he.coherent.run calls, he.fresh, ?_, fun a hne => ?_⟩
  · rw [hcalls]
    exact he.live
  · rw [hcalls, he.others a hne]

theorem Enrolled.release (he : r.Enrolled h r') (a : HandleId) :
    (r'.release h).handles[a]? = r.handles[a]? := by
  rw [getElem?_handles_release]
  split
  · rename_i ha
    rw [← ha, he.fresh]
  · rename_i hne
    exact he.others a hne

theorem sameMembers_caches (r : Registry) (caches : TreeMap CacheId Cache) :
    SameMembers r { r with caches } :=
  ⟨rfl, Nat.le_refl _, fun _ => .inl rfl, fun _ h => h⟩

/-- One handle more is one member more, who was no member before. -/
theorem Enrolled.membersOf (he : r.Enrolled h r') (hr : r.Coherent) {x : Handle}
    (hx : r'.handles[h]? = some x) : x.node ∉ r.membersOf x.cluster ∧
      ∀ id, r'.membersOf id =
        if x.cluster = id then insert x.node (r.membersOf id) else r.membersOf id := by
  obtain ⟨x', hx', hleft⟩ := he.live
  cases hx.symm.trans hx'
  have hcurrent : r'.handles[h]? = some ⟨x.cluster, x.node, false⟩ := by rw [hx, ← hleft]
  have hold : ∀ (a : HandleId) id n, r.handles[a]? = some ⟨id, n, false⟩ →
      r'.handles[a]? = some ⟨id, n, false⟩ := by
    intro a id n ha
    rw [he.others a, ha]
    rintro rfl
    cases he.fresh.symm.trans ha
  refine ⟨fun hmem => ?_, fun id => ?_⟩
  · obtain ⟨a, ha⟩ := hr.mem_membersOf.1 hmem
    cases he.coherent.handle_unique h a _ _ hcurrent (hold a _ _ ha) rfl rfl
    cases he.fresh.symm.trans ha
  · ext n
    rw [he.coherent.mem_membersOf]
    constructor
    · rintro ⟨a, ha⟩
      by_cases hne : h = a
      · subst a
        cases hcurrent.symm.trans ha
        rw [if_pos rfl]
        exact Finset.mem_insert_self _ _
      · rw [he.others a hne] at ha
        have hmem : n ∈ r.membersOf id := hr.mem_membersOf.2 ⟨a, ha⟩
        split
        · exact Finset.mem_insert_of_mem hmem
        · exact hmem
    · intro hn
      have hcases : x.cluster = id ∧ n = x.node ∨ n ∈ r.membersOf id := by
        split at hn
        · exact (Finset.mem_insert.1 hn).imp_left fun he => ⟨‹_›, he⟩
        · exact .inr hn
      rcases hcases with ⟨rfl, rfl⟩ | hmem
      · exact ⟨h, hcurrent⟩
      · obtain ⟨a, ha⟩ := hr.mem_membersOf.1 hmem
        exact ⟨a, hold a id n ha⟩

theorem Coherent.exists_holder (hr : r.Coherent) {x : Handle} (hx : r.handles[h]? = some x) :
    ∃ c, r.holder? h = some (x, c) := by
  obtain ⟨_, hroll, -⟩ := hr.roll_of_handle h x hx
  obtain ⟨c, hc, -⟩ := r.roll?_eq_some_iff.1 hroll
  exact ⟨c, r.holder?_eq_some_iff.2 ⟨hx, hc⟩⟩

/-! ## Names -/

def Named (r : Registry) (h : HandleId) (name : String) : Prop :=
  ∃ x c, r.holder? h = some (x, c) ∧ c.name = name

variable {name : String}

theorem named_join (r : Registry) (name : String) (seeds : List String) :
    (r.join name seeds).2.Named (r.join name seeds).1 name := by
  obtain ⟨c, hc, hjoin⟩ := r.join_eq seeds name
  have hname : c.name = name := by
    rcases r.ensure_cases name with ⟨id, c', hc', hname, he⟩ | he
    · rw [he] at hc
      cases hc.symm.trans hc'
      exact hname
    · rw [he] at hc
      simp only [setCluster, TreeMap.getElem?_insert_self, Option.some.injEq] at hc
      rw [← hc]
  rw [hjoin]
  refine ⟨{ cluster := (r.ensure name).1, node := c.nextNode }, _,
    (holder?_eq_some_iff _).2 ⟨?_, TreeMap.getElem?_insert_self⟩, hname⟩
  rw [getElem?_handles_enroll, if_pos rfl]

theorem Named.setCluster (hn : r.Named h name) {id : ClusterId} {c c' : Cluster}
    (hc : r.clusters[id]? = some c) (hclusters : r'.clusters = r.clusters.insert id c')
    (hname : c'.name = c.name) (hhandles : r'.handles = r.handles) : r'.Named h name := by
  obtain ⟨x, d, hholder, hd⟩ := hn
  obtain ⟨hx, hxc⟩ := r.holder?_eq_some_iff.1 hholder
  by_cases hid : id = x.cluster
  · subst id
    cases hc.symm.trans hxc
    exact ⟨x, c', (r'.holder?_eq_some_iff).2 ⟨by rw [hhandles, hx],
      by rw [hclusters, TreeMap.getElem?_insert_self]⟩, hname.trans hd⟩
  · refine ⟨x, d, (r'.holder?_eq_some_iff).2 ⟨by rw [hhandles, hx], ?_⟩, hd⟩
    rw [hclusters, TreeMap.getElem?_insert, if_neg (by simpa using hid), hxc]

theorem Named.define (hn : r.Named h name) (a : HandleId) (settings : Settings) :
    (r.step (.define a settings)).Named h name := by
  rw [step]
  cases hd : r.define a settings with
  | none => exact hn
  | some p =>
      obtain ⟨⟨x, c⟩, hx, hd⟩ := Option.map_eq_some_iff.1 hd
      dsimp only at hd
      split at hd
      · cases hd
        exact hn
      · cases hd
        exact hn.setCluster ((r.holder?_eq_some_iff).1 hx).2 rfl rfl rfl

theorem Named.run_define (hn : r.Named h name) (a : HandleId) (settings : List Settings) :
    (r.run (settings.map (.define a))).Named h name := by
  induction settings generalizing r with
  | nil => exact hn
  | cons s settings ih => exact ih (hn.define a s)

theorem Named.subscribe (hn : r.Named h name) (a : HandleId) :
    (r.step (.subscribe a)).Named h name := by
  rw [step]
  cases hs : r.subscribe a with
  | none => exact hn
  | some p =>
      obtain ⟨x, c, -, hc, -, hr⟩ := r.subscribe_eq_some_iff.1 hs
      rw [Option.map_some, Option.getD_some, hr]
      exact hn.setCluster hc rfl rfl rfl

end Registry

namespace Starter

variable (s : Starter) (r : Registry)

theorem handle_subscribe : (s.subscribe r).1.handle = s.handle := by
  rcases s.subscribe_cases r with ⟨ch, -, -, he⟩ | ⟨he, -⟩
  · rw [he]
  · rw [he]

theorem registry_subscribe :
    ∃ calls, (s.subscribe r).2 = r.run calls ∧ (r.run calls).handles = r.handles := by
  rcases s.subscribe_cases r with ⟨ch, -, -, he⟩ | ⟨he, -⟩
  · exact ⟨[.subscribe s.handle], by rw [he]; rfl, r.handles_subscribe s.handle⟩
  · exact ⟨[], by rw [he]; rfl, rfl⟩

theorem enrolled_subscribe {r₀ : Registry} (he : r₀.Enrolled s.handle r) :
    r₀.Enrolled (s.subscribe r).1.handle (s.subscribe r).2 := by
  obtain ⟨calls, hcalls, hsame⟩ := s.registry_subscribe r
  rw [s.handle_subscribe, hcalls]
  exact he.run hsame

theorem subscribe_of_named {name : String} (hchannel : s.channel = none)
    (hn : r.Named s.handle name) : ∃ ch, (s.subscribe r).1 = { s with channel := some ch } ∧
      (s.subscribe r).2.Named s.handle name := by
  rcases s.subscribe_cases r with ⟨ch, -, -, he⟩ | ⟨-, hnone⟩
  · exact ⟨ch, by rw [he], by rw [he]; exact hn.subscribe s.handle⟩
  · obtain ⟨x, c, hholder, -⟩ := hn
    have hrefused := hnone hchannel
    rw [Registry.subscribe, hholder] at hrefused
    cases hrefused

/-- The first sample shows the size of the cluster, and releases the gate if that is enough. -/
theorem released_sample {x : Handle} {c : Cluster} {ch : ChannelId} (hchannel : s.channel = some ch)
    (hfirst : s.sampled = none) (hclosed : s.gate.released = false)
    (hholder : r.holder? s.handle = some (x, c)) :
    (s.sample r).gate.released = decide (s.gate.target ≤ c.members.size) := by
  have hsize : r.size? s.handle = some c.members.size := by rw [Registry.size?, hholder]; rfl
  have hgate : (s.sample r).gate =
      if s.gate.target ≤ c.members.size then s.gate.release.2 else s.gate := by
    rw [sample, hchannel, hfirst, hsize]
  rw [hgate, Bool.eq_iff_iff, Gate.released_sampled_iff, hclosed, decide_eq_true_iff]
  exact or_iff_right nofun

theorem sameHandles_deliverAll (hr : r.Coherent) :
    (s.deliverAll r).1.handle = s.handle ∧ r.SameHandles (s.deliverAll r).2 := by
  unfold deliverAll
  cases s.channel with
  | none => exact ⟨rfl, .refl hr⟩
  | some ch => exact ⟨rfl, hr.step (.drain ch), fun _ => rfl⟩

theorem handle_sample : (s.sample r).handle = s.handle := by
  rcases s.sample_cases r with ⟨ch, v, -, -, -, he⟩ | he
  · rw [he]
  · rw [he]

theorem registry_giveUp :
    s.giveUp r = r.run (.release s.handle :: s.channel.toList.map .close) := by
  unfold giveUp
  cases s.channel <;> rfl

/-- A member that gives up leaves the handles of before it joined. -/
theorem sameHandles_giveUp {r₀ : Registry} (he : r₀.Enrolled s.handle r) :
    r₀.SameHandles (s.giveUp r) := by
  have hclose := (r.release s.handle).handles_run_close s.channel.toList
  rw [registry_giveUp]
  refine ⟨he.coherent.run _, fun a => ?_⟩
  exact (congrArg (fun handles => handles[a]?) hclose).trans (he.release a)

end Starter

/-! ## Calls of clients -/

/-- What holds of a network and stays so under all that a client does. -/
structure Network.Keeps {ν : Type} (net : Network ν) (P : ν → Prop) : Prop where
  connect : ∀ server s, P s → P (net.connect server s).2
  send : ∀ conn b s, P s → P (net.send conn b s)
  receive : ∀ conn s, P s → P (net.receive conn s).2
  close : ∀ conn s, P s → P (net.close conn s)

namespace Network.Keeps

variable {ν : Type} {net : Network ν} {P : ν → Prop} {s : ν}

theorem advance (h : net.Keeps P) (hs : P s) (c : Client) (stage : Stage) :
    P (c.advance net s stage).2.2 := by
  cases stage with
  | start | finished => exact hs
  | selecting _ conn | asking _ conn => exact h.send conn _ s hs
  | connecting _ server =>
      have hconnect := h.connect server s hs
      simp only [Client.advance]
      split <;> rename_i he <;> rw [he] at hconnect <;> exact hconnect
  | awaitingSelection request conn =>
      have hreceive := h.receive conn s hs
      simp only [Client.advance]
      split <;> rename_i he <;> rw [he] at hreceive
      · split
        · exact hreceive
        · exact h.close conn _ hreceive
      · exact h.close conn _ hreceive
  | awaitingReply conn =>
      have hreceive := h.receive conn s hs
      simp only [Client.advance]
      split <;> rename_i he <;> rw [he] at hreceive
      · exact hreceive
      · exact h.close conn _ hreceive

theorem advances (h : net.Keeps P) (n : Nat) (hs : P s) (c : Client) (stage : Stage) :
    P (Client.advances net n stage c s).2.2 := by
  induction n generalizing stage c s with
  | zero => exact hs
  | succ n ih => exact ih (h.advance hs c stage) _ _

theorem call (h : net.Keeps P) (hs : P s) (c : Client) (request : Option Frame) :
    P (c.call net s request).2.2 := by
  have hsteps := h.advances 6 hs c (.start request)
  unfold Client.call
  split <;> rename_i he <;> rw [he] at hsteps <;> exact hsteps

theorem connected (h : net.Keeps P) (hs : P s) (name : String) (servers : List SocketAddress) :
    P (Client.connect net name servers s).2 := h.call hs { name, servers } none

end Network.Keeps

namespace World

/-- The handles and the endpoints are those of an earlier world. -/
structure Restored (w w' : World) : Prop where
  registry : w.registry.SameHandles w'.registry
  endpoints : w'.endpoints = w.endpoints

variable {w w' : World}

theorem Restored.refl (hw : w.registry.Coherent) : w.Restored w := ⟨.refl hw, rfl⟩

theorem Restored.membersOf (h : w.Restored w') (hw : w.registry.Coherent) (id : ClusterId) :
    w'.registry.membersOf id = w.registry.membersOf id := h.registry.membersOf hw id

theorem Restored.serveLink (h : w.Restored w') (conn : ConnectionId) (f : Frame) :
    w.Restored (w'.serveLink conn f) := by
  unfold World.serveLink
  split
  · exact h
  · dsimp only
    split
    · exact h
    · exact ⟨⟨h.registry.coherent.sameMembers (w'.registry.sameMembers_caches _),
        h.registry.handles⟩, h.endpoints⟩

theorem Restored.send (h : w.Restored w') (conn : ConnectionId) (b : Bytes) :
    w.Restored (w'.send conn b) := by
  unfold World.send
  induction (Frame.decodeAll b).1 generalizing w' with
  | nil => exact h
  | cons f fs ih => exact ih (h.serveLink conn f)

theorem Restored.keeps (host : Host) (w : World) : (network host).Keeps w.Restored where
  connect server w' h := by
    change w.Restored (World.connect host server w').2
    unfold World.connect
    split
    · exact h
    · split
      · exact ⟨h.registry, h.endpoints⟩
      · exact h
  send conn b w' h := h.send conn b
  receive conn w' h := by
    change w.Restored (World.receive conn w').2
    unfold World.receive
    split
    · exact h
    · split
      · exact ⟨h.registry, h.endpoints⟩
      · exact h
      · exact h
  close conn w' h := ⟨h.registry, h.endpoints⟩

theorem Restored.openClient (h : w.Restored w') (host : Host) (name : String)
    (servers : List SocketAddress) : w.Restored (w'.openClient host name servers).2 := by
  have hconnect := (Restored.keeps host w).connected h name servers
  unfold World.openClient
  split <;> rename_i he <;> rw [he] at hconnect
  · exact ⟨hconnect.registry, hconnect.endpoints⟩
  · exact hconnect

end World

namespace Node

variable {host : Host} {config : Config} {n n' : Node} {w w' w'' : World}

/-! ## Stopping -/

theorem registry_stop {s : Starter} (hmember : n.member = some s) :
    (n.stop w).2.registry = s.giveUp w.registry := by
  simp only [Node.stop, hmember]
  cases n.endpoint <;> rfl

theorem registry_stop_of_none (hmember : n.member = none) :
    (n.stop w).2.registry = w.registry := by
  simp only [Node.stop, hmember]
  cases n.endpoint <;> rfl

theorem endpoints_stop (hendpoint : n.endpoint = none) : (n.stop w).2.endpoints = w.endpoints := by
  unfold Node.stop
  rw [hendpoint]
  cases n.member <;> rfl

/-- What a node has taken of the clusters since the registry was `r`. -/
inductive Holds (r : Registry) (n : Node) (r' : Registry) : Prop
  | member {s} (member : n.member = some s) (enrolled : r.Enrolled s.handle r')
  | other (member : n.member = none) (kept : r.SameHandles r')

theorem Holds.stop {r : Registry} (h : Holds r n w'.registry) :
    r.SameHandles (n.stop w').2.registry := by
  cases h with
  | @member s member enrolled =>
      rw [registry_stop member]
      exact s.sameHandles_giveUp _ enrolled
  | other member kept => rwa [registry_stop_of_none member]

/-- What a node that serves no endpoint has taken since the world was `w`. -/
structure Since (w : World) (n : Node) (w' : World) : Prop where
  endpoint : n.endpoint = none
  holds : Holds w.registry n w'.registry
  endpoints : w'.endpoints = w.endpoints

theorem Since.stop (h : Since w n w') : w.Restored (n.stop w').2 :=
  ⟨h.holds.stop, (endpoints_stop h.endpoint).trans h.endpoints⟩

/-! ## Starting -/

/-- Equipping a member takes calls that change no handle. -/
theorem defineCaches_eq_run (host : Host) (store : StoreConfig) (params : ClusterParams)
    (h : HandleId) (names : List String) (m : TreeMap String CacheId) (r : Registry) :
    ∃ settings : List Settings,
      (defineCaches host store params h names m r).2 = r.run (settings.map (.define h)) := by
  induction names generalizing m r with
  | nil => exact ⟨[], rfl⟩
  | cons name names ih =>
      unfold defineCaches
      cases attempt host (.define name) with
      | error e => exact ⟨[], rfl⟩
      | ok _ =>
          have hstep : ∀ settings : List Settings,
              r.run ((store.settings name params :: settings).map (.define h)) =
                (((r.define h (store.settings name params)).map Prod.snd).getD r).run
                  (settings.map (.define h)) := fun _ => rfl
          cases hd : r.define h (store.settings name params) with
          | none =>
              obtain ⟨settings, hrun⟩ := ih m r
              refine ⟨store.settings name params :: settings, hrun.trans ?_⟩
              rw [hstep, hd]
              rfl
          | some p =>
              obtain ⟨settings, hrun⟩ := ih (m.insert name p.1) p.2
              refine ⟨store.settings name params :: settings, hrun.trans ?_⟩
              rw [hstep, hd]
              rfl

theorem enrolled_equip {r₀ r : Registry} (host : Host) (store : StoreConfig)
    (params : ClusterParams) (s : Starter) (he : r₀.Enrolled s.handle r) :
    r₀.Enrolled (equip host store params s r).2.1.handle (equip host store params s r).2.2 := by
  obtain ⟨settings, hdefine⟩ := defineCaches_eq_run host store params s.handle standardCaches ∅ r
  unfold equip
  generalize defineCaches host store params s.handle standardCaches ∅ r = defined at hdefine ⊢
  obtain ⟨result, r₁⟩ := defined
  subst hdefine
  have hdefined := he.run (r.handles_run_define s.handle settings)
  cases result with
  | error e => exact hdefined
  | ok caches =>
      cases attempt host .subscribe with
      | error e => exact hdefined
      | ok _ =>
          have hsubscribed := s.enrolled_subscribe _ hdefined
          dsimp only
          cases attempt host .listener <;> exact hsubscribed

/-- A member that is equipped has a channel, and its handle is still on its cluster. -/
theorem equip_ok {r : Registry} {store : StoreConfig} {params : ClusterParams} {s s' : Starter}
    {r' : Registry} {caches : TreeMap String CacheId} {name : String} (hchannel : s.channel = none)
    (hn : r.Named s.handle name) (h : equip host store params s r = (.ok caches, s', r')) :
    (∃ ch, s' = { s with channel := some ch }) ∧ r'.Named s.handle name := by
  obtain ⟨settings, hdefine⟩ := defineCaches_eq_run host store params s.handle standardCaches ∅ r
  unfold equip at h
  generalize defineCaches host store params s.handle standardCaches ∅ r = defined at hdefine h
  obtain ⟨result, r₁⟩ := defined
  subst hdefine
  obtain ⟨ch, hstarter, hnamed⟩ :=
    s.subscribe_of_named _ hchannel (hn.run_define s.handle settings)
  cases result with
  | error e => cases h
  | ok caches₁ =>
      dsimp only at h
      split at h
      · cases h
      · split at h
        · cases h
        · cases h
          exact ⟨⟨ch, hstarter⟩, hnamed⟩

/-- Looking for a free port leaves the world alone. -/
theorem snd_tryPorts_bind (ip : Ip) (base : UInt16) (ports : List Nat) (w : World) :
    (tryPorts ip base (World.bind host) ports w).2 = w := by
  induction ports with
  | nil => rfl
  | cons port ports ih =>
      have hbind : ∀ a, (World.bind host a w).2 = w := by
        intro a
        unfold World.bind
        split
        · rfl
        · split
          · rfl
          · split <;> rfl
      have hport := hbind { ip, port := .ofNat port }
      unfold tryPorts
      dsimp only
      split <;> rename_i he <;> rw [he] at hport <;> cases hport
      · rfl
      · exact ih
      · rfl

/-- A member gets an endpoint, or nothing changes. -/
theorem startEndpoint_cases (host : Host) (config : Config) (caches : TreeMap String CacheId)
    (n : Node) (w : World) :
    (∃ result, n.startEndpoint host config caches w = (result, n, w)) ∨
      ∃ a, n.startEndpoint host config caches w =
        (.ok (), { n with endpoint := some a, runtime := some endpointRuntime },
          w.listen a caches) := by
  unfold startEndpoint
  split
  · exact .inl ⟨_, rfl⟩
  · rename_i ip _
    have hsame : (negotiate ip config.endpointPort (attemptBudget config.nodes) (World.bind host)
        w).2 = w := snd_tryPorts_bind ip _ _ w
    split <;> rename_i he <;> rw [he] at hsame <;> cases hsame
    · exact .inl ⟨_, rfl⟩
    · exact .inl ⟨_, rfl⟩
    · split
      · exact .inl ⟨_, rfl⟩
      · exact .inr ⟨_, rfl⟩

/-- A member in a state, on the cluster of its name. It waits as long as the cluster is too small. -/
inductive Seated (host : Host) (config : Config) (s : Starter) (r : Registry) : NodeState → Prop
  | intro {store : StoreConfig} {x : Handle} {c : Cluster}
    (loaded : StoreConfig.load config.storeConfig host.contents = .ok store)
    (holder : r.holder? s.handle = some (x, c)) (name : c.name = clusterName config store) :
    Seated host config s r
      (if config.nodes ≤ c.members.size then .ready else .awaitingConvergence)

theorem Seated.state_cases {s : Starter} {r : Registry} {state : NodeState}
    (h : Seated host config s r state) : state = .ready ∨ state = .awaitingConvergence := by
  cases h
  split
  · exact .inl rfl
  · exact .inr rfl

theorem seated_sample {store : StoreConfig} {s : Starter} {r : Registry} {ch : ChannelId}
    (loaded : StoreConfig.load config.storeConfig host.contents = .ok store)
    (hchannel : s.channel = some ch) (hfirst : s.sampled = none)
    (hgate : s.gate = { target := config.nodes })
    (hn : r.Named s.handle (clusterName config store)) :
    Seated host config (s.sample r) r
      (if (s.sample r).gate.released then .ready else .awaitingConvergence) := by
  obtain ⟨x, c, holder, name⟩ := hn
  have hreleased := s.released_sample r hchannel hfirst (by rw [hgate]) holder
  rw [hgate] at hreleased
  simp only [hreleased, decide_eq_true_eq]
  exact .intro loaded (by rw [s.handle_sample, holder]) name

inductive Serves (config : Config) (w : World) (n : Node) (w' : World) : Prop
  | nothing (endpoint : n.endpoint = none) (endpoints : w'.endpoints = w.endpoints)
  | caches {l : Listening} (mode : config.clientMode = true) (endpoint : n.endpoint = some l.address)
    (endpoints : w'.endpoints = w.endpoints ++ [l])

/-- How the start of a member can end, which up to then held nothing. -/
inductive MemberStart (host : Host) (config : Config) (w : World) :
    Except NodeError Unit → Node → World → Prop
  /-- The member is no member, or not any more. -/
  | refused {e : NodeError} {n : Node} {w' : World} (role : n.role = .member)
    (idle : n.member = none) (endpoint : n.endpoint = none) (restored : w.Restored w') :
    MemberStart host config w (.error e) n w'
  | failed {e : NodeError} {n : Node} {s : Starter} {w' : World} (role : n.role = .member)
    (member : n.member = some s) (endpoint : n.endpoint = none)
    (enrolled : w.registry.Enrolled s.handle w'.registry) (endpoints : w'.endpoints = w.endpoints) :
    MemberStart host config w (.error e) n w'
  | started {n : Node} {s : Starter} {w' : World} (role : n.role = .member)
    (member : n.member = some s) (enrolled : w.registry.Enrolled s.handle w'.registry)
    (seated : Seated host config s w'.registry n.state) (serves : Serves config w n w') :
    MemberStart host config w (.ok ()) n w'

theorem memberStart (hw : w.registry.Coherent) (hrole : n.role = .member)
    (hmember : n.member = none) (hendpoint : n.endpoint = none) {result : Except NodeError Unit}
    (h : n.startMember host config w = (result, n', w')) :
    MemberStart host config w result n' w' := by
  unfold startMember at h
  split at h
  · cases h
    exact .refused hrole hmember hendpoint (.refl hw)
  · rename_i store hstore
    dsimp only at h
    split at h
    · cases h
      exact .refused hrole hmember hendpoint (.refl hw)
    · let joined := Starter.join w.registry (clusterName config store) config.discoverySeeds
        config.nodes
      have hjoin : w.registry.Enrolled joined.1.handle joined.2 := hw.enrolled_join _ _
      have hnamed : joined.2.Named joined.1.handle (clusterName config store) :=
        w.registry.named_join _ _
      have hequip := enrolled_equip host store config.clusterParams joined.1 hjoin
      split at h <;> rename_i he <;> rw [he] at hequip
      · rename_i s r
        cases h
        exact .refused hrole hmember hendpoint ⟨s.sameHandles_giveUp r hequip, rfl⟩
      · rename_i caches s r
        obtain ⟨⟨ch, hs⟩, hnamed'⟩ := equip_ok rfl hnamed he
        have henrolled : w.registry.Enrolled (s.sample r).handle r := by
          rw [s.handle_sample]
          exact hequip
        have hseated : Seated host config (s.sample r) r _ :=
          seated_sample hstore (by rw [hs]) (by rw [hs]; rfl) (by rw [hs]; rfl)
            (by rw [hs]; exact hnamed')
        split at h
        · rename_i hmode
          rcases startEndpoint_cases host config caches
            { n with member := some (s.sample r) } { w with registry := r } with
            ⟨result, hr⟩ | ⟨a, hr⟩
          · rw [hr] at h
            cases result with
            | error e =>
                cases h
                exact .failed hrole rfl hendpoint henrolled rfl
            | ok _ =>
                cases h
                exact .started hrole rfl henrolled hseated (.nothing hendpoint rfl)
          · rw [hr] at h
            cases h
            exact .started hrole rfl henrolled hseated (.caches hmode rfl rfl)
        · cases h
          exact .started hrole rfl henrolled hseated (.nothing hendpoint rfl)

structure Connected (config : Config) (n : Node) (w : World) : Prop where
  servers : parseServers config.endpointPort (",".intercalate config.clientServers) = .ok n.servers
  remote : ∃ id : ClientId, n.remotes[plainCache]? = some id ∧ id ∈ w.clients

inductive ClientStart (config : Config) (w : World) : Except NodeError Unit → Node → World → Prop
  | failed {e : NodeError} {n : Node} {w' : World} (role : n.role = .client)
    (member : n.member = none) (endpoint : n.endpoint = none) (restored : w.Restored w') :
    ClientStart config w (.error e) n w'
  | started {n : Node} {w' : World} (state : n.state = .ready) (role : n.role = .client)
    (member : n.member = none) (endpoint : n.endpoint = none) (restored : w.Restored w')
    (connected : Connected config n w') : ClientStart config w (.ok ()) n w'

theorem mem_clients_openClient {name : String} {servers : List SocketAddress} {id : ClientId}
    (h : w.openClient host name servers = (.ok id, w')) : id ∈ w'.clients := by
  unfold World.openClient at h
  split at h <;> cases h
  exact TreeMap.mem_insert_self

theorem clientStart (hw : w.registry.Coherent) (hrole : n.role = .client)
    (hmember : n.member = none) (hendpoint : n.endpoint = none) {result : Except NodeError Unit}
    (h : n.startClient host config w = (result, n', w')) : ClientStart config w result n' w' := by
  unfold startClient at h
  split at h
  · cases h
    exact .failed hrole hmember hendpoint (.refl hw)
  · split at h
    · cases h
      exact .failed hrole hmember hendpoint (.refl hw)
    · rename_i servers hservers
      dsimp only at h
      split at h
      · cases h
        exact .failed hrole hmember hendpoint (.refl hw)
      · have hopen := (World.Restored.refl hw).openClient host plainCache servers
        split at h <;> rename_i he <;> rw [he] at hopen <;> cases h
        · exact .failed hrole hmember hendpoint hopen
        · exact .started rfl hrole hmember hendpoint hopen
            ⟨hservers, _, TreeMap.getElem?_insert_self, mem_clients_openClient he⟩

/-- How the start of a node can end that holds nothing: it holds nothing and gave back what it took,
or it is online. -/
inductive Started (host : Host) (config : Config) (role : Role) (w : World) :
    Except NodeError Unit → Node → World → Prop
  | failed {e : NodeError} {w' : World} (restored : w.Restored w') :
    Started host config role w (.error e) { role } w'
  | member {n : Node} {s : Starter} {w' : World} (member : role = .member) (node : n.role = .member)
    (starter : n.member = some s) (enrolled : w.registry.Enrolled s.handle w'.registry)
    (seated : Seated host config s w'.registry n.state) (serves : Serves config w n w') :
    Started host config role w (.ok ()) n w'
  | client {n : Node} {w' : World} (client : role = .client) (node : n.role = .client)
    (state : n.state = .ready) (member : n.member = none) (endpoint : n.endpoint = none)
    (restored : w.Restored w') (connected : Connected config n w') :
    Started host config role w (.ok ()) n w'

theorem Started.of_stop {role : Role} {e : NodeError} (hrole : n.role = role)
    (h : w.Restored (n.stop w').2) :
    Started host config role w (.error e) (n.stop w').1 (n.stop w').2 := by
  subst hrole
  exact .failed h

theorem started (hw : w.registry.Coherent) {role : Role} {result : Except NodeError Unit}
    (h : ({ role } : Node).start host config w = (result, n, w')) :
    Started host config role w result n w' := by
  unfold start at h
  simp only [ne_eq, not_true_eq_false, if_false] at h
  cases hv : config.validate with
  | error e =>
      rw [hv] at h
      cases h
      exact .failed (.refl hw)
  | ok _ =>
      rw [hv] at h
      cases role with
      | member =>
          dsimp only at h
          split at h
          · rename_i e n₁ w₁ hs
            cases h
            cases memberStart hw rfl rfl rfl hs with
            | refused role idle endpoint restored =>
                exact .of_stop role (Since.stop ⟨endpoint, .other idle restored.registry,
                  restored.endpoints⟩)
            | failed role member endpoint enrolled endpoints =>
                exact .of_stop role (Since.stop ⟨endpoint, .member member enrolled, endpoints⟩)
          · rename_i n₁ w₁ hs
            cases h
            cases memberStart hw rfl rfl rfl hs with
            | started role member enrolled seated serves =>
                exact .member rfl role member enrolled seated serves
      | client =>
          dsimp only at h
          split at h
          · rename_i e n₁ w₁ hs
            cases h
            cases clientStart hw rfl rfl rfl hs with
            | failed role member endpoint restored =>
                exact .of_stop role (Since.stop ⟨endpoint, .other member restored.registry,
                  restored.endpoints⟩)
          · rename_i n₁ w₁ hs
            cases h
            cases clientStart hw rfl rfl rfl hs with
            | started state role member endpoint restored connected =>
                exact .client rfl role state member endpoint restored connected

theorem state_of_start (hw : w.registry.Coherent)
    (h : (ofConfig config).start host config w = (.ok (), n, w')) :
    n.state = .ready ∨ n.state = .awaitingConvergence := by
  cases started hw h with
  | member _ _ _ _ seated => exact seated.state_cases
  | client _ _ state => exact .inl state

/-- What a start did, and that a failed one gave back all it took. -/
theorem since_start (hw : w.registry.Coherent) {result : Except NodeError Unit}
    (h : (ofConfig config).start host config w = (result, n, w')) :
    Since w n w' ∧ (result ≠ .ok () → w.Restored w') := by
  cases started hw h with
  | failed restored =>
      exact ⟨⟨rfl, .other rfl restored.registry, restored.endpoints⟩, fun _ => restored⟩
  | member role _ starter enrolled _ serves =>
      cases serves with
      | nothing endpoint endpoints =>
          exact ⟨⟨endpoint, .member starter enrolled, endpoints⟩, fun hne => absurd rfl hne⟩
      | caches mode => simp [mode] at role
  | client _ _ _ member endpoint restored =>
      exact ⟨⟨endpoint, .other member restored.registry, restored.endpoints⟩,
        fun hne => absurd rfl hne⟩

theorem state_resume (hstate : n.state = .ready ∨ n.state = .awaitingConvergence) (w : World) :
    (n.resume w).1.state = .ready ∨ (n.resume w).1.state = .awaitingConvergence := by
  unfold resume
  split
  · exact hstate
  · dsimp only
    split
    · exact .inl rfl
    · exact hstate

/-! ## Caches -/

/-- Asking for a cache adds one to the remote caches at most. Only a ready node has any. -/
theorem cache_cases (hw : w.registry.Coherent) {name : String}
    {result : Except NodeError CacheHandle} (h : n.cache host w name = (result, n', w')) :
    (∃ remotes, n' = { n with remotes }) ∧ w.Restored w' ∧
      ∀ handle, result = .ok handle → n.state = .ready := by
  unfold Node.cache at h
  split at h
  · cases h
    exact ⟨⟨_, rfl⟩, .refl hw, nofun⟩
  · rename_i hstate
    have hready : ∀ handle, result = .ok handle → n.state = .ready :=
      fun _ _ => of_not_not hstate
    split at h
    · split at h
      · split at h <;> cases h <;> exact ⟨⟨_, rfl⟩, .refl hw, hready⟩
      · cases h
        exact ⟨⟨_, rfl⟩, .refl hw, hready⟩
    · split at h
      · cases h
        exact ⟨⟨_, rfl⟩, .refl hw, hready⟩
      · split at h
        · cases h
          exact ⟨⟨_, rfl⟩, .refl hw, hready⟩
        · have hopen := (World.Restored.refl hw).openClient host name n.servers
          split at h <;> rename_i he <;> rw [he] at hopen <;> cases h <;>
            exact ⟨⟨_, rfl⟩, hopen, hready⟩

theorem Holds.coherent {r r' : Registry} (h : Holds r n r') : r'.Coherent := by
  cases h with
  | member _ enrolled => exact enrolled.coherent
  | other _ kept => exact kept.coherent

/-- What keeps the handles keeps what a node holds. -/
theorem Holds.trans {r r' r'' : Registry} (h : Holds r n r') (hsame : r'.SameHandles r'')
    (hhandle : n'.member.map Starter.handle = n.member.map Starter.handle) : Holds r n' r'' := by
  cases h with
  | @member s member enrolled =>
      rw [member] at hhandle
      obtain ⟨s', hs', hkept⟩ := Option.map_eq_some_iff.1 hhandle
      have henrolled : r.Enrolled s.handle r'' := by
        refine ⟨hsame.coherent, enrolled.fresh, ?_, fun a hne => ?_⟩
        · rw [hsame.handles]
          exact enrolled.live
        · rw [hsame.handles, enrolled.others a hne]
      exact .member hs' (hkept ▸ henrolled)
  | other member kept =>
      rw [member] at hhandle
      refine .other (Option.map_eq_none_iff.1 hhandle) ⟨hsame.coherent, fun a => ?_⟩
      rw [hsame.handles, kept.handles]

theorem Since.cache (h : Since w n w') {name : String} {result : Except NodeError CacheHandle}
    (hcache : n.cache host w' name = (result, n', w'')) : Since w n' w'' := by
  obtain ⟨⟨remotes, rfl⟩, hrestored, -⟩ := cache_cases h.holds.coherent hcache
  exact ⟨h.endpoint, h.holds.trans hrestored.registry rfl, hrestored.endpoints.trans h.endpoints⟩

theorem Since.resume (h : Since w n w') : Since w (n.resume w').1 (n.resume w').2 := by
  unfold Node.resume
  cases hmember : n.member with
  | none => exact h
  | some s =>
      obtain ⟨hhandle, hsame⟩ := s.sameHandles_deliverAll w'.registry h.holds.coherent
      refine ⟨h.endpoint, h.holds.trans hsame ?_, h.endpoints⟩
      rw [hmember]
      exact congrArg some hhandle

theorem ready_of_cache (hw : w.registry.Coherent) {name : String} {handle : CacheHandle}
    (hcache : n.cache host w name = (.ok handle, n', w')) : n'.state = .ready := by
  obtain ⟨⟨remotes, rfl⟩, -, hready⟩ := cache_cases hw hcache
  exact hready handle rfl

end Node

end CacheBench
