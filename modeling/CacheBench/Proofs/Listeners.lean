import CacheBench.Proofs.Membership

/-!
# Who listens

A channel has one listener at most, in the cluster and for the node of the handle that opened it.
If that was the handle of a member, the listener is there as long as the member is. A handle whose
member has left may open a channel too, and no later leave takes its listener away.
-/

namespace CacheBench

open Std (TreeMap)

namespace Registry

/-- What holds of the channel `ch` ever since a handle in the state `x` opened it. -/
structure Opened (r : Registry) (x : Handle) (ch : ChannelId) : Prop where
  channel_lt : ch < r.next
  cluster_lt : x.cluster < r.next
  node_lt : ∀ c, r.roll? x.cluster = some c → x.node < c.nextNode
  sole : ∀ id c l, r.roll? id = some c → l ∈ c.listeners → l.channel = ch →
    id = x.cluster ∧ l.owner = x.node
  gone : ∀ c, r.roll? x.cluster = some c → x.left = true → x.node ∉ c.members
  member : ∀ c, r.roll? x.cluster = some c → ⟨x.node, ch⟩ ∈ c.listeners →
    x.left = true ∨ x.node ∈ c.members
  listens : ∀ c, r.roll? x.cluster = some c → ch ∈ r.channels →
    x.left = true ∨ x.node ∈ c.members → ⟨x.node, ch⟩ ∈ c.listeners

variable {r r' : Registry} {x : Handle} {ch : ChannelId}

theorem Opened.sameMembers (ho : r.Opened x ch) (h : SameMembers r r') : r'.Opened x ch := by
  have hroll : ∀ c, r'.roll? x.cluster = some c → r.roll? x.cluster = some c := by
    intro c hc
    rcases h.roll_cases hc with hold | ⟨hle, -, -⟩
    · exact hold
    · exact absurd ho.cluster_lt (Nat.not_lt_of_le hle)
  refine ⟨ho.channel_lt.trans_le h.next, ho.cluster_lt.trans_le h.next,
    fun c hc => ho.node_lt c (hroll c hc), ?_, fun c hc => ho.gone c (hroll c hc),
    fun c hc => ho.member c (hroll c hc),
    fun c hc hch => ho.listens c (hroll c hc) (h.channels ch hch)⟩
  intro id c l hc hl
  rcases h.roll_cases hc with hold | ⟨-, -, rfl⟩
  · exact ho.sole id c l hold hl
  · cases hl

theorem Opened.enroll (ho : r.Opened x ch) {id : ClusterId} {c : Cluster} (seeds : List String)
    (hc : r.clusters[id]? = some c) : (r.enroll id c seeds).Opened x ch := by
  have hroll : r.roll? id = some c.roll := r.roll?_of_cluster hc
  have hch := r.mem_channels_enroll id c seeds ch
  obtain ⟨hchannel_lt, hcluster_lt, hnode_lt, hsole, hgone, hmember, hlistens⟩ := ho
  refine ⟨Nat.lt_succ_of_lt hchannel_lt, Nat.lt_succ_of_lt hcluster_lt, ?node_lt, ?sole, ?gone,
    ?member, ?listens⟩
  case sole =>
    intro a c' l hc' hl
    rw [roll?_enroll] at hc'
    grind
  all_goals
    intro c' hc'
    rw [roll?_enroll] at hc'
    grind

/-- Another leaves, or the member whose channel it is. -/
theorem Opened.depart (ho : r.Opened x ch) (hr : r.Coherent) {h : HandleId} {y : Handle}
    {c : Cluster} (hy : r.handles[h]? = some y) (hl : y.left = false)
    (hc : r.clusters[y.cluster]? = some c) : (r.depart h y c).Opened x ch := by
  have hroll : r.roll? y.cluster = some c.roll := r.roll?_of_cluster hc
  have hleaver : y.node ∈ c.members := (hr.mem_iff _ _ _ hroll).2 ⟨h, by rw [hy, ← hl]⟩
  have hch := r.mem_channels_depart h y c ch
  obtain ⟨hchannel_lt, hcluster_lt, hnode_lt, hsole, hgone, hmember, hlistens⟩ := ho
  refine ⟨hchannel_lt, hcluster_lt, ?node_lt, ?sole, ?gone, ?member, ?listens⟩
  case sole =>
    intro a c' l hc' hl
    rw [roll?_depart] at hc'
    grind
  all_goals
    intro c' hc'
    rw [roll?_depart] at hc'
    grind

theorem Opened.forget (ho : r.Opened x ch) (h : HandleId) : (r.forget h).Opened x ch := by
  refine ⟨?_, ?_, fun c hc => ho.node_lt c (r.roll?_of_forget hc),
    fun a c l hc => ho.sole a c l (r.roll?_of_forget hc),
    fun c hc => ho.gone c (r.roll?_of_forget hc), fun c hc => ho.member c (r.roll?_of_forget hc),
    fun c hc hch => ho.listens c (r.roll?_of_forget hc) ?_⟩
  · exact (r.next_forget h).symm ▸ ho.channel_lt
  · exact (r.next_forget h).symm ▸ ho.cluster_lt
  · exact r.channels_forget h ▸ hch

theorem Opened.listen (ho : r.Opened x ch) {y : Handle} {c : Cluster}
    (hc : r.clusters[y.cluster]? = some c) : (r.listen y c).Opened x ch := by
  have hroll : r.roll? y.cluster = some c.roll := r.roll?_of_cluster hc
  have hne : r.next ≠ ch := ho.channel_lt.ne'
  have hch : ch ∈ (r.listen y c).channels ↔ ch ∈ r.channels := by
    rw [TreeMap.mem_iff_isSome_getElem?, getElem?_channels_listen, if_neg hne,
      TreeMap.mem_iff_isSome_getElem?]
  obtain ⟨hchannel_lt, hcluster_lt, hnode_lt, hsole, hgone, hmember, hlistens⟩ := ho
  refine ⟨Nat.lt_succ_of_lt hchannel_lt, Nat.lt_succ_of_lt hcluster_lt, ?node_lt, ?sole, ?gone,
    ?member, ?listens⟩
  case sole =>
    intro a c' l hc' hl
    rw [roll?_listen] at hc'
    grind
  all_goals
    intro c' hc'
    rw [roll?_listen] at hc'
    grind

theorem Opened.effect (ho : r.Opened x ch) (hr : r.Coherent) {call : Call}
    (he : Effect r call r') : r'.Opened x ch := by
  cases he with
  | quiet same => exact ho.sameMembers same
  | enroll same _ cluster => exact (ho.sameMembers same).enroll _ cluster
  | depart handle member cluster => exact ho.depart hr handle member cluster
  | release handle member cluster => exact (ho.depart hr handle member cluster).forget _
  | forget => exact ho.forget _
  | listen _ cluster => exact ho.listen cluster

theorem Opened.run (ho : r.Opened x ch) (hr : r.Coherent) (calls : List Call) :
    (r.run calls).Opened x ch := by
  refine hr.run_induction (P := fun r => r.Opened x ch) ho ?_
  intro r r' call _ hr he ho
  exact ho.effect hr he

theorem Coherent.opened (hr : r.Coherent) {h : HandleId} {c : Cluster}
    (hx : r.handles[h]? = some x) (hc : r.clusters[x.cluster]? = some c) :
    (r.listen x c).Opened x r.next := by
  have hroll : r.roll? x.cluster = some c.roll := r.roll?_of_cluster hc
  have hroll' := r.roll?_listen x c x.cluster
  rw [if_pos rfl] at hroll'
  have hmem := hr.mem_iff x.cluster c.roll x.node hroll
  have hleft : x.left = true ↔ x.node ∉ c.members := by
    constructor
    · intro hl hn
      obtain ⟨h', hh'⟩ := hmem.1 hn
      have he : h = h' := hr.handle_unique h h' x _ hx hh' rfl rfl
      subst h'
      have hx' : x = ⟨x.cluster, x.node, false⟩ := Option.some.inj (hx.symm.trans hh')
      rw [hx'] at hl
      cases hl
    · intro hn
      by_contra hl
      refine hn (hmem.2 ⟨h, ?_⟩)
      rw [hx, ← Bool.eq_false_of_not_eq_true hl]
  have hnew : ∀ a c' l, r.roll? a = some c' → l ∈ c'.listeners → l.channel ≠ r.next :=
    fun a c' l hc' hl => (hr.listener_lt a c' l hc' hl).2.ne
  refine ⟨Nat.lt_succ_self _, ?cluster_lt, ?node_lt, ?sole, ?gone, ?member, ?listens⟩
  case cluster_lt => exact Nat.lt_succ_of_lt (hr.handle_cluster_lt hx)
  case node_lt =>
    intro c' hc'
    cases hroll'.symm.trans hc'
    obtain ⟨c', hc', hlt⟩ := hr.roll_of_handle h x hx
    cases hroll.symm.trans hc'
    exact hlt
  case sole =>
    intro a c' l hc' hl hch
    rw [roll?_listen] at hc'
    split at hc'
    · subst a
      cases hc'
      rcases List.mem_append.1 hl with hl | hl
      · exact absurd hch (hnew x.cluster c.roll l hroll hl)
      · rw [List.mem_singleton.1 hl]
        exact ⟨rfl, rfl⟩
    · exact absurd hch (hnew a c' l hc' hl)
  case gone =>
    intro c' hc'
    cases hroll'.symm.trans hc'
    exact hleft.1
  case member =>
    intro c' hc' _
    cases hroll'.symm.trans hc'
    exact Classical.or_iff_not_imp_left.2 fun hl => not_not.1 (mt hleft.2 hl)
  case listens =>
    intro c' hc' _ _
    cases hroll'.symm.trans hc'
    exact List.mem_append_right _ (List.mem_singleton_self _)

theorem Coherent.opened_subscribe (hr : r.Coherent) {h : HandleId} (hx : r.handles[h]? = some x)
    (hch : (r.subscribe h).map Prod.fst = some ch) :
    (r.step (.subscribe h)).Opened x ch ∧ ch ∈ (r.step (.subscribe h)).channels ∧
      (r.step (.subscribe h)).waiting ch = [] ∧ (r.step (.subscribe h)).handles[h]? = some x := by
  obtain ⟨c, hc⟩ := hr.cluster_of_handle hx
  have hsub := r.subscribe_eq hx hc
  rw [hsub] at hch
  cases hch
  have hstep : r.step (.subscribe h) = r.listen x c := by simp [Registry.step, hsub]
  have hnew : (r.listen x c).channels[r.next]? = some [] := by
    rw [getElem?_channels_listen, if_pos rfl]
  rw [hstep, waiting_eq, hnew]
  exact ⟨hr.opened hx hc, TreeMap.mem_iff_isSome_getElem?.2 (hnew ▸ rfl), rfl, hx⟩

theorem Opened.isOpen_iff (ho : r.Opened x ch) (hch : ch ∈ r.channels) :
    r.isOpen ch ↔ ∃ c, r.clusters[x.cluster]? = some c ∧ (x.left = true ∨ x.node ∈ c.members) := by
  rw [Registry.isOpen_iff]
  constructor
  · rintro ⟨id, c, hc, l, hl, rfl⟩
    obtain ⟨rfl, howner⟩ := ho.sole id c l hc hl rfl
    have hmem := ho.member c hc (howner ▸ hl)
    obtain ⟨c', hc', rfl⟩ := r.roll?_eq_some_iff.1 hc
    exact ⟨c', hc', hmem⟩
  · rintro ⟨c, hc, hmem⟩
    have hroll := r.roll?_of_cluster hc
    exact ⟨x.cluster, c.roll, hroll, _, ho.listens c.roll hroll hch hmem, rfl⟩

/-- Leaving and joining take listeners away and bring none. -/
theorem listener_before_enroll {id a : ClusterId} {c : Cluster} {seeds : List String}
    (hc : r.clusters[id]? = some c) {c' : Roll} (hc' : (r.enroll id c seeds).roll? a = some c')
    {l : Listener} (hl : l ∈ c'.listeners) : ∃ c₀, r.roll? a = some c₀ ∧ l ∈ c₀.listeners := by
  rw [roll?_enroll] at hc'
  split at hc'
  · subst a
    cases hc'
    exact ⟨c.roll, r.roll?_of_cluster hc, (List.mem_filter.1 hl).1⟩
  · exact ⟨c', hc', hl⟩

theorem listener_before_depart {h : HandleId} {y : Handle} {a : ClusterId} {c : Cluster}
    (hc : r.clusters[y.cluster]? = some c) {c' : Roll} (hc' : (r.depart h y c).roll? a = some c')
    {l : Listener} (hl : l ∈ c'.listeners) : ∃ c₀, r.roll? a = some c₀ ∧ l ∈ c₀.listeners := by
  rw [roll?_depart] at hc'
  split at hc'
  · subst a
    cases hc'
    have hl' := (List.mem_filter.1 (List.mem_filter.1 hl).1).1
    exact ⟨c.roll, r.roll?_of_cluster hc, hl'⟩
  · exact ⟨c', hc', hl⟩

/-- A listener was there before a call, or the call is the one that opened its channel. -/
theorem listener_effect {call : Call} (he : Effect r call r') {id : ClusterId} {c : Roll}
    {l : Listener} (hc : r'.roll? id = some c) (hl : l ∈ c.listeners) :
    (∃ c₀, r.roll? id = some c₀ ∧ l ∈ c₀.listeners) ∨
      ∃ h x c₁, call = .subscribe h ∧ r.handles[h]? = some x ∧ r.clusters[x.cluster]? = some c₁ ∧
        r' = r.listen x c₁ ∧ x.cluster = id ∧ l = ⟨x.node, r.next⟩ := by
  have hbefore : ∀ {r₁ : Registry}, SameMembers r r₁ →
      (∃ c₀, r₁.roll? id = some c₀ ∧ l ∈ c₀.listeners) →
      ∃ c₀, r.roll? id = some c₀ ∧ l ∈ c₀.listeners := by
    rintro r₁ same ⟨c₀, hc₀, hl₀⟩
    rcases same.roll_cases hc₀ with hold | ⟨-, -, rfl⟩
    · exact ⟨c₀, hold, hl₀⟩
    · cases hl₀
  cases he with
  | quiet same => exact .inl (hbefore same ⟨c, hc, hl⟩)
  | enroll same _ cluster => exact .inl (hbefore same (listener_before_enroll cluster hc hl))
  | depart handle member cluster => exact .inl (listener_before_depart cluster hc hl)
  | release handle member cluster =>
      exact .inl (listener_before_depart cluster (roll?_of_forget _ hc) hl)
  | forget => exact .inl ⟨c, r.roll?_of_forget hc, hl⟩
  | @listen h x c₁ handle cluster =>
      rw [roll?_listen] at hc
      split at hc
      · rename_i hid
        cases hc
        rcases List.mem_append.1 hl with hl | hl
        · exact .inl ⟨c₁.roll, hid ▸ r.roll?_of_cluster cluster, hl⟩
        · exact .inr ⟨h, x, c₁, rfl, handle, cluster, rfl, hid, List.mem_singleton.1 hl⟩
      · exact .inl ⟨c, hc, hl⟩

/-- Every listener comes from a call in the run. -/
theorem exists_subscribe_of_listener (calls : List Call) {id : ClusterId} {c : Roll} {l : Listener}
    (hc : (({} : Registry).run calls).roll? id = some c) (hl : l ∈ c.listeners) :
    ∃ earlier h later x, calls = earlier ++ .subscribe h :: later ∧
      (({} : Registry).run earlier).handles[h]? = some x ∧ x.cluster = id ∧
      l = ⟨x.node, (({} : Registry).run earlier).next⟩ ∧
      (({} : Registry).run calls).Opened x l.channel := by
  induction calls using List.reverseRecOn generalizing id c with
  | nil => simp [run, roll?] at hc
  | append_singleton calls call ih =>
      have hr := coherent_run calls
      have he := hr.effect_step call
      have hrun : ({} : Registry).run (calls ++ [call]) = (({} : Registry).run calls).step call :=
        run_append _ _ _
      rw [hrun] at hc ⊢
      rcases listener_effect he hc hl with ⟨c₀, hc₀, hl₀⟩ | ⟨h, x, c₁, rfl, hx, hc₁, he', hid, rfl⟩
      · obtain ⟨earlier, h, later, x, rfl, hx, hid, heq, ho⟩ := ih hc₀ hl₀
        exact ⟨earlier, h, later ++ [call], x, by simp, hx, hid, heq, ho.effect hr he⟩
      · exact ⟨calls, h, [], x, rfl, hx, hid, rfl, he' ▸ hr.opened hx hc₁⟩

/-- After any calls, the owner of a listener is a member unless it had left before it subscribed,
and a channel is open in the same two cases, as long as the cluster is there. -/
theorem listener_owner_mem_iff (calls : List Call) :
    (∀ (id : ClusterId) (c : Cluster) (l : Listener),
      (({} : Registry).run calls).clusters[id]? = some c → l ∈ c.listeners →
      ∃ earlier h later x, calls = earlier ++ .subscribe h :: later ∧
        (({} : Registry).run earlier).handles[h]? = some x ∧ x.cluster = id ∧ x.node = l.owner ∧
        l.channel = (({} : Registry).run earlier).next ∧ (l.owner ∈ c.members ↔ x.left = false)) ∧
    ∀ (earlier later : List Call) (h : HandleId) (x : Handle) (ch : ChannelId),
      calls = earlier ++ .subscribe h :: later →
      (({} : Registry).run earlier).handles[h]? = some x →
      ((({} : Registry).run earlier).subscribe h).map Prod.fst = some ch →
      ch ∈ (({} : Registry).run calls).channels →
      ((({} : Registry).run calls).isOpen ch ↔
        ∃ c, (({} : Registry).run calls).clusters[x.cluster]? = some c ∧
          (x.left = true ∨ x.node ∈ c.members)) := by
  constructor
  · intro id c l hc hl
    have hroll := (({} : Registry).run calls).roll?_of_cluster hc
    obtain ⟨earlier, h, later, x, hcalls, hx, rfl, rfl, ho⟩ :=
      exists_subscribe_of_listener calls hroll hl
    refine ⟨earlier, h, later, x, hcalls, hx, rfl, rfl, rfl, ?_⟩
    have hmember := ho.member c.roll hroll hl
    have hgone := ho.gone c.roll hroll
    constructor
    · intro hn
      exact Bool.eq_false_of_not_eq_true fun hleft => hgone hleft hn
    · intro hstayed
      rcases hmember with hleft | hn
      · cases hstayed.symm.trans hleft
      · exact hn
  · rintro earlier later h x ch rfl hx hsub hch
    have hr := coherent_run earlier
    have hrun : ({} : Registry).run (earlier ++ .subscribe h :: later) =
        ((({} : Registry).run earlier).step (.subscribe h)).run later := run_append _ _ _
    rw [hrun] at hch ⊢
    have ho := (hr.opened_subscribe hx hsub).1.run (hr.step _) later
    exact ho.isOpen_iff hch

/-- A member joins, leaves, and subscribes by the handle that it still has. -/
def afterLeaving : List Call := [.join "c1" [], .leave 1, .subscribe 1]

theorem listener_of_former_member : ¬ ∀ (calls : List Call) (id : ClusterId) (c : Cluster)
    (l : Listener), (({} : Registry).run calls).clusters[id]? = some c → l ∈ c.listeners →
    l.owner ∈ c.members := by
  intro h
  have hrun : ((({} : Registry).run afterLeaving).clusters[0]?).map
      (fun c => (c.listeners, c.members.contains 1)) = some ([⟨1, 2⟩], false) := by decide +kernel
  obtain ⟨c, hc, he⟩ := Option.map_eq_some_iff.1 hrun
  obtain ⟨hl, hm⟩ := Prod.mk.inj he
  have hmem : 1 ∈ c.members := h afterLeaving 0 c ⟨1, 2⟩ hc (hl ▸ List.mem_singleton_self _)
  exact Bool.false_ne_true (hm.symm.trans hmem)

end Registry

end CacheBench
