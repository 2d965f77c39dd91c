import CacheBench.Proofs.Admissions
import CacheBench.Proofs.CacheDefinitions

/-!
# Who shares what

What a handle shows is told by what the joins and the definitions of the run gave: which handles are
on one cluster, who its members are, and which caches they find (`Sharing`).
-/

namespace CacheBench

open Std (TreeMap)

namespace Registry

variable {r r' : Registry} {h : HandleId} {x : Handle} {calls : List Call}

/-! ## The life of a handle -/

theorem Coherent.handle_gone (hr : r.Coherent) (hlt : h < r.next) (hx : r.handles[h]? = none) :
    (r.run calls).handles[h]? = none := by
  refine (hr.run_induction (P := fun r => h < r.next ∧ r.handles[h]? = none) ⟨hlt, hx⟩ ?_).2
  rintro r r' call - - he ⟨hlt, hx⟩
  refine ⟨hlt.trans_le he.next_le, ?_⟩
  by_cases hcall : ∃ name seeds, call = .join name seeds
  · obtain ⟨name, seeds, rfl⟩ := hcall
    exact (he.handle_of_other hlt nofun nofun).trans hx
  · refine Option.eq_none_iff_forall_not_mem.2 fun y hy => ?_
    obtain ⟨x, hx', -⟩ := he.handle_before (fun name seeds h => hcall ⟨_, _, h⟩) hy
    cases hx.symm.trans hx'

/-- A handle stays on its cluster until it is dropped, and shows whether its member has left. -/
theorem Coherent.handle_life (hr : r.Coherent) (hx : r.handles[h]? = some x)
    (calls : List Call) :
    (.release h ∈ calls → (r.run calls).handles[h]? = none) ∧
      (.release h ∉ calls → ∃ left, (r.run calls).handles[h]? = some { x with left } ∧
        (left = true ↔ x.left = true ∨ .leave h ∈ calls)) := by
  induction calls generalizing r x with
  | nil => exact ⟨nofun, fun _ => ⟨x.left, hx, by simp⟩⟩
  | cons call calls ih =>
      have hlt := hr.handle_lt h x hx
      by_cases hrelease : call = .release h
      · subst call
        have hgone : (r.step (.release h)).handles[h]? = none :=
          (r.getElem?_handles_release h h).trans (if_pos rfl)
        refine ⟨fun _ => ?_, fun hmem => absurd List.mem_cons_self hmem⟩
        exact (hr.step _).handle_gone (hlt.trans_le (hr.effect_step _).next_le) hgone
      · have hmem : .release h ∈ call :: calls ↔ .release h ∈ calls := by
          simp [Ne.symm hrelease]
        rw [hmem]
        by_cases hleave : call = .leave h
        · subst call
          have hx' : (r.step (.leave h)).handles[h]? = some { x with left := true } := by
            change (r.leave h).handles[h]? = _
            rcases hr.leave_cases h with ⟨y, c, hy, -, -, he⟩ | ⟨hleft, he⟩
            · cases hx.symm.trans hy
              rw [he, getElem?_handles_depart, if_pos rfl]
            · rw [he, hx, ← hleft x hx]
          obtain ⟨hgone, hkept⟩ := ih (hr.step _) hx'
          refine ⟨hgone, fun hmem => ?_⟩
          obtain ⟨left, hy, hleft⟩ := hkept hmem
          exact ⟨left, hy, hleft.trans (by simp)⟩
        · have hx' := ((hr.effect_step call).handle_of_other hlt hleave hrelease).trans hx
          obtain ⟨hgone, hkept⟩ := ih (hr.step _) hx'
          refine ⟨hgone, fun hmem => ?_⟩
          obtain ⟨left, hy, hleft⟩ := hkept hmem
          exact ⟨left, hy, hleft.trans (by simp [Ne.symm hleave])⟩

/-! ## Joining under a name that nobody holds -/

/-- A name without a cluster gets a new one, which has one member and no caches. -/
theorem join_of_named?_eq_none {name : String} (hnone : r.named? name = none)
    (seeds : List String) : ∃ c : Cluster,
      r.admission? (.join name seeds) = some ⟨r.next + 1, name, seeds, r.next, 1⟩ ∧
      (r.join name seeds).2.handles[r.next + 1]? = some ⟨r.next, 1, false⟩ ∧
      (r.join name seeds).2.clusters[r.next]? = some c ∧ c.members.toList = [(1, seeds)] ∧
      c.caches = ∅ ∧ (r.join name seeds).2.caches = r.caches := by
  have hjoin : r.join name seeds = (r.next + 1,
      { r.setCluster r.next { name } with next := r.next + 1 }.enroll r.next { name } seeds) := by
    simp [join, ensure, hnone, setCluster]
  rw [admission?, hjoin]
  simp only [getElem?_handles_enroll, if_pos, Option.map_some]
  exact ⟨_, trivial, trivial, TreeMap.getElem?_insert_self, rfl, rfl, rfl⟩

/-! ## What every run shows -/

abbrev reached (calls : List Call) : Registry := ({} : Registry).run calls

abbrev joined (calls : List Call) : List Admission := ({} : Registry).admissions calls

abbrev defined (id : ClusterId) (calls : List Call) : List (CacheId × Settings) :=
  ({} : Registry).definitions id calls

/-- What the handles and the caches show after a run of calls. -/
structure Sharing (calls : List Call) : Prop where
  /-- Each handle is from a join of its own. -/
  origin : ∀ (h : HandleId) (x : Handle), (reached calls).handles[h]? = some x →
    ∃ m ∈ joined calls, m.handle = h
  handle_unique : ((joined calls).map Admission.handle).Nodup
  /-- A handle is on the cluster of its join until it is dropped, also after its member left. -/
  life : ∀ earlier name seeds later, calls = earlier ++ .join name seeds :: later →
    ∃ m, (reached earlier).admission? (.join name seeds) = some m ∧
      (.release m.handle ∈ later → (reached calls).handles[m.handle]? = none) ∧
      (.release m.handle ∉ later →
        ∃ left, (reached calls).handles[m.handle]? = some ⟨m.cluster, m.node, left⟩ ∧
          (left = true ↔ .leave m.handle ∈ later))
  same_cluster_iff : ∀ m ∈ joined calls, ∀ m' ∈ joined calls,
    m.handle ∈ (reached calls).handles → m'.handle ∈ (reached calls).handles →
    (m.cluster = m'.cluster ↔ m.name = m'.name)
  /-- In their order the members that joined a cluster are 1, 2, 3 and so on. -/
  numbers : ∀ id, (admittedTo id (joined calls)).map Admission.node =
    List.range' 1 (admittedTo id (joined calls)).length
  /-- The members are, in order, those whose handle has neither left nor been dropped. -/
  members : ∀ (h : HandleId) (x : Handle), (reached calls).handles[h]? = some x →
    ∃ members, (reached calls).members? h = some members ∧
      (members.map Prod.fst).Pairwise (· < ·) ∧
      ∀ n seeds, (n, seeds) ∈ members ↔ ∃ m ∈ joined calls,
        m.cluster = x.cluster ∧ m.node = n ∧ m.seeds = seeds ∧
          (reached calls).handles[m.handle]? = some ⟨m.cluster, m.node, false⟩
  /-- A definition through a handle always gives a cache. -/
  define : ∀ (h : HandleId) (x : Handle) settings, (reached calls).handles[h]? = some x →
    ∃ n, (reached calls).definition? x.cluster (.define h settings) = some (n, settings)
  /-- All handles of a cluster find the cache that the first definition of the name gave. -/
  cache : ∀ (h : HandleId) (x : Handle) name, (reached calls).handles[h]? = some x →
    (reached calls).cache h name = some (match firstOf name (defined x.cluster calls) with
      | some d => .ok d.1
      | none => .error (.unknownCache name))
  /-- Every definition gives the cache of the first one, made from the settings of that. It is
  there whatever became of the cluster. -/
  first : ∀ id, ∀ d ∈ defined id calls, ∃ settings,
    firstOf d.2.name (defined id calls) = some (d.1, settings) ∧
      (reached calls).caches[d.1]? = some (.ofSettings settings)
  /-- Neither two clusters nor two names share a cache. -/
  apart : ∀ id id', ∀ d ∈ defined id calls, ∀ d' ∈ defined id' calls, d.1 = d'.1 →
    id = id' ∧ d.2.name = d'.2.name
  /-- A name whose handles were all dropped starts with a cluster of its own, one member and no
  caches. -/
  restart : ∀ name seeds,
    (∀ m ∈ joined calls, m.name = name → m.handle ∉ (reached calls).handles) →
    ∃ m r, (reached calls).admission? (.join name seeds) = some m ∧
      r = (reached calls).step (.join name seeds) ∧ m.node = 1 ∧
      (∀ m' ∈ joined calls, m'.cluster ≠ m.cluster) ∧ r.members? m.handle = some [(1, seeds)] ∧
      (∀ cache, r.cache m.handle cache = some (.error (.unknownCache cache))) ∧
      r.caches = (reached calls).caches

variable {given : List Admission}

theorem Recorded.same_cluster_iff (hg : r.Recorded given) (hs : r.Stocked) {m m' : Admission}
    (hm : m ∈ given) (hm' : m' ∈ given) (hh : m.handle ∈ r.handles) (hh' : m'.handle ∈ r.handles) :
    m.cluster = m'.cluster ↔ m.name = m'.name := by
  obtain ⟨i, hi, hname⟩ := hg.name m hm hh
  obtain ⟨i', hi', hname'⟩ := hg.name m' hm' hh'
  constructor
  · intro hcluster
    cases hi.symm.trans (hcluster ▸ hi')
    exact hname.symm.trans hname'
  · intro he
    exact hs.name_unique _ _ i i' hi hi' (by rw [hname, hname', he])

theorem Recorded.members (hg : r.Recorded given) (hr : r.Coherent) (hx : r.handles[h]? = some x) :
    ∃ members, r.members? h = some members ∧ (members.map Prod.fst).Pairwise (· < ·) ∧
      ∀ n seeds, (n, seeds) ∈ members ↔ ∃ m ∈ given, m.cluster = x.cluster ∧ m.node = n ∧
        m.seeds = seeds ∧ r.handles[m.handle]? = some ⟨m.cluster, m.node, false⟩ := by
  obtain ⟨c, hc⟩ := hr.cluster_of_handle hx
  have hroll : r.roll? x.cluster = some c.roll := r.roll?_of_cluster hc
  refine ⟨c.members.toList, ?_, ?_, fun n seeds => ?_⟩
  · simp only [members?, r.holder?_eq_some_iff.2 ⟨hx, hc⟩, Option.map_some]
  · rw [TreeMap.map_fst_toList_eq_keys]
    refine TreeMap.ordered_keys.imp fun hlt => ?_
    exact Nat.compare_eq_lt.1 hlt
  · rw [TreeMap.mem_toList_iff_getElem?_eq_some]
    constructor
    · intro hn
      have hmem : n ∈ c.roll.members :=
        TreeMap.mem_iff_isSome_getElem?.2 (Option.isSome_iff_exists.2 ⟨seeds, hn⟩)
      obtain ⟨a, ha⟩ := (hr.mem_iff x.cluster c.roll n hroll).1 hmem
      obtain ⟨m, hm, rfl, hcluster, hnode⟩ := hg.origin a _ ha
      dsimp only at hcluster hnode
      subst hnode
      rw [← hcluster] at ha
      obtain ⟨c', hc', hseeds⟩ := hg.seeds m hm ha
      rw [hcluster] at hc'
      cases hroll.symm.trans hc'
      exact ⟨m, hm, hcluster, rfl, Option.some.inj (hseeds.symm.trans hn), ha⟩
    · rintro ⟨m, hm, hcluster, rfl, rfl, ha⟩
      obtain ⟨c', hc', hseeds⟩ := hg.seeds m hm ha
      rw [hcluster] at hc'
      cases hroll.symm.trans hc'
      exact hseeds

/-- A cluster has a handle, which has its name. -/
theorem Recorded.named?_eq_none (hg : r.Recorded given) (hs : r.Stocked) {name : String}
    (hnone : ∀ m ∈ given, m.name = name → m.handle ∉ r.handles) : r.named? name = none := by
  refine Option.eq_none_iff_forall_not_mem.2 fun id hid => ?_
  obtain ⟨c, hc, hname⟩ := r.named?_eq_some name hid
  obtain ⟨h, x, hx, rfl⟩ := hs.held id _ (r.inventory?_of_cluster id hc)
  obtain ⟨m, hm, rfl, hcluster, -⟩ := hg.origin h x hx
  have hmem : m.handle ∈ r.handles :=
    TreeMap.mem_iff_isSome_getElem?.2 (Option.isSome_iff_exists.2 ⟨x, hx⟩)
  obtain ⟨i, hi, hname'⟩ := hg.name m hm hmem
  rw [hcluster, r.inventory?_of_cluster _ hc] at hi
  cases hi
  exact hnone m hm (hname'.symm.trans hname) hmem

/-- In every run the handles of one name, and no others, share a cluster with its members and its
caches. -/
theorem sharing_run (calls : List Call) : Sharing calls := by
  have hr := coherent_run calls
  have hs := stocked_run calls
  have hg := recorded_run calls
  have hn := numbered_run calls
  have hd := supplied_run calls
  refine ⟨?origin, hg.handle_unique, ?life, ?same_cluster_iff, hn.nodes,
    fun h x hx => hg.members hr hx, ?define, fun h x name hx => hd.cache hr hx name, hd.first,
    hd.apart, ?restart⟩
  case origin =>
    intro h x hx
    obtain ⟨m, hm, hh, -⟩ := hg.origin h x hx
    exact ⟨m, hm, hh⟩
  case life =>
    rintro earlier name seeds later rfl
    have hr := coherent_run earlier
    obtain ⟨r₁, id, c, same, hc, -, hjoin, hadmission⟩ := (reached earlier).join_admits name seeds
    have hx : ((reached earlier).step (.join name seeds)).handles[r₁.next]? =
        some ⟨id, c.nextNode, false⟩ := by
      change ((reached earlier).join name seeds).2.handles[r₁.next]? = _
      rw [hjoin, getElem?_handles_enroll, if_pos rfl]
    obtain ⟨hgone, hkept⟩ := (hr.step (.join name seeds)).handle_life hx later
    refine ⟨_, hadmission, ?_⟩
    rw [reached, run_append]
    refine ⟨hgone, fun hmem => ?_⟩
    obtain ⟨left, hy, hleft⟩ := hkept hmem
    exact ⟨left, hy, hleft.trans (by simp)⟩
  case same_cluster_iff =>
    intro m hm m' hm' hh hh'
    exact hg.same_cluster_iff hs hm hm' hh hh'
  case define =>
    intro h x settings hx
    obtain ⟨c, hc⟩ := hr.cluster_of_handle hx
    exact ⟨_, (definition?_define hx (inventory?_of_cluster _ _ hc) settings x.cluster).trans
      (if_pos rfl)⟩
  case restart =>
    intro name seeds hnone
    obtain ⟨c, hadmission, hx, hc, hmembers, hcaches, hkept⟩ :=
      join_of_named?_eq_none (hg.named?_eq_none hs hnone) seeds
    have hholder := ((reached calls).join name seeds).2.holder?_eq_some_iff.2 ⟨hx, hc⟩
    refine ⟨_, _, hadmission, rfl, rfl, fun m hm => (hn.cluster_lt m hm).ne, ?_, ?_, hkept⟩
    · simp only [step, members?, hholder, Option.map_some, hmembers]
    · intro cache
      simp [step, Registry.cache, hholder, hcaches]

end Registry

end CacheBench
