import CacheBench.Proofs.Membership

/-!
# Names and caches of clusters

An `Inventory` is what a cluster keeps besides its members: its name and the caches that were
defined in it. `Stocks` lists all that a call can do to the inventories: it founds a cluster for a
name that has none, dissolves one whose last handle went, or defines a cache that a cluster lacks.
So no two clusters share a name, and each has a handle (`Stocked`).
-/

namespace CacheBench

open Std (TreeMap)

/-- What a cluster keeps besides its members. -/
structure Inventory where
  name : String
  caches : TreeMap String CacheId := ∅

def Cluster.inventory (c : Cluster) : Inventory := ⟨c.name, c.caches⟩

namespace Registry

def inventory? (r : Registry) (id : ClusterId) : Option Inventory :=
  r.clusters[id]?.map Cluster.inventory

def Held (r : Registry) (id : ClusterId) : Prop :=
  ∃ (h : HandleId) (x : Handle), r.handles[h]? = some x ∧ x.cluster = id

section Operations

variable (r : Registry) (id a : ClusterId)

theorem inventory?_eq_some_iff {i : Inventory} :
    r.inventory? id = some i ↔ ∃ c, r.clusters[id]? = some c ∧ c.inventory = i :=
  Option.map_eq_some_iff

theorem inventory?_of_cluster {c : Cluster} (hc : r.clusters[id]? = some c) :
    r.inventory? id = some c.inventory := (r.inventory?_eq_some_iff id).2 ⟨c, hc, rfl⟩

theorem inventory?_setCluster (c : Cluster) :
    (r.setCluster id c).inventory? a = if id = a then some c.inventory else r.inventory? a := by
  simp only [inventory?, setCluster, TreeMap.getElem?_insert, Std.LawfulEqCmp.compare_eq_iff_eq]
  split <;> rfl

/-- Putting a cluster back with other members changes no inventory. -/
theorem inventory?_setCluster_of_eq {c c' : Cluster} (hc : r.clusters[id]? = some c)
    (h : c'.inventory = c.inventory) : (r.setCluster id c').inventory? a = r.inventory? a := by
  rw [inventory?_setCluster]
  split
  · rename_i ha
    rw [← ha, r.inventory?_of_cluster id hc, h]
  · rfl

theorem inventory?_enroll {c : Cluster} (seeds : List String) (hc : r.clusters[id]? = some c) :
    (r.enroll id c seeds).inventory? a = r.inventory? a :=
  r.inventory?_setCluster_of_eq id a hc rfl

theorem inventory?_depart (h : HandleId) {x : Handle} {c : Cluster}
    (hc : r.clusters[x.cluster]? = some c) : (r.depart h x c).inventory? a = r.inventory? a :=
  r.inventory?_setCluster_of_eq x.cluster a hc rfl

theorem inventory?_listen {x : Handle} {c : Cluster} (hc : r.clusters[x.cluster]? = some c) :
    (r.listen x c).inventory? a = r.inventory? a :=
  r.inventory?_setCluster_of_eq x.cluster a hc rfl

theorem caches_forget (h : HandleId) : (r.forget h).caches = r.caches := by
  unfold forget
  split <;> rfl

/-- A cluster goes with its last handle, and only then. -/
theorem clusters_forget {h : HandleId} {x : Handle} (hx : r.handles[h]? = some x) :
    (r.forget h).Held x.cluster ∧ (r.forget h).clusters = r.clusters ∨
      ¬ (r.forget h).Held x.cluster ∧ (r.forget h).clusters = r.clusters.erase x.cluster := by
  have hkept : ((r.handles.erase h).toList.any fun p => p.2.cluster = x.cluster) ↔
      (r.forget h).Held x.cluster := by
    simp only [List.any_eq_true, Prod.exists, TreeMap.mem_toList_iff_getElem?_eq_some,
      decide_eq_true_eq, forget, hx, Held]
  rw [← hkept]
  simp only [forget, hx]
  split
  · rename_i hany
    exact .inl ⟨hany, rfl⟩
  · rename_i hany
    exact .inr ⟨hany, rfl⟩

theorem held_of_forget {h : HandleId} {x : Handle} (hx : r.handles[h]? = some x)
    (hne : x.cluster ≠ id) (hheld : r.Held id) : (r.forget h).Held id := by
  obtain ⟨b, y, hy, rfl⟩ := hheld
  refine ⟨b, y, ?_, rfl⟩
  rw [getElem?_handles_forget, if_neg, hy]
  rintro rfl
  exact hne (congrArg Handle.cluster (Option.some.inj (hx.symm.trans hy)))

end Operations

/-- All that a call can do to the names and the caches of clusters. -/
inductive Stocks (r : Registry) : Call → Registry → Prop
  | keeps {call r'} (unused : ∀ h settings, call = .define h settings → r.handles[h]? = none)
    (inventory : ∀ id, r'.inventory? id = r.inventory? id)
    (held : ∀ id, r.Held id → r'.Held id) (caches : r'.caches = r.caches) : Stocks r call r'
  | founds {name seeds r'} (unknown : ∀ id i, r.inventory? id = some i → i.name ≠ name)
    (inventory : ∀ id, r'.inventory? id = if r.next = id then some { name } else r.inventory? id)
    (held : ∀ id, r.Held id ∨ r.next = id → r'.Held id) (caches : r'.caches = r.caches) :
    Stocks r (.join name seeds) r'
  | dissolves {h r' x} (handle : r.handles[h]? = some x) (last : ¬ r'.Held x.cluster)
    (inventory : ∀ id, r'.inventory? id = if x.cluster = id then none else r.inventory? id)
    (held : ∀ id, x.cluster ≠ id → r.Held id → r'.Held id) (caches : r'.caches = r.caches) :
    Stocks r (.release h) r'
  | finds {h settings x i n} (handle : r.handles[h]? = some x)
    (cluster : r.inventory? x.cluster = some i) (known : i.caches[settings.name]? = some n) :
    Stocks r (.define h settings) r
  | defines {h settings r' x i} (handle : r.handles[h]? = some x)
    (cluster : r.inventory? x.cluster = some i) (unknown : i.caches[settings.name]? = none)
    (inventory : ∀ id, r'.inventory? id = if x.cluster = id then
      some { i with caches := i.caches.insert settings.name r.next } else r.inventory? id)
    (held : ∀ id, r.Held id → r'.Held id) (next : r'.next = r.next + 1)
    (caches : r'.caches = r.caches.insert r.next (.ofSettings settings)) :
    Stocks r (.define h settings) r'

variable {r r' : Registry} {h : HandleId}

theorem held_of_handles_eq (hsame : r'.handles = r.handles) (id : ClusterId) (hheld : r.Held id) :
    r'.Held id := by
  rwa [Held, hsame]

theorem name_ne_of_named? {name : String} (hnone : r.named? name = none) {id : ClusterId}
    {i : Inventory} (hi : r.inventory? id = some i) : i.name ≠ name := by
  rintro rfl
  obtain ⟨c, hc, rfl⟩ := (r.inventory?_eq_some_iff id).1 hi
  refine List.find?_eq_none.1 (Option.map_eq_none_iff.1 hnone) (id, c)
    (TreeMap.mem_toList_iff_getElem?_eq_some.2 hc) ?_
  exact decide_eq_true rfl

theorem Coherent.held_enroll (hr : r.Coherent) (id : ClusterId) (c : Cluster)
    (seeds : List String) (a : ClusterId) (hheld : r.Held a ∨ id = a) :
    (r.enroll id c seeds).Held a := by
  rcases hheld with ⟨h, x, hx, rfl⟩ | rfl
  · have hne : r.next ≠ h := (hr.handle_lt h x hx).ne'
    exact ⟨h, x, by rw [getElem?_handles_enroll, if_neg hne, hx], rfl⟩
  · exact ⟨r.next, _, by rw [getElem?_handles_enroll, if_pos rfl], rfl⟩

theorem held_depart {x : Handle} (c : Cluster) (hx : r.handles[h]? = some x) {id : ClusterId}
    (hheld : r.Held id) : (r.depart h x c).Held id := by
  obtain ⟨a, y, hy, rfl⟩ := hheld
  by_cases ha : h = a
  · subst a
    cases hx.symm.trans hy
    exact ⟨h, { x with left := true }, by rw [getElem?_handles_depart, if_pos rfl], rfl⟩
  · exact ⟨a, y, by rw [getElem?_handles_depart, if_neg ha, hy], rfl⟩

theorem Coherent.stocks_join (hr : r.Coherent) (name : String) (seeds : List String) :
    Stocks r (.join name seeds) (r.join name seeds).2 := by
  obtain ⟨c, hc, hjoin⟩ := r.join_eq seeds name
  have hsame := r.sameMembers_ensure name
  have hinventory := fun id => (r.ensure name).2.inventory?_enroll (r.ensure name).1 id seeds hc
  have hheld := (hr.sameMembers hsame).held_enroll (r.ensure name).1 c seeds
  rw [hjoin]
  cases hn : r.named? name with
  | some id =>
      have he : r.ensure name = (id, r) := by simp only [ensure, hn]
      rw [he] at hinventory hheld ⊢
      exact .keeps nofun hinventory (fun a h => hheld a (.inl h)) rfl
  | none =>
      have he : r.ensure name =
          (r.next, { r.setCluster r.next { name } with next := r.next + 1 }) := by
        simp only [ensure, hn]
      rw [he] at hinventory hheld ⊢
      refine .founds (fun id i => name_ne_of_named? hn) (fun id => ?_) hheld rfl
      exact (hinventory id).trans (r.inventory?_setCluster r.next id { name })

/-- Dropping a handle, on the way to which only the handle itself may have changed. -/
theorem stocks_forget {r₁ : Registry} {x x₁ : Handle} (hx : r.handles[h]? = some x)
    (hx₁ : r₁.handles[h]? = some x₁) (hcluster : x₁.cluster = x.cluster)
    (inventory : ∀ id, r₁.inventory? id = r.inventory? id) (held : ∀ id, r.Held id → r₁.Held id)
    (caches : r₁.caches = r.caches) : Stocks r (.release h) (r₁.forget h) := by
  have hcaches := (r₁.caches_forget h).trans caches
  have hother : ∀ id, x.cluster ≠ id → r.Held id → (r₁.forget h).Held id := fun id hne hheld =>
    r₁.held_of_forget id hx₁ (hcluster ▸ hne) (held id hheld)
  rcases r₁.clusters_forget hx₁ with ⟨hkept, hclusters⟩ | ⟨hlast, hclusters⟩
  · refine .keeps nofun (fun id => ?_) (fun id hheld => ?_) hcaches
    · rw [inventory?, hclusters, ← inventory id, inventory?]
    · by_cases hid : x.cluster = id
      · exact hid ▸ hcluster ▸ hkept
      · exact hother id hid hheld
  · refine .dissolves hx (hcluster ▸ hlast) (fun id => ?_) hother hcaches
    rw [inventory?, hclusters, hcluster, TreeMap.getElem?_erase, ← inventory id, inventory?]
    simp only [Std.LawfulEqCmp.compare_eq_iff_eq]
    split <;> rfl

theorem stocks_define {x : Handle} {c : Cluster} (settings : Settings)
    (hx : r.handles[h]? = some x) (hc : r.clusters[x.cluster]? = some c) :
    Stocks r (.define h settings) (r.step (.define h settings)) := by
  have hholder := r.holder?_eq_some_iff.2 ⟨hx, hc⟩
  cases hid : c.caches[settings.name]? with
  | some id =>
      have he : r.step (.define h settings) = r := by simp [step, define, hholder, hid]
      rw [he]
      exact .finds hx (r.inventory?_of_cluster _ hc) hid
  | none =>
      simp only [step, define, hholder, hid, Option.map_some, Option.getD_some]
      refine .defines hx (r.inventory?_of_cluster _ hc) hid (fun id => ?_)
        (held_of_handles_eq rfl) rfl rfl
      exact r.inventory?_setCluster x.cluster id _

theorem Coherent.stocks_step (hr : r.Coherent) (call : Call) : Stocks r call (r.step call) := by
  have hsame : ∀ {r₁ : Registry},
      (∀ h settings, call = .define h settings → r.handles[h]? = none) → r₁ = r →
        Stocks r call r₁ := by
    rintro r₁ hcall rfl
    exact .keeps hcall (fun _ => rfl) (fun _ hheld => hheld) rfl
  cases call with
  | join name seeds => exact hr.stocks_join name seeds
  | leave h =>
      rcases hr.leave_cases h with ⟨x, c, hx, -, hc, he⟩ | ⟨-, he⟩
      · exact (congrArg (Stocks r _) he).mpr
          (.keeps (by rintro _ _ ⟨⟩) (fun id => r.inventory?_depart id h hc) (fun _ => held_depart c hx) rfl)
      · exact hsame (by rintro _ _ ⟨⟩) he
  | release h =>
      cases hx : r.handles[h]? with
      | none =>
          refine hsame (by rintro _ _ ⟨⟩) ?_
          change (r.leave h).forget h = r
          rw [r.leave_of_none hx, r.forget_of_none hx]
      | some x =>
          rcases hr.leave_cases h with ⟨y, c, hy, -, hc, he⟩ | ⟨-, he⟩
          · cases hx.symm.trans hy
            exact (congrArg (fun r' => Stocks r _ (r'.forget h)) he).mpr (stocks_forget hx
              ((r.getElem?_handles_depart h x c h).trans (if_pos rfl)) rfl
              (fun id => r.inventory?_depart id h hc) (fun _ => held_depart c hx) rfl)
          · exact (congrArg (fun r' => Stocks r _ (r'.forget h)) he).mpr
              (stocks_forget hx hx rfl (fun _ => rfl) (fun _ hheld => hheld) rfl)
  | subscribe h =>
      cases hs : r.subscribe h with
      | none => exact hsame (by rintro _ _ ⟨⟩) (by simp [Registry.step, hs])
      | some p =>
          obtain ⟨x, c, -, hc, -, hr'⟩ := r.subscribe_eq_some_iff.1 hs
          have he : r.step (.subscribe h) = r.listen x c := by simp [Registry.step, hs, hr']
          rw [he]
          exact .keeps (by rintro _ _ ⟨⟩) (fun id => r.inventory?_listen id hc) (held_of_handles_eq rfl) rfl
  | drain ch | receive ch | close ch | cache h name =>
      exact .keeps (by rintro _ _ ⟨⟩) (fun _ => rfl) (fun _ hheld => hheld) rfl
  | define h settings =>
      cases hx : r.handles[h]? with
      | none =>
          refine hsame ?_ (by simp [Registry.step, define, holder?, hx])
          intro a own he
          cases he
          exact hx
      | some x =>
          obtain ⟨c, hc⟩ := hr.cluster_of_handle hx
          exact stocks_define settings hx hc

/-! ## What holds of every registry -/

/-- What holds of the inventories of every registry that can be reached. -/
structure Stocked (r : Registry) : Prop where
  name_unique : ∀ id id' i i', r.inventory? id = some i → r.inventory? id' = some i' →
    i.name = i'.name → id = id'
  held : ∀ id i, r.inventory? id = some i → r.Held id

theorem stocked_empty : Stocked {} := by
  constructor <;> simp [inventory?]

theorem Stocked.stocks (hs : r.Stocked) {call : Call} (h : Stocks r call r') : r'.Stocked := by
  obtain ⟨hunique, hheld⟩ := hs
  refine ⟨?name_unique, ?held⟩
  case name_unique =>
    intro id id' i i' hi hi' hname
    cases h with
    | finds => exact hunique id id' i i' hi hi' hname
    | keeps _ inventory | founds unknown inventory | dissolves _ _ inventory
    | defines _ cluster _ inventory =>
        rw [inventory] at hi hi'
        grind
  case held =>
    intro id i hi
    cases h with
    | finds => exact hheld id i hi
    | keeps _ inventory held | founds _ inventory held | dissolves _ _ inventory held
    | defines _ _ _ inventory held =>
        rw [inventory] at hi
        grind

theorem stocked_run (calls : List Call) : (({} : Registry).run calls).Stocked := by
  induction calls using List.reverseRecOn with
  | nil => exact stocked_empty
  | append_singleton calls call ih =>
      rw [run_append]
      exact ih.stocks ((coherent_run calls).stocks_step call)

end Registry

end CacheBench
