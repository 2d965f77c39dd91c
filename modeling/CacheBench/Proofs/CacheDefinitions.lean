import CacheBench.Proofs.Inventory

/-!
# Which cache a name stands for

`definitions` lists what the definitions of caches in a cluster gave. The first definition of a name
makes a cache, of which the settings stay, and every later one finds that cache (`Supplied`).
-/

namespace CacheBench

open Std (TreeMap)

namespace Registry

/-- What the definition of a cache in the cluster gave, with the settings it asked for. -/
def definition? (r : Registry) (id : ClusterId) : Call → Option (CacheId × Settings)
  | .define h settings =>
    r.handles[h]?.bind fun x =>
      if x.cluster = id then (r.define h settings).map fun (n, _) => (n, settings) else none
  | _ => none

def definitions (r : Registry) (id : ClusterId) : List Call → List (CacheId × Settings)
  | [] => []
  | call :: calls => (r.definition? id call).toList ++ (r.step call).definitions id calls

def firstOf (name : String) (made : List (CacheId × Settings)) : Option (CacheId × Settings) :=
  made.find? fun d => d.2.name = name

theorem definitions_append (r : Registry) (id : ClusterId) (calls calls' : List Call) :
    r.definitions id (calls ++ calls') =
      r.definitions id calls ++ (r.run calls).definitions id calls' := by
  induction calls generalizing r with
  | nil => rfl
  | cons call calls ih =>
      rw [List.cons_append, definitions, definitions, ih, List.append_assoc]
      rfl

theorem definitions_concat (r : Registry) (id : ClusterId) (calls : List Call) (call : Call) :
    r.definitions id (calls ++ [call]) =
      r.definitions id calls ++ ((r.run calls).definition? id call).toList := by
  rw [definitions_append, definitions, definitions, List.append_nil]

section FirstOf

variable {name : String} {made : List (CacheId × Settings)} {d : CacheId × Settings}

theorem firstOf_concat : firstOf name (made ++ [d]) =
    (firstOf name made).or (if d.2.name = name then some d else none) := by
  rw [firstOf, List.find?_append, List.find?_singleton]
  simp only [decide_eq_true_eq]
  rfl

theorem firstOf_append_of_some (h : firstOf name made = some d) (more : List (CacheId × Settings)) :
    firstOf name (made ++ more) = some d := by
  rw [firstOf, List.find?_append, ← firstOf, h, Option.some_or]

theorem name_of_firstOf (h : firstOf name made = some d) : d.2.name = name := by
  simpa using List.find?_some h

theorem mem_of_firstOf (h : firstOf name made = some d) : d ∈ made := List.mem_of_find?_eq_some h

end FirstOf

variable {r r' : Registry} {h : HandleId} {x : Handle} {i : Inventory}

theorem definition?_eq_none {id : ClusterId} {call : Call}
    (hcall : ∀ h settings, call = .define h settings → r.handles[h]? = none) :
    r.definition? id call = none := by
  cases call with
  | define h settings => rw [definition?, hcall h settings rfl, Option.bind_none]
  | join | leave | release | subscribe | drain | receive | close | cache => rfl

/-- A definition gives the cache of the name, which is a new one if there was none. -/
theorem definition?_define (hx : r.handles[h]? = some x) (hi : r.inventory? x.cluster = some i)
    (settings : Settings) (id : ClusterId) : r.definition? id (.define h settings) =
      if x.cluster = id then some (i.caches[settings.name]?.getD r.next, settings) else none := by
  obtain ⟨c, hc, rfl⟩ := (r.inventory?_eq_some_iff x.cluster).1 hi
  simp only [definition?, hx, Option.bind_some, define, r.holder?_eq_some_iff.2 ⟨hx, hc⟩,
    Option.map_some, Cluster.inventory]
  congr 2
  cases c.caches[settings.name]? <;> rfl

/-- What the definitions so far say of the caches that clusters have. -/
structure Supplied (r : Registry) (made : ClusterId → List (CacheId × Settings)) : Prop where
  caches : ∀ id i, r.inventory? id = some i → ∀ name : String,
    i.caches[name]? = (firstOf name (made id)).map Prod.fst
  first : ∀ id, ∀ d ∈ made id, ∃ settings, firstOf d.2.name (made id) = some (d.1, settings) ∧
    r.caches[d.1]? = some (.ofSettings settings)
  apart : ∀ id id', ∀ d ∈ made id, ∀ d' ∈ made id', d.1 = d'.1 → id = id' ∧ d.2.name = d'.2.name
  cache_lt : ∀ id, ∀ d ∈ made id, d.1 < r.next
  unknown : ∀ id, r.next ≤ id → made id = []

variable {made : ClusterId → List (CacheId × Settings)}

theorem supplied_empty : ({} : Registry).Supplied fun _ => [] := by
  constructor <;> simp [inventory?]

theorem Supplied.of_not_define (hs : r.Supplied made) (hnext : r.next ≤ r'.next)
    (hcaches : r'.caches = r.caches)
    (hinventory : ∀ id i, r'.inventory? id = some i →
      r.inventory? id = some i ∨ r.next ≤ id ∧ i.caches = ∅) : r'.Supplied made where
  caches id i hi name := by
    rcases hinventory id i hi with hold | ⟨hle, hempty⟩
    · exact hs.caches id i hold name
    · rw [hs.unknown id hle, hempty]
      exact TreeMap.getElem?_emptyc
  first := hcaches ▸ hs.first
  apart := hs.apart
  cache_lt id d hd := (hs.cache_lt id d hd).trans_le hnext
  unknown id hle := hs.unknown id (hnext.trans hle)

/-- Defining a name once more gives the cache that it stands for. -/
theorem Supplied.finds (hs : r.Supplied made) (hi : r.inventory? x.cluster = some i) {n : CacheId}
    {settings : Settings} (hn : i.caches[settings.name]? = some n) (hlt : x.cluster < r.next) :
    r.Supplied fun id =>
      made id ++ (if x.cluster = id then some (n, settings) else none).toList := by
  obtain ⟨d₀, hd₀, rfl⟩ := Option.map_eq_some_iff.1 ((hs.caches _ i hi settings.name).symm.trans hn)
  have hmem := mem_of_firstOf hd₀
  have hname := name_of_firstOf hd₀
  have hcases : ∀ {id d}, d ∈ made id ++
      (if x.cluster = id then some (d₀.1, settings) else none).toList →
      ∃ d' ∈ made id, d'.1 = d.1 ∧ d'.2.name = d.2.name := by
    intro id d hd
    rcases List.mem_append.1 hd with hold | hnew
    · exact ⟨d, hold, rfl, rfl⟩
    · split at hnew
      · subst id
        rw [List.mem_singleton.1 hnew]
        exact ⟨d₀, hmem, rfl, hname⟩
      · cases hnew
  refine ⟨?caches, ?first, ?apart, ?cache_lt, ?unknown⟩
  case caches =>
    intro id j hj name
    rw [hs.caches id j hj name]
    split
    · subst id
      rw [Option.toList_some, firstOf_concat]
      cases hfirst : firstOf name (made x.cluster) with
      | some d => rfl
      | none =>
          have hne : settings.name ≠ name := by
            rintro rfl
            cases hd₀.symm.trans hfirst
          rw [if_neg hne, Option.none_or]
    · rw [Option.toList_none, List.append_nil]
  case first =>
    intro id d hd
    obtain ⟨d', hd', hcache, hname'⟩ := hcases hd
    obtain ⟨first, hfirst, hmade⟩ := hs.first id d' hd'
    rw [hcache, hname'] at hfirst
    exact ⟨first, firstOf_append_of_some hfirst _, hcache ▸ hmade⟩
  case apart =>
    intro id id' d hd d' hd' he
    obtain ⟨e, hmem, hcache, hname⟩ := hcases hd
    obtain ⟨e', hmem', hcache', hname'⟩ := hcases hd'
    rw [← hname, ← hname']
    exact hs.apart id id' e hmem e' hmem' (by rw [hcache, hcache', he])
  case cache_lt =>
    intro id d hd
    obtain ⟨e, hmem, hcache, -⟩ := hcases hd
    exact hcache ▸ hs.cache_lt id e hmem
  case unknown =>
    intro id hle
    rw [hs.unknown id hle, if_neg (hlt.trans_le hle).ne]
    rfl

/-- The first definition of a name makes a cache of its own. -/
theorem Supplied.defines (hs : r.Supplied made) (hi : r.inventory? x.cluster = some i)
    {settings : Settings} (hn : i.caches[settings.name]? = none) (hlt : x.cluster < r.next)
    (hinventory : ∀ id, r'.inventory? id = if x.cluster = id then
      some { i with caches := i.caches.insert settings.name r.next } else r.inventory? id)
    (hnext : r'.next = r.next + 1)
    (hcaches : r'.caches = r.caches.insert r.next (.ofSettings settings)) :
    r'.Supplied fun id =>
      made id ++ (if x.cluster = id then some (r.next, settings) else none).toList := by
  have hnone : firstOf settings.name (made x.cluster) = none :=
    Option.map_eq_none_iff.1 ((hs.caches _ i hi settings.name).symm.trans hn)
  have hcases : ∀ {id d}, d ∈ made id ++
      (if x.cluster = id then some (r.next, settings) else none).toList →
      d ∈ made id ∨ x.cluster = id ∧ d = (r.next, settings) := by
    intro id d hd
    refine (List.mem_append.1 hd).imp_right fun hd => ?_
    split at hd
    · exact ⟨‹_›, List.mem_singleton.1 hd⟩
    · cases hd
  refine ⟨?caches, ?first, ?apart, ?cache_lt, ?unknown⟩
  case caches =>
    intro id j hj name
    rw [hinventory] at hj
    split at hj
    · subst id
      cases hj
      rw [if_pos rfl, Option.toList_some, firstOf_concat]
      simp only [TreeMap.getElem?_insert, Std.LawfulEqCmp.compare_eq_iff_eq]
      split
      · subst name
        rw [hnone, Option.none_or]
        rfl
      · rw [Option.or_none, hs.caches _ i hi name]
    · rename_i hid
      rw [if_neg hid, Option.toList_none, List.append_nil, hs.caches id j hj name]
  case first =>
    intro id d hd
    rcases hcases hd with hd | ⟨rfl, rfl⟩
    · obtain ⟨first, hfirst, hmade⟩ := hs.first id d hd
      refine ⟨first, firstOf_append_of_some hfirst _, ?_⟩
      have hne : r.next ≠ d.1 := (hs.cache_lt id d hd).ne'
      rw [hcaches, TreeMap.getElem?_insert]
      simpa [hne] using hmade
    · refine ⟨settings, ?_, ?_⟩
      · rw [if_pos rfl, Option.toList_some, firstOf_concat, hnone, Option.none_or, if_pos rfl]
      · rw [hcaches]
        exact TreeMap.getElem?_insert_self
  case apart =>
    intro id id' d hd d' hd' he
    rcases hcases hd with hd | ⟨rfl, rfl⟩
    · rcases hcases hd' with hd' | ⟨rfl, rfl⟩
      · exact hs.apart id id' d hd d' hd' he
      · exact absurd he (hs.cache_lt id d hd).ne
    · rcases hcases hd' with hd' | ⟨rfl, rfl⟩
      · exact absurd he.symm (hs.cache_lt id' d' hd').ne
      · exact ⟨rfl, rfl⟩
  case cache_lt =>
    intro id d hd
    rw [hnext]
    rcases hcases hd with hd | ⟨-, rfl⟩
    · exact Nat.lt_succ_of_lt (hs.cache_lt id d hd)
    · exact Nat.lt_succ_self _
  case unknown =>
    intro id hle
    have hle' : r.next ≤ id := by omega
    rw [hs.unknown id hle', if_neg (hlt.trans_le hle').ne]
    rfl

theorem Supplied.step (hs : r.Supplied made) (hr : r.Coherent) (call : Call) :
    (r.step call).Supplied fun id => made id ++ (r.definition? id call).toList := by
  have hquiet : ∀ {r₁ : Registry}, r₁.Supplied made →
      (∀ h settings, call = .define h settings → r.handles[h]? = none) →
        r₁.Supplied fun id => made id ++ (r.definition? id call).toList := by
    intro r₁ hs₁ hcall
    simpa only [definition?_eq_none hcall, Option.toList_none, List.append_nil] using hs₁
  have hnext := (hr.effect_step call).next_le
  have hstocks := hr.stocks_step call
  generalize r.step call = r' at hnext hstocks ⊢
  cases hstocks with
  | keeps unused inventory _ caches =>
      exact hquiet (hs.of_not_define hnext caches fun id i hi => .inl (inventory id ▸ hi)) unused
  | founds _ inventory _ caches =>
      refine hquiet (hs.of_not_define hnext caches fun id i hi => ?_) nofun
      rw [inventory] at hi
      split at hi
      · subst id
        cases hi
        exact .inr ⟨Nat.le_refl _, rfl⟩
      · exact .inl hi
  | dissolves _ _ inventory _ caches =>
      refine hquiet (hs.of_not_define hnext caches fun id i hi => ?_) nofun
      rw [inventory] at hi
      split at hi
      · cases hi
      · exact .inl hi
  | finds handle cluster known =>
      simp only [definition?_define handle cluster, known, Option.getD_some]
      exact hs.finds cluster known (hr.handle_cluster_lt handle)
  | defines handle cluster unknown inventory _ next caches =>
      simp only [definition?_define handle cluster, unknown, Option.getD_none]
      exact hs.defines cluster unknown (hr.handle_cluster_lt handle) inventory next caches

theorem supplied_run (calls : List Call) :
    (({} : Registry).run calls).Supplied fun id => ({} : Registry).definitions id calls := by
  induction calls using List.reverseRecOn with
  | nil => exact supplied_empty
  | append_singleton calls call ih =>
      simp only [run_append, definitions_concat]
      exact ih.step (coherent_run calls) call

/-- A handle finds the cache that the first definition of the name in its cluster made. -/
theorem Supplied.cache (hs : r.Supplied made) (hr : r.Coherent) (hx : r.handles[h]? = some x)
    (name : String) : r.cache h name = some (match firstOf name (made x.cluster) with
      | some d => .ok d.1
      | none => .error (.unknownCache name)) := by
  obtain ⟨c, hc⟩ := hr.cluster_of_handle hx
  have hcaches := hs.caches x.cluster _ (r.inventory?_of_cluster _ hc) name
  simp only [Registry.cache, r.holder?_eq_some_iff.2 ⟨hx, hc⟩, Option.map_some, Option.some.injEq]
  change c.caches[name]? = _ at hcaches
  rw [hcaches]
  cases firstOf name (made x.cluster) <;> rfl

end Registry

end CacheBench
