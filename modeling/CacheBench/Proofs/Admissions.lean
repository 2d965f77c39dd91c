import CacheBench.Proofs.Inventory

/-!
# Who joined

`admissions` lists what the joins of a run asked for and what they gave. It tells of every handle
that there is by which join it came, and what its cluster keeps of that join (`Recorded`).
-/

namespace CacheBench

open Std (TreeMap)

namespace Registry

/-- What a join asked for, and the handle, the cluster and the number that it gave. -/
structure Admission where
  handle : HandleId
  name : String
  seeds : List String
  cluster : ClusterId
  node : NodeId

def admission? (r : Registry) : Call → Option Admission
  | .join name seeds =>
    let (handle, r) := r.join name seeds
    r.handles[handle]?.map fun x => { handle, name, seeds, cluster := x.cluster, node := x.node }
  | _ => none

def admissions (r : Registry) : List Call → List Admission
  | [] => []
  | call :: calls => (r.admission? call).toList ++ (r.step call).admissions calls

theorem admissions_append (r : Registry) (calls calls' : List Call) :
    r.admissions (calls ++ calls') = r.admissions calls ++ (r.run calls).admissions calls' := by
  induction calls generalizing r with
  | nil => rfl
  | cons call calls ih =>
      rw [List.cons_append, admissions, admissions, ih, List.append_assoc]
      rfl

theorem admissions_concat (r : Registry) (calls : List Call) (call : Call) :
    r.admissions (calls ++ [call]) =
      r.admissions calls ++ ((r.run calls).admission? call).toList := by
  rw [admissions_append, admissions, admissions, List.append_nil]

variable {r r' : Registry} {h : HandleId} {m : Admission}

/-! ## Admissions -/

/-- A join enrolls a member in the cluster of the name. -/
theorem join_admits (r : Registry) (name : String) (seeds : List String) :
    ∃ r₁ id c, SameMembers r r₁ ∧ r₁.clusters[id]? = some c ∧ c.name = name ∧
      (r.join name seeds).2 = r₁.enroll id c seeds ∧
      r.admission? (.join name seeds) = some ⟨r₁.next, name, seeds, id, c.nextNode⟩ := by
  obtain ⟨c, hc, hjoin⟩ := r.join_eq seeds name
  refine ⟨_, _, c, r.sameMembers_ensure name, hc, ?_, by rw [hjoin], ?_⟩
  · rcases r.ensure_cases name with ⟨id, c', hc', hname, he⟩ | he
    · rw [he] at hc
      cases hc.symm.trans hc'
      exact hname
    · rw [he] at hc
      simp only [setCluster, TreeMap.getElem?_insert_self, Option.some.injEq] at hc
      rw [← hc]
  · simp only [admission?, hjoin, getElem?_handles_enroll, if_pos, Option.map_some]

theorem admission?_eq_none {call : Call} (hcall : ∀ name seeds, call ≠ .join name seeds) :
    r.admission? call = none := by
  cases call with
  | join name seeds => exact absurd rfl (hcall name seeds)
  | leave | release | subscribe | drain | receive | close | define | cache => rfl

/-- Only a join makes a handle, and only a leave changes one. -/
theorem Effect.handle_before {call : Call} (he : Effect r call r')
    (hcall : ∀ name seeds, call ≠ .join name seeds) {y : Handle} (hy : r'.handles[h]? = some y) :
    ∃ x : Handle, r.handles[h]? = some x ∧ x.cluster = y.cluster ∧ x.node = y.node ∧
      (y.left = false → x.left = false) := by
  have hdepart : ∀ {a : HandleId} {z : Handle} {c : Cluster}, r.handles[a]? = some z →
      (r.depart a z c).handles[h]? = some y →
      ∃ x : Handle, r.handles[h]? = some x ∧ x.cluster = y.cluster ∧ x.node = y.node ∧
        (y.left = false → x.left = false) := by
    intro a z c hz hy
    rw [getElem?_handles_depart] at hy
    split at hy
    · subst a
      cases hy
      exact ⟨z, hz, rfl, rfl, nofun⟩
    · exact ⟨y, hy, rfl, rfl, fun hl => hl⟩
  cases he with
  | quiet same => exact ⟨y, same.handles ▸ hy, rfl, rfl, fun hl => hl⟩
  | enroll => exact absurd rfl (hcall _ _)
  | depart handle => exact hdepart handle hy
  | release handle =>
      rw [getElem?_handles_forget] at hy
      split at hy
      · cases hy
      · exact hdepart handle hy
  | forget =>
      rw [getElem?_handles_forget] at hy
      split at hy
      · cases hy
      · exact ⟨y, hy, rfl, rfl, fun hl => hl⟩
  | listen => exact ⟨y, hy, rfl, rfl, fun hl => hl⟩

/-- A cluster is called the same as long as there is a handle on it. -/
theorem Stocks.name {call : Call} (hs : Stocks r call r') {id : ClusterId} {i : Inventory}
    (hi : r.inventory? id = some i) (hlt : id < r.next) (hheld : r'.Held id) :
    ∃ i', r'.inventory? id = some i' ∧ i'.name = i.name := by
  cases hs with
  | keeps _ inventory => exact ⟨i, (inventory id).trans hi, rfl⟩
  | finds => exact ⟨i, hi, rfl⟩
  | founds _ inventory => exact ⟨i, by rw [inventory, if_neg hlt.ne', hi], rfl⟩
  | dissolves _ last inventory =>
      refine ⟨i, ?_, rfl⟩
      rw [inventory, if_neg, hi]
      rintro rfl
      exact last hheld
  | defines _ cluster _ inventory =>
      rw [inventory]
      split
      · rename_i hid
        subst id
        cases cluster.symm.trans hi
        exact ⟨_, rfl, rfl⟩
      · exact ⟨i, hi, rfl⟩

section Seeds

variable {id : ClusterId} {n : NodeId} {own : List String} {c : Roll}

theorem Coherent.seeds_depart (hr : r.Coherent) {a : HandleId} {x : Handle} {c' : Cluster}
    (hx : r.handles[a]? = some x) (hc' : r.clusters[x.cluster]? = some c')
    (hc : r.roll? id = some c) (hn : c.members[n]? = some own)
    (hh : (r.depart a x c').handles[h]? = some ⟨id, n, false⟩) :
    ∃ c₁, (r.depart a x c').roll? id = some c₁ ∧ c₁.members[n]? = some own := by
  rw [getElem?_handles_depart] at hh
  split at hh
  · cases hh
  · rename_i hne
    rw [roll?_depart]
    split
    · rename_i hid
      subst id
      cases (r.roll?_of_cluster hc').symm.trans hc
      have hnode : x.node ≠ n := fun hnode => hne (hr.handle_unique a h x _ hx hh rfl hnode)
      refine ⟨_, rfl, ?_⟩
      simpa [TreeMap.getElem?_erase, hnode] using hn
    · exact ⟨c, hc, hn⟩

theorem seeds_forget {a : HandleId} (hc : r.roll? id = some c) (hn : c.members[n]? = some own)
    (hh : (r.forget a).handles[h]? = some ⟨id, n, false⟩) :
    ∃ c₁, (r.forget a).roll? id = some c₁ ∧ c₁.members[n]? = some own := by
  rcases r.roll?_forget_cases a id with he | ⟨-, x, -, -, hlast⟩
  · exact ⟨c, he.trans hc, hn⟩
  · rw [getElem?_handles_forget] at hh
    split at hh
    · cases hh
    · rename_i hne
      exact absurd (hlast h _ hh rfl).symm hne

/-- A member has the seeds that it joined with. -/
theorem Effect.seeds {call : Call} (he : Effect r call r') (hr : r.Coherent)
    (hc : r.roll? id = some c) (hn : c.members[n]? = some own)
    (hh : r'.handles[h]? = some ⟨id, n, false⟩) :
    ∃ c₁, r'.roll? id = some c₁ ∧ c₁.members[n]? = some own := by
  have hsame : ∀ {r₁ : Registry}, SameMembers r r₁ → r₁.roll? id = some c := by
    intro r₁ same
    rcases same.roll id with hold | ⟨hle, -, -⟩
    · exact hold.trans hc
    · exact absurd (hr.cluster_lt id c hc) (Nat.not_lt_of_le hle)
  cases he with
  | quiet same => exact ⟨c, hsame same, hn⟩
  | @enroll name seeds r₁ a c' same _ cluster =>
      rw [roll?_enroll]
      split
      · subst a
        cases (r₁.roll?_of_cluster cluster).symm.trans (hsame same)
        have hnext : c'.nextNode ≠ n := by
          rintro rfl
          have hmem : c'.nextNode ∈ c'.members :=
            TreeMap.mem_iff_isSome_getElem?.2 (Option.isSome_iff_exists.2 ⟨own, hn⟩)
          exact (hr.sameMembers same).not_mem_membersOf cluster
            ((mem_membersOf_of_cluster cluster).2 hmem)
        refine ⟨_, rfl, ?_⟩
        simpa [TreeMap.getElem?_insert, hnext] using hn
      · exact ⟨c, hsame same, hn⟩
  | depart handle _ cluster => exact hr.seeds_depart handle cluster hc hn hh
  | @release a x c' handle _ cluster =>
      have hh' : (r.depart a x c').handles[h]? = some ⟨id, n, false⟩ := by
        rw [getElem?_handles_forget] at hh
        split at hh
        · cases hh
        · exact hh
      obtain ⟨c₁, hc₁, hn₁⟩ := hr.seeds_depart handle cluster hc hn hh'
      exact seeds_forget hc₁ hn₁ hh
  | forget => exact seeds_forget hc hn hh
  | @listen a x c' handle cluster =>
      rw [roll?_listen]
      split
      · subst id
        cases (r.roll?_of_cluster cluster).symm.trans hc
        exact ⟨_, rfl, hn⟩
      · exact ⟨c, hc, hn⟩

end Seeds

/-- What the joins so far say of the handles that there are. -/
structure Recorded (r : Registry) (given : List Admission) : Prop where
  origin : ∀ (h : HandleId) (x : Handle), r.handles[h]? = some x →
    ∃ m ∈ given, m.handle = h ∧ m.cluster = x.cluster ∧ m.node = x.node
  handle_lt : ∀ m ∈ given, m.handle < r.next
  handle_unique : (given.map Admission.handle).Nodup
  name : ∀ m ∈ given, m.handle ∈ r.handles →
    ∃ i, r.inventory? m.cluster = some i ∧ i.name = m.name
  seeds : ∀ m ∈ given, r.handles[m.handle]? = some ⟨m.cluster, m.node, false⟩ →
    ∃ c, r.roll? m.cluster = some c ∧ c.members[m.node]? = some m.seeds

variable {given : List Admission}

theorem Recorded.state (hg : r.Recorded given) (hm : m ∈ given) {x : Handle}
    (hx : r.handles[m.handle]? = some x) : x.cluster = m.cluster ∧ x.node = m.node := by
  obtain ⟨m', hm', hhandle, hcluster, hnode⟩ := hg.origin m.handle x hx
  cases List.inj_on_of_nodup_map hg.handle_unique hm' hm hhandle
  exact ⟨hcluster.symm, hnode.symm⟩

theorem recorded_empty : ({} : Registry).Recorded [] := by
  constructor <;> simp

theorem Recorded.of_not_join (hg : r.Recorded given) (hr : r.Coherent) {call : Call}
    (hcall : ∀ name seeds, call ≠ .join name seeds) (he : Effect r call r')
    (hs : Stocks r call r') : r'.Recorded given := by
  refine ⟨?origin, fun m hm => (hg.handle_lt m hm).trans_le he.next_le, hg.handle_unique, ?name,
    ?seeds⟩
  case origin =>
    intro h y hy
    obtain ⟨x, hx, hcluster, hnode, -⟩ := he.handle_before hcall hy
    obtain ⟨m, hm, hhandle, hcluster', hnode'⟩ := hg.origin h x hx
    exact ⟨m, hm, hhandle, hcluster'.trans hcluster, hnode'.trans hnode⟩
  case name =>
    intro m hm hlive
    obtain ⟨y, hy⟩ := Option.isSome_iff_exists.1 (TreeMap.mem_iff_isSome_getElem?.1 hlive)
    obtain ⟨x, hx, hcluster, -, -⟩ := he.handle_before hcall hy
    obtain ⟨i, hi, hname⟩ := hg.name m hm
      (TreeMap.mem_iff_isSome_getElem?.2 (Option.isSome_iff_exists.2 ⟨x, hx⟩))
    have hm' := (hg.state hm hx).1
    obtain ⟨i', hi', hname'⟩ := hs.name hi (hm' ▸ hr.handle_cluster_lt hx)
      ⟨m.handle, y, hy, hcluster.symm.trans hm'⟩
    exact ⟨i', hi', hname'.trans hname⟩
  case seeds =>
    intro m hm hy
    obtain ⟨⟨id, n, left⟩, hx, rfl, rfl, hleft⟩ := he.handle_before hcall hy
    cases hleft rfl
    obtain ⟨c, hc, hn⟩ := hg.seeds m hm hx
    exact he.seeds hr hc hn hy

theorem Recorded.join (hg : r.Recorded given) (hr : r.Coherent) (called : String)
    (own : List String) :
    (r.join called own).2.Recorded (given ++ (r.admission? (.join called own)).toList) := by
  have he : Effect r (.join called own) (r.join called own).2 := r.effect_join called own
  have hs : Stocks r (.join called own) (r.join called own).2 := hr.stocks_join called own
  have hnext := he.next_le
  obtain ⟨r₁, id, c, same, hc, hname, hjoin, hadmission⟩ := r.join_admits called own
  rw [hadmission, Option.toList_some]
  rw [hjoin] at he hs hnext ⊢
  have hold : ∀ m ∈ given, r₁.next ≠ m.handle := fun m hm =>
    ((hg.handle_lt m hm).trans_le same.next).ne'
  have hhandles : ∀ a, r₁.next ≠ a → (r₁.enroll id c own).handles[a]? = r.handles[a]? := by
    intro a ha
    rw [getElem?_handles_enroll, if_neg ha, same.handles]
  refine ⟨?origin, ?handle_lt, ?handle_unique, ?name, ?joined⟩
  case origin =>
    intro h x hx
    by_cases hh : r₁.next = h
    · rw [getElem?_handles_enroll, if_pos hh] at hx
      cases hx
      exact ⟨_, List.mem_append_right _ (List.mem_singleton_self _), hh, rfl, rfl⟩
    · obtain ⟨m, hm, hm'⟩ := hg.origin h x ((hhandles h hh).symm.trans hx)
      exact ⟨m, List.mem_append_left _ hm, hm'⟩
  case handle_lt =>
    intro m hm
    rcases List.mem_append.1 hm with hm | hm
    · exact (hg.handle_lt m hm).trans_le hnext
    · rw [List.mem_singleton.1 hm]
      exact Nat.lt_succ_self _
  case handle_unique =>
    rw [List.map_append, List.nodup_append]
    refine ⟨hg.handle_unique, List.nodup_singleton _, ?_⟩
    intro a ha b hb
    obtain ⟨m, hm, rfl⟩ := List.mem_map.1 ha
    rw [List.mem_singleton.1 hb]
    exact (hold m hm).symm
  case name =>
    intro m hm hlive
    rcases List.mem_append.1 hm with hm | hm
    · obtain ⟨x, hx⟩ := Option.isSome_iff_exists.1 (TreeMap.mem_iff_isSome_getElem?.1 hlive)
      have hx' := (hhandles m.handle (hold m hm)).symm.trans hx
      obtain ⟨i, hi, hname'⟩ := hg.name m hm
        (TreeMap.mem_iff_isSome_getElem?.2 (Option.isSome_iff_exists.2 ⟨x, hx'⟩))
      have hcluster := (hg.state hm hx').1
      obtain ⟨i', hi', he'⟩ := hs.name hi (hcluster ▸ hr.handle_cluster_lt hx')
        ⟨m.handle, x, hx, hcluster⟩
      exact ⟨i', hi', he'.trans hname'⟩
    · rw [List.mem_singleton.1 hm]
      exact ⟨c.inventory, (r₁.inventory?_enroll id id own hc).trans (r₁.inventory?_of_cluster id hc),
        hname⟩
  case joined =>
    intro m hm hx
    rcases List.mem_append.1 hm with hm | hm
    · have hx' := (hhandles m.handle (hold m hm)).symm.trans hx
      obtain ⟨c', hc', hn⟩ := hg.seeds m hm hx'
      exact he.seeds hr hc' hn hx
    · rw [List.mem_singleton.1 hm]
      refine ⟨_, (r₁.roll?_enroll id id c own).trans (if_pos rfl), ?_⟩
      exact TreeMap.getElem?_insert_self

theorem Recorded.step (hg : r.Recorded given) (hr : r.Coherent) (call : Call) :
    (r.step call).Recorded (given ++ (r.admission? call).toList) := by
  by_cases hcall : ∃ name seeds, call = .join name seeds
  · obtain ⟨name, seeds, rfl⟩ := hcall
    exact hg.join hr name seeds
  · have hcall' : ∀ name seeds, call ≠ .join name seeds := fun name seeds h => hcall ⟨_, _, h⟩
    rw [admission?_eq_none hcall', Option.toList_none, List.append_nil]
    exact hg.of_not_join hr hcall' (hr.effect_step call) (hr.stocks_step call)

theorem recorded_run (calls : List Call) :
    (({} : Registry).run calls).Recorded (({} : Registry).admissions calls) := by
  induction calls using List.reverseRecOn with
  | nil => exact recorded_empty
  | append_singleton calls call ih =>
      rw [run_append, admissions_concat]
      exact ih.step (coherent_run calls) call

/-! ## Numbers -/

def admittedTo (id : ClusterId) (given : List Admission) : List Admission :=
  given.filter fun m => m.cluster = id

theorem admittedTo_concat (id : ClusterId) (given : List Admission) (m : Admission) :
    admittedTo id (given ++ [m]) =
      if m.cluster = id then admittedTo id given ++ [m] else admittedTo id given := by
  rw [admittedTo, List.filter_append, ← admittedTo]
  by_cases hid : m.cluster = id
  · simp [hid]
  · simp [hid]

/-- Only a join takes a number, and a new cluster starts with the first. -/
theorem Effect.nextNode {call : Call} (he : Effect r call r')
    (hcall : ∀ name seeds, call ≠ .join name seeds) {id : ClusterId} {c : Roll}
    (hc : r'.roll? id = some c) : (∃ c₀, r.roll? id = some c₀ ∧ c₀.nextNode = c.nextNode) ∨
      r.next ≤ id ∧ c.nextNode = 1 := by
  have hdepart : ∀ {a : HandleId} {x : Handle} {c' : Cluster},
      r.clusters[x.cluster]? = some c' → (r.depart a x c').roll? id = some c →
      ∃ c₀, r.roll? id = some c₀ ∧ c₀.nextNode = c.nextNode := by
    intro a x c' hc' hroll
    rw [roll?_depart] at hroll
    split at hroll
    · subst id
      cases hroll
      exact ⟨_, r.roll?_of_cluster hc', rfl⟩
    · exact ⟨c, hroll, rfl⟩
  cases he with
  | quiet same =>
      rcases same.roll_cases hc with hold | ⟨hle, -, rfl⟩
      · exact .inl ⟨c, hold, rfl⟩
      · exact .inr ⟨hle, rfl⟩
  | enroll => exact absurd rfl (hcall _ _)
  | depart _ _ cluster => exact .inl (hdepart cluster hc)
  | release _ _ cluster => exact .inl (hdepart cluster (roll?_of_forget _ hc))
  | forget => exact .inl ⟨c, roll?_of_forget _ hc, rfl⟩
  | listen _ cluster =>
      rw [roll?_listen] at hc
      split at hc
      · subst id
        cases hc
        exact .inl ⟨_, r.roll?_of_cluster cluster, rfl⟩
      · exact .inl ⟨c, hc, rfl⟩

/-- The joins of a cluster are numbered in their order. -/
structure Numbered (r : Registry) (given : List Admission) : Prop where
  nodes : ∀ id, (admittedTo id given).map Admission.node =
    List.range' 1 (admittedTo id given).length
  nextNode : ∀ id c, r.roll? id = some c → c.nextNode = (admittedTo id given).length + 1
  cluster_lt : ∀ m ∈ given, m.cluster < r.next

theorem numbered_empty : ({} : Registry).Numbered [] := by
  constructor <;> simp [roll?, admittedTo]

theorem Numbered.admittedTo_of_le (hg : r.Numbered given) {id : ClusterId} (hle : r.next ≤ id) :
    admittedTo id given = [] := by
  refine List.filter_eq_nil_iff.2 fun m hm => ?_
  simpa using ((hg.cluster_lt m hm).trans_le hle).ne

theorem Numbered.of_not_join (hg : r.Numbered given) {call : Call}
    (hcall : ∀ name seeds, call ≠ .join name seeds) (he : Effect r call r') : r'.Numbered given where
  nodes := hg.nodes
  nextNode id c hc := by
    rcases he.nextNode hcall hc with ⟨c₀, hc₀, hnext⟩ | ⟨hle, hnext⟩
    · exact hnext ▸ hg.nextNode id c₀ hc₀
    · rw [hg.admittedTo_of_le hle, hnext]
      rfl
  cluster_lt m hm := (hg.cluster_lt m hm).trans_le he.next_le

theorem Numbered.join (hg : r.Numbered given) (hr : r.Coherent) (called : String)
    (own : List String) :
    (r.join called own).2.Numbered (given ++ (r.admission? (.join called own)).toList) := by
  obtain ⟨r₁, id, c, same, hc, -, hjoin, hadmission⟩ := r.join_admits called own
  have hnext : ∀ {a c'}, r₁.roll? a = some c' →
      c'.nextNode = (admittedTo a given).length + 1 := by
    intro a c' hc'
    rcases same.roll_cases hc' with hold | ⟨hle, -, rfl⟩
    · exact hg.nextNode a c' hold
    · rw [hg.admittedTo_of_le hle]
      rfl
  have hnode : c.nextNode = (admittedTo id given).length + 1 := hnext (r₁.roll?_of_cluster hc)
  rw [hadmission, hjoin, Option.toList_some]
  refine ⟨?nodes, ?nextNode, ?cluster_lt⟩
  case nodes =>
    intro a
    rw [admittedTo_concat]
    split
    · subst a
      simp only [List.map_append, hg.nodes, List.length_append, List.map_cons, List.map_nil,
        List.length_singleton, List.range'_concat, hnode]
      rw [Nat.one_mul, Nat.add_comm]
    · exact hg.nodes a
  case nextNode =>
    intro a c' hc'
    rw [roll?_enroll] at hc'
    rw [admittedTo_concat]
    split at hc'
    · subst a
      cases hc'
      rw [if_pos rfl, List.length_append, hnode]
      rfl
    · rename_i hne
      rw [if_neg hne]
      exact hnext hc'
  case cluster_lt =>
    intro m hm
    rw [next_enroll]
    rcases List.mem_append.1 hm with hm | hm
    · exact ((hg.cluster_lt m hm).trans_le same.next).trans (Nat.lt_succ_self _)
    · rw [List.mem_singleton.1 hm]
      exact ((hr.sameMembers same).cluster_lt id _ (r₁.roll?_of_cluster hc)).trans
        (Nat.lt_succ_self _)

theorem numbered_run (calls : List Call) :
    (({} : Registry).run calls).Numbered (({} : Registry).admissions calls) := by
  induction calls using List.reverseRecOn with
  | nil => exact numbered_empty
  | append_singleton calls call ih =>
      rw [run_append, admissions_concat]
      by_cases hcall : ∃ name seeds, call = .join name seeds
      · obtain ⟨name, seeds, rfl⟩ := hcall
        exact ih.join (coherent_run calls) name seeds
      · have hcall' : ∀ name seeds, call ≠ .join name seeds := fun name seeds h => hcall ⟨_, _, h⟩
        rw [admission?_eq_none hcall', Option.toList_none, List.append_nil]
        exact ih.of_not_join hcall' ((coherent_run calls).effect_step call)

theorem length_admissions_le (r : Registry) (calls : List Call) :
    (r.admissions calls).length ≤ calls.length := by
  induction calls generalizing r with
  | nil => exact le_refl _
  | cons call calls ih =>
      have hone : (r.admission? call).toList.length ≤ 1 := by cases r.admission? call <;> simp
      have hrest := ih (r.step call)
      simp only [admissions, List.length_append, List.length_cons]
      omega

/-- Each call gives out one number at most. In runs of fewer than `2 ^ 64` calls a counter of 64
bits would therefore not wrap. -/
theorem nextNode_run_le (calls : List Call) {id : ClusterId} {c : Roll}
    (hc : (({} : Registry).run calls).roll? id = some c) : c.nextNode ≤ calls.length + 1 := by
  rw [(numbered_run calls).nextNode id c hc]
  apply Nat.succ_le_succ
  calc (admittedTo id (({} : Registry).admissions calls)).length
      ≤ (({} : Registry).admissions calls).length := List.length_filter_le _ _
    _ ≤ calls.length := length_admissions_le _ calls

end Registry

end CacheBench
