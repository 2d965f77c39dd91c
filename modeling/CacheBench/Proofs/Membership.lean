import CacheBench.Proofs.CallEffect
import Mathlib.Data.Finset.Card

/-!
# The members of a cluster

`changes` lists what a run of calls changes in a cluster, each change with the number of members
after it. Applied one after the other, the changes lead from the members before the run to those
after it, and from one number to the next it is one step up or down.
-/

namespace CacheBench

open Std (TreeMap)

namespace Change

def apply (members : Finset NodeId) : Change → Finset NodeId
  | .joined n => insert n members
  | .left n => members.erase n

/-- Only a node that is no member can join, and only a member can leave. -/
def Fits (members : Finset NodeId) : Change → Prop
  | .joined n => n ∉ members
  | .left n => n ∈ members

end Change

namespace Registry

def membersOf (r : Registry) (id : ClusterId) : Finset NodeId :=
  ((r.roll? id).map fun c => c.members.keys.toFinset).getD ∅

/-- What a run of calls changes in a cluster, each change with the number of members after it. -/
def changes (r : Registry) (id : ClusterId) : List Call → List (Change × Nat)
  | [] => []
  | call :: calls =>
    (((r.change? id call).map fun change => (change, ((r.step call).membersOf id).card)).toList) ++
      (r.step call).changes id calls

section Members

variable {r r' : Registry} {id : ClusterId} {x : Handle}

theorem membersOf_eq {c : Roll} (hc : r.roll? id = some c) :
    r.membersOf id = c.members.keys.toFinset := by
  rw [membersOf, hc]
  rfl

theorem card_membersOf {c : Roll} (hc : r.roll? id = some c) :
    (r.membersOf id).card = c.members.size := by
  rw [membersOf_eq hc, List.toFinset_card_of_nodup TreeMap.nodup_keys, TreeMap.length_keys]

theorem mem_membersOf_iff {c : Roll} (hc : r.roll? id = some c) {n : NodeId} :
    n ∈ r.membersOf id ↔ n ∈ c.members := by
  rw [membersOf_eq hc, List.mem_toFinset, TreeMap.mem_keys]

theorem Coherent.mem_membersOf (hr : r.Coherent) {n : NodeId} :
    n ∈ r.membersOf id ↔ ∃ h : HandleId, r.handles[h]? = some ⟨id, n, false⟩ := by
  cases hc : r.roll? id with
  | some c => rw [mem_membersOf_iff hc, hr.mem_iff id c n hc]
  | none =>
      rw [membersOf, hc]
      constructor
      · intro hn
        simp at hn
      · rintro ⟨h, hh⟩
        obtain ⟨c, hc', -⟩ := hr.roll_of_handle h _ hh
        cases hc.symm.trans hc'

theorem Coherent.membersOf_congr (hr : r.Coherent) (hr' : r'.Coherent)
    (h : ∀ n, (∃ h : HandleId, r'.handles[h]? = some ⟨id, n, false⟩) ↔
      ∃ h : HandleId, r.handles[h]? = some ⟨id, n, false⟩) :
    r'.membersOf id = r.membersOf id := by
  ext n
  rw [hr'.mem_membersOf, hr.mem_membersOf, h n]

theorem membersOf_enroll {a : ClusterId} {c : Cluster} (seeds : List String)
    (hc : r.clusters[a]? = some c) : (r.enroll a c seeds).membersOf id =
      if a = id then insert c.nextNode (r.membersOf id) else r.membersOf id := by
  have hroll : r.roll? a = some c.roll := r.roll?_of_cluster hc
  have hroll' := r.roll?_enroll a id c seeds
  by_cases ha : a = id
  · subst a
    rw [if_pos rfl] at hroll'
    ext n
    rw [mem_membersOf_iff hroll', if_pos rfl, Finset.mem_insert, mem_membersOf_iff hroll,
      TreeMap.mem_insert, Std.LawfulEqCmp.compare_eq_iff_eq, eq_comm]
    rfl
  · rw [if_neg ha] at hroll' ⊢
    rw [membersOf, hroll', membersOf]

theorem membersOf_depart {h : HandleId} {x : Handle} {c : Cluster}
    (hc : r.clusters[x.cluster]? = some c) : (r.depart h x c).membersOf id =
      if x.cluster = id then (r.membersOf id).erase x.node else r.membersOf id := by
  have hroll : r.roll? x.cluster = some c.roll := r.roll?_of_cluster hc
  have hroll' := r.roll?_depart h x c id
  by_cases hid : x.cluster = id
  · subst id
    rw [if_pos rfl] at hroll'
    ext n
    rw [mem_membersOf_iff hroll', if_pos rfl, Finset.mem_erase, mem_membersOf_iff hroll,
      TreeMap.mem_erase, Ne, Std.LawfulEqCmp.compare_eq_iff_eq, eq_comm]
    rfl
  · rw [if_neg hid] at hroll' ⊢
    rw [membersOf, hroll', membersOf]

theorem Coherent.membersOf_forget (hr : r.Coherent) {h : HandleId}
    (hl : ∀ x : Handle, r.handles[h]? = some x → x.left = true) :
    (r.forget h).membersOf id = r.membersOf id := by
  refine hr.membersOf_congr (hr.forget hl) fun n => ?_
  simp only [getElem?_handles_forget]
  constructor
  · rintro ⟨a, ha⟩
    split at ha
    · cases ha
    · exact ⟨a, ha⟩
  · rintro ⟨a, ha⟩
    have hne : h ≠ a := by
      rintro rfl
      cases hl _ ha
    exact ⟨a, (if_neg hne).trans ha⟩

theorem Coherent.not_mem_membersOf (hr : r.Coherent) {c : Cluster} (hc : r.clusters[id]? = some c) :
    c.nextNode ∉ r.membersOf id := by
  intro hn
  obtain ⟨h, hh⟩ := hr.mem_membersOf.1 hn
  obtain ⟨c', hc', hlt⟩ := hr.roll_of_handle h _ hh
  cases (r.roll?_of_cluster hc).symm.trans hc'
  exact Nat.lt_irrefl _ hlt

theorem Coherent.membersOf_leave (hr : r.Coherent) {h : HandleId} {x : Handle} {c : Cluster}
    (hx : r.handles[h]? = some x) (hl : x.left = false) (hc : r.clusters[x.cluster]? = some c) :
    (∃ change, r.change? id (.leave h) = some change ∧ change.Fits (r.membersOf id) ∧
        (r.depart h x c).membersOf id = change.apply (r.membersOf id)) ∨
      r.change? id (.leave h) = none ∧ (r.depart h x c).membersOf id = r.membersOf id := by
  rw [change?_leave hx hl, membersOf_depart hc]
  by_cases hid : x.cluster = id
  · subst id
    rw [if_pos rfl, if_pos rfl]
    refine .inl ⟨_, rfl, hr.mem_membersOf.2 ⟨h, ?_⟩, rfl⟩
    rw [hx, ← hl]
  · exact .inr ⟨if_neg hid, if_neg hid⟩

/-- A call makes its change, which is one of the members as they are, or none. -/
theorem Coherent.membersOf_effect (hr : r.Coherent) (id : ClusterId) {call : Call}
    (he : Effect r call r') :
    (∃ change, r.change? id call = some change ∧ change.Fits (r.membersOf id) ∧
        r'.membersOf id = change.apply (r.membersOf id)) ∨
      r.change? id call = none ∧ r'.membersOf id = r.membersOf id := by
  cases he with
  | quiet same unchanged =>
      refine .inr ⟨unchanged id, hr.membersOf_congr (hr.sameMembers same) fun n => ?_⟩
      rw [same.handles]
  | @enroll name seeds r₁ a c same channels cluster join =>
      have hr₁ := hr.sameMembers same
      have hsame : r₁.membersOf id = r.membersOf id :=
        hr.membersOf_congr hr₁ fun n => by rw [same.handles]
      rw [change?_join join, membersOf_enroll seeds cluster, hsame]
      by_cases ha : a = id
      · subst a
        rw [if_pos rfl, if_pos rfl, ← hsame]
        exact .inl ⟨_, rfl, hr₁.not_mem_membersOf cluster, rfl⟩
      · exact .inr ⟨if_neg ha, if_neg ha⟩
  | depart handle member cluster => exact hr.membersOf_leave handle member cluster
  | release handle member cluster =>
      rw [(hr.depart handle cluster).membersOf_forget fun _ => left_of_depart]
      exact hr.membersOf_leave handle member cluster
  | forget left => exact .inr ⟨change?_leave_of_left left id, hr.membersOf_forget left⟩
  | listen handle cluster =>
      refine .inr ⟨rfl, hr.membersOf_congr (hr.listen handle cluster) fun n => ?_⟩
      rw [handles_listen]

theorem changes_append (r : Registry) (id : ClusterId) (calls calls' : List Call) :
    r.changes id (calls ++ calls') = r.changes id calls ++ (r.run calls).changes id calls' := by
  induction calls generalizing r with
  | nil => rfl
  | cons call calls ih =>
      rw [List.cons_append, changes, changes, ih, List.append_assoc]
      rfl

theorem mem_membersOf_of_cluster {id : ClusterId} {c : Cluster} (hc : r.clusters[id]? = some c)
    {n : NodeId} : n ∈ r.membersOf id ↔ n ∈ c.members :=
  mem_membersOf_iff (r.roll?_of_cluster hc)

theorem card_membersOf_of_size? {h : HandleId} {n : Nat} (hx : r.handles[h]? = some x)
    (hn : r.size? h = some n) : (r.membersOf x.cluster).card = n := by
  obtain ⟨⟨y, c⟩, hholder, rfl⟩ := Option.map_eq_some_iff.1 hn
  obtain ⟨hy, hc⟩ := r.holder?_eq_some_iff.1 hholder
  cases hx.symm.trans hy
  exact card_membersOf (r.roll?_of_cluster hc)

theorem Coherent.mem_membersOf_of_handle (hr : r.Coherent) {h : HandleId}
    (hx : r.handles[h]? = some x) (hl : x.left = false) : x.node ∈ r.membersOf x.cluster :=
  hr.mem_membersOf.2 ⟨h, by rw [hx, ← hl]⟩

/-- After its own leave the member is gone. -/
theorem Coherent.not_mem_of_own (hr : r.Coherent) {call : Call} (he : Effect r call r')
    {h : HandleId} (hown : call = .leave h ∨ call = .release h) (hx : r.handles[h]? = some x)
    (hl : x.left = false) : x.node ∉ r'.membersOf x.cluster := by
  have hleft : r.change? x.cluster (.leave h) = some (.left x.node) :=
    (change?_leave hx hl).trans (if_pos rfl)
  have hchange : r.change? x.cluster call = some (.left x.node) := by
    rcases hown with rfl | rfl
    · exact hleft
    · exact hleft
  rcases hr.membersOf_effect x.cluster he with ⟨change, hsome, -, happly⟩ | ⟨hnone, -⟩
  · cases hchange.symm.trans hsome
    rw [happly]
    exact Finset.notMem_erase x.node _
  · cases hchange.symm.trans hnone

theorem nextNode_of_joined {call : Call} (he : Effect r call r') {id : ClusterId} {n : NodeId}
    (hn : r.change? id call = some (.joined n)) :
    ∃ r₁ c, SameMembers r r₁ ∧ r₁.roll? id = some c ∧ n = c.nextNode := by
  cases he with
  | quiet _ unchanged => cases (unchanged id).symm.trans hn
  | @enroll _ _ r₁ _ c same _ cluster join =>
      rw [change?_join join] at hn
      split at hn
      · subst id
        cases hn
        exact ⟨r₁, c.roll, same, r₁.roll?_of_cluster cluster, rfl⟩
      · cases hn
  | depart handle member =>
      rw [change?_leave handle member] at hn
      split at hn <;> cases hn
  | release handle member =>
      have hn := (change?_leave handle member).symm.trans hn
      split at hn <;> cases hn
  | forget left => cases (change?_leave_of_left left id).symm.trans hn
  | listen => cases hn

end Members

/-- The changes, each with its number of members, lead from some members to others. -/
inductive Replay : Finset NodeId → List (Change × Nat) → Finset NodeId → Prop
  | nil (members : Finset NodeId) : Replay members [] members
  | cons {members members' : Finset NodeId} {change : Change} {rest : List (Change × Nat)}
    (fits : change.Fits members) (tail : Replay (change.apply members) rest members') :
    Replay members ((change, (change.apply members).card) :: rest) members'

namespace Replay

variable {members members' : Finset NodeId} {told : List (Change × Nat)}

theorem eq_foldl (h : Replay members told members') :
    members' = (told.map Prod.fst).foldl (fun s change => change.apply s) members := by
  induction h with
  | nil => rfl
  | cons _ _ ih => exact ih

theorem steps (h : Replay members told members') :
    (members.card :: told.map Prod.snd).IsChain fun m n => n = m + 1 ∨ m = n + 1 := by
  induction h with
  | nil => exact .singleton _
  | @cons members _ change rest fits _ ih =>
      refine .cons_cons ?_ ih
      cases change with
      | joined n => exact .inl (Finset.card_insert_of_notMem fits)
      | left n => exact .inr (Finset.card_erase_add_one fits).symm

theorem card_eq (h : Replay members told members') :
    told = [] ∧ members' = members ∨ ∃ y ∈ told, y.2 = members'.card := by
  induction h with
  | nil => exact .inl ⟨rfl, rfl⟩
  | @cons members _ change rest _ _ ih =>
      refine .inr ?_
      rcases ih with ⟨-, rfl⟩ | ⟨y, hy, he⟩
      · exact ⟨_, List.mem_cons_self, rfl⟩
      · exact ⟨y, List.mem_cons_of_mem _ hy, he⟩

end Replay

theorem Coherent.replay {r : Registry} (hr : r.Coherent) (id : ClusterId) (calls : List Call) :
    Replay (r.membersOf id) (r.changes id calls) ((r.run calls).membersOf id) := by
  induction calls generalizing r with
  | nil => exact .nil _
  | cons call calls ih =>
      have htail := ih (hr.step call)
      rw [changes]
      rcases hr.membersOf_effect id (hr.effect_step call) with
        ⟨change, hchange, hfits, happly⟩ | ⟨hnone, hsame⟩
      · rw [hchange, happly]
        rw [happly] at htail
        exact .cons hfits htail
      · rw [hnone]
        rw [hsame] at htail
        exact htail

end Registry

end CacheBench
