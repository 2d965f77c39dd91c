import CacheBench.Proofs.RegistryStep
import Mathlib.Order.Nat

/-!
# What holds of every registry

A registry that can be reached is `Coherent`: the members of its clusters are the nodes of those
handles that have not left, and every number in use was given out. Each operation keeps it so.
-/

namespace CacheBench

open Std (TreeMap)

namespace Registry

/-- What holds of the members of every registry that can be reached. -/
structure Coherent (r : Registry) : Prop where
  roll_of_handle : ∀ (h : HandleId) (x : Handle), r.handles[h]? = some x →
    ∃ c, r.roll? x.cluster = some c ∧ x.node < c.nextNode
  handle_unique : ∀ (h h' : HandleId) (x x' : Handle), r.handles[h]? = some x →
    r.handles[h']? = some x' → x.cluster = x'.cluster → x.node = x'.node → h = h'
  mem_iff : ∀ id c n, r.roll? id = some c →
    (n ∈ c.members ↔ ∃ h : HandleId, r.handles[h]? = some ⟨id, n, false⟩)
  nodup : ∀ id c, r.roll? id = some c → (c.listeners.map Listener.channel).Nodup
  listener_lt : ∀ id c l, r.roll? id = some c → l ∈ c.listeners →
    l.owner < c.nextNode ∧ l.channel < r.next
  cluster_lt : ∀ id c, r.roll? id = some c → id < r.next
  handle_lt : ∀ (h : HandleId) (x : Handle), r.handles[h]? = some x → h < r.next
  channel_lt : ∀ ch, ch ∈ r.channels → ch < r.next

variable {r r' : Registry}

theorem coherent_empty : Coherent {} := by
  constructor <;> simp [roll?]

theorem SameMembers.roll_cases (h : SameMembers r r') {a : ClusterId} {c : Roll}
    (hc : r'.roll? a = some c) : r.roll? a = some c ∨ r.next ≤ a ∧ a < r'.next ∧ c = {} := by
  rcases h.roll a with hold | ⟨hle, hlt, hnew⟩
  · exact .inl (hold ▸ hc)
  · exact .inr ⟨hle, hlt, (Option.some.inj (hnew.symm.trans hc)).symm⟩

theorem Coherent.handle_cluster_lt (hr : r.Coherent) {h : HandleId} {x : Handle}
    (hx : r.handles[h]? = some x) : x.cluster < r.next := by
  obtain ⟨c, hc, -⟩ := hr.roll_of_handle h x hx
  exact hr.cluster_lt x.cluster c hc

theorem Coherent.sameMembers (hr : r.Coherent) (h : SameMembers r r') : r'.Coherent where
  roll_of_handle a x hx := by
    rw [h.handles] at hx
    obtain ⟨c, hc, hlt⟩ := hr.roll_of_handle a x hx
    rcases h.roll x.cluster with hold | ⟨hle, -, -⟩
    · exact ⟨c, hold.trans hc, hlt⟩
    · exact absurd (hr.handle_cluster_lt hx) (Nat.not_lt_of_le hle)
  handle_unique := h.handles.symm ▸ hr.handle_unique
  mem_iff id c n hc := by
    rw [h.handles]
    rcases h.roll_cases hc with hold | ⟨hle, -, rfl⟩
    · exact hr.mem_iff id c n hold
    · -- A cluster made just now has no members, and no handle can name it yet.
      constructor
      · intro hn
        simp at hn
      · rintro ⟨a, ha⟩
        exact absurd (hr.handle_cluster_lt ha) (Nat.not_lt_of_le hle)
  nodup id c hc := by
    rcases h.roll_cases hc with hold | ⟨-, -, rfl⟩
    · exact hr.nodup id c hold
    · exact List.nodup_nil
  listener_lt id c l hc hl := by
    rcases h.roll_cases hc with hold | ⟨-, -, rfl⟩
    · obtain ⟨howner, hch⟩ := hr.listener_lt id c l hold hl
      exact ⟨howner, hch.trans_le h.next⟩
    · cases hl
  cluster_lt id c hc := by
    rcases h.roll_cases hc with hold | ⟨-, hlt, -⟩
    · exact (hr.cluster_lt id c hold).trans_le h.next
    · exact hlt
  handle_lt a x hx := (hr.handle_lt a x (h.handles ▸ hx)).trans_le h.next
  channel_lt ch hch := (hr.channel_lt ch (h.channels ch hch)).trans_le h.next

theorem Coherent.enroll (hr : r.Coherent) {id : ClusterId} {c : Cluster} (seeds : List String)
    (hc : r.clusters[id]? = some c) : (r.enroll id c seeds).Coherent := by
  have hroll : r.roll? id = some c.roll := r.roll?_of_cluster hc
  obtain ⟨hroll_of, hunique, hmem_iff, hnodup, hlistener_lt, hcluster_lt, hhandle_lt,
    hchannel_lt⟩ := hr
  refine ⟨?roll_of_handle, ?handle_unique, ?mem_iff, ?nodup, ?listener_lt, ?cluster_lt, ?handle_lt,
    ?channel_lt⟩
  case mem_iff =>
    intro a c' n hc'
    rw [roll?_enroll] at hc'
    simp only [getElem?_handles_enroll]
    split at hc'
    · subst a
      cases hc'
      rw [TreeMap.mem_insert, Std.LawfulEqCmp.compare_eq_iff_eq]
      refine (or_congr_right (hmem_iff id c.roll n hroll)).trans ⟨?_, ?_⟩
      · rintro (rfl | ⟨h, hh⟩)
        · exact ⟨r.next, if_pos rfl⟩
        · have hne : r.next ≠ h := (hhandle_lt h _ hh).ne'
          exact ⟨h, (if_neg hne).trans hh⟩
      · rintro ⟨h, hh⟩
        split at hh
        · cases hh
          exact .inl rfl
        · exact .inr ⟨h, hh⟩
    · rw [hmem_iff a c' n hc']
      grind
  case roll_of_handle =>
    intro h x hx
    rw [getElem?_handles_enroll] at hx
    simp only [roll?_enroll]
    grind
  case handle_unique =>
    intro h h' x x' hx hx'
    rw [getElem?_handles_enroll] at hx hx'
    grind
  case nodup =>
    intro a c' hc'
    rw [roll?_enroll] at hc'
    grind
  case listener_lt =>
    intro a c' l hc' hl'
    rw [roll?_enroll] at hc'
    rw [next_enroll]
    grind
  case cluster_lt =>
    intro a c' hc'
    rw [roll?_enroll] at hc'
    rw [next_enroll]
    grind
  case handle_lt =>
    intro h x hx
    rw [getElem?_handles_enroll] at hx
    rw [next_enroll]
    grind
  case channel_lt =>
    intro ch hch
    rw [mem_channels_enroll] at hch
    rw [next_enroll]
    grind

theorem Coherent.depart (hr : r.Coherent) {h : HandleId} {x : Handle} {c : Cluster}
    (hx : r.handles[h]? = some x) (hc : r.clusters[x.cluster]? = some c) :
    (r.depart h x c).Coherent := by
  have hroll : r.roll? x.cluster = some c.roll := r.roll?_of_cluster hc
  obtain ⟨hroll_of, hunique, hmem_iff, hnodup, hlistener_lt, hcluster_lt, hhandle_lt,
    hchannel_lt⟩ := hr
  refine ⟨?roll_of_handle, ?handle_unique, ?mem_iff, ?nodup, ?listener_lt, ?cluster_lt, ?handle_lt,
    ?channel_lt⟩
  case mem_iff =>
    intro a c' n hc'
    rw [roll?_depart] at hc'
    simp only [getElem?_handles_depart]
    split at hc'
    · subst a
      cases hc'
      rw [TreeMap.mem_erase, Ne, Std.LawfulEqCmp.compare_eq_iff_eq]
      refine (and_congr_right fun _ => hmem_iff x.cluster c.roll n hroll).trans ⟨?_, ?_⟩
      · rintro ⟨hne, h', hh'⟩
        have hh : h ≠ h' := by
          rintro rfl
          exact hne (congrArg Handle.node (Option.some.inj (hx.symm.trans hh')))
        exact ⟨h', (if_neg hh).trans hh'⟩
      · rintro ⟨h', hh'⟩
        split at hh'
        · cases hh'
        · rename_i hh
          exact ⟨fun hn => hh (hunique h h' x _ hx hh' rfl hn), h', hh'⟩
    · rw [hmem_iff a c' n hc']
      grind
  case roll_of_handle =>
    intro a y hy
    rw [getElem?_handles_depart] at hy
    simp only [roll?_depart]
    grind
  case handle_unique =>
    intro a a' y y' hy hy'
    rw [getElem?_handles_depart] at hy hy'
    grind
  case nodup =>
    intro a c' hc'
    rw [roll?_depart] at hc'
    grind
  case listener_lt =>
    intro a c' l hc' hl'
    rw [roll?_depart] at hc'
    rw [next_depart]
    grind
  case cluster_lt =>
    intro a c' hc'
    rw [roll?_depart] at hc'
    rw [next_depart]
    grind
  case handle_lt =>
    intro a y hy
    rw [getElem?_handles_depart] at hy
    rw [next_depart]
    grind
  case channel_lt =>
    intro ch hch
    rw [mem_channels_depart] at hch
    rw [next_depart]
    grind

theorem Coherent.listen (hr : r.Coherent) {h : HandleId} {x : Handle} {c : Cluster}
    (hx : r.handles[h]? = some x) (hc : r.clusters[x.cluster]? = some c) :
    (r.listen x c).Coherent := by
  have hroll : r.roll? x.cluster = some c.roll := r.roll?_of_cluster hc
  obtain ⟨hroll_of, hunique, hmem_iff, hnodup, hlistener_lt, hcluster_lt, hhandle_lt,
    hchannel_lt⟩ := hr
  refine ⟨?roll_of_handle, hunique, ?mem_iff, ?nodup, ?listener_lt, ?cluster_lt, ?handle_lt,
    ?channel_lt⟩
  case roll_of_handle =>
    intro a y hy
    rw [handles_listen] at hy
    simp only [roll?_listen]
    grind
  case mem_iff =>
    intro a c' n hc'
    rw [roll?_listen] at hc'
    split at hc'
    · subst a
      cases hc'
      exact hmem_iff x.cluster c.roll n hroll
    · exact hmem_iff a c' n hc'
  case nodup =>
    intro a c' hc'
    rw [roll?_listen] at hc'
    split at hc'
    · cases hc'
      have hnew : ∀ l ∈ c.listeners, l.channel ≠ r.next := by
        intro l hl
        have := (hlistener_lt x.cluster c.roll l hroll hl).2
        exact this.ne
      rw [List.map_append, List.nodup_append]
      refine ⟨hnodup x.cluster c.roll hroll, List.nodup_singleton _, ?_⟩
      simpa using hnew
    · exact hnodup a c' hc'
  case listener_lt =>
    intro a c' l hc' hl'
    rw [roll?_listen] at hc'
    rw [next_listen]
    grind
  case cluster_lt =>
    intro a c' hc'
    rw [roll?_listen] at hc'
    rw [next_listen]
    grind
  case handle_lt =>
    intro a y hy
    rw [handles_listen] at hy
    rw [next_listen]
    grind
  case channel_lt =>
    intro ch hch
    rw [TreeMap.mem_iff_isSome_getElem?, getElem?_channels_listen] at hch
    rw [next_listen]
    split at hch
    · subst ch
      exact Nat.lt_succ_self _
    · exact Nat.lt_succ_of_lt (hchannel_lt ch (TreeMap.mem_iff_isSome_getElem?.2 hch))

/-- Only the handle of a node that has left may go. -/
theorem Coherent.forget (hr : r.Coherent) {h : HandleId}
    (hl : ∀ x : Handle, r.handles[h]? = some x → x.left = true) : (r.forget h).Coherent := by
  obtain ⟨hroll_of, hunique, hmem_iff, hnodup, hlistener_lt, hcluster_lt, hhandle_lt,
    hchannel_lt⟩ := hr
  refine ⟨?roll_of_handle, ?handle_unique, ?mem_iff,
    fun a c hc => hnodup a c (r.roll?_of_forget hc), ?listener_lt, ?cluster_lt, ?handle_lt,
    ?channel_lt⟩
  case roll_of_handle =>
    intro a y hy
    rw [getElem?_handles_forget] at hy
    split at hy
    · cases hy
    · rename_i hne
      rcases r.roll?_forget_cases h y.cluster with he | ⟨-, x, -, -, hlast⟩
      · exact he ▸ hroll_of a y hy
      · exact absurd (hlast a y hy rfl).symm hne
  case handle_unique =>
    intro a a' y y' hy hy'
    rw [getElem?_handles_forget] at hy hy'
    grind
  case mem_iff =>
    intro a c n hc
    simp only [getElem?_handles_forget]
    rw [hmem_iff a c n (r.roll?_of_forget hc)]
    grind
  case listener_lt =>
    intro a c l hc hl'
    rw [next_forget]
    exact hlistener_lt a c l (r.roll?_of_forget hc) hl'
  case cluster_lt =>
    intro a c hc
    rw [next_forget]
    exact hcluster_lt a c (r.roll?_of_forget hc)
  case handle_lt =>
    intro a y hy
    rw [getElem?_handles_forget] at hy
    rw [next_forget]
    grind
  case channel_lt =>
    intro ch hch
    rw [channels_forget] at hch
    rw [next_forget]
    exact hchannel_lt ch hch

end Registry

end CacheBench
