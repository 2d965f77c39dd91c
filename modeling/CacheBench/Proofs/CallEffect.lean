import CacheBench.Proofs.Coherence

/-!
# What a call can do

`Effect` lists all that a call can do to a registry, and what holds of any run follows from it. A
call changes the members of one cluster at most (`change?`). A channel keeps what it had, but for
what is taken from it, and a handle stays as it was until it leaves or is dropped.
-/

namespace CacheBench

open Std (TreeMap)

namespace Registry

def waiting (r : Registry) (ch : ChannelId) : List Event := r.channels.getD ch []

def takes (r : Registry) (ch : ChannelId) : Call → List Event
  | .drain ch' => if ch' = ch then r.waiting ch else []
  | .receive ch' => if ch' = ch then (r.waiting ch).take 1 else []
  | _ => []

def change? (r : Registry) (id : ClusterId) : Call → Option Change
  | .join name seeds =>
    let (h, r) := r.join name seeds
    r.handles[h]?.bind fun x => if x.cluster = id then some (.joined x.node) else none
  | .leave h | .release h =>
    r.handles[h]?.bind fun x =>
      if x.cluster = id ∧ x.left = false then some (.left x.node) else none
  | _ => none

/-- All that a call can do to a registry. -/
inductive Effect (r : Registry) : Call → Registry → Prop
  /-- No member comes or goes, and a channel has what it had, less what was taken. -/
  | quiet {call r'} (same : SameMembers r r') (unchanged : ∀ id, r.change? id call = none)
    (kept : ∀ ch, call ≠ .close ch → r.takes ch call ++ r'.waiting ch = r.waiting ch ∧
      (ch ∈ r.channels → ch ∈ r'.channels)) : Effect r call r'
  | enroll {name seeds r₁ id c} (same : SameMembers r r₁) (channels : r₁.channels = r.channels)
    (cluster : r₁.clusters[id]? = some c)
    (join : r.join name seeds = (r₁.next, r₁.enroll id c seeds)) :
    Effect r (.join name seeds) (r₁.enroll id c seeds)
  | depart {h x c} (handle : r.handles[h]? = some x) (member : x.left = false)
    (cluster : r.clusters[x.cluster]? = some c) : Effect r (.leave h) (r.depart h x c)
  | release {h x c} (handle : r.handles[h]? = some x) (member : x.left = false)
    (cluster : r.clusters[x.cluster]? = some c) : Effect r (.release h) ((r.depart h x c).forget h)
  | forget {h} (left : ∀ x : Handle, r.handles[h]? = some x → x.left = true) :
    Effect r (.release h) (r.forget h)
  | listen {h x c} (handle : r.handles[h]? = some x) (cluster : r.clusters[x.cluster]? = some c) :
    Effect r (.subscribe h) (r.listen x c)

variable {r r' : Registry} {x : Handle} {ch : ChannelId}

theorem waiting_eq (r : Registry) (ch : ChannelId) : r.waiting ch = (r.channels[ch]?).getD [] :=
  TreeMap.getD_eq_getD_getElem?

theorem waiting_of_mem (hch : ch ∈ r.channels) : r.channels[ch]? = some (r.waiting ch) := by
  rw [waiting_eq, TreeMap.getElem?_eq_some_getElem hch]
  rfl

theorem Effect.of_channels_eq {call : Call} (same : SameMembers r r')
    (unchanged : ∀ id, r.change? id call = none) (takes : ∀ ch, r.takes ch call = [])
    (channels : r'.channels = r.channels) : Effect r call r' := by
  refine .quiet same unchanged fun ch _ => ⟨?_, fun h => channels ▸ h⟩
  rw [takes, waiting, channels]
  rfl

/-- To take from a channel is to leave the rest in it. -/
theorem Effect.of_modify {call : Call} (ch : ChannelId) (f : List Event → List Event)
    (unchanged : ∀ id, r.change? id call = none) (other : ∀ a, ch ≠ a → r.takes a call = [])
    (empty : f [] = []) (rest : r.takes ch call ++ f (r.waiting ch) = r.waiting ch) :
    Effect r call { r with channels := r.channels.modify ch f } := by
  refine .quiet (r.sameMembers_modify ch f) unchanged fun a _ =>
    ⟨?_, fun h => TreeMap.mem_modify.2 h⟩
  have hget : (r.channels.modify ch f)[a]? =
      if ch = a then r.channels[ch]?.map f else r.channels[a]? := by
    simp [TreeMap.getElem?_modify]
  rw [waiting_eq { r with channels := r.channels.modify ch f }, hget]
  by_cases ha : ch = a
  · subst a
    have hwait : (r.channels[ch]?.map f).getD [] = f (r.waiting ch) := by
      rw [waiting_eq]
      cases r.channels[ch]? with
      | none => exact empty.symm
      | some events => rfl
    rw [if_pos rfl, hwait]
    exact rest
  · rw [if_neg ha, other a ha, waiting_eq]
    rfl

theorem effect_drain (r : Registry) (ch : ChannelId) : Effect r (.drain ch) (r.drain ch).2 := by
  refine .of_modify ch (fun _ => []) (fun _ => rfl) (fun a ha => if_neg ha) rfl ?_
  rw [takes, if_pos rfl, List.append_nil]

theorem effect_receive (r : Registry) (ch : ChannelId) :
    Effect r (.receive ch) (r.receive ch).2 := by
  refine .of_modify ch List.tail (fun _ => rfl) (fun a ha => if_neg ha) rfl ?_
  rw [takes, if_pos rfl]
  cases r.waiting ch <;> rfl

theorem effect_close (r : Registry) (ch : ChannelId) : Effect r (.close ch) (r.close ch) := by
  refine .quiet (r.sameMembers_close ch) (fun _ => rfl) fun a ha => ?_
  have hne : ch ≠ a := fun h => ha (congrArg Call.close h)
  have hget : (r.close ch).channels[a]? = r.channels[a]? := by
    simp [close, TreeMap.getElem?_erase, hne]
  refine ⟨?_, fun h => ?_⟩
  · rw [waiting_eq, waiting_eq, hget]
    rfl
  · rw [TreeMap.mem_iff_isSome_getElem?] at h ⊢
    rwa [hget]

theorem effect_join (r : Registry) (name : String) (seeds : List String) :
    Effect r (.join name seeds) (r.join name seeds).2 := by
  obtain ⟨c, hc, hjoin⟩ := r.join_eq seeds name
  have hchannels : (r.ensure name).2.channels = r.channels := by
    rcases r.ensure_cases name with ⟨id, c, -, -, he⟩ | he
    · rw [he]
    · rw [he]
      rfl
  rw [hjoin]
  exact .enroll (r.sameMembers_ensure name) hchannels hc hjoin

theorem change?_join {id a : ClusterId} {name : String} {seeds : List String} {r₁ : Registry}
    {c : Cluster} (hjoin : r.join name seeds = (r₁.next, r₁.enroll a c seeds)) :
    r.change? id (.join name seeds) = if a = id then some (.joined c.nextNode) else none := by
  simp only [change?, hjoin, getElem?_handles_enroll, if_pos]
  rfl

theorem change?_leave {id : ClusterId} {h : HandleId} (hx : r.handles[h]? = some x)
    (hl : x.left = false) :
    r.change? id (.leave h) = if x.cluster = id then some (.left x.node) else none := by
  simp [change?, hx, hl]

theorem change?_leave_of_left {h : HandleId}
    (hl : ∀ x : Handle, r.handles[h]? = some x → x.left = true) (id : ClusterId) :
    r.change? id (.leave h) = none := by
  refine Option.bind_eq_none_iff.2 fun x hx => if_neg ?_
  simp [hl x hx]

theorem Coherent.cluster_of_handle (hr : r.Coherent) {h : HandleId} {x : Handle}
    (hx : r.handles[h]? = some x) : ∃ c, r.clusters[x.cluster]? = some c := by
  obtain ⟨c, hc, -⟩ := hr.roll_of_handle h x hx
  obtain ⟨c', hc', -⟩ := r.roll?_eq_some_iff.1 hc
  exact ⟨c', hc'⟩

/-- A handle is one of a member, or leaving by it changes nothing. -/
theorem Coherent.leave_cases (hr : r.Coherent) (h : HandleId) :
    (∃ x c, r.handles[h]? = some x ∧ x.left = false ∧ r.clusters[x.cluster]? = some c ∧
        r.leave h = r.depart h x c) ∨
      (∀ x : Handle, r.handles[h]? = some x → x.left = true) ∧ r.leave h = r := by
  cases hx : r.handles[h]? with
  | none => exact .inr ⟨by simp, r.leave_of_none hx⟩
  | some x =>
      cases hl : x.left with
      | true =>
          refine .inr ⟨fun x' hx' => ?_, r.leave_of_left hx hl⟩
          cases hx'
          exact hl
      | false =>
          obtain ⟨c, hc⟩ := hr.cluster_of_handle hx
          exact .inl ⟨x, c, rfl, hl, hc, r.leave_eq_depart hx hl hc⟩

theorem Coherent.effect_step (hr : r.Coherent) (call : Call) : Effect r call (r.step call) := by
  cases call with
  | join name seeds => exact r.effect_join name seeds
  | leave h =>
      rcases hr.leave_cases h with ⟨x, c, hx, hl, hc, he⟩ | ⟨hl, he⟩
      · exact (congrArg (Effect r _) he).mpr (.depart hx hl hc)
      · refine (congrArg (Effect r _) he).mpr ?_
        exact .of_channels_eq (.refl r) (change?_leave_of_left hl) (fun _ => rfl) rfl
  | release h =>
      rcases hr.leave_cases h with ⟨x, c, hx, hl, hc, he⟩ | ⟨hl, he⟩
      · exact (congrArg (fun r' => Effect r _ (r'.forget h)) he).mpr (.release hx hl hc)
      · exact (congrArg (fun r' => Effect r _ (r'.forget h)) he).mpr (.forget hl)
  | subscribe h =>
      cases hs : r.subscribe h with
      | none =>
          have he : r.step (.subscribe h) = r := by simp [step, hs]
          rw [he]
          exact .of_channels_eq (.refl r) (fun _ => rfl) (fun _ => rfl) rfl
      | some p =>
          obtain ⟨ch, r'⟩ := p
          obtain ⟨x, c, hx, hc, rfl, rfl⟩ := r.subscribe_eq_some_iff.1 hs
          have he : r.step (.subscribe h) = r.listen x c := by simp [step, hs]
          rw [he]
          exact .listen hx hc
  | drain ch => exact r.effect_drain ch
  | receive ch => exact r.effect_receive ch
  | close ch => exact r.effect_close ch
  | define h settings =>
      cases hd : r.define h settings with
      | none =>
          have he : r.step (.define h settings) = r := by simp [step, hd]
          rw [he]
          exact .of_channels_eq (.refl r) (fun _ => rfl) (fun _ => rfl) rfl
      | some p =>
          obtain ⟨id, r'⟩ := p
          have he : r.step (.define h settings) = r' := by simp [step, hd]
          rw [he]
          exact .of_channels_eq (r.sameMembers_define hd) (fun _ => rfl) (fun _ => rfl)
            (r.channels_define hd)
  | cache h name => exact .of_channels_eq (.refl r) (fun _ => rfl) (fun _ => rfl) rfl

theorem left_of_depart {h : HandleId} {y : Handle} {c : Cluster}
    (hy : (r.depart h x c).handles[h]? = some y) : y.left = true := by
  rw [getElem?_handles_depart, if_pos rfl] at hy
  cases hy
  rfl

theorem Coherent.effect (hr : r.Coherent) {call : Call} (he : Effect r call r') : r'.Coherent := by
  cases he with
  | quiet same => exact hr.sameMembers same
  | enroll same _ cluster => exact (hr.sameMembers same).enroll _ cluster
  | depart handle _ cluster => exact hr.depart handle cluster
  | release handle _ cluster =>
      exact (hr.depart handle cluster).forget fun _ => left_of_depart
  | forget left => exact hr.forget left
  | listen handle cluster => exact hr.listen handle cluster

theorem Coherent.step (hr : r.Coherent) (call : Call) : (r.step call).Coherent :=
  hr.effect (hr.effect_step call)

theorem Coherent.run (hr : r.Coherent) (calls : List Call) : (r.run calls).Coherent := by
  induction calls generalizing r with
  | nil => exact hr
  | cons call calls ih => exact ih (hr.step call)

theorem Coherent.run_induction {P : Registry → Prop} {calls : List Call} (hr : r.Coherent)
    (hP : P r) (hstep : ∀ (r r' : Registry) (call : Call), call ∈ calls → r.Coherent →
      Effect r call r' → P r → P r') : P (r.run calls) := by
  induction calls generalizing r with
  | nil => exact hP
  | cons call calls ih =>
      have hfirst := hstep r _ call List.mem_cons_self hr (hr.effect_step call) hP
      exact ih (hr.step call) hfirst fun r r' call' hmem =>
        hstep r r' call' (List.mem_cons_of_mem call hmem)

theorem coherent_run (calls : List Call) : (({} : Registry).run calls).Coherent :=
  coherent_empty.run calls

theorem opened_of_subscribe {h : HandleId} (hch : (r.subscribe h).map Prod.fst = some ch) :
    ∃ x, r.handles[h]? = some x ∧ ch = r.next ∧ ch < (r.step (.subscribe h)).next := by
  obtain ⟨⟨ch, r'⟩, hsub, rfl⟩ := Option.map_eq_some_iff.1 hch
  obtain ⟨x, c, hx, -, rfl, rfl⟩ := r.subscribe_eq_some_iff.1 hsub
  have hstep : r.step (.subscribe h) = r.listen x c := by simp [step, hsub]
  rw [hstep]
  exact ⟨x, hx, rfl, Nat.lt_succ_self _⟩

/-! ## What a run keeps -/

theorem Effect.mem_channels {call : Call} (he : Effect r call r') (hcall : call ≠ .close ch)
    (hch : ch ∈ r.channels) : ch ∈ r'.channels := by
  cases he with
  | quiet _ _ kept => exact (kept ch hcall).2 hch
  | enroll same channels => exact (mem_channels_enroll _ _ _ _ _).2 (channels ▸ hch)
  | depart => exact (mem_channels_depart _ _ _ _ _).2 hch
  | release =>
      rw [channels_forget]
      exact (mem_channels_depart _ _ _ _ _).2 hch
  | forget => rwa [channels_forget]
  | listen =>
      rw [TreeMap.mem_iff_isSome_getElem?, getElem?_channels_listen]
      split
      · rfl
      · exact TreeMap.mem_iff_isSome_getElem?.1 hch

theorem Coherent.mem_channels_run (hr : r.Coherent) {calls : List Call}
    (hcalls : .close ch ∉ calls) (hch : ch ∈ r.channels) : ch ∈ (r.run calls).channels := by
  refine hr.run_induction (P := fun r => ch ∈ r.channels) hch ?_
  intro r r' call hmem _ he hch
  exact he.mem_channels (fun hclose => hcalls (hclose ▸ hmem)) hch

theorem Effect.next_le {call : Call} (he : Effect r call r') : r.next ≤ r'.next := by
  cases he with
  | quiet same => exact same.next
  | enroll same => exact same.next.trans (Nat.le_succ _)
  | depart => exact Nat.le_refl _
  | release => exact ((next_forget _ _).trans (next_depart _ _ _ _)).ge
  | forget => exact (next_forget _ _).ge
  | listen => exact Nat.le_succ _

theorem Coherent.next_le_run (hr : r.Coherent) (calls : List Call) :
    r.next ≤ (r.run calls).next := by
  refine hr.run_induction (P := fun r' => r.next ≤ r'.next) (Nat.le_refl _) ?_
  intro _ _ _ _ _ he hle
  exact hle.trans he.next_le

theorem Effect.handle_of_other {call : Call} (he : Effect r call r') {h : HandleId}
    (hlt : h < r.next) (hleave : call ≠ .leave h) (hrelease : call ≠ .release h) :
    r'.handles[h]? = r.handles[h]? := by
  cases he with
  | quiet same => rw [same.handles]
  | enroll same =>
      have hne := (hlt.trans_le same.next).ne'
      rw [getElem?_handles_enroll, if_neg hne, same.handles]
  | @depart a =>
      have hne : a ≠ h := fun he => hleave (congrArg Call.leave he)
      rw [getElem?_handles_depart, if_neg hne]
  | @release a =>
      have hne : a ≠ h := fun he => hrelease (congrArg Call.release he)
      rw [getElem?_handles_forget, if_neg hne, getElem?_handles_depart, if_neg hne]
  | @forget a =>
      have hne : a ≠ h := fun he => hrelease (congrArg Call.release he)
      rw [getElem?_handles_forget, if_neg hne]
  | listen => rfl

theorem Effect.left_of_own {call : Call} (he : Effect r call r') {h : HandleId}
    (hown : call = .leave h ∨ call = .release h) {y : Handle} (hy : r'.handles[h]? = some y) :
    y.left = true := by
  cases he with
  | quiet same unchanged =>
      by_contra hl
      rw [same.handles] at hy
      have hchange : r.change? y.cluster (.leave h) = some (.left y.node) :=
        (change?_leave hy (by simpa using hl)).trans (if_pos rfl)
      rcases hown with rfl | rfl
      · cases (unchanged y.cluster).symm.trans hchange
      · cases (unchanged y.cluster).symm.trans hchange
  | enroll | listen => rcases hown with hown | hown <;> cases hown
  | depart =>
      rcases hown with hown | hown
      · cases hown
        exact left_of_depart hy
      · cases hown
  | release | forget =>
      rcases hown with hown | hown
      · cases hown
      · cases hown
        rw [getElem?_handles_forget, if_pos rfl] at hy
        cases hy

theorem Coherent.handle_run (hr : r.Coherent) {h : HandleId} (hx : r.handles[h]? = some x)
    {calls : List Call} (hcalls : ∀ call ∈ calls, call ≠ .leave h ∧ call ≠ .release h) :
    (r.run calls).handles[h]? = some x := by
  refine hr.run_induction (P := fun r => r.handles[h]? = some x) hx ?_
  intro r r' call hmem hr he hx
  obtain ⟨hleave, hrelease⟩ := hcalls call hmem
  exact (he.handle_of_other (hr.handle_lt h x hx) hleave hrelease).trans hx

/-- A handle whose member has not left is as it was. -/
theorem Coherent.handle_of_run (hr : r.Coherent) {h : HandleId} (hlt : h < r.next)
    (hl : x.left = false) (calls : List Call) (hx : (r.run calls).handles[h]? = some x) :
    r.handles[h]? = some x := by
  induction calls generalizing r with
  | nil => exact hx
  | cons call calls ih =>
      have he := hr.effect_step call
      have hx' := ih (hr.step call) (hlt.trans_le he.next_le) hx
      have hother : ∀ own, own = .leave h ∨ own = .release h → call ≠ own := by
        rintro own hown rfl
        cases hl.symm.trans (he.left_of_own hown hx')
      rw [← he.handle_of_other hlt (hother _ (.inl rfl)) (hother _ (.inr rfl))]
      exact hx'

theorem channels_of_left {h : HandleId} {y : Handle} (hy : r.handles[h]? = some y)
    (hl : y.left = true) :
    (r.leave h).channels = r.channels ∧ (r.release h).channels = r.channels := by
  rw [release, channels_forget, r.leave_of_left hy hl]
  exact ⟨rfl, rfl⟩

end Registry

end CacheBench
