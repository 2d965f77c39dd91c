import CacheBench.Proofs.EventStream
import CacheBench.Proofs.GateRun

/-!
# The moves of starters

A run of starters is a run of calls on their registry (`calls`), and `Moved` is all that a move can
do to one of them. No two starters share a channel, and one that has not subscribed has a closed
gate (`Sound`).
-/

namespace CacheBench

open Std (TreeMap)

namespace Starter

variable (s : Starter) (r : Registry)

theorem subscribe_cases :
    (∃ ch, s.channel = none ∧ (r.subscribe s.handle).map Prod.fst = some ch ∧
        s.subscribe r = ({ s with channel := some ch }, r.step (.subscribe s.handle))) ∨
      s.subscribe r = (s, r) ∧ (s.channel = none → r.subscribe s.handle = none) := by
  have hstep : r.step (.subscribe s.handle) = ((r.subscribe s.handle).map Prod.snd).getD r := rfl
  rw [hstep]
  unfold subscribe
  cases s.channel with
  | some ch => exact .inr ⟨rfl, fun h => by cases h⟩
  | none =>
      cases r.subscribe s.handle with
      | none => exact .inr ⟨rfl, fun _ => rfl⟩
      | some p => exact .inl ⟨p.1, rfl, rfl, rfl⟩

theorem sample_cases :
    (∃ ch v, s.channel = some ch ∧ s.sampled = none ∧ r.size? s.handle = some v ∧
        s.sample r = { s with
          sampled := some v, gate := if s.gate.target ≤ v then s.gate.release.2 else s.gate }) ∨
      s.sample r = s := by
  unfold sample
  split
  · rename_i ch v hch hs hv
    exact .inl ⟨ch, v, hch, hs, hv, rfl⟩
  · exact .inr rfl

theorem deliver_of_none (hch : s.channel = none) : s.deliver r = (s, r) := by
  unfold deliver
  rw [hch]

theorem deliver_eq {ch : ChannelId} (hch : s.channel = some ch) :
    s.deliver r = ({ s with gate := s.gate.observeAll (r.takes ch (.receive ch)) },
      r.step (.receive ch)) := by
  have htakes : r.takes ch (.receive ch) = (r.channels.getD ch []).take 1 := if_pos rfl
  have hstep : r.step (.receive ch) = (r.receive ch).2 := rfl
  rw [htakes, hstep]
  unfold deliver Registry.receive
  rw [hch]
  dsimp only
  cases r.channels.getD ch [] with
  | nil =>
      rw [← hch]
      rfl
  | cons e es =>
      rw [← hch]
      rfl

end Starter

namespace Convergence

def call? (c : Convergence) : Move → Option Registry.Call
  | .join name seeds _ => some (.join name seeds)
  | .subscribe i => c.starters[i]?.bind fun s =>
      if s.channel = none then some (.subscribe s.handle) else none
  | .sample _ => none
  | .deliver i => c.starters[i]?.bind fun s => s.channel.map .receive
  | .leave i => c.starters[i]?.map fun s => .leave s.handle
  | .release i => c.starters[i]?.map fun s => .release s.handle

def calls (c : Convergence) : List Move → List Registry.Call
  | [] => []
  | move :: moves => (c.call? move).toList ++ (c.step move).calls moves

/-- All that a move can do to the starter `i`, which is `s`. -/
inductive Moved (c : Convergence) (i : Nat) (s : Starter) : Move → Starter → Prop
  | same {move} (quiet : ∀ ch, s.channel = some ch → move ≠ .deliver i) : Moved c i s move s
  | subscribed {ch} (free : s.channel = none)
    (opened : (c.registry.subscribe s.handle).map Prod.fst = some ch) :
    Moved c i s (.subscribe i) { s with channel := some ch }
  | sampled {ch v} (subscribed : s.channel = some ch) (first : s.sampled = none)
    (size : c.registry.size? s.handle = some v) :
    Moved c i s (.sample i) { s with
      sampled := some v, gate := if s.gate.target ≤ v then s.gate.release.2 else s.gate }
  | delivered {ch} (subscribed : s.channel = some ch) :
    Moved c i s (.deliver i)
      { s with gate := s.gate.observeAll (c.registry.takes ch (.receive ch)) }

variable {c : Convergence} {i : Nat} {s : Starter} {move : Move} {ch : ChannelId}

theorem calls_append (c : Convergence) (moves moves' : List Move) :
    c.calls (moves ++ moves') = c.calls moves ++ (c.run moves).calls moves' := by
  induction moves generalizing c with
  | nil => rfl
  | cons move moves ih =>
      rw [List.cons_append, calls, calls, ih, List.append_assoc]
      rfl

section Update

variable (c) (j : Nat) (f : Starter → Registry → Starter × Registry)

theorem registry_update : (c.update j f).registry =
    (c.starters[j]?.map fun s => (f s c.registry).2).getD c.registry := by
  unfold update
  split
  · rename_i s hs
    rw [hs]
    rfl
  · rename_i hs
    rw [hs]
    rfl

theorem next_update : (c.update j f).next = c.next := by
  unfold update
  split <;> rfl

theorem getElem?_update (i : Nat) : (c.update j f).starters[i]? =
    if j = i then c.starters[i]?.map fun s => (f s c.registry).1 else c.starters[i]? := by
  unfold update
  split
  · rename_i s hs
    simp only [TreeMap.getElem?_insert, Std.LawfulEqCmp.compare_eq_iff_eq]
    split
    · subst i
      rw [hs]
      rfl
    · rfl
  · rename_i hs
    split
    · subst i
      rw [hs]
      rfl
    · rfl

end Update

theorem registry_step (c : Convergence) (move : Move) :
    (c.step move).registry = c.registry.run (c.call? move).toList := by
  cases move with
  | join name seeds target => rfl
  | subscribe i =>
      rw [step, registry_update, call?]
      cases hs : c.starters[i]? with
      | none => rfl
      | some s =>
          simp only [Option.map_some, Option.getD_some, Option.bind_some]
          rcases s.subscribe_cases c.registry with ⟨ch, hch, -, he⟩ | ⟨he, hsame⟩
          · rw [he, if_pos hch]
            rfl
          · rw [he]
            split
            · rename_i hch
              have hstep : c.registry.step (.subscribe s.handle) = c.registry := by
                rw [Registry.step, hsame hch]
                rfl
              exact hstep.symm
            · rfl
  | sample i =>
      rw [step, registry_update, call?]
      cases hs : c.starters[i]? <;> rfl
  | deliver i =>
      rw [step, registry_update, call?]
      cases hs : c.starters[i]? with
      | none => rfl
      | some s =>
          simp only [Option.map_some, Option.getD_some, Option.bind_some]
          cases hch : s.channel with
          | none => rw [s.deliver_of_none _ hch]; rfl
          | some ch => rw [s.deliver_eq _ hch]; rfl
  | leave i | release i =>
      rw [step, registry_update, call?]
      cases hs : c.starters[i]? <;> rfl

theorem registry_run (c : Convergence) (moves : List Move) :
    (c.run moves).registry = c.registry.run (c.calls moves) := by
  induction moves generalizing c with
  | nil => rfl
  | cons move moves ih =>
      rw [calls, Registry.run_append, ← registry_step]
      exact ih _

theorem registry_subscribe (hs : c.starters[i]? = some s) (free : s.channel = none) :
    (c.step (.subscribe i)).registry = c.registry.step (.subscribe s.handle) := by
  rw [registry_step, call?, hs, Option.bind_some, if_pos free]
  rfl

theorem starter_subscribe (hs : c.starters[i]? = some s) (free : s.channel = none)
    (opened : (c.registry.subscribe s.handle).map Prod.fst = some ch) :
    (c.step (.subscribe i)).starters[i]? = some { s with channel := some ch } := by
  rw [step, getElem?_update, if_pos rfl, hs, Option.map_some]
  rcases s.subscribe_cases c.registry with ⟨ch', -, hch', he⟩ | ⟨-, hnone⟩
  · cases opened.symm.trans hch'
    rw [he]
  · rw [hnone free] at opened
    cases opened

theorem next_le_step (c : Convergence) (move : Move) : c.next ≤ (c.step move).next := by
  cases move with
  | join => exact Nat.le_succ _
  | _ => exact (next_update _ _ _).ge

theorem moved_step (hs : c.starters[i]? = some s) (hlt : i < c.next) (move : Move) :
    ∃ s', (c.step move).starters[i]? = some s' ∧ c.Moved i s move s' := by
  have hother : ∀ j f, j ≠ i → (c.update j f).starters[i]? = some s := by
    intro j f hne
    rw [getElem?_update, if_neg hne, hs]
  have hown : ∀ f, (c.update i f).starters[i]? = some (f s c.registry).1 := by
    intro f
    rw [getElem?_update, if_pos rfl, hs]
    rfl
  cases move with
  | join name seeds target =>
      have hne : c.next ≠ i := hlt.ne'
      refine ⟨s, ?_, .same fun _ _ h => by cases h⟩
      simp [step, TreeMap.getElem?_insert, hne, hs]
  | subscribe j =>
      by_cases hj : j = i
      · subst j
        refine ⟨_, hown _, ?_⟩
        rcases s.subscribe_cases c.registry with ⟨ch, hch, hsub, he⟩ | ⟨he, -⟩
        · exact he ▸ .subscribed hch hsub
        · exact he ▸ .same fun _ _ h => by cases h
      · exact ⟨s, hother j _ hj, .same fun _ _ h => by cases h⟩
  | sample j =>
      by_cases hj : j = i
      · subst j
        refine ⟨_, hown _, ?_⟩
        rcases s.sample_cases c.registry with ⟨ch, v, hch, hfirst, hv, he⟩ | he
        · exact he ▸ .sampled hch hfirst hv
        · exact he.symm ▸ .same fun _ _ h => by cases h
      · exact ⟨s, hother j _ hj, .same fun _ _ h => by cases h⟩
  | deliver j =>
      by_cases hj : j = i
      · subst j
        refine ⟨_, hown _, ?_⟩
        cases hch : s.channel with
        | none =>
            rw [s.deliver_of_none _ hch]
            exact .same fun ch h => by cases hch.symm.trans h
        | some ch =>
            rw [s.deliver_eq _ hch]
            exact .delivered hch
      · refine ⟨s, hother j _ hj, .same fun _ _ h => hj ?_⟩
        cases h
        rfl
  | leave j | release j =>
      refine ⟨s, ?_, .same fun _ _ h => by cases h⟩
      rw [step, getElem?_update, hs]
      split <;> rfl

/-- What holds of every state that can be reached. -/
structure Sound (c : Convergence) : Prop where
  coherent : c.registry.Coherent
  index_lt : ∀ (i : Nat) (s : Starter), c.starters[i]? = some s → i < c.next
  channel_lt : ∀ (i : Nat) (s : Starter) (ch : ChannelId), c.starters[i]? = some s →
    s.channel = some ch → ch < c.registry.next
  one_starter : ∀ (i j : Nat) (s s' : Starter) (ch : ChannelId), c.starters[i]? = some s →
    c.starters[j]? = some s' → s.channel = some ch → s'.channel = some ch → i = j
  closed : ∀ (i : Nat) (s : Starter), c.starters[i]? = some s → s.channel = none →
    s.sampled = none ∧ s.gate.released = false

theorem sound_empty : Sound {} := by
  constructor <;> simp [Registry.coherent_empty]

/-- A starter was there before a move, or it has just joined. -/
theorem Sound.starter_of_step (hc : c.Sound) (hs : (c.step move).starters[i]? = some s) :
    (∃ s₀, c.starters[i]? = some s₀ ∧ c.Moved i s₀ move s) ∨
      i < (c.step move).next ∧ s.channel = none ∧ s.sampled = none ∧ s.gate.released = false := by
  cases hs₀ : c.starters[i]? with
  | some s₀ =>
      obtain ⟨s', hs', hm⟩ := moved_step hs₀ (hc.index_lt i s₀ hs₀) move
      cases hs.symm.trans hs'
      exact .inl ⟨s₀, rfl, hm⟩
  | none =>
      cases move with
      | join name seeds target =>
          simp only [step, TreeMap.getElem?_insert, Std.LawfulEqCmp.compare_eq_iff_eq, hs₀] at hs
          split at hs
          · subst i
            cases hs
            exact .inr ⟨Nat.lt_succ_self _, rfl, rfl, rfl⟩
          · cases hs
      | subscribe j | sample j | deliver j | leave j | release j =>
          rw [step, getElem?_update, hs₀] at hs
          split at hs <;> cases hs

/-- A starter's channel was there before a move, or the move opened it. -/
theorem Sound.channel_before (hc : c.Sound) (hs : (c.step move).starters[i]? = some s)
    (hch : s.channel = some ch) :
    (∃ s₀, c.starters[i]? = some s₀ ∧ s₀.channel = some ch) ∨
      ∃ s₀, move = .subscribe i ∧ c.starters[i]? = some s₀ ∧ s₀.channel = none ∧
        (c.registry.subscribe s₀.handle).map Prod.fst = some ch := by
  rcases hc.starter_of_step hs with ⟨s₀, hs₀, hm⟩ | ⟨-, hnone, -⟩
  · cases hm with
    | same => exact .inl ⟨s, hs₀, hch⟩
    | subscribed free opened =>
        cases hch
        exact .inr ⟨s₀, rfl, hs₀, free, opened⟩
    | sampled | delivered => exact .inl ⟨s₀, hs₀, hch⟩
  · cases hnone.symm.trans hch

theorem Sound.step (hc : c.Sound) (move : Move) : (c.step move).Sound := by
  have hnext : c.registry.next ≤ (c.step move).registry.next := by
    rw [registry_step]
    exact hc.coherent.next_le_run _
  have hnew : ∀ {i : Nat} {s₀ : Starter} {ch : ChannelId}, c.starters[i]? = some s₀ →
      s₀.channel = none → (c.registry.subscribe s₀.handle).map Prod.fst = some ch →
      ch = c.registry.next ∧ ch < (c.step (.subscribe i)).registry.next := by
    intro i s₀ ch hs₀ free opened
    obtain ⟨-, -, hch, hlt⟩ := Registry.opened_of_subscribe opened
    rw [registry_subscribe hs₀ free]
    exact ⟨hch, hlt⟩
  refine ⟨?coherent, ?index_lt, ?channel_lt, ?one_starter, ?closed⟩
  case coherent =>
    rw [registry_step]
    exact hc.coherent.run _
  case index_lt =>
    intro i s hs
    rcases hc.starter_of_step hs with ⟨s₀, hs₀, -⟩ | ⟨hlt, -⟩
    · exact (hc.index_lt i s₀ hs₀).trans_le (next_le_step c move)
    · exact hlt
  case channel_lt =>
    intro i s ch hs hch
    rcases hc.channel_before hs hch with ⟨s₀, hs₀, hch₀⟩ | ⟨s₀, rfl, hs₀, free, opened⟩
    · exact (hc.channel_lt i s₀ ch hs₀ hch₀).trans_le hnext
    · exact (hnew hs₀ free opened).2
  case one_starter =>
    intro i j s s' ch hs hs' hch hch'
    rcases hc.channel_before hs hch with ⟨s₀, hs₀, hch₀⟩ | ⟨s₀, hi, hs₀, free, opened⟩
    · rcases hc.channel_before hs' hch' with ⟨s₁, hs₁, hch₁⟩ | ⟨s₁, -, hs₁, free, opened⟩
      · exact hc.one_starter i j s₀ s₁ ch hs₀ hs₁ hch₀ hch₁
      · exact absurd (hnew hs₁ free opened).1 (hc.channel_lt i s₀ ch hs₀ hch₀).ne
    · rcases hc.channel_before hs' hch' with ⟨s₁, hs₁, hch₁⟩ | ⟨s₁, hj, -⟩
      · exact absurd (hnew hs₀ free opened).1 (hc.channel_lt j s₁ ch hs₁ hch₁).ne
      · cases hi.symm.trans hj
        rfl
  case closed =>
    intro i s hs hch
    rcases hc.starter_of_step hs with ⟨s₀, hs₀, hm⟩ | ⟨-, -, hsampled, hreleased⟩
    · cases hm with
      | same => exact hc.closed i s hs₀ hch
      | subscribed => cases hch
      | sampled subscribed | delivered subscribed => cases subscribed.symm.trans hch
    · exact ⟨hsampled, hreleased⟩

theorem Sound.run (hc : c.Sound) (moves : List Move) : (c.run moves).Sound := by
  induction moves generalizing c with
  | nil => exact hc
  | cons move moves ih => exact ih (hc.step move)

theorem sound_run (moves : List Move) : (({} : Convergence).run moves).Sound :=
  sound_empty.run moves

theorem close_not_mem_calls (c : Convergence) (moves : List Move) (ch : ChannelId) :
    .close ch ∉ c.calls moves := by
  induction moves generalizing c with
  | nil => exact List.not_mem_nil
  | cons move moves ih =>
      rw [calls, List.mem_append, not_or]
      refine ⟨?_, ih _⟩
      rw [Option.mem_toList]
      intro hcall
      cases move with
      | join => cases hcall
      | sample => cases hcall
      | subscribe i =>
          obtain ⟨s, -, he⟩ := Option.bind_eq_some_iff.1 hcall
          split at he <;> cases he
      | deliver i =>
          obtain ⟨s, -, he⟩ := Option.bind_eq_some_iff.1 hcall
          obtain ⟨ch', -, he⟩ := Option.map_eq_some_iff.1 he
          cases he
      | leave i | release i =>
          obtain ⟨s, -, he⟩ := Option.map_eq_some_iff.1 hcall
          cases he

theorem Moved.released {s' : Starter} (hm : c.Moved i s move s') (h : s.gate.released = true) :
    s'.gate.released = true := by
  cases hm with
  | same => exact h
  | subscribed => exact h
  | @sampled _ v => exact (s.gate.released_sampled_iff v).2 (.inl h)
  | delivered => exact (Gate.released_observeAll_iff _ _).2 (.inl h)

theorem Sound.released_run (hc : c.Sound) (hs : c.starters[i]? = some s)
    (h : s.gate.released = true) (moves : List Move) :
    ∃ s', (c.run moves).starters[i]? = some s' ∧ s'.gate.released = true := by
  induction moves generalizing c s with
  | nil => exact ⟨s, hs, h⟩
  | cons move moves ih =>
      obtain ⟨s', hs', hm⟩ := moved_step hs (hc.index_lt i s hs) move
      exact ih (hc.step move) hs' (hm.released h)

end Convergence

end CacheBench
