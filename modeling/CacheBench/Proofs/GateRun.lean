import CacheBench.Gate
import Mathlib.Tactic.Common

/-!
# The calls on a gate

A gate is released by the first call that qualifies: an unconditional release, or an event that
tells of a change already made to enough members. That call is the only one to be answered yes.
-/

namespace CacheBench

namespace Gate

def Call.Qualifies (target : Nat) : Call → Prop
  | .observe e => e.phase = .post ∧ target ≤ e.members
  | .release => True

variable {g : Gate} {c : Call}

theorem step_of_not_qualifies (h : ¬ c.Qualifies g.target) : g.step c = (false, g) := by
  cases c with
  | release => exact absurd trivial h
  | observe e =>
      have hskip : e.phase = .pre ∨ e.members < g.target := by
        cases hp : e.phase with
        | pre => exact .inl rfl
        | post => exact .inr (Nat.lt_of_not_le fun hmembers => h ⟨hp, hmembers⟩)
      simp [step, observe, hskip]

theorem step_of_qualifies (h : c.Qualifies g.target) : g.step c = g.release := by
  cases c with
  | release => rfl
  | observe e =>
      obtain ⟨hphase, hmembers⟩ := h
      simp [step, observe, hphase, Nat.not_lt_of_le hmembers]

theorem target_step (g : Gate) (c : Call) : (g.step c).2.target = g.target := by
  by_cases h : c.Qualifies g.target
  · rw [step_of_qualifies h]
    rfl
  · rw [step_of_not_qualifies h]

theorem released_step_iff (g : Gate) (c : Call) :
    (g.step c).2.released = true ↔ g.released = true ∨ c.Qualifies g.target := by
  by_cases h : c.Qualifies g.target
  · rw [step_of_qualifies h]
    exact ⟨fun _ => .inr h, fun _ => rfl⟩
  · rw [step_of_not_qualifies h]
    exact (or_iff_left h).symm

theorem answer_step_iff (g : Gate) (c : Call) :
    (g.step c).1 = true ↔ g.released = false ∧ c.Qualifies g.target := by
  by_cases h : c.Qualifies g.target
  · rw [step_of_qualifies h]
    simp [release, h]
  · rw [step_of_not_qualifies h]
    simp [h]

theorem released_run_iff (g : Gate) (cs : List Call) :
    (g.run cs).2.released = true ↔ g.released = true ∨ ∃ c ∈ cs, c.Qualifies g.target := by
  induction cs generalizing g with
  | nil => simp [run]
  | cons c cs ih =>
      have hrun : (g.run (c :: cs)).2 = ((g.step c).2.run cs).2 := rfl
      rw [hrun, ih, released_step_iff, target_step, or_assoc]
      simp

theorem target_run (g : Gate) (cs : List Call) : (g.run cs).2.target = g.target := by
  induction cs generalizing g with
  | nil => rfl
  | cons c cs ih => exact (ih _).trans (target_step g c)

theorem target_observeAll (g : Gate) (es : List Event) : (g.observeAll es).target = g.target :=
  g.target_run _

theorem released_observeAll_iff (g : Gate) (es : List Event) :
    (g.observeAll es).released = true ↔
      g.released = true ∨ ∃ e ∈ es, e.phase = .post ∧ g.target ≤ e.members := by
  rw [observeAll, released_run_iff]
  simp [Call.Qualifies]

theorem released_sampled_iff (g : Gate) (v : Nat) :
    (if g.target ≤ v then g.release.2 else g).released = true ↔
      g.released = true ∨ g.target ≤ v := by
  split
  · rename_i hle
    exact ⟨fun _ => .inr hle, fun _ => rfl⟩
  · rename_i hlt
    exact (or_iff_left hlt).symm

theorem target_sampled (g : Gate) (v : Nat) :
    (if g.target ≤ v then g.release.2 else g).target = g.target := by
  split <;> rfl

/-- Of the calls on a closed gate, the first that qualifies is answered yes and no other is. -/
theorem answer_run_iff (g : Gate) (cs : List Call) (q : Nat) :
    (g.run cs).1[q]? = some true ↔ g.released = false ∧ ∃ c, cs[q]? = some c ∧
      c.Qualifies g.target ∧ ∀ p c', p < q → cs[p]? = some c' → ¬ c'.Qualifies g.target := by
  induction cs generalizing g q with
  | nil => simp [run]
  | cons c cs ih =>
      have hrun : (g.run (c :: cs)).1 = (g.step c).1 :: ((g.step c).2.run cs).1 := rfl
      rw [hrun]
      cases q with
      | zero => simp [answer_step_iff]
      | succ q =>
          have hclosed : (g.step c).2.released = false ↔
              g.released = false ∧ ¬ c.Qualifies g.target := by
            rw [← Bool.not_eq_true, released_step_iff, not_or, Bool.not_eq_true]
          rw [List.getElem?_cons_succ, ih, hclosed, target_step, and_assoc]
          refine and_congr_right fun _ => ?_
          constructor
          · rintro ⟨hc, c', hc', hq, hfirst⟩
            refine ⟨c', hc', hq, fun p c'' hp hc'' => ?_⟩
            cases p with
            | zero =>
                cases hc''
                exact hc
            | succ p => exact hfirst p c'' (Nat.lt_of_succ_lt_succ hp) hc''
          · rintro ⟨c', hc', hq, hfirst⟩
            refine ⟨hfirst 0 c (Nat.succ_pos q) rfl, c', hc', hq, fun p c'' hp hc'' => ?_⟩
            exact hfirst (p + 1) c'' (Nat.succ_lt_succ hp) hc''

end Gate

end CacheBench
