import CacheBench.Proofs.QueryTasks

/-!
# What a program can do

`Program.Runs` relates a program to the exchanges that it can make, whatever is behind them, and to
what it ends with. What a program does in an environment is one of its runs. For work there is one
lemma for each way in which pieces are put together, and with them the runs of a unit of work are
read off its text.
-/

namespace CacheBench

open Std (TreeMap)

/-- The draws of the environment lie in the intervals that they are asked from. -/
def Environment.Admits {σ : Type} (env : Environment σ) : Prop :=
  ∀ (d : Draw) (s : σ), d.Admits (env.draw d s).1

theorem Service.admits_withGenerator {σ : Type} (service : Service σ) :
    service.withGenerator.Admits := fun d s => s.2.admits_draw d

namespace Exchange

variable {ε : Type}

def Succeeds (x : Exchange ε) : Prop := ∃ a, x.response = .ok a

def FailsWith (x : Exchange ε) (e : ε) : Prop := x.response = .error e

theorem FailsWith.not_succeeds {x : Exchange ε} {e : ε} (h : x.FailsWith e) : ¬ x.Succeeds := by
  rintro ⟨a, ha⟩
  cases h.symm.trans ha

end Exchange

instance (r : Request) : Inhabited r.Answer := by
  cases r <;> infer_instance

namespace Program

variable {α β σ : Type} {xs : List (Exchange (Fault CacheError))}

/-- The program can make these exchanges, whatever answers it, and then end with `a`. -/
def Runs : Program α → List (Exchange (Fault CacheError)) → α → Prop
  | .done b, xs, a => xs = [] ∧ a = b
  | .ask r next, xs, a => ∃ x ys, xs = ⟨r, x⟩ :: ys ∧ (next x).Runs ys a
  | .draw d next, xs, a => ∃ x, d.Admits x ∧ (next x).Runs xs a

theorem runs_bind_iff {p : Program α} {f : α → Program β} {b : β} :
    (p.bind f).Runs xs b ↔ ∃ ys zs a, xs = ys ++ zs ∧ p.Runs ys a ∧ (f a).Runs zs b := by
  induction p generalizing xs with
  | done a =>
      constructor
      · exact fun h => ⟨[], xs, a, rfl, ⟨rfl, rfl⟩, h⟩
      · rintro ⟨ys, zs, a, rfl, ⟨rfl, rfl⟩, h⟩
        exact h
  | ask r next ih =>
      constructor
      · rintro ⟨x, us, rfl, h⟩
        obtain ⟨ys, zs, a, rfl, hy, hz⟩ := (ih x).1 h
        exact ⟨⟨r, x⟩ :: ys, zs, a, rfl, ⟨x, ys, rfl, hy⟩, hz⟩
      · rintro ⟨_, zs, a, rfl, ⟨x, ys, rfl, hy⟩, hz⟩
        exact ⟨x, ys ++ zs, rfl, (ih x).2 ⟨ys, zs, a, rfl, hy, hz⟩⟩
  | draw d next ih =>
      constructor
      · rintro ⟨x, hx, h⟩
        obtain ⟨ys, zs, a, rfl, hy, hz⟩ := (ih x).1 h
        exact ⟨ys, zs, a, rfl, ⟨x, hx, hy⟩, hz⟩
      · rintro ⟨ys, zs, a, rfl, ⟨x, hx, hy⟩, hz⟩
        exact ⟨x, hx, (ih x).2 ⟨ys, zs, a, rfl, hy, hz⟩⟩

theorem runs_trace {env : Environment σ} (henv : env.Admits) (p : Program α) (s : σ) :
    p.Runs (p.trace env s) (p.run env s).1 := by
  induction p generalizing s with
  | done a => exact ⟨rfl, rfl⟩
  | ask r next ih => exact ⟨_, _, rfl, ih _ _⟩
  | draw d next ih => exact ⟨_, henv d s, ih _ _⟩

/-- Every exchange of a trace was answered by the environment. -/
theorem response_of_mem_trace {env : Environment σ} {p : Program α} {s : σ}
    {x : Exchange (Fault CacheError)} (hx : x ∈ p.trace env s) :
    ∃ s', x.response = (env.answer x.request s').1 := by
  induction p generalizing s with
  | done a => cases hx
  | ask r next ih =>
      rcases List.mem_cons.1 hx with rfl | hx
      · exact ⟨s, rfl⟩
      · exact ih _ hx
  | draw d next ih => exact ih _ hx

/-- Any program can be brought to its end, and without failed exchanges. -/
theorem exists_runs (p : Program α) :
    ∃ xs a, p.Runs xs a ∧ ∀ x ∈ xs, x.Succeeds := by
  induction p with
  | done a => exact ⟨[], a, ⟨rfl, rfl⟩, List.forall_mem_nil _⟩
  | ask r next ih =>
      obtain ⟨xs, a, h, hxs⟩ := ih (.ok default)
      refine ⟨⟨r, .ok default⟩ :: xs, a, ⟨_, _, rfl, h⟩, ?_⟩
      simpa [Exchange.Succeeds] using hxs
  | draw d next ih =>
      have hd : ∃ x, d.Admits x := by
        cases d with
        | unit => exact ⟨.zero, trivial⟩
        | coin => exact ⟨true, trivial⟩
        | between low high => exact ⟨low, fun h => ⟨UInt64.le_refl low, h⟩⟩
      obtain ⟨x, hx⟩ := hd
      obtain ⟨xs, a, h, hxs⟩ := ih x
      exact ⟨xs, a, ⟨x, hx, h⟩, hxs⟩

end Program

/-! ## Pieces of work -/

namespace Work

variable {α β : Type} {xs : List (Exchange (Fault CacheError))}

/-- The runs of a piece of work, which end with its value or a fault. -/
abbrev Runs (w : Work α) : List (Exchange (Fault CacheError)) → Except (Fault WorkError) α → Prop :=
  w.run.Runs

theorem runs_bind_iff {w : Work α} {f : α → Work β} {x : Except (Fault WorkError) β} :
    Runs (w >>= f) xs x ↔ (∃ e, w.Runs xs (.error e) ∧ x = .error e) ∨
      ∃ ys zs a, xs = ys ++ zs ∧ w.Runs ys (.ok a) ∧ (f a).Runs zs x := by
  refine (Program.runs_bind_iff (p := w.run) (f := ExceptT.bindCont f)).trans ?_
  constructor
  · rintro ⟨ys, zs, e | a, rfl, hw, hf⟩
    · obtain ⟨rfl, rfl⟩ := hf
      rw [List.append_nil]
      exact .inl ⟨e, hw, rfl⟩
    · exact .inr ⟨ys, zs, a, rfl, hw, hf⟩
  · rintro (⟨e, hw, rfl⟩ | ⟨ys, zs, a, rfl, hw, hf⟩)
    · exact ⟨xs, [], .error e, (List.append_nil xs).symm, hw, rfl, rfl⟩
    · exact ⟨ys, zs, .ok a, rfl, hw, hf⟩

theorem runs_bind_pure_iff {w : Work α} {f : α → β} {x : Except (Fault WorkError) β} :
    Runs (do let a ← w; return f a) xs x ↔ ∃ y, w.Runs xs y ∧ x = y.map f := by
  rw [runs_bind_iff]
  constructor
  · rintro (⟨e, h, rfl⟩ | ⟨ys, _, a, rfl, h, rfl, rfl⟩)
    · exact ⟨.error e, h, rfl⟩
    · exact ⟨.ok a, by rwa [List.append_nil], rfl⟩
  · rintro ⟨e | a, h, rfl⟩
    · exact .inl ⟨e, h, rfl⟩
    · exact .inr ⟨xs, [], a, (List.append_nil xs).symm, h, rfl, rfl⟩

theorem runs_ask_iff {r : Request} {x : Except (Fault WorkError) r.Answer} :
    (ask r).Runs xs x ↔ ∃ y, xs = [⟨r, y⟩] ∧ x = y.mapError (Fault.map .cache) := by
  constructor
  · rintro ⟨y, _, rfl, rfl, rfl⟩
    exact ⟨y, rfl, rfl⟩
  · rintro ⟨y, rfl, rfl⟩
    exact ⟨y, [], rfl, rfl, rfl⟩

/-- A request that fails ends the work, and the rest goes on with its answer. -/
theorem runs_ask_bind_iff {r : Request} {f : r.Answer → Work β} {x : Except (Fault WorkError) β} :
    Runs (ask r >>= f) xs x ↔ (∃ e, xs = [⟨r, .error e⟩] ∧ x = .error (e.map .cache)) ∨
      ∃ a ys, xs = ⟨r, .ok a⟩ :: ys ∧ (f a).Runs ys x := by
  rw [runs_bind_iff]
  simp only [runs_ask_iff]
  constructor
  · rintro (⟨_, ⟨e | _, rfl, h⟩, rfl⟩ | ⟨_, zs, a, rfl, ⟨_ | _, rfl, h⟩, hf⟩)
    · cases h
      exact .inl ⟨e, rfl, rfl⟩
    · cases h
    · cases h
    · cases h
      exact .inr ⟨a, zs, rfl, hf⟩
  · rintro (⟨e, rfl, rfl⟩ | ⟨a, ys, rfl, hf⟩)
    · exact .inl ⟨_, ⟨.error e, rfl, rfl⟩, rfl⟩
    · exact .inr ⟨[⟨r, .ok a⟩], ys, a, rfl, ⟨.ok a, rfl, rfl⟩, hf⟩

theorem runs_between_bind_iff {low high : UInt64} (hlt : low < high) {f : UInt64 → Work β}
    {x : Except (Fault WorkError) β} :
    Runs (between low high >>= f) xs x ↔ ∃ n, low ≤ n ∧ n < high ∧ (f n).Runs xs x := by
  rw [between, if_pos hlt]
  constructor
  · rintro ⟨n, hn, h⟩
    exact ⟨n, (hn hlt).1, (hn hlt).2, h⟩
  · rintro ⟨n, hlow, hhigh, h⟩
    exact ⟨n, fun _ => ⟨hlow, hhigh⟩, h⟩

theorem runs_attempt_bind_iff {w : Work α} {f : Except (Fault WorkError) α → Work β}
    {x : Except (Fault WorkError) β} :
    Runs (attempt w >>= f) xs x ↔ ∃ ys zs y, xs = ys ++ zs ∧ w.Runs ys y ∧ (f y).Runs zs x := by
  rw [runs_bind_iff]
  have hattempt : ∀ {ys : List (Exchange (Fault CacheError))}
      {y : Except (Fault WorkError) (Except (Fault WorkError) α)},
      (attempt w).Runs ys y ↔ ∃ a, w.Runs ys a ∧ y = .ok a := by
    intro ys y
    refine (Program.runs_bind_iff (p := w.run)).trans ?_
    constructor
    · rintro ⟨us, _, a, rfl, h, rfl, rfl⟩
      exact ⟨a, by rwa [List.append_nil], rfl⟩
    · rintro ⟨a, h, rfl⟩
      exact ⟨ys, [], a, (List.append_nil ys).symm, h, rfl, rfl⟩
  simp only [hattempt]
  constructor
  · rintro (⟨e, ⟨_, -, h⟩, -⟩ | ⟨ys, zs, y, rfl, ⟨_, hw, h⟩, hf⟩)
    · cases h
    · cases h
      exact ⟨ys, zs, y, rfl, hw, hf⟩
  · rintro ⟨ys, zs, y, rfl, hw, hf⟩
    exact .inr ⟨ys, zs, y, rfl, ⟨y, hw, rfl⟩, hf⟩

theorem halves_of_two_le {range : UInt64} (h : 2 ≤ range.toNat) :
    0 < range / 2 ∧ range / 2 < range := by
  simp only [UInt64.lt_iff_toNat_lt, UInt64.toNat_div, UInt64.reduceToNat]
  omega

def KeysBelow (range : Key) (b : Batch) : Prop :=
  ∀ k v, b[k]? = some v → k < range ∧ v = .int k.toInt64

theorem KeysBelow.insert {range k : Key} {b : Batch} (h : KeysBelow range b) (hk : k < range) :
    KeysBelow range (b.insert k (.int k.toInt64)) := by
  intro j v hj
  rw [TreeMap.getElem?_insert] at hj
  split at hj
  · rename_i heq
    cases Std.LawfulEqOrd.eq_of_compare heq
    exact ⟨hk, (Option.some.inj hj).symm⟩
  · exact h j v hj

/-- Keys are drawn until there are enough; what else can happen is that the draws run out. -/
theorem runs_drawKeys {count : Nat} {range : UInt64} (hrange : 0 < range) {fuel : Nat} {b : Batch}
    {x : Except (Fault WorkError) Batch} (hb : KeysBelow range b) (hsize : b.size ≤ count)
    (h : (drawKeys count range fuel b).Runs xs x) :
    xs = [] ∧ (x = .error (.panic none) ∨ ∃ b, x = .ok b ∧ b.size = count ∧ KeysBelow range b) := by
  induction fuel generalizing b with
  | zero =>
      rw [drawKeys] at h
      split at h
      · exact ⟨h.1, .inl h.2⟩
      · exact ⟨h.1, .inr ⟨b, h.2, by omega, hb⟩⟩
  | succ fuel ih =>
      rw [drawKeys] at h
      split at h
      · obtain ⟨k, -, hk, h⟩ := (runs_between_bind_iff hrange).1 h
        have hle : (b.insert k (.int k.toInt64)).size ≤ b.size + 1 := TreeMap.size_insert_le
        exact ih (hb.insert hk) (by omega) h
      · exact ⟨h.1, .inr ⟨b, h.2, by omega, hb⟩⟩

theorem runs_distinctKeys {count : Nat} {range : UInt64} (hrange : 0 < range)
    {x : Except (Fault WorkError) Batch} (h : (distinctKeys count range).Runs xs x) :
    xs = [] ∧ (x = .error (.panic none) ∨ ∃ b, x = .ok b ∧ b.size = count ∧ KeysBelow range b) := by
  refine runs_drawKeys (b := ∅) hrange (fun k v hk => ?_) (Nat.zero_le count) h
  rw [TreeMap.getElem?_emptyc] at hk
  cases hk

end Work

end CacheBench
