import CacheBench.Population
import CacheBench.Proofs.FanOutSteps

/-!
# The shares of a population

The keys of a worker are every so many below the range. They are the keys with one remainder, so
that the shares of all workers are all keys, each once. On a cache whose puts succeed or fail by
their keys a worker asks for the keys of its share up to the first that fails.
-/

namespace CacheBench

namespace Population

variable {σ : Type}

/-- The keys `w`, `w + workers`, `w + 2 * workers` and so on below `range`. -/
def share (range workers w : Nat) : List Nat := (List.range' w range workers).takeWhile (· < range)

section Share

variable {range workers w i : Nat}

theorem takeWhile_range' (hworkers : 0 < workers) {n m : Nat} (hn : range ≤ w + n)
    (hm : range ≤ w + m) :
    (List.range' w n workers).takeWhile (· < range) =
      (List.range' w m workers).takeWhile (· < range) := by
  induction n generalizing w m with
  | zero =>
      have hle : ¬ w < range := by omega
      cases m <;> simp [List.range'_succ, hle]
  | succ n ih =>
      by_cases hlt : w < range
      · obtain ⟨m, rfl⟩ : ∃ k, m = k + 1 := ⟨m - 1, by omega⟩
        rw [List.range'_succ, List.range'_succ, List.takeWhile_cons_of_pos (by simpa using hlt),
          List.takeWhile_cons_of_pos (by simpa using hlt), ih (m := m) (by omega) (by omega)]
      · cases m <;> simp [List.range'_succ, hlt]

theorem share_of_lt (hworkers : 0 < workers) (hw : w < range) :
    share range workers w = w :: share range workers (w + workers) := by
  obtain ⟨n, rfl⟩ : ∃ n, range = n + 1 := ⟨range - 1, by omega⟩
  rw [share, List.range'_succ, List.takeWhile_cons_of_pos (by simpa using hw), share,
    takeWhile_range' hworkers (m := n + 1) (by omega : n + 1 ≤ w + workers + n) (by omega)]

theorem share_of_le (hw : range ≤ w) : share range workers w = [] := by
  cases range with
  | zero => rfl
  | succ n => rw [share, List.range'_succ, List.takeWhile_cons_of_neg (by simpa using hw)]

theorem mem_share (hworkers : 0 < workers) :
    i ∈ share range workers w ↔ i < range ∧ ∃ j, i = w + j * workers := by
  induction h : range - w using Nat.strong_induction_on generalizing w with
  | _ left ih =>
      by_cases hw : w < range
      · rw [share_of_lt hworkers hw, List.mem_cons,
          ih (range - (w + workers)) (by omega) rfl]
        constructor
        · rintro (rfl | ⟨hi, j, rfl⟩)
          · exact ⟨hw, 0, by omega⟩
          · exact ⟨hi, j + 1, by rw [Nat.succ_mul]; omega⟩
        · rintro ⟨hi, j, rfl⟩
          cases j with
          | zero => exact .inl (by omega)
          | succ j => exact .inr ⟨hi, j, by rw [Nat.succ_mul]; omega⟩
      · rw [share_of_le (Nat.not_lt.1 hw)]
        refine iff_of_false List.not_mem_nil ?_
        rintro ⟨hi, j, rfl⟩
        omega

/-- The share of a worker are the keys that leave its number. -/
theorem mem_share_iff (hw : w < workers) :
    i ∈ share range workers w ↔ i < range ∧ i % workers = w := by
  rw [mem_share (Nat.zero_lt_of_lt hw)]
  refine and_congr_right fun _ => ?_
  constructor
  · rintro ⟨j, rfl⟩
    rw [Nat.add_mul_mod_self_right, Nat.mod_eq_of_lt hw]
  · intro h
    exact ⟨i / workers, by rw [← h, Nat.mul_comm]; exact (Nat.mod_add_div _ _).symm⟩

theorem nodup_share (hworkers : 0 < workers) : (share range workers w).Nodup :=
  (List.nodup_range' workers hworkers).sublist (List.takeWhile_sublist _)

end Share

/-! ## Attempts -/

section Attempts

variable (answers : Key → Except (Fault CacheError) Unit)

def put (i : Nat) : Request := .put (.ofNat i) (.record (.forIndex (.ofNat i)))

def attempt (i : Nat) : Exchange (Fault CacheError) :=
  ⟨.put (.ofNat i) (.record (.forIndex (.ofNat i))), answers (.ofNat i)⟩

/-- The indexes up to the first whose put fails, and that one. -/
def attempted : List Nat → List Nat
  | [] => []
  | i :: is =>
    match answers (.ofNat i) with
    | .ok () => i :: attempted is
    | .error _ => [i]

def firstFault? (is : List Nat) : Option (Fault CacheError) :=
  is.findSome? fun i =>
    match answers (.ofNat i) with
    | .ok () => none
    | .error e => some e

def endOf (is : List Nat) : Except (Fault WorkError) Unit :=
  match firstFault? answers is with
  | none => .ok ()
  | some e => .error (e.map .cache)

end Attempts

variable {env : Environment σ} {answers : Key → Except (Fault CacheError) Unit}

section Cons

variable {i : Nat} {is : List Nat} {e : Fault CacheError}

theorem attempted_of_ok (h : answers (.ofNat i) = .ok ()) :
    attempted answers (i :: is) = i :: attempted answers is := by
  rw [attempted, h]

theorem attempted_of_error (h : answers (.ofNat i) = .error e) :
    attempted answers (i :: is) = [i] := by
  rw [attempted, h]

theorem firstFault?_of_ok (h : answers (.ofNat i) = .ok ()) :
    firstFault? answers (i :: is) = firstFault? answers is := by
  rw [firstFault?, List.findSome?_cons, h, firstFault?]

theorem firstFault?_of_error (h : answers (.ofNat i) = .error e) :
    firstFault? answers (i :: is) = some e := by
  rw [firstFault?, List.findSome?_cons, h]

end Cons

/-- A worker asks for the puts of its share up to the first that fails, and ends with that. -/
theorem runsIn_populateFrom (hput : ∀ k v s, (env.answer (.put k v) s).1 = answers k)
    {range stride i : Nat} (hstride : 0 < stride) (hfit : range + stride ≤ 2 ^ 64)
    {xs : List (Exchange (Fault CacheError))} {a : Except (Fault WorkError) Unit}
    (h : (populateFrom range stride i).RunsIn env xs a) :
    xs = (attempted answers (share range stride i)).map (attempt answers) ∧
      a = endOf answers (share range stride i) := by
  induction hleft : range - i using Nat.strong_induction_on generalizing i xs with
  | _ left ih =>
      rw [populateFrom] at h
      split at h
      · rename_i hi
        obtain ⟨s, ys, rfl, hrest⟩ := h
        rw [hput] at hrest ⊢
        rw [share_of_lt hstride hi.2, endOf]
        cases hanswer : answers (.ofNat i) with
        | error e =>
            rw [hanswer] at hrest
            obtain ⟨rfl, rfl⟩ := hrest
            rw [attempted_of_error hanswer, firstFault?_of_error hanswer, ← hanswer]
            exact ⟨rfl, rfl⟩
        | ok u =>
            have hsmall : i + stride < 2 ^ 64 := by omega
            rw [hanswer] at hrest
            change Program.RunsIn env (ExceptT.run (if i + stride < 2 ^ 64 then _ else _)) ys a
              at hrest
            rw [if_pos hsmall] at hrest
            obtain ⟨rfl, hend⟩ := ih (range - (i + stride)) (by omega) hrest rfl
            rw [attempted_of_ok hanswer, firstFault?_of_ok hanswer, ← hanswer]
            exact ⟨rfl, hend⟩
      · rename_i hi
        obtain ⟨rfl, rfl⟩ := h
        rw [share_of_le (by omega)]
        exact ⟨rfl, rfl⟩

end Population

end CacheBench
