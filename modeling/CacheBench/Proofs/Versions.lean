import CacheBench.Proofs.Timeline

/-!
# Versions over time

`Cache.batches` are the batches that a run applies, in order. While they are fewer than the
versions there are, the counter does not wrap: each batch gets a version above all that are in the
entries, so the version of a key grows with each write of it and with nothing else.
-/

namespace CacheBench

namespace Cache

def batches (c : Cache) : List Request → List Batch
  | [] => []
  | r :: rs => (c.batch? r).toList ++ (c.step r).2.batches rs

variable (c : Cache) (rs : List Request)

theorem batches_append (rs' : List Request) :
    c.batches (rs ++ rs') = c.batches rs ++ (c.run rs).2.batches rs' := by
  induction rs generalizing c with
  | nil => rfl
  | cons r rs ih => simp only [List.cons_append, batches, run, ih, List.append_assoc]

theorem length_batches_take_le (n : Nat) :
    (c.batches (rs.take n)).length ≤ (c.batches rs).length := by
  conv_rhs => rw [← List.take_append_drop n rs, batches_append, List.length_append]
  exact Nat.le_add_right _ _

theorem nextVersion_run :
    (c.run rs).2.store.nextVersion =
      c.store.nextVersion + UInt64.ofNat (c.batches rs).length := by
  induction rs generalizing c with
  | nil => simp [run, batches]
  | cons r rs ih =>
      simp only [run, batches, ih, nextVersion_step]
      cases c.batch? r with
      | none => simp
      | some b =>
          simp only [Store.applied_some, Store.apply, Option.toList_some, List.singleton_append,
            List.length_cons, UInt64.ofNat_add]
          rw [UInt64.add_assoc, UInt64.add_comm 1]
          rfl

theorem batches_take_succ {n : Nat} {r : Request} (h : rs[n]? = some r) :
    c.batches (rs.take (n + 1)) =
      c.batches (rs.take n) ++ ((c.before rs n).batch? r).toList := by
  rw [List.take_add_one, h, batches_append]
  simp [batches, before]

theorem version_before_succ_of_writesAt {n : Nat} {k : Key} (hk : c.WritesAt rs n k) :
    (c.before rs (n + 1)).store.entries.version k = (c.before rs n).store.nextVersion := by
  obtain ⟨r, b, hr, hb, hkb⟩ := hk
  rw [before_succ c rs hr, entries_step, hb]
  exact Entries.version_putAll_of_mem _ _ _ b hkb

theorem version_before_succ_of_not_writesAt {n : Nat} {k : Key} (hk : ¬ c.WritesAt rs n k) :
    (c.before rs (n + 1)).store.entries.version k = (c.before rs n).store.entries.version k := by
  apply Entries.version_eq_of_latest_eq
  apply latest_before_of_not_written c rs (Nat.le_succ n)
  intro m hnm hmn
  obtain rfl : m = n := by omega
  exact hk

/-! ## Fewer batches than versions -/

section Bounded

variable {settings : Settings} {rs}
  (hw : ((ofSettings settings).batches rs).length < 2 ^ 64 - 1)

include hw

/-- The counter tells how many batches have been applied. -/
theorem toNat_nextVersion_before (n : Nat) :
    ((ofSettings settings).before rs n).store.nextVersion.toNat =
      1 + ((ofSettings settings).batches (rs.take n)).length := by
  have hle := length_batches_take_le (ofSettings settings) rs n
  rw [before, nextVersion_run]
  change ((1 : UInt64) + _).toNat = _
  rw [UInt64.toNat_add, UInt64.toNat_ofNat]
  change (1 + _ % 2 ^ 64) % 2 ^ 64 = _
  rw [Nat.mod_eq_of_lt (by omega), Nat.mod_eq_of_lt (by omega)]

theorem toNat_nextVersion_before_succ {n : Nat} {r : Request} (hr : rs[n]? = some r) :
    ((ofSettings settings).before rs (n + 1)).store.nextVersion.toNat =
      ((ofSettings settings).before rs n).store.nextVersion.toNat +
        (((ofSettings settings).before rs n).batch? r).toList.length := by
  rw [toNat_nextVersion_before hw, toNat_nextVersion_before hw, batches_take_succ _ rs hr,
    List.length_append, Nat.add_assoc]

/-- A batch gets a lower version than every later one. -/
theorem nextVersion_before_lt {i j : Nat} (hij : i < j) {r : Request} {b : Batch}
    (hr : rs[i]? = some r) (hb : ((ofSettings settings).before rs i).batch? r = some b) :
    ((ofSettings settings).before rs i).store.nextVersion <
      ((ofSettings settings).before rs j).store.nextVersion := by
  have hle := length_batches_take_le (ofSettings settings) (rs.take j) (i + 1)
  rw [List.take_take, Nat.min_eq_left hij, batches_take_succ _ rs hr, hb] at hle
  rw [UInt64.lt_iff_toNat_lt, toNat_nextVersion_before hw, toNat_nextVersion_before hw]
  simp only [Option.toList_some, List.length_append, List.length_singleton] at hle
  omega

/-- No entry has the version that the next batch will get. -/
theorem version_lt_nextVersion (n : Nat) (k : Key) :
    (((ofSettings settings).before rs n).store.entries.version k).toNat <
      ((ofSettings settings).before rs n).store.nextVersion.toNat := by
  induction n with
  | zero => simp [ofSettings, Entries.version]
  | succ n ih =>
      cases hr : rs[n]? with
      | none => rwa [before_succ_of_none _ rs hr]
      | some r =>
          rw [toNat_nextVersion_before_succ hw hr]
          by_cases hk : (ofSettings settings).WritesAt rs n k
          · rw [version_before_succ_of_writesAt _ rs hk]
            obtain ⟨r', b, hr', hb, -⟩ := hk
            obtain rfl : r = r' := Option.some.inj (hr.symm.trans hr')
            simp [hb]
          · rw [version_before_succ_of_not_writesAt _ rs hk]
            omega

theorem version_before_mono {i j : Nat} (hij : i ≤ j) (k : Key) :
    (((ofSettings settings).before rs i).store.entries.version k).toNat ≤
      (((ofSettings settings).before rs j).store.entries.version k).toNat := by
  induction j, hij using Nat.le_induction with
  | base => exact le_refl _
  | succ j _ ih =>
      by_cases hk : (ofSettings settings).WritesAt rs j k
      · rw [version_before_succ_of_writesAt _ rs hk]
        have := version_lt_nextVersion hw j k
        omega
      · rwa [version_before_succ_of_not_writesAt _ rs hk]

theorem version_before_lt {i n j : Nat} (hin : i ≤ n) (hnj : n < j) {k : Key}
    (hk : (ofSettings settings).WritesAt rs n k) :
    (((ofSettings settings).before rs i).store.entries.version k).toNat <
      (((ofSettings settings).before rs j).store.entries.version k).toNat := by
  have hbefore := version_before_mono hw hin k
  have hnext := version_lt_nextVersion hw n k
  have hafter := version_before_mono hw (Nat.succ_le_of_lt hnj) k
  rw [version_before_succ_of_writesAt _ rs hk] at hafter
  omega

/-- A key has one version at two instants exactly when it is not written in between. -/
theorem version_before_eq_iff {i j : Nat} (hij : i ≤ j) (k : Key) :
    ((ofSettings settings).before rs j).store.entries.version k =
        ((ofSettings settings).before rs i).store.entries.version k ↔
      ∀ n, i ≤ n → n < j → ¬ (ofSettings settings).WritesAt rs n k := by
  constructor
  · intro he n hin hnj hk
    have hlt := version_before_lt hw hin hnj hk
    rw [he] at hlt
    exact lt_irrefl _ hlt
  · intro hk
    exact Entries.version_eq_of_latest_eq (latest_before_of_not_written _ rs hij hk)

theorem latest_before_eq_iff {i j : Nat} (hij : i ≤ j) (k : Key) :
    ((ofSettings settings).before rs j).store.entries.latest[k]? =
        ((ofSettings settings).before rs i).store.entries.latest[k]? ↔
      ∀ n, i ≤ n → n < j → ¬ (ofSettings settings).WritesAt rs n k := by
  constructor
  · intro he
    exact (version_before_eq_iff hw hij k).1 (Entries.version_eq_of_latest_eq he)
  · exact latest_before_of_not_written _ rs hij

end Bounded

end Cache

end CacheBench
