import CacheBench.Proofs.QueryData
import CacheBench.Proofs.Runs

/-!
# How a unit of work ends its transaction

The transactional workloads begin one transaction each. `Transacted` lists what can have been asked
by the end: the body up to its first failed request, and then one commit or one rollback. What the
unit of work ends with is decided by the first request that fails, and not by the rollback.
-/

namespace CacheBench

/-! ## Requests of a transaction -/

namespace Request

def begins : Request → Bool
  | .begin => true
  | _ => false

def StepsIn (t : TxId) : Request → Prop
  | .txGet t' _ | .txPut t' _ _ => t' = t
  | _ => False

def Finishes (t : TxId) : Request → Prop
  | .commit t' | .rollback t' => t' = t
  | _ => False

theorem StepsIn.not_begins {t : TxId} {r : Request} (h : r.StepsIn t) : r.begins = false := by
  cases r with
  | txGet | txPut => rfl
  | get | put | putAll | query | size | begin | commit | rollback | drop => exact h.elim

theorem StepsIn.unique {t t' : TxId} {r : Request} (h : r.StepsIn t) (h' : r.StepsIn t') :
    t = t' := by
  cases r with
  | txGet | txPut => exact h.symm.trans h'
  | get | put | putAll | query | size | begin | commit | rollback | drop => exact h.elim

theorem StepsIn.not_finishes {t t' : TxId} {r : Request} (h : r.StepsIn t) : ¬ r.Finishes t' := by
  cases r with
  | txGet | txPut => exact id
  | get | put | putAll | query | size | begin | commit | rollback | drop => exact h.elim

theorem Finishes.not_begins {t : TxId} {r : Request} (h : r.Finishes t) : r.begins = false := by
  cases r with
  | commit | rollback => rfl
  | get | put | putAll | query | size | begin | txGet | txPut | drop => exact h.elim

end Request

/-- No request ended in a panic. -/
def Calm (xs : List (Exchange (Fault CacheError))) : Prop :=
  ∀ x ∈ xs, ∀ text, ¬ x.FailsWith (.panic text)

namespace Calm

variable {xs ys : List (Exchange (Fault CacheError))} {x : Exchange (Fault CacheError)}

theorem tail (h : Calm (x :: xs)) : Calm xs := fun y hy => h y (List.mem_cons_of_mem x hy)

theorem left (h : Calm (xs ++ ys)) : Calm xs := fun y hy => h y (List.mem_append_left ys hy)

theorem right (h : Calm (xs ++ ys)) : Calm ys := fun y hy => h y (List.mem_append_right xs hy)

theorem not_panic {r : Request} {text : Option String} (h : Calm (⟨r, .error (.panic text)⟩ :: xs)) :
    False := h _ (List.mem_cons_self) text rfl

end Calm

/-- The result of work in which this was the first request to fail, if any did. -/
def EndsWith {α : Type} (x : Except (Fault WorkError) α) : Option CacheError → Prop
  | none => ∃ a, x = .ok a
  | some e => x = .error (.error (.cache e))

/-! ## The body of a transaction -/

/-- Gets and puts in the transaction, up to the first that fails. -/
inductive Steps (t : TxId) : List (Exchange (Fault CacheError)) → Option CacheError → Prop
  | nil : Steps t [] none
  | cons {x xs f} (hx : x.request.StepsIn t) (hok : x.Succeeds) (h : Steps t xs f) :
    Steps t (x :: xs) f
  | failed {x e} (hx : x.request.StepsIn t) (hfail : x.FailsWith (.error e)) : Steps t [x] (some e)

/-- An open transaction in which no request has failed yet. -/
def Opened (t : TxId) (xs : List (Exchange (Fault CacheError))) : Prop :=
  ∃ ys, xs = ⟨.begin, .ok t⟩ :: ys ∧ ∀ y ∈ ys, y.request.StepsIn t ∧ y.Succeeds

namespace Opened

variable {t : TxId} {xs : List (Exchange (Fault CacheError))} {y : Exchange (Fault CacheError)}

theorem begin_mem (h : Opened t xs) : ⟨.begin, .ok t⟩ ∈ xs := by
  obtain ⟨ys, rfl, -⟩ := h
  exact List.mem_cons_self

theorem cases_mem (h : Opened t xs) (hy : y ∈ xs) :
    y = ⟨.begin, .ok t⟩ ∨ y.request.StepsIn t ∧ y.Succeeds := by
  obtain ⟨ys, rfl, hys⟩ := h
  exact (List.mem_cons.1 hy).imp id (hys y)

theorem succeeds (h : Opened t xs) (hy : y ∈ xs) : y.Succeeds := by
  rcases h.cases_mem hy with rfl | ⟨-, hok⟩
  · exact ⟨t, rfl⟩
  · exact hok

theorem not_finishes {t' : TxId} (h : Opened t xs) (hy : y ∈ xs) : ¬ y.request.Finishes t' := by
  rcases h.cases_mem hy with rfl | ⟨hstep, -⟩
  · exact id
  · exact hstep.not_finishes

theorem countP_begins (h : Opened t xs) : xs.countP (·.request.begins) = 1 := by
  obtain ⟨ys, rfl, hys⟩ := h
  have hzero : ys.countP (·.request.begins) = 0 := by
    refine List.countP_eq_zero.2 fun y hy => ?_
    simp [(hys y hy).1.not_begins]
  rw [List.countP_cons_of_pos rfl, hzero]

end Opened

namespace Steps

variable {t : TxId} {xs ys : List (Exchange (Fault CacheError))}

theorem opened (h : Steps t ys none) : Opened t (⟨.begin, .ok t⟩ :: ys) := by
  refine ⟨ys, rfl, ?_⟩
  generalize hf : (none : Option CacheError) = f at h
  induction h with
  | nil => exact List.forall_mem_nil _
  | cons hx hok _ ih => exact List.forall_mem_cons.2 ⟨⟨hx, hok⟩, ih hf⟩
  | failed => cases hf

theorem opened_failed {e : CacheError} (h : Steps t ys (some e)) :
    ∃ front x, ⟨.begin, .ok t⟩ :: ys = front ++ [x] ∧ Opened t front ∧ x.request.StepsIn t ∧
      x.FailsWith (.error e) := by
  generalize hf : some e = f at h
  induction h with
  | nil => cases hf
  | failed hx hfail =>
      cases hf
      exact ⟨[⟨.begin, .ok t⟩], _, rfl, ⟨[], rfl, List.forall_mem_nil _⟩, hx, hfail⟩
  | @cons x zs f hx hok _ ih =>
      obtain ⟨_, y, heq, ⟨us, rfl, hus⟩, hy⟩ := ih hf
      refine ⟨⟨.begin, .ok t⟩ :: x :: us, y, ?_, ⟨x :: us, rfl, ?_⟩, hy⟩
      · rw [(List.cons.inj heq).2]
        rfl
      · exact List.forall_mem_cons.2 ⟨⟨hx, hok⟩, hus⟩

end Steps

/-- The work makes gets and puts in the transaction and ends at the first that fails. -/
def StopsAtFailure {α : Type} (t : TxId) (w : Work α) : Prop :=
  ∀ xs x, w.Runs xs x → Calm xs → ∃ f, EndsWith x f ∧ Steps t xs f

namespace StopsAtFailure

variable {α : Type} {t : TxId}

theorem pure (a : α) : StopsAtFailure t (Pure.pure a) := by
  rintro xs x ⟨rfl, rfl⟩ -
  exact ⟨none, ⟨a, rfl⟩, .nil⟩

theorem ask {r : Request} (hr : r.StepsIn t) {f : r.Answer → Work α}
    (hf : ∀ a, StopsAtFailure t (f a)) : StopsAtFailure t (Work.ask r >>= f) := by
  intro xs x h hcalm
  rw [Work.runs_ask_bind_iff] at h
  rcases h with ⟨e, rfl, rfl⟩ | ⟨a, ys, rfl, h⟩
  · cases e with
    | error e => exact ⟨some e, rfl, .failed hr rfl⟩
    | panic text => exact hcalm.not_panic.elim
  · obtain ⟨g, hx, hys⟩ := hf a ys x h hcalm.tail
    exact ⟨g, hx, .cons hr ⟨a, rfl⟩ hys⟩

theorem between {low high : UInt64} (hlt : low < high) {f : UInt64 → Work α}
    (hf : ∀ n, StopsAtFailure t (f n)) : StopsAtFailure t (Work.between low high >>= f) := by
  intro xs x h
  obtain ⟨n, -, -, h⟩ := (Work.runs_between_bind_iff hlt).1 h
  exact hf n xs x h

theorem txPutAll (b : Batch) : StopsAtFailure t (Work.txPutAll t b) := by
  rw [Work.txPutAll]
  induction b.toList with
  | nil => exact pure ()
  | cons p pairs ih =>
      change StopsAtFailure t (Work.ask (.txPut t p.1 p.2) >>= fun _ => pairs.forM _)
      exact ask (r := .txPut t p.1 p.2) rfl fun _ => ih

end StopsAtFailure

/-! ## Whole transactions -/

/-- What a unit of transactional work has asked by its end, with the error that decides it. -/
inductive Transacted : List (Exchange (Fault CacheError)) → Option CacheError → Prop
  | unbegun (e : CacheError) : Transacted [⟨.begin, .error (.error e)⟩] (some e)
  | committed {t front} (h : Opened t front) : Transacted (front ++ [⟨.commit t, .ok ()⟩]) none
  | refused {t front} (h : Opened t front) (e : CacheError) :
    Transacted (front ++ [⟨.commit t, .error (.error e)⟩]) (some e)
  | rolledBack {t front x e} (h : Opened t front) (hx : x.request.StepsIn t)
    (hfail : x.FailsWith (.error e)) (y : Except (Fault CacheError) Unit) :
    Transacted (front ++ [x, ⟨.rollback t, y⟩]) (some e)

namespace Work

variable {α : Type} {xs : List (Exchange (Fault CacheError))} {t : TxId}

theorem runs_abandon {e : WorkError} {x : Except (Fault WorkError) α}
    (h : (abandon t e).Runs xs x) (hcalm : Calm xs) :
    ∃ y, xs = [⟨.rollback t, y⟩] ∧ x = .error (.error e) := by
  obtain ⟨_, zs, _, rfl, hw, h⟩ := runs_attempt_bind_iff.1 h
  obtain ⟨y, rfl, rfl⟩ := runs_ask_iff.1 hw
  rcases y with (e' | text) | ⟨⟩
  · obtain ⟨rfl, rfl⟩ := h
    exact ⟨_, rfl, rfl⟩
  · exact hcalm.not_panic.elim
  · obtain ⟨rfl, rfl⟩ := h
    exact ⟨_, rfl, rfl⟩

/-- A transaction with such a body ends in one commit or in one rollback. -/
theorem transacted_inTransaction {body : TxId → Work α} (hbody : ∀ t, StopsAtFailure t (body t))
    {x : Except (Fault WorkError) α} (h : (inTransaction body).Runs xs x) (hcalm : Calm xs) :
    ∃ f, EndsWith x f ∧ Transacted xs f := by
  rw [inTransaction, runs_ask_bind_iff] at h
  rcases h with ⟨e | text, rfl, rfl⟩ | ⟨t, us, rfl, h⟩
  · exact ⟨some e, rfl, .unbegun e⟩
  · exact hcalm.not_panic.elim
  rw [runs_attempt_bind_iff] at h
  obtain ⟨ys, zs, y, rfl, hys, h⟩ := h
  obtain ⟨f, hy, hsteps⟩ := hbody t ys y hys hcalm.tail.left
  cases f with
  | none =>
      obtain ⟨a, rfl⟩ := hy
      rw [← List.cons_append]
      rcases runs_ask_bind_iff.1 h with ⟨e | text, rfl, rfl⟩ | ⟨⟨⟩, _, rfl, rfl, rfl⟩
      · exact ⟨some e, rfl, .refused hsteps.opened e⟩
      · exact hcalm.tail.right.not_panic.elim
      · exact ⟨none, ⟨a, rfl⟩, .committed hsteps.opened⟩
  | some e =>
      cases hy
      obtain ⟨z, rfl, rfl⟩ := runs_abandon h hcalm.tail.right
      obtain ⟨front, u, heq, hfront, hu, hfail⟩ := hsteps.opened_failed
      rw [← List.cons_append, heq, List.append_assoc]
      exact ⟨some e, rfl, .rolledBack hfront hu hfail z⟩

theorem transacted_writeAbsent {range : UInt64} (hrange : 2 ≤ range.toNat)
    {x : Except (Fault WorkError) Key} (h : (writeAbsent range).Runs xs x) (hcalm : Calm xs) :
    ∃ f, EndsWith x f ∧ Transacted xs f := by
  obtain ⟨hlow, hhigh⟩ := halves_of_two_le hrange
  refine transacted_inTransaction (fun t => ?_) h hcalm
  have hput : ∀ k : Key, StopsAtFailure t (do ask (.txPut t k (.sample k)); return k) :=
    fun k => .ask (r := .txPut t k _) rfl fun _ => .pure k
  refine .between hlow fun k => .ask (r := .txGet t k) rfl fun seen => ?_
  split
  · exact .between hhigh hput
  · exact hput k

end Work

namespace Workload

variable {config : Config} {xs : List (Exchange (Fault CacheError))}
  {x : Except (Fault WorkError) Outcome}

def begun (xs : List (Exchange (Fault CacheError))) : Bool := xs.head?.any (·.response.isOk)

/-- What a unit of work makes of the error that decides it. -/
def carries (config : Config) (w : Workload) (begun : Bool) (e : CacheError) :
    Except (Fault WorkError) Outcome :=
  if w = .putTx ∧ config.failurePolicy = .log ∧ begun then .ok (.rolledBack e.message)
  else .error (.error (.cache e))

/-- What a unit of work gives in which this was the first request to fail, if any did. -/
def Gives (config : Config) (w : Workload) (xs : List (Exchange (Fault CacheError)))
    (x : Except (Fault WorkError) Outcome) : Option CacheError → Prop
  | none => x = .ok .completed
  | some e => x = w.carries config (begun xs) e

theorem gives_map {α : Type} {w : Workload} (hw : w ≠ .putTx) {y : Except (Fault WorkError) α}
    {f : Option CacheError} (h : EndsWith y f) : w.Gives config xs (y.map fun _ => .completed) f := by
  cases f with
  | none =>
      obtain ⟨a, rfl⟩ := h
      rfl
  | some e =>
      cases h
      exact (if_neg fun h => hw h.1).symm

theorem transacted_putInTransaction (hrange : 2 ≤ config.range.toNat)
    (h : (putInTransaction config).Runs xs x) (hcalm : Calm xs) :
    ∃ f, Transacted xs f ∧ putTx.Gives config xs x f := by
  have hpos : 0 < config.range := UInt64.lt_iff_toNat_lt.2 (Nat.zero_lt_of_lt hrange)
  rw [putInTransaction, Work.runs_between_bind_iff hpos] at h
  obtain ⟨k, -, -, h⟩ := h
  rw [Work.runs_ask_bind_iff] at h
  rcases h with ⟨e | text, rfl, rfl⟩ | ⟨t, us, rfl, h⟩
  · refine ⟨some e, .unbegun e, ?_⟩
    exact (if_neg fun h => Bool.noConfusion h.2.2).symm
  · exact hcalm.not_panic.elim
  rw [Work.runs_attempt_bind_iff] at h
  obtain ⟨ys, zs, y, rfl, hys, h⟩ := h
  have hinner : ∃ f, EndsWith y f ∧ Transacted (⟨.begin, .ok t⟩ :: ys) f := by
    replace hcalm := hcalm.tail.left
    rw [Work.runs_attempt_bind_iff] at hys
    obtain ⟨_, vs, _, rfl, hput, hys⟩ := hys
    obtain ⟨z, rfl, rfl⟩ := Work.runs_ask_iff.1 hput
    rcases z with (e | text) | ⟨⟩
    · obtain ⟨z, rfl, rfl⟩ := Work.runs_abandon hys hcalm.tail
      have hopened : Opened t [⟨.begin, .ok t⟩] := ⟨[], rfl, List.forall_mem_nil _⟩
      have hput : (Request.txPut t k (.sample k)).StepsIn t := rfl
      exact ⟨some e, rfl, .rolledBack (x := ⟨_, .error (.error e)⟩) hopened hput rfl z⟩
    · exact hcalm.not_panic.elim
    · obtain ⟨z, rfl, rfl⟩ := Work.runs_ask_iff.1 hys
      have hopened : Opened t [⟨.begin, .ok t⟩, ⟨.txPut t k (.sample k), .ok ()⟩] :=
        ⟨[_], rfl, by simpa using ⟨rfl, (), rfl⟩⟩
      rcases z with (e | text) | ⟨⟩
      · exact ⟨some e, rfl, .refused hopened e⟩
      · exact hcalm.tail.not_panic.elim
      · exact ⟨none, ⟨(), rfl⟩, .committed hopened⟩
  obtain ⟨f, hy, htransacted⟩ := hinner
  cases f with
  | none =>
      obtain ⟨_, rfl⟩ := hy
      obtain ⟨rfl, rfl⟩ := h
      rw [List.append_nil]
      exact ⟨none, htransacted, rfl⟩
  | some e =>
      cases hy
      cases hpolicy : config.failurePolicy with
      | propagate =>
          simp only [hpolicy] at h
          obtain ⟨rfl, rfl⟩ := h
          rw [List.append_nil]
          refine ⟨some e, htransacted, ?_⟩
          exact (if_neg fun h => by cases hpolicy.symm.trans h.2.1).symm
      | log =>
          simp only [hpolicy] at h
          obtain ⟨rfl, rfl⟩ := h
          rw [List.append_nil]
          exact ⟨some e, htransacted, (if_pos ⟨rfl, hpolicy, rfl⟩).symm⟩

/-- A unit of transactional work that ends has ended its transaction. -/
theorem transacted_test (hconfig : config.validate = .ok ()) {w : Workload}
    (hw : w.isTransactional) (h : (w.test config).Runs xs x) (hcalm : Calm xs)
    (hends : x ≠ .error (.panic none)) : ∃ f, Transacted xs f ∧ w.Gives config xs x f := by
  have hrange := (range_of_validate hconfig).1
  cases w with
  | bulkPut | rangeQuery | rangeQueryPut => cases hw
  | putTx => exact transacted_putInTransaction hrange h hcalm
  | putGetTx =>
      obtain ⟨y, hy, rfl⟩ := Work.runs_bind_pure_iff.1 h
      obtain ⟨f, hf, htransacted⟩ := Work.transacted_writeAbsent hrange hy hcalm
      exact ⟨f, htransacted, gives_map (w := .putGetTx) nofun hf⟩
  | bulkPutTx =>
      have hpos : 0 < config.range := UInt64.lt_iff_toNat_lt.2 (Nat.zero_lt_of_lt hrange)
      rw [test, Work.runs_bind_iff] at h
      rcases h with ⟨e, hb, rfl⟩ | ⟨ys, zs, b, rfl, hb, h⟩
      · obtain ⟨-, hb | ⟨_, hb, -⟩⟩ := Work.runs_distinctKeys hpos hb
        · cases hb
          exact (hends rfl).elim
        · cases hb
      · obtain ⟨rfl, -⟩ := Work.runs_distinctKeys hpos hb
        obtain ⟨y, hy, rfl⟩ := Work.runs_bind_pure_iff.1 h
        obtain ⟨f, hf, htransacted⟩ :=
          Work.transacted_inTransaction (fun t => .txPutAll (t := t) b) hy hcalm
        exact ⟨f, htransacted, gives_map (w := .bulkPutTx) nofun hf⟩

end Workload

/-! ## Every transaction is finished once -/

/-- The requests of a unit of work that begins at most one transaction and asks for nothing outside
of it. The transaction is committed, at last and once, if all its gets and puts succeeded. Otherwise
it is rolled back, once and right after the one that failed. -/
structure FinishedOnce (trace : List (Exchange (Fault CacheError))) : Prop where
  begins : trace.countP (·.request.begins) ≤ 1
  belongs : ∀ x ∈ trace, x.request = .begin ∨
    ∃ t, ⟨.begin, .ok t⟩ ∈ trace ∧ (x.request.StepsIn t ∨ x.request.Finishes t)
  commits_iff : ∀ t, ⟨.begin, .ok t⟩ ∈ trace →
    ((∃ x ∈ trace, x.request = .commit t) ↔ ∀ x ∈ trace, x.request.StepsIn t → x.Succeeds)
  commits_last : ∀ t before x after, trace = before ++ x :: after → x.request = .commit t →
    after = [] ∧ ∀ y ∈ before, ¬ y.request.Finishes t
  rolls_back : ∀ t before x after, trace = before ++ x :: after → x.request.StepsIn t →
    ¬ x.Succeeds → (∃ y, after = [⟨.rollback t, y⟩]) ∧ ∀ y ∈ before, ¬ y.request.Finishes t

/-- The first request to fail decides how the unit of work ends, unless it is the rollback. -/
structure DecidedByFirstFailure (config : Config) (w : Workload)
    (trace : List (Exchange (Fault CacheError))) (result : Except (Fault WorkError) Outcome) :
    Prop where
  completed_iff : result = .ok .completed ↔ ∃ t, ⟨.begin, .ok t⟩ ∈ trace ∧
    ⟨.commit t, .ok ()⟩ ∈ trace ∧ ∀ x ∈ trace, x.request.StepsIn t → x.Succeeds
  carries : result ≠ .ok .completed → ∃ before x after e, trace = before ++ x :: after ∧
    (∀ y ∈ before, y.Succeeds) ∧ (∀ t, x.request ≠ .rollback t) ∧ x.FailsWith (.error e) ∧
      result = w.carries config (!x.request.begins) e

theorem split_concat {α : Type} {front before after : List α} {last a : α}
    (h : front ++ [last] = before ++ a :: after) :
    before = front ∧ a = last ∧ after = [] ∨
      ∃ mid, front = before ++ a :: mid ∧ after = mid ++ [last] := by
  rcases List.eq_nil_or_concat after with rfl | ⟨mid, b, rfl⟩
  · obtain ⟨hfront, hlast⟩ := List.append_inj' h rfl
    exact .inl ⟨hfront.symm, (List.singleton_inj.1 hlast).symm, rfl⟩
  · rw [List.concat_eq_append, ← List.cons_append, ← List.append_assoc] at h
    obtain ⟨hfront, hlast⟩ := List.append_inj' h rfl
    exact .inr ⟨mid, hfront, by rw [List.concat_eq_append, List.singleton_inj.1 hlast]⟩

namespace Opened

variable {t t' : TxId} {front tail before after : List (Exchange (Fault CacheError))}
  {x : Exchange (Fault CacheError)}

section Requests

variable (h : Opened t front) (htail : ∀ x ∈ tail, x.request.StepsIn t ∨ x.request.Finishes t)
include h htail

theorem countP_begins_append : (front ++ tail).countP (·.request.begins) ≤ 1 := by
  have hzero : tail.countP (·.request.begins) = 0 := by
    refine List.countP_eq_zero.2 fun x hx => Bool.eq_false_iff.1 ?_
    rcases htail x hx with hx | hx
    · exact hx.not_begins
    · exact hx.not_begins
  rw [List.countP_append, h.countP_begins, hzero]

theorem belongs (hx : x ∈ front ++ tail) : x.request = .begin ∨
    ∃ t, ⟨.begin, .ok t⟩ ∈ front ++ tail ∧ (x.request.StepsIn t ∨ x.request.Finishes t) := by
  have hbegin : ⟨.begin, .ok t⟩ ∈ front ++ tail := List.mem_append_left _ h.begin_mem
  rcases List.mem_append.1 hx with hx | hx
  · rcases h.cases_mem hx with rfl | ⟨hstep, -⟩
    · exact .inl rfl
    · exact .inr ⟨t, hbegin, .inl hstep⟩
  · exact .inr ⟨t, hbegin, htail x hx⟩

theorem begun_unique (ht' : ⟨.begin, .ok t'⟩ ∈ front ++ tail) : t' = t := by
  rcases List.mem_append.1 ht' with ht' | ht'
  · rcases h.cases_mem ht' with heq | ⟨hstep, -⟩
    · cases heq
      rfl
    · exact hstep.elim
  · rcases htail _ ht' with hstep | hfinish
    · exact hstep.elim
    · exact hfinish.elim

end Requests

theorem not_commit_mem (h : Opened t front) (hx : x ∈ front) : x.request ≠ .commit t' := by
  intro heq
  have hfinishes : x.request.Finishes t' := by
    rw [heq]
    rfl
  exact h.not_finishes hx hfinishes

theorem not_commit_mem_rollback (h : Opened t front) (hx : x.request.StepsIn t)
    {y : Except (Fault CacheError) Unit} {z : Exchange (Fault CacheError)}
    (hz : z ∈ front ++ [x, ⟨.rollback t, y⟩]) : z.request ≠ .commit t' := by
  rcases List.mem_append.1 hz with hz | hz
  · exact h.not_commit_mem hz
  · rcases List.mem_cons.1 hz with rfl | hz
    · intro heq
      rw [heq] at hx
      exact hx
    · cases List.mem_singleton.1 hz
      exact nofun

/-- In a transaction that is committed no get or put failed. -/
theorem finishedOnce_commit (h : Opened t front) (y : Except (Fault CacheError) Unit) :
    FinishedOnce (front ++ [⟨.commit t, y⟩]) := by
  have htail : ∀ x ∈ [(⟨.commit t, y⟩ : Exchange (Fault CacheError))],
      x.request.StepsIn t ∨ x.request.Finishes t := by
    simp [Request.Finishes]
  refine ⟨h.countP_begins_append htail, fun x => h.belongs htail, ?_, ?_, ?_⟩
  · intro t' ht'
    cases h.begun_unique htail ht'
    refine iff_of_true ⟨_, List.mem_append_right _ List.mem_cons_self, rfl⟩ fun x hx hstep => ?_
    rcases List.mem_append.1 hx with hx | hx
    · exact h.succeeds hx
    · cases List.mem_singleton.1 hx
      exact hstep.elim
  · intro t' before x after heq hx
    rcases split_concat heq with ⟨rfl, -, rfl⟩ | ⟨mid, rfl, -⟩
    · exact ⟨rfl, fun y hy => h.not_finishes hy⟩
    · exact (h.not_commit_mem (List.mem_append_right _ List.mem_cons_self) hx).elim
  · intro t' before x after heq hx hfail
    rcases split_concat heq with ⟨-, rfl, -⟩ | ⟨mid, rfl, -⟩
    · exact hx.elim
    · exact (hfail (h.succeeds (List.mem_append_right _ List.mem_cons_self))).elim

/-- The rollback follows the get or put that failed. -/
theorem finishedOnce_rollback (h : Opened t front) (hx : x.request.StepsIn t) {e : CacheError}
    (hfail : x.FailsWith (.error e)) (y : Except (Fault CacheError) Unit) :
    FinishedOnce (front ++ [x, ⟨.rollback t, y⟩]) := by
  have htail : ∀ z ∈ [x, ⟨.rollback t, y⟩], z.request.StepsIn t ∨ z.request.Finishes t := by
    simp [hx, Request.Finishes]
  refine ⟨h.countP_begins_append htail, fun x => h.belongs htail, ?_, ?_, ?_⟩
  · intro t' ht'
    cases h.begun_unique htail ht'
    refine iff_of_false (fun ⟨z, hz, heq⟩ => h.not_commit_mem_rollback hx hz heq) fun hall => ?_
    exact hfail.not_succeeds (hall x (List.mem_append_right _ List.mem_cons_self) hx)
  · intro t' before z after heq hz
    have hmem : z ∈ front ++ [x, ⟨.rollback t, y⟩] := by
      rw [heq]
      exact List.mem_append_right _ List.mem_cons_self
    exact (h.not_commit_mem_rollback hx hmem hz).elim
  · intro t' before z after heq hz hzfail
    rw [List.append_cons] at heq
    rcases split_concat heq with ⟨-, rfl, -⟩ | ⟨mid, hmid, rfl⟩
    · exact hz.elim
    rcases split_concat hmid with ⟨rfl, rfl, rfl⟩ | ⟨_, rfl, -⟩
    · cases hz.unique hx
      exact ⟨⟨y, rfl⟩, fun z hz => h.not_finishes hz⟩
    · exact (hzfail (h.succeeds (List.mem_append_right _ List.mem_cons_self))).elim

end Opened

theorem Transacted.finishedOnce {trace : List (Exchange (Fault CacheError))} {f : Option CacheError}
    (h : Transacted trace f) : FinishedOnce trace := by
  cases h with
  | committed hfront => exact hfront.finishedOnce_commit _
  | refused hfront e => exact hfront.finishedOnce_commit _
  | rolledBack hfront hx hfail y => exact hfront.finishedOnce_rollback hx hfail y
  | unbegun e =>
      have hsplit : ∀ {before : List (Exchange (Fault CacheError))} {x} {after},
          [⟨.begin, .error (.error e)⟩] = before ++ x :: after → x = ⟨.begin, .error (.error e)⟩ := by
        intro before x after heq
        rcases split_concat ((List.nil_append _).trans heq) with ⟨-, hx, -⟩ | ⟨mid, hmid, -⟩
        · exact hx
        · cases before <;> cases hmid
      refine ⟨Nat.le_refl 1, fun x hx => .inl (by rw [List.mem_singleton.1 hx]), ?_, ?_, ?_⟩
      · intro t ht
        cases List.mem_singleton.1 ht
      · intro t before x after heq hx
        cases hsplit heq
        cases hx
      · intro t before x after heq hx
        cases hsplit heq
        exact hx.elim

namespace Workload

variable {config : Config} {w : Workload} {trace : List (Exchange (Fault CacheError))}
  {result : Except (Fault WorkError) Outcome}

theorem carries_ne_completed {begun : Bool} {e : CacheError} :
    w.carries config begun e ≠ .ok .completed := by
  rw [carries]
  split
  · exact nofun
  · exact nofun

theorem Gives.of_opened {t : TxId} {front tail : List (Exchange (Fault CacheError))} {e : CacheError}
    (h : w.Gives config (front ++ tail) result (some e)) (hfront : Opened t front) :
    result = w.carries config true e := by
  obtain ⟨ys, rfl, -⟩ := hfront
  exact h

theorem decidedByFirstFailure {f : Option CacheError} (h : Transacted trace f)
    (hgives : w.Gives config trace result f) : DecidedByFirstFailure config w trace result := by
  have honce := h.finishedOnce
  cases h with
  | @committed t front hfront =>
      have hcommit : ⟨.commit t, .ok ()⟩ ∈ front ++ [⟨.commit t, .ok ()⟩] := List.mem_concat_self
      have hbegin := List.mem_append_left [⟨.commit t, .ok ()⟩] hfront.begin_mem
      have hsteps := (honce.commits_iff t hbegin).1 ⟨_, hcommit, rfl⟩
      exact ⟨iff_of_true hgives ⟨t, hbegin, hcommit, hsteps⟩, fun hne => (hne hgives).elim⟩
  | unbegun e =>
      refine ⟨iff_of_false (hgives ▸ carries_ne_completed) ?_, fun _ => ?_⟩
      · rintro ⟨t, ht, -⟩
        cases List.mem_singleton.1 ht
      · exact ⟨[], _, [], e, rfl, List.forall_mem_nil _, nofun, rfl, hgives⟩
  | @refused t front hfront e =>
      replace hgives := hgives.of_opened hfront
      refine ⟨iff_of_false (hgives ▸ carries_ne_completed) ?_, fun _ => ?_⟩
      · rintro ⟨t', -, ht', -⟩
        rcases List.mem_append.1 ht' with ht' | ht'
        · exact hfront.not_commit_mem ht' rfl
        · cases List.mem_singleton.1 ht'
      · exact ⟨front, _, [], e, rfl, fun y => hfront.succeeds, nofun, rfl, hgives⟩
  | @rolledBack t front x e hfront hx hfail y =>
      replace hgives := hgives.of_opened hfront
      refine ⟨iff_of_false (hgives ▸ carries_ne_completed) ?_, fun _ => ?_⟩
      · rintro ⟨t', -, hcommit, -⟩
        exact hfront.not_commit_mem_rollback hx hcommit rfl
      · refine ⟨front, x, [⟨.rollback t, y⟩], e, rfl, fun y => hfront.succeeds, ?_, hfail, ?_⟩
        · intro t' heq
          rw [heq] at hx
          exact hx
        · rw [hx.not_begins]
          exact hgives

/-- Whatever answers the requests of a unit of transactional work, and whatever fails of them, its
transaction is finished once and the first failure decides. That it ends is asked because keys are
drawn for a batch until enough of them differ. -/
theorem finishedOnce_test {σ : Type} (hconfig : config.validate = .ok ()) (hw : w.isTransactional)
    (env : Environment σ) (hdraws : env.Admits)
    (hcalm : ∀ r s text, (env.answer r s).1 ≠ .error (.panic text)) (s : σ)
    (hends : ((w.test config).run.run env s).1 ≠ .error (.panic none)) :
    FinishedOnce ((w.test config).run.trace env s) ∧
      DecidedByFirstFailure config w ((w.test config).run.trace env s)
        ((w.test config).run.run env s).1 := by
  have hpanics : Calm ((w.test config).run.trace env s) := by
    intro x hx text hfail
    obtain ⟨s', hs'⟩ := Program.response_of_mem_trace hx
    exact hcalm x.request s' text (hs'.symm.trans hfail)
  obtain ⟨f, htransacted, hgives⟩ :=
    transacted_test hconfig hw (Program.runs_trace hdraws _ s) hpanics hends
  exact ⟨htransacted.finishedOnce, decidedByFirstFailure htransacted hgives⟩

/-- A cache in which nothing can be put and nothing rolled back. -/
def stubborn : Environment Unit where
  answer r _ :=
    match r with
    | .txPut _ _ _ => (.error (.error .finishedTransaction), ())
    | .rollback _ => (.error (.error (.transport .closed)), ())
    | _ => (.ok default, ())
  draw d _ :=
    match d with
    | .between low _ => (low, ())
    | .unit => (.zero, ())
    | .coin => (true, ())

theorem finishedOnce_test_stubborn :
    FinishedOnce ((putTx.test {}).run.trace stubborn ()) ∧
      DecidedByFirstFailure {} .putTx ((putTx.test {}).run.trace stubborn ())
        (.ok (.rolledBack "transaction is finished")) := by
  refine finishedOnce_test (by decide) rfl stubborn ?_ ?_ () ?_
  · intro d s
    cases d with
    | unit | coin => trivial
    | between low high => exact fun h => ⟨UInt64.le_refl low, h⟩
  · intro r s text
    cases r <;> exact nofun
  · exact nofun

end Workload

end CacheBench
