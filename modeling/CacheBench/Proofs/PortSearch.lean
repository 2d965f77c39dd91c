import CacheBench.Net.Port

/-!
# The search for a port

A negotiation asks for one port after the other, from its base on, until it is told something else
than that the port is in use. `Tried` has one case for each answer; what a negotiation asks and
returns follows from it by induction. In words of 64 bits the search never leaves them, although its
budget may be any of them.
-/

namespace CacheBench

variable {β σ : Type}

abbrev portAt (ip : Ip) (port : Nat) : SocketAddress := { ip, port := .ofNat port }

/-- Keeps the calls of `bind` with their answers beside its state. -/
def recorded (bind : SocketAddress → σ → Binding β × σ) (address : SocketAddress)
    (s : σ × List (SocketAddress × Binding β)) :
    Binding β × σ × List (SocketAddress × Binding β) :=
  let (answer, s') := bind address s.1
  (answer, s', s.2 ++ [(address, answer)])

/-! ## Trying ports -/

/-- What trying some ports asks, and what it returns for that. -/
inductive Tried (ip : Ip) (base : UInt16) : List Nat → List (SocketAddress × Binding β) →
    Except PortError (Option (Negotiated β)) → Prop
  | exhausted : Tried ip base [] [] (.ok none)
  | inUse {port : Nat} {ports : List Nat} {calls : List (SocketAddress × Binding β)}
    {result : Except PortError (Option (Negotiated β))} (h : Tried ip base ports calls result) :
    Tried ip base (port :: ports) ((portAt ip port, .inUse) :: calls) result
  | bound (port : Nat) (ports : List Nat) (b : β) :
    Tried ip base (port :: ports) [(portAt ip port, .bound b)]
      (.ok (some ⟨portAt ip port, b, port - base.toNat + 1⟩))
  | failed (port : Nat) (ports : List Nat) (text : String) :
    Tried ip base (port :: ports) [(portAt ip port, .failed text)]
      (.error (.refused (portAt ip port) text))

theorem tryPorts_recorded (ip : Ip) (base : UInt16) (bind : SocketAddress → σ → Binding β × σ)
    (ports : List Nat) (s : σ) (xs : List (SocketAddress × Binding β)) :
    ∃ calls, tryPorts ip base (recorded bind) ports (s, xs) =
        ((tryPorts ip base bind ports s).1, (tryPorts ip base bind ports s).2, xs ++ calls) ∧
      Tried ip base ports calls (tryPorts ip base bind ports s).1 := by
  induction ports generalizing s xs with
  | nil => exact ⟨[], by rw [List.append_nil]; rfl, .exhausted⟩
  | cons port ports ih =>
      simp only [tryPorts, recorded]
      cases hbind : bind (portAt ip port) s with
      | mk answer s' =>
          cases answer with
          | bound b => exact ⟨_, rfl, .bound port ports b⟩
          | failed text => exact ⟨_, rfl, .failed port ports text⟩
          | inUse =>
              obtain ⟨calls, hcalls, htried⟩ := ih s' (xs ++ [(portAt ip port, .inUse)])
              refine ⟨(portAt ip port, .inUse) :: calls, ?_, .inUse htried⟩
              exact hcalls.trans (by rw [List.append_assoc, List.singleton_append])

def conclusion (base : UInt16) : Option (SocketAddress × Binding β) →
    Except PortError (Option (Negotiated β))
  | some (a, .bound b) => .ok (some ⟨a, b, a.port.toNat - base.toNat + 1⟩)
  | some (a, .failed text) => .error (.refused a text)
  | some (_, .inUse) | none => .ok none

section Conclusion

variable {base : UInt16} {last : Option (SocketAddress × Binding β)}

theorem conclusion_eq_some_iff {n : Negotiated β} : conclusion base last = .ok (some n) ↔
    last = some (n.address, .bound n.bound) ∧
      n.attempts = n.address.port.toNat - base.toNat + 1 := by
  obtain ⟨address, bound, attempts⟩ := n
  rcases last with _ | ⟨a, b | _ | text⟩ <;> simp [conclusion, and_assoc]
  rintro rfl rfl
  exact eq_comm

theorem conclusion_eq_error_iff {e : PortError} : conclusion base last = .error e ↔
    ∃ a text, last = some (a, .failed text) ∧ e = .refused a text := by
  rcases last with _ | ⟨a, b | _ | text⟩
  case some.failed =>
    constructor
    · rintro ⟨⟩
      exact ⟨a, text, rfl, rfl⟩
    · rintro ⟨_, _, ⟨⟩, rfl⟩
      rfl
  all_goals simp [conclusion]

end Conclusion

namespace Tried

variable {ip : Ip} {base : UInt16} {ports : List Nat} {calls : List (SocketAddress × Binding β)}
  {result : Except PortError (Option (Negotiated β))}

theorem length_le (h : Tried ip base ports calls result) : calls.length ≤ ports.length := by
  induction h with
  | exhausted => exact Nat.le_refl 0
  | inUse _ ih => exact Nat.succ_le_succ ih
  | bound | failed => exact Nat.succ_le_succ (Nat.zero_le _)

theorem addresses (h : Tried ip base ports calls result) :
    calls.map Prod.fst = (ports.take calls.length).map (portAt ip) := by
  induction h with
  | exhausted => rfl
  | inUse _ ih => rw [List.map_cons, ih, List.length_cons, List.take_succ_cons, List.map_cons]
  | bound | failed => rfl

theorem dropLast_inUse (h : Tried ip base ports calls result) :
    ∀ call ∈ calls.dropLast, call.2 = .inUse := by
  induction h with
  | exhausted | bound | failed => exact List.forall_mem_nil _
  | @inUse port ports calls result h ih =>
      cases calls with
      | nil => exact List.forall_mem_nil _
      | cons call calls =>
          rw [List.dropLast_cons_cons, List.forall_mem_cons]
          exact ⟨rfl, ih⟩

theorem result_eq (h : Tried ip base ports calls result) (hlt : ∀ port ∈ ports, port < 2 ^ 16) :
    result = conclusion base calls.getLast? := by
  induction h with
  | exhausted | failed => rfl
  | bound port ports b =>
      have hport : (UInt16.ofNat port).toNat = port :=
        UInt16.toNat_ofNat_of_lt' (hlt port List.mem_cons_self)
      simp [conclusion, hport]
  | @inUse port ports calls result h ih =>
      rw [ih fun p hp => hlt p (List.mem_cons_of_mem port hp)]
      cases calls with
      | nil => rfl
      | cons call calls => rw [List.getLast?_cons_cons]

/-- The search fails only if all ports are in use. -/
theorem eq_none_iff (h : Tried ip base ports calls result) (hnodup : ports.Nodup)
    (hlt : ∀ port ∈ ports, port < 2 ^ 16) :
    result = .ok none ↔ ∀ port ∈ ports, (portAt ip port, .inUse) ∈ calls := by
  induction h with
  | exhausted => exact iff_of_true rfl (List.forall_mem_nil _)
  | bound | failed =>
      refine iff_of_false nofun fun hall => ?_
      cases List.mem_singleton.1 (hall _ List.mem_cons_self)
  | @inUse port ports calls result h ih =>
      rw [List.nodup_cons] at hnodup
      rw [List.forall_mem_cons] at hlt
      rw [ih hnodup.2 hlt.2, List.forall_mem_cons, and_iff_right List.mem_cons_self]
      refine forall₂_congr fun p hp => ?_
      -- another port has another address
      rw [List.mem_cons, or_iff_right]
      intro heq
      have hport := congrArg (fun call : SocketAddress × Binding β => call.1.port.toNat) heq
      simp only [UInt16.toNat_ofNat_of_lt' (hlt.2 p hp), UInt16.toNat_ofNat_of_lt' hlt.1] at hport
      exact hnodup.1 (hport ▸ hp)

end Tried

/-! ## Negotiating -/

/-- What a negotiation has asked, and what it returns for that. -/
structure Searched (ip : Ip) (base : UInt16) (budget : Nat)
    (calls : List (SocketAddress × Binding β))
    (result : Except PortError (Option (Negotiated β))) : Prop where
  /-- The calls are for consecutive ports from the base on, each once. -/
  addresses : calls.map Prod.fst = (List.range' base.toNat calls.length).map (portAt ip)
  within_budget : calls.length ≤ budget
  within_ports : base.toNat + calls.length ≤ 2 ^ 16
  /-- An answer other than that the port is in use is the last. -/
  inUse : ∀ call ∈ calls.dropLast, call.2 = .inUse
  bound_iff : ∀ n, result = .ok (some n) ↔ calls.getLast? = some (n.address, .bound n.bound) ∧
    n.attempts = n.address.port.toNat - base.toNat + 1
  failed_iff : ∀ e, result = .error e ↔
    ∃ a text, calls.getLast? = some (a, .failed text) ∧ e = .refused a text
  none_iff : result = .ok none ↔ ∀ port, base.toNat ≤ port → port < base.toNat + budget →
    port < 2 ^ 16 → (portAt ip port, .inUse) ∈ calls

theorem mem_candidatePorts {base : UInt16} {budget port : Nat} :
    port ∈ candidatePorts base budget ↔
      base.toNat ≤ port ∧ port < base.toNat + budget ∧ port < 2 ^ 16 := by
  have hbase := base.toNat_lt
  rw [candidatePorts, List.mem_range'_1]
  omega

theorem Tried.searched {ip : Ip} {base : UInt16} {budget : Nat}
    {calls : List (SocketAddress × Binding β)} {result : Except PortError (Option (Negotiated β))}
    (h : Tried ip base (candidatePorts base budget) calls result) :
    Searched ip base budget calls result := by
  have hbase := base.toNat_lt
  have hlength : calls.length ≤ min budget (2 ^ 16 - base.toNat) :=
    Nat.le_trans h.length_le (Nat.le_of_eq List.length_range')
  have hlt : ∀ port ∈ candidatePorts base budget, port < 2 ^ 16 := fun port hport =>
    (mem_candidatePorts.1 hport).2.2
  have hresult := h.result_eq hlt
  refine ⟨?addresses, by omega, by omega, h.dropLast_inUse, fun n => ?bound, fun e => ?failed,
    ?none⟩
  case addresses =>
    rw [h.addresses, candidatePorts, List.take_range'_of_length_ge hlength]
  case bound =>
    rw [hresult]
    exact conclusion_eq_some_iff
  case failed =>
    rw [hresult]
    exact conclusion_eq_error_iff
  case none =>
    rw [h.eq_none_iff (List.nodup_range' 1) hlt]
    simp only [mem_candidatePorts, and_imp]

/-! ## In words -/

def checkedSum (a b : UInt64) : Option UInt64 :=
  if a.toNat + b.toNat < 2 ^ 64 then some (a + b) else none

theorem exists_checkedSum {a b : UInt64} (h : a.toNat + b.toNat < 2 ^ 64) :
    ∃ c, checkedSum a b = some c ∧ c.toNat = a.toNat + b.toNat :=
  ⟨a + b, if_pos h, by rw [UInt64.toNat_add, Nat.mod_eq_of_lt h]⟩

theorem toNat_succ_of_lt {a b : UInt64} (h : a < b) : (a + 1).toNat = a.toNat + 1 := by
  have hlt := UInt64.lt_iff_toNat_lt.1 h
  have hb := b.toNat_lt
  rw [UInt64.toNat_add, UInt64.toNat_one, Nat.mod_eq_of_lt (by omega)]

/-- The attempts of a negotiation from one on, counted in words. It is `none` if a sum is none. -/
def searchFrom (ip : Ip) (base : UInt16) (budget : UInt64)
    (bind : SocketAddress → σ → Binding β × σ) (attempt : UInt64) (s : σ) :
    Option (Except PortError (Option (Negotiated β)) × σ) :=
  if attempt < budget then do
    let port ← checkedSum base.toUInt64 attempt
    if port < 65536 then
      let attempts ← checkedSum attempt 1
      let address : SocketAddress := { ip, port := port.toUInt16 }
      match bind address s with
      | (.bound b, s) => return (.ok (some ⟨address, b, attempts.toNat⟩), s)
      | (.inUse, s) => searchFrom ip base budget bind (attempt + 1) s
      | (.failed text, s) => return (.error (.refused address text), s)
    else return (.ok none, s)
  else return (.ok none, s)
termination_by budget.toNat - attempt.toNat
decreasing_by
  have hbudget : attempt < budget := by assumption
  have hlt := UInt64.lt_iff_toNat_lt.1 hbudget
  rw [toNat_succ_of_lt hbudget]
  omega

theorem searchFrom_of_lt (ip : Ip) {base : UInt16} {budget : UInt64}
    (bind : SocketAddress → σ → Binding β × σ) {attempt : UInt64} (s : σ)
    (hbudget : attempt < budget) (hport : base.toNat + attempt.toNat < 2 ^ 16) :
    searchFrom ip base budget bind attempt s =
      match bind (portAt ip (base.toNat + attempt.toNat)) s with
      | (.bound b, s) =>
        some (.ok (some ⟨portAt ip (base.toNat + attempt.toNat), b, attempt.toNat + 1⟩), s)
      | (.inUse, s) => searchFrom ip base budget bind (attempt + 1) s
      | (.failed text, s) =>
        some (.error (.refused (portAt ip (base.toNat + attempt.toNat)) text), s) := by
  have hbase : base.toUInt64.toNat = base.toNat := UInt16.toNat_toUInt64 base
  have hone : UInt64.toNat 1 = 1 := UInt64.toNat_one
  obtain ⟨port, hsum, hvalue⟩ := exists_checkedSum (a := base.toUInt64) (b := attempt) (by omega)
  obtain ⟨attempts, hsum', hattempts⟩ := exists_checkedSum (a := attempt) (b := 1) (by omega)
  rw [hbase] at hvalue
  rw [hone] at hattempts
  have hsmall : port < 65536 := by
    rw [UInt64.lt_iff_toNat_lt, hvalue]
    exact hport
  have haddress : port.toUInt16 = .ofNat (base.toNat + attempt.toNat) := by
    rw [← hvalue]
    rfl
  rw [searchFrom, if_pos hbudget, hsum]
  simp only [Option.bind_eq_bind, Option.bind_some, if_pos hsmall, haddress, hsum', hattempts]
  cases bind (portAt ip (base.toNat + attempt.toNat)) s with
  | mk answer s => cases answer <;> rfl

/-- The words do what the numbers do. -/
theorem searchFrom_eq (ip : Ip) (base : UInt16) (budget : UInt64)
    (bind : SocketAddress → σ → Binding β × σ) {attempt : UInt64} (s : σ) {n : Nat}
    (hports : base.toNat + attempt.toNat ≤ 2 ^ 16)
    (hn : min (budget.toNat - attempt.toNat) (2 ^ 16 - base.toNat - attempt.toNat) = n) :
    searchFrom ip base budget bind attempt s =
      some (tryPorts ip base bind (List.range' (base.toNat + attempt.toNat) n) s) := by
  induction n generalizing attempt s with
  | zero =>
      rw [searchFrom]
      split
      · rename_i hbudget
        have hlt := UInt64.lt_iff_toNat_lt.1 hbudget
        have hbase : base.toUInt64.toNat = base.toNat := UInt16.toNat_toUInt64 base
        obtain ⟨port, hsum, hport⟩ :=
          exists_checkedSum (a := base.toUInt64) (b := attempt) (by omega)
        have hlarge : ¬ port < 65536 := by
          rw [UInt64.lt_iff_toNat_lt]
          change ¬ port.toNat < 65536
          omega
        rw [hsum]
        exact if_neg hlarge
      · rfl
  | succ n ih =>
      have hbudget : attempt < budget := UInt64.lt_iff_toNat_lt.2 (by omega)
      have hsucc := toNat_succ_of_lt hbudget
      rw [searchFrom_of_lt ip bind s hbudget (by omega), List.range'_succ, tryPorts]
      cases bind (portAt ip (base.toNat + attempt.toNat)) s with
      | mk answer s =>
          cases answer with
          | bound b =>
              have hattempts : base.toNat + attempt.toNat - base.toNat = attempt.toNat :=
                Nat.add_sub_cancel_left ..
              simp only [hattempts]
          | inUse =>
              have hrest : searchFrom ip base budget bind (attempt + 1) s = some (tryPorts ip base
                  bind (List.range' (base.toNat + (attempt + 1).toNat) n) s) :=
                ih s (by omega) (by omega)
              rwa [hsucc] at hrest
          | failed text => rfl

/-! ## All negotiations -/

/-- Whatever `bind` does with its state, a negotiation asks it for consecutive ports until one is
not in use. Keeping the calls changes nothing, and the sums that it takes are all words. -/
theorem searched_negotiate (ip : Ip) (base : UInt16) (budget : UInt64)
    (bind : SocketAddress → σ → Binding β × σ) (s : σ) :
    ∃ calls,
      negotiate ip base budget.toNat (recorded bind) (s, []) =
        ((negotiate ip base budget.toNat bind s).1, (negotiate ip base budget.toNat bind s).2,
          calls) ∧
      Searched ip base budget.toNat calls (negotiate ip base budget.toNat bind s).1 ∧
      searchFrom ip base budget bind 0 s = some (negotiate ip base budget.toNat bind s) := by
  obtain ⟨calls, hcalls, htried⟩ :=
    tryPorts_recorded ip base bind (candidatePorts base budget.toNat) s []
  exact ⟨calls, hcalls, htried.searched,
    searchFrom_eq ip base budget bind s (Nat.le_of_lt base.toNat_lt) rfl⟩

/-- The ports end before the budget does. -/
example : (negotiate (.v4 ⟨127, 0, 0, 1⟩) 65534 (2 ^ 64 - 1)
    (recorded fun _ (s : Unit) => (.inUse, s)) ((), [])).2.2 =
      [(portAt (.v4 ⟨127, 0, 0, 1⟩) 65534, (.inUse : Binding Unit)),
        (portAt (.v4 ⟨127, 0, 0, 1⟩) 65535, .inUse)] := rfl

end CacheBench
