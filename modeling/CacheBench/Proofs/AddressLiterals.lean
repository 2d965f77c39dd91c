import CacheBench.Net.Address
import CacheBench.Proofs.TextBytes
import Mathlib.Data.List.Forall2
import Mathlib.Data.List.Induction

/-!
# Address literals

`Ipv6.Spells` says which texts stand for which address of version 6, from the digits of its groups
on. A text is read as an address if and only if it spells it. The one spelling of an address of
version 4 is its text.
-/

namespace CacheBench

/-! ## Parts between marks -/

theorem mapM_eq_some_iff {α β : Type} {f : α → Option β} {as : List α} {bs : List β} :
    as.mapM f = some bs ↔ List.Forall₂ (fun a b => f a = some b) as bs := by
  induction as generalizing bs with
  | nil => cases bs <;> simp
  | cons a as ih =>
      rw [List.mapM_cons]
      cases bs with
      | nil => cases f a <;> cases as.mapM f <;> simp
      | cons b bs =>
          rw [List.forall₂_cons, ← ih]
          cases f a <;> cases as.mapM f <;> simp

theorem intercalate_cons {α : Type} (mark : α) (p : List α) (ps : List (List α)) :
    [mark].intercalate (p :: ps) = p ++ ps.flatMap fun q => mark :: q := by
  induction ps generalizing p with
  | nil => simp
  | cons q ps ih => simp [List.intercalate_cons_cons, ih]

theorem intercalate_concat {α : Type} (mark : α) {ps : List (List α)} (hps : ps ≠ [])
    (p : List α) : [mark].intercalate (ps ++ [p]) = [mark].intercalate ps ++ mark :: p := by
  obtain ⟨q, ps, rfl⟩ := List.exists_cons_of_ne_nil hps
  rw [List.cons_append, intercalate_cons, intercalate_cons, List.flatMap_append, List.append_assoc,
    List.flatMap_singleton]

theorem Text.splitChars_eq_splitOn (mark : Char) (cs : List Char) :
    Text.splitChars mark cs = cs.splitOn mark := by
  induction cs with
  | nil => rw [List.splitOn_nil]; rfl
  | cons c cs ih =>
      rw [Text.splitChars, ih, List.splitOn_cons_eq_if_modifyHead]
      obtain ⟨p, ps, hps⟩ := List.exists_cons_of_ne_nil (List.splitOn_ne_nil mark cs)
      by_cases hc : c = mark
      · simp [hc]
      · simp [hc, hps]

/-! ## Digits -/

theorem exists_digitChar {c : Char} (h : c.isDigit) :
    ∃ d < 10, c = Nat.digitChar d ∧ c.toNat - '0'.toNat = d := by
  obtain ⟨-, hlow, hhigh⟩ := toNat_ascii h
  have hall : ∀ n < 10, Char.ofNat (48 + n) = Nat.digitChar n := by decide
  refine ⟨c.toNat - 48, by omega, ?_, rfl⟩
  rw [← hall _ (by omega), Nat.add_sub_cancel' hlow, Char.ofNat_toNat]

theorem not_mem_toDigits {c : Char} (hc : ¬ c.isDigit) (n : Nat) : c ∉ Nat.toDigits 10 n :=
  fun h => hc (isDigit_of_mem_toDigits h)

theorem toDigits_ofDigitChars {cs : List Char} (hne : cs ≠ []) (hdigits : ∀ c ∈ cs, c.isDigit)
    (hzero : cs.head? = some '0' → cs.length = 1) :
    Nat.toDigits 10 (Nat.ofDigitChars 10 cs 0) = cs := by
  induction cs using List.reverseRecOn with
  | nil => exact absurd rfl hne
  | append_singleton ds c ih =>
      obtain ⟨d, hd, hc, hvalue⟩ := exists_digitChar (hdigits c (by simp))
      rw [Nat.ofDigitChars_append, Nat.ofDigitChars_cons, Nat.ofDigitChars_nil, hvalue]
      cases ds with
      | nil =>
          rw [Nat.ofDigitChars_nil, Nat.mul_zero, Nat.zero_add, Nat.toDigits_of_lt_base hd, hc,
            List.nil_append]
      | cons e ds =>
          have hhead : (e :: ds).head? ≠ some '0' := fun h => by simpa using hzero h
          have hds := ih (List.cons_ne_nil e ds)
            (fun c hc => hdigits c (List.mem_append_left _ hc)) fun h => absurd h hhead
          set v := Nat.ofDigitChars 10 (e :: ds) 0 with hv
          have hpos : 0 < v := by
            refine Nat.pos_of_ne_zero fun h => hhead ?_
            rw [← hds, h]
            rfl
          have hdiv : (10 * v + d) / 10 = v := by omega
          have hmod : (10 * v + d) % 10 = d := by omega
          rw [Nat.toDigits_of_base_le (by decide) (by omega), hdiv, hmod, hds, hc]

theorem boundedDigits?_eq_some_iff {bound n : Nat} {cs : List Char} :
    boundedDigits? bound cs = some n ↔
      cs ≠ [] ∧ (∀ c ∈ cs, c.isDigit) ∧ Nat.ofDigitChars 10 cs 0 = n ∧ n < bound := by
  have hvalue : digitsValue cs = Nat.ofDigitChars 10 cs 0 := rfl
  simp only [boundedDigits?, Bool.or_eq_true, List.isEmpty_iff, Bool.not_eq_true',
    ← Bool.not_eq_true, List.all_eq_true, Option.ite_none_left_eq_some,
    Option.ite_none_right_eq_some, not_or, not_not, Option.some.injEq, hvalue, and_assoc, ne_eq]
  refine and_congr_right fun _ => and_congr_right fun _ => ?_
  constructor
  · rintro ⟨hlt, rfl⟩
    exact ⟨rfl, hlt⟩
  · rintro ⟨rfl, hlt⟩
    exact ⟨hlt, rfl⟩

def IsHexDigit (c : Char) (d : Nat) : Prop :=
  d < 16 ∧ (c = Nat.digitChar d ∨ c = (Nat.digitChar d).toUpper)

instance (c : Char) (d : Nat) : Decidable (IsHexDigit c d) := inferInstanceAs (Decidable (_ ∧ _))

theorem toNat_lt_of_hexValue? {c : Char} {d : Nat} (h : hexValue? c = some d) : c.toNat < 103 := by
  unfold hexValue? at h
  split at h
  · rename_i hd
    have := (toNat_ascii hd).2.2
    omega
  · split at h
    · rename_i hc
      simp only [Bool.and_eq_true, decide_eq_true_eq, Char.le_def, UInt32.le_iff_toNat_le] at hc
      have hf : c.toNat ≤ 102 := hc.2
      omega
    · split at h
      · rename_i hc
        simp only [Bool.and_eq_true, decide_eq_true_eq, Char.le_def, UInt32.le_iff_toNat_le] at hc
        have hf : c.toNat ≤ 70 := hc.2
        omega
      · cases h

theorem hexValue?_eq_some_iff {c : Char} {d : Nat} : hexValue? c = some d ↔ IsHexDigit c d := by
  constructor
  · intro h
    have hall : ∀ n < 103, ∀ d ∈ hexValue? (Char.ofNat n), IsHexDigit (Char.ofNat n) d := by decide
    have hc := hall c.toNat (toNat_lt_of_hexValue? h)
    rw [Char.ofNat_toNat] at hc
    exact hc d h
  · rintro ⟨hd, rfl | rfl⟩
    · exact (by decide : ∀ d < 16, hexValue? (Nat.digitChar d) = some d) d hd
    · exact (by decide : ∀ d < 16, hexValue? (Nat.digitChar d).toUpper = some d) d hd

theorem valueInBase?_eq_some_iff {cs : List Char} {n : Nat} : valueInBase? 16 cs = some n ↔
    ∃ ds, List.Forall₂ IsHexDigit cs ds ∧ ds.foldl (fun n d => 16 * n + d) 0 = n := by
  have hfold (m : Nat) : cs.foldlM (fun n c => do
      let d ← hexValue? c
      if d < 16 then some (16 * n + d) else none) m = some n ↔
        ∃ ds, List.Forall₂ IsHexDigit cs ds ∧ ds.foldl (fun n d => 16 * n + d) m = n := by
    induction cs generalizing m with
    | nil => simp
    | cons c cs ih =>
        rw [List.foldlM_cons]
        simp only [Option.bind_eq_bind, Option.bind_eq_some_iff, Option.ite_none_right_eq_some,
          Option.some.injEq, hexValue?_eq_some_iff]
        constructor
        · rintro ⟨_, ⟨d, hd, -, rfl⟩, h⟩
          obtain ⟨ds, hds, hn⟩ := (ih _).1 h
          exact ⟨d :: ds, .cons hd hds, hn⟩
        · rintro ⟨_, _ | ⟨hd, hds⟩, hn⟩
          exact ⟨_, ⟨_, hd, hd.1, rfl⟩, (ih _).2 ⟨_, hds, hn⟩⟩
  exact hfold 0

theorem IsHexDigit.ne {c : Char} {d : Nat} (h : IsHexDigit c d) : c ≠ '.' ∧ c ≠ ':' := by
  obtain ⟨hd, rfl | rfl⟩ := h
  · exact (by decide : ∀ d < 16, Nat.digitChar d ≠ '.' ∧ Nat.digitChar d ≠ ':') d hd
  · exact (by decide : ∀ d < 16, (Nat.digitChar d).toUpper ≠ '.' ∧
      (Nat.digitChar d).toUpper ≠ ':') d hd

theorem foldl_hexDigits_lt {cs : List Char} {ds : List Nat} (h : List.Forall₂ IsHexDigit cs ds)
    (m : Nat) : ds.foldl (fun n d => 16 * n + d) m < (m + 1) * 16 ^ cs.length := by
  induction h generalizing m with
  | nil => simp
  | @cons c d cs ds hd _ ih =>
      have hstep : 16 * m + d + 1 ≤ (m + 1) * 16 := by
        have := hd.1
        omega
      rw [List.foldl_cons, List.length_cons, Nat.pow_succ, Nat.mul_comm _ 16, ← Nat.mul_assoc]
      exact Nat.lt_of_lt_of_le (ih _) (Nat.mul_le_mul_right _ hstep)

/-! ## Version 4 -/

theorem octet?_eq_some_iff {cs : List Char} {n : UInt8} :
    octet? cs = some n ↔ cs = Nat.toDigits 10 n.toNat := by
  rw [octet?, Option.ite_none_left_eq_some, Option.map_eq_some_iff, Bool.and_eq_true,
    decide_eq_true_eq, decide_eq_true_eq, not_and, not_not]
  simp only [boundedDigits?_eq_some_iff]
  constructor
  · rintro ⟨hzero, m, ⟨hne, hdigits, rfl, hlt⟩, rfl⟩
    rw [UInt8.toNat_ofNat_of_lt' hlt, toDigits_ofDigitChars hne hdigits hzero]
  · rintro rfl
    refine ⟨fun hzero => ?_, n.toNat, ⟨Nat.toDigits_ne_nil, fun c => isDigit_of_mem_toDigits,
      Nat.ofDigitChars_ten_toDigits, n.toNat_lt⟩, UInt8.ofNat_toNat⟩
    rcases Nat.eq_zero_or_pos n.toNat with hn | hn
    · rw [hn]
      rfl
    · exact absurd hzero (head?_toDigits_ne hn)

theorem Ipv4.toList_text (x : Ipv4) : x.text.toList = ['.'].intercalate
    [Nat.toDigits 10 x.a.toNat, Nat.toDigits 10 x.b.toNat, Nat.toDigits 10 x.c.toNat,
      Nat.toDigits 10 x.d.toNat] := by
  have hoctet (n : UInt8) : (toString n).toList = Nat.toDigits 10 n.toNat := by
    change (toString n.toNat).toList = _
    rw [Nat.toString_eq_ofList_toDigits, String.toList_ofList]
  have hdot : (toString ".").toList = ['.'] := by decide
  simp [Ipv4.text, String.toList_append, hoctet, hdot, List.intercalate_cons_cons]

theorem Ipv4.ofChars?_eq_some_iff {cs : List Char} {x : Ipv4} :
    Ipv4.ofChars? cs = some x ↔ cs = x.text.toList := by
  rw [Ipv4.toList_text, Ipv4.ofChars?, Text.splitChars_eq_splitOn]
  constructor
  · intro h
    split at h
    · rename_i a b c d hparts
      simp only [Option.bind_eq_bind, Option.bind_eq_some_iff, octet?_eq_some_iff] at h
      obtain ⟨_, rfl, _, rfl, _, rfl, _, rfl, ⟨⟩⟩ := h
      rw [← hparts, List.intercalate_splitOn]
    · cases h
  · rintro rfl
    have hdot : ∀ n, '.' ∉ Nat.toDigits 10 n := not_mem_toDigits (by decide)
    rw [List.splitOn_intercalate '.' (by simp [hdot]) (List.cons_ne_nil _ _)]
    simp only [octet?_eq_some_iff.2 rfl]
    rfl

theorem Ipv4.dot_mem_text (x : Ipv4) : '.' ∈ x.text.toList := by
  rw [Ipv4.toList_text, List.intercalate_cons_cons]
  simp

/-! ## Version 6 -/

namespace Ipv6

def IsGroup (cs : List Char) (g : UInt16) : Prop :=
  cs ≠ [] ∧ cs.length ≤ 4 ∧ ∃ ds, List.Forall₂ IsHexDigit cs ds ∧
    ds.foldl (fun n d => 16 * n + d) 0 = g.toNat

theorem group?_eq_some_iff {cs : List Char} {g : UInt16} : group? cs = some g ↔ IsGroup cs g := by
  rw [group?, Option.ite_none_left_eq_some, Option.map_eq_some_iff, Bool.or_eq_true,
    List.isEmpty_iff, decide_eq_true_eq, not_or, Nat.not_lt, and_assoc]
  refine and_congr_right fun _ => and_congr_right fun hlength => ?_
  simp only [valueInBase?_eq_some_iff]
  constructor
  · rintro ⟨_, ⟨ds, hds, rfl⟩, rfl⟩
    have hlt := foldl_hexDigits_lt hds 0
    have hpow : 16 ^ cs.length ≤ 16 ^ 4 := Nat.pow_le_pow_right (by decide) hlength
    exact ⟨ds, hds, (UInt16.toNat_ofNat_of_lt' (show _ < 2 ^ 16 by omega)).symm⟩
  · rintro ⟨ds, hds, hn⟩
    exact ⟨_, ⟨ds, hds, hn⟩, UInt16.ofNat_toNat⟩

def dotted (x : Ipv4) : List UInt16 :=
  [.ofNat (256 * x.a.toNat + x.b.toNat), .ofNat (256 * x.c.toNat + x.d.toNat)]

/-- Parts with their groups. The last one may be an address of version 4. -/
inductive AreGroups : List (List Char) → List UInt16 → Prop
  | nil : AreGroups [] []
  | cons {p : List Char} {g : UInt16} {ps : List (List Char)} {gs : List UInt16} (h : IsGroup p g)
    (hs : AreGroups ps gs) : AreGroups (p :: ps) (g :: gs)
  | dotted {p : List Char} (x : Ipv4) (h : p = x.text.toList) : AreGroups [p] (dotted x)

theorem IsGroup.exists_isHexDigit {cs : List Char} {g : UInt16} (h : IsGroup cs g) {c : Char}
    (hc : c ∈ cs) : ∃ d, IsHexDigit c d := by
  obtain ⟨-, -, ds, hds, -⟩ := h
  induction hds with
  | nil => cases hc
  | cons hd _ ih =>
      rcases List.mem_cons.1 hc with rfl | hc
      · exact ⟨_, hd⟩
      · exact ih hc

theorem IsGroup.ofChars?_eq_none {cs : List Char} {g : UInt16} (h : IsGroup cs g) :
    Ipv4.ofChars? cs = none := by
  refine Option.eq_none_iff_forall_ne_some.2 fun x hx => ?_
  have hdot := x.dot_mem_text
  rw [← Ipv4.ofChars?_eq_some_iff.1 hx] at hdot
  obtain ⟨d, hd⟩ := h.exists_isHexDigit hdot
  exact hd.ne.1 rfl

theorem groups?_eq_some_iff {ps : List (List Char)} {gs : List UInt16} :
    groups? ps = some gs ↔ AreGroups ps gs := by
  constructor
  · intro h
    induction ps generalizing gs with
    | nil =>
        cases h
        exact .nil
    | cons p ps ih =>
        cases ps with
        | nil =>
            rw [groups?] at h
            split at h
            · rename_i x hx
              cases h
              exact .dotted x (Ipv4.ofChars?_eq_some_iff.1 hx)
            · obtain ⟨g, hg, rfl⟩ := Option.map_eq_some_iff.1 h
              exact .cons (group?_eq_some_iff.1 hg) .nil
        | cons q ps =>
            simp only [groups?, Option.bind_eq_bind, Option.bind_eq_some_iff] at h
            obtain ⟨g, hg, gs, hgs, ⟨⟩⟩ := h
            exact .cons (group?_eq_some_iff.1 hg) (ih hgs)
  · intro h
    induction h with
    | nil => rfl
    | dotted x hp =>
        rw [groups?, Ipv4.ofChars?_eq_some_iff.2 hp]
        rfl
    | @cons p g ps gs hg _ ih =>
        have hgroup := group?_eq_some_iff.2 hg
        cases ps with
        | nil =>
            cases ih
            rw [groups?, hg.ofChars?_eq_none, hgroup]
            rfl
        | cons q ps =>
            rw [groups?, hgroup, ih]
            · rfl
            · nofun

/-- Eight groups with colons between them, or fewer with a double colon for the zeros between. -/
inductive Spells : List Char → Ipv6 → Prop
  | full {x : Ipv6} {ps : List (List Char)} (h : AreGroups ps x.groups) :
    Spells ([':'].intercalate ps) x
  | gap {x : Ipv6} {before after : List (List Char)} {head tail : List UInt16}
    (hbefore : List.Forall₂ IsGroup before head) (hafter : AreGroups after tail)
    (hlength : head.length + tail.length ≤ 7)
    (hx : x.groups = head ++ List.replicate (8 - head.length - tail.length) 0 ++ tail) :
    Spells ([':'].intercalate before ++ ':' :: ':' :: [':'].intercalate after) x

/-- What may stand between single colons. -/
def IsPart (p : List Char) : Prop := p ≠ [] ∧ ':' ∉ p

theorem IsGroup.isPart {p : List Char} {g : UInt16} (h : IsGroup p g) : IsPart p := by
  refine ⟨h.1, fun hmem => ?_⟩
  obtain ⟨d, hd⟩ := h.exists_isHexDigit hmem
  exact hd.ne.2 rfl

theorem isPart_text (x : Ipv4) : IsPart x.text.toList := by
  have hcolon : ∀ n, ':' ∉ Nat.toDigits 10 n := not_mem_toDigits (by decide)
  refine ⟨List.ne_nil_of_mem x.dot_mem_text, ?_⟩
  rw [Ipv4.toList_text]
  simp [List.intercalate_cons_cons, hcolon]

theorem AreGroups.isPart {ps : List (List Char)} {gs : List UInt16} (h : AreGroups ps gs) :
    ∀ p ∈ ps, IsPart p := by
  induction h with
  | nil => exact List.forall_mem_nil _
  | cons hg _ ih => exact List.forall_mem_cons.2 ⟨hg.isPart, ih⟩
  | dotted x hp => exact List.forall_mem_singleton.2 (hp ▸ isPart_text x)

/-- The parts before a gap are those of groups without an address of version 4. -/
theorem areGroups_of_forall₂ {ps : List (List Char)} {gs : List UInt16}
    (h : List.Forall₂ IsGroup ps gs) : AreGroups ps gs := by
  induction h with
  | nil => exact .nil
  | cons hg _ ih => exact .cons hg ih

theorem splitGap_append {p : List Char} (hp : ':' ∉ p) (r : List Char) :
    splitGap (p ++ r) = (splitGap r).map fun (before, after) => (p ++ before, after) := by
  induction p with
  | nil => simp
  | cons c p ih =>
      rw [List.mem_cons, not_or] at hp
      rw [List.cons_append, splitGap, ih hp.2, Option.map_map]
      · rfl
      · rintro r rfl
        exact absurd rfl hp.1

theorem splitGap_intercalate {ps : List (List Char)} (hps : ∀ p ∈ ps, IsPart p) (r : List Char) :
    splitGap ([':'].intercalate ps ++ r) =
      (splitGap r).map fun (before, after) => ([':'].intercalate ps ++ before, after) := by
  induction ps with
  | nil => simp
  | cons p ps ih =>
      rw [List.forall_mem_cons] at hps
      cases ps with
      | nil => rw [List.intercalate_singleton, splitGap_append hps.1.2]
      | cons q ps =>
          obtain ⟨hq, hcolon⟩ := hps.2 q List.mem_cons_self
          obtain ⟨c, q, rfl⟩ := List.exists_cons_of_ne_nil hq
          have hc : c ≠ ':' := by
            rintro rfl
            exact hcolon List.mem_cons_self
          have hfirst : ∃ u, [':'].intercalate ((c :: q) :: ps) = c :: u := by
            cases ps <;> simp [List.intercalate_cons_cons]
          obtain ⟨u, hu⟩ := hfirst
          have hrest := ih hps.2
          rw [List.intercalate_cons_cons, List.append_assoc, List.append_assoc,
            splitGap_append hps.1.2, List.singleton_append, splitGap, hrest]
          · simp [Function.comp_def]
          · rw [hu]
            rintro t - ⟨⟩
            exact hc rfl

theorem eq_of_splitGap {cs before after : List Char} (h : splitGap cs = some (before, after)) :
    cs = before ++ ':' :: ':' :: after := by
  induction cs generalizing before with
  | nil => cases h
  | cons c cs ih =>
      unfold splitGap at h
      split at h
      · rename_i heq
        cases h
        exact heq
      · rename_i heq
        obtain ⟨⟨before', after'⟩, hrest, ⟨⟩⟩ := Option.map_eq_some_iff.1 h
        cases heq
        rw [ih hrest, List.cons_append]
      · cases h

theorem ofChars?_eq_some_iff_groups {cs : List Char} {x : Ipv6} :
    ofChars? cs = some x ↔
      (match splitGap cs with
        | none => AreGroups (cs.splitOn ':') x.groups
        | some (before, after) => ∃ head tail, List.Forall₂ IsGroup (side before) head ∧
          AreGroups (side after) tail ∧ head.length + tail.length ≤ 7 ∧
          x.groups = head ++ List.replicate (8 - head.length - tail.length) 0 ++ tail) := by
  have hgroups (gs : List UInt16) :
      (if h : gs.length = 8 then some (⟨gs, h⟩ : Ipv6) else none) = some x ↔ gs = x.groups := by
    constructor
    · intro h
      split at h
      · cases h
        rfl
      · cases h
    · rintro rfl
      exact dif_pos x.length_groups
  unfold ofChars?
  cases hgap : splitGap cs with
  | none =>
      simp only [Option.bind_eq_bind, Option.bind_eq_some_iff, hgroups, exists_eq_right,
        Text.splitChars_eq_splitOn, groups?_eq_some_iff]
  | some p =>
      obtain ⟨before, after⟩ := p
      simp only [Option.bind_eq_bind, Option.bind_eq_some_iff, mapM_eq_some_iff,
        group?_eq_some_iff, groups?_eq_some_iff, Option.bind_some, Option.bind_none,
        Option.ite_none_right_eq_some, hgroups, exists_and_left, eq_comm (b := x.groups)]

theorem side_intercalate {ps : List (List Char)} (hps : ∀ p ∈ ps, IsPart p) :
    side ([':'].intercalate ps) = ps := by
  cases ps with
  | nil => rfl
  | cons p ps =>
      have hne : [':'].intercalate (p :: ps) ≠ [] := by
        have hp := (hps p List.mem_cons_self).1
        cases ps <;> simp [List.intercalate_cons_cons, hp]
      rw [side, if_neg (by rwa [List.isEmpty_iff]), Text.splitChars_eq_splitOn,
        List.splitOn_intercalate ':' (fun q hq => (hps q hq).2) (List.cons_ne_nil p ps)]

theorem intercalate_side (cs : List Char) : [':'].intercalate (side cs) = cs := by
  unfold side
  split
  · rename_i hcs
    rw [List.isEmpty_iff.1 hcs]
    rfl
  · rw [Text.splitChars_eq_splitOn, List.intercalate_splitOn]

theorem AreGroups.ne_nil {ps : List (List Char)} {x : Ipv6} (h : AreGroups ps x.groups) :
    ps ≠ [] := by
  have hnil : ∀ gs, AreGroups [] gs → gs.length ≠ 8 := by
    rintro _ ⟨⟩
    decide
  rintro rfl
  exact hnil _ h x.length_groups

theorem ofChars?_intercalate {ps : List (List Char)} (hps : ∀ p ∈ ps, IsPart p) (hne : ps ≠ [])
    {x : Ipv6} : ofChars? ([':'].intercalate ps) = some x ↔ AreGroups ps x.groups := by
  have hgap := splitGap_intercalate hps []
  rw [List.append_nil] at hgap
  rw [ofChars?_eq_some_iff_groups, hgap]
  change AreGroups _ _ ↔ _
  rw [List.splitOn_intercalate ':' (fun p hp => (hps p hp).2) hne]

theorem ofChars?_gap {ps : List (List Char)} (hps : ∀ p ∈ ps, IsPart p) (after : List Char)
    {x : Ipv6} : ofChars? ([':'].intercalate ps ++ ':' :: ':' :: after) = some x ↔
      ∃ head tail, List.Forall₂ IsGroup ps head ∧ AreGroups (side after) tail ∧
        head.length + tail.length ≤ 7 ∧
        x.groups = head ++ List.replicate (8 - head.length - tail.length) 0 ++ tail := by
  rw [ofChars?_eq_some_iff_groups, splitGap_intercalate hps]
  change (∃ head tail, List.Forall₂ IsGroup (side _) head ∧ _) ↔ _
  rw [List.append_nil, side_intercalate hps]

/-- A text is read as an address if and only if it spells it. -/
theorem ofChars?_eq_some_iff {cs : List Char} {x : Ipv6} : ofChars? cs = some x ↔ Spells cs x := by
  constructor
  · intro h
    rw [ofChars?_eq_some_iff_groups] at h
    split at h
    · have hfull := Spells.full h
      rwa [List.intercalate_splitOn] at hfull
    · rename_i before after hgap
      obtain ⟨head, tail, hbefore, hafter, hlength, hx⟩ := h
      have hspells := Spells.gap hbefore hafter hlength hx
      rwa [intercalate_side, intercalate_side, ← eq_of_splitGap hgap] at hspells
  · intro h
    cases h with
    | full h => exact (ofChars?_intercalate h.isPart h.ne_nil).2 h
    | gap hbefore hafter hlength hx =>
        refine (ofChars?_gap (areGroups_of_forall₂ hbefore).isPart _).2
          ⟨_, _, hbefore, ?_, hlength, hx⟩
        rwa [side_intercalate hafter.isPart]

end Ipv6

/-! ## Characters of literals -/

def literalChars : List Char := "0123456789abcdefABCDEF.:".toList

theorem IsHexDigit.mem_literalChars {c : Char} {d : Nat} (h : IsHexDigit c d) :
    c ∈ literalChars := by
  obtain ⟨hd, rfl | rfl⟩ := h
  · exact (by decide : ∀ d < 16, Nat.digitChar d ∈ literalChars) d hd
  · exact (by decide : ∀ d < 16, (Nat.digitChar d).toUpper ∈ literalChars) d hd

theorem mem_literalChars_of_isDigit {c : Char} (h : c.isDigit) : c ∈ literalChars := by
  obtain ⟨d, hd, hc, -⟩ := exists_digitChar h
  exact IsHexDigit.mem_literalChars ⟨by omega, .inl hc⟩

theorem mem_of_mem_intercalate {α : Type} {mark c : α} {ps : List (List α)}
    (h : c ∈ [mark].intercalate ps) : c = mark ∨ ∃ p ∈ ps, c ∈ p := by
  cases ps with
  | nil => cases h
  | cons p ps =>
      rw [intercalate_cons, List.mem_append, List.mem_flatMap] at h
      rcases h with h | ⟨q, hq, h⟩
      · exact .inr ⟨p, List.mem_cons_self, h⟩
      · exact (List.mem_cons.1 h).imp_right fun h => ⟨q, List.mem_cons_of_mem p hq, h⟩

theorem Ipv4.mem_literalChars {x : Ipv4} {c : Char} (h : c ∈ x.text.toList) :
    c ∈ literalChars := by
  rw [Ipv4.toList_text] at h
  rcases mem_of_mem_intercalate h with rfl | ⟨p, hp, hc⟩
  · decide
  · simp only [List.mem_cons, List.not_mem_nil, or_false] at hp
    rcases hp with rfl | rfl | rfl | rfl <;>
      exact mem_literalChars_of_isDigit (isDigit_of_mem_toDigits hc)

namespace Ipv6

theorem IsGroup.mem_literalChars {p : List Char} {g : UInt16} (h : IsGroup p g) {c : Char}
    (hc : c ∈ p) : c ∈ literalChars := by
  obtain ⟨d, hd⟩ := h.exists_isHexDigit hc
  exact hd.mem_literalChars

theorem AreGroups.mem_literalChars {ps : List (List Char)} {gs : List UInt16}
    (h : AreGroups ps gs) {p : List Char} (hp : p ∈ ps) {c : Char} (hc : c ∈ p) :
    c ∈ literalChars := by
  induction h with
  | nil => cases hp
  | cons hg _ ih =>
      rcases List.mem_cons.1 hp with rfl | hp
      · exact hg.mem_literalChars hc
      · exact ih hp
  | dotted x htext =>
      rw [List.mem_singleton.1 hp, htext] at hc
      exact Ipv4.mem_literalChars hc

theorem Spells.mem_literalChars {cs : List Char} {x : Ipv6} (h : Spells cs x) {c : Char}
    (hc : c ∈ cs) : c ∈ literalChars := by
  have hparts {ps : List (List Char)} {gs : List UInt16} (h : AreGroups ps gs)
      (hc : c ∈ [':'].intercalate ps) : c ∈ literalChars := by
    rcases mem_of_mem_intercalate hc with rfl | ⟨p, hp, hc⟩
    · decide
    · exact h.mem_literalChars hp hc
  cases h with
  | full h => exact hparts h hc
  | gap hbefore hafter =>
      simp only [List.mem_append, List.mem_cons] at hc
      rcases hc with hc | rfl | rfl | hc
      · exact hparts (areGroups_of_forall₂ hbefore) hc
      · decide
      · decide
      · exact hparts hafter hc

theorem AreGroups.length_le {ps : List (List Char)} {gs : List UInt16} (h : AreGroups ps gs) :
    gs.length ≤ ps.length + 1 := by
  induction h with
  | nil => exact Nat.zero_le _
  | cons _ _ ih => exact Nat.succ_le_succ ih
  | dotted => exact Nat.le_refl _

theorem Spells.two_le_count {cs : List Char} {x : Ipv6} (h : Spells cs x) :
    2 ≤ cs.count ':' := by
  cases h with
  | full h =>
      rename_i ps
      have hlength := h.length_le
      rw [x.length_groups] at hlength
      match ps, hlength with
      | p :: q :: r :: ps, _ =>
        rw [intercalate_cons, List.flatMap_cons, List.flatMap_cons, List.count_append,
          List.count_append, List.count_append, List.count_cons_self, List.count_cons_self]
        omega
  | gap =>
      rw [List.count_append, List.count_cons_self, List.count_cons_self]
      omega

end Ipv6

end CacheBench
