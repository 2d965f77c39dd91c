import CacheBench.Json.Number
import CacheBench.Number.Style
import CacheBench.Proofs.ShortestDecimals
import CacheBench.Proofs.ValueCodec

/-!
# Written numbers

The JSON text of a number other than zero is the spelling of its shortest decimal. While the digits
of a spelling stay below `2 ^ 64` all of them are gathered, over a power of ten for the digits after
the point and the exponent. So the reader gathers the digits of the decimal again, and one more zero
if they are written before a point.
-/

namespace CacheBench

namespace Decimal

open Json (Spelling)

def digitText (d : Decimal) : List Char := Nat.toDigits 10 d.digits

def positionalSpelling (d : Decimal) : Spelling :=
  let places := (-d.exponent).toNat
  if 0 ≤ d.exponent then ⟨d.digitText ++ List.replicate d.exponent.toNat '0', ['0'], none⟩
  else if d.digitText.length ≤ places then
    ⟨['0'], List.replicate (places - d.digitText.length) '0' ++ d.digitText, none⟩
  else ⟨d.digitText.take (d.digitText.length - places),
    d.digitText.drop (d.digitText.length - places), none⟩

/-- One digit before the point, and an exponent. -/
def scientificSpelling (d : Decimal) : Spelling :=
  ⟨d.digitText.take 1, d.digitText.drop 1,
    some (d.leading < 0, Nat.toDigits 10 d.leading.natAbs)⟩

theorem digitText_ne_nil (d : Decimal) : d.digitText ≠ [] := Nat.toDigits_ne_nil

theorem toList_toString (n : Nat) : (toString n).toList = Nat.toDigits 10 n := by
  rw [Nat.toString_eq_ofList_toDigits, String.toList_ofList]

theorem length_toString (n : Nat) : (toString n).length = (Nat.toDigits 10 n).length := by
  rw [← toList_toString, String.length_toList]

theorem text_positionalSpelling (d : Decimal) :
    (d.positional ".0").toList = d.positionalSpelling.text := by
  unfold positional positionalSpelling zeros digitText
  dsimp only
  rw [length_toString]
  split
  · simp [Spelling.text, Spelling.fractionText, Spelling.exponentText]
  split
  · have hne : List.replicate ((-d.exponent).toNat - (Nat.toDigits 10 d.digits).length) '0' ++
        Nat.toDigits 10 d.digits ≠ [] := List.append_ne_nil_of_right_ne_nil _ Nat.toDigits_ne_nil
    rw [Spelling.text, Spelling.fractionText_of_ne_nil hne]
    simp [Spelling.exponentText]
  · rename_i hexp hlen
    have hne : (Nat.toDigits 10 d.digits).drop
        ((Nat.toDigits 10 d.digits).length - (-d.exponent).toNat) ≠ [] := by
      rw [ne_eq, List.drop_eq_nil_iff]
      omega
    rw [Spelling.text, Spelling.fractionText_of_ne_nil hne]
    simp [Spelling.exponentText]

theorem text_scientificSpelling (d : Decimal) :
    d.scientific.toList = d.scientificSpelling.text := by
  unfold scientific scientificSpelling digitText
  dsimp only
  rw [toList_toString, Spelling.text]
  by_cases hlen : 1 < (Nat.toDigits 10 d.digits).length
  · have hne : (Nat.toDigits 10 d.digits).drop 1 ≠ [] := by
      rw [ne_eq, List.drop_eq_nil_iff]
      omega
    rw [if_pos hlen, Spelling.fractionText_of_ne_nil hne]
    by_cases hneg : d.leading < 0 <;> simp [Spelling.exponentText, hneg]
  · have hnil : (Nat.toDigits 10 d.digits).drop 1 = [] := List.drop_eq_nil_iff.2 (by omega)
    rw [if_neg hlen, hnil, Spelling.fractionText]
    by_cases hneg : d.leading < 0 <;> simp [Spelling.exponentText, hneg]

/-! ## Well-formedness -/

/-- A spelling that begins with the first digit of a decimal has no zero in front. -/
theorem good_of_head? {d : Decimal} (hpos : 0 < d.digits) {n : Spelling}
    (hhead : n.whole.head? = d.digitText.head?) (hwhole : ∀ c ∈ n.whole, c.isDigit)
    (hfraction : ∀ c ∈ n.fraction, c.isDigit)
    (hexponent : ∀ e ds, n.exponent = some (e, ds) → ds ≠ [] ∧ ∀ c ∈ ds, c.isDigit) : n.Good where
  whole := hwhole
  whole_ne_nil hnil := by
    rw [hnil, List.head?_nil, eq_comm, List.head?_eq_none_iff] at hhead
    exact d.digitText_ne_nil hhead
  front hzero := absurd (hhead.symm.trans hzero) (head?_toDigits_ne hpos)
  fraction := hfraction
  exponent := hexponent

theorem good_positionalSpelling {d : Decimal} (hpos : 0 < d.digits) :
    d.positionalSpelling.Good := by
  have hzeros (n : Nat) : ∀ c ∈ List.replicate n '0', c.isDigit := fun c hc => by
    rw [List.eq_of_mem_replicate hc]
    decide
  have hdigits : ∀ c ∈ d.digitText, c.isDigit := fun c => isDigit_of_mem_toDigits
  have hzero : ∀ c ∈ ['0'], c.isDigit := hzeros 1
  unfold positionalSpelling
  dsimp only
  split
  · refine good_of_head? hpos ?_ (List.forall_mem_append.2 ⟨hdigits, hzeros _⟩) hzero nofun
    rw [List.head?_append, Option.or_of_isSome (by simp [d.digitText_ne_nil])]
  split
  · exact ⟨hzero, List.cons_ne_nil _ _, fun _ => rfl,
      List.forall_mem_append.2 ⟨hzeros _, hdigits⟩, nofun⟩
  · rename_i hlen
    refine good_of_head? hpos ?_ (fun c hc => hdigits c (List.mem_of_mem_take hc))
      (fun c hc => hdigits c (List.mem_of_mem_drop hc)) nofun
    rw [List.head?_take, if_neg (by omega)]

theorem good_scientificSpelling {d : Decimal} (hpos : 0 < d.digits) :
    d.scientificSpelling.Good := by
  have hdigits : ∀ c ∈ d.digitText, c.isDigit := fun c => isDigit_of_mem_toDigits
  refine good_of_head? hpos ?_ (fun c hc => hdigits c (List.mem_of_mem_take hc))
    (fun c hc => hdigits c (List.mem_of_mem_drop hc)) ?_
  · rw [scientificSpelling, List.head?_take, if_neg Nat.one_ne_zero]
  · rintro e ds ⟨⟩
    exact ⟨Nat.toDigits_ne_nil, fun c => isDigit_of_mem_toDigits⟩

end Decimal

/-! ## Gathered digits -/

namespace Json

theorem le_ofDigitChars (ds : List Char) (n : Nat) : n ≤ Nat.ofDigitChars 10 ds n := by
  rw [Nat.ofDigitChars_eq_ofDigitChars_zero]
  exact Nat.le_add_right_of_le (Nat.le_mul_of_pos_left n (Nat.pow_pos (by decide)))

theorem fits_of_ofDigitChars {c : Char} {ds : List Char} {n : Nat}
    (h : Nat.ofDigitChars 10 (c :: ds) n < 2 ^ 64) : fits n (c.toNat - 48) := by
  rw [Nat.ofDigitChars_cons, Nat.mul_comm] at h
  exact decide_eq_true (Nat.lt_of_le_of_lt (le_ofDigitChars ds _) h)

theorem gatherWhole_values {ds : List Char} {g : Gathered}
    (h : Nat.ofDigitChars 10 ds g.significand < 2 ^ 64) :
    gatherWhole g (values ds) = ⟨Nat.ofDigitChars 10 ds g.significand, g.exponent⟩ := by
  induction ds generalizing g with
  | nil => rfl
  | cons c ds ih =>
      have hfits := fits_of_ofDigitChars h
      rw [Nat.ofDigitChars_cons, Nat.mul_comm] at h
      rw [values, List.map_cons, gatherWhole, if_pos hfits, Nat.ofDigitChars_cons, Nat.mul_comm 10]
      exact ih h

theorem gatherFraction_values {ds : List Char} {g : Gathered}
    (h : Nat.ofDigitChars 10 ds g.significand < 2 ^ 64) :
    gatherFraction g (values ds) =
      ⟨Nat.ofDigitChars 10 ds g.significand, g.exponent - ds.length⟩ := by
  induction ds generalizing g with
  | nil => simp [values, gatherFraction]
  | cons c ds ih =>
      have hfits := fits_of_ofDigitChars h
      rw [Nat.ofDigitChars_cons, Nat.mul_comm] at h
      have hexp : g.exponent - (c :: ds).length = g.exponent - 1 - ds.length := by
        rw [List.length_cons]
        omega
      rw [values, List.map_cons, gatherFraction, if_pos hfits, Nat.ofDigitChars_cons,
        Nat.mul_comm 10, hexp]
      exact ih h

theorem Spelling.gathered_literal {n : Spelling} {negative : Bool} {v : Nat}
    (hvalue : Nat.ofDigitChars 10 (n.whole ++ n.fraction) 0 = v) (h : v < 2 ^ 64) :
    (n.literal negative).gathered = ⟨v, -n.fraction.length⟩ := by
  rw [Nat.ofDigitChars_append] at hvalue
  subst hvalue
  have hwhole := Nat.lt_of_le_of_lt (le_ofDigitChars n.fraction _) h
  rw [Literal.gathered, literal, gatherWhole_values hwhole, gatherFraction_values h, Int.zero_sub]

end Json

namespace Decimal

open Json (Spelling Gathered)

def gathered (d : Decimal) : Gathered :=
  if Style.json.positional d.leading ∧ 0 ≤ d.exponent then
    ⟨d.digits * 10 ^ (d.exponent.toNat + 1), -1⟩
  else ⟨d.digits, d.exponent⟩

theorem digits_lt_pow (d : Decimal) : d.digits < 10 ^ d.digitText.length :=
  (Nat.length_toDigits_le_iff (by decide) (List.length_pos_iff.2 d.digitText_ne_nil)).1
    (Nat.le_refl _)

theorem ofDigitChars_digitText (d : Decimal) : Nat.ofDigitChars 10 d.digitText 0 = d.digits :=
  Nat.ofDigitChars_ten_toDigits

theorem magnitude?_of_exponent_eq_none {n : Spelling} {negative : Bool} {g : Gathered}
    (hexponent : n.exponent = none)
    (hvalue : Nat.ofDigitChars 10 (n.whole ++ n.fraction) 0 = g.significand)
    (hlength : g.exponent = -n.fraction.length) (hlt : g.significand < 2 ^ 64) :
    (n.literal negative).magnitude? = g.scale? := by
  have hgathered : (n.literal negative).gathered = g := by
    rw [Spelling.gathered_literal hvalue hlt, ← hlength]
  have hnone : (n.literal negative).exponent = none := by
    rw [Spelling.literal, hexponent, Option.map_none]
  simp only [Json.Literal.magnitude?, hgathered, hnone]

theorem gathered_whole_lt {d : Decimal} (h : Style.json.positional d.leading)
    (hexp : 0 ≤ d.exponent) : d.digits * 10 ^ (d.exponent.toNat + 1) < 2 ^ 64 := by
  have hleading : d.leading < 16 := by
    simp only [Style.json, Bool.and_eq_true, decide_eq_true_eq] at h
    exact h.2
  have hlength : d.digitText.length + d.exponent.toNat ≤ 16 := by
    unfold leading at hleading
    unfold digitText
    omega
  calc d.digits * 10 ^ (d.exponent.toNat + 1)
      ≤ 10 ^ d.digitText.length * 10 ^ (d.exponent.toNat + 1) :=
        Nat.mul_le_mul_right _ (Nat.le_of_lt d.digits_lt_pow)
    _ = 10 ^ (d.digitText.length + (d.exponent.toNat + 1)) := (Nat.pow_add ..).symm
    _ ≤ 10 ^ 17 := Nat.pow_le_pow_right (by decide) (by omega)
    _ < 2 ^ 64 := by decide

theorem magnitude?_positionalSpelling {d : Decimal} (negative : Bool) (hlt : d.digits < 2 ^ 64)
    (h : Style.json.positional d.leading) :
    (d.positionalSpelling.literal negative).magnitude? = d.gathered.scale? := by
  unfold positionalSpelling gathered
  dsimp only
  by_cases hexp : 0 ≤ d.exponent
  · rw [if_pos hexp, if_pos ⟨h, hexp⟩]
    refine magnitude?_of_exponent_eq_none rfl ?_ rfl (gathered_whole_lt h hexp)
    simp only [Nat.ofDigitChars_append, ofDigitChars_digitText, Nat.ofDigitChars_replicate_zero,
      Nat.ofDigitChars_cons, Nat.ofDigitChars_nil, Nat.sub_self, Nat.add_zero, Nat.pow_succ]
    ac_rfl
  have hwhole : ¬ (Style.json.positional d.leading ∧ 0 ≤ d.exponent) := fun h => hexp h.2
  rw [if_neg hexp, if_neg hwhole]
  split
  · rename_i hlen
    refine magnitude?_of_exponent_eq_none rfl ?_ ?_ hlt
    · simp only [Nat.ofDigitChars_append, Nat.ofDigitChars_replicate_zero, Nat.ofDigitChars_cons,
        Nat.ofDigitChars_nil, Nat.sub_self, Nat.mul_zero, Nat.add_zero, ofDigitChars_digitText]
    · simp only [List.length_append, List.length_replicate]
      omega
  · rename_i hlen
    refine magnitude?_of_exponent_eq_none rfl ?_ ?_ hlt
    · simp only [List.take_append_drop, ofDigitChars_digitText]
    · simp only [List.length_drop]
      omega

theorem foldl_values (ds : List Char) :
    (Json.values ds).foldl (fun v d => 10 * v + d) 0 = Nat.ofDigitChars 10 ds 0 := by
  rw [Json.values, List.foldl_map, Nat.ofDigitChars_eq_foldl]
  rfl

theorem clampExponent_eq {e : Int} (h : e.natAbs ≤ 2 ^ 30) : Json.clampExponent e = e := by
  unfold Json.clampExponent Json.exponentBound
  omega

theorem magnitude?_scientificSpelling {d : Decimal} (negative : Bool) (hlt : d.digits < 2 ^ 57)
    (hexp : d.exponent.natAbs ≤ 1000) (h : ¬ Style.json.positional d.leading) :
    (d.scientificSpelling.literal negative).magnitude? = d.gathered.scale? := by
  have hlength : 0 < d.digitText.length ∧ d.digitText.length ≤ 18 := by
    have hpos := List.length_pos_iff.2 d.digitText_ne_nil
    have hle := (Nat.length_toDigits_le_iff (b := 10) (k := 18) (by decide) (by decide)).2
      (Nat.lt_trans hlt (by decide))
    exact ⟨hpos, hle⟩
  have hgathered : (d.scientificSpelling.literal negative).gathered =
      ⟨d.digits, -(d.digitText.drop 1).length⟩ := by
    refine Spelling.gathered_literal ?_ (Nat.lt_trans hlt (by decide))
    simp only [scientificSpelling, List.take_append_drop, ofDigitChars_digitText]
  have hexponent : (d.scientificSpelling.literal negative).exponent =
      some (decide (d.leading < 0), Json.values (Nat.toDigits 10 d.leading.natAbs)) := rfl
  have hleading : d.leading = d.exponent + d.digitText.length - 1 := rfl
  have hwhole : ¬ (Style.json.positional d.leading ∧ 0 ≤ d.exponent) := fun hw => h hw.1
  have hsum : (if decide (d.leading < 0) = true then
      -((d.digitText.drop 1).length : Int) - d.leading.natAbs
      else -((d.digitText.drop 1).length : Int) + d.leading.natAbs) = d.exponent := by
    simp only [decide_eq_true_eq, List.length_drop]
    split_ifs <;> omega
  have hbound : ¬ Json.exponentBound < (d.leading.natAbs : Int) := by
    unfold Json.exponentBound
    omega
  rw [Decimal.gathered, if_neg hwhole]
  simp only [Json.Literal.magnitude?, hgathered, hexponent, foldl_values,
    Nat.ofDigitChars_ten_toDigits, if_neg hbound, hsum]
  rw [clampExponent_eq (by omega)]

end Decimal

/-! ## Read again -/

namespace Json.Spelling

variable {n : Spelling}

theorem ascii_text (h : n.Good) : ∀ c ∈ n.text, c.toNat < 128 := by
  have hdigits {ds : List Char} (hd : ∀ c ∈ ds, c.isDigit) : ∀ c ∈ ds, c.toNat < 128 := by
    intro c hc
    have hdigit := toNat_ascii (hd c hc)
    omega
  have hfraction : ∀ c ∈ fractionText n.fraction, c.toNat < 128 := by
    cases hf : n.fraction with
    | nil => exact nofun
    | cons d ds => exact List.forall_mem_cons.2 ⟨by decide, hdigits (hf ▸ h.fraction)⟩
  have hexponent : ∀ c ∈ exponentText n.exponent, c.toNat < 128 := by
    cases he : n.exponent with
    | none => exact nofun
    | some p =>
        obtain ⟨s, ds⟩ := p
        refine List.forall_mem_cons.2 ⟨by decide, List.forall_mem_cons.2 ⟨?_, ?_⟩⟩
        · cases s <;> decide
        · exact hdigits (h.exponent s ds he).2
  exact List.forall_mem_append.2 ⟨List.forall_mem_append.2 ⟨hdigits h.whole, hfraction⟩, hexponent⟩

/-- A text that is a spelling after its sign is read as the literal of the spelling. -/
theorem read_text (h : n.Good) {negative : Bool} {s : String}
    (hs : s.toList = (if negative then ['-'] else []) ++ n.text) :
    Tree.read (utf8 s) = some (.number (n.literal negative)) := by
  refine (readsAs_of_scanLiteral ?_).read
  have hascii : ∀ c ∈ s.toList, c.toNat < 128 := by
    rw [hs]
    refine List.forall_mem_append.2 ⟨?_, ascii_text h⟩
    cases negative
    · exact List.forall_mem_nil _
    · exact List.forall_mem_singleton.2 (by decide)
  rw [utf8_eq_flatMap, flatMap_utf8EncodeChar hascii, hs, scanLiteral_text h]

end Json.Spelling

namespace Binary64

open Json (Tree)

variable {x : Binary64}

def spelling (x : Binary64) : Json.Spelling :=
  let d := x.shortest .even
  if Style.json.positional d.leading then d.positionalSpelling else d.scientificSpelling

theorem toList_text_json (hfinite : x.isFinite) (hs : 0 < x.significand) :
    (x.text .json).toList = (if x.isNegative then ['-'] else []) ++ x.spelling.text := by
  have hnan := isNaN_of_isFinite hfinite
  have hinfinite := isInfinite_of_isFinite hfinite
  have hzero := significand_pos_iff.1 hs
  have hsign : (if x.isNegative then "-" else "").toList = if x.isNegative then ['-'] else [] := by
    split <;> rfl
  have htie : Style.json.tie = .even := rfl
  have hwhole : Style.json.whole = ".0" := rfl
  simp only [text, hnan, hinfinite, hzero, Bool.false_eq_true, if_false, String.toList_append,
    hsign, htie, hwhole, spelling]
  refine congrArg _ ?_
  split
  · exact Decimal.text_positionalSpelling _
  · exact Decimal.text_scientificSpelling _

/-- The JSON text of a number is read as what scaling the gathered digits of its shortest decimal
gives. -/
theorem reread?_eq (hfinite : x.isFinite) (hs : 0 < x.significand) :
    x.reread? = (x.shortest .even).gathered.scale?.map fun y => if x.isNegative then -y else y := by
  obtain ⟨-, hcoarsest, hfinest, -⟩ := shortest_eq_some hs .even
  have hpos := digits_pos hs .even
  have hlt := digits_lt hs hfinite .even
  have htext := toList_text_json hfinite hs
  have hmagnitude : x.spelling.Good ∧ ∀ negative, (x.spelling.literal negative).magnitude? =
      (x.shortest .even).gathered.scale? := by
    unfold spelling
    dsimp only
    split
    · rename_i hplaces
      exact ⟨Decimal.good_positionalSpelling hpos, fun negative =>
        Decimal.magnitude?_positionalSpelling negative (Nat.lt_trans hlt (by decide)) hplaces⟩
    · rename_i hplaces
      exact ⟨Decimal.good_scientificSpelling hpos, fun negative =>
        Decimal.magnitude?_scientificSpelling negative hlt (by omega) hplaces⟩
  rw [reread?, Json.Spelling.read_text hmagnitude.1 htext, Option.bind_some, Tree.toBinary64?,
    Json.Literal.toBinary64?, hmagnitude.2]
  rfl

end Binary64

end CacheBench
