import CacheBench.Record
import Mathlib.Tactic.Common

/-!
# Text as bytes and as numbers

The bytes of a text are those of its characters one after the other. An ASCII character stands for
itself there and its byte for nothing else, so that a break of lines can be looked for in either
form. A number that was written in decimal is read back.
-/

namespace CacheBench

/-! ## Bytes -/

theorem utf8_eq_flatMap (s : String) : utf8 s = s.toList.flatMap String.utf8EncodeChar := by
  rw [utf8, String.toUTF8_eq_toByteArray, ← String.utf8Encode_toList, List.utf8Encode,
    List.toList_data_toByteArray]

theorem utf8_append (s t : String) : utf8 (s ++ t) = utf8 s ++ utf8 t := by
  simp [utf8_eq_flatMap]

theorem text?_utf8 (s : String) : text? (utf8 s) = some s := by
  have hbytes : (⟨(utf8 s).toArray⟩ : ByteArray) = s.toByteArray := by simp [utf8]
  rw [text?, hbytes, String.fromUTF8?, dif_pos s.isValidUTF8]
  rfl

theorem text?_eq_some_iff {b : Bytes} {s : String} : text? b = some s ↔ utf8 s = b := by
  constructor
  · intro h
    unfold text? String.fromUTF8? at h
    split at h
    · cases h
      rfl
    · cases h
  · rintro rfl
    exact text?_utf8 s

theorem mem_utf8EncodeChar_iff {a c : Char} (ha : a.toNat < 128) :
    ascii a ∈ String.utf8EncodeChar c ↔ c = a := by
  change a.val.toNat < 128 at ha
  have hc := c.val.toNat_lt
  have hbyte : (ascii a).toNat = a.val.toNat := by
    change a.val.toUInt8.toNat = _
    rw [UInt32.toNat_toUInt8]
    exact Nat.mod_eq_of_lt (by omega)
  have heq : c = a ↔ c.val.toNat = a.val.toNat := by rw [UInt32.toNat_inj, Char.ext_iff]
  rw [heq]
  unfold String.utf8EncodeChar
  dsimp only
  split_ifs <;> simp only [List.mem_cons, List.not_mem_nil, or_false, ← UInt8.toNat_inj, hbyte,
    UInt8.toNat_ofNat'] <;> omega

theorem mem_utf8_iff {a : Char} (ha : a.toNat < 128) {s : String} :
    ascii a ∈ utf8 s ↔ a ∈ s.toList := by
  simp [utf8_eq_flatMap, mem_utf8EncodeChar_iff ha]

theorem le_of_mem_utf8EncodeChar {c : Char} {x : UInt8} (h : x ∈ String.utf8EncodeChar c) :
    0x20 ≤ c.toNat → 0x20 ≤ x.toNat := by
  have hc := c.val.toNat_lt
  change 0x20 ≤ c.val.toNat → _
  revert h
  unfold String.utf8EncodeChar
  dsimp only
  split_ifs <;> simp only [List.mem_cons, List.not_mem_nil, or_false, ← UInt8.toNat_inj,
    UInt8.toNat_ofNat'] <;> omega

theorem flatMap_utf8EncodeChar {cs : List Char} (h : ∀ c ∈ cs, c.toNat < 128) :
    cs.flatMap String.utf8EncodeChar = cs.map ascii := by
  induction cs with
  | nil => rfl
  | cons c cs ih =>
      have hc : c.val ≤ 127 := by
        have := h c List.mem_cons_self
        change c.val.toNat < 128 at this
        rw [UInt32.le_iff_toNat_le]
        exact Nat.le_of_lt_succ this
      rw [List.flatMap_cons, ih fun x hx => h x (List.mem_cons_of_mem c hx),
        String.utf8EncodeChar_eq_singleton (Char.utf8Size_eq_one_iff.2 hc)]
      rfl

theorem length_utf8_le (s : String) : (utf8 s).length ≤ 4 * s.toList.length := by
  rw [utf8_eq_flatMap]
  induction s.toList with
  | nil => exact Nat.le_refl _
  | cons c cs ih =>
      have hc := c.utf8Size_le_four
      rw [List.flatMap_cons, List.length_append, String.length_utf8EncodeChar, List.length_cons]
      omega

theorem map_eq_of_toList {f : Char → Char} {s t : String} (h : s.toList.map f = t.toList) :
    s.map f = t := by
  rw [← String.toList_inj, String.toList_map, h]

/-! ## Decimal numbers -/

theorem digitsValue_toDigits (n : Nat) : digitsValue (Nat.toDigits 10 n) = n :=
  Nat.ofDigitChars_ten_toDigits

theorem isDigit_of_mem_toDigits {n : Nat} {c : Char} (h : c ∈ Nat.toDigits 10 n) : c.isDigit :=
  Nat.isDigit_of_mem_toDigits (by decide) (by decide) h

theorem toNat_ascii {c : Char} (h : c.isDigit) :
    (ascii c).toNat = c.toNat ∧ 48 ≤ c.toNat ∧ c.toNat ≤ 57 := by
  simp only [Char.isDigit, Bool.and_eq_true, decide_eq_true_eq, ge_iff_le,
    UInt32.le_iff_toNat_le] at h
  change c.val.toUInt8.toNat = c.val.toNat ∧ 48 ≤ c.val.toNat ∧ c.val.toNat ≤ 57
  have hlow : 48 ≤ c.val.toNat := h.1
  have hhigh : c.val.toNat ≤ 57 := h.2
  exact ⟨by rw [UInt32.toNat_toUInt8]; omega, hlow, hhigh⟩

/-- A written number has no zero in front. -/
theorem head?_toDigits_ne {n : Nat} (h : 0 < n) : (Nat.toDigits 10 n).head? ≠ some '0' := by
  induction n using Nat.strongRecOn with
  | ind n ih =>
      by_cases hlt : n < 10
      · rw [Nat.toDigits_of_lt_base hlt]
        have hdigit : ∀ m < 10, 0 < m → [Nat.digitChar m].head? ≠ some '0' := by decide
        exact hdigit n hlt h
      · rw [Nat.toDigits_of_base_le (by decide) (by omega),
          List.head?_append, Option.or_of_isSome (by simp [Nat.toDigits_ne_nil])]
        exact ih (n / 10) (by omega) (by omega)

theorem utf8_toString_nat (n : Nat) : utf8 (toString n) = (Nat.toDigits 10 n).map ascii := by
  rw [utf8_eq_flatMap, Nat.toString_eq_ofList_toDigits, String.toList_ofList]
  refine flatMap_utf8EncodeChar fun c hc => ?_
  have := toNat_ascii (isDigit_of_mem_toDigits hc)
  omega

/-- A run of digits has no sign in front. -/
theorem wholeNumber?_ofList {ds : List Char} (hne : ds ≠ []) (hd : ∀ c ∈ ds, c.isDigit) :
    wholeNumber? (String.ofList ds) = some (digitsValue ds) := by
  have hall : ds.all Char.isDigit := List.all_eq_true.2 hd
  have hsign : ∀ r, ds ≠ '+' :: r := by
    rintro r rfl
    exact absurd (hd '+' List.mem_cons_self) (by decide)
  unfold wholeNumber?
  rw [String.toList_ofList]
  split
  · rename_i r
    exact absurd rfl (hsign r)
  · simp [hne, hall]

theorem wholeNumber?_toString (n : Nat) : wholeNumber? (toString n) = some n := by
  rw [Nat.toString_eq_ofList_toDigits,
    wholeNumber?_ofList Nat.toDigits_ne_nil fun c => isDigit_of_mem_toDigits, digitsValue_toDigits]

theorem Key.ofText?_toString (k : Key) : Key.ofText? (toString k) = some k := by
  have htext : toString k = toString k.toNat := rfl
  have hlt : k.toNat < 2 ^ 64 := k.toNat_lt
  rw [Key.ofText?, htext, wholeNumber?_toString]
  simp [hlt]

theorem Key.length_utf8_toString_le (k : Key) : (utf8 (toString k)).length ≤ 80 := by
  have hdigits : (Nat.toDigits 10 k.toNat).length ≤ 20 := by
    rw [Nat.length_toDigits_le_iff (by decide) (by decide)]
    exact Nat.lt_of_lt_of_le k.toNat_lt (by decide)
  have htext : (toString k).toList = Nat.toDigits 10 k.toNat := by
    change (toString k.toNat).toList = _
    rw [Nat.toString_eq_ofList_toDigits, String.toList_ofList]
  have hlength := length_utf8_le (toString k)
  rw [htext] at hlength
  omega

end CacheBench
