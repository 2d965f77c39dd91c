import CacheBench.Json.Shape
import CacheBench.Proofs.TextBytes

/-!
# Scanned strings and numbers

The two scanners of JSON texts that look at single bytes. `Spells` says of a piece of a string's
inside that it is scanned over and read as given bytes wherever it stands, so that a written string
is spelled out of its escaped characters. A number ends where something stands that could not go on
with it: what a scanner makes of a number alone, it makes of the number before a `Delimited` rest.
A `Spelling` has the characters of a number, and the scanner takes it for the literal of its digits.
-/

namespace CacheBench.Json

/-! ## Strings -/

/-- Bytes inside a string that stand for the bytes `b`, whatever follows them there. -/
structure Spells (raw b : Bytes) : Prop where
  scan : ∀ rest, scanString (raw ++ rest) = (scanString rest).map fun (x, t) => (raw ++ x, t)
  read : ∀ rest, unescape? (raw ++ rest) = (unescape? rest).map (b ++ ·)

namespace Spells

theorem nil : Spells [] [] where
  scan rest := by cases h : scanString rest <;> simp [h]
  read rest := by cases h : unescape? rest <;> simp [h]

theorem append {raw b raw' b' : Bytes} (h : Spells raw b) (h' : Spells raw' b') :
    Spells (raw ++ raw') (b ++ b') where
  scan rest := by
    rw [List.append_assoc, h.scan, h'.scan, Option.map_map]
    simp [Function.comp_def]
  read rest := by
    rw [List.append_assoc, h.read, h'.read, Option.map_map]
    simp [Function.comp_def]

theorem plain {c : UInt8} (hq : c ≠ ascii '"') (hs : c ≠ ascii '\\') (hc : 0x20 ≤ c) :
    Spells [c] [c] where
  scan rest := by
    rw [List.singleton_append, scanString.eq_def]
    simp [hq, hs, UInt8.not_lt.2 hc]
  read rest := by
    rw [List.singleton_append, unescape?.eq_def]
    simp [hs]

theorem short {e x : UInt8} (h : shortEscape? e = some x) : Spells [ascii '\\', e] [x] := by
  have hu : e ≠ ascii 'u' := by
    rintro rfl
    exact absurd (h.symm.trans (by decide)) (Option.some_ne_none x)
  have hq : ascii '\\' ≠ ascii '"' := by decide
  constructor
  · intro rest
    rw [scanString.eq_def]
    simp [hu, hq, h]
  · intro rest
    rw [unescape?.eq_def]
    simp [hu, h]
    cases unescape? rest <;> rfl

theorem unicode {a b c d : UInt8} {n : Nat} (h : hexQuad? a b c d = some n) (hn : n < 0xd800) :
    Spells [ascii '\\', ascii 'u', a, b, c, d] (String.utf8EncodeChar (Char.ofNat n)) := by
  have hq : ascii '\\' ≠ ascii '"' := by decide
  constructor
  · intro rest
    rw [scanString.eq_def]
    simp [hq, h]
  · intro rest
    rw [unescape?.eq_def]
    simp [h, hn]
    cases unescape? rest <;> rfl

/-- A piece of bytes without quote, backslash or control character stands for itself. -/
theorem plains {b : Bytes} (h : ∀ c ∈ b, c ≠ ascii '"' ∧ c ≠ ascii '\\' ∧ 0x20 ≤ c) :
    Spells b b := by
  induction b with
  | nil => exact nil
  | cons c b ih =>
      obtain ⟨hq, hs, hc⟩ := h c List.mem_cons_self
      exact (plain hq hs hc).append (ih fun x hx => h x (List.mem_cons_of_mem c hx))

theorem control {c : Char} (h : c.toNat < 0x20) :
    Spells [ascii '\\', ascii 'u', ascii '0', ascii '0', ascii (lowerHex (c.toNat / 16)),
      ascii (lowerHex c.toNat)] (String.utf8EncodeChar c) := by
  have hquad : ∀ n < 0x20, hexQuad? (ascii '0') (ascii '0') (ascii (lowerHex (n / 16)))
      (ascii (lowerHex n)) = some n := by decide
  have hc := unicode (hquad c.toNat h) (by omega)
  rwa [Char.ofNat_toNat] at hc

theorem itself {c : Char} (hq : c ≠ '"') (hs : c ≠ '\\') (hc : 0x20 ≤ c.toNat) :
    Spells (String.utf8EncodeChar c) (String.utf8EncodeChar c) := by
  refine plains fun x hx => ⟨?_, ?_, ?_⟩
  · rintro rfl
    exact hq ((mem_utf8EncodeChar_iff (by decide)).1 hx)
  · rintro rfl
    exact hs ((mem_utf8EncodeChar_iff (by decide)).1 hx)
  · have hle := le_of_mem_utf8EncodeChar hx
    rw [UInt8.le_iff_toNat_le]
    exact hle hc

theorem escape (c : Char) :
    Spells ((Json.escape c).flatMap String.utf8EncodeChar) (String.utf8EncodeChar c) := by
  unfold Json.escape
  split_ifs with h1 h2 h3 h4 h5 h6 h7 h8
  · subst h1
    exact short (by decide)
  · subst h2
    exact short (by decide)
  · subst h3
    exact short (by decide)
  · subst h4
    exact short (by decide)
  · subst h5
    exact short (by decide)
  · subst h6
    exact short (by decide)
  · subst h7
    exact short (by decide)
  · rw [flatMap_utf8EncodeChar]
    · exact control h8
    · have hhex : ∀ n, (lowerHex n).toNat < 128 := fun n =>
        (by decide : ∀ m < 16, (Nat.digitChar m).toNat < 128) _ (Nat.mod_lt n (by decide))
      simp [hhex]
  · rw [List.flatMap_singleton]
    exact itself h1 h2 (by omega)

end Spells

def inside (s : String) : Bytes := utf8 (String.ofList (s.toList.flatMap escape))

theorem spells_inside (s : String) : Spells (inside s) (utf8 s) := by
  rw [inside, utf8_eq_flatMap, utf8_eq_flatMap, String.toList_ofList, List.flatMap_assoc]
  induction s.toList with
  | nil => exact .nil
  | cons c cs ih => exact (Spells.escape c).append ih

theorem unquote?_inside (s : String) : unquote? (inside s) = some s := by
  have h := (spells_inside s).read []
  rw [List.append_nil] at h
  rw [unquote?, h]
  simp [unescape?, text?_utf8]

theorem utf8_quote (s : String) : utf8 (quote s) = ascii '"' :: (inside s ++ [ascii '"']) := by
  have hquote : utf8 "\"" = [ascii '"'] := by decide
  rw [quote, utf8_append, utf8_append, hquote]
  rfl

theorem scanString_inside (s : String) (rest : Bytes) :
    scanString (inside s ++ ascii '"' :: rest) = some (inside s, rest) := by
  have hend : scanString (ascii '"' :: rest) = some ([], rest) := by
    rw [scanString.eq_def]
    rfl
  rw [(spells_inside s).scan, hend]
  simp

/-! ## Numbers -/

/-- Nothing at the front that would go on with a number. -/
def Delimited (rest : Bytes) : Prop :=
  ∀ c ∈ rest.head?, isDigit c = false ∧ c ≠ ascii '.' ∧ c ≠ ascii 'e' ∧ c ≠ ascii 'E'

theorem delimited_nil : Delimited [] := nofun

theorem scanDigits_append {s rest : Bytes} (h : Delimited rest) :
    scanDigits (s ++ rest) = ((scanDigits s).1, (scanDigits s).2 ++ rest) := by
  induction s with
  | nil =>
      cases rest with
      | nil => rfl
      | cons c rest => simp [scanDigits, (h c rfl).1]
  | cons c s ih =>
      simp only [scanDigits, Prod.mk.injEq] at ih ⊢
      cases hc : isDigit c with
      | true => simp [hc, ih]
      | false => simp [hc]

/-- A part of a number that needs a digit, read before what delimits it. -/
theorem someDigits_append {α : Type} (part : List Nat → α) {x : α} {s r rest : Bytes}
    (hs : (if (scanDigits s).1.isEmpty then none
      else some (part (scanDigits s).1, (scanDigits s).2)) = some (x, r)) (h : Delimited rest) :
    (if (scanDigits (s ++ rest)).1.isEmpty then none
      else some (part (scanDigits (s ++ rest)).1, (scanDigits (s ++ rest)).2)) =
        some (x, r ++ rest) := by
  rw [scanDigits_append h]
  split_ifs at hs ⊢
  cases hs
  rfl

theorem scanFraction_append {s r rest : Bytes} {ds : List Nat} (hs : scanFraction s = some (ds, r))
    (h : Delimited rest) : scanFraction (s ++ rest) = some (ds, r ++ rest) := by
  cases s with
  | nil =>
      cases hs
      cases rest with
      | nil => rfl
      | cons c rest => simp [scanFraction, (h c rfl).2.1]
  | cons c s =>
      simp only [scanFraction, List.cons_append] at hs ⊢
      by_cases hc : c = ascii '.'
      · rw [if_pos hc] at hs ⊢
        exact someDigits_append id hs h
      · rw [if_neg hc] at hs ⊢
        cases hs
        rfl

theorem scanExponent_append {s r rest : Bytes} {e : Option (Bool × List Nat)}
    (hs : scanExponent s = some (e, r)) (h : Delimited rest) :
    scanExponent (s ++ rest) = some (e, r ++ rest) := by
  cases s with
  | nil =>
      cases hs
      cases rest with
      | nil => rfl
      | cons c rest => simp [scanExponent, (h c rfl).2.2]
  | cons c s =>
      simp only [scanExponent, List.cons_append] at hs ⊢
      by_cases hc : (c = ascii 'e' || c = ascii 'E') = true
      · rw [if_pos hc] at hs ⊢
        cases s with
        | nil => simp [scanDigits] at hs
        | cons d t =>
            simp only [List.cons_append] at hs ⊢
            by_cases hminus : d = ascii '-'
            · simp only [if_pos hminus] at hs ⊢
              exact someDigits_append (fun ds => some (true, ds)) hs h
            by_cases hplus : d = ascii '+'
            · simp only [if_neg hminus, if_pos hplus] at hs ⊢
              exact someDigits_append (fun ds => some (false, ds)) hs h
            · simp only [if_neg hminus, if_neg hplus] at hs ⊢
              exact someDigits_append (fun ds => some (false, ds)) hs h
      · rw [if_neg hc] at hs ⊢
        cases hs
        rfl

def scanUnsigned (negative : Bool) (s : Bytes) : Option (Literal × Bytes) :=
  if (scanDigits s).1.isEmpty || ((scanDigits s).1.head? = some 0 && (scanDigits s).1.length ≠ 1)
  then none
  else do
    let (fraction, r) ← scanFraction (scanDigits s).2
    let (exponent, r) ← scanExponent r
    return (⟨negative, (scanDigits s).1, fraction, exponent⟩, r)

theorem scanLiteral_cons (c : UInt8) (s : Bytes) :
    scanLiteral (c :: s) =
      if c = ascii '-' then scanUnsigned true s else scanUnsigned false (c :: s) := by
  by_cases hc : c = ascii '-' <;> simp only [scanLiteral, hc, if_true, if_false] <;> rfl

theorem scanUnsigned_append {negative : Bool} {s r rest : Bytes} {n : Literal}
    (hs : scanUnsigned negative s = some (n, r)) (h : Delimited rest) :
    scanUnsigned negative (s ++ rest) = some (n, r ++ rest) := by
  simp only [scanUnsigned, scanDigits_append h] at hs ⊢
  split_ifs at hs ⊢ with hwhole
  obtain ⟨⟨fraction, u⟩, hfraction, hs⟩ := Option.bind_eq_some_iff.1 hs
  obtain ⟨⟨exponent, v⟩, hexponent, hs⟩ := Option.bind_eq_some_iff.1 hs
  cases hs
  simp [scanFraction_append hfraction h, scanExponent_append hexponent h]

theorem scanLiteral_append {s r rest : Bytes} {n : Literal} (hs : scanLiteral s = some (n, r))
    (h : Delimited rest) : scanLiteral (s ++ rest) = some (n, r ++ rest) := by
  cases s with
  | nil => cases hs
  | cons c s =>
      rw [List.cons_append, scanLiteral_cons] at *
      split_ifs at hs ⊢
      · exact scanUnsigned_append hs h
      · exact scanUnsigned_append hs h

/-- The first byte of a number is that of no other value, nor a blank. -/
theorem scanLiteral_front {c : UInt8} {s : Bytes} {x : Literal × Bytes}
    (h : scanLiteral (c :: s) = some x) :
    isBlank c = false ∧ c ≠ ascii '\x7b' ∧ c ≠ ascii '[' ∧ c ≠ ascii '"' ∧ c ≠ ascii 'n' ∧
      c ≠ ascii 't' ∧ c ≠ ascii 'f' := by
  rw [scanLiteral_cons] at h
  split_ifs at h with hminus
  · subst hminus
    decide
  · have hdigit : isDigit c = true := by
      by_contra hc
      simp [scanUnsigned, scanDigits, hc] at h
    simp only [isBlank, Bool.or_eq_false_iff, decide_eq_false_iff_not]
    refine ⟨⟨⟨⟨?_, ?_⟩, ?_⟩, ?_⟩, ?_, ?_, ?_, ?_, ?_, ?_⟩ <;>
      (rintro rfl; exact absurd hdigit (by decide))

/-! ## Spellings -/

theorem isDigit_ascii {c : Char} (h : c.isDigit) : isDigit (ascii c) = true := by
  obtain ⟨hc, hlow, hhigh⟩ := toNat_ascii h
  have hzero : (ascii '0').toNat = 48 := rfl
  have hnine : (ascii '9').toNat = 57 := rfl
  simp only [isDigit, Bool.and_eq_true, decide_eq_true_eq, UInt8.le_iff_toNat_le]
  omega

/-- The characters of a number without its sign. The exponent has its own sign, true for minus. -/
structure Spelling where
  whole : List Char
  fraction : List Char
  exponent : Option (Bool × List Char) := none

def values (ds : List Char) : List Nat := ds.map fun c => c.toNat - 48

namespace Spelling

def fractionText : List Char → List Char
  | [] => []
  | ds => '.' :: ds

def exponentText : Option (Bool × List Char) → List Char
  | none => []
  | some (negative, ds) => 'e' :: (if negative then '-' else '+') :: ds

def text (n : Spelling) : List Char := n.whole ++ fractionText n.fraction ++ exponentText n.exponent

def literal (n : Spelling) (negative : Bool) : Literal :=
  ⟨negative, values n.whole, values n.fraction, n.exponent.map fun (e, ds) => (e, values ds)⟩

structure Good (n : Spelling) : Prop where
  whole : ∀ c ∈ n.whole, c.isDigit
  whole_ne_nil : n.whole ≠ []
  front : n.whole.head? = some '0' → n.whole.length = 1
  fraction : ∀ c ∈ n.fraction, c.isDigit
  exponent : ∀ e ds, n.exponent = some (e, ds) → ds ≠ [] ∧ ∀ c ∈ ds, c.isDigit

theorem scanDigits_values {ds : List Char} (hd : ∀ c ∈ ds, c.isDigit) (rest : Bytes)
    (hrest : ∀ c ∈ rest.head?, isDigit c = false) :
    scanDigits (ds.map ascii ++ rest) = (values ds, rest) := by
  induction ds with
  | nil =>
      cases rest with
      | nil => rfl
      | cons c rest => simp [scanDigits, values, hrest c rfl]
  | cons c ds ih =>
      have hc := hd c List.mem_cons_self
      have hds := ih fun x hx => hd x (List.mem_cons_of_mem c hx)
      simp only [scanDigits, Prod.mk.injEq] at hds
      simp [scanDigits, values, isDigit_ascii hc, (toNat_ascii hc).1, hds]

theorem values_ne_nil {ds : List Char} (h : ds ≠ []) : (values ds).isEmpty = false := by
  cases ds with
  | nil => exact absurd rfl h
  | cons c ds => rfl

theorem scanExponent_exponentText {e : Option (Bool × List Char)}
    (he : ∀ s ds, e = some (s, ds) → ds ≠ [] ∧ ∀ c ∈ ds, c.isDigit) :
    scanExponent ((exponentText e).map ascii) =
      some (e.map fun (s, ds) => (s, values ds), []) := by
  cases e with
  | none => rfl
  | some p =>
      obtain ⟨s, ds⟩ := p
      obtain ⟨hne, hd⟩ := he s ds rfl
      have hscan := scanDigits_values hd [] nofun
      rw [List.append_nil] at hscan
      have hminus : ascii '+' ≠ ascii '-' := by decide
      cases s <;> simp [exponentText, scanExponent, hminus, hscan, values_ne_nil hne]

theorem fractionText_of_ne_nil {ds : List Char} (h : ds ≠ []) : fractionText ds = '.' :: ds := by
  cases ds with
  | nil => exact absurd rfl h
  | cons d ds => rfl

theorem scanFraction_fractionText {ds : List Char} (hd : ∀ c ∈ ds, c.isDigit) {rest : Bytes}
    (hrest : ∀ c ∈ rest.head?, isDigit c = false ∧ c ≠ ascii '.') :
    scanFraction ((fractionText ds).map ascii ++ rest) = some (values ds, rest) := by
  have hscan := scanDigits_values hd rest fun c hc => (hrest c hc).1
  cases ds with
  | nil =>
      cases rest with
      | nil => rfl
      | cons c rest => simp [fractionText, scanFraction, values, (hrest c rfl).2]
  | cons d ds =>
      have hne := List.cons_ne_nil d ds
      rw [fractionText_of_ne_nil hne, List.map_cons, List.cons_append, scanFraction, if_pos rfl,
        hscan]
      simp only [values_ne_nil hne]
      rfl

theorem scanUnsigned_text {n : Spelling} (h : n.Good) (negative : Bool) :
    scanUnsigned negative (n.text.map ascii) = some (n.literal negative, []) := by
  have hexponent : ∀ c ∈ ((exponentText n.exponent).map ascii).head?,
      isDigit c = false ∧ c ≠ ascii '.' := by
    cases n.exponent with
    | none => exact nofun
    | some p =>
        rintro c ⟨⟩
        decide
  have hpoint : ∀ c ∈ ((fractionText n.fraction).map ascii ++
      (exponentText n.exponent).map ascii).head?, isDigit c = false := by
    cases n.fraction with
    | nil => exact fun c hc => (hexponent c hc).1
    | cons d ds =>
        rintro c ⟨⟩
        decide
  have hwhole := scanDigits_values h.whole _ hpoint
  have hfront : (values n.whole).head? = some 0 → (values n.whole).length = 1 := by
    intro hzero
    rw [values, List.head?_map, Option.map_eq_some_iff] at hzero
    obtain ⟨c, hc, hval⟩ := hzero
    obtain ⟨-, hlow, -⟩ := toNat_ascii (h.whole c (List.mem_of_head? hc))
    have heq : c = '0' := Char.toNat_inj.1 (show c.toNat = 48 by omega)
    rw [values, List.length_map]
    exact h.front (heq ▸ hc)
  rw [text, List.map_append, List.map_append, List.append_assoc, scanUnsigned, hwhole, if_neg]
  · simp [scanFraction_fractionText h.fraction hexponent, scanExponent_exponentText h.exponent,
      literal]
  · simpa [values_ne_nil h.whole_ne_nil] using hfront

theorem scanLiteral_text {n : Spelling} (h : n.Good) (negative : Bool) :
    scanLiteral (((if negative then ['-'] else []) ++ n.text).map ascii) =
      some (n.literal negative, []) := by
  have hunsigned := scanUnsigned_text h negative
  cases negative with
  | true =>
      rw [if_pos rfl, List.map_append, List.map_singleton, List.singleton_append, scanLiteral_cons,
        if_pos rfl, hunsigned]
  | false =>
      obtain ⟨c, cs, hcs⟩ := List.exists_cons_of_ne_nil h.whole_ne_nil
      have hdigit := isDigit_ascii (h.whole c (by rw [hcs]; exact List.mem_cons_self))
      have hminus : ascii c ≠ ascii '-' := by
        intro heq
        rw [heq] at hdigit
        exact absurd hdigit (by decide)
      obtain ⟨rest, htext⟩ : ∃ rest, n.text.map ascii = ascii c :: rest :=
        ⟨_, by rw [text, hcs]; rfl⟩
      rw [if_neg Bool.false_ne_true, List.nil_append, htext, scanLiteral_cons, if_neg hminus,
        ← htext, hunsigned]

end Spelling

/-! ## Written integers -/

def integer (i : Int) : Literal :=
  ⟨decide (i < 0), (Nat.toDigits 10 i.natAbs).map fun c => c.toNat - 48, [], none⟩

theorem toInt?_integer (i : Int) : (integer i).toInt? = some i := by
  have hvalue : (integer i).wholeValue = i.natAbs := by
    rw [Literal.wholeValue, integer, List.foldl_map]
    exact digitsValue_toDigits i.natAbs
  simp only [Literal.toInt?, hvalue]
  simp only [integer, List.isEmpty_nil, Option.isNone_none, Bool.and_self, if_true,
    decide_eq_true_eq]
  split_ifs with hneg hzero
  · omega
  · rw [show -(i.natAbs : Int) = i by omega]
  · rw [show (i.natAbs : Int) = i by omega]

theorem Spelling.good_toDigits (n : Nat) : (⟨Nat.toDigits 10 n, [], none⟩ : Spelling).Good where
  whole _ := isDigit_of_mem_toDigits
  whole_ne_nil := Nat.toDigits_ne_nil
  front hzero := by
    rcases Nat.eq_zero_or_pos n with rfl | hn
    · rfl
    · exact absurd hzero (head?_toDigits_ne hn)
  fraction := nofun
  exponent := nofun

theorem scanLiteral_toString (i : Int) :
    scanLiteral (utf8 (toString i)) = some (integer i, []) := by
  have hscan := Spelling.scanLiteral_text (Spelling.good_toDigits i.natAbs) (decide (i < 0))
  have htext : utf8 (toString i) = ((if decide (i < 0) then ['-'] else []) ++
      Spelling.text ⟨Nat.toDigits 10 i.natAbs, [], none⟩).map ascii := by
    rw [Spelling.text, Spelling.fractionText, Spelling.exponentText, List.append_nil,
      List.append_nil, List.map_append, ← utf8_toString_nat]
    cases i with
    | ofNat n => rfl
    | negSucc n =>
        rw [decide_eq_true (Int.negSucc_lt_zero n), if_pos rfl]
        exact utf8_append "-" (toString (n + 1))
  rw [htext, hscan]
  rfl

end CacheBench.Json
