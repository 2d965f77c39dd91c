import CacheBench.Proofs.TextBytes
import CacheBench.Wire.Frame
import Mathlib.Data.List.Infix

/-!
# Frames on the wire

A stream that starts with a written frame is read as that frame with the rest of the stream left
over, provided that two things hold of the frame and of all frames in it: no line of it has a break
of its own (`Unbroken`), and no length exceeds a 64-bit number (`Fits`). The second holds of
everything that a memory can keep. The first is a real condition on simple strings and errors.
-/

namespace CacheBench.Frame

/-! ## Lines -/

theorem lineBreak_infix_cons_iff {c : UInt8} {b : Bytes} :
    lineBreak <:+: c :: b ↔ (c = 13 ∧ b.head? = some 10) ∨ lineBreak <:+: b := by
  rw [List.infix_cons_iff, lineBreak, List.cons_prefix_cons]
  refine or_congr_left (and_congr eq_comm ?_)
  cases b with
  | nil => simp
  | cons a b => simp [eq_comm]

theorem not_lineBreak_of_not_mem {b : Bytes} (h : ascii '\r' ∉ b) : ¬ lineBreak <:+: b :=
  fun hb => h (hb.subset List.mem_cons_self)

theorem not_lineBreak_infix_nil : ¬ lineBreak <:+: [] := by decide

theorem lineBreak_infix_append_left {p : Bytes} (hp : ascii '\r' ∉ p) (b : Bytes) :
    lineBreak <:+: p ++ b ↔ lineBreak <:+: b := by
  induction p with
  | nil => rfl
  | cons c p ih =>
      have hc : c ≠ 13 := fun he => hp (he ▸ List.mem_cons_self)
      rw [List.cons_append, lineBreak_infix_cons_iff, ih fun h => hp (List.mem_cons_of_mem _ h)]
      exact or_iff_right fun h => hc h.1

theorem lineBreak_infix_append_right {t : Bytes} (ht : ascii '\r' ∉ t) (hhead : t.head? ≠ some 10)
    (b : Bytes) : lineBreak <:+: b ++ t ↔ lineBreak <:+: b := by
  induction b with
  | nil => exact ⟨fun h => absurd h (not_lineBreak_of_not_mem ht), fun h => absurd h (by decide)⟩
  | cons c b ih =>
      rw [List.cons_append, lineBreak_infix_cons_iff, lineBreak_infix_cons_iff, ih]
      refine or_congr_left (and_congr_right fun _ => ?_)
      cases b with
      | nil => exact ⟨fun h => absurd h hhead, fun h => by cases h⟩
      | cons a b => rfl

theorem takeLine_cons {c : UInt8} {s : Bytes} (h : ¬ (c = 13 ∧ s.head? = some 10)) :
    takeLine (c :: s) = (takeLine s).bind fun b rest => .complete (c :: b) rest := by
  rw [takeLine.eq_def]
  split
  · rename_i he
    cases he
    exact absurd ⟨rfl, rfl⟩ h
  · rename_i he
    cases he
    rfl
  · rename_i he
    cases he

theorem takeLine_append {b : Bytes} (hb : ¬ lineBreak <:+: b) (rest : Bytes) :
    takeLine (b ++ (lineBreak ++ rest)) = .complete b rest := by
  induction b with
  | nil => rfl
  | cons c b ih =>
      rw [lineBreak_infix_cons_iff, not_or] at hb
      have hhead : ¬ (c = 13 ∧ (b ++ (lineBreak ++ rest)).head? = some 10) := by
        rintro ⟨rfl, hten⟩
        cases b with
        | nil => cases hten
        | cons a b => exact hb.1 ⟨rfl, hten⟩
      rw [List.cons_append, takeLine_cons hhead, ih hb.2]
      rfl

theorem of_takeLine {s b rest : Bytes} (h : takeLine s = .complete b rest) :
    s = b ++ (lineBreak ++ rest) ∧ ¬ lineBreak <:+: b := by
  induction s generalizing b with
  | nil => cases h
  | cons c s ih =>
      by_cases hc : c = 13 ∧ s.head? = some 10
      · obtain ⟨rfl, hs⟩ := hc
        obtain ⟨s, rfl⟩ := List.head?_eq_some_iff.1 hs
        cases h
        exact ⟨rfl, by decide⟩
      · rw [takeLine_cons hc] at h
        cases hs : takeLine s with
        | incomplete | malformed =>
            rw [hs] at h
            cases h
        | complete b' rest' =>
            rw [hs] at h
            cases h
            obtain ⟨rfl, hb⟩ := ih hs
            refine ⟨rfl, ?_⟩
            rw [lineBreak_infix_cons_iff, not_or]
            refine ⟨?_, hb⟩
            rintro ⟨rfl, hten⟩
            exact hc ⟨rfl, by rw [List.head?_append, hten]; rfl⟩

/-! ## Numbers on a line -/

theorem toList_repr (m : Nat) : m.repr.toList = Nat.toDigits 10 m := by
  rw [Nat.repr_eq_ofList_toDigits, String.toList_ofList]

theorem number?_toString {n : Int} (hlow : -2 ^ 63 ≤ n) (hhigh : n < 2 ^ 63) :
    number? (utf8 (toString n)) = some n := by
  have hwhole (m : Nat) : wholeNumber? m.repr = some m := wholeNumber?_toString m
  have hfirst {c : Char} {r : List Char} (m : Nat) (hr : Nat.toDigits 10 m = c :: r) : c.isDigit :=
    isDigit_of_mem_toDigits (hr ▸ List.mem_cons_self)
  rw [number?, text?_utf8, Int.toString_eq_repr, Int.repr_eq_if]
  by_cases hn : 0 ≤ n
  · simp only [if_pos hn, Option.bind_eq_bind, Option.bind_some]
    split
    · rename_i r hr
      rw [toList_repr] at hr
      exact absurd (hfirst _ hr) (by decide)
    · simp only [hwhole, Option.map_some, Option.bind_some, Int.ofNat_eq_natCast,
        Int.toNat_of_nonneg hn, if_pos (And.intro hlow hhigh)]
  · have hplus : (Nat.toDigits 10 (-n).toNat).head? ≠ some '+' := by
      intro he
      obtain ⟨r, hr⟩ := List.head?_eq_some_iff.1 he
      exact absurd (hfirst _ hr) (by decide)
    have hlist : ("-" ++ (-n).toNat.repr).toList = '-' :: Nat.toDigits 10 (-n).toNat := by
      rw [String.toList_append, toList_repr]
      rfl
    have hneg : -((-n).toNat : Int) = n := by omega
    simp only [if_neg hn, Option.bind_eq_bind, Option.bind_some, hlist, if_neg hplus,
      ← Nat.repr_eq_ofList_toDigits, hwhole, Option.pure_def, Option.map_some, hneg,
      if_pos (And.intro hlow hhigh)]

theorem carriage_not_mem_toString (n : Int) : ascii '\r' ∉ utf8 (toString n) := by
  have hdigits (m : Nat) : '\r' ∉ Nat.toDigits 10 m := fun h =>
    absurd (isDigit_of_mem_toDigits h) (by decide)
  rw [mem_utf8_iff (by decide), Int.toString_eq_repr, Int.repr_eq_if]
  split
  · rw [toList_repr]
    exact hdigits _
  · rw [String.toList_append, toList_repr, List.mem_append, not_or]
    exact ⟨by decide, hdigits _⟩

theorem takeLine_number (n : Int) (rest : Bytes) :
    takeLine (utf8 (toString n) ++ (lineBreak ++ rest)) = .complete (utf8 (toString n)) rest :=
  takeLine_append (not_lineBreak_of_not_mem (carriage_not_mem_toString n)) rest

theorem toString_natCast (n : Nat) : toString (n : Int) = toString n := by
  rw [Int.toString_eq_repr, Int.repr_eq_if, if_pos (Int.natCast_nonneg n), Int.toNat_natCast]
  rfl

theorem takeLength_append {n : Nat} (hn : n < 2 ^ 63) (rest : Bytes) :
    takeLength (utf8 (toString n) ++ (lineBreak ++ rest)) = .complete (some n) rest := by
  have hnumber : number? (utf8 (toString n)) = some (n : Int) := by
    rw [← toString_natCast]
    exact number?_toString (by omega) (by omega)
  have hline := takeLine_number n rest
  rw [toString_natCast] at hline
  rw [takeLength, hline]
  simp only [Decoded.bind, hnumber, Int.toNat_natCast]
  rw [if_neg (by omega), if_neg (by omega)]

theorem number?_toString_of_le {n : Nat} (hn : 2 ^ 63 ≤ n) :
    number? (utf8 (toString n)) = none := by
  have hwhole : wholeNumber? (toString n) = some n := wholeNumber?_toString n
  have hlist : (toString n).toList = Nat.toDigits 10 n := toList_repr n
  have hrange : ¬ (n : Int) < 2 ^ 63 := by omega
  rw [number?, text?_utf8]
  simp only [Option.bind_eq_bind, Option.bind_some, hlist]
  split
  · rename_i r hr
    have hdigit : '-'.isDigit := isDigit_of_mem_toDigits (hr ▸ List.mem_cons_self)
    exact absurd hdigit (by decide)
  · rw [hwhole, Option.map_some, Option.bind_some]
    exact if_neg fun h => hrange h.2

theorem takeLength_append_of_le {n : Nat} (hn : 2 ^ 63 ≤ n) (rest : Bytes) :
    takeLength (utf8 (toString n) ++ (lineBreak ++ rest)) = .malformed := by
  have hline := takeLine_number n rest
  rw [toString_natCast] at hline
  rw [takeLength, hline]
  simp only [Decoded.bind, number?_toString_of_le hn]

/-! ## Frames within frames -/

/-- `g` is `f` itself or stands somewhere in it. -/
inductive Part (g : Frame) : Frame → Prop
  | self : Part g g
  | item {f : Frame} {items : List Frame} (mem : f ∈ items) (part : Part g f) :
    Part g (.array items)

def lineText : Frame → Bytes
  | .simple b => b
  | .error text => utf8 text
  | .integer _ | .bulk _ | .array _ | .null => []

def span : Frame → Nat
  | .bulk b => b.length
  | .array items => items.length
  | .simple _ | .error _ | .integer _ | .null => 0

def Unbroken (f : Frame) : Prop := ∀ g, Part g f → ¬ lineBreak <:+: g.lineText

def Fits (f : Frame) : Prop := ∀ g, Part g f → g.span < 2 ^ 63

section

variable {f g : Frame} {items : List Frame}

theorem Unbroken.item (h : (array items).Unbroken) (hf : f ∈ items) : f.Unbroken :=
  fun _ hg => h _ (.item hf hg)

theorem Fits.item (h : (array items).Fits) (hf : f ∈ items) : f.Fits :=
  fun _ hg => h _ (.item hf hg)

theorem unbroken_array (h : ∀ f ∈ items, f.Unbroken) : (array items).Unbroken := by
  intro g hg
  cases hg with
  | self => exact not_lineBreak_infix_nil
  | item mem part => exact h _ mem g part

theorem unbroken_ofText (s : String) : (ofText s).Unbroken := by
  intro g hg
  cases hg
  exact not_lineBreak_infix_nil

end

/-! ## Reading what was written -/

section Marks

variable (fuel : Nat) (s : Bytes)

theorem decodeWith_simple : decodeWith (fuel + 1) (ascii '+' :: s) =
    (takeLine s).bind fun b rest => .complete (.simple b) rest := rfl

theorem decodeWith_error : decodeWith (fuel + 1) (ascii '-' :: s) =
    (takeLine s).bind fun b rest =>
      match CacheBench.text? b with
      | some text => .complete (.error text) rest
      | none => .malformed := rfl

theorem decodeWith_integer : decodeWith (fuel + 1) (ascii ':' :: s) =
    (takeLine s).bind fun b rest =>
      match number? b with
      | some n => .complete (.integer (.ofInt n)) rest
      | none => .malformed := rfl

theorem decodeWith_bulk : decodeWith (fuel + 1) (ascii '$' :: s) =
    (takeLength s).bind fun n rest =>
      match n with
      | none => .complete .null rest
      | some n =>
        if n + 2 ≤ rest.length then .complete (.bulk (rest.take n)) (rest.drop (n + 2))
        else .incomplete := rfl

theorem decodeWith_array : decodeWith (fuel + 1) (ascii '*' :: s) =
    (takeLength s).bind fun n rest =>
      match n with
      | none => .complete .null rest
      | some n => (decodeItems fuel n rest).bind fun items rest => .complete (.array items) rest :=
  rfl

end Marks

theorem line_append (mark : Char) (b rest : Bytes) :
    line mark b ++ rest = ascii mark :: (b ++ (lineBreak ++ rest)) := by
  simp [line]

theorem length_encode (f : Frame) : 2 ≤ f.encode.length := by
  cases f <;> simp [encode, line, lineBreak] <;> omega

mutual

/-- Fuel for all bytes of the frame but one is enough. -/
theorem decodeWith_encode (f : Frame) (hb : f.Unbroken) (hl : f.Fits) (fuel : Nat)
    (hfuel : f.encode.length ≤ fuel + 1) (rest : Bytes) :
    decodeWith fuel (f.encode ++ rest) = .complete f rest := by
  have hlength := f.length_encode
  obtain ⟨fuel, rfl⟩ : ∃ n, fuel = n + 1 := ⟨fuel - 1, by omega⟩
  cases f with
  | simple b =>
      have hline : ¬ lineBreak <:+: b := hb _ .self
      rw [encode, line_append, decodeWith_simple, takeLine_append hline]
      rfl
  | error text =>
      have hline : ¬ lineBreak <:+: utf8 text := hb _ .self
      rw [encode, line_append, decodeWith_error, takeLine_append hline]
      simp only [Decoded.bind, text?_utf8]
  | integer n =>
      have hnumber : number? (utf8 (toString n.toInt)) = some n.toInt :=
        number?_toString n.le_toInt n.toInt_lt
      rw [encode, line_append, decodeWith_integer, show toString n = toString n.toInt from rfl,
        takeLine_number]
      simp only [Decoded.bind, hnumber, Int64.ofInt_toInt]
  | bulk b =>
      have hspan : b.length < 2 ^ 63 := hl _ .self
      rw [encode, List.append_assoc, List.append_assoc, line_append, decodeWith_bulk,
        takeLength_append hspan]
      simp only [Decoded.bind]
      rw [if_pos (by simp [lineBreak]), List.take_left, ← List.append_assoc,
        List.drop_left' (by simp [lineBreak])]
  | array items =>
      have hspan : items.length < 2 ^ 63 := hl _ .self
      rw [encode, List.length_append] at hfuel
      have hitems := decodeItems_encodeAll items (fun f => hb.item) (fun f => hl.item) fuel
        (by simp [line, lineBreak] at hfuel; omega) rest
      rw [encode, List.append_assoc, line_append, decodeWith_array, takeLength_append hspan]
      simp only [Decoded.bind, hitems]
  | null => rfl

theorem decodeItems_encodeAll (fs : List Frame) (hb : ∀ f ∈ fs, f.Unbroken)
    (hl : ∀ f ∈ fs, f.Fits) (fuel : Nat) (hfuel : (encodeAll fs).length ≤ fuel) (rest : Bytes) :
    decodeItems fuel fs.length (encodeAll fs ++ rest) = .complete fs rest := by
  cases fs with
  | nil => cases fuel <;> rfl
  | cons f fs =>
      have hlength := f.length_encode
      rw [encodeAll, List.length_append] at hfuel
      obtain ⟨fuel, rfl⟩ : ∃ n, fuel = n + 1 := ⟨fuel - 1, by omega⟩
      have hhead := decodeWith_encode f (hb f List.mem_cons_self) (hl f List.mem_cons_self) fuel
        (by omega) (encodeAll fs ++ rest)
      have htail := decodeItems_encodeAll fs (fun f hf => hb f (List.mem_cons_of_mem _ hf))
        (fun f hf => hl f (List.mem_cons_of_mem _ hf)) fuel (by omega) rest
      rw [encodeAll, List.append_assoc, List.length_cons, decodeItems, hhead]
      simp only [Decoded.bind, htail]

end

theorem decode_error (text : String) (s : Bytes) :
    decode ((error text).encode ++ s) =
      (takeLine (utf8 text ++ (lineBreak ++ s))).bind fun b rest =>
        match CacheBench.text? b with
        | some text => .complete (.error text) rest
        | none => .malformed := by
  rw [decode, encode, line_append, decodeWith_error]

/-- Of an error with a break in its text a reader gets the text before the break, and takes what
follows for the start of the next frame. -/
theorem decode_error_of_break {text head : String} {tail : Bytes}
    (htext : utf8 text = utf8 head ++ (lineBreak ++ tail)) (hhead : ¬ lineBreak <:+: utf8 head)
    (s : Bytes) :
    decode ((error text).encode ++ s) = .complete (.error head) (tail ++ (lineBreak ++ s)) := by
  rw [decode_error, htext, List.append_assoc, List.append_assoc, takeLine_append hhead]
  simp only [Decoded.bind, text?_utf8]

theorem decode_encode {f : Frame} (hb : f.Unbroken) (hl : f.Fits) (rest : Bytes) :
    decode (f.encode ++ rest) = .complete f rest :=
  decodeWith_encode f hb hl _ (by rw [List.length_append]; omega) rest

mutual

/-- A frame whose lengths are not all 64-bit numbers is not read. -/
theorem decodeWith_encode_of_not_fits (f : Frame) (hb : f.Unbroken) (hl : ¬ f.Fits) (fuel : Nat)
    (hfuel : f.encode.length ≤ fuel + 1) (rest : Bytes) :
    decodeWith fuel (f.encode ++ rest) = .malformed := by
  have hlength := f.length_encode
  have hzero : 0 < 2 ^ 63 := by decide
  obtain ⟨fuel, rfl⟩ : ∃ n, fuel = n + 1 := ⟨fuel - 1, by omega⟩
  cases f with
  | simple _ | error _ | integer _ | null =>
      refine absurd (fun g hg => ?_) hl
      cases hg
      exact hzero
  | bulk b =>
      have hspan : 2 ^ 63 ≤ b.length := by
        refine Nat.not_lt.1 fun hspan => hl fun g hg => ?_
        cases hg
        exact hspan
      rw [encode, List.append_assoc, List.append_assoc, line_append, decodeWith_bulk,
        takeLength_append_of_le hspan]
      rfl
  | array items =>
      rw [encode, List.length_append] at hfuel
      rw [encode, List.append_assoc, line_append, decodeWith_array]
      by_cases hspan : items.length < 2 ^ 63
      · have hitem : ¬ ∀ f ∈ items, f.Fits := by
          intro hitems
          refine hl fun g hg => ?_
          cases hg with
          | self => exact hspan
          | item mem part => exact hitems _ mem g part
        have hitems := decodeItems_encodeAll_of_not_fits items (fun f => hb.item) hitem fuel
          (by simp [line, lineBreak] at hfuel; omega) rest
        rw [takeLength_append hspan]
        simp only [Decoded.bind, hitems]
      · rw [takeLength_append_of_le (Nat.not_lt.1 hspan)]
        rfl

theorem decodeItems_encodeAll_of_not_fits (fs : List Frame) (hb : ∀ f ∈ fs, f.Unbroken)
    (hl : ¬ ∀ f ∈ fs, f.Fits) (fuel : Nat) (hfuel : (encodeAll fs).length ≤ fuel) (rest : Bytes) :
    decodeItems fuel fs.length (encodeAll fs ++ rest) = .malformed := by
  cases fs with
  | nil => exact absurd nofun hl
  | cons f fs =>
      have hlength := f.length_encode
      rw [encodeAll, List.length_append] at hfuel
      obtain ⟨fuel, rfl⟩ : ∃ n, fuel = n + 1 := ⟨fuel - 1, by omega⟩
      rw [encodeAll, List.append_assoc, List.length_cons, decodeItems]
      by_cases hf : f.Fits
      · have hrest : ¬ ∀ f ∈ fs, f.Fits := fun h => hl (List.forall_mem_cons.2 ⟨hf, h⟩)
        have htail := decodeItems_encodeAll_of_not_fits fs
          (fun f hf => hb f (List.mem_cons_of_mem _ hf)) hrest fuel (by omega) rest
        rw [decodeWith_encode f (hb f List.mem_cons_self) hf fuel (by omega)]
        simp only [Decoded.bind, htail]
      · rw [decodeWith_encode_of_not_fits f (hb f List.mem_cons_self) hf fuel (by omega)]
        rfl

end

/-- A frame without breaks is read as it was meant, or not at all. -/
theorem decode_encode_or {f : Frame} (hb : f.Unbroken) (rest : Bytes) :
    decode (f.encode ++ rest) = .complete f rest ∨ decode (f.encode ++ rest) = .malformed := by
  by_cases hl : f.Fits
  · exact .inl (decode_encode hb hl rest)
  · exact .inr (decodeWith_encode_of_not_fits f hb hl _ (by rw [List.length_append]; omega) rest)

theorem decodeAllWith_nil (fuel : Nat) : decodeAllWith fuel [] = ([], [], false) := by
  cases fuel <;> rfl

theorem decodeAll_encode {f : Frame} (hb : f.Unbroken) (hl : f.Fits) :
    decodeAll f.encode = ([f], [], false) := by
  have hlength := f.length_encode
  have hread := decode_encode hb hl []
  rw [List.append_nil] at hread
  obtain ⟨fuel, hfuel⟩ : ∃ fuel, f.encode.length = fuel + 1 := ⟨f.encode.length - 1, by omega⟩
  rw [decodeAll, hfuel, decodeAllWith, hread]
  simp only [decodeAllWith_nil]

theorem decodeAll_encode_of_not_fits {f : Frame} (hb : f.Unbroken) (hl : ¬ f.Fits) :
    (decodeAll f.encode).1 = [] := by
  have hlength := f.length_encode
  have hread := decodeWith_encode_of_not_fits f hb hl (2 * f.encode.length + 2) (by omega) []
  rw [List.append_nil] at hread
  obtain ⟨fuel, hfuel⟩ : ∃ fuel, f.encode.length = fuel + 1 := ⟨f.encode.length - 1, by omega⟩
  rw [decodeAll, hfuel, decodeAllWith, decode, hread]

/-- An error is read back if and only if its text has no break. -/
theorem decode_encode_error_iff (text : String) :
    decode (error text).encode = .complete (.error text) [] ↔ ¬ lineBreak <:+: utf8 text := by
  constructor
  · intro h
    rw [← List.append_nil (error text).encode, decode_error] at h
    cases hline : takeLine (utf8 text ++ (lineBreak ++ [])) with
    | incomplete | malformed =>
        rw [hline] at h
        cases h
    | complete b rest =>
        obtain ⟨-, hb⟩ := of_takeLine hline
        simp only [hline, Decoded.bind] at h
        split at h
        · rename_i text' hread
          obtain ⟨rfl⟩ : text' = text := by injection h with h; injection h
          rwa [text?_eq_some_iff.1 hread]
        · cases h
  · intro h
    have hread := decode_error text []
    rw [List.append_nil, takeLine_append h] at hread
    simpa only [Decoded.bind, text?_utf8] using hread

end CacheBench.Frame
