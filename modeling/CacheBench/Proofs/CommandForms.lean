import CacheBench.Proofs.CommandGrammar
import CacheBench.Proofs.TextBytes

/-!
# The forms of a command

`Command.Form` says which frames ask for which command without reading any of them: from the bytes
that a part of the frame holds, the letters of a name whatever their case, and the digits of a key.
A frame is read as the command that it has the form of. An empty array is no command, and every
other frame is an error.
-/

namespace CacheBench

open Std (TreeMap)

/-! ## Texts -/

/-- The texts differ at most in the case of ASCII letters. -/
def SameLetters (s t : String) : Prop := s.map Char.toLower = t.map Char.toLower

theorem toNat_toUpper (c : Char) :
    c.toUpper.toNat = if 97 ≤ c.toNat ∧ c.toNat ≤ 122 then c.toNat - 32 else c.toNat := by
  unfold Char.toUpper
  simp only [UInt32.le_iff_toNat_le, Char.toNat, Char.reduceVal, UInt32.reduceToNat,
    UInt32.reduceSub]
  split
  · simp only [UInt32.toNat_add, UInt32.reduceToNat]
    omega
  · rfl

theorem toNat_toLower (c : Char) :
    c.toLower.toNat = if 65 ≤ c.toNat ∧ c.toNat ≤ 90 then c.toNat + 32 else c.toNat := by
  unfold Char.toLower
  simp only [UInt32.le_iff_toNat_le, Char.toNat, Char.reduceVal, UInt32.reduceToNat,
    UInt32.reduceSub]
  split
  · simp only [UInt32.toNat_add, UInt32.reduceToNat]
    omega
  · rfl

/-- Raising tells the same characters apart as lowering. -/
theorem toUpper_eq_toUpper_iff {c d : Char} : c.toUpper = d.toUpper ↔ c.toLower = d.toLower := by
  simp only [← Char.toNat_inj, toNat_toUpper, toNat_toLower]
  grind

theorem map_toUpper_eq_iff {s name : String} (hupper : name.map Char.toUpper = name) :
    s.map Char.toUpper = name ↔ SameLetters s name := by
  have hmap : ∀ cs ds : List Char,
      cs.map Char.toUpper = ds.map Char.toUpper ↔ cs.map Char.toLower = ds.map Char.toLower := by
    intro cs
    induction cs with
    | nil => simp
    | cons c cs ih => rintro (_ | ⟨d, ds⟩) <;> simp [toUpper_eq_toUpper_iff, ih]
  have htexts := hmap s.toList name.toList
  rwa [← String.toList_map, ← String.toList_map, String.toList_inj, hupper, ← String.toList_map,
    ← String.toList_map, String.toList_inj] at htexts

theorem Field.ofText_eq_ok_iff {s : String} {field : Field} :
    Field.ofText s = .ok field ↔ SameLetters s field.name := by
  have hid : Field.id.name.map Char.toLower = "id" := map_eq_of_toList (by decide)
  have hsalary : Field.salary.name.map Char.toLower = "salary" := map_eq_of_toList (by decide)
  constructor
  · intro h
    unfold Field.ofText at h
    split at h
    · rename_i hs
      cases h
      exact hs.trans hid.symm
    · rename_i hs
      cases h
      exact hs.trans hsalary.symm
    · cases h
  · intro h
    cases field with
    | id =>
        have hs : s.map Char.toLower = "id" := h.trans hid
        rw [Field.ofText, hs]
        rfl
    | salary =>
        have hs : s.map Char.toLower = "salary" := h.trans hsalary
        rw [Field.ofText, hs]
        rfl

def Denotes (s : String) (n : Nat) : Prop :=
  ∃ ds : List Char, ds ≠ [] ∧ (∀ c ∈ ds, c.isDigit) ∧
    (s.toList = ds ∨ s.toList = '+' :: ds) ∧ Nat.ofDigitChars 10 ds 0 = n

theorem wholeNumber?_eq_some_iff {s : String} {n : Nat} :
    wholeNumber? s = some n ↔ Denotes s n := by
  have hdigits (ds : List Char) : (if ds.isEmpty || !ds.all Char.isDigit then none
      else some (digitsValue ds)) = some n ↔
        ds ≠ [] ∧ (∀ c ∈ ds, c.isDigit) ∧ Nat.ofDigitChars 10 ds 0 = n := by
    have hvalue : digitsValue ds = Nat.ofDigitChars 10 ds 0 := rfl
    simp only [Bool.or_eq_true, List.isEmpty_iff, Bool.not_eq_true', ← Bool.not_eq_true,
      List.all_eq_true, Option.ite_none_left_eq_some, not_or, not_not, Option.some.injEq, hvalue,
      and_assoc, ne_eq]
  unfold wholeNumber?
  simp only
  rw [hdigits]
  constructor
  · rintro ⟨hne, hall, hn⟩
    refine ⟨_, hne, hall, ?_, hn⟩
    split
    · rename_i r hr
      exact .inr hr
    · exact .inl rfl
  · rintro ⟨ds, hne, hall, hs, hn⟩
    obtain hs | hs := hs
    · rw [hs]
      split
      · exact absurd (hall '+' List.mem_cons_self) (by decide)
      · exact ⟨hne, hall, hn⟩
    · rw [hs]
      exact ⟨hne, hall, hn⟩

theorem Key.ofText?_eq_some_iff {s : String} {k : Key} :
    Key.ofText? s = some k ↔ Denotes s k.toNat := by
  rw [← wholeNumber?_eq_some_iff, Key.ofText?]
  constructor
  · intro h
    obtain ⟨n, hn, h⟩ := Option.bind_eq_some_iff.1 h
    split at h
    · rename_i hlt
      cases h
      rw [hn, UInt64.toNat_ofNat_of_lt' hlt]
    · cases h
  · intro h
    rw [h, Option.bind_some, if_pos k.toNat_lt, UInt64.ofNat_toNat]

/-! ## Parts -/

namespace Frame

/-- The text of a frame is that of its bytes, if they are valid. -/
inductive Holds : Frame → String → Prop
  | simple (s : String) : Holds (.simple (utf8 s)) s
  | bulk (s : String) : Holds (.bulk (utf8 s)) s
  | error (s : String) : Holds (.error s) s

variable (f : Frame)

def Names (name : String) : Prop := ∃ s, f.Holds s ∧ SameLetters s name

def HoldsKey (k : Key) : Prop := ∃ s, f.Holds s ∧ Denotes s k.toNat

def HoldsBound (x : Binary64) : Prop := ∃ s, f.Holds s ∧ Binary64.ofText? s = some x

def HoldsValue (v : Value) : Prop :=
  ∃ b, (f = .simple b ∨ f = .bulk b) ∧ Value.ofJson? b = some v

variable {f}

theorem text?_eq_some_iff_holds {s : String} : f.text? = some s ↔ f.Holds s := by
  constructor
  · intro h
    cases f with
    | simple b =>
        obtain rfl := text?_eq_some_iff.1 h
        exact .simple s
    | bulk b =>
        obtain rfl := text?_eq_some_iff.1 h
        exact .bulk s
    | error text =>
        cases h
        exact .error s
    | integer _ | array _ | null => cases h
  · intro h
    cases h with
    | simple | bulk => exact text?_utf8 s
    | error => rfl

theorem key_eq_ok_iff {k : Key} : f.key = .ok k ↔ f.HoldsKey k := by
  simp only [HoldsKey, ← text?_eq_some_iff_holds, ← Key.ofText?_eq_some_iff]
  unfold key
  cases f.text? with
  | none => simp
  | some s => cases h : Key.ofText? s <;> simp [h]

theorem field_eq_ok_iff {field : Field} : f.field = .ok field ↔ f.Names field.name := by
  simp only [Names, ← text?_eq_some_iff_holds, ← Field.ofText_eq_ok_iff]
  unfold Frame.field
  cases f.text? with
  | none => simp
  | some s => cases h : Field.ofText s <;> simp [h, Except.mapError]

theorem bound_eq_ok_iff {x : Binary64} : f.bound = .ok x ↔ f.HoldsBound x := by
  simp only [HoldsBound, ← text?_eq_some_iff_holds]
  unfold bound
  cases f.text? with
  | none => simp
  | some s => cases h : Binary64.ofText? s <;> simp [h]

theorem value_eq_ok_iff {v : Value} : f.value = .ok v ↔ f.HoldsValue v := by
  cases f with
  | simple b | bulk b => cases h : Value.ofJson? b <;> simp [value, HoldsValue, h]
  | error _ | integer _ | array _ | null => simp [value, HoldsValue]

end Frame

/-! ## Commands -/

namespace Command

inductive Alternate : List Frame → List (Key × Value) → Prop
  | nil : Alternate [] []
  | cons {k v : Frame} {rest : List Frame} {key : Key} {value : Value} {pairs : List (Key × Value)}
    (hk : k.HoldsKey key) (hv : v.HoldsValue value) (hrest : Alternate rest pairs) :
    Alternate (k :: v :: rest) ((key, value) :: pairs)

/-- The frame asks for the command. -/
inductive Form : Frame → Command → Prop
  | ping {head : Frame} {args : List Frame} (h : head.Names "PING") :
    Form (.array (head :: args)) .ping
  | size {head : Frame} (h : head.Names "DBSIZE") : Form (.array [head]) .size
  | use {head cache : Frame} {name : String} (h : head.Names "USE") (hname : cache.Holds name) :
    Form (.array [head, cache]) (.use name)
  | get {head k : Frame} {key : Key} (h : head.Names "GET") (hk : k.HoldsKey key) :
    Form (.array [head, k]) (.get key)
  | set {head k v : Frame} {key : Key} {value : Value} (h : head.Names "SET")
    (hk : k.HoldsKey key) (hv : v.HoldsValue value) : Form (.array [head, k, v]) (.set key value)
  | mset {head : Frame} {args : List Frame} {pairs : List (Key × Value)} {b : Batch}
    (h : head.Names "MSET") (hpairs : Alternate args pairs) (hne : pairs ≠ [])
    (hlast : ∀ k, b[k]? = Batch.last? pairs k) : Form (.array (head :: args)) (.mset b)
  | query {head field min max : Frame} {p : Predicate} (h : head.Names "QUERY")
    (hfield : field.Names p.field.name) (hmin : min.HoldsBound p.min)
    (hmax : max.HoldsBound p.max) : Form (.array [head, field, min, max]) (.query p)

/-- The commands are equal, but for how the values of a batch are arranged. -/
inductive Same : Command → Command → Prop
  | refl (cmd : Command) : Same cmd cmd
  | mset {b b' : Batch} (h : ∀ k : Key, b[k]? = b'[k]?) : Same (.mset b) (.mset b')

variable {args : List Frame} {ps : List (Key × Value)} {head f : Frame} {name : String}
  {cmd : Command}

theorem pairs_iff_alternate : Pairs args ps ↔ Alternate args ps := by
  constructor
  · intro h
    induction h with
    | nil => exact .nil
    | cons hk hv hrest ih =>
        exact .cons (Frame.key_eq_ok_iff.1 hk) (Frame.value_eq_ok_iff.1 hv) ih
  · intro h
    induction h with
    | nil => exact .nil
    | cons hk hv hrest ih =>
        exact .cons (Frame.key_eq_ok_iff.2 hk) (Frame.value_eq_ok_iff.2 hv) ih

theorem Spells.form (h : Spells name args cmd) (hhead : head.Names name) :
    Form (.array (head :: args)) cmd := by
  cases h with
  | ping => exact .ping hhead
  | use h => exact .use hhead (Frame.text?_eq_some_iff_holds.1 h)
  | get hk => exact .get hhead (Frame.key_eq_ok_iff.1 hk)
  | set hk hv => exact .set hhead (Frame.key_eq_ok_iff.1 hk) (Frame.value_eq_ok_iff.1 hv)
  | mset h hne => exact .mset hhead (pairs_iff_alternate.1 h) hne (Batch.getElem?_ofList _)
  | query hfield hmin hmax =>
      exact .query hhead (Frame.field_eq_ok_iff.1 hfield) (Frame.bound_eq_ok_iff.1 hmin)
        (Frame.bound_eq_ok_iff.1 hmax)
  | size => exact .size hhead

theorem Spells.map_toUpper (h : Spells name args cmd) : name.map Char.toUpper = name := by
  apply map_eq_of_toList
  cases h <;> decide

theorem Form.spells (h : Form f cmd) : ∃ head args name cmd', f = .array (head :: args) ∧
    head.Names name ∧ Spells name args cmd' ∧ cmd'.Same cmd := by
  cases h with
  | ping h => exact ⟨_, _, _, _, rfl, h, .ping, .refl _⟩
  | size h => exact ⟨_, _, _, _, rfl, h, .size, .refl _⟩
  | use h hname =>
      exact ⟨_, _, _, _, rfl, h, .use (Frame.text?_eq_some_iff_holds.2 hname), .refl _⟩
  | get h hk => exact ⟨_, _, _, _, rfl, h, .get (Frame.key_eq_ok_iff.2 hk), .refl _⟩
  | set h hk hv =>
      exact ⟨_, _, _, _, rfl, h, .set (Frame.key_eq_ok_iff.2 hk) (Frame.value_eq_ok_iff.2 hv),
        .refl _⟩
  | @mset head args pairs b h hpairs hne hlast =>
      refine ⟨_, _, _, _, rfl, h, .mset (pairs_iff_alternate.2 hpairs) hne, .mset fun k => ?_⟩
      rw [Batch.getElem?_ofList, hlast]
  | query h hfield hmin hmax =>
      exact ⟨_, _, _, _, rfl, h, .query (Frame.field_eq_ok_iff.2 hfield)
        (Frame.bound_eq_ok_iff.2 hmin) (Frame.bound_eq_ok_iff.2 hmax), .refl _⟩

theorem ofFrame_eq_ok_some_iff_spells : ofFrame f = .ok (some cmd) ↔
    ∃ head args name, f = .array (head :: args) ∧ head.Names name ∧ Spells name args cmd := by
  rw [ofFrame_eq_ok_some_iff]
  constructor
  · rintro ⟨head, args, text, rfl, htext, hspells⟩
    have hname : SameLetters text (text.map Char.toUpper) :=
      (map_toUpper_eq_iff hspells.map_toUpper).1 rfl
    exact ⟨head, args, _, rfl, ⟨text, Frame.text?_eq_some_iff_holds.1 htext, hname⟩, hspells⟩
  · rintro ⟨head, args, name, rfl, ⟨text, htext, hname⟩, hspells⟩
    refine ⟨head, args, text, rfl, Frame.text?_eq_some_iff_holds.2 htext, ?_⟩
    rwa [(map_toUpper_eq_iff hspells.map_toUpper).2 hname]

theorem Same.form {cmd' : Command} (h : cmd.Same cmd') (hform : Form f cmd) : Form f cmd' := by
  cases h with
  | refl => exact hform
  | mset h =>
      cases hform with
      | mset hhead hpairs hne hlast =>
          exact .mset hhead hpairs hne fun k => (h k).symm.trans (hlast k)

theorem form_iff : Form f cmd ↔ ∃ cmd', ofFrame f = .ok (some cmd') ∧ cmd'.Same cmd := by
  constructor
  · intro h
    obtain ⟨head, args, name, cmd', rfl, hhead, hspells, hsame⟩ := h.spells
    exact ⟨cmd', ofFrame_eq_ok_some_iff_spells.2 ⟨head, args, name, rfl, hhead, hspells⟩, hsame⟩
  · rintro ⟨cmd', hread, hsame⟩
    obtain ⟨head, args, name, rfl, hhead, hspells⟩ := ofFrame_eq_ok_some_iff_spells.1 hread
    exact hsame.form (hspells.form hhead)

/-- A frame is read as the command that it has the form of, an empty array as none, and nothing
else is read. -/
theorem ofFrame_accepts (f : Frame) :
    (ofFrame f = .ok none ↔ f = .array []) ∧
      (∀ cmd, Form f cmd ↔ ∃ cmd', ofFrame f = .ok (some cmd') ∧ cmd'.Same cmd) ∧
      ((∃ e, ofFrame f = .error e) ↔ f ≠ .array [] ∧ ∀ cmd, ¬ Form f cmd) := by
  refine ⟨ofFrame_eq_ok_none_iff, fun cmd => form_iff, ?_⟩
  constructor
  · rintro ⟨e, he⟩
    constructor
    · rintro rfl
      cases he
    · intro cmd hform
      obtain ⟨cmd', hread, -⟩ := form_iff.1 hform
      rw [he] at hread
      cases hread
  · rintro ⟨hne, hform⟩
    cases hread : ofFrame f with
    | error e => exact ⟨e, rfl⟩
    | ok read =>
        cases read with
        | none => exact absurd (ofFrame_eq_ok_none_iff.1 hread) hne
        | some cmd => exact absurd (form_iff.2 ⟨cmd, hread, .refl cmd⟩) (hform cmd)

end Command

end CacheBench
