import CacheBench.Wire.Command
import Mathlib.Data.List.Induction

/-!
# The grammar of commands

`Spells` relates the name and the arguments of a command frame to the command, one constructor for
each form, and `Pairs` relates the arguments of a batch to its pairs. Reading a frame succeeds in
exactly these cases. Of the pairs of one key the last one is left in the batch.
-/

namespace CacheBench

open Std (TreeMap)

theorem ok_of_bind {ε α β : Type} {x : Except ε α} {g : α → Except ε β} {b : β}
    (h : (x >>= g) = .ok b) : ∃ a, x = .ok a ∧ g a = .ok b := by
  cases x with
  | error e => cases h
  | ok a => exact ⟨a, rfl, h⟩

namespace Batch

def last? (pairs : List (Key × Value)) (k : Key) : Option Value := pairs.reverse.lookup k

theorem last?_concat (pairs : List (Key × Value)) (p : Key × Value) (k : Key) :
    last? (pairs ++ [p]) k = if p.1 = k then some p.2 else last? pairs k := by
  rw [last?, List.reverse_append, List.reverse_singleton, List.singleton_append, List.lookup_cons]
  by_cases h : p.1 = k
  · simp [h]
  · rw [if_neg h, last?]
    split
    · rename_i hb
      exact absurd (beq_iff_eq.1 hb).symm h
    · rfl

theorem ofList_concat (pairs : List (Key × Value)) (p : Key × Value) :
    ofList (pairs ++ [p]) = (ofList pairs).insert p.1 p.2 := by
  rw [ofList, List.foldl_append]
  rfl

theorem getElem?_ofList (pairs : List (Key × Value)) (k : Key) :
    (ofList pairs)[k]? = last? pairs k := by
  induction pairs using List.reverseRecOn with
  | nil => rfl
  | append_singleton pairs p ih =>
      simp only [last?_concat, ofList_concat, TreeMap.getElem?_insert,
        Std.LawfulEqCmp.compare_eq_iff_eq, ih]

end Batch

namespace Command

inductive Pairs : List Frame → List (Key × Value) → Prop
  | nil : Pairs [] []
  | cons {k v : Frame} {rest : List Frame} {key : Key} {value : Value} {pairs : List (Key × Value)}
    (hk : k.key = .ok key) (hv : v.value = .ok value) (hrest : Pairs rest pairs) :
    Pairs (k :: v :: rest) ((key, value) :: pairs)

/-- The name and the arguments of a frame spell a command. -/
inductive Spells : String → List Frame → Command → Prop
  | ping {args : List Frame} : Spells "PING" args .ping
  | use {cache : Frame} {name : String} (h : cache.text? = some name) :
    Spells "USE" [cache] (.use name)
  | get {k : Frame} {key : Key} (hk : k.key = .ok key) : Spells "GET" [k] (.get key)
  | set {k v : Frame} {key : Key} {value : Value} (hk : k.key = .ok key)
    (hv : v.value = .ok value) : Spells "SET" [k, v] (.set key value)
  | mset {args : List Frame} {pairs : List (Key × Value)} (h : Pairs args pairs)
    (hne : pairs ≠ []) : Spells "MSET" args (.mset (Batch.ofList pairs))
  | query {field min max : Frame} {p : Predicate} (hfield : field.field = .ok p.field)
    (hmin : min.bound = .ok p.min) (hmax : max.bound = .ok p.max) :
    Spells "QUERY" [field, min, max] (.query p)
  | size : Spells "DBSIZE" [] .size

variable {args : List Frame} {ps : List (Key × Value)} {name : String} {cmd : Command}

theorem Pairs.length_eq (h : Pairs args ps) : args.length = 2 * ps.length := by
  induction h with
  | nil => rfl
  | cons hk hv hrest ih =>
      simp only [List.length_cons, ih]
      omega

theorem Pairs.pairs_eq (h : Pairs args ps) : pairs args = .ok ps := by
  induction h with
  | nil => rfl
  | cons hk hv hrest ih =>
      rw [pairs, hk, hv, ih]
      rfl

theorem Pairs.of_pairs (heven : args.length % 2 = 0) (h : pairs args = .ok ps) : Pairs args ps := by
  induction args using pairs.induct generalizing ps with
  | case1 k v rest ih =>
      rw [pairs] at h
      obtain ⟨key, hk, h⟩ := ok_of_bind h
      obtain ⟨value, hv, h⟩ := ok_of_bind h
      obtain ⟨ps, hrest, h⟩ := ok_of_bind h
      cases h
      exact .cons hk hv (ih (by simp only [List.length_cons] at heven; omega) hrest)
  | case2 args hargs =>
      -- One frame alone is not even, two would be a pair.
      cases args with
      | nil =>
          cases h
          exact .nil
      | cons k args =>
          cases args with
          | nil => cases heven
          | cons v rest => exact absurd rfl (hargs k v rest)

theorem Spells.ofParts_eq (h : Spells name args cmd) : ofParts name args = .ok cmd := by
  cases h with
  | ping => rfl
  | use h => simp only [ofParts, h]
  | get hk =>
      simp only [ofParts, hk]
      rfl
  | set hk hv =>
      simp only [ofParts, hk, hv]
      rfl
  | @mset args ps h hne =>
      have hlength := h.length_eq
      have hpos : 0 < ps.length := List.length_pos_iff.2 hne
      have hcount : ¬ (args.isEmpty || args.length % 2 = 1) := by
        simp only [Bool.or_eq_true, List.isEmpty_iff_length_eq_zero, decide_eq_true_eq]
        omega
      simp only [ofParts, if_neg hcount, h.pairs_eq]
      rfl
  | query hfield hmin hmax =>
      simp only [ofParts, hfield, hmin, hmax]
      rfl
  | size => rfl

theorem Spells.of_ofParts (h : ofParts name args = .ok cmd) : Spells name args cmd := by
  unfold ofParts at h
  split at h
  · cases h
    exact .ping
  · split at h
    · rename_i hs
      cases h
      exact .use hs
    · cases h
  · cases h
  · obtain ⟨key, hk, h⟩ := ok_of_bind h
    cases h
    exact .get hk
  · cases h
  · obtain ⟨key, hk, h⟩ := ok_of_bind h
    obtain ⟨value, hv, h⟩ := ok_of_bind h
    cases h
    exact .set hk hv
  · cases h
  · split at h
    · cases h
    · rename_i hcount
      obtain ⟨ps, hpairs, h⟩ := ok_of_bind h
      cases h
      simp only [Bool.or_eq_true, List.isEmpty_iff_length_eq_zero, decide_eq_true_eq,
        not_or] at hcount
      have hps : Pairs args ps := .of_pairs (by omega) hpairs
      refine .mset hps fun he => ?_
      have hlength := hps.length_eq
      rw [he, List.length_nil] at hlength
      omega
  · obtain ⟨field, hfield, h⟩ := ok_of_bind h
    obtain ⟨min, hmin, h⟩ := ok_of_bind h
    obtain ⟨max, hmax, h⟩ := ok_of_bind h
    cases h
    exact .query hfield hmin hmax
  · cases h
  · cases h
    exact .size
  · cases h
  · cases h

/-- A frame is a command if and only if it is an array whose first item names a command, in any
case, and whose other items are arguments of it. -/
theorem ofFrame_eq_ok_some_iff {f : Frame} :
    ofFrame f = .ok (some cmd) ↔ ∃ head args text, f = .array (head :: args) ∧
      head.text? = some text ∧ Spells (text.map Char.toUpper) args cmd := by
  constructor
  · intro h
    unfold ofFrame at h
    split at h
    · cases h
    · rename_i head args
      split at h
      · rename_i text htext
        cases hparts : ofParts (text.map Char.toUpper) args with
        | error err =>
            rw [hparts] at h
            cases h
        | ok cmd =>
            rw [hparts] at h
            cases h
            exact ⟨head, args, text, rfl, htext, .of_ofParts hparts⟩
      · cases h
    · cases h
  · rintro ⟨head, args, text, rfl, htext, hspells⟩
    simp only [ofFrame, htext, hspells.ofParts_eq]
    rfl

theorem ofFrame_eq_ok_none_iff {f : Frame} : ofFrame f = .ok none ↔ f = .array [] := by
  constructor
  · intro h
    unfold ofFrame at h
    split at h
    · rfl
    · rename_i args
      split at h
      · rename_i text _
        cases hparts : ofParts (text.map Char.toUpper) args with
        | error err | ok cmd =>
            rw [hparts] at h
            cases h
      · cases h
    · cases h
  · rintro rfl
    rfl

end Command

end CacheBench
