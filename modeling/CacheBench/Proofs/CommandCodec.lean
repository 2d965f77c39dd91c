import CacheBench.Proofs.AppliedBatch
import CacheBench.Proofs.CommandGrammar
import CacheBench.Proofs.EndpointStep
import CacheBench.Proofs.FrameCodec
import CacheBench.Wire.Client

/-!
# Commands and answers on the wire

The frame that a client sends for a command is read as a command with the same effect and the same
reply, and the frame that carries an answer is read as that answer. What has to be assumed is that
the parts `Travels`: the JSON form of a value or a record is read back, the text of a number is, and
no length exceeds a 64-bit number. A bound that is no number need not come through as the same one,
but no record lies in such bounds.
-/

namespace CacheBench

open Std (TreeMap)

/-! ## What comes through -/

structure Value.Travels (v : Value) : Prop where
  read : ofJson? (utf8 v.toJson) = some v
  fits : (utf8 v.toJson).length < 2 ^ 63

structure Record.Travels (r : Record) : Prop where
  read : ofJson? (utf8 r.toJson) = some r
  fits : (utf8 r.toJson).length < 2 ^ 63

structure Binary64.Travels (x : Binary64) : Prop where
  read : ¬ x.isNaN → ofText? (toString x) = some x
  fits : (utf8 (toString x)).length < 2 ^ 63

namespace Command

/-- Everything in the command comes through. -/
inductive Travels : Command → Prop
  | ping : Travels .ping
  | use {name : String} (fits : (utf8 name).length < 2 ^ 63) : Travels (.use name)
  | get {k : Key} : Travels (.get k)
  | set {k : Key} {v : Value} (hv : v.Travels) : Travels (.set k v)
  | mset {b : Batch} (hb : ∀ (k : Key) (v : Value), b[k]? = some v → v.Travels)
    (fits : b.size < 2 ^ 62) : Travels (.mset b)
  | query {p : Predicate} (hmin : p.min.Travels) (hmax : p.max.Travels) : Travels (.query p)
  | size : Travels .size

end Command

def Request.Travels : (r : Request) → r.Answer → Prop
  | .get _, v? => ∀ v, v? = some v → v.Travels
  | .query _, rs => rs.length < 2 ^ 63 ∧ ∀ r ∈ rs, r.Travels
  | .size, n => n < 2 ^ 63
  | .put _ _, _ | .putAll _, _ | .begin, _ | .txGet _ _, _ | .txPut _ _ _, _ | .commit _, _
  | .rollback _, _ | .drop _, _ => True

/-! ## Batches -/

namespace Batch

variable {pairs : List (Key × Value)} {k : Key} {v : Value}

theorem last?_eq_some_iff (hd : pairs.Pairwise fun p q => p.1 ≠ q.1) :
    last? pairs k = some v ↔ (k, v) ∈ pairs := by
  induction pairs using List.reverseRecOn with
  | nil => simp [last?]
  | append_singleton pairs p ih =>
      obtain ⟨hpairs, -, hp⟩ := List.pairwise_append.1 hd
      rw [last?_concat, List.mem_append, List.mem_singleton]
      by_cases hk : p.1 = k
      · have hnew : (k, v) ∉ pairs := fun h => hp _ h p List.mem_cons_self hk.symm
        subst hk
        rw [if_pos rfl, or_iff_right hnew, Option.some.injEq, Prod.ext_iff]
        simp [eq_comm]
      · have hne : (k, v) ≠ p := by
          rintro rfl
          exact hk rfl
        rw [if_neg hk, or_iff_left hne, ih hpairs]

theorem toList_ofList_toList (b : Batch) : (ofList b.toList).toList = b.toList := by
  refine TreeMap.Equiv.toList_eq (.of_forall_constGet?_eq fun k => ?_)
  rw [getElem?_ofList]
  refine Option.ext fun v => ?_
  rw [last?_eq_some_iff (Entries.toList_keys_ne b), TreeMap.mem_toList_iff_getElem?_eq_some]

theorem length_toList (b : Batch) : b.toList.length = b.size := TreeMap.length_toList

end Batch

theorem Store.putAll_congr {b b' : Batch} (h : b.toList = b'.toList) (s : Store) :
    s.putAll b = s.putAll b' := by
  have hempty : b.isEmpty = b'.isEmpty := by
    rw [← TreeMap.isEmpty_toList, h, TreeMap.isEmpty_toList]
  simp only [putAll, hempty, apply, Entries.putAll, h]

/-! ## Bounds that are no numbers -/

theorem Predicate.holds_of_isNaN {p : Predicate} (h : p.min.isNaN ∨ p.max.isNaN) (r : Record) :
    p.holds r = false := by
  rcases h with h | h
  · simp [holds, Binary64.le, h]
  · simp [holds, Binary64.lt, h]

theorem Store.query_of_isNaN {p : Predicate} (h : p.min.isNaN ∨ p.max.isNaN) (s : Store) :
    s.query p = [] := by
  have hnone (rs : List Record) : rs.filter p.holds = [] :=
    List.filter_eq_nil_iff.2 fun r _ => by simp [p.holds_of_isNaN h r]
  unfold query Entries.query
  split
  · unfold Entries.indexQuery
    split
    · rfl
    · exact hnone _
  · unfold Entries.scanQuery
    rw [hnone, List.mergeSort_nil]

/-! ## Commands -/

namespace Binary64

theorem ofText?_toString_of_isNaN {x : Binary64} (h : x.isNaN) :
    ofText? (toString x) = some nan := by
  have htext : toString x = "NaN" := if_pos h
  have hword : (String.ofList ['N', 'a', 'N']).map Char.toLower = "nan" :=
    map_eq_of_toList (by decide)
  have hread : unsignedOfText? false "NaN".toList = some nan := by
    simp only [unsignedOfText?, show "NaN".toList = ['N', 'a', 'N'] from rfl, hword]
    rfl
  rw [htext]
  exact hread

theorem Travels.exists_ofText? {x : Binary64} (h : x.Travels) :
    ∃ y, ofText? (toString x) = some y ∧ y.isNaN = x.isNaN ∧ (¬ x.isNaN → y = x) := by
  by_cases hx : x.isNaN
  · exact ⟨nan, ofText?_toString_of_isNaN hx, hx.symm ▸ rfl, absurd hx⟩
  · exact ⟨x, h.read hx, rfl, fun _ => rfl⟩

end Binary64

namespace Frame

theorem fits_ofText {s : String} (h : (utf8 s).length < 2 ^ 63) : (ofText s).Fits := by
  intro g hg
  cases hg
  exact h

theorem fits_array {items : List Frame} (hlength : items.length < 2 ^ 63)
    (h : ∀ f ∈ items, f.Fits) : (array items).Fits := by
  intro g hg
  cases hg with
  | self => exact hlength
  | item mem part => exact h _ mem g part

theorem text?_ofText (s : String) : (ofText s).text? = some s := text?_utf8 s

theorem key_ofText (k : Key) : (ofText (toString k)).key = .ok k := by
  simp only [key, text?_ofText, Key.ofText?_toString]

theorem value_ofText {v w : Value} (h : Value.ofJson? (utf8 v.toJson) = some w) :
    (ofText v.toJson).value = .ok w := by
  simp only [value, ofText, h]

theorem field_ofText (field : Field) : (ofText field.name).field = .ok field := by
  have hname : field.name.map Char.toLower = field.name := by
    cases field <;> exact map_eq_of_toList (by decide)
  simp only [Frame.field, text?_ofText, Field.ofText, hname]
  cases field <;> rfl

theorem bound_ofText {x y : Binary64} (h : Binary64.ofText? (toString x) = some y) :
    (ofText (toString x)).bound = .ok y := by
  simp only [bound, text?_ofText, h]

end Frame

namespace Command

variable {cmd : Command} {r : Request}

theorem unbroken_toFrame (cmd : Command) : cmd.toFrame.Unbroken := by
  apply Frame.unbroken_array
  intro f hf
  obtain ⟨s, -, rfl⟩ := List.mem_map.1 hf
  exact Frame.unbroken_ofText s

theorem length_pairs (b : Batch) :
    (b.toList.flatMap fun (k, v) => [toString k, v.toJson]).length = 2 * b.size := by
  rw [← b.length_toList]
  induction b.toList with
  | nil => rfl
  | cons p pairs ih =>
      simp only [List.flatMap_cons, List.length_append, List.length_cons, List.length_nil, ih]
      omega

theorem length_utf8_key (k : Key) : (utf8 (toString k)).length < 2 ^ 63 :=
  Nat.lt_of_le_of_lt k.length_utf8_toString_le (by decide)

theorem fits_toFrame (hlength : cmd.parts.length < 2 ^ 63)
    (hparts : ∀ s ∈ cmd.parts, (utf8 s).length < 2 ^ 63) : cmd.toFrame.Fits := by
  apply Frame.fits_array
  · rwa [List.length_map]
  · intro f hf
    obtain ⟨s, hs, rfl⟩ := List.mem_map.1 hf
    exact Frame.fits_ofText (hparts s hs)

theorem fits_set {k : Key} {v : Value} (hv : (utf8 v.toJson).length < 2 ^ 63) :
    (set k v).toFrame.Fits := by
  apply fits_toFrame
  · simp [parts]
  · simp only [parts, List.forall_mem_cons]
    exact ⟨by decide, length_utf8_key k, hv, nofun⟩

theorem fits_mset {b : Batch}
    (hb : ∀ (k : Key) (v : Value), b[k]? = some v → (utf8 v.toJson).length < 2 ^ 63)
    (hsize : b.size < 2 ^ 62) : (mset b).toFrame.Fits := by
  apply fits_toFrame
  · rw [parts, List.length_cons, length_pairs]
    omega
  · simp only [parts, List.forall_mem_cons, List.forall_mem_flatMap]
    refine ⟨by decide, fun (k, v) hmem => ?_⟩
    exact ⟨length_utf8_key k, hb k v (TreeMap.mem_toList_iff_getElem?_eq_some.1 hmem), nofun⟩

theorem Travels.fits (h : cmd.Travels) : cmd.toFrame.Fits := by
  have hfield (field : Field) : (utf8 field.name).length < 2 ^ 63 := by
    cases field <;> decide
  cases h with
  | set hv => exact fits_set hv.fits
  | mset hb hsize => exact fits_mset (fun k v hv => (hb k v hv).fits) hsize
  | ping | size =>
      refine fits_toFrame (by simp [parts]) ?_
      exact List.forall_mem_singleton.2 (by decide)
  | use hname =>
      refine fits_toFrame (by simp [parts]) ?_
      simp only [parts, List.forall_mem_cons]
      exact ⟨by decide, hname, nofun⟩
  | @get k =>
      refine fits_toFrame (by simp [parts]) ?_
      simp only [parts, List.forall_mem_cons]
      exact ⟨by decide, length_utf8_key k, nofun⟩
  | query hmin hmax =>
      refine fits_toFrame (by simp [parts]) ?_
      simp only [parts, List.forall_mem_cons]
      exact ⟨by decide, hfield _, hmin.fits, hmax.fits, nofun⟩

theorem ofFrame_toFrame_of_spells {cmd' : Command} {name : String} {args : List String}
    (hparts : cmd.parts = name :: args) (hupper : name.toList.map Char.toUpper = name.toList)
    (h : Spells name (args.map Frame.ofText) cmd') : ofFrame cmd.toFrame = .ok (some cmd') := by
  refine ofFrame_eq_ok_some_iff.2 ⟨.ofText name, args.map Frame.ofText, name, ?_,
    Frame.text?_ofText name, ?_⟩
  · rw [toFrame, hparts, List.map_cons]
  · rwa [map_eq_of_toList hupper]

theorem ofFrame_toFrame_use (name : String) :
    ofFrame (use name).toFrame = .ok (some (.use name)) :=
  ofFrame_toFrame_of_spells rfl (by decide) (.use (Frame.text?_ofText name))

theorem pairs_of_batch (received : Value → Value) {pairs : List (Key × Value)}
    (h : ∀ p ∈ pairs, Value.ofJson? (utf8 p.2.toJson) = some (received p.2)) :
    Pairs ((pairs.flatMap fun (k, v) => [toString k, v.toJson]).map Frame.ofText)
      (pairs.map fun p => (p.1, received p.2)) := by
  induction pairs with
  | nil => exact .nil
  | cons p pairs ih =>
      exact .cons (Frame.key_ofText p.1) (Frame.value_ofText (h p List.mem_cons_self))
        (ih fun q hq => h q (List.mem_cons_of_mem _ hq))

/-- What is read from the frame of a command does what the command does. -/
theorem Travels.exists_ofFrame (h : cmd.Travels) (hr : cmd.request? = some r)
    (hne : ∀ b, cmd = .mset b → ¬ b.isEmpty) :
    ∃ cmd' r', ofFrame cmd.toFrame = .ok (some cmd') ∧ cmd'.request? = some r' ∧
      ∀ c, cmd'.apply c = cmd.apply c := by
  cases h with
  | ping | use => cases hr
  | @get k =>
      exact ⟨.get k, _, ofFrame_toFrame_of_spells rfl (by decide) (.get (Frame.key_ofText k)), rfl,
        fun c => rfl⟩
  | @set k v hv =>
      exact ⟨.set k v, _, ofFrame_toFrame_of_spells rfl (by decide)
        (.set (Frame.key_ofText k) (Frame.value_ofText hv.read)), rfl, fun c => rfl⟩
  | @mset b hb hsize =>
      have hpairs : b.toList ≠ [] := by
        rw [ne_eq, ← List.isEmpty_iff, TreeMap.isEmpty_toList]
        exact hne b rfl
      have hread := pairs_of_batch id fun p hp =>
        (hb p.1 p.2 (TreeMap.mem_toList_iff_getElem?_eq_some.1 hp)).read
      simp only [id_eq, List.map_id'] at hread
      refine ⟨.mset (Batch.ofList b.toList), _, ofFrame_toFrame_of_spells rfl (by decide)
        (.mset hread hpairs), rfl, fun c => ?_⟩
      simp only [apply, Cache.step, Store.putAll_congr b.toList_ofList_toList]
  | @query p hmin hmax =>
      obtain ⟨min, hreadMin, hnanMin, hsameMin⟩ := hmin.exists_ofText?
      obtain ⟨max, hreadMax, hnanMax, hsameMax⟩ := hmax.exists_ofText?
      refine ⟨.query ⟨p.field, min, max⟩, _, ofFrame_toFrame_of_spells rfl (by decide)
        (.query (Frame.field_ofText p.field) (Frame.bound_ofText hreadMin)
          (Frame.bound_ofText hreadMax)), rfl, fun c => ?_⟩
      have hquery : c.store.query ⟨p.field, min, max⟩ = c.store.query p := by
        by_cases hnan : p.min.isNaN ∨ p.max.isNaN
        · rw [Store.query_of_isNaN hnan, Store.query_of_isNaN (by rwa [hnanMin, hnanMax])]
        · obtain ⟨hn, hn'⟩ := not_or.1 hnan
          rw [hsameMin hn, hsameMax hn']
      simp only [apply, Cache.step, hquery]
  | size => exact ⟨.size, _, ofFrame_toFrame_of_spells rfl (by decide) .size, rfl, fun c => rfl⟩

end Command

/-! ## Answers -/

namespace Client

theorem recordOf_ofText {r : Record} (h : r.Travels) : recordOf (.ofText r.toJson) = .ok r := by
  simp only [recordOf, Frame.ofText, h.read]

theorem mapM_recordOf {rs : List Record} (h : ∀ r ∈ rs, r.Travels) :
    (rs.map fun r => Frame.ofText r.toJson).mapM recordOf = .ok rs := by
  induction rs with
  | nil => rfl
  | cons r rs ih =>
      rw [List.map_cons, List.mapM_cons, recordOf_ofText (h r List.mem_cons_self),
        ih fun r' hr' => h r' (List.mem_cons_of_mem _ hr')]
      rfl

theorem expectDone_done : Frame.done.expectDone = .ok () := rfl

/-- The client reads the answer that the reply carries. -/
theorem read_replyOf {r : Request} {a : r.Answer} (hr : (command? r).isSome) (h : r.Travels a) :
    read r (r.replyOf a) = .ok a := by
  cases r with
  | begin | txGet _ _ | txPut _ _ _ | commit _ | rollback _ | drop _ => cases hr
  | put _ _ | putAll _ => rfl
  | get k =>
      cases a with
      | none => rfl
      | some v =>
          have hread := (h v rfl).read
          simp only [read, Request.replyOf, Option.map_some, Option.getD_some, Frame.ofText, hread]
  | query p => exact mapM_recordOf h.2
  | size =>
      have hn : (Int64.ofNat a).toInt = a := Int64.toInt_ofNat_of_lt h
      have hpos : (0 : Int64) ≤ Int64.ofNat a := by
        rw [Int64.le_iff_toInt_le, hn]
        exact Int.natCast_nonneg a
      simp only [read, Request.replyOf, if_pos hpos, hn, Int.toNat_natCast]

end Client

theorem Frame.fits_done : done.Fits := by
  intro g hg
  cases hg
  decide

theorem Request.fits_replyOf {r : Request} {a : r.Answer} (h : r.Travels a) :
    (r.replyOf a).Fits := by
  have hzero : 0 < 2 ^ 63 := by decide
  cases r with
  | put _ _ | putAll _ | begin | txGet _ _ | txPut _ _ _ | commit _ | rollback _ | drop _ =>
      exact Frame.fits_done
  | get k =>
      cases a with
      | none =>
          intro g hg
          cases hg
          exact hzero
      | some v => exact Frame.fits_ofText (h v rfl).fits
  | query p =>
      refine Frame.fits_array (by rw [List.length_map]; exact h.1) fun f hf => ?_
      obtain ⟨r, hr, rfl⟩ := List.mem_map.1 hf
      exact Frame.fits_ofText (h.2 r hr).fits
  | size =>
      intro g hg
      cases hg
      exact hzero

end CacheBench
