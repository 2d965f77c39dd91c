import CacheBench.Record
import CacheBench.Proofs.FiniteNumbers
import CacheBench.Proofs.JsonText

/-!
# Values written and read again

A written value is an object with one member, whose payload is an integer or a structure. Integers
and names are read as they were; a salary is read as whatever its text is read as, which is nothing
where the text is `null`. So a value comes back if its salary does, and one whose salary is NaN or
infinite is refused.
-/

namespace CacheBench

open Json (Tree Entry ReadsAs integer)

namespace Binary64

/-- The number that a number's JSON text is read as. -/
def reread? (x : Binary64) : Option Binary64 :=
  (Tree.read (utf8 (x.text .json))).bind Tree.toBinary64?

def ReadsBack (x : Binary64) : Prop := x.reread? = some x

instance (x : Binary64) : Decidable x.ReadsBack := inferInstanceAs (Decidable (_ = _))

theorem text_json_of_not_isFinite {x : Binary64} (h : x.isFinite = false) :
    x.text .json = "null" := by
  rw [isFinite, decide_eq_false_iff_not, Nat.not_lt] at h
  rcases Nat.lt_or_eq_of_le h with hlt | heq
  · have hnan : x.isNaN = true := decide_eq_true hlt
    rw [text, if_pos hnan]
    rfl
  · have hnan : x.isNaN = false := decide_eq_false (by omega)
    have hinfinite : x.isInfinite = true := decide_eq_true heq.symm
    rw [text, hnan, if_neg Bool.false_ne_true, if_pos hinfinite]
    rfl

end Binary64

theorem toUInt64?_integer (n : UInt64) :
    (Tree.number (integer n.toNat)).toUInt64? = some n := by
  have hlt : (n.toNat : Int) < 2 ^ 64 := Int.ofNat_lt.2 n.toNat_lt
  rw [Tree.toUInt64?, Json.Literal.toUInt64?, Json.toInt?_integer, Option.bind_some,
    if_pos ⟨Int.natCast_nonneg n.toNat, hlt⟩, Int.toNat_natCast, UInt64.ofNat_toNat]

theorem toInt64?_integer (n : Int64) : (Tree.number (integer n.toInt)).toInt64? = some n := by
  have hlow : -2 ^ 63 ≤ n.toInt := n.le_toInt
  have hhigh : n.toInt < 2 ^ 63 := n.toInt_lt
  rw [Tree.toInt64?, Json.Literal.toInt64?, Json.toInt?_integer, Option.bind_some,
    if_pos ⟨hlow, hhigh⟩, Int64.ofInt_toInt]

theorem isFinite_of_toBinary64? {t : Tree} {x : Binary64} (h : t.toBinary64? = some x) :
    x.isFinite := by
  cases t with
  | number n => exact Json.Literal.toBinary64?_isFinite h
  | null | bool | string | array | object => cases h

theorem isFinite_of_required {t : Option Tree} {x : Binary64}
    (h : Json.required Tree.toBinary64? t = some x) : x.isFinite := by
  obtain ⟨t, -, hx⟩ := Option.bind_eq_some_iff.1 h
  exact isFinite_of_toBinary64? hx

theorem Binary64.isFinite_of_reread? {x y : Binary64} (h : x.reread? = some y) : y.isFinite := by
  obtain ⟨t, -, hy⟩ := Option.bind_eq_some_iff.1 h
  exact isFinite_of_toBinary64? hy

namespace Json.Entry

def uint64 (name : String) (n : UInt64) : Entry := ⟨name, toString n, .number (integer n.toNat)⟩

def string (name text : String) : Entry := ⟨name, quote text, .string (inside text)⟩

theorem good_uint64 (name : String) (n : UInt64) : (uint64 name n).Good :=
  readsAs_integer n.toNat

theorem good_string (name text : String) : (string name text).Good := readsAs_quote text

end Json.Entry

namespace Record

/-- The members of a written record, its salary read as the tree `t`. -/
def entries (r : Record) (t : Tree) : List Entry :=
  [.uint64 "id" r.id, .string "first_name" r.firstName, .string "last_name" r.lastName,
    ⟨"salary", r.salary.text .json, t⟩]

theorem readsAs_toJson {r : Record} {t : Tree} (h : ReadsAs (utf8 (r.salary.text .json)) t) :
    ReadsAs (utf8 r.toJson) (.object ((r.entries t).map Entry.read)) := by
  have htext : r.toJson = Json.object ((r.entries t).map Entry.member) := rfl
  have hes : ∀ e ∈ r.entries t, e.Good := by
    simp only [entries, List.forall_mem_cons]
    exact ⟨Entry.good_uint64 _ _, Entry.good_string _ _, Entry.good_string _ _, h,
      fun _ hnil => absurd hnil List.not_mem_nil⟩
  rw [htext]
  exact Json.readsAs_object (List.cons_ne_nil _ _) hes

theorem toFields?_entries (r : Record) (t : Tree) :
    (Tree.object ((r.entries t).map Entry.read)).toFields?
      ["id", "first_name", "last_name", "salary"] =
        some ((r.entries t).map fun e => some e.tree) := by
  rw [Json.toFields?_object]
  simp [entries, Entry.uint64, Entry.string, Json.field?]

theorem ofTree?_of_toFields? {t id first last salary : Tree}
    (h : t.toFields? ["id", "first_name", "last_name", "salary"] =
      some [some id, some first, some last, some salary]) :
    ofTree? t = do
      return ⟨← id.toUInt64?, ← first.toText?, ← last.toText?, ← salary.toBinary64?⟩ := by
  rw [ofTree?, h]
  rfl

theorem ofTree?_entries (r : Record) (t : Tree) :
    ofTree? (.object ((r.entries t).map Entry.read)) =
      t.toBinary64?.map fun x => { r with salary := x } := by
  rw [ofTree?_of_toFields? (toFields?_entries r t)]
  simp only [Entry.uint64, Entry.string, toUInt64?_integer, Tree.toText?, Json.unquote?_inside]
  cases t.toBinary64? <;> rfl

theorem isFinite_of_ofTree? {r : Record} {t : Tree} (h : ofTree? t = some r) :
    r.salary.isFinite := by
  unfold ofTree? at h
  split at h
  · simp only [Option.bind_eq_bind, Option.bind_eq_some_iff] at h
    obtain ⟨id, -, first, -, last, -, x, hx, h⟩ := h
    cases h
    exact isFinite_of_required hx
  · cases h

end Record

namespace Value

/-- A written value is read as the tree of its one member. -/
theorem ofJson?_member {e : Entry} (h : e.Good) :
    ofJson? (utf8 (Json.object [e.member])) = ofTree? (.object [e.read]) := by
  rw [ofJson?, (Json.readsAs_member h).read, Option.bind_some]

theorem ofTree?_int {e : Entry} (hname : e.name = "int") :
    ofTree? (.object [e.read]) = e.tree.toInt64?.map .int := by
  rw [ofTree?, Json.toChoice?_object, hname]
  rfl

theorem ofTree?_sample {e : Entry} {id : Tree} (hname : e.name = "sample")
    (hfields : e.tree.toFields? ["id"] = some [some id]) :
    ofTree? (.object [e.read]) = id.toUInt64?.map .sample := by
  rw [ofTree?, Json.toChoice?_object, hname]
  simp only [hfields]
  rfl

theorem ofTree?_record {e : Entry} (hname : e.name = "record") :
    ofTree? (.object [e.read]) = (Record.ofTree? e.tree).map .record := by
  rw [ofTree?, Json.toChoice?_object, hname]
  rfl

theorem ofJson?_toJson_int (n : Int64) : ofJson? (utf8 (Value.int n).toJson) = some (.int n) := by
  have hread := ofJson?_member (e := ⟨"int", toString n, .number (integer n.toInt)⟩)
    (Json.readsAs_integer n.toInt)
  rw [ofTree?_int rfl, toInt64?_integer] at hread
  exact hread

theorem ofJson?_toJson_sample (id : UInt64) :
    ofJson? (utf8 (Value.sample id).toJson) = some (.sample id) := by
  have hfields : (Tree.object [(Entry.uint64 "id" id).read]).toFields? ["id"] =
      some [some (Entry.uint64 "id" id).tree] := by
    have h := Json.toFields?_object ["id"] [.uint64 "id" id]
    rw [List.map_singleton] at h
    rw [h]
    simp [Entry.uint64, Json.field?]
  have hread := ofJson?_member (e := ⟨"sample", Json.object [(Entry.uint64 "id" id).member], _⟩)
    (Json.readsAs_member (Entry.good_uint64 "id" id))
  rw [ofTree?_sample rfl hfields] at hread
  exact hread.trans (congrArg (Option.map Value.sample) (toUInt64?_integer id))

/-- A written record is read as itself with the salary that its salary's text is read as. -/
theorem ofJson?_toJson_record {r : Record} {t : Tree}
    (h : ReadsAs (utf8 (r.salary.text .json)) t) :
    ofJson? (utf8 (Value.record r).toJson) =
      t.toBinary64?.map fun x => .record { r with salary := x } := by
  have hread := ofJson?_member (e := ⟨"record", r.toJson, _⟩) (Record.readsAs_toJson h)
  rw [ofTree?_record rfl, Record.ofTree?_entries, Option.map_map] at hread
  exact hread

/-- A record whose salary's text is read as the number `x` comes back with that salary. -/
theorem ofJson?_toJson_of_reread? {r : Record} {x : Binary64} (h : r.salary.reread? = some x) :
    ofJson? (utf8 (Value.record r).toJson) = some (.record { r with salary := x }) := by
  obtain ⟨t, hread, hx⟩ := Option.bind_eq_some_iff.1 h
  cases t with
  | number n => rw [ofJson?_toJson_record (.of_read hread), hx, Option.map_some]
  | null | bool | string | array | object => cases hx

theorem ofJson?_toJson {v : Value} (h : ∀ x ∈ v.salary?, x.ReadsBack) :
    ofJson? (utf8 v.toJson) = some v := by
  cases v with
  | int n => exact ofJson?_toJson_int n
  | sample id => exact ofJson?_toJson_sample id
  | record r => exact ofJson?_toJson_of_reread? (h r.salary rfl)

theorem ofJson?_toJson_of_not_isFinite {v : Value} (h : ∃ x ∈ v.salary?, x.isFinite = false) :
    ofJson? (utf8 v.toJson) = none := by
  obtain ⟨x, hx, hfinite⟩ := h
  cases v with
  | int | sample => cases hx
  | record r =>
      cases hx
      have hnull : ReadsAs (utf8 (r.salary.text .json)) .null := by
        rw [Binary64.text_json_of_not_isFinite hfinite]
        exact Json.readsAs_null
      rw [ofJson?_toJson_record hnull]
      rfl

theorem isFinite_of_ofJson? {b : Bytes} {v : Value} (h : ofJson? b = some v) :
    ∀ x ∈ v.salary?, x.isFinite := by
  obtain ⟨t, -, h⟩ := Option.bind_eq_some_iff.1 h
  unfold ofTree? at h
  split at h
  · obtain ⟨n, -, rfl⟩ := Option.map_eq_some_iff.1 h
    rintro x ⟨⟩
  · split at h
    · obtain ⟨id, -, rfl⟩ := Option.map_eq_some_iff.1 h
      rintro x ⟨⟩
    · cases h
  · obtain ⟨r, hr, rfl⟩ := Option.map_eq_some_iff.1 h
    rintro x ⟨⟩
    exact Record.isFinite_of_ofTree? hr
  · cases h

/-- Every value comes back from its encoding if its salary, where it has one, comes back from its
text; an encoding with a NaN or an infinity for a salary is refused. Whatever bytes are accepted,
the salary they give is finite and the value comes back from its own encoding likewise. -/
theorem json_round_trip :
    (∀ v : Value, (∀ x ∈ v.salary?, x.ReadsBack) → ofJson? (utf8 v.toJson) = some v) ∧
      (∀ v : Value, (∃ x ∈ v.salary?, x.isFinite = false) → ofJson? (utf8 v.toJson) = none) ∧
      ∀ (b : Bytes) (v : Value), ofJson? b = some v →
        (∀ x ∈ v.salary?, x.isFinite) ∧
          ((∀ x ∈ v.salary?, x.ReadsBack) → ofJson? (utf8 v.toJson) = some v) :=
  ⟨fun _ => ofJson?_toJson, fun _ => ofJson?_toJson_of_not_isFinite,
    fun _ _ h => ⟨isFinite_of_ofJson? h, ofJson?_toJson⟩⟩

/-- Names with a quote, a backslash and control characters, the three numbers without digits, and
a record read from an array in one order and from an object in another. -/
theorem json_round_trip_awkward :
    let awkward : Record := ⟨0xffffffffffffffff, "é \"\\\n\x01", "", ⟨0x3fb999999999999a⟩⟩
    let inArray := utf8 "\x7b\"record\":[7,\"first\\u004eame7\",\"lastName7\",7e3]\x7d"
    let inObject := utf8 ("\x7b\"record\":\x7b\"salary\":7e3,\"last_name\":\"lastName7\"," ++
      "\"age\":[],\"id\":7,\"first_name\":\"firstName7\"\x7d\x7d")
    ofJson? (utf8 (Value.record awkward).toJson) = some (.record awkward) ∧
      (∀ x ∈ [Binary64.nan, .infinity false, .infinity true],
        ofJson? (utf8 (Value.record { awkward with salary := x }).toJson) = none) ∧
      ∀ b ∈ [inArray, inObject], ofJson? b = some (.record (.forIndex 7)) ∧
        ofJson? (utf8 (Value.record (.forIndex 7)).toJson) = some (.record (.forIndex 7)) := by
  intro awkward inArray inObject
  have hsalary : ∀ x ∈ (Value.record awkward).salary?, x.ReadsBack := by decide +kernel
  have hnumbers : ∀ x ∈ [Binary64.nan, .infinity false, .infinity true], x.isFinite = false := by
    decide
  have hread : ∀ b ∈ [inArray, inObject], ofJson? b = some (.record (.forIndex 7)) := by
    decide +kernel
  have hpopulated : ∀ x ∈ (Value.record (.forIndex 7)).salary?, x.ReadsBack := by decide +kernel
  exact ⟨json_round_trip.1 _ hsalary,
    fun x hx => json_round_trip.2.1 _ ⟨x, rfl, hnumbers x hx⟩,
    fun b hb => ⟨hread b hb, (json_round_trip.2.2 b _ (hread b hb)).2 hpopulated⟩⟩

end Value

end CacheBench
