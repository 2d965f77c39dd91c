import CacheBench.Proofs.JsonTokens

/-!
# Written trees

`ReadsAs b t` says that the reader takes the tree `t` from the bytes `b` in front of anything that
ends them, with fuel for their length. It holds of written strings and integers, of every text
that is a number on its own, and of an object whose members it holds of; the readers of choices and
structures then find in such an object the names and trees that were written.
-/

namespace CacheBench.Json

/-! ## Written trees -/

theorem dropBlank_cons {c : UInt8} (h : isBlank c = false) (r : Bytes) :
    dropBlank (c :: r) = c :: r :=
  List.dropWhile_cons_of_neg (by simp [h])

/-- The bytes are a tree when anything but the rest of a number follows them, and blanks after
them are left out. -/
def ReadsAs (b : Bytes) (t : Tree) : Prop :=
  ∀ fuel rest, 2 * b.length + 2 ≤ fuel → Delimited rest →
    ∃ r, readValue fuel (b ++ rest) = some (t, r) ∧ dropBlank r = dropBlank rest

theorem ReadsAs.read {b : Bytes} {t : Tree} (h : ReadsAs b t) : Tree.read b = some t := by
  obtain ⟨r, hread, hrest⟩ := h (2 * b.length + 2) [] (Nat.le_refl _) delimited_nil
  rw [List.append_nil] at hread
  have hempty : dropBlank r = [] := hrest
  simp [Tree.read, hread, hempty]

theorem readsAs_null : ReadsAs (utf8 "null") .null := by
  intro fuel rest hfuel _
  obtain ⟨fuel, rfl⟩ : ∃ k, fuel = k + 1 := ⟨fuel - 1, by omega⟩
  exact ⟨rest, rfl, rfl⟩

theorem readsAs_quote (s : String) : ReadsAs (utf8 (quote s)) (.string (inside s)) := by
  intro fuel rest hfuel _
  obtain ⟨fuel, rfl⟩ : ∃ k, fuel = k + 1 := ⟨fuel - 1, by omega⟩
  refine ⟨rest, ?_, rfl⟩
  have hquote := dropBlank_cons (c := ascii '"') (by decide)
  have hscan := scanString_inside s rest
  rw [utf8_quote, List.cons_append, List.append_assoc, List.singleton_append, readValue.eq_def]
  simp only [hquote, hscan]
  rfl

theorem readValue_of_scanLiteral {b r : Bytes} {n : Literal}
    (h : scanLiteral (dropBlank b) = some (n, r)) (fuel : Nat) :
    readValue (fuel + 1) b = some (.number n, r) := by
  rw [readValue.eq_def]
  cases hb : dropBlank b with
  | nil =>
      rw [hb] at h
      cases h
  | cons c s =>
      rw [hb] at h
      obtain ⟨-, hbrace, hbracket, hquote, hn, ht, hf⟩ := scanLiteral_front h
      simp [hb, hbrace, hbracket, hquote, hn, ht, hf, h]

theorem scanLiteral_of_readValue {fuel : Nat} {b r : Bytes} {n : Literal}
    (h : readValue fuel b = some (.number n, r)) : scanLiteral (dropBlank b) = some (n, r) := by
  cases fuel with
  | zero => simp [readValue] at h
  | succ fuel =>
      rw [readValue.eq_def] at h
      dsimp only at h
      cases hb : dropBlank b with
      | nil => simp [hb] at h
      | cons c s =>
          simp only [hb] at h
          split_ifs at h
          · split at h
            · cases h
            · split_ifs at h <;> simp at h
          · split at h
            · cases h
            · split_ifs at h <;> simp at h
          · simp at h
          · simp at h
          · simp at h
          · simp at h
          · simpa using h

theorem readsAs_number {b r : Bytes} {n : Literal} (h : scanLiteral (dropBlank b) = some (n, r))
    (hr : dropBlank r = []) : ReadsAs b (.number n) := by
  intro fuel rest hfuel hrest
  obtain ⟨fuel, rfl⟩ : ∃ k, fuel = k + 1 := ⟨fuel - 1, by omega⟩
  have hne : (dropBlank b).isEmpty = false := by
    cases hb : dropBlank b with
    | nil =>
        rw [hb] at h
        cases h
    | cons c s => rfl
  have hfront : dropBlank (b ++ rest) = dropBlank b ++ rest := by
    rw [dropBlank, List.dropWhile_append]
    exact if_neg (by simpa [dropBlank] using hne)
  have hscan := scanLiteral_append h hrest
  rw [← hfront] at hscan
  refine ⟨r ++ rest, readValue_of_scanLiteral hscan fuel, ?_⟩
  rw [dropBlank, List.dropWhile_append]
  exact if_pos (by simpa [dropBlank] using hr)

theorem ReadsAs.of_read {b : Bytes} {n : Literal} (h : Tree.read b = some (.number n)) :
    ReadsAs b (.number n) := by
  simp only [Tree.read, Option.bind_eq_bind, Option.bind_eq_some_iff] at h
  obtain ⟨⟨t, r⟩, hread, h⟩ := h
  split_ifs at h with hempty
  cases h
  exact readsAs_number (scanLiteral_of_readValue hread) (List.isEmpty_iff.1 hempty)

theorem readsAs_of_scanLiteral {b : Bytes} {n : Literal} (h : scanLiteral b = some (n, [])) :
    ReadsAs b (.number n) := by
  refine readsAs_number (r := []) ?_ rfl
  cases b with
  | nil => cases h
  | cons c s => rw [dropBlank_cons (scanLiteral_front h).1, h]

theorem readsAs_integer (i : Int) : ReadsAs (utf8 (toString i)) (.number (integer i)) :=
  readsAs_of_scanLiteral (scanLiteral_toString i)

/-! ## Written objects -/

/-- A member of an object: its name, the text of its value and the tree of that text. -/
structure Entry where
  name : String
  text : String
  tree : Tree

namespace Entry

def Good (e : Entry) : Prop := ReadsAs (utf8 e.text) e.tree

def member (e : Entry) : String × String := (e.name, e.text)

def read (e : Entry) : Bytes × Tree := (inside e.name, e.tree)

def body (es : List Entry) : Bytes :=
  utf8 (",".intercalate (es.map fun e => quote e.name ++ ":" ++ e.text))

theorem body_singleton (e : Entry) :
    body [e] = ascii '"' :: (inside e.name ++ ascii '"' :: ascii ':' :: utf8 e.text) := by
  have hcolon : utf8 ":" = [ascii ':'] := by decide
  simp [body, String.intercalate_singleton, utf8_append, utf8_quote, hcolon]

theorem body_cons (e e' : Entry) (es : List Entry) :
    body (e :: e' :: es) = body [e] ++ ascii ',' :: body (e' :: es) := by
  have hcomma : utf8 "," = [ascii ','] := by decide
  simp [body, String.intercalate_singleton, String.intercalate_cons_cons, utf8_append, hcomma]

theorem readMembers_body {e : Entry} (h : e.Good) {fuel : Nat} {c : UInt8} {rest : Bytes}
    (hfuel : 2 * (body [e]).length ≤ fuel) (hc : c = ascii ',' ∨ c = ascii '\x7d') :
    readMembers (fuel + 1) (body [e] ++ c :: rest) =
      if c = ascii ',' then (readMembers fuel rest).map fun (ms, u) => (e.read :: ms, u)
      else some ([e.read], rest) := by
  have hdelimited : Delimited (c :: rest) := by
    rintro x hx
    cases hx
    rcases hc with rfl | rfl <;> decide
  have hend : dropBlank (c :: rest) = c :: rest :=
    dropBlank_cons (by rcases hc with rfl | rfl <;> decide) rest
  have hquote := dropBlank_cons (c := ascii '"') (by decide)
  have hcolon := dropBlank_cons (c := ascii ':') (by decide)
  have hscan := scanString_inside e.name (ascii ':' :: (utf8 e.text ++ c :: rest))
  simp only [body_singleton, List.length_cons, List.length_append] at hfuel
  obtain ⟨r, hread, hr⟩ := h fuel (c :: rest) (by omega) hdelimited
  rw [body_singleton, readMembers.eq_def]
  simp only [List.cons_append, List.append_assoc, hquote, hscan, hcolon, hread, hr, hend,
    Option.bind_eq_bind, Option.bind_some]
  rcases hc with rfl | rfl
  · cases readMembers fuel rest <;> simp [Entry.read]
  · have hbrace : ascii '\x7d' ≠ ascii ',' := by decide
    simp [hbrace, Entry.read]

theorem readMembers_bodies {es : List Entry} (hne : es ≠ []) (hes : ∀ e ∈ es, e.Good) (fuel : Nat)
    (hfuel : 2 * (body es).length + 1 ≤ fuel) (rest : Bytes) :
    readMembers fuel (body es ++ ascii '\x7d' :: rest) = some (es.map Entry.read, rest) := by
  induction es generalizing fuel with
  | nil => exact absurd rfl hne
  | cons e es ih =>
      obtain ⟨fuel, rfl⟩ : ∃ k, fuel = k + 1 := ⟨fuel - 1, by omega⟩
      have he := hes e List.mem_cons_self
      cases es with
      | nil =>
          rw [readMembers_body he (by omega) (.inr rfl)]
          rfl
      | cons e' es =>
          have hrest := ih (List.cons_ne_nil e' es)
            (fun x hx => hes x (List.mem_cons_of_mem e hx)) fuel
          rw [body_cons, List.length_append, List.length_cons] at hfuel
          rw [body_cons, List.append_assoc, List.cons_append,
            readMembers_body he (by omega) (.inl rfl), if_pos rfl, hrest (by omega)]
          rfl

end Entry

theorem utf8_object (es : List Entry) :
    utf8 (object (es.map Entry.member)) =
      ascii '\x7b' :: (Entry.body es ++ [ascii '\x7d']) := by
  have hopen : utf8 "\x7b" = [ascii '\x7b'] := by decide
  have hclose : utf8 "\x7d" = [ascii '\x7d'] := by decide
  rw [object, utf8_append, utf8_append, hopen, hclose, List.map_map]
  rfl

theorem readsAs_object {es : List Entry} (hne : es ≠ []) (hes : ∀ e ∈ es, e.Good) :
    ReadsAs (utf8 (object (es.map Entry.member))) (.object (es.map Entry.read)) := by
  intro fuel rest hfuel _
  obtain ⟨fuel, rfl⟩ : ∃ k, fuel = k + 1 := ⟨fuel - 1, by omega⟩
  have hopen := dropBlank_cons (c := ascii '\x7b') (by decide)
  have hquote := dropBlank_cons (c := ascii '"') (by decide)
  rw [utf8_object, List.length_cons, List.length_append] at hfuel
  have hmembers := Entry.readMembers_bodies hne hes fuel (by omega) rest
  obtain ⟨u, hbody⟩ : ∃ u, Entry.body es = ascii '"' :: u := by
    cases es with
    | nil => exact absurd rfl hne
    | cons e es =>
        cases es with
        | nil => exact ⟨_, Entry.body_singleton e⟩
        | cons e' es => exact ⟨_, by rw [Entry.body_cons, Entry.body_singleton]; rfl⟩
  refine ⟨rest, ?_, rfl⟩
  rw [utf8_object, readValue.eq_def]
  simp only [hbody, List.cons_append, List.append_assoc, List.nil_append] at hmembers ⊢
  simp only [hopen, hquote, hmembers]
  rfl

theorem readsAs_member {e : Entry} (h : e.Good) :
    ReadsAs (utf8 (object [e.member])) (.object [e.read]) := by
  have hread := readsAs_object (List.cons_ne_nil e []) fun x hx => List.mem_singleton.1 hx ▸ h
  rwa [List.map_singleton, List.map_singleton] at hread

theorem toMembers?_object (es : List Entry) :
    (Tree.object (es.map Entry.read)).toMembers? = some (es.map fun e => (e.name, e.tree)) := by
  rw [Tree.toMembers?]
  induction es with
  | nil => rfl
  | cons e es ih => simp [List.mapM_cons, Entry.read, unquote?_inside, ih]

def field? (ms : List (String × Tree)) (name : String) : Option (Option Tree) :=
  match ms.filter (·.1 = name) with
  | [] => some none
  | [(_, v)] => some (some v)
  | _ => none

theorem toFields?_object (names : List String) (es : List Entry) :
    (Tree.object (es.map Entry.read)).toFields? names =
      names.mapM (field? (es.map fun e => (e.name, e.tree))) := by
  rw [Tree.toFields?, toMembers?_object, Option.bind_eq_bind, Option.bind_some]
  · exact congrArg names.mapM (funext fun name => rfl)
  · rintro items h
    cases h

theorem toChoice?_object (e : Entry) :
    (Tree.object [e.read]).toChoice? = some (e.name, some e.tree) := by
  simp [Tree.toChoice?, Entry.read, unquote?_inside]

end CacheBench.Json
