import CacheBench.Proofs.AddressLiterals
import Mathlib.Data.List.TakeWhile

/-!
# Lists of servers

A server of a list is an address of either version, with or without a port. All of them are read as
what they are, but for an address of version 6 without a port, which has colons of its own: what
stands after the last of them is taken for a port.
-/

namespace CacheBench

/-! ## The last colon -/

theorem forall_reverse_ne {mark : Char} {cs : List Char} (h : mark ∉ cs) :
    ∀ c ∈ cs.reverse, decide (c ≠ mark) = true := by
  intro c hc
  refine decide_eq_true ?_
  rintro rfl
  exact h (List.mem_reverse.1 hc)

theorem splitLast_append {mark : Char} {after : List Char} (h : mark ∉ after)
    (before : List Char) : splitLast mark (before ++ mark :: after) = some (before, after) := by
  have hreverse : (before ++ mark :: after).reverse = after.reverse ++ mark :: before.reverse := by
    simp
  simp only [splitLast]
  rw [hreverse, List.takeWhile_append_of_pos (forall_reverse_ne h),
    List.dropWhile_append_of_pos (forall_reverse_ne h)]
  simp

theorem splitLast_eq_none {mark : Char} {cs : List Char} (h : mark ∉ cs) :
    splitLast mark cs = none := by
  simp only [splitLast]
  rw [List.dropWhile_eq_nil_iff.2 (forall_reverse_ne h)]

theorem exists_last_of_mem {mark : Char} {cs : List Char} (h : mark ∈ cs) :
    ∃ before after, cs = before ++ mark :: after ∧ mark ∉ after := by
  induction cs with
  | nil => cases h
  | cons c cs ih =>
      by_cases hmem : mark ∈ cs
      · obtain ⟨before, after, rfl, hafter⟩ := ih hmem
        exact ⟨c :: before, after, rfl, hafter⟩
      · obtain rfl := (List.mem_cons.1 h).resolve_right hmem
        exact ⟨[], cs, rfl, hmem⟩

/-! ## Ports -/

def IsPort (ds : List Char) (port : UInt16) : Prop :=
  ds ≠ [] ∧ (∀ c ∈ ds, c.isDigit) ∧ Nat.ofDigitChars 10 ds 0 = port.toNat

theorem IsPort.not_mem {ds : List Char} {port : UInt16} (h : IsPort ds port) {c : Char}
    (hc : ¬ c.isDigit) : c ∉ ds := fun hmem => hc (h.2.1 c hmem)

theorem port_eq_some_iff {ds : List Char} {port : UInt16} :
    (boundedDigits? (2 ^ 16) ds).map UInt16.ofNat = some port ↔ IsPort ds port := by
  simp only [Option.map_eq_some_iff, boundedDigits?_eq_some_iff, IsPort]
  constructor
  · rintro ⟨n, ⟨hne, hdigits, rfl, hlt⟩, rfl⟩
    exact ⟨hne, hdigits, (UInt16.toNat_ofNat_of_lt' hlt).symm⟩
  · rintro ⟨hne, hdigits, hn⟩
    exact ⟨_, ⟨hne, hdigits, hn, port.toNat_lt⟩, UInt16.ofNat_toNat⟩

theorem port?_eq_some_iff {ds : List Char} (hplus : '+' ∉ ds) {port : UInt16} :
    port? ds = some port ↔ IsPort ds port := by
  have hwhole : wholeNumber? (String.ofList ds) =
      if ds.isEmpty || !ds.all Char.isDigit then none else some (digitsValue ds) := by
    unfold wholeNumber?
    rw [String.toList_ofList]
    split
    · exact absurd List.mem_cons_self hplus
    · rfl
  rw [← port_eq_some_iff, port?, hwhole, boundedDigits?]
  split
  · rfl
  · simp only [Option.bind_some]
    split <;> rfl

/-! ## Looking up -/

theorem valueInBase?_colon {cs : List Char} (h : ':' ∈ cs) (base : Nat) :
    valueInBase? base cs = none := by
  have hfold (m : Nat) : cs.foldlM (fun n c => do
      let d ← hexValue? c
      if d < base then some (base * n + d) else none) m = none := by
    induction cs generalizing m with
    | nil => cases h
    | cons c cs ih =>
        rw [List.foldlM_cons]
        rcases List.mem_cons.1 h with rfl | h
        · rfl
        · simp only [Option.bind_eq_bind, Option.bind_eq_none_iff]
          exact fun n _ => ih h n
  exact hfold 0

theorem loosePart?_colon {cs : List Char} (h : ':' ∈ cs) : loosePart? cs = none := by
  unfold loosePart?
  split
  · rfl
  · rename_i x r
    have hrest : ':' ∈ x :: r := (List.mem_cons.1 h).resolve_left (by decide)
    split
    · rename_i hx
      have hr : ':' ∈ r := by
        refine (List.mem_cons.1 hrest).resolve_left ?_
        rintro rfl
        revert hx
        decide
      rw [valueInBase?_colon hr]
      exact ite_self none
    · exact valueInBase?_colon hrest 8
  · exact valueInBase?_colon h 10

theorem mapM_eq_none {α β : Type} {f : α → Option β} {as : List α} {a : α} (ha : a ∈ as)
    (h : f a = none) : as.mapM f = none := by
  induction as with
  | nil => cases ha
  | cons b as ih =>
      rw [List.mapM_cons]
      rcases List.mem_cons.1 ha with rfl | ha
      · rw [h]
        rfl
      · rw [ih ha]
        cases f b <;> rfl

theorem ofLoose?_colon {cs : List Char} (h : ':' ∈ cs) : Ipv4.ofLoose? cs = none := by
  have hparts : ['.'].intercalate (cs.splitOn '.') = cs := List.intercalate_splitOn '.'
  rw [← hparts] at h
  obtain ⟨p, hp, hmem⟩ := (mem_of_mem_intercalate h).resolve_left (by decide)
  have hnone := mapM_eq_none hp (loosePart?_colon hmem)
  rw [← Text.splitChars_eq_splitOn] at hnone
  unfold Ipv4.ofLoose?
  rw [hnone]
  rfl

theorem ofChars?_colon {cs : List Char} (h : ':' ∈ cs) : Ipv4.ofChars? cs = none := by
  refine Option.eq_none_iff_forall_ne_some.2 fun x hx => ?_
  rw [Ipv4.ofChars?_eq_some_iff.1 hx] at h
  exact (Ipv6.isPart_text x).2 h

/-- A name with a colon is known only if it spells an address of version 6. -/
theorem lookup_eq_ok_iff {cs : List Char} (hcolon : ':' ∈ cs) (hzone : '%' ∉ cs)
    {ip : Ip} {scope : UInt32} : Ip.lookup cs = .ok (ip, scope) ↔
      ∃ y, Ipv6.Spells cs y ∧ ip = .v6 y ∧ scope = 0 := by
  simp only [Ip.lookup, Ip.ofChars?, ofChars?_colon hcolon, ofLoose?_colon hcolon, Ipv6.zoned?,
    Ipv6.onLoopback?, splitLast_eq_none hzone, ← Ipv6.ofChars?_eq_some_iff]
  cases Ipv6.ofChars? cs with
  | none => simp
  | some y => simp [eq_comm]

/-! ## One server -/

/-- A server as it may stand in a list. -/
inductive ServerText
  | v4 (x : Ipv4)
  | v4Port (x : Ipv4) (digits : List Char) (port : UInt16) (hport : IsPort digits port)
  | v6 (cs : List Char) (x : Ipv6) (h : Ipv6.Spells cs x)
  | v6Port (cs : List Char) (x : Ipv6) (h : Ipv6.Spells cs x) (digits : List Char) (port : UInt16)
    (hport : IsPort digits port)

namespace ServerText

def text : ServerText → List Char
  | .v4 x => x.text.toList
  | .v4Port x digits _ _ => x.text.toList ++ ':' :: digits
  | .v6 cs _ _ => cs
  | .v6Port cs _ _ digits _ _ => '[' :: (cs ++ ']' :: ':' :: digits)

/-- What the server is meant to be. -/
def address (defaultPort : UInt16) : ServerText → SocketAddress
  | .v4 x => { ip := .v4 x, port := defaultPort }
  | .v4Port x _ port _ => { ip := .v4 x, port }
  | .v6 _ x _ => { ip := .v6 x, port := defaultPort }
  | .v6Port _ x _ _ port _ => { ip := .v6 x, port }

/-- What the server is read as. One of version 6 without a port loses what stands after its last
colon, and is an address only if the rest spells one and this is a port. -/
def IsReadAs (defaultPort : UInt16) : ServerText → SocketAddress → Prop
  | .v6 cs _ _, a => ∃ host digits y port, cs = host ++ ':' :: digits ∧ Ipv6.Spells host y ∧
    IsPort digits port ∧ a = { ip := .v6 y, port }
  | t, a => a = t.address defaultPort

theorem server_v4 (defaultPort : UInt16) (x : Ipv4) :
    server defaultPort x.text.toList = .ok { ip := .v4 x, port := defaultPort } := by
  have hlast := splitLast_eq_none (Ipv6.isPart_text x).2
  have hlookup : Ip.lookup x.text.toList = .ok (.v4 x, 0) := by
    rw [Ip.lookup, Ip.ofChars?, Ipv4.ofChars?_eq_some_iff.2 rfl]
  simp only [server, SocketAddress.ofChars?, hlast, hlookup]
  rfl

theorem server_v4Port (defaultPort : UInt16) (x : Ipv4) {digits : List Char} {port : UInt16}
    (hport : IsPort digits port) :
    server defaultPort (x.text.toList ++ ':' :: digits) = .ok { ip := .v4 x, port } := by
  have hbracket : ∀ r, x.text.toList ≠ '[' :: r := by
    intro r hr
    have hmem : '[' ∈ x.text.toList := hr ▸ List.mem_cons_self
    exact absurd (Ipv4.mem_literalChars hmem) (by decide)
  have hlast := splitLast_append (hport.not_mem (c := ':') (by decide)) x.text.toList
  have haddress : SocketAddress.ofChars? (x.text.toList ++ ':' :: digits) =
      some { ip := .v4 x, port } := by
    simp only [SocketAddress.ofChars?, hlast, Option.bind_eq_bind, Option.bind_some,
      port_eq_some_iff.2 hport]
    rw [Ipv4.ofChars?_eq_some_iff.2 rfl]
    rfl
  rw [server, haddress]

theorem server_v6Port (defaultPort : UInt16) {cs : List Char} {x : Ipv6} (h : Ipv6.Spells cs x)
    {digits : List Char} {port : UInt16} (hport : IsPort digits port) :
    server defaultPort ('[' :: (cs ++ ']' :: ':' :: digits)) = .ok { ip := .v6 x, port } := by
  have hzone : '%' ∉ cs := fun hmem => absurd (h.mem_literalChars hmem) (by decide)
  have hlast := splitLast_append (hport.not_mem (c := ':') (by decide)) ('[' :: (cs ++ [']']))
  rw [List.cons_append, List.append_assoc, List.singleton_append] at hlast
  have haddress : SocketAddress.ofChars? ('[' :: (cs ++ ']' :: ':' :: digits)) =
      some { ip := .v6 x, port } := by
    simp only [SocketAddress.ofChars?, hlast, Option.bind_eq_bind, Option.bind_some,
      port_eq_some_iff.2 hport]
    rw [List.getLast?_concat, if_pos rfl, List.dropLast_concat, Ipv6.zoned?,
      splitLast_eq_none hzone, Ipv6.ofChars?_eq_some_iff.2 h]
    rfl
  rw [server, haddress]

theorem ofChars?_eq_none {host digits : List Char} (hcolon : ':' ∈ host) (hbracket : '[' ∉ host)
    (hdigits : ':' ∉ digits) : SocketAddress.ofChars? (host ++ ':' :: digits) = none := by
  rw [SocketAddress.ofChars?, splitLast_append hdigits, Option.bind_eq_bind, Option.bind_some,
    Option.bind_eq_bind, Option.bind_eq_none_iff]
  intro port _
  split
  · exact absurd List.mem_cons_self hbracket
  · rw [ofChars?_colon hcolon]
    rfl

theorem exists_last_colon {cs : List Char} {x : Ipv6} (h : Ipv6.Spells cs x) :
    ∃ host digits, cs = host ++ ':' :: digits ∧ ':' ∉ digits ∧ ':' ∈ host ∧
      ∀ c ∉ literalChars, c ∉ host ∧ c ∉ digits := by
  have hcount := h.two_le_count
  have hmem : ':' ∈ cs := List.count_pos_iff.1 (by omega)
  obtain ⟨host, digits, rfl, hdigits⟩ := exists_last_of_mem hmem
  refine ⟨host, digits, rfl, hdigits, ?_, fun c hc => ?_⟩
  · rw [List.count_append, List.count_cons_self, List.count_eq_zero.2 hdigits] at hcount
    exact List.count_pos_iff.1 (by omega)
  · rw [← not_or, ← List.mem_append]
    intro hmem
    refine hc (h.mem_literalChars ?_)
    rw [List.mem_append] at hmem ⊢
    exact hmem.imp_right (List.mem_cons_of_mem _)

/-- An address of version 6 without a port is split at its last colon. -/
theorem server_v6 (defaultPort : UInt16) {cs : List Char} {x : Ipv6} (h : Ipv6.Spells cs x)
    {a : SocketAddress} : server defaultPort cs = .ok a ↔
      ∃ host digits y port, cs = host ++ ':' :: digits ∧ Ipv6.Spells host y ∧
        IsPort digits port ∧ a = { ip := .v6 y, port } := by
  obtain ⟨host, digits, rfl, hdigits, hcolon, hliteral⟩ := exists_last_colon h
  have hlast := splitLast_append hdigits host
  have hlookup (ip : Ip) (scope : UInt32) : Ip.lookup host = .ok (ip, scope) ↔
      ∃ y, Ipv6.Spells host y ∧ ip = .v6 y ∧ scope = 0 :=
    lookup_eq_ok_iff hcolon (hliteral '%' (by decide)).1
  have hport (port : UInt16) : port? digits = some port ↔ IsPort digits port :=
    port?_eq_some_iff (hliteral '+' (by decide)).2
  have haddress := ofChars?_eq_none hcolon (hliteral '[' (by decide)).1 hdigits
  simp only [server, haddress, hlast]
  constructor
  · intro h
    split at h
    · rename_i port hdigits'
      cases hfound : Ip.lookup host with
      | error fault =>
          rw [hfound] at h
          cases h
      | ok found =>
          obtain ⟨ip, scope⟩ := found
          obtain ⟨y, hy, rfl, rfl⟩ := (hlookup ip scope).1 hfound
          rw [hfound] at h
          exact ⟨host, digits, y, port, rfl, hy, (hport port).1 hdigits', (Except.ok.inj h).symm⟩
    · cases h
  · rintro ⟨host', digits', y, port, heq, hy, hdigits', rfl⟩
    have hsame := splitLast_append (hdigits'.not_mem (c := ':') (by decide)) host'
    rw [← heq, hlast] at hsame
    obtain ⟨rfl, rfl⟩ := Prod.mk.inj (Option.some.inj hsame)
    rw [(hport port).2 hdigits', (hlookup (.v6 y) 0).2 ⟨y, hy, rfl, rfl⟩]
    rfl

theorem server_eq_ok_iff (defaultPort : UInt16) (t : ServerText) {a : SocketAddress} :
    server defaultPort t.text = .ok a ↔ t.IsReadAs defaultPort a := by
  have hok {b : SocketAddress} : (.ok b : Except LookupFault SocketAddress) = .ok a ↔ a = b :=
    ⟨fun h => (Except.ok.inj h).symm, fun h => congrArg _ h.symm⟩
  cases t with
  | v4 x =>
      rw [text, server_v4]
      exact hok
  | v4Port x digits port hport =>
      rw [text, server_v4Port defaultPort x hport]
      exact hok
  | v6 cs x h => exact server_v6 defaultPort h
  | v6Port cs x h digits port hport =>
      rw [text, server_v6Port defaultPort h hport]
      exact hok

/-! ## Lists -/

theorem mem_text {t : ServerText} {c : Char} (hc : c ∈ t.text) :
    c ∈ '[' :: ']' :: literalChars := by
  have hliteral (h : c ∈ literalChars) : c ∈ '[' :: ']' :: literalChars :=
    List.mem_cons_of_mem _ (List.mem_cons_of_mem _ h)
  have hdigit {ds : List Char} {port : UInt16} (hport : IsPort ds port) (h : c ∈ ds) :
      c ∈ '[' :: ']' :: literalChars :=
    hliteral (mem_literalChars_of_isDigit (hport.2.1 c h))
  cases t with
  | v4 x => exact hliteral (Ipv4.mem_literalChars hc)
  | v4Port x digits port hport =>
      rw [text, List.mem_append, List.mem_cons] at hc
      rcases hc with hc | rfl | hc
      · exact hliteral (Ipv4.mem_literalChars hc)
      · decide
      · exact hdigit hport hc
  | v6 cs x h => exact hliteral (h.mem_literalChars hc)
  | v6Port cs x h digits port hport =>
      rw [text, List.mem_cons, List.mem_append, List.mem_cons, List.mem_cons] at hc
      rcases hc with rfl | hc | rfl | rfl | hc
      · decide
      · exact hliteral (h.mem_literalChars hc)
      · decide
      · decide
      · exact hdigit hport hc

theorem text_ne_nil (t : ServerText) : t.text ≠ [] := by
  cases t with
  | v4 x => exact (Ipv6.isPart_text x).1
  | v4Port => exact List.append_ne_nil_of_right_ne_nil _ (List.cons_ne_nil _ _)
  | v6 cs x h =>
      rintro rfl
      exact absurd h.two_le_count (by decide)
  | v6Port => exact List.cons_ne_nil _ _

end ServerText

/-- What stands between two commas: blanks with a server between them, or only blanks. -/
structure ServerPiece where
  before : List Char
  server? : Option ServerText
  after : List Char
  blank_before : ∀ c ∈ before, Text.isBlank c
  blank_after : ∀ c ∈ after, Text.isBlank c

namespace ServerPiece

def word (p : ServerPiece) : List Char := (p.server?.map ServerText.text).getD []

def text (p : ServerPiece) : List Char := p.before ++ p.word ++ p.after

def listText (ps : List ServerPiece) : String := String.ofList ([','].intercalate (ps.map text))

def servers (ps : List ServerPiece) : List ServerText := ps.filterMap server?

theorem not_isBlank_of_mem_word {p : ServerPiece} {c : Char} (hc : c ∈ p.word) :
    ¬ Text.isBlank c ∧ c ≠ ',' := by
  have hword : c ∈ '[' :: ']' :: literalChars := by
    unfold word at hc
    cases hserver : p.server? with
    | none =>
        rw [hserver] at hc
        cases hc
    | some t =>
        rw [hserver] at hc
        exact ServerText.mem_text hc
  have hall : ('[' :: ']' :: literalChars).all fun c => !Text.isBlank c && c != ',' := by decide
  have hc' := List.all_eq_true.1 hall c hword
  rwa [Bool.and_eq_true, Bool.not_eq_true', bne_iff_ne, ← Bool.not_eq_true] at hc'

end ServerPiece

theorem trimChars_append {before word after : List Char} (hbefore : ∀ c ∈ before, Text.isBlank c)
    (hword : ∀ c ∈ word, ¬ Text.isBlank c) (hafter : ∀ c ∈ after, Text.isBlank c) :
    Text.trimChars (before ++ word ++ after) = word := by
  have hafter' : ∀ c ∈ after.reverse, Text.isBlank c := fun c hc =>
    hafter c (List.mem_reverse.1 hc)
  have hword' : ∀ c ∈ word.reverse, ¬ Text.isBlank c := fun c hc =>
    hword c (List.mem_reverse.1 hc)
  rw [Text.trimChars, List.append_assoc, List.dropWhile_append_of_pos hbefore]
  cases word with
  | nil =>
      rw [List.nil_append, List.dropWhile_eq_nil_iff.2 hafter]
      rfl
  | cons c word =>
      rw [List.cons_append, List.dropWhile_cons_of_neg (hword c List.mem_cons_self),
        ← List.cons_append, List.reverse_append, List.dropWhile_append_of_pos hafter',
        List.dropWhile_eq_self_iff.2 fun h => hword' _ (List.getElem_mem h), List.reverse_reverse]

namespace ServerPiece

theorem filter_word (ps : List ServerPiece) :
    (ps.map word).filter (fun w => !w.isEmpty) = (servers ps).map ServerText.text := by
  induction ps with
  | nil => rfl
  | cons p ps ih =>
      rw [List.map_cons, servers]
      cases hserver : p.server? with
      | none =>
          have hword : p.word = [] := by rw [word, hserver]; rfl
          rw [List.filterMap_cons_none hserver, List.filter_cons_of_neg (by simp [hword]), ih,
            servers]
      | some t =>
          have hword : p.word = t.text := by rw [word, hserver]; rfl
          rw [List.filterMap_cons_some hserver,
            List.filter_cons_of_pos (by simp [hword, t.text_ne_nil]), ih, servers, hword,
            List.map_cons]

/-- The words of a list are its servers. -/
theorem commaList_listText (ps : List ServerPiece) :
    Text.commaList (listText ps) = (servers ps).map fun t => String.ofList t.text := by
  have hcomma : ∀ l ∈ ps.map text, ',' ∉ l := by
    intro l hl hmem
    obtain ⟨p, -, rfl⟩ := List.mem_map.1 hl
    rw [text, List.mem_append, List.mem_append] at hmem
    rcases hmem with (hmem | hmem) | hmem
    · exact absurd (p.blank_before _ hmem) (by decide)
    · exact (not_isBlank_of_mem_word hmem).2 rfl
    · exact absurd (p.blank_after _ hmem) (by decide)
  have htrim (p : ServerPiece) : Text.trimChars p.text = p.word :=
    trimChars_append p.blank_before (fun c hc => (not_isBlank_of_mem_word hc).1) p.blank_after
  rw [Text.commaList, listText, String.toList_ofList, Text.splitChars_eq_splitOn]
  cases ps with
  | nil => rfl
  | cons p ps =>
      have hwords : Text.trimChars ∘ text = word := funext htrim
      rw [List.splitOn_intercalate ',' hcomma (List.cons_ne_nil _ _), List.map_map, hwords,
        filter_word, List.map_map]
      rfl

end ServerPiece

theorem mapM_eq_ok_iff {ε α β : Type} {f : α → Except ε β} {as : List α} {bs : List β} :
    as.mapM f = .ok bs ↔ List.Forall₂ (fun a b => f a = .ok b) as bs := by
  induction as generalizing bs with
  | nil => cases bs <;> simp [pure, Except.pure]
  | cons a as ih =>
      rw [List.mapM_cons]
      cases bs with
      | nil => cases f a <;> cases as.mapM f <;> simp [bind, Except.bind, pure, Except.pure]
      | cons b bs =>
          rw [List.forall₂_cons, ← ih]
          cases f a <;> cases as.mapM f <;> simp [bind, Except.bind, pure, Except.pure]

theorem parseServers_eq_ok_iff (defaultPort : UInt16) (ps : List ServerPiece)
    {as : List SocketAddress} : parseServers defaultPort (ServerPiece.listText ps) = .ok as ↔
      List.Forall₂ (fun t a => t.IsReadAs defaultPort a) (ServerPiece.servers ps) as := by
  have hword (t : ServerText) (a : SocketAddress) :
      (server defaultPort (String.ofList t.text).toList).mapError
        (AddressError.mk (String.ofList t.text)) = .ok a ↔ t.IsReadAs defaultPort a := by
    rw [← t.server_eq_ok_iff, String.toList_ofList]
    cases server defaultPort t.text <;> simp [Except.mapError]
  rw [parseServers, ServerPiece.commaList_listText, mapM_eq_ok_iff, List.forall₂_map_left_iff]
  simp only [hword]

/-! ## Addresses that lose their last group -/

namespace Ipv6

theorem AreGroups.unique {ps : List (List Char)} {gs gs' : List UInt16} (h : AreGroups ps gs)
    (h' : AreGroups ps gs') : gs = gs' :=
  Option.some.inj ((groups?_eq_some_iff.2 h).symm.trans (groups?_eq_some_iff.2 h'))

theorem AreGroups.of_concat {ps : List (List Char)} {p : List Char} {gs : List UInt16}
    (h : AreGroups (ps ++ [p]) gs) (hdot : '.' ∉ p) :
    ∃ head g, gs = head ++ [g] ∧ AreGroups ps head ∧ IsGroup p g := by
  induction ps generalizing gs with
  | nil =>
      cases h with
      | cons hg hs =>
          cases hs
          exact ⟨[], _, rfl, .nil, hg⟩
      | dotted x hp => exact absurd x.dot_mem_text (hp ▸ hdot)
  | cons q ps ih =>
      rw [List.cons_append] at h
      generalize hrest : ps ++ [p] = rest at h
      cases h with
      | cons hg hs =>
          subst rest
          obtain ⟨head, g, rfl, hhead, hp⟩ := ih hs
          exact ⟨_ :: head, g, rfl, .cons hg hhead, hp⟩
      | dotted => simp at hrest

theorem IsGroup.eq_zero {p : List Char} (h : IsGroup p 0) : ∀ c ∈ p, c = '0' := by
  obtain ⟨-, -, ds, hds, hzero⟩ := h
  have hall : ∀ m, ds.foldl (fun n d => 16 * n + d) m = 0 → m = 0 ∧ ∀ c ∈ p, c = '0' := by
    clear hzero
    induction hds with
    | nil => exact fun m hm => ⟨hm, List.forall_mem_nil _⟩
    | @cons c d cs ds hd _ ih =>
        intro m hm
        obtain ⟨hsum, hrest⟩ := ih (16 * m + d) hm
        obtain ⟨rfl, rfl⟩ : m = 0 ∧ d = 0 := by omega
        exact ⟨rfl, List.forall_mem_cons.2 ⟨hd.2.elim id id, hrest⟩⟩
  exact (hall 0 hzero).2

theorem IsGroup.port_eq_zero {p : List Char} (h : IsGroup p 0) {port : UInt16}
    (hport : IsPort p port) : port = 0 := by
  have hzeros := List.eq_replicate_of_mem h.eq_zero
  obtain ⟨-, -, hvalue⟩ := hport
  rw [hzeros, Nat.ofDigitChars_replicate_zero, Nat.mul_zero] at hvalue
  exact UInt16.toNat_inj.1 hvalue.symm

/-- A list that starts with a zero and goes on as it ends has only zeros. -/
theorem eq_zero_of_cons_eq_concat {gs : List UInt16} {g : UInt16} (h : 0 :: gs = gs ++ [g]) :
    g = 0 := by
  induction gs with
  | nil => simpa using h.symm
  | cons g' gs ih =>
      rw [List.cons_append, List.cons.injEq] at h
      obtain ⟨rfl, h⟩ := h
      exact ih h

/-- A literal that spells the same address without its last group ends in zeros. -/
theorem Spells.port_eq_zero {host digits : List Char} {x : Ipv6} {port : UInt16}
    (hhost : Spells host x) (h : Spells (host ++ ':' :: digits) x) (hport : IsPort digits port) :
    port = 0 := by
  rw [← ofChars?_eq_some_iff] at h
  have hdot : '.' ∉ digits := hport.not_mem (by decide)
  have hdigits : IsPart digits := ⟨hport.1, hport.not_mem (by decide)⟩
  have hconcat {ps : List (List Char)} (hps : ∀ p ∈ ps, IsPart p) :
      ∀ p ∈ ps ++ [digits], IsPart p :=
    List.forall_mem_append.2 ⟨hps, List.forall_mem_singleton.2 hdigits⟩
  cases hhost with
  | full hps =>
      rename_i ps
      rw [← intercalate_concat ':' hps.ne_nil,
        ofChars?_intercalate (hconcat hps.isPart) (by simp)] at h
      obtain ⟨head, g, hgroups, hhead, -⟩ := h.of_concat hdot
      have hlength := congrArg List.length hgroups
      rw [hps.unique hhead, List.length_append] at hlength
      simp at hlength
  | gap hbefore hafter hlength hx =>
      rename_i before after head tail
      have hbefore' := areGroups_of_forall₂ hbefore
      rw [List.append_assoc, List.cons_append, List.cons_append,
        ofChars?_gap hbefore'.isPart] at h
      obtain ⟨head', tail', hhead', htail', hlength', hx'⟩ := h
      obtain rfl := hbefore'.unique (areGroups_of_forall₂ hhead')
      cases after with
      | nil =>
          -- a third colon would follow the gap
          have hpart := htail'.isPart [] (by simp [side, Text.splitChars])
          exact absurd rfl hpart.1
      | cons p ps =>
          rw [← intercalate_concat ':' (List.cons_ne_nil p ps),
            side_intercalate (hconcat hafter.isPart)] at htail'
          obtain ⟨tail'', g, rfl, htail'', hg⟩ := htail'.of_concat hdot
          obtain rfl := hafter.unique htail''
          rw [List.length_append, List.length_singleton] at hlength' hx'
          obtain ⟨k, hk⟩ : ∃ k, 8 - head.length - (tail.length + 1) = k := ⟨_, rfl⟩
          have hk' : 8 - head.length - tail.length = k + 1 := by omega
          rw [hx, hk, hk', List.replicate_succ', List.append_assoc, List.append_assoc,
            List.append_assoc, List.append_cancel_left_eq, List.append_cancel_left_eq] at hx'
          rw [eq_zero_of_cons_eq_concat hx'] at hg
          exact hg.port_eq_zero hport

end Ipv6

/-- Whether the server is read as what it is meant to be. One of version 6 without a port is only
if what is taken for its port is the default one, and without it the address is the same. -/
def ServerText.IsRead (defaultPort : UInt16) : ServerText → Prop
  | .v6 cs x _ => defaultPort = 0 ∧ ∃ host digits, cs = host ++ ':' :: digits ∧
    Ipv6.Spells host x ∧ IsPort digits 0
  | _ => True

theorem ServerText.isReadAs_address_iff {defaultPort : UInt16} {t : ServerText} :
    t.IsReadAs defaultPort (t.address defaultPort) ↔ t.IsRead defaultPort := by
  cases t with
  | v4 | v4Port | v6Port => exact iff_of_true rfl trivial
  | v6 cs x h =>
      constructor
      · rintro ⟨host, digits, y, port, rfl, hhost, hport, ⟨⟩⟩
        obtain rfl := hhost.port_eq_zero h hport
        exact ⟨rfl, host, digits, rfl, hhost, hport⟩
      · rintro ⟨rfl, host, digits, rfl, hhost, hport⟩
        exact ⟨host, digits, x, 0, rfl, hhost, hport, rfl⟩

/-- A list of servers is read as what it is meant to be if and only if each of its servers is. At a
default port other than zero this is to say that none is an address of version 6 without a port. -/
theorem parseServers_listText (defaultPort : UInt16) (ps : List ServerPiece) :
    (parseServers defaultPort (ServerPiece.listText ps) =
        .ok ((ServerPiece.servers ps).map (·.address defaultPort)) ↔
      ∀ t ∈ ServerPiece.servers ps, t.IsRead defaultPort) ∧
    ∀ as, parseServers defaultPort (ServerPiece.listText ps) = .ok as ↔
      List.Forall₂ (fun t a => t.IsReadAs defaultPort a) (ServerPiece.servers ps) as := by
  refine ⟨?_, fun as => parseServers_eq_ok_iff defaultPort ps⟩
  rw [parseServers_eq_ok_iff, List.forall₂_map_right_iff, List.forall₂_same]
  exact forall₂_congr fun t _ => ServerText.isReadAs_address_iff

def barePiece (cs : List Char) (x : Ipv6) (h : Ipv6.Spells cs x) : ServerPiece where
  before := []
  server? := some (.v6 cs x h)
  after := []
  blank_before := List.forall_mem_nil _
  blank_after := List.forall_mem_nil _

/-- The server `::1` is not known, and `1::2:3` is the port 3 of another one. -/
theorem parseServers_barePiece :
    let loopback := barePiece "::1".toList ⟨[0, 0, 0, 0, 0, 0, 0, 1], rfl⟩
      (Ipv6.ofChars?_eq_some_iff.1 rfl)
    let other := barePiece "1::2:3".toList ⟨[1, 0, 0, 0, 0, 0, 2, 3], rfl⟩
      (Ipv6.ofChars?_eq_some_iff.1 rfl)
    ServerPiece.listText [loopback] = "::1" ∧
      (ServerPiece.servers [loopback]).map (·.address 11222) =
        [{ ip := .v6 ⟨[0, 0, 0, 0, 0, 0, 0, 1], rfl⟩, port := 11222 }] ∧
      parseServers 11222 (ServerPiece.listText [loopback]) = .error ⟨"::1", .unknownName⟩ ∧
      ServerPiece.listText [other] = "1::2:3" ∧
      (ServerPiece.servers [other]).map (·.address 11222) =
        [{ ip := .v6 ⟨[1, 0, 0, 0, 0, 0, 2, 3], rfl⟩, port := 11222 }] ∧
      parseServers 11222 (ServerPiece.listText [other]) =
        .ok [{ ip := .v6 ⟨[1, 0, 0, 0, 0, 0, 0, 2], rfl⟩, port := 3 }] :=
  ⟨rfl, rfl, rfl, rfl, rfl, rfl⟩

end CacheBench
