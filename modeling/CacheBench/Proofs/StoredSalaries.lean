import CacheBench.Proofs.RemoteCalls
import CacheBench.Proofs.ScaledDigits

/-!
# Salaries stored through a client

A value is written and read twice on its way into a cache and back: the cache gets what the text
of the client is read as, and the client gets what the text of the endpoint is read as. Only a
salary can change on the way. It is read as a finite number both times, and as itself if its digits
are exact, which takes few digits and a small exponent. Another salary can come back as a neighbour.
-/

namespace CacheBench

open Std (TreeMap)

/-! ## Values that change on the way -/

namespace Value

/-- What is written for the value fits a frame and is read as the other one. -/
structure ArrivesAs (v w : Value) : Prop where
  read : ofJson? (utf8 v.toJson) = some w
  fits : (utf8 v.toJson).length < 2 ^ 63

def received (v : Value) : Value := (ofJson? (utf8 v.toJson)).getD v

theorem ArrivesAs.received_eq {v w : Value} (h : v.ArrivesAs w) : v.received = w := by
  rw [received, h.read, Option.getD_some]

/-- Only numbers that are not finite keep a value from being read. -/
theorem arrivesAs_received {v : Value} (h : ∀ x ∈ v.salary?, x.isFinite)
    (hfits : (utf8 v.toJson).length < 2 ^ 63) : v.ArrivesAs v.received := by
  have hread : ∃ w, ofJson? (utf8 v.toJson) = some w := by
    cases v with
    | int n => exact ⟨_, ofJson?_toJson_int n⟩
    | sample id => exact ⟨_, ofJson?_toJson_sample id⟩
    | record r =>
        obtain ⟨y, hy, -⟩ := Binary64.exists_reread (h r.salary rfl)
        exact ⟨_, ofJson?_toJson_of_reread? hy⟩
  obtain ⟨w, hw⟩ := hread
  refine ⟨?_, hfits⟩
  rw [received, hw, Option.getD_some]

end Value

def Endpoint.Holds (e : Endpoint) (name : String) (k : Key) (v : Value) : Prop :=
  ∃ cache, e.caches[name]? = some cache ∧ cache.store.get k = some v

theorem Cache.Wrote.get {c c' : Cache} {pairs : List (Key × Value)} (h : c.Wrote pairs c') {k : Key}
    {v : Value} (hv : Batch.last? pairs k = some v) : c'.store.get k = some v := by
  have hlatest := h.latest k
  rw [hv] at hlatest
  rw [Store.get, Entries.value?, hlatest]
  rfl

/-- The pairs of a batch with other values. -/
theorem Batch.last?_map_toList (b : Batch) (f : Value → Value) (k : Key) :
    last? (b.toList.map fun p => (p.1, f p.2)) k = b[k]?.map f := by
  have hdistinct : (b.toList.map fun p => (p.1, f p.2)).Pairwise fun p q => p.1 ≠ q.1 :=
    List.pairwise_map.2 (Entries.toList_keys_ne b)
  refine Option.ext fun v => ?_
  rw [last?_eq_some_iff hdistinct, List.mem_map, Option.map_eq_some_iff]
  constructor
  · rintro ⟨⟨k', w⟩, hmem, heq⟩
    obtain ⟨rfl, rfl⟩ := Prod.mk.inj heq
    exact ⟨w, TreeMap.mem_toList_iff_getElem?_eq_some.1 hmem, rfl⟩
  · rintro ⟨w, hw, rfl⟩
    exact ⟨(k, w), TreeMap.mem_toList_iff_getElem?_eq_some.2 hw, rfl⟩

namespace Client

variable {name : String} {c : Client} {l : Loopback} {conn : ConnectionId} {cache : Cache}
  {v w : Value}

theorem Connected.put (h : Connected name c l conn)
    (hcache : l.endpoint.caches[name]? = some cache) (k : Key) (hv : v.ArrivesAs w) :
    ∃ l', c.perform Loopback.network l (.put k v) = (.ok (), c, l') ∧
      Connected name c l' conn ∧ l'.endpoint.Holds name k w := by
  have hf : Command.ofFrame (Command.set k v).toFrame = .ok (some (.set k w)) :=
    Command.ofFrame_toFrame_of_spells rfl (by decide)
      (.set (Frame.key_ofText k) (Frame.value_ofText hv.read))
  obtain ⟨l', hcall, hconnected, hcaches⟩ :=
    h.call hcache hf rfl rfl (Command.unbroken_toFrame _) (Command.fits_set hv.fits)
      Bool.false_ne_true Frame.unbroken_done Frame.fits_done
  have hwrote := cache.wrote_apply [(k, w)]
  refine ⟨l', ?_, hconnected, _, (hcaches name).trans (if_pos rfl),
    hwrote.get (by simp [Batch.last?])⟩
  rw [perform_eq_call rfl (by rintro b ⟨⟩), hcall]
  rfl

theorem Connected.putAll (h : Connected name c l conn)
    (hcache : l.endpoint.caches[name]? = some cache) {b : Batch}
    (hb : ∀ (k : Key) (v : Value), b[k]? = some v → v.ArrivesAs v.received)
    (hne : b.toList ≠ []) (hsize : b.size < 2 ^ 62) :
    ∃ l', c.perform Loopback.network l (.putAll b) = (.ok (), c, l') ∧ Connected name c l' conn ∧
      ∀ (k : Key) (v : Value), b[k]? = some v → l'.endpoint.Holds name k v.received := by
  have hempty : ¬ b.isEmpty := by
    rwa [← TreeMap.isEmpty_toList, List.isEmpty_iff]
  have hne' : b.toList.map (fun p => (p.1, p.2.received)) ≠ [] := mt List.map_eq_nil_iff.1 hne
  have hpairs := Command.pairs_of_batch Value.received fun p hp =>
    (hb p.1 p.2 (TreeMap.mem_toList_iff_getElem?_eq_some.1 hp)).read
  have hf : Command.ofFrame (Command.mset b).toFrame = .ok (some (.mset (Batch.ofList _))) :=
    Command.ofFrame_toFrame_of_spells rfl (by decide) (.mset hpairs hne')
  have hfits := Command.fits_mset (fun k v hv => (hb k v hv).fits) hsize
  obtain ⟨l', hcall, hconnected, hcaches⟩ :=
    h.call hcache hf rfl rfl (Command.unbroken_toFrame _) hfits
      Bool.false_ne_true Frame.unbroken_done Frame.fits_done
  refine ⟨l', ?_, hconnected, fun k v hv => ⟨_, (hcaches name).trans (if_pos rfl), ?_⟩⟩
  · rw [perform_eq_call rfl (by rintro b ⟨⟩; exact hempty), hcall]
    rfl
  · refine (cache.wrote_putAll hne').get ?_
    rw [Batch.last?_map_toList, hv, Option.map_some]

theorem Connected.get (h : Connected name c l conn) {k : Key} (hholds : l.endpoint.Holds name k v)
    (hv : v.ArrivesAs w) :
    ∃ l', c.perform Loopback.network l (.get k) = (.ok (some w), c, l') := by
  obtain ⟨cache, hcache, hstored⟩ := hholds
  have hf : Command.ofFrame (Command.get k).toFrame = .ok (some (.get k)) :=
    Command.ofFrame_toFrame_of_spells rfl (by decide) (.get (Frame.key_ofText k))
  have happly : (Command.get k).apply cache = (.ok (.ofText v.toJson), cache) := by
    simp only [Command.apply, Cache.step, hstored]
    rfl
  obtain ⟨l', hcall, -, -⟩ :=
    h.call hcache hf rfl happly (Command.unbroken_toFrame _) (Command.Travels.get.fits)
      Bool.false_ne_true (Frame.unbroken_ofText _) (Frame.fits_ofText hv.fits)
  refine ⟨l', ?_⟩
  rw [perform_eq_call rfl (by rintro b ⟨⟩), hcall]
  simp only [Except.bind, read, Frame.ofText, hv.read]

/-- A client of an endpoint that serves one cache. -/
theorem exists_connect_served (settings : Settings) (server : SocketAddress)
    (hfits : (utf8 settings.name).length < 2 ^ 63) :
    ∃ c l conn, connect Loopback.network settings.name [server]
        { endpoint := .ofSettings [settings] } = (.ok c, l) ∧
      Connected settings.name c l conn ∧
      l.endpoint.caches[settings.name]? = some (.ofSettings settings) := by
  have hserved : (Endpoint.ofSettings [settings]).caches[settings.name]? =
      some (.ofSettings settings) := TreeMap.getElem?_insert_self
  have hname : settings.name ∈ (Endpoint.ofSettings [settings]).caches :=
    TreeMap.mem_iff_isSome_getElem?.2 (by rw [hserved]; rfl)
  obtain ⟨c, l, conn, hconnect, hconnected, hcaches⟩ :=
    exists_connect (l := { endpoint := .ofSettings [settings] }) (List.cons_ne_nil server []) rfl
      hname hfits
  exact ⟨c, l, conn, hconnect, hconnected, by rw [hcaches, hserved]⟩

variable {r : Record}

/-- A record with a finite salary comes back with its salary read from a text twice, and with the
same salary if the digits of its text are exact. Whoever stores it, alone or in a batch, and whoever
gets it. -/
theorem salary_returned (h : Connected name c l conn)
    (hcache : l.endpoint.caches[name]? = some cache) (k : Key) (hfinite : r.salary.isFinite)
    (hfits : ∀ x, x = r.salary ∨ r.salary.reread? = some x →
      (utf8 (Value.record { r with salary := x }).toJson).length < 2 ^ 63) :
    ∃ stored returned : Binary64, r.salary.reread? = some stored ∧
      stored.reread? = some returned ∧ stored.isFinite ∧ returned.isFinite ∧
      (r.salary.ExactDigits → returned = r.salary) ∧
      (∃ l', c.perform Loopback.network l (.put k (.record r)) = (.ok (), c, l') ∧
        Connected name c l' conn ∧
        l'.endpoint.Holds name k (.record { r with salary := stored })) ∧
      (∀ b : Batch, b[k]? = some (.record r) → b.size < 2 ^ 62 →
        (∀ (k' : Key) (v : Value), b[k']? = some v →
          (∀ x ∈ v.salary?, x.isFinite) ∧ (utf8 v.toJson).length < 2 ^ 63) →
        ∃ l', c.perform Loopback.network l (.putAll b) = (.ok (), c, l') ∧
          Connected name c l' conn ∧
          l'.endpoint.Holds name k (.record { r with salary := stored })) ∧
      ∀ (c' : Client) (l' : Loopback) (conn' : ConnectionId), Connected name c' l' conn' →
        l'.endpoint.Holds name k (.record { r with salary := stored }) →
        ∃ l'', c'.perform Loopback.network l' (.get k) =
          (.ok (some (.record { r with salary := returned })), c', l'') := by
  obtain ⟨stored, hstored, hstoredFinite⟩ := Binary64.exists_reread hfinite
  obtain ⟨returned, hreturned, hreturnedFinite⟩ := Binary64.exists_reread hstoredFinite
  have hput : (Value.record r).ArrivesAs (.record { r with salary := stored }) :=
    ⟨Value.ofJson?_toJson_of_reread? hstored, hfits r.salary (.inl rfl)⟩
  have hget : (Value.record { r with salary := stored }).ArrivesAs
      (.record { r with salary := returned }) :=
    ⟨Value.ofJson?_toJson_of_reread? hreturned, hfits stored (.inr hstored)⟩
  refine ⟨stored, returned, hstored, hreturned, hstoredFinite, hreturnedFinite, ?_, ?_, ?_, ?_⟩
  · intro hexact
    have hback := hexact.readsBack hfinite
    obtain rfl : stored = r.salary := Option.some.inj (hstored.symm.trans hback)
    exact Option.some.inj (hreturned.symm.trans hback)
  · exact h.put hcache k hput
  · intro b hk hsize hb
    have hne : b.toList ≠ [] :=
      List.ne_nil_of_mem (TreeMap.mem_toList_iff_getElem?_eq_some.2 hk)
    obtain ⟨l', hperform, hconnected, hholds⟩ := h.putAll hcache (fun k' v hv =>
      Value.arrivesAs_received (hb k' v hv).1 (hb k' v hv).2) hne hsize
    exact ⟨l', hperform, hconnected, hput.received_eq ▸ hholds k _ hk⟩
  · intro c' l' conn' hconnected hholds
    exact hconnected.get hholds hget

end Client

/-- The salary 7000.0 has exact digits. -/
theorem salary_returned_exact :
    ∃ c l₁ l₂ l₃,
      Client.connect Loopback.network "cache" [⟨.v4 ⟨127, 0, 0, 1⟩, 11222, 0⟩]
        { endpoint := .ofSettings [{ name := "cache" }] } = (.ok c, l₁) ∧
      c.perform Loopback.network l₁ (.put 1 (.record (.forIndex 7))) = (.ok (), c, l₂) ∧
      c.perform Loopback.network l₂ (.get 1) = (.ok (some (.record (.forIndex 7))), c, l₃) := by
  obtain ⟨c, l₁, conn, hconnect, hconnected, hcache⟩ :=
    Client.exists_connect_served { name := "cache" } ⟨.v4 ⟨127, 0, 0, 1⟩, 11222, 0⟩ (by decide)
  have hback : (Record.forIndex 7).salary.ReadsBack := by decide +kernel
  obtain ⟨stored, returned, hstored, -, -, -, hexact, ⟨l₂, hput, hconnected', hholds⟩, -, hget⟩ :=
    Client.salary_returned hconnected hcache 1 (r := .forIndex 7) (by decide +kernel) (by
      intro x hx
      have hsame : x = (Record.forIndex 7).salary := hx.elim id fun h =>
        Option.some.inj (h.symm.trans hback)
      rw [hsame]
      decide +kernel)
  obtain ⟨l₃, hget⟩ := hget c l₂ conn hconnected' hholds
  rw [hexact (by decide +kernel)] at hget
  exact ⟨c, l₁, l₂, l₃, hconnect, hput, hget⟩

/-- The number below `2 ^ 53` is written with all its digits and comes back as the one before. -/
theorem salary_returned_changed :
    let r : Record := ⟨7, "f", "l", ⟨0x433fffffffffffff⟩⟩
    r.salary.isFinite ∧ ∃ c l₁ l₂ l₃,
      Client.connect Loopback.network "cache" [⟨.v4 ⟨127, 0, 0, 1⟩, 11222, 0⟩]
        { endpoint := .ofSettings [{ name := "cache" }] } = (.ok c, l₁) ∧
      c.perform Loopback.network l₁ (.put 1 (.record r)) = (.ok (), c, l₂) ∧
      c.perform Loopback.network l₂ (.get 1) =
        (.ok (some (.record { r with salary := ⟨0x433ffffffffffffe⟩ })), c, l₃) := by
  intro r
  let stored : Record := { r with salary := ⟨0x433ffffffffffffe⟩ }
  obtain ⟨c, l₁, conn, hconnect, hconnected, hcache⟩ :=
    Client.exists_connect_served { name := "cache" } ⟨.v4 ⟨127, 0, 0, 1⟩, 11222, 0⟩ (by decide)
  have hput : (Value.record r).ArrivesAs (.record stored) :=
    ⟨Value.ofJson?_toJson_of_reread? (by decide +kernel), by decide +kernel⟩
  have hget : (Value.record stored).ArrivesAs (.record stored) :=
    ⟨Value.ofJson?_toJson_of_reread? (by decide +kernel), by decide +kernel⟩
  obtain ⟨l₂, hperform, hconnected', hholds⟩ := hconnected.put hcache 1 hput
  obtain ⟨l₃, hperform'⟩ := hconnected'.get hholds hget
  exact ⟨by decide, c, l₁, l₂, l₃, hconnect, hperform, hperform'⟩

end CacheBench
