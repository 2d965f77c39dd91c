import CacheBench.Proofs.ClientRequests

/-!
# A network that delays and fails

In a `Transit` the bytes that clients send to the endpoint wait until they are delivered, a
connection can be cut, new connections can be refused, and the served caches are used by others as
well. `Transit.network` is what a client sees of it, and `Transit.Event` what happens without the
client. `Transit.line` is all there is of one connection: each step on a connection leaves the lines
of the others as they are (`Touches`).
-/

namespace CacheBench

open Std (TreeMap)

structure Transit where
  loopback : Loopback
  /-- Bytes that the endpoint has not got yet, by connection. -/
  sent : TreeMap ConnectionId Bytes := ∅
  /-- Connections on which nothing arrives any more. -/
  broken : List ConnectionId := []

namespace Transit

def outbound (w : Transit) (conn : ConnectionId) : Bytes := w.sent.getD conn []

/-! ## What clients do -/

def connect (w : Transit) (server : SocketAddress) :
    Except NetworkRefusal ConnectionId × Transit :=
  let (result, loopback) := w.loopback.connect server
  (result, { w with loopback })

def send (w : Transit) (conn : ConnectionId) (b : Bytes) : Transit :=
  if conn ∈ w.broken then w else { w with sent := w.sent.insert conn (w.outbound conn ++ b) }

/-- The next reply. A client that does not wait for it any longer has the same error as one whose
connection is gone. -/
def receive (w : Transit) (conn : ConnectionId) : Except TransportFault Frame × Transit :=
  if conn ∈ w.broken then (.error .broken, w)
  else
    let (result, loopback) := w.loopback.receive conn
    (result, { w with loopback })

/-- Closes the end of the client. The endpoint can still get what was sent. -/
def close (w : Transit) (conn : ConnectionId) : Transit :=
  { w with loopback := { w.loopback with inbound := w.loopback.inbound.erase conn } }

def network : Network Transit where
  connect server w := w.connect server
  send conn b w := w.send conn b
  receive conn w := w.receive conn
  close conn w := w.close conn

/-! ## What happens without them -/

inductive Event
  /-- The endpoint gets what was sent on a connection, and answers. -/
  | deliver (conn : ConnectionId)
  | cut (conn : ConnectionId)
  /-- The endpoint ends the session of a connection that the client has closed. -/
  | hangUp (conn : ConnectionId)
  | reach (reachable : Bool)
  /-- Somebody else uses a served cache. -/
  | direct (name : String) (r : Request)

def deliver (w : Transit) (conn : ConnectionId) : Transit :=
  { w with loopback := w.loopback.send conn (w.outbound conn), sent := w.sent.erase conn }

def hangUp (w : Transit) (conn : ConnectionId) : Transit :=
  if conn ∈ w.loopback.inbound then w
  else
    { w with
      loopback := { w.loopback with endpoint := w.loopback.endpoint.disconnect conn }
      sent := w.sent.erase conn }

def direct (w : Transit) (name : String) (r : Request) : Transit :=
  let endpoint := w.loopback.endpoint
  let caches := (Served.call endpoint.caches name r).2
  { w with loopback := { w.loopback with endpoint := { endpoint with caches } } }

def step (w : Transit) : Event → Transit
  | .deliver conn => w.deliver conn
  | .cut conn => { w with broken := conn :: w.broken }
  | .hangUp conn => w.hangUp conn
  | .reach reachable => { w with loopback := { w.loopback with reachable } }
  | .direct name r => w.direct name r

/-- Where everything is delivered at once, this is the loopback. -/
theorem loopback_deliver_send {w : Transit} {conn : ConnectionId} (hbroken : conn ∉ w.broken)
    (hsent : w.outbound conn = []) (b : Bytes) :
    ((w.send conn b).deliver conn).loopback = w.loopback.send conn b := by
  have houtbound : (w.send conn b).outbound conn = b := by
    rw [send, if_neg hbroken, outbound, TreeMap.getD_insert_self, hsent, List.nil_append]
  rw [deliver, houtbound, send, if_neg hbroken]

/-! ## Lines -/

/-- The bytes on their way to the endpoint, the unread bytes of replies if the client has the
connection open, and the selection of the session. -/
@[ext]
structure Line where
  outbound : Bytes
  inbound : Option Bytes
  selected : String

/-- Nothing is under way or unread, and the cache of the name is selected. -/
def Line.ready (name : String) : Line := ⟨[], some [], name⟩

def line (w : Transit) (conn : ConnectionId) : Line where
  outbound := w.outbound conn
  inbound := w.loopback.inbound[conn]?
  selected := w.loopback.endpoint.selected conn

def Open (w : Transit) (conn : ConnectionId) : Prop := conn ∈ w.loopback.inbound

variable {w w' : Transit} {conn other : ConnectionId} {b : Bytes} {f : Frame} {s : String}

theorem open_iff : w.Open conn ↔ ∃ b, (w.line conn).inbound = some b := by
  rw [Open, TreeMap.mem_iff_isSome_getElem?, Option.isSome_iff_exists]
  rfl

theorem Open.congr (h : w'.line conn = w.line conn) : w'.Open conn ↔ w.Open conn := by
  rw [open_iff, open_iff, h]

/-- What holds of a network on which only the connections of one client were opened, with the
endpoint that it began with. -/
structure Sound (e : Endpoint) (w : Transit) : Prop where
  unused : ∀ conn, w.loopback.next ≤ conn → w.outbound conn = [] ∧ ¬ w.Open conn
  settled : w.loopback.endpoint.Settled
  words : w.loopback.endpoint.words = e.words
  served : ∀ name : String, name ∈ w.loopback.endpoint.caches ↔ name ∈ e.caches

theorem Sound.lt_next {e : Endpoint} (hw : w.Sound e) (h : w.Open conn) :
    conn < w.loopback.next :=
  Nat.lt_of_not_le fun hle => (hw.unused conn hle).2 h

theorem Sound.plainWords {e : Endpoint} (hw : w.Sound e) (h : e.PlainWords) :
    w.loopback.endpoint.PlainWords := by
  intro v hv
  rw [hw.words]
  exact h v hv

theorem sound_start {e : Endpoint} (he : e.Settled) :
    Sound e { loopback := { endpoint := e } } where
  unused conn _ := ⟨rfl, by simp [Open]⟩
  settled := he
  words := rfl
  served _ := Iff.rfl

/-! ## Steps of a client -/

structure Touches (conn : ConnectionId) (w w' : Transit) : Prop where
  line : ∀ other, other ≠ conn → w'.line other = w.line other
  endpoint : w'.loopback.endpoint = w.loopback.endpoint
  next_le : w.loopback.next ≤ w'.loopback.next

theorem Touches.sound {e : Endpoint} (h : Touches conn w w') (hw : w.Sound e)
    (hconn : conn < w'.loopback.next) : w'.Sound e := by
  refine ⟨fun other hother => ?_, ?_, ?_, fun name => ?_⟩
  · have hline := h.line other (Nat.lt_of_lt_of_le hconn hother).ne'
    obtain ⟨hsent, hclosed⟩ := hw.unused other (Nat.le_trans h.next_le hother)
    exact ⟨(congrArg Line.outbound hline).trans hsent, mt (Open.congr hline).1 hclosed⟩
  · rw [h.endpoint]
    exact hw.settled
  · rw [h.endpoint, hw.words]
  · rw [h.endpoint, hw.served]

theorem Touches.trans {w'' : Transit} (h : Touches conn w w') (h' : Touches conn w' w'') :
    Touches conn w w'' where
  line other hne := (h'.line other hne).trans (h.line other hne)
  endpoint := h'.endpoint.trans h.endpoint
  next_le := Nat.le_trans h.next_le h'.next_le

theorem touches_send (w : Transit) (conn : ConnectionId) (b : Bytes) :
    Touches conn w (w.send conn b) := by
  unfold send
  split
  · exact ⟨fun _ _ => rfl, rfl, Nat.le_refl _⟩
  · refine ⟨fun other hne => ?_, rfl, Nat.le_refl _⟩
    simp [line, outbound, TreeMap.getD_insert, hne.symm]

theorem touches_receive (w : Transit) (conn : ConnectionId) :
    Touches conn w (w.receive conn).2 := by
  unfold receive
  split
  · exact ⟨fun _ _ => rfl, rfl, Nat.le_refl _⟩
  · dsimp only [Loopback.receive]
    split
    · refine ⟨fun other hne => ?_, rfl, Nat.le_refl _⟩
      simp [line, outbound, TreeMap.getElem?_insert, hne.symm]
    · exact ⟨fun _ _ => rfl, rfl, Nat.le_refl _⟩
    · exact ⟨fun _ _ => rfl, rfl, Nat.le_refl _⟩

theorem touches_close (w : Transit) (conn : ConnectionId) : Touches conn w (w.close conn) where
  line other hne := by simp [close, line, outbound, TreeMap.getElem?_erase, hne.symm]
  endpoint := rfl
  next_le := Nat.le_refl _

theorem not_open_close (w : Transit) (conn : ConnectionId) : ¬ (w.close conn).Open conn := by
  simp [close, Open]

theorem touches_connect {server : SocketAddress} (hsent : w.outbound w.loopback.next = [])
    (h : w.connect server = (.ok conn, w')) :
    conn = w.loopback.next ∧ Touches conn w w' ∧ w'.loopback.next = w.loopback.next + 1 ∧
      ∃ s, w'.line conn = .ready s := by
  by_cases hreachable : w.loopback.reachable
  · rw [connect, Loopback.connect, if_pos hreachable] at h
    cases h
    refine ⟨rfl, ⟨fun other hne => ?_, rfl, Nat.le_succ _⟩, rfl,
      w.loopback.endpoint.selected w.loopback.next, ?_⟩
    · simp [line, outbound, TreeMap.getElem?_insert, hne.symm]
    · exact Line.ext hsent TreeMap.getElem?_insert_self rfl
  · rw [connect, Loopback.connect, if_neg hreachable] at h
    cases h

theorem connect_error {server : SocketAddress} {refusal : NetworkRefusal}
    (h : w.connect server = (.error refusal, w')) : w' = w := by
  by_cases hreachable : w.loopback.reachable
  · rw [connect, Loopback.connect, if_pos hreachable] at h
    cases h
  · rw [connect, Loopback.connect, if_neg hreachable] at h
    cases h
    rfl

/-- What was sent is under way, or lost. -/
theorem line_send (h : w.line conn = .ready s) (b : Bytes) :
    (w.send conn b).line conn = ⟨b, some [], s⟩ ∨ (w.send conn b).line conn = .ready s := by
  unfold send
  split
  · exact .inr h
  · obtain ⟨hsent, hinbound, hselected⟩ := Line.mk.inj h
    refine .inl ?_
    simp [line, outbound, hinbound, hselected]
    exact hsent

theorem of_receive {reply : Frame} {out : Bytes} (h : w.receive conn = (.ok reply, w'))
    (hline : w.line conn = ⟨out, some b, s⟩) :
    ∃ rest, Frame.decode b = .complete reply rest ∧ w'.line conn = ⟨out, some rest, s⟩ := by
  obtain ⟨rfl, hinbound, rfl⟩ := Line.mk.inj hline
  unfold receive at h
  split at h
  · cases h
  · dsimp only [Loopback.receive] at h
    rw [TreeMap.getD_eq_getD_getElem?, hinbound, Option.getD_some] at h
    split at h
    · rename_i f rest hread
      cases h
      refine ⟨rest, hread, ?_⟩
      simp only [line, TreeMap.getElem?_insert_self]
      rfl
    · cases h
    · cases h

/-! ## Steps without a client -/

theorem loopback_send_of_unread (hb : (Frame.decodeAll b).1 = []) (l : Loopback)
    (conn : ConnectionId) :
    l.send conn b = { l with inbound := l.inbound.modify conn (· ++ []) } := by
  simp only [Loopback.send, hb]
  rfl

theorem outbound_deliver (w : Transit) (conn other : ConnectionId) :
    (w.deliver conn).outbound other = if conn = other then [] else w.outbound other := by
  simp only [deliver, outbound, TreeMap.getD_erase, Std.LawfulEqCmp.compare_eq_iff_eq]

theorem line_deliver_of_ne (w : Transit) (hne : other ≠ conn) :
    (w.deliver conn).line other = w.line other := by
  refine Line.ext ?_ ?_ (Endpoint.selected_run_of_ne _ hne)
  · exact (w.outbound_deliver conn other).trans (if_neg hne.symm)
  · simp [line, deliver, Loopback.send, TreeMap.getElem?_modify, hne.symm]

/-- What the endpoint does not read goes without an answer. -/
theorem line_deliver_of_unread (hunread : (Frame.decodeAll (w.outbound conn)).1 = []) :
    (w.deliver conn).line conn = { w.line conn with outbound := [] } := by
  have hloopback := loopback_send_of_unread hunread w.loopback conn
  refine Line.ext ?_ ?_ ?_
  · exact (w.outbound_deliver conn conn).trans (if_pos rfl)
  · simp [line, deliver, hloopback, TreeMap.getElem?_modify_self]
  · simp only [line, deliver, hloopback]

theorem line_deliver_of_nil (h : (w.line conn).outbound = []) :
    (w.deliver conn).line conn = w.line conn := by
  have hsent : w.outbound conn = [] := h
  rw [line_deliver_of_unread (by rw [hsent]; rfl)]
  exact Line.ext h.symm rfl rfl

/-- Of a frame that arrives the reply comes back, unless the frame is too large for the endpoint. -/
theorem line_deliver (hf : f.Unbroken) (h : w.line conn = ⟨f.encode, some [], s⟩) :
    (w.deliver conn).line conn = .ready s ∨
      (w.deliver conn).line conn =
        ⟨[], some (Frame.encodeAll (w.loopback.endpoint.receive conn f).1.toList),
          (w.loopback.endpoint.receive conn f).2.selected conn⟩ := by
  obtain ⟨hsent, hinbound, -⟩ := Line.mk.inj h
  by_cases hl : f.Fits
  · have hloopback : w.loopback.send conn f.encode = _ := Loopback.send_encode hf hl
    refine .inr (Line.ext ?_ ?_ ?_)
    · exact (w.outbound_deliver conn conn).trans (if_pos rfl)
    · simp only [line, deliver, hsent, hloopback, TreeMap.getElem?_modify_self, hinbound]
      rfl
    · simp only [line, deliver, hsent, hloopback]
  · have hunread : (Frame.decodeAll (w.outbound conn)).1 = [] := by
      rw [hsent]
      exact Frame.decodeAll_encode_of_not_fits hf hl
    rw [line_deliver_of_unread hunread, h]
    exact .inl rfl

theorem next_step (w : Transit) (event : Event) :
    (w.step event).loopback.next = w.loopback.next := by
  cases event with
  | deliver | cut | reach | direct => rfl
  | hangUp conn =>
      rw [step, hangUp]
      split <;> rfl

theorem open_step (w : Transit) (event : Event) (conn : ConnectionId) :
    (w.step event).Open conn ↔ w.Open conn := by
  cases event with
  | deliver other => exact TreeMap.mem_modify
  | cut | reach | direct => rfl
  | hangUp =>
      rw [step, hangUp]
      split <;> rfl

theorem outbound_step (event : Event) (h : w.outbound conn = []) :
    (w.step event).outbound conn = [] := by
  cases event with
  | deliver other =>
      rw [step, outbound_deliver]
      split
      · rfl
      · exact h
  | cut | reach | direct => exact h
  | hangUp other =>
      rw [step, hangUp]
      split
      · exact h
      · simp only [outbound, TreeMap.getD_erase]
        split
        · rfl
        · exact h

/-- A connection that the client has open is only touched by what is delivered on it. -/
theorem line_step {event : Event} (hevent : event ≠ .deliver conn) (hopen : w.Open conn) :
    (w.step event).line conn = w.line conn := by
  cases event with
  | deliver other =>
      refine w.line_deliver_of_ne ?_
      rintro rfl
      exact hevent rfl
  | cut | reach | direct => rfl
  | hangUp other =>
      rw [step, hangUp]
      split
      · rfl
      · rename_i hclosed
        have hne : other ≠ conn := by
          rintro rfl
          exact hclosed hopen
        simp [line, outbound, Endpoint.selected, Endpoint.disconnect, TreeMap.getD_erase, hne]

theorem mem_call_iff {caches : TreeMap String Cache} (other : String) (r : Request)
    (name : String) : name ∈ (Served.call caches other r).2 ↔ name ∈ caches := by
  refine ⟨fun h => ?_, fun h => Served.mem_call h other r⟩
  unfold Served.call at h
  split at h
  · rename_i c hc
    rcases TreeMap.mem_insert.1 h with hname | hname
    · rw [← Std.LawfulEqCmp.compare_eq_iff_eq.1 hname, TreeMap.mem_iff_isSome_getElem?, hc]
      rfl
    · exact hname
  · exact h

theorem Sound.step {e : Endpoint} (hw : w.Sound e) (event : Event) : (w.step event).Sound e := by
  have hunused : ∀ conn, (w.step event).loopback.next ≤ conn →
      (w.step event).outbound conn = [] ∧ ¬ (w.step event).Open conn := by
    intro conn hle
    rw [next_step] at hle
    obtain ⟨hsent, hclosed⟩ := hw.unused conn hle
    exact ⟨outbound_step event hsent, mt (w.open_step event conn).1 hclosed⟩
  refine ⟨hunused, ?_, ?_, fun name => ?_⟩
  · cases event with
    | deliver => exact hw.settled.run _
    | cut | reach => exact hw.settled
    | hangUp =>
        rw [Transit.step, hangUp]
        split
        · exact hw.settled
        · exact hw.settled.disconnect _
    | direct other r =>
        intro conn
        exact (hw.settled conn).imp_right fun hmem => (mem_call_iff other r _).2 hmem
  · cases event with
    | deliver => exact (Endpoint.words_run _ _).trans hw.words
    | cut | reach | direct => exact hw.words
    | hangUp =>
        rw [Transit.step, hangUp]
        split <;> exact hw.words
  · cases event with
    | deliver => exact (Endpoint.mem_caches_run _ _ name).trans (hw.served name)
    | cut | reach => exact hw.served name
    | hangUp =>
        rw [Transit.step, hangUp]
        split <;> exact hw.served name
    | direct other r => exact (mem_call_iff other r name).trans (hw.served name)

end Transit

end CacheBench
