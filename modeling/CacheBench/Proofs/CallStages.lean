import CacheBench.Proofs.Transit

/-!
# Stages of a call

What is on the line of a connection while a call uses it, stage by stage (`Stage.Holds`), over a
network that delays and fails. One step of a call leaves all other lines as they are, hands at most
one connection on, and ends in the next stage (`Client.Advanced`). The frames that were given to the
call as replies of the endpoint are a parameter, `given`.
-/

namespace CacheBench

namespace Frame

/-- What a call returns that has got the reply. -/
def outcome : Frame → Except CacheError Frame
  | .error text => .error (.remote text)
  | reply => .ok reply

theorem encodeAll_toList_some (f : Frame) : encodeAll (some f).toList = f.encode :=
  List.append_nil f.encode

theorem exists_eq_error_of_decode {text : String} {reply : Frame} {rest : Bytes}
    (h : decode (error text).encode = .complete reply rest) : ∃ head, reply = .error head := by
  rw [← List.append_nil (error text).encode, decode_error] at h
  cases hline : takeLine (utf8 text ++ (lineBreak ++ [])) with
  | incomplete | malformed =>
      rw [hline] at h
      cases h
  | complete b left =>
      simp only [hline, Decoded.bind] at h
      split at h
      · cases h
        exact ⟨_, rfl⟩
      · cases h

end Frame

/-! ## What a stage says -/

def Stage.conn? : Stage → Option ConnectionId
  | .start _ | .connecting _ _ | .finished _ => none
  | .selecting _ conn | .awaitingSelection _ conn | .asking _ conn | .awaitingReply conn =>
    some conn

namespace Transit.Line

inductive Selecting (name : String) (served : Prop) : Line → Prop
  | sent (s : String) : Selecting name served ⟨(Command.use name).toFrame.encode, some [], s⟩
  | lost (s : String) : Selecting name served (.ready s)
  | accepted : Selecting name served ⟨[], some Frame.done.encode, name⟩
  | refused (hserved : ¬ served) (text s : String) :
    Selecting name served ⟨[], some (Frame.error text).encode, s⟩

inductive Asking (name : String) (f : Frame) (given : Frame → Prop) : Line → Prop
  | sent : Asking name f given ⟨f.encode, some [], name⟩
  | lost : Asking name f given (.ready name)
  | answered {reply : Frame} (hgiven : given reply) (hb : reply.Unbroken) :
    Asking name f given ⟨[], some reply.encode, name⟩

end Transit.Line

/-- How a call can end. A call without a request only opens a connection. -/
inductive Stage.Ends (served : Prop) (given : Frame → Prop) :
    Option Frame → Except CacheError Frame → Prop
  | lost (request : Option Frame) (fault : TransportFault) :
    Ends served given request (.error (.transport fault))
  | refused (request : Option Frame) (hserved : ¬ served) (text : String) :
    Ends served given request (.error (.remote text))
  | opened : Ends served given none (.ok .done)
  | replied (f : Frame) {reply : Frame} (hgiven : given reply) :
    Ends served given (some f) reply.outcome

/-- What a stage of a call with a request says about the network. -/
inductive Stage.Holds (name : String) (served : Prop) (given : Frame → Prop) (w : Transit)
    (request : Option Frame) : Stage → Prop
  | start : Holds name served given w request (.start request)
  | connecting (server : SocketAddress) :
    Holds name served given w request (.connecting request server)
  | selecting {conn : ConnectionId} {s : String} (hline : w.line conn = .ready s) :
    Holds name served given w request (.selecting request conn)
  | awaitingSelection {conn : ConnectionId} (hline : (w.line conn).Selecting name served) :
    Holds name served given w request (.awaitingSelection request conn)
  | asking {f : Frame} {conn : ConnectionId} (hf : request = some f)
    (hline : w.line conn = .ready name) : Holds name served given w request (.asking f conn)
  | awaitingReply {f : Frame} {conn : ConnectionId} (hf : request = some f)
    (hline : (w.line conn).Asking name f given) :
    Holds name served given w request (.awaitingReply conn)
  | finished {result : Except CacheError Frame} (hends : Ends served given request result) :
    Holds name served given w request (.finished result)

namespace Stage.Holds

variable {name : String} {served : Prop} {given given' : Frame → Prop} {w w' : Transit}
  {request : Option Frame} {stage : Stage} {conn : ConnectionId}

theorem isOpen (h : stage.Holds name served given w request) (hconn : stage.conn? = some conn) :
    w.Open conn := by
  rw [Transit.open_iff]
  cases h with
  | start | connecting _ | finished _ => cases hconn
  | selecting hline | asking _ hline =>
      cases hconn
      exact ⟨[], congrArg Transit.Line.inbound hline⟩
  | awaitingSelection hline =>
      cases hconn
      generalize w.line conn = line at hline
      cases hline with
      | sent | lost | accepted | refused => exact ⟨_, rfl⟩
  | awaitingReply hf hline =>
      cases hconn
      generalize w.line conn = line at hline
      cases hline with
      | sent | lost | answered => exact ⟨_, rfl⟩

/-- What a stage says stays true while nothing happens on its line. -/
theorem congr (h : stage.Holds name served given w request)
    (hgiven : ∀ reply, given reply → given' reply)
    (hline : ∀ conn, stage.conn? = some conn → w'.line conn = w.line conn) :
    stage.Holds name served given' w' request := by
  cases h with
  | start => exact .start
  | connecting server => exact .connecting server
  | selecting h => exact .selecting ((hline _ rfl).trans h)
  | awaitingSelection h => exact .awaitingSelection (hline _ rfl ▸ h)
  | asking hf h => exact .asking hf ((hline _ rfl).trans h)
  | awaitingReply hf h =>
      rename_i f conn
      refine .awaitingReply hf (hline _ rfl ▸ ?_)
      generalize w.line conn = line at h
      cases h with
      | sent => exact .sent
      | lost => exact .lost
      | answered h hb => exact .answered (hgiven _ h) hb
  | finished h =>
      cases h with
      | lost => exact .finished (.lost _ _)
      | refused _ hserved => exact .finished (.refused _ hserved _)
      | opened => exact .finished .opened
      | replied f h => exact .finished (.replied f (hgiven _ h))

end Stage.Holds

/-! ## The turn of the endpoint -/

namespace Transit.Line

variable {e : Endpoint} {name : String} {w : Transit} {conn : ConnectionId}

/-- The selection that was sent is accepted, refused, or too large to be read. -/
theorem Selecting.deliver (hw : w.Sound e) (h : (w.line conn).Selecting name (name ∈ e.caches)) :
    ((w.deliver conn).line conn).Selecting name (name ∈ e.caches) := by
  generalize hx : w.line conn = line at h
  cases h with
  | lost s =>
      rw [line_deliver_of_nil (congrArg Line.outbound hx), hx]
      exact .lost s
  | accepted =>
      rw [line_deliver_of_nil (congrArg Line.outbound hx), hx]
      exact .accepted
  | refused hserved text s =>
      rw [line_deliver_of_nil (congrArg Line.outbound hx), hx]
      exact .refused hserved text s
  | sent s =>
      have hf := Command.ofFrame_toFrame_use name
      rcases line_deliver (Command.use name).unbroken_toFrame hx with h | h <;> rw [h]
      · exact .lost s
      by_cases hserved : name ∈ e.caches
      · rw [Endpoint.receive_use hf ((hw.served name).2 hserved), Endpoint.selected_select,
          if_pos rfl]
        simp only [Frame.encodeAll_toList_some]
        exact .accepted
      · have hnone : w.loopback.endpoint.caches[name]? = none :=
          Std.TreeMap.getElem?_eq_none (mt (hw.served name).1 hserved)
        rw [Endpoint.receive_use_of_none hf hnone]
        simp only [Frame.encodeAll_toList_some]
        exact .refused hserved _ _

/-- The request that was sent is answered, or too large to be read. -/
theorem Asking.deliver (hw : w.Sound e) (hwords : e.PlainWords) {cmd : Command} {r : Request}
    (hr : cmd.request? = some r) {given given' : Frame → Prop}
    (hgiven : ∀ reply, given reply → given' reply)
    (hnew : ∀ reply, w.line conn = ⟨cmd.toFrame.encode, some [], name⟩ →
      (w.loopback.endpoint.receive conn cmd.toFrame).1 = some reply → given' reply)
    (h : (w.line conn).Asking name cmd.toFrame given) :
    ((w.deliver conn).line conn).Asking name cmd.toFrame given' := by
  generalize hx : w.line conn = line at h
  cases h with
  | lost =>
      rw [line_deliver_of_nil (congrArg Line.outbound hx), hx]
      exact .lost
  | answered h hb =>
      rw [line_deliver_of_nil (congrArg Line.outbound hx), hx]
      exact .answered (hgiven _ h) hb
  | sent =>
      rcases line_deliver cmd.unbroken_toFrame hx with h | h <;> rw [h]
      · exact .lost
      have hselected : w.loopback.endpoint.selected conn = name := congrArg Line.selected hx
      rw [Endpoint.selected_receive_of_ne_use (Command.understood_toFrame hr).ne_use, hselected]
      cases hreply : (w.loopback.endpoint.receive conn cmd.toFrame).1 with
      | none => exact .lost
      | some reply =>
          have hb := Endpoint.unbroken_reply_toFrame hw.settled (hw.plainWords hwords) hr hreply
          rw [Frame.encodeAll_toList_some]
          exact .answered (hnew reply hx hreply) hb

end Transit.Line

namespace Stage.Holds

variable {e : Endpoint} {name : String} {given given' : Frame → Prop} {w : Transit}
  {request : Option Frame} {stage : Stage}

/-- What a stage says stays true whatever happens without the client. New replies count as given. -/
theorem step (hw : w.Sound e) (hwords : e.PlainWords)
    (hrequest : ∀ f, request = some f → ∃ r, Client.frame? r = some f)
    (hgiven : ∀ reply, given reply → given' reply) {event : Transit.Event}
    (hnew : ∀ conn f reply, event = .deliver conn → stage = .awaitingReply conn →
      request = some f → w.line conn = ⟨f.encode, some [], name⟩ →
      (w.loopback.endpoint.receive conn f).1 = some reply → given' reply)
    (h : stage.Holds name (name ∈ e.caches) given w request) :
    stage.Holds name (name ∈ e.caches) given' (w.step event) request := by
  by_cases hconn : ∃ conn, stage.conn? = some conn ∧ event = .deliver conn
  · obtain ⟨conn, hconn, rfl⟩ := hconn
    cases h with
    | start | connecting _ | finished _ => cases hconn
    | selecting hline =>
        cases hconn
        exact .selecting
          ((Transit.line_deliver_of_nil (congrArg Transit.Line.outbound hline)).trans hline)
    | asking hf hline =>
        cases hconn
        exact .asking hf
          ((Transit.line_deliver_of_nil (congrArg Transit.Line.outbound hline)).trans hline)
    | awaitingSelection hline =>
        cases hconn
        exact .awaitingSelection (hline.deliver hw)
    | @awaitingReply f conn hf hline =>
        cases hconn
        obtain ⟨r, hr⟩ := hrequest f hf
        obtain ⟨cmd, hcmd, rfl⟩ := Client.exists_command_of_frame? hr
        exact .awaitingReply hf
          (hline.deliver hw hwords hcmd hgiven fun reply => hnew conn _ reply rfl rfl hf)
  · -- Only a delivery on the connection of the call is seen by it.
    refine h.congr hgiven fun conn hstage => w.line_step ?_ (h.isOpen hstage)
    rintro rfl
    exact hconn ⟨conn, hstage, rfl⟩

end Stage.Holds

/-! ## One step -/

namespace Client

/-- How a step hands connections on, where `old` and `new` are those of the pool and of the call. -/
inductive Hands (w w' : Transit) (old new : List ConnectionId) : Prop
  | keeps (hperm : new.Perm old) (hopen : ∀ conn, w'.Open conn → w.Open conn)
  | opens (hperm : new.Perm (w.loopback.next :: old))
    (hopen : ∀ conn, w'.Open conn → conn = w.loopback.next ∨ w.Open conn)
  | closes {conn : ConnectionId} (hperm : old.Perm (conn :: new))
    (hopen : ∀ other, w'.Open other → other ≠ conn ∧ w.Open other)

structure Steady (e : Endpoint) (name : String) (c : Client) (w : Transit) : Prop where
  named : c.name = name
  network : w.Sound e
  ready : ∀ conn ∈ c.pool, w.line conn = .ready name

/-- What the next step of a call is like. -/
structure Advanced (e : Endpoint) (name : String) (given : Frame → Prop) (request : Option Frame)
    (c : Client) (w : Transit) (stage : Stage) (after : Stage × Client × Transit) : Prop where
  holds : after.1.Holds name (name ∈ e.caches) given after.2.2 request
  steady : after.2.1.Steady e name after.2.2
  others : ∀ conn, stage.conn? ≠ some conn → conn < w.loopback.next →
    after.2.2.line conn = w.line conn
  next_le : w.loopback.next ≤ after.2.2.loopback.next
  hands : Hands w after.2.2 (c.pool ++ stage.conn?.toList) (after.2.1.pool ++ after.1.conn?.toList)

variable {e : Endpoint} {name : String} {given : Frame → Prop} {request : Option Frame} {c : Client}
  {w w' : Transit} {stage stage' : Stage} {conn : ConnectionId} {result : Except CacheError Frame}

theorem answered_eq (c : Client) (conn : ConnectionId) (reply : Frame) :
    c.answered conn reply = (.finished reply.outcome, c.release conn) := by
  cases reply <;> rfl

theorem Steady.isOpen (hc : c.Steady e name w) (h : conn ∈ c.pool) : w.Open conn :=
  Transit.open_iff.2 ⟨[], congrArg Transit.Line.inbound (hc.ready conn h)⟩

theorem Steady.rest (hc : c.Steady e name w) {c' : Client} (hname : c'.name = c.name)
    (hperm : (c'.pool ++ stage'.conn?.toList).Perm (c.pool ++ stage.conn?.toList))
    (hpool : ∀ conn ∈ c'.pool, conn ∈ c.pool)
    (holds : stage'.Holds name (name ∈ e.caches) given w request) :
    Advanced e name given request c w stage (stage', c', w) where
  holds := holds
  steady := ⟨hname.trans hc.named, hc.network, fun conn h => hc.ready conn (hpool conn h)⟩
  others _ _ _ := rfl
  next_le := Nat.le_refl _
  hands := .keeps hperm fun _ => id

section OnConnection

variable (hc : c.Steady e name w) (hstage : stage.conn? = some conn) (hopen : w.Open conn)
  (hpool : conn ∉ c.pool) (htouches : Transit.Touches conn w w')
include hc hopen hpool htouches

theorem Steady.touches : c.Steady e name w' where
  named := hc.named
  network := htouches.sound hc.network
    (Nat.lt_of_lt_of_le (hc.network.lt_next hopen) htouches.next_le)
  ready other hother := by
    have hne : other ≠ conn := by
      rintro rfl
      exact hpool hother
    exact (htouches.line other hne).trans (hc.ready other hother)

omit hc hpool in
theorem open_of_touches (other : ConnectionId) (h : w'.Open other) : w.Open other := by
  by_cases hne : other = conn
  · rwa [hne]
  · exact (Transit.Open.congr (htouches.line other hne)).1 h

include hstage

theorem Steady.goOn (hstage' : stage'.conn? = some conn)
    (holds : stage'.Holds name (name ∈ e.caches) given w' request) :
    Advanced e name given request c w stage (stage', c, w') where
  holds := holds
  steady := hc.touches hopen hpool htouches
  others other hother _ := htouches.line other fun h => hother (h ▸ hstage)
  next_le := htouches.next_le
  hands := .keeps (by rw [hstage, hstage']) (open_of_touches hopen htouches)

theorem Steady.release (hready : w'.line conn = .ready name)
    (hends : Stage.Ends (name ∈ e.caches) given request result) :
    Advanced e name given request c w stage (.finished result, c.release conn, w') where
  holds := .finished hends
  steady :=
    { hc.touches hopen hpool htouches with
      ready := List.forall_mem_cons.2 ⟨hready, (hc.touches hopen hpool htouches).ready⟩ }
  others other hother _ := htouches.line other fun h => hother (h ▸ hstage)
  next_le := htouches.next_le
  hands := by
    refine .keeps ?_ (open_of_touches hopen htouches)
    rw [hstage, Stage.conn?, Option.toList_none, List.append_nil]
    exact (List.perm_append_singleton conn c.pool).symm

theorem Steady.abandon (hends : Stage.Ends (name ∈ e.caches) given request result) :
    Advanced e name given request c w stage (.finished result, c, w'.close conn) := by
  have hclose := htouches.trans (w'.touches_close conn)
  have hperm : (c.pool ++ stage.conn?.toList).Perm (conn :: (c.pool ++ [])) := by
    rw [hstage, List.append_nil]
    exact List.perm_append_singleton conn c.pool
  refine ⟨.finished hends, hc.touches hopen hpool hclose,
    fun other hother _ => hclose.line other fun h => hother (h ▸ hstage), hclose.next_le,
    .closes hperm fun other h => ⟨?_, open_of_touches hopen hclose other h⟩⟩
  rintro rfl
  exact w'.not_open_close other h

end OnConnection

/-! ### One stage after the other -/

/-- A call takes a pooled connection, or opens one if there is a server. -/
theorem checkout_cases (c : Client) (request : Option Frame) :
    (∃ f conn pool, request = some f ∧ c.pool = conn :: pool ∧
      c.checkout request = (.asking f conn, { c with pool })) ∨
    (∃ server,
      c.checkout request = (.connecting request server, { c with opened := c.opened + 1 })) ∨
    c.checkout request = (.finished (.error (.transport .noServers)), c) := by
  unfold checkout
  split
  · rename_i f conn pool hpool
    exact .inl ⟨f, conn, pool, rfl, hpool, rfl⟩
  · split
    · rename_i server _
      exact .inr (.inl ⟨server, rfl⟩)
    · exact .inr (.inr rfl)

theorem Steady.advance_start (hc : c.Steady e name w) :
    Advanced e name given request c w (.start request)
      (c.advance Transit.network w (.start request)) := by
  rcases c.checkout_cases request with ⟨f, conn, pool, hf, hpool, h⟩ | ⟨server, h⟩ | h
  · simp only [advance, h]
    refine hc.rest rfl ?_ (fun other hother => hpool ▸ List.mem_cons_of_mem conn hother)
      (.asking hf (hc.ready conn (hpool ▸ List.mem_cons_self)))
    rw [hpool, Stage.conn?, Stage.conn?, Option.toList_none, List.append_nil]
    exact List.perm_append_singleton conn pool
  · simp only [advance, h]
    exact hc.rest rfl (.refl _) (fun _ => id) (.connecting server)
  · simp only [advance, h]
    exact hc.rest rfl (.refl _) (fun _ => id) (.finished (.lost _ _))

theorem Steady.advance_connecting (hc : c.Steady e name w) (server : SocketAddress) :
    Advanced e name given request c w (.connecting request server)
      (c.advance Transit.network w (.connecting request server)) := by
  cases hconnect : w.connect server with
  | mk result w' =>
      cases result with
      | error refusal =>
          obtain rfl := Transit.connect_error hconnect
          simp only [advance, Transit.network, hconnect]
          exact hc.rest rfl (.refl _) (fun _ => id) (.finished (.lost _ _))
      | ok conn =>
          obtain ⟨hsent, hclosed⟩ := hc.network.unused _ (Nat.le_refl _)
          obtain ⟨rfl, htouches, hnext, s, hline⟩ := Transit.touches_connect hsent hconnect
          simp only [advance, Transit.network, hconnect]
          have hsound := htouches.sound hc.network (hnext ▸ Nat.lt_succ_self _)
          refine ⟨.selecting hline, ⟨hc.named, hsound, fun other hother => ?_⟩,
            fun other _ hlt => htouches.line other hlt.ne, htouches.next_le, ?_⟩
          · have hne := (hc.network.lt_next (hc.isOpen hother)).ne
            exact (htouches.line other hne).trans (hc.ready other hother)
          · refine .opens ?_ fun other h => ?_
            · rw [Stage.conn?, Stage.conn?, Option.toList_none, List.append_nil]
              exact List.perm_append_singleton _ c.pool
            · refine or_iff_not_imp_left.2 fun hne => ?_
              exact (Transit.Open.congr (htouches.line other hne)).1 h

theorem Steady.advance_selecting (hc : c.Steady e name w) (hpool : conn ∉ c.pool) {s : String}
    (hline : w.line conn = .ready s) :
    Advanced e name given request c w (.selecting request conn)
      (c.advance Transit.network w (.selecting request conn)) := by
  have hopen : w.Open conn := Transit.open_iff.2 ⟨[], congrArg Transit.Line.inbound hline⟩
  refine hc.goOn rfl hopen hpool (w.touches_send conn _) rfl (.awaitingSelection ?_)
  simp only [Transit.network, hc.named]
  rcases Transit.line_send hline (Command.use name).toFrame.encode with h | h <;> rw [h]
  · exact .sent s
  · exact .lost s

theorem Steady.advance_asking (hc : c.Steady e name w) (hpool : conn ∉ c.pool) {f : Frame}
    (hf : request = some f) (hline : w.line conn = .ready name) :
    Advanced e name given request c w (.asking f conn)
      (c.advance Transit.network w (.asking f conn)) := by
  have hopen : w.Open conn := Transit.open_iff.2 ⟨[], congrArg Transit.Line.inbound hline⟩
  refine hc.goOn rfl hopen hpool (w.touches_send conn _) rfl (.awaitingReply hf ?_)
  simp only [Transit.network]
  rcases Transit.line_send hline f.encode with h | h <;> rw [h]
  · exact .sent
  · exact .lost

theorem Steady.advance_awaitingSelection (hc : c.Steady e name w) (hpool : conn ∉ c.pool)
    (hline : (w.line conn).Selecting name (name ∈ e.caches)) :
    Advanced e name given request c w (.awaitingSelection request conn)
      (c.advance Transit.network w (.awaitingSelection request conn)) := by
  have holds : (Stage.awaitingSelection request conn).Holds name _ given w request :=
    .awaitingSelection hline
  have hopen := holds.isOpen rfl
  have htouches := w.touches_receive conn
  cases hreceive : w.receive conn with
  | mk result w' =>
      rw [hreceive] at htouches
      cases result with
      | error fault =>
          simp only [advance, Transit.network, hreceive]
          exact hc.abandon rfl hopen hpool htouches (.lost _ _)
      | ok reply =>
          generalize hx : w.line conn = line at hline
          cases hline with
          | sent | lost =>
              -- Nothing has come that could be received.
              obtain ⟨rest, hread, -⟩ := Transit.of_receive hreceive hx
              cases hread
          | accepted =>
              obtain ⟨rest, hread, hready⟩ := Transit.of_receive hreceive hx
              rw [← List.append_nil Frame.done.encode,
                Frame.decode_encode Frame.unbroken_done Frame.fits_done] at hread
              cases hread
              simp only [advance, Transit.network, hreceive, expectDone_done]
              cases request with
              | none => exact hc.release rfl hopen hpool htouches hready .opened
              | some f => exact hc.goOn rfl hopen hpool htouches rfl (.asking rfl hready)
          | refused hserved text s =>
              obtain ⟨rest, hread, -⟩ := Transit.of_receive hreceive hx
              obtain ⟨head, rfl⟩ := Frame.exists_eq_error_of_decode hread
              simp only [advance, Transit.network, hreceive, Frame.expectDone]
              exact hc.abandon rfl hopen hpool htouches (.refused _ hserved _)

theorem Steady.advance_awaitingReply (hc : c.Steady e name w) (hpool : conn ∉ c.pool) {f : Frame}
    (hf : request = some f) (hline : (w.line conn).Asking name f given) :
    Advanced e name given request c w (.awaitingReply conn)
      (c.advance Transit.network w (.awaitingReply conn)) := by
  subst hf
  have holds : (Stage.awaitingReply conn).Holds name (name ∈ e.caches) given w (some f) :=
    .awaitingReply rfl hline
  have hopen := holds.isOpen rfl
  have htouches := w.touches_receive conn
  cases hreceive : w.receive conn with
  | mk result w' =>
      rw [hreceive] at htouches
      cases result with
      | error fault =>
          simp only [advance, Transit.network, hreceive]
          exact hc.abandon rfl hopen hpool htouches (.lost _ _)
      | ok reply =>
          generalize hx : w.line conn = line at hline
          cases hline with
          | sent | lost =>
              obtain ⟨rest, hread, -⟩ := Transit.of_receive hreceive hx
              cases hread
          | @answered reply' hgiven hb =>
              obtain ⟨rest, hread, hready⟩ := Transit.of_receive hreceive hx
              rw [← List.append_nil reply'.encode] at hread
              -- A reply that is too long is not read, but here one was.
              rcases Frame.decode_encode_or hb [] with h | h
              · cases h.symm.trans hread
                simp only [advance, Transit.network, hreceive, answered_eq]
                exact hc.release rfl hopen hpool htouches hready (.replied f hgiven)
              · cases h.symm.trans hread

/-- Whatever the stage, the next step of a call hands on what it should. -/
theorem Steady.advance (hc : c.Steady e name w)
    (hpool : ∀ conn, stage.conn? = some conn → conn ∉ c.pool)
    (h : stage.Holds name (name ∈ e.caches) given w request) :
    Advanced e name given request c w stage (c.advance Transit.network w stage) := by
  cases h with
  | start => exact hc.advance_start
  | connecting server => exact hc.advance_connecting server
  | selecting hline => exact hc.advance_selecting (hpool _ rfl) hline
  | awaitingSelection hline => exact hc.advance_awaitingSelection (hpool _ rfl) hline
  | asking hf hline => exact hc.advance_asking (hpool _ rfl) hf hline
  | awaitingReply hf hline => exact hc.advance_awaitingReply (hpool _ rfl) hf hline
  | finished hends => exact hc.rest rfl (.refl _) (fun _ => id) (.finished hends)

/-! ### Counting connections -/

theorem opened_checkout_le (c : Client) (request : Option Frame) :
    (c.checkout request).2.opened ≤ c.opened + 1 := by
  rcases c.checkout_cases request with ⟨f, conn, pool, -, -, h⟩ | ⟨server, h⟩ | h
  · rw [h]
    exact Nat.le_succ _
  · rw [h]
  · rw [h]
    exact Nat.le_succ _

theorem opened_advance_le {ν : Type} (net : Network ν) (c : Client) (s : ν) (stage : Stage) :
    (c.advance net s stage).2.1.opened ≤ c.opened + 1 := by
  cases stage with
  | start request => exact c.opened_checkout_le request
  | connecting request server =>
      simp only [advance]
      split <;> exact Nat.le_succ _
  | awaitingSelection request conn =>
      simp only [advance]
      split
      · split
        · cases request <;> exact Nat.le_succ _
        · exact Nat.le_succ _
      · exact Nat.le_succ _
  | awaitingReply conn =>
      simp only [advance]
      split
      · rename_i reply _ _
        cases reply <;> exact Nat.le_succ _
      · exact Nat.le_succ _
  | selecting _ _ | asking _ _ | finished _ => exact Nat.le_succ _

end Client

namespace Callers

/-- Each move opens one connection at most. In runs of fewer than `2 ^ 64` moves a counter of 64
bits would therefore not wrap. -/
theorem opened_run_le {ν : Type} (net : Network ν) (c : Callers ν) (moves : List Move) :
    (c.run net moves).client.opened ≤ c.client.opened + moves.length := by
  induction moves generalizing c with
  | nil => exact Nat.le_refl _
  | cons move moves ih =>
      have hstep : (c.step net move).client.opened ≤ c.client.opened + 1 := by
        cases move with
        | call request => exact Nat.le_succ _
        | advance i =>
            simp only [step]
            split
            · exact c.client.opened_advance_le net _ _
            · exact Nat.le_succ _
      have hrun : (c.run net (move :: moves)).client.opened ≤
          (c.step net move).client.opened + moves.length := ih (c.step net move)
      rw [List.length_cons]
      omega

end Callers

end CacheBench
