import CacheBench.Proofs.CallStages
import Mathlib.Data.List.Nodup
import Mathlib.Data.List.Perm.Basic

/-!
# The connection pool of a client

Any number of calls on one client take their steps in any order, the network delays and fails as it
likes, and others use the served caches (`Callers.Turn`). Every open connection is then in the pool
or used by exactly one call, nothing is under way or unread on a pooled one, a call gets the reply
to its own request, and a connection that failed does not come back. The invariant is
`Callers.Sound`, and `Callers.Pooling` what follows from it.
-/

namespace CacheBench

namespace Callers

/-! ## Turns -/

inductive Turn
  /-- Somebody asks the client for something. -/
  | call (r : Request)
  /-- One of the calls takes its next step. -/
  | advance (i : Nat)
  | network (event : Transit.Event)

def Turn.asked : Turn → Option Frame
  | .call r => Client.frame? r
  | .advance _ | .network _ => none

def turn (c : Callers Transit) : Turn → Callers Transit
  | .call r =>
    match Client.frame? r with
    | some f => c.step Transit.network (.call f)
    | none => c
  | .advance i => c.step Transit.network (.advance i)
  | .network event => { c with network := c.network.step event }

def play (c : Callers Transit) (turns : List Turn) : Callers Transit := turns.foldl turn c

/-- A new client of an endpoint. Its first call only opens a connection, to show that the cache
exists. -/
def opening (e : Endpoint) (name : String) (servers : List SocketAddress) : Callers Transit where
  client := { name, servers }
  network := { loopback := { endpoint := e } }
  calls := [.start none]

def requests (turns : List Turn) : List (Option Frame) :=
  none :: (turns.filterMap Turn.asked).map some

def before (c : Callers Transit) (turns : List Turn) (k : Nat) : Callers Transit :=
  c.play (turns.take k)

theorem play_concat (c : Callers Transit) (turns : List Turn) (t : Turn) :
    c.play (turns ++ [t]) = (c.play turns).turn t := by
  rw [play, List.foldl_append]
  rfl

theorem requests_concat (turns : List Turn) (t : Turn) :
    requests (turns ++ [t]) = requests turns ++ t.asked.toList.map some := by
  cases h : t.asked <;> simp [requests, List.filterMap_append, h]

/-! ## Connections -/

def connections (c : Callers Transit) : List ConnectionId :=
  c.client.pool ++ c.calls.filterMap Stage.conn?

def Uses (c : Callers Transit) (i : Nat) (conn : ConnectionId) : Prop :=
  ∃ stage, c.calls[i]? = some stage ∧ stage.conn? = some conn

variable {e : Endpoint} {name : String} {requested : List (Option Frame)}
  {given given' : Nat → Frame → Prop} {c : Callers Transit} {i j : Nat} {stage : Stage}
  {conn : ConnectionId}

theorem mem_connections_iff :
    conn ∈ c.connections ↔ conn ∈ c.client.pool ∨ ∃ i, c.Uses i conn := by
  rw [connections, List.mem_append, List.mem_filterMap]
  refine or_congr_right ⟨?_, ?_⟩
  · rintro ⟨stage, hmem, hstage⟩
    obtain ⟨i, hi⟩ := List.mem_iff_getElem?.1 hmem
    exact ⟨i, stage, hi, hstage⟩
  · rintro ⟨i, stage, hi, hstage⟩
    exact ⟨stage, List.mem_of_getElem? hi, hstage⟩

def otherConnections (c : Callers Transit) (i : Nat) : List ConnectionId :=
  (c.calls.eraseIdx i).filterMap Stage.conn?

theorem filterMap_cons_conn? (stage : Stage) (calls : List Stage) :
    (stage :: calls).filterMap Stage.conn? =
      stage.conn?.toList ++ calls.filterMap Stage.conn? := by
  cases h : stage.conn? <;> simp [h]

theorem connections_set_perm (hi : c.calls[i]? = some stage) (client : Client) (w : Transit)
    (stage' : Stage) :
    ({ client, network := w, calls := c.calls.set i stage' } : Callers Transit).connections.Perm
      ((client.pool ++ stage'.conn?.toList) ++ c.otherConnections i) := by
  obtain ⟨hlt, rfl⟩ := List.getElem?_eq_some_iff.1 hi
  have hperm := (List.set_perm_cons_eraseIdx hlt stage').filterMap Stage.conn?
  rw [filterMap_cons_conn?] at hperm
  rw [List.append_assoc]
  exact hperm.append_left _

theorem connections_perm (hi : c.calls[i]? = some stage) :
    c.connections.Perm ((c.client.pool ++ stage.conn?.toList) ++ c.otherConnections i) := by
  have hperm := connections_set_perm hi c.client c.network stage
  obtain ⟨hlt, rfl⟩ := List.getElem?_eq_some_iff.1 hi
  rwa [List.set_getElem_self hlt] at hperm

theorem mem_otherConnections (h : c.Uses j conn) (hne : j ≠ i) : conn ∈ c.otherConnections i := by
  obtain ⟨stage, hj, hstage⟩ := h
  exact List.mem_filterMap.2 ⟨stage, List.mem_eraseIdx_iff_getElem?.2 ⟨j, hne, hj⟩, hstage⟩

/-! ## The invariant -/

/-- What holds of a client and its calls with the frames they ask with, where `given` are the frames
that came as replies to each of them. -/
structure Sound (e : Endpoint) (name : String) (requested : List (Option Frame))
    (given : Nat → Frame → Prop) (c : Callers Transit) : Prop where
  steady : c.client.Steady e name c.network
  nodup : c.connections.Nodup
  held : ∀ conn, c.network.Open conn → conn ∈ c.connections
  length : c.calls.length = requested.length
  calls : ∀ (i : Nat) (stage : Stage) (request : Option Frame), c.calls[i]? = some stage →
    requested[i]? = some request →
      stage.Holds name (name ∈ e.caches) (given i) c.network request

theorem Sound.exists_holds (h : c.Sound e name requested given) (hi : c.calls[i]? = some stage) :
    ∃ request, requested[i]? = some request ∧
      stage.Holds name (name ∈ e.caches) (given i) c.network request := by
  have hlt := (List.getElem?_eq_some_iff.1 hi).1
  rw [h.length] at hlt
  exact ⟨_, List.getElem?_eq_getElem hlt, h.calls i stage _ hi (List.getElem?_eq_getElem hlt)⟩

theorem Sound.isOpen (h : c.Sound e name requested given) (hconn : conn ∈ c.connections) :
    c.network.Open conn := by
  rcases mem_connections_iff.1 hconn with hpool | ⟨i, stage, hi, hstage⟩
  · exact h.steady.isOpen hpool
  · obtain ⟨request, -, hholds⟩ := h.exists_holds hi
    exact hholds.isOpen hstage

theorem Sound.lt_next (h : c.Sound e name requested given) (hconn : conn ∈ c.connections) :
    conn < c.network.loopback.next :=
  h.steady.network.lt_next (h.isOpen hconn)

theorem Sound.not_mem_pool (h : c.Sound e name requested given) (huses : c.Uses i conn) :
    conn ∉ c.client.pool := by
  obtain ⟨stage, hi, hstage⟩ := huses
  exact fun hpool => (List.disjoint_of_nodup_append h.nodup) hpool
    (List.mem_filterMap.2 ⟨stage, List.mem_of_getElem? hi, hstage⟩)

theorem Sound.uses_unique (h : c.Sound e name requested given) (hi : c.Uses i conn)
    (hj : c.Uses j conn) : j = i := by
  obtain ⟨stage, hget, hstage⟩ := hi
  by_contra hne
  have hnodup := (connections_perm hget).nodup h.nodup
  refine List.disjoint_of_nodup_append hnodup ?_ (mem_otherConnections hj hne)
  rw [hstage]
  exact List.mem_append_right _ List.mem_cons_self

/-! ### One turn after the other -/

theorem connections_step_call (c : Callers Transit) (f : Frame) :
    (c.step Transit.network (.call f)).connections = c.connections := by
  simp [connections, Callers.step, Stage.conn?, List.filterMap_append]

theorem Sound.call (h : c.Sound e name requested given) (f : Frame) :
    (c.step Transit.network (.call f)).Sound e name (requested ++ [some f]) given := by
  have hconnections := c.connections_step_call f
  refine ⟨h.steady, hconnections ▸ h.nodup, fun conn => hconnections ▸ h.held conn, ?_, ?_⟩
  · simp [Callers.step, h.length]
  · intro i stage request hi hrequest
    obtain hlt | rfl : i < c.calls.length ∨ i = c.calls.length := by
      have hbound := (List.getElem?_eq_some_iff.1 hi).1
      simp only [Callers.step, List.length_append, List.length_singleton] at hbound
      omega
    · rw [Callers.step, List.getElem?_append_left hlt] at hi
      rw [List.getElem?_append_left (h.length ▸ hlt)] at hrequest
      exact h.calls i stage request hi hrequest
    · rw [Callers.step, List.getElem?_concat_length] at hi
      rw [h.length, List.getElem?_concat_length] at hrequest
      cases hi
      cases hrequest
      exact .start

theorem Sound.mono (h : c.Sound e name requested given)
    (hgiven : ∀ i reply, given i reply → given' i reply) : c.Sound e name requested given' :=
  { h with
    calls := fun i stage request hi hrequest =>
      (h.calls i stage request hi hrequest).congr (hgiven i) fun _ _ => rfl }

/-- The connections after a step of a call, from how the step hands its connections on. -/
theorem Sound.hands (h : c.Sound e name requested given) {w' : Transit}
    {old new rest : List ConnectionId} (hold : c.connections.Perm (old ++ rest))
    (hhands : Client.Hands c.network w' old new) :
    (new ++ rest).Nodup ∧ (∀ conn, w'.Open conn → conn ∈ new ++ rest) ∧
      ∀ conn ∈ new ++ rest, conn ∈ c.connections ∨ conn = c.network.loopback.next := by
  cases hhands with
  | keeps hperm hopen =>
      have hnew : (new ++ rest).Perm c.connections := (hperm.append_right rest).trans hold.symm
      refine ⟨hnew.symm.nodup h.nodup, fun conn hconn => ?_, fun conn hconn => .inl ?_⟩
      · exact hnew.mem_iff.2 (h.held conn (hopen conn hconn))
      · exact hnew.mem_iff.1 hconn
  | opens hperm hopen =>
      have hnew : (new ++ rest).Perm (c.network.loopback.next :: c.connections) :=
        (hperm.append_right rest).trans (hold.symm.cons _)
      -- The new connection was not held, for all that are held have smaller numbers.
      refine ⟨hnew.symm.nodup (h.nodup.cons ?_), fun conn hconn => ?_, fun conn hconn => ?_⟩
      · exact fun hmem => Nat.lt_irrefl _ (h.lt_next hmem)
      · rw [hnew.mem_iff, List.mem_cons]
        exact (hopen conn hconn).imp_right (h.held conn)
      · rw [hnew.mem_iff, List.mem_cons] at hconn
        exact hconn.symm
  | @closes closed hperm hopen =>
      have hnew : c.connections.Perm (closed :: (new ++ rest)) :=
        hold.trans (hperm.append_right rest)
      refine ⟨(hnew.nodup h.nodup).of_cons, fun conn hconn => ?_, fun conn hconn => .inl ?_⟩
      · obtain ⟨hne, hconn⟩ := hopen conn hconn
        exact (List.mem_cons.1 (hnew.mem_iff.1 (h.held conn hconn))).resolve_left hne
      · exact hnew.mem_iff.2 (List.mem_cons_of_mem _ hconn)

def advanced (c : Callers Transit) (i : Nat) (stage : Stage) : Callers Transit :=
  let (stage, client, network) := c.client.advance Transit.network c.network stage
  { client, network, calls := c.calls.set i stage }

theorem step_advance (hi : c.calls[i]? = some stage) :
    c.step Transit.network (.advance i) = c.advanced i stage := by
  simp only [Callers.step, hi]
  rfl

theorem step_advance_of_none (hi : c.calls[i]? = none) :
    c.step Transit.network (.advance i) = c := by
  simp only [Callers.step, hi]

theorem Sound.advanced_spec (h : c.Sound e name requested given) (hi : c.calls[i]? = some stage)
    {request : Option Frame} (hrequest : requested[i]? = some request) :
    Client.Advanced e name (given i) request c.client c.network stage
      (c.client.advance Transit.network c.network stage) :=
  h.steady.advance (fun _ hstage => h.not_mem_pool ⟨stage, hi, hstage⟩)
    (h.calls i stage request hi hrequest)

theorem Sound.advanced (h : c.Sound e name requested given) (hi : c.calls[i]? = some stage) :
    (c.advanced i stage).Sound e name requested given := by
  obtain ⟨request, hrequest, -⟩ := h.exists_holds hi
  have hspec := h.advanced_spec hi hrequest
  obtain ⟨hnodup, hheld, -⟩ := h.hands (connections_perm hi) hspec.hands
  have hperm := connections_set_perm hi
    (c.client.advance Transit.network c.network stage).2.1
    (c.client.advance Transit.network c.network stage).2.2
    (c.client.advance Transit.network c.network stage).1
  refine ⟨hspec.steady, hperm.symm.nodup hnodup,
    fun conn hconn => hperm.mem_iff.2 (hheld conn hconn), ?_,
    fun j stage' request' hj hrequest' => ?_⟩
  · exact List.length_set.trans h.length
  · change (c.calls.set i _)[j]? = some stage' at hj
    by_cases hne : j = i
    · subst j
      rw [List.getElem?_set_self (List.getElem?_eq_some_iff.1 hi).1] at hj
      cases hj
      cases hrequest.symm.trans hrequest'
      exact hspec.holds
    · rw [List.getElem?_set_ne (Ne.symm hne)] at hj
      refine (h.calls j stage' request' hj hrequest').congr (fun _ => id) fun conn hstage' => ?_
      have huses : c.Uses j conn := ⟨stage', hj, hstage'⟩
      exact hspec.others conn (fun hstage => hne (h.uses_unique ⟨stage, hi, hstage⟩ huses))
        (h.lt_next (mem_connections_iff.2 (.inr ⟨j, huses⟩)))

/-- A reply that comes from the endpoint in a turn, to the call that waits for it. -/
structure Replies (c : Callers Transit) (t : Turn) (i : Nat) (conn : ConnectionId)
    (f reply : Frame) : Prop where
  delivered : t = .network (.deliver conn)
  waiting : c.calls[i]? = some (.awaitingReply conn)
  sent : c.network.outbound conn = f.encode
  selected : c.network.loopback.endpoint.selected conn = c.client.name
  reply : (c.network.loopback.endpoint.receive conn f).1 = some reply

theorem Sound.network (h : c.Sound e name requested given) (hwords : e.PlainWords)
    (hrequested : ∀ f, some f ∈ requested → ∃ r, Client.frame? r = some f) (event : Transit.Event)
    (hgiven : ∀ i reply, given i reply → given' i reply)
    (hnew : ∀ i conn f reply, requested[i]? = some (some f) →
      c.Replies (.network event) i conn f reply → given' i reply) :
    (c.turn (.network event)).Sound e name requested given' := by
  refine ⟨⟨h.steady.named, h.steady.network.step event, fun conn hpool => ?_⟩, h.nodup,
    fun conn hopen => h.held conn ((c.network.open_step event conn).1 hopen), h.length,
    fun i stage request hi hrequest => ?_⟩
  · have hready := h.steady.ready conn hpool
    by_cases hevent : event = .deliver conn
    · rw [hevent, ← hready]
      exact Transit.line_deliver_of_nil (congrArg Transit.Line.outbound hready)
    · exact (Transit.line_step hevent (h.steady.isOpen hpool)).trans hready
  · refine (h.calls i stage request hi hrequest).step h.steady.network hwords ?_ (hgiven i) ?_
    · rintro f rfl
      exact hrequested f (List.mem_of_getElem? hrequest)
    · rintro conn f reply rfl rfl rfl hline hreply
      exact hnew i conn f reply hrequest ⟨rfl, hi, congrArg Transit.Line.outbound hline,
        (congrArg Transit.Line.selected hline).trans h.steady.named.symm, hreply⟩

theorem Sound.turn (h : c.Sound e name requested given) (hwords : e.PlainWords)
    (hrequested : ∀ f, some f ∈ requested → ∃ r, Client.frame? r = some f) (t : Turn)
    (hgiven : ∀ i reply, given i reply → given' i reply)
    (hnew : ∀ i conn f reply, requested[i]? = some (some f) →
      c.Replies t i conn f reply → given' i reply) :
    (c.turn t).Sound e name (requested ++ t.asked.toList.map some) given' := by
  cases t with
  | call r =>
      cases hr : Client.frame? r with
      | none =>
          simp only [Callers.turn, Turn.asked, hr]
          exact (List.append_nil requested).symm ▸ h.mono hgiven
      | some f =>
          simp only [Callers.turn, Turn.asked, hr]
          exact (h.call f).mono hgiven
  | advance i =>
      refine (List.append_nil requested).symm ▸ Sound.mono ?_ hgiven
      rw [Callers.turn]
      cases hi : c.calls[i]? with
      | none =>
          rw [step_advance_of_none hi]
          exact h
      | some stage =>
          rw [step_advance hi]
          exact h.advanced hi
  | network event =>
      exact (List.append_nil requested).symm ▸ h.network hwords hrequested event hgiven hnew

/-! ### Connections that are gone -/

/-- The exchange of call `i` on the connection fails, or the selection of the cache is refused. -/
inductive Fails (c : Callers Transit) (i : Nat) (conn : ConnectionId) : Prop
  | reply {fault : TransportFault} {w : Transit} (hi : c.calls[i]? = some (.awaitingReply conn))
    (hreceive : c.network.receive conn = (.error fault, w))
  | selection {request : Option Frame} {fault : TransportFault} {w : Transit}
    (hi : c.calls[i]? = some (.awaitingSelection request conn))
    (hreceive : c.network.receive conn = (.error fault, w))
  | refused {request : Option Frame} {reply : Frame} {err : CacheError} {w : Transit}
    (hi : c.calls[i]? = some (.awaitingSelection request conn))
    (hreceive : c.network.receive conn = (.ok reply, w)) (hreply : reply.expectDone = .error err)

theorem Fails.exists_stage (h : c.Fails i conn) : ∃ stage result w, c.calls[i]? = some stage ∧
    stage.conn? = some conn ∧ c.client.advance Transit.network c.network stage =
      (.finished (.error result), c.client, w) := by
  cases h with
  | @reply fault w hi hreceive =>
      refine ⟨_, .transport fault, w.close conn, hi, rfl, ?_⟩
      simp only [Client.advance, Transit.network, hreceive, Client.abandon]
  | @selection request fault w hi hreceive =>
      refine ⟨_, .transport fault, w.close conn, hi, rfl, ?_⟩
      simp only [Client.advance, Transit.network, hreceive, Client.abandon]
  | @refused request reply err w hi hreceive hreply =>
      refine ⟨_, err, w.close conn, hi, rfl, ?_⟩
      simp only [Client.advance, Transit.network, hreceive, hreply, Client.abandon]

theorem Fails.mem_connections (hf : c.Fails i conn) : conn ∈ c.connections := by
  obtain ⟨stage, -, -, hi, hstage, -⟩ := hf.exists_stage
  exact mem_connections_iff.2 (.inr ⟨i, stage, hi, hstage⟩)

theorem Sound.not_mem_of_fails (h : c.Sound e name requested given) (hf : c.Fails i conn) :
    conn ∉ (c.turn (.advance i)).connections := by
  obtain ⟨stage, result, w, hi, hstage, hadvance⟩ := hf.exists_stage
  have hafter : c.turn (.advance i) =
      { client := c.client, network := w, calls := c.calls.set i (.finished (.error result)) } := by
    rw [Callers.turn, step_advance hi, Callers.advanced, hadvance]
  have hpool : conn ∉ c.client.pool := h.not_mem_pool ⟨stage, hi, hstage⟩
  have hother : conn ∉ c.otherConnections i := by
    refine List.disjoint_of_nodup_append ((connections_perm hi).nodup h.nodup) ?_
    rw [hstage]
    exact List.mem_append_right _ List.mem_cons_self
  rw [hafter, (connections_set_perm hi _ _ _).mem_iff, List.mem_append, List.mem_append]
  exact not_or.2 ⟨not_or.2 ⟨hpool, List.not_mem_nil⟩, hother⟩

theorem Sound.next_le_turn (h : c.Sound e name requested given) (t : Turn) :
    c.network.loopback.next ≤ (c.turn t).network.loopback.next := by
  cases t with
  | call r =>
      rw [Callers.turn]
      split <;> exact Nat.le_refl _
  | advance i =>
      rw [Callers.turn]
      cases hi : c.calls[i]? with
      | none => rw [step_advance_of_none hi]
      | some stage =>
          obtain ⟨request, hrequest, -⟩ := h.exists_holds hi
          rw [step_advance hi]
          exact (h.advanced_spec hi hrequest).next_le
  | network event => exact (c.network.next_step event).ge

/-- Only a new connection comes to those that are held. -/
theorem Sound.mem_of_mem_turn (h : c.Sound e name requested given) (t : Turn)
    (hconn : conn ∈ (c.turn t).connections) :
    conn ∈ c.connections ∨ conn = c.network.loopback.next := by
  cases t with
  | call r =>
      rw [Callers.turn] at hconn
      split at hconn
      · exact .inl (c.connections_step_call _ ▸ hconn)
      · exact .inl hconn
  | advance i =>
      rw [Callers.turn] at hconn
      cases hi : c.calls[i]? with
      | none =>
          rw [step_advance_of_none hi] at hconn
          exact .inl hconn
      | some stage =>
          obtain ⟨request, hrequest, -⟩ := h.exists_holds hi
          have hspec := h.advanced_spec hi hrequest
          obtain ⟨-, -, hfrom⟩ := h.hands (connections_perm hi) hspec.hands
          rw [step_advance hi] at hconn
          exact hfrom conn ((connections_set_perm hi _ _ _).mem_iff.1 hconn)
  | network event => exact .inl hconn

/-! ## Runs -/

/-- While call number `i` waited on a connection, the endpoint got the request on it and replied. -/
def Answered (c : Callers Transit) (turns : List Turn) (i : Nat) (f reply : Frame) : Prop :=
  ∃ k t conn, turns[k]? = some t ∧ (c.before turns k).Replies t i conn f reply

theorem before_concat (c : Callers Transit) (turns : List Turn) (t : Turn) {k : Nat}
    (hk : k ≤ turns.length) : c.before (turns ++ [t]) k = c.before turns k := by
  rw [before, List.take_append_of_le_length hk, before]

theorem Answered.concat {turns : List Turn} {f reply : Frame} (h : c.Answered turns i f reply)
    (t : Turn) : c.Answered (turns ++ [t]) i f reply := by
  obtain ⟨k, t', conn, hk, hreplies⟩ := h
  have hlt := (List.getElem?_eq_some_iff.1 hk).1
  refine ⟨k, t', conn, by rw [List.getElem?_append_left hlt, hk], ?_⟩
  rwa [before_concat c turns t hlt.le]

theorem Replies.answered {turns : List Turn} {t : Turn} {f reply : Frame}
    (h : (c.play turns).Replies t i conn f reply) : c.Answered (turns ++ [t]) i f reply := by
  refine ⟨turns.length, t, conn, List.getElem?_concat_length, ?_⟩
  rwa [before_concat c turns t (Nat.le_refl _), before, List.take_length]

def Got (c : Callers Transit) (turns : List Turn) (i : Nat) (reply : Frame) : Prop :=
  ∃ f, (requests turns)[i]? = some (some f) ∧ c.Answered turns i f reply

theorem getElem?_requests_concat {turns : List Turn} {request : Option Frame}
    (h : (requests turns)[i]? = some request) (t : Turn) :
    (requests (turns ++ [t]))[i]? = some request := by
  rw [requests_concat, List.getElem?_append_left (List.getElem?_eq_some_iff.1 h).1, h]

theorem exists_frame?_of_mem_requests {turns : List Turn} {f : Frame}
    (hf : some f ∈ requests turns) : ∃ r, Client.frame? r = some f := by
  rw [requests, List.mem_cons, or_iff_right (Option.some_ne_none f), List.mem_map] at hf
  obtain ⟨f', hf', hsame⟩ := hf
  obtain ⟨t, -, ht⟩ := List.mem_filterMap.1 hf'
  cases hsame
  cases t with
  | call r => exact ⟨r, ht⟩
  | advance i | network event => cases ht

theorem sound_opening (he : e.Settled) (servers : List SocketAddress) :
    (opening e name servers).Sound e name [none] given where
  steady := ⟨rfl, Transit.sound_start he, nofun⟩
  nodup := .nil
  held conn h := absurd h ((Transit.sound_start he).unused conn (Nat.zero_le conn)).2
  length := rfl
  calls i stage request hi hrequest := by
    obtain rfl : i = 0 := Nat.lt_one_iff.1 (List.getElem?_eq_some_iff.1 hi).1
    cases hi
    cases hrequest
    exact .start

theorem sound_play (he : e.Settled) (hwords : e.PlainWords) (name : String)
    (servers : List SocketAddress) (turns : List Turn) :
    ((opening e name servers).play turns).Sound e name (requests turns)
      ((opening e name servers).Got turns) := by
  -- From the end, so that what the calls got before the last turn they have got after it.
  induction turns using List.reverseRecOn with
  | nil => exact sound_opening he servers
  | append_singleton turns t ih =>
      rw [play_concat, requests_concat]
      refine ih.turn hwords (fun f => exists_frame?_of_mem_requests) t ?_ ?_
      · rintro i reply ⟨f, hf, hanswered⟩
        exact ⟨f, getElem?_requests_concat hf t, hanswered.concat t⟩
      · intro i conn f reply hf hreplies
        exact ⟨f, getElem?_requests_concat hf t, hreplies.answered⟩

theorem before_succ {turns : List Turn} {k : Nat} {t : Turn} (h : turns[k]? = some t) :
    c.before turns (k + 1) = (c.before turns k).turn t := by
  have htake : turns.take (k + 1) = turns.take k ++ [t] := by
    rw [List.take_add_one, h]
    rfl
  rw [before, htake, play_concat, before]

theorem before_succ_of_none {turns : List Turn} {k : Nat} (h : turns[k]? = none) :
    c.before turns (k + 1) = c.before turns k := by
  rw [before, List.take_add_one, h, before]
  simp

/-- The pool of a client and its calls after some turns. -/
structure Pooling (c : Callers Transit) (turns : List Turn) : Prop where
  /-- An open connection is in the pool, or exactly one call uses it. -/
  holder : ∀ conn, (c.play turns).network.Open conn →
    ((c.play turns).client.pool.count conn = 1 ∧ ∀ i, ¬ (c.play turns).Uses i conn) ∨
      (conn ∉ (c.play turns).client.pool ∧ ∃! i, (c.play turns).Uses i conn)
  /-- On a pooled connection nothing is under way or unread, and the cache is selected. -/
  pooled : ∀ conn ∈ (c.play turns).client.pool, (c.play turns).network.Open conn ∧
    (c.play turns).network.line conn = ⟨[], some [], c.client.name⟩
  /-- What a call returns is the reply to its request, unless it ends in a fault of the transport, a
  time-out among them, or the cache does not exist. -/
  replies : ∀ i f result, (requests turns)[i]? = some (some f) →
    (c.play turns).calls[i]? = some (.finished result) →
      (∃ fault, result = .error (.transport fault)) ∨
      (c.client.name ∉ c.network.loopback.endpoint.caches ∧
        ∃ text, result = .error (.remote text)) ∨
      ∃ reply, c.Answered turns i f reply ∧ result = reply.outcome
  /-- A connection that failed, or on which the cache was refused, is never used again. -/
  retired : ∀ k i conn, turns[k]? = some (.advance i) → (c.before turns k).Fails i conn →
    ∀ n, k < n → conn ∉ (c.before turns n).connections

theorem Sound.holder (h : c.Sound e name requested given) (hopen : c.network.Open conn) :
    (c.client.pool.count conn = 1 ∧ ∀ i, ¬ c.Uses i conn) ∨
      (conn ∉ c.client.pool ∧ ∃! i, c.Uses i conn) := by
  rcases mem_connections_iff.1 (h.held conn hopen) with hpool | ⟨i, hi⟩
  · refine .inl ⟨?_, fun i hi => h.not_mem_pool hi hpool⟩
    exact List.count_eq_one_of_mem (List.nodup_append.1 h.nodup).1 hpool
  · exact .inr ⟨h.not_mem_pool hi, i, hi, fun j hj => h.uses_unique hi hj⟩

/-- A connection that failed is out of use from then on. -/
theorem retired_play (he : e.Settled) (hwords : e.PlainWords) (servers : List SocketAddress)
    (turns : List Turn) {k : Nat} (hk : turns[k]? = some (.advance i))
    (hfails : ((opening e name servers).before turns k).Fails i conn) {n : Nat} (hn : k < n) :
    conn < ((opening e name servers).before turns n).network.loopback.next ∧
      conn ∉ ((opening e name servers).before turns n).connections := by
  have hsound (m : Nat) := sound_play he hwords name servers (turns.take m)
  induction n, hn using Nat.le_induction with
  | base =>
      rw [before_succ hk]
      have hlt := (hsound k).lt_next hfails.mem_connections
      have hgone := (hsound k).not_mem_of_fails hfails
      exact ⟨Nat.lt_of_lt_of_le hlt ((hsound k).next_le_turn _), hgone⟩
  | succ n hn ih =>
      obtain ⟨hlt, hgone⟩ := ih
      cases ht : turns[n]? with
      | none =>
          rw [before_succ_of_none ht]
          exact ⟨hlt, hgone⟩
      | some t =>
          rw [before_succ ht]
          refine ⟨Nat.lt_of_lt_of_le hlt ((hsound n).next_le_turn t), fun hmem => ?_⟩
          exact ((hsound n).mem_of_mem_turn t hmem).elim hgone hlt.ne

/-- Whatever is asked of a client and whatever happens to its connections, no call gets the reply to
another one. -/
theorem pooling_play {caches : Std.TreeMap String Cache} {words : Bytes → String}
    (hwords : ({ caches, words } : Endpoint).PlainWords) (name : String)
    (servers : List SocketAddress) (turns : List Turn) :
    (opening { caches, words } name servers).Pooling turns := by
  have he : ({ caches, words } : Endpoint).Settled := Endpoint.settled_fresh rfl
  have hsound := sound_play he hwords name servers turns
  refine ⟨fun conn => hsound.holder, fun conn hconn => ?pooled, ?replies,
    fun k i conn hk hfails n hn => (retired_play he hwords servers turns hk hfails hn).2⟩
  case pooled => exact ⟨hsound.steady.isOpen hconn, hsound.steady.ready conn hconn⟩
  case replies =>
    intro i f result hf hi
    cases hsound.calls i _ _ hi hf with
    | finished hends =>
        cases hends with
        | lost _ fault => exact .inl ⟨fault, rfl⟩
        | refused _ hserved text => exact .inr (.inl ⟨hserved, text, rfl⟩)
        | @replied _ reply hgot =>
            obtain ⟨f', hf', hanswered⟩ := hgot
            cases hf.symm.trans hf'
            exact .inr (.inr ⟨reply, hanswered, rfl⟩)

/-- A client stores a record whose salary is no number, which the endpoint cannot read. The next call
has the same connection, until it breaks. -/
theorem pooling_play_refused_put :
    let caches := (Endpoint.ofSettings [{ name := "cache" }]).caches
    let words : Bytes → String := fun _ => "invalid type: null, expected f64 at line 1 column 81"
    ({ caches, words } : Endpoint).PlainWords ∧
      (opening { caches, words } "cache" [⟨.v4 ⟨127, 0, 0, 1⟩, 11222, 0⟩]).Pooling
        [.advance 0, .advance 0, .advance 0, .network (.deliver 0), .advance 0,
          .call (.put 1 (.record { Record.forIndex 1 with salary := .nan })), .advance 1,
          .advance 1, .network (.deliver 0), .advance 1, .call .size, .advance 2, .advance 2,
          .network (.cut 0), .advance 2] := by
  intro caches words
  have hplain : '\r' ∉ "invalid type: null, expected f64 at line 1 column 81".toList := by decide
  have hwords : ({ caches, words } : Endpoint).PlainWords :=
    fun _ _ => Frame.not_lineBreak_infix_utf8 hplain
  exact ⟨hwords, pooling_play hwords _ _ _⟩

end Callers

end CacheBench
