import CacheBench.Proofs.AppliedBatch
import CacheBench.Proofs.CommandGrammar
import CacheBench.Proofs.EndpointStep

/-!
# Sessions on an endpoint

Any number of connections send frames to one endpoint, in any interleaving. What a connection has
selected is told by its own frames and replies (`Endpoint.uses`), a frame answered by an error has
no effect, and only the two kinds of frame that `Command.Writes` describes change a cache: the
selected one, by all pairs of the frame under one version. `Endpoint.Sessions` collects this.
-/

namespace CacheBench

open Std (TreeMap)

/-! ## What is written -/

theorem Batch.isEmpty_ofList {pairs : List (Key × Value)} (hne : pairs ≠ []) :
    ¬ (ofList pairs).isEmpty := by
  rw [← List.dropLast_concat_getLast hne, ofList_concat, TreeMap.isEmpty_insert]
  exact Bool.false_ne_true

/-- The cache has got all of the pairs as one batch, the last value of each key, and is else as it
was. -/
structure Cache.Wrote (c : Cache) (pairs : List (Key × Value)) (c' : Cache) : Prop where
  latest : ∀ k, c'.store.entries.latest[k]? =
    match Batch.last? pairs k with
    | some v => some ⟨c.store.nextVersion, v⟩
    | none => c.store.entries.latest[k]?
  settings : c'.store.settings = c.store.settings
  locks : c'.store.locks = c.store.locks
  live : c'.live = c.live

theorem Cache.wrote_apply (c : Cache) (pairs : List (Key × Value)) :
    c.Wrote pairs { c with store := c.store.apply (Batch.ofList pairs) } where
  latest k := by
    rw [← Batch.getElem?_ofList]
    exact Entries.latest_putAll ..
  settings := rfl
  locks := rfl
  live := rfl

theorem Cache.wrote_putAll (c : Cache) {pairs : List (Key × Value)} (hne : pairs ≠ []) :
    c.Wrote pairs (c.step (.putAll (Batch.ofList pairs))).2 := by
  have hstep : (c.step (.putAll (Batch.ofList pairs))).2 =
      { c with store := c.store.apply (Batch.ofList pairs) } := by
    simp only [Cache.step, Store.putAll, if_neg (Batch.isEmpty_ofList hne)]
  rw [hstep]
  exact c.wrote_apply pairs

namespace Command

inductive Writes : Frame → List (Key × Value) → Prop
  | set {head k v : Frame} {text : String} {key : Key} {value : Value}
    (hhead : head.text? = some text) (hset : text.map Char.toUpper = "SET")
    (hk : k.key = .ok key) (hv : v.value = .ok value) :
    Writes (.array [head, k, v]) [(key, value)]
  | mset {head : Frame} {args : List Frame} {text : String} {pairs : List (Key × Value)}
    (hhead : head.text? = some text) (hmset : text.map Char.toUpper = "MSET")
    (h : Pairs args pairs) (hne : pairs ≠ []) : Writes (.array (head :: args)) pairs

variable {f : Frame} {pairs : List (Key × Value)} {cmd : Command} {r : Request}

theorem Writes.exists_request (h : Writes f pairs) : ∃ cmd r, ofFrame f = .ok (some cmd) ∧
    cmd.request? = some r ∧ ∀ c : Cache, c.Wrote pairs (c.step r).2 := by
  cases h with
  | @set head k v text key value hhead hset hk hv =>
      refine ⟨.set key value, .put key value, ?_, rfl, fun c => c.wrote_apply [(key, value)]⟩
      exact ofFrame_eq_ok_some_iff.2 ⟨_, _, _, rfl, hhead, hset ▸ .set hk hv⟩
  | @mset head args text pairs hhead hmset h hne =>
      refine ⟨.mset (Batch.ofList pairs), .putAll (Batch.ofList pairs), ?_, rfl,
        fun c => c.wrote_putAll hne⟩
      exact ofFrame_eq_ok_some_iff.2 ⟨_, _, _, rfl, hhead, hmset ▸ .mset h hne⟩

/-- A command for a cache that is no write leaves the cache as it is. -/
theorem writes_or_reads (hf : ofFrame f = .ok (some cmd)) (hr : cmd.request? = some r) :
    (∃ pairs, Writes f pairs) ∨ ∀ c : Cache, (c.step r).2 = c := by
  obtain ⟨head, args, text, rfl, hhead, hspells⟩ := ofFrame_eq_ok_some_iff.1 hf
  generalize hname : text.map Char.toUpper = name at hspells
  cases hspells with
  | ping | use _ => cases hr
  | get _ | query _ _ _ | size =>
      cases hr
      exact .inr fun c => rfl
  | set hk hv => exact .inl ⟨_, .set hhead hname hk hv⟩
  | mset h hne => exact .inl ⟨_, .mset hhead hname h hne⟩

end Command

/-! ## Runs -/

def Frame.isError : Frame → Bool
  | .error _ => true
  | _ => false

theorem Request.isError_replyOf (r : Request) (a : r.Answer) : (r.replyOf a).isError = false := by
  cases r with
  | get k => cases a <;> rfl
  | put _ _ | putAll _ | query _ | size | begin | txGet _ _ | txPut _ _ _ | commit _ | rollback _
  | drop _ => rfl

namespace Endpoint

theorem run_concat (e : Endpoint) (frames : List (ConnectionId × Frame)) (conn : ConnectionId)
    (f : Frame) :
    e.run (frames ++ [(conn, f)]) =
      ((e.run frames).1 ++ [((e.run frames).2.receive conn f).1],
        ((e.run frames).2.receive conn f).2) := by
  induction frames generalizing e with
  | nil => rfl
  | cons p frames ih => simp only [List.cons_append, run, ih]

variable (e : Endpoint) (frames : List (ConnectionId × Frame))

def before (i : Nat) : Endpoint := (e.run (frames.take i)).2

/-- Frame number `i` of a run is `f` on `conn`, and `reply` is what comes back. -/
def Replies (i : Nat) (conn : ConnectionId) (f : Frame) (reply : Option Frame) : Prop :=
  frames[i]? = some (conn, f) ∧ (e.run frames).1[i]? = some reply

variable {e frames} {conn : ConnectionId} {f : Frame} {reply : Option Frame} {e' : Endpoint}

theorem before_succ {i : Nat} (h : frames[i]? = some (conn, f)) :
    e.before frames (i + 1) = ((e.before frames i).receive conn f).2 := by
  have htake : frames.take (i + 1) = frames.take i ++ [(conn, f)] := by
    rw [List.take_add_one, h]
    rfl
  rw [before, htake, run_concat, before]

theorem length_run (e : Endpoint) (frames : List (ConnectionId × Frame)) :
    (e.run frames).1.length = frames.length := by
  induction frames generalizing e with
  | nil => rfl
  | cons p frames ih => simp only [run, List.length_cons, ih]

theorem getElem?_run (e : Endpoint) (frames : List (ConnectionId × Frame)) (i : Nat) :
    (e.run frames).1[i]? = frames[i]?.map fun p => ((e.before frames i).receive p.1 p.2).1 := by
  induction frames generalizing e i with
  | nil => rfl
  | cons p frames ih =>
      cases i with
      | zero => rfl
      | succ i => exact ih _ i

/-- Whatever is known of one frame is known of every frame of a run. -/
theorem Replies.effect {i : Nat} (h : e.Replies frames i conn f reply) :
    (e.before frames i).Effect conn f reply (e.before frames (i + 1)) := by
  obtain ⟨hf, hreply⟩ := h
  rw [getElem?_run, hf] at hreply
  rw [before_succ hf, ← Option.some.inj hreply]
  exact effect_receive ..

/-! ## Selections -/

/-- The name in an exchange on the connection, if that is a selection that went well. -/
def useOf (conn : ConnectionId) : (ConnectionId × Frame) × Option Frame → Option String
  | ((sender, f), some reply) =>
    if sender = conn ∧ ¬ reply.isError then
      match Command.ofFrame f with
      | .ok (some (.use name)) => some name
      | _ => none
    else none
  | (_, none) => none

def uses (e : Endpoint) (frames : List (ConnectionId × Frame)) (conn : ConnectionId) :
    List String :=
  (frames.zip (e.run frames).1).filterMap (useOf conn)

theorem uses_concat (e : Endpoint) (frames : List (ConnectionId × Frame)) (conn : ConnectionId)
    (p : ConnectionId × Frame) :
    e.uses (frames ++ [p]) conn =
      e.uses frames conn ++ (useOf conn (p, ((e.run frames).2.receive p.1 p.2).1)).toList := by
  rw [uses, run_concat, List.zip_append (length_run e frames).symm, List.filterMap_append, uses]
  refine congrArg _ ?_
  cases h : useOf conn (p, ((e.run frames).2.receive p.1 p.2).1) with
  | none => simp [h]
  | some name => simp [h]

theorem Effect.selected (h : e.Effect conn f reply e') (other : ConnectionId) :
    e'.selected other = (useOf other ((conn, f), reply)).getD (e.selected other) := by
  cases h with
  | silence hf => rfl
  | refusal h =>
      rw [selected_select_selected]
      simp [useOf, Frame.refusal, Frame.isError]
  | pong hf =>
      rw [selected_select_selected]
      simp [useOf, hf]
  | selection hf hn =>
      rw [selected_select]
      by_cases ho : conn = other
      · simp [useOf, hf, ho, Frame.done, Frame.isError]
      · simp [useOf, ho]
  | @answer cmd r c a hf hr hc ha =>
      rw [selected_write]
      cases cmd with
      | ping | use _ => cases hr
      | get _ | set _ _ | mset _ | query _ | size => simp [useOf, hf]

/-- A connection has selected the name of its last selection that went well, if any. -/
theorem selected_run (e : Endpoint) (frames : List (ConnectionId × Frame)) (conn : ConnectionId) :
    (e.run frames).2.selected conn = (e.uses frames conn).getLast?.getD (e.selected conn) := by
  induction frames using List.reverseRecOn with
  | nil => rfl
  | append_singleton frames p ih =>
      rw [run_concat, uses_concat]
      have hstep := ((e.run frames).2.effect_receive p.1 p.2).selected conn
      rw [hstep, ih]
      cases useOf conn (p, ((e.run frames).2.receive p.1 p.2).1) with
      | none => simp
      | some name => simp

/-! ## Isolation -/

/-- Connections do not disturb each other, and errors leave everything as it was. -/
structure Sessions (e : Endpoint) (frames : List (ConnectionId × Frame)) : Prop where
  /-- There is one reply to each frame, in the order of the frames, and none to an empty array. -/
  replies : List.Forall₂ (fun p reply => reply = none ↔ p.2 = .array []) frames (e.run frames).1
  selected : ∀ i conn,
    (e.before frames i).selected conn = (e.uses (frames.take i) conn).getLast?.getD plainCache
  refused : ∀ i conn f reply, e.Replies frames i conn f (some reply) → reply.isError →
    (∀ name : String,
      (e.before frames (i + 1)).caches[name]? = (e.before frames i).caches[name]?) ∧
      ∀ other, (e.before frames (i + 1)).selected other = (e.before frames i).selected other
  /-- Only a write changes a cache, and only the one that its sender has selected. -/
  kept : ∀ i conn f reply (name : String), e.Replies frames i conn f reply →
    (∀ pairs, ¬ Command.Writes f pairs) ∨ name ≠ (e.before frames i).selected conn →
      (e.before frames (i + 1)).caches[name]? = (e.before frames i).caches[name]?
  written : ∀ i conn f reply pairs, e.Replies frames i conn f (some reply) → ¬ reply.isError →
    Command.Writes f pairs → ∃ c c',
      (e.before frames i).caches[(e.before frames i).selected conn]? = some c ∧
      (e.before frames (i + 1)).caches[(e.before frames i).selected conn]? = some c' ∧
      c.Wrote pairs c'

theorem Effect.reply_eq_none_iff (h : e.Effect conn f reply e') :
    reply = none ↔ f = .array [] := by
  rw [← Command.ofFrame_eq_ok_none_iff]
  cases h with
  | silence hf => exact iff_of_true rfl hf
  | refusal h =>
      refine iff_of_false nofun fun hnone => ?_
      cases h with
      | unread hf | use hf | unserved hf => cases hf.symm.trans hnone
  | pong hf | selection hf | answer hf =>
      exact iff_of_false nofun fun hnone => by cases hf.symm.trans hnone

theorem replies_run (e : Endpoint) (frames : List (ConnectionId × Frame)) :
    List.Forall₂ (fun p reply => reply = none ↔ p.2 = .array []) frames (e.run frames).1 := by
  induction frames generalizing e with
  | nil => exact .nil
  | cons p frames ih => exact .cons (e.effect_receive p.1 p.2).reply_eq_none_iff (ih _)

theorem Effect.of_isError {reply : Frame} (h : e.Effect conn f (some reply) e')
    (hreply : reply.isError) :
    (∀ name : String, e'.caches[name]? = e.caches[name]?) ∧
      ∀ other, e'.selected other = e.selected other := by
  cases h with
  | refusal h => exact ⟨fun _ => rfl, e.selected_select_selected conn⟩
  | pong | selection => cases hreply
  | answer =>
      rw [Request.isError_replyOf] at hreply
      cases hreply

theorem Effect.caches_eq (h : e.Effect conn f reply e') {name : String}
    (hname : (∀ pairs, ¬ Command.Writes f pairs) ∨ name ≠ e.selected conn) :
    e'.caches[name]? = e.caches[name]? := by
  cases h with
  | silence | refusal | pong | selection => rfl
  | answer hf hr hc ha =>
      rw [caches_write]
      split
      · rename_i heq
        have hreads := (Command.writes_or_reads hf hr).resolve_left fun ⟨pairs, hw⟩ =>
          hname.elim (fun h => h pairs hw) fun h => h heq.symm
        rw [hreads, ← heq, hc]
      · rfl

theorem Effect.wrote {reply : Frame} (h : e.Effect conn f (some reply) e')
    (hreply : ¬ reply.isError) {pairs : List (Key × Value)} (hw : Command.Writes f pairs) :
    ∃ c c', e.caches[e.selected conn]? = some c ∧ e'.caches[e.selected conn]? = some c' ∧
      c.Wrote pairs c' := by
  obtain ⟨cmd, r, hf, hr, hwrote⟩ := hw.exists_request
  cases h with
  | refusal => exact absurd rfl hreply
  | pong hf' | selection hf' =>
      cases hf.symm.trans hf'
      cases hr
  | answer hf' hr' hc ha =>
      cases hf.symm.trans hf'
      cases hr.symm.trans hr'
      exact ⟨_, _, hc, by rw [caches_write, if_pos rfl], hwrote _⟩

theorem sessions_run (caches : TreeMap String Cache) (words : Bytes → String)
    (frames : List (ConnectionId × Frame)) : ({ caches, words } : Endpoint).Sessions frames where
  replies := replies_run ..
  selected _ _ := selected_run ..
  refused _ _ _ _ h hreply := h.effect.of_isError hreply
  kept _ _ _ _ _ h hname := h.effect.caches_eq hname
  written _ _ _ _ _ h hreply hw := h.effect.wrote hreply hw

end Endpoint

end CacheBench
