import CacheBench.Wire.Endpoint
import Mathlib.Tactic.Common

/-!
# What one frame does to an endpoint

`Endpoint.Effect` lists everything that a frame on a connection can lead to: nothing, an error, a
pong, a selection, or a request to the selected cache. Whatever is proved about replies, selections
and caches starts from the cases of `Endpoint.effect_receive`. In each of them the set of served
names stays the same, so a selection that has a cache keeps one.
-/

namespace CacheBench

open Std (TreeMap)

/-! ## Commands for a cache -/

namespace Command

def request? : Command → Option Request
  | .get k => some (.get k)
  | .set k v => some (.put k v)
  | .mset b => some (.putAll b)
  | .query p => some (.query p)
  | .size => some .size
  | .ping | .use _ => none

end Command

namespace Request

def replyOf : (r : Request) → r.Answer → Frame
  | .get _, v => (v.map fun v => Frame.ofText v.toJson).getD .null
  | .query _, rs => .array (rs.map fun r => Frame.ofText r.toJson)
  | .size, n => .integer (.ofNat n)
  | .put _ _, _ | .putAll _, _ | .begin, _ | .txGet _ _, _ | .txPut _ _ _, _ | .commit _, _
  | .rollback _, _ | .drop _, _ => .done

end Request

namespace Command

variable {cmd : Command} {r : Request}

theorem apply_eq (h : cmd.request? = some r) (c : Cache) :
    cmd.apply c = ((c.step r).1.map r.replyOf, (c.step r).2) := by
  cases cmd with
  | ping | use _ => cases h
  | get _ | set _ _ | mset _ | query _ | size =>
      cases h
      rfl

/-- No command makes a cache fail. -/
theorem exists_step_eq_ok (h : cmd.request? = some r) (c : Cache) : ∃ a, (c.step r).1 = .ok a := by
  cases cmd with
  | ping | use _ => cases h
  | get _ | set _ _ | mset _ | query _ | size =>
      cases h
      exact ⟨_, rfl⟩

end Command

/-! ## Frames -/

namespace Endpoint

variable {e : Endpoint} {conn : ConnectionId} {f : Frame}

def select (e : Endpoint) (conn : ConnectionId) (name : String) : Endpoint :=
  { e with selections := e.selections.insert conn name }

def write (e : Endpoint) (conn : ConnectionId) (c : Cache) : Endpoint :=
  { e.select conn (e.selected conn) with caches := e.caches.insert (e.selected conn) c }

/-- Why a frame is answered by an error, with the text of the error. -/
inductive Refuses (e : Endpoint) (conn : ConnectionId) (f : Frame) : String → Prop
  | unread {err : CommandError} (hf : Command.ofFrame f = .error err) :
    e.Refuses conn f (err.text e.words)
  | use {name : String} (hf : Command.ofFrame f = .ok (some (.use name)))
    (hn : e.caches[name]? = none) : e.Refuses conn f (CacheError.unknownCache name).message
  | unserved {cmd : Command} {r : Request} (hf : Command.ofFrame f = .ok (some cmd))
    (hr : cmd.request? = some r) (hc : e.caches[e.selected conn]? = none) :
    e.Refuses conn f (CacheError.unknownCache (e.selected conn)).message

/-- What a frame leads to: the reply and the endpoint afterwards. -/
inductive Effect (e : Endpoint) (conn : ConnectionId) (f : Frame) :
    Option Frame → Endpoint → Prop
  | silence (hf : Command.ofFrame f = .ok none) : e.Effect conn f none e
  | refusal {text : String} (h : e.Refuses conn f text) :
    e.Effect conn f (some (.refusal text)) (e.select conn (e.selected conn))
  | pong (hf : Command.ofFrame f = .ok (some .ping)) :
    e.Effect conn f (some (.simple (utf8 "PONG"))) (e.select conn (e.selected conn))
  | selection {name : String} (hf : Command.ofFrame f = .ok (some (.use name)))
    (hn : name ∈ e.caches) : e.Effect conn f (some .done) (e.select conn name)
  | answer {cmd : Command} {r : Request} {c : Cache} {a : r.Answer}
    (hf : Command.ofFrame f = .ok (some cmd)) (hr : cmd.request? = some r)
    (hc : e.caches[e.selected conn]? = some c) (ha : (c.step r).1 = .ok a) :
    e.Effect conn f (some (r.replyOf a)) (e.write conn (c.step r).2)

/-! ### One case after the other -/

theorem receive_empty (hf : Command.ofFrame f = .ok none) : e.receive conn f = (none, e) := by
  simp only [receive, serveFrame, hf]

theorem receive_unread {err : CommandError} (hf : Command.ofFrame f = .error err) :
    e.receive conn f =
      (some (.refusal (err.text e.words)), e.select conn (e.selected conn)) := by
  simp only [receive, serveFrame, hf]
  rfl

theorem receive_ping (hf : Command.ofFrame f = .ok (some .ping)) :
    e.receive conn f = (some (.simple (utf8 "PONG")), e.select conn (e.selected conn)) := by
  simp only [receive, serveFrame, hf]
  rfl

theorem receive_use {name : String} (hf : Command.ofFrame f = .ok (some (.use name)))
    (hn : name ∈ e.caches) : e.receive conn f = (some .done, e.select conn name) := by
  have hserved : (e.caches[name]?).isSome := TreeMap.mem_iff_isSome_getElem?.1 hn
  simp only [receive, serveFrame, hf, serve, if_pos hserved]
  rfl

theorem receive_use_of_none {name : String} (hf : Command.ofFrame f = .ok (some (.use name)))
    (hn : e.caches[name]? = none) :
    e.receive conn f = (some (.refusal (CacheError.unknownCache name).message),
      e.select conn (e.selected conn)) := by
  have hserved : ¬ (e.caches[name]?).isSome := by simp [hn]
  simp only [receive, serveFrame, hf, serve, if_neg hserved]
  rfl

section Requests

variable {cmd : Command} {r : Request}

theorem receive_apply {c c' : Cache} {reply : Frame} (hf : Command.ofFrame f = .ok (some cmd))
    (hr : cmd.request? = some r) (hc : e.caches[e.selected conn]? = some c)
    (happly : cmd.apply c = (.ok reply, c')) :
    e.receive conn f = (some reply, e.write conn c') := by
  cases cmd with
  | ping | use _ => cases hr
  | get _ | set _ _ | mset _ | query _ | size =>
      simp only [receive, serveFrame, hf, serve, hc, happly]
      rfl

theorem receive_request_of_none (hf : Command.ofFrame f = .ok (some cmd))
    (hr : cmd.request? = some r) (hc : e.caches[e.selected conn]? = none) :
    e.receive conn f = (some (.refusal (CacheError.unknownCache (e.selected conn)).message),
      e.select conn (e.selected conn)) := by
  cases cmd with
  | ping | use _ => cases hr
  | get _ | set _ _ | mset _ | query _ | size =>
      simp only [receive, serveFrame, hf, serve, hc]
      rfl

end Requests

theorem effect_receive (e : Endpoint) (conn : ConnectionId) (f : Frame) :
    e.Effect conn f (e.receive conn f).1 (e.receive conn f).2 := by
  have hrequest {cmd : Command} {r : Request} (hf : Command.ofFrame f = .ok (some cmd))
      (hr : cmd.request? = some r) :
      e.Effect conn f (e.receive conn f).1 (e.receive conn f).2 := by
    cases hc : e.caches[e.selected conn]? with
    | none =>
        rw [receive_request_of_none hf hr hc]
        exact .refusal (.unserved hf hr hc)
    | some c =>
        obtain ⟨a, ha⟩ := Command.exists_step_eq_ok hr c
        have happly : cmd.apply c = (.ok (r.replyOf a), (c.step r).2) := by
          rw [Command.apply_eq hr, ha]
          rfl
        rw [receive_apply hf hr hc happly]
        exact .answer hf hr hc ha
  cases hf : Command.ofFrame f with
  | error err =>
      rw [receive_unread hf]
      exact .refusal (.unread hf)
  | ok cmd? =>
      cases cmd? with
      | none =>
          rw [receive_empty hf]
          exact .silence hf
      | some cmd =>
          cases cmd with
          | ping =>
              rw [receive_ping hf]
              exact .pong hf
          | use name =>
              cases hn : e.caches[name]? with
              | none =>
                  rw [receive_use_of_none hf hn]
                  exact .refusal (.use hf hn)
              | some c =>
                  have hmem : name ∈ e.caches :=
                    TreeMap.mem_iff_isSome_getElem?.2 (by rw [hn]; rfl)
                  rw [receive_use hf hmem]
                  exact .selection hf hmem
          | get _ | set _ _ | mset _ | query _ | size => exact hrequest hf rfl

/-! ### What an endpoint looks like afterwards -/

@[simp] theorem caches_select (e : Endpoint) (conn : ConnectionId) (name : String) :
    (e.select conn name).caches = e.caches := rfl

@[simp] theorem words_select (e : Endpoint) (conn : ConnectionId) (name : String) :
    (e.select conn name).words = e.words := rfl

theorem selected_select (e : Endpoint) (conn other : ConnectionId) (name : String) :
    (e.select conn name).selected other = if conn = other then name else e.selected other := by
  simp only [selected, select, TreeMap.getD_insert, Std.LawfulEqCmp.compare_eq_iff_eq]

@[simp] theorem selected_select_selected (e : Endpoint) (conn other : ConnectionId) :
    (e.select conn (e.selected conn)).selected other = e.selected other := by
  rw [selected_select]
  split
  · rename_i h
    rw [h]
  · rfl

@[simp] theorem selected_write (e : Endpoint) (conn other : ConnectionId) (c : Cache) :
    (e.write conn c).selected other = e.selected other :=
  e.selected_select_selected conn other

@[simp] theorem words_write (e : Endpoint) (conn : ConnectionId) (c : Cache) :
    (e.write conn c).words = e.words := rfl

theorem caches_write (e : Endpoint) (conn : ConnectionId) (c : Cache) (name : String) :
    (e.write conn c).caches[name]? =
      if e.selected conn = name then some c else e.caches[name]? := by
  simp only [write, TreeMap.getElem?_insert, Std.LawfulEqCmp.compare_eq_iff_eq]

theorem Effect.words {reply : Option Frame} {e' : Endpoint} (h : e.Effect conn f reply e') :
    e'.words = e.words := by
  cases h <;> rfl

theorem Effect.mem_caches_iff {reply : Option Frame} {e' : Endpoint}
    (h : e.Effect conn f reply e') (name : String) : name ∈ e'.caches ↔ name ∈ e.caches := by
  cases h with
  | silence | refusal | pong | selection => rfl
  | answer hf hr hc ha =>
      simp only [TreeMap.mem_iff_isSome_getElem?, caches_write]
      split
      · rename_i h
        rw [← h, hc]
        rfl
      · rfl

/-- Every selected cache is served, unless it is the one that a connection starts on. -/
def Settled (e : Endpoint) : Prop :=
  ∀ conn, e.selected conn = plainCache ∨ e.selected conn ∈ e.caches

theorem settled_fresh {e : Endpoint} (h : e.selections = ∅) : e.Settled := by
  intro conn
  refine .inl ?_
  rw [selected, h]
  rfl

theorem Settled.receive (h : e.Settled) (conn : ConnectionId) (f : Frame) :
    (e.receive conn f).2.Settled := by
  intro other
  have heffect := e.effect_receive conn f
  rw [heffect.mem_caches_iff]
  generalize (e.receive conn f).1 = reply at heffect
  generalize (e.receive conn f).2 = e' at heffect
  cases heffect with
  | silence => exact h other
  | refusal | pong =>
      rw [selected_select_selected]
      exact h other
  | answer =>
      rw [selected_write]
      exact h other
  | selection hf hn =>
      rw [selected_select]
      split
      · exact .inr hn
      · exact h other

theorem Settled.run (h : e.Settled) (frames : List (ConnectionId × Frame)) :
    (e.run frames).2.Settled := by
  induction frames generalizing e with
  | nil => exact h
  | cons p frames ih => exact ih (h.receive p.1 p.2)

theorem Settled.disconnect (h : e.Settled) (conn : ConnectionId) : (e.disconnect conn).Settled := by
  intro other
  rw [selected, Endpoint.disconnect, TreeMap.getD_erase]
  split
  · exact .inl rfl
  · exact h other

end Endpoint

end CacheBench
