import CacheBench.Proofs.RemoteCalls

/-!
# The requests of a client

A client sends a frame for every request but an empty batch (`Client.frame?`). `Understood` says
what the endpoint makes of such a frame: a command for the selected cache, or an error that stays on
its line as far as the words of the JSON reader do. So no request changes a selection, and its reply
is read as it was meant or not at all.
-/

namespace CacheBench

open Std (TreeMap)

namespace Client

def frame? : Request → Option Frame
  | .putAll b => if b.isEmpty then none else some (Command.mset b).toFrame
  | r => (command? r).map Command.toFrame

/-- What is asked of a client is a call with the frame of the request. -/
theorem perform_of_frame? {ν : Type} {net : Network ν} {r : Request} {f : Frame}
    (hf : frame? r = some f) (c : Client) (s : ν) :
    c.perform net s r = ((c.call net s (some f)).1.bind (read r), (c.call net s (some f)).2) := by
  cases r with
  | begin | txGet _ _ | txPut _ _ _ | commit _ | rollback _ | drop _ => cases hf
  | putAll b =>
      by_cases hb : b.isEmpty
      · rw [frame?, if_pos hb] at hf
        cases hf
      · rw [frame?, if_neg hb] at hf
        cases hf
        refine perform_eq_call rfl fun b' hb' => ?_
        cases hb'
        exact hb
  | get _ | put _ _ | query _ | size =>
      cases hf
      exact perform_eq_call rfl nofun

theorem exists_command_of_frame? {r : Request} {f : Frame} (hf : frame? r = some f) :
    ∃ cmd : Command, cmd.request? = some r ∧ f = cmd.toFrame := by
  cases r with
  | begin | txGet _ _ | txPut _ _ _ | commit _ | rollback _ | drop _ => cases hf
  | putAll b =>
      by_cases hb : b.isEmpty
      · rw [frame?, if_pos hb] at hf
        cases hf
      · rw [frame?, if_neg hb] at hf
        cases hf
        exact ⟨_, rfl, rfl⟩
  | get _ | put _ _ | query _ | size =>
      cases hf
      exact ⟨_, rfl, rfl⟩

end Client

/-! ## Reading a request -/

namespace Command

/-- What the endpoint can make of a request of a client. -/
inductive Understood : Except CommandError (Option Command) → Prop
  | command {cmd : Command} {r : Request} (hr : cmd.request? = some r) : Understood (.ok (some cmd))
  | unreadable {v : Value} (hv : Value.ofJson? (utf8 v.toJson) = none) :
    Understood (.error (.malformedValue (utf8 v.toJson)))
  | refused {err : CommandError} (hraw : ¬ err.Raw) : Understood (.error err)

variable {cmd : Command} {r : Request}

theorem value_ofText_cases (v : Value) : (∃ v', (Frame.ofText v.toJson).value = .ok v') ∨
    Value.ofJson? (utf8 v.toJson) = none ∧
      (Frame.ofText v.toJson).value = .error (.malformedValue (utf8 v.toJson)) := by
  cases hv : Value.ofJson? (utf8 v.toJson) with
  | some v' => exact .inl ⟨v', by simp only [Frame.value, Frame.ofText, hv]⟩
  | none => exact .inr ⟨rfl, by simp only [Frame.value, Frame.ofText, hv]⟩

theorem bound_ofText_cases (x : Binary64) : (∃ y, (Frame.ofText (toString x)).bound = .ok y) ∨
    (Frame.ofText (toString x)).bound = .error (.badBound (toString x)) := by
  cases hx : Binary64.ofText? (toString x) with
  | some y => exact .inl ⟨y, Frame.bound_ofText hx⟩
  | none => exact .inr (by simp only [Frame.bound, Frame.text?_ofText, hx])

theorem pairs_of_batch_cases (ps : List (Key × Value)) :
    let args := (ps.flatMap fun (k, v) => [toString k, v.toJson]).map Frame.ofText
    (∃ ps', pairs args = .ok ps') ∨ ∃ v : Value, Value.ofJson? (utf8 v.toJson) = none ∧
      pairs args = .error (.malformedValue (utf8 v.toJson)) := by
  induction ps with
  | nil => exact .inl ⟨[], rfl⟩
  | cons p ps ih =>
      simp only [List.flatMap_cons, List.cons_append, List.nil_append, List.map_cons, pairs,
        Frame.key_ofText] at ih ⊢
      obtain ⟨v', hv'⟩ | ⟨hv, herr⟩ := value_ofText_cases p.2
      · rw [hv']
        obtain ⟨ps', hps⟩ | ⟨v, hv, herr⟩ := ih
        · exact .inl ⟨_, by rw [hps]; rfl⟩
        · exact .inr ⟨v, hv, by rw [herr]; rfl⟩
      · exact .inr ⟨p.2, hv, by rw [herr]; rfl⟩

/-- The command of a frame is that of its name and its arguments. -/
theorem ofFrame_toFrame {name : String} {args : List String} (hparts : cmd.parts = name :: args)
    (hupper : name.toList.map Char.toUpper = name.toList) :
    ofFrame cmd.toFrame = (ofParts name (args.map Frame.ofText)).map some := by
  rw [toFrame, hparts, List.map_cons, ofFrame, Frame.text?_ofText]
  dsimp only
  rw [map_eq_of_toList hupper]

theorem understood_toFrame (hr : cmd.request? = some r) : Understood (ofFrame cmd.toFrame) := by
  cases cmd with
  | ping | use _ => cases hr
  | get k =>
      rw [ofFrame_toFrame rfl (by decide)]
      simp only [List.map_cons, List.map_nil, ofParts, Frame.key_ofText]
      exact .command (show (Command.get k).request? = some _ from rfl)
  | set k v =>
      rw [ofFrame_toFrame rfl (by decide)]
      simp only [List.map_cons, List.map_nil, ofParts, Frame.key_ofText]
      obtain ⟨v', hv'⟩ | ⟨hv, herr⟩ := value_ofText_cases v
      · rw [hv']
        exact .command (show (Command.set k v').request? = some _ from rfl)
      · rw [herr]
        exact .unreadable hv
  | mset b =>
      rw [ofFrame_toFrame rfl (by decide)]
      simp only [ofParts]
      split
      · exact .refused (by rintro ⟨⟩)
      · obtain ⟨ps, hps⟩ | ⟨v, hv, herr⟩ := pairs_of_batch_cases b.toList
        · rw [hps]
          exact .command (show (Command.mset (Batch.ofList ps)).request? = some _ from rfl)
        · rw [herr]
          exact .unreadable hv
  | query p =>
      rw [ofFrame_toFrame rfl (by decide)]
      simp only [List.map_cons, List.map_nil, ofParts, Frame.field_ofText]
      obtain ⟨min, hmin⟩ | herr := bound_ofText_cases p.min
      · rw [hmin]
        obtain ⟨max, hmax⟩ | herr := bound_ofText_cases p.max
        · rw [hmax]
          exact .command (show (Command.query ⟨p.field, min, max⟩).request? = some _ from rfl)
        · rw [herr]
          exact .refused (by rintro ⟨⟩)
      · rw [herr]
        exact .refused (by rintro ⟨⟩)
  | size =>
      rw [ofFrame_toFrame rfl (by decide)]
      exact .command (show Command.size.request? = some _ from rfl)

theorem Understood.ne_use {x : Except CommandError (Option Command)} (h : Understood x)
    (name : String) : x ≠ .ok (some (.use name)) := by
  rintro rfl
  cases h with
  | command hr => cases hr

end Command

/-! ## Answering a request -/

namespace Endpoint

variable {e : Endpoint} {conn other : ConnectionId} {f reply : Frame}

theorem selected_receive_of_ne (e : Endpoint) (f : Frame) (h : other ≠ conn) :
    (e.receive conn f).2.selected other = e.selected other := by
  rw [(e.effect_receive conn f).selected other]
  cases (e.receive conn f).1 with
  | none => rfl
  | some reply => simp [useOf, h.symm]

/-- Only a selection changes what is selected. -/
theorem selected_receive_of_ne_use (hf : ∀ name, Command.ofFrame f ≠ .ok (some (.use name))) :
    (e.receive conn f).2.selected other = e.selected other := by
  rw [(e.effect_receive conn f).selected other]
  cases (e.receive conn f).1 with
  | none => rfl
  | some reply =>
      -- `hf` is what the last case of `useOf` asks for.
      have huse : useOf other ((conn, f), some reply) = none := by simp [useOf]
      rw [huse]
      rfl

theorem selected_run_of_ne (frames : List Frame) (h : other ≠ conn) :
    (e.run (frames.map (conn, ·))).2.selected other = e.selected other := by
  induction frames generalizing e with
  | nil => rfl
  | cons f frames ih => exact ih.trans (e.selected_receive_of_ne f h)

theorem words_run (e : Endpoint) (frames : List (ConnectionId × Frame)) :
    (e.run frames).2.words = e.words := by
  induction frames generalizing e with
  | nil => rfl
  | cons p frames ih => exact (ih _).trans (e.effect_receive p.1 p.2).words

theorem mem_caches_run (e : Endpoint) (frames : List (ConnectionId × Frame)) (name : String) :
    name ∈ (e.run frames).2.caches ↔ name ∈ e.caches := by
  induction frames generalizing e with
  | nil => rfl
  | cons p frames ih => exact (ih _).trans ((e.effect_receive p.1 p.2).mem_caches_iff name)

/-- A reply has a break of lines only in what it shows as it is. -/
theorem unbroken_reply (hs : e.Settled) (hreply : (e.receive conn f).1 = some reply)
    (hshown : ∀ shown, e.Shows f shown → ¬ Frame.lineBreak <:+: utf8 shown) : reply.Unbroken := by
  have heffect := e.effect_receive conn f
  rw [hreply] at heffect
  generalize (e.receive conn f).2 = e' at heffect
  cases heffect with
  | refusal h =>
      intro g hg
      cases hg
      change ¬ Frame.lineBreak <:+: utf8 ("ERR " ++ _)
      rw [Frame.lineBreak_infix_utf8_append_left (by decide), h.lineBreak_infix_iff hs]
      rintro ⟨shown, hshows, hbreak⟩
      exact hshown shown hshows hbreak
  | pong => exact Frame.unbroken_simple (by decide)
  | selection => exact Frame.unbroken_done
  | answer => exact Frame.unbroken_replyOf _ _

/-- What the JSON reader says of a value that a client wrote stays on its line. -/
def PlainWords (e : Endpoint) : Prop :=
  ∀ v : Value, Value.ofJson? (utf8 v.toJson) = none →
    ¬ Frame.lineBreak <:+: utf8 (e.words (utf8 v.toJson))

theorem unbroken_reply_toFrame (hs : e.Settled) (hwords : e.PlainWords) {cmd : Command}
    {r : Request} (hr : cmd.request? = some r)
    (hreply : (e.receive conn cmd.toFrame).1 = some reply) : reply.Unbroken := by
  refine unbroken_reply hs hreply fun shown hshows => ?_
  have hunderstood := Command.understood_toFrame hr
  cases hshows with
  | cache hf hn => exact absurd hf (hunderstood.ne_use shown)
  | command hf =>
      rw [hf] at hunderstood
      cases hunderstood with
      | refused hraw => exact absurd (.unknown shown) hraw
  | value hf =>
      rw [hf] at hunderstood
      cases hunderstood with
      | unreadable hv => exact hwords _ hv
      | refused hraw => exact absurd (.malformedValue _) hraw

end Endpoint

end CacheBench
