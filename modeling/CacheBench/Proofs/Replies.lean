import CacheBench.Proofs.EndpointStep
import CacheBench.Proofs.FrameCodec

/-!
# Replies on the wire

A reply is read back by the client as the frame that the endpoint meant, unless it is an error that
shows a break of lines. Most errors cannot: their words are fixed, or show what came from outside in
quotes. Three show it as it is (`Endpoint.Shows`): the name of an unknown command, the name of a
cache that is not served, and what the JSON reader says of a malformed value. After a break in one
of these the client takes the rest of the text for further replies.
-/

namespace CacheBench

/-! ## Texts without a carriage return -/

namespace Text

theorem carriage_not_mem_hexDigits (n : Nat) : '\r' ∉ (hexDigits n).toList := by
  rw [hexDigits, String.toList_ofList]
  induction n using Nat.strongRecOn with
  | _ n ih =>
    rw [Nat.toDigits_eq_if (by decide)]
    split
    · simp
    · rw [List.mem_append, not_or]
      exact ⟨ih _ (by omega), by simp⟩

theorem carriage_not_mem_quotedChar (c : Char) : '\r' ∉ (quotedChar c).toList := by
  unfold quotedChar
  split_ifs with _ _ _ hcarriage
  · decide
  · decide
  · decide
  · decide
  · decide
  · decide
  · rw [String.toList_singleton, List.mem_singleton]
    exact Ne.symm hcarriage
  · simp [carriage_not_mem_hexDigits]

theorem carriage_not_mem_quoted (s : String) : '\r' ∉ (quoted s).toList := by
  have hchars (c : Char) : '\r' ∉ (quotedChar c).toList := carriage_not_mem_quotedChar c
  simp [quoted, hchars]

end Text

namespace CommandError

/-- The error shows what came from outside as it is. -/
inductive Raw : CommandError → Prop
  | unknown (name : String) : Raw (.unknown name)
  | malformedValue (json : Bytes) : Raw (.malformedValue json)

def Plain (err : CommandError) : Prop := ∀ words, '\r' ∉ (err.text words).toList

theorem plain_of_not_raw {err : CommandError} (hraw : ¬ err.Raw)
    (harity : ∀ name expects, err = .arity name expects →
      '\r' ∉ name.toList ∧ '\r' ∉ expects.toList) : err.Plain := by
  intro words
  cases err with
  | unknown name => exact absurd (.unknown name) hraw
  | malformedValue json => exact absurd (.malformedValue json) hraw
  | arity name expects =>
      obtain ⟨hname, hexpects⟩ := harity name expects rfl
      simp [text, report, Report.message, toString, hname, hexpects]
  | badKey text | badBound text =>
      simp [CommandError.text, report, Report.message, Text.carriage_not_mem_quoted]
  | unknownField field =>
      change '\r' ∉ ("unknown query field " ++ Text.quoted field.name).toList
      rw [String.toList_append, List.mem_append, not_or]
      exact ⟨by decide, Text.carriage_not_mem_quoted _⟩
  | notArray | noName | noCacheName | noKey | noValue | noField | noBound =>
      simp [text, report, Report.message]

end CommandError

/-! ## What makes a frame no command -/

theorem eq_error_of_bind {ε α β : Type} {x : Except ε α} {g : α → Except ε β} {err : ε}
    (h : (x >>= g) = .error err) : x = .error err ∨ ∃ a, g a = .error err := by
  cases x with
  | error e =>
      cases h
      exact .inl rfl
  | ok a => exact .inr ⟨a, h⟩

namespace Frame

variable (f : Frame) (name expects : String)

theorem key_ne_arity : f.key ≠ .error (.arity name expects) := by
  unfold key
  split
  · simp
  · split <;> simp

theorem value_ne_arity : f.value ≠ .error (.arity name expects) := by
  unfold value
  split
  · split <;> simp
  · split <;> simp
  · simp

theorem field_ne_arity : f.field ≠ .error (.arity name expects) := by
  unfold field
  split
  · simp
  · cases Field.ofText _ <;> simp [Except.mapError]

theorem bound_ne_arity : f.bound ≠ .error (.arity name expects) := by
  unfold bound
  split
  · simp
  · split <;> simp

end Frame

namespace Command

variable {name expects : String}

theorem pairs_ne_arity (args : List Frame) : pairs args ≠ .error (.arity name expects) := by
  induction args using pairs.induct with
  | case1 k v rest ih =>
      intro h
      rw [pairs] at h
      rcases eq_error_of_bind h with hk | ⟨k, h⟩
      · exact k.key_ne_arity name expects hk
      rcases eq_error_of_bind h with hv | ⟨v, h⟩
      · exact v.value_ne_arity name expects hv
      rcases eq_error_of_bind h with hrest | ⟨rest, h⟩
      · exact ih hrest
      · cases h
  | case2 args hargs =>
      rw [pairs.eq_def]
      split
      · exact absurd rfl (hargs _ _ _)
      · simp

/-- Where the number of arguments is wrong, the error says so in fixed words. -/
theorem carriage_not_mem_of_ofParts {cmd : String} {args : List Frame}
    (h : ofParts cmd args = .error (.arity name expects)) :
    '\r' ∉ name.toList ∧ '\r' ∉ expects.toList := by
  unfold ofParts at h
  split at h
  · cases h
  · split at h <;> cases h
  · cases h
    decide
  · rcases eq_error_of_bind h with hk | ⟨k, h⟩
    · exact absurd hk (Frame.key_ne_arity _ _ _)
    · cases h
  · cases h
    decide
  · rcases eq_error_of_bind h with hk | ⟨k, h⟩
    · exact absurd hk (Frame.key_ne_arity _ _ _)
    rcases eq_error_of_bind h with hv | ⟨v, h⟩
    · exact absurd hv (Frame.value_ne_arity _ _ _)
    · cases h
  · cases h
    decide
  · split at h
    · cases h
      decide
    · rcases eq_error_of_bind h with hpairs | ⟨pairs, h⟩
      · exact absurd hpairs (pairs_ne_arity _)
      · cases h
  · rcases eq_error_of_bind h with hfield | ⟨field, h⟩
    · exact absurd hfield (Frame.field_ne_arity _ _ _)
    rcases eq_error_of_bind h with hmin | ⟨min, h⟩
    · exact absurd hmin (Frame.bound_ne_arity _ _ _)
    rcases eq_error_of_bind h with hmax | ⟨max, h⟩
    · exact absurd hmax (Frame.bound_ne_arity _ _ _)
    · cases h
  · cases h
    decide
  · cases h
  · cases h
    decide
  · cases h

/-- An array of one text asks for the command of that name. -/
theorem ofFrame_named (name : String) :
    ofFrame (.array [.ofText name]) = (ofParts (name.map Char.toUpper) []).map some := by
  simp only [ofFrame, Frame.ofText, Frame.text?, text?_utf8]

theorem plain_of_ofFrame {f : Frame} {err : CommandError} (h : ofFrame f = .error err)
    (hraw : ¬ err.Raw) : err.Plain := by
  apply CommandError.plain_of_not_raw hraw
  rintro name expects rfl
  unfold ofFrame at h
  split at h
  · cases h
  · split at h
    · rename_i s _
      cases hparts : ofParts (s.map Char.toUpper) _ with
      | ok cmd =>
          rw [hparts] at h
          cases h
      | error err =>
          rw [hparts] at h
          cases h
          exact carriage_not_mem_of_ofParts hparts
    · cases h
  · cases h

end Command

/-! ## Replies without a break -/

namespace Frame

/-- Words in front of a text do not add a break to it. -/
theorem lineBreak_infix_utf8_append_left {p : String} (hp : '\r' ∉ p.toList) (s : String) :
    lineBreak <:+: utf8 (p ++ s) ↔ lineBreak <:+: utf8 s := by
  rw [utf8_append]
  exact lineBreak_infix_append_left (fun h => hp ((mem_utf8_iff (by decide)).1 h)) _

theorem lineBreak_infix_utf8_append_right {t : String} (ht : '\r' ∉ t.toList)
    (hhead : (utf8 t).head? ≠ some 10) (s : String) :
    lineBreak <:+: utf8 (s ++ t) ↔ lineBreak <:+: utf8 s := by
  rw [utf8_append]
  exact lineBreak_infix_append_right (fun h => ht ((mem_utf8_iff (by decide)).1 h)) hhead _

theorem not_lineBreak_infix_utf8 {s : String} (h : '\r' ∉ s.toList) : ¬ lineBreak <:+: utf8 s :=
  not_lineBreak_of_not_mem fun hb => h ((mem_utf8_iff (by decide)).1 hb)

theorem unbroken_simple {s : String} (h : '\r' ∉ s.toList) : (simple (utf8 s)).Unbroken := by
  intro g hg
  cases hg
  exact not_lineBreak_infix_utf8 h

theorem unbroken_done : done.Unbroken := unbroken_simple (by decide)

/-- An answer is sent in strings of stated length, as a number, or as a word. -/
theorem unbroken_replyOf (r : Request) (a : r.Answer) : (r.replyOf a).Unbroken := by
  cases r with
  | get k =>
      cases a with
      | none =>
          intro g hg
          cases hg
          exact not_lineBreak_infix_nil
      | some v => exact unbroken_ofText _
  | query p =>
      apply unbroken_array
      intro f hf
      obtain ⟨r, -, rfl⟩ := List.mem_map.1 hf
      exact unbroken_ofText _
  | size =>
      intro g hg
      cases hg
      exact not_lineBreak_infix_nil
  | put _ _ | putAll _ | begin | txGet _ _ | txPut _ _ _ | commit _ | rollback _ | drop _ =>
      exact unbroken_done

end Frame

/-! ## The reply to a frame -/

theorem CacheError.lineBreak_infix_unknownCache_iff (name : String) :
    Frame.lineBreak <:+: utf8 (unknownCache name).message ↔ Frame.lineBreak <:+: utf8 name := by
  have htext : (unknownCache name).message = "cache " ++ name ++ " is not defined" := rfl
  rw [htext, Frame.lineBreak_infix_utf8_append_right (by decide) (by decide),
    Frame.lineBreak_infix_utf8_append_left (by decide)]

namespace Endpoint

/-- The texts that come from outside and that the reply to a frame shows as they are. -/
inductive Shows (e : Endpoint) (f : Frame) : String → Prop
  | command {name : String} (hf : Command.ofFrame f = .error (.unknown name)) : e.Shows f name
  | cache {name : String} (hf : Command.ofFrame f = .ok (some (.use name)))
    (hn : e.caches[name]? = none) : e.Shows f name
  | value {json : Bytes} (hf : Command.ofFrame f = .error (.malformedValue json)) :
    e.Shows f (e.words json)

variable {e : Endpoint} {conn : ConnectionId} {f : Frame} {text shown : String}

theorem Shows.unique (h : e.Shows f text) (h' : e.Shows f shown) : shown = text := by
  cases h with
  | command hf =>
      cases h' with
      | command hf' =>
          cases hf.symm.trans hf'
          rfl
      | cache hf' | value hf' => cases hf.symm.trans hf'
  | cache hf =>
      cases h' with
      | cache hf' =>
          cases hf.symm.trans hf'
          rfl
      | command hf' | value hf' => cases hf.symm.trans hf'
  | value hf =>
      cases h' with
      | value hf' =>
          cases hf.symm.trans hf'
          rfl
      | command hf' | cache hf' => cases hf.symm.trans hf'

/-- Only the errors of a few kinds show what was sent. -/
theorem Shows.raw (h : e.Shows f shown) {err : CommandError}
    (hf : Command.ofFrame f = .error err) : err.Raw := by
  cases h with
  | command hf' =>
      cases hf.symm.trans hf'
      exact .unknown _
  | value hf' =>
      cases hf.symm.trans hf'
      exact .malformedValue _
  | cache hf' => cases hf.symm.trans hf'

theorem Shows.of_command (h : e.Shows f shown) {cmd : Command}
    (hf : Command.ofFrame f = .ok (some cmd)) : cmd = .use shown ∧ e.caches[shown]? = none := by
  cases h with
  | cache hf' hn =>
      cases hf.symm.trans hf'
      exact ⟨rfl, hn⟩
  | command hf' | value hf' => cases hf.symm.trans hf'

/-- The text of an error breaks off if and only if something that it shows does. -/
theorem Refuses.lineBreak_infix_iff (hs : e.Settled) (h : e.Refuses conn f text) :
    Frame.lineBreak <:+: utf8 text ↔
      ∃ shown, e.Shows f shown ∧ Frame.lineBreak <:+: utf8 shown := by
  have hshown {shown : String} (hiff : Frame.lineBreak <:+: utf8 text ↔
      Frame.lineBreak <:+: utf8 shown) (h : e.Shows f shown) : Frame.lineBreak <:+: utf8 text ↔
        ∃ shown, e.Shows f shown ∧ Frame.lineBreak <:+: utf8 shown := by
    refine hiff.trans ⟨fun hbreak => ⟨shown, h, hbreak⟩, ?_⟩
    rintro ⟨shown', h', hbreak⟩
    rwa [h.unique h'] at hbreak
  cases h with
  | use hf hn => exact hshown (CacheError.lineBreak_infix_unknownCache_iff _) (.cache hf hn)
  | @unread err hf =>
      by_cases hraw : err.Raw
      · cases hraw with
        | unknown name =>
            have htext : CommandError.text e.words (.unknown name) = "unknown command " ++ name :=
              rfl
            rw [htext] at hshown ⊢
            exact hshown (Frame.lineBreak_infix_utf8_append_left (by decide) _) (.command hf)
        | malformedValue json => exact hshown Iff.rfl (.value hf)
      · have hplain := Command.plain_of_ofFrame hf hraw
        refine iff_of_false (Frame.not_lineBreak_infix_utf8 (hplain e.words)) ?_
        rintro ⟨shown, hshows, -⟩
        exact hraw (hshows.raw hf)
  | unserved hf hr hc =>
      have hname : e.selected conn = plainCache := by
        refine (hs conn).resolve_right fun hmem => ?_
        rw [Std.TreeMap.mem_iff_isSome_getElem?, hc] at hmem
        cases hmem
      refine iff_of_false ?_ ?_
      · rw [CacheError.lineBreak_infix_unknownCache_iff, hname]
        exact Frame.not_lineBreak_infix_utf8 (by decide)
      · rintro ⟨shown, hshows, -⟩
        obtain ⟨rfl, -⟩ := hshows.of_command hf
        cases hr

/-- The bytes of a reply are one frame, the one that was meant, if and only if nothing that the
reply shows as it is has a break of lines. -/
theorem decode_reply_iff (hs : e.Settled) {reply : Frame}
    (hreply : (e.receive conn f).1 = some reply) (hfits : reply.Fits) :
    Frame.decode reply.encode = .complete reply [] ↔
      ∀ shown, e.Shows f shown → ¬ Frame.lineBreak <:+: utf8 shown := by
  have hread (hunbroken : reply.Unbroken) : Frame.decode reply.encode = .complete reply [] := by
    rw [← List.append_nil reply.encode, Frame.decode_encode hunbroken hfits]
  have hnothing {cmd : Command} (hf : Command.ofFrame f = .ok (some cmd))
      (hcmd : ∀ name, cmd = .use name → name ∈ e.caches) (hunbroken : reply.Unbroken) :
      Frame.decode reply.encode = .complete reply [] ↔
        ∀ shown, e.Shows f shown → ¬ Frame.lineBreak <:+: utf8 shown := by
    refine iff_of_true (hread hunbroken) fun shown h => ?_
    obtain ⟨hcmd', hn⟩ := h.of_command hf
    have hmem := hcmd shown hcmd'
    rw [Std.TreeMap.mem_iff_isSome_getElem?, hn] at hmem
    cases hmem
  have heffect := e.effect_receive conn f
  rw [hreply] at heffect
  generalize (e.receive conn f).2 = e' at heffect
  cases heffect with
  | refusal h =>
      rw [Frame.refusal, Frame.decode_encode_error_iff,
        Frame.lineBreak_infix_utf8_append_left (by decide), h.lineBreak_infix_iff hs]
      simp only [not_exists, not_and]
  | pong hf => exact hnothing hf (fun _ h => by cases h) (Frame.unbroken_simple (by decide))
  | selection hf hn =>
      refine hnothing hf (fun _ h => ?_) Frame.unbroken_done
      cases h
      exact hn
  | answer hf hr =>
      refine hnothing hf (fun _ h => ?_) (Frame.unbroken_replyOf _ _)
      rw [h] at hr
      cases hr

theorem reply_to_unknown_command : ∃ reply,
    (({} : Endpoint).receive 0 (.array [.ofText "foo"])).1 = some reply ∧
      Frame.decode reply.encode = .complete reply [] := by
  have hf : Command.ofFrame (.array [.ofText "foo"]) = .error (.unknown "FOO") := by
    rw [Command.ofFrame_named, map_eq_of_toList (t := "FOO") (by decide)]
    rfl
  have hreply : (({} : Endpoint).receive 0 (.array [.ofText "foo"])).1 = some _ :=
    congrArg Prod.fst (receive_unread hf)
  refine ⟨_, hreply, (decode_reply_iff (settled_fresh rfl) hreply ?_).2 ?_⟩
  · intro g hg
    cases hg
    decide
  · intro shown h
    rw [(Shows.command hf).unique h]
    exact Frame.not_lineBreak_infix_utf8 (by decide)

/-- The name of a command can have a break. The client then gets an error that says less, and takes
the rest of the name for the next reply. -/
theorem broken_reply_to_unknown_command : ∃ reply,
    (({} : Endpoint).receive 0 (.array [.ofText "foo\r\nbar"])).1 = some reply ∧
      Frame.decode reply.encode =
        .complete (.error "ERR unknown command FOO") (utf8 "BAR\r\n") ∧
      Frame.decode reply.encode ≠ .complete reply [] := by
  have hf : Command.ofFrame (.array [.ofText "foo\r\nbar"]) =
      .error (.unknown "FOO\r\nBAR") := by
    rw [Command.ofFrame_named, map_eq_of_toList (t := "FOO\r\nBAR") (by decide)]
    rfl
  have hbreak : utf8 "ERR unknown command FOO\r\nBAR" =
      utf8 "ERR unknown command FOO" ++ (Frame.lineBreak ++ utf8 "BAR") := by decide
  have hread := Frame.decode_error_of_break hbreak (Frame.not_lineBreak_infix_utf8 (by decide)) []
  rw [List.append_nil] at hread
  refine ⟨_, congrArg Prod.fst (receive_unread hf), hread, ?_⟩
  intro hwhole
  injection hread.symm.trans hwhole with _ hrest
  exact absurd hrest (by decide)

end Endpoint

end CacheBench
