import CacheBench.Proofs.Starters

/-!
# Convergence misses no join

From its subscription on, a starter listens (`Listening`): what its gate has seen is its sample and
what was taken from its channel. As the channel delivers every change since the subscription, and
the sample comes after it, no change to enough members goes unseen.
-/

namespace CacheBench

namespace Convergence

variable {c : Convergence} {i : Nat} {s : Starter} {move : Move} {ch : ChannelId}

theorem exists_subscription (moves : List Move)
    (hs : (({} : Convergence).run moves).starters[i]? = some s) (hch : s.channel = some ch) :
    ∃ earlier later s₀, moves = earlier ++ .subscribe i :: later ∧
      (({} : Convergence).run earlier).starters[i]? = some s₀ ∧ s₀.channel = none ∧
      ((({} : Convergence).run earlier).registry.subscribe s₀.handle).map Prod.fst = some ch := by
  induction moves using List.reverseRecOn generalizing s with
  | nil => simp [run] at hs
  | append_singleton moves move ih =>
      rw [run_append] at hs
      rcases (sound_run moves).channel_before hs hch with
        ⟨s₀, hs₀, hch₀⟩ | ⟨s₀, rfl, hs₀, free, opened⟩
      · obtain ⟨earlier, later, s₁, rfl, hs₁⟩ := ih hs₀ hch₀
        exact ⟨earlier, later ++ [move], s₁, by simp, hs₁⟩
      · exact ⟨moves, [], s₀, rfl, hs₀, free, opened⟩

/-- What holds of the starter `i`, which is `s` after the moves `later`, since it was `s₁` and had
just subscribed. -/
structure Listening (c₁ : Convergence) (i : Nat) (s₁ : Starter) (ch : ChannelId) (later : List Move)
    (s : Starter) : Prop where
  channel : s.channel = some ch
  handle : s.handle = s₁.handle
  target : s.gate.target = s₁.gate.target
  released : s.gate.released = true ↔ (∃ v, s.sampled = some v ∧ s₁.gate.target ≤ v) ∨
    ∃ e ∈ c₁.registry.taken ch (c₁.calls later), e.phase = .post ∧ s₁.gate.target ≤ e.members
  sampled : ∀ v, s.sampled = some v → ∃ before after, later = before ++ .sample i :: after ∧
    (c₁.run before).registry.size? s₁.handle = some v

/-- Only its own starter takes events from a channel. -/
theorem Sound.taken_call (hc : c.Sound) (hs : c.starters[i]? = some s) (hch : s.channel = some ch)
    (hmove : move ≠ .deliver i) : c.registry.taken ch (c.call? move).toList = [] := by
  cases hcall : c.call? move with
  | none => rfl
  | some call =>
      have htaken : c.registry.taken ch [call] = c.registry.takes ch call := List.append_nil _
      refine htaken.trans ?_
      cases move with
      | join =>
          cases hcall
          rfl
      | sample => cases hcall
      | subscribe j =>
          obtain ⟨s', -, he⟩ := Option.bind_eq_some_iff.1 hcall
          split at he <;> cases he
          rfl
      | deliver j =>
          obtain ⟨s', hs', he⟩ := Option.bind_eq_some_iff.1 hcall
          obtain ⟨ch', hch', rfl⟩ := Option.map_eq_some_iff.1 he
          refine if_neg fun h => hmove ?_
          rw [hc.one_starter i j s s' ch hs hs' hch (h ▸ hch')]
      | leave j | release j =>
          obtain ⟨s', -, rfl⟩ := Option.map_eq_some_iff.1 hcall
          rfl

theorem Listening.step {c₁ : Convergence} {s₁ s' : Starter} {later : List Move}
    (hl : c₁.Listening i s₁ ch later s) (hc : (c₁.run later).Sound)
    (hs : (c₁.run later).starters[i]? = some s) (hm : (c₁.run later).Moved i s move s') :
    c₁.Listening i s₁ ch (later ++ [move]) s' := by
  have htaken : c₁.registry.taken ch (c₁.calls (later ++ [move])) =
      c₁.registry.taken ch (c₁.calls later) ++
        (c₁.run later).registry.taken ch ((c₁.run later).call? move).toList := by
    rw [calls_append, Registry.taken_append, ← registry_run, calls, calls, List.append_nil]
  have hearlier : ∀ v, s.sampled = some v → ∃ before after,
      later ++ [move] = before ++ .sample i :: after ∧
        (c₁.run before).registry.size? s₁.handle = some v := by
    intro v hv
    obtain ⟨before, after, rfl, hsize⟩ := hl.sampled v hv
    exact ⟨before, after ++ [move], by simp, hsize⟩
  cases hm with
  | same quiet =>
      have hnone := hc.taken_call hs hl.channel (quiet ch hl.channel)
      refine ⟨hl.channel, hl.handle, hl.target, ?_, hearlier⟩
      rw [htaken, hnone, List.append_nil]
      exact hl.released
  | subscribed free => cases free.symm.trans hl.channel
  | @sampled _ v _ first size =>
      have hnone : (c₁.run later).registry.taken ch
          ((c₁.run later).call? (.sample i)).toList = [] := rfl
      have hgate := s.gate.released_sampled_iff v
      have htarget := s.gate.target_sampled v
      refine ⟨hl.channel, hl.handle, htarget.trans hl.target, ?_, ?_⟩
      · rw [hgate, hl.released, htaken, hnone, List.append_nil, hl.target, first]
        simp [or_comm]
      · intro w hw
        cases hw
        exact ⟨later, [], rfl, hl.handle ▸ size⟩
  | @delivered ch' subscribed =>
      cases hl.channel.symm.trans subscribed
      have hcall : (c₁.run later).call? (.deliver i) = some (.receive ch) := by
        rw [call?, hs, Option.bind_some, hl.channel]
        rfl
      refine ⟨hl.channel, hl.handle, ?_, ?_, hearlier⟩
      · exact (Gate.target_observeAll _ _).trans hl.target
      · rw [Gate.released_observeAll_iff, hl.released, hl.target, htaken, hcall, or_assoc]
        refine or_congr_right ?_
        have hone : (c₁.run later).registry.taken ch (some (Registry.Call.receive ch)).toList =
            (c₁.run later).registry.takes ch (.receive ch) := List.append_nil _
        rw [hone]
        simp only [List.mem_append, or_and_right, exists_or]

theorem Listening.run {c₁ : Convergence} {s₁ : Starter} (hc : c₁.Sound)
    (hs₁ : c₁.starters[i]? = some s₁) (hch : s₁.channel = some ch) (hsampled : s₁.sampled = none)
    (hclosed : s₁.gate.released = false) (later : List Move) :
    ∃ s, (c₁.run later).starters[i]? = some s ∧ c₁.Listening i s₁ ch later s := by
  induction later using List.reverseRecOn with
  | nil =>
      refine ⟨s₁, hs₁, hch, rfl, rfl, ?_, ?_⟩
      · simp [hclosed, hsampled, calls, Registry.taken]
      · intro v hv
        cases hsampled.symm.trans hv
  | append_singleton later move ih =>
      obtain ⟨s, hs, hl⟩ := ih
      have hcl := hc.run later
      obtain ⟨s', hs', hm⟩ := moved_step hs (hcl.index_lt i s hs) move
      rw [run_append]
      exact ⟨s', hs', hl.step hcl hs hm⟩

/-- A starter with a channel has listened since the move that opened it. -/
theorem exists_listening (moves : List Move)
    (hs : (({} : Convergence).run moves).starters[i]? = some s) (hch : s.channel = some ch) :
    ∃ earlier later s₀ start, moves = earlier ++ .subscribe i :: later ∧
      (({} : Convergence).run earlier).starters[i]? = some s₀ ∧ s₀.channel = none ∧
      ((({} : Convergence).run earlier).registry.subscribe s₀.handle).map Prod.fst = some ch ∧
      start = (({} : Convergence).run earlier).step (.subscribe i) ∧
      ({} : Convergence).run moves = start.run later ∧
      start.Listening i { s₀ with channel := some ch } ch later s := by
  obtain ⟨earlier, later, s₀, rfl, hs₀, free, opened⟩ := exists_subscription moves hs hch
  have hc := sound_run earlier
  obtain ⟨hsampled, hclosed⟩ := hc.closed i s₀ hs₀ free
  have hfinal := run_append {} earlier (.subscribe i :: later)
  obtain ⟨s', hs', hlisten⟩ := Listening.run (hc.step (.subscribe i))
    (starter_subscribe hs₀ free opened) rfl hsampled hclosed later
  rw [hfinal] at hs
  cases hs.symm.trans hs'
  exact ⟨earlier, later, s₀, _, rfl, hs₀, free, opened, rfl, hfinal, hlisten⟩

theorem Sound.handle_lt_subscribe (hc : c.Sound) (hs : c.starters[i]? = some s)
    (free : s.channel = none) (opened : (c.registry.subscribe s.handle).map Prod.fst = some ch) :
    s.handle < (c.step (.subscribe i)).registry.next := by
  obtain ⟨x, hx, -, -⟩ := Registry.opened_of_subscribe opened
  have hnext := hc.coherent.next_le_run [.subscribe s.handle]
  rw [registry_subscribe hs free]
  exact (hc.coherent.handle_lt s.handle x hx).trans_le hnext

/-- What a listening starter has taken, once nothing waits for it. -/
theorem Sound.taken_eq (hc : c.Sound) {x : Handle} (hs : c.starters[i]? = some s)
    (free : s.channel = none)
    (opened : (c.registry.subscribe s.handle).map Prod.fst = some ch) {start : Convergence}
    (hstart : start = c.step (.subscribe i)) {later : List Move}
    (hx : (start.run later).registry.handles[s.handle]? = some x) (hl : x.left = false)
    (hdrained : (start.run later).registry.waiting ch = []) :
    start.registry.taken ch (start.calls later) =
      (start.registry.changes x.cluster (start.calls later)).flatMap
        fun y => Event.phases y.2 y.1 := by
  have hr := hc.coherent
  have hregistry : start.registry = c.registry.step (.subscribe s.handle) :=
    hstart ▸ registry_subscribe hs free
  have hr₁ : start.registry.Coherent := hstart ▸ (hc.step _).coherent
  have hfinal : (start.run later).registry = start.registry.run (start.calls later) :=
    registry_run start later
  obtain ⟨x₀, hx₀, -, -⟩ := Registry.opened_of_subscribe opened
  have hlt := hr.handle_lt s.handle x₀ hx₀
  rw [hfinal] at hx hdrained
  have hrun : start.registry.run (start.calls later) =
      c.registry.run (.subscribe s.handle :: start.calls later) := by
    rw [hregistry]
    rfl
  have hx' : c.registry.handles[s.handle]? = some x := hr.handle_of_run hlt hl _ (hrun ▸ hx)
  obtain ⟨ho, hrecv, hwait, -⟩ := hr.opened_subscribe hx' opened
  rw [← hregistry] at ho hrecv hwait
  have hn := (hr₁.run (start.calls later)).mem_membersOf_of_handle hx hl
  have hdelivered := ho.delivered_of_mem hr₁ hrecv hl (close_not_mem_calls start later ch) hn
  rw [Registry.delivered, hdrained, List.append_nil, hwait, List.nil_append] at hdelivered
  exact hdelivered

theorem exists_post_iff (changes : List (Change × Nat)) (target : Nat) :
    (∃ e ∈ changes.flatMap fun y => Event.phases y.2 y.1, e.phase = .post ∧ target ≤ e.members) ↔
      ∃ y ∈ changes, target ≤ y.2 := by
  constructor
  · rintro ⟨e, he, hphase, hle⟩
    obtain ⟨y, hy, he⟩ := List.mem_flatMap.1 he
    rcases List.mem_pair.1 he with rfl | rfl
    · cases hphase
    · exact ⟨y, hy, hle⟩
  · rintro ⟨y, hy, hle⟩
    refine ⟨⟨.post, y.2, y.1⟩, List.mem_flatMap.2 ⟨y, hy, ?_⟩, rfl, hle⟩
    exact List.mem_pair.2 (.inr rfl)

/-- If a cluster has enough members now, then a sample of its size shows it, or a later change
does. -/
theorem enough_seen {r : Registry} (hr : r.Coherent) {h : HandleId} {x : Handle}
    (hl : x.left = false) (hlt : h < r.next) {before after : List Registry.Call} {v : Nat}
    (hx : (r.run (before ++ after)).handles[h]? = some x)
    (hv : (r.run before).size? h = some v) {target : Nat}
    (henough : target ≤ ((r.run (before ++ after)).membersOf x.cluster).card) :
    target ≤ v ∨ ∃ y ∈ r.changes x.cluster (before ++ after), target ≤ y.2 := by
  rcases (hr.replay x.cluster (before ++ after)).card_eq with ⟨hnil, hsame⟩ | ⟨y, hy, he⟩
  · refine .inl ?_
    rw [Registry.changes_append, List.append_eq_nil_iff] at hnil
    have hreplay := hr.replay x.cluster before
    rw [hnil.1] at hreplay
    have hlt' : h < (r.run before).next := hlt.trans_le (hr.next_le_run before)
    rw [Registry.run_append] at hx
    have hx' := (hr.run before).handle_of_run hlt' hl after hx
    have hbefore : (r.run before).membersOf x.cluster = r.membersOf x.cluster := hreplay.eq_foldl
    rw [hsame, ← hbefore, Registry.card_membersOf_of_size? hx' hv] at henough
    exact henough
  · exact .inr ⟨y, hy, he ▸ henough⟩

/-- A starter that has sampled and has no event waiting is released if and only if enough members
were there when it sampled, or after a change since it subscribed. -/
theorem gate_released_iff (moves : List Move) {v : Nat} {x : Handle}
    (hs : (({} : Convergence).run moves).starters[i]? = some s) (hv : s.sampled = some v)
    (hx : (({} : Convergence).run moves).registry.handles[s.handle]? = some x)
    (hl : x.left = false)
    (hdrained : ∀ ch, s.channel = some ch →
      (({} : Convergence).run moves).registry.waiting ch = []) :
    (∃ earlier before after, moves = earlier ++ .subscribe i :: (before ++ .sample i :: after) ∧
      (({} : Convergence).run earlier).starters[i]?.map Starter.channel = some none ∧
      let start := ({} : Convergence).run (earlier ++ [.subscribe i])
      start.starters[i]?.map Starter.channel = some s.channel ∧
      (start.run before).registry.size? s.handle = some v ∧
      (s.gate.released = true ↔ s.gate.target ≤ v ∨
        ∃ y ∈ start.registry.changes x.cluster (start.calls (before ++ .sample i :: after)),
          s.gate.target ≤ y.2)) ∧
    (s.gate.target ≤ ((({} : Convergence).run moves).registry.membersOf x.cluster).card →
      s.gate.released = true) ∧
    (∀ (j : Nat) (t : Starter), (({} : Convergence).run moves).starters[j]? = some t →
      t.gate.released = true → ∀ moves', ∃ t',
        (({} : Convergence).run (moves ++ moves')).starters[j]? = some t' ∧
          t'.gate.released = true) ∧
    ∀ (target : Nat) (calls : List Gate.Call) (q : Nat),
      (Gate.run { target } calls).1[q]? = some true ↔ ∃ call, calls[q]? = some call ∧
        call.Qualifies target ∧
        ∀ p call', p < q → calls[p]? = some call' → ¬ call'.Qualifies target := by
  have hsound := sound_run moves
  obtain ⟨ch, hch⟩ : ∃ ch, s.channel = some ch := by
    refine Option.ne_none_iff_exists'.1 fun hnone => ?_
    cases hv.symm.trans (hsound.closed i s hs hnone).1
  obtain ⟨earlier, later, s₀, start, rfl, hs₀, free, opened, hstart, hfinal, hlisten⟩ :=
    exists_listening moves hs hch
  have hc := sound_run earlier
  have hc₁ : start.Sound := hstart ▸ hc.step _
  obtain ⟨before, after, rfl, hsize⟩ := hlisten.sampled v hv
  rw [← hlisten.handle] at hsize
  have hrun : ({} : Convergence).run (earlier ++ [.subscribe i]) = start :=
    (run_append _ _ _).trans hstart.symm
  have hreleased : s.gate.released = true ↔ s.gate.target ≤ v ∨
      ∃ y ∈ start.registry.changes x.cluster (start.calls (before ++ .sample i :: after)),
        s.gate.target ≤ y.2 := by
    have htaken := hc.taken_eq hs₀ free opened hstart (hlisten.handle ▸ hfinal ▸ hx) hl
      (hfinal ▸ hdrained ch hch)
    rw [hlisten.released, htaken, exists_post_iff, ← hlisten.target, hv]
    simp
  refine ⟨⟨earlier, before, after, rfl, ?_, ?_⟩, ?_, ?_, ?_⟩
  · rw [hs₀, Option.map_some, free]
  · rw [hrun, hstart]
    refine ⟨?_, hstart ▸ hsize, hstart ▸ hreleased⟩
    rw [starter_subscribe hs₀ free opened, hch]
    rfl
  · intro henough
    have hcalls := calls_append start before (.sample i :: after)
    have hlt₀ := hc.handle_lt_subscribe hs₀ free opened
    have hlt : s.handle < start.registry.next := by
      rw [hstart, hlisten.handle]
      exact hlt₀
    rw [hfinal, registry_run, hcalls] at hx henough
    rw [registry_run] at hsize
    refine hreleased.2 ?_
    rw [hcalls]
    exact enough_seen hc₁.coherent hl hlt hx hsize henough
  · intro j t ht hreleased moves'
    rw [run_append]
    exact hsound.released_run ht hreleased moves'
  · intro target calls q
    rw [Gate.answer_run_iff]
    exact and_iff_right rfl

/-- A second member joins after the first one has sampled. -/
def lateJoiner : List Move :=
  [.join "c1" [] 2, .subscribe 0, .sample 0, .join "c1" [] 2, .deliver 0, .deliver 0]

theorem gate_released_iff_lateJoiner :
    let c := ({} : Convergence).run lateJoiner
    let s : Starter := ⟨1, ⟨2, true⟩, some 2, some 1⟩
    c.starters[0]? = some s ∧ c.registry.handles[1]? = some ⟨0, 1, false⟩ ∧
      c.registry.waiting 2 = [] ∧ 2 ≤ (c.registry.membersOf 0).card ∧
      ∃ earlier later, lateJoiner = earlier ++ .subscribe 0 :: later ∧
        let start := ({} : Convergence).run (earlier ++ [.subscribe 0])
        ∃ y ∈ start.registry.changes 0 (start.calls later), 2 ≤ y.2 := by
  intro c s
  have hs : c.starters[0]? = some s := by decide +kernel
  have hx : c.registry.handles[1]? = some ⟨0, 1, false⟩ := by decide +kernel
  have hwait : c.registry.waiting 2 = [] := by decide +kernel
  have henough : 2 ≤ (c.registry.membersOf 0).card := by decide +kernel
  have hdrained : ∀ ch, s.channel = some ch → c.registry.waiting ch = [] := by
    intro ch hch
    cases hch
    exact hwait
  obtain ⟨⟨earlier, before, after, hmoves, -, -, -, hiff⟩, -⟩ :=
    gate_released_iff lateJoiner hs rfl hx rfl hdrained
  refine ⟨hs, hx, hwait, henough, earlier, before ++ .sample 0 :: after, hmoves, ?_⟩
  exact (hiff.1 rfl).resolve_left (by decide)

end Convergence

end CacheBench
