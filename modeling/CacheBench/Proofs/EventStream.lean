import CacheBench.Proofs.Listeners

/-!
# What a channel delivers

A channel delivers the events that were taken from it and those that wait in it. As long as its
member stays, these are the two phases of each change of the cluster after the subscription, in
order. The member's own leave is not told to it.
-/

namespace CacheBench

open Std (TreeMap)

namespace Registry

def taken (r : Registry) (ch : ChannelId) : List Call → List Event
  | [] => []
  | call :: calls => r.takes ch call ++ (r.step call).taken ch calls

def delivered (r : Registry) (ch : ChannelId) (calls : List Call) : List Event :=
  r.taken ch calls ++ (r.run calls).waiting ch

variable {r r' : Registry} {x : Handle} {ch : ChannelId}

/-- The channel of a member is heard in the member's cluster, and only there. -/
theorem Opened.hears_iff (ho : r.Opened x ch) (hch : ch ∈ r.channels) (hl : x.left = false)
    {id : ClusterId} {c : Roll} (hc : r.roll? id = some c) :
    (∃ l ∈ c.listeners, l.channel = ch) ↔ id = x.cluster ∧ x.node ∈ c.members := by
  constructor
  · rintro ⟨l, hmem, rfl⟩
    obtain ⟨rfl, howner⟩ := ho.sole id c l hc hmem rfl
    rcases ho.member c hc (howner ▸ hmem) with hleft | hn
    · cases hl.symm.trans hleft
    · exact ⟨rfl, hn⟩
  · rintro ⟨rfl, hn⟩
    exact ⟨_, ho.listens c hc hch (.inr hn), rfl⟩

theorem Opened.waiting_enroll (ho : r.Opened x ch) (hr : r.Coherent) (hch : ch ∈ r.channels)
    (hl : x.left = false) {id : ClusterId} {c : Cluster} (seeds : List String)
    (hc : r.clusters[id]? = some c) :
    (r.enroll id c seeds).waiting ch = r.waiting ch ++
      if id = x.cluster ∧ x.node ∈ (r.enroll id c seeds).membersOf x.cluster then
        Event.phases ((r.enroll id c seeds).membersOf x.cluster).card (.joined c.nextNode)
      else [] := by
  have hroll : r.roll? id = some c.roll := r.roll?_of_cluster hc
  have hheard : (∃ l ∈ c.listeners, l.channel = ch) ↔ id = x.cluster ∧ x.node ∈ c.members :=
    ho.hears_iff hch hl hroll
  rw [waiting_eq, getElem?_channels_enroll _ _ _ _ (hr.nodup id c.roll hroll), waiting_of_mem hch]
  by_cases hid : id = x.cluster
  · subst id
    have hroll' := r.roll?_enroll x.cluster x.cluster c seeds
    rw [if_pos rfl] at hroll'
    have hne : x.node ≠ c.nextNode := (ho.node_lt c.roll hroll).ne
    have hmem : x.node ∈ (r.enroll x.cluster c seeds).membersOf x.cluster ↔ x.node ∈ c.members := by
      rw [membersOf_enroll seeds hc, if_pos rfl, Finset.mem_insert, mem_membersOf_of_cluster hc]
      exact or_iff_right hne
    rw [card_membersOf hroll']
    simp only [hheard, hmem, true_and]
    split
    · rfl
    · exact (List.append_nil _).symm
  · have hno : ¬ ∃ l ∈ c.listeners, l.channel = ch := fun h => hid (hheard.1 h).1
    rw [if_neg hno, if_neg fun h => hid h.1, List.append_nil]
    rfl

/-- The listener of the one who leaves is not told. -/
theorem Opened.waiting_depart (ho : r.Opened x ch) (hr : r.Coherent) (hch : ch ∈ r.channels)
    (hl : x.left = false) {h : HandleId} {y : Handle} {c : Cluster}
    (hc : r.clusters[y.cluster]? = some c) :
    (r.depart h y c).waiting ch = r.waiting ch ++
      if y.cluster = x.cluster ∧ x.node ∈ (r.depart h y c).membersOf x.cluster then
        Event.phases ((r.depart h y c).membersOf x.cluster).card (.left y.node)
      else [] := by
  have hroll : r.roll? y.cluster = some c.roll := r.roll?_of_cluster hc
  have hheard : (∃ l ∈ c.listeners, l.channel = ch) ↔ y.cluster = x.cluster ∧ x.node ∈ c.members :=
    ho.hears_iff hch hl hroll
  rw [waiting_eq, getElem?_channels_depart _ _ _ _ (hr.nodup _ c.roll hroll), waiting_of_mem hch]
  by_cases hid : y.cluster = x.cluster
  · have hroll' := r.roll?_depart h y c x.cluster
    rw [if_pos hid] at hroll'
    have hmem : x.node ∈ (r.depart h y c).membersOf x.cluster ↔
        x.node ≠ y.node ∧ x.node ∈ c.members := by
      rw [membersOf_depart hc, if_pos hid, Finset.mem_erase, ← hid, mem_membersOf_of_cluster hc]
    have htold : (∃ l ∈ c.listeners, l.owner ≠ y.node ∧ l.channel = ch) ↔
        x.node ≠ y.node ∧ x.node ∈ c.members := by
      constructor
      · rintro ⟨l, hmem, hne, hlch⟩
        have howner := (ho.sole _ c.roll l hroll hmem hlch).2
        exact ⟨howner ▸ hne, (hheard.1 ⟨l, hmem, hlch⟩).2⟩
      · rintro ⟨hne, hn⟩
        obtain ⟨l, hmem, hlch⟩ := hheard.2 ⟨hid, hn⟩
        have howner := (ho.sole _ c.roll l hroll hmem hlch).2
        exact ⟨l, hmem, howner ▸ hne, hlch⟩
    rw [card_membersOf hroll']
    simp only [htold, hmem, hid, true_and]
    split
    · rfl
    · exact (List.append_nil _).symm
  · have hno : ¬ ∃ l ∈ c.listeners, l.owner ≠ y.node ∧ l.channel = ch := by
      rintro ⟨l, hmem, -, hlch⟩
      exact hid (hheard.1 ⟨l, hmem, hlch⟩).1
    rw [if_neg hno, if_neg fun h => hid h.1, List.append_nil]
    rfl

theorem Opened.waiting_leave (ho : r.Opened x ch) (hr : r.Coherent) (hch : ch ∈ r.channels)
    (hl : x.left = false) {h : HandleId} {y : Handle} {c : Cluster}
    (hy : r.handles[h]? = some y) (hm : y.left = false) (hc : r.clusters[y.cluster]? = some c) :
    (r.depart h y c).waiting ch = r.waiting ch ++
      if x.node ∈ (r.depart h y c).membersOf x.cluster then
        (r.change? x.cluster (.leave h)).toList.flatMap
          (Event.phases ((r.depart h y c).membersOf x.cluster).card)
      else [] := by
  rw [ho.waiting_depart hr hch hl hc, change?_leave hy hm]
  by_cases hid : y.cluster = x.cluster
  · simp [hid]
  · simp [hid]

/-- What a call tells the member of a channel, and what it takes from the channel. -/
theorem Opened.takes_append_waiting (ho : r.Opened x ch) (hr : r.Coherent) (hch : ch ∈ r.channels)
    (hl : x.left = false) {call : Call} (hcall : call ≠ .close ch) (he : Effect r call r') :
    r.takes ch call ++ r'.waiting ch = r.waiting ch ++
      if x.node ∈ r'.membersOf x.cluster then
        (r.change? x.cluster call).toList.flatMap (Event.phases (r'.membersOf x.cluster).card)
      else [] := by
  cases he with
  | quiet same unchanged kept =>
      rw [(kept ch hcall).1, unchanged]
      simp
  | @enroll name seeds r₁ id c same channels cluster join =>
      have hw : r₁.waiting ch = r.waiting ch := by rw [waiting, channels, waiting]
      rw [change?_join join, (ho.sameMembers same).waiting_enroll (hr.sameMembers same)
        (channels ▸ hch) hl seeds cluster, hw]
      by_cases hid : id = x.cluster
      · simp [takes, hid]
      · simp [takes, hid]
  | depart handle member cluster => exact ho.waiting_leave hr hch hl handle member cluster
  | @release h y c handle member cluster =>
      have hw : ((r.depart h y c).forget h).waiting ch = (r.depart h y c).waiting ch := by
        rw [waiting, channels_forget, waiting]
      rw [hw, (hr.depart handle cluster).membersOf_forget fun _ => left_of_depart]
      exact ho.waiting_leave hr hch hl handle member cluster
  | @forget h left =>
      have hw : (r.forget h).waiting ch = r.waiting ch := by rw [waiting, channels_forget, waiting]
      have hnone : r.change? x.cluster (.release h) = none := change?_leave_of_left left x.cluster
      rw [hnone, hw]
      simp [takes]
  | @listen h y c handle cluster =>
      have hne : r.next ≠ ch := ho.channel_lt.ne'
      have hw : (r.listen y c).waiting ch = r.waiting ch := by
        rw [waiting_eq, getElem?_channels_listen, if_neg hne, waiting_eq]
      rw [hw]
      simp [takes, change?]

/-- Who has left a cluster does not come back. -/
theorem Opened.mem_of_effect (ho : r.Opened x ch) (hr : r.Coherent) {call : Call}
    (he : Effect r call r') (hn : x.node ∈ r'.membersOf x.cluster) :
    x.node ∈ r.membersOf x.cluster := by
  rcases hr.membersOf_effect x.cluster he with ⟨change, hchange, -, happly⟩ | ⟨-, hsame⟩
  · rw [happly] at hn
    cases change with
    | left n => exact Finset.mem_of_mem_erase hn
    | joined n =>
        rcases Finset.mem_insert.1 hn with rfl | hn
        · obtain ⟨r₁, c, same, hc, hnode⟩ := nextNode_of_joined he hchange
          exact absurd hnode ((ho.sameMembers same).node_lt c hc).ne
        · exact hn
  · rwa [hsame] at hn

theorem Opened.mem_of_run (ho : r.Opened x ch) (hr : r.Coherent) (calls : List Call)
    (hn : x.node ∈ (r.run calls).membersOf x.cluster) : x.node ∈ r.membersOf x.cluster := by
  induction calls generalizing r with
  | nil => exact hn
  | cons call calls ih =>
      have he := hr.effect_step call
      exact ho.mem_of_effect hr he (ih (ho.effect hr he) (hr.step call) hn)

theorem delivered_cons (r : Registry) (ch : ChannelId) (call : Call) (calls : List Call) :
    r.delivered ch (call :: calls) = r.takes ch call ++ (r.step call).delivered ch calls := by
  rw [delivered, taken, List.append_assoc]
  rfl

theorem taken_append (r : Registry) (ch : ChannelId) (calls calls' : List Call) :
    r.taken ch (calls ++ calls') = r.taken ch calls ++ (r.run calls).taken ch calls' := by
  induction calls generalizing r with
  | nil => rfl
  | cons call calls ih =>
      rw [List.cons_append, taken, taken, ih, List.append_assoc]
      rfl

theorem delivered_append (r : Registry) (ch : ChannelId) (calls calls' : List Call) :
    r.delivered ch (calls ++ calls') = r.taken ch calls ++ (r.run calls).delivered ch calls' := by
  rw [delivered, taken_append, List.append_assoc, run_append]
  rfl

/-- As long as the member stays, its channel delivers both phases of every change. -/
theorem Opened.delivered_of_mem (ho : r.Opened x ch) (hr : r.Coherent) (hch : ch ∈ r.channels)
    (hl : x.left = false) {calls : List Call} (hcalls : .close ch ∉ calls)
    (hn : x.node ∈ (r.run calls).membersOf x.cluster) :
    r.delivered ch calls = r.waiting ch ++
      (r.changes x.cluster calls).flatMap fun y => Event.phases y.2 y.1 := by
  induction calls generalizing r with
  | nil =>
      rw [changes]
      exact (List.append_nil _).symm
  | cons call calls ih =>
      obtain ⟨hne, hcalls⟩ := not_or.1 (mt List.mem_cons.2 hcalls)
      have he := hr.effect_step call
      have ho' := ho.effect hr he
      have hstep := ho.takes_append_waiting hr hch hl (Ne.symm hne) he
      rw [if_pos (ho'.mem_of_run (hr.step call) calls hn)] at hstep
      rw [delivered_cons, ih ho' (hr.step call) (he.mem_channels (Ne.symm hne) hch) hcalls hn,
        ← List.append_assoc, hstep, changes, List.flatMap_append, List.append_assoc]
      cases r.change? x.cluster call <;> simp

/-- Once the member has left, its channel gets nothing more. -/
theorem Opened.delivered_of_not_mem (ho : r.Opened x ch) (hr : r.Coherent)
    (hch : ch ∈ r.channels) (hl : x.left = false) {calls : List Call} (hcalls : .close ch ∉ calls)
    (hn : x.node ∉ r.membersOf x.cluster) : r.delivered ch calls = r.waiting ch := by
  induction calls generalizing r with
  | nil => rfl
  | cons call calls ih =>
      obtain ⟨hne, hcalls⟩ := not_or.1 (mt List.mem_cons.2 hcalls)
      have he := hr.effect_step call
      have hn' : x.node ∉ (r.step call).membersOf x.cluster :=
        fun h => hn (ho.mem_of_effect hr he h)
      have hstep := ho.takes_append_waiting hr hch hl (Ne.symm hne) he
      rw [if_neg hn', List.append_nil] at hstep
      have hch' := he.mem_channels (Ne.symm hne) hch
      rw [delivered_cons, ih (ho.effect hr he) (hr.step call) hch' hcalls hn', hstep]

theorem Opened.isOpen_iff_mem (ho : r.Opened x ch) (hch : ch ∈ r.channels) (hl : x.left = false) :
    r.isOpen ch ↔ x.node ∈ r.membersOf x.cluster := by
  rw [ho.isOpen_iff hch]
  constructor
  · rintro ⟨c, hc, hleft | hn⟩
    · cases hl.symm.trans hleft
    · exact (mem_membersOf_of_cluster hc).2 hn
  · intro hn
    cases hc : r.clusters[x.cluster]? with
    | none => simp [membersOf, roll?, hc] at hn
    | some c => exact ⟨c, rfl, .inr ((mem_membersOf_of_cluster hc).1 hn)⟩

/-- By its own leave a member closes its channel, and nothing is told to it from then on. -/
theorem Opened.own_leave (ho : r.Opened x ch) (hr : r.Coherent) (hch : ch ∈ r.channels)
    (hl : x.left = false) {h : HandleId} (hx : r.handles[h]? = some x) {own : Call}
    {rest : List Call} (hown : own = .leave h ∨ own = .release h) (hrest : .close ch ∉ rest) :
    ¬ (r.run (own :: rest)).isOpen ch ∧ r.delivered ch (own :: rest) = r.waiting ch := by
  have he := hr.effect_step own
  have hgone := hr.not_mem_of_own he hown hx hl
  have hne : own ≠ .close ch := by
    rintro rfl
    rcases hown with hown | hown
    · cases hown
    · cases hown
  have hr' := hr.step own
  have ho' := ho.effect hr he
  have hch' := he.mem_channels hne hch
  constructor
  · have hrun : r.run (own :: rest) = (r.step own).run rest := rfl
    rw [hrun, (ho'.run hr' rest).isOpen_iff_mem (hr'.mem_channels_run hrest hch') hl]
    exact fun hback => hgone (ho'.mem_of_run hr' rest hback)
  · have hstep := ho.takes_append_waiting hr hch hl hne he
    rw [if_neg hgone, List.append_nil] at hstep
    rw [delivered_cons, ho'.delivered_of_not_mem hr' hch' hl hrest hgone, hstep]

/-- A member's channel replays the changes of its cluster until it leaves itself. -/
theorem channel_replays_members {earlier : List Call} {h : HandleId} {x : Handle} {ch : ChannelId}
    (hx : (({} : Registry).run earlier).handles[h]? = some x) (hl : x.left = false)
    (hch : ((({} : Registry).run earlier).subscribe h).map Prod.fst = some ch) {later : List Call}
    (hlater : ∀ call ∈ later, call ≠ .leave h ∧ call ≠ .release h ∧ call ≠ .close ch) :
    let r := ({} : Registry).run (earlier ++ [.subscribe h])
    let changes := r.changes x.cluster later
    (r.run later).isOpen ch ∧
    r.delivered ch later = (changes.flatMap fun y => Event.phases y.2 y.1) ∧
    ((r.membersOf x.cluster).card :: changes.map Prod.snd).IsChain
      (fun m n => n = m + 1 ∨ m = n + 1) ∧
    (r.run later).membersOf x.cluster =
      (changes.map Prod.fst).foldl (fun members change => change.apply members)
        (r.membersOf x.cluster) ∧
    (∀ own rest, own = .leave h ∨ own = .release h → .close ch ∉ rest →
      ¬ (r.run (later ++ own :: rest)).isOpen ch ∧
        r.delivered ch (later ++ own :: rest) = r.delivered ch later) ∧
    ∀ (a : HandleId) (y : Handle), (r.run later).handles[a]? = some y → y.left = true →
      ((r.run later).leave a).channels = (r.run later).channels ∧
        ((r.run later).release a).channels = (r.run later).channels := by
  intro r changes
  have hr₀ := coherent_run earlier
  have hrun : r = (({} : Registry).run earlier).step (.subscribe h) := run_append _ _ _
  have hr : r.Coherent := coherent_run _
  obtain ⟨ho, hrecv, hwait, hx'⟩ : r.Opened x ch ∧ ch ∈ r.channels ∧ r.waiting ch = [] ∧
      r.handles[h]? = some x := hrun ▸ hr₀.opened_subscribe hx hch
  have hclose : .close ch ∉ later := fun hmem => (hlater _ hmem).2.2 rfl
  have hlater' : ∀ call ∈ later, call ≠ .leave h ∧ call ≠ .release h :=
    fun call hmem => ⟨(hlater call hmem).1, (hlater call hmem).2.1⟩
  have hxl := hr.handle_run hx' hlater'
  have hrl := hr.run later
  have hn := hrl.mem_membersOf_of_handle hxl hl
  have hol := ho.run hr later
  have hrecvl := hr.mem_channels_run hclose hrecv
  have hreplay : Replay (r.membersOf x.cluster) changes ((r.run later).membersOf x.cluster) :=
    hr.replay x.cluster later
  refine ⟨(hol.isOpen_iff_mem hrecvl hl).2 hn, ?_, hreplay.steps, hreplay.eq_foldl, ?_,
    fun a y => channels_of_left⟩
  · rw [ho.delivered_of_mem hr hrecv hl hclose hn, hwait]
    rfl
  · intro own rest hown hrest
    obtain ⟨hclosed, hdelivered⟩ := hol.own_leave hrl hrecvl hl hxl hown hrest
    rw [run_append, delivered_append, hdelivered]
    exact ⟨hclosed, rfl⟩

/-- A third member joins. The second one subscribes and gives up its channel, then it leaves, leaves
again and drops its handle. -/
def comingAndGoing : List Call :=
  [.join "c1" [], .subscribe 2, .receive 3, .close 5, .leave 2, .leave 2, .release 2]

theorem channel_replays_members_comingAndGoing :
    let two : List Call := [.join "c1" [], .join "c1" []]
    let r := ({} : Registry).run (two ++ [.subscribe 1])
    (({} : Registry).run two).handles[1]? = some ⟨0, 1, false⟩ ∧
    ((({} : Registry).run two).subscribe 1).map Prod.fst = some 3 ∧
    (∀ call ∈ comingAndGoing, call ≠ .leave 1 ∧ call ≠ .release 1 ∧ call ≠ .close 3) ∧
    r.delivered 3 comingAndGoing =
      Event.phases 3 (.joined 3) ++ Event.phases 2 (.left 2) ∧
    (r.run comingAndGoing).isOpen 3 ∧ ¬ (r.run (comingAndGoing ++ [.leave 1])).isOpen 3 := by
  intro two r
  have hx : (({} : Registry).run two).handles[1]? = some ⟨0, 1, false⟩ := by decide +kernel
  have hch : ((({} : Registry).run two).subscribe 1).map Prod.fst = some 3 := by decide +kernel
  have hlater : ∀ call ∈ comingAndGoing, call ≠ .leave 1 ∧ call ≠ .release 1 ∧ call ≠ .close 3 := by
    simp [comingAndGoing]
  obtain ⟨hopen, hdelivered, -, -, hown, -⟩ := channel_replays_members hx rfl hch hlater
  refine ⟨hx, hch, hlater, hdelivered.trans ?_, hopen, (hown (.leave 1) [] (.inl rfl) ?_).1⟩
  · decide +kernel
  · simp

end Registry

end CacheBench
