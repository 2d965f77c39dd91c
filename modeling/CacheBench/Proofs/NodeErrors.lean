import CacheBench.Proofs.FleetHandles

/-!
# Why nodes fail

A start fails for the reason that one of its steps gives. No step asks whether the node is ready, and
a ready node has its cache or says why not, so that a start followed by a wait and by the look for a
cache never ends because the node was not ready.
-/

namespace CacheBench

open Std (TreeMap)

namespace Node

variable {host : Host} {config : Config} {n n' : Node} {w w' : World} {e : NodeError}

/-- The host made a step fail. -/
def Hindered (e : NodeError) : Prop := ∃ step cause, e = .setback step cause

theorem hindered_attempt {step : StartStep} (h : attempt host step = .error e) : Hindered e := by
  unfold attempt at h
  split at h <;> cases h
  exact ⟨_, _, rfl⟩

theorem hindered_forM {steps : List StartStep} (h : steps.forM (attempt host) = .error e) :
    Hindered e := by
  induction steps with
  | nil => cases h
  | cons step steps ih =>
      change (attempt host step >>= fun _ => steps.forM (attempt host)) = .error e at h
      cases hstep : attempt host step with
      | error e' =>
          rw [hstep] at h
          cases h
          exact hindered_attempt hstep
      | ok _ =>
          rw [hstep] at h
          exact ih h

theorem hindered_defineCaches {store : StoreConfig} {params : ClusterParams} {h : HandleId}
    {names : List String} {m : TreeMap String CacheId} {r : Registry}
    (herror : (defineCaches host store params h names m r).1 = .error e) : Hindered e := by
  induction names generalizing m r with
  | nil => cases herror
  | cons name names ih =>
      unfold defineCaches at herror
      split at herror
      · rename_i hstep
        cases herror
        exact hindered_attempt hstep
      · split at herror
        · exact ih herror
        · exact ih herror

theorem hindered_equip {store : StoreConfig} {params : ClusterParams} {s s' : Starter}
    {r r' : Registry} (h : equip host store params s r = (.error e, s', r')) : Hindered e := by
  unfold equip at h
  split at h
  · rename_i hdefine
    cases h
    exact hindered_defineCaches (congrArg Prod.fst hdefine)
  · split at h
    · rename_i hstep
      cases h
      exact hindered_attempt hstep
    · dsimp only at h
      split at h
      · rename_i hstep
        cases h
        exact hindered_attempt hstep
      · cases h

theorem Hindered.ne_notReady (h : Hindered e) (state : NodeState) : e ≠ .notReady state := by
  obtain ⟨step, cause, rfl⟩ := h
  nofun

theorem startEndpoint_ne_notReady {caches : TreeMap String CacheId}
    (h : n.startEndpoint host config caches w = (.error e, n', w')) (state : NodeState) :
    e ≠ .notReady state := by
  unfold startEndpoint at h
  split at h
  · cases h
    nofun
  · split at h
    · cases h
      nofun
    · cases h
    · split at h
      · rename_i hsteps
        cases h
        exact (hindered_forM hsteps).ne_notReady state
      · cases h

theorem startMember_ne_notReady (h : n.startMember host config w = (.error e, n', w'))
    (state : NodeState) : e ≠ .notReady state := by
  unfold startMember at h
  split at h
  · cases h
    nofun
  · dsimp only at h
    split at h
    · rename_i hstep
      cases h
      exact (hindered_attempt hstep).ne_notReady state
    · split at h
      · rename_i hequip
        cases h
        exact (hindered_equip hequip).ne_notReady state
      · split at h
        · split at h
          · rename_i hserved
            cases h
            exact startEndpoint_ne_notReady hserved state
          · cases h
        · cases h

theorem startClient_ne_notReady (h : n.startClient host config w = (.error e, n', w'))
    (state : NodeState) : e ≠ .notReady state := by
  unfold startClient at h
  split at h
  · cases h
    nofun
  · split at h
    · cases h
      nofun
    · dsimp only at h
      split at h
      · rename_i hstep
        cases h
        exact (hindered_attempt hstep).ne_notReady state
      · split at h <;> cases h
        nofun

theorem start_ne_notReady (h : n.start host config w = (.error e, n', w')) (state : NodeState) :
    e ≠ .notReady state := by
  unfold start at h
  split at h
  · cases h
    nofun
  · split at h
    · cases h
      nofun
    · dsimp only at h
      split at h
      · rename_i hs
        cases h
        split at hs
        · exact startMember_ne_notReady hs state
        · exact startClient_ne_notReady hs state
      · cases h

theorem cache_ne_notReady (hw : w.registry.Coherent) (hn : n.Settled w.registry)
    (hstate : n.state = .ready) {name : String}
    (h : n.cache host w name = (.error e, n', w')) (state : NodeState) : e ≠ .notReady state := by
  unfold Node.cache at h
  rw [if_neg (not_not_intro hstate)] at h
  split at h
  · split at h
    · rename_i s hmember
      split at h
      · cases h
      · cases h
        nofun
      · rename_i hnone
        obtain ⟨x, hx⟩ := hn.live (congrArg (Option.map Starter.handle) hmember)
        obtain ⟨c, hholder⟩ := hw.exists_holder hx
        rw [Registry.cache, hholder] at hnone
        cases hnone
    · cases h
      nofun
  · split at h
    · cases h
    · split at h
      · cases h
        nofun
      · split at h <;> cases h
        nofun
end Node

end CacheBench
