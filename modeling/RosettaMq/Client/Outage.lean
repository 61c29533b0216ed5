import RosettaMq.Client.Startup

/-!
# Loss of the connection

The driver of `Client::connect` returns as soon as `eventloop.poll()` returns an error. Here any
poll may do so. Until the driver returns the process has run as if the connection stayed up
(`Startup.LossyReachable.reachable`), and from then on nothing is handed to the client any more and
the engine receives nothing but the messages that are already in its channel
(`Startup.after_outage`).
-/

open Relation

namespace RosettaMq

namespace Pipeline

variable {cap : ℕ} {registry : DecoderRegistry} {s s' : Pipeline} {deliveries : List Publish}

/-- The driver returns, which drops the event loop and the sender of incoming messages. -/
def disconnect (s : Pipeline) : Pipeline :=
  { s with driver := .returned, incoming := s.incoming.closeTx, requests := s.requests.closeRx }

/-- When the driver has returned, its ends of the channels are gone. -/
def Dropped (s : Pipeline) : Prop :=
  s.driver = .returned → s.requests.rxOpen = false ∧ s.incoming.txOpen = false

theorem Step.dropped (h : Step cap registry s s') (hs : s.Dropped) : s'.Dropped := by
  intro hdriver
  cases h with
  | pollRequest hpolling =>
    rw [show s.driver = .returned from hdriver] at hpolling
    cases hpolling
  | pollPublish | forward => cases hdriver
  | forwardFails => exact ⟨rfl, rfl⟩
  | @recv message _ _ hrecv =>
    obtain ⟨hrequests, hincoming⟩ := hs hdriver
    cases message with
    | none =>
      obtain ⟨-, -, rfl⟩ := Chan.recv_eq_none_iff.mp hrecv
      exact ⟨hrequests, hincoming⟩
    | some m =>
      obtain ⟨-, htx, -⟩ := Chan.recv_eq_some_iff.mp hrecv
      exact ⟨hrequests, htx.trans hincoming⟩
  | publish hsend =>
    obtain ⟨-, -, -, -, hrx⟩ := Chan.send_eq_some_iff.mp hsend
    exact ⟨hrx.trans (hs hdriver).1, (hs hdriver).2⟩
  | publishFails | engine | dropIncoming => exact hs hdriver

/-- The driver has returned, and what has been handed over, taken and forwarded is that of `s`. -/
structure SameTraffic (s s' : Pipeline) : Prop where
  driver : s'.driver = .returned
  handed : s'.handed = s.handed
  taken : s'.taken = s.taken
  forwarded : s'.engine.received ++ s'.incoming.buf = s.engine.received ++ s.incoming.buf

/-- Once the driver has returned no step changes this. -/
theorem Step.sameTraffic (h : Step cap registry s s') (hs : s.Dropped)
    (hdriver : s.driver = .returned) : s.SameTraffic s' := by
  cases h with
  | pollRequest hpolling | pollPublish hpolling | forward hpolling | forwardFails hpolling =>
    rw [hdriver] at hpolling
    cases hpolling
  | recv hrecv hstep =>
    rename_i message _ _
    have hreceived := hstep.received_eq
    refine ⟨hdriver, rfl, rfl, ?_⟩
    -- a message that is received was in the channel
    cases message with
    | none =>
      obtain ⟨-, -, rfl⟩ := Chan.recv_eq_none_iff.mp hrecv
      simp [hreceived, Action.received]
    | some m =>
      obtain ⟨hbuf, -, -⟩ := Chan.recv_eq_some_iff.mp hrecv
      simp [hreceived, hbuf, Action.received]
  | publish hsend =>
    -- the client refuses every message
    obtain ⟨hrx, -⟩ := Chan.send_eq_some_iff.mp hsend
    rw [(hs hdriver).1] at hrx
    cases hrx
  | publishFails _ hstep =>
    refine ⟨hdriver, rfl, rfl, ?_⟩
    simp [hstep.received_eq, Action.received]
  | engine hstep =>
    refine ⟨hdriver, rfl, rfl, ?_⟩
    simp [received_eq_of_silent hstep]
  | dropIncoming => exact ⟨hdriver, rfl, rfl, rfl⟩

/-- Only cancelling the token changes whether it is cancelled. -/
theorem Step.shutdown_eq (h : Step cap registry s s') :
    s'.engine.shutdown = s.engine.shutdown := by
  cases h with
  | pollRequest | pollPublish | forward | forwardFails | dropIncoming => rfl
  | recv _ hstep | publish _ hstep | publishFails _ hstep | engine hstep =>
    exact (EngineState.Step.cancelledAt_eq hstep nofun).2

end Pipeline

namespace Startup

variable (cap : ℕ) (registry : DecoderRegistry) (replies : ℕ → List Publish)

/-- One step of the process or of the broker, when the connection may be lost. -/
inductive LossyStep : Startup → Startup → Prop
  | up {s s'} : Step cap registry replies s s' → LossyStep s s'
  /-- `poll` returns an error, and so does the driver. -/
  | pollFails {s} :
      s.main.phase ≠ .returned → s.main.pipeline.driver = .polling →
      LossyStep s { s with main := { s.main with pipeline := s.main.pipeline.disconnect } }

/-- The states of the runs with such steps. -/
def LossyReachable (filters : List String) (s : Startup) : Prop :=
  ReflTransGen (LossyStep cap registry replies) (start filters) s

variable {cap registry replies} {s s' : Startup} {filters : List String}

/-- What every run keeps: no message is made up on the way, the driver has its ends of the channels,
and `main` cancels the token before it waits for the engine. -/
structure Coherent (cap : ℕ) (registry : DecoderRegistry) (replies : ℕ → List Publish)
    (s : Startup) : Prop where
  pipeline : Main.Consistent cap registry ((List.range s.replied).flatMap replies) s.main.pipeline
  dropped : s.main.pipeline.Dropped
  cancelled : s.main.phase = .awaiting → s.main.pipeline.engine.shutdown = true

theorem dropped_of_mainStep {s s' : Main} (h : Main.Step cap registry s s')
    (hs : s.pipeline.Dropped) : s'.pipeline.Dropped := by
  cases h with
  | subscribe _ hsend =>
    obtain ⟨-, -, -, -, hrx⟩ := Chan.send_eq_some_iff.mp hsend
    exact fun hdriver => ⟨hrx.trans (hs hdriver).1, (hs hdriver).2⟩
  | connected _ hstep | running _ hstep => exact hstep.dropped hs
  | subscribeFails | spawn | driverReturned | ctrlC | joined => exact hs

theorem cancelled_of_mainStep {s s' : Main} (h : Main.Step cap registry s s')
    (hs : s.phase = .awaiting → s.pipeline.engine.shutdown = true)
    (hphase : s'.phase = .awaiting) : s'.pipeline.engine.shutdown = true := by
  cases h with
  | connected _ hstep | running _ hstep =>
    dsimp only
    rw [hstep.shutdown_eq]
    exact hs hphase
  | driverReturned _ _ hcancel | ctrlC _ hcancel =>
    rw [hcancel.of_cancel]
  | subscribe | subscribeFails | spawn | joined => cases hphase

/-- Every step keeps this. -/
theorem LossyStep.coherent (h : LossyStep cap registry replies s s')
    (hs : s.Coherent cap registry replies) : s'.Coherent cap registry replies := by
  obtain ⟨⟨hengine, hconserved, hhanded, hinOrder⟩, hdropped, hcancelled⟩ := hs
  cases h with
  | up hstep =>
    cases hstep with
    | main hmain =>
      exact ⟨hmain.consistent ⟨hengine, hconserved, hhanded, hinOrder⟩,
        dropped_of_mainStep hmain hdropped, cancelled_of_mainStep hmain hcancelled⟩
    | reply =>
      refine ⟨⟨hengine, hconserved, hhanded, ?_⟩, hdropped, hcancelled⟩
      rw [List.range_succ, List.flatMap_append, List.flatMap_singleton]
      exact inOrder_append_deliveries _ hinOrder
  | pollFails =>
    -- messages may be lost from here on, but those that were forwarded stay
    exact ⟨⟨hengine, hconserved, hhanded, fun hne => absurd rfl hne, hinOrder.isPrefix⟩,
      fun _ => ⟨rfl, rfl⟩, hcancelled⟩

theorem LossyReachable.coherent (h : s.LossyReachable cap registry replies filters) :
    s.Coherent cap registry replies := by
  induction h with
  | refl =>
    exact ⟨⟨.refl, rfl, List.Sublist.refl _, fun _ => rfl, List.nil_prefix⟩, nofun, nofun⟩
  | tail _ hstep ih => exact hstep.coherent ih

/-- When the driver has returned no step changes what has been handed over, taken and forwarded. -/
theorem LossyStep.sameTraffic (h : LossyStep cap registry replies s s')
    (hs : s.main.pipeline.Dropped) (hdriver : s.main.pipeline.driver = .returned) :
    s.main.pipeline.SameTraffic s'.main.pipeline := by
  cases h with
  | up hstep =>
    cases hstep with
    | main hmain =>
      cases hmain with
      | subscribe _ hsend =>
        -- the client refuses the subscription
        obtain ⟨hrx, -⟩ := Chan.send_eq_some_iff.mp hsend
        rw [(hs hdriver).1] at hrx
        cases hrx
      | connected _ hstep | running _ hstep => exact hstep.sameTraffic hs hdriver
      | driverReturned _ _ hcancel | ctrlC _ hcancel =>
        rw [hcancel.of_cancel]
        exact ⟨hdriver, rfl, rfl, rfl⟩
      | subscribeFails | spawn | joined => exact ⟨hdriver, rfl, rfl, rfl⟩
    | reply => exact ⟨hdriver, rfl, rfl, rfl⟩
  | pollFails _ hpolling =>
    rw [hdriver] at hpolling
    cases hpolling

/-- Until the driver returns the process runs as if the connection stayed up. -/
theorem LossyReachable.reachable (h : s.LossyReachable cap registry replies filters)
    (hdriver : s.main.pipeline.driver ≠ .returned) :
    s.Reachable cap registry replies filters := by
  induction h with
  | refl => exact .refl
  | tail hrun hstep ih =>
    cases hstep with
    | pollFails => exact absurd rfl hdriver
    | up hup =>
      refine (ih fun hreturned => hdriver ?_).tail hup
      have hdropped := (LossyReachable.coherent hrun).dropped
      exact (LossyStep.sameTraffic (.up hup) hdropped hreturned).driver

/-- However the connection is lost: until the driver returns the process has run as if it stayed up.
From then on, in every continuation, nothing is handed to the client or taken by the driver any
more, and what the engine receives is in its channel already. -/
theorem after_outage (h : s.LossyReachable cap registry replies filters) :
    (s.main.pipeline.driver ≠ .returned → s.Reachable cap registry replies filters) ∧
    (s.main.pipeline.driver = .returned →
      ∀ s', ReflTransGen (LossyStep cap registry replies) s s' →
        s'.main.pipeline.driver = .returned ∧
        s'.main.pipeline.handed = s.main.pipeline.handed ∧
        s'.main.pipeline.taken = s.main.pipeline.taken ∧
        s'.main.pipeline.engine.received ++ s'.main.pipeline.incoming.buf =
          s.main.pipeline.engine.received ++ s.main.pipeline.incoming.buf) := by
  refine ⟨h.reachable, fun hdriver s' hrun => ?_⟩
  induction hrun with
  | refl => exact ⟨hdriver, rfl, rfl, rfl⟩
  | tail hrun hstep ih =>
    obtain ⟨hreturned, hhanded, htaken, hforwarded⟩ := ih
    have hdropped := (LossyReachable.coherent (h.trans hrun)).dropped
    obtain ⟨hreturned', hhanded', htaken', hforwarded'⟩ := hstep.sameTraffic hdropped hreturned
    exact ⟨hreturned', hhanded'.trans hhanded, htaken'.trans htaken,
      hforwarded'.trans hforwarded⟩

/-- The process whose first poll fails. -/
def lostState : Startup :=
  { start ["sensors/a"] with
    main := { Main.start ["sensors/a"] [] with pipeline := (Pipeline.start []).disconnect } }

theorem lossyReachable_lostState :
    lostState.LossyReachable 1 .sensorRegistry (fun _ => []) ["sensors/a"] :=
  .single (.pollFails nofun rfl)

/-- It never subscribes to anything. -/
theorem after_outage_lostState :
    ¬ ∃ s', ReflTransGen (LossyStep 1 .sensorRegistry fun _ => []) lostState s' ∧
      s'.main.pipeline.taken ≠ [] := by
  rintro ⟨s', hrun, htaken⟩
  exact htaken ((after_outage lossyReachable_lostState).2 rfl s' hrun).2.2.1

end Startup

end RosettaMq
