import RosettaMq.Client.Pipeline

/-!
# What becomes of the messages in the pipeline

* `Pipeline.InOrder`: the engine receives the messages in the order of delivery, and none is lost
  as long as the driver runs.
* `Pipeline.Conserved`: each message handed over was taken by the driver or is still in the request
  channel, in the order in which it was handed over.
* `Pipeline.Step.handed_sublist`: each message handed over is in the log of the engine.
-/

open Relation

namespace RosettaMq

/-- The message the driver is forwarding. -/
def Driver.holding : Driver → Option Publish
  | .forwarding m => some m
  | .polling | .returned => none

/-- The message of a publish request, with the index of its task. -/
def Request.asPublish : Request → Option (ℕ × ResolvedDecodePublish)
  | .publish i r => some (i, r)
  | .subscribe _ => none

namespace Pipeline

variable {cap : ℕ} {registry : DecoderRegistry} {s s' : Pipeline}

/-- The messages on their way from the broker to the tasks, in the order of delivery. -/
def messages (s : Pipeline) : List Publish :=
  s.engine.received ++ (s.incoming.buf ++ (s.driver.holding.toList ++ s.deliveries))

/-- The engine shows nothing to the outside. -/
theorem received_eq_of_silent {e e' : EngineState} (h : EngineState.Silent cap registry e e') :
    e'.received = e.received :=
  (EngineState.Step.received_eq h).trans (List.append_nil _)

/-- No step adds a message or changes the order. -/
theorem Step.messages_sublist (h : Step cap registry s s') : s'.messages.Sublist s.messages := by
  cases h with
  | pollRequest | dropIncoming => exact List.Sublist.refl _
  | pollPublish hdriver hdel => simp [messages, Driver.holding, hdriver, hdel]
  | forward hdriver hsend =>
    obtain ⟨-, -, hbuf, -, -⟩ := Chan.send_eq_some_iff.mp hsend
    simp [messages, Driver.holding, hdriver, hbuf]
  | forwardFails hdriver =>
    -- the message the driver was forwarding is lost
    simp [messages, Driver.holding, hdriver]
  | recv hrecv hstep =>
    rename_i message _ _
    have hreceived := hstep.received_eq
    cases message with
    | none =>
      obtain ⟨-, -, rfl⟩ := Chan.recv_eq_none_iff.mp hrecv
      simp [messages, hreceived, Action.received]
    | some m =>
      obtain ⟨hbuf, -, -⟩ := Chan.recv_eq_some_iff.mp hrecv
      simp [messages, hreceived, hbuf, Action.received]
  | publish _ hstep | publishFails _ hstep =>
    simp [messages, hstep.received_eq, Action.received]
  | engine hstep => simp [messages, received_eq_of_silent hstep]

/-- As long as the driver runs no message is lost, and those that have come to the engine or into
its channel are the first that were delivered. -/
structure InOrder (deliveries : List Publish) (s : Pipeline) : Prop where
  all : s.driver ≠ .returned → s.messages = deliveries
  isPrefix : s.engine.received ++ s.incoming.buf <+: deliveries

/-- Every step keeps the order. -/
theorem Step.inOrder {deliveries : List Publish} (h : Step cap registry s s')
    (hs : s.InOrder deliveries) : s'.InOrder deliveries := by
  obtain ⟨hall, hpre⟩ := hs
  cases h with
  | pollRequest | dropIncoming => exact ⟨hall, hpre⟩
  | pollPublish hdriver hdel =>
    refine ⟨fun _ => ?_, hpre⟩
    rw [← hall (by simp [hdriver])]
    simp [messages, Driver.holding, hdriver, hdel]
  | @forward m _ hdriver hsend =>
    obtain ⟨-, -, hbuf, -, -⟩ := Chan.send_eq_some_iff.mp hsend
    have hmessages := hall (by simp [hdriver])
    refine ⟨fun _ => ?_, ?_⟩
    · rw [← hmessages]
      simp [messages, Driver.holding, hdriver, hbuf]
    · rw [← hmessages]
      exact ⟨s.deliveries, by simp [messages, Driver.holding, hdriver, hbuf]⟩
  | forwardFails =>
    -- the driver has returned, so messages may be lost
    exact ⟨fun h => absurd rfl h, hpre⟩
  | recv hrecv hstep =>
    rename_i message _ _
    have hreceived := hstep.received_eq
    cases message with
    | none =>
      obtain ⟨-, -, rfl⟩ := Chan.recv_eq_none_iff.mp hrecv
      simp only [Action.received, List.append_nil] at hreceived
      exact ⟨by simpa [messages, hreceived] using hall, by simpa [hreceived] using hpre⟩
    | some m =>
      obtain ⟨hbuf, -, -⟩ := Chan.recv_eq_some_iff.mp hrecv
      simp only [Action.received] at hreceived
      exact ⟨by simpa [messages, hreceived, hbuf] using hall,
        by simpa [hreceived, hbuf] using hpre⟩
  | publish _ hstep | publishFails _ hstep =>
    have hreceived := hstep.received_eq
    simp only [Action.received, List.append_nil] at hreceived
    exact ⟨by simpa [messages, hreceived] using hall, by simpa [hreceived] using hpre⟩
  | engine hstep =>
    have hreceived := received_eq_of_silent hstep
    exact ⟨by simpa [messages, hreceived] using hall, by simpa [hreceived] using hpre⟩

/-- What is delivered later makes no difference to a step. -/
theorem Step.append_deliveries (rest : List Publish) (h : Step cap registry s s') :
    Step cap registry { s with deliveries := s.deliveries ++ rest }
      { s' with deliveries := s'.deliveries ++ rest } := by
  cases h with
  | pollRequest hdriver hrecv => exact .pollRequest hdriver hrecv
  | pollPublish hdriver hdel => exact .pollPublish hdriver (by simp [hdel])
  | forward hdriver hsend => exact .forward hdriver hsend
  | forwardFails hdriver hclosed => exact .forwardFails hdriver hclosed
  | recv hrecv hstep => exact .recv hrecv hstep
  | publish hsend hstep => exact .publish hsend hstep
  | publishFails hclosed hstep => exact .publishFails hclosed hstep
  | engine hstep => exact .engine hstep
  | dropIncoming hended => exact .dropIncoming hended

theorem append_deliveries_of_run (rest : List Publish)
    (h : ReflTransGen (Step cap registry) s s') :
    ReflTransGen (Step cap registry) { s with deliveries := s.deliveries ++ rest }
      { s' with deliveries := s'.deliveries ++ rest } :=
  h.lift (fun s => { s with deliveries := s.deliveries ++ rest }) fun _ _ hstep =>
    hstep.append_deliveries rest

/-- Each message handed over was taken or is still in the request channel, in this order. -/
def Conserved (s : Pipeline) : Prop :=
  s.handed = (s.taken ++ s.requests.buf).filterMap Request.asPublish

/-- Every step keeps the messages that were handed over. -/
theorem Step.conserved (h : Step cap registry s s') (hs : s.Conserved) : s'.Conserved := by
  unfold Conserved at hs ⊢
  cases h with
  | pollRequest _ hrecv =>
    obtain ⟨hbuf, -, -⟩ := Chan.recv_eq_some_iff.mp hrecv
    simpa [hbuf] using hs
  | publish hsend =>
    -- handed over and put into the channel in one step
    obtain ⟨-, -, hbuf, -, -⟩ := Chan.send_eq_some_iff.mp hsend
    simp [hs, hbuf, Request.asPublish]
  | pollPublish | forward | forwardFails | recv | publishFails | engine | dropIncoming => exact hs

/-- Each message handed over is in the log of the engine. -/
theorem Step.handed_sublist (h : Step cap registry s s') (hs : s.handed.Sublist s.engine.log) :
    s'.handed.Sublist s'.engine.log := by
  cases h with
  | pollRequest | pollPublish | forward | forwardFails | dropIncoming => exact hs
  | publish _ hstep =>
    dsimp only
    rw [hstep.log_eq]
    exact hs.append (List.Sublist.refl [_])
  | recv _ hstep | publishFails _ hstep | engine hstep =>
    dsimp only
    rw [EngineState.Step.log_eq hstep]
    exact hs.trans (List.sublist_append_left _ _)

end Pipeline

end RosettaMq
