import RosettaMq.Client.Deadlock
import RosettaMq.Engine.Termination

/-!
# Mirroring in full

Every step of the pipeline uses up some potential (`Pipeline.Step.potential_lt`), so every run of it
ends. If the deliveries are no overload it does not end in a deadlock, so it ends when there is
nothing left to do. Then the driver has taken all outputs of all messages
(`Pipeline.mirrors_all_iff`).
-/

open Relation

namespace RosettaMq

/-- Whether the driver is there. -/
def Driver.potential : Driver → ℕ
  | .polling | .forwarding _ => 1
  | .returned => 0

namespace Pipeline

variable {cap : ℕ} {registry : DecoderRegistry} {s s' : Pipeline} {deliveries : List Publish}

/-- The steps that a message still causes when the driver holds it, and those before. -/
def queued (registry : DecoderRegistry) (s : Pipeline) : ℕ :=
  (s.deliveries.map fun m => registry.cost m + 2).sum +
    (s.driver.holding.toList.map fun m => registry.cost m + 1).sum +
    (s.incoming.buf.map registry.cost).sum

/-- How many steps the pipeline can take at most. -/
def potential (registry : DecoderRegistry) (s : Pipeline) : ℕ :=
  s.queued registry + s.driver.potential + s.incoming.rxOpen.toNat +
    s.engine.potential + s.requests.buf.length

/-- Every step of the pipeline uses up some potential, unless the receiver of the incoming channel
is dropped for another time. -/
theorem Step.potential_lt (h : Step cap registry s s') :
    s'.potential registry < s.potential registry ∨ s' = s ∧ s.incoming.rxOpen = false := by
  by_cases hdrop : s' = s ∧ s.incoming.rxOpen = false
  · exact Or.inr hdrop
  refine Or.inl ?_
  cases h with
  | pollRequest _ hrecv =>
    obtain ⟨hbuf, -, -⟩ := Chan.recv_eq_some_iff.mp hrecv
    simp [potential, queued, hbuf]
  | pollPublish hdriver hdel =>
    simp only [potential, queued, hdriver, hdel, Driver.holding, Driver.potential,
      Option.toList_none, Option.toList_some, List.map_cons, List.map_nil, List.sum_cons,
      List.sum_nil]
    omega
  | forward hdriver hsend =>
    obtain ⟨-, -, hbuf, -, hrx⟩ := Chan.send_eq_some_iff.mp hsend
    simp only [potential, queued, hdriver, hbuf, hrx, Driver.holding, Driver.potential,
      Option.toList_none, Option.toList_some, List.map_append, List.map_cons, List.map_nil,
      List.sum_append, List.sum_cons, List.sum_nil]
    omega
  | forwardFails hdriver =>
    simp only [potential, queued, hdriver, Driver.holding, Driver.potential, Chan.buf_closeTx,
      Chan.rxOpen_closeTx, Chan.buf_closeRx, Option.toList_none, Option.toList_some,
      List.map_cons, List.map_nil, List.sum_cons, List.sum_nil]
    omega
  | recv hrecv hstep =>
    rename_i message _ _
    have hlt := hstep.potential_lt (by simp)
    simp only [Action.requests] at hlt
    cases message with
    | none =>
      obtain ⟨-, -, rfl⟩ := Chan.recv_eq_none_iff.mp hrecv
      simp only [Action.cost] at hlt
      simp only [potential, queued]
      omega
    | some m =>
      obtain ⟨hbuf, -, hrx⟩ := Chan.recv_eq_some_iff.mp hrecv
      simp only [Action.cost] at hlt
      simp only [potential, queued, hbuf, hrx, List.map_cons, List.sum_cons]
      omega
  | publish hsend hstep =>
    -- the request that is added is one step for the driver
    obtain ⟨-, -, hbuf, -, -⟩ := Chan.send_eq_some_iff.mp hsend
    have hlt := hstep.potential_lt (by simp)
    simp only [Action.requests, Action.cost] at hlt
    simp only [potential, queued, hbuf, List.length_append, List.length_singleton]
    omega
  | publishFails _ hstep | engine hstep =>
    have hlt := EngineState.Step.potential_lt hstep (by simp)
    simp only [Action.requests, Action.cost] at hlt
    simp only [potential, queued]
    omega
  | dropIncoming =>
    cases hrx : s.incoming.rxOpen with
    | true => simp [potential, queued, hrx]
    | false =>
      have heq : s.incoming.closeRx = s.incoming := Chan.ext rfl rfl hrx.symm
      rw [heq] at hdrop
      exact absurd ⟨rfl, hrx⟩ hdrop

/-! ## The end of a run -/

/-- The pipeline runs, keeps the order of the messages, and no message was refused by the client. -/
structure Intact (cap : ℕ) (registry : DecoderRegistry) (deliveries : List Publish)
    (s : Pipeline) : Prop where
  live : s.Live cap registry
  inOrder : s.InOrder deliveries
  conserved : s.Conserved
  handed : s.handed = s.engine.log

theorem intact_start (h : ∀ m ∈ deliveries, ¬ registry.HangsOn m) :
    (start deliveries).Intact cap registry deliveries where
  live := live_start h
  inOrder := ⟨fun _ => rfl, List.nil_prefix⟩
  conserved := rfl
  handed := rfl

/-- While the pipeline runs the client takes every message that is handed over. -/
theorem Step.handed_eq (h : Step cap registry s s') (hs : s.Running)
    (hlog : s.handed = s.engine.log) : s'.handed = s'.engine.log := by
  cases h with
  | pollRequest | pollPublish | forward | forwardFails | dropIncoming => exact hlog
  | recv _ hstep | engine hstep =>
    dsimp only
    rw [EngineState.Step.log_eq hstep, Action.published, List.append_nil]
    exact hlog
  | publish _ hstep =>
    dsimp only
    rw [hstep.log_eq, hlog]
    rfl
  | publishFails hclosed =>
    rw [hs.requests_rx] at hclosed
    cases hclosed

theorem Step.intact (h : Step cap registry s s') (hs : s.Intact cap registry deliveries) :
    s'.Intact cap registry deliveries where
  live := h.live hs.live
  inOrder := h.inOrder hs.inOrder
  conserved := h.conserved hs.conserved
  handed := h.handed_eq hs.live.running hs.handed

theorem descends_step (deliveries : List Publish) :
    Descends (Step cap registry) (Intact cap registry deliveries) (potential registry) where
  keeps hs h := h.intact hs
  lt hs h := by
    rcases h.potential_lt with hlt | ⟨-, hrx⟩
    · exact hlt
    · -- the engine holds the receiver until it returns
      rw [hs.live.running.incoming_rx] at hrx
      cases hrx

/-- The driver has taken all outputs of all deliveries, and there is nothing left to do. -/
structure Mirrored (registry : DecoderRegistry) (deliveries : List Publish) (s : Pipeline) :
    Prop where
  idle : ¬ s.Unfinished
  received : s.engine.received = deliveries
  taken : (deliveries.map registry.outputs).IsInterleaving
    ((s.taken.filterMap Request.asPublish).map (·.2))

/-- When there is nothing left to do, everything has been mirrored. -/
theorem Intact.mirrored (hreg : registry.Returns) (hs : s.Intact cap registry deliveries)
    (hidle : ¬ s.Unfinished) : s.Mirrored registry deliveries := by
  have hleft := hidle
  simp only [Unfinished, not_or, not_not] at hleft
  obtain ⟨hdeliveries, hholding, hincoming, htasks, hrequests⟩ := hleft
  have hreceived : s.engine.received = deliveries := by
    rw [← hs.inOrder.all hs.live.running.driver, messages, hincoming, hholding, hdeliveries]
    simp
  refine ⟨hidle, hreceived, ?_⟩
  have htaken : s.taken.filterMap Request.asPublish = s.engine.log := by
    rw [← hs.handed, hs.conserved, hrequests, List.append_nil]
  have hparts : s.engine.parts = deliveries.map registry.outputs := by
    rw [← hreceived]
    refine hs.live.engine.refines.parts_eq hs.live.engine.accounted hreg
      (by simp [hs.live.running.phase]) fun x hx => ?_
    rw [htasks] at hx
    cases hx
  rw [htaken, ← hparts]
  exact hs.live.engine.refines.isInterleaving_log

/-- Without overload no run ends in a deadlock. -/
theorem not_unfinished_of_final (hcap : 1 ≤ cap) (hreg : registry.Terminates)
    (hload : ¬ Overload cap registry deliveries) (hs : Reachable cap registry deliveries s)
    (hfinal : Final (Step cap registry) s) : ¬ s.Unfinished := by
  intro hun
  rw [← exists_deadlocked_iff hcap hreg] at hload
  exact hload ⟨s, hs, hun, hfinal⟩

/-- Every run of the pipeline ends, after a number of steps that the deliveries bound. It ends with
all outputs of all messages taken by the driver, whatever the order of steps, exactly if the
deliveries are no overload. -/
theorem mirrors_all_iff (hcap : 1 ≤ cap) (hreg : registry.Returns) (deliveries : List Publish) :
    (∀ l, (start deliveries :: l).IsChain (Step cap registry) →
      l.length ≤ (deliveries.map fun m => registry.cost m + 2).sum + 4) ∧
    (∀ s, Reachable cap registry deliveries s →
      ∃ s', ReflTransGen (Step cap registry) s s' ∧ Final (Step cap registry) s') ∧
    ((∀ s, Reachable cap registry deliveries s → Final (Step cap registry) s →
      s.Mirrored registry deliveries) ↔ ¬ Overload cap registry deliveries) := by
  have hstart := @intact_start cap registry deliveries fun m _ => hreg.terminates.not_hangsOn m
  have hdesc := @descends_step cap registry deliveries
  refine ⟨fun l hl => ?_, fun s hs => hdesc.exists_final (hdesc.of_run hstart hs), ?_⟩
  · have hle := hdesc.length_le hstart hl
    exact hle
  · constructor
    · intro hall
      rw [← exists_deadlocked_iff hcap hreg.terminates]
      rintro ⟨s, hs, hun, hstuck⟩
      exact (hall s hs hstuck).idle hun
    · intro hload s hs hfinal
      exact (hdesc.of_run hstart hs).mirrored hreg
        (not_unfinished_of_final hcap hreg.terminates hload hs hfinal)

open EngineState (sensorMessage) in
/-- A single message is mirrored in every run. -/
theorem mirrors_all_sensorMessage :
    ¬ Overload 1 .sensorRegistry [sensorMessage] ∧
      ¬ ∃ s, Reachable 1 .sensorRegistry [sensorMessage] s ∧
        Final (Step 1 .sensorRegistry) s ∧ ¬ s.Mirrored .sensorRegistry [sensorMessage] := by
  have hload : ¬ Overload 1 .sensorRegistry [sensorMessage] := by
    -- nothing is delivered after the only message
    rintro ⟨early, m, rest, parked, hsplit, hrest, -⟩
    have hlen := congrArg List.length hsplit
    simp only [List.length_append, List.length_cons, List.length_nil] at hlen hrest
    omega
  refine ⟨hload, fun ⟨s, hs, hfinal, hnot⟩ => hnot ?_⟩
  have hreg := DecoderRegistry.sensorRegistry_builtin.returns
  exact (mirrors_all_iff (Nat.le_refl 1) hreg [sensorMessage]).2.2.mpr hload s hs hfinal

end Pipeline

end RosettaMq
