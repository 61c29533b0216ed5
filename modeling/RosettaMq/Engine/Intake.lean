import RosettaMq.Engine.Accounting

/-!
# Intake after cancellation

The iterations of the loop of `run`. Each of them begins a `select!`, which takes whichever enabled
branch is ready and has no preference for the token. So an iteration that begins after the token was
cancelled may still take a message. It does not if no message is ready while the token is cancelled
and the loop runs, or no room is left in the task set (`Intake.stops_intake`).
-/

open Relation

namespace RosettaMq

/-- The engine with its channel of incoming messages. The field `takenLate` records the messages
taken by iterations that began after the token was cancelled. -/
structure Intake (size : ℕ) where
  engine : EngineState
  incoming : Chan Publish size
  /-- Whether the token was cancelled when the iteration that is running began. -/
  iteration : Option Bool
  takenLate : List Publish

namespace Intake

variable {size : ℕ} (cap : ℕ) (registry : DecoderRegistry)

/-- One step of the engine, of a task, or of what surrounds it. -/
inductive Step : Intake size → Intake size → Prop
  /-- A message is put into the channel. -/
  | arrive {s m incoming} :
      s.incoming.send m = some incoming → Step s { s with incoming := incoming }
  | close {s} : Step s { s with incoming := s.incoming.closeTx }
  | cancel {s engine} :
      EngineState.Step cap registry s.engine .cancel engine → Step s { s with engine := engine }
  /-- The loop begins an iteration. -/
  | begin {s} :
      s.iteration = none → s.engine.phase = .looping →
      Step s { s with iteration := some s.engine.shutdown }
  /-- The iteration takes from the channel. -/
  | recv {s late message incoming engine} :
      s.iteration = some late → s.incoming.recv = some (message, incoming) →
      EngineState.Step cap registry s.engine (.recv message) engine →
      Step s
        { engine := engine, incoming := incoming, iteration := none
          takenLate := s.takenLate ++ if late then message.toList else [] }
  /-- The iteration takes another branch: it reaps a task or leaves the loop. -/
  | branch {s late engine} :
      s.iteration = some late → s.engine.phase = .looping →
      EngineState.Silent cap registry s.engine engine →
      engine.reaped ≠ s.engine.reaped ∨ engine.phase ≠ .looping →
      Step s { s with engine := engine, iteration := none }
  /-- A task publishes. -/
  | publish {s i r engine} :
      EngineState.Step cap registry s.engine (.publish i r) engine →
      Step s { s with engine := engine }
  /-- A task takes another step, or the drain does. -/
  | silent {s engine} :
      EngineState.Silent cap registry s.engine engine →
      (s.engine.phase = .looping → engine.reaped = s.engine.reaped ∧ engine.phase = .looping) →
      Step s { s with engine := engine }

/-- `run` before its first iteration. -/
def start (size : ℕ) : Intake size := ⟨.init, .new, none, []⟩

/-- The states of the runs. -/
def Reachable (s : Intake size) : Prop := ReflTransGen (Step cap registry) (start size) s

/-- The states of the runs in which every step starts from a state with `P`. -/
def ReachableWhile (P : Intake size → Prop) (s : Intake size) : Prop :=
  ReflTransGen (fun s s' => P s ∧ Step cap registry s s') (start size) s

/-- While the token is cancelled and the loop runs, no message is ready or no room is left. -/
def Quiet (s : Intake size) : Prop :=
  s.engine.shutdown = true → s.engine.phase = .looping →
    s.incoming.buf = [] ∨ cap ≤ s.engine.tasks.length

/-- No iteration that began after the token was cancelled has taken a message, and the messages
that have been processed are those that were received when it was cancelled. -/
structure Stopped (s : Intake size) : Prop where
  takenLate : s.takenLate = []
  received : ∀ n, s.engine.cancelledAt = some n → s.engine.received.length = n
  /-- No task was spawned for any other message. -/
  tasks : ∀ n, s.engine.cancelledAt = some n → ∀ x ∈ s.engine.unreaped ++ s.engine.reaped, x.1 < n

variable {cap registry} {s s' : Intake size}

/-- A step is a step of the engine, or leaves it as it is. -/
theorem Step.engine_reachable (h : Step cap registry s s') (hs : s.engine.Reachable cap registry) :
    s'.engine.Reachable cap registry := by
  cases h with
  | arrive | close | begin => exact hs
  | cancel h | recv _ _ h | branch _ _ h | publish h | silent h => exact hs.tail ⟨_, h⟩

theorem Reachable.engine (h : s.Reachable cap registry) : s.engine.Reachable cap registry := by
  induction h with
  | refl => exact .refl
  | tail _ hstep ih => exact hstep.engine_reachable ih

theorem ReachableWhile.reachable {P : Intake size → Prop}
    (h : s.ReachableWhile cap registry P) : s.Reachable cap registry :=
  ReflTransGen.mono (fun _ _ hstep => hstep.2) _ _ h

/-! ## What every run keeps -/

/-- A late iteration runs under a cancelled token, and the moment of the cancellation is known. -/
structure Timed (s : Intake size) : Prop where
  iteration : s.iteration = some true → s.engine.shutdown = true
  cancelledAt : s.engine.shutdown = true ↔ s.engine.cancelledAt.isSome = true
  le_received : ∀ n, s.engine.cancelledAt = some n → n ≤ s.engine.received.length

/-- What is received later leaves the moment of the cancellation as it was. -/
theorem le_received_of_step {e e' : EngineState} {a : Action}
    (h : EngineState.Step cap registry e a e') (ha : a ≠ .cancel)
    (he : ∀ n, e.cancelledAt = some n → n ≤ e.received.length) :
    ∀ n, e'.cancelledAt = some n → n ≤ e'.received.length := by
  intro n hn
  rw [(h.cancelledAt_eq ha).1] at hn
  rw [h.received_eq, List.length_append]
  exact Nat.le_add_right_of_le (he n hn)

theorem Step.timed (h : Step cap registry s s') (hs : s.Timed) : s'.Timed := by
  obtain ⟨hiteration, hcancelled, hle⟩ := hs
  cases h with
  | arrive | close => exact ⟨hiteration, hcancelled, hle⟩
  | begin => exact ⟨fun h => Option.some.inj h, hcancelled, hle⟩
  | cancel hstep =>
    rw [hstep.of_cancel]
    refine ⟨fun _ => rfl, by cases s.engine.cancelledAt <;> simp, fun n hn => ?_⟩
    cases hat : s.engine.cancelledAt with
    | none =>
      rw [hat] at hn
      exact Nat.le_of_eq (Option.some.inj hn).symm
    | some n' =>
      -- it was cancelled before
      rw [hat] at hn
      exact hle n (hat.trans hn)
  | recv _ _ hstep | branch _ _ hstep =>
    -- the iteration is over
    obtain ⟨hat, hshutdown⟩ := hstep.cancelledAt_eq (by simp)
    exact ⟨nofun, by dsimp only; rw [hat, hshutdown]; exact hcancelled,
      le_received_of_step hstep (by simp) hle⟩
  | publish hstep | silent hstep =>
    obtain ⟨hat, hshutdown⟩ := hstep.cancelledAt_eq (by simp)
    exact ⟨fun h => hshutdown.trans (hiteration h), by
      dsimp only; rw [hat, hshutdown]; exact hcancelled, le_received_of_step hstep (by simp) hle⟩

theorem Reachable.timed (h : s.Reachable cap registry) : s.Timed := by
  induction h with
  | refl => exact ⟨nofun, by simp [start, EngineState.init], nofun⟩
  | tail _ hstep ih => exact hstep.timed ih

/-- A message that has come in was ready, and there was room. -/
theorem not_quiet_of_recv {m : Publish} {incoming : Chan Publish size} {engine : EngineState}
    (hrecv : s.incoming.recv = some (some m, incoming))
    (hstep : EngineState.Step cap registry s.engine (.recv (some m)) engine)
    (hshutdown : s.engine.shutdown = true) : ¬ s.Quiet cap := by
  obtain ⟨hphase, hroom, -⟩ := hstep.of_recv_some
  obtain ⟨hbuf, -, -⟩ := Chan.recv_eq_some_iff.mp hrecv
  intro hquiet
  rcases hquiet hshutdown hphase with hnil | hfull
  · rw [hbuf] at hnil
    cases hnil
  · omega

/-- Nothing was taken late, and nothing was received after the cancellation. -/
structure Settled (s : Intake size) : Prop where
  takenLate : s.takenLate = []
  received : ∀ n, s.engine.cancelledAt = some n → s.engine.received.length = n

/-- Without receiving anything, what is recorded of the cancellation stays right. -/
theorem received_of_step {e e' : EngineState} {a : Action}
    (h : EngineState.Step cap registry e a e') (hnil : a.received = []) (ha : a ≠ .cancel)
    (he : ∀ n, e.cancelledAt = some n → e.received.length = n) :
    ∀ n, e'.cancelledAt = some n → e'.received.length = n := by
  intro n hn
  rw [(h.cancelledAt_eq ha).1] at hn
  rw [h.received_eq, hnil, List.append_nil]
  exact he n hn

/-- A step from a quiet state takes nothing after the cancellation. -/
theorem Step.settled (h : Step cap registry s s') (ht : s.Timed) (hquiet : s.Quiet cap)
    (hs : s.Settled) : s'.Settled := by
  obtain ⟨hlate, hreceived⟩ := hs
  cases h with
  | arrive | close | begin => exact ⟨hlate, hreceived⟩
  | cancel hstep =>
    refine ⟨hlate, fun n hn => ?_⟩
    rw [hstep.of_cancel] at hn ⊢
    cases hat : s.engine.cancelledAt with
    | none =>
      rw [hat] at hn
      exact Option.some.inj hn
    | some n' =>
      -- it was cancelled before
      rw [hat] at hn
      obtain rfl := Option.some.inj hn
      exact hreceived n' hat
  | @recv late message _ _ hiteration hrecv hstep =>
    cases message with
    | none =>
      refine ⟨by simp [hlate], received_of_step hstep rfl (by simp) hreceived⟩
    | some m =>
      have hshutdown : ¬ s.engine.shutdown = true := fun h =>
        not_quiet_of_recv hrecv hstep h hquiet
      -- a late iteration would run under a cancelled token
      have hearly : late = false := by
        by_contra hne
        rw [Bool.not_eq_false] at hne
        exact hshutdown (ht.iteration (hne ▸ hiteration))
      refine ⟨by simp [hlate, hearly], fun n hn => ?_⟩
      have hsome : s.engine.cancelledAt = some n := (hstep.cancelledAt_eq (by simp)).1 ▸ hn
      exact absurd (ht.cancelledAt.mpr (by rw [hsome]; rfl)) hshutdown
  | branch _ _ hstep | publish hstep | silent hstep =>
    exact ⟨hlate, received_of_step hstep rfl (by simp) hreceived⟩

/-- Throughout a run of quiet states nothing is taken after the cancellation. -/
theorem ReachableWhile.settled (h : s.ReachableWhile cap registry (Quiet cap)) : s.Settled := by
  induction h with
  | refl => exact ⟨rfl, nofun⟩
  | tail hrun hstep ih =>
    exact hstep.2.settled (ReachableWhile.reachable hrun).timed hstep.1 ih

/-- The tasks are those of received messages. -/
theorem lt_received {e : EngineState} (he : e.Reachable cap registry) {x : ℕ × Task}
    (hx : x ∈ e.unreaped ++ e.reaped) : x.1 < e.received.length :=
  (List.getElem?_eq_some_iff.mp (he.accounted.message x hx).1).1

/-- A running iteration can take a message that is ready, for which there is room. -/
theorem exists_recv (hs : s.Timed) (hready : ¬ s.Quiet cap) {late : Bool}
    (hlate : s.iteration = some late) :
    ∃ s', Step cap registry s s' ∧ ¬ s'.Stopped ∧ (late = true → s'.takenLate ≠ []) := by
  simp only [Quiet, not_forall, not_or, Nat.not_le] at hready
  obtain ⟨hshutdown, hphase, hbuf, hroom⟩ := hready
  obtain ⟨m, rest, hcons⟩ := List.exists_cons_of_ne_nil hbuf
  obtain ⟨incoming, hrecv, -⟩ := Chan.exists_recv hcons
  obtain ⟨engine, hstep⟩ := @EngineState.exists_recv_step cap registry s.engine m hphase hroom
  refine ⟨_, .recv hlate hrecv hstep, fun hstopped => ?_, fun h => by simp [h]⟩
  -- one more message is received than there were when the token was cancelled
  obtain ⟨n, hn⟩ := Option.isSome_iff_exists.mp (hs.cancelledAt.mp hshutdown)
  have hlen := hstopped.received n ((hstep.cancelledAt_eq (by simp)).1.trans hn)
  have hle := hs.le_received n hn
  have hreceived := congrArg List.length hstep.received_eq
  simp only [Action.received, List.length_append, List.length_singleton] at hreceived
  dsimp only at hlen
  omega

/-! ## The result -/

/-- In a run in which, while the token is cancelled and the loop runs, no message is ready or no
room is left, no iteration that began after the cancellation takes a message, and the messages that
are processed are those received before it. From any other state a message can be taken after the
cancellation, and unless an iteration runs that began before it, by one that began after it. -/
theorem stops_intake (cap : ℕ) (registry : DecoderRegistry) (size : ℕ) :
    (∀ s : Intake size, s.ReachableWhile cap registry (Quiet cap) → s.Stopped) ∧
    ∀ s : Intake size, s.Reachable cap registry → ¬ s.Quiet cap →
      ∃ s' : Intake size, ReflTransGen (Step cap registry) s s' ∧ ¬ s'.Stopped ∧
        (s.iteration ≠ some false → s'.takenLate ≠ []) := by
  refine ⟨fun s hs => ?_, fun s hs hready => ?_⟩
  · obtain ⟨hlate, hreceived⟩ := hs.settled
    refine ⟨hlate, hreceived, fun n hn x hx => ?_⟩
    rw [← hreceived n hn]
    exact lt_received hs.reachable.engine hx
  · cases hiteration : s.iteration with
    | some late =>
      obtain ⟨s', hstep, hstopped, hlate⟩ :=
        @exists_recv size cap registry s hs.timed hready late hiteration
      refine ⟨s', .single hstep, hstopped, fun hne => hlate ?_⟩
      by_contra hearly
      rw [Bool.not_eq_true] at hearly
      exact hne (by rw [hearly])
    | none =>
      -- the next iteration begins late
      have hcopy := hready
      simp only [Quiet, not_forall] at hcopy
      obtain ⟨hshutdown, hphase, -⟩ := hcopy
      have hbegin : Step cap registry s { s with iteration := some s.engine.shutdown } :=
        .begin hiteration hphase
      obtain ⟨s', hstep, hstopped, hlate⟩ :=
        @exists_recv size cap registry { s with iteration := some s.engine.shutdown }
          (hbegin.timed hs.timed) hready true (by rw [hshutdown])
      exact ⟨s', .tail (.single hbegin) hstep, hstopped, fun _ => hlate rfl⟩

/-- A message is ready when the token is cancelled, and the first iteration takes it. -/
theorem late_message_is_taken :
    ∃ s : Intake 100, s.Reachable 1 .sensorRegistry ∧
      s.takenLate = [EngineState.sensorMessage] ∧ s.engine.tasks.length = 1 ∧
      s.engine.cancelledAt = some 0 := by
  have hrecv : (⟨[EngineState.sensorMessage], by decide, true, true⟩ : Chan Publish 100).recv =
      some (some EngineState.sensorMessage, .new) := rfl
  have hspawn : EngineState.Step 1 .sensorRegistry
      { EngineState.init with shutdown := true, cancelledAt := some 0 }
      (.recv (some EngineState.sensorMessage)) _ := .spawn rfl rfl rfl
  exact ⟨_, .tail (.tail (.tail (.single (.arrive rfl)) (.cancel .cancel)) (.begin rfl rfl))
    (.recv rfl hrecv hspawn), rfl, rfl, rfl⟩

end Intake

end RosettaMq
