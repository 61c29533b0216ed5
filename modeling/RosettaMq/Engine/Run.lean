import RosettaMq.Decoder.Registry
import RosettaMq.Engine.Task

/-!
# The engine loop

`handle_incoming`, `run` and `drain` of `src/engine.rs` as a step relation. The task set is a list
of tasks, each with the index of its message in the order of receipt. Receiving, finishing tasks,
reaping them, cancelling and draining may interleave in any order.

The fields `received`, `skipped`, `reaped`, `log` and `cancelledAt` of the state record what has
happened. The code neither has nor reads them.
-/

open Relation

namespace RosettaMq

/-- `ControlFlow<()>`. -/
inductive ControlFlow where
  | cont
  | brk
  deriving DecidableEq, Repr

/-- The topics of the engine's own output, by their suffix. -/
def isOwnTopic (topic : String) : Bool :=
  endsWith topic "/decoded" || endsWith topic "/decode_error"

/-- `handle_incoming`: whether the loop goes on, and the task that was spawned. -/
def handleIncoming (message : Option Publish) (registry : DecoderRegistry) :
    ControlFlow × Option Task :=
  match message with
  | none => (.brk, none)
  | some message =>
      -- own output, or what another client publishes on a topic of that form
      if isOwnTopic message.topic then (.cont, none)
      else match registry.resolve message.topic with
        -- a topic that is only subscribed to
        | none => (.cont, none)
        | some decoder => (.cont, some (decodeAndPublish decoder message))

/-- The decoder that a message is given to. -/
def DecoderRegistry.decoderFor (registry : DecoderRegistry) (m : Publish) : Option ErasedDecoder :=
  if isOwnTopic m.topic then none else registry.resolve m.topic

/-- The messages that are to be handed to the client for `m`: none if it is skipped. -/
def DecoderRegistry.outputs (registry : DecoderRegistry) (m : Publish) :
    List ResolvedDecodePublish :=
  match registry.decoderFor m with
  | none => []
  | some d => d.outputs m

namespace DecoderRegistry

variable {registry : DecoderRegistry} {m : Publish} {d : ErasedDecoder}

theorem decoderFor_eq_some_iff :
    registry.decoderFor m = some d ↔
      isOwnTopic m.topic = false ∧ registry.resolve m.topic = some d := by
  cases hown : isOwnTopic m.topic <;> simp [decoderFor, hown]

theorem decoderFor_eq_none_of_isOwnTopic (h : isOwnTopic m.topic = true) :
    registry.decoderFor m = none := by
  rw [decoderFor, if_pos h]

theorem outputs_eq_nil (h : registry.decoderFor m = none) : registry.outputs m = [] := by
  rw [outputs, h]

theorem outputs_eq (h : registry.decoderFor m = some d) : registry.outputs m = d.outputs m := by
  rw [outputs, h]

end DecoderRegistry

/-- A message is never a reason to stop, and a task is spawned exactly for a decoder. -/
theorem handleIncoming_some (registry : DecoderRegistry) (m : Publish) :
    handleIncoming (some m) registry =
      (.cont, (registry.decoderFor m).map (decodeAndPublish · m)) := by
  unfold handleIncoming DecoderRegistry.decoderFor
  by_cases hown : isOwnTopic m.topic = true
  · simp [hown]
  · cases hres : registry.resolve m.topic <;> simp [hown, hres]

/-- Where `run` is. -/
inductive Phase where
  | looping
  /-- In `timeout(SHUTDOWN_DRAIN_TIMEOUT, drain(&mut tasks))`. -/
  | draining
  /-- The function has returned after the drain. -/
  | returned
  /-- The function has returned because the drain timed out. -/
  | timedOut
  /-- `select!` found every branch disabled. -/
  | panicked
  deriving DecidableEq, Repr

/-- The branches of the `select!`. -/
inductive Branch where
  | recv
  | joinNext
  | cancelled
  deriving DecidableEq, Repr

/-- The state of `run`, and a record of what it did. -/
structure EngineState where
  phase : Phase
  /-- Whether the token `shutdown` is cancelled. -/
  shutdown : Bool
  tasks : List (ℕ × Task)
  received : List Publish
  skipped : List ℕ
  reaped : List (ℕ × Task)
  /-- The tasks that were aborted because the drain timed out. -/
  abandoned : List (ℕ × Task)
  log : List (ℕ × ResolvedDecodePublish)
  /-- How many messages had been received when the token was cancelled. -/
  cancelledAt : Option ℕ

/-- What a step shows to the outside. -/
inductive Action where
  /-- It takes this from `incoming`. -/
  | recv (message : Option Publish)
  /-- The task hands this message to the client. -/
  | publish (task : ℕ) (message : ResolvedDecodePublish)
  /-- The token is cancelled. -/
  | cancel
  | silent

/-- `tasks.join_next()`, once it completes: `None` on the empty set, otherwise any finished task. -/
inductive JoinNext : List (ℕ × Task) → Option (ℕ × Task) → List (ℕ × Task) → Prop
  | empty : JoinNext [] none []
  | task {l₁ l₂ : List (ℕ × Task)} {x : ℕ × Task} : x.2.finished = true →
      JoinNext (l₁ ++ x :: l₂) (some x) (l₁ ++ l₂)

/-- A reaped task was in the set and is finished. -/
theorem JoinNext.of_some {tasks rest : List (ℕ × Task)} {x : ℕ × Task}
    (h : JoinNext tasks (some x) rest) :
    ∃ l₁ l₂, tasks = l₁ ++ x :: l₂ ∧ rest = l₁ ++ l₂ ∧ x.2.finished = true := by
  cases h with
  | task hfin => exact ⟨_, _, rfl, rfl, hfin⟩

/-- Only the empty set has nothing to reap. -/
theorem JoinNext.of_none {tasks rest : List (ℕ × Task)} (h : JoinNext tasks none rest) :
    tasks = [] ∧ rest = tasks := by
  cases h with
  | empty => exact ⟨rfl, rfl⟩

/-- Reaping takes out one task and leaves the others. -/
theorem JoinNext.mem_iff {tasks rest : List (ℕ × Task)} {x y : ℕ × Task}
    (h : JoinNext tasks (some x) rest) : y ∈ tasks ↔ y = x ∨ y ∈ rest := by
  obtain ⟨l₁, l₂, rfl, rfl, -⟩ := h.of_some
  simp only [List.mem_append, List.mem_cons]
  tauto

/-- How a step of task `i` shows to the outside. -/
def taskAction (i : ℕ) : Option ResolvedDecodePublish → Action
  | none => .silent
  | some r => .publish i r

/-- The messages that come in with an action. -/
def Action.received : Action → List Publish
  | .recv (some m) => [m]
  | .recv none | .publish .. | .cancel | .silent => []

/-- The messages that are handed over with an action, each with its task. -/
def Action.published : Action → List (ℕ × ResolvedDecodePublish)
  | .publish i r => [(i, r)]
  | .recv _ | .cancel | .silent => []

@[simp] theorem received_taskAction (i : ℕ) (l : Option ResolvedDecodePublish) :
    (taskAction i l).received = [] := by
  cases l <;> rfl

@[simp] theorem published_taskAction (i : ℕ) (l : Option ResolvedDecodePublish) :
    (taskAction i l).published = l.toList.map (i, ·) := by
  cases l <;> rfl

namespace EngineState

/-- `run` before its first step. -/
def init : EngineState := ⟨.looping, false, [], [], [], [], [], [], none⟩

/-- The preconditions of the branches, for the cap `max_concurrent_decodes`. -/
def enabled (s : EngineState) (cap : ℕ) : Branch → Bool
  -- finished tasks count until they are reaped
  | .recv => s.tasks.length < cap
  | .joinNext => !s.tasks.isEmpty
  | .cancelled => true

variable (cap : ℕ) (registry : DecoderRegistry)

/-- One step of `run`, of one of its tasks, or of the token. -/
inductive Step : EngineState → Action → EngineState → Prop
  /-- A message comes in and no task is spawned for it. -/
  | skip {s m} :
      s.phase = .looping → s.enabled cap .recv = true →
      handleIncoming (some m) registry = (.cont, none) →
      Step s (.recv (some m))
        { s with received := s.received ++ [m], skipped := s.skipped ++ [s.received.length] }
  /-- A message comes in and a task is spawned for it. -/
  | spawn {s m t} :
      s.phase = .looping → s.enabled cap .recv = true →
      handleIncoming (some m) registry = (.cont, some t) →
      Step s (.recv (some m))
        { s with received := s.received ++ [m], tasks := s.tasks ++ [(s.received.length, t)] }
  /-- `incoming` is closed. -/
  | closed {s} :
      s.phase = .looping → s.enabled cap .recv = true →
      handleIncoming none registry = (.brk, none) →
      Step s (.recv none) { s with phase := .draining }
  /-- The loop reaps a finished task. -/
  | joinNext {s x rest} :
      s.phase = .looping → s.enabled cap .joinNext = true → JoinNext s.tasks (some x) rest →
      Step s .silent { s with tasks := rest, reaped := s.reaped ++ [x] }
  /-- The loop ends because the token is cancelled. -/
  | cancelled {s} :
      s.phase = .looping → s.enabled cap .cancelled = true → s.shutdown = true →
      Step s .silent { s with phase := .draining }
  | noBranch {s} :
      s.phase = .looping → (∀ branch, s.enabled cap branch = false) →
      Step s .silent { s with phase := .panicked }
  /-- `drain` reaps a finished task. -/
  | drainNext {s x rest} :
      s.phase = .draining → JoinNext s.tasks (some x) rest →
      Step s .silent { s with tasks := rest, reaped := s.reaped ++ [x] }
  /-- `drain` ends. -/
  | drained {s rest} :
      s.phase = .draining → JoinNext s.tasks none rest →
      Step s .silent { s with phase := .returned, tasks := rest }
  /-- `drain` has not ended in time and `run` returns. This drops the set, and that aborts the tasks
  which are left. -/
  | timeout {s} :
      s.phase = .draining → s.tasks ≠ [] →
      Step s .silent { s with phase := .timedOut, tasks := [], abandoned := s.tasks }
  /-- A task takes a step. -/
  | task {s l₁ l₂ i t l t'} :
      s.tasks = l₁ ++ (i, t) :: l₂ → t.Step l t' →
      Step s (taskAction i l)
        { s with tasks := l₁ ++ (i, t') :: l₂, log := s.log ++ l.toList.map (i, ·) }
  /-- The token is cancelled from outside. -/
  | cancel {s} :
      Step s .cancel
        { s with shutdown := true, cancelledAt := s.cancelledAt <|> some s.received.length }

/-- One step, whatever it shows. -/
def Next (s s' : EngineState) : Prop := ∃ a, Step cap registry s a s'

/-- The states of the runs of `run`. -/
def Reachable (s : EngineState) : Prop := ReflTransGen (Next cap registry) init s

variable {cap registry} {s s' : EngineState} {a : Action}

/-- What holds before the first step and is kept by every step holds throughout the runs. -/
theorem Reachable.invariant {P : EngineState → Prop} (h : s.Reachable cap registry)
    (hinit : P init)
    (hstep : ∀ {s a s'}, s.Reachable cap registry → Step cap registry s a s' → P s → P s') :
    P s := by
  induction h with
  | refl => exact hinit
  | tail hrun hnext ih =>
    obtain ⟨a, hnext⟩ := hnext
    exact hstep hrun hnext ih

/-- The received messages are those that have come in. -/
theorem Step.received_eq (h : Step cap registry s a s') :
    s'.received = s.received ++ a.received := by
  cases h with
  | skip | spawn => rfl
  | task => simp
  | closed | joinNext | cancelled | noBranch | drainNext | drained | timeout | cancel =>
    exact (List.append_nil _).symm

/-- The log is what was handed over. -/
theorem Step.log_eq (h : Step cap registry s a s') : s'.log = s.log ++ a.published := by
  cases h with
  | task => simp
  | skip | spawn | closed | joinNext | cancelled | noBranch | drainNext | drained | timeout
  | cancel => exact (List.append_nil _).symm

/-! ## What a step can do -/

/-- Receiving a message: there is room, and the message is skipped or gets a task. -/
theorem Step.of_recv_some {m : Publish} (h : Step cap registry s (.recv (some m)) s') :
    s.phase = .looping ∧ s.tasks.length < cap ∧ s'.phase = s.phase ∧ s'.shutdown = s.shutdown ∧
      s'.tasks = s.tasks ++ ((registry.decoderFor m).map fun d =>
        (s.received.length, decodeAndPublish d m)).toList := by
  generalize ha : Action.recv (some m) = a at h
  cases h with
  | skip hphase hroom hmsg =>
    cases ha
    rw [handleIncoming_some, Prod.mk.injEq, Option.map_eq_none_iff] at hmsg
    refine ⟨hphase, by simpa [enabled] using hroom, rfl, rfl, ?_⟩
    simp [hmsg.2]
  | spawn hphase hroom hmsg =>
    cases ha
    rw [handleIncoming_some, Prod.mk.injEq, Option.map_eq_some_iff] at hmsg
    obtain ⟨-, d, hd, rfl⟩ := hmsg
    refine ⟨hphase, by simpa [enabled] using hroom, rfl, rfl, ?_⟩
    simp [hd]
  | task => rename_i l _ _ _; cases l <;> cases ha
  | closed | joinNext | cancelled | noBranch | drainNext | drained | timeout | cancel => cases ha

/-- A message can be received while there is room. -/
theorem exists_recv_step {m : Publish} (hphase : s.phase = .looping)
    (hroom : s.tasks.length < cap) : ∃ s', Step cap registry s (.recv (some m)) s' := by
  have hen : s.enabled cap .recv = true := by simpa [enabled] using hroom
  have hmsg := handleIncoming_some registry m
  cases hd : registry.decoderFor m with
  | none => exact ⟨_, .skip hphase hen (by rw [hmsg, hd]; rfl)⟩
  | some d => exact ⟨_, .spawn hphase hen (by rw [hmsg, hd]; rfl)⟩

/-- Handing over a message: one task of the set takes a step. -/
theorem Step.of_publish {i : ℕ} {r : ResolvedDecodePublish}
    (h : Step cap registry s (.publish i r) s') :
    ∃ l₁ l₂ t t', s.tasks = l₁ ++ (i, t) :: l₂ ∧ t.Step (some r) t' ∧
      s' = { s with tasks := l₁ ++ (i, t') :: l₂, log := s.log ++ [(i, r)] } := by
  generalize ha : Action.publish i r = a at h
  cases h with
  | task htasks hstep =>
    rename_i l _
    cases l with
    | none => cases ha
    | some r =>
      cases ha
      exact ⟨_, _, _, _, htasks, hstep, rfl⟩
  | skip | spawn | closed | joinNext | cancelled | noBranch | drainNext | drained | timeout
  | cancel => cases ha

/-- What cancelling the token does. -/
theorem Step.of_cancel (h : Step cap registry s .cancel s') :
    s' = { s with shutdown := true, cancelledAt := s.cancelledAt <|> some s.received.length } := by
  generalize ha : Action.cancel = a at h
  cases h with
  | cancel => rfl
  | task => rename_i l _ _ _; cases l <;> cases ha
  | skip | spawn | closed | joinNext | cancelled | noBranch | drainNext | drained | timeout =>
    cases ha

/-- Nothing else changes whether and when the token was cancelled. -/
theorem Step.cancelledAt_eq (h : Step cap registry s a s') (ha : a ≠ .cancel) :
    s'.cancelledAt = s.cancelledAt ∧ s'.shutdown = s.shutdown := by
  cases h with
  | cancel => exact absurd rfl ha
  | skip | spawn | closed | joinNext | cancelled | noBranch | drainNext | drained | timeout
  | task => exact ⟨rfl, rfl⟩

/-- A step that shows nothing to the outside. -/
def Silent (cap : ℕ) (registry : DecoderRegistry) (s s' : EngineState) : Prop :=
  Step cap registry s .silent s'

/-- In the loop, and unless the token is cancelled, such a step reaps a finished task or is a step
of one task. -/
theorem Silent.of_looping (h : Silent cap registry s s') (hphase : s.phase = .looping)
    (hshutdown : s.shutdown = false) :
    (∃ l₁ l₂ x, s.tasks = l₁ ++ x :: l₂ ∧ x.2.finished = true ∧
      s' = { s with tasks := l₁ ++ l₂, reaped := s.reaped ++ [x] }) ∨
    ∃ l₁ l₂ i t t', s.tasks = l₁ ++ (i, t) :: l₂ ∧ t.Step none t' ∧
      s' = { s with tasks := l₁ ++ (i, t') :: l₂ } := by
  unfold Silent at h
  generalize ha : Action.silent = a at h
  cases h with
  | joinNext _ _ hnext =>
    obtain ⟨l₁, l₂, htasks, rfl, hfin⟩ := hnext.of_some
    exact Or.inl ⟨l₁, l₂, _, htasks, hfin, rfl⟩
  | task htasks hstep =>
    rename_i l _
    cases l with
    | none => exact Or.inr ⟨_, _, _, _, _, htasks, hstep, by simp⟩
    | some r => cases ha
  | cancelled _ _ hcancelled =>
    rw [hshutdown] at hcancelled
    cases hcancelled
  | noBranch _ hno =>
    -- the branch of the token has no precondition
    exact absurd (hno .cancelled) nofun
  | drainNext hdrain | drained hdrain | timeout hdrain =>
    rw [hphase] at hdrain
    cases hdrain
  | skip | spawn | closed | cancel => cases ha

/-- A finished task can be reaped in the loop. -/
theorem silent_joinNext {l₁ l₂ : List (ℕ × Task)} {x : ℕ × Task} (hphase : s.phase = .looping)
    (htasks : s.tasks = l₁ ++ x :: l₂) (hfin : x.2.finished = true) :
    Silent cap registry s { s with tasks := l₁ ++ l₂, reaped := s.reaped ++ [x] } :=
  .joinNext hphase (by simp [enabled, htasks]) (htasks ▸ .task hfin)

/-- Without tasks the drain ends. -/
theorem silent_drained (hphase : s.phase = .draining) (htasks : s.tasks = []) :
    Silent cap registry s { s with phase := .returned } := by
  have hjoin : JoinNext s.tasks none s.tasks := by
    rw [htasks]
    exact .empty
  exact .drained hphase hjoin

/-- A step of one task that publishes nothing. -/
theorem silent_task {l₁ l₂ : List (ℕ × Task)} {i : ℕ} {t t' : Task}
    (htasks : s.tasks = l₁ ++ (i, t) :: l₂) (hstep : t.Step none t') :
    Silent cap registry s { s with tasks := l₁ ++ (i, t') :: l₂ } := by
  have h : Step cap registry s (taskAction i none) _ := .task htasks hstep
  unfold Silent
  simpa [taskAction] using h

/-- A task that takes steps without publishing, in an engine that takes no other steps. -/
theorem run_of_silent {i : ℕ} {t t' : Task} (l₁ l₂ : List (ℕ × Task))
    (htasks : s.tasks = l₁ ++ (i, t) :: l₂) (h : ReflTransGen Task.Silent t t') :
    ReflTransGen (Silent cap registry) s { s with tasks := l₁ ++ (i, t') :: l₂ } := by
  induction h with
  | refl => rw [← htasks]
  | @tail u v _ hstep ih =>
    have hnext : Silent cap registry { s with tasks := l₁ ++ (i, u) :: l₂ }
        { s with tasks := l₁ ++ (i, v) :: l₂ } := silent_task rfl hstep
    exact ih.tail hnext

end EngineState

end RosettaMq
