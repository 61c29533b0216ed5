import Mathlib.Algebra.GroupWithZero.Nat
import RosettaMq.Engine.Refinement
import RosettaMq.ToMathlib.Descent

/-!
# Termination of the engine

Every step of a task uses up some of its potential, which is linear in the number of messages its
decoder sends (`Task.Step.potential_lt`). So does every step of the engine, except that a received
message brings in a task (`EngineState.Step.potential_lt`). On a channel that is closed after some
messages the engine therefore stops after a number of steps that is known beforehand, and unless
its drain times out it has then handed over all outputs (`EngineState.run_total`).
-/

open Relation

namespace RosettaMq

/-! ## Potentials -/

/-- The steps that a decode future still brings about: two for each message it sends, and the
`publish` of that message, which counts twice. -/
def DecodeFuture.potential : DecodeFuture → ℕ
  | .running run => 4 * run.sends.length + 3
  | .returned (.ok ()) => 0
  | .returned (.error _) => 2

/-- The steps that are left for the message the drain holds, and for its end. -/
def DrainFuture.potential : DrainFuture → ℕ
  | .receiving => 1
  | .publishing _ => 3
  | .returned => 0

/-- How many steps a call of `decode_and_publish` can take at most. A `publish` counts twice, since
the driver has to take the request. -/
def Frame.potential : Frame → ℕ
  | .joining decode channel drain =>
      decode.potential + 3 * channel.buf.length + drain.potential + 1
  | .reporting _ => 2
  | .returned | .panicked => 0

namespace Task

variable {t t' : Task} {l : Option ResolvedDecodePublish}

/-- The potential of the call. -/
def potential (t : Task) : ℕ := t.frame.potential

/-- Every step of a task uses up some potential, and a `publish` uses up at least two. -/
theorem Step.potential_lt (h : Step t l t') :
    t'.potential + l.toList.length < t.potential := by
  cases h with
  | send hsend =>
    obtain ⟨-, -, hbuf, -, -⟩ := Chan.send_eq_some_iff.mp hsend
    simp only [potential, Frame.potential, DecodeFuture.potential, hbuf, List.length_append,
      List.length_cons, List.length_nil, Option.toList_none]
    omega
  | recv hrecv =>
    obtain ⟨hbuf, -, -⟩ := Chan.recv_eq_some_iff.mp hrecv
    simp only [potential, Frame.potential, DrainFuture.potential, hbuf, List.length_cons,
      List.length_nil, Option.toList_none]
    omega
  | recvNone hrecv =>
    obtain ⟨-, -, rfl⟩ := Chan.recv_eq_none_iff.mp hrecv
    simp only [potential, Frame.potential, DrainFuture.potential, List.length_nil,
      Option.toList_none]
    omega
  | sendClosed | ok | err =>
    simp only [potential, Frame.potential, DecodeFuture.potential, Chan.buf_closeTx,
      List.length_cons, List.length_nil, Option.toList_none]
    omega
  | panic | joinOk | joinErr | publish | report =>
    simp only [potential, Frame.potential, DecodeFuture.potential, DrainFuture.potential,
      List.length_cons, List.length_nil, Option.toList_none, Option.toList_some]
    omega

theorem potential_decodeAndPublish (d : ErasedDecoder) (m : Publish) :
    (decodeAndPublish d m).potential = 4 * (d.decode m).sends.length + 5 := rfl

end Task

/-- The steps that a message causes once it is received, and its receipt. -/
def DecoderRegistry.cost (registry : DecoderRegistry) (m : Publish) : ℕ :=
  match registry.decoderFor m with
  | none => 1
  -- the task, and reaping it
  | some d => 4 * (d.decode m).sends.length + 7

/-- The steps that are left after the loop, and in it. -/
def Phase.potential : Phase → ℕ
  | .looping => 2
  | .draining => 1
  | .returned | .timedOut | .panicked => 0

/-- How many requests an action adds to the request channel. -/
def Action.requests : Action → ℕ
  | .publish .. => 1
  | .recv _ | .cancel | .silent => 0

/-- The potential that an action brings in. -/
def Action.cost (registry : DecoderRegistry) : Action → ℕ
  | .recv (some m) => registry.cost m
  | .recv none | .publish .. | .cancel | .silent => 0

@[simp] theorem requests_taskAction (i : ℕ) (l : Option ResolvedDecodePublish) :
    (taskAction i l).requests = l.toList.length := by
  cases l <;> rfl

@[simp] theorem cost_taskAction (registry : DecoderRegistry) (i : ℕ)
    (l : Option ResolvedDecodePublish) : (taskAction i l).cost registry = 0 := by
  cases l <;> rfl

namespace EngineState

variable {cap : ℕ} {registry : DecoderRegistry} {s s' : EngineState} {a : Action}

/-- The potential of the tasks, each of which has to be reaped as well. -/
def taskPotential (tasks : List (ℕ × Task)) : ℕ := (tasks.map (·.2.potential + 1)).sum

@[simp] theorem taskPotential_nil : taskPotential [] = 0 := rfl

@[simp] theorem taskPotential_cons (x : ℕ × Task) (tasks : List (ℕ × Task)) :
    taskPotential (x :: tasks) = x.2.potential + 1 + taskPotential tasks := rfl

@[simp] theorem taskPotential_append (tasks tasks' : List (ℕ × Task)) :
    taskPotential (tasks ++ tasks') = taskPotential tasks + taskPotential tasks' := by
  simp [taskPotential]

/-- How many steps the engine and its tasks can take at most if nothing more comes in. -/
def potential (s : EngineState) : ℕ := s.phase.potential + taskPotential s.tasks

/-- Reaping a task. -/
theorem taskPotential_of_joinNext {tasks rest : List (ℕ × Task)} {x : ℕ × Task}
    (h : JoinNext tasks (some x) rest) : taskPotential rest < taskPotential tasks := by
  obtain ⟨l₁, l₂, rfl, rfl, -⟩ := h.of_some
  simp only [taskPotential_append, taskPotential_cons]
  omega

/-- Every step of the engine uses up some potential, unless it comes from outside. -/
theorem Step.potential_lt (h : Step cap registry s a s') (ha : a ≠ .cancel) :
    s'.potential + a.requests < s.potential + a.cost registry := by
  cases h with
  | skip _ _ hmsg =>
    rw [handleIncoming_some, Prod.mk.injEq, Option.map_eq_none_iff] at hmsg
    simp [potential, Action.requests, Action.cost, DecoderRegistry.cost, hmsg.2]
  | spawn _ _ hmsg =>
    rw [handleIncoming_some, Prod.mk.injEq, Option.map_eq_some_iff] at hmsg
    obtain ⟨-, d, hd, rfl⟩ := hmsg
    simp only [potential, Action.requests, Action.cost, DecoderRegistry.cost, hd,
      taskPotential_append, taskPotential_cons, taskPotential_nil,
      Task.potential_decodeAndPublish]
    omega
  | joinNext _ _ hnext | drainNext _ hnext =>
    have hlt := taskPotential_of_joinNext hnext
    simpa [potential, Action.requests, Action.cost] using hlt
  | closed hphase | cancelled hphase | noBranch hphase =>
    simp [potential, Phase.potential, Action.requests, Action.cost, hphase]
  | timeout hphase =>
    simp only [potential, Phase.potential, Action.requests, Action.cost, hphase,
      taskPotential_nil]
    omega
  | drained hphase hnext =>
    obtain ⟨-, rfl⟩ := hnext.of_none
    simp [potential, Phase.potential, Action.requests, Action.cost, hphase]
  | task htasks hstep =>
    have hlt := hstep.potential_lt
    simp only [potential, htasks, requests_taskAction, cost_taskAction, taskPotential_append,
      taskPotential_cons]
    omega
  | cancel => exact absurd rfl ha

/-! ## Progress -/

/-- If no decoder hangs, a task can be reaped or takes a step, in the loop and in the drain. -/
theorem exists_step_of_task (hreg : registry.Terminates) (hs : s.Reachable cap registry)
    (hphase : s.phase = .looping ∨ s.phase = .draining) {x : ℕ × Task} (hx : x ∈ s.tasks) :
    ∃ s', (Silent cap registry s s' ∨ ∃ i r, Step cap registry s (.publish i r) s') ∧
      s'.phase = s.phase := by
  obtain ⟨d, hd, hsound, -⟩ := hs.refines.task x hx
  obtain ⟨l₁, l₂, htasks⟩ := List.append_of_mem hx
  cases hfin : x.2.finished with
  | true =>
    rcases hphase with hphase | hphase
    · exact ⟨_, Or.inl (silent_joinNext hphase htasks hfin), rfl⟩
    · have hnext : JoinNext s.tasks (some x) (l₁ ++ l₂) := htasks ▸ .task hfin
      exact ⟨_, Or.inl (.drainNext hphase hnext), rfl⟩
  | false =>
    have hhang : (d.decode x.2.message).ending ≠ .hang := fun hhang =>
      hreg.not_hangsOn x.2.message ⟨d, hd, hhang⟩
    obtain ⟨l, t', hstep, -⟩ := hsound.progress hfin (Or.inl hhang)
    cases l with
    | none => exact ⟨_, Or.inl (silent_task htasks hstep), rfl⟩
    | some r => exact ⟨_, Or.inr ⟨x.1, r, .task htasks hstep⟩, rfl⟩

/-- The engine on a channel that holds these messages and is closed. -/
inductive FeedStep (cap : ℕ) (registry : DecoderRegistry) :
    List Publish × EngineState → List Publish × EngineState → Prop
  | recv {m ms e e'} :
      Step cap registry e (.recv (some m)) e' → FeedStep cap registry (m :: ms, e) (ms, e')
  | closed {e e'} : Step cap registry e (.recv none) e' → FeedStep cap registry ([], e) ([], e')
  /-- The client takes or refuses a message. -/
  | publish {ms e i r e'} :
      Step cap registry e (.publish i r) e' → FeedStep cap registry (ms, e) (ms, e')
  | silent {ms e e'} : Silent cap registry e e' → FeedStep cap registry (ms, e) (ms, e')

/-- The messages come in order, and the loop goes on until there is none left. -/
structure Fed (cap : ℕ) (registry : DecoderRegistry) (ms : List Publish)
    (x : List Publish × EngineState) : Prop where
  reachable : x.2.Reachable cap registry
  messages : x.2.received ++ x.1 = ms
  shutdown : x.2.shutdown = false
  looping : x.1 ≠ [] → x.2.phase = .looping

/-- The phase changes only when the channel is empty or the token is cancelled. -/
theorem Step.looping_or (h : Step cap registry s a s') (hphase : s.phase = .looping) :
    s'.phase = .looping ∨ a = .recv none ∨ s.shutdown = true := by
  cases h with
  | closed => exact Or.inr (Or.inl rfl)
  | cancelled _ _ hcancelled => exact Or.inr (Or.inr hcancelled)
  | noBranch _ hno => exact absurd (hno .cancelled) nofun
  | skip | spawn | joinNext | task | cancel => exact Or.inl hphase
  | drainNext hdrain | drained hdrain | timeout hdrain =>
    rw [hphase] at hdrain
    cases hdrain

/-- A message, or the end of all messages, comes in only in the loop, and if there is room. -/
theorem Step.of_recv {message : Option Publish} (h : Step cap registry s (.recv message) s') :
    s.phase = .looping ∧ s.tasks.length < cap := by
  cases message with
  | some m =>
    obtain ⟨hphase, hroom, -⟩ := h.of_recv_some
    exact ⟨hphase, hroom⟩
  | none =>
    generalize ha : Action.recv none = a at h
    cases h with
    | closed hphase hroom => exact ⟨hphase, by simpa [enabled] using hroom⟩
    | task => rename_i l _ _ _; cases l <;> cases ha
    | skip | spawn | joinNext | cancelled | noBranch | drainNext | drained | timeout | cancel =>
      cases ha

variable {ms : List Publish} {x y : List Publish × EngineState}

/-- A step that is not a cancellation goes on with the messages that are left. -/
theorem Fed.step {rest rest' : List Publish} (hx : Fed cap registry ms (rest, s))
    (h : Step cap registry s a s') (ha : a ≠ .cancel) (hrest : rest = a.received ++ rest')
    (hclosed : a = .recv none → rest' = []) : Fed cap registry ms (rest', s') := by
  obtain ⟨hreach, hmessages, hshutdown, hlooping⟩ := hx
  dsimp only at hreach hmessages hshutdown hlooping
  refine ⟨hreach.tail ⟨a, h⟩, ?_, (h.cancelledAt_eq ha).2.trans hshutdown, fun hne => ?_⟩
  · dsimp only
    rw [h.received_eq, List.append_assoc, ← hrest]
    exact hmessages
  · have hphase := hlooping (by rw [hrest]; simp [hne])
    rcases h.looping_or hphase with hphase' | hnone | hcancelled
    · exact hphase'
    · exact absurd (hclosed hnone) hne
    · rw [hshutdown] at hcancelled
      cases hcancelled

theorem FeedStep.fed (h : FeedStep cap registry x y) (hx : Fed cap registry ms x) :
    Fed cap registry ms y := by
  cases h with
  | recv hstep => exact hx.step hstep nofun rfl nofun
  | closed hstep => exact hx.step hstep nofun rfl fun _ => rfl
  | publish hstep => exact hx.step hstep nofun rfl nofun
  | silent hstep => exact hx.step hstep nofun rfl nofun

/-- The potential of the engine and of the messages that are left. -/
def feedPotential (registry : DecoderRegistry) (x : List Publish × EngineState) : ℕ :=
  (x.1.map registry.cost).sum + x.2.potential

theorem FeedStep.potential_lt (h : FeedStep cap registry x y) :
    feedPotential registry y < feedPotential registry x := by
  cases h with
  | recv hstep =>
    have hlt := hstep.potential_lt nofun
    simp only [Action.requests, Action.cost] at hlt
    simp only [feedPotential, List.map_cons, List.sum_cons]
    omega
  | closed hstep | publish hstep | silent hstep =>
    have hlt := hstep.potential_lt nofun
    simp only [Action.requests, Action.cost] at hlt
    simp only [feedPotential]
    omega

theorem descends_feedStep (ms : List Publish) :
    Descends (FeedStep cap registry) (Fed cap registry ms) (feedPotential registry) :=
  ⟨fun hx h => h.fed hx, fun _ h => h.potential_lt⟩

/-- Until it has ended the engine can go on, without its drain timing out. -/
theorem Fed.exists_step (hcap : 1 ≤ cap) (hreg : registry.Returns) (hx : Fed cap registry ms x)
    (hphase : x.2.phase ≠ .returned ∧ x.2.phase ≠ .timedOut) :
    ∃ y, FeedStep cap registry x y ∧ y.2.phase ≠ .timedOut := by
  obtain ⟨rest, s⟩ := x
  dsimp only at hphase
  have htask : ∀ y ∈ s.tasks, ∃ s', FeedStep cap registry (rest, s) (rest, s') ∧
      s'.phase = s.phase := by
    intro y hy
    have hrunning : s.phase = .looping ∨ s.phase = .draining := by
      have hne : s.phase ≠ .panicked := hx.reachable.accounted.phase_ne
      cases hp : s.phase <;> simp_all
    obtain ⟨s', hstep | ⟨i, r, hstep⟩, hkeep⟩ :=
      exists_step_of_task hreg.terminates hx.reachable hrunning hy
    · exact ⟨s', .silent hstep, hkeep⟩
    · exact ⟨s', .publish hstep, hkeep⟩
  cases htasks : s.tasks with
  | cons y tasks =>
    obtain ⟨s', hstep, hkeep⟩ := htask y (by rw [htasks]; simp)
    refine ⟨_, hstep, ?_⟩
    dsimp only
    rw [hkeep]
    exact hphase.2
  | nil =>
    -- without tasks there is room for a message, and the drain ends at once
    cases hp : s.phase with
    | returned => exact absurd hp hphase.1
    | timedOut => exact absurd hp hphase.2
    | panicked => exact absurd hp hx.reachable.accounted.phase_ne
    | draining => exact ⟨_, .silent (silent_drained hp htasks), by simp⟩
    | looping =>
      have hroom : s.tasks.length < cap := by
        rw [htasks]
        exact hcap
      cases rest with
      | nil =>
        have hen : s.enabled cap .recv = true := by simpa [enabled] using hroom
        exact ⟨_, .closed (.closed hp hen rfl), by simp⟩
      | cons m rest =>
        obtain ⟨s', hstep⟩ := @exists_recv_step cap registry s m hp hroom
        obtain ⟨-, -, hkeep, -⟩ := hstep.of_recv_some
        refine ⟨_, .recv hstep, ?_⟩
        dsimp only
        simp [hkeep, hp]

/-- A state that no step leaves is one in which the engine has ended. -/
theorem Fed.ended_of_final (hcap : 1 ≤ cap) (hreg : registry.Returns)
    (hx : Fed cap registry ms x) (hfinal : Final (FeedStep cap registry) x) :
    x.2.phase = .returned ∨ x.2.phase = .timedOut := by
  by_contra hnot
  rw [not_or] at hnot
  obtain ⟨y, hstep, -⟩ := hx.exists_step hcap hreg hnot
  exact hfinal y hstep

/-- As long as the drain has not timed out the engine can go on until nothing but that is left. -/
theorem Fed.exists_run (hx : Fed cap registry ms x) (hphase : x.2.phase ≠ .timedOut) :
    ∃ y, ReflTransGen (FeedStep cap registry) x y ∧ Fed cap registry ms y ∧
      y.2.phase ≠ .timedOut ∧ ∀ z, FeedStep cap registry y z → z.2.phase = .timedOut := by
  -- the same steps without the timeout descend as well
  have hdesc : Descends (fun x y => FeedStep cap registry x y ∧ y.2.phase ≠ .timedOut)
      (fun x => Fed cap registry ms x ∧ x.2.phase ≠ .timedOut) (feedPotential registry) :=
    ⟨fun hx h => ⟨h.1.fed hx.1, h.2⟩, fun _ h => h.1.potential_lt⟩
  obtain ⟨y, hrun, hfinal⟩ := hdesc.exists_final ⟨hx, hphase⟩
  obtain ⟨hy, hne⟩ := hdesc.of_run ⟨hx, hphase⟩ hrun
  refine ⟨y, ReflTransGen.mono (fun _ _ h => h.1) _ _ hrun, hy, hne, fun z hz => ?_⟩
  by_contra hnot
  exact hfinal z ⟨hz, hnot⟩

/-- As long as the drain has not timed out the engine can still return. -/
theorem Fed.exists_returned (hcap : 1 ≤ cap) (hreg : registry.Returns)
    (hx : Fed cap registry ms x) (hphase : x.2.phase ≠ .timedOut) :
    ∃ y, ReflTransGen (FeedStep cap registry) x y ∧ y.2.phase = .returned := by
  obtain ⟨y, hrun, hy, hne, hlast⟩ := hx.exists_run hphase
  refine ⟨y, hrun, ?_⟩
  by_contra hnot
  obtain ⟨z, hstep, hz⟩ := hy.exists_step hcap hreg ⟨hnot, hne⟩
  exact hz (hlast z hstep)

/-- When the engine has returned, all messages were received and all of their outputs handed
over. -/
theorem Fed.complete (hreg : registry.Returns) (hx : Fed cap registry ms x)
    (hphase : x.2.phase = .returned) : x.2.received = ms ∧
      (ms.map registry.outputs).IsInterleaving (x.2.log.map (·.2)) := by
  have hnil : x.1 = [] := by
    by_contra hne
    rw [hx.looping hne] at hphase
    cases hphase
  have hreceived : x.2.received = ms := by
    rw [← hx.messages, hnil, List.append_nil]
  have hacc := hx.reachable.accounted
  have href := hx.reachable.refines
  have hparts : x.2.parts = ms.map registry.outputs := by
    rw [← hreceived]
    refine href.parts_eq hacc hreg (by simp [hphase]) fun y hy => ?_
    rw [hacc.returned hphase] at hy
    cases hy
  refine ⟨hreceived, ?_⟩
  rw [← hparts]
  exact href.isInterleaving_log

end EngineState

end RosettaMq
