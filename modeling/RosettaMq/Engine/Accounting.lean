import Mathlib.Data.List.Perm.Basic
import Mathlib.Data.List.Range
import RosettaMq.Decoder.Precedence
import RosettaMq.Engine.Run

/-!
# Accounting of received messages

In every reachable state of the engine, each received message is skipped, in the task set, or
reaped, and is so once (`EngineState.Accounted`). Only a drain that times out leaves messages whose
tasks were abandoned. The set never exceeds the cap, `select!` always has an enabled branch, and
after the loop nothing is received any more.
-/

open Relation

namespace RosettaMq

namespace EngineState

variable {cap : ℕ} {registry : DecoderRegistry} {s s' : EngineState} {a : Action}

/-- The tasks that were not reaped: those of the set, or those that were abandoned with it. -/
def unreaped (s : EngineState) : List (ℕ × Task) := s.tasks ++ s.abandoned

/-- The index of every message that was skipped, has a task, or had one that was reaped. -/
def ids (s : EngineState) : List ℕ :=
  s.skipped ++ s.unreaped.map (·.1) ++ s.reaped.map (·.1)

/-- Each received message is in one place, with the task that was spawned for it. -/
structure Accounted (cap : ℕ) (registry : DecoderRegistry) (s : EngineState) : Prop where
  unreaped_le : s.unreaped.length ≤ cap
  ids_perm : s.ids.Perm (List.range s.received.length)
  /-- A task is about the message with its index, which has a decoder. -/
  message : ∀ x ∈ s.unreaped ++ s.reaped,
    s.received[x.1]? = some x.2.message ∧ (registry.decoderFor x.2.message).isSome = true
  /-- A skipped message has no decoder. -/
  skipped : ∀ i ∈ s.skipped, ∃ m, s.received[i]? = some m ∧ registry.decoderFor m = none
  reaped : ∀ x ∈ s.reaped, x.2.finished = true
  phase_ne : s.phase ≠ .panicked
  returned : s.phase = .returned → s.tasks = []
  timedOut : s.phase = .timedOut → s.tasks = []
  abandoned : s.phase ≠ .timedOut → s.abandoned = []

theorem accounted_init : Accounted cap registry init where
  unreaped_le := Nat.zero_le _
  ids_perm := List.Perm.refl _
  message := by simp [init, unreaped]
  skipped := by simp [init]
  reaped := by simp [init]
  phase_ne := by simp [init]
  returned := fun _ => rfl
  timedOut := fun _ => rfl
  abandoned := fun _ => rfl

theorem mem_unreaped_of_mem_tasks {x : ℕ × Task} (hx : x ∈ s.tasks) : x ∈ s.unreaped :=
  List.mem_append_left _ hx

theorem Accounted.tasks_le (hs : s.Accounted cap registry) : s.tasks.length ≤ cap := by
  have hle := hs.unreaped_le
  rw [unreaped, List.length_append] at hle
  omega

/-- A task of the set is about the message with its index, which has a decoder. -/
theorem Accounted.task (hs : s.Accounted cap registry) {x : ℕ × Task} (hx : x ∈ s.tasks) :
    s.received[x.1]? = some x.2.message ∧ (registry.decoderFor x.2.message).isSome = true :=
  hs.message x (List.mem_append_left _ (mem_unreaped_of_mem_tasks hx))

/-- Unless the drain has timed out, the tasks of the set are all that there are. -/
theorem Accounted.unreaped_eq (hs : s.Accounted cap registry) (hphase : s.phase ≠ .timedOut) :
    s.unreaped = s.tasks := by
  rw [unreaped, hs.abandoned hphase, List.append_nil]

/-- When `run` has returned by itself every task was reaped. -/
theorem Accounted.unreaped_eq_nil (hs : s.Accounted cap registry) (hphase : s.phase = .returned) :
    s.unreaped = [] := by
  rw [hs.unreaped_eq (by simp [hphase]), hs.returned hphase]

/-- Reaping a finished task keeps the account. -/
theorem Accounted.reap {x : ℕ × Task} {rest : List (ℕ × Task)} (hs : s.Accounted cap registry)
    (hphase : s.phase = .looping ∨ s.phase = .draining) (hnext : JoinNext s.tasks (some x) rest) :
    Accounted cap registry { s with tasks := rest, reaped := s.reaped ++ [x] } := by
  obtain ⟨l₁, l₂, htasks, rfl, hfin⟩ := hnext.of_some
  refine ⟨?_, ?_, fun y hy => hs.message y ?_, hs.skipped, fun y hy => ?_, hs.phase_ne,
    fun h => ?_, fun h => ?_, hs.abandoned⟩
  · have hcap := hs.unreaped_le
    rw [unreaped, htasks] at hcap
    simp only [unreaped, List.length_append, List.length_cons] at hcap ⊢
    omega
  · -- the index goes from the tasks to the reaped ones
    refine List.Perm.trans (List.perm_iff_count.mpr fun i => ?_) hs.ids_perm
    simp only [ids, unreaped, htasks, List.map_append, List.map_cons, List.map_nil,
      List.count_append, List.count_cons, List.count_nil]
    omega
  · simp only [unreaped, List.mem_append, List.mem_singleton] at hy
    rw [unreaped, List.mem_append, List.mem_append, hnext.mem_iff, List.mem_append]
    tauto
  · rcases List.mem_append.mp hy with hy | hy
    · exact hs.reaped y hy
    · rw [List.mem_singleton.mp hy]
      exact hfin
  · rcases hphase with hphase | hphase <;> rw [hphase] at h <;> cases h
  · rcases hphase with hphase | hphase <;> rw [hphase] at h <;> cases h

/-- A received message stays where it is when another one is received. -/
theorem getElem?_concat {received : List Publish} {i : ℕ} {m m' : Publish}
    (h : received[i]? = some m) : (received ++ [m'])[i]? = some m := by
  rw [List.getElem?_append_left (List.getElem?_eq_some_iff.mp h).1, h]

/-- The index of the next message is added to those that are accounted for. -/
theorem Accounted.ids_concat (hs : s.Accounted cap registry) (m : Publish) :
    (s.ids ++ [s.received.length]).Perm (List.range (s.received ++ [m]).length) := by
  rw [List.length_append, List.length_singleton, List.range_succ]
  exact hs.ids_perm.append_right _

/-- Tasks stay tasks of their messages when another message is received. -/
theorem Accounted.message_concat (hs : s.Accounted cap registry) (m : Publish) {x : ℕ × Task}
    (hx : x ∈ s.unreaped ++ s.reaped) :
    (s.received ++ [m])[x.1]? = some x.2.message ∧
      (registry.decoderFor x.2.message).isSome = true :=
  ⟨getElem?_concat (hs.message x hx).1, (hs.message x hx).2⟩

/-- Skipped messages stay so when another message is received. -/
theorem Accounted.skipped_concat (hs : s.Accounted cap registry) (m : Publish) {i : ℕ}
    (hi : i ∈ s.skipped) :
    ∃ m', (s.received ++ [m])[i]? = some m' ∧ registry.decoderFor m' = none := by
  obtain ⟨m', hm', hnone⟩ := hs.skipped i hi
  exact ⟨m', getElem?_concat hm', hnone⟩

/-- Every step keeps the account. -/
theorem Step.accounted (h : Step cap registry s a s') (hs : s.Accounted cap registry) :
    s'.Accounted cap registry := by
  cases h with
  | skip hphase hroom hmsg =>
    rename_i m
    rw [handleIncoming_some, Prod.mk.injEq, Option.map_eq_none_iff] at hmsg
    refine ⟨hs.unreaped_le, ?_, fun x hx => ?_, fun i hi => ?_, hs.reaped, hs.phase_ne,
      hs.returned, hs.timedOut, hs.abandoned⟩
    · -- the new index goes to the skipped ones
      refine List.Perm.trans (List.perm_iff_count.mpr fun i => ?_) (hs.ids_concat m)
      simp only [ids, unreaped, List.count_append]
      omega
    · exact hs.message_concat m hx
    · rcases List.mem_append.mp hi with hi | hi
      · exact hs.skipped_concat m hi
      · rw [List.mem_singleton.mp hi]
        exact ⟨m, by simp, hmsg.2⟩
  | spawn hphase hroom hmsg =>
    rename_i m t
    rw [handleIncoming_some, Prod.mk.injEq, Option.map_eq_some_iff] at hmsg
    obtain ⟨-, d, hd, rfl⟩ := hmsg
    have habandoned := hs.abandoned (by simp [hphase])
    refine ⟨?_, ?_, fun x hx => ?_, fun i hi => ?_, hs.reaped, hs.phase_ne, fun hret => ?_,
      fun htime => ?_, hs.abandoned⟩
    · -- the guard of the branch is what keeps the set within the cap
      simp only [enabled, decide_eq_true_eq] at hroom
      simp only [unreaped, habandoned, List.length_append, List.length_singleton, List.length_nil]
      omega
    · -- the new index goes to the tasks
      refine List.Perm.trans (List.perm_iff_count.mpr fun i => ?_) (hs.ids_concat m)
      simp only [ids, unreaped, List.map_append, List.map_cons, List.map_nil, List.count_append]
      omega
    · have hx' : x ∈ s.unreaped ++ s.reaped ∨ x = (s.received.length, decodeAndPublish d m) := by
        simp only [unreaped, List.mem_append, List.mem_singleton] at hx ⊢
        tauto
      rcases hx' with hx' | rfl
      · exact hs.message_concat m hx'
      · exact ⟨by simp [decodeAndPublish], by simp [decodeAndPublish, hd]⟩
    · exact hs.skipped_concat m hi
    · rw [hphase] at hret
      cases hret
    · rw [hphase] at htime
      cases htime
  | closed hphase | cancelled hphase =>
    exact ⟨hs.unreaped_le, hs.ids_perm, hs.message, hs.skipped, hs.reaped, by simp, by simp,
      by simp, fun _ => hs.abandoned (by simp [hphase])⟩
  | joinNext hphase _ hnext => exact hs.reap (Or.inl hphase) hnext
  | noBranch _ hno => exact absurd (hno .cancelled) (by simp [enabled])
  | drainNext hphase hnext => exact hs.reap (Or.inr hphase) hnext
  | drained hphase hnext =>
    obtain ⟨hnil, rfl⟩ := hnext.of_none
    exact ⟨hs.unreaped_le, hs.ids_perm, hs.message, hs.skipped, hs.reaped, by simp,
      fun _ => hnil, by simp, fun _ => hs.abandoned (by simp [hphase])⟩
  | timeout hphase =>
    -- the tasks that are abandoned are those of the set
    have hunreaped : ([] ++ s.tasks : List (ℕ × Task)) = s.unreaped := by
      rw [hs.unreaped_eq (by simp [hphase]), List.nil_append]
    refine ⟨?_, ?_, ?_, hs.skipped, hs.reaped, by simp, by simp, fun _ => rfl, by simp⟩
    · rw [unreaped, hunreaped]
      exact hs.unreaped_le
    · rw [ids, unreaped, hunreaped]
      exact hs.ids_perm
    · rw [unreaped, hunreaped]
      exact hs.message
  | task htasks hstep =>
    rename_i l₁ l₂ i t l t'
    have hmem : (i, t) ∈ s.tasks := by rw [htasks]; simp
    have hmsg := hs.task hmem
    have hnil : s.tasks ≠ [] := by simp [htasks]
    -- the task keeps its place, its index and its message
    refine ⟨?_, ?_, fun x hx => ?_, hs.skipped, hs.reaped, hs.phase_ne,
      fun hphase => absurd (hs.returned hphase) hnil,
      fun hphase => absurd (hs.timedOut hphase) hnil, hs.abandoned⟩
    · simpa [unreaped, htasks] using hs.unreaped_le
    · simpa [ids, unreaped, htasks] using hs.ids_perm
    · have hx' : x ∈ s.unreaped ++ s.reaped ∨ x = (i, t') := by
        simp only [unreaped, htasks, List.mem_append, List.mem_cons] at hx ⊢
        tauto
      rcases hx' with hx' | rfl
      · exact hs.message x hx'
      · rw [hstep.message_eq]
        exact hmsg
  | cancel => exact ⟨hs.unreaped_le, hs.ids_perm, hs.message, hs.skipped, hs.reaped, hs.phase_ne,
      hs.returned, hs.timedOut, hs.abandoned⟩

/-- Every reachable state is accounted for. -/
theorem Reachable.accounted (h : s.Reachable cap registry) : s.Accounted cap registry :=
  h.invariant accounted_init fun _ hstep hs => hstep.accounted hs

/-- The record of the cancellation is empty as long as the token is not cancelled. -/
theorem Step.cancelledAt_eq_none (h : Step cap registry s a s')
    (hs : s.shutdown = false → s.cancelledAt = none) :
    s'.shutdown = false → s'.cancelledAt = none := by
  cases h with
  | cancel => nofun
  | skip | spawn | closed | joinNext | cancelled | noBranch | drainNext | drained | timeout
  | task => exact hs

theorem Reachable.cancelledAt_eq_none (h : s.Reachable cap registry) :
    s.shutdown = false → s.cancelledAt = none :=
  h.invariant (fun _ => rfl) fun _ hstep hs => hstep.cancelledAt_eq_none hs

/-- With a cap of zero nothing is ever received. -/
theorem Reachable.received_eq_nil (h : s.Reachable 0 registry) : s.received = [] := by
  apply h.invariant
  · rfl
  · intro s a s' _ hstep hs
    rw [hstep.received_eq, hs, List.nil_append]
    cases a with
    | recv message =>
      cases message with
      | none => rfl
      | some m =>
        -- the guard of the branch never lets a message in
        obtain ⟨-, hroom, -⟩ := hstep.of_recv_some
        exact absurd hroom (Nat.not_lt_zero _)
    | publish | cancel | silent => rfl

theorem Accounted.ids_nodup (hs : s.Accounted cap registry) : s.ids.Nodup :=
  hs.ids_perm.nodup_iff.mpr List.nodup_range

/-- Two tasks have different indices. -/
theorem Accounted.unreaped_nodup (hs : s.Accounted cap registry) :
    (s.unreaped.map (·.1)).Nodup :=
  ((List.nodup_append.mp (List.nodup_append.mp hs.ids_nodup).1).2).1

/-- A skipped index is not that of a task. -/
theorem Accounted.not_mem_unreaped_of_skipped {i : ℕ} (hs : s.Accounted cap registry)
    (hi : i ∈ s.skipped) : i ∉ s.unreaped.map (·.1) := by
  have hnodup := (List.nodup_append.mp hs.ids_nodup).1
  exact fun hin => (List.nodup_append.mp hnodup).2.2 i hi i hin rfl

/-- A task was reaped or was not. -/
theorem Accounted.not_mem_unreaped_of_reaped {i : ℕ} (hs : s.Accounted cap registry)
    (hi : i ∈ s.reaped.map (·.1)) : i ∉ s.unreaped.map (·.1) := fun hin =>
  (List.nodup_append.mp hs.ids_nodup).2.2 i (List.mem_append_right _ hin) i hi rfl

/-- Once the loop has ended nothing is received any more. -/
theorem Next.received_eq (h : Next cap registry s s') (hs : s.phase ≠ .looping) :
    s'.received = s.received ∧ s'.phase ≠ .looping := by
  obtain ⟨a, h⟩ := h
  cases h with
  | skip hphase | spawn hphase | closed hphase | joinNext hphase | cancelled hphase
  | noBranch hphase => exact absurd hphase hs
  | drainNext | task | cancel => exact ⟨rfl, hs⟩
  | drained | timeout => exact ⟨rfl, nofun⟩

theorem received_eq_of_run (h : ReflTransGen (Next cap registry) s s') (hs : s.phase ≠ .looping) :
    s'.received = s.received ∧ s'.phase ≠ .looping := by
  induction h with
  | refl => exact ⟨rfl, hs⟩
  | tail _ hstep ih =>
    obtain ⟨hrec, hphase⟩ := hstep.received_eq ih.2
    exact ⟨hrec.trans ih.1, hphase⟩

/-- With a positive cap the loop can receive or reap. -/
theorem enabled_recv_or_joinNext (hcap : 1 ≤ cap) :
    s.enabled cap .recv = true ∨ s.enabled cap .joinNext = true := by
  -- the empty set has room, any other has a task to wait for
  cases htasks : s.tasks with
  | nil =>
    refine Or.inl ?_
    simp only [enabled, htasks, List.length_nil, decide_eq_true_eq]
    omega
  | cons x l => exact Or.inr (by simp [enabled, htasks])

/-- On a set that is not empty `join_next` does not return `None`. -/
theorem isSome_of_joinNext {next : Option (ℕ × Task)} {rest : List (ℕ × Task)}
    (h : JoinNext s.tasks next rest) (hen : s.enabled cap .joinNext = true) :
    next.isSome = true := by
  cases next with
  | some x => rfl
  | none =>
    rw [enabled, h.of_none.1] at hen
    cases hen

/-- After `run` has returned every message is skipped, or its task has run to completion. -/
theorem Accounted.completed (hs : s.Accounted cap registry) (hphase : s.phase = .returned)
    {i : ℕ} (hi : i < s.received.length) :
    i ∈ s.skipped ∨ ∃ t, (i, t) ∈ s.reaped ∧ t.finished = true := by
  have hmem : i ∈ s.ids := hs.ids_perm.mem_iff.mpr (List.mem_range.mpr hi)
  rw [ids, hs.unreaped_eq_nil hphase, List.map_nil, List.append_nil, List.mem_append,
    List.mem_map] at hmem
  rcases hmem with hmem | ⟨x, hx, rfl⟩
  · exact Or.inl hmem
  · exact Or.inr ⟨x.2, hx, hs.reaped x hx⟩

/-- The engine's account: the cap, each message in one place, no panic of `select!`, and what holds
after the loop and after `run` has returned. A drain that times out empties the set, and only then
there are abandoned tasks. -/
theorem accounting (hcap : 1 ≤ cap) (hs : s.Reachable cap registry) :
    s.tasks.length ≤ cap ∧
      (s.phase ≠ .timedOut → (s.skipped ++ s.tasks.map (·.1) ++ s.reaped.map (·.1)).Perm
        (List.range s.received.length)) ∧
      (s.phase = .timedOut → s.tasks = [] ∧
        (s.skipped ++ s.abandoned.map (·.1) ++ s.reaped.map (·.1)).Perm
          (List.range s.received.length)) ∧
      (s.enabled cap .recv = true ∨ s.enabled cap .joinNext = true) ∧
      s.phase ≠ .panicked ∧
      (∀ next rest, s.enabled cap .joinNext = true → JoinNext s.tasks next rest →
        next.isSome = true) ∧
      (s.phase ≠ .looping → ∀ s', ReflTransGen (Next cap registry) s s' →
        s'.received = s.received) ∧
      (s.phase = .returned → s.tasks = [] ∧ ∀ i < s.received.length,
        i ∈ s.skipped ∨ ∃ t, (i, t) ∈ s.reaped ∧ t.finished = true) := by
  have hacc := hs.accounted
  have hperm := hacc.ids_perm
  refine ⟨hacc.tasks_le, fun hphase => ?_, fun hphase => ⟨hacc.timedOut hphase, ?_⟩,
    enabled_recv_or_joinNext hcap, hacc.phase_ne,
    fun _ _ hen hnext => isSome_of_joinNext hnext hen,
    fun hphase _ hrun => (received_eq_of_run hrun hphase).1,
    fun hphase => ⟨hacc.returned hphase, fun _ hi => hacc.completed hphase hi⟩⟩
  · rwa [ids, hacc.unreaped_eq hphase] at hperm
  · rwa [ids, unreaped, hacc.timedOut hphase, List.nil_append] at hperm

/-- A message for `DecoderRegistry.sensorRegistry`. -/
def sensorMessage : Publish := ⟨false, .atLeastOnce, false, "sensors/a", 7, [0x34, 0x32]⟩

/-- The engine after it has received that message. -/
def sensorState : EngineState :=
  { init with
    received := [sensorMessage]
    tasks := [(0, decodeAndPublish ⟨Utf8Decoder.decode⟩ sensorMessage)] }

theorem reachable_sensorState : sensorState.Reachable 1 .sensorRegistry :=
  .single ⟨.recv (some sensorMessage), .spawn rfl rfl rfl⟩

theorem accounting_sensorState :
    sensorState.tasks.length ≤ 1 ∧
      (sensorState.skipped ++ sensorState.tasks.map (·.1) ++ sensorState.reaped.map (·.1)).Perm
        (List.range sensorState.received.length) ∧
      (sensorState.enabled 1 .recv = true ∨ sensorState.enabled 1 .joinNext = true) :=
  have h := accounting (Nat.le_refl 1) reachable_sensorState
  ⟨h.1, h.2.1 (by decide), h.2.2.2.1⟩

end EngineState

end RosettaMq
