import RosettaMq.Engine.Termination

/-!
# Decoders that never return

A task whose decoder never returns keeps its place among the `max_concurrent_decodes` for good. As
long as there are fewer of them all other messages can be handled in full, but the drain can only
time out, and then aborts the tasks that are left at that moment, finished or not; with the last
place taken the engine stops receiving (`EngineState.hung_decoders`).
-/

open Relation

namespace RosettaMq

/-- The decoder of the message never returns. -/
def DecoderRegistry.hangs (registry : DecoderRegistry) (m : Publish) : Bool :=
  match registry.decoderFor m with
  | none => false
  | some d => (d.decode m).ending = .hang

theorem DecoderRegistry.hangs_iff {registry : DecoderRegistry} {m : Publish} :
    registry.hangs m = true ↔ registry.HangsOn m := by
  unfold hangs HangsOn
  cases registry.decoderFor m <;> simp

/-- Counting the elements by their indices. -/
theorem countP_range_getElem? {α : Type} (p : α → Bool) (l : List α) :
    (List.range l.length).countP (fun i => l[i]?.any p) = l.countP p := by
  induction l using List.reverseRecOn with
  | nil => rfl
  | append_singleton l a ih =>
    have hinit : (List.range l.length).countP (fun i => (l ++ [a])[i]?.any p) = l.countP p := by
      rw [← ih]
      refine List.countP_congr fun i hi => ?_
      rw [List.getElem?_append_left (List.mem_range.mp hi)]
    rw [List.length_append, List.length_singleton, List.range_succ, List.countP_append, hinit,
      List.countP_append]
    simp [List.countP_singleton]

namespace EngineState

variable {cap : ℕ} {registry : DecoderRegistry} {s s' : EngineState} {a : Action}
  {ms : List Publish} {x y : List Publish × EngineState}

/-! ## Hung tasks stay -/

/-- The messages whose decoders never return are those of tasks that were not reaped. -/
theorem Accounted.countP_hangs (hacc : s.Accounted cap registry) (href : s.Refines registry) :
    s.received.countP registry.hangs =
      s.unreaped.countP fun x => registry.hangs x.2.message := by
  have hskipped : s.skipped.countP (fun i => s.received[i]?.any registry.hangs) = 0 := by
    refine List.countP_eq_zero.mpr fun i hi => ?_
    obtain ⟨m, hm, hnone⟩ := hacc.skipped i hi
    simp [hm, DecoderRegistry.hangs, hnone]
  have hreaped : (s.reaped.map (·.1)).countP
      (fun i => s.received[i]?.any registry.hangs) = 0 := by
    refine List.countP_eq_zero.mpr fun i hi => ?_
    obtain ⟨x, hx, rfl⟩ := List.mem_map.mp hi
    have hm := (hacc.message x (List.mem_append_right _ hx)).1
    -- a task is reaped only once its decoder has ended
    have hends := (href.done x.1 _ hm (hacc.not_mem_unreaped_of_reaped hi)).2
    rw [← DecoderRegistry.hangs_iff] at hends
    simpa [hm] using hends
  have hunreaped : (s.unreaped.map (·.1)).countP (fun i => s.received[i]?.any registry.hangs) =
      s.unreaped.countP fun x => registry.hangs x.2.message := by
    rw [List.countP_map]
    refine List.countP_congr fun x hx => ?_
    simp [(hacc.message x (List.mem_append_left _ hx)).1]
  rw [← countP_range_getElem?, ← hacc.ids_perm.countP_eq, ids, List.countP_append,
    List.countP_append, hskipped, hreaped, hunreaped, Nat.zero_add, Nat.add_zero]

theorem countP_hangs_le (hs : s.Reachable cap registry) (hphase : s.phase ≠ .timedOut) :
    s.received.countP registry.hangs ≤ s.tasks.length := by
  rw [hs.accounted.countP_hangs hs.refines, hs.accounted.unreaped_eq hphase]
  exact List.countP_le_length

/-- Whenever something came in there was room. -/
structure Roomy (cap : ℕ) (registry : DecoderRegistry) (s : EngineState) : Prop where
  before_last : ∀ p m, s.received = p ++ [m] → p.countP registry.hangs < cap
  ended : s.phase ≠ .looping → s.received.countP registry.hangs < cap

theorem Step.roomy (h : Step cap registry s a s') (hreach : s.Reachable cap registry)
    (hshutdown : s.shutdown = false) (hs : s.Roomy cap registry) : s'.Roomy cap registry := by
  have hle := countP_hangs_le hreach
  have hne : s.phase = .looping → s.phase ≠ .timedOut := fun hphase => by simp [hphase]
  have hreceived := h.received_eq
  refine ⟨fun p m hp => ?_, fun hphase => ?_⟩
  · rw [hreceived] at hp
    by_cases hnil : a.received = []
    · rw [hnil, List.append_nil] at hp
      exact hs.before_last p m hp
    · -- the message that comes in is the last one
      cases a with
      | recv message =>
        cases message with
        | none => exact absurd rfl hnil
        | some m' =>
          obtain ⟨rfl, -⟩ := List.append_inj' hp rfl
          exact Nat.lt_of_le_of_lt (hle (hne h.of_recv.1)) h.of_recv.2
      | publish | cancel | silent => exact absurd rfl hnil
  · by_cases hlooping : s.phase = .looping
    · rcases h.looping_or hlooping with hphase' | rfl | hcancelled
      · exact absurd hphase' hphase
      · rw [hreceived]
        simpa [Action.received] using Nat.lt_of_le_of_lt (hle (hne hlooping)) h.of_recv.2
      · rw [hshutdown] at hcancelled
        cases hcancelled
    · rw [(Next.received_eq ⟨a, h⟩ hlooping).1]
      exact hs.ended hlooping

/-- The messages come in order, and whenever one did there was room. -/
theorem roomy_of_run (hx : ReflTransGen (FeedStep cap registry) (ms, init) x) :
    Fed cap registry ms x ∧ x.2.Roomy cap registry := by
  induction hx with
  | refl =>
    refine ⟨⟨.refl, rfl, rfl, fun _ => rfl⟩, fun p m hp => ?_, fun hphase => absurd rfl hphase⟩
    exact absurd hp.symm (by simp [init])
  | tail _ hstep ih =>
    obtain ⟨hfed, hroomy⟩ := ih
    refine ⟨hstep.fed hfed, ?_⟩
    cases hstep with
    | recv h | closed h | publish h | silent h => exact h.roomy hfed.reachable hfed.shutdown hroomy

/-! ## When nothing more happens -/

/-- Nothing can happen but that the drain times out. -/
def Halted (cap : ℕ) (registry : DecoderRegistry) (x : List Publish × EngineState) : Prop :=
  ∀ y, FeedStep cap registry x y → x.2.phase = .draining ∧ y.2.phase = .timedOut

theorem Halted.of_final (h : Final (FeedStep cap registry) x) : Halted cap registry x :=
  fun y hy => absurd hy (h y)

/-- No step keeps the phase. -/
theorem Halted.phase_ne (h : Halted cap registry x) (hy : FeedStep cap registry x y) :
    y.2.phase ≠ x.2.phase := by
  obtain ⟨hdraining, htimedOut⟩ := h y hy
  rw [hdraining, htimedOut]
  nofun

/-- There are tasks only in the loop and in the drain. -/
theorem Accounted.phase_of_mem_tasks (hacc : s.Accounted cap registry) {t : ℕ × Task}
    (ht : t ∈ s.tasks) : s.phase = .looping ∨ s.phase = .draining := by
  cases hp : s.phase with
  | looping => exact Or.inl rfl
  | draining => exact Or.inr rfl
  | panicked => exact absurd hp hacc.phase_ne
  | returned =>
    rw [hacc.returned hp] at ht
    cases ht
  | timedOut =>
    rw [hacc.timedOut hp] at ht
    cases ht

/-- The decoder of a task that is left never returns, and the task has nothing left to hand
over. -/
theorem Halted.of_mem_tasks (h : Halted cap registry x) (hx : Fed cap registry ms x)
    {t : ℕ × Task} (ht : t ∈ x.2.tasks) :
    t.2.remaining = [] ∧ registry.hangs t.2.message = true := by
  obtain ⟨rest, s⟩ := x
  obtain ⟨d, hd, hsound, -⟩ := hx.reachable.refines.task t ht
  obtain ⟨l₁, l₂, htasks⟩ := List.append_of_mem ht
  dsimp only at htasks
  cases hfin : t.2.finished with
  | true =>
    -- a finished task can be reaped, which keeps the phase
    exfalso
    rcases hx.reachable.accounted.phase_of_mem_tasks ht with hphase | hphase
    · exact h.phase_ne (.silent (silent_joinNext hphase htasks hfin)) rfl
    · have hnext : JoinNext s.tasks (some t) (l₁ ++ l₂) := htasks ▸ .task hfin
      exact h.phase_ne (.silent (.drainNext hphase hnext)) rfl
  | false =>
    by_cases hstuck : (d.decode t.2.message).ending ≠ .hang ∨ t.2.remaining ≠ []
    · -- the task can go on, which keeps the phase
      obtain ⟨l, t', hstep, -⟩ := hsound.progress hfin hstuck
      exfalso
      cases l with
      | none => exact h.phase_ne (.silent (silent_task htasks hstep)) rfl
      | some r => exact h.phase_ne (.publish (.task htasks hstep)) rfl
    · rw [not_or, not_not, not_not] at hstuck
      exact ⟨hstuck.2, DecoderRegistry.hangs_iff.mpr ⟨d, hd, hstuck.1⟩⟩

/-- Every message that was received, whose decoder returns and whose task was not abandoned has been
handled in full. -/
theorem Halted.logOf_eq (h : Halted cap registry x) (hx : Fed cap registry ms x) {i : ℕ}
    {m : Publish} (hi : x.2.received[i]? = some m) (hm : registry.ReturnsOn m)
    (habandoned : i ∉ x.2.abandoned.map (·.1)) : x.2.logOf i = registry.outputs m := by
  have href := hx.reachable.refines
  by_cases hin : i ∈ x.2.tasks.map (·.1)
  · obtain ⟨t, ht, rfl⟩ := List.mem_map.mp hin
    have hmsg := (hx.reachable.accounted.task ht).1
    rw [hi, Option.some_inj] at hmsg
    obtain ⟨d, -, -, hcovers⟩ := href.task t ht
    rw [(h.of_mem_tasks hx ht).1, List.append_nil, ← hmsg] at hcovers
    exact hcovers.eq hm
  · have hout : i ∉ x.2.unreaped.map (·.1) := by
      rw [unreaped, List.map_append, List.mem_append, not_or]
      exact ⟨hin, habandoned⟩
    exact (href.done i m hi hout).1.eq hm

/-- The tasks that are left are those that never end. -/
theorem Halted.countP_hangs (h : Halted cap registry x) (hx : Fed cap registry ms x)
    (hphase : x.2.phase ≠ .timedOut) : x.2.received.countP registry.hangs = x.2.tasks.length := by
  have hacc := hx.reachable.accounted
  rw [hacc.countP_hangs hx.reachable.refines, hacc.unreaped_eq hphase, List.countP_eq_length]
  exact fun t ht => (h.of_mem_tasks hx ht).2

/-- In the loop, they have taken all places. -/
theorem Halted.length_tasks (h : Halted cap registry x) (hx : Fed cap registry ms x)
    (hphase : x.2.phase = .looping) : x.2.tasks.length = cap := by
  obtain ⟨rest, s⟩ := x
  refine le_antisymm hx.reachable.accounted.tasks_le (Nat.le_of_not_lt fun hroom => ?_)
  dsimp only at hphase hroom
  -- with a free place a message, or the end of all messages, would come in
  have hdraining : s.phase = .draining := by
    cases rest with
    | nil =>
      have hen : s.enabled cap .recv = true := by simpa [enabled] using hroom
      exact (h _ (.closed (.closed hphase hen rfl))).1
    | cons m rest =>
      obtain ⟨s', hstep⟩ := @exists_recv_step cap registry s m hphase hroom
      exact (h _ (.recv hstep)).1
  rw [hphase] at hdraining
  cases hdraining

/-- Outside of the loop all messages have been received. -/
theorem Fed.received_eq (hx : Fed cap registry ms x) (hphase : x.2.phase ≠ .looping) :
    x.2.received = ms := by
  have hnil : x.1 = [] := by
    by_contra hne
    exact hphase (hx.looping hne)
  rw [← hx.messages, hnil, List.append_nil]

/-- With the last place taken, the message that took it is the last one that was received. -/
theorem Halted.received_eq (h : Halted cap registry x) (hcap : 1 ≤ cap)
    (hx : Fed cap registry ms x) (hroomy : x.2.Roomy cap registry)
    (hphase : x.2.phase = .looping) :
    ∃ p m, x.2.received = p ++ [m] ∧ p.countP registry.hangs + 1 = cap ∧
      registry.hangs m = true := by
  have hcount : x.2.received.countP registry.hangs = cap :=
    (h.countP_hangs hx (by simp [hphase])).trans (h.length_tasks hx hphase)
  rcases List.eq_nil_or_concat x.2.received with hnil | ⟨p, m, hp⟩
  · rw [hnil, List.countP_nil] at hcount
    omega
  · rw [List.concat_eq_append] at hp
    have hlt := hroomy.before_last p m hp
    rw [hp, List.countP_append, List.countP_singleton] at hcount
    refine ⟨p, m, hp, ?_⟩
    split_ifs at hcount with hm
    · exact ⟨hcount, hm⟩
    · omega

/-- In the drain, there are some. -/
theorem Halted.tasks_ne_nil (h : Halted cap registry x) (hphase : x.2.phase = .draining) :
    x.2.tasks ≠ [] := by
  obtain ⟨rest, s⟩ := x
  intro hnil
  dsimp only at hphase hnil
  have htimedOut := (h _ (.silent (silent_drained hphase hnil))).2
  cases htimedOut

/-- What has been received is a first part of the messages. -/
theorem Fed.countP_le (hx : Fed cap registry ms x) (p : Publish → Bool) :
    x.2.received.countP p ≤ ms.countP p := by
  rw [← hx.messages, List.countP_append]
  exact Nat.le_add_right _ _

/-- If not all places are taken in the end, the loop has ended. -/
theorem Halted.phase_ne_looping (h : Halted cap registry x) (hx : Fed cap registry ms x)
    (hlt : ms.countP registry.hangs < cap) : x.2.phase ≠ .looping := by
  intro hphase
  have hcount := h.countP_hangs hx (by simp [hphase])
  have hle := hx.countP_le registry.hangs
  rw [h.length_tasks hx hphase] at hcount
  omega

/-- Otherwise it has not. -/
theorem Fed.phase_eq_looping (hx : Fed cap registry ms x) (hroomy : x.2.Roomy cap registry)
    (hge : cap ≤ ms.countP registry.hangs) : x.2.phase = .looping := by
  by_contra hne
  have hlt := hroomy.ended hne
  rw [hx.received_eq hne] at hlt
  omega

/-- A run that has ended has left the drain. -/
theorem phase_ne_draining_of_final (h : Final (FeedStep cap registry) x) :
    x.2.phase ≠ .draining := by
  intro hphase
  have hne := (Halted.of_final h).tasks_ne_nil hphase
  -- the timeout of the drain is still possible
  exact h (x.1, _) (.silent (.timeout hphase hne))

/-- Only the drain times out. -/
theorem FeedStep.phase_eq_draining (h : FeedStep cap registry x y)
    (hx : x.2.phase ≠ .timedOut) (hy : y.2.phase = .timedOut) : x.2.phase = .draining := by
  have hstep : ∀ {s s' : EngineState} {a : Action}, Step cap registry s a s' →
      s.phase ≠ .timedOut → s'.phase = .timedOut → s.phase = .draining := by
    intro s s' a h hs hs'
    cases h with
    | timeout hdraining => exact hdraining
    | skip | spawn | joinNext | drainNext | task | cancel => exact absurd hs' hs
    | closed | cancelled | noBranch | drained => cases hs'
  cases h with
  | recv h | closed h | publish h | silent h => exact hstep h hx hy

/-- The engine can go on, without its drain timing out, until nothing else can happen. -/
theorem Fed.exists_halted (hx : Fed cap registry ms x) (hphase : x.2.phase ≠ .timedOut) :
    ∃ y, ReflTransGen (FeedStep cap registry) x y ∧ Halted cap registry y ∧
      Fed cap registry ms y ∧ y.2.phase ≠ .timedOut := by
  obtain ⟨y, hrun, hy, hne, hlast⟩ := hx.exists_run hphase
  exact ⟨y, hrun, fun z hz => ⟨hz.phase_eq_draining hne (hlast z hz), hlast z hz⟩, hy, hne⟩

/-- Without tasks that never end the engine has then returned. -/
theorem Halted.phase_eq_returned (h : Halted cap registry x) (hcap : 1 ≤ cap)
    (hms : ms.countP registry.hangs = 0) (hx : Fed cap registry ms x)
    (hphase : x.2.phase ≠ .timedOut) : x.2.phase = .returned := by
  cases hp : x.2.phase with
  | returned => rfl
  | timedOut => exact absurd hp hphase
  | panicked => exact absurd hp hx.reachable.accounted.phase_ne
  | looping => exact absurd hp (h.phase_ne_looping hx (by omega))
  | draining =>
    -- a task that is left never ends
    have hcount := h.countP_hangs hx hphase
    have hle := hx.countP_le registry.hangs
    rw [hms, hcount, Nat.le_zero, List.length_eq_zero_iff] at hle
    exact absurd hle (h.tasks_ne_nil hp)

/-- A registry with a decoder that never returns. -/
def hungRegistry : DecoderRegistry where
  entries := [⟨⟨"sensors/+", [2, 1], rfl⟩, ⟨fun _ => ⟨[], .hang⟩⟩⟩]
  nodup := by decide

end EngineState

end RosettaMq
