import RosettaMq.Client.Conservation
import RosettaMq.ToMathlib.Backpressure

/-!
# Deadlocks of the pipeline

The pipeline is a pump between two bounded queues: the driver is the pump, the tasks are the
workers, and what a task still hands over are the outputs of its worker. `Pipeline.view` forgets
everything else. A step of the pipeline is a step of the pump or shows nothing in the view
(`Pipeline.Step.view`), and every step of the pump can be taken by the pipeline
(`Pipeline.exists_run_of_view`). So the pipeline can deadlock exactly from an overload
(`Pipeline.deadlock_free_iff`).
-/

open Relation

namespace RosettaMq

/-- How many outputs of the message can be lost because its decoder panics. -/
def DecoderRegistry.spare (registry : DecoderRegistry) (m : Publish) : ℕ :=
  match registry.decoderFor m with
  | some d => (d.decode m).ending.spare
  | none => 0

theorem DecoderRegistry.spare_eq {registry : DecoderRegistry} {m : Publish} {d : ErasedDecoder}
    (h : registry.decoderFor m = some d) : registry.spare m = (d.decode m).ending.spare := by
  rw [spare, h]

/-- For each task of the set its message, and how many messages it still hands over. -/
def EngineState.pool (e : EngineState) : List (Publish × ℕ) :=
  e.tasks.map fun x => (x.2.message, x.2.remaining.length)

namespace Pipeline

variable {cap : ℕ} {registry : DecoderRegistry} {s s' : Pipeline} {deliveries : List Publish}

/-- The pipeline's queues and workers. -/
def queues (cap : ℕ) (registry : DecoderRegistry) : Backpressure.Params Publish where
  inCap := incomingCapacity
  outCap := requestCapacity
  workers := cap
  work m := (registry.decoderFor m).map fun d => (d.outputs m).length
  spare := registry.spare

@[simp] theorem inCap_queues : (queues cap registry).inCap = incomingCapacity := rfl

@[simp] theorem outCap_queues : (queues cap registry).outCap = requestCapacity := rfl

@[simp] theorem workers_queues : (queues cap registry).workers = cap := rfl

@[simp] theorem spare_queues : (queues cap registry).spare = registry.spare := rfl

theorem size_queues (m : Publish) : (queues cap registry).size m = (registry.outputs m).length := by
  cases hd : registry.decoderFor m <;>
    simp [Backpressure.Params.size, queues, DecoderRegistry.outputs, hd]

/-- A received message brings in a task with all of its outputs, if it has a decoder. -/
theorem pool_recv {e e' : EngineState} {m : Publish}
    (htasks : e'.tasks = e.tasks ++
      ((registry.decoderFor m).map fun d => (e.received.length, decodeAndPublish d m)).toList) :
    e'.pool = e.pool ++ (((queues cap registry).work m).map (m, ·)).toList := by
  rw [EngineState.pool, htasks, List.map_append]
  cases hd : registry.decoderFor m with
  | none => simp [EngineState.pool, queues, hd]
  | some d =>
    simp [EngineState.pool, queues, hd, Task.remaining_decodeAndPublish]
    rfl

/-- The pipeline as a pump between two queues. -/
def view (s : Pipeline) : Backpressure.State Publish :=
  ⟨s.deliveries, s.driver.holding, s.incoming.buf, s.engine.pool, s.requests.buf.length⟩

/-- Nothing has ended, the engine is in a state of one of its runs, and no decoder hangs. -/
structure Live (cap : ℕ) (registry : DecoderRegistry) (s : Pipeline) : Prop where
  running : s.Running
  engine : s.engine.Reachable cap registry
  not_hangs : ∀ m ∈ s.messages, ¬ registry.HangsOn m

theorem Step.live (h : Step cap registry s s') (hs : s.Live cap registry) :
    s'.Live cap registry where
  running := h.running hs.running
  engine := h.engine_reachable hs.engine
  not_hangs m hm := hs.not_hangs m (h.messages_sublist.subset hm)

theorem live_of_run (h : ReflTransGen (Step cap registry) s s') (hs : s.Live cap registry) :
    s'.Live cap registry := by
  induction h with
  | refl => exact hs
  | tail _ hstep ih => exact hstep.live ih

theorem live_start (h : ∀ m ∈ deliveries, ¬ registry.HangsOn m) :
    (start deliveries).Live cap registry :=
  ⟨@Reachable.running cap registry _ deliveries .refl, .refl, h⟩

/-- The tasks of the set are sound, and their decoders do not hang. -/
theorem Live.task (hs : s.Live cap registry) {x : ℕ × Task} (hx : x ∈ s.engine.tasks) :
    ∃ d, registry.decoderFor x.2.message = some d ∧ x.2.Sound d ∧
      (d.decode x.2.message).ending ≠ .hang := by
  obtain ⟨d, hd, hsound, -⟩ := hs.engine.refines.task x hx
  refine ⟨d, hd, hsound, fun hhang => hs.not_hangs x.2.message ?_ ⟨d, hd, hhang⟩⟩
  have hm := (hs.engine.accounted.task hx).1
  exact List.mem_append_left _ (List.mem_of_getElem? hm)

/-- No channel holds more than it can, and the set no more tasks than allowed. -/
theorem Live.withinCaps (hs : s.Live cap registry) :
    Backpressure.WithinCaps (queues cap registry) s.view where
  input := s.incoming.bound
  pool := by simpa [Pipeline.view, EngineState.pool] using hs.engine.accounted.tasks_le
  output := s.requests.bound

/-! ## Every step of the pipeline is a step of the pump -/

/-- A step of the pipeline is a step of the pump, or it is one that a task takes by itself and that
the view does not show. -/
theorem Step.view (h : Step cap registry s s') (hs : s.Live cap registry) :
    Backpressure.Step (queues cap registry) s.view s'.view ∨
      s'.view = s.view ∧ ∃ x ∈ s.engine.tasks, ¬ x.2.Settled := by
  have hrun := hs.running
  cases h with
  | pollRequest hdriver hrecv =>
    obtain ⟨hbuf, -, -⟩ := Chan.recv_eq_some_iff.mp hrecv
    refine Or.inl ?_
    simp only [Pipeline.view, hdriver, Driver.holding, hbuf, List.length_cons]
    exact .take
  | pollPublish hdriver hdel =>
    refine Or.inl ?_
    simp only [Pipeline.view, hdriver, Driver.holding, hdel]
    exact .pull
  | forward hdriver hsend =>
    obtain ⟨-, hlen, hbuf, -, -⟩ := Chan.send_eq_some_iff.mp hsend
    refine Or.inl ?_
    simp only [Pipeline.view, hdriver, Driver.holding, hbuf]
    exact .push hlen
  | forwardFails _ hclosed =>
    rw [hrun.incoming_rx] at hclosed
    cases hclosed
  | recv hrecv hstep =>
    rename_i message _ engine
    cases message with
    | none =>
      obtain ⟨-, hclosed, -⟩ := Chan.recv_eq_none_iff.mp hrecv
      rw [hrun.incoming_tx] at hclosed
      cases hclosed
    | some m =>
      obtain ⟨hbuf, -, -⟩ := Chan.recv_eq_some_iff.mp hrecv
      obtain ⟨-, hroom, -, -, htasks⟩ := hstep.of_recv_some
      refine Or.inl ?_
      have hpool := @pool_recv cap registry s.engine engine m htasks
      simp only [Pipeline.view, hbuf, hpool]
      exact .accept (by simpa [EngineState.pool] using hroom)
  | publish hsend hstep =>
    rename_i i r _ _
    -- the task has one message less to hand over, and the request channel one more
    obtain ⟨l₁, l₂, t, t', htasks, htask, rfl⟩ := hstep.of_publish
    obtain ⟨-, hlen, hbuf, -, -⟩ := Chan.send_eq_some_iff.mp hsend
    obtain ⟨d, -, ht, -⟩ := @Live.task _ _ _ hs (i, t) (by rw [htasks]; simp)
    have hrem : t.remaining = r :: t'.remaining := by
      rcases htask.remaining_eq ht with heq | ⟨hnone, -⟩
      · exact heq
      · cases hnone
    refine Or.inl ?_
    simp only [Pipeline.view, EngineState.pool, htasks, hrem, hbuf, htask.message_eq,
      List.map_append, List.map_cons, List.length_append, List.length_cons, List.length_nil,
      Nat.zero_add]
    exact .emit hlen
  | publishFails hclosed =>
    rw [hrun.requests_rx] at hclosed
    cases hclosed
  | engine hstep =>
    rcases hstep.of_looping hrun.phase hrun.shutdown with
      ⟨l₁, l₂, x, htasks, hfin, rfl⟩ | ⟨l₁, l₂, i, t, t', htasks, htask, rfl⟩
    · refine Or.inl ?_
      simp only [Pipeline.view, EngineState.pool, htasks, List.map_append, List.map_cons,
        Task.remaining_eq_nil_of_finished hfin, List.length_nil]
      exact .retire
    · have hmem : (i, t) ∈ s.engine.tasks := by rw [htasks]; simp
      have hnot : ∃ x ∈ s.engine.tasks, ¬ x.2.Settled :=
        ⟨(i, t), hmem, fun hsettled => hsettled t' htask⟩
      obtain ⟨d, hd, ht, -⟩ := hs.task hmem
      rcases htask.remaining_eq ht with heq | ⟨-, hnil, -, hle⟩
      · refine Or.inr ⟨?_, hnot⟩
        simp only [Pipeline.view, EngineState.pool, htasks, heq, htask.message_eq,
          List.map_append, List.map_cons, Option.toList_none, List.nil_append]
      · -- a panic loses what remains, which shows in the view if anything remains
        cases hrem : t.remaining with
        | nil =>
          refine Or.inr ⟨?_, hnot⟩
          simp only [Pipeline.view, EngineState.pool, htasks, hrem, hnil, htask.message_eq,
            List.map_append, List.map_cons]
        | cons r rest =>
          rw [hrem, List.length_cons, ← DecoderRegistry.spare_eq hd] at hle
          refine Or.inl ?_
          simp only [Pipeline.view, EngineState.pool, htasks, hrem, hnil, htask.message_eq,
            List.map_append, List.map_cons, List.length_cons, List.length_nil]
          exact .giveUp hle
  | dropIncoming hended =>
    rw [hrun.phase] at hended
    rcases hended with h | h <;> cases h

/-! ## Every step of the pump can be taken by the pipeline -/

theorem view_eq_iff {source input : List Publish} {holding : Option Publish}
    {pool : List (Publish × ℕ)} {output : ℕ} :
    s.view = ⟨source, holding, input, pool, output⟩ ↔
      s.deliveries = source ∧ s.driver.holding = holding ∧ s.incoming.buf = input ∧
        s.engine.pool = pool ∧ s.requests.buf.length = output := by
  rw [Pipeline.view, Backpressure.State.mk.injEq]

/-- A task runs without publishing. -/
theorem run_of_silent {l₁ l₂ : List (ℕ × Task)} {i : ℕ} {t t' : Task}
    (htasks : s.engine.tasks = l₁ ++ (i, t) :: l₂) (h : ReflTransGen Task.Silent t t') :
    ReflTransGen (Step cap registry) s
      { s with engine := { s.engine with tasks := l₁ ++ (i, t') :: l₂ } } := by
  have hrun := @EngineState.run_of_silent cap registry _ _ _ _ l₁ l₂ htasks h
  have hlift : ∀ e e', EngineState.Silent cap registry e e' →
      Step cap registry { s with engine := e } { s with engine := e' } :=
    fun _ _ hstep => .engine hstep
  exact hrun.lift (fun e => { s with engine := e }) hlift

/-- The task behind an entry of the pool. -/
theorem exists_task_of_pool {a : Publish} {n : ℕ} {l₁ l₂ : List (Publish × ℕ)} {e : EngineState}
    (h : e.pool = l₁ ++ (a, n) :: l₂) :
    ∃ k₁ k₂ i t, e.tasks = k₁ ++ (i, t) :: k₂ ∧
      k₁.map (fun x => (x.2.message, x.2.remaining.length)) = l₁ ∧
      t.message = a ∧ t.remaining.length = n ∧
      k₂.map (fun x => (x.2.message, x.2.remaining.length)) = l₂ := by
  obtain ⟨k₁, k, htasks, h₁, hk⟩ := List.map_eq_append_iff.mp h
  obtain ⟨x, k₂, rfl, hx, h₂⟩ := List.map_eq_cons_iff.mp hk
  obtain ⟨ha, hn⟩ := Prod.mk.inj hx
  exact ⟨k₁, k₂, x.1, x.2, htasks, h₁, ha, hn, h₂⟩

/-- Whatever the pump can do the pipeline can do. -/
theorem exists_run_of_view {v : Backpressure.State Publish} (hs : s.Live cap registry)
    (h : Backpressure.Step (queues cap registry) s.view v) :
    ∃ s', ReflTransGen (Step cap registry) s s' ∧ s'.view = v := by
  have hrun := hs.running
  have hdriver : s.driver.holding = none → s.driver = .polling := by
    cases hd : s.driver with
    | polling => exact fun _ => rfl
    | forwarding => nofun
    | returned => exact absurd hd hrun.driver
  generalize hv : s.view = w at h
  cases h with
  | pull =>
    obtain ⟨hdel, hhold, rfl, rfl, rfl⟩ := view_eq_iff.mp hv
    exact ⟨_, .single (.pollPublish (hdriver hhold) hdel), rfl⟩
  | @push a source input pool output hlen =>
    obtain ⟨hdel, hhold, hbuf, hpool, hout⟩ := view_eq_iff.mp hv
    have hforwarding : s.driver = .forwarding a := by
      cases hd : s.driver <;> simp_all [Driver.holding]
    rw [← hbuf] at hlen
    obtain ⟨incoming, hsend⟩ := Chan.exists_send hrun.incoming_rx hlen a
    obtain ⟨-, -, hbuf', -, -⟩ := Chan.send_eq_some_iff.mp hsend
    refine ⟨_, .single (.forward hforwarding hsend), view_eq_iff.mpr ⟨hdel, rfl, ?_, hpool, hout⟩⟩
    rw [hbuf', hbuf]
  | take =>
    obtain ⟨hdel, hhold, hbuf, hpool, hout⟩ := view_eq_iff.mp hv
    obtain ⟨r, rest, hreq⟩ := List.exists_cons_of_length_eq_add_one hout
    obtain ⟨requests, hrecv, hbuf', -, -⟩ := Chan.exists_recv hreq
    refine ⟨_, .single (.pollRequest (hdriver hhold) hrecv),
      view_eq_iff.mpr ⟨hdel, hhold, hbuf, hpool, ?_⟩⟩
    rw [hreq, List.length_cons] at hout
    rw [hbuf']
    omega
  | @accept a source holding input pool output hroom =>
    obtain ⟨hdel, hhold, hbuf, hpool, hout⟩ := view_eq_iff.mp hv
    obtain ⟨incoming, hrecv, hbuf', -, -⟩ := Chan.exists_recv hbuf
    have htasks : s.engine.tasks.length < cap := by
      simpa [← hpool, EngineState.pool] using hroom
    obtain ⟨engine, hstep⟩ := @EngineState.exists_recv_step cap registry _ a hrun.phase htasks
    obtain ⟨-, -, -, -, htasks'⟩ := hstep.of_recv_some
    refine ⟨_, .single (.recv hrecv hstep), view_eq_iff.mpr ⟨hdel, hhold, hbuf', ?_, hout⟩⟩
    rw [← hpool]
    exact pool_recv htasks'
  | @emit a n source holding input l₁ l₂ output hlen =>
    obtain ⟨hdel, hhold, hbuf, hpool, hout⟩ := view_eq_iff.mp hv
    obtain ⟨k₁, k₂, i, t, htasks, h₁, ha, hn, h₂⟩ := exists_task_of_pool hpool
    obtain ⟨d, -, ht, -⟩ := @Live.task _ _ _ hs (i, t) (by rw [htasks]; simp)
    have hne : t.remaining ≠ [] := List.ne_nil_of_length_eq_add_one hn
    obtain ⟨u, hquiet, hrem, hfin | ⟨r, u', hstep, hcons⟩⟩ := ht.exists_next (Or.inr hne)
    · exact absurd (hrem.symm.trans (Task.remaining_eq_nil_of_finished hfin)) hne
    · -- the task first gets to its next message by itself, which the view does not show
      rw [← hrem, hcons, List.length_cons, Nat.succ_inj] at hn
      rw [← hout] at hlen
      obtain ⟨requests, hsend⟩ := Chan.exists_send hrun.requests_rx hlen (.publish i r)
      obtain ⟨-, -, hbuf', -, -⟩ := Chan.send_eq_some_iff.mp hsend
      have hpublish := @EngineState.Step.task cap registry
        { s.engine with tasks := k₁ ++ (i, u) :: k₂ } k₁ k₂ i u (some r) u' rfl hstep
      refine ⟨_, (run_of_silent htasks hquiet).tail (.publish hsend hpublish),
        view_eq_iff.mpr ⟨hdel, hhold, hbuf, ?_, ?_⟩⟩
      · rw [EngineState.pool, List.map_append, List.map_cons, h₁, h₂, hn, hstep.message_eq,
          Task.message_of_silent hquiet, ha]
      · rw [hbuf', List.length_append, hout]
        rfl
  | @giveUp a n source holding input l₁ l₂ output hlt =>
    obtain ⟨hdel, hhold, hbuf, hpool, hout⟩ := view_eq_iff.mp hv
    obtain ⟨k₁, k₂, i, t, htasks, h₁, rfl, hn, h₂⟩ := exists_task_of_pool hpool
    obtain ⟨d, hd, ht, -⟩ := @Live.task _ _ _ hs (i, t) (by rw [htasks]; simp)
    have hne : t.remaining ≠ [] := List.ne_nil_of_length_eq_add_one hn
    rw [spare_queues, DecoderRegistry.spare_eq hd] at hlt
    obtain ⟨u, hquiet, hnil⟩ := ht.exists_lost hne (by rw [hn]; exact hlt)
    refine ⟨_, run_of_silent htasks hquiet, view_eq_iff.mpr ⟨hdel, hhold, hbuf, ?_, hout⟩⟩
    rw [EngineState.pool, List.map_append, List.map_cons, h₁, h₂, hnil,
      Task.message_of_silent hquiet]
    rfl
  | @retire a source holding input l₁ l₂ output =>
    obtain ⟨hdel, hhold, hbuf, hpool, hout⟩ := view_eq_iff.mp hv
    obtain ⟨k₁, k₂, i, t, htasks, h₁, -, hn, h₂⟩ := exists_task_of_pool hpool
    obtain ⟨d, -, ht, hhang⟩ := @Live.task _ _ _ hs (i, t) (by rw [htasks]; simp)
    obtain ⟨u, hquiet, hrem, hfin | ⟨r, u', -, hcons⟩⟩ := ht.exists_next (Or.inl hhang)
    · -- nothing remains, so the task comes to its end and can be reaped
      have hreap := @EngineState.silent_joinNext cap registry
        { s.engine with tasks := k₁ ++ (i, u) :: k₂ } k₁ k₂ (i, u) hrun.phase rfl hfin
      refine ⟨_, (run_of_silent htasks hquiet).tail (.engine hreap),
        view_eq_iff.mpr ⟨hdel, hhold, hbuf, ?_, hout⟩⟩
      rw [EngineState.pool, List.map_append, h₁, h₂]
    · rw [← hrem, hcons] at hn
      cases hn

/-- Every run of the pump is shown by a run of the pipeline. -/
theorem exists_run_of_run {v : Backpressure.State Publish} (hs : s.Live cap registry)
    (h : ReflTransGen (Backpressure.Step (queues cap registry)) s.view v) :
    ∃ s', ReflTransGen (Step cap registry) s s' ∧ s'.view = v := by
  induction h with
  | refl => exact ⟨s, .refl, rfl⟩
  | tail _ hstep ih =>
    obtain ⟨u, hu, rfl⟩ := ih
    obtain ⟨s', hrun, hview⟩ := exists_run_of_view (live_of_run hu hs) hstep
    exact ⟨s', hu.trans hrun, hview⟩

/-- Every run of the pipeline shows a run of the pump. -/
theorem view_of_run (hs : s.Live cap registry) (h : ReflTransGen (Step cap registry) s s') :
    ReflTransGen (Backpressure.Step (queues cap registry)) s.view s'.view := by
  induction h with
  | refl => exact .refl
  | tail hrun hstep ih =>
    rcases hstep.view (live_of_run hrun hs) with hview | ⟨hview, -⟩
    · exact ih.tail hview
    · rw [hview]
      exact ih

/-- All tasks run until they can only publish. -/
theorem exists_run_all_settled {l₂ : List (ℕ × Task)} : ∀ {s : Pipeline} {l₁ : List (ℕ × Task)},
    s.engine.tasks = l₁ ++ l₂ → (∀ x ∈ l₁, x.2.Settled) →
    (∀ x ∈ l₂, ∃ d, x.2.Sound d ∧ (d.decode x.2.message).ending.spare < x.2.remaining.length) →
    ∃ s', ReflTransGen (Step cap registry) s s' ∧ s'.view = s.view ∧
      ∀ x ∈ s'.engine.tasks, x.2.Settled := by
  induction l₂ with
  | nil =>
    intro s l₁ htasks h₁ _
    rw [List.append_nil] at htasks
    exact ⟨s, .refl, rfl, htasks ▸ h₁⟩
  | cons x l₂ ih =>
    intro s l₁ htasks h₁ h₂
    -- the tasks in `l₁` are settled already, and `x` settles next
    obtain ⟨d, hsound, hlt⟩ := h₂ x (by simp)
    obtain ⟨t', hquiet, hsettled⟩ := Task.exists_settled x.2
    have hrem := Task.remaining_of_silent hquiet hsound hlt
    have hmsg := Task.message_of_silent hquiet
    have h₁' : ∀ y ∈ l₁ ++ [(x.1, t')], y.2.Settled := by
      intro y hy
      rcases List.mem_append.mp hy with hy | hy
      · exact h₁ y hy
      · rw [List.mem_singleton.mp hy]
        exact hsettled
    obtain ⟨s', hrun, hview, hall⟩ :=
      @ih { s with engine := { s.engine with tasks := l₁ ++ (x.1, t') :: l₂ } }
        (l₁ ++ [(x.1, t')]) (by simp) h₁' fun y hy => h₂ y (List.mem_cons_of_mem x hy)
    refine ⟨s', (run_of_silent htasks hquiet).trans hrun, hview.trans ?_, hall⟩
    simp only [Pipeline.view, EngineState.pool, htasks, List.map_append, List.map_cons, hrem, hmsg]

/-! ## Deadlocks -/

/-- Something is left to do. -/
def Unfinished (s : Pipeline) : Prop :=
  s.deliveries ≠ [] ∨ s.driver.holding ≠ none ∨ s.incoming.buf ≠ [] ∨ s.engine.tasks ≠ [] ∨
    s.requests.buf ≠ []

/-- Something is left to do, and neither the driver nor the engine nor a task can take a step. -/
def Deadlocked (cap : ℕ) (registry : DecoderRegistry) (s : Pipeline) : Prop :=
  s.Unfinished ∧ ∀ s', ¬ Step cap registry s s'

/-- After some message `m` more than `incomingCapacity` further ones are delivered. `m` and enough
messages before it make more outputs than they can lose, one message for each task. Without what
these tasks must keep, the outputs of all messages up to `m` fill the request channel. -/
def Overload (cap : ℕ) (registry : DecoderRegistry) (deliveries : List Publish) : Prop :=
  ∃ early m rest parked, deliveries = early ++ m :: rest ∧ incomingCapacity + 1 ≤ rest.length ∧
    parked.Sublist early ∧ parked.length + 1 = cap ∧
    (∀ b ∈ parked ++ [m], registry.spare b < (registry.outputs b).length) ∧
    requestCapacity + ((parked ++ [m]).map fun b => registry.spare b + 1).sum ≤
      ((early ++ [m]).map fun b => (registry.outputs b).length).sum

theorem overload_iff :
    Overload cap registry deliveries ↔ Backpressure.Overload (queues cap registry) deliveries := by
  have hsize : (queues cap registry).size = fun m => (registry.outputs m).length :=
    funext size_queues
  simp only [Overload, Backpressure.Overload, hsize, inCap_queues, outCap_queues, workers_queues,
    spare_queues]

theorem unfinished_iff : s.Unfinished ↔ Backpressure.Unfinished s.view := by
  simp [Unfinished, Backpressure.Unfinished, Pipeline.view, EngineState.pool]

/-- In a deadlock the driver, the engine and the tasks wait for each other. -/
theorem Deadlocked.jammed (h : s.Deadlocked cap registry) (hcap : 1 ≤ cap)
    (hs : s.Live cap registry) : Backpressure.Jammed (queues cap registry) s.view := by
  obtain ⟨hun, hstuck⟩ := h
  refine Backpressure.jammed_of_not_step hcap (by simp) (by simp) hs.withinCaps
    (unfinished_iff.mp hun) fun v hstep => ?_
  -- a step of the pump is shown by a run of the pipeline, which is not empty
  obtain ⟨s', hrun, rfl⟩ := exists_run_of_view hs hstep
  rcases hrun.cases_head with rfl | ⟨u, hu, -⟩
  · exact hstep.ne rfl
  · exact hstuck u hu

/-- The driver waits for room in the incoming channel, the engine for one of its tasks, and every
task for room in the request channel. -/
theorem Deadlocked.waiting (h : s.Deadlocked cap registry) (hcap : 1 ≤ cap)
    (hs : s.Live cap registry) :
    (∃ m, s.driver = .forwarding m) ∧ s.incoming.buf.length = incomingCapacity ∧
      s.engine.tasks.length = cap ∧ (∀ x ∈ s.engine.tasks, ∃ r t', x.2.Step (some r) t') ∧
      s.requests.buf.length = requestCapacity := by
  obtain ⟨hholding, hinput, hpool, hbusy, houtput⟩ := h.jammed hcap hs
  refine ⟨?_, hinput, by simpa [Pipeline.view, EngineState.pool] using hpool, fun x hx => ?_,
    houtput⟩
  · cases hd : s.driver with
    | forwarding m => exact ⟨m, rfl⟩
    | polling | returned => simp [Pipeline.view, Driver.holding, hd] at hholding
  · have hlt := hbusy _ (List.mem_map_of_mem hx)
    obtain ⟨d, -, ht, hhang⟩ := hs.task hx
    -- a task with something left is not finished, and in a deadlock it can only publish
    have hfin : x.2.finished = false := by
      by_contra hfin
      rw [Task.remaining_eq_nil_of_finished (by simpa using hfin)] at hlt
      exact absurd hlt (Nat.not_lt_zero _)
    obtain ⟨l, t', hstep, -⟩ := ht.progress hfin (Or.inl hhang)
    cases l with
    | some r => exact ⟨r, t', hstep⟩
    | none =>
      obtain ⟨l₁, l₂, htasks⟩ := List.append_of_mem hx
      exact absurd (.engine (EngineState.silent_task htasks hstep)) (h.2 _)

/-- When they wait for each other and no task can take a step by itself, there is a deadlock. -/
theorem deadlocked_of_jammed (hs : s.Live cap registry)
    (hjam : Backpressure.Jammed (queues cap registry) s.view)
    (hsettled : ∀ x ∈ s.engine.tasks, x.2.Settled) : s.Deadlocked cap registry := by
  refine ⟨unfinished_iff.mpr (Or.inr (Or.inl hjam.holding)), fun s' hstep => ?_⟩
  rcases hstep.view hs with hview | ⟨-, x, hx, hnot⟩
  · exact hjam.not_step hview
  · exact hnot (hsettled x hx)

/-- A deadlock can be reached exactly if a jam can. -/
theorem exists_deadlocked_iff (hcap : 1 ≤ cap) (hreg : registry.Terminates) :
    (∃ s, Reachable cap registry deliveries s ∧ s.Deadlocked cap registry) ↔
      Overload cap registry deliveries := by
  have hworkers : 0 < (queues cap registry).workers := hcap
  have hlive : (start deliveries).Live cap registry :=
    live_start fun m _ => hreg.not_hangsOn m
  rw [overload_iff, ← Backpressure.exists_jammed_iff hworkers (by simp) (by simp)]
  constructor
  · rintro ⟨s, hrun, hdead⟩
    exact ⟨s.view, view_of_run hlive hrun, hdead.jammed hcap (live_of_run hrun hlive)⟩
  · rintro ⟨v, hrun, hjam⟩
    obtain ⟨u, hu, rfl⟩ := exists_run_of_run hlive hrun
    have hulive := live_of_run hu hlive
    have hbusy : ∀ x ∈ u.engine.tasks, ∃ d, x.2.Sound d ∧
        (d.decode x.2.message).ending.spare < x.2.remaining.length := by
      intro x hx
      obtain ⟨d, hd, ht, -⟩ := hulive.task hx
      refine ⟨d, ht, ?_⟩
      rw [← DecoderRegistry.spare_eq hd]
      exact hjam.busy (x.2.message, x.2.remaining.length)
        (List.mem_map.mpr ⟨x, hx, rfl⟩)
    -- in a jam of the view some tasks may still move by themselves; let them
    obtain ⟨s, hs, hview, hsettled⟩ :=
      @exists_run_all_settled cap registry u.engine.tasks u [] (List.nil_append _).symm (by simp)
        hbusy
    rw [← hview] at hjam
    exact ⟨s, hu.trans hs, deadlocked_of_jammed (live_of_run hs hulive) hjam hsettled⟩

/-- The pipeline has no deadlock for the deliveries exactly if they are no overload. -/
theorem deadlock_free_iff (hcap : 1 ≤ cap) (hreg : registry.Terminates)
    (deliveries : List Publish) :
    (∀ s, Reachable cap registry deliveries s → ¬ s.Deadlocked cap registry) ↔
      ¬ Overload cap registry deliveries := by
  rw [← exists_deadlocked_iff hcap hreg]
  push Not
  rfl

open EngineState (sensorMessage) in
theorem deadlock_free_sensorMessage :
    ¬ ∃ s, Reachable 1 .sensorRegistry [sensorMessage] s ∧ s.Deadlocked 1 .sensorRegistry := by
  rintro ⟨s, hs, hdead⟩
  refine (deadlock_free_iff (Nat.le_refl 1)
    DecoderRegistry.sensorRegistry_builtin.returns.terminates [sensorMessage]).mpr ?_ s hs hdead
  -- nothing is delivered after the only message
  rintro ⟨early, m, rest, parked, hsplit, hrest, -⟩
  have hlen := congrArg List.length hsplit
  simp only [List.length_append, List.length_cons, List.length_nil] at hlen hrest
  omega

/-- A burst of copies of one message is an overload if each makes one output and they fill both
channels, the driver and the task set. -/
theorem overload_replicate {n : ℕ} {m : Publish} (hcap : 1 ≤ cap)
    (hout : (registry.outputs m).length = 1) (hspare : registry.spare m = 0)
    (hn : incomingCapacity + 1 + requestCapacity + cap ≤ n) :
    Overload cap registry (List.replicate n m) := by
  refine ⟨List.replicate (requestCapacity + cap - 1) m, m,
    List.replicate (n - (requestCapacity + cap)) m, List.replicate (cap - 1) m, ?_, ?_, ?_, ?_, ?_,
    ?_⟩
  · rw [← List.replicate_succ, List.replicate_append_replicate]
    congr 1
    omega
  · rw [List.length_replicate]
    omega
  · exact List.replicate_sublist_replicate m |>.mpr (by omega)
  · rw [List.length_replicate]
    omega
  · intro b hb
    have hbm : b = m := by
      rcases List.mem_append.mp hb with hb | hb
      · exact List.eq_of_mem_replicate hb
      · exact List.mem_singleton.mp hb
    rw [hbm, hout, hspare]
    exact Nat.one_pos
  · simp only [List.map_append, List.map_replicate, List.map_cons, List.map_nil, hout, hspare,
      List.sum_append_nat, List.sum_replicate_nat, List.sum_singleton]
    omega

open EngineState (sensorMessage) in
/-- With one task at a time, a burst of 202 messages for one decoder can end in a deadlock. -/
theorem sensor_burst_deadlocks :
    DecoderRegistry.sensorRegistry.Terminates ∧
      ∃ s, Reachable 1 .sensorRegistry (List.replicate 202 sensorMessage) s ∧
        s.Deadlocked 1 .sensorRegistry :=
  have hreg := DecoderRegistry.sensorRegistry_builtin.returns.terminates
  ⟨hreg, (exists_deadlocked_iff (Nat.le_refl 1) hreg).mpr
    (overload_replicate (Nat.le_refl 1) rfl rfl (Nat.le_refl 202))⟩

end Pipeline

end RosettaMq
