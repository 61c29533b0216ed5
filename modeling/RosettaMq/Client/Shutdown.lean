import RosettaMq.Client.Deadlock

/-!
# The shutdown of `main`

`main` of `src/main.rs` from `Client::connect` on: it subscribes, spawns the engine, waits for
Ctrl+C, cancels the token and awaits the engine. When it returns the runtime is dropped, and the
driver with it. Whether the driver has taken all requests by then is not up to the engine
(`Main.shutdown_delivers_iff`).
-/

open Relation

namespace RosettaMq

/-- Where `main` is. -/
inductive MainPhase where
  /-- In `Client::subscribe_all`, with the filters that are left. -/
  | subscribing (filters : List String)
  /-- In `tokio::select!`, after the engine has been spawned. -/
  | selecting
  /-- In `engine_handle.await`. -/
  | awaiting
  | returned

/-- The state of `main`. The field `interrupted` records that Ctrl+C was pressed. -/
structure Main where
  phase : MainPhase
  pipeline : Pipeline
  interrupted : Bool

namespace Main

variable (cap : ℕ) (registry : DecoderRegistry)

/-- One step of `main` or of what it has spawned. -/
inductive Step : Main → Main → Prop
  | subscribe {s filter filters requests} :
      s.phase = .subscribing (filter :: filters) →
      s.pipeline.requests.send (.subscribe filter) = some requests →
      Step s { s with
        phase := .subscribing filters, pipeline := { s.pipeline with requests := requests } }
  /-- The client refuses the request because the event loop is gone. -/
  | subscribeFails {s filter filters} :
      s.phase = .subscribing (filter :: filters) → s.pipeline.requests.rxOpen = false →
      Step s { s with phase := .returned }
  /-- The driver takes a step while there is no engine yet. -/
  | connected {s filters pipeline} :
      s.phase = .subscribing filters → Pipeline.Step cap registry s.pipeline pipeline →
      pipeline.engine = s.pipeline.engine → Step s { s with pipeline := pipeline }
  | spawn {s} : s.phase = .subscribing [] → Step s { s with phase := .selecting }
  /-- The driver, the engine or a task takes a step. -/
  | running {s pipeline} :
      s.phase = .selecting ∨ s.phase = .awaiting →
      Pipeline.Step cap registry s.pipeline pipeline → Step s { s with pipeline := pipeline }
  | driverReturned {s engine} :
      s.phase = .selecting → s.pipeline.driver = .returned →
      EngineState.Step cap registry s.pipeline.engine .cancel engine →
      Step s { s with phase := .awaiting, pipeline := { s.pipeline with engine := engine } }
  | ctrlC {s engine} :
      s.phase = .selecting → EngineState.Step cap registry s.pipeline.engine .cancel engine →
      Step s { s with
        phase := .awaiting, pipeline := { s.pipeline with engine := engine }, interrupted := true }
  /-- The engine has ended and `main` returns. -/
  | joined {s} :
      s.phase = .awaiting →
      s.pipeline.engine.phase ≠ .looping ∧ s.pipeline.engine.phase ≠ .draining →
      Step s { s with phase := .returned }

/-- `main` after `Client::connect`. -/
def start (filters : List String) (deliveries : List Publish) : Main :=
  ⟨.subscribing filters, .start deliveries, false⟩

/-- The states of the runs of `main`. -/
def Reachable (filters : List String) (deliveries : List Publish) (s : Main) : Prop :=
  ReflTransGen (Step cap registry) (start filters deliveries) s

variable {cap registry} {s s' : Main} {filters : List String} {deliveries : List Publish}

/-- `main` has returned after Ctrl+C, and the engine has returned without its drain timing out. -/
structure Exited (s : Main) : Prop where
  phase : s.phase = .returned
  interrupted : s.interrupted = true
  engine : s.pipeline.engine.phase = .returned

/-- Whether the task with this index was spawned before the token was cancelled. -/
def beforeCancel (s : Main) (i : ℕ) : Bool :=
  s.pipeline.engine.cancelledAt.any (i < ·)

/-- The driver has taken every message that tasks spawned before the cancellation have handed
over. -/
def Delivered (s : Main) : Prop :=
  s.pipeline.handed.filter (s.beforeCancel ·.1) =
    (s.pipeline.taken.filterMap Request.asPublish).filter (s.beforeCancel ·.1)

/-! ## What every run keeps -/

/-- The engine is in a state of one of its runs, and no message is made up on the way. -/
structure Consistent (cap : ℕ) (registry : DecoderRegistry) (deliveries : List Publish)
    (p : Pipeline) : Prop where
  engine : p.engine.Reachable cap registry
  conserved : p.Conserved
  handed : p.handed.Sublist p.engine.log
  inOrder : p.InOrder deliveries

theorem Consistent.step {p p' : Pipeline} (hp : Consistent cap registry deliveries p)
    (h : Pipeline.Step cap registry p p') : Consistent cap registry deliveries p' where
  engine := h.engine_reachable hp.engine
  conserved := h.conserved hp.conserved
  handed := h.handed_sublist hp.handed
  inOrder := h.inOrder hp.inOrder

theorem Consistent.cancel {p : Pipeline} {engine : EngineState}
    (hp : Consistent cap registry deliveries p)
    (h : EngineState.Step cap registry p.engine .cancel engine) :
    Consistent cap registry deliveries { p with engine := engine } where
  engine := hp.engine.tail ⟨.cancel, h⟩
  conserved := hp.conserved
  handed := by
    dsimp only
    rw [h.log_eq, Action.published, List.append_nil]
    exact hp.handed
  inOrder := by
    obtain ⟨hall, hpre⟩ := hp.inOrder
    have hreceived := h.received_eq
    simp only [Action.received, List.append_nil] at hreceived
    exact ⟨by simpa [Pipeline.messages, hreceived] using hall, by simpa [hreceived] using hpre⟩

/-- Every step of `main` keeps this. -/
theorem Step.consistent (h : Step cap registry s s')
    (hs : Consistent cap registry deliveries s.pipeline) :
    Consistent cap registry deliveries s'.pipeline := by
  cases h with
  | subscribe _ hsend =>
    obtain ⟨-, -, hbuf, -, -⟩ := Chan.send_eq_some_iff.mp hsend
    obtain ⟨hengine, hconserved, hhanded, hall, hpre⟩ := hs
    refine ⟨hengine, ?_, hhanded, hall, hpre⟩
    simpa [Pipeline.Conserved, hbuf, List.filterMap_cons, Request.asPublish] using hconserved
  | subscribeFails | spawn | joined => exact hs
  | connected _ hstep | running _ hstep => exact hs.step hstep
  | driverReturned _ _ hcancel | ctrlC _ hcancel => exact hs.cancel hcancel

theorem Reachable.consistent (h : s.Reachable cap registry filters deliveries) :
    Consistent cap registry deliveries s.pipeline := by
  induction h with
  | refl =>
    exact ⟨.refl, rfl, List.Sublist.refl _, fun _ => rfl, List.nil_prefix⟩
  | tail _ hstep ih => exact hstep.consistent ih

/-- The driver has taken every such message exactly if none is left in the request channel. -/
theorem delivered_iff (hs : s.pipeline.Conserved) :
    s.Delivered ↔ ∀ x ∈ s.pipeline.requests.buf.filterMap Request.asPublish,
      s.beforeCancel x.1 = false := by
  rw [Delivered, hs, List.filterMap_append, List.filter_append, List.append_right_eq_self,
    List.filter_eq_nil_iff]
  simp only [Bool.not_eq_true]

/-- What was handed over belongs to a received message. -/
theorem Consistent.logOf_ne_nil {p : Pipeline} (hp : Consistent cap registry deliveries p)
    {x : ℕ × ResolvedDecodePublish} (hx : x ∈ p.handed) :
    x.1 < p.engine.received.length ∧ p.engine.logOf x.1 ≠ [] := by
  have hlog : p.engine.logOf x.1 ≠ [] :=
    List.ne_nil_of_mem (List.mem_part.mpr (hp.handed.subset hx))
  refine ⟨?_, hlog⟩
  by_contra hge
  exact hlog (hp.engine.refines.fresh _ (Nat.le_of_not_lt hge))

/-- There is nothing to hand over: nothing is received, or every message with an output comes after
one whose decoder hangs, or its own decoder hangs. -/
def NothingToDeliver (cap : ℕ) (registry : DecoderRegistry) (deliveries : List Publish) : Prop :=
  cap = 0 ∨ ∀ early m rest, deliveries = early ++ m :: rest →
    (∀ b ∈ early ++ [m], ¬ registry.HangsOn b) → registry.outputs m = []

/-- Then nothing has been handed over when the engine has returned. -/
theorem Consistent.handed_eq_nil {p : Pipeline} (hp : Consistent cap registry deliveries p)
    (hphase : p.engine.phase = .returned) (hnothing : NothingToDeliver cap registry deliveries) :
    p.handed = [] := by
  refine List.eq_nil_iff_forall_not_mem.mpr fun x hx => ?_
  obtain ⟨hlt, hlog⟩ := hp.logOf_ne_nil hx
  rcases hnothing with rfl | hnothing
  · rw [hp.engine.received_eq_nil] at hlt
    exact absurd hlt (Nat.not_lt_zero _)
  · -- the received messages are the first of the deliveries
    have hget := List.getElem?_eq_getElem hlt
    obtain ⟨rest, hrest⟩ := (List.prefix_append _ _).trans hp.inOrder.isPrefix
    have hsplit : deliveries = p.engine.received.take x.1 ++
        p.engine.received[x.1] :: (p.engine.received.drop (x.1 + 1) ++ rest) := by
      rw [← hrest, ← List.cons_append, List.getElem_cons_drop, ← List.append_assoc,
        List.take_append_drop]
    -- the engine has returned, so no decoder of a received message hangs
    have hends : ∀ b ∈ p.engine.received.take x.1 ++ [p.engine.received[x.1]],
        ¬ registry.HangsOn b := by
      intro b hb
      rw [← List.take_succ_eq_append_getElem hlt] at hb
      obtain ⟨i, hi⟩ := List.mem_iff_getElem?.mp (List.mem_of_mem_take hb)
      refine (hp.engine.refines.done i b hi ?_).2
      rw [hp.engine.accounted.unreaped_eq_nil hphase]
      exact List.not_mem_nil
    have hpre := hp.engine.refines.logOf_isPrefix hp.engine.accounted hget
    rw [hnothing _ _ _ hsplit hends] at hpre
    exact hlog (List.prefix_nil.mp hpre)

/-! ## A run in which messages are left behind -/

/-- Each of these subscriptions is taken by the driver right away. -/
theorem run_subscribe (rest : List String) : ∀ (filters : List String) (taken : List Request),
    ReflTransGen (Step cap registry)
      ⟨.subscribing (filters ++ rest), { Pipeline.start deliveries with taken := taken }, false⟩
      ⟨.subscribing rest,
        { Pipeline.start deliveries with taken := taken ++ filters.map .subscribe }, false⟩ := by
  intro filters
  induction filters with
  | nil =>
    intro taken
    rw [List.map_nil, List.append_nil, List.nil_append]
  | cons filter filters ih =>
    intro taken
    -- the request is sent and taken, and the channel is as new
    obtain ⟨requests, hsend⟩ := @Chan.exists_send _ requestCapacity .new rfl (by simp)
      (Request.subscribe filter)
    obtain ⟨-, -, hbuf, htx, hrx⟩ := Chan.send_eq_some_iff.mp hsend
    obtain ⟨requests', hrecv, hbuf', htx', hrx'⟩ := Chan.exists_recv hbuf
    obtain rfl : requests' = .new := Chan.ext hbuf' (htx'.trans htx) (hrx'.trans hrx)
    have hrest := ih (taken ++ [.subscribe filter])
    rw [List.append_assoc] at hrest
    exact .head (.subscribe rfl hsend)
      (.head (.connected rfl (.pollRequest rfl hrecv) rfl) hrest)

/-- A run of the pipeline while `main` waits for Ctrl+C. -/
theorem run_selecting {p p' : Pipeline} {b : Bool}
    (h : ReflTransGen (Pipeline.Step cap registry) p p') :
    ReflTransGen (Step cap registry) ⟨.selecting, p, b⟩ ⟨.selecting, p', b⟩ :=
  h.lift (fun p => (⟨.selecting, p, b⟩ : Main)) fun _ _ hstep => .running (Or.inl rfl) hstep

/-- The pipeline handles the deliveries up to `m`, and the driver leaves requests in the channel. -/
theorem exists_run_pending {taken : List Request} {early rest : List Publish} {m : Publish}
    (hcap : 1 ≤ cap) (hends : ∀ b ∈ early ++ [m], ¬ registry.HangsOn b)
    (hout : registry.outputs m ≠ []) :
    ∃ p, ReflTransGen (Pipeline.Step cap registry)
        { Pipeline.start (early ++ m :: rest) with taken := taken } p ∧
      p.Running ∧ p.engine.Reachable cap registry ∧ p.engine.tasks = [] ∧ p.requests.buf ≠ [] := by
  have hworkers : 0 < (Pipeline.queues cap registry).workers := hcap
  -- the pump can handle all items and leave their outputs in the output queue
  obtain ⟨n, hn, hrun⟩ : ∃ n,
      n + (([] : List Publish).map (Pipeline.queues cap registry).size).sum =
        ((early ++ [m]).map (Pipeline.queues cap registry).size).sum ∧
      ReflTransGen (Backpressure.Step (Pipeline.queues cap registry))
        ⟨(early ++ [m]) ++ [], none, [], [], 0⟩ ⟨[], none, [],
          [] ++ ([] : List Publish).map fun a => (a, (Pipeline.queues cap registry).size a),
          min requestCapacity (0 + n)⟩ :=
    Backpressure.run_early (by simp) (by simp) (List.nil_sublist _) (by simp) (Nat.zero_le _)
      (by simp only [List.length_nil]; omega)
  -- the same run with nothing more to deliver
  have hlive : ({ Pipeline.start (early ++ [m]) with taken := taken } : Pipeline).Live
      cap registry := ⟨⟨rfl, rfl, nofun, rfl, rfl, rfl⟩, .refl, hends⟩
  rw [List.append_nil] at hrun
  obtain ⟨p, hp, hview⟩ := Pipeline.exists_run_of_run hlive hrun
  obtain ⟨-, -, -, hpool, hlen⟩ := Pipeline.view_eq_iff.mp hview
  have hplive := Pipeline.live_of_run hp hlive
  have hmore := Pipeline.append_deliveries_of_run rest hp
  refine ⟨{ p with deliveries := p.deliveries ++ rest }, ?_, ?_, hplive.engine,
    List.map_eq_nil_iff.mp hpool, ?_⟩
  · simpa [Pipeline.start] using hmore
  · obtain ⟨hphase, hshutdown, hdriver, htx, hrx, hreq⟩ := hplive.running
    exact ⟨hphase, hshutdown, hdriver, htx, hrx, hreq⟩
  · have hpos := List.length_pos_iff.mpr hout
    simp only [List.map_nil, List.sum_nil, Nat.add_zero, List.map_append, List.sum_append,
      List.map_cons, List.sum_singleton, Pipeline.size_queues] at hn
    show p.requests.buf ≠ []
    rw [← List.length_pos_iff, hlen]
    exact Nat.lt_min.mpr ⟨by decide, by omega⟩

/-- Without tasks, Ctrl+C lets the engine and then `main` return at once. -/
theorem exists_run_exited {p : Pipeline} (hp : p.Running)
    (hengine : p.engine.Reachable cap registry) (htasks : p.engine.tasks = []) :
    ∃ s, ReflTransGen (Step cap registry) ⟨.selecting, p, false⟩ s ∧ s.Exited ∧
      s.pipeline.requests = p.requests ∧
      s.pipeline.engine.received = p.engine.received ∧
      s.pipeline.engine.cancelledAt = some p.engine.received.length := by
  have hjoin : JoinNext p.engine.tasks none [] := by
    rw [htasks]
    exact .empty
  -- Ctrl+C, then the loop ends, the drain finds no task, and `main` returns
  refine ⟨_, .tail (.tail (.tail (.single (.ctrlC rfl .cancel))
    (.running (Or.inr rfl) (.engine (.cancelled hp.phase rfl rfl))))
    (.running (Or.inr rfl) (.engine (.drained rfl hjoin)))) (.joined rfl (by simp)),
    ⟨rfl, rfl, rfl⟩, rfl, rfl, ?_⟩
  dsimp only
  rw [hengine.cancelledAt_eq_none hp.shutdown]
  rfl

/-- The request channel holds nothing but messages that tasks have handed over. -/
def OnlyPublishes (p : Pipeline) : Prop :=
  ∀ r ∈ p.requests.buf, ∃ x, r.asPublish = some x

/-- The tasks add no subscriptions. -/
theorem onlyPublishes_of_run {p p' : Pipeline}
    (h : ReflTransGen (Pipeline.Step cap registry) p p') (hp : OnlyPublishes p) :
    OnlyPublishes p' := by
  induction h with
  | refl => exact hp
  | tail _ hstep ih =>
    cases hstep with
    | pollRequest _ hrecv =>
      obtain ⟨hbuf, -, -⟩ := Chan.recv_eq_some_iff.mp hrecv
      exact fun r hr => ih r (hbuf ▸ List.mem_cons_of_mem _ hr)
    | publish hsend =>
      obtain ⟨-, -, hbuf, -, -⟩ := Chan.send_eq_some_iff.mp hsend
      intro r hr
      rw [hbuf, List.mem_append, List.mem_singleton] at hr
      rcases hr with hr | rfl
      · exact ih r hr
      · exact ⟨_, rfl⟩
    | pollPublish | forward | forwardFails | recv | publishFails | engine | dropIncoming =>
      exact ih

/-- If there is something to hand over, then in some run `main` returns before the driver has taken
it. -/
theorem exists_not_delivered {early rest : List Publish} {m : Publish} (hcap : 1 ≤ cap)
    (filters : List String) (hends : ∀ b ∈ early ++ [m], ¬ registry.HangsOn b)
    (hout : registry.outputs m ≠ []) :
    ∃ s, Reachable cap registry filters (early ++ m :: rest) s ∧ s.Exited ∧ ¬ s.Delivered := by
  have hsubscribed := @run_subscribe cap registry (early ++ m :: rest) [] filters []
  rw [List.append_nil] at hsubscribed
  generalize htaken : [] ++ filters.map Request.subscribe = taken at hsubscribed
  obtain ⟨p, hrun, hrunning, hengine, htasks, hbuf⟩ :=
    @exists_run_pending cap registry taken early rest m hcap hends hout
  obtain ⟨s, hexit, hexited, hrequests, hreceived, hcancelled⟩ :=
    exists_run_exited hrunning hengine htasks
  have hreach : Reachable cap registry filters (early ++ m :: rest) s :=
    ((hsubscribed.tail (.spawn rfl)).trans (run_selecting hrun)).trans hexit
  have hconsistent := hreach.consistent
  refine ⟨s, hreach, hexited, fun hdelivered => ?_⟩
  -- the first request left in the channel is a message handed over before the cancellation
  obtain ⟨r, requests, hcons⟩ := List.exists_cons_of_ne_nil hbuf
  obtain ⟨x, hx⟩ := onlyPublishes_of_run hrun nofun r (by rw [hcons]; simp)
  have hpending : x ∈ s.pipeline.requests.buf.filterMap Request.asPublish := by
    rw [hrequests, hcons]
    exact List.mem_filterMap.mpr ⟨r, by simp, hx⟩
  have hhanded : x ∈ s.pipeline.handed := by
    rw [hconsistent.conserved, List.filterMap_append]
    exact List.mem_append_right _ hpending
  obtain ⟨hlt, -⟩ := hconsistent.logOf_ne_nil hhanded
  have hlate := (delivered_iff hconsistent.conserved).mp hdelivered x hpending
  rw [beforeCancel, hcancelled] at hlate
  rw [hreceived] at hlt
  simp [hlt] at hlate

/-! ## The shutdown -/

/-- When `main` has returned, the driver has taken every message that tasks spawned before the
cancellation have handed over exactly if none is left in the request channel. That this is so in
every run means that there is nothing to hand over. -/
theorem shutdown_delivers_iff (cap : ℕ) (registry : DecoderRegistry) (filters : List String)
    (deliveries : List Publish) :
    (∀ s, Reachable cap registry filters deliveries s → s.Exited →
      (s.Delivered ↔ ∀ x ∈ s.pipeline.requests.buf.filterMap Request.asPublish,
        s.beforeCancel x.1 = false)) ∧
    ((∀ s, Reachable cap registry filters deliveries s → s.Exited → s.Delivered) ↔
      NothingToDeliver cap registry deliveries) := by
  refine ⟨fun s hs _ => delivered_iff hs.consistent.conserved, fun h => ?_,
    fun hnothing s hs hexited => ?_⟩
  · -- an output that can be handed over is lost in some run
    by_contra hnot
    rw [NothingToDeliver, not_or] at hnot
    obtain ⟨hcap, hnot⟩ := hnot
    push Not at hnot
    obtain ⟨early, m, rest, rfl, hends, hout⟩ := hnot
    obtain ⟨s, hs, hexited, hlost⟩ :=
      @exists_not_delivered cap registry early rest m (Nat.one_le_iff_ne_zero.mpr hcap) filters
        hends hout
    exact hlost (h s hs hexited)
  · have hconsistent := hs.consistent
    have hnil := hconsistent.handed_eq_nil hexited.engine hnothing
    have hconserved := hconsistent.conserved
    rw [delivered_iff hconserved]
    rw [Pipeline.Conserved, hnil, List.filterMap_append] at hconserved
    rw [(List.append_eq_nil_iff.mp hconserved.symm).2]
    nofun

/-- A message without decoder. -/
def statusMessage : Publish := ⟨false, .atMostOnce, false, "status", 0, []⟩

theorem shutdown_delivers_statusMessage :
    ¬ ∃ s, Reachable 1 .sensorRegistry ["sensors/a", "status"] [statusMessage] s ∧
      s.Exited ∧ ¬ s.Delivered := by
  rintro ⟨s, hs, hexited, hlost⟩
  refine hlost ((shutdown_delivers_iff 1 .sensorRegistry ["sensors/a", "status"]
    [statusMessage]).2.mpr (Or.inr fun early m rest hsplit _ => ?_) s hs hexited)
  have hm : m ∈ [statusMessage] := by rw [hsplit]; simp
  rw [List.mem_singleton.mp hm]
  rfl

open EngineState (sensorMessage) in
/-- One message is decoded and handed to the client, and `main` returns before the driver has taken
it. -/
theorem sensor_message_is_lost :
    ∃ s, Reachable 1 .sensorRegistry ["sensors/a"] [sensorMessage] s ∧ s.Exited ∧
      ¬ s.Delivered :=
  @exists_not_delivered 1 .sensorRegistry [] [] sensorMessage (Nat.le_refl 1) ["sensors/a"]
    (fun b _ => DecoderRegistry.sensorRegistry_builtin.returns.terminates.not_hangsOn b) nofun

end Main

end RosettaMq
