import RosettaMq.Client.Outage
import RosettaMq.Engine.Termination

/-!
# A deadlock is for good

What becomes of a process whose pipeline has come to a deadlock. Its driver does not poll, so it
does not even learn that the connection is lost. Only Ctrl+C makes a difference: then the drain
times out, and `main` returns without another message taken or handed over
(`Startup.deadlock_persists`).
-/

open Relation

namespace RosettaMq

/-- A task that takes a step is not finished. -/
theorem Task.Step.finished_eq {t t' : Task} {l : Option ResolvedDecodePublish}
    (h : Task.Step t l t') : t.finished = false := by
  cases h <;> rfl

namespace EngineState

variable {cap : ℕ} {registry : DecoderRegistry} {s s' : EngineState}

/-- All tasks wait for the client. -/
def AllWaiting (s : EngineState) : Prop :=
  s.tasks ≠ [] ∧ ∀ x ∈ s.tasks, x.2.finished = false ∧ x.2.Settled

/-- When all tasks wait for the client, the engine can only leave its loop and time out. -/
theorem Silent.of_waiting (h : Silent cap registry s s')
    (hs : s.phase ≠ .timedOut → s.AllWaiting) :
    s'.received = s.received ∧
      (s.phase = .looping ∧ s.shutdown = true ∧ s'.phase = .draining ∧ s'.tasks = s.tasks ∨
        s.phase ≠ .looping ∧ s'.phase = .timedOut) := by
  have hnotFinished : ∀ {x rest}, s.phase ≠ .timedOut → ¬ JoinNext s.tasks (some x) rest := by
    intro x rest hne hnext
    obtain ⟨-, -, -, -, hfin⟩ := hnext.of_some
    rw [((hs hne).2 x (hnext.mem_iff.mpr (Or.inl rfl))).1] at hfin
    cases hfin
  unfold Silent at h
  generalize ha : Action.silent = a at h
  cases h with
  | joinNext hlooping _ hnext => exact absurd hnext (hnotFinished (by simp [hlooping]))
  | cancelled hlooping _ hshutdown => exact ⟨rfl, Or.inl ⟨hlooping, hshutdown, rfl, rfl⟩⟩
  | noBranch _ hno => exact absurd (hno .cancelled) nofun
  | drainNext hdrain hnext => exact absurd hnext (hnotFinished (by simp [hdrain]))
  | drained hdrain hnext => exact absurd hnext.of_none.1 (hs (by simp [hdrain])).1
  | timeout hdrain => exact ⟨rfl, Or.inr ⟨by simp [hdrain], rfl⟩⟩
  | task htasks hstep =>
    rename_i l₁ l₂ i t l t'
    have hmem : (i, t) ∈ s.tasks := by rw [htasks]; simp
    cases l with
    | some r => cases ha
    | none =>
      -- only a task of an engine that has given up can move
      have htimedOut : s.phase = .timedOut := by
        by_contra hne
        exact ((hs hne).2 (i, t) hmem).2 t' hstep
      exact ⟨rfl, Or.inr ⟨by simp [htimedOut], htimedOut⟩⟩
  | skip | spawn | closed | cancel => cases ha

end EngineState

namespace Pipeline

variable {cap : ℕ} {registry : DecoderRegistry} {p s s' : Pipeline}

/-- No step depends on what the driver has taken before. -/
theorem Step.change_taken (taken : List Request) (h : Step cap registry s s') :
    ∃ taken', Step cap registry { s with taken := taken } { s' with taken := taken' } := by
  cases h with
  | pollRequest hdriver hrecv => exact ⟨_, .pollRequest hdriver hrecv⟩
  | pollPublish hdriver hdel => exact ⟨_, .pollPublish hdriver hdel⟩
  | forward hdriver hsend => exact ⟨_, .forward hdriver hsend⟩
  | forwardFails hdriver hclosed => exact ⟨_, .forwardFails hdriver hclosed⟩
  | recv hrecv hstep => exact ⟨_, .recv hrecv hstep⟩
  | publish hsend hstep => exact ⟨_, .publish hsend hstep⟩
  | publishFails hclosed hstep => exact ⟨_, .publishFails hclosed hstep⟩
  | engine hstep => exact ⟨_, .engine hstep⟩
  | dropIncoming hended => exact ⟨_, .dropIncoming hended⟩

/-- So a deadlock can be reached whatever was taken before. -/
theorem exists_deadlocked_of_taken (taken : List Request)
    (hrun : ReflTransGen (Step cap registry) p s) (hdead : s.Deadlocked cap registry) :
    ∃ s', ReflTransGen (Step cap registry) { p with taken := taken } s' ∧
      s'.Deadlocked cap registry := by
  obtain ⟨taken', hrun'⟩ : ∃ taken',
      ReflTransGen (Step cap registry) { p with taken := taken } { s with taken := taken' } := by
    clear hdead
    induction hrun with
    | refl => exact ⟨taken, .refl⟩
    | tail _ hstep ih =>
      obtain ⟨taken', ih⟩ := ih
      obtain ⟨taken'', hstep'⟩ := hstep.change_taken taken'
      exact ⟨taken'', ih.tail hstep'⟩
  refine ⟨_, hrun', hdead.1, fun u hstep => ?_⟩
  obtain ⟨taken'', hback⟩ := hstep.change_taken s.taken
  exact hdead.2 _ hback

/-- The driver, the engine and the tasks wait for each other since the state `p`, or the drain of
the engine has timed out. -/
structure Wedged (cap : ℕ) (s p : Pipeline) : Prop where
  handed : s.handed = p.handed
  taken : s.taken = p.taken
  received : s.engine.received = p.engine.received
  requests_full : s.requests.buf.length = requestCapacity
  incoming_full : s.incoming.buf.length = incomingCapacity
  driver : s.driver ≠ .polling
  phase : s.engine.phase = .looping ∨ s.engine.phase = .draining ∨ s.engine.phase = .timedOut
  waiting : s.engine.phase ≠ .timedOut → s.engine.AllWaiting
  tasks_full : s.engine.phase ≠ .timedOut → s.engine.tasks.length = cap
  driver_ne : s.engine.phase ≠ .timedOut → s.driver ≠ .returned
  incoming_rx : s.engine.phase ≠ .timedOut → s.incoming.rxOpen = true
  requests_rx : s.engine.phase ≠ .timedOut → s.requests.rxOpen = true

/-- Being wedged is about the channels, the driver, and the phase and the tasks of the engine. -/
theorem Wedged.congr (hs : s.Wedged cap p) (hhanded : s'.handed = s.handed)
    (htaken : s'.taken = s.taken) (hreceived : s'.engine.received = s.engine.received)
    (hrequests : s'.requests = s.requests) (hincoming : s'.incoming = s.incoming)
    (hdriver : s'.driver = s.driver) (hphase : s'.engine.phase = s.engine.phase)
    (htasks : s'.engine.tasks = s.engine.tasks) : s'.Wedged cap p := by
  obtain ⟨hh, ht, hr, hreq, hin, hd, hp, hwait, hlen, hne, hirx, hrrx⟩ := hs
  refine ⟨hhanded.trans hh, htaken.trans ht, hreceived.trans hr, hrequests ▸ hreq,
    hincoming ▸ hin, hdriver ▸ hd, hphase ▸ hp, ?_, ?_, hphase ▸ hdriver ▸ hne,
    hphase ▸ hincoming ▸ hirx, hphase ▸ hrequests ▸ hrrx⟩
  · rw [EngineState.AllWaiting, hphase, htasks]
    exact hwait
  · rw [hphase, htasks]
    exact hlen

/-- Once the drain has timed out, the rest of a wedged pipeline may come apart. -/
theorem Wedged.of_timedOut (hs : s.Wedged cap p) (hphase : s'.engine.phase = .timedOut)
    (hhanded : s'.handed = s.handed) (htaken : s'.taken = s.taken)
    (hreceived : s'.engine.received = s.engine.received)
    (hrequests : s'.requests.buf = s.requests.buf) (hincoming : s'.incoming.buf = s.incoming.buf)
    (hdriver : s'.driver ≠ .polling) : s'.Wedged cap p :=
  ⟨hhanded.trans hs.handed, htaken.trans hs.taken, hreceived.trans hs.received,
    hrequests ▸ hs.requests_full, hincoming ▸ hs.incoming_full, hdriver, Or.inr (Or.inr hphase),
    fun hne => absurd hphase hne, fun hne => absurd hphase hne, fun hne => absurd hphase hne,
    fun hne => absurd hphase hne, fun hne => absurd hphase hne⟩

/-- A step keeps a pipeline wedged, and as long as the token is not cancelled its engine stays in
the loop. -/
theorem Step.wedged (h : Step cap registry s s') (hs : s.Wedged cap p) :
    s'.Wedged cap p ∧ (s.engine.phase = .looping → s.engine.shutdown = false →
      s'.engine.phase = .looping) := by
  -- what is full stays full, and what is open stays open until the drain has timed out
  have hincoming : ¬ s.incoming.buf.length < incomingCapacity := by
    rw [hs.incoming_full]
    exact Nat.lt_irrefl _
  have hrequests : ¬ s.requests.buf.length < requestCapacity := by
    rw [hs.requests_full]
    exact Nat.lt_irrefl _
  have htimedOut : s.incoming.rxOpen = false ∨ s.requests.rxOpen = false →
      s.engine.phase = .timedOut := by
    intro hclosed
    by_contra hne
    rw [hs.incoming_rx hne, hs.requests_rx hne] at hclosed
    rcases hclosed with h | h <;> cases h
  cases h with
  | pollRequest hpolling | pollPublish hpolling => exact absurd hpolling hs.driver
  | forward _ hsend =>
    obtain ⟨-, hlt, -⟩ := Chan.send_eq_some_iff.mp hsend
    exact absurd hlt hincoming
  | forwardFails _ hclosed =>
    have hphase := htimedOut (Or.inl hclosed)
    exact ⟨hs.of_timedOut hphase rfl rfl rfl rfl rfl nofun, fun hlooping _ => hlooping⟩
  | recv hrecv hstep =>
    rename_i message _ _
    cases message with
    | none =>
      obtain ⟨hnil, -, -⟩ := Chan.recv_eq_none_iff.mp hrecv
      have hfull := hs.incoming_full
      rw [hnil] at hfull
      cases hfull
    | some m =>
      obtain ⟨hlooping, hlt, -⟩ := hstep.of_recv_some
      rw [hs.tasks_full (by simp [hlooping])] at hlt
      exact absurd hlt (Nat.lt_irrefl _)
  | publish hsend =>
    obtain ⟨-, hlt, -⟩ := Chan.send_eq_some_iff.mp hsend
    exact absurd hlt hrequests
  | publishFails hclosed hstep =>
    have hphase := htimedOut (Or.inr hclosed)
    obtain ⟨_, _, _, _, -, -, rfl⟩ := hstep.of_publish
    exact ⟨hs.of_timedOut hphase rfl rfl rfl rfl rfl hs.driver, fun hlooping _ => hlooping⟩
  | engine hstep =>
    obtain ⟨hreceived, ⟨hlooping, hshutdown, hdraining, htasks⟩ | ⟨hnot, hphase⟩⟩ :=
      hstep.of_waiting hs.waiting
    · -- with the token cancelled the engine leaves its loop
      have hne : s.engine.phase ≠ .timedOut := by simp [hlooping]
      refine ⟨⟨hs.handed, hs.taken, hreceived.trans hs.received, hs.requests_full,
        hs.incoming_full, hs.driver, Or.inr (Or.inl hdraining), fun _ => ?_, fun _ => ?_,
        fun _ => hs.driver_ne hne, fun _ => hs.incoming_rx hne, fun _ => hs.requests_rx hne⟩,
        fun _ hopen => ?_⟩
      · rw [EngineState.AllWaiting, htasks]
        exact hs.waiting hne
      · rw [htasks]
        exact hs.tasks_full hne
      · rw [hopen] at hshutdown
        cases hshutdown
    · exact ⟨hs.of_timedOut hphase rfl rfl hreceived rfl rfl hs.driver,
        fun hlooping => absurd hlooping hnot⟩
  | dropIncoming hended =>
    have hphase : s.engine.phase = .timedOut := by
      rcases hended with hreturned | hphase
      · rcases hs.phase with h | h | h <;> rw [hreturned] at h <;> cases h
      · exact hphase
    exact ⟨hs.of_timedOut hphase rfl rfl rfl rfl rfl hs.driver, fun hlooping _ => hlooping⟩

end Pipeline

namespace Startup

variable {cap : ℕ} {registry : DecoderRegistry} {replies : ℕ → List Publish} {s s' : Startup}
  {filters : List String}

/-! ## Where a deadlock can be -/

/-- While the connection is up and `main` waits, nothing has ended. -/
theorem Reachable.running_of_selecting (h : s.Reachable cap registry replies filters) :
    s.main.phase = .selecting → s.main.pipeline.Running := by
  induction h with
  | refl => nofun
  | tail hrun hstep ih =>
    intro hphase
    cases hstep with
    | reply =>
      obtain ⟨hphase', hshutdown, hdriver, htx, hrx, hreq⟩ := ih hphase
      exact ⟨hphase', hshutdown, hdriver, htx, hrx, hreq⟩
    | main hmain =>
      cases hmain with
      | spawn hsubscribed => exact (Reachable.subscribing hrun _ hsubscribed).running
      | running _ hstep => exact hstep.running (ih hphase)
      | connected hsubscribing =>
        rw [show _ = MainPhase.selecting from hphase] at hsubscribing
        cases hsubscribing
      | subscribe | subscribeFails | driverReturned | ctrlC | joined => cases hphase

/-- After the driver has returned the pipeline can always take a step. -/
theorem exists_step_of_returned (hcap : 1 ≤ cap) (hreg : registry.Terminates)
    (hs : s.LossyReachable cap registry replies filters)
    (hdriver : s.main.pipeline.driver = .returned) :
    ∃ p, Pipeline.Step cap registry s.main.pipeline p := by
  have hcoherent := hs.coherent
  obtain ⟨hrequests, hincoming⟩ := hcoherent.dropped hdriver
  have hengine := hcoherent.pipeline.engine
  generalize s.main.pipeline = p at hrequests hincoming hengine
  cases hphase : p.engine.phase with
  | panicked => exact absurd hphase hengine.accounted.phase_ne
  | returned => exact ⟨_, .dropIncoming (Or.inl hphase)⟩
  | timedOut => exact ⟨_, .dropIncoming (Or.inr hphase)⟩
  | draining =>
    by_cases htasks : p.engine.tasks = []
    · exact ⟨_, .engine (EngineState.silent_drained hphase htasks)⟩
    · exact ⟨_, .engine (.timeout hphase htasks)⟩
  | looping =>
    cases htasks : p.engine.tasks with
    | nil =>
      -- the engine takes what is in the channel, or learns that it is closed
      have hroom : p.engine.tasks.length < cap := by
        rw [htasks]
        exact hcap
      cases hbuf : p.incoming.buf with
      | nil =>
        have hrecv : p.incoming.recv = some (none, p.incoming) :=
          Chan.recv_eq_none_iff.mpr ⟨hbuf, hincoming, rfl⟩
        have hen : p.engine.enabled cap .recv = true := by simpa [EngineState.enabled] using hroom
        exact ⟨_, .recv hrecv (.closed hphase hen rfl)⟩
      | cons m rest =>
        obtain ⟨incoming, hrecv, -⟩ := Chan.exists_recv hbuf
        obtain ⟨engine, hstep⟩ := @EngineState.exists_recv_step cap registry _ m hphase hroom
        exact ⟨_, .recv hrecv hstep⟩
    | cons x tasks =>
      -- a task moves or is reaped, and the client refuses what it hands over
      have hmem : x ∈ p.engine.tasks := by
        rw [htasks]
        exact List.mem_cons_self
      obtain ⟨engine, hstep | ⟨i, r, hstep⟩, -⟩ :=
        EngineState.exists_step_of_task hreg hengine (Or.inl hphase) hmem
      · exact ⟨_, .engine hstep⟩
      · exact ⟨_, .publishFails hrequests hstep⟩

/-- A deadlock is wedged, with its engine in the loop. -/
theorem wedged_of_deadlocked (hcap : 1 ≤ cap) (hreg : registry.Terminates)
    (hs : s.LossyReachable cap registry replies filters) (hphase : s.main.phase = .selecting)
    (hdead : s.main.pipeline.Deadlocked cap registry) :
    s.main.pipeline.Wedged cap s.main.pipeline ∧ s.main.pipeline.Running := by
  have hdriver : s.main.pipeline.driver ≠ .returned := by
    intro hreturned
    obtain ⟨p, hstep⟩ := exists_step_of_returned hcap hreg hs hreturned
    exact hdead.2 p hstep
  have hrunning := (hs.reachable hdriver).running_of_selecting hphase
  have hlive : s.main.pipeline.Live cap registry :=
    ⟨hrunning, hs.coherent.pipeline.engine, fun m _ => hreg.not_hangsOn m⟩
  obtain ⟨⟨m, hm⟩, hincoming, hlen, htasks, hrequests⟩ := hdead.waiting hcap hlive
  have hwaiting : s.main.pipeline.engine.AllWaiting := by
    refine ⟨List.ne_nil_of_length_pos (by omega), fun x hx => ⟨?_, fun t' hstep => ?_⟩⟩
    · obtain ⟨r, t', hstep⟩ := htasks x hx
      exact hstep.finished_eq
    · -- otherwise there would be a step
      obtain ⟨l₁, l₂, hsplit⟩ := List.append_of_mem hx
      exact hdead.2 _ (.engine (EngineState.silent_task hsplit hstep))
  refine ⟨⟨rfl, rfl, rfl, hrequests, hincoming, by simp [hm], Or.inl hrunning.phase,
    fun _ => hwaiting, fun _ => hlen, fun _ => hdriver, fun _ => hrunning.incoming_rx,
    fun _ => hrunning.requests_rx⟩, hrunning⟩

/-! ## What is left of it -/

/-- The pipeline is wedged, and `main` waits in its `select!`, or Ctrl+C was pressed. When `main`
has returned after that, the drain has timed out. -/
structure Stranded (cap : ℕ) (s : Startup) (p : Pipeline) : Prop where
  wedged : s.main.pipeline.Wedged cap p
  phase : s.main.phase = .selecting ∧ s.main.pipeline.engine.phase = .looping ∧
      s.main.pipeline.engine.shutdown = false ∨
    s.main.interrupted = true ∧ (s.main.phase = .awaiting ∨
      s.main.phase = .returned ∧ s.main.pipeline.engine.phase = .timedOut)

/-- `main` is past its subscriptions. -/
theorem Stranded.ne_subscribing {p : Pipeline} (hs : s.Stranded cap p) {left : List String} :
    s.main.phase ≠ .subscribing left := by
  intro hphase
  rcases hs.phase with ⟨h, -⟩ | ⟨-, h | ⟨h, -⟩⟩ <;> rw [hphase] at h <;> cases h

/-- Every step leaves the process stranded. -/
theorem LossyStep.stranded {p : Pipeline} (h : LossyStep cap registry replies s s')
    (hs : s.Stranded cap p) : s'.Stranded cap p := by
  obtain ⟨hwedged, hphase⟩ := hs
  cases h with
  | pollFails _ hpolling => exact absurd hpolling hwedged.driver
  | up hstep =>
    cases hstep with
    | reply => exact ⟨hwedged.congr rfl rfl rfl rfl rfl rfl rfl rfl, hphase⟩
    | main hmain =>
      cases hmain with
      | subscribe hsub | subscribeFails hsub | connected hsub | spawn hsub =>
        exact absurd hsub (Stranded.ne_subscribing ⟨hwedged, hphase⟩)
      | running hrunning hstep =>
        obtain ⟨hwedged', hloop⟩ := hstep.wedged hwedged
        refine ⟨hwedged', ?_⟩
        rcases hphase with ⟨hselecting, hlooping, hshutdown⟩ | ⟨hint, hawait | ⟨hret, -⟩⟩
        · exact Or.inl ⟨hselecting, hloop hlooping hshutdown, hstep.shutdown_eq.trans hshutdown⟩
        · exact Or.inr ⟨hint, Or.inl hawait⟩
        · rw [hret] at hrunning
          rcases hrunning with h | h <;> cases h
      | driverReturned hselecting hdriver =>
        -- the driver only returns after the drain has timed out
        rcases hphase with ⟨-, hlooping, -⟩ | ⟨-, h | ⟨h, -⟩⟩
        · exact absurd hdriver (hwedged.driver_ne (by simp [hlooping]))
        · rw [h] at hselecting
          cases hselecting
        · rw [h] at hselecting
          cases hselecting
      | ctrlC _ hcancel =>
        rw [hcancel.of_cancel]
        exact ⟨hwedged.congr rfl rfl rfl rfl rfl rfl rfl rfl, Or.inr ⟨rfl, Or.inl rfl⟩⟩
      | joined hawait hended =>
        refine ⟨hwedged, ?_⟩
        have htimedOut : s.main.pipeline.engine.phase = .timedOut := by
          rcases hwedged.phase with h | h | h
          · exact absurd h hended.1
          · exact absurd h hended.2
          · exact h
        rcases hphase with ⟨h, -⟩ | ⟨hint, -⟩
        · rw [hawait] at h
          cases h
        · exact Or.inr ⟨hint, Or.inr ⟨rfl, htimedOut⟩⟩

/-- A deadlock of the pipeline is for good. Whatever happens afterwards, even to the connection,
nothing is handed to the client, taken by the driver or received by the engine any more. `main`
stays in its `select!` until Ctrl+C is pressed, and does not return before the drain has timed
out. -/
theorem deadlock_persists (hcap : 1 ≤ cap) (hreg : registry.Terminates)
    (hs : s.LossyReachable cap registry replies filters) (hphase : s.main.phase = .selecting)
    (hdead : s.main.pipeline.Deadlocked cap registry)
    (hrun : ReflTransGen (LossyStep cap registry replies) s s') :
    s'.main.pipeline.handed = s.main.pipeline.handed ∧
      s'.main.pipeline.taken = s.main.pipeline.taken ∧
      s'.main.pipeline.engine.received = s.main.pipeline.engine.received ∧
      (s'.main.phase = .selecting ∨ s'.main.interrupted = true) ∧
      (s'.main.phase = .returned → s'.main.pipeline.engine.phase = .timedOut) := by
  obtain ⟨hwedged, hrunning⟩ := wedged_of_deadlocked hcap hreg hs hphase hdead
  have hstart : s.Stranded cap s.main.pipeline :=
    ⟨hwedged, Or.inl ⟨hphase, hrunning.phase, hrunning.shutdown⟩⟩
  have hend : s'.Stranded cap s.main.pipeline := by
    induction hrun with
    | refl => exact hstart
    | tail _ hstep ih => exact hstep.stranded ih
  refine ⟨hend.wedged.handed, hend.wedged.taken, hend.wedged.received, ?_, fun hreturned => ?_⟩
  · exact hend.phase.imp (·.1) (·.1)
  · rcases hend.phase with ⟨h, -⟩ | ⟨-, h | ⟨-, htimedOut⟩⟩
    · rw [hreturned] at h
      cases h
    · rw [hreturned] at h
      cases h
    · exact htimedOut

/-- A reply that overloads the pipeline can bring the started process to a deadlock. -/
theorem exists_deadlocked_of_reply (hcap : 1 ≤ cap) (hreg : registry.Terminates) (topic : String)
    {burst : List Publish} (hload : Pipeline.Overload cap registry burst) :
    ∃ s : Startup, s.LossyReachable cap registry (fun _ => burst) [topic] ∧
      s.main.phase = .selecting ∧ s.main.pipeline.Deadlocked cap registry := by
  obtain ⟨p, hp, hdead⟩ := (Pipeline.exists_deadlocked_iff hcap hreg).mpr hload
  obtain ⟨p', hp', hdead'⟩ := Pipeline.exists_deadlocked_of_taken [.subscribe topic] hp hdead
  -- the driver takes the subscription, the broker replies, and `main` spawns the engine
  have hsubscribe := @Main.run_subscribe cap registry [] [] [topic] []
  have hreply := @run_reply cap registry (fun _ => burst) (.subscribing [])
    { Pipeline.start [] with taken := [.subscribe topic] } false 1 (Nat.le_refl 1)
  have hburst : (List.range 1).flatMap (fun _ => burst) = burst := by simp
  rw [hburst] at hreply
  have hspawn := ReflTransGen.single (@Main.Step.spawn cap registry
    ⟨.subscribing [], { Pipeline.start burst with taken := [.subscribe topic] }, false⟩ rfl)
  have hrun := ((run_main hsubscribe).trans hreply).trans
    (run_main (hspawn.trans (Main.run_selecting hp')))
  exact ⟨_, ReflTransGen.mono (fun _ _ h => .up h) _ _ hrun, rfl, hdead'⟩

open EngineState (sensorMessage) in
/-- A burst of messages in reply to a subscription can end the traffic of the process. -/
theorem deadlock_persists_burst :
    ∃ s : Startup,
      s.LossyReachable 1 .sensorRegistry (fun _ => List.replicate 202 sensorMessage)
        ["sensors/a"] ∧
      s.main.pipeline.Deadlocked 1 .sensorRegistry ∧
      ¬ ∃ s', ReflTransGen (LossyStep 1 .sensorRegistry fun _ => List.replicate 202 sensorMessage)
          s s' ∧ s'.main.pipeline.taken ≠ s.main.pipeline.taken := by
  have hreg := DecoderRegistry.sensorRegistry_builtin.returns.terminates
  have hload : Pipeline.Overload 1 .sensorRegistry (List.replicate 202 sensorMessage) :=
    Pipeline.overload_replicate (Nat.le_refl 1) rfl rfl (Nat.le_refl 202)
  obtain ⟨s, hs, hphase, hdead⟩ :=
    exists_deadlocked_of_reply (Nat.le_refl 1) hreg "sensors/a" hload
  refine ⟨s, hs, hdead, fun ⟨s', hrun, htaken⟩ => htaken ?_⟩
  exact (deadlock_persists (Nat.le_refl 1) hreg hs hphase hdead hrun).2.1

end Startup

end RosettaMq
