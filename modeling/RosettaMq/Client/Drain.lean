import RosettaMq.Client.Lifetime

/-!
# Whether the drain completes

After the loop of `engine::run` has ended nobody receives from the channel of incoming messages, but
the driver still forwards what it polls, and the broker still replies to subscriptions. Once that
channel is full the driver polls nothing else, and takes no requests. So a drain can only be saved
by its timeout if there are too many messages to forward and too many outputs to hand over.
Otherwise it completes in every run (`Startup.drain_completes_iff`).
-/

open Relation

namespace RosettaMq

namespace EngineState

variable {cap : ℕ} {registry : DecoderRegistry} {s s' : EngineState} {a : Action}

/-- How many messages the tasks still hand to the client. -/
def pending (s : EngineState) : ℕ := (s.tasks.map (·.2.remaining.length)).sum

/-- Until it times out, the drain reaps a task, or ends without tasks, or a task takes a step. -/
theorem Step.of_draining (h : Step cap registry s a s') (hphase : s.phase = .draining)
    (ha : a ≠ .cancel) (htime : s'.phase ≠ .timedOut) :
    (∃ x rest, a = .silent ∧ JoinNext s.tasks (some x) rest ∧ s'.phase = .draining ∧
      s'.tasks = rest) ∨
    (a = .silent ∧ s.tasks = [] ∧ s'.phase = .returned ∧ s'.tasks = []) ∨
    ∃ l₁ l₂ i t l t', a = taskAction i l ∧ s.tasks = l₁ ++ (i, t) :: l₂ ∧ Task.Step t l t' ∧
      s'.phase = .draining ∧ s'.tasks = l₁ ++ (i, t') :: l₂ := by
  cases h with
  | skip hlooping | spawn hlooping | closed hlooping | joinNext hlooping | cancelled hlooping
  | noBranch hlooping =>
    rw [hphase] at hlooping
    cases hlooping
  | drainNext _ hnext => exact Or.inl ⟨_, _, rfl, hnext, hphase, rfl⟩
  | drained _ hnext =>
    obtain ⟨hnil, rfl⟩ := hnext.of_none
    exact Or.inr (Or.inl ⟨rfl, hnil, rfl, hnil⟩)
  | timeout => exact absurd rfl htime
  | task htasks hstep => exact Or.inr (Or.inr ⟨_, _, _, _, _, _, rfl, htasks, hstep, hphase, rfl⟩)
  | cancel => exact absurd rfl ha

/-- The engine does not start again. -/
theorem Step.active (h : Step cap registry s a s')
    (hphase : s'.phase = .looping ∨ s'.phase = .draining) :
    s.phase = .looping ∨ s.phase = .draining := by
  cases h with
  | skip hlooping | spawn hlooping | closed hlooping | joinNext hlooping | cancelled hlooping =>
    exact Or.inl hlooping
  | drainNext hdraining => exact Or.inr hdraining
  | noBranch | drained | timeout => rcases hphase with h | h <;> cases h
  | task | cancel => exact hphase

/-- A step of the drain keeps what is pending, or hands one message of it over. -/
theorem Step.pending_eq (h : Step cap registry s a s') (hreg : registry.Returns)
    (hs : s.Reachable cap registry) (hphase : s.phase = .draining) (ha : a ≠ .cancel)
    (htime : s'.phase ≠ .timedOut) : s.pending = a.published.length + s'.pending := by
  rcases h.of_draining hphase ha htime with ⟨x, rest, rfl, hnext, -, htasks⟩ |
    ⟨rfl, hnil, -, htasks⟩ | ⟨l₁, l₂, i, t, l, t', rfl, hsplit, hstep, -, htasks⟩
  · -- nothing remains of a finished task
    obtain ⟨l₁, l₂, hsplit, hrest, hfin⟩ := hnext.of_some
    simp [pending, htasks, hsplit, hrest, Action.published,
      Task.remaining_eq_nil_of_finished hfin]
  · simp [pending, htasks, hnil, Action.published]
  · have hmem : (i, t) ∈ s.tasks := by rw [hsplit]; simp
    obtain ⟨d, hd, hsound, -⟩ := hs.refines.task (i, t) hmem
    have hreturns := hreg.returnsOn _ d hd
    have hremaining : t.remaining = l.toList ++ t'.remaining := by
      rcases hstep.remaining_eq hsound with heq | ⟨-, -, hpanic, -⟩
      · exact heq
      · exact absurd hpanic hreturns.1
    simp only [pending, htasks, hsplit, hremaining, published_taskAction, List.map_append,
      List.map_cons, List.sum_append, List.sum_cons, List.length_append, List.length_map]
    omega

end EngineState

namespace Pipeline

variable {cap : ℕ} {registry : DecoderRegistry} {s s' : Pipeline}

/-- The messages that the driver still forwards or has forwarded. -/
def forwards (s : Pipeline) : ℕ :=
  s.incoming.buf.length + s.driver.holding.toList.length + s.deliveries.length

/-- The requests in the channel and those to come. -/
def demand (s : Pipeline) : ℕ := s.requests.buf.length + s.engine.pending

/-- The subscriptions that the driver has taken. -/
def subscribed (s : Pipeline) : ℕ := (s.taken.filterMap Request.asSubscribe).length

/-- The subscriptions in the request channel. -/
def subscriptions (s : Pipeline) : ℕ := (s.requests.buf.filterMap Request.asSubscribe).length

/-- The receivers are there as long as those who hold them. -/
structure Held (s : Pipeline) : Prop where
  incoming : s.engine.phase = .looping ∨ s.engine.phase = .draining → s.incoming.rxOpen = true
  requests : s.driver ≠ .returned → s.requests.rxOpen = true

theorem Step.held (h : Step cap registry s s') (hs : s.Held) : s'.Held := by
  cases h with
  | pollRequest hpolling hrecv =>
    obtain ⟨-, -, hrx⟩ := Chan.recv_eq_some_iff.mp hrecv
    exact ⟨hs.incoming, fun hdriver => hrx.trans (hs.requests hdriver)⟩
  | pollPublish hpolling =>
    exact ⟨hs.incoming, fun _ => hs.requests (by simp [hpolling])⟩
  | forward hforwarding hsend =>
    obtain ⟨-, -, -, -, hrx⟩ := Chan.send_eq_some_iff.mp hsend
    exact ⟨fun hphase => hrx.trans (hs.incoming hphase),
      fun _ => hs.requests (by simp [hforwarding])⟩
  | forwardFails => exact ⟨hs.incoming, fun hdriver => absurd rfl hdriver⟩
  | @recv message _ _ hrecv hstep =>
    refine ⟨fun hphase => ?_, hs.requests⟩
    have hopen := hs.incoming (hstep.active hphase)
    cases message with
    | none =>
      obtain ⟨-, -, rfl⟩ := Chan.recv_eq_none_iff.mp hrecv
      exact hopen
    | some m =>
      obtain ⟨-, -, hrx⟩ := Chan.recv_eq_some_iff.mp hrecv
      exact hrx.trans hopen
  | publish hsend hstep =>
    obtain ⟨-, -, -, -, hrx⟩ := Chan.send_eq_some_iff.mp hsend
    exact ⟨fun hphase => hs.incoming (hstep.active hphase),
      fun hdriver => hrx.trans (hs.requests hdriver)⟩
  | publishFails _ hstep =>
    exact ⟨fun hphase => hs.incoming (hstep.active hphase), hs.requests⟩
  | engine hstep =>
    exact ⟨fun hphase => hs.incoming (EngineState.Step.active hstep hphase), hs.requests⟩
  | dropIncoming hended =>
    refine ⟨fun hphase => ?_, hs.requests⟩
    rcases hended with hended | hended <;> simp [hended] at hphase

theorem held_disconnect (hs : s.Held) : s.disconnect.Held :=
  ⟨hs.incoming, fun hdriver => absurd rfl hdriver⟩

/-- Unless it times out, the drain goes on or ends. -/
theorem Step.phase_of_draining (h : Step cap registry s s') (hphase : s.engine.phase = .draining)
    (htime : s'.engine.phase ≠ .timedOut) :
    s'.engine.phase = .draining ∨ s'.engine.phase = .returned := by
  cases h with
  | pollRequest | pollPublish | forward | forwardFails | dropIncoming => exact Or.inl hphase
  | recv _ hstep | publish _ hstep | publishFails _ hstep | engine hstep =>
    rcases EngineState.Step.of_draining hstep hphase nofun htime with
      ⟨_, _, -, -, h, -⟩ | ⟨-, -, h, -⟩ | ⟨_, _, _, _, _, _, -, -, -, h, -⟩
    · exact Or.inl h
    · exact Or.inr h
    · exact Or.inl h

/-- During the drain what the driver forwards stays, the driver takes the next request, or there is
no more demand than before. -/
theorem Step.load_cases (h : Step cap registry s s') (hreg : registry.Returns)
    (hengine : s.engine.Reachable cap registry) (hphase : s.engine.phase = .draining)
    (htime : s'.engine.phase ≠ .timedOut) (hdriver : s'.driver ≠ .returned) :
    s.driver ≠ .returned ∧ s'.forwards = s.forwards ∧
      ((∃ r, s.requests.buf = r :: s'.requests.buf ∧ s'.taken = s.taken ++ [r] ∧
          s.demand = s'.demand + 1) ∨
        s'.taken = s.taken ∧ s'.subscriptions = s.subscriptions ∧ s'.demand ≤ s.demand) := by
  have hpending : ∀ {a e}, EngineState.Step cap registry s.engine a e → a ≠ .cancel →
      e.phase ≠ .timedOut → s.engine.pending = a.published.length + e.pending :=
    fun h ha ht => h.pending_eq hreg hengine hphase ha ht
  cases h with
  | pollRequest hpolling hrecv =>
    obtain ⟨hbuf, -, -⟩ := Chan.recv_eq_some_iff.mp hrecv
    refine ⟨by simp [hpolling], rfl, Or.inl ⟨_, hbuf, rfl, ?_⟩⟩
    simp only [demand, hbuf, List.length_cons]
    omega
  | pollPublish hpolling hdel =>
    refine ⟨by simp [hpolling], ?_, Or.inr ⟨rfl, rfl, Nat.le_refl _⟩⟩
    simp only [forwards, hpolling, hdel, Driver.holding, Option.toList_none, Option.toList_some,
      List.length_nil, List.length_cons]
    omega
  | forward hforwarding hsend =>
    obtain ⟨-, -, hbuf, -, -⟩ := Chan.send_eq_some_iff.mp hsend
    refine ⟨by simp [hforwarding], ?_, Or.inr ⟨rfl, rfl, Nat.le_refl _⟩⟩
    simp only [forwards, hforwarding, hbuf, Driver.holding, Option.toList_none,
      Option.toList_some, List.length_nil, List.length_append, List.length_singleton,
      Nat.add_zero]
  | forwardFails => exact absurd rfl hdriver
  | recv _ hstep =>
    -- the loop that receives has ended
    rw [hstep.of_recv.1] at hphase
    cases hphase
  | publish hsend hstep =>
    obtain ⟨-, -, hbuf, -, -⟩ := Chan.send_eq_some_iff.mp hsend
    have heq := hpending hstep (by simp) htime
    rw [Action.published, List.length_singleton] at heq
    refine ⟨hdriver, rfl, Or.inr ⟨rfl, ?_, ?_⟩⟩
    · simp [subscriptions, hbuf, Request.asSubscribe]
    · simp only [demand, hbuf, List.length_append, List.length_singleton]
      omega
  | publishFails _ hstep =>
    have heq := hpending hstep (by simp) htime
    refine ⟨hdriver, rfl, Or.inr ⟨rfl, rfl, ?_⟩⟩
    simp only [demand]
    omega
  | engine hstep =>
    have heq := hpending hstep (by simp) htime
    refine ⟨hdriver, rfl, Or.inr ⟨rfl, rfl, ?_⟩⟩
    simp only [demand]
    omega
  | dropIncoming => exact ⟨hdriver, rfl, Or.inr ⟨rfl, rfl, Nat.le_refl _⟩⟩

/-- The driver waits to forward to an engine that does not receive, and there are more requests than
the channel holds. -/
structure Blocked (s : Pipeline) : Prop where
  phase : s.engine.phase = .draining
  driver : ∃ m, s.driver = .forwarding m
  incoming : s.incoming.buf.length = incomingCapacity
  demand : requestCapacity < s.demand

/-- No step of the pipeline gets the driver out of there before the timeout. -/
theorem Step.blocked (h : Step cap registry s s') (hreg : registry.Returns)
    (hengine : s.engine.Reachable cap registry) (hheld : s.Held)
    (htime : s'.engine.phase ≠ .timedOut) (hblocked : s.Blocked) : s'.Blocked := by
  obtain ⟨hphase, ⟨m, hdriver⟩, hincoming, hdemand⟩ := hblocked
  have hrequests : s.requests.rxOpen = true := hheld.requests (by simp [hdriver])
  cases h with
  | pollRequest hpolling | pollPublish hpolling =>
    rw [hdriver] at hpolling
    cases hpolling
  | forward _ hsend =>
    obtain ⟨-, hlt, -⟩ := Chan.send_eq_some_iff.mp hsend
    omega
  | forwardFails _ hclosed =>
    rw [hheld.incoming (Or.inr hphase)] at hclosed
    cases hclosed
  | recv _ hstep =>
    rw [hstep.of_recv.1] at hphase
    cases hphase
  | publish hsend hstep =>
    obtain ⟨-, -, hbuf, -, -⟩ := Chan.send_eq_some_iff.mp hsend
    have heq := hstep.pending_eq hreg hengine hphase (by simp) htime
    obtain ⟨_, _, _, _, -, -, rfl⟩ := hstep.of_publish
    refine ⟨hphase, ⟨m, hdriver⟩, hincoming, ?_⟩
    simp only [Action.published, List.length_singleton] at heq
    simp only [Pipeline.demand, hbuf, List.length_append, List.length_singleton] at hdemand ⊢
    omega
  | publishFails hclosed =>
    rw [hrequests] at hclosed
    cases hclosed
  | engine hstep =>
    have heq := EngineState.Step.pending_eq hstep hreg hengine hphase (by simp) htime
    simp only [Action.published, List.length_nil, Nat.zero_add] at heq
    rcases EngineState.Step.of_draining hstep hphase (by simp) htime with
      ⟨_, _, -, -, hphase', -⟩ | ⟨-, hnil, -⟩ | ⟨_, _, _, _, _, _, -, -, -, hphase', -⟩
    · exact ⟨hphase', ⟨m, hdriver⟩, hincoming, by rw [Pipeline.demand, ← heq]; exact hdemand⟩
    · -- without tasks there would not be that many requests
      have hbound := s.requests.bound
      simp only [Pipeline.demand, EngineState.pending, hnil, List.map_nil, List.sum_nil]
        at hdemand
      omega
    · exact ⟨hphase', ⟨m, hdriver⟩, hincoming, by rw [Pipeline.demand, ← heq]; exact hdemand⟩
  | dropIncoming hended =>
    rcases hended with h | h <;> simp [hphase] at h

/-- When a pipeline can take no step but the timeout, its driver waits to forward, and its tasks
wait for the client. -/
theorem blocked_of_final (hreg : registry.Returns) (hengine : s.engine.Reachable cap registry)
    (hheld : s.Held) (hdropped : s.Dropped) (hphase : s.engine.phase = .draining)
    (hfinal : ∀ p, Step cap registry s p → p.engine.phase = .timedOut) : s.Blocked := by
  have hno : ∀ {p}, Step cap registry s p → p.engine.phase = s.engine.phase → False := by
    intro p hstep heq
    have htimedOut := hfinal p hstep
    rw [heq, hphase] at htimedOut
    cases htimedOut
  obtain ⟨x, hx⟩ : ∃ x, x ∈ s.engine.tasks := by
    refine List.exists_mem_of_ne_nil _ fun hnil => ?_
    have htimedOut := hfinal _ (.engine (EngineState.silent_drained hphase hnil))
    cases htimedOut
  obtain ⟨engine, hsilent | ⟨i, r, hpublish⟩, hsame⟩ :=
    EngineState.exists_step_of_task hreg.terminates hengine (Or.inr hphase) hx
  · exact absurd hsame fun heq => hno (.engine hsilent) heq
  · -- the message that the task would hand over finds no room
    have hrx : s.requests.rxOpen = true := by
      by_contra hclosed
      exact hno (.publishFails (eq_false_of_ne_true hclosed) hpublish) hsame
    have hfull : ¬ s.requests.buf.length < requestCapacity := fun hlt => by
      obtain ⟨requests, hsend⟩ := Chan.exists_send hrx hlt (.publish i r)
      exact hno (.publish hsend hpublish) hsame
    have hpending := hpublish.pending_eq hreg hengine hphase nofun (by rw [hsame, hphase]; nofun)
    rw [Action.published, List.length_singleton] at hpending
    have hdemand : requestCapacity < s.demand := by
      rw [demand]
      omega
    cases hd : s.driver with
    | returned =>
      rw [(hdropped hd).1] at hrx
      cases hrx
    | polling =>
      -- the driver would take a request
      obtain ⟨q, rest, hbuf⟩ := List.exists_cons_of_ne_nil
        (List.ne_nil_of_length_pos (Nat.lt_of_lt_of_le (by decide) (Nat.le_of_not_lt hfull)))
      obtain ⟨requests, hrecv, -⟩ := Chan.exists_recv hbuf
      exact absurd rfl fun heq => hno (.pollRequest hd hrecv) heq
    | forwarding m =>
      refine ⟨hphase, ⟨m, hd⟩, ?_, hdemand⟩
      by_contra hne
      have hlt := Nat.lt_of_le_of_ne s.incoming.bound hne
      obtain ⟨incoming, hsend⟩ := Chan.exists_send (hheld.incoming (Or.inr hphase)) hlt m
      exact hno (.forward hd hsend) rfl

end Pipeline

namespace Startup

variable {cap : ℕ} {registry : DecoderRegistry} {replies : ℕ → List Publish} {s s' : Startup}
  {filters : List String}

/-! ## The steps of the drain -/

/-- A step of the process or of the broker while the engine drains, as long as the drain does not
time out. -/
structure DrainStep (cap : ℕ) (registry : DecoderRegistry) (replies : ℕ → List Publish)
    (s s' : Startup) : Prop where
  draining : s.main.pipeline.engine.phase = .draining
  step : LossyStep cap registry replies s s'
  ne_timedOut : s'.main.pipeline.engine.phase ≠ .timedOut

theorem held_of_mainStep {s s' : Main} (h : Main.Step cap registry s s') (hs : s.pipeline.Held) :
    s'.pipeline.Held := by
  cases h with
  | subscribe _ hsend =>
    obtain ⟨-, -, -, -, hrx⟩ := Chan.send_eq_some_iff.mp hsend
    exact ⟨hs.incoming, fun hdriver => hrx.trans (hs.requests hdriver)⟩
  | connected _ hstep | running _ hstep => exact hstep.held hs
  | driverReturned _ _ hcancel | ctrlC _ hcancel =>
    exact ⟨fun hphase => hs.incoming (hcancel.active hphase), hs.requests⟩
  | subscribeFails | spawn | joined => exact hs

theorem LossyReachable.held (h : s.LossyReachable cap registry replies filters) :
    s.main.pipeline.Held := by
  induction h with
  | refl => exact ⟨fun _ => rfl, fun _ => rfl⟩
  | tail _ hstep ih =>
    cases hstep with
    | pollFails => exact Pipeline.held_disconnect ih
    | up hstep =>
      cases hstep with
      | main hmain => exact held_of_mainStep hmain ih
      | reply => exact ⟨ih.incoming, ih.requests⟩

/-- While the engine drains `main` is past its subscriptions and awaits the engine, or soon does. -/
theorem LossyReachable.awaits (h : s.LossyReachable cap registry replies filters)
    (hphase : s.main.pipeline.engine.phase = .draining) :
    s.main.phase = .selecting ∨ s.main.phase = .awaiting := by
  -- the engine has not started while `main` subscribes, and has ended when it returns
  have hinv : (∀ left, s.main.phase = .subscribing left →
      s.main.pipeline.engine.phase = .looping) ∧
      (s.main.phase = .returned → s.main.pipeline.engine.phase ≠ .draining) := by
    clear hphase
    induction h with
    | refl => exact ⟨fun _ _ => rfl, nofun⟩
    | tail _ hstep ih =>
      obtain ⟨hsubscribing, hreturned⟩ := ih
      cases hstep with
      | pollFails => exact ⟨hsubscribing, hreturned⟩
      | up hstep =>
        cases hstep with
        | reply => exact ⟨hsubscribing, hreturned⟩
        | main hmain =>
          cases hmain with
          | subscribe hphase => exact ⟨fun _ _ => hsubscribing _ hphase, nofun⟩
          | subscribeFails hphase =>
            exact ⟨nofun, fun _ => by simp [hsubscribing _ hphase]⟩
          | connected hphase _ hsame =>
            dsimp only
            rw [hsame]
            exact ⟨hsubscribing, hreturned⟩
          | running hphase =>
            constructor
            · intro left hleft
              rw [show _ = MainPhase.subscribing left from hleft] at hphase
              simp at hphase
            · intro hret
              rw [show _ = MainPhase.returned from hret] at hphase
              simp at hphase
          | spawn | driverReturned | ctrlC => exact ⟨nofun, nofun⟩
          | joined _ hended => exact ⟨nofun, fun _ => hended.2⟩
  cases hp : s.main.phase with
  | selecting => exact Or.inl rfl
  | awaiting => exact Or.inr rfl
  | subscribing left =>
    rw [hinv.1 left hp] at hphase
    cases hphase
  | returned => exact absurd hphase (hinv.2 hp)

/-- What the process and the broker can do during the drain: the pipeline takes a step, the broker
replies, the token is cancelled, or the connection is lost. -/
theorem LossyStep.of_draining (h : LossyStep cap registry replies s s')
    (hs : s.LossyReachable cap registry replies filters)
    (hphase : s.main.pipeline.engine.phase = .draining) :
    (∃ p, Pipeline.Step cap registry s.main.pipeline p ∧ s'.main.pipeline = p ∧
      s'.replied = s.replied) ∨
    (s.replied < s.main.pipeline.subscribed ∧
      s'.main.pipeline = { s.main.pipeline with
        deliveries := s.main.pipeline.deliveries ++ replies s.replied } ∧
      s'.replied = s.replied + 1) ∨
    (∃ cancelledAt, s'.main.pipeline = { s.main.pipeline with
        engine := { s.main.pipeline.engine with shutdown := true, cancelledAt := cancelledAt } } ∧
      s'.replied = s.replied) ∨
    (s.main.pipeline.driver = .polling ∧ s'.main.pipeline = s.main.pipeline.disconnect) := by
  have hawaits := hs.awaits hphase
  cases h with
  | pollFails _ hpolling => exact Or.inr (Or.inr (Or.inr ⟨hpolling, rfl⟩))
  | up hstep =>
    cases hstep with
    | reply hlt => exact Or.inr (Or.inl ⟨hlt, rfl, rfl⟩)
    | main hmain =>
      cases hmain with
      | subscribe hmain | subscribeFails hmain | connected hmain | spawn hmain =>
        rw [hmain] at hawaits
        simp at hawaits
      | running _ hstep => exact Or.inl ⟨_, hstep, rfl, rfl⟩
      | driverReturned _ _ hcancel | ctrlC _ hcancel =>
        rw [hcancel.of_cancel]
        exact Or.inr (Or.inr (Or.inl ⟨_, rfl, rfl⟩))
      | joined _ hended => exact absurd hphase hended.2

/-- Where the drain is, in a state of a run. -/
structure Draining (cap : ℕ) (registry : DecoderRegistry) (replies : ℕ → List Publish)
    (filters : List String) (s : Startup) : Prop where
  reachable : s.LossyReachable cap registry replies filters
  phase : s.main.pipeline.engine.phase = .draining ∨ s.main.pipeline.engine.phase = .returned

theorem DrainStep.keeps_draining (h : DrainStep cap registry replies s s')
    (hs : s.Draining cap registry replies filters) :
    s'.Draining cap registry replies filters := by
  refine ⟨hs.reachable.tail h.step, ?_⟩
  rcases h.step.of_draining hs.reachable h.draining with ⟨p, hstep, rfl, -⟩ | hother
  · exact hstep.phase_of_draining h.draining h.ne_timedOut
  · -- all other steps leave the phase of the engine as it is
    refine Or.inl ?_
    rcases hother with ⟨-, hp, -⟩ | ⟨_, hp, -⟩ | ⟨-, hp⟩ <;> rw [hp] <;> exact h.draining

/-- Every step of the drain uses up some potential. -/
theorem descends_drainStep :
    Descends (DrainStep cap registry replies) (Draining cap registry replies filters)
      (potential registry replies filters) where
  keeps hs h := h.keeps_draining hs
  lt hs h := by
    refine (h.step.potential_lt hs.reachable.wired).resolve_right fun ⟨_, hrx⟩ => ?_
    -- the engine holds the receiver until the drain ends
    rw [hs.reachable.held.incoming (Or.inr h.draining)] at hrx
    cases hrx

/-! ## Too much to forward -/

/-- The messages that the driver still forwards or has forwarded once it has taken `n` more
subscriptions, with those in reply to them. -/
def forwards (replies : ℕ → List Publish) (s : Startup) (n : ℕ) : ℕ :=
  s.main.pipeline.forwards +
    (((List.range (s.main.pipeline.subscribed + n)).drop s.replied).flatMap replies).length

/-- The driver is there, and when it has taken some more of the subscriptions there can be more
messages to forward and more requests than the channels hold. -/
structure Choked (replies : ℕ → List Publish) (s : Startup) : Prop where
  driver : s.main.pipeline.driver ≠ .returned
  load : ∃ n ≤ s.main.pipeline.subscriptions, incomingCapacity < s.forwards replies n ∧
    requestCapacity + n < s.main.pipeline.demand

/-- A reply only moves messages from the broker to the driver. -/
theorem forwards_of_reply {n : ℕ} (hlt : s.replied < s.main.pipeline.subscribed)
    (hp : s'.main.pipeline = { s.main.pipeline with
      deliveries := s.main.pipeline.deliveries ++ replies s.replied })
    (hreplied : s'.replied = s.replied + 1) : s'.forwards replies n = s.forwards replies n := by
  have hrange : s.replied < (List.range (s.main.pipeline.subscribed + n)).length := by
    rw [List.length_range]
    omega
  have hsubscribed : s'.main.pipeline.subscribed = s.main.pipeline.subscribed := by rw [hp]; rfl
  simp only [forwards, hsubscribed, hreplied, List.drop_eq_getElem_cons hrange,
    List.getElem_range, List.flatMap_cons, List.length_append]
  simp only [hp, Pipeline.forwards, List.length_append]
  omega

/-- When the drain cannot go on it is choked. -/
theorem Draining.choked_of_final (hreg : registry.Returns)
    (hs : s.Draining cap registry replies filters)
    (hphase : s.main.pipeline.engine.phase = .draining)
    (hfinal : Final (DrainStep cap registry replies) s) : s.Choked replies := by
  have hcoherent := hs.reachable.coherent
  obtain ⟨-, ⟨m, hdriver⟩, hincoming, hdemand⟩ := Pipeline.blocked_of_final hreg
    hcoherent.pipeline.engine hs.reachable.held hcoherent.dropped hphase fun p hstep => by
      by_contra hne
      have hmain := Main.Step.running (hs.reachable.awaits hphase) hstep
      exact hfinal _ ⟨hphase, .up (.main hmain), hne⟩
  refine ⟨by simp [hdriver], 0, Nat.zero_le _, ?_, by omega⟩
  simp only [forwards, Pipeline.forwards, hdriver, Driver.holding, Option.toList_some,
    List.length_singleton]
  omega

/-- The drain does not come to be choked if it is not. -/
theorem DrainStep.choked_of_choked (h : DrainStep cap registry replies s s')
    (hreg : registry.Returns) (hs : s.Draining cap registry replies filters)
    (hchoked : s'.Choked replies) : s.Choked replies := by
  obtain ⟨hdriver, n, hn, hforwards, hdemand⟩ := hchoked
  rcases h.step.of_draining hs.reachable h.draining with ⟨p, hstep, rfl, hreplied⟩ |
    ⟨hlt, hp, hreplied⟩ | ⟨_, hp, hreplied⟩ | ⟨-, hp⟩
  · obtain ⟨hdriver', hsame, ⟨r, hbuf, htaken, hdemand'⟩ | ⟨htaken, hsubs, hdemand'⟩⟩ :=
      hstep.load_cases hreg hs.reachable.coherent.pipeline.engine h.draining h.ne_timedOut hdriver
    · -- taking a subscription is counted in advance
      have hsubscribed : s'.main.pipeline.subscribed =
          s.main.pipeline.subscribed + (r.asSubscribe.toList).length := by
        cases r <;> simp [Pipeline.subscribed, htaken, List.filterMap_cons, Request.asSubscribe]
      have hsubs : s.main.pipeline.subscriptions =
          s'.main.pipeline.subscriptions + (r.asSubscribe.toList).length := by
        cases r <;> simp [Pipeline.subscriptions, hbuf, List.filterMap_cons, Request.asSubscribe]
      have hone : (r.asSubscribe.toList).length ≤ 1 := by cases r <;> simp [Request.asSubscribe]
      refine ⟨hdriver', n + (r.asSubscribe.toList).length, by omega, ?_, by omega⟩
      rw [forwards, hsame, hreplied, hsubscribed, Nat.add_assoc, Nat.add_comm _ n] at hforwards
      exact hforwards
    · refine ⟨hdriver', n, hsubs ▸ hn, ?_, by omega⟩
      rw [forwards, hsame, hreplied, Pipeline.subscribed, htaken] at hforwards
      exact hforwards
  · rw [forwards_of_reply hlt hp hreplied] at hforwards
    rw [hp] at hdriver hn hdemand
    exact ⟨hdriver, n, hn, hforwards, hdemand⟩
  · rw [forwards, hp, hreplied] at hforwards
    rw [hp] at hdriver hn hdemand
    exact ⟨hdriver, n, hn, hforwards, hdemand⟩
  · rw [hp] at hdriver
    exact absurd rfl hdriver

/-! ## A run that gets there -/

/-- The subscriptions stand in front of the other requests. -/
theorem LossyReachable.head_of_subscriptions
    (h : s.LossyReachable cap registry replies filters)
    (hpos : 0 < s.main.pipeline.subscriptions) :
    ∃ filter rest, s.main.pipeline.requests.buf = .subscribe filter :: rest := by
  obtain ⟨subs, hwired⟩ := h.wired
  have hsent := hwired.sent
  have hpublishes : (s.main.pipeline.handed.map Request.ofPublish).filterMap Request.asSubscribe =
      [] := by
    simp [List.filterMap_map, Function.comp_def, Request.asSubscribe, Request.ofPublish]
  rw [Pipeline.subscriptions, List.length_pos_iff] at hpos
  rw [Pipeline.sent, List.append_eq_append_iff] at hsent
  rcases hsent with ⟨l, hsubs, hbuf⟩ | ⟨l, -, hhanded⟩
  · cases l with
    | nil =>
      rw [hbuf, List.nil_append] at hpos
      exact absurd hpublishes hpos
    | cons r l =>
      have hr : r ∈ subs.map Request.subscribe := by
        rw [hsubs]
        simp
      obtain ⟨filter, -, rfl⟩ := List.mem_map.mp hr
      exact ⟨filter, _, hbuf⟩
  · rw [hhanded, List.filterMap_append, List.append_eq_nil_iff] at hpublishes
    exact absurd hpublishes.2 hpos

/-- A choked drain is blocked, or the broker or the driver takes a step that leaves it choked. -/
theorem Draining.blocked_or_step (hs : s.Draining cap registry replies filters)
    (hphase : s.main.pipeline.engine.phase = .draining) (hchoked : s.Choked replies) :
    s.main.pipeline.Blocked ∨ ∃ s', LossyStep cap registry replies s s' ∧
      s'.main.pipeline.engine = s.main.pipeline.engine ∧ s'.Choked replies := by
  obtain ⟨hdriver, n, hn, hforwards, hdemand⟩ := hchoked
  have hrunning : ∀ {p}, Pipeline.Step cap registry s.main.pipeline p →
      LossyStep cap registry replies s { s with main := { s.main with pipeline := p } } :=
    fun hstep => .up (.main (.running (hs.reachable.awaits hphase) hstep))
  have hbound := s.main.pipeline.incoming.bound
  cases hd : s.main.pipeline.driver with
  | returned => exact absurd hd hdriver
  | forwarding m =>
    by_cases hlt : s.main.pipeline.incoming.buf.length < incomingCapacity
    · obtain ⟨incoming, hsend⟩ :=
        Chan.exists_send (hs.reachable.held.incoming (Or.inr hphase)) hlt m
      obtain ⟨-, -, hbuf, -, -⟩ := Chan.send_eq_some_iff.mp hsend
      refine Or.inr ⟨_, hrunning (.forward hd hsend), rfl, by simp, n, hn, ?_, hdemand⟩
      simp only [forwards, Pipeline.forwards, Pipeline.subscribed, hd, Driver.holding,
        Option.toList_some, List.length_singleton] at hforwards
      simp only [forwards, Pipeline.forwards, Pipeline.subscribed, hbuf, Driver.holding,
        Option.toList_none, List.length_nil, List.length_append, List.length_singleton]
      omega
    · exact Or.inl ⟨hphase, ⟨m, hd⟩, by omega, by omega⟩
  | polling =>
    refine Or.inr ?_
    cases n with
    | succ n =>
      -- the next request is a subscription
      obtain ⟨filter, rest, hbuf⟩ := hs.reachable.head_of_subscriptions (by omega)
      obtain ⟨requests, hrecv, hrest, -⟩ := Chan.exists_recv hbuf
      have hsubs : (requests.buf.filterMap Request.asSubscribe).length + 1 =
          s.main.pipeline.subscriptions := by
        simp [Pipeline.subscriptions, hbuf, hrest, Request.asSubscribe]
      refine ⟨_, hrunning (.pollRequest hd hrecv), rfl, by simp [hd], n, ?_, ?_, ?_⟩
      · rw [← hsubs] at hn
        exact Nat.le_of_succ_le_succ hn
      · simpa [forwards, Pipeline.forwards, Pipeline.subscribed, Request.asSubscribe,
          Nat.add_comm n 1, ← Nat.add_assoc] using hforwards
      · simp only [Pipeline.demand, hbuf, hrest, List.length_cons] at hdemand ⊢
        omega
    | zero =>
      cases hdel : s.main.pipeline.deliveries with
      | cons m rest =>
        refine ⟨_, hrunning (.pollPublish hd hdel), rfl, by simp, 0, hn, ?_, hdemand⟩
        simp only [forwards, Pipeline.forwards, Pipeline.subscribed, hd, hdel, Driver.holding,
          Option.toList_none, List.length_nil, List.length_cons] at hforwards
        simp only [forwards, Pipeline.forwards, Pipeline.subscribed, Driver.holding,
          Option.toList_some, List.length_singleton]
        omega
      | nil =>
        -- what there is still to forward comes with a reply
        have hlt : s.replied < s.main.pipeline.subscribed := by
          by_contra hge
          rw [forwards, Nat.add_zero, List.drop_eq_nil_of_le (by simpa using hge),
            List.flatMap_nil, List.length_nil, Pipeline.forwards, hd, hdel] at hforwards
          simp only [Driver.holding, Option.toList_none, List.length_nil] at hforwards
          omega
        refine ⟨_, .up (.reply hlt), rfl, hdriver, 0, hn, ?_, hdemand⟩
        rw [forwards_of_reply hlt rfl rfl]
        exact hforwards

/-- The broker replies and the driver takes subscriptions and forwards until there is no more
room. -/
theorem exists_run_blocked (hs : s.Draining cap registry replies filters)
    (hphase : s.main.pipeline.engine.phase = .draining) (hchoked : s.Choked replies) :
    ∃ s', ReflTransGen (DrainStep cap registry replies) s s' ∧
      s'.Draining cap registry replies filters ∧ s'.main.pipeline.Blocked := by
  induction hn : s.potential registry replies filters using Nat.strongRecOn generalizing s with
  | _ n ih =>
    subst hn
    rcases hs.blocked_or_step hphase hchoked with hblocked | ⟨s', hstep, heq, hchoked'⟩
    · exact ⟨s, .refl, hs, hblocked⟩
    · -- the step leads to a state with less potential
      have hdrain : DrainStep cap registry replies s s' := ⟨hphase, hstep, by simp [heq, hphase]⟩
      obtain ⟨s'', hrun, hs'', hblocked⟩ := ih _ (descends_drainStep.lt hs hdrain)
        (hdrain.keeps_draining hs) (by rw [heq, hphase]) hchoked' rfl
      exact ⟨s'', .head hdrain hrun, hs'', hblocked⟩

/-- No step of the drain gets the driver out of there. -/
theorem DrainStep.blocked (h : DrainStep cap registry replies s s') (hreg : registry.Returns)
    (hs : s.Draining cap registry replies filters) (hblocked : s.main.pipeline.Blocked) :
    s'.main.pipeline.Blocked := by
  rcases h.step.of_draining hs.reachable h.draining with ⟨p, hstep, rfl, -⟩ | ⟨-, hp, -⟩ |
    ⟨_, hp, -⟩ | ⟨hpolling, -⟩
  · exact hstep.blocked hreg hs.reachable.coherent.pipeline.engine hs.reachable.held h.ne_timedOut
      hblocked
  · rw [hp]
    exact ⟨hblocked.phase, hblocked.driver, hblocked.incoming, hblocked.demand⟩
  · rw [hp]
    exact ⟨hblocked.phase, hblocked.driver, hblocked.incoming, hblocked.demand⟩
  · obtain ⟨m, hdriver⟩ := hblocked.driver
    rw [hdriver] at hpolling
    cases hpolling

/-- From such a state the drain can only be saved by its timeout. -/
theorem exists_final_blocked (hreg : registry.Returns)
    (hs : s.Draining cap registry replies filters) (hblocked : s.main.pipeline.Blocked) :
    ∃ s', ReflTransGen (DrainStep cap registry replies) s s' ∧
      Final (DrainStep cap registry replies) s' ∧
      s'.main.pipeline.engine.phase = .draining := by
  obtain ⟨s', hrun, hfinal⟩ := descends_drainStep.exists_final hs
  refine ⟨s', hrun, hfinal, ?_⟩
  have hend : s'.Draining cap registry replies filters ∧ s'.main.pipeline.Blocked := by
    clear hfinal
    induction hrun with
    | refl => exact ⟨hs, hblocked⟩
    | tail _ hstep ih => exact ⟨hstep.keeps_draining ih.1, hstep.blocked hreg ih.1 ih.2⟩
  exact hend.2.phase

/-- The drain ends with the engine returned, in every run, exactly if it is not choked. -/
theorem Draining.completes_iff (hreg : registry.Returns)
    (hs : s.Draining cap registry replies filters)
    (hphase : s.main.pipeline.engine.phase = .draining) :
    (∀ s', ReflTransGen (DrainStep cap registry replies) s s' →
      Final (DrainStep cap registry replies) s' →
      s'.main.pipeline.engine.phase = .returned) ↔ ¬ s.Choked replies := by
  constructor
  · intro hall hchoked
    obtain ⟨t, hrun, ht, hblocked⟩ := exists_run_blocked hs hphase hchoked
    obtain ⟨t', hrun', hfinal, hphase'⟩ := exists_final_blocked hreg ht hblocked
    rw [hall t' (hrun.trans hrun') hfinal] at hphase'
    cases hphase'
  · intro hnot s' hrun hfinal
    have hs' := descends_drainStep.of_run hs hrun
    rcases hs'.phase with hdraining | hreturned
    · -- the last state is choked, and so were those before
      refine absurd ?_ hnot
      have hchoked := hs'.choked_of_final hreg hdraining hfinal
      clear hfinal hs' hdraining
      induction hrun with
      | refl => exact hchoked
      | tail hrun hstep ih =>
        exact ih (hstep.choked_of_choked hreg (descends_drainStep.of_run hs hrun) hchoked)
    · exact hreturned

/-- However the loop of the engine has ended, and whatever the broker replies meanwhile and whether
or not the connection is lost: every run of the drain can be continued to an end. In every run it
ends by itself, without its timeout, exactly if the driver has returned, or, for any number `n` of
the subscriptions that are still in the request channel, the messages that the driver may still
forward once it has taken these fit into the channel of incoming messages, or the other requests in
the channel and those of the tasks fit into the request channel. -/
theorem drain_completes_iff (hreg : registry.Returns)
    (hs : s.LossyReachable cap registry replies filters)
    (hphase : s.main.pipeline.engine.phase = .draining) :
    (∀ p, ReflTransGen (DrainStep cap registry replies) s p →
      ∃ p', ReflTransGen (DrainStep cap registry replies) p p' ∧
        Final (DrainStep cap registry replies) p') ∧
    ((∀ p, ReflTransGen (DrainStep cap registry replies) s p →
      Final (DrainStep cap registry replies) p → p.main.pipeline.engine.phase = .returned) ↔
      s.main.pipeline.driver = .returned ∨ ∀ n ≤ s.main.pipeline.subscriptions,
        s.forwards replies n ≤ incomingCapacity ∨
          s.main.pipeline.demand ≤ requestCapacity + n) := by
  have hdraining : s.Draining cap registry replies filters := ⟨hs, Or.inl hphase⟩
  refine ⟨fun p hrun => descends_drainStep.exists_final
    (descends_drainStep.of_run hdraining hrun), ?_⟩
  rw [hdraining.completes_iff hreg hphase]
  constructor
  · intro hnot
    by_contra hno
    push Not at hno
    obtain ⟨hdriver, hload⟩ := hno
    exact hnot ⟨hdriver, hload⟩
  · rintro h ⟨hdriver, n, hn, hforwards, hdemand⟩
    rcases h with h | h
    · exact hdriver h
    · rcases h n hn with h | h
      · exact absurd h (Nat.not_le_of_lt hforwards)
      · exact absurd h (Nat.not_le_of_lt hdemand)

open Config in
/-- A run that is interrupted while a message is decoded and a subscription waits for the driver. -/
theorem exists_run_interrupted :
    ∃ s : Startup,
      s.LossyReachable 1 devicesRegistry (fun _ => [binaryMessage]) ["devices/#", "other"] ∧
      s.main.pipeline.engine.phase = .draining ∧ s.main.pipeline.engine.pending = 1 ∧
      s.main.pipeline.subscriptions = 1 ∧ s.main.pipeline.demand = 2 := by
  have hfirst : LossyReachable 1 devicesRegistry (fun _ => [binaryMessage])
      ["devices/#", "other"] _ :=
    .tail (.single (.up (.main (.subscribe rfl rfl))))
      (.up (.main (.connected rfl (.pollRequest rfl rfl) rfl)))
  have hsubscribed := hfirst.tail (.up (.main (.subscribe rfl rfl)))
  have hdelivered := hsubscribed.tail (.up (.reply (by decide)))
  have hforwarded :=
    (hdelivered.tail (.up (.main (.connected rfl (.pollPublish rfl rfl) rfl)))).tail
      (.up (.main (.connected rfl (.forward rfl rfl) rfl)))
  have hreceived := LossyReachable.running
    (hforwarded.tail (.up (.main (.spawn rfl)))) rfl (.recv rfl (.spawn rfl rfl rfl))
  -- Ctrl+C ends the loop
  have hinterrupted := (hreceived.tail (.up (.main (.ctrlC rfl .cancel)))).tail
    (.up (.main (.running (Or.inr rfl) (.engine (.cancelled rfl rfl rfl)))))
  exact ⟨_, hinterrupted, rfl, rfl, rfl, rfl⟩

open Config in
/-- It drains by itself, whether or not the broker replies to the subscription meanwhile. -/
theorem drain_completes_interrupted :
    ∃ s : Startup,
      s.LossyReachable 1 devicesRegistry (fun _ => [binaryMessage]) ["devices/#", "other"] ∧
      s.main.pipeline.engine.phase = .draining ∧ s.main.pipeline.engine.pending = 1 ∧
      s.main.pipeline.subscriptions = 1 ∧
      ¬ ∃ p, ReflTransGen (DrainStep 1 devicesRegistry fun _ => [binaryMessage]) s p ∧
        Final (DrainStep 1 devicesRegistry fun _ => [binaryMessage]) p ∧
        p.main.pipeline.engine.phase ≠ .returned := by
  have hreg := (Config.builtin_of_buildRegistry buildRegistry_devicesConfig).returns
  obtain ⟨s, hs, hphase, hpending, hsubscriptions, hdemand⟩ := exists_run_interrupted
  refine ⟨s, hs, hphase, hpending, hsubscriptions, fun ⟨p, hrun, hfinal, hne⟩ => hne ?_⟩
  refine (drain_completes_iff hreg hs hphase).2.mpr (Or.inr fun n _ => Or.inr ?_) p hrun hfinal
  rw [hdemand]
  exact Nat.le_add_right_of_le (by decide)

end Startup

end RosettaMq
