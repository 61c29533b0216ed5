import RosettaMq.Engine.Refinement

/-!
# The running pipeline

The driver loop of `Client::connect` in `src/client.rs`, the channel of incoming messages, the
engine with its tasks, and the client's request channel. Each `poll` of the driver either takes one
request out of the request channel or yields one incoming message. The driver then forwards that
message and polls nothing else until it has done so.

The connection to the broker is taken to stay up, so `poll` returns no error. The topics published
on are taken to contain no wildcards, so that the client never refuses a message because of its
topic. With the built-in decoders this is so if the topics of the broker's messages contain none
(`Startup.validTopic_of_mem_log`).
-/

open Relation

namespace RosettaMq

/-- The capacity of the client's request channel, as given to `AsyncClient::new`. -/
abbrev requestCapacity : ℕ := 100

/-- The capacity of the channel of incoming messages. -/
abbrev incomingCapacity : ℕ := 100

/-- A request of the client. -/
inductive Request where
  | subscribe (filter : String)
  /-- The message, with the index of the task that hands it over. -/
  | publish (task : ℕ) (message : ResolvedDecodePublish)

/-- Where the driver task is. -/
inductive Driver where
  /-- In `eventloop.poll()`. -/
  | polling
  /-- In `tx.send(publish)`. -/
  | forwarding (publish : Publish)
  | returned

/-- The state of the pipeline. The fields `handed` and `taken` record what has happened. -/
structure Pipeline where
  /-- What the broker still delivers. -/
  deliveries : List Publish
  driver : Driver
  incoming : Chan Publish incomingCapacity
  engine : EngineState
  requests : Chan Request requestCapacity
  /-- The messages for which `publish` has returned `Ok`. -/
  handed : List (ℕ × ResolvedDecodePublish)
  /-- The requests the driver has taken. -/
  taken : List Request

namespace Pipeline

variable (cap : ℕ) (registry : DecoderRegistry)

/-- One step of the driver, of the engine, or of a task. The refusal of a topic with wildcards is
left out of the failures of `publish`, as no message is on one. -/
inductive Step : Pipeline → Pipeline → Prop
  /-- `poll` takes a request. -/
  | pollRequest {s r requests} :
      s.driver = .polling → s.requests.recv = some (some r, requests) →
      Step s { s with requests := requests, taken := s.taken ++ [r] }
  /-- `poll` yields an incoming message. -/
  | pollPublish {s m rest} :
      s.driver = .polling → s.deliveries = m :: rest →
      Step s { s with deliveries := rest, driver := .forwarding m }
  | forward {s m incoming} :
      s.driver = .forwarding m → s.incoming.send m = some incoming →
      Step s { s with driver := .polling, incoming := incoming }
  /-- `send` fails, and the driver returns. This drops the event loop. -/
  | forwardFails {s m} :
      s.driver = .forwarding m → s.incoming.rxOpen = false →
      Step s { s with
        driver := .returned, incoming := s.incoming.closeTx, requests := s.requests.closeRx }
  /-- The engine takes from `incoming`. -/
  | recv {s message incoming engine} :
      s.incoming.recv = some (message, incoming) →
      EngineState.Step cap registry s.engine (.recv message) engine →
      Step s { s with incoming := incoming, engine := engine }
  /-- A task hands a message to the client, which puts it into the request channel. -/
  | publish {s i r engine requests} :
      s.requests.send (.publish i r) = some requests →
      EngineState.Step cap registry s.engine (.publish i r) engine →
      Step s { s with engine := engine, requests := requests, handed := s.handed ++ [(i, r)] }
  /-- The client refuses a message because the event loop is gone. -/
  | publishFails {s i r engine} :
      s.requests.rxOpen = false →
      EngineState.Step cap registry s.engine (.publish i r) engine →
      Step s { s with engine := engine }
  /-- The engine takes any other step. -/
  | engine {s engine} :
      EngineState.Silent cap registry s.engine engine → Step s { s with engine := engine }
  /-- The engine has returned, which drops `incoming`. -/
  | dropIncoming {s} :
      s.engine.phase = .returned ∨ s.engine.phase = .timedOut →
      Step s { s with incoming := s.incoming.closeRx }

/-- The pipeline before its first step, with what the broker will deliver. The driver has taken the
subscriptions and the broker has yet to reply to them, so both channels are empty. -/
def start (deliveries : List Publish) : Pipeline :=
  ⟨deliveries, .polling, .new, .init, .new, [], []⟩

/-- The states of the runs of the pipeline. -/
def Reachable (deliveries : List Publish) (s : Pipeline) : Prop :=
  ReflTransGen (Step cap registry) (start deliveries) s

variable {cap registry} {s s' : Pipeline} {deliveries : List Publish}

/-- A step of the pipeline is a step of the engine, or leaves it as it is. -/
theorem Step.engine_cases (h : Step cap registry s s') :
    s'.engine = s.engine ∨ EngineState.Next cap registry s.engine s'.engine := by
  cases h with
  | pollRequest | pollPublish | forward | forwardFails | dropIncoming => exact Or.inl rfl
  | recv _ h | publish _ h | publishFails _ h | engine h => exact Or.inr ⟨_, h⟩

/-- A step of the pipeline continues a run of the engine. -/
theorem Step.engine_reachable (h : Step cap registry s s') (hs : s.engine.Reachable cap registry) :
    s'.engine.Reachable cap registry := by
  rcases h.engine_cases with heq | hnext
  · rw [heq]
    exact hs
  · exact hs.tail hnext

/-- A run of the pipeline is a run of the engine. -/
theorem Reachable.engine (h : s.Reachable cap registry deliveries) :
    s.engine.Reachable cap registry := by
  induction h with
  | refl => exact .refl
  | tail _ hstep ih => exact hstep.engine_reachable ih

/-- Nothing has ended: the engine is in its loop, its token is not cancelled, and no side of a
channel is closed. -/
structure Running (s : Pipeline) : Prop where
  phase : s.engine.phase = .looping
  shutdown : s.engine.shutdown = false
  driver : s.driver ≠ .returned
  incoming_tx : s.incoming.txOpen = true
  incoming_rx : s.incoming.rxOpen = true
  requests_rx : s.requests.rxOpen = true

/-- As long as the token is not cancelled from outside, nothing ends. -/
theorem Step.running (h : Step cap registry s s') (hs : s.Running) : s'.Running := by
  obtain ⟨hphase, hshutdown, hdriver, htx, hrx, hreq⟩ := hs
  cases h with
  | pollRequest _ hrecv =>
    obtain ⟨-, -, hrx'⟩ := Chan.recv_eq_some_iff.mp hrecv
    exact ⟨hphase, hshutdown, hdriver, htx, hrx, hrx'.trans hreq⟩
  | pollPublish => exact ⟨hphase, hshutdown, nofun, htx, hrx, hreq⟩
  | forward _ hsend =>
    obtain ⟨-, -, -, htx', hrx'⟩ := Chan.send_eq_some_iff.mp hsend
    exact ⟨hphase, hshutdown, nofun, htx'.trans htx, hrx'.trans hrx, hreq⟩
  | forwardFails _ hclosed =>
    -- the engine holds the receiver until it returns
    rw [hrx] at hclosed
    cases hclosed
  | recv hrecv hstep =>
    rename_i message _ _
    cases message with
    | none =>
      -- the driver holds the sender until it returns
      obtain ⟨-, hclosed, -⟩ := Chan.recv_eq_none_iff.mp hrecv
      rw [htx] at hclosed
      cases hclosed
    | some m =>
      obtain ⟨-, htx', hrx'⟩ := Chan.recv_eq_some_iff.mp hrecv
      obtain ⟨-, -, hphase', hshutdown', -⟩ := hstep.of_recv_some
      exact ⟨hphase'.trans hphase, hshutdown'.trans hshutdown, hdriver, htx'.trans htx,
        hrx'.trans hrx, hreq⟩
  | publish hsend hstep =>
    obtain ⟨_, _, _, _, -, -, rfl⟩ := hstep.of_publish
    obtain ⟨-, -, -, -, hrx'⟩ := Chan.send_eq_some_iff.mp hsend
    exact ⟨hphase, hshutdown, hdriver, htx, hrx, hrx'.trans hreq⟩
  | publishFails hclosed =>
    rw [hreq] at hclosed
    cases hclosed
  | engine hstep =>
    rcases hstep.of_looping hphase hshutdown with
      ⟨_, _, _, -, -, rfl⟩ | ⟨_, _, _, _, _, -, -, rfl⟩ <;>
    exact ⟨hphase, hshutdown, hdriver, htx, hrx, hreq⟩
  | dropIncoming hended =>
    rw [hphase] at hended
    rcases hended with h | h <;> cases h

theorem Reachable.running (h : s.Reachable cap registry deliveries) : s.Running := by
  induction h with
  | refl => exact ⟨rfl, rfl, nofun, rfl, rfl, rfl⟩
  | tail _ hstep ih => exact hstep.running ih

/-- The driver forwards messages as long as the channel has room, whatever the engine does. -/
theorem run_forward {rest : List Publish} : ∀ (messages : List Publish) {s : Pipeline},
    s.driver = .polling → s.deliveries = messages ++ rest → s.incoming.rxOpen = true →
    s.incoming.buf.length + messages.length ≤ incomingCapacity →
    ∃ incoming, incoming.buf.length = s.incoming.buf.length + messages.length ∧
      ReflTransGen (fun s s' => Step cap registry s s' ∧ s'.engine = s.engine) s
        { s with deliveries := rest, incoming := incoming } := by
  intro messages
  induction messages with
  | nil =>
    intro s _ hdeliveries _ _
    refine ⟨s.incoming, rfl, ?_⟩
    rw [← show s.deliveries = rest from hdeliveries]
  | cons m messages ih =>
    intro s hdriver hdeliveries hrx hle
    rw [List.length_cons] at hle
    obtain ⟨incoming, hsend⟩ := Chan.exists_send hrx (by omega) m
    obtain ⟨-, -, hbuf, -, hrx'⟩ := Chan.send_eq_some_iff.mp hsend
    have hlen : incoming.buf.length = s.incoming.buf.length + 1 := by rw [hbuf]; simp
    obtain ⟨incoming', hlen', hrun⟩ :=
      @ih { s with deliveries := messages ++ rest, incoming := incoming } hdriver rfl
        (hrx'.trans hrx) (by dsimp only; omega)
    refine ⟨incoming', ?_, ?_⟩
    · dsimp only at hlen'
      rw [hlen', hlen, List.length_cons]
      omega
    · -- polled, then forwarded
      refine .head ⟨.pollPublish hdriver hdeliveries, rfl⟩ (.head ⟨.forward rfl hsend, rfl⟩ ?_)
      rw [← hdriver]
      exact hrun

end Pipeline

end RosettaMq
