import RosettaMq.Client.Shutdown

/-!
# The startup of `main`

`Client::subscribe_all` runs to its end before the engine is spawned. Meanwhile the driver takes its
requests and forwards what the broker delivers in reply, and nobody receives from the channel of
incoming messages. Whether this can get stuck depends on how many messages come in reply to the
first subscriptions (`Startup.never_stuck_iff`).
-/

open Relation

namespace RosettaMq

/-- The filter of a subscription. -/
def Request.asSubscribe : Request → Option String
  | .subscribe filter => some filter
  | .publish .. => none

/-- `main` and the broker. The field `replied` counts the subscriptions the broker has replied to,
in the order in which the driver took them. -/
structure Startup where
  main : Main
  replied : ℕ

namespace Startup

variable (cap : ℕ) (registry : DecoderRegistry) (replies : ℕ → List Publish)

/-- One step of `main`, of what it has spawned, or of the broker. What the broker delivers in reply
to the subscription number `i` is `replies i`. -/
inductive Step : Startup → Startup → Prop
  | main {s main} : Main.Step cap registry s.main main → Step s { s with main := main }
  | reply {s} :
      s.replied < (s.main.pipeline.taken.filterMap Request.asSubscribe).length →
      Step s
        { main := { s.main with pipeline := { s.main.pipeline with
            deliveries := s.main.pipeline.deliveries ++ replies s.replied } }
          replied := s.replied + 1 }

/-- `main` after `Client::connect`, when the broker delivers nothing yet. -/
def start (filters : List String) : Startup := ⟨.start filters [], 0⟩

/-- The states of the runs from there. -/
def Reachable (filters : List String) (s : Startup) : Prop :=
  ReflTransGen (Step cap registry replies) (start filters) s

/-- There are filters left, `subscribe_all` waits for room in the request channel, and the driver
waits for room in the channel of incoming messages. -/
structure Stuck (s : Startup) : Prop where
  phase : ∃ filter filters, s.main.phase = .subscribing (filter :: filters)
  requests : s.main.pipeline.requests.buf.length = requestCapacity
  driver : ∃ m, s.main.pipeline.driver = .forwarding m
  incoming : s.main.pipeline.incoming.buf.length = incomingCapacity

variable {cap registry replies} {s s' : Startup} {filters left : List String}

/-! ## What every run keeps -/

/-- There is no engine yet and nothing has ended. The requests so far and the filters left are those
of all filters, and the messages on their way are those of the replies. -/
structure Subscribing (replies : ℕ → List Publish) (filters left : List String) (s : Startup) :
    Prop where
  requests : s.main.pipeline.taken ++ s.main.pipeline.requests.buf ++ left.map .subscribe =
    filters.map Request.subscribe
  replied : s.replied ≤ s.main.pipeline.taken.length
  inOrder : s.main.pipeline.InOrder ((List.range s.replied).flatMap replies)
  engine : s.main.pipeline.engine = .init
  running : s.main.pipeline.Running

/-- Without an engine the driver takes requests, and nobody else adds or removes any. -/
theorem requests_of_step {p p' : Pipeline} (h : Pipeline.Step cap registry p p')
    (hp : p.engine = .init) :
    p'.taken ++ p'.requests.buf = p.taken ++ p.requests.buf ∧ p.taken.length ≤ p'.taken.length := by
  cases h with
  | pollRequest _ hrecv =>
    obtain ⟨hbuf, -, -⟩ := Chan.recv_eq_some_iff.mp hrecv
    simp [hbuf]
  | publish _ hstep =>
    -- a publish would be that of a task
    obtain ⟨l₁, l₂, _, _, htasks, -, -⟩ := hstep.of_publish
    rw [hp] at htasks
    simp [EngineState.init] at htasks
  | pollPublish | forward | forwardFails | recv | publishFails | engine | dropIncoming =>
    exact ⟨rfl, Nat.le_refl _⟩

theorem inOrder_append_deliveries {p : Pipeline} {deliveries : List Publish} (rest : List Publish)
    (hp : p.InOrder deliveries) :
    ({ p with deliveries := p.deliveries ++ rest } : Pipeline).InOrder (deliveries ++ rest) := by
  obtain ⟨hall, hpre⟩ := hp
  refine ⟨fun hdriver => ?_, hpre.trans (List.prefix_append _ _)⟩
  rw [← hall hdriver]
  simp [Pipeline.messages]

/-- Every step keeps this while `main` subscribes. -/
theorem Step.subscribing (h : Step cap registry replies s s')
    (hs : ∀ left, s.main.phase = .subscribing left → s.Subscribing replies filters left) :
    ∀ left, s'.main.phase = .subscribing left → s'.Subscribing replies filters left := by
  intro left hleft
  cases h with
  | reply hlt =>
    -- the messages come in reply to a subscription that was taken
    obtain ⟨hrequests, hreplied, hinOrder, hengine, hrunning⟩ := hs left hleft
    refine ⟨hrequests, ?_, ?_, hengine, ?_⟩
    · exact Nat.succ_le_of_lt (Nat.lt_of_lt_of_le hlt (List.length_filterMap_le _ _))
    · rw [List.range_succ, List.flatMap_append, List.flatMap_singleton]
      exact inOrder_append_deliveries _ hinOrder
    · obtain ⟨hphase, hshutdown, hdriver, htx, hrx, hreq⟩ := hrunning
      exact ⟨hphase, hshutdown, hdriver, htx, hrx, hreq⟩
  | main hmain =>
    cases hmain with
    | subscribe hphase hsend =>
      -- the first filter that is left becomes the last request in the channel
      obtain ⟨-, -, hbuf, -, hrx'⟩ := Chan.send_eq_some_iff.mp hsend
      obtain ⟨hrequests, hreplied, ⟨hall, hpre⟩, hengine, hrunning⟩ := hs _ hphase
      obtain rfl := MainPhase.subscribing.inj hleft
      refine ⟨?_, hreplied, ⟨hall, hpre⟩, hengine, ?_⟩
      · simpa [hbuf] using hrequests
      · obtain ⟨hphase, hshutdown, hdriver, htx, hrx, hreq⟩ := hrunning
        exact ⟨hphase, hshutdown, hdriver, htx, hrx, hrx'.trans hreq⟩
    | connected hphase hstep hsame =>
      obtain rfl := MainPhase.subscribing.inj (hphase.symm.trans hleft)
      obtain ⟨hrequests, hreplied, hinOrder, hengine, hrunning⟩ := hs _ hphase
      obtain ⟨hkept, hle⟩ := requests_of_step hstep hengine
      exact ⟨by rw [hkept]; exact hrequests, hreplied.trans hle, hstep.inOrder hinOrder,
        hsame.trans hengine, hstep.running hrunning⟩
    | running hphase =>
      -- `main` has left the subscriptions behind
      rw [show s.main.phase = _ from hleft] at hphase
      rcases hphase with h | h <;> cases h
    | subscribeFails | spawn | driverReturned | ctrlC | joined => cases hleft

theorem Reachable.subscribing (h : s.Reachable cap registry replies filters) :
    ∀ left, s.main.phase = .subscribing left → s.Subscribing replies filters left := by
  induction h with
  | refl =>
    intro left hleft
    obtain rfl := MainPhase.subscribing.inj hleft
    exact ⟨by simp [start, Main.start, Pipeline.start], Nat.le_refl _,
      ⟨fun _ => rfl, List.nil_prefix⟩, rfl, ⟨rfl, rfl, nofun, rfl, rfl, rfl⟩⟩
  | tail _ hstep ih => exact hstep.subscribing ih

/-- A stuck state has more replies than the channel of incoming messages holds, to subscriptions
that at least as many filters follow as the request channel holds. -/
theorem Stuck.overload (h : s.Stuck) (hs : s.Reachable cap registry replies filters) :
    incomingCapacity <
      ((List.range (filters.length - (requestCapacity + 1))).flatMap replies).length := by
  obtain ⟨⟨filter, left, hphase⟩, hrequests, ⟨m, hdriver⟩, hincoming⟩ := h
  have hsub := hs.subscribing _ hphase
  -- the taken requests, the channel and the filters left make up all filters
  have hlen := congrArg List.length hsub.requests
  simp only [List.length_append, List.length_map, List.length_cons, hrequests] at hlen
  have hreplied : s.replied ≤ filters.length - (requestCapacity + 1) := by
    have := hsub.replied
    omega
  have hmessages := hsub.inOrder.all (by simp [hdriver])
  have hprefix : (List.range s.replied).flatMap replies <+:
      (List.range (filters.length - (requestCapacity + 1))).flatMap replies := by
    obtain ⟨k, hk⟩ := Nat.exists_eq_add_of_le hreplied
    rw [hk, List.range_add, List.flatMap_append]
    exact List.prefix_append _ _
  refine Nat.lt_of_lt_of_le ?_ hprefix.length_le
  rw [← hmessages]
  simp only [Pipeline.messages, Driver.holding, hdriver, Option.toList_some, List.length_append,
    hincoming, List.length_cons, List.length_nil]
  omega

/-- In a stuck state neither `main` nor the driver can move. -/
theorem Stuck.not_exists_step (h : s.Stuck) (hs : s.Reachable cap registry replies filters) :
    ¬ ∃ main, Main.Step cap registry s.main main := by
  obtain ⟨⟨filter, left, hphase⟩, hrequests, ⟨m, hdriver⟩, hincoming⟩ := h
  obtain ⟨-, -, -, hengine, hrunning⟩ := hs.subscribing _ hphase
  rintro ⟨main, hstep⟩
  cases hstep with
  | subscribe _ hsend =>
    -- the request channel is full
    obtain ⟨-, hlt, -⟩ := Chan.send_eq_some_iff.mp hsend
    omega
  | subscribeFails _ hclosed =>
    rw [hrunning.requests_rx] at hclosed
    cases hclosed
  | connected _ hstep hsame =>
    cases hstep with
    | pollRequest hpolling | pollPublish hpolling =>
      rw [hdriver] at hpolling
      cases hpolling
    | forward _ hsend =>
      -- so is the channel of incoming messages
      obtain ⟨-, hlt, -⟩ := Chan.send_eq_some_iff.mp hsend
      omega
    | forwardFails _ hclosed =>
      rw [hrunning.incoming_rx] at hclosed
      cases hclosed
    | recv hrecv hstep =>
      rename_i message _ _
      cases message with
      | none =>
        obtain ⟨-, hclosed, -⟩ := Chan.recv_eq_none_iff.mp hrecv
        rw [hrunning.incoming_tx] at hclosed
        cases hclosed
      | some m =>
        -- there is no engine that could receive
        have hreceived := hstep.received_eq
        dsimp only at hsame
        rw [hsame] at hreceived
        simp [Action.received] at hreceived
    | publish _ hstep | publishFails _ hstep =>
      obtain ⟨l₁, l₂, _, _, htasks, -, -⟩ := hstep.of_publish
      rw [hengine] at htasks
      simp [EngineState.init] at htasks
    | engine hstep =>
      rcases hstep.of_looping hrunning.phase hrunning.shutdown with
        ⟨_, _, _, htasks, -⟩ | ⟨_, _, _, _, _, htasks, -⟩ <;>
      · rw [hengine] at htasks
        simp [EngineState.init] at htasks
    | dropIncoming hended =>
      rw [hrunning.phase] at hended
      rcases hended with h | h <;> cases h
  | spawn hphase' =>
    rw [hphase] at hphase'
    cases hphase'
  | running hphase' =>
    rw [hphase] at hphase'
    rcases hphase' with h | h <;> cases h
  | driverReturned hphase' | ctrlC hphase' | joined hphase' =>
    rw [hphase] at hphase'
    cases hphase'

/-! ## A run that gets stuck -/

/-- A run of `main` while the broker is silent. -/
theorem run_main {m m' : Main} {n : ℕ} (h : ReflTransGen (Main.Step cap registry) m m') :
    ReflTransGen (Step cap registry replies) ⟨m, n⟩ ⟨m', n⟩ :=
  h.lift (fun m => (⟨m, n⟩ : Startup)) fun _ _ hstep => .main hstep

/-- The broker replies to all subscriptions it has. -/
theorem run_reply {phase : MainPhase} {p : Pipeline} {b : Bool} : ∀ n : ℕ,
    n ≤ (p.taken.filterMap Request.asSubscribe).length →
    ReflTransGen (Step cap registry replies) ⟨⟨phase, p, b⟩, 0⟩
      ⟨⟨phase, { p with deliveries := p.deliveries ++ (List.range n).flatMap replies }, b⟩, n⟩ := by
  intro n
  induction n with
  | zero =>
    intro _
    rw [List.range_zero, List.flatMap_nil, List.append_nil]
  | succ n ih =>
    intro hle
    refine (ih (Nat.le_of_succ_le hle)).tail ?_
    rw [List.range_succ, List.flatMap_append, List.flatMap_singleton, ← List.append_assoc]
    exact .reply hle

/-- `subscribe_all` fills the request channel while the driver takes nothing. -/
theorem run_fill {rest : List String} {b : Bool} : ∀ (filters : List String) {p : Pipeline},
    p.requests.rxOpen = true → p.requests.buf.length + filters.length ≤ requestCapacity →
    ∃ requests, requests.buf.length = p.requests.buf.length + filters.length ∧
      ReflTransGen (Main.Step cap registry) ⟨.subscribing (filters ++ rest), p, b⟩
        ⟨.subscribing rest, { p with requests := requests }, b⟩ := by
  intro filters
  induction filters with
  | nil => exact fun {p} _ _ => ⟨p.requests, rfl, .refl⟩
  | cons filter filters ih =>
    intro p hrx hle
    rw [List.length_cons] at hle
    obtain ⟨requests, hsend⟩ := Chan.exists_send hrx (by omega) (Request.subscribe filter)
    obtain ⟨-, -, hbuf, -, hrx'⟩ := Chan.send_eq_some_iff.mp hsend
    have hlen : requests.buf.length = p.requests.buf.length + 1 := by rw [hbuf]; simp
    obtain ⟨requests', hlen', hrun⟩ := @ih { p with requests := requests } (hrx'.trans hrx)
      (by dsimp only; omega)
    refine ⟨requests', ?_, .head (.subscribe rfl hsend) hrun⟩
    dsimp only at hlen'
    rw [hlen', hlen, List.length_cons]
    omega

/-- The driver takes some steps while there is no engine yet. -/
theorem run_connected {phase : MainPhase} {left : List String} {b : Bool} {p p' : Pipeline}
    (hphase : phase = .subscribing left)
    (h : ReflTransGen (fun p p' => Pipeline.Step cap registry p p' ∧ p'.engine = p.engine) p p') :
    ReflTransGen (Main.Step cap registry) ⟨phase, p, b⟩ ⟨phase, p', b⟩ :=
  h.lift (fun p => (⟨phase, p, b⟩ : Main)) fun _ _ hstep => .connected hphase hstep.1 hstep.2

/-- With too many replies to the first subscriptions there is a run that gets stuck. -/
theorem exists_stuck (cap : ℕ) (registry : DecoderRegistry)
    (h : incomingCapacity <
      ((List.range (filters.length - (requestCapacity + 1))).flatMap replies).length) :
    ∃ s : Startup, s.Reachable cap registry replies filters ∧ s.Stuck := by
  generalize hn : filters.length - (requestCapacity + 1) = n at h
  have hpos : n ≠ 0 := by
    rintro rfl
    simp at h
  -- the first `n` filters, then as many as fill the channel, and one more
  obtain ⟨first, fill, filter, hfilters, hfirst, hfill⟩ : ∃ first fill filter,
      filters = first ++ (fill ++ [filter]) ∧ first.length = n ∧ fill.length = requestCapacity := by
    have hlen : (filters.drop n).length = requestCapacity + 1 := by rw [List.length_drop]; omega
    obtain ⟨fill, filter, hdrop⟩ : ∃ fill filter, filters.drop n = fill ++ [filter] :=
      ⟨_, _, (List.dropLast_append_getLast (List.ne_nil_of_length_pos (by omega))).symm⟩
    rw [hdrop, List.length_append, List.length_singleton] at hlen
    refine ⟨filters.take n, fill, filter, ?_, by rw [List.length_take]; omega, by omega⟩
    rw [← hdrop, List.take_append_drop]
  obtain ⟨messages, m, rest, hreplies, hmessages⟩ : ∃ messages m rest,
      (List.range n).flatMap replies = messages ++ m :: rest ∧
        messages.length = incomingCapacity :=
    ⟨_, _, _, (List.take_append_drop incomingCapacity _).symm.trans
      (by rw [List.drop_eq_getElem_cons h]), by rw [List.length_take]; omega⟩
  have hsubscribe := @Main.run_subscribe cap registry [] (fill ++ [filter]) first []
  rw [List.nil_append, ← hfilters] at hsubscribe
  -- the broker replies before the driver polls again
  have hreply := @run_reply cap registry replies (.subscribing (fill ++ [filter]))
    { Pipeline.start [] with taken := first.map .subscribe } false n
    (by simp [List.filterMap_map, Function.comp_def, Request.asSubscribe, hfirst])
  rw [hreplies] at hreply
  obtain ⟨requests, hrequests, hrunFill⟩ := @run_fill cap registry [filter] false fill
    { Pipeline.start (messages ++ m :: rest) with taken := first.map .subscribe } rfl
    (by simp [Pipeline.start, hfill])
  obtain ⟨incoming, hincoming, hrunForward⟩ :=
    @Pipeline.run_forward cap registry (m :: rest) messages
      { Pipeline.start (messages ++ m :: rest) with
        taken := first.map .subscribe, requests := requests } rfl rfl rfl
      (by simp [Pipeline.start, hmessages])
  -- one more message is polled, and there is no room for it
  have hrun := (hrunFill.trans (run_connected rfl hrunForward)).tail
    (.connected rfl (.pollPublish rfl rfl) rfl)
  refine ⟨_, ((run_main hsubscribe).trans hreply).trans (run_main hrun), ⟨_, _, rfl⟩, ?_,
    ⟨m, rfl⟩, ?_⟩
  · simpa [Pipeline.start, hfill] using hrequests
  · simpa [Pipeline.start, hmessages] using hincoming

/-! ## The result -/

/-- The startup cannot get stuck exactly if no more messages come in reply to the first
subscriptions than the channel of incoming messages holds. These are the subscriptions that at least
as many filters follow as the request channel holds, and one more. -/
theorem never_stuck_iff (cap : ℕ) (registry : DecoderRegistry) (filters : List String)
    (replies : ℕ → List Publish) :
    (∀ s, Reachable cap registry replies filters s → ¬ s.Stuck) ↔
      ((List.range (filters.length - (requestCapacity + 1))).flatMap replies).length ≤
        incomingCapacity := by
  constructor
  · intro h
    by_contra hlt
    obtain ⟨s, hs, hstuck⟩ := exists_stuck cap registry (Nat.lt_of_not_le hlt)
    exact h s hs hstuck
  · intro hle s hs hstuck
    exact absurd hle (Nat.not_le_of_lt (hstuck.overload hs))

/-- A filter with a wildcard and 101 others. -/
def statusFilters : List String :=
  "status/#" :: (List.range 101).map fun i => "sensors/" ++ toString i

/-- The retained messages of 101 devices, all of them in reply to the first filter. -/
def statusReplies (i : ℕ) : List Publish :=
  if i = 0 then (List.range 101).map fun n =>
    ⟨false, .atLeastOnce, true, "status/" ++ toString n, n + 1, [0x31]⟩
  else []

/-- With these the startup gets stuck, even if no topic has a decoder. -/
theorem retained_burst_gets_stuck :
    ∃ s, Reachable 1 ⟨[], List.nodup_nil⟩ statusReplies statusFilters s ∧ s.Stuck :=
  exists_stuck 1 ⟨[], List.nodup_nil⟩ (by decide)

end Startup

end RosettaMq
