import Mathlib.Order.Bounds.Basic
import RosettaMq.Client.Outage

/-!
# Messages in memory

The channels of `main` are bounded "so a misbehaving decoder that streams many messages applies
backpressure instead of growing memory unbounded". How many messages the process holds at once, the
buffers of the event loop apart, is bounded by the cap and by what one task can hold, and there are
runs that reach the bound (`Startup.held_bound`).
-/

open Relation

namespace RosettaMq

/-! ## One task -/

/-- The message that a decoder holds in `send` while its channel is full. -/
def DecodeFuture.waiting (decode : DecodeFuture)
    (channel : Chan DecodePublish decodeChannelCapacity) : List DecodePublish :=
  if channel.buf.length < decodeChannelCapacity then [] else decode.sends.take 1

/-- The messages a task holds: the one it is about, the one its decoder waits to send, those in its
channel, and the one it is publishing. -/
def Frame.held : Frame → ℕ
  | .joining decode channel drain =>
      1 + (decode.waiting channel).length + channel.buf.length + drain.pending.length
  | .reporting _ => 2
  | .returned | .panicked => 0

/-- Whether an error message follows. -/
def Ending.reports : Ending → ℕ
  | .err _ => 1
  | .ok | .panic | .hang => 0

/-- The most messages a task with this run of its decoder holds at once: the one it is about, and
what the decoder sends as far as the channel, its two ends and no more take it, or an error
message. -/
def DecodeRun.peak (run : DecodeRun) : ℕ :=
  1 + max (min run.sends.length (decodeChannelCapacity + 2)) run.ending.reports

theorem Ending.length_report (ending : Ending) (m : Publish) :
    (ending.report m).length = ending.reports := by
  cases ending <;> rfl

theorem DecodeFuture.length_waiting_le (decode : DecodeFuture)
    (channel : Chan DecodePublish decodeChannelCapacity) :
    (decode.waiting channel).length ≤ min 1 decode.sends.length := by
  unfold waiting
  split_ifs
  · exact Nat.zero_le _
  · rw [List.length_take]

theorem DecodeRun.peak_le (run : DecodeRun) : run.peak ≤ decodeChannelCapacity + 3 := by
  have hreports : run.ending.reports ≤ 1 := by cases run.ending <;> simp [Ending.reports]
  unfold DecodeRun.peak
  omega

/-- A task for a built-in decoder holds its message and what is published for it. -/
theorem BuiltinDecoder.peak_eq {Message Json : Type} (d : BuiltinDecoder Message Json)
    (m : Publish) : (d.erase.decode m).peak = 2 := by
  rcases d.decode_cases m with ⟨payload, h⟩ | ⟨e, h⟩ <;> rw [h] <;> rfl

namespace Task

variable {t : Task} {d : ErasedDecoder} {m : Publish}

/-- A task whose outputs are still those of its decoder, or fewer, is within its peak. -/
theorem Sound.held_le (ht : t.Sound d) (hle : t.remaining.length ≤ (d.outputs t.message).length) :
    t.frame.held ≤ (d.decode t.message).peak := by
  obtain ⟨m, frame⟩ := t
  obtain ⟨-, hends⟩ := ht
  cases frame with
  | joining decode channel drain =>
    have hbound := channel.bound
    have hpending : drain.pending.length ≤ 1 := by cases drain <;> simp [DrainFuture.pending]
    have hwaiting := decode.length_waiting_le channel
    have hreport : (decode.report m).length = (d.decode m).ending.reports := by
      rcases decode with run | ⟨err⟩ | ⟨⟩
      · rw [DecodeFuture.report, Ending.length_report]
        exact congrArg Ending.reports hends
      · obtain ⟨e, -, herr⟩ := hends
        rw [herr]
        rfl
      · rw [show (d.decode m).ending = .ok from hends]
        rfl
    -- what the channel and the drain hold has been sent by the decoder
    simp only [remaining, Frame.remaining, ErasedDecoder.outputs, List.length_append,
      List.length_map, hreport, Ending.length_report] at hle
    simp only [Frame.held, DecodeRun.peak]
    omega
  | reporting err =>
    obtain ⟨e, -, herr⟩ := hends
    simp only [Frame.held, DecodeRun.peak, herr, Ending.reports]
    omega
  | returned | panicked => exact Nat.zero_le _

/-- With the drain in `publish` the decoder fills the channel as far as it can. -/
theorem exists_run_fill {decoded : DecodePublish} {ending : Ending} :
    ∀ (sends : List DecodePublish) {channel : Chan DecodePublish decodeChannelCapacity},
    channel.rxOpen = true →
    ∃ t', ReflTransGen Silent ⟨m, .joining (.running ⟨sends, ending⟩) channel (.publishing decoded)⟩
        t' ∧
      t'.frame.held = 2 + min (channel.buf.length + sends.length) (decodeChannelCapacity + 1)
  | [], channel, _ => by
      refine ⟨_, .refl, ?_⟩
      have hbound := channel.bound
      have hwaiting := (DecodeFuture.running ⟨[], ending⟩).length_waiting_le channel
      simp only [DecodeFuture.sends, List.length_nil] at hwaiting
      simp only [Frame.held, DrainFuture.pending, List.length_nil, List.length_singleton]
      omega
  | d :: sends, channel, hrx => by
      rcases Nat.lt_or_ge channel.buf.length decodeChannelCapacity with hlt | hge
      · obtain ⟨channel', hsend⟩ := Chan.exists_send hrx hlt d
        obtain ⟨-, -, hbuf, -, hrx'⟩ := Chan.send_eq_some_iff.mp hsend
        obtain ⟨t', hrun, hheld⟩ := exists_run_fill sends (hrx'.trans hrx)
        refine ⟨t', .head (.send hsend) hrun, ?_⟩
        rw [hheld, hbuf, List.length_append, List.length_singleton, List.length_cons]
        omega
      · -- the channel is full, and the decoder waits with its next message
        refine ⟨_, .refl, ?_⟩
        have hbound := channel.bound
        have hwaiting : (DecodeFuture.running ⟨d :: sends, ending⟩).waiting channel = [d] := by
          rw [DecodeFuture.waiting, if_neg (Nat.not_lt_of_le hge)]
          rfl
        simp only [Frame.held, hwaiting, DrainFuture.pending, List.length_cons, List.length_nil]
        omega

/-- A new task comes to its peak without publishing. -/
theorem exists_run_peak (d : ErasedDecoder) (m : Publish) :
    ∃ t', ReflTransGen Silent (decodeAndPublish d m) t' ∧
      t'.frame.held = (d.decode m).peak := by
  rcases hrun : d.decode m with ⟨_ | ⟨x, sends⟩, ending⟩
  · rw [decodeAndPublish, hrun]
    cases ending with
    | err e =>
      -- the decoder returns, the drain ends, and the error message is made
      refine ⟨⟨m, .reporting (.decode e)⟩, ?_, rfl⟩
      exact .head .err (.head (.recvNone rfl) (.single .joinErr))
    | ok | panic | hang => exact ⟨_, .refl, rfl⟩
  · obtain ⟨channel, hsend⟩ := @Chan.exists_send _ decodeChannelCapacity .new rfl (by simp) x
    obtain ⟨-, -, hbuf, -, hrx⟩ := Chan.send_eq_some_iff.mp hsend
    obtain ⟨channel', hrecv, hbuf', -, hrx'⟩ := Chan.exists_recv hbuf
    -- the drain takes the first message, and the others stay behind it
    obtain ⟨t', hfill, hheld⟩ := @exists_run_fill m x ending sends channel' (hrx'.trans hrx)
    rw [decodeAndPublish, hrun]
    refine ⟨t', .head (.send hsend) (.head (.recv hrecv) hfill), ?_⟩
    have hreports : ending.reports ≤ 1 := by cases ending <;> simp [Ending.reports]
    rw [hheld, hbuf', DecodeRun.peak]
    simp only [List.length_nil, List.length_cons]
    omega

end Task

/-! ## The pipeline -/

/-- The messages the tasks of the engine hold. -/
def EngineState.held (s : EngineState) : ℕ := (s.tasks.map (·.2.frame.held)).sum

/-- What a task in a reachable state holds is within the peak of its decoder. -/
theorem EngineState.Reachable.held_le_peak {cap : ℕ} {registry : DecoderRegistry} {s : EngineState}
    (h : s.Reachable cap registry) {x : ℕ × Task} (hx : x ∈ s.tasks) :
    ∃ d, registry.decoderFor x.2.message = some d ∧
      x.2.frame.held ≤ (d.decode x.2.message).peak := by
  obtain ⟨d, hd, hsound, hcovers⟩ := h.refines.task x hx
  refine ⟨d, hd, hsound.held_le ?_⟩
  have hlen := hcovers.isPrefix.length_le
  rw [DecoderRegistry.outputs_eq hd, List.length_append] at hlen
  omega

namespace Pipeline

variable {cap P : ℕ} {registry : DecoderRegistry} {s : Pipeline} {m : Publish}
  {d : ErasedDecoder}

/-- The messages and requests the process holds outside of the event loop: in the driver, in the
channel of incoming messages, in the tasks, and in the request channel. -/
def held (s : Pipeline) : ℕ :=
  s.driver.holding.toList.length + s.incoming.buf.length + s.engine.held + s.requests.buf.length

/-- The most messages the process holds at once, for a cap and the most that one task can hold. -/
def bound (cap P : ℕ) : ℕ := 1 + incomingCapacity + cap * P + requestCapacity

theorem held_le (h : s.engine.Reachable cap registry)
    (hP : ∀ m d, registry.decoderFor m = some d → (d.decode m).peak ≤ P) :
    s.held ≤ bound cap P := by
  have hdriver : s.driver.holding.toList.length ≤ 1 := by
    cases s.driver <;> simp [Driver.holding]
  have hincoming := s.incoming.bound
  have hrequests := s.requests.bound
  have htasks : s.engine.held ≤ cap * P := by
    calc s.engine.held ≤ (s.engine.tasks.map (·.2.frame.held)).length * P := by
          refine List.sum_le_card_nsmul _ _ fun n hn => ?_
          obtain ⟨x, hx, rfl⟩ := List.mem_map.mp hn
          obtain ⟨d, hd, hle⟩ := h.held_le_peak hx
          exact hle.trans (hP _ d hd)
      _ ≤ cap * P := by
          rw [List.length_map]
          exact Nat.mul_le_mul_right P h.accounted.tasks_le
  simp only [held, bound]
  omega

/-! ## A run that reaches the bound -/

/-- One message goes through to a task, which comes to its peak. -/
theorem exists_run_task {rest : List Publish} (hd : registry.decoderFor m = some d)
    (hdriver : s.driver = .polling) (hdeliveries : s.deliveries = m :: rest)
    (hincoming : s.incoming.buf = []) (hrx : s.incoming.rxOpen = true)
    (hphase : s.engine.phase = .looping) (hroom : s.engine.tasks.length < cap) :
    ∃ engine : EngineState, engine.phase = .looping ∧
      engine.tasks.length = s.engine.tasks.length + 1 ∧
      engine.held = s.engine.held + (d.decode m).peak ∧
      ReflTransGen (Step cap registry) s { s with deliveries := rest, engine := engine } := by
  obtain ⟨incoming, hsend⟩ := Chan.exists_send hrx (by rw [hincoming]; decide) m
  obtain ⟨-, -, hbuf, htx', hrx'⟩ := Chan.send_eq_some_iff.mp hsend
  rw [hincoming, List.nil_append] at hbuf
  obtain ⟨incoming', hrecv, hbuf', htx'', hrx''⟩ := Chan.exists_recv hbuf
  have hsame : incoming' = s.incoming :=
    Chan.ext (hbuf'.trans hincoming.symm) (htx''.trans htx') (hrx''.trans hrx')
  have hspawn : EngineState.Step cap registry s.engine (.recv (some m))
      { s.engine with
        received := s.engine.received ++ [m]
        tasks := s.engine.tasks ++ [(s.engine.received.length, decodeAndPublish d m)] } :=
    .spawn hphase (by simpa [EngineState.enabled] using hroom)
      (by rw [handleIncoming_some, hd]; rfl)
  obtain ⟨t', hsilent, hheld⟩ := Task.exists_run_peak d m
  have hrun := @run_of_silent cap registry
    { s with
      deliveries := rest
      engine := { s.engine with
        received := s.engine.received ++ [m]
        tasks := s.engine.tasks ++ [(s.engine.received.length, decodeAndPublish d m)] } }
    s.engine.tasks [] s.engine.received.length _ _ rfl hsilent
  refine ⟨{ s.engine with
    received := s.engine.received ++ [m]
    tasks := s.engine.tasks ++ [(s.engine.received.length, t')] }, hphase, ?_, ?_, ?_⟩
  · simp
  · simp [EngineState.held, hheld]
  · refine .head (.pollPublish hdriver hdeliveries) (.head (.forward rfl hsend)
      (.head (.recv hrecv hspawn) ?_))
    rw [hsame, ← hdriver]
    exact hrun

/-- So do further ones, as long as the cap allows it. -/
theorem exists_run_tasks {rest : List Publish} (hd : registry.decoderFor m = some d) :
    ∀ (n : ℕ) {s : Pipeline}, s.driver = .polling → s.deliveries = List.replicate n m ++ rest →
    s.incoming.buf = [] → s.incoming.rxOpen = true → s.engine.phase = .looping →
    s.engine.tasks.length + n ≤ cap →
    ∃ engine : EngineState, engine.held = s.engine.held + n * (d.decode m).peak ∧
      ReflTransGen (Step cap registry) s { s with deliveries := rest, engine := engine } := by
  intro n
  induction n with
  | zero =>
    intro s _ hdeliveries _ _ _ _
    refine ⟨s.engine, by rw [Nat.zero_mul, Nat.add_zero], ?_⟩
    rw [← show s.deliveries = rest from hdeliveries]
  | succ n ih =>
    intro s hdriver hdeliveries hincoming hrx hphase hroom
    have hlt : s.engine.tasks.length < cap := by omega
    obtain ⟨engine, hphase', hlen, hheld, hrun⟩ :=
      exists_run_task hd hdriver hdeliveries hincoming hrx hphase hlt
    obtain ⟨engine', hheld', hrun'⟩ := @ih
      { s with deliveries := List.replicate n m ++ rest, engine := engine } hdriver rfl hincoming
      hrx hphase' (by rw [hlen]; omega)
    refine ⟨engine', ?_, hrun.trans hrun'⟩
    rw [hheld', hheld, Nat.succ_mul]
    omega

/-- With the request channel full, a message for each task, and enough messages for the channel of
incoming ones, the bound is reached. -/
theorem exists_run_bound (hd : registry.decoderFor m = some d) (hdriver : s.driver = .polling)
    (hdeliveries : s.deliveries = List.replicate (cap + (incomingCapacity + 1)) m)
    (hincoming : s.incoming.buf = []) (hrx : s.incoming.rxOpen = true) (hengine : s.engine = .init)
    (hrequests : s.requests.buf.length = requestCapacity) :
    ∃ s', ReflTransGen (Step cap registry) s s' ∧ s'.held = bound cap (d.decode m).peak := by
  rw [List.replicate_add] at hdeliveries
  have hphase : s.engine.phase = .looping := by rw [hengine]; rfl
  have hroom : s.engine.tasks.length + cap ≤ cap := by rw [hengine]; simp [EngineState.init]
  obtain ⟨engine, hheld, hrun⟩ :=
    exists_run_tasks hd cap hdriver hdeliveries hincoming hrx hphase hroom
  obtain ⟨incoming, hlen, hrun'⟩ := @run_forward cap registry [m]
    (List.replicate incomingCapacity m)
    { s with deliveries := List.replicate (incomingCapacity + 1) m, engine := engine } hdriver
    List.replicate_succ' hrx (by simp [hincoming])
  -- the driver polls once more and waits
  have hpoll := @Step.pollPublish cap registry
    { s with deliveries := [m], engine := engine, incoming := incoming } m [] hdriver rfl
  refine ⟨_, (hrun.trans (ReflTransGen.mono (fun _ _ h => h.1) _ _ hrun')).tail hpoll, ?_⟩
  have hinit : s.engine.held = 0 := by rw [hengine]; rfl
  rw [hinit, Nat.zero_add] at hheld
  dsimp only at hlen
  rw [hincoming, List.length_nil, Nat.zero_add, List.length_replicate] at hlen
  simp only [held, Driver.holding, Option.toList_some, List.length_singleton, hlen, hheld,
    hrequests, bound]

end Pipeline

/-! ## The process -/

namespace Startup

variable {registry : DecoderRegistry} {m : Publish} {d : ErasedDecoder}

/-- There is a run that reaches the bound: the subscriptions fill the request channel, and the
broker replies with enough messages. -/
theorem exists_held_eq (cap : ℕ) (hd : registry.decoderFor m = some d) :
    ∃ replies filters s, LossyReachable cap registry replies filters s ∧
      s.main.pipeline.held = Pipeline.bound cap (d.decode m).peak := by
  let messages := List.replicate (cap + (incomingCapacity + 1)) m
  let fill := List.replicate requestCapacity "#"
  let replies := fun i => if i = 0 then messages else []
  have hsubscribe := @Main.run_subscribe cap registry [] fill ["#"] []
  have hreply := @run_reply cap registry replies (.subscribing fill)
    { Pipeline.start [] with taken := [.subscribe "#"] } false 1 (Nat.le_refl 1)
  have hmessages : (List.range 1).flatMap replies = messages := by simp [replies]
  rw [hmessages] at hreply
  obtain ⟨requests, hrequests, hfill⟩ := @run_fill cap registry [] false fill
    { Pipeline.start messages with taken := [.subscribe "#"] } rfl
    (by simp [Pipeline.start, fill])
  rw [List.append_nil] at hfill
  obtain ⟨p, hrun, hheld⟩ := Pipeline.exists_run_bound
    (s := { Pipeline.start messages with taken := [.subscribe "#"], requests := requests })
    hd rfl rfl rfl rfl rfl (by rw [hrequests]; simp [Pipeline.start, fill])
  have hreach : Reachable cap registry replies ("#" :: fill) ⟨⟨.selecting, p, false⟩, 1⟩ :=
    ((run_main hsubscribe).trans hreply).trans
      (run_main ((hfill.tail (.spawn rfl)).trans (Main.run_selecting hrun)))
  exact ⟨replies, "#" :: fill, _, ReflTransGen.mono (fun _ _ h => .up h) _ _ hreach, hheld⟩

/-- Whatever the broker sends and whenever the connection is lost, the process holds at most so many
messages at once: one in the driver, those in the two channels, and for each of `cap` tasks the one
it is about, those in its channel and one at either end of it. With the peak of the decoders of its
registry in place of the latter, the bound is reached. -/
theorem held_bound (cap : ℕ) (registry : DecoderRegistry) :
    (∀ replies filters s, LossyReachable cap registry replies filters s →
      s.main.pipeline.held ≤
        1 + incomingCapacity + cap * (decodeChannelCapacity + 3) + requestCapacity) ∧
    ∀ P, (∀ m d, registry.decoderFor m = some d → (d.decode m).peak ≤ P) →
      (∃ m d, registry.decoderFor m = some d ∧ (d.decode m).peak = P) →
      IsGreatest
        {n | ∃ replies filters s, LossyReachable cap registry replies filters s ∧
          s.main.pipeline.held = n}
        (1 + incomingCapacity + cap * P + requestCapacity) := by
  refine ⟨fun replies filters s hs => ?_, fun P hP hmax => ⟨?_, ?_⟩⟩
  · exact Pipeline.held_le (LossyReachable.coherent hs).pipeline.engine fun m d _ =>
      (d.decode m).peak_le
  · obtain ⟨m, d, hd, rfl⟩ := hmax
    exact exists_held_eq cap hd
  · rintro n ⟨replies, filters, s, hs, rfl⟩
    exact Pipeline.held_le (LossyReachable.coherent hs).pipeline.engine hP

/-- A gateway with the decoder for text only, and one task at a time. -/
theorem held_bound_sensor :
    IsGreatest
      {n | ∃ replies filters s, LossyReachable 1 .sensorRegistry replies filters s ∧
        s.main.pipeline.held = n}
      203 := by
  refine (held_bound 1 .sensorRegistry).2 2 (fun m d hd => ?_)
    ⟨EngineState.sensorMessage, ⟨Utf8Decoder.decode⟩, rfl, rfl⟩
  obtain ⟨e, he, rfl⟩ := DecoderRegistry.exists_entry_of_decoderFor hd
  obtain ⟨d, hd⟩ := DecoderRegistry.sensorRegistry_builtin e he
  rw [hd, d.peak_eq]

end Startup

end RosettaMq
