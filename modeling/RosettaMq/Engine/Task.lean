import Mathlib.Logic.Relation
import RosettaMq.ToMathlib.Channel
import RosettaMq.Decoder.Defs

/-!
# One decode task

`decode_and_publish` of `src/engine.rs` as a step relation. Two futures run side by side under
`join!`: `decode` sends into a channel of capacity `decodeChannelCapacity`, and `drain` receives
from it and publishes. Afterwards an error of the decoder is published. A step is labelled with the
message it hands to the client, if any.

* `Task.remaining`: what a task still has to hand to the client.
* `Task.Step.remaining_eq`: a step hands over the first of it, or leaves it as it is, or loses it in
  a panic.
* `Task.Sound.exists_next`, `Task.exists_settled`: a task gets to its next message or to its end,
  and without publishing it can move only finitely often.
-/

open Relation

namespace RosettaMq

/-- `DECODE_CHANNEL_CAPACITY`. -/
abbrev decodeChannelCapacity : ℕ := 8

/-- The `decode` future: what it still sends and how it ends, or what it has returned. -/
inductive DecodeFuture where
  | running (run : DecodeRun)
  | returned (result : Except DecodeError Unit)

/-- The `drain` block: waiting in `recv`, waiting in `publish`, or done. -/
inductive DrainFuture where
  | receiving
  | publishing (decoded : DecodePublish)
  | returned

/-- Where a call of `decode_and_publish` is. -/
inductive Frame where
  /-- In `join!(decode, drain)`. -/
  | joining (decode : DecodeFuture) (channel : Chan DecodePublish decodeChannelCapacity)
      (drain : DrainFuture)
  /-- In the `publish` of the error message. -/
  | reporting (err : DecodeError)
  | returned
  | panicked

/-- A call of `decode_and_publish` for `message`. -/
structure Task where
  message : Publish
  frame : Frame

/-- `decode_and_publish(decoder, message, client)`, before its first step. -/
def decodeAndPublish (decoder : ErasedDecoder) (message : Publish) : Task :=
  ⟨message, .joining (.running (decoder.decode message)) .new .receiving⟩

namespace Task

/-- One step of a task. -/
inductive Step : Task → Option ResolvedDecodePublish → Task → Prop
  /-- The decoder sends a message once the channel has room. -/
  | send {m d sends ending channel channel' drain} :
      channel.send d = some channel' →
      Step ⟨m, .joining (.running ⟨d :: sends, ending⟩) channel drain⟩ none
        ⟨m, .joining (.running ⟨sends, ending⟩) channel' drain⟩
  /-- Sending fails once the receiver is gone, and the decoder returns that error. -/
  | sendClosed {m d sends ending channel drain} :
      channel.rxOpen = false →
      Step ⟨m, .joining (.running ⟨d :: sends, ending⟩) channel drain⟩ none
        ⟨m, .joining (.returned (.error .chanel)) channel.closeTx drain⟩
  /-- The decoder returns `Ok`, which drops its sender. -/
  | ok {m channel drain} :
      Step ⟨m, .joining (.running ⟨[], .ok⟩) channel drain⟩ none
        ⟨m, .joining (.returned (.ok ())) channel.closeTx drain⟩
  /-- The decoder returns an error, which drops its sender. -/
  | err {m e channel drain} :
      Step ⟨m, .joining (.running ⟨[], .err e⟩) channel drain⟩ none
        ⟨m, .joining (.returned (.error (.decode e))) channel.closeTx drain⟩
  /-- A panic of the decoder unwinds the whole task. -/
  | panic {m channel drain} :
      Step ⟨m, .joining (.running ⟨[], .panic⟩) channel drain⟩ none ⟨m, .panicked⟩
  | recv {m d decode channel channel'} :
      channel.recv = some (some d, channel') →
      Step ⟨m, .joining decode channel .receiving⟩ none
        ⟨m, .joining decode channel' (.publishing d)⟩
  | recvNone {m decode channel channel'} :
      channel.recv = some (none, channel') →
      Step ⟨m, .joining decode channel .receiving⟩ none ⟨m, .joining decode channel' .returned⟩
  /-- The client has taken or refused the message. A refusal is logged, nothing else. -/
  | publish {m d decode channel} :
      Step ⟨m, .joining decode channel (.publishing d)⟩ (some (d.resolve m))
        ⟨m, .joining decode channel .receiving⟩
  | joinOk {m channel} :
      Step ⟨m, .joining (.returned (.ok ())) channel .returned⟩ none ⟨m, .returned⟩
  | joinErr {m e channel} :
      Step ⟨m, .joining (.returned (.error e)) channel .returned⟩ none ⟨m, .reporting e⟩
  /-- The client has taken or refused the error message. -/
  | report {m e} :
      Step ⟨m, .reporting e⟩ (some ((errorPublish e m).resolve m)) ⟨m, .returned⟩

/-- The task has returned or panicked. -/
def finished (t : Task) : Bool :=
  match t.frame with
  | .returned | .panicked => true
  | .joining .. | .reporting _ => false

variable {t t' : Task} {l : Option ResolvedDecodePublish}

/-- A task keeps its message. -/
theorem Step.message_eq (h : Step t l t') : t'.message = t.message := by
  cases h <;> rfl

end Task

/-! ## What a task still publishes -/

/-- What the decoder still sends. -/
def DecodeFuture.sends : DecodeFuture → List DecodePublish
  | .running run => run.sends
  | .returned _ => []

/-- What is published because of how the decoder ends. -/
def DecodeFuture.report (message : Publish) : DecodeFuture → List ResolvedDecodePublish
  | .running run => run.ending.report message
  | .returned (.ok ()) => []
  | .returned (.error err) => [(errorPublish err message).resolve message]

/-- What the drain has received and not yet published. -/
def DrainFuture.pending : DrainFuture → List DecodePublish
  | .publishing d => [d]
  | .receiving | .returned => []

/-- The messages a task for `message` still hands to the client, in order. -/
def Frame.remaining (message : Publish) : Frame → List ResolvedDecodePublish
  | .joining decode channel drain =>
      (drain.pending ++ channel.buf ++ decode.sends).map (·.resolve message) ++
        decode.report message
  | .reporting err => [(errorPublish err message).resolve message]
  | .returned | .panicked => []

/-- The receiver lives as long as the join, the sender as long as the decoder, and the drain ends
only once both the channel and its senders are exhausted. -/
def Frame.WellFormed : Frame → Prop
  | .joining decode channel drain =>
      channel.rxOpen = true ∧
      (channel.txOpen = false ↔ ∃ result, decode = .returned result) ∧
      (drain = .returned → channel.buf = [] ∧ channel.txOpen = false)
  | .reporting _ | .returned | .panicked => True

/-- The decoder ends like this, or has. -/
def DecodeFuture.EndsAs (ending : Ending) : DecodeFuture → Prop
  | .running run => run.ending = ending
  | .returned (.ok ()) => ending = .ok
  | .returned (.error err) => ∃ e, err = .decode e ∧ ending = .err e

/-- The decoder ends like this, or has. -/
def Frame.EndsAs (ending : Ending) : Frame → Prop
  | .joining decode _ _ => decode.EndsAs ending
  | .reporting err => ∃ e, err = .decode e ∧ ending = .err e
  | .returned => ending = .ok ∨ ∃ e, ending = .err e
  | .panicked => ending = .panic

/-- How many messages of a task can be lost because of how its decoder ends: those in the channel
and the one the drain is publishing. -/
def Ending.spare : Ending → ℕ
  | .panic => decodeChannelCapacity + 1
  | .ok | .err _ | .hang => 0

namespace Task

/-- The messages the task still hands to the client, in order. -/
def remaining (t : Task) : List ResolvedDecodePublish := t.frame.remaining t.message

/-- The task's channel is well formed, and its decoder ends as `d` does. -/
structure Sound (d : ErasedDecoder) (t : Task) : Prop where
  wellFormed : t.frame.WellFormed
  endsAs : t.frame.EndsAs (d.decode t.message).ending

variable {t t' : Task} {l : Option ResolvedDecodePublish} {d : ErasedDecoder}

/-- A fresh task has all outputs of its message before it. -/
theorem remaining_decodeAndPublish (d : ErasedDecoder) (m : Publish) :
    (decodeAndPublish d m).remaining = d.outputs m := rfl

theorem sound_decodeAndPublish (d : ErasedDecoder) (m : Publish) :
    (decodeAndPublish d m).Sound d where
  wellFormed := by
    refine ⟨rfl, ?_, nofun⟩
    simp
  endsAs := rfl

theorem remaining_eq_nil_of_finished (h : t.finished = true) : t.remaining = [] := by
  obtain ⟨m, frame⟩ := t
  cases frame with
  | joining | reporting => cases h
  | returned | panicked => rfl

/-- The decoder of a finished task has ended. -/
theorem Sound.ne_hang_of_finished (ht : t.Sound d) (h : t.finished = true) :
    (d.decode t.message).ending ≠ .hang := by
  obtain ⟨m, frame⟩ := t
  obtain ⟨-, hends⟩ := ht
  cases frame with
  | joining | reporting => cases h
  | returned => rcases hends with hok | ⟨e, herr⟩ <;> simp [*]
  | panicked => exact fun hhang => absurd (hends.symm.trans hhang) (by simp)

/-- Every step keeps the channel well formed. -/
theorem Step.wellFormed (h : Step t l t') (ht : t.frame.WellFormed) : t'.frame.WellFormed := by
  cases h with
  | send hsend =>
    obtain ⟨-, -, hbuf, htx, hrx⟩ := Chan.send_eq_some_iff.mp hsend
    obtain ⟨hrxo, htxo, hdrain⟩ := ht
    refine ⟨hrx.trans hrxo, by simpa [htx] using htxo, fun hd => ?_⟩
    -- the drain cannot have ended while the decoder is running
    obtain ⟨_, hret⟩ := htxo.mp (hdrain hd).2
    cases hret
  | sendClosed hclosed =>
    -- the receiver is a local variable of the task and lives until the join is over
    rw [ht.1] at hclosed
    cases hclosed
  | ok => exact ⟨ht.1, by simp, fun hd => ⟨(ht.2.2 hd).1, rfl⟩⟩
  | err => exact ⟨ht.1, by simp, fun hd => ⟨(ht.2.2 hd).1, rfl⟩⟩
  | recv hrecv =>
    obtain ⟨-, htx, hrx⟩ := Chan.recv_eq_some_iff.mp hrecv
    exact ⟨hrx.trans ht.1, by rw [htx]; exact ht.2.1, nofun⟩
  | recvNone hrecv =>
    obtain ⟨hbuf, htx, rfl⟩ := Chan.recv_eq_none_iff.mp hrecv
    exact ⟨ht.1, ht.2.1, fun _ => ⟨hbuf, htx⟩⟩
  | publish => exact ⟨ht.1, ht.2.1, nofun⟩
  | panic | joinOk | joinErr | report => trivial

/-- Every step keeps a task sound. -/
theorem Step.sound (h : Step t l t') (ht : t.Sound d) : t'.Sound d := by
  refine ⟨h.wellFormed ht.wellFormed, ?_⟩
  obtain ⟨hwf, hends⟩ := ht
  cases h with
  | send | recv | recvNone | publish => exact hends
  | sendClosed hclosed =>
    rw [hwf.1] at hclosed
    cases hclosed
  | ok => exact Eq.symm hends
  | err => exact ⟨_, rfl, Eq.symm hends⟩
  | panic => exact Eq.symm hends
  | joinOk => exact Or.inl hends
  | joinErr => exact hends
  | report =>
    obtain ⟨e, -, herr⟩ := hends
    exact Or.inr ⟨e, herr⟩

/-- A step hands over the first message that remains, or leaves what remains as it is, or is a
panic, which loses what remains. -/
theorem Step.remaining_eq (h : Step t l t') (ht : t.Sound d) :
    t.remaining = l.toList ++ t'.remaining ∨
      l = none ∧ t'.remaining = [] ∧ (d.decode t.message).ending = .panic ∧
        t.remaining.length ≤ (d.decode t.message).ending.spare := by
  obtain ⟨hwf, hends⟩ := ht
  cases h with
  | send hsend =>
    obtain ⟨-, -, hbuf, -, -⟩ := Chan.send_eq_some_iff.mp hsend
    exact Or.inl <| by
      simp [remaining, Frame.remaining, DecodeFuture.sends, DecodeFuture.report, hbuf]
  | sendClosed hclosed =>
    rw [hwf.1] at hclosed
    cases hclosed
  | ok => exact Or.inl rfl
  | err => exact Or.inl rfl
  | @panic m channel drain =>
    have hending : (d.decode m).ending = .panic := Eq.symm hends
    refine Or.inr ⟨rfl, rfl, hending, ?_⟩
    -- lost are what is in the channel and the message the drain holds
    have hbound := channel.bound
    have hpending : drain.pending.length ≤ 1 := by cases drain <;> simp [DrainFuture.pending]
    simp only [remaining, Frame.remaining, DecodeFuture.sends, DecodeFuture.report, Ending.report,
      List.append_nil, List.length_map, List.length_append, hending, Ending.spare]
    omega
  | recv hrecv =>
    obtain ⟨hbuf, -, -⟩ := Chan.recv_eq_some_iff.mp hrecv
    exact Or.inl <| by simp [remaining, Frame.remaining, DrainFuture.pending, hbuf]
  | recvNone hrecv =>
    obtain ⟨-, -, rfl⟩ := Chan.recv_eq_none_iff.mp hrecv
    exact Or.inl rfl
  | publish => exact Or.inl rfl
  | joinOk =>
    -- the drain has ended, so the channel is empty
    obtain ⟨hbuf, -⟩ := hwf.2.2 rfl
    exact Or.inl <| by
      simp [remaining, Frame.remaining, DrainFuture.pending, DecodeFuture.sends,
        DecodeFuture.report, hbuf]
  | joinErr =>
    obtain ⟨hbuf, -⟩ := hwf.2.2 rfl
    exact Or.inl <| by
      simp [remaining, Frame.remaining, DrainFuture.pending, DecodeFuture.sends,
        DecodeFuture.report, hbuf]
  | report => exact Or.inl rfl

/-! ## Progress -/

/-- A task that is not finished can take a step that loses nothing, unless its decoder hangs and
nothing remains. -/
theorem Sound.progress (ht : t.Sound d) (hfin : t.finished = false)
    (h : (d.decode t.message).ending ≠ .hang ∨ t.remaining ≠ []) :
    ∃ l t', Step t l t' ∧ t.remaining = l.toList ++ t'.remaining := by
  obtain ⟨hwf, hends⟩ := ht
  obtain ⟨m, frame⟩ := t
  cases frame with
  | returned | panicked => cases hfin
  | reporting e => exact ⟨_, _, .report, rfl⟩
  | joining decode channel drain =>
    -- the drain moves if it holds a message or finds one; otherwise the decoder can move, since the
    -- channel is empty
    cases drain with
    | publishing d => exact ⟨_, _, .publish, rfl⟩
    | returned =>
      obtain ⟨result, rfl⟩ := hwf.2.1.mp (hwf.2.2 rfl).2
      have hbuf := (hwf.2.2 rfl).1
      rcases result with e | ⟨⟩
      · exact ⟨_, _, .joinErr, by
          simp [remaining, Frame.remaining, DrainFuture.pending, DecodeFuture.sends,
            DecodeFuture.report, hbuf]⟩
      · exact ⟨_, _, .joinOk, by
          simp [remaining, Frame.remaining, DrainFuture.pending, DecodeFuture.sends,
            DecodeFuture.report, hbuf]⟩
    | receiving =>
      cases hbuf : channel.buf with
      | cons d rest =>
        obtain ⟨channel', hrecv, hbuf', -⟩ := Chan.exists_recv hbuf
        exact ⟨_, _, .recv hrecv, by
          simp [remaining, Frame.remaining, DrainFuture.pending, hbuf, hbuf']⟩
      | nil =>
        rcases decode with ⟨sends, ending⟩ | result
        · rcases sends with _ | ⟨d, sends⟩
          · cases ending with
            | ok => exact ⟨_, _, .ok, rfl⟩
            | err e => exact ⟨_, _, .err, rfl⟩
            | panic =>
              exact ⟨_, _, .panic, by
                simp [remaining, Frame.remaining, DrainFuture.pending, DecodeFuture.sends,
                  DecodeFuture.report, Ending.report, hbuf]⟩
            | hang =>
              -- nothing remains, and the decoder hangs
              refine absurd h (not_or.mpr ⟨not_not.mpr (Eq.symm hends), not_not.mpr ?_⟩)
              simp [remaining, Frame.remaining, DrainFuture.pending, DecodeFuture.sends,
                DecodeFuture.report, Ending.report, hbuf]
          · obtain ⟨channel', hsend⟩ := Chan.exists_send hwf.1 (by simp [hbuf]) d
            obtain ⟨-, -, hbuf', -, -⟩ := Chan.send_eq_some_iff.mp hsend
            exact ⟨_, _, .send hsend, by
              simp [remaining, Frame.remaining, DecodeFuture.sends, DecodeFuture.report, hbuf']⟩
        · have hrecv : channel.recv = some (none, channel) :=
            Chan.recv_eq_none_iff.mpr ⟨hbuf, hwf.2.1.mpr ⟨result, rfl⟩, rfl⟩
          exact ⟨_, _, .recvNone hrecv, rfl⟩

/-- How many steps a task can take before it publishes or finishes, at most. -/
def fuel (t : Task) : ℕ :=
  match t.frame with
  | .joining decode channel drain =>
      2 * decode.sends.length + channel.buf.length +
        (match decode with | .running _ => 1 | .returned _ => 0) +
        (match drain with | .receiving => 1 | .publishing _ | .returned => 0) + 1
  | .reporting _ | .returned | .panicked => 0

/-- Every step that publishes nothing uses up some of it. -/
theorem Step.fuel_lt (h : Step t none t') : t'.fuel < t.fuel := by
  cases h with
  | send hsend =>
    obtain ⟨-, -, hbuf, -, -⟩ := Chan.send_eq_some_iff.mp hsend
    simp only [fuel, DecodeFuture.sends, hbuf, List.length_append, List.length_cons,
      List.length_nil]
    omega
  | recv hrecv =>
    obtain ⟨hbuf, -, -⟩ := Chan.recv_eq_some_iff.mp hrecv
    simp only [fuel, hbuf, List.length_cons]
    omega
  | recvNone hrecv =>
    obtain ⟨-, -, rfl⟩ := Chan.recv_eq_none_iff.mp hrecv
    simp only [fuel]
    omega
  | sendClosed | ok | err | panic | joinOk | joinErr =>
    simp only [fuel, DecodeFuture.sends, Chan.buf_closeTx, List.length_cons, List.length_nil]
    omega

/-- A step that publishes nothing. -/
def Silent (t t' : Task) : Prop := Step t none t'

/-- The task can only publish, or is finished. -/
def Settled (t : Task) : Prop := ∀ t', ¬ Silent t t'

/-- Without publishing, every task comes to a point where it can only publish or is finished. -/
theorem exists_settled (t : Task) : ∃ t', ReflTransGen Silent t t' ∧ t'.Settled := by
  induction hn : t.fuel using Nat.strongRecOn generalizing t with
  | _ n ih =>
    by_cases hsettled : t.Settled
    · exact ⟨t, .refl, hsettled⟩
    · unfold Settled at hsettled
      push Not at hsettled
      obtain ⟨u, hu⟩ := hsettled
      obtain ⟨t', hrun, ht'⟩ := ih u.fuel (hn ▸ hu.fuel_lt) u rfl
      exact ⟨t', .head hu hrun, ht'⟩

theorem message_of_silent (hrun : ReflTransGen Silent t t') : t'.message = t.message := by
  induction hrun with
  | refl => rfl
  | tail _ hstep ih => rw [hstep.message_eq, ih]

theorem sound_of_silent (hrun : ReflTransGen Silent t t') (ht : t.Sound d) : t'.Sound d := by
  induction hrun with
  | refl => exact ht
  | tail _ hstep ih => exact hstep.sound ih

/-- Without publishing and without loss a task comes to its end or to its next message, unless its
decoder hangs and nothing remains. -/
theorem Sound.exists_next (ht : t.Sound d)
    (h : (d.decode t.message).ending ≠ .hang ∨ t.remaining ≠ []) :
    ∃ t', ReflTransGen Silent t t' ∧ t'.remaining = t.remaining ∧
      (t'.finished = true ∨ ∃ r u, Step t' (some r) u ∧ t'.remaining = r :: u.remaining) := by
  induction hn : t.fuel using Nat.strongRecOn generalizing t with
  | _ n ih =>
    cases hfin : t.finished with
    | true => exact ⟨t, .refl, rfl, Or.inl hfin⟩
    | false =>
      obtain ⟨l, u, hstep, hrem⟩ := ht.progress hfin h
      cases l with
      | some r => exact ⟨t, .refl, rfl, Or.inr ⟨r, u, hstep, hrem⟩⟩
      | none =>
        have hu : u.remaining = t.remaining := hrem.symm
        obtain ⟨t', hrun, hrem', hnext⟩ :=
          ih u.fuel (hn ▸ hstep.fuel_lt) (hstep.sound ht) (by rwa [hstep.message_eq, hu]) rfl
        exact ⟨t', .head hstep hrun, hrem'.trans hu, hnext⟩

/-- A task that has more left than can be lost loses nothing before it publishes. -/
theorem remaining_of_silent (hrun : ReflTransGen Silent t t') (ht : t.Sound d)
    (hlt : (d.decode t.message).ending.spare < t.remaining.length) :
    t'.remaining = t.remaining := by
  induction hrun with
  | refl => rfl
  | tail hrun hstep ih =>
    rcases hstep.remaining_eq (sound_of_silent hrun ht) with heq | ⟨-, -, -, hle⟩
    · rw [← ih, heq]
      rfl
    · -- a panic loses no more than can be lost
      rw [ih, message_of_silent hrun] at hle
      exact absurd hlt (Nat.not_lt_of_le hle)

/-- A decoder that panics does so without further publishing once what remains fits into the
channel and the hands of the drain. -/
theorem silent_panicked {m : Publish} {sends : List DecodePublish} :
    ∀ {channel : Chan DecodePublish decodeChannelCapacity} {drain : DrainFuture},
    channel.rxOpen = true → drain ≠ .returned →
    drain.pending.length + channel.buf.length + sends.length ≤ decodeChannelCapacity + 1 →
    ReflTransGen Silent ⟨m, .joining (.running ⟨sends, .panic⟩) channel drain⟩ ⟨m, .panicked⟩ := by
  induction sends with
  | nil => exact fun _ _ _ => .single .panic
  | cons d sends ih =>
    -- with room in the channel the decoder can send
    have hroom : ∀ {channel : Chan DecodePublish decodeChannelCapacity} {drain : DrainFuture},
        channel.rxOpen = true → drain ≠ .returned → channel.buf.length < decodeChannelCapacity →
        drain.pending.length + channel.buf.length + (d :: sends).length ≤
          decodeChannelCapacity + 1 →
        ReflTransGen Silent ⟨m, .joining (.running ⟨d :: sends, .panic⟩) channel drain⟩
          ⟨m, .panicked⟩ := by
      intro channel drain hrx hdrain hlt hle
      obtain ⟨channel', hsend⟩ := Chan.exists_send hrx hlt d
      obtain ⟨-, -, hbuf, -, hrx'⟩ := Chan.send_eq_some_iff.mp hsend
      refine .head (.send hsend) (ih (hrx'.trans hrx) hdrain ?_)
      rw [hbuf, List.length_append, List.length_singleton]
      rw [List.length_cons] at hle
      omega
    intro channel drain hrx hdrain hle
    rcases Nat.lt_or_ge channel.buf.length decodeChannelCapacity with hlt | hge
    · exact hroom hrx hdrain hlt hle
    · -- the channel is full, so the drain holds nothing and can receive
      rw [List.length_cons] at hle
      have hpending : drain.pending.length = 0 := by omega
      cases drain with
      | publishing => cases hpending
      | returned => exact absurd rfl hdrain
      | receiving =>
        cases hbuf : channel.buf with
        | nil =>
          rw [hbuf] at hge
          cases hge
        | cons c rest =>
          obtain ⟨channel', hrecv, hbuf', -, hrx'⟩ := Chan.exists_recv hbuf
          have hbound := channel.bound
          rw [hbuf, List.length_cons] at hle hbound
          refine .head (.recv hrecv) (hroom (hrx'.trans hrx) nofun (by rw [hbuf']; omega) ?_)
          rw [hbuf', List.length_cons]
          simp only [DrainFuture.pending, List.length_singleton]
          omega

/-- A task can lose what remains if its decoder panics and no more remains than can be lost. -/
theorem Sound.exists_lost (ht : t.Sound d) (hne : t.remaining ≠ [])
    (hle : t.remaining.length ≤ (d.decode t.message).ending.spare) :
    ∃ t', ReflTransGen Silent t t' ∧ t'.remaining = [] := by
  -- only a panic can lose anything
  have hending : (d.decode t.message).ending = .panic := by
    cases hend : (d.decode t.message).ending with
    | panic => rfl
    | ok | err | hang =>
      rw [hend, Ending.spare, Nat.le_zero, List.length_eq_zero_iff] at hle
      exact absurd hle hne
  obtain ⟨hwf, hends⟩ := ht
  obtain ⟨m, frame⟩ := t
  dsimp only at hwf hends hending
  rw [hending] at hends hle
  cases frame with
  | returned | panicked => exact absurd rfl hne
  | reporting =>
    obtain ⟨_, -, herr⟩ := hends
    cases herr
  | joining decode channel drain =>
    rcases decode with ⟨sends, ending⟩ | ⟨err⟩ | ⟨⟩
    · -- the decoder is still running, since it has not panicked yet
      obtain rfl : ending = .panic := hends
      refine ⟨⟨m, .panicked⟩, silent_panicked hwf.1 (fun hd => ?_) ?_, rfl⟩
      · obtain ⟨_, hret⟩ := hwf.2.1.mp (hwf.2.2 hd).2
        cases hret
      · simpa [remaining, Frame.remaining, DecodeFuture.sends, DecodeFuture.report, Ending.report,
          Ending.spare, Nat.add_assoc] using hle
    · obtain ⟨_, -, herr⟩ := hends
      cases herr
    · cases hends

end Task

end RosettaMq
