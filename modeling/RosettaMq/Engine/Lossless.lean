import Mathlib.Data.Prod.Lex
import Mathlib.Order.OrderIsoNat
import RosettaMq.Decoder.Builtin
import RosettaMq.Engine.Task

/-!
# A decode task loses nothing

A call of `decode_and_publish` as a whole: it attempts to publish what its decoder sends, in order
and each with its missing fields filled in, then the error if there is one. What the client answers
to one attempt has no influence on the others. The call never gets stuck and every run of it ends
(`Task.lossless`).
-/

namespace RosettaMq

namespace Task

variable {ε : Type} {t t' u : Task} {d : ErasedDecoder} {m : Publish}
  {attempts : List (ResolvedDecodePublish × Except ε Unit)}

/-- The attempts to publish in a run of a task, each with what `client.publish` returned. -/
inductive Run (ε : Type) (t : Task) : List (ResolvedDecodePublish × Except ε Unit) → Task → Prop
  | start : Run ε t [] t
  | silent {attempts u v} : Run ε t attempts u → Step u none v → Run ε t attempts v
  /-- The client has taken the message, or `publish` logs its error. -/
  | attempt {attempts u v r} (result : Except ε Unit) :
      Run ε t attempts u → Step u (some r) v → Run ε t (attempts ++ [(r, result)]) v

/-- A task keeps its message in a run. -/
theorem Run.message_eq (h : Run ε t attempts u) : u.message = t.message := by
  induction h with
  | start => rfl
  | silent _ hstep ih | attempt _ _ hstep ih => rw [hstep.message_eq, ih]

theorem Run.sound (h : Run ε t attempts u) (ht : t.Sound d) : u.Sound d := by
  induction h with
  | start => exact ht
  | silent _ hstep ih | attempt _ _ hstep ih => exact hstep.sound ih

/-- What has been attempted and what remains is what there was at the start. -/
theorem Run.remaining_eq (h : Run ε t attempts u) (ht : t.Sound d)
    (hret : (d.decode t.message).ending ≠ .panic) :
    t.remaining = attempts.map (·.1) ++ u.remaining := by
  have hstep_eq : ∀ {attempts : List (ResolvedDecodePublish × Except ε Unit)} {v w l},
      Run ε t attempts v → Step v l w → v.remaining = l.toList ++ w.remaining := by
    intro attempts v w l hrun hstep
    rcases hstep.remaining_eq (hrun.sound ht) with heq | ⟨-, -, hpanic, -⟩
    · exact heq
    · rw [hrun.message_eq] at hpanic
      exact absurd hpanic hret
  induction h with
  | start => rfl
  | silent hrun hstep ih =>
    rw [ih, hstep_eq hrun hstep]
    rfl
  | attempt _ hrun hstep ih =>
    rw [ih, hstep_eq hrun hstep]
    simp

/-- The same run is possible whatever the client answers. -/
theorem Run.change_results (h : Run ε t attempts u) :
    ∀ {attempts' : List (ResolvedDecodePublish × Except ε Unit)},
      attempts'.map (·.1) = attempts.map (·.1) → Run ε t attempts' u := by
  induction h with
  | start =>
    intro attempts' heq
    rw [List.map_eq_nil_iff.mp heq]
    exact .start
  | silent _ hstep ih => exact fun heq => .silent (ih heq) hstep
  | @attempt attempts u v r result _ hstep ih =>
    intro attempts' heq
    rw [List.map_append, List.map_singleton] at heq
    obtain ⟨init, last, rfl, hinit, hlast⟩ := List.map_eq_append_iff.mp heq
    obtain ⟨⟨r', result'⟩, rfl, hr⟩ := List.map_eq_singleton_iff.mp hlast
    obtain rfl : r' = r := hr
    exact .attempt result' (ih hinit) hstep

/-- The channel of a running join has its receiver, so no `send` of the decoder has failed. -/
theorem Sound.joining (ht : t.Sound d) {decode channel drain}
    (h : t.frame = .joining decode channel drain) :
    channel.rxOpen = true ∧ decode ≠ .returned (.error .chanel) := by
  obtain ⟨hwf, hends⟩ := ht
  rw [h] at hwf hends
  refine ⟨hwf.1, fun heq => ?_⟩
  obtain ⟨e, he, -⟩ : ∃ e, DecodeError.chanel = .decode e ∧ _ := heq ▸ hends
  cases he

theorem Sound.ne_reporting_chanel (ht : t.Sound d) : t.frame ≠ .reporting .chanel := by
  intro h
  obtain ⟨e, he, -⟩ : ∃ e, DecodeError.chanel = .decode e ∧ _ := h ▸ ht.endsAs
  cases he

/-- A task that has finished without a panic has returned. -/
theorem Sound.frame_eq_returned (ht : t.Sound d) (hfin : t.finished = true)
    (hret : (d.decode t.message).ending ≠ .panic) : t.frame = .returned := by
  obtain ⟨m, frame⟩ := t
  cases frame with
  | joining | reporting => cases hfin
  | returned => rfl
  | panicked => exact absurd ht.endsAs hret

/-! ## Every run ends -/

/-- How many steps a task can take at most, what it hands over counted first. -/
def size (t : Task) : ℕ ×ₗ ℕ :=
  toLex (t.remaining.length, t.fuel)

/-- Every step makes a task smaller. -/
theorem Sound.size_lt {l : Option ResolvedDecodePublish} (ht : t.Sound d) (h : Step t l t') :
    t'.size < t.size := by
  rw [size, size, Prod.Lex.toLex_lt_toLex']
  rcases h.remaining_eq ht with heq | ⟨rfl, hnil, -⟩
  · cases l with
    | none => exact ⟨by simp [heq], fun _ => h.fuel_lt⟩
    | some r => exact ⟨by simp [heq], fun hlen => by simp [heq] at hlen⟩
  · -- a panic loses what remains, if anything
    exact ⟨by simp [hnil], fun _ => h.fuel_lt⟩

/-- No run of a sound task goes on forever. -/
theorem Sound.not_exists_infinite (ht : t.Sound d) :
    ¬ ∃ run : ℕ → Task, run 0 = t ∧ ∀ n, ∃ l, Step (run n) l (run (n + 1)) := by
  rintro ⟨run, hzero, hstep⟩
  have hsound : ∀ n, (run n).Sound d := by
    intro n
    induction n with
    | zero => rwa [hzero]
    | succ n ih =>
      obtain ⟨l, hl⟩ := hstep n
      exact hl.sound ih
  -- so the sizes descend forever
  have hdesc : ∀ n, (run (n + 1)).size < (run n).size := by
    intro n
    obtain ⟨l, hl⟩ := hstep n
    exact (hsound n).size_lt hl
  exact (RelEmbedding.natGT (fun n => (run n).size) hdesc).not_wellFounded wellFounded_lt

/-! ## The result -/

/-- A call of `decode_and_publish` with a decoder that returns. In every run, whatever the client
answers, the call is finished or can take a step, no `send` of the decoder fails, and the attempts
are the first of what the decoder sends, with its missing fields filled in, and of what is reported
afterwards: one message with the payload in hex if the decoder returns an error, else nothing. A
call that has finished has attempted all of it, and every run gets there. Built-in decoders make one
attempt. -/
theorem lossless {Message Json : Type} (d : ErasedDecoder) (m : Publish)
    (hret : (d.decode m).ending ≠ .panic ∧ (d.decode m).ending ≠ .hang) :
    (¬ ∃ run : ℕ → Task, run 0 = decodeAndPublish d m ∧
      ∀ n, ∃ l, Step (run n) l (run (n + 1))) ∧
    ∃ report : List ResolvedDecodePublish,
      ((d.decode m).ending = .ok → report = []) ∧
      (∀ e, (d.decode m).ending = .err e → ∃ r, report = [r] ∧
        r.topic = m.topic ++ "/decode_error" ∧ intoBytes (hexEncode m.payload) <:+ r.payload) ∧
      ∀ (attempts : List (ResolvedDecodePublish × Except ε Unit)) (t : Task),
        Run ε (decodeAndPublish d m) attempts t →
        (t.finished = true ∨ ∃ l u, Step t l u) ∧
        (∀ decode channel drain, t.frame = .joining decode channel drain →
          channel.rxOpen = true ∧ decode ≠ .returned (.error .chanel)) ∧
        t.frame ≠ .reporting .chanel ∧
        (∀ results : List (Except ε Unit), results.length = attempts.length →
          Run ε (decodeAndPublish d m) ((attempts.map (·.1)).zip results) t) ∧
        attempts.map (·.1) <+: (d.decode m).sends.map (fun p =>
          ⟨p.topic.getD (m.topic ++ "/decoded"), p.qos.getD m.qos, p.retain.getD m.retain,
            p.payload⟩) ++ report ∧
        (t.finished = true → t.frame = .returned ∧
          attempts.map (·.1) = (d.decode m).sends.map (fun p =>
            ⟨p.topic.getD (m.topic ++ "/decoded"), p.qos.getD m.qos, p.retain.getD m.retain,
              p.payload⟩) ++ report ∧
          ∀ b : BuiltinDecoder Message Json, b.erase = d → attempts.length = 1) := by
  have hstart := sound_decodeAndPublish d m
  refine ⟨hstart.not_exists_infinite, (d.decode m).ending.report m, fun hok => ?_, fun e he => ?_,
    fun attempts t hrun => ?_⟩
  · rw [hok, Ending.report]
  · refine ⟨(errorPublish (.decode e) m).resolve m, by rw [he, Ending.report], rfl, ?_⟩
    show _ <:+ intoBytes _
    rw [intoBytes_append]
    exact List.suffix_append _ _
  -- every task of the run is sound, and what it has attempted and what remains are all outputs
  have hsound := hrun.sound hstart
  have hmessage : t.message = m := hrun.message_eq
  have houtputs : d.outputs m = attempts.map (·.1) ++ t.remaining := hrun.remaining_eq hstart hret.1
  refine ⟨?_, fun decode channel drain hframe => ?_, hsound.ne_reporting_chanel,
    fun results hlen => hrun.change_results ?_, ⟨t.remaining, houtputs.symm⟩, fun hfin => ?_⟩
  · cases hfin : t.finished with
    | true => exact Or.inl rfl
    | false =>
      obtain ⟨l, u, hstep, -⟩ := hsound.progress hfin (Or.inl (hmessage ▸ hret.2))
      exact Or.inr ⟨l, u, hstep⟩
  · exact hsound.joining hframe
  · rw [List.map_fst_zip]
    simp [hlen]
  · rw [remaining_eq_nil_of_finished hfin, List.append_nil] at houtputs
    refine ⟨hsound.frame_eq_returned hfin (hmessage ▸ hret.1), houtputs.symm, fun b hb => ?_⟩
    rw [← List.length_map (·.1), ← houtputs, ← hb, b.length_outputs]

/-- A decoder that sends one message and then fails. -/
def failingStream : ErasedDecoder := ⟨fun _ => ⟨[{ payload := [0x31] }], .err "truncated"⟩⟩

def streamed : Publish := ⟨false, .atMostOnce, false, "machine", 0, [0xFF]⟩

/-- The client refuses the first message of `failingStream` and takes the second; it may as well
answer the other way round. -/
theorem lossless_failingStream :
    Run Unit (decodeAndPublish failingStream streamed)
      [(⟨"machine/decoded", .atMostOnce, false, [0x31]⟩, .ok ()),
        ((errorPublish (.decode "truncated") streamed).resolve streamed, .error ())]
      ⟨streamed, .returned⟩ := by
  have hsend : Chan.new.send { payload := [0x31] } =
      some (⟨[{ payload := [0x31] }], by decide, true, true⟩ :
        Chan DecodePublish decodeChannelCapacity) := rfl
  have hrecv : (⟨[{ payload := [0x31] }], by decide, true, true⟩ :
      Chan DecodePublish decodeChannelCapacity).recv = some (some { payload := [0x31] }, .new) :=
    rfl
  have hrecvNone : (Chan.new : Chan DecodePublish decodeChannelCapacity).closeTx.recv =
      some (none, Chan.new.closeTx) := rfl
  have hsent : Run Unit (decodeAndPublish failingStream streamed) _ _ :=
    .attempt (.error ()) (.silent (.silent .start (.send hsend)) (.recv hrecv)) .publish
  have hrun := (((hsent.silent .err).silent (.recvNone hrecvNone)).silent .joinErr).attempt
    (.ok ()) .report
  obtain ⟨-, report, -, -, h⟩ :=
    @lossless Unit Unit Unit failingStream streamed (by constructor <;> nofun)
  exact (h _ _ hrun).2.2.2.1 [.ok (), .error ()] rfl

end Task

end RosettaMq
