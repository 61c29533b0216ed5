import RosettaMq.Engine.Delivery

/-!
# No feedback loop

The engine in a closed system: what it has published may come back to it any number of times and in
any order, mixed with the messages of other clients (`ClosedState.Step`). With the built-in decoders
no message of its own is ever given to a decoder, so it publishes at most one message for each
message of another client (`ClosedState.no_feedback`).
-/

open Relation

namespace RosettaMq

namespace EngineState

variable {Message Json : Type} {cap : ℕ} {registry : DecoderRegistry} {s : EngineState} {i : ℕ}
  {r : ResolvedDecodePublish}

/-- Every message of the log answers a message whose topic is not one of the engine's own, on that
topic followed by `/decoded` or `/decode_error`. -/
theorem topic_of_mem_log (hreg : registry.Builtin Message Json) (hs : s.Reachable cap registry)
    (hr : (i, r) ∈ s.log) :
    ∃ m, s.received[i]? = some m ∧ isOwnTopic m.topic = false ∧
      (r.topic = m.topic ++ "/decoded" ∨ r.topic = m.topic ++ "/decode_error") := by
  have href := hs.refines
  have hpart : r ∈ s.logOf i := List.mem_part.mpr hr
  have hlt : i < s.received.length := by
    by_contra hge
    rw [href.fresh i (Nat.le_of_not_lt hge)] at hpart
    cases hpart
  have hm : s.received[i]? = some s.received[i] := List.getElem?_eq_getElem hlt
  have hout : r ∈ registry.outputs s.received[i] :=
    (href.logOf_isPrefix hs.accounted hm).subset hpart
  refine ⟨s.received[i], hm, ?_⟩
  cases hd : registry.decoderFor s.received[i] with
  | none =>
    rw [DecoderRegistry.outputs_eq_nil hd] at hout
    cases hout
  | some d =>
    refine ⟨(DecoderRegistry.decoderFor_eq_some_iff.mp hd).1, ?_⟩
    obtain ⟨r', hr', hok, herr⟩ := hreg.exists_outputs_eq hd
    rw [hr', List.mem_singleton] at hout
    rw [hout]
    by_cases hend : (d.decode s.received[i]).ending = .ok
    · exact Or.inl (hok hend)
    · exact Or.inr (herr hend)

/-- Every message of the log is on one of the engine's own topics. -/
theorem isOwnTopic_of_mem_log (hreg : registry.Builtin Message Json)
    (hs : s.Reachable cap registry) (hr : (i, r) ∈ s.log) : isOwnTopic r.topic = true := by
  obtain ⟨m, -, -, htopic | htopic⟩ := topic_of_mem_log hreg hs hr <;> simp [isOwnTopic, htopic]

/-- The engine hands over at most one message for each received one. -/
theorem nodup_log_indices (hreg : registry.Builtin Message Json) (hs : s.Reachable cap registry) :
    (s.log.map (·.1)).Nodup := by
  have href := hs.refines
  refine List.nodup_map_fst fun i => ?_
  rcases Nat.lt_or_ge i s.received.length with hlt | hge
  · have hpre := href.logOf_isPrefix hs.accounted (List.getElem?_eq_getElem hlt)
    refine Nat.le_trans hpre.length_le ?_
    cases hd : registry.decoderFor s.received[i] with
    | none => simp [DecoderRegistry.outputs_eq_nil hd]
    | some d =>
      obtain ⟨r, hr, -⟩ := hreg.exists_outputs_eq hd
      simp [hr]
  · have hnil : s.log.part i = [] := href.fresh i hge
    simp [hnil]

end EngineState

/-- The engine, and which of the received messages were published by other clients. -/
structure ClosedState where
  engine : EngineState
  foreign : List ℕ

namespace ClosedState

/-- The system before its first step. -/
def init : ClosedState := ⟨.init, []⟩

variable (cap : ℕ) (registry : DecoderRegistry)

/-- One step of the closed system. -/
inductive Step : ClosedState → ClosedState → Prop
  /-- The broker delivers a message of another client. -/
  | foreign {s m engine'} :
      EngineState.Step cap registry s.engine (.recv (some m)) engine' →
      Step s ⟨engine', s.foreign ++ [s.engine.received.length]⟩
  /-- The broker delivers a message that the engine has published. -/
  | echo {s i r m engine'} :
      (i, r) ∈ s.engine.log → m.topic = r.topic → m.payload = r.payload →
      EngineState.Step cap registry s.engine (.recv (some m)) engine' →
      Step s ⟨engine', s.foreign⟩
  /-- The engine does anything but receive a message. -/
  | engine {s a engine'} :
      (∀ m, a ≠ .recv (some m)) → EngineState.Step cap registry s.engine a engine' →
      Step s ⟨engine', s.foreign⟩

/-- The states of the runs of the closed system. -/
def Reachable (s : ClosedState) : Prop := ReflTransGen (Step cap registry) init s

variable {cap registry} {Message Json : Type} {s s' : ClosedState}

/-- A run of the closed system is a run of the engine. -/
theorem Reachable.engine (h : s.Reachable cap registry) :
    s.engine.Reachable cap registry := by
  induction h with
  | refl => exact .refl
  | tail _ hstep ih =>
    cases hstep with
    | foreign h => exact ih.tail ⟨_, h⟩
    | echo _ _ _ h => exact ih.tail ⟨_, h⟩
    | engine _ h => exact ih.tail ⟨_, h⟩

/-- Whatever other clients did not publish is on one of the engine's own topics. -/
structure EchoesOwn (s : ClosedState) : Prop where
  echo : ∀ i m, s.engine.received[i]? = some m → i ∉ s.foreign → isOwnTopic m.topic = true
  foreign_lt : ∀ i ∈ s.foreign, i < s.engine.received.length

/-- Receiving a message that is on an own topic or was published by another client. -/
theorem EchoesOwn.recv {engine' : EngineState} {m : Publish} {foreign : List ℕ}
    (hs : s.EchoesOwn) (h : EngineState.Step cap registry s.engine (.recv (some m)) engine')
    (hsub : s.foreign ⊆ foreign) (hnew : ∀ i ∈ foreign, i ≤ s.engine.received.length)
    (hm : isOwnTopic m.topic = true ∨ s.engine.received.length ∈ foreign) :
    EchoesOwn ⟨engine', foreign⟩ := by
  have hrec : engine'.received = s.engine.received ++ [m] := h.received_eq
  refine ⟨fun i m' hi hin => ?_, fun i hi => ?_⟩
  · rw [hrec] at hi
    rcases Nat.lt_or_ge i s.engine.received.length with hlt | hge
    · rw [List.getElem?_append_left hlt] at hi
      exact hs.echo i m' hi fun hmem => hin (hsub hmem)
    · -- the message just received
      obtain ⟨hlt, -⟩ := List.getElem?_eq_some_iff.mp hi
      rw [List.length_append, List.length_singleton] at hlt
      obtain rfl : i = s.engine.received.length := by omega
      rw [List.getElem?_concat_length, Option.some_inj] at hi
      rw [← hi]
      exact hm.resolve_right hin
  · rw [hrec, List.length_append, List.length_singleton]
    exact Nat.lt_succ_of_le (hnew i hi)

/-- Every step keeps echoes on the engine's own topics. -/
theorem Step.echoesOwn (h : Step cap registry s s') (hreg : registry.Builtin Message Json)
    (hrun : s.engine.Reachable cap registry) (hs : s.EchoesOwn) : s'.EchoesOwn := by
  cases h with
  | foreign h =>
    refine hs.recv h (List.subset_append_left _ _) (fun i hi => ?_) (Or.inr (by simp))
    rcases List.mem_append.mp hi with hi | hi
    · exact Nat.le_of_lt (hs.foreign_lt i hi)
    · exact Nat.le_of_eq (List.mem_singleton.mp hi)
  | echo hr htopic _ h =>
    refine hs.recv h (List.Subset.refl _) (fun i hi => Nat.le_of_lt (hs.foreign_lt i hi))
      (Or.inl ?_)
    -- an echo has the topic under which the engine has published it
    rw [htopic]
    exact EngineState.isOwnTopic_of_mem_log hreg hrun hr
  | engine hne h =>
    rename_i a engine'
    have hrec : engine'.received = s.engine.received := by
      have hnil : a.received = [] := by
        cases a with
        | recv message =>
          cases message with
          | none => rfl
          | some m => exact absurd rfl (hne m)
        | publish | cancel | silent => rfl
      rw [h.received_eq, hnil, List.append_nil]
    exact ⟨fun i m hi => hs.echo i m (hrec ▸ hi), fun i hi => hrec ▸ hs.foreign_lt i hi⟩

theorem Reachable.echoesOwn (h : s.Reachable cap registry)
    (hreg : registry.Builtin Message Json) : s.EchoesOwn := by
  induction h with
  | refl => exact ⟨by simp [init, EngineState.init], by simp [init]⟩
  | tail hrun hstep ih => exact hstep.echoesOwn hreg (Reachable.engine hrun) ih

/-- A message that was published by the engine is never given to a decoder, everything published is
on the topic of such an input followed by `/decoded` or `/decode_error`, and no more messages are
published than were received from other clients. -/
theorem no_feedback (hreg : registry.Builtin Message Json) (hs : s.Reachable cap registry) :
    (∀ x ∈ s.engine.unreaped ++ s.engine.reaped, x.1 ∈ s.foreign ∧
      s.engine.received[x.1]? = some x.2.message) ∧
    (∀ i r, (i, r) ∈ s.engine.log → i ∈ s.foreign ∧ ∃ m, s.engine.received[i]? = some m ∧
      isOwnTopic m.topic = false ∧
      (r.topic = m.topic ++ "/decoded" ∨ r.topic = m.topic ++ "/decode_error")) ∧
    s.engine.log.length ≤ s.foreign.length := by
  have hecho := hs.echoesOwn hreg
  have hacc := hs.engine.accounted
  have hlog : ∀ i r, (i, r) ∈ s.engine.log → i ∈ s.foreign ∧
      ∃ m, s.engine.received[i]? = some m ∧ isOwnTopic m.topic = false ∧
        (r.topic = m.topic ++ "/decoded" ∨ r.topic = m.topic ++ "/decode_error") := by
    intro i r hr
    obtain ⟨m, hm, hown, htopic⟩ := EngineState.topic_of_mem_log hreg hs.engine hr
    refine ⟨?_, m, hm, hown, htopic⟩
    by_contra hin
    rw [hecho.echo i m hm hin] at hown
    cases hown
  refine ⟨fun x hx => ?_, hlog, ?_⟩
  · obtain ⟨hm, hsome⟩ := hacc.message x hx
    refine ⟨?_, hm⟩
    -- an echo would have been skipped
    by_contra hin
    rw [DecoderRegistry.decoderFor_eq_none_of_isOwnTopic (hecho.echo x.1 _ hm hin)] at hsome
    cases hsome
  · have hlen : (s.engine.log.map (·.1)).length = s.engine.log.length := List.length_map _
    rw [← hlen]
    -- the log has one message for each of its indices, and these are foreign
    refine (List.subperm_of_subset (EngineState.nodup_log_indices hreg hs.engine)
      fun i hi => ?_).length_le
    obtain ⟨x, hx, rfl⟩ := List.mem_map.mp hi
    exact (hlog x.1 x.2 hx).1

/-- The engine goes on by itself. -/
theorem Reachable.of_silent {engine : EngineState} (h : s.Reachable cap registry)
    (hrun : ReflTransGen (EngineState.Silent cap registry) s.engine engine) :
    Reachable cap registry ⟨engine, s.foreign⟩ := by
  induction hrun with
  | refl => exact h
  | tail _ hstep ih => exact ih.tail (.engine (by simp) hstep)

/-- The message that the engine publishes for `EngineState.sensorMessage`, as the broker delivers it
back. -/
def sensorEcho : Publish := { EngineState.sensorMessage with topic := "sensors/a/decoded" }

/-- The engine after it has published that message and has received it. -/
def sensorEchoed : ClosedState :=
  ⟨{ EngineState.sensorPublished with
      received := [EngineState.sensorMessage, sensorEcho], skipped := [1] }, [0]⟩

theorem reachable_sensorEchoed : sensorEchoed.Reachable 2 .sensorRegistry := by
  have hforeign : Reachable 2 .sensorRegistry ⟨.sensorState, [0]⟩ :=
    .single (.foreign (.spawn rfl rfl rfl : EngineState.Step 2 .sensorRegistry .init
      (.recv (some EngineState.sensorMessage)) .sensorState))
  have hsilent : ReflTransGen Task.Silent
      (decodeAndPublish ⟨Utf8Decoder.decode⟩ EngineState.sensorMessage)
      ⟨EngineState.sensorMessage, .joining (.running ⟨[], .ok⟩) .new
        (.publishing { payload := EngineState.sensorMessage.payload })⟩ :=
    .head (.send rfl) (.single (.recv rfl))
  have hpublishing := hforeign.of_silent
    (@EngineState.run_of_silent 2 .sensorRegistry .sensorState 0 _ _ [] [] rfl hsilent)
  have hpublished : Reachable 2 .sensorRegistry ⟨.sensorPublished, [0]⟩ :=
    hpublishing.tail (.engine (by simp [taskAction])
      (@EngineState.Step.task 2 _ _ [] [] 0 _ (some EngineState.sensorDecoded) _ rfl .publish))
  -- there is a decoder for the topic of the echo, but the topic is one of the engine's own
  have hskip : EngineState.Step 2 .sensorRegistry .sensorPublished (.recv (some sensorEcho))
      sensorEchoed.engine := .skip rfl rfl rfl
  have hlog : (0, EngineState.sensorDecoded) ∈ EngineState.sensorPublished.log :=
    List.mem_singleton.mpr rfl
  exact hpublished.tail (.echo hlog rfl rfl hskip)

/-- The echo is received and spawns no task, although it has a decoder in the registry. -/
theorem no_feedback_sensorEchoed :
    sensorEchoed.engine.received = [EngineState.sensorMessage, sensorEcho] ∧
      (DecoderRegistry.sensorRegistry.resolve sensorEcho.topic).isSome = true ∧
      (∀ x ∈ sensorEchoed.engine.unreaped ++ sensorEchoed.engine.reaped, x.1 ∈ [0]) ∧
      sensorEchoed.engine.log.length ≤ 1 := by
  obtain ⟨htasks, -, hlog⟩ :=
    no_feedback DecoderRegistry.sensorRegistry_builtin reachable_sensorEchoed
  exact ⟨rfl, rfl, fun x hx => (htasks x hx).1, hlog⟩

end ClosedState

end RosettaMq
