import RosettaMq.Client.Outage
import RosettaMq.Config.Routing
import RosettaMq.Decoder.Text
import RosettaMq.Engine.Feedback

/-!
# What the broker sees

The requests that come into the client's request channel are those of the broker's view of the
process. In every run they begin with the subscriptions, in the order of the configuration, and go
on with at most one message for each message that was received, made by the decoder that the
configuration maps its topic to (`Startup.wire_sound`). Whatever bytes the devices send, what goes
out is text (`Startup.wire_text`).
-/

open Relation

namespace RosettaMq

variable {Message Json : Type}

/-! ## Built-in decoders -/

/-- What a built-in decoder makes of a message has its quality of service and its retain flag. -/
theorem BuiltinDecoder.qos_of_mem_outputs (d : BuiltinDecoder Message Json) {m : Publish}
    {r : ResolvedDecodePublish} (hr : r ∈ d.erase.outputs m) :
    r.qos = m.qos ∧ r.retain = m.retain := by
  rcases d.decode_cases m with ⟨payload, h⟩ | ⟨e, h⟩
  · simp only [ErasedDecoder.outputs, h, DecodeRun.sendOne, Ending.report, List.map_cons,
      List.map_nil, List.append_nil, List.mem_singleton] at hr
    rw [hr]
    exact ⟨rfl, rfl⟩
  · simp only [ErasedDecoder.outputs, h, DecodeRun.fail, Ending.report, List.map_nil,
      List.nil_append, List.mem_singleton] at hr
    rw [hr]
    exact ⟨rfl, rfl⟩

/-- `DecoderConfig::build` makes built-in decoders only. -/
theorem DecoderConfig.exists_builtin {toolchain : Toolchain Message Json} {baseDir : String}
    {config : DecoderConfig} {decoder : ErasedDecoder}
    (h : config.build toolchain baseDir = .ok decoder) :
    ∃ d : BuiltinDecoder Message Json, decoder = d.erase := by
  cases config with
  | hexdump | utf8 => exact ⟨_, (Except.ok.inj h).symm⟩
  | protobuf config =>
    cases hbuild : toolchain.protobuf baseDir config with
    | error e => simp [DecoderConfig.build, hbuild] at h
    | ok d =>
      simp only [DecoderConfig.build, hbuild] at h
      exact ⟨_, (Except.ok.inj h).symm⟩
  | template config =>
    cases hbuild : toolchain.template config with
    | error e => simp [DecoderConfig.build, hbuild] at h
    | ok d =>
      simp only [DecoderConfig.build, hbuild] at h
      exact ⟨_, (Except.ok.inj h).symm⟩

/-- The decoders that are compiled serialize to text. -/
def Toolchain.WritesText (toolchain : Toolchain Message Json) : Prop :=
  ∀ baseDir config decoder, toolchain.protobuf baseDir config = .ok decoder → decoder.WritesText

/-- With such a toolchain all decoders make text only. -/
theorem DecoderConfig.exists_payload_eq {toolchain : Toolchain Message Json} {baseDir : String}
    {config : DecoderConfig} {decoder : ErasedDecoder} {m : Publish} {r : ResolvedDecodePublish}
    (h : config.build toolchain baseDir = .ok decoder) (htext : toolchain.WritesText)
    (hr : r ∈ decoder.outputs m) : ∃ s : String, intoBytes s = r.payload := by
  cases config with
  | hexdump =>
    cases h
    exact BuiltinDecoder.exists_payload_eq (.hexdump : BuiltinDecoder Message Json) trivial hr
  | utf8 =>
    cases h
    exact BuiltinDecoder.exists_payload_eq (.utf8 : BuiltinDecoder Message Json) trivial hr
  | protobuf config =>
    cases hbuild : toolchain.protobuf baseDir config with
    | error e => simp [DecoderConfig.build, hbuild] at h
    | ok d =>
      simp only [DecoderConfig.build, hbuild] at h
      obtain rfl := Except.ok.inj h
      exact BuiltinDecoder.exists_payload_eq (.protobuf d : BuiltinDecoder Message Json)
        (htext _ _ _ hbuild) hr
  | template config =>
    cases hbuild : toolchain.template config with
    | error e => simp [DecoderConfig.build, hbuild] at h
    | ok d =>
      simp only [DecoderConfig.build, hbuild] at h
      obtain rfl := Except.ok.inj h
      exact BuiltinDecoder.exists_payload_eq (.template d : BuiltinDecoder Message Json) trivial hr

/-- The registry that `main` builds has built-in decoders only. -/
theorem Config.builtin_of_buildRegistry {toolchain : Toolchain Message Json} {baseDir : String}
    {config : Config} {registry : DecoderRegistry}
    (h : config.buildRegistry toolchain baseDir = .ok registry) :
    registry.Builtin Message Json := by
  intro e he
  obtain ⟨mapping, -, -, -, _, _, -, -, hbuild⟩ := exists_mapping h he
  exact DecoderConfig.exists_builtin hbuild

/-! ## The order of the requests -/

/-- The request for a message that is handed over. -/
def Request.ofPublish (x : ℕ × ResolvedDecodePublish) : Request := .publish x.1 x.2

/-- The requests that have come into the request channel. -/
def Pipeline.sent (s : Pipeline) : List Request := s.taken ++ s.requests.buf

/-- The pipeline only adds messages that it hands over, and only if there is a task. -/
theorem Pipeline.Step.sent_eq {cap : ℕ} {registry : DecoderRegistry} {s s' : Pipeline}
    (h : Pipeline.Step cap registry s s') :
    ∃ xs : List (ℕ × ResolvedDecodePublish), s'.sent = s.sent ++ xs.map .ofPublish ∧
      s'.handed = s.handed ++ xs ∧ (s.engine.tasks = [] → xs = []) := by
  cases h with
  | pollRequest _ hrecv =>
    obtain ⟨hbuf, -, -⟩ := Chan.recv_eq_some_iff.mp hrecv
    exact ⟨[], by simp [Pipeline.sent, hbuf], by simp, fun _ => rfl⟩
  | publish hsend hstep =>
    rename_i i r _ _
    obtain ⟨-, -, hbuf, -, -⟩ := Chan.send_eq_some_iff.mp hsend
    obtain ⟨l₁, l₂, _, _, htasks, -, -⟩ := hstep.of_publish
    refine ⟨[(i, r)], by simp [Pipeline.sent, hbuf, Request.ofPublish], rfl, fun hnil => ?_⟩
    rw [hnil] at htasks
    simp at htasks
  | pollPublish | forward | forwardFails | recv | publishFails | engine | dropIncoming =>
    exact ⟨[], (List.append_nil _).symm, (List.append_nil _).symm, fun _ => rfl⟩

namespace Main

variable {cap : ℕ} {registry : DecoderRegistry} {s s' : Main} {filters subs : List String}

/-- First come the subscriptions `subs`, then what was handed over. -/
structure Wired (filters subs : List String) (s : Main) : Prop where
  sent : s.pipeline.sent = subs.map .subscribe ++ s.pipeline.handed.map .ofPublish
  isPrefix : subs <+: filters
  /-- While `main` subscribes there is nothing to hand over. -/
  subscribing : ∀ left, s.phase = .subscribing left →
    subs ++ left = filters ∧ s.pipeline.handed = [] ∧ s.pipeline.engine = .init
  running : s.phase = .selecting ∨ s.phase = .awaiting → subs = filters
  complete : s.pipeline.handed ≠ [] → subs = filters

/-- A step of the pipeline, after the subscriptions. -/
theorem Wired.running_step {pipeline : Pipeline} (hs : s.Wired filters subs)
    (hphase : s.phase = .selecting ∨ s.phase = .awaiting)
    (h : Pipeline.Step cap registry s.pipeline pipeline) :
    Wired filters subs { s with pipeline := pipeline } := by
  obtain ⟨xs, hsent, hhanded, -⟩ := h.sent_eq
  refine ⟨?_, hs.isPrefix, fun left hleft => ?_, hs.running, fun _ => hs.running hphase⟩
  · dsimp only
    rw [hsent, hhanded, hs.sent, List.map_append, List.append_assoc]
  · rw [show s.phase = .subscribing left from hleft] at hphase
    rcases hphase with h | h <;> cases h

/-- Every step of `main` keeps this order. -/
theorem Step.wired (h : Step cap registry s s') (hs : s.Wired filters subs) :
    ∃ subs', s'.Wired filters subs' := by
  cases h with
  | @subscribe filter left requests hphase hsend =>
    -- the first filter that is left is the next subscription
    obtain ⟨hall, hnil, hengine⟩ := hs.subscribing _ hphase
    obtain ⟨-, -, hbuf, -, -⟩ := Chan.send_eq_some_iff.mp hsend
    have hsent := hs.sent
    rw [hnil, List.map_nil, List.append_nil] at hsent
    refine ⟨subs ++ [filter], ?_, ?_, ?_, by simp, fun hne => absurd hnil hne⟩
    · dsimp only [Pipeline.sent]
      rw [hbuf, hnil, List.map_nil, List.append_nil, List.map_append, ← hsent, Pipeline.sent,
        List.append_assoc]
      rfl
    · exact ⟨left, by simpa using hall⟩
    · intro left' hleft
      obtain rfl := MainPhase.subscribing.inj hleft
      exact ⟨by simpa using hall, hnil, hengine⟩
  | subscribeFails hphase =>
    obtain ⟨-, hnil, -⟩ := hs.subscribing _ hphase
    exact ⟨subs, hs.sent, hs.isPrefix, nofun, by simp, fun hne => absurd hnil hne⟩
  | connected hphase hstep hsame =>
    -- without an engine there is no task
    obtain ⟨hall, hnil, hengine⟩ := hs.subscribing _ hphase
    obtain ⟨xs, hsent, hhanded, hxs⟩ := hstep.sent_eq
    obtain rfl := hxs (by rw [hengine]; rfl)
    rw [List.append_nil] at hhanded
    rw [List.map_nil, List.append_nil] at hsent
    refine ⟨subs, ?_, hs.isPrefix, fun left hleft => ?_, hs.running, ?_⟩
    · dsimp only
      rw [hsent, hhanded, hs.sent]
    · obtain rfl := MainPhase.subscribing.inj (hphase.symm.trans hleft)
      exact ⟨hall, hhanded.trans hnil, hsame.trans hengine⟩
    · exact fun hne => absurd (hhanded.trans hnil) hne
  | spawn hphase =>
    obtain ⟨hall, -, -⟩ := hs.subscribing _ hphase
    rw [List.append_nil] at hall
    exact ⟨subs, hs.sent, hs.isPrefix, nofun, fun _ => hall, hs.complete⟩
  | running hphase hstep => exact ⟨subs, hs.running_step hphase hstep⟩
  | driverReturned hphase | ctrlC hphase =>
    have hall := hs.running (Or.inl hphase)
    exact ⟨subs, hs.sent, hs.isPrefix, nofun, fun _ => hall, hs.complete⟩
  | joined => exact ⟨subs, hs.sent, hs.isPrefix, nofun, by simp, hs.complete⟩

end Main

namespace Startup

variable {cap : ℕ} {registry : DecoderRegistry} {replies : ℕ → List Publish} {s s' : Startup}
  {filters : List String}

theorem LossyStep.wired {subs : List String} (h : LossyStep cap registry replies s s')
    (hs : s.main.Wired filters subs) : ∃ subs', s'.main.Wired filters subs' := by
  cases h with
  | up hstep =>
    cases hstep with
    | main hmain => exact hmain.wired hs
    | reply => exact ⟨subs, hs.sent, hs.isPrefix, hs.subscribing, hs.running, hs.complete⟩
  | pollFails =>
    -- what is in the channel stays there, even if nobody takes it
    exact ⟨subs, hs.sent, hs.isPrefix, hs.subscribing, hs.running, hs.complete⟩

theorem LossyReachable.wired (h : s.LossyReachable cap registry replies filters) :
    ∃ subs, s.main.Wired filters subs := by
  induction h with
  | refl =>
    refine ⟨[], rfl, List.nil_prefix, fun left hleft => ?_, nofun, fun hne => absurd rfl hne⟩
    exact ⟨(MainPhase.subscribing.inj hleft).symm, rfl, rfl⟩
  | tail _ hstep ih =>
    obtain ⟨subs, hs⟩ := ih
    exact hstep.wired hs

/-! ## The result -/

/-- What was handed over for a message is what the decoder of its topic makes of it. -/
theorem exists_entry_of_mem_log {e : EngineState} {i : ℕ} {r : ResolvedDecodePublish}
    (hreg : registry.Builtin Message Json) (he : e.Reachable cap registry) (hr : (i, r) ∈ e.log) :
    ∃ m entry, e.received[i]? = some m ∧ isOwnTopic m.topic = false ∧
      registry.resolveEntry m.topic = some entry ∧ entry.decoder.outputs m = [r] ∧
      r.qos = m.qos ∧ r.retain = m.retain := by
  obtain ⟨m, hm, hown, -⟩ := EngineState.topic_of_mem_log hreg he hr
  have hout : r ∈ registry.outputs m :=
    (he.refines.logOf_isPrefix he.accounted hm).subset (List.mem_part.mpr hr)
  cases hd : registry.decoderFor m with
  | none =>
    rw [DecoderRegistry.outputs_eq_nil hd] at hout
    cases hout
  | some d =>
    obtain ⟨-, hres⟩ := DecoderRegistry.decoderFor_eq_some_iff.mp hd
    obtain ⟨entry, hentry, rfl⟩ := Option.map_eq_some_iff.mp hres
    obtain ⟨b, hb⟩ := hreg entry (DecoderRegistry.mem_of_resolveEntry hentry).1
    rw [DecoderRegistry.outputs_eq hd] at hout
    obtain ⟨r', hsingle, -⟩ := b.exists_outputs_eq m
    rw [← hb] at hsingle
    rw [hsingle, List.mem_singleton] at hout
    refine ⟨m, entry, hm, hown, hentry, hout ▸ hsingle, ?_⟩
    refine b.qos_of_mem_outputs ?_
    rw [← hb, hsingle, hout]
    simp

/-- As long as the topics of the broker's messages have no wildcards, neither has the topic of any
message that a task hands to the client, accepted or not. -/
theorem validTopic_of_mem_log (hreg : registry.Builtin Message Json)
    (hs : s.LossyReachable cap registry replies filters)
    (hreplies : ∀ i, ∀ m ∈ replies i, mqttbytes.validTopic m.topic = true)
    {x : ℕ × ResolvedDecodePublish} (hx : x ∈ s.main.pipeline.engine.log) :
    mqttbytes.validTopic x.2.topic = true := by
  have hconsistent := hs.coherent.pipeline
  obtain ⟨m, hm, -, htopic⟩ := EngineState.topic_of_mem_log hreg hconsistent.engine hx
  have hmem : m ∈ (List.range s.replied).flatMap replies :=
    ((List.prefix_append _ _).trans hconsistent.inOrder.isPrefix).subset (List.mem_of_getElem? hm)
  obtain ⟨i, -, hi⟩ := List.mem_flatMap.mp hmem
  have hvalid := hreplies i m hi
  rw [mqttbytes.validTopic] at hvalid ⊢
  rcases htopic with htopic | htopic <;> rw [htopic] <;> simpa using hvalid

/-- In every run of the process, with or without loss of the connection, and for the registry that
`main` builds: the requests in the channel begin with the subscriptions to the configured filters,
in order, and no message comes before the last of them. The messages that follow answer different
received messages, which are the first of those the broker has delivered. Each answers one that is
on none of the engine's own topics, is all that the decoder of the entry for that topic makes of it,
and has its quality of service and its retain flag; the entry is that of a configured block. -/
theorem wire_sound {toolchain : Toolchain Message Json} {baseDir : String} {config : Config}
    (hbuild : config.buildRegistry toolchain baseDir = .ok registry)
    (hs : s.LossyReachable cap registry replies (config.topics.map (·.topicFilter))) :
    ∃ (subs : List String) (answers : List (ℕ × ResolvedDecodePublish)),
      s.main.pipeline.taken ++ s.main.pipeline.requests.buf =
        subs.map .subscribe ++ answers.map (fun x => .publish x.1 x.2) ∧
      subs <+: config.topics.map (·.topicFilter) ∧
      (answers ≠ [] → subs = config.topics.map (·.topicFilter)) ∧
      (answers.map (·.1)).Nodup ∧
      s.main.pipeline.engine.received <+: (List.range s.replied).flatMap replies ∧
      ∀ x ∈ answers, ∃ m entry, s.main.pipeline.engine.received[x.1]? = some m ∧
        isOwnTopic m.topic = false ∧ registry.resolveEntry m.topic = some entry ∧
        entry.decoder.outputs m = [x.2] ∧ x.2.qos = m.qos ∧ x.2.retain = m.retain ∧
        ∃ mapping ∈ config.topics, config.EntryOf toolchain baseDir mapping entry := by
  have hreg : registry.Builtin Message Json := Config.builtin_of_buildRegistry hbuild
  obtain ⟨subs, hwired⟩ := hs.wired
  have hconsistent := hs.coherent.pipeline
  refine ⟨subs, s.main.pipeline.handed, hwired.sent, hwired.isPrefix, hwired.complete, ?_, ?_,
    fun x hx => ?_⟩
  · -- what was handed over is in the log, where no message has two answers
    exact (EngineState.nodup_log_indices hreg hconsistent.engine).sublist
      (hconsistent.handed.map _)
  · exact (List.prefix_append _ _).trans hconsistent.inOrder.isPrefix
  · have hlog : (x.1, x.2) ∈ s.main.pipeline.engine.log := hconsistent.handed.subset hx
    obtain ⟨m, entry, hm, hown, hentry, hout, hqos, hretain⟩ :=
      exists_entry_of_mem_log hreg hconsistent.engine hlog
    obtain ⟨hmem, -⟩ := DecoderRegistry.mem_of_resolveEntry hentry
    obtain ⟨mapping, hmapping, -, hof⟩ := Config.exists_mapping hbuild hmem
    exact ⟨m, entry, hm, hown, hentry, hout, hqos, hretain, mapping, hmapping, hof⟩

/-- A message that is no text. -/
def binaryMessage : Publish := ⟨false, .atMostOnce, false, "devices/42", 0, [0xFF]⟩

/-- What the UTF-8 decoder makes of it. -/
def binaryReport : ResolvedDecodePublish :=
  (errorPublish (.decode (Utf8Error.display ⟨0, some 1⟩)) binaryMessage).resolve binaryMessage

/-- The pipeline takes a step while the engine runs. -/
theorem LossyReachable.running {p : Pipeline} (h : s.LossyReachable cap registry replies filters)
    (hphase : s.main.phase = .selecting) (hstep : Pipeline.Step cap registry s.main.pipeline p) :
    LossyReachable cap registry replies filters
      { s with main := { s.main with pipeline := p } } :=
  h.tail (.up (.main (.running (Or.inl hphase) hstep)))

/-- The only task of the engine takes a step that publishes nothing. -/
theorem LossyReachable.task {i : ℕ} {t t' : Task}
    (h : s.LossyReachable cap registry replies filters) (hphase : s.main.phase = .selecting)
    (htasks : s.main.pipeline.engine.tasks = [(i, t)]) (hstep : t.Step none t') :
    LossyReachable cap registry replies filters
      { s with main := { s.main with pipeline := { s.main.pipeline with
        engine := { s.main.pipeline.engine with tasks := [(i, t')] } } } } :=
  h.running hphase (.engine (@EngineState.silent_task _ _ _ [] [] i t t' htasks hstep))

open Config in
/-- A run in which the bytes of a device come in and the error is reported. -/
theorem exists_run_binary :
    ∃ s : Startup, s.LossyReachable 1 devicesRegistry (fun _ => [binaryMessage]) ["devices/#"] ∧
      s.main.pipeline.taken = [.subscribe "devices/#"] ∧
      s.main.pipeline.requests.buf = [.publish 0 binaryReport] := by
  have hsubscribed : LossyReachable 1 devicesRegistry (fun _ => [binaryMessage]) ["devices/#"] _ :=
    .tail (.single (.up (.main (.subscribe rfl rfl))))
      (.up (.main (.connected rfl (.pollRequest rfl rfl) rfl)))
  have hdelivered := hsubscribed.tail (.up (.reply (by decide)))
  have hforwarded :=
    (hdelivered.tail (.up (.main (.connected rfl (.pollPublish rfl rfl) rfl)))).tail
      (.up (.main (.connected rfl (.forward rfl rfl) rfl)))
  have hreceived := LossyReachable.running
    (hforwarded.tail (.up (.main (.spawn rfl)))) rfl (.recv rfl (.spawn rfl rfl rfl))
  -- the decoder fails, and the error is reported
  have hfailed := ((LossyReachable.task hreceived rfl rfl .err).task rfl rfl
    (.recvNone rfl)).task rfl rfl .joinErr
  exact ⟨_, hfailed.running rfl (.publish rfl
    (@EngineState.Step.task _ _ _ [] [] 0 _ (some binaryReport) _ rfl .report)), rfl, rfl⟩

open Config in
/-- The report of these bytes is one of the answers. -/
theorem wire_sound_devices :
    ∃ s : Startup, s.LossyReachable 1 devicesRegistry (fun _ => [binaryMessage]) ["devices/#"] ∧
      s.main.pipeline.requests.buf = [.publish 0 binaryReport] ∧
      ∃ m entry, s.main.pipeline.engine.received[0]? = some m ∧
        devicesRegistry.resolveEntry m.topic = some entry ∧
        entry.decoder.outputs m = [binaryReport] := by
  let config : Config := { devicesConfig with topics := [⟨"devices/#", some (.literal .utf8)⟩] }
  have hbuild : config.buildRegistry noToolchain "." = .ok devicesRegistry := rfl
  obtain ⟨s, hs, -, hbuf⟩ := exists_run_binary
  obtain ⟨subs, answers, hsent, -, -, -, -, hanswers⟩ := wire_sound hbuild hs
  have hmem : (0, binaryReport) ∈ answers := by
    have hpublish : Request.publish 0 binaryReport ∈
        subs.map .subscribe ++ answers.map fun x => .publish x.1 x.2 := by
      rw [← hsent, hbuf]
      simp
    simpa using hpublish
  obtain ⟨m, entry, hm, -, hentry, hout, -⟩ := hanswers _ hmem
  exact ⟨s, hs, hbuf, m, entry, hm, hentry, hout⟩

/-- In every run of the process, with or without loss of the connection, and for the registry that
`main` builds: if the JSON serializer writes text, the payload of every message in the request
channel is text, whatever bytes have come in. -/
theorem wire_text {toolchain : Toolchain Message Json} {baseDir : String} {config : Config}
    (htext : toolchain.WritesText) (hbuild : config.buildRegistry toolchain baseDir = .ok registry)
    (hs : s.LossyReachable cap registry replies (config.topics.map (·.topicFilter))) :
    ∀ i r, .publish i r ∈ s.main.pipeline.taken ++ s.main.pipeline.requests.buf →
      ∃ text : String, intoBytes text = r.payload := by
  intro i r hmem
  obtain ⟨subs, hwired⟩ := hs.wired
  have hsent := hwired.sent
  rw [Pipeline.sent] at hsent
  rw [hsent] at hmem
  have hlog : (i, r) ∈ s.main.pipeline.engine.log := by
    refine hs.coherent.pipeline.handed.subset ?_
    simpa [Request.ofPublish] using hmem
  obtain ⟨m, entry, -, -, hentry, hout, -⟩ := exists_entry_of_mem_log
    (Config.builtin_of_buildRegistry hbuild) hs.coherent.pipeline.engine hlog
  obtain ⟨hmem, -⟩ := DecoderRegistry.mem_of_resolveEntry hentry
  obtain ⟨mapping, -, -, -, _, _, -, -, hdecoder⟩ := Config.exists_mapping hbuild hmem
  exact DecoderConfig.exists_payload_eq hdecoder htext (hout ▸ List.mem_singleton_self r)

open Config in
/-- What goes out for these bytes is a text. -/
theorem wire_text_devices :
    ∃ s : Startup, s.LossyReachable 1 devicesRegistry (fun _ => [binaryMessage]) ["devices/#"] ∧
      s.main.pipeline.requests.buf = [.publish 0 binaryReport] ∧
      ∃ text : String, intoBytes text = binaryReport.payload := by
  let config : Config := { devicesConfig with topics := [⟨"devices/#", some (.literal .utf8)⟩] }
  have hbuild : config.buildRegistry noToolchain "." = .ok devicesRegistry := rfl
  have htext : noToolchain.WritesText := fun _ _ _ h => by cases h
  obtain ⟨s, hs, -, hbuf⟩ := exists_run_binary
  refine ⟨s, hs, hbuf, wire_text htext hbuild hs 0 _ (List.mem_append_right _ ?_)⟩
  rw [hbuf]
  exact List.mem_singleton_self _

end Startup

end RosettaMq
