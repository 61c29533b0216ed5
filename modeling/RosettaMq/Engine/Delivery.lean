import RosettaMq.Decoder.Builtin
import RosettaMq.Engine.Refinement

/-!
# Delivery with the built-in decoders

A built-in decoder makes exactly one message of each message it is given. So each received message
that has a decoder, and whose topic is not one of the engine's own, is answered by exactly one
message (`EngineState.delivered`).
-/

open Relation

namespace RosettaMq

variable {Message Json : Type}

namespace DecoderRegistry

variable {registry : DecoderRegistry} {m : Publish} {d : ErasedDecoder}

/-- A message that has a decoder is answered by one message. -/
theorem Builtin.exists_outputs_eq (h : registry.Builtin Message Json)
    (hd : registry.decoderFor m = some d) :
    ∃ r, registry.outputs m = [r] ∧
      ((d.decode m).ending = .ok → r.topic = m.topic ++ "/decoded") ∧
      ((d.decode m).ending ≠ .ok → r.topic = m.topic ++ "/decode_error") := by
  obtain ⟨e, he, rfl⟩ := exists_entry_of_decoderFor hd
  obtain ⟨b, hb⟩ := h e he
  rw [outputs_eq hd, hb]
  exact b.exists_outputs_eq m

end DecoderRegistry

namespace EngineState

variable {cap : ℕ} {registry : DecoderRegistry} {s s' : EngineState} {a : Action} {i : ℕ}
  {m : Publish} {d : ErasedDecoder}

/-- A received message without decoder is skipped. -/
theorem Accounted.mem_skipped (hacc : s.Accounted cap registry) (hi : s.received[i]? = some m)
    (hnone : registry.decoderFor m = none) : i ∈ s.skipped := by
  have hmem : i ∈ s.ids :=
    hacc.ids_perm.mem_iff.mpr (List.mem_range.mpr (List.getElem?_eq_some_iff.mp hi).1)
  rw [ids, List.append_assoc, ← List.map_append, List.mem_append] at hmem
  rcases hmem with hmem | hmem
  · exact hmem
  · obtain ⟨x, hx, rfl⟩ := List.mem_map.mp hmem
    obtain ⟨hx, hsome⟩ := hacc.message x hx
    rw [hi, Option.some_inj] at hx
    rw [← hx, hnone] at hsome
    cases hsome

/-- What becomes of a received message that has a decoder in the registry. If its topic is not one
of the engine's own, it is answered by exactly one message, on `/decoded` or `/decode_error`, once
its task was reaped, and by no other before. Unless the drain times out, a task leaves the set in no
other way. A message on one of the engine's own topics is skipped. -/
theorem delivered (hreg : registry.Builtin Message Json) (hs : s.Reachable cap registry)
    (hi : s.received[i]? = some m) (hres : registry.resolve m.topic = some d) :
    (isOwnTopic m.topic = false → ∃ r : ResolvedDecodePublish,
      ((d.decode m).ending = .ok → r.topic = m.topic ++ "/decoded") ∧
      ((d.decode m).ending ≠ .ok → r.topic = m.topic ++ "/decode_error") ∧
      s.logOf i <+: [r] ∧
      (s.phase ≠ .timedOut → i ∉ s.tasks.map (·.1) → s.logOf i = [r]) ∧
      (i ∈ s.reaped.map (·.1) → s.logOf i = [r]) ∧
      (s.phase = .returned → s.logOf i = [r])) ∧
    (isOwnTopic m.topic = true → i ∈ s.skipped ∧ s.logOf i = []) := by
  have hacc := hs.accounted
  have href := hs.refines
  constructor
  · intro hown
    have hd : registry.decoderFor m = some d :=
      DecoderRegistry.decoderFor_eq_some_iff.mpr ⟨hown, hres⟩
    obtain ⟨r, hout, hok, herr⟩ := hreg.exists_outputs_eq hd
    have hdone : i ∉ s.unreaped.map (·.1) → s.logOf i = [r] := fun hin =>
      (href.logOf_eq hreg.returns hi hin).trans hout
    refine ⟨r, hok, herr, hout ▸ href.logOf_isPrefix hacc hi, fun hphase hin => hdone ?_,
      fun hin => hdone (hacc.not_mem_unreaped_of_reaped hin), fun hphase => hdone ?_⟩
    · rwa [hacc.unreaped_eq hphase]
    · rw [hacc.unreaped_eq_nil hphase]
      exact List.not_mem_nil
  · intro hown
    have hnone : registry.decoderFor m = none :=
      DecoderRegistry.decoderFor_eq_none_of_isOwnTopic hown
    have hskip := hacc.mem_skipped hi hnone
    refine ⟨hskip, ?_⟩
    rw [href.logOf_eq hreg.returns hi (hacc.not_mem_unreaped_of_skipped hskip),
      DecoderRegistry.outputs_eq_nil hnone]

theorem delivered_sensorPublished :
    ∃ r : ResolvedDecodePublish, r.topic = sensorMessage.topic ++ "/decoded" ∧
      sensorPublished.logOf 0 <+: [r] := by
  have hi : sensorPublished.received[0]? = some sensorMessage := rfl
  have hres : DecoderRegistry.sensorRegistry.resolve sensorMessage.topic =
      some ⟨Utf8Decoder.decode⟩ := rfl
  obtain ⟨hone, -⟩ := delivered DecoderRegistry.sensorRegistry_builtin reachable_sensorPublished
    hi hres
  obtain ⟨r, htopic, -, hpre, -⟩ := hone (by decide)
  exact ⟨r, htopic rfl, hpre⟩

/-- A registry that maps every topic. -/
def hashRegistry : DecoderRegistry where
  entries := [⟨⟨"#", [0], rfl⟩, ⟨Utf8Decoder.decode⟩⟩]
  nodup := by decide

/-- A message of another client, on a topic that ends like the engine's own. -/
def foreignDecoded : Publish := ⟨false, .atMostOnce, false, "machine/decoded", 0, [0x31]⟩

/-- The engine after it has received that message, and has returned because `incoming` closed. -/
def foreignDropped : EngineState :=
  { init with phase := .returned, received := [foreignDecoded], skipped := [0] }

/-- The message of another client has a decoder, the engine has published nothing and has returned
without a timeout, and nothing was handed over for the message. -/
theorem foreign_decoded_is_dropped :
    foreignDropped.Reachable 1 hashRegistry ∧ foreignDropped.phase = .returned ∧
      foreignDropped.received = [foreignDecoded] ∧ foreignDropped.cancelledAt = none ∧
      hashRegistry.resolve foreignDecoded.topic = some ⟨Utf8Decoder.decode⟩ ∧
      foreignDropped.log = [] := by
  refine ⟨?_, rfl, rfl, rfl, rfl, rfl⟩
  have hskip : Step 1 hashRegistry init (.recv (some foreignDecoded))
      { init with received := [foreignDecoded], skipped := [0] } := .skip rfl rfl rfl
  have hclosed : Step 1 hashRegistry { init with received := [foreignDecoded], skipped := [0] }
      (.recv none)
      { init with phase := .draining, received := [foreignDecoded], skipped := [0] } :=
    .closed rfl rfl rfl
  have hdrained : Step 1 hashRegistry
      { init with phase := .draining, received := [foreignDecoded], skipped := [0] } .silent
      foreignDropped := .drained rfl .empty
  exact .head ⟨_, hskip⟩ (.head ⟨_, hclosed⟩ (.single ⟨_, hdrained⟩))

end EngineState

end RosettaMq
