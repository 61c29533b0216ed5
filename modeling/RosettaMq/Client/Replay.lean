import RosettaMq.Client.Mirroring
import RosettaMq.Client.Wire
import RosettaMq.Decoder.Recovery

/-!
# Reading the mirror back

Where all decoders are those for text and for hex dumps, each published message tells the message it
was made of. Here this is said of whole runs: what is read back from all that was given to the
client is, up to order, a part of what was received, and all of it when nothing is left to do. A
pipeline without overload always ends so, and not in a deadlock (`Startup.replay`).
-/

open Relation

namespace RosettaMq

/-- The decoder that writes like this. -/
def Rendering.decoder : Rendering → BuiltinDecoder Unit Unit
  | .text => .utf8
  | .hexdump => .hexdump

theorem Rendering.recoverable (rendering : Rendering) (m : Publish) :
    Recoverable rendering rendering.decoder.erase m := by
  cases rendering with
  | text => exact recoverable_utf8 m
  | hexdump => exact recoverable_hexdump m

/-- What the mirror tells of a message. -/
structure Content where
  topic : String
  payload : List UInt8
  qos : QoS
  retain : Bool
  deriving DecidableEq, Repr

/-- The packet identifier and the flag of a repeated delivery are not mirrored. -/
def Publish.content (m : Publish) : Content := ⟨m.topic, m.payload, m.qos, m.retain⟩

namespace DecoderRegistry

variable {registry : DecoderRegistry} {kind : RegistryEntry → Rendering} {m : Publish}
  {e : RegistryEntry} {r : ResolvedDecodePublish}

/-- Each decoder of the registry writes as `kind` says. -/
def RendersAs (registry : DecoderRegistry) (kind : RegistryEntry → Rendering) : Prop :=
  ∀ e ∈ registry.entries, e.decoder = (kind e).decoder.erase

theorem RendersAs.builtin (h : registry.RendersAs kind) : registry.Builtin Unit Unit :=
  fun e he => ⟨_, h e he⟩

/-- How the payloads for a topic are written. -/
def renderingOf (registry : DecoderRegistry) (kind : RegistryEntry → Rendering) (topic : String) :
    Rendering :=
  ((registry.resolveEntry topic).map kind).getD .text

/-- What a published message tells: first the topic, and with it how the payload is written. -/
def readBack (registry : DecoderRegistry) (kind : RegistryEntry → Rendering)
    (r : ResolvedDecodePublish) : Option Content :=
  match stripSuffix r.topic "/decode_error" with
  | some topic => some ⟨topic, recoverFailed r.payload, r.qos, r.retain⟩
  | none => (stripSuffix r.topic "/decoded").map fun topic =>
      ⟨topic, recoverDecoded (registry.renderingOf kind topic) r.payload, r.qos, r.retain⟩

/-- What is published for a message tells the message. -/
theorem readBack_of_outputs (hentry : registry.resolveEntry m.topic = some e)
    (hkind : e.decoder = (kind e).decoder.erase) (hr : e.decoder.outputs m = [r]) :
    registry.readBack kind r = some m.content := by
  have hrendering : registry.renderingOf kind m.topic = kind e := by
    rw [renderingOf, hentry]
    rfl
  rw [hkind] at hr
  obtain ⟨r', hr', hrecover⟩ := (kind e).recoverable m
  obtain rfl := List.singleton_inj.mp (hr'.symm.trans hr)
  obtain ⟨hqos, hretain⟩ := (kind e).decoder.qos_of_mem_outputs (hr ▸ List.mem_singleton_self r')
  obtain ⟨r'', hr'', hok, herr⟩ := (kind e).decoder.exists_outputs_eq m
  obtain rfl := List.singleton_inj.mp (hr''.symm.trans hr)
  by_cases hend : ((kind e).decoder.erase.decode m).ending = .ok
  · rw [hok hend, recover_decoded, Option.some_inj, Prod.mk.injEq] at hrecover
    rw [readBack, hok hend, stripSuffix_decoded, stripSuffix_append, Option.map_some, hrendering,
      hrecover.2, hqos, hretain]
    rfl
  · rw [herr hend, recover_failed, Option.some_inj, Prod.mk.injEq] at hrecover
    rw [readBack, herr hend, stripSuffix_append, hrecover.2, hqos, hretain]
    rfl

end DecoderRegistry

/-! ## The log of the engine -/

namespace EngineState

variable {cap : ℕ} {registry : DecoderRegistry} {kind : RegistryEntry → Rendering}
  {s : EngineState} {i : ℕ} {r : ResolvedDecodePublish}

/-- Whether the message is given to a decoder. -/
def decodable (registry : DecoderRegistry) (m : Publish) : Bool := (registry.decoderFor m).isSome

/-- A message that was handed over tells a message that was received and has a decoder. -/
theorem Reachable.readBack_eq (hs : s.Reachable cap registry) (hkind : registry.RendersAs kind)
    (hr : (i, r) ∈ s.log) :
    i ∈ s.received.indicesOf (decodable registry) ∧
      registry.readBack kind r = s.received[i]?.map (·.content) := by
  obtain ⟨m, e, hm, hown, hentry, hout, -⟩ := Startup.exists_entry_of_mem_log hkind.builtin hs hr
  have hdec : registry.decoderFor m = some e.decoder :=
    DecoderRegistry.decoderFor_eq_some_iff.mpr
      ⟨hown, by rw [DecoderRegistry.resolve, hentry]; rfl⟩
  refine ⟨List.mem_indicesOf.mpr ⟨m, hm, by rw [decodable, hdec]; rfl⟩, ?_⟩
  rw [hm, DecoderRegistry.readBack_of_outputs hentry
    (hkind e (DecoderRegistry.mem_of_resolveEntry hentry).1) hout]
  rfl

/-- Reading back a part of the log is looking up the received messages. -/
theorem Reachable.filterMap_readBack (hs : s.Reachable cap registry)
    (hkind : registry.RendersAs kind) {handed : List (ℕ × ResolvedDecodePublish)}
    (hsub : handed ⊆ s.log) :
    (handed.map (·.2)).filterMap (registry.readBack kind) =
      ((handed.map (·.1)).filterMap (s.received[·]?)).map (·.content) := by
  rw [List.filterMap_map, List.map_filterMap, List.filterMap_map]
  exact List.filterMap_congr fun x hx => (hs.readBack_eq hkind (hsub hx)).2

/-- The log has an entry for each received message with a decoder, once all tasks were reaped. -/
theorem Reachable.mem_log_iff (hs : s.Reachable cap registry) (hkind : registry.RendersAs kind)
    (hunreaped : s.unreaped = []) :
    i ∈ s.log.map (·.1) ↔ i ∈ s.received.indicesOf (decodable registry) := by
  constructor
  · intro hi
    obtain ⟨x, hx, rfl⟩ := List.mem_map.mp hi
    exact (hs.readBack_eq hkind hx).1
  · intro hi
    obtain ⟨m, hm, hdec⟩ := List.mem_indicesOf.mp hi
    obtain ⟨d, hd⟩ := Option.isSome_iff_exists.mp hdec
    obtain ⟨r, hr, -⟩ := hkind.builtin.exists_outputs_eq hd
    have hlog := hs.refines.logOf_eq hkind.builtin.returns hm
      (by simp [hunreaped])
    rw [hr] at hlog
    have hmem : r ∈ s.log.part i := by
      rw [show s.log.part i = [r] from hlog]
      exact List.mem_singleton_self r
    exact List.mem_map_of_mem (f := Prod.fst) (List.mem_part.mp hmem)

end EngineState

namespace Pipeline

variable {cap : ℕ} {registry : DecoderRegistry} {kind : RegistryEntry → Rendering}
  {deliveries : List Publish} {s : Pipeline}

/-- The messages the client was given: those the driver has taken, and those in the request
channel. -/
def published (s : Pipeline) : List ResolvedDecodePublish :=
  ((s.taken ++ s.requests.buf).filterMap Request.asPublish).map (·.2)

/-- What is read back is a part of what was received and has a decoder. -/
theorem readBack_subperm (hkind : registry.RendersAs kind)
    (hs : Main.Consistent cap registry deliveries s) :
    (∀ r ∈ s.published, (registry.readBack kind r).isSome = true) ∧
    (s.published.filterMap (registry.readBack kind)).Subperm
      ((s.engine.received.filter (EngineState.decodable registry)).map (·.content)) := by
  have hsub : s.handed ⊆ s.engine.log := hs.handed.subset
  rw [published, ← hs.conserved]
  constructor
  · intro r hr
    obtain ⟨x, hx, rfl⟩ := List.mem_map.mp hr
    obtain ⟨hi, hread⟩ := hs.engine.readBack_eq hkind (hsub hx)
    obtain ⟨m, hm, -⟩ := List.mem_indicesOf.mp hi
    rw [hread, hm]
    rfl
  · rw [hs.engine.filterMap_readBack hkind hsub]
    -- each received message is told once at most
    have hnodup : (s.handed.map (·.1)).Nodup :=
      (EngineState.nodup_log_indices hkind.builtin hs.engine).sublist (hs.handed.map _)
    have hids : s.handed.map (·.1) ⊆
        s.engine.received.indicesOf (EngineState.decodable registry) := by
      intro i hi
      obtain ⟨x, hx, rfl⟩ := List.mem_map.mp hi
      exact (hs.engine.readBack_eq hkind (hsub hx)).1
    obtain ⟨l, hperm, hpart⟩ := List.subperm_of_subset_indicesOf hnodup hids
    exact ⟨l.map (·.content), hperm.map _, hpart.map _⟩

/-- When there is nothing left to do, all of it is read back. -/
theorem readBack_perm (hkind : registry.RendersAs kind) (hs : s.Intact cap registry deliveries)
    (hidle : ¬ s.Unfinished) :
    (s.published.filterMap (registry.readBack kind)).Perm
      ((deliveries.filter (EngineState.decodable registry)).map (·.content)) := by
  have hengine := hs.live.engine
  have hunreaped : s.engine.unreaped = [] := by
    rw [hengine.accounted.unreaped_eq (by simp [hs.live.running.phase])]
    by_contra hne
    exact hidle (Or.inr (Or.inr (Or.inr (Or.inl hne))))
  have hreceived := (hs.mirrored hkind.builtin.returns hidle).received
  rw [published, ← hs.conserved, hs.handed, hengine.filterMap_readBack hkind fun _ h => h,
    ← hreceived]
  refine (List.perm_of_mem_iff_indicesOf ?_ fun i => ?_).map _
  · exact EngineState.nodup_log_indices hkind.builtin hengine
  · exact hengine.mem_log_iff hkind hunreaped

end Pipeline

namespace Startup

variable {cap : ℕ} {registry : DecoderRegistry} {kind : RegistryEntry → Rendering}

/-- With decoders for text and hex dumps only, the mirror is a record of what came in. In every run
of the process, with or without loss of the connection, everything the client was given can be read
back, and together it is, up to order, a part of the received messages that have a decoder. In every
run of the pipeline that ends with nothing left to do it is all the delivered messages that have
one, and if the deliveries are no overload this is how every run ends. -/
theorem replay (cap : ℕ) (hkind : registry.RendersAs kind) :
    (∀ replies filters s, LossyReachable cap registry replies filters s →
      (∀ r ∈ s.main.pipeline.published, (registry.readBack kind r).isSome = true) ∧
      (s.main.pipeline.published.filterMap (registry.readBack kind)).Subperm
        ((s.main.pipeline.engine.received.filter (EngineState.decodable registry)).map
          (·.content))) ∧
    (∀ deliveries s, Pipeline.Reachable cap registry deliveries s → ¬ s.Unfinished →
      (s.published.filterMap (registry.readBack kind)).Perm
        ((deliveries.filter (EngineState.decodable registry)).map (·.content))) ∧
    (∀ deliveries, 1 ≤ cap → ¬ Pipeline.Overload cap registry deliveries →
      ∀ s, Pipeline.Reachable cap registry deliveries s →
        Final (Pipeline.Step cap registry) s → ¬ s.Unfinished) := by
  have hreg := hkind.builtin.returns
  refine ⟨fun replies filters s hs => ?_, fun deliveries s hs hidle => ?_,
    fun deliveries hcap hload s hs hfinal => ?_⟩
  · exact Pipeline.readBack_subperm hkind (LossyReachable.coherent hs).pipeline
  · have hstart := @Pipeline.intact_start cap registry deliveries fun m _ =>
      hreg.terminates.not_hangsOn m
    exact Pipeline.readBack_perm hkind
      ((Pipeline.descends_step deliveries).of_run hstart hs) hidle
  · exact Pipeline.not_unfinished_of_final hcap hreg.terminates hload hs hfinal

open Config in
/-- The report of the bytes of a device can be read back. -/
theorem replay_devices :
    ∃ s : Startup, s.LossyReachable 1 devicesRegistry (fun _ => [binaryMessage]) ["devices/#"] ∧
      s.main.pipeline.published = [binaryReport] ∧
      (devicesRegistry.readBack (fun _ => .text) binaryReport).isSome = true := by
  have hkind : devicesRegistry.RendersAs fun _ => .text := by
    intro e he
    rw [List.mem_singleton.mp he]
    rfl
  obtain ⟨s, hs, htaken, hbuf⟩ := exists_run_binary
  have hpublished : s.main.pipeline.published = [binaryReport] := by
    rw [Pipeline.published, htaken, hbuf]
    rfl
  refine ⟨s, hs, hpublished, ((replay 1 hkind).1 _ _ s hs).1 _ ?_⟩
  rw [hpublished]
  exact List.mem_singleton_self _

end Startup

end RosettaMq
