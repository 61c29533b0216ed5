import RosettaMq.Engine.Accounting
import RosettaMq.ToMathlib.Interleaving

/-!
# The concurrent engine refines the sequential one

The sequential engine would hand over `registry.outputs m` for one received message `m` after the
other. The log of the concurrent engine is an interleaving of prefixes of these lists
(`EngineState.refines_sequential`). The invariant is that what a task has handed over, followed by
what remains, is the output of its message (`EngineState.Refines`).
-/

open Relation

namespace RosettaMq

namespace DecoderRegistry

variable {registry : DecoderRegistry} {m : Publish} {d : ErasedDecoder}

/-- The decoder of a message is a registered one. -/
theorem exists_entry_of_decoderFor (h : registry.decoderFor m = some d) :
    ∃ e ∈ registry.entries, e.decoder = d := by
  unfold decoderFor at h
  split at h
  · cases h
  · obtain ⟨e, he, rfl⟩ := Option.map_eq_some_iff.mp h
    exact ⟨e, (mem_of_resolveEntry he).1, rfl⟩

/-- The decoder of the message, if it has one, returns. -/
def ReturnsOn (registry : DecoderRegistry) (m : Publish) : Prop :=
  ∀ d, registry.decoderFor m = some d →
    (d.decode m).ending ≠ .panic ∧ (d.decode m).ending ≠ .hang

/-- The decoder of the message hangs. -/
def HangsOn (registry : DecoderRegistry) (m : Publish) : Prop :=
  ∃ d, registry.decoderFor m = some d ∧ (d.decode m).ending = .hang

/-- These messages are a first part of the outputs of `m`, and all of them if the decoder
returns. -/
structure Covers (registry : DecoderRegistry) (m : Publish) (rs : List ResolvedDecodePublish) :
    Prop where
  isPrefix : rs <+: registry.outputs m
  eq : registry.ReturnsOn m → rs = registry.outputs m

theorem Returns.returnsOn (hreg : registry.Returns) (m : Publish) : registry.ReturnsOn m := by
  intro d hd
  obtain ⟨e, he, rfl⟩ := exists_entry_of_decoderFor hd
  exact hreg e he m

theorem Terminates.not_hangsOn (hreg : registry.Terminates) (m : Publish) :
    ¬ registry.HangsOn m := by
  rintro ⟨d, hd, hhang⟩
  obtain ⟨e, he, rfl⟩ := exists_entry_of_decoderFor hd
  exact hreg e he m hhang

theorem covers_outputs (registry : DecoderRegistry) (m : Publish) :
    registry.Covers m (registry.outputs m) := ⟨List.prefix_refl _, fun _ => rfl⟩

/-- Nothing is to be handed over for a message without decoder. -/
theorem covers_nil (h : registry.decoderFor m = none) :
    registry.Covers m [] ∧ ¬ registry.HangsOn m := by
  refine ⟨?_, fun ⟨d, hd, _⟩ => by simp [h] at hd⟩
  have hcovers := covers_outputs registry m
  rwa [outputs_eq_nil h] at hcovers

/-- A panic loses what remains. -/
theorem Covers.of_panic {rs rest : List ResolvedDecodePublish}
    (h : registry.Covers m (rs ++ rest)) (hd : registry.decoderFor m = some d)
    (hpanic : (d.decode m).ending = .panic) : registry.Covers m rs :=
  ⟨(List.prefix_append _ _).trans h.isPrefix, fun hret => absurd hpanic (hret d hd).1⟩

end DecoderRegistry

namespace EngineState

variable {cap : ℕ} {registry : DecoderRegistry} {s s' : EngineState} {a : Action}

/-- What was handed over for the message with index `i`. -/
def logOf (s : EngineState) (i : ℕ) : List ResolvedDecodePublish := s.log.part i

/-- What was handed over and what remains make up the output of each message, except for what a
panic has lost. -/
structure Refines (registry : DecoderRegistry) (s : EngineState) : Prop where
  /-- A task that was not reaped has handed over a first part of the output. -/
  unreaped : ∀ x ∈ s.unreaped, ∃ d, registry.decoderFor x.2.message = some d ∧ x.2.Sound d ∧
    registry.Covers x.2.message (s.logOf x.1 ++ x.2.remaining)
  /-- Any other message has been handled, and its decoder has ended. -/
  done : ∀ i m, s.received[i]? = some m → i ∉ s.unreaped.map (·.1) →
    registry.Covers m (s.logOf i) ∧ ¬ registry.HangsOn m
  /-- Nothing was handed over for messages to come. -/
  fresh : ∀ i, s.received.length ≤ i → s.logOf i = []

theorem refines_init : Refines registry init where
  unreaped := by simp [init, EngineState.unreaped]
  done := by simp [init]
  fresh := fun _ _ => rfl

theorem Refines.task (hs : s.Refines registry) (x : ℕ × Task) (hx : x ∈ s.tasks) :
    ∃ d, registry.decoderFor x.2.message = some d ∧ x.2.Sound d ∧
      registry.Covers x.2.message (s.logOf x.1 ++ x.2.remaining) :=
  hs.unreaped x (mem_unreaped_of_mem_tasks hx)

/-- The index of a task is the index of a received message. -/
theorem Accounted.lt_length (hacc : s.Accounted cap registry) {x : ℕ × Task}
    (hx : x ∈ s.unreaped) : x.1 < s.received.length :=
  (List.getElem?_eq_some_iff.mp (hacc.message x (List.mem_append_left _ hx)).1).1

/-- Receiving a message that was handled in full, or one with a task. -/
theorem Refines.done_concat {m m' : Publish} {i : ℕ} {ids : List ℕ} (hs : s.Refines registry)
    (hi : (s.received ++ [m'])[i]? = some m) (hids : i ∉ s.unreaped.map (·.1) ++ ids)
    (hnew : i = s.received.length → registry.decoderFor m' = none) :
    registry.Covers m (s.logOf i) ∧ ¬ registry.HangsOn m := by
  rw [List.mem_append, not_or] at hids
  rcases Nat.lt_or_ge i s.received.length with hlt | hge
  · rw [List.getElem?_append_left hlt] at hi
    exact hs.done i m hi hids.1
  · -- the message just received
    obtain ⟨hlt, -⟩ := List.getElem?_eq_some_iff.mp hi
    rw [List.length_append, List.length_singleton] at hlt
    obtain rfl : i = s.received.length := by omega
    rw [List.getElem?_concat_length, Option.some_inj] at hi
    rw [hs.fresh _ hge, ← hi]
    exact DecoderRegistry.covers_nil (hnew rfl)

/-- Reaping a finished task. -/
theorem Refines.reap {x : ℕ × Task} {rest reaped : List (ℕ × Task)} (hs : s.Refines registry)
    (hacc : s.Accounted cap registry) (hnext : JoinNext s.tasks (some x) rest) :
    Refines registry { s with tasks := rest, reaped := reaped } := by
  obtain ⟨-, -, -, -, hfin⟩ := hnext.of_some
  have hmem : ∀ y, y ∈ s.unreaped ↔ y = x ∨ y ∈ rest ++ s.abandoned := by
    intro y
    rw [EngineState.unreaped, List.mem_append, hnext.mem_iff, List.mem_append, or_assoc]
  refine ⟨fun y hy => hs.unreaped y ((hmem y).mpr (Or.inr hy)), fun i m hi hids => ?_, hs.fresh⟩
  by_cases hin : i ∈ s.unreaped.map (·.1)
  · -- the index is that of the task just reaped, which has nothing left
    obtain ⟨y, hy, rfl⟩ := List.mem_map.mp hin
    rcases (hmem y).mp hy with rfl | hy'
    · have hm := (hacc.message y (List.mem_append_left _ hy)).1
      obtain ⟨d, hd, hsound, hcovers⟩ := hs.unreaped y hy
      have hending := hsound.ne_hang_of_finished hfin
      rw [Task.remaining_eq_nil_of_finished hfin, List.append_nil] at hcovers
      rw [show s.received[y.1]? = some m from hi, Option.some_inj] at hm
      rw [← hm] at hd hending hcovers
      refine ⟨hcovers, ?_⟩
      rintro ⟨d', hd', hhang⟩
      rw [hd, Option.some_inj] at hd'
      exact hending (hd' ▸ hhang)
    · exact absurd (List.mem_map_of_mem hy') hids
  · exact hs.done i m hi hin

/-- Every step keeps the refinement. -/
theorem Step.refines (h : Step cap registry s a s') (hacc : s.Accounted cap registry)
    (hs : s.Refines registry) : s'.Refines registry := by
  cases h with
  | skip _ _ hmsg =>
    rw [handleIncoming_some, Prod.mk.injEq, Option.map_eq_none_iff] at hmsg
    refine ⟨hs.unreaped, fun i m hi hids => ?_, fun i hi => hs.fresh i ?_⟩
    · have hids' : i ∉ s.unreaped.map (·.1) ++ [] := by rwa [List.append_nil]
      exact hs.done_concat hi hids' fun _ => hmsg.2
    · rw [List.length_append] at hi
      omega
  | @spawn m _ hphase _ hmsg =>
    rw [handleIncoming_some, Prod.mk.injEq, Option.map_eq_some_iff] at hmsg
    obtain ⟨-, d, hd, rfl⟩ := hmsg
    have hunreaped : s.tasks ++ [(s.received.length, decodeAndPublish d m)] ++ s.abandoned =
        s.unreaped ++ [(s.received.length, decodeAndPublish d m)] := by
      rw [EngineState.unreaped, hacc.abandoned (by simp [hphase]), List.append_nil,
        List.append_nil]
    refine ⟨fun x hx => ?_, fun i m hi hids => ?_, fun i hi => hs.fresh i ?_⟩
    · rw [EngineState.unreaped, hunreaped, List.mem_append, List.mem_singleton] at hx
      rcases hx with hx | rfl
      · exact hs.unreaped x hx
      · refine ⟨d, hd, Task.sound_decodeAndPublish d _, ?_⟩
        have hlog : s.logOf s.received.length = [] := hs.fresh _ (Nat.le_refl _)
        have hcovers := registry.covers_outputs m
        rw [DecoderRegistry.outputs_eq hd] at hcovers
        rw [Task.remaining_decodeAndPublish]
        exact hlog.symm ▸ hcovers
    · rw [EngineState.unreaped, hunreaped, List.map_append] at hids
      exact hs.done_concat hi hids fun hlen => absurd (by simp [hlen]) hids
    · rw [List.length_append] at hi
      omega
  | closed | cancelled | cancel => exact ⟨hs.unreaped, hs.done, hs.fresh⟩
  | timeout hphase =>
    have hunreaped : ([] ++ s.tasks : List (ℕ × Task)) = s.unreaped := by
      rw [hacc.unreaped_eq (by simp [hphase]), List.nil_append]
    refine ⟨?_, ?_, hs.fresh⟩
    · rw [EngineState.unreaped, hunreaped]
      exact hs.unreaped
    · rw [EngineState.unreaped, hunreaped]
      exact hs.done
  | noBranch => exact ⟨hs.unreaped, hs.done, hs.fresh⟩
  | joinNext _ _ hnext => exact hs.reap hacc hnext
  | drainNext _ hnext => exact hs.reap hacc hnext
  | drained _ hnext =>
    obtain ⟨-, rfl⟩ := hnext.of_none
    exact ⟨hs.unreaped, hs.done, hs.fresh⟩
  | task htasks hstep =>
    rename_i l₁ l₂ i t l t'
    have hmem : (i, t) ∈ s.unreaped := mem_unreaped_of_mem_tasks (by rw [htasks]; simp)
    have hids : ((l₁ ++ (i, t') :: l₂) ++ s.abandoned).map (·.1) = s.unreaped.map (·.1) := by
      rw [EngineState.unreaped, htasks]
      simp
    have hnodup := hacc.unreaped_nodup
    obtain ⟨d, hd, hsound, hcovers⟩ := hs.unreaped (i, t) hmem
    -- the log of every other message is as it was
    have hother : ∀ j, j ≠ i → (s.log ++ l.toList.map (i, ·)).part j = s.logOf j := by
      intro j hj
      rw [List.part_append, List.part_map_of_ne hj, List.append_nil, logOf]
    refine ⟨fun x hx => ?_, fun j m hj hout => ?_, fun j hj => ?_⟩
    · by_cases hxi : x = (i, t')
      · subst hxi
        refine ⟨d, by rw [hstep.message_eq]; exact hd, hstep.sound hsound, ?_⟩
        rw [logOf, List.part_append, List.part_map_self, hstep.message_eq]
        -- what is handed over goes from the front of what remains to the end of the log
        rcases hstep.remaining_eq hsound with hrem | ⟨rfl, hnil, hpanic, -⟩
        · rw [List.append_assoc, ← hrem]
          exact hcovers
        · rw [hnil, List.append_nil, Option.toList_none, List.append_nil]
          exact hcovers.of_panic hd hpanic
      · -- no other task has the index `i`
        have hx' : x ∈ s.unreaped ∧ x.1 ≠ i := by
          rw [EngineState.unreaped, htasks, List.append_assoc, List.cons_append] at hnodup ⊢
          rw [EngineState.unreaped, List.append_assoc, List.cons_append] at hx
          simp only [List.mem_append, List.mem_cons, hxi, false_or] at hx
          rw [List.map_append, List.map_cons] at hnodup
          refine ⟨by simp only [List.mem_append, List.mem_cons]; tauto, ?_⟩
          rintro rfl
          have hnot := List.nodup_middle.mp hnodup
          rw [List.nodup_cons, List.mem_append] at hnot
          rcases hx with hx | hx
          · exact hnot.1 (Or.inl (List.mem_map.mpr ⟨x, hx, rfl⟩))
          · exact hnot.1 (Or.inr (List.mem_map.mpr ⟨x, List.mem_append.mpr hx, rfl⟩))
        rw [logOf, hother x.1 hx'.2]
        exact hs.unreaped x hx'.1
    · rw [EngineState.unreaped, hids] at hout
      have hne : j ≠ i := by
        rintro rfl
        exact hout (List.mem_map_of_mem hmem)
      rw [logOf, hother j hne]
      exact hs.done j m hj hout
    · have hne : j ≠ i := by
        rintro rfl
        exact absurd (hacc.lt_length hmem) (Nat.not_lt_of_le hj)
      rw [logOf, hother j hne]
      exact hs.fresh j hj

theorem Reachable.refines (h : s.Reachable cap registry) : s.Refines registry :=
  h.invariant refines_init fun hrun hstep hs => hstep.refines hrun.accounted hs

/-! ## The log as an interleaving -/

/-- What was handed over for each received message. -/
def parts (s : EngineState) : List (List ResolvedDecodePublish) :=
  (List.range s.received.length).map s.logOf

theorem Refines.isInterleaving_log (hs : s.Refines registry) :
    s.parts.IsInterleaving (s.log.map (·.2)) :=
  List.isInterleaving_part hs.fresh

/-- Nothing but output of the message was handed over for it. -/
theorem Refines.logOf_isPrefix (hs : s.Refines registry) (hacc : s.Accounted cap registry) {i : ℕ}
    {m : Publish} (hi : s.received[i]? = some m) : s.logOf i <+: registry.outputs m := by
  by_cases hin : i ∈ s.unreaped.map (·.1)
  · obtain ⟨x, hx, rfl⟩ := List.mem_map.mp hin
    have hm := (hacc.message x (List.mem_append_left _ hx)).1
    rw [hi, Option.some_inj] at hm
    obtain ⟨d, -, -, hcovers⟩ := hs.unreaped x hx
    rw [hm]
    exact (List.prefix_append _ _).trans hcovers.isPrefix
  · exact (hs.done i m hi hin).1.isPrefix

theorem Refines.forall₂_parts (hs : s.Refines registry) (hacc : s.Accounted cap registry) :
    List.Forall₂ (fun part m => part <+: registry.outputs m) s.parts s.received := by
  rw [List.forall₂_iff_get]
  refine ⟨by simp [parts], fun i h₁ h₂ => ?_⟩
  have hget : s.parts.get ⟨i, h₁⟩ = s.logOf i := by simp [parts]
  rw [hget]
  exact hs.logOf_isPrefix hacc (List.getElem?_eq_getElem h₂)

/-- Unless the message has a task, or one that was abandoned, all of its output was handed over. -/
theorem Refines.logOf_eq (hs : s.Refines registry) (hreg : registry.Returns) {i : ℕ} {m : Publish}
    (hi : s.received[i]? = some m) (hin : i ∉ s.unreaped.map (·.1)) :
    s.logOf i = registry.outputs m :=
  (hs.done i m hi hin).1.eq (hreg.returnsOn m)

/-- A message whose output was not handed over in full has a task that was not reaped, so there are
at most as many of them as there are such tasks. -/
theorem Refines.countP_unfinished_le (hs : s.Refines registry) (hacc : s.Accounted cap registry)
    (hreg : registry.Returns) :
    (List.range s.received.length).countP
      (fun i => s.parts[i]? ≠ (s.received.map registry.outputs)[i]?) ≤ cap := by
  refine Nat.le_trans ?_ hacc.unreaped_le
  have hlen : (s.unreaped.map (·.1)).length = s.unreaped.length := List.length_map _
  rw [List.countP_eq_length_filter, ← hlen]
  -- each index that is counted is the index of a task
  refine (List.subperm_of_subset (List.nodup_range.filter _) fun i hi => ?_).length_le
  obtain ⟨hi, hne⟩ := List.mem_filter.mp hi
  rw [List.mem_range] at hi
  by_contra hin
  have hlog := hs.logOf_eq hreg (List.getElem?_eq_getElem hi) hin
  simp [parts, hi, hlog] at hne

/-- When no task is live, and none was abandoned, every output was handed over in full. -/
theorem Refines.parts_eq (hs : s.Refines registry) (hacc : s.Accounted cap registry)
    (hreg : registry.Returns) (hphase : s.phase ≠ .timedOut)
    (hlive : ∀ x ∈ s.tasks, x.2.finished = true) :
    s.parts = s.received.map registry.outputs := by
  refine List.ext_getElem (by simp [parts]) fun i h₁ h₂ => ?_
  have hi : i < s.received.length := by simpa [parts] using h₁
  have hm : s.received[i]? = some s.received[i] := List.getElem?_eq_getElem hi
  simp only [parts, List.getElem_map, List.getElem_range]
  by_cases hin : i ∈ s.unreaped.map (·.1)
  · rw [hacc.unreaped_eq hphase] at hin
    obtain ⟨x, hx, rfl⟩ := List.mem_map.mp hin
    have hmsg := (hacc.task hx).1
    obtain ⟨d, -, -, hcovers⟩ := hs.task x hx
    rw [Task.remaining_eq_nil_of_finished (hlive x hx), List.append_nil] at hcovers
    rw [hm, Option.some_inj] at hmsg
    rw [hmsg]
    exact hcovers.eq (hreg.returnsOn _)
  · exact hs.logOf_eq hreg hm hin

/-! ## One task at a time -/

/-- With a cap of one only the last received message can have a task that was not reaped, and the
log is gathered in the order of receipt. -/
structure Sequential (s : EngineState) : Prop where
  last : ∀ x ∈ s.unreaped, x.1 + 1 = s.received.length
  log_eq : s.log.map (·.2) = (List.range s.received.length).flatMap s.logOf

/-- Room under a cap of one means that there is no task. -/
theorem tasks_eq_nil_of_enabled (h : s.enabled 1 .recv = true) : s.tasks = [] := by
  simp only [enabled, decide_eq_true_eq] at h
  exact List.length_eq_zero_iff.mp (by omega)

theorem Sequential.log_eq_concat {m : Publish} (hs : s.Sequential) (href : s.Refines registry) :
    s.log.map (·.2) = (List.range (s.received ++ [m]).length).flatMap s.logOf := by
  rw [List.length_append, List.length_singleton, List.range_succ, List.flatMap_append,
    List.flatMap_singleton, href.fresh _ (Nat.le_refl _), List.append_nil]
  exact hs.log_eq

theorem Sequential.of_joinNext {x : ℕ × Task} {rest reaped : List (ℕ × Task)} (hs : s.Sequential)
    (hnext : JoinNext s.tasks (some x) rest) :
    Sequential { s with tasks := rest, reaped := reaped } := by
  refine ⟨fun y hy => hs.last y ?_, hs.log_eq⟩
  rw [EngineState.unreaped, List.mem_append, hnext.mem_iff]
  exact (List.mem_append.mp hy).imp Or.inr id

/-- With a cap of one every step keeps the order. -/
theorem Step.sequential (h : Step 1 registry s a s') (hacc : s.Accounted 1 registry)
    (href : s.Refines registry) (hs : s.Sequential) : s'.Sequential := by
  cases h with
  | skip hphase hroom =>
    refine ⟨fun x hx => ?_, hs.log_eq_concat href⟩
    rw [EngineState.unreaped, tasks_eq_nil_of_enabled hroom, hacc.abandoned (by simp [hphase])]
      at hx
    cases hx
  | spawn hphase hroom =>
    refine ⟨fun x hx => ?_, hs.log_eq_concat href⟩
    rw [EngineState.unreaped, tasks_eq_nil_of_enabled hroom, hacc.abandoned (by simp [hphase]),
      List.nil_append, List.append_nil, List.mem_singleton] at hx
    rw [hx, List.length_append, List.length_singleton]
  | closed | cancelled | noBranch | cancel => exact ⟨hs.last, hs.log_eq⟩
  | timeout => exact ⟨fun x hx => hs.last x (mem_unreaped_of_mem_tasks hx), hs.log_eq⟩
  | joinNext _ _ hnext => exact hs.of_joinNext hnext
  | drainNext _ hnext => exact hs.of_joinNext hnext
  | drained _ hnext =>
    obtain ⟨-, rfl⟩ := hnext.of_none
    exact ⟨hs.last, hs.log_eq⟩
  | task htasks hstep =>
    rename_i l₁ l₂ i t l t'
    have hlast : i + 1 = s.received.length :=
      hs.last (i, t) (mem_unreaped_of_mem_tasks (by rw [htasks]; simp))
    refine ⟨fun x hx => ?_, ?_⟩
    · have hx' : x ∈ s.unreaped ∨ x = (i, t') := by
        simp only [EngineState.unreaped, htasks, List.mem_append, List.mem_cons] at hx ⊢
        tauto
      rcases hx' with hx' | rfl
      · exact hs.last x hx'
      · exact hlast
    · -- the entries before the last message are untouched, and the new ones come last
      have hbefore : ∀ j ∈ List.range i,
          (s.log ++ l.toList.map (i, ·)).part j = s.logOf j := by
        intro j hj
        have hne : j ≠ i := Nat.ne_of_lt (List.mem_range.mp hj)
        rw [List.part_append, List.part_map_of_ne hne, List.append_nil, logOf]
      have hlog := hs.log_eq
      rw [← hlast, List.range_succ, List.flatMap_append, List.flatMap_singleton] at hlog ⊢
      rw [List.map_append, hlog, List.append_assoc]
      congr 1
      · exact (List.flatMap_congr hbefore).symm
      · rw [logOf, logOf, List.part_append, List.part_map_self, List.map_map]
        simp

theorem Reachable.sequential (h : s.Reachable 1 registry) : s.Sequential :=
  h.invariant ⟨by simp [init, EngineState.unreaped], rfl⟩ fun hrun hstep hs =>
    hstep.sequential hrun.accounted hrun.refines hs

/-- With a cap of one the log is the output of all messages but the last, then what was handed over
for the last one. -/
theorem log_eq_of_cap_one (hs : s.Reachable 1 registry) (hreg : registry.Returns)
    {ms : List Publish} {m : Publish} (hrec : s.received = ms ++ [m]) :
    s.log.map (·.2) = ms.flatMap registry.outputs ++ s.logOf ms.length := by
  have hseq := hs.sequential
  have href := hs.refines
  rw [hseq.log_eq, hrec, List.length_append, List.length_singleton, List.range_succ,
    List.flatMap_append, List.flatMap_singleton]
  congr 1
  refine List.flatMap_range_eq _ _ _ fun i m' hi => ?_
  have hlt : i < ms.length := (List.getElem?_eq_some_iff.mp hi).1
  -- a message before the last one has no task any more
  refine href.logOf_eq hreg (by rw [hrec, List.getElem?_append_left hlt, hi]) fun hin => ?_
  obtain ⟨x, hx, rfl⟩ := List.mem_map.mp hin
  have hlast := hseq.last x hx
  rw [hrec, List.length_append, List.length_singleton] at hlast
  omega

/-- In every reachable state the log is an interleaving of prefixes of the outputs of the received
messages, at most `cap` of them unfinished. With a cap of one it is the sequential log, up to the
last message. Unless the drain has timed out, which aborts tasks, nothing is unfinished when no task
is live. -/
theorem refines_sequential (hreg : registry.Returns) (hs : s.Reachable cap registry) :
    ∃ parts : List (List ResolvedDecodePublish),
      parts.IsInterleaving (s.log.map (·.2)) ∧
      List.Forall₂ (fun part m => part <+: registry.outputs m) parts s.received ∧
      (List.range s.received.length).countP
        (fun i => parts[i]? ≠ (s.received.map registry.outputs)[i]?) ≤ cap ∧
      (s.phase ≠ .timedOut → (∀ x ∈ s.tasks, x.2.finished = true) →
        parts = s.received.map registry.outputs) ∧
      (cap = 1 → ∀ ms m, s.received = ms ++ [m] → ∃ part, part <+: registry.outputs m ∧
        s.log.map (·.2) = ms.flatMap registry.outputs ++ part ∧
        (s.phase ≠ .timedOut → (∀ x ∈ s.tasks, x.2.finished = true) →
          part = registry.outputs m)) := by
  have hacc := hs.accounted
  have href := hs.refines
  refine ⟨s.parts, href.isInterleaving_log, href.forall₂_parts hacc,
    href.countP_unfinished_le hacc hreg, href.parts_eq hacc hreg, ?_⟩
  rintro rfl ms m hrec
  have hm : s.received[ms.length]? = some m := by rw [hrec]; simp
  refine ⟨s.logOf ms.length, href.logOf_isPrefix hacc hm, log_eq_of_cap_one hs hreg hrec,
    fun hphase hlive => ?_⟩
  have hparts := congrArg (·[ms.length]?) (href.parts_eq hacc hreg hphase hlive)
  simpa [parts, hrec] using hparts

/-- The message that the decoder of `sensors/a` makes of `sensorMessage`. -/
def sensorDecoded : ResolvedDecodePublish :=
  DecodePublish.resolve { payload := [0x34, 0x32] } sensorMessage

example : sensorDecoded = ⟨"sensors/a/decoded", .atLeastOnce, false, [0x34, 0x32]⟩ := by decide

/-- The engine after it has handed that message over, before the decoder has returned. -/
def sensorPublished : EngineState :=
  { sensorState with
    tasks := [(0, ⟨sensorMessage, .joining (.running ⟨[], .ok⟩) .new .receiving⟩)]
    log := [(0, sensorDecoded)] }

theorem reachable_sensorPublished : sensorPublished.Reachable 1 .sensorRegistry := by
  have hsilent : ReflTransGen Task.Silent (decodeAndPublish ⟨Utf8Decoder.decode⟩ sensorMessage)
      ⟨sensorMessage, .joining (.running ⟨[], .ok⟩) .new
        (.publishing { payload := sensorMessage.payload })⟩ :=
    .head (.send rfl) (.single (.recv rfl))
  refine ReflTransGen.trans reachable_sensorState ?_
  have hrun := @run_of_silent 1 .sensorRegistry sensorState 0 _ _ [] [] rfl hsilent
  exact .tail (ReflTransGen.mono (fun _ _ h => ⟨_, h⟩) _ _ hrun)
    ⟨.publish 0 sensorDecoded, @Step.task 1 _ _ [] [] 0 _ (some sensorDecoded) _ rfl .publish⟩

theorem refines_sequential_sensorPublished :
    ∃ part, part <+: DecoderRegistry.sensorRegistry.outputs sensorMessage ∧
      [sensorDecoded] = [].flatMap DecoderRegistry.sensorRegistry.outputs ++ part := by
  obtain ⟨-, -, -, -, -, hone⟩ := refines_sequential
    DecoderRegistry.sensorRegistry_builtin.returns reachable_sensorPublished
  obtain ⟨part, hpart, hlog, -⟩ := hone rfl [] sensorMessage rfl
  exact ⟨part, hpart, hlog⟩

end EngineState

end RosettaMq
