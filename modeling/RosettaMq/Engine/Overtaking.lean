import RosettaMq.Engine.Refinement

/-!
# Overtaking

With several tasks at a time the outputs of a message may come before those of messages that were
received earlier. When an output is handed over, the earlier messages that are not done yet all have
a task, so with a cap of `cap` an output overtakes fewer than `cap` earlier messages
(`EngineState.overtakes_lt`).
-/

open Relation

namespace RosettaMq

namespace EngineState

variable {cap : ℕ} {registry : DecoderRegistry} {s s' : EngineState} {a : Action}

/-- A step adds no task but that of the message it receives. -/
theorem Step.mem_tasks (h : Step cap registry s a s') {i : ℕ} (hi : i ∈ s'.tasks.map (·.1)) :
    i ∈ s.tasks.map (·.1) ∨ i = s.received.length := by
  cases h with
  | spawn =>
    rw [List.map_append, List.mem_append] at hi
    exact hi.imp_right (by simp)
  | joinNext _ _ hnext | drainNext _ hnext =>
    obtain ⟨x, hx, rfl⟩ := List.mem_map.mp hi
    exact Or.inl (List.mem_map_of_mem (hnext.mem_iff.mpr (Or.inr hx)))
  | drained _ hnext =>
    obtain ⟨-, rfl⟩ := hnext.of_none
    exact Or.inl hi
  | task htasks =>
    rw [htasks]
    exact Or.inl (by simpa using hi)
  | timeout => cases hi
  | skip | closed | cancelled | noBranch | cancel => exact Or.inl hi

/-- What is handed over comes from a task of the set. -/
theorem Step.published_mem (h : Step cap registry s a s') {x : ℕ × ResolvedDecodePublish}
    (hx : x ∈ a.published) : x.1 ∈ s.tasks.map (·.1) := by
  cases a with
  | publish i r =>
    obtain rfl := List.mem_singleton.mp hx
    obtain ⟨l₁, l₂, t, t', htasks, -, -⟩ := h.of_publish
    rw [htasks]
    simp
  | recv | cancel | silent => cases hx

/-- The messages received before the one with index `j` that still have a task, or that have an
output in `l`, are among fewer than `cap` ones. -/
def FewBefore (cap : ℕ) (s : EngineState) (j : ℕ) (l : List (ℕ × ResolvedDecodePublish)) : Prop :=
  ∃ ids : List ℕ, ids.length < cap ∧
    ∀ i < j, i ∈ s.tasks.map (·.1) ∨ i ∈ l.map (·.1) → i ∈ ids

/-- When an output is handed over, the messages with another task are few. -/
theorem fewBefore_nil (hs : s.Accounted cap registry) {j : ℕ} (hj : j ∈ s.tasks.map (·.1)) :
    s.FewBefore cap j [] := by
  refine ⟨(s.tasks.map (·.1)).erase j, ?_, fun i hlt hi => ?_⟩
  · have hle := hs.tasks_le
    have hpos := List.length_pos_of_mem hj
    rw [List.length_erase_of_mem hj, List.length_map]
    rw [List.length_map] at hpos
    omega
  · have hmem : i ∈ s.tasks.map (·.1) := by simpa using hi
    exact (List.mem_erase_of_ne (Nat.ne_of_lt hlt)).mpr hmem

/-- No step makes them more. -/
theorem FewBefore.step {j : ℕ} {l : List (ℕ × ResolvedDecodePublish)}
    (hs : s.FewBefore cap j l) (h : Step cap registry s a s') (hj : j < s.received.length) :
    s'.FewBefore cap j (l ++ a.published) := by
  obtain ⟨ids, hlen, hids⟩ := hs
  refine ⟨ids, hlen, fun i hlt hi => hids i hlt ?_⟩
  rw [List.map_append, List.mem_append] at hi
  rcases hi with hi | hi | hi
  · -- a task that is added is not that of an earlier message
    rcases h.mem_tasks hi with hi | rfl
    · exact Or.inl hi
    · omega
  · exact Or.inr hi
  · obtain ⟨x, hx, rfl⟩ := List.mem_map.mp hi
    exact Or.inl (h.published_mem hx)

/-- After every output of the log only few earlier messages have another one, now or later. -/
def InTurn (cap : ℕ) (s : EngineState) : Prop :=
  ∀ l₁ j r l₂, s.log = l₁ ++ (j, r) :: l₂ → s.FewBefore cap j l₂

/-- Every step keeps this. -/
theorem Step.inTurn (h : Step cap registry s a s') (hreach : s.Reachable cap registry)
    (hs : s.InTurn cap) : s'.InTurn cap := by
  have hacc := hreach.accounted
  have hfresh := hreach.refines.fresh
  intro l₁ j r l₂ hlog
  rw [h.log_eq] at hlog
  -- an entry that was there before, with what has been added after it
  have hold : ∀ l, s.log = l₁ ++ (j, r) :: l → l ++ a.published = l₂ →
      s'.FewBefore cap j l₂ := by
    intro l hsplit hl
    rw [← hl]
    refine (hs l₁ j r l hsplit).step h ?_
    by_contra hge
    have hmem : r ∈ s.logOf j := List.mem_part.mpr (by rw [hsplit]; simp)
    rw [hfresh j (Nat.le_of_not_lt hge)] at hmem
    cases hmem
  cases a with
  | recv | cancel | silent =>
    simp only [Action.published, List.append_nil] at hlog
    exact hold l₂ hlog (List.append_nil l₂)
  | publish i r' =>
    rcases l₂.eq_nil_or_concat' with rfl | ⟨l, x, rfl⟩
    · -- the entry that has just been added
      obtain ⟨-, heq⟩ := List.append_inj' hlog rfl
      obtain ⟨rfl, rfl⟩ := Prod.mk.inj (List.singleton_inj.mp heq)
      have hj : i ∈ s.tasks.map (·.1) :=
        @Step.published_mem _ _ _ _ _ h (i, r') (List.mem_singleton.mpr rfl)
      obtain ⟨k₁, k₂, t, t', htasks, -, rfl⟩ := h.of_publish
      obtain ⟨ids, hlen, hids⟩ := fewBefore_nil hacc hj
      refine ⟨ids, hlen, fun j hlt hi => hids j hlt ?_⟩
      rw [htasks]
      simpa using hi
    · rw [← List.cons_append, ← List.append_assoc] at hlog
      obtain ⟨hsplit, heq⟩ := List.append_inj' hlog rfl
      exact hold l hsplit (congrArg (l ++ ·) heq)

theorem Reachable.inTurn (h : s.Reachable cap registry) : s.InTurn cap :=
  h.invariant (fun _ _ _ _ hlog => by simp [init] at hlog)
    fun hrun hstep hs => hstep.inTurn hrun hs

/-- In every run an output overtakes fewer than `cap` messages: of the messages received before its
own, fewer than `cap` have an output after it. -/
theorem overtakes_lt (hs : s.Reachable cap registry)
    {l₁ l₂ : List (ℕ × ResolvedDecodePublish)} {j : ℕ} {r : ResolvedDecodePublish}
    (hlog : s.log = l₁ ++ (j, r) :: l₂) :
    (List.range j).countP (fun i => l₂.part i ≠ []) < cap := by
  obtain ⟨ids, hlen, hids⟩ := hs.inTurn l₁ j r l₂ hlog
  refine Nat.lt_of_le_of_lt ?_ hlen
  rw [List.countP_eq_length_filter]
  -- each message that is counted is among `ids`
  refine (List.subperm_of_subset (List.nodup_range.filter _) fun i hi => ?_).length_le
  obtain ⟨hlt, hne⟩ := List.mem_filter.mp hi
  obtain ⟨r', hr'⟩ := List.exists_mem_of_ne_nil _ (by simpa using hne)
  exact hids i (List.mem_range.mp hlt) (Or.inr (List.mem_map_of_mem (List.mem_part.mp hr')))

/-- A task for `sensorMessage` runs until it has handed over its message. -/
theorem run_of_sensorTask {s : EngineState} {i : ℕ} (l₁ l₂ : List (ℕ × Task))
    (htasks : s.tasks =
      l₁ ++ (i, decodeAndPublish ⟨Utf8Decoder.decode⟩ sensorMessage) :: l₂) :
    ReflTransGen (Next cap registry) s
      { s with
        tasks := l₁ ++ (i, ⟨sensorMessage, .joining (.running ⟨[], .ok⟩) .new .receiving⟩) :: l₂
        log := s.log ++ [(i, sensorDecoded)] } := by
  have hsilent : ReflTransGen Task.Silent (decodeAndPublish ⟨Utf8Decoder.decode⟩ sensorMessage)
      ⟨sensorMessage, .joining (.running ⟨[], .ok⟩) .new
        (.publishing { payload := sensorMessage.payload })⟩ :=
    .head (.send rfl) (.single (.recv rfl))
  have hrun := @run_of_silent cap registry s i _ _ l₁ l₂ htasks hsilent
  exact .tail (ReflTransGen.mono (fun _ _ h => ⟨_, h⟩) _ _ hrun)
    ⟨.publish i sensorDecoded, @Step.task cap registry _ l₁ l₂ i _ (some sensorDecoded) _ rfl
      .publish⟩

/-- With a cap of two the output of the second message can come before that of the first, and this
is all that can happen. -/
theorem overtakes_lt_two :
    ∃ s : EngineState, s.Reachable 2 .sensorRegistry ∧
      s.log = [] ++ (1, sensorDecoded) :: [(0, sensorDecoded)] ∧
      (List.range 1).countP (fun i => List.part i [(0, sensorDecoded)] ≠ []) < 2 := by
  have hspawn : Reachable 2 .sensorRegistry _ :=
    .tail (.single ⟨.recv (some sensorMessage), .spawn rfl rfl rfl⟩)
      ⟨.recv (some sensorMessage), .spawn rfl rfl rfl⟩
  have hsecond := hspawn.trans (run_of_sensorTask [_] [] rfl)
  have hreach : Reachable 2 .sensorRegistry _ := hsecond.trans (run_of_sensorTask [] [_] rfl)
  exact ⟨_, hreach, rfl, @overtakes_lt 2 .sensorRegistry _ hreach [] _ 1 sensorDecoded rfl⟩

end EngineState

end RosettaMq
