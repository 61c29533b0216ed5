import RosettaMq.Client.Mirroring
import RosettaMq.Client.Wire

/-!
# The lifetime of the process

Every step of the process that changes anything uses up some potential, whatever the decoders and
the connection do. So every run of `main` ends, and it ends with `main` returned or with the startup
stuck (`Startup.ended_of_final`). Hence `main` always returns in the end exactly if the startup
cannot get stuck (`Startup.always_returns_iff`).
-/

open Relation

namespace RosettaMq

/-- The steps of `main` that are left: a subscription is one step of `main` and one of the driver.
-/
def MainPhase.potential : MainPhase → ℕ
  | .subscribing filters => 2 * filters.length + 3
  | .selecting => 2
  | .awaiting => 1
  | .returned => 0

namespace Startup

variable {cap : ℕ} {registry : DecoderRegistry} {replies : ℕ → List Publish} {s s' : Startup}
  {filters : List String}

/-- The steps that a reply of the broker causes, and the reply itself. -/
def replyCost (registry : DecoderRegistry) (replies : ℕ → List Publish) (i : ℕ) : ℕ :=
  ((replies i).map fun m => registry.cost m + 2).sum + 1

/-- The steps that the replies still cause, of which there is one for each filter. -/
def replyPotential (registry : DecoderRegistry) (replies : ℕ → List Publish) (n replied : ℕ) : ℕ :=
  (((List.range n).drop replied).map (replyCost registry replies)).sum

theorem replyPotential_eq {n replied : ℕ} (h : replied < n) :
    replyPotential registry replies n replied =
      replyCost registry replies replied + replyPotential registry replies n (replied + 1) := by
  have hlt : replied < (List.range n).length := by rwa [List.length_range]
  rw [replyPotential, List.drop_eq_getElem_cons hlt, List.map_cons, List.sum_cons,
    List.getElem_range, replyPotential]

/-- How many steps the process can take at most. -/
def potential (registry : DecoderRegistry) (replies : ℕ → List Publish) (filters : List String)
    (s : Startup) : ℕ :=
  s.main.phase.potential + s.main.pipeline.potential registry +
    replyPotential registry replies filters.length s.replied

/-- The subscriptions that the driver has taken are not more than the filters. -/
theorem length_taken_le {subs : List String} (hs : s.main.Wired filters subs) :
    (s.main.pipeline.taken.filterMap Request.asSubscribe).length ≤ filters.length := by
  have hsent := congrArg (List.filterMap Request.asSubscribe) hs.sent
  rw [Pipeline.sent, List.filterMap_append, List.filterMap_append, List.filterMap_map,
    List.filterMap_map] at hsent
  have hsubs : subs.filterMap (Request.asSubscribe ∘ .subscribe) = subs := by
    simp [Function.comp_def, Request.asSubscribe]
  have hnil : s.main.pipeline.handed.filterMap (Request.asSubscribe ∘ .ofPublish) = [] := by
    simp [Function.comp_def, Request.asSubscribe, Request.ofPublish]
  rw [hsubs, hnil, List.append_nil] at hsent
  have hlen := congrArg List.length hsent
  have hle := hs.isPrefix.length_le
  rw [List.length_append] at hlen
  omega

theorem potential_lt_of_mainStep {s s' : Main} (h : Main.Step cap registry s s') :
    s'.phase.potential + s'.pipeline.potential registry <
        s.phase.potential + s.pipeline.potential registry ∨
      s' = s ∧ s.pipeline.incoming.rxOpen = false := by
  cases h with
  | subscribe hphase hsend =>
    obtain ⟨-, -, hbuf, -, -⟩ := Chan.send_eq_some_iff.mp hsend
    refine Or.inl ?_
    simp only [hphase, MainPhase.potential, Pipeline.potential, Pipeline.queued, hbuf,
      List.length_append, List.length_cons, List.length_nil]
    omega
  | subscribeFails hphase | spawn hphase | joined hphase =>
    refine Or.inl ?_
    simp only [hphase, MainPhase.potential, List.length_nil]
    omega
  | connected _ hstep | running _ hstep =>
    rcases hstep.potential_lt with hlt | ⟨rfl, hrx⟩
    · exact Or.inl (Nat.add_lt_add_left hlt _)
    · exact Or.inr ⟨rfl, hrx⟩
  | driverReturned hphase _ hcancel | ctrlC hphase hcancel =>
    -- cancelling the token is a step of `main`
    refine Or.inl ?_
    rw [hcancel.of_cancel]
    simp only [hphase, MainPhase.potential, Pipeline.potential, Pipeline.queued,
      EngineState.potential]
    omega

/-- Every step of the process uses up some potential, or drops a receiver that is gone already. -/
theorem LossyStep.potential_lt (h : LossyStep cap registry replies s s')
    (hs : ∃ subs, s.main.Wired filters subs) :
    s'.potential registry replies filters < s.potential registry replies filters ∨
      s' = s ∧ s.main.pipeline.incoming.rxOpen = false := by
  cases h with
  | up hstep =>
    cases hstep with
    | main hmain =>
      rcases potential_lt_of_mainStep hmain with hlt | ⟨rfl, hrx⟩
      · exact Or.inl (Nat.add_lt_add_right hlt _)
      · exact Or.inr ⟨rfl, hrx⟩
    | reply hlt =>
      -- the messages of a reply cost what is left for the reply
      obtain ⟨subs, hwired⟩ := hs
      have hle := length_taken_le hwired
      have hreply := @replyPotential_eq registry replies filters.length s.replied (by omega)
      refine Or.inl ?_
      simp only [potential, hreply, replyCost, Pipeline.potential, Pipeline.queued,
        List.map_append, List.sum_append]
      omega
  | pollFails _ hdriver =>
    refine Or.inl ?_
    simp only [potential, Pipeline.potential, Pipeline.queued, Pipeline.disconnect, hdriver,
      Driver.holding, Driver.potential, Chan.buf_closeTx, Chan.rxOpen_closeTx, Chan.buf_closeRx]
    omega

theorem descends_lossyStep (filters : List String) :
    Descends (Proper (LossyStep cap registry replies))
      (fun s => s.LossyReachable cap registry replies filters)
      (potential registry replies filters) where
  keeps hs h := hs.tail h.1
  lt hs h := (h.1.potential_lt (LossyReachable.wired hs)).resolve_right fun heq => h.2 heq.1

/-! ## The end of a run -/

/-- A step of `main` or of its surroundings changes nothing when no step is left. -/
theorem eq_of_final (hfinal : Final (Proper (LossyStep cap registry replies)) s)
    (h : LossyStep cap registry replies s s') : s' = s := by
  by_contra hne
  exact hfinal s' ⟨h, hne⟩

theorem main_eq_of_final (hfinal : Final (Proper (LossyStep cap registry replies)) s)
    {main : Main} (h : Main.Step cap registry s.main main) : main = s.main :=
  congrArg Startup.main (eq_of_final hfinal (.up (.main h)))

/-- While filters are left and no step is left, `subscribe_all` and the driver wait. -/
theorem stuck_of_final (hs : s.LossyReachable cap registry replies filters)
    (hfinal : Final (Proper (LossyStep cap registry replies)) s) {filter : String}
    {left : List String} (hphase : s.main.phase = .subscribing (filter :: left)) : s.Stuck := by
  have hrx : s.main.pipeline.requests.rxOpen = true := by
    cases hrx : s.main.pipeline.requests.rxOpen with
    | true => rfl
    | false =>
      have heq := main_eq_of_final hfinal (.subscribeFails hphase hrx)
      have hphase' : MainPhase.returned = s.main.phase := congrArg Main.phase heq
      rw [hphase] at hphase'
      cases hphase'
  have hfull : s.main.pipeline.requests.buf.length = requestCapacity := by
    by_contra hne
    have hlt := Nat.lt_of_le_of_ne s.main.pipeline.requests.bound hne
    obtain ⟨requests, hsend⟩ := Chan.exists_send hrx hlt (Request.subscribe filter)
    have heq := main_eq_of_final hfinal (.subscribe hphase hsend)
    have hphase' : MainPhase.subscribing left = s.main.phase := congrArg Main.phase heq
    rw [hphase] at hphase'
    exact absurd (MainPhase.subscribing.inj hphase') (by simp)
  -- the driver waits as well
  have hdriver : ∀ {pipeline : Pipeline}, Pipeline.Step cap registry s.main.pipeline pipeline →
      pipeline.engine = s.main.pipeline.engine → pipeline.driver = s.main.pipeline.driver :=
    fun hstep hsame => congrArg (·.pipeline.driver)
      (main_eq_of_final hfinal (.connected hphase hstep hsame))
  cases hd : s.main.pipeline.driver with
  | polling =>
    have heq := eq_of_final hfinal (.pollFails (by simp [hphase]) hd)
    have hd' : Driver.returned = s.main.pipeline.driver :=
      congrArg (·.main.pipeline.driver) heq
    rw [hd] at hd'
    cases hd'
  | returned =>
    rw [(hs.coherent.dropped hd).1] at hrx
    cases hrx
  | forwarding m =>
    refine ⟨⟨filter, left, hphase⟩, hfull, ⟨m, hd⟩, ?_⟩
    by_contra hne
    have hlt := Nat.lt_of_le_of_ne s.main.pipeline.incoming.bound hne
    cases hopen : s.main.pipeline.incoming.rxOpen with
    | true =>
      obtain ⟨incoming, hsend⟩ := Chan.exists_send hopen hlt m
      have hd' := hdriver (.forward hd hsend) rfl
      rw [hd] at hd'
      cases hd'
    | false =>
      have hd' := hdriver (.forwardFails hd hopen) rfl
      rw [hd] at hd'
      cases hd'

/-- When no step is left, `main` has returned or the startup is stuck. -/
theorem ended_of_final (hs : s.LossyReachable cap registry replies filters)
    (hfinal : Final (Proper (LossyStep cap registry replies)) s) :
    s.main.phase = .returned ∨ s.Stuck := by
  have hmain : ∀ {main : Main}, Main.Step cap registry s.main main → main.phase = s.main.phase :=
    fun hstep => congrArg Main.phase (main_eq_of_final hfinal hstep)
  cases hphase : s.main.phase with
  | returned => exact Or.inl rfl
  | subscribing left =>
    cases left with
    | cons filter left => exact Or.inr (stuck_of_final hs hfinal hphase)
    | nil =>
      have hphase' := hmain (.spawn hphase)
      rw [hphase] at hphase'
      cases hphase'
  | selecting =>
    -- Ctrl+C can be pressed at any time
    have hphase' := hmain (.ctrlC hphase .cancel)
    rw [hphase] at hphase'
    cases hphase'
  | awaiting =>
    have hengine : ∀ {e : EngineState},
        EngineState.Silent cap registry s.main.pipeline.engine e →
        e.phase = s.main.pipeline.engine.phase := fun hstep =>
      congrArg (·.pipeline.engine.phase)
        (main_eq_of_final hfinal (.running (Or.inr hphase) (.engine hstep)))
    cases hp : s.main.pipeline.engine.phase with
    | looping =>
      -- `main` has cancelled the token
      have hp' := hengine (.cancelled hp rfl (hs.coherent.cancelled hphase))
      rw [hp] at hp'
      cases hp'
    | draining =>
      by_cases htasks : s.main.pipeline.engine.tasks = []
      · have hp' := hengine (EngineState.silent_drained hp htasks)
        rw [hp] at hp'
        cases hp'
      · have hp' := hengine (.timeout hp htasks)
        rw [hp] at hp'
        cases hp'
    | returned | timedOut | panicked =>
      have hphase' := hmain (.joined hphase (by simp [hp]))
      rw [hphase] at hphase'
      cases hphase'

/-- A startup that is stuck stays so, whatever the broker does. -/
theorem LossyStep.stuck (h : LossyStep cap registry replies s s')
    (hs : s.LossyReachable cap registry replies filters) (hstuck : s.Stuck) : s'.Stuck := by
  have hreach := hs.reachable (by obtain ⟨m, hm⟩ := hstuck.driver; simp [hm])
  cases h with
  | up hstep =>
    cases hstep with
    | main hmain => exact absurd ⟨_, hmain⟩ (hstuck.not_exists_step hreach)
    | reply => exact ⟨hstuck.phase, hstuck.requests, hstuck.driver, hstuck.incoming⟩
  | pollFails _ hpolling =>
    obtain ⟨m, hm⟩ := hstuck.driver
    rw [hm] at hpolling
    cases hpolling

/-- With too many replies to the first subscriptions a run can end stuck. -/
theorem exists_final_stuck
    (h : incomingCapacity <
      ((List.range (filters.length - (requestCapacity + 1))).flatMap replies).length) :
    ∃ s : Startup, s.LossyReachable cap registry replies filters ∧
      Final (Proper (LossyStep cap registry replies)) s ∧ s.Stuck := by
  obtain ⟨s, hs, hstuck⟩ := exists_stuck cap registry h
  have hlossy : s.LossyReachable cap registry replies filters :=
    ReflTransGen.mono (fun _ _ h => .up h) _ _ hs
  have hdesc : Descends (Proper (LossyStep cap registry replies))
      (fun s => s.LossyReachable cap registry replies filters ∧ s.Stuck)
      (potential registry replies filters) :=
    ⟨fun hs h => ⟨hs.1.tail h.1, h.1.stuck hs.1 hs.2⟩,
      fun hs h => (descends_lossyStep filters).lt hs.1 h⟩
  obtain ⟨s', hrun, hfinal⟩ := hdesc.exists_final ⟨hlossy, hstuck⟩
  obtain ⟨hs', hstuck'⟩ := hdesc.of_run ⟨hlossy, hstuck⟩ hrun
  exact ⟨s', hs', hfinal, hstuck'⟩

/-- The lifetime of the process, whatever the decoders do and whether or not the connection is lost.
The number of steps that change anything is bounded by the filters, the replies of the broker and
what the decoders send. A run that cannot be continued has ended with `main` returned, or with the
startup stuck. All of them end with `main` returned exactly if no more messages come in reply to
the first subscriptions than the channel of incoming messages holds. -/
theorem always_returns_iff (cap : ℕ) (registry : DecoderRegistry) (filters : List String)
    (replies : ℕ → List Publish) :
    (∀ l, (start filters :: l).IsChain (Proper (LossyStep cap registry replies)) →
      l.length ≤ 2 * filters.length + 7 +
        ((List.range filters.length).map (replyCost registry replies)).sum) ∧
    (∀ s, s.LossyReachable cap registry replies filters →
      Final (Proper (LossyStep cap registry replies)) s →
      s.main.phase = .returned ∨ s.Stuck) ∧
    ((∀ s, s.LossyReachable cap registry replies filters →
      Final (Proper (LossyStep cap registry replies)) s → s.main.phase = .returned) ↔
      ((List.range (filters.length - (requestCapacity + 1))).flatMap replies).length ≤
        incomingCapacity) := by
  refine ⟨fun l hl => ?_, fun s hs hfinal => ended_of_final hs hfinal, fun hall => ?_,
    fun hle s hs hfinal => ?_⟩
  · have hbound := (descends_lossyStep filters).length_le .refl hl
    exact hbound
  · by_contra hlt
    obtain ⟨s, hs, hfinal, hstuck⟩ :=
      @exists_final_stuck cap registry replies filters (Nat.lt_of_not_le hlt)
    obtain ⟨filter, left, hphase⟩ := hstuck.phase
    rw [hall s hs hfinal] at hphase
    cases hphase
  · refine (ended_of_final hs hfinal).resolve_right fun hstuck => ?_
    have hreach := hs.reachable (by obtain ⟨m, hm⟩ := hstuck.driver; simp [hm])
    exact absurd hle (Nat.not_le_of_lt (hstuck.overload hreach))

end Startup

end RosettaMq
