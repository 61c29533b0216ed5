import Mathlib.Algebra.BigOperators.Group.List.Basic
import Mathlib.Algebra.GroupWithZero.Nat
import Mathlib.Algebra.Order.BigOperators.Group.List
import Mathlib.Algebra.Order.Group.Nat
import Mathlib.Data.List.Sublists
import Mathlib.Logic.Relation

/-!
# A pump between two bounded queues

A pump moves items from a source into an input queue and empties an output queue, one step at a
time. While it waits for room in the input queue it does not empty the output queue. Up to a fixed
number of workers take items from the input queue, and each puts some outputs into the output
queue before it takes another item. A worker may give up its last outputs, as many of them as its
item can spare.

The three wait for each other in a circle when the pump holds an item for a full input queue, all
workers have more outputs than they can spare for a full output queue, and no worker is left to
take an item (`Backpressure.Jammed`). Whether such a state can be reached depends on the source
only (`Backpressure.exists_jammed_iff`).
-/

open Relation

namespace Backpressure

variable {α : Type*}

/-- The capacities of the two queues, the number of workers, and for each item how many outputs it
makes and how many of them can be given up. An item with `none` needs no worker. -/
structure Params (α : Type*) where
  inCap : ℕ
  outCap : ℕ
  workers : ℕ
  work : α → Option ℕ
  spare : α → ℕ

/-- How many outputs an item makes. -/
def Params.size (P : Params α) (a : α) : ℕ := (P.work a).getD 0

/-- Where the items and the outputs are. -/
structure State (α : Type*) where
  source : List α
  /-- The item the pump has taken from the source and not yet put into the input queue. -/
  holding : Option α
  input : List α
  /-- For each busy worker its item and the number of outputs it still has to put. -/
  pool : List (α × ℕ)
  /-- The length of the output queue. -/
  output : ℕ

/-- One step of the pump or of a worker. -/
inductive Step (P : Params α) : State α → State α → Prop
  /-- The pump takes an item from the source. -/
  | pull {a source input pool output} :
      Step P ⟨a :: source, none, input, pool, output⟩ ⟨source, some a, input, pool, output⟩
  /-- The pump puts it into the input queue. -/
  | push {a source input pool output} : input.length < P.inCap →
      Step P ⟨source, some a, input, pool, output⟩ ⟨source, none, input ++ [a], pool, output⟩
  /-- The pump takes an output from the output queue. -/
  | take {source input pool output} :
      Step P ⟨source, none, input, pool, output + 1⟩ ⟨source, none, input, pool, output⟩
  /-- A free worker takes an item, if one is needed for it. -/
  | accept {a source holding input pool output} : pool.length < P.workers →
      Step P ⟨source, holding, a :: input, pool, output⟩
        ⟨source, holding, input, pool ++ ((P.work a).map (a, ·)).toList, output⟩
  /-- A worker puts an output into the output queue. -/
  | emit {a n source holding input l₁ l₂ output} : output < P.outCap →
      Step P ⟨source, holding, input, l₁ ++ (a, n + 1) :: l₂, output⟩
        ⟨source, holding, input, l₁ ++ (a, n) :: l₂, output + 1⟩
  /-- A worker gives up the outputs it has left. -/
  | giveUp {a n source holding input l₁ l₂ output} : n < P.spare a →
      Step P ⟨source, holding, input, l₁ ++ (a, n + 1) :: l₂, output⟩
        ⟨source, holding, input, l₁ ++ (a, 0) :: l₂, output⟩
  /-- A worker without further outputs becomes free. -/
  | retire {a source holding input l₁ l₂ output} :
      Step P ⟨source, holding, input, l₁ ++ (a, 0) :: l₂, output⟩
        ⟨source, holding, input, l₁ ++ l₂, output⟩

/-- The state before the first step. -/
def start (source : List α) : State α := ⟨source, none, [], [], 0⟩

/-- Something is left to do. -/
def Unfinished (s : State α) : Prop :=
  s.source ≠ [] ∨ s.holding ≠ none ∨ s.input ≠ [] ∨ s.pool ≠ [] ∨ s.output ≠ 0

variable {P : Params α} {s s' : State α} {D : List α}

/-- No queue holds more than it can, and there are no more workers than allowed. -/
structure WithinCaps (P : Params α) (s : State α) : Prop where
  input : s.input.length ≤ P.inCap
  pool : s.pool.length ≤ P.workers
  output : s.output ≤ P.outCap

/-- The pump, the workers and the queues wait for each other. -/
structure Jammed (P : Params α) (s : State α) : Prop where
  holding : s.holding ≠ none
  input : s.input.length = P.inCap
  pool : s.pool.length = P.workers
  busy : ∀ x ∈ s.pool, P.spare x.1 < x.2
  output : s.output = P.outCap

/-- No step leads from a state to itself. -/
theorem Step.ne (h : Step P s s') : s' ≠ s := by
  cases h with
  | pull | push => exact fun heq => absurd (congrArg State.holding heq) (by simp)
  | take | emit => exact fun heq => absurd (congrArg State.output heq) (by simp)
  | accept => exact fun heq => absurd (congrArg (·.input.length) heq) (by simp)
  | giveUp => exact fun heq => absurd (congrArg State.pool heq) (by simp)
  | retire => exact fun heq => absurd (congrArg (·.pool.length) heq) (by simp)

/-- Nothing moves in a jammed state. -/
theorem Jammed.not_step (hs : Jammed P s) : ¬ Step P s s' := by
  intro h
  cases h with
  | pull | take => exact hs.holding rfl
  | push hlt => exact absurd hs.input (Nat.ne_of_lt hlt)
  | accept hlt => exact absurd hs.pool (Nat.ne_of_lt hlt)
  | emit hlt => exact absurd hs.output (Nat.ne_of_lt hlt)
  | @giveUp a n _ _ _ _ _ _ hlt =>
    exact absurd (hs.busy (a, n + 1) (by simp)) (Nat.not_lt_of_le hlt)
  | @retire a => exact absurd (hs.busy (a, 0) (by simp)) (Nat.not_lt_zero _)

/-- A worker that can neither give up nor become free has more outputs than it can spare. -/
theorem busy_of_not_step (hstuck : ∀ s', ¬ Step P s s') : ∀ x ∈ s.pool, P.spare x.1 < x.2 := by
  obtain ⟨source, holding, input, pool, output⟩ := s
  rintro ⟨a, n⟩ hx
  obtain ⟨l₁, l₂, rfl⟩ := List.append_of_mem hx
  by_contra hle
  cases n with
  | zero => exact hstuck _ .retire
  | succ n => exact hstuck _ (.giveUp (by dsimp only at hle; omega))

/-- A state in which something is left to do and nothing moves is jammed. -/
theorem jammed_of_not_step (hworkers : 0 < P.workers) (hinCap : 0 < P.inCap)
    (houtCap : 0 < P.outCap) (hcaps : WithinCaps P s) (hun : Unfinished s)
    (hstuck : ∀ s', ¬ Step P s s') : Jammed P s := by
  have hbusy := busy_of_not_step hstuck
  obtain ⟨source, holding, input, pool, output⟩ := s
  obtain ⟨hin, hpool, houtput⟩ := hcaps
  dsimp only at *
  -- some worker is busy and the output queue has room, or else no worker is busy
  have hpool_nil : output < P.outCap → pool = [] := by
    intro hlt
    cases pool with
    | nil => rfl
    | cons x l =>
      obtain ⟨a, n⟩ := x
      have hn : P.spare a < n := hbusy (a, n) (by simp)
      obtain ⟨k, rfl⟩ := Nat.exists_eq_succ_of_ne_zero (Nat.ne_of_gt (Nat.zero_lt_of_lt hn))
      have hemit : Step P ⟨source, holding, input, [] ++ (a, k + 1) :: l, output⟩ _ := .emit hlt
      exact absurd hemit (hstuck _)
  have hinput_nil : pool.length < P.workers → input = [] := by
    intro hlt
    cases input with
    | nil => rfl
    | cons a l => exact absurd (.accept hlt) (hstuck _)
  cases holding with
  | none =>
    -- a pump that holds nothing can move unless source and output queue are empty, and then the
    -- workers can move
    have hsource : source = [] := by
      cases source with
      | nil => rfl
      | cons a l => exact absurd .pull (hstuck _)
    have hzero : output = 0 := by
      cases output with
      | zero => rfl
      | succ n => exact absurd .take (hstuck _)
    have hnil := hpool_nil (by omega)
    have hnil' := hinput_nil (by rw [hnil]; exact hworkers)
    simp [Unfinished, hsource, hnil, hnil', hzero] at hun
  | some a =>
    -- the pump waits for the input queue, the input queue for the workers, and they for the output
    -- queue
    have hfull : input.length = P.inCap := by
      by_contra hne
      exact hstuck _ (.push (by omega))
    have hworking : pool.length = P.workers := by
      by_contra hne
      have hnil := hinput_nil (by omega)
      rw [hnil, List.length_nil] at hfull
      omega
    have hput : output = P.outCap := by
      by_contra hne
      have hnil := hpool_nil (by omega)
      rw [hnil, List.length_nil] at hworking
      omega
    exact ⟨by simp, hfull, hworking, hbusy, hput⟩

/-! ## What is needed for a jam -/

/-- Behind some item enough further ones follow to occupy the pump and the input queue. This item
and enough items before it make more outputs than they can spare, one item for each worker. Without
what these workers must keep, the outputs of all items up to this one fill the output queue. -/
def Overload (P : Params α) (D : List α) : Prop :=
  ∃ early a rest parked, D = early ++ a :: rest ∧ P.inCap + 1 ≤ rest.length ∧
    parked.Sublist early ∧ parked.length + 1 = P.workers ∧
    (∀ b ∈ parked ++ [a], P.spare b < P.size b) ∧
    P.outCap + ((parked ++ [a]).map fun b => P.spare b + 1).sum ≤
      ((early ++ [a]).map P.size).sum

/-- The items taken by workers are a first part of the source, those of the busy workers are among
them, and the outputs are accounted for. When all workers are busy, one of them has the item that
was taken last. -/
structure Accounted (P : Params α) (taken : List α) (s : State α) : Prop where
  outputs : s.output + (s.pool.map (·.2)).sum ≤ (taken.map P.size).sum
  left_le : ∀ x ∈ s.pool, x.2 ≤ P.size x.1
  pool_le : s.pool.length ≤ P.workers
  pool : (s.pool.map (·.1)).Sublist taken
  full : s.pool.length = P.workers → ∃ early a parked, taken = early ++ [a] ∧
    s.pool.map (·.1) = parked ++ [a] ∧ parked.Sublist early

theorem size_eq_of_work {a : α} {n : ℕ} (h : P.work a = some n) : P.size a = n := by
  rw [Params.size, h]
  rfl

/-- An item that makes outputs needs a worker. -/
theorem work_eq_of_size_pos {a : α} (h : 0 < P.size a) : P.work a = some (P.size a) := by
  rw [Params.size] at h ⊢
  cases hwork : P.work a with
  | none => simp [hwork] at h
  | some n => rfl

/-- A property of all entries survives the replacement of one. -/
theorem forall_mem_replace {p : α × ℕ → Prop} {l₁ l₂ : List (α × ℕ)} {x y : α × ℕ}
    (h : ∀ z ∈ l₁ ++ x :: l₂, p z) (hy : p y) : ∀ z ∈ l₁ ++ y :: l₂, p z := by
  rw [List.forall_mem_append, List.forall_mem_cons] at h ⊢
  exact ⟨h.1, hy, h.2.2⟩

/-- Every step keeps the account. -/
theorem Step.accounted (h : Step P s s')
    (hs : ∃ taken, D = taken ++ (s.input ++ (s.holding.toList ++ s.source)) ∧
      Accounted P taken s) :
    ∃ taken, D = taken ++ (s'.input ++ (s'.holding.toList ++ s'.source)) ∧
      Accounted P taken s' := by
  obtain ⟨taken, hD, hout, hleft, hle, hpool, hfull⟩ := hs
  cases h with
  | pull => exact ⟨taken, hD, hout, hleft, hle, hpool, hfull⟩
  | push => exact ⟨taken, by simpa using hD, hout, hleft, hle, hpool, hfull⟩
  | take => exact ⟨taken, hD, by dsimp only at hout ⊢; omega, hleft, hle, hpool, hfull⟩
  | @accept a source holding input pool output hroom =>
    refine ⟨taken ++ [a], by simpa using hD, ?_⟩
    dsimp only at *
    cases hwork : P.work a with
    | none =>
      have hsize : P.size a = 0 := by rw [Params.size, hwork]; rfl
      simp only [Option.map_none, Option.toList_none, List.append_nil]
      exact ⟨by simpa [hsize] using hout, hleft, hle,
        hpool.trans (List.sublist_append_left _ _), fun h => absurd h (Nat.ne_of_lt hroom)⟩
    | some n =>
      have hsize := size_eq_of_work hwork
      simp only [Option.map_some, Option.toList_some]
      refine ⟨?_, fun x hx => ?_, ?_, ?_, fun _ => ?_⟩
      · simp only [List.map_append, List.sum_append, List.map_cons, List.map_nil,
          List.sum_singleton, hsize]
        omega
      · rcases List.mem_append.mp hx with hx | hx
        · exact hleft x hx
        · rw [List.mem_singleton.mp hx, hsize]
      · rw [List.length_append, List.length_singleton]
        exact hroom
      · rw [List.map_append]
        exact hpool.append (List.Sublist.refl [a])
      · exact ⟨taken, a, pool.map (·.1), rfl, by simp, hpool⟩
  | @emit a n _ _ _ l₁ l₂ _ =>
    have hleft_emit : n ≤ P.size a := Nat.le_of_succ_le (hleft (a, n + 1) (by simp))
    refine ⟨taken, hD, ?_, forall_mem_replace hleft hleft_emit, by simpa using hle,
      by simpa using hpool, by simpa using hfull⟩
    -- one output goes from the worker to the queue
    simp only [List.map_append, List.map_cons, List.sum_append, List.sum_cons] at hout ⊢
    omega
  | @giveUp a n _ _ _ l₁ l₂ _ =>
    refine ⟨taken, hD, ?_, forall_mem_replace hleft (Nat.zero_le _), by simpa using hle,
      by simpa using hpool, by simpa using hfull⟩
    -- the account is an inequality because of the outputs given up here
    simp only [List.map_append, List.map_cons, List.sum_append, List.sum_cons] at hout ⊢
    omega
  | @retire a _ _ _ l₁ l₂ _ =>
    simp only [List.length_append, List.length_cons] at hle
    refine ⟨taken, hD, by simpa using hout, fun x hx => hleft x ?_, ?_, ?_, fun h => ?_⟩
    · simp only [List.mem_append, List.mem_cons] at hx ⊢
      tauto
    · rw [List.length_append]
      omega
    · refine List.Sublist.trans ?_ hpool
      simp
    · rw [List.length_append] at h
      omega

theorem exists_accounted_of_run (hworkers : 0 < P.workers)
    (h : ReflTransGen (Step P) (start D) s) :
    ∃ taken, D = taken ++ (s.input ++ (s.holding.toList ++ s.source)) ∧ Accounted P taken s := by
  induction h with
  | refl =>
    exact ⟨[], rfl, Nat.le_refl _, nofun, Nat.zero_le _, List.Sublist.refl _,
      fun h => absurd h (Nat.ne_of_lt hworkers)⟩
  | tail _ hstep ih => exact hstep.accounted ih

/-- Workers that are busy have at least what they must keep. -/
theorem sum_spare_le {pool : List (α × ℕ)} (h : ∀ x ∈ pool, P.spare x.1 < x.2) :
    ((pool.map (·.1)).map fun b => P.spare b + 1).sum ≤ (pool.map (·.2)).sum := by
  rw [List.map_map]
  exact List.sum_le_sum fun x hx => h x hx

/-- A jam needs an overload. -/
theorem overload_of_jammed (hworkers : 0 < P.workers) (h : ReflTransGen (Step P) (start D) s)
    (hs : Jammed P s) : Overload P D := by
  obtain ⟨taken, hD, hout, hleft, -, -, hfull⟩ := exists_accounted_of_run hworkers h
  obtain ⟨early, a, parked, rfl, hparked, hsub⟩ := hfull hs.pool
  obtain ⟨b, hb⟩ := Option.ne_none_iff_exists'.mp hs.holding
  have hkeep := sum_spare_le hs.busy
  rw [hparked] at hkeep
  -- behind the item taken last are those in the input queue and the one the pump holds
  refine ⟨early, a, s.input ++ (s.holding.toList ++ s.source), parked, by simpa using hD, ?_, hsub,
    ?_, fun c hc => ?_, ?_⟩
  · rw [hb, List.length_append, hs.input, List.length_append, Option.toList_some,
      List.length_singleton]
    omega
  · have hlen := congrArg List.length hparked
    rw [List.length_map, hs.pool, List.length_append, List.length_singleton] at hlen
    exact hlen.symm
  · rw [← hparked] at hc
    obtain ⟨x, hx, rfl⟩ := List.mem_map.mp hc
    exact Nat.lt_of_lt_of_le (hs.busy x hx) (hleft x hx)
  · rw [hs.output] at hout
    omega

/-! ## How a jam comes about -/

/-- One item goes from the source to a free worker. -/
theorem run_load {a : α} {source : List α} {pool : List (α × ℕ)} {output : ℕ} (hin : 0 < P.inCap)
    (hpool : pool.length < P.workers) :
    ReflTransGen (Step P) ⟨a :: source, none, [], pool, output⟩
      ⟨source, none, [], pool ++ ((P.work a).map (a, ·)).toList, output⟩ :=
  .head .pull (.head (.push (by simpa using hin)) (.single (.accept hpool)))

/-- A worker becomes free, and the pump empties the output queue only when it is full. -/
theorem run_finish {a : α} {source input : List α} {pool : List (α × ℕ)} (hout : 0 < P.outCap)
    (n : ℕ) : ∀ {output : ℕ}, output ≤ P.outCap →
      ReflTransGen (Step P) ⟨source, none, input, pool ++ [(a, n)], output⟩
        ⟨source, none, input, pool, min P.outCap (output + n)⟩ := by
  induction n with
  | zero =>
    intro output hle
    have hretire : Step P ⟨source, none, input, pool ++ [(a, 0)], output⟩
        ⟨source, none, input, pool ++ [], output⟩ := .retire
    rw [List.append_nil] at hretire
    rw [Nat.add_zero, Nat.min_eq_right hle]
    exact .single hretire
  | succ n ih =>
    intro output hle
    have hemit : ∀ output < P.outCap,
        Step P ⟨source, none, input, pool ++ [(a, n + 1)], output⟩
          ⟨source, none, input, pool ++ [(a, n)], output + 1⟩ := fun _ hlt => .emit hlt
    rcases Nat.lt_or_ge output P.outCap with hlt | hge
    · have hrun := (ih (Nat.succ_le_of_lt hlt)).head (hemit output hlt)
      rwa [Nat.succ_add_eq_add_succ] at hrun
    · -- the queue is full: the pump takes one output to make room
      obtain ⟨k, hk⟩ := Nat.exists_eq_succ_of_ne_zero (Nat.ne_of_gt hout)
      obtain rfl : output = k + 1 := by omega
      have hrun := ((ih hle).head (hemit k (by omega))).head .take
      rw [Nat.min_eq_left (by omega)] at hrun ⊢
      exact hrun

/-- One item is handled from the source to its last output. -/
theorem run_handle {a : α} {source : List α} {pool : List (α × ℕ)} {output : ℕ}
    (hin : 0 < P.inCap) (hout : 0 < P.outCap) (hpool : pool.length < P.workers)
    (hle : output ≤ P.outCap) :
    ReflTransGen (Step P) ⟨a :: source, none, [], pool, output⟩
      ⟨source, none, [], pool, min P.outCap (output + P.size a)⟩ := by
  have hload : ReflTransGen (Step P) ⟨a :: source, none, [], pool, output⟩
      ⟨source, none, [], pool ++ ((P.work a).map (a, ·)).toList, output⟩ := run_load hin hpool
  rw [Params.size]
  cases hwork : P.work a with
  | none => simpa [hwork, Nat.min_eq_right hle] using hload
  | some n =>
    rw [hwork] at hload
    exact hload.trans (run_finish hout n hle)

/-- The items are taken one after the other. Those in `parked` stay with their workers, and the
others are handled. -/
theorem run_early {early parked rest : List α} (hin : 0 < P.inCap) (hout : 0 < P.outCap)
    (hsub : parked.Sublist early) (hwork : ∀ a ∈ parked, 0 < P.size a) :
    ∀ {pool : List (α × ℕ)} {output : ℕ}, output ≤ P.outCap →
      pool.length + parked.length < P.workers →
      ∃ n, n + (parked.map P.size).sum = (early.map P.size).sum ∧
        ReflTransGen (Step P) ⟨early ++ rest, none, [], pool, output⟩
          ⟨rest, none, [], pool ++ parked.map fun a => (a, P.size a),
            min P.outCap (output + n)⟩ := by
  induction hsub with
  | slnil =>
    intro pool output hle _
    refine ⟨0, rfl, ?_⟩
    rw [Nat.add_zero, Nat.min_eq_right hle, List.map_nil, List.append_nil]
    exact .refl
  | @cons parked early a _ ih =>
    intro pool output hle hlen
    -- `a` is handled, and its outputs add to the queue until that is full
    obtain ⟨n, hn, hrun⟩ := @ih hwork pool (min P.outCap (output + P.size a))
      (Nat.min_le_left _ _) hlen
    refine ⟨P.size a + n, by rw [List.map_cons, List.sum_cons, ← hn]; omega, ?_⟩
    rw [show min P.outCap (min P.outCap (output + P.size a) + n) =
      min P.outCap (output + (P.size a + n)) by omega] at hrun
    exact (run_handle hin hout (by omega) hle).trans hrun
  | @cons_cons parked early a _ ih =>
    intro pool output hle hlen
    have hsize : 0 < P.size a := hwork a (by simp)
    -- `a` is one of the parked items: its worker keeps all of its outputs
    have hload : ReflTransGen (Step P) ⟨a :: (early ++ rest), none, [], pool, output⟩
        ⟨early ++ rest, none, [], pool ++ ((P.work a).map (a, ·)).toList, output⟩ :=
      run_load hin (by omega)
    rw [work_eq_of_size_pos hsize, Option.map_some, Option.toList_some] at hload
    obtain ⟨n, hn, hrun⟩ := @ih (fun b hb => hwork b (List.mem_cons_of_mem a hb))
      (pool ++ [(a, P.size a)]) output hle (by simpa [Nat.add_assoc, Nat.add_comm 1] using hlen)
    refine ⟨n, by simp only [List.map_cons, List.sum_cons]; omega, ?_⟩
    rw [List.append_assoc] at hrun
    exact hload.trans hrun

/-- The workers fill the output queue, and each of them keeps more than it can spare. -/
theorem run_fill {source input : List α} : ∀ (room : ℕ) {pool : List (α × ℕ)} {output : ℕ},
    (∀ x ∈ pool, P.spare x.1 < x.2) → output + room = P.outCap →
    ((pool.map (·.1)).map fun b => P.spare b + 1).sum + room ≤ (pool.map (·.2)).sum →
    ∃ pool', ReflTransGen (Step P) ⟨source, none, input, pool, output⟩
        ⟨source, none, input, pool', P.outCap⟩ ∧
      (∀ x ∈ pool', P.spare x.1 < x.2) ∧ pool'.length = pool.length := by
  intro room
  induction room with
  | zero =>
    intro pool output hbusy hroom _
    rw [Nat.add_zero] at hroom
    exact ⟨pool, by rw [hroom], hbusy, rfl⟩
  | succ room ih =>
    intro pool output hbusy hroom hsum
    -- some worker has one output more than it must keep
    obtain ⟨⟨a, n⟩, hx, hmore⟩ : ∃ x ∈ pool, P.spare x.1 + 1 < x.2 := by
      by_contra hall
      push Not at hall
      have hle : (pool.map (·.2)).sum ≤ ((pool.map (·.1)).map fun b => P.spare b + 1).sum := by
        rw [List.map_map]
        exact List.sum_le_sum fun x hx => hall x hx
      omega
    obtain ⟨l₁, l₂, rfl⟩ := List.append_of_mem hx
    obtain ⟨k, rfl⟩ : ∃ k, n = k + 1 := ⟨n - 1, by dsimp only at hmore; omega⟩
    have hemit : Step P ⟨source, none, input, l₁ ++ (a, k + 1) :: l₂, output⟩
        ⟨source, none, input, l₁ ++ (a, k) :: l₂, output + 1⟩ := .emit (by omega)
    have hbusy_emit : ∀ y ∈ l₁ ++ (a, k) :: l₂, P.spare y.1 < y.2 :=
      forall_mem_replace hbusy (Nat.lt_of_succ_lt_succ hmore)
    obtain ⟨pool', hrun, hbusy', hlen⟩ := @ih (l₁ ++ (a, k) :: l₂) (output + 1) hbusy_emit
      (by omega) (by
        simp only [List.map_append, List.map_cons, List.sum_append, List.sum_cons] at hsum ⊢
        omega)
    exact ⟨pool', hrun.head hemit, hbusy', by simpa using hlen⟩

/-- The pump fills the input queue. -/
theorem run_pump {pool : List (α × ℕ)} {output : ℕ} : ∀ (k : ℕ) {source input : List α},
    input.length + k ≤ P.inCap → k ≤ source.length →
    ReflTransGen (Step P) ⟨source, none, input, pool, output⟩
      ⟨source.drop k, none, input ++ source.take k, pool, output⟩ := by
  intro k
  induction k with
  | zero =>
    intro source input _ _
    simpa using ReflTransGen.refl
  | succ k ih =>
    intro source input hroom hlen
    cases source with
    | nil => simp at hlen
    | cons a source =>
      have hpush : Step P ⟨source, some a, input, pool, output⟩
          ⟨source, none, input ++ [a], pool, output⟩ := .push (by omega)
      have hroom' : (input ++ [a]).length + k ≤ P.inCap := by
        rw [List.length_append, List.length_singleton]
        omega
      have hrun := ih hroom' (by simpa using hlen : k ≤ source.length)
      simpa using (hrun.head hpush).head .pull

/-- A jam can be reached exactly from an overload. -/
theorem exists_jammed_iff (hworkers : 0 < P.workers) (hin : 0 < P.inCap) (hout : 0 < P.outCap) :
    (∃ s, ReflTransGen (Step P) (start D) s ∧ Jammed P s) ↔ Overload P D := by
  constructor
  · rintro ⟨s, hrun, hs⟩
    exact overload_of_jammed hworkers hrun hs
  · rintro ⟨early, a, rest, parked, rfl, hrest, hsub, hlen, hbusy, hsum⟩
    have hsize : ∀ b ∈ parked, 0 < P.size b := fun b hb =>
      Nat.zero_lt_of_lt (hbusy b (List.mem_append_left _ hb))
    obtain ⟨n, hn, hearly⟩ : ∃ n, n + (parked.map P.size).sum = (early.map P.size).sum ∧
        ReflTransGen (Step P) ⟨early ++ a :: rest, none, [], [], 0⟩
          ⟨a :: rest, none, [], [] ++ parked.map fun b => (b, P.size b), min P.outCap (0 + n)⟩ :=
      run_early hin hout hsub hsize (Nat.zero_le _) (by simp; omega)
    -- the last worker takes its item
    have hload : ReflTransGen (Step P)
        ⟨a :: rest, none, [], [] ++ parked.map fun b => (b, P.size b), min P.outCap (0 + n)⟩
        ⟨rest, none, [], ([] ++ parked.map fun b => (b, P.size b)) ++
          ((P.work a).map (a, ·)).toList, min P.outCap (0 + n)⟩ :=
      run_load hin (by simp; omega)
    have hlast : 0 < P.size a := Nat.zero_lt_of_lt (hbusy a (by simp))
    rw [work_eq_of_size_pos hlast, Option.map_some, Option.toList_some, List.nil_append] at hload
    generalize hpool : (parked.map fun b => (b, P.size b)) ++ [(a, P.size a)] = pool at hload
    have hitems : pool.map (·.1) = parked ++ [a] := by rw [← hpool]; simp [Function.comp_def]
    have hlefts : pool.map (·.2) = (parked ++ [a]).map P.size := by rw [← hpool]; simp
    have hbusy_pool : ∀ x ∈ pool, P.spare x.1 < x.2 := by
      rw [← hpool]
      intro x hx
      simp only [List.mem_append, List.mem_map, List.mem_singleton] at hx
      rcases hx with ⟨b, hb, rfl⟩ | rfl
      · exact hbusy b (List.mem_append_left _ hb)
      · exact hbusy a (by simp)
    -- the outputs that have not been put yet fill the output queue
    have hkeep := sum_spare_le hbusy_pool
    have hroom : ((pool.map (·.1)).map fun b => P.spare b + 1).sum +
        (P.outCap - min P.outCap (0 + n)) ≤ (pool.map (·.2)).sum := by
      rw [hitems, hlefts] at hkeep ⊢
      simp only [List.map_append, List.sum_append, List.map_cons, List.map_nil,
        List.sum_singleton] at hsum hkeep ⊢
      omega
    obtain ⟨pool', hfill, hbusy', hlen'⟩ := @run_fill _ P rest [] _ pool
      (min P.outCap (0 + n)) hbusy_pool (by omega) hroom
    -- the pump fills the input queue and takes one more item
    have hpump : ReflTransGen (Step P) ⟨rest, none, [], pool', P.outCap⟩
        ⟨rest.drop P.inCap, none, [] ++ rest.take P.inCap, pool', P.outCap⟩ :=
      run_pump P.inCap (by simp) (by omega)
    obtain ⟨b, source, hsource⟩ : ∃ b source, rest.drop P.inCap = b :: source :=
      List.exists_cons_of_ne_nil (by rw [ne_eq, List.drop_eq_nil_iff]; omega)
    rw [hsource, List.nil_append] at hpump
    refine ⟨_, (((hearly.trans hload).trans hfill).trans hpump).tail .pull,
      ⟨Option.some_ne_none b, ?_, ?_, hbusy', rfl⟩⟩
    · rw [List.length_take]
      omega
    · have hlen_pool := congrArg List.length hitems
      rw [List.length_map, List.length_append, List.length_singleton] at hlen_pool
      exact hlen'.trans (hlen_pool.trans hlen)

end Backpressure
