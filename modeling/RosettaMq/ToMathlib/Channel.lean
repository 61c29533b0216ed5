import Mathlib.Data.List.Basic

/-!
# Bounded channels

A first-in first-out channel of bounded capacity with a sending and a receiving side, each of which
can be closed. An operation that would have to wait returns `none`.
-/

/-- A channel that holds at most `cap` values. -/
structure Chan (α : Type*) (cap : ℕ) where
  /-- The values sent and not yet received, oldest first. -/
  buf : List α
  bound : buf.length ≤ cap
  /-- Whether a sender is left. -/
  txOpen : Bool
  /-- Whether the receiver is left. -/
  rxOpen : Bool

namespace Chan

variable {α : Type*} {cap : ℕ} {c c' : Chan α cap} {a : α}

/-- A new channel, open on both sides. -/
def new : Chan α cap := ⟨[], Nat.zero_le _, true, true⟩

/-- Append a value. This waits while the channel is full, and fails once the receiver is gone. -/
def send (c : Chan α cap) (a : α) : Option (Chan α cap) :=
  if h : c.rxOpen = true ∧ c.buf.length < cap then
    some { c with buf := c.buf ++ [a], bound := by rw [List.length_append]; exact h.2 }
  else none

/-- Take the oldest value, or learn that none will come. This waits while the channel is empty and
has a sender. -/
def recv (c : Chan α cap) : Option (Option α × Chan α cap) :=
  match h : c.buf with
  | a :: rest => some (some a, { c with buf := rest, bound := by have := c.bound; simp_all; omega })
  | [] =>
      -- only an empty channel tells that its senders are gone
      if c.txOpen then none else some (none, c)

/-- Drop the last sender. -/
def closeTx (c : Chan α cap) : Chan α cap := { c with txOpen := false }

/-- Drop the receiver. -/
def closeRx (c : Chan α cap) : Chan α cap := { c with rxOpen := false }

@[simp] theorem buf_new : (new : Chan α cap).buf = [] := rfl

@[simp] theorem txOpen_new : (new : Chan α cap).txOpen = true := rfl

@[simp] theorem rxOpen_new : (new : Chan α cap).rxOpen = true := rfl

@[simp] theorem buf_closeTx : c.closeTx.buf = c.buf := rfl

@[simp] theorem txOpen_closeTx : c.closeTx.txOpen = false := rfl

@[simp] theorem rxOpen_closeTx : c.closeTx.rxOpen = c.rxOpen := rfl

@[simp] theorem buf_closeRx : c.closeRx.buf = c.buf := rfl

@[simp] theorem txOpen_closeRx : c.closeRx.txOpen = c.txOpen := rfl

@[simp] theorem rxOpen_closeRx : c.closeRx.rxOpen = false := rfl

@[ext] theorem ext (hbuf : c.buf = c'.buf) (htx : c.txOpen = c'.txOpen)
    (hrx : c.rxOpen = c'.rxOpen) : c = c' := by
  cases c; cases c'; simp_all

/-- What a completed `send` has done. -/
theorem send_eq_some_iff :
    c.send a = some c' ↔
      c.rxOpen = true ∧ c.buf.length < cap ∧
        c'.buf = c.buf ++ [a] ∧ c'.txOpen = c.txOpen ∧ c'.rxOpen = c.rxOpen := by
  unfold send
  constructor
  · intro h
    split at h
    · rename_i hc
      cases h
      exact ⟨hc.1, hc.2, rfl, rfl, rfl⟩
    · cases h
  · rintro ⟨hrx, hlen, hbuf, htx, hrx'⟩
    rw [dif_pos ⟨hrx, hlen⟩, Option.some_inj]
    exact ext hbuf.symm htx.symm hrx'.symm

/-- `send` completes on an open channel that has room. -/
theorem exists_send (hrx : c.rxOpen = true) (hlen : c.buf.length < cap) (a : α) :
    ∃ c', c.send a = some c' := by
  rw [send, dif_pos ⟨hrx, hlen⟩]
  exact ⟨_, rfl⟩

/-- What a completed `recv` of a value has done. -/
theorem recv_eq_some_iff :
    c.recv = some (some a, c') ↔
      c.buf = a :: c'.buf ∧ c'.txOpen = c.txOpen ∧ c'.rxOpen = c.rxOpen := by
  unfold recv
  constructor
  · intro h
    split at h
    · rename_i hbuf
      cases h
      exact ⟨hbuf, rfl, rfl⟩
    · split at h <;> cases h
  · rintro ⟨hbuf, htx, hrx⟩
    split
    · rename_i b rest hbuf'
      rw [hbuf, List.cons.injEq] at hbuf'
      obtain ⟨rfl, rfl⟩ := hbuf'
      rw [Option.some_inj, Prod.mk.injEq]
      exact ⟨rfl, ext rfl htx.symm hrx.symm⟩
    · rename_i hnil
      rw [hbuf] at hnil
      cases hnil

/-- `recv` completes on a channel that holds a value. -/
theorem exists_recv {rest : List α} (h : c.buf = a :: rest) :
    ∃ c', c.recv = some (some a, c') ∧ c'.buf = rest ∧ c'.txOpen = c.txOpen ∧
      c'.rxOpen = c.rxOpen := by
  have hbound : rest.length ≤ cap := by have := c.bound; rw [h, List.length_cons] at this; omega
  exact ⟨⟨rest, hbound, c.txOpen, c.rxOpen⟩, recv_eq_some_iff.mpr ⟨h, rfl, rfl⟩, rfl, rfl, rfl⟩

/-- `recv` returns without a value exactly when the channel is empty and has no sender. -/
theorem recv_eq_none_iff :
    c.recv = some (none, c') ↔ c.buf = [] ∧ c.txOpen = false ∧ c' = c := by
  unfold recv
  constructor
  · intro h
    split at h
    · cases h
    · rename_i hbuf
      split at h
      · cases h
      · rename_i htx
        cases h
        exact ⟨hbuf, by simpa using htx, rfl⟩
  · rintro ⟨hbuf, htx, rfl⟩
    split
    · rename_i hcons
      rw [hbuf] at hcons
      cases hcons
    · rw [htx]
      rfl

end Chan
