import Mathlib.Data.List.Basic

/-! Buffered channels: sent to without waiting, closed once and drained by their reader. Sending to
a closed channel, or closing it again, is a panic. -/
namespace Zoomies
open List

inductive ChannelPanic
  | sendOnClosed
  | closeOfClosed
  deriving DecidableEq

structure Channel (α : Type) where
  queue : List α := []
  closed : Bool := false
  deriving DecidableEq

namespace Channel
variable {α : Type} (depth : Nat)

def trySend (x : α) (c : Channel α) : Except ChannelPanic (Bool × Channel α) :=
  -- `select { case c <- x: ... default: ... }`, with which of the two was taken.
  if c.closed then .error .sendOnClosed
  else if c.queue.length < depth then .ok (true, { c with queue := c.queue ++ [x] })
  else .ok (false, c)

def close (c : Channel α) : Except ChannelPanic (Channel α) :=
  if c.closed then .error .closeOfClosed else .ok { c with closed := true }

def receive (c : Channel α) : Option α × Channel α :=
  (c.queue.head?, { c with queue := c.queue.tail })

def offerAll : List α → Bool → Channel α → Except ChannelPanic (Bool × Channel α)
  | [], all, c => .ok (all, c)
  | x :: rest, all, c =>
    match c.trySend depth x with
    | .error e => .error e
    | .ok (sent, c') => offerAll rest (all && sent) c'

variable {c : Channel α}

theorem trySend_open {x : α} (h : c.closed = false) :
    c.trySend depth x = .ok (if c.queue.length < depth
      then (true, { c with queue := c.queue ++ [x] }) else (false, c)) := by
  rw [trySend, h, if_neg Bool.false_ne_true]
  split <;> rfl

theorem close_open (h : c.closed = false) : c.close = .ok { c with closed := true } := by
  rw [close, h, if_neg Bool.false_ne_true]

theorem offerAll_full {xs : List α} (all : Bool) (h : c.closed = false)
    (hfull : depth ≤ c.queue.length) : c.offerAll depth xs all = .ok (all && xs.isEmpty, c) := by
  induction xs generalizing all with
  | nil => rw [offerAll, isEmpty_nil, Bool.and_true]
  | cons x rest ih =>
    rw [offerAll, trySend_open depth h, if_neg (by omega)]
    dsimp only
    rw [ih, Bool.and_false, Bool.false_and, isEmpty_cons, Bool.and_false]

theorem offerAll_open {xs : List α} (all : Bool) (c : Channel α) (h : c.closed = false)
    (hroom : c.queue.length ≤ depth) :
    c.offerAll depth xs all = .ok (all && decide (c.queue.length + xs.length ≤ depth),
      { c with queue := c.queue ++ xs.take (depth - c.queue.length) }) := by
  induction xs generalizing all c with
  | nil =>
    rw [offerAll, take_nil, append_nil, length_nil, Nat.add_zero,
      decide_eq_true hroom, Bool.and_true]
  | cons x rest ih =>
    by_cases hlt : c.queue.length < depth
    · -- one item is queued, and the rest see one place fewer
      obtain ⟨room, hr⟩ := Nat.exists_eq_succ_of_ne_zero (Nat.sub_ne_zero_of_lt hlt)
      have hnext : depth - (c.queue ++ [x]).length = room := by
        rw [length_append, length_singleton]
        omega
      have hle : (c.queue ++ [x]).length ≤ depth := by
        rw [length_append, length_singleton]
        exact hlt
      rw [offerAll, trySend_open depth h, if_pos hlt]
      dsimp only
      rw [ih (all && true) { c with queue := c.queue ++ [x] } h hle]
      rw [hnext, hr, take_succ_cons, append_assoc, Bool.and_true, length_append,
        length_singleton, length_cons, Nat.add_right_comm, Nat.add_assoc]
      rfl
    · rw [offerAll_full depth all h (by omega), isEmpty_cons,
        Nat.sub_eq_zero_of_le (by omega), take_zero, append_nil,
        decide_eq_false (by rw [length_cons]; omega)]

end Channel

end Zoomies
