import Mathlib.Data.List.Basic
import Mathlib.Data.List.Induction

/-!
# A ring that is read at cursors

A bounded broadcast channel: one ring holds the latest items sent, and any
number of receivers read it, each at a cursor of its own. A receiver that
has fallen behind what the ring still holds is told how many items it
missed, and goes on at the oldest one held. `Accounts` says what a
receiver's receipts come to: every item sent while it read is received in
order, or counted in a notice that stands where the item would have been.
-/

namespace Shep

namespace Broadcast

variable {α β : Type*}

/-- What a receive comes to. -/
inductive Received (α : Type*) where
  | item (a : α)
  | lagged (missed : ℕ)
  deriving Repr, DecidableEq

/-- The items still held, oldest first, and how many were ever sent. -/
structure Ring (α : Type*) where
  capacity : ℕ
  held : List α := []
  sent : ℕ := 0
  deriving Repr, DecidableEq

namespace Ring

/-- An item is sent, and the oldest gives way where the ring is full. -/
def send (a : α) (r : Ring α) : Ring α :=
  { r with
    held := (r.held ++ [a]).drop (r.held.length + 1 - r.capacity)
    sent := r.sent + 1 }

/-- The number of the oldest item held. -/
def oldest (r : Ring α) : ℕ := r.sent - r.held.length

/-- A receive at a cursor, and where the cursor stands then: none where
nothing has been sent since. -/
def recv (next : ℕ) (r : Ring α) : Option (Received α × ℕ) :=
  if next < r.oldest then some (.lagged (r.oldest - next), r.oldest)
  else r.held[next - r.oldest]?.map fun a => (.item a, next + 1)

/-- The ring holds the latest of what was sent. -/
structure Holds (r : Ring α) (history : List α) : Prop where
  held : r.held = history.drop (history.length - r.capacity)
  sent : r.sent = history.length

variable {r : Ring α} {history : List α}

theorem holds_nil (capacity : ℕ) : ({ capacity } : Ring α).Holds [] := ⟨by simp, rfl⟩

theorem Holds.send (h : r.Holds history) (a : α) : (r.send a).Holds (history ++ [a]) := by
  refine ⟨?_, by simp [Ring.send, h.sent]⟩
  have hlen : r.held.length = min history.length r.capacity := by
    rw [h.held, List.length_drop]
    omega
  have hcut : history.length - r.capacity ≤ history.length := Nat.sub_le _ _
  have hdrop : history.length - r.capacity + (min history.length r.capacity + 1 - r.capacity) =
      (history ++ [a]).length - r.capacity := by
    rw [List.length_append, List.length_singleton]
    omega
  rw [Ring.send, hlen, h.held, ← List.drop_append_of_le_length hcut, List.drop_drop, hdrop]

theorem Holds.oldest (h : r.Holds history) : r.oldest = history.length - r.capacity := by
  rw [Ring.oldest, h.sent, h.held, List.length_drop]
  omega

end Ring

/-! ## Receipts -/

/-- What was received accounts for these items, in order: one receipt an
item, or one notice for a row of them. -/
inductive Accounts : List (Received α) → List α → Prop
  | nil : Accounts [] []
  | item {got : List (Received α)} {told : List α} (a : α) :
      Accounts got told → Accounts (got ++ [.item a]) (told ++ [a])
  | lagged {got : List (Received α)} {told lost : List α} :
      lost ≠ [] → Accounts got told → Accounts (got ++ [.lagged lost.length]) (told ++ lost)

/-! ## A receive -/

section Recv

variable {r : Ring α} {history : List α} {got : List (Received α)} {x : Received α}
  {start next next' : ℕ}

/-- **A receive accounts for what it moves the cursor over.** -/
theorem Accounts.recv (h : Accounts got ((history.take next).drop start)) (hr : r.Holds history)
    (hstart : start ≤ next) (hnext : next ≤ history.length) (hrecv : r.recv next = some (x, next')) :
    Accounts (got ++ [x]) ((history.take next').drop start) ∧ next < next' ∧
      next' ≤ history.length := by
  have hlen : start ≤ (history.take next).length := by
    rw [List.length_take]
    omega
  unfold Ring.recv at hrecv
  split at hrecv
  case isTrue hlag =>
    obtain ⟨rfl, rfl⟩ := Prod.mk.inj (Option.some.inj hrecv)
    have hold : r.oldest ≤ history.length := by
      rw [hr.oldest]
      omega
    have hlost : ((history.take r.oldest).drop next).length = r.oldest - next := by
      rw [List.length_drop, List.length_take]
      omega
    have hsplit : (history.take r.oldest).drop start =
        (history.take next).drop start ++ (history.take r.oldest).drop next := by
      have htake : history.take r.oldest = history.take next ++ (history.take r.oldest).drop next := by
        conv_lhs => rw [← List.take_append_drop next (history.take r.oldest), List.take_take,
          Nat.min_eq_left (Nat.le_of_lt hlag)]
      conv_lhs => rw [htake, List.drop_append_of_le_length hlen]
    refine ⟨?_, hlag, hold⟩
    rw [hsplit, ← hlost]
    refine h.lagged fun hnil => ?_
    rw [hnil] at hlost
    exact absurd hlost.symm (Nat.sub_ne_zero_of_lt hlag)
  case isFalse hkept =>
    obtain ⟨a, ha, hx⟩ := Option.map_eq_some_iff.1 hrecv
    obtain ⟨rfl, rfl⟩ := Prod.mk.inj hx
    rw [hr.held, List.getElem?_drop, ← hr.oldest, Nat.add_sub_cancel' (Nat.le_of_not_lt hkept)] at ha
    obtain ⟨hlt, rfl⟩ := List.getElem?_eq_some_iff.1 ha
    refine ⟨?_, Nat.lt_succ_self next, hlt⟩
    rw [List.take_succ_eq_append_getElem hlt, List.drop_append_of_le_length hlen]
    exact h.item _

end Recv

end Broadcast

end Shep
