import Mathlib.Data.List.Pairwise

/-!
# One-slot mailboxes

A mailbox is a channel with room for one value and one reader. The writer
replaces what it holds in two steps, by emptying the slot and then sending; the
reader may take the value at any time, also between the two.

## Implementation notes

The values that the reader has seen are kept with the channel. Together with the
value in the slot they are the history of the mailbox, newest first. Receiving
moves the newest value from the slot to the seen ones and leaves the history as
it is, so what is said of the history is not affected by when the reader reads.
-/

/-- What must not happen to a channel: the first two are panics, the third
stops the writer. -/
inductive Mailbox.Misuse where
  | closedTwice
  | sentOnClosed
  | blocked
  deriving DecidableEq, Repr

/-- A one-slot channel, and what its reader has seen, newest first. -/
structure Mailbox (α : Type*) where
  slot : Option α
  closed : Bool
  seen : List α
  deriving DecidableEq, Repr

namespace Mailbox

variable {α : Type*}

/-- A new channel for a reader who is told one value at once. -/
def made (v : α) : Mailbox α := ⟨none, false, [v]⟩

/-- A new channel. -/
def empty : Mailbox α := ⟨none, false, []⟩

/-- The reader takes what is in the slot, if anything is. -/
def receive (m : Mailbox α) : Mailbox α :=
  { m with slot := none, seen := m.slot.toList ++ m.seen }

/-- The writer empties the slot without waiting. -/
def drain (m : Mailbox α) : Mailbox α := { m with slot := none }

def send (m : Mailbox α) (v : α) : Except Misuse (Mailbox α) :=
  if m.closed then .error .sentOnClosed
  else if m.slot.isSome then .error .blocked
  else .ok { m with slot := some v }

/-- Send without waiting: where the slot is taken, the value is dropped. -/
def offer (m : Mailbox α) (v : α) : Mailbox α :=
  if m.slot.isSome then m else { m with slot := some v }

def close (m : Mailbox α) : Except Misuse (Mailbox α) :=
  if m.closed then .error .closedTwice else .ok { m with closed := true }

/-- Every value that was sent and not drained, newest first. -/
def history (m : Mailbox α) : List α := m.slot.toList ++ m.seen

variable {m : Mailbox α} {v : α}

theorem send_of_empty (hopen : m.closed = false) (hempty : m.slot = none) :
    m.send v = .ok { m with slot := some v } := by
  simp [send, hopen, hempty]

/-- After an offer there is something to receive, whether or not it was dropped. -/
theorem isSome_slot_offer : (m.offer v).slot.isSome = true := by
  unfold offer
  split
  · assumption
  · rfl

theorem close_of_open (hopen : m.closed = false) : m.close = .ok { m with closed := true } := by
  simp [close, hopen]

@[simp] theorem history_made : (made v).history = [v] := rfl

@[simp] theorem history_receive : m.receive.history = m.history := rfl

@[simp] theorem closed_receive : m.receive.closed = m.closed := rfl

@[simp] theorem slot_receive : m.receive.slot = none := rfl

@[simp] theorem history_drain : m.drain.history = m.seen := rfl

theorem seen_sublist_history : m.seen.Sublist m.history := List.sublist_append_right _ _

theorem history_send (hempty : m.slot = none) :
    Mailbox.history { m with slot := some v } = v :: m.history := by
  simp [history, hempty]

/-- The newest value is in the slot, or the slot is empty and the reader has
seen it last. -/
theorem head_history_iff : m.history.head? = some v ↔
    m.slot = some v ∨ m.slot = none ∧ m.seen.head? = some v := by
  cases hslot : m.slot with
  | none => simp [history, hslot]
  | some w => simp [history, hslot]

end Mailbox
