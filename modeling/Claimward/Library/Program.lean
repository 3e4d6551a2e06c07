import Mathlib.Data.Nat.Notation
import Mathlib.Logic.Function.Basic

/-!
# Programs of atomic actions

A program either returns a value or asks for one atomic action and goes on
from its reply. The same program has two meanings: run alone, from start to
end, and run as one thread among others, where any number of actions of the
other threads may fall between two of its own.

## Implementation notes

What an action may do beyond reading and writing the shared state (a clock
reading, the outcome of a device call) is read from an oracle that each
program carries along. Quantifying over oracles is quantifying over every
outcome, and both meanings stay functions that can be evaluated.
-/

namespace AtomicProgram

/-- The atomic actions a program may ask for, with the type of each reply. -/
structure Interface where
  Action : Type
  Reply : Action → Type

/-- A finished program, or the next action and how to go on from its reply. -/
inductive Program (I : Interface) (α : Type) : Type where
  | ret (value : α)
  | act (action : I.Action) (next : I.Reply action → Program I α)

/-- What one atomic action replies, and what it leaves of the oracle and of
the shared state. -/
abbrev Semantics (I : Interface) (Ω σ : Type) :=
  (a : I.Action) → Ω → σ → I.Reply a × Ω × σ

variable {I : Interface} {Ω σ α β : Type}

namespace Program

protected def bind : Program I α → (α → Program I β) → Program I β
  | .ret v, f => f v
  | .act a next, f => .act a fun r => (next r).bind f

instance : Monad (Program I) where
  pure := .ret
  bind := Program.bind

/-- The program that performs one action and returns its reply. -/
def call (a : I.Action) : Program I (I.Reply a) := .act a .ret

@[simp] theorem pure_eq_ret (v : α) : (pure v : Program I α) = .ret v := rfl

@[simp] theorem ret_bind (v : α) (f : α → Program I β) :
    ((.ret v : Program I α) >>= f) = f v := rfl

@[simp] theorem act_bind (a : I.Action) (next : I.Reply a → Program I α)
    (f : α → Program I β) :
    (.act a next >>= f) = .act a fun r => next r >>= f := rfl

@[simp] theorem call_eq_act (a : I.Action) : (call a : Program I _) = .act a .ret := rfl

/-- Run a program alone, from start to end. -/
def run (exec : Semantics I Ω σ) : Program I α → Ω → σ → α × Ω × σ
  | .ret v, ω, s => (v, ω, s)
  | .act a next, ω, s =>
      let done := exec a ω s
      (next done.1).run exec done.2.1 done.2.2

variable (exec : Semantics I Ω σ)

@[simp] theorem run_ret (v : α) (ω : Ω) (s : σ) :
    (Program.ret v : Program I α).run exec ω s = (v, ω, s) := rfl

@[simp] theorem run_act (a : I.Action) (next : I.Reply a → Program I α)
    (ω : Ω) (s : σ) :
    (Program.act a next).run exec ω s =
      (next (exec a ω s).1).run exec (exec a ω s).2.1 (exec a ω s).2.2 := rfl

/-- Sequencing two programs runs the second from where the first stopped. -/
theorem run_bind (p : Program I α) (f : α → Program I β) (ω : Ω) (s : σ) :
    (p >>= f).run exec ω s =
      (f (p.run exec ω s).1).run exec (p.run exec ω s).2.1 (p.run exec ω s).2.2 := by
  induction p generalizing ω s with
  | ret v => rfl
  | act a next ih => exact ih _ _ _

/-- The state after the first actions of a program, run alone and stopped there. -/
def runFor (exec : Semantics I Ω σ) : ℕ → Program I α → Ω → σ → σ
  | 0, _, _, s => s
  | _ + 1, .ret _, _, s => s
  | n + 1, .act a next, ω, s =>
      let done := exec a ω s
      (next done.1).runFor exec n done.2.1 done.2.2

/-- The program performs no other actions. -/
def Only (P : I.Action → Prop) : Program I α → Prop
  | .ret _ => True
  | .act a next => P a ∧ ∀ r, (next r).Only P

theorem Only.mono {P Q : I.Action → Prop} {p : Program I α} (h : p.Only P)
    (himp : ∀ a, P a → Q a) : p.Only Q := by
  induction p with
  | ret v => trivial
  | act a next ih => exact ⟨himp a h.1, fun r => ih r (h.2 r)⟩

variable {exec}

/-- What the actions of a program preserve, the whole program preserves. -/
theorem Only.run {P : I.Action → Prop} {Q : σ → Prop} {p : Program I α} (h : p.Only P)
    (hstep : ∀ a ω s, P a → Q s → Q (exec a ω s).2.2) {ω : Ω} {s : σ} (hs : Q s) :
    Q (p.run exec ω s).2.2 := by
  induction p generalizing ω s with
  | ret v => exact hs
  | act a next ih => exact ih _ (h.2 _) (hstep a ω s h.1 hs)

theorem Only.runFor {P : I.Action → Prop} {Q : σ → Prop} {p : Program I α} (h : p.Only P)
    (hstep : ∀ a ω s, P a → Q s → Q (exec a ω s).2.2) (n : ℕ) {ω : Ω} {s : σ} (hs : Q s) :
    Q (p.runFor exec n ω s) := by
  induction p generalizing n ω s with
  | ret v =>
      cases n with
      | zero => exact hs
      | succ n => exact hs
  | act a next ih =>
      cases n with
      | zero => exact hs
      | succ n => exact ih _ (h.2 _) n (hstep a ω s h.1 hs)

end Program

/-- A state and those before it, the latest first. -/
structure History (σ : Type) where
  now : σ
  past : List σ

/-- Every state so far, the latest first. -/
def History.moments (h : History σ) : List σ := h.now :: h.past

/-- Actions that leave the state before them in the history. -/
def recorded (exec : Semantics I Ω σ) : Semantics I Ω (History σ) := fun a ω h =>
  ((exec a ω h.now).1, (exec a ω h.now).2.1, ⟨(exec a ω h.now).2.2, h.moments⟩)

end AtomicProgram
