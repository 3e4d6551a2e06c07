import Claimward.Library.Interleaving

/-!
# Pools that remember how their threads were started

A thread forgets its program as it goes on. Statements that compare a thread
with what it was started as (which request it serves, what it read first) are
made about pools that keep the origin of every thread.
-/

namespace AtomicProgram

open Runs

/-- A pool, with the program and the oracle each thread was started with. -/
structure Traced (I : Interface) (Ω σ α : Type) where
  pool : Pool I Ω σ α
  origin : ℕ → Option (Program I α × Ω)

variable {I : Interface} {Ω σ α : Type}

namespace Traced

def initial (s : σ) : Traced I Ω σ α := ⟨.initial s, fun _ => none⟩

/-- One move of the pool. A program started in a free slot is written down. -/
def move (exec : Semantics I Ω σ) (t : Traced I Ω σ α) (m : Move I Ω α) : Traced I Ω σ α where
  pool := t.pool.move exec m
  origin :=
    match m with
    | .start i p ω =>
        if (t.pool.thread i).isNone then Function.update t.origin i (some (p, ω)) else t.origin
    | .advance _ => t.origin

variable {exec : Semantics I Ω σ} {t : Traced I Ω σ α}

theorem move_start {i : ℕ} {p : Program I α} {ω : Ω} (h : t.pool.thread i = none) :
    t.move exec (.start i p ω) =
      { pool := { t.pool with thread := Function.update t.pool.thread i (some (p, ω)) }
        origin := Function.update t.origin i (some (p, ω)) } := by
  simp [move, Pool.move_start h, h]

theorem move_advance {i : ℕ} {a : I.Action} {next : I.Reply a → Program I α} {ω : Ω}
    (h : t.pool.thread i = some (.act a next, ω)) :
    t.move exec (.advance i) =
      { pool :=
          { shared := (exec a ω t.pool.shared).2.2
            thread := Function.update t.pool.thread i
              (some (next (exec a ω t.pool.shared).1, (exec a ω t.pool.shared).2.1)) }
        origin := t.origin } := by
  simp [move, Pool.move_advance h]

/-- What a move does: nothing, the start of a program in a free slot, or the
next action of one thread. -/
theorem move_cases (exec : Semantics I Ω σ) (t : Traced I Ω σ α) (m : Move I Ω α) :
    t.move exec m = t ∨
      (∃ i p ω, m = .start i p ω ∧ t.pool.thread i = none ∧
        t.move exec m =
          { pool := { t.pool with thread := Function.update t.pool.thread i (some (p, ω)) }
            origin := Function.update t.origin i (some (p, ω)) }) ∨
      ∃ i a next ω, m = .advance i ∧ t.pool.thread i = some (.act a next, ω) ∧
        t.move exec m =
          { pool :=
              { shared := (exec a ω t.pool.shared).2.2
                thread := Function.update t.pool.thread i
                  (some (next (exec a ω t.pool.shared).1, (exec a ω t.pool.shared).2.1)) }
            origin := t.origin } := by
  rcases t.pool.move_cases exec m with heq | ⟨i, p, ω, rfl, hi, -⟩ | ⟨i, a, next, ω, rfl, hi, -⟩
  · left
    cases m with
    | advance i => simp only [move, heq]
    | start i p ω =>
        cases hi : t.pool.thread i with
        | some t' => simp only [move, heq, hi, Option.isNone_some, Bool.false_eq_true, if_false]
        | none =>
            -- a start in a free slot does change the pool
            have hthread := congrFun (congrArg Pool.thread heq) i
            rw [Pool.move_start hi] at hthread
            simp [hi] at hthread
  · exact Or.inr (Or.inl ⟨i, p, ω, rfl, hi, move_start hi⟩)
  · exact Or.inr (Or.inr ⟨i, a, next, ω, rfl, hi, move_advance hi⟩)

/-- Every thread stands in the relation to what it was started as. -/
def Follows (R : Program I α × Ω → Program I α → Ω → Prop) (t : Traced I Ω σ α) : Prop :=
  ∀ i p ω, t.pool.thread i = some (p, ω) → ∃ o, t.origin i = some o ∧ R o p ω

variable {R : Program I α × Ω → Program I α → Ω → Prop}

theorem follows_initial (s : σ) : Follows R (initial s : Traced I Ω σ α) := by
  intro i p ω hi
  exact absurd hi (by simp [initial, Pool.initial])

theorem Follows.start (h : t.Follows R) {i : ℕ} {p : Program I α} {ω : Ω} (hp : R (p, ω) p ω) :
    Follows R (σ := σ)
      ⟨{ t.pool with thread := Function.update t.pool.thread i (some (p, ω)) },
        Function.update t.origin i (some (p, ω))⟩ := by
  intro j q ω' hj
  rcases Pool.thread_update hj with ⟨rfl, rfl, rfl⟩ | ⟨hji, hj⟩
  · exact ⟨_, Function.update_self _ _ _, hp⟩
  · simp only [Function.update_of_ne hji]
    exact h j q ω' hj

theorem Follows.advance (h : t.Follows R) {i : ℕ} {p : Program I α} {ω : Ω}
    {o : Program I α × Ω} (ho : t.origin i = some o) (hp : R o p ω) (s : σ) :
    Follows R ⟨⟨s, Function.update t.pool.thread i (some (p, ω))⟩, t.origin⟩ := by
  intro j q ω' hj
  rcases Pool.thread_update hj with ⟨rfl, rfl, rfl⟩ | ⟨-, hj⟩
  · exact ⟨o, ho, hp⟩
  · exact h j q ω' hj

end Traced

end AtomicProgram
