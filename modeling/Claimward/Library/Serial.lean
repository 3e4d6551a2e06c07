import Claimward.Library.Interleaving

/-!
# Two threads, one after the other

The serial outcome of two threads is what they return, and the state they
leave, when the rest of the one runs before the rest of the other. An
interleaving is explained by an order if the serial outcome of that order is
the same at its start and at its end. A step of the first thread never changes
it. A step of the second does not if the action may as well be performed after
the rest of the first.
-/

namespace AtomicProgram.Pool

variable {I : Interface} {Ω σ α : Type} (exec : Semantics I Ω σ)

/-- What the threads of `i` and `j` return and the state they leave, when `i`
finishes first. -/
def serial (c : Pool I Ω σ α) (i j : ℕ) : Option (α × α × σ) :=
  match c.thread i, c.thread j with
  | some (p, ω), some (q, ω') =>
      let first := p.run exec ω c.shared
      let second := q.run exec ω' first.2.2
      some (first.1, second.1, second.2.2)
  | _, _ => none

variable {exec} {c : Pool I Ω σ α} {i j : ℕ} {p q : Program I α} {ω ω' : Ω}

theorem serial_eq (hi : c.thread i = some (p, ω)) (hj : c.thread j = some (q, ω')) :
    c.serial exec i j =
      some ((p.run exec ω c.shared).1,
        (q.run exec ω' (p.run exec ω c.shared).2.2).1,
        (q.run exec ω' (p.run exec ω c.shared).2.2).2.2) := by
  simp [serial, hi, hj]

/-- Once both have returned, the serial outcome is what has happened. -/
theorem serial_of_result {v w : α} (hi : c.result i = some v) (hj : c.result j = some w) :
    c.serial exec i j = some (v, w, c.shared) := by
  obtain ⟨ω, hi⟩ := result_eq hi
  obtain ⟨ω', hj⟩ := result_eq hj
  rw [serial_eq hi hj]
  rfl

section Steps

variable {a : I.Action} {next : I.Reply a → Program I α}

theorem serial_advance_first (hij : i ≠ j) (hi : c.thread i = some (.act a next, ω))
    (hj : c.thread j = some (q, ω')) :
    (c.move exec (.advance i)).serial exec i j = c.serial exec i j := by
  have hj' : (c.move exec (.advance i)).thread j = some (q, ω') := by
    rw [thread_advance_of_ne hij.symm, hj]
  rw [serial_eq hi hj]
  rw [move_advance hi] at hj' ⊢
  rw [serial_eq (Function.update_self _ _ _) hj']
  rfl

/-- The action of the second thread may be performed before or after the rest
of the first. -/
theorem serial_advance_second (hij : i ≠ j) (hi : c.thread i = some (p, ω))
    (hj : c.thread j = some (.act a next, ω'))
    (hnext : next (exec a ω' (p.run exec ω c.shared).2.2).1 = next (exec a ω' c.shared).1)
    (horacle : (exec a ω' (p.run exec ω c.shared).2.2).2.1 = (exec a ω' c.shared).2.1)
    (hstate : (exec a ω' (p.run exec ω c.shared).2.2).2.2 =
      (p.run exec ω (exec a ω' c.shared).2.2).2.2)
    (hresult : (p.run exec ω (exec a ω' c.shared).2.2).1 = (p.run exec ω c.shared).1) :
    (c.move exec (.advance j)).serial exec i j = c.serial exec i j := by
  have hi' : (c.move exec (.advance j)).thread i = some (p, ω) := by
    rw [thread_advance_of_ne hij, hi]
  rw [serial_eq hi hj, Program.run_act, hnext, horacle, hstate, ← hresult]
  rw [move_advance hj] at hi' ⊢
  rw [serial_eq hi' (Function.update_self _ _ _)]

/-- Neither the action nor the rest of the first thread changes the state. -/
theorem serial_advance_still (hij : i ≠ j) (hi : c.thread i = some (p, ω))
    (hj : c.thread j = some (.act a next, ω'))
    (haction : (exec a ω' c.shared).2.2 = c.shared)
    (hrest : (p.run exec ω c.shared).2.2 = c.shared) :
    (c.move exec (.advance j)).serial exec i j = c.serial exec i j := by
  apply serial_advance_second hij hi hj
  · rw [hrest]
  · rw [hrest]
  · rw [hrest, haction, hrest]
  · rw [haction]

end Steps

end AtomicProgram.Pool
