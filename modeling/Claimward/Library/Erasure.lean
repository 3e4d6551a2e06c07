import Claimward.Library.Interleaving

/-!
# Threads that only read

A thread whose actions leave every shared state as it is can be taken out of a
run. The shared state and every other thread, with all its replies, are the same
without it.
-/

namespace AtomicProgram

open Runs

variable {I : Interface} {Ω σ α : Type}

/-- The slot that a move is about. -/
def Move.slot : Move I Ω α → ℕ
  | .start i _ _ => i
  | .advance i => i

/-- The action leaves every shared state as it is. -/
def Reads (exec : Semantics I Ω σ) (a : I.Action) : Prop := ∀ ω s, (exec a ω s).2.2 = s

/-- If the move starts a program, the program only reads. -/
def Move.StartsReader (exec : Semantics I Ω σ) : Move I Ω α → Prop
  | .start _ p _ => p.Only (Reads exec)
  | .advance _ => True

namespace Pool

variable {exec : Semantics I Ω σ} {hidden : ℕ → Bool} {c d : Pool I Ω σ α} {m : Move I Ω α}

/-- Two pools with the same shared state and the same threads, those in the hidden
slots aside. -/
structure Agree (hidden : ℕ → Bool) (c d : Pool I Ω σ α) : Prop where
  shared : c.shared = d.shared
  thread : ∀ i, hidden i = false → c.thread i = d.thread i

/-- The threads in the hidden slots only read. -/
def HidesReaders (exec : Semantics I Ω σ) (hidden : ℕ → Bool) (c : Pool I Ω σ α) : Prop :=
  ∀ i p ω, hidden i = true → c.thread i = some (p, ω) → p.Only (Reads exec)

theorem hidesReaders_initial (s : σ) : HidesReaders exec hidden (initial s : Pool I Ω σ α) :=
  fun _ _ _ _ h => absurd h (by simp [initial])

/-- What is in the hidden slots stays a reader. -/
theorem HidesReaders.move (h : HidesReaders exec hidden c)
    (hm : hidden m.slot = true → m.StartsReader exec) :
    HidesReaders exec hidden (c.move exec m) := by
  rcases c.move_cases exec m with heq | ⟨i, p, ω, rfl, -, heq⟩ | ⟨i, a, next, ω, rfl, hi, heq⟩
  · rw [heq]
    exact h
  · rw [heq]
    intro j q ω' hj hq
    rcases thread_update hq with ⟨rfl, rfl, -⟩ | ⟨-, hq⟩
    · exact hm hj
    · exact h j q ω' hj hq
  · rw [heq]
    intro j q ω' hj hq
    rcases thread_update hq with ⟨rfl, rfl, -⟩ | ⟨-, hq⟩
    · exact (h j _ ω hj hi).2 _
    · exact h j q ω' hj hq

/-- A move of a hidden slot is seen by nobody else. -/
theorem Agree.move_hidden (h : Agree hidden c d) (hc : HidesReaders exec hidden c)
    (hm : hidden m.slot = true) : Agree hidden (c.move exec m) d := by
  rcases c.move_cases exec m with heq | ⟨i, p, ω, rfl, -, heq⟩ | ⟨i, a, next, ω, rfl, hi, heq⟩
  · rw [heq]
    exact h
  · rw [heq]
    refine ⟨h.shared, fun j hj => ?_⟩
    have hne : j ≠ i := by
      rintro rfl
      exact absurd (hj.symm.trans hm) (by simp)
    exact (Function.update_of_ne hne _ _).trans (h.thread j hj)
  · rw [heq]
    refine ⟨((hc i _ ω hm hi).1 ω c.shared).trans h.shared, fun j hj => ?_⟩
    have hne : j ≠ i := by
      rintro rfl
      exact absurd (hj.symm.trans hm) (by simp)
    exact (Function.update_of_ne hne _ _).trans (h.thread j hj)

/-- A move of another slot is the same in both pools. -/
theorem Agree.move_seen (h : Agree hidden c d) (hm : hidden m.slot = false) :
    Agree hidden (c.move exec m) (d.move exec m) := by
  have hslot := h.thread m.slot hm
  have hother : ∀ {t : Option (Program I α × Ω)} j, hidden j = false →
      Function.update c.thread m.slot t j = Function.update d.thread m.slot t j := by
    intro t j hj
    by_cases hji : j = m.slot
    · rw [hji, Function.update_self, Function.update_self]
    · rw [Function.update_of_ne hji, Function.update_of_ne hji]
      exact h.thread j hj
  cases m with
  | start i p ω =>
      have hd : d.thread i = c.thread i := hslot.symm
      cases hi : c.thread i with
      | some t =>
          rw [move_start_taken hi, move_start_taken (hd.trans hi)]
          exact h
      | none =>
          rw [move_start hi, move_start (hd.trans hi)]
          exact ⟨h.shared, hother⟩
  | advance i =>
      have hd : d.thread i = c.thread i := hslot.symm
      by_cases hfly : c.InFlight i
      · obtain ⟨a, next, ω, hi⟩ := hfly
        rw [move_advance hi, move_advance (hd.trans hi), h.shared]
        exact ⟨rfl, hother⟩
      · have hfly' : ¬ d.InFlight i := by
          rintro ⟨a, next, ω, hi⟩
          exact hfly ⟨a, next, ω, hd.symm.trans hi⟩
        rw [move_advance_stopped hfly, move_advance_stopped hfly']
        exact h

/-- A run, and the same run without the moves of the hidden slots. -/
theorem Agree.run_erase (h : Agree hidden c d) (hc : HidesReaders exec hidden c)
    {moves : List (Move I Ω α)}
    (hmoves : ∀ m ∈ moves, hidden m.slot = true → m.StartsReader exec) :
    Agree hidden (run (Pool.move exec) c moves)
      (run (Pool.move exec) d (moves.filter fun m => hidden m.slot = false)) := by
  induction moves generalizing c d with
  | nil => exact h
  | cons m moves ih =>
      obtain ⟨hm, hrest⟩ := List.forall_mem_cons.mp hmoves
      have hstep : HidesReaders exec hidden (c.move exec m) := hc.move hm
      cases hslot : hidden m.slot with
      | true =>
          rw [List.filter_cons_of_neg (by simp [hslot])]
          exact ih (h.move_hidden hc hslot) hstep hrest
      | false =>
          rw [List.filter_cons_of_pos (by simp [hslot])]
          exact ih (h.move_seen hslot) hstep hrest

end Pool

end AtomicProgram
