import Claimward.Library.Interleaving
import Claimward.Library.Observer

/-!
# Threads that keep a journal

In an interleaving every thread writes its own actions and their replies down,
and the shared state keeps the states before it. A thread sees the others only
through replies, so a rule that its program keeps whatever the replies are is
kept in every interleaving. The replies are not arbitrary there: each was given
by a state of the run.
-/

namespace AtomicProgram

open Runs

variable {I : Interface} {Ω σ α : Type}

/-- Every reply in the journal is one that its action gives in one of the states. -/
def Truthful (exec : Semantics I Ω σ) (journal : List (Happening I)) (states : List σ) : Prop :=
  ∀ e ∈ journal, ∃ s ∈ states, ∃ ω, e.2 = (exec e.1 ω s).1

theorem Truthful.later {exec : Semantics I Ω σ} {journal : List (Happening I)}
    {states : List σ} (h : Truthful exec journal states) (s : σ) :
    Truthful exec journal (s :: states) := by
  intro e he
  obtain ⟨s', hs', hreply⟩ := h e he
  exact ⟨s', List.mem_cons_of_mem s hs', hreply⟩

namespace Pool

variable {exec : Semantics I Ω σ} {R : ℕ → List (Happening I) → I.Action → Prop}

/-- Every thread stays within the rule of its slot, and its journal tells what
has happened. -/
def KeepsRules (exec : Semantics I Ω σ) (R : ℕ → List (Happening I) → I.Action → Prop)
    (c : Pool I (Ω × List (Happening I)) (History σ) α) : Prop :=
  ∀ i p ω, c.thread i = some (p, ω) →
    p.Within (R i) (fun _ _ => True) ω.2 ∧ Truthful exec ω.2 c.shared.moments

theorem KeepsRules.move {c : Pool I (Ω × List (Happening I)) (History σ) α}
    {m : Move I (Ω × List (Happening I)) α} (h : c.KeepsRules exec R)
    (hstart : ∀ i p ω, m = .start i p ω → ω.2 = [] ∧ p.Within (R i) (fun _ _ => True) []) :
    (c.move (journaled (recorded exec)) m).KeepsRules exec R := by
  intro j q ω' hj
  rcases c.move_cases (journaled (recorded exec)) m with heq | ⟨i, p, ω, hm, -, heq⟩ |
    ⟨i, a, next, ω, -, hi, heq⟩
  · rw [heq] at hj ⊢
    exact h j q ω' hj
  · rw [heq] at hj ⊢
    rcases thread_update hj with ⟨rfl, rfl, rfl⟩ | ⟨-, hj⟩
    · obtain ⟨hempty, hwithin⟩ := hstart _ _ _ hm
      rw [hempty]
      exact ⟨hwithin, fun e he => absurd he List.not_mem_nil⟩
    · exact h j q ω' hj
  · rw [heq] at hj ⊢
    rcases thread_update hj with ⟨rfl, rfl, rfl⟩ | ⟨-, hj⟩
    · obtain ⟨hwithin, htrue⟩ := h _ _ _ hi
      refine ⟨hwithin.2 _, ?_⟩
      intro e he
      rcases List.mem_cons.mp he with rfl | he
      · exact ⟨c.shared.now, List.mem_cons_of_mem _ List.mem_cons_self, ω.1, rfl⟩
      · exact htrue.later _ e he
    · obtain ⟨hwithin, htrue⟩ := h j q ω' hj
      exact ⟨hwithin, htrue.later _⟩

/-- In every interleaving of programs that keep the rules of their slots, each
thread stays within its rule. -/
theorem keepsRules_run {moves : List (Move I (Ω × List (Happening I)) α)} (s : σ)
    (hstart : ∀ i p ω, .start i p ω ∈ moves →
      ω.2 = [] ∧ p.Within (R i) (fun _ _ => True) []) :
    (run (move (journaled (recorded exec))) (.initial ⟨s, []⟩) moves).KeepsRules exec R := by
  have hinit : (initial ⟨s, []⟩ : Pool I (Ω × List (Happening I)) (History σ) α).KeepsRules
      exec R := fun i p ω hi => absurd hi (by simp [initial])
  generalize (initial ⟨s, []⟩ : Pool I (Ω × List (Happening I)) (History σ) α) = c at hinit ⊢
  induction moves generalizing c with
  | nil => exact hinit
  | cons m rest ih =>
      refine ih (fun i p ω hmem => hstart i p ω (List.mem_cons_of_mem _ hmem)) _ ?_
      apply hinit.move
      rintro i p ω rfl
      exact hstart i p ω List.mem_cons_self

end Pool

end AtomicProgram
