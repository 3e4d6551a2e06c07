import Claimward.Library.Program
import Claimward.Library.Runs

/-!
# Interleaved programs

A pool is a shared state and numbered threads, each a program with its own
oracle. A move starts a program in a free slot or lets one thread perform its
next action. A finished thread keeps its slot, so its result stays visible.

## Implementation notes

Proofs about pools follow one pattern. Every thread carries a note that its
program does not hold (what it has reserved, what it is about to give back),
a predicate says which programs a note allows, and an invariant relates the
shared state to the notes of all threads. `Pool.noted_run` reduces a whole
interleaving to one action of one thread.
-/

namespace AtomicProgram

open Runs

/-- A shared state and the threads that work on it. -/
structure Pool (I : Interface) (Ω σ α : Type) where
  shared : σ
  thread : ℕ → Option (Program I α × Ω)

/-- Start a program in a slot, or advance the thread of a slot by one action. -/
inductive Move (I : Interface) (Ω α : Type) where
  | start (slot : ℕ) (program : Program I α) (oracle : Ω)
  | advance (slot : ℕ)

variable {I : Interface} {Ω σ α : Type}

namespace Pool

/-- No thread has been started. -/
def initial (s : σ) : Pool I Ω σ α := ⟨s, fun _ => none⟩

/-- One move. Starting in a taken slot and advancing a finished or absent
thread change nothing. -/
def move (exec : Semantics I Ω σ) (c : Pool I Ω σ α) : Move I Ω α → Pool I Ω σ α
  | .start i p ω =>
      match c.thread i with
      | none => { c with thread := Function.update c.thread i (some (p, ω)) }
      | some _ => c
  | .advance i =>
      match c.thread i with
      | some (.act a next, ω) =>
          let done := exec a ω c.shared
          { shared := done.2.2
            thread := Function.update c.thread i (some (next done.1, done.2.1)) }
      | _ => c

/-- The thread in the slot has been started and has not returned. -/
def InFlight (c : Pool I Ω σ α) (i : ℕ) : Prop :=
  ∃ a next ω, c.thread i = some (.act a next, ω)

/-- The action the thread in the slot performs next. -/
def nextAction (c : Pool I Ω σ α) (i : ℕ) : Option I.Action :=
  match c.thread i with
  | some (.act a _, _) => some a
  | _ => none

/-- The result a finished thread has returned. -/
def result (c : Pool I Ω σ α) (i : ℕ) : Option α :=
  match c.thread i with
  | some (.ret v, _) => some v
  | _ => none

variable {exec : Semantics I Ω σ}

theorem move_start {c : Pool I Ω σ α} {i : ℕ} {p : Program I α} {ω : Ω}
    (h : c.thread i = none) :
    c.move exec (.start i p ω) =
      { c with thread := Function.update c.thread i (some (p, ω)) } := by
  simp [move, h]

theorem move_start_taken {c : Pool I Ω σ α} {i : ℕ} {p : Program I α} {ω : Ω} {t}
    (h : c.thread i = some t) : c.move exec (.start i p ω) = c := by
  simp [move, h]

theorem move_advance {c : Pool I Ω σ α} {i : ℕ} {a : I.Action}
    {next : I.Reply a → Program I α} {ω : Ω} (h : c.thread i = some (.act a next, ω)) :
    c.move exec (.advance i) =
      { shared := (exec a ω c.shared).2.2
        thread := Function.update c.thread i
          (some (next (exec a ω c.shared).1, (exec a ω c.shared).2.1)) } := by
  simp [move, h]

theorem move_advance_stopped {c : Pool I Ω σ α} {i : ℕ} (h : ¬ c.InFlight i) :
    c.move exec (.advance i) = c := by
  cases ht : c.thread i with
  | none => simp [move, ht]
  | some t =>
      obtain ⟨p, ω⟩ := t
      cases p with
      | ret v => simp [move, ht]
      | act a next => exact absurd ⟨a, next, ω, ht⟩ h

/-- What a move does: nothing, the start of a program in a free slot, or the
next action of one thread. -/
theorem move_cases (exec : Semantics I Ω σ) (c : Pool I Ω σ α) (m : Move I Ω α) :
    c.move exec m = c ∨
      (∃ i p ω, m = .start i p ω ∧ c.thread i = none ∧
        c.move exec m = { c with thread := Function.update c.thread i (some (p, ω)) }) ∨
      ∃ i a next ω, m = .advance i ∧ c.thread i = some (.act a next, ω) ∧
        c.move exec m =
          { shared := (exec a ω c.shared).2.2
            thread := Function.update c.thread i
              (some (next (exec a ω c.shared).1, (exec a ω c.shared).2.1)) } := by
  cases m with
  | start i p ω =>
      cases hfree : c.thread i with
      | some t => exact Or.inl (move_start_taken hfree)
      | none => exact Or.inr (Or.inl ⟨i, p, ω, rfl, hfree, move_start hfree⟩)
  | advance i =>
      by_cases hfly : c.InFlight i
      · obtain ⟨a, next, ω, hi⟩ := hfly
        exact Or.inr (Or.inr ⟨i, a, next, ω, rfl, hi, move_advance hi⟩)
      · exact Or.inl (move_advance_stopped hfly)

/-- What every action leaves of the shared state, a move leaves of it. -/
theorem shared_move {P : σ → Prop} {c : Pool I Ω σ α} {m : Move I Ω α} (h : P c.shared)
    (hact : ∀ a ω, P (exec a ω c.shared).2.2) : P (c.move exec m).shared := by
  rcases c.move_cases exec m with heq | ⟨i, p, ω, -, -, heq⟩ | ⟨i, a, next, ω, -, -, heq⟩
  · rw [heq]
    exact h
  · rw [heq]
    exact h
  · rw [heq]
    exact hact a ω

theorem nextAction_eq {c : Pool I Ω σ α} {i : ℕ} {a : I.Action} {next : I.Reply a → Program I α}
    {ω : Ω} (h : c.thread i = some (.act a next, ω)) : c.nextAction i = some a := by
  simp [nextAction, h]

theorem thread_of_nextAction {c : Pool I Ω σ α} {i : ℕ} {a : I.Action}
    (h : c.nextAction i = some a) : ∃ next ω, c.thread i = some (.act a next, ω) := by
  unfold nextAction at h
  split at h
  · rename_i next ω hi
    obtain rfl := Option.some.inj h
    exact ⟨next, ω, hi⟩
  · exact absurd h (by simp)

theorem result_eq {c : Pool I Ω σ α} {i : ℕ} {v : α} (h : c.result i = some v) :
    ∃ ω, c.thread i = some (.ret v, ω) := by
  unfold result at h
  split at h
  · rename_i ω hi
    exact ⟨ω, by rw [hi, Option.some.inj h]⟩
  · exact absurd h (by simp)

/-- What is found after one slot is written stands in that slot, or was there
before. -/
theorem update_eq_some {β : Type*} {f : ℕ → Option β} {i j : ℕ} {n : Option β} {m : β}
    (h : Function.update f i n j = some m) : j = i ∧ n = some m ∨ j ≠ i ∧ f j = some m := by
  by_cases hj : j = i
  · subst hj
    exact Or.inl ⟨rfl, by simpa using h⟩
  · exact Or.inr ⟨hj, by simpa [Function.update_of_ne hj] using h⟩

theorem thread_update {thread : ℕ → Option (Program I α × Ω)} {i j : ℕ} {p q : Program I α}
    {ω ω' : Ω} (h : Function.update thread i (some (p, ω)) j = some (q, ω')) :
    j = i ∧ p = q ∧ ω = ω' ∨ j ≠ i ∧ thread j = some (q, ω') := by
  rcases update_eq_some h with ⟨hj, heq⟩ | hold
  · exact Or.inl ⟨hj, Prod.mk.inj (Option.some.inj heq)⟩
  · exact Or.inr hold

/-- Advancing one thread leaves the others where they are. -/
theorem thread_advance_of_ne {c : Pool I Ω σ α} {i j : ℕ} (h : j ≠ i) :
    (c.move exec (.advance i)).thread j = c.thread j := by
  by_cases hfly : c.InFlight i
  · obtain ⟨a, next, ω, hi⟩ := hfly
    rw [move_advance hi]
    exact Function.update_of_ne h _ _
  · rw [move_advance_stopped hfly]

/-- A slot in which nothing is started stays free. -/
theorem thread_run_eq_none {c : Pool I Ω σ α} {moves : List (Move I Ω α)} {j : ℕ}
    (hfree : c.thread j = none) (hm : ∀ p ω, .start j p ω ∉ moves) :
    (run (move exec) c moves).thread j = none := by
  induction moves generalizing c with
  | nil => exact hfree
  | cons m rest ih =>
      refine ih ?_ fun p ω hmem => hm p ω (List.mem_cons_of_mem _ hmem)
      rcases c.move_cases exec m with heq | ⟨i, p, ω, rfl, hi, heq⟩ |
        ⟨i, a, next, ω, rfl, hi, heq⟩
      · rw [heq]
        exact hfree
      · have hne : j ≠ i := by
          rintro rfl
          exact hm p ω List.mem_cons_self
        rw [heq]
        simpa [Function.update_of_ne hne] using hfree
      · have hne : j ≠ i := by
          rintro rfl
          exact absurd (hfree.symm.trans hi) (by simp)
        rw [heq]
        simpa [Function.update_of_ne hne] using hfree

section Every

variable {P : Program I α → Ω → Prop}

/-- Every thread has the property. -/
def Every (P : Program I α → Ω → Prop) (c : Pool I Ω σ α) : Prop :=
  ∀ i p ω, c.thread i = some (p, ω) → P p ω

theorem every_initial (s : σ) : Every P (initial s : Pool I Ω σ α) := by
  intro i p ω hi
  exact absurd hi (by simp [initial])

/-- One thread goes on with a program that has the property. -/
theorem Every.update {c : Pool I Ω σ α} (h : c.Every P) {i : ℕ} {p : Program I α} {ω : Ω}
    (hp : P p ω) (s : σ) : Every P ⟨s, Function.update c.thread i (some (p, ω))⟩ := by
  intro k p' ω' hk
  rcases thread_update hk with ⟨rfl, rfl, rfl⟩ | ⟨-, hk⟩
  · exact hp
  · exact h k p' ω' hk

/-- A property of programs that each of their actions keeps. -/
theorem Every.move {Q : Program I α → Prop} {c : Pool I Ω σ α} {m : Move I Ω α}
    (h : c.Every fun p _ => Q p) (hstart : ∀ i p ω, m = .start i p ω → Q p)
    (hnext : ∀ a next r, Q (.act a next) → Q (next r)) :
    (c.move exec m).Every fun p _ => Q p := by
  rcases c.move_cases exec m with heq | ⟨i, p, ω, hm, -, heq⟩ | ⟨i, a, next, ω, -, hi, heq⟩
  · rw [heq]
    exact h
  · rw [heq]
    exact h.update (hstart i p ω hm) c.shared
  · rw [heq]
    exact h.update (hnext a next _ (h i _ ω hi)) _

end Every

section Notes

variable {N : Type*} (allows : Option N → Program I α → Ω → Prop)
  (inv : σ → (ℕ → Option N) → Prop)

/-- The notes allow every thread's program, and free slots have none. -/
def NotesFit (note : ℕ → Option N) (c : Pool I Ω σ α) : Prop :=
  (∀ i p ω, c.thread i = some (p, ω) → allows (note i) p ω) ∧
    ∀ i, c.thread i = none → note i = none

/-- Some notes fit the threads and satisfy the invariant together with the
shared state. -/
def Noted (c : Pool I Ω σ α) : Prop := ∃ note, NotesFit allows note c ∧ inv c.shared note

variable {allows inv} {ok : Pool I Ω σ α → Move I Ω α → Prop}

/-- One thread goes on with a new program and a new note. -/
theorem NotesFit.update {note : ℕ → Option N} {c : Pool I Ω σ α} (h : NotesFit allows note c)
    {i : ℕ} {p : Program I α} {ω : Ω} {n : Option N} (hn : allows n p ω) (s : σ) :
    NotesFit allows (Function.update note i n)
      ⟨s, Function.update c.thread i (some (p, ω))⟩ := by
  constructor
  · intro k p' ω' hk
    rcases thread_update hk with ⟨rfl, rfl, rfl⟩ | ⟨hki, hk⟩
    · rw [Function.update_self]
      exact hn
    · rw [Function.update_of_ne hki]
      exact h.1 k p' ω' hk
  · intro k hk
    by_cases hki : k = i
    · subst hki
      simp at hk
    · simp only [Function.update_of_ne hki] at hk ⊢
      exact h.2 k hk

/-- The rule for interleavings: a started program is allowed without a note,
and one admissible action of one thread can be followed by a new note for that
thread alone. Then every admissible run of the pool can be noted. -/
theorem noted_run {c : Pool I Ω σ α} {moves : List (Move I Ω α)}
    (hstart : ∀ (c : Pool I Ω σ α) i p ω, ok c (.start i p ω) → allows none p ω)
    (hact : ∀ (c : Pool I Ω σ α) note i a next ω, inv c.shared note →
      NotesFit allows note c → c.thread i = some (.act a next, ω) → ok c (.advance i) →
      ∃ n, allows n (next (exec a ω c.shared).1) (exec a ω c.shared).2.1 ∧
        inv (exec a ω c.shared).2.2 (Function.update note i n))
    (hinit : Noted allows inv c) (hrun : Admissible (move exec) ok c moves) :
    Noted allows inv (run (move exec) c moves) := by
  refine hrun.invariant (Noted allows inv) (fun c m hc hok => ?_) hinit
  obtain ⟨note, hfit, hinv⟩ := hc
  rcases c.move_cases exec m with heq | ⟨i, p, ω, rfl, hfree, heq⟩ |
    ⟨i, a, next, ω, rfl, hi, heq⟩
  · rw [heq]
    exact ⟨note, hfit, hinv⟩
  · rw [heq]
    refine ⟨Function.update note i none, hfit.update (hstart c i p ω hok) c.shared, ?_⟩
    rw [← hfit.2 i hfree, Function.update_eq_self]
    exact hinv
  · rw [heq]
    obtain ⟨n, hn, hn'⟩ := hact c note i a next ω hinv hfit hi hok
    exact ⟨Function.update note i n, hfit.update hn _, hn'⟩

theorem noted_initial {s : σ} (h : inv s fun _ => none) : Noted allows inv (initial s) := by
  refine ⟨fun _ => none, ⟨?_, fun _ _ => rfl⟩, h⟩
  intro i p ω hi
  exact absurd hi (by simp [initial])

end Notes

end Pool

end AtomicProgram
