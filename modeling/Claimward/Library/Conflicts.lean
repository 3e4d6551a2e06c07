import Claimward.Library.Interleaving
import Mathlib.Data.List.Nodup

/-!
# Reordering interleavings

The steps of an interleaving are kept as a list of slots with the action each
slot performed. Two actions are independent if, performed one after the other
from any state, neither sees the other and the order does not matter for the
state that is left. Neighbouring steps of two threads whose actions are
independent can be exchanged.

An order of the threads asks for some exchanges: a step of a later thread that
precedes a step of an earlier one. If all of those are independent, the threads
return what they return when they run one after the other in that order. Threads
that have not returned yet can be run to their end, one after the other in any
order, and what the others have returned stays.

## Implementation notes

States are compared by an equivalence that the actions cannot tell apart.
Tables that list their entries in the order of arrival differ after an exchange
of two insertions, and nothing that looks up single keys can see it.
-/

namespace AtomicProgram.Pool

open Runs

variable {I : Interface} {Ω σ α : Type}

/-- The pool after some steps, each the next action of the thread in its slot. -/
inductive Steps (exec : Semantics I Ω σ) :
    Pool I Ω σ α → List (ℕ × I.Action) → Pool I Ω σ α → Prop
  | nil (c : Pool I Ω σ α) : Steps exec c [] c
  | cons {c c' : Pool I Ω σ α} {i : ℕ} {a : I.Action} {l : List (ℕ × I.Action)}
      (hnext : c.nextAction i = some a) (hrest : Steps exec (c.move exec (.advance i)) l c') :
      Steps exec c ((i, a) :: l) c'

section Definitions

variable (exec : Semantics I Ω σ) (R : σ → σ → Prop)

/-- The action replies the same in related states and leaves related ones. -/
def Respects (a : I.Action) : Prop :=
  ∀ ω s t, R s t →
    ∃ t', exec a ω t = ((exec a ω s).1, (exec a ω s).2.1, t') ∧ R (exec a ω s).2.2 t'

/-- Each action replies as if the other had not been performed, and the order
of the two does not matter. -/
def Independent (a b : I.Action) : Prop :=
  ∀ ω ω' s, ∃ t t',
    exec b ω' (exec a ω s).2.2 = ((exec b ω' s).1, (exec b ω' s).2.1, t) ∧
      exec a ω (exec b ω' s).2.2 = ((exec a ω s).1, (exec a ω s).2.1, t') ∧ R t t'

/-- The threads are the same and the shared states are related. -/
def Alike (c d : Pool I Ω σ α) : Prop := c.thread = d.thread ∧ R c.shared d.shared

/-- What a thread returns when it runs alone from the state, and the state it
leaves. A free slot returns nothing and leaves the state as it is. -/
def alone (thread : ℕ → Option (Program I α × Ω)) (s : σ) (i : ℕ) : Option α × σ :=
  match thread i with
  | some (p, ω) => (some (p.run exec ω s).1, (p.run exec ω s).2.2)
  | none => (none, s)

/-- The state after some threads ran alone, one after the other. -/
def inTurn (thread : ℕ → Option (Program I α × Ω)) (s : σ) (order : List ℕ) : σ :=
  order.foldl (fun s i => (alone exec thread s i).2) s

end Definitions

variable {exec : Semantics I Ω σ} {R : σ → σ → Prop} {c c' d : Pool I Ω σ α} {i j : ℕ}
  {a b : I.Action} {l l' : List (ℕ × I.Action)}

section Steps

theorem steps_cons :
    Steps exec c ((i, a) :: l) c' ↔
      c.nextAction i = some a ∧ Steps exec (c.move exec (.advance i)) l c' := by
  constructor
  · intro h
    cases h with
    | cons hnext hrest => exact ⟨hnext, hrest⟩
  · intro h
    exact .cons h.1 h.2

theorem Steps.split (h : Steps exec c (l ++ l') c') :
    ∃ d, Steps exec c l d ∧ Steps exec d l' c' := by
  induction l generalizing c with
  | nil => exact ⟨c, .nil c, h⟩
  | cons e l ih =>
      obtain ⟨hnext, hrest⟩ := steps_cons.mp h
      obtain ⟨d, hl, hl'⟩ := ih hrest
      exact ⟨d, .cons hnext hl, hl'⟩

theorem Steps.append (h : Steps exec c l d) (h' : Steps exec d l' c') :
    Steps exec c (l ++ l') c' := by
  induction h with
  | nil c => exact h'
  | cons hnext hrest ih => exact .cons hnext (ih h')

/-- The steps that a schedule takes. A turn of a slot with nothing to do is none. -/
def stepsOf (exec : Semantics I Ω σ) : Pool I Ω σ α → List ℕ → List (ℕ × I.Action)
  | _, [] => []
  | c, i :: schedule =>
      match c.nextAction i with
      | some a => (i, a) :: stepsOf exec (c.move exec (.advance i)) schedule
      | none => stepsOf exec c schedule

/-- Whatever the schedule, what has happened are its steps. -/
theorem steps_stepsOf (exec : Semantics I Ω σ) (c : Pool I Ω σ α) (schedule : List ℕ) :
    Steps exec c (stepsOf exec c schedule) (run (move exec) c (schedule.map .advance)) := by
  induction schedule generalizing c with
  | nil => exact .nil c
  | cons i schedule ih =>
      rw [List.map_cons, run_cons, stepsOf]
      cases hnext : c.nextAction i with
      | some a => exact .cons hnext (ih _)
      | none =>
          have hstopped : ¬ c.InFlight i := by
            rintro ⟨a, next, ω, hi⟩
            exact absurd (hnext.symm.trans (nextAction_eq hi)) (by simp)
          rw [move_advance_stopped hstopped]
          exact ih c

/-- A slot that takes no step keeps its thread. -/
theorem Steps.thread_of_not_mem (h : Steps exec c l c') (hi : ∀ e ∈ l, e.1 ≠ i) :
    c'.thread i = c.thread i := by
  induction h with
  | nil c => rfl
  | cons hnext hrest ih =>
      rw [ih fun e he => hi e (List.mem_cons_of_mem _ he)]
      exact thread_advance_of_ne (hi _ List.mem_cons_self).symm

/-- What every step keeps, about the steps so far and the pool they have led to,
holds at the end. -/
theorem Steps.invariant {J : List (ℕ × I.Action) → Pool I Ω σ α → Prop}
    {past : List (ℕ × I.Action)} (h : Steps exec c l c') (hc : J past c)
    (hstep : ∀ past c i a next ω, J past c → c.thread i = some (.act a next, ω) →
      J (past ++ [(i, a)]) (c.move exec (.advance i))) :
    J (past ++ l) c' := by
  induction h generalizing past with
  | nil c =>
      rw [List.append_nil]
      exact hc
  | @cons c c' i a l hnext hrest ih =>
      obtain ⟨next, ω, hi⟩ := thread_of_nextAction hnext
      rw [← List.singleton_append, ← List.append_assoc]
      exact ih (hstep past c i a next ω hc hi)

/-- A thread that has returned takes no step any more. -/
theorem Steps.result_eq (h : Steps exec c l c') {v : α} (hv : c.result i = some v) :
    c'.result i = some v := by
  induction h with
  | nil c => exact hv
  | @cons c c' j a l hnext hrest ih =>
      apply ih
      have hij : i ≠ j := by
        rintro rfl
        obtain ⟨next, ω, hi⟩ := thread_of_nextAction hnext
        simp [result, hi] at hv
      rw [result, thread_advance_of_ne hij]
      exact hv

/-- A thread can be run to its end. -/
theorem exists_end (exec : Semantics I Ω σ) (c : Pool I Ω σ α) (i : ℕ) :
    ∃ l d, Steps exec c l d ∧ (∀ e ∈ l, e.1 = i) ∧ ¬ d.InFlight i := by
  cases hi : c.thread i with
  | none =>
      refine ⟨[], c, .nil c, List.forall_mem_nil _, ?_⟩
      rintro ⟨a, next, ω, hfly⟩
      exact absurd (hi.symm.trans hfly) (by simp)
  | some t =>
      obtain ⟨p, ω⟩ := t
      induction p generalizing c ω with
      | ret v =>
          refine ⟨[], c, .nil c, List.forall_mem_nil _, ?_⟩
          rintro ⟨a, next, ω', hfly⟩
          exact absurd (hi.symm.trans hfly) (by simp)
      | act a next ih =>
          have hnext : (c.move exec (.advance i)).thread i =
              some (next (exec a ω c.shared).1, (exec a ω c.shared).2.1) := by
            rw [move_advance hi]
            exact Function.update_self i _ _
          obtain ⟨l, d, hsteps, hslots, hend⟩ := ih _ _ _ hnext
          exact ⟨(i, a) :: l, d, .cons (nextAction_eq hi) hsteps,
            List.forall_mem_cons.mpr ⟨rfl, hslots⟩, hend⟩

/-- Threads can be run to their end in any order. -/
theorem exists_ends (exec : Semantics I Ω σ) (c : Pool I Ω σ α) (order : List ℕ) :
    ∃ l d, Steps exec c l d ∧ (∀ e ∈ l, e.1 ∈ order) ∧ (∀ i ∈ order, ¬ d.InFlight i) ∧
      l.Pairwise fun e f => e.1 = f.1 ∨ [e.1, f.1].Sublist order := by
  induction order generalizing c with
  | nil => exact ⟨[], c, .nil c, List.forall_mem_nil _, List.forall_mem_nil _, .nil⟩
  | cons i order ih =>
      obtain ⟨l, d, hl, hslots, hend⟩ := exists_end exec c i
      obtain ⟨l', d', hl', hslots', hends, hsorted⟩ := ih d
      refine ⟨l ++ l', d', hl.append hl', ?_, ?_, ?_⟩
      · intro e he
        rcases List.mem_append.mp he with he | he
        · exact hslots e he ▸ List.mem_cons_self
        · exact List.mem_cons_of_mem i (hslots' e he)
      · refine List.forall_mem_cons.mpr ⟨?_, hends⟩
        by_cases hi : i ∈ order
        · exact hends i hi
        · have hsame : d'.thread i = d.thread i :=
            hl'.thread_of_not_mem fun e he hei => hi (hei ▸ hslots' e he)
          rwa [InFlight, hsame]
      · refine List.pairwise_append.mpr ⟨?_, ?_, ?_⟩
        · rw [List.pairwise_iff_forall_sublist]
          intro e f hef
          have he : e ∈ l := hef.subset (by simp)
          have hf : f ∈ l := hef.subset (by simp)
          exact Or.inl ((hslots e he).trans (hslots f hf).symm)
        · exact hsorted.imp fun hef => hef.imp_right fun hsub => hsub.cons i
        · intro e he f hf
          rw [hslots e he]
          exact Or.inr ((List.singleton_sublist.mpr (hslots' f hf)).cons_cons i)

end Steps

section Exchange

theorem Alike.refl (hR : Equivalence R) (c : Pool I Ω σ α) : Alike R c c := ⟨rfl, hR.refl _⟩

theorem Alike.trans (hR : Equivalence R) {c₁ c₂ c₃ : Pool I Ω σ α} (h : Alike R c₁ c₂)
    (h' : Alike R c₂ c₃) : Alike R c₁ c₃ :=
  ⟨h.1.trans h'.1, hR.trans h.2 h'.2⟩

theorem Alike.advance (h : Alike R c d) (hnext : c.nextAction i = some a)
    (ha : Respects exec R a) :
    Alike R (c.move exec (.advance i)) (d.move exec (.advance i)) := by
  obtain ⟨next, ω, hc⟩ := thread_of_nextAction hnext
  have hd : d.thread i = some (.act a next, ω) := by rw [← h.1, hc]
  obtain ⟨t, hexec, ht⟩ := ha ω _ _ h.2
  rw [move_advance hc, move_advance hd, hexec, h.1]
  exact ⟨rfl, ht⟩

/-- Alike pools take the same steps. -/
theorem Alike.steps (h : Alike R c d) (hl : ∀ e ∈ l, Respects exec R e.2)
    (hsteps : Steps exec c l c') : ∃ d', Steps exec d l d' ∧ Alike R c' d' := by
  induction hsteps generalizing d with
  | nil c => exact ⟨d, .nil d, h⟩
  | cons hnext hrest ih =>
      have hnext' := hnext
      rw [nextAction, h.1] at hnext'
      obtain ⟨d', hd', halike⟩ := ih (h.advance hnext (hl _ List.mem_cons_self))
        fun e he => hl e (List.mem_cons_of_mem _ he)
      exact ⟨d', .cons hnext' hd', halike⟩

/-- Independent neighbours change places. -/
theorem Independent.advance (h : Independent exec R a b) (hij : i ≠ j)
    (hi : c.nextAction i = some a)
    (hj : (c.move exec (.advance i)).nextAction j = some b) :
    c.nextAction j = some b ∧ (c.move exec (.advance j)).nextAction i = some a ∧
      Alike R ((c.move exec (.advance i)).move exec (.advance j))
        ((c.move exec (.advance j)).move exec (.advance i)) := by
  obtain ⟨next, ω, hi⟩ := thread_of_nextAction hi
  obtain ⟨next', ω', hj'⟩ := thread_of_nextAction hj
  have hj : c.thread j = some (.act b next', ω') := by
    rw [← hj', thread_advance_of_ne hij.symm]
  have hi' : (c.move exec (.advance j)).thread i = some (.act a next, ω) := by
    rw [thread_advance_of_ne hij, hi]
  refine ⟨nextAction_eq hj, nextAction_eq hi', ?_⟩
  obtain ⟨t, t', hb, ha, ht⟩ := h ω ω' c.shared
  rw [move_advance hj', move_advance hi', move_advance hi, move_advance hj]
  dsimp only
  rw [hb, ha]
  exact ⟨Function.update_comm hij _ _ _, ht⟩

theorem Steps.exchange (hij : i ≠ j) (hab : Independent exec R a b)
    (hl : ∀ e ∈ l, Respects exec R e.2) (h : Steps exec c ((i, a) :: (j, b) :: l) c') :
    ∃ d', Steps exec c ((j, b) :: (i, a) :: l) d' ∧ Alike R c' d' := by
  obtain ⟨hi, h⟩ := steps_cons.mp h
  obtain ⟨hj, hrest⟩ := steps_cons.mp h
  obtain ⟨hj', hi', halike⟩ := hab.advance hij hi hj
  obtain ⟨d', hd', hcd⟩ := halike.steps hl hrest
  exact ⟨d', .cons hj' (.cons hi' hd'), hcd⟩

end Exchange

section Sorting

variable (hR : Equivalence R)

include hR

/-- A step moves behind a block of steps that are independent of it. -/
theorem Steps.sink {block : List (ℕ × I.Action)}
    (hblock : ∀ e ∈ block, e.1 ≠ i ∧ Independent exec R a e.2)
    (hl : ∀ e ∈ (i, a) :: block ++ l, Respects exec R e.2)
    (h : Steps exec c ((i, a) :: block ++ l) c') :
    ∃ d', Steps exec c (block ++ (i, a) :: l) d' ∧ Alike R c' d' := by
  induction block generalizing c c' with
  | nil => exact ⟨c', h, .refl hR c'⟩
  | cons e block ih =>
      obtain ⟨j, b⟩ := e
      obtain ⟨⟨hji, hab⟩, hblock⟩ := List.forall_mem_cons.mp hblock
      have hrest : ∀ e ∈ (i, a) :: block ++ l, Respects exec R e.2 := by
        intro e he
        apply hl
        simp only [List.cons_append, List.mem_cons] at he ⊢
        exact he.imp_right Or.inr
      obtain ⟨d, hd, hcd⟩ := h.exchange (Ne.symm hji) hab fun e he =>
        hrest e (List.mem_cons_of_mem _ he)
      obtain ⟨hnext, hd⟩ := steps_cons.mp hd
      obtain ⟨d', hd', hdd'⟩ := ih hblock hrest hd
      exact ⟨d', .cons hnext hd', hcd.trans hR hdd'⟩

/-- The steps of one thread move to the front, past steps of the others that
are independent of them. -/
theorem Steps.gather
    (hind : l.Pairwise fun e f => e.1 ≠ i → f.1 = i → Independent exec R e.2 f.2)
    (hl : ∀ e ∈ l, Respects exec R e.2) (h : Steps exec c l c') :
    ∃ d', Steps exec c (l.filter (·.1 = i) ++ l.filter (¬ ·.1 = i)) d' ∧ Alike R c' d' := by
  induction l generalizing c with
  | nil => exact ⟨c', h, .refl hR c'⟩
  | cons e l ih =>
      obtain ⟨j, a⟩ := e
      obtain ⟨hhead, htail⟩ := List.pairwise_cons.mp hind
      obtain ⟨ha, hl⟩ := List.forall_mem_cons.mp hl
      obtain ⟨hnext, hrest⟩ := steps_cons.mp h
      obtain ⟨d, hd, hcd⟩ := ih htail hl hrest
      by_cases hj : j = i
      · refine ⟨d, ?_, hcd⟩
        simpa [hj] using Steps.cons hnext hd
      · have hblock : ∀ e ∈ l.filter (·.1 = i), e.1 ≠ j ∧ Independent exec R a e.2 := by
          intro e he
          obtain ⟨hmem, hei⟩ := List.mem_filter.mp he
          have hei : e.1 = i := by simpa using hei
          exact ⟨fun hej => hj (hej.symm.trans hei), hhead e hmem hj hei⟩
        have hall : ∀ e ∈ (j, a) :: l.filter (·.1 = i) ++ l.filter (¬ ·.1 = i),
            Respects exec R e.2 := by
          intro e hmem
          simp only [List.cons_append, List.mem_cons, List.mem_append, List.mem_filter] at hmem
          rcases hmem with rfl | ⟨hmem, -⟩ | ⟨hmem, -⟩
          · exact ha
          · exact hl e hmem
          · exact hl e hmem
        obtain ⟨d', hd', hdd'⟩ := Steps.sink hR hblock hall (.cons hnext hd)
        refine ⟨d', ?_, hcd.trans hR hdd'⟩
        simpa [hj] using hd'

end Sorting

section Serial

/-- In a list without repetitions a pair stands in one order only. -/
theorem not_sublist_swap {β : Type*} {x y : β} {l : List β} (hl : l.Nodup)
    (hxy : [x, y].Sublist l) : ¬ [y, x].Sublist l := by
  intro hyx
  induction l with
  | nil => exact absurd hxy (by simp)
  | cons z l ih =>
      obtain ⟨hz, hl⟩ := List.nodup_cons.mp hl
      cases hxy with
      | cons _ hxy =>
          cases hyx with
          | cons _ hyx => exact ih hl hxy hyx
          | cons_cons _ _ => exact hz (hxy.subset (by simp))
      | cons_cons _ hy =>
          cases hyx with
          | cons _ hyx => exact hz (hyx.subset (by simp))
          | cons_cons _ _ => exact hz (hy.subset (by simp))

variable {thread thread' : ℕ → Option (Program I α × Ω)} {s : σ} {order : List ℕ}

theorem alone_congr (h : thread i = thread' i) :
    alone exec thread s i = alone exec thread' s i := by
  simp only [alone, h]

theorem inTurn_cons (exec : Semantics I Ω σ) (thread : ℕ → Option (Program I α × Ω)) (s : σ)
    (i : ℕ) (order : List ℕ) :
    inTurn exec thread s (i :: order) = inTurn exec thread (alone exec thread s i).2 order :=
  rfl

theorem inTurn_congr (h : ∀ i ∈ order, thread i = thread' i) :
    inTurn exec thread s order = inTurn exec thread' s order := by
  induction order generalizing s with
  | nil => rfl
  | cons i order ih =>
      obtain ⟨hi, horder⟩ := List.forall_mem_cons.mp h
      rw [inTurn_cons, inTurn_cons, alone_congr hi, ih horder]

/-- The steps of one thread to its end are the thread run alone. -/
theorem Steps.alone_eq (h : Steps exec c l d) (hl : ∀ e ∈ l, e.1 = i)
    (hdone : ¬ d.InFlight i) : alone exec c.thread c.shared i = (d.result i, d.shared) := by
  induction h with
  | nil c =>
      cases hi : c.thread i with
      | none => simp only [alone, result, hi]
      | some t =>
          obtain ⟨p, ω⟩ := t
          cases p with
          | ret v => simp only [alone, result, hi, Program.run_ret]
          | act a next => exact absurd ⟨a, next, ω, hi⟩ hdone
  | cons hnext hrest ih =>
      obtain ⟨rfl, hl⟩ := List.forall_mem_cons.mp hl
      obtain ⟨next, ω, hi⟩ := thread_of_nextAction hnext
      rw [← ih hl hdone, move_advance hi]
      simp only [alone, hi, Function.update_self, Program.run_act]

theorem result_congr (h : c.thread i = d.thread i) : c.result i = d.result i := by
  simp only [result, h]

theorem inFlight_congr (h : c.thread i = d.thread i) : c.InFlight i ↔ d.InFlight i := by
  simp only [InFlight, h]

/-- If every two steps that an order of the threads asks to exchange are
independent, and all threads have come to their end, then they have returned
what they return one after the other in that order, and the state is the one
they leave so, up to the relation. -/
theorem Steps.serial (hR : Equivalence R) (hnodup : order.Nodup)
    (hslots : ∀ e ∈ l, e.1 ∈ order)
    (hind : l.Pairwise fun e f => [f.1, e.1].Sublist order → Independent exec R e.2 f.2)
    (hl : ∀ e ∈ l, Respects exec R e.2) (h : Steps exec c l c')
    (hdone : ∀ i ∈ order, ¬ c'.InFlight i) :
    R c'.shared (inTurn exec c.thread c.shared order) ∧
      ∀ before i after, order = before ++ i :: after →
        c'.result i = (alone exec c.thread (inTurn exec c.thread c.shared before) i).1 := by
  induction order generalizing c c' l with
  | nil =>
      cases l with
      | nil =>
          cases h
          exact ⟨hR.refl _, fun before i after heq => absurd heq (by simp)⟩
      | cons e l => exact absurd (hslots e List.mem_cons_self) (by simp)
  | cons i order ih =>
      obtain ⟨hi, hnodup⟩ := List.nodup_cons.mp hnodup
      obtain ⟨hidone, hdone⟩ := List.forall_mem_cons.mp hdone
      -- The steps of the first thread come first, and then those of the others.
      have hfirst : l.Pairwise fun e f => e.1 ≠ i → f.1 = i → Independent exec R e.2 f.2 := by
        refine hind.imp_of_mem fun {e f} he _ hef hei hfi => hef ?_
        have heorder := (List.mem_cons.mp (hslots e he)).resolve_left hei
        rw [hfi]
        exact (List.singleton_sublist.mpr heorder).cons_cons i
      obtain ⟨d', hd', hthread, hshared⟩ := h.gather hR hfirst hl
      obtain ⟨d, hd, hrest⟩ := hd'.split
      have hothers : ∀ e ∈ l.filter (¬ ·.1 = i), e.1 ≠ i := fun e he => by
        simpa using (List.mem_filter.mp he).2
      have hdi : c'.thread i = d.thread i := by rw [hthread, hrest.thread_of_not_mem hothers]
      have halone := hd.alone_eq (i := i) (fun e he => by simpa using (List.mem_filter.mp he).2)
        ((inFlight_congr hdi).not.mp hidone)
      have hsame : ∀ j ∈ order, d.thread j = c.thread j := by
        intro j hj
        refine hd.thread_of_not_mem fun e he hej => hi ?_
        have hei : e.1 = i := by simpa using (List.mem_filter.mp he).2
        rw [← hei, hej]
        exact hj
      obtain ⟨hstate, hresults⟩ := ih hnodup (l := l.filter (¬ ·.1 = i)) (c := d)
        (fun e he => (List.mem_cons.mp (hslots e (List.mem_filter.mp he).1)).resolve_left
          (hothers e he))
        ((hind.filter _).imp fun hef hsub => hef (hsub.cons i))
        (fun e he => hl e (List.mem_filter.mp he).1) hrest
        (fun j hj => (inFlight_congr (congrFun hthread j)).not.mp (hdone j hj))
      have hturn : ∀ before : List ℕ, (∀ j ∈ before, j ∈ order) →
          inTurn exec c.thread c.shared (i :: before) =
            inTurn exec d.thread d.shared before := by
        intro before hbefore
        rw [inTurn_cons, halone]
        exact inTurn_congr fun j hj => (hsame j (hbefore j hj)).symm
      refine ⟨?_, ?_⟩
      · rw [hturn order fun j hj => hj]
        exact hR.trans hshared hstate
      · intro before k after heq
        cases before with
        | nil =>
            obtain ⟨rfl, rfl⟩ := List.cons.inj heq
            rw [result_congr hdi]
            exact congrArg Prod.fst halone.symm
        | cons j before =>
            obtain ⟨rfl, rfl⟩ := List.cons.inj heq
            rw [hturn before fun j hj => List.mem_append_left _ hj,
              ← alone_congr (hsame k (by simp)), ← hresults before k after rfl]
            exact result_congr (congrFun hthread k)

end Serial

end AtomicProgram.Pool
