import Mathlib.Data.List.Basic

/-!
# Runs of a labelled machine

The machine is a function from a state and a label to the next state. A run
is a list of labels. A condition on single steps (a state and the label taken
from it) becomes a condition on runs by asking it of every step.
-/

namespace Runs

variable {S L : Type*} (step : S → L → S)

/-- The state after a list of labels. -/
def run (s : S) (labels : List L) : S := labels.foldl step s

@[simp] theorem run_nil (s : S) : run step s [] = s := rfl

@[simp] theorem run_cons (s : S) (l : L) (ls : List L) :
    run step s (l :: ls) = run step (step s l) ls := rfl

@[simp] theorem run_append (s : S) (ls ms : List L) :
    run step s (ls ++ ms) = run step (run step s ls) ms := List.foldl_append

/-- Every step of the run meets the condition in the state it is taken from. -/
def Admissible (ok : S → L → Prop) : S → List L → Prop
  | _, [] => True
  | s, l :: ls => ok s l ∧ Admissible ok (step s l) ls

variable {step} {ok ok' : S → L → Prop} {s : S}

@[simp] theorem admissible_nil : Admissible step ok s [] ↔ True := Iff.rfl

@[simp] theorem admissible_cons {l : L} {ls : List L} :
    Admissible step ok s (l :: ls) ↔ ok s l ∧ Admissible step ok (step s l) ls := Iff.rfl

theorem admissible_append {ls ms : List L} :
    Admissible step ok s (ls ++ ms) ↔
      Admissible step ok s ls ∧ Admissible step ok (run step s ls) ms := by
  induction ls generalizing s with
  | nil => simp
  | cons l ls ih => simp [ih, and_assoc]

theorem Admissible.mono {ls : List L} (h : ∀ s l, ok s l → ok' s l)
    (hrun : Admissible step ok s ls) : Admissible step ok' s ls := by
  induction ls generalizing s with
  | nil => trivial
  | cons l ls ih => exact ⟨h _ _ hrun.1, ih hrun.2⟩

theorem Admissible.and {ls : List L} (hrun : Admissible step ok s ls)
    (hrun' : Admissible step ok' s ls) : Admissible step (fun s l => ok s l ∧ ok' s l) s ls := by
  induction ls generalizing s with
  | nil => trivial
  | cons l ls ih => exact ⟨⟨hrun.1, hrun'.1⟩, ih hrun.2 hrun'.2⟩

/-- A condition on the labels alone joins the condition on the steps. -/
theorem Admissible.and_forall {ls : List L} {P : L → Prop} (hrun : Admissible step ok s ls)
    (h : ∀ l ∈ ls, P l) : Admissible step (fun s l => P l ∧ ok s l) s ls := by
  induction ls generalizing s with
  | nil => trivial
  | cons l ls ih =>
      obtain ⟨hl, hls⟩ := List.forall_mem_cons.mp h
      exact ⟨⟨hl, hrun.1⟩, ih hrun.2 hls⟩

instance decidableAdmissible [∀ s l, Decidable (ok s l)] :
    ∀ s ls, Decidable (Admissible step ok s ls)
  | _, [] => .isTrue trivial
  | s, l :: ls =>
      have := decidableAdmissible (step s l) ls
      inferInstanceAs (Decidable (ok s l ∧ Admissible step ok (step s l) ls))

/-- What one admissible step preserves holds after every admissible run. -/
theorem Admissible.invariant {ls : List L} (hrun : Admissible step ok s ls) (Inv : S → Prop)
    (hstep : ∀ s l, Inv s → ok s l → Inv (step s l)) (hinit : Inv s) :
    Inv (run step s ls) := by
  induction ls generalizing s with
  | nil => exact hinit
  | cons l ls ih => exact ih hrun.2 (hstep _ _ hinit hrun.1)

/-- What every step preserves holds after every run. -/
theorem run_invariant (Inv : S → Prop) (hstep : ∀ s l, Inv s → Inv (step s l)) (hinit : Inv s)
    (ls : List L) : Inv (run step s ls) := by
  induction ls generalizing s with
  | nil => exact hinit
  | cons l ls ih => exact ih (hstep s l hinit)

/-- An invariant joins the condition on the steps. -/
theorem Admissible.and_invariant {ls : List L} (hrun : Admissible step ok s ls) (Inv : S → Prop)
    (hstep : ∀ s l, Inv s → ok s l → Inv (step s l)) (hinit : Inv s) :
    Admissible step (fun s l => Inv s ∧ ok s l) s ls := by
  induction ls generalizing s with
  | nil => trivial
  | cons l ls ih => exact ⟨⟨hinit, hrun.1⟩, ih hrun.2 (hstep _ _ hinit hrun.1)⟩

/-- Two conditions that agree wherever an invariant holds, and the second of
which keeps the invariant, allow the same runs. -/
theorem admissible_iff_of_invariant {ls : List L} (Inv : S → Prop)
    (hiff : ∀ s l, Inv s → (ok s l ↔ ok' s l))
    (hstep : ∀ s l, Inv s → ok' s l → Inv (step s l)) (hinit : Inv s) :
    Admissible step ok s ls ↔ Admissible step ok' s ls := by
  induction ls generalizing s with
  | nil => exact Iff.rfl
  | cons l ls ih =>
      rw [admissible_cons, admissible_cons, hiff s l hinit]
      exact and_congr_right fun hl => ih (hstep s l hinit hl)

section Answers

variable {T O : Type*}

/-- What a machine that answers each label answers along a list of labels. -/
def answers (act : S → L → O × S) : S → List L → List O
  | _, [] => []
  | s, l :: ls => (act s l).1 :: answers act (act s l).2 ls

/-- Two machines in related states answer alike along exactly those runs whose
steps all meet a condition, if such a step gets one answer and keeps the
relation and any other step gets two answers. -/
theorem answers_eq_iff {f : S → L → O × S} {g : T → L → O × T} (R : S → T → Prop)
    (hsame : ∀ s t l, R s t → ok s l →
      (f s l).1 = (g t l).1 ∧ R (f s l).2 (g t l).2)
    (hdiff : ∀ s t l, R s t → ¬ ok s l → (f s l).1 ≠ (g t l).1) {s : S} {t : T}
    (hrel : R s t) (ls : List L) :
    answers f s ls = answers g t ls ↔
      Admissible (fun s l => (f s l).2) ok s ls := by
  induction ls generalizing s t with
  | nil => simp [answers]
  | cons l ls ih =>
      rw [admissible_cons]
      simp only [answers, List.cons.injEq]
      by_cases hok : ok s l
      · obtain ⟨hanswer, hnext⟩ := hsame s t l hrel hok
        rw [ih hnext]
        exact ⟨fun h => ⟨hok, h.2⟩, fun h => ⟨hanswer, h.2⟩⟩
      · exact ⟨fun h => absurd h.1 (hdiff s t l hrel hok), fun h => absurd h.1 hok⟩

end Answers

section Fallible

variable {E : Type*}

/-- A run of a machine whose steps may fail: the first failure ends it. -/
def runFallible (step : S → L → Except E S) (s : S) (labels : List L) : Except E S :=
  labels.foldlM step s

variable {step : S → L → Except E S}

@[simp] theorem runFallible_nil : runFallible step s [] = .ok s := rfl

theorem runFallible_cons {s' : S} {l : L} {ls : List L} (h : step s l = .ok s') :
    runFallible step s (l :: ls) = runFallible step s' ls := by
  simp only [runFallible, List.foldlM_cons, h]
  rfl

theorem runFallible_append {s' : S} {ls ms : List L} (h : runFallible step s ls = .ok s') :
    runFallible step s (ls ++ ms) = runFallible step s' ms := by
  simp only [runFallible, List.foldlM_append] at h ⊢
  rw [h]
  rfl

/-- If a step does not fail and keeps an invariant of the state and of what is
still to come, no run fails. -/
theorem runFallible_invariant (Inv : S → List L → Prop)
    (hstep : ∀ s l ls, Inv s (l :: ls) → ∃ s', step s l = .ok s' ∧ Inv s' ls) {ls : List L}
    (hinit : Inv s ls) : ∃ s', runFallible step s ls = .ok s' ∧ Inv s' [] := by
  induction ls generalizing s with
  | nil => exact ⟨s, rfl, hinit⟩
  | cons l ls ih =>
      obtain ⟨s', hs', hinv⟩ := hstep s l ls hinit
      rw [runFallible_cons hs']
      exact ih hinv

/-- The labels of a run without those that are left out, each judged by the state it
meets. Nothing follows a failure. -/
def leaving (step : S → L → Except E S) (out : S → L → Bool) : S → List L → List L
  | _, [] => []
  | s, l :: ls =>
      match step s l with
      | .ok s' => if out s l then leaving step out s' ls else l :: leaving step out s' ls
      | .error _ => []

theorem leaving_cons {out : S → L → Bool} {s' : S} {l : L} {ls : List L} (h : step s l = .ok s') :
    leaving step out s (l :: ls) =
      if out s l then leaving step out s' ls else l :: leaving step out s' ls := by
  rw [leaving, h]

/-- If no step fails, a label that is left out leads to a state still related to that
of the other machine, and any other label leads both to related states, then the
run and what is left of it end in related states. -/
theorem runFallible_leaving {T : Type*} {step' : T → L → Except E T} (R : S → T → Prop)
    {out : S → L → Bool} (hstep : ∀ s t l, R s t → ∃ s', step s l = .ok s' ∧
      if out s l then R s' t else ∃ t', step' t l = .ok t' ∧ R s' t')
    {t : T} (hrel : R s t) (ls : List L) :
    ∃ s' t', runFallible step s ls = .ok s' ∧
      runFallible step' t (leaving step out s ls) = .ok t' ∧ R s' t' := by
  induction ls generalizing s t with
  | nil => exact ⟨s, t, rfl, rfl, hrel⟩
  | cons l ls ih =>
      obtain ⟨s₁, hs₁, hnext⟩ := hstep s t l hrel
      rw [runFallible_cons hs₁, leaving_cons hs₁]
      split at hnext
      · rename_i hout
        rw [if_pos hout]
        exact ih hnext
      · rename_i hkept
        obtain ⟨t₁, ht₁, hrel₁⟩ := hnext
        rw [if_neg hkept, runFallible_cons ht₁]
        exact ih hrel₁

end Fallible

end Runs
