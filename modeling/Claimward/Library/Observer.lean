import Claimward.Library.Fallible
import Mathlib.Data.List.Basic

/-!
# Programs and what they have seen

Every action of a program and its reply is an event. A program is within a rule
if it asks only for actions that the rule allows after the events so far,
whatever the replies are. For programs with a state of their own, a triple
relates that state to the events before and after, with one rule for each way
of building a program.
-/

namespace AtomicProgram

variable {I : Interface} {ε σ α β : Type}

/-- An action and its reply. -/
abbrev Happening (I : Interface) := (a : I.Action) × I.Reply a

/-- Actions that every thread writes down beside its oracle, the latest first. -/
def journaled {Ω : Type} (exec : Semantics I Ω σ) : Semantics I (Ω × List (Happening I)) σ :=
  fun a ω s =>
    ((exec a ω.1 s).1, ((exec a ω.1 s).2.1, ⟨a, (exec a ω.1 s).1⟩ :: ω.2), (exec a ω.1 s).2.2)

namespace Program

/-- After the events of the past, the latest first: every action is allowed, and
the value meets `Q` with all events so far. -/
def Within (R : List (Happening I) → I.Action → Prop) (Q : List (Happening I) → α → Prop) :
    Program I α → List (Happening I) → Prop
  | .ret v, past => Q past v
  | .act a next, past => R past a ∧ ∀ r, (next r).Within R Q (⟨a, r⟩ :: past)

variable {R : List (Happening I) → I.Action → Prop} {Q : List (Happening I) → α → Prop}
  {S : List (Happening I) → β → Prop}

theorem Within.bind {p : Program I α} {f : α → Program I β} {past : List (Happening I)}
    (hp : p.Within R Q past) (hf : ∀ past v, Q past v → (f v).Within R S past) :
    (p >>= f).Within R S past := by
  induction p generalizing past with
  | ret v => exact hf past v hp
  | act a next ih => exact ⟨hp.1, fun r => ih r (hp.2 r)⟩

/-- What happens, the latest first, when every reply may depend on all that has
happened before. -/
def happens (env : List (Happening I) → (a : I.Action) → I.Reply a) :
    Program I α → List (Happening I) → List (Happening I)
  | .ret _, past => past
  | .act a next, past => (next (env past a)).happens env (⟨a, env past a⟩ :: past)

/-- Every action that happens was allowed by what had happened before it. -/
theorem Within.allowed {p : Program I α} {past : List (Happening I)} (h : p.Within R Q past)
    (env : List (Happening I) → (a : I.Action) → I.Reply a)
    (hpast : ∀ newer e older, past = newer ++ e :: older → R older e.1) :
    ∀ newer e older, p.happens env past = newer ++ e :: older → R older e.1 := by
  induction p generalizing past with
  | ret v => exact hpast
  | act a next ih =>
      apply ih _ (h.2 _)
      intro newer e older heq
      cases newer with
      | nil =>
          obtain ⟨rfl, rfl⟩ := List.cons.inj heq
          exact h.1
      | cons e' newer => exact hpast newer e older (List.cons.inj heq).2

end Program

namespace Fallible

/-- How a program ends: with a value, or with an error. -/
def Ends (Q : α → σ → List (Happening I) → Prop) (E : σ → List (Happening I) → Prop)
    (past : List (Happening I)) : Except ε α × σ → Prop
  | (.ok v, s) => Q v s past
  | (.error _, s) => E s past

/-- From every state and past with `P`: every action is allowed, and however
the program ends the state and the past have `Q` or `E`. -/
def Tracks (R : List (Happening I) → I.Action → Prop) (P : σ → List (Happening I) → Prop)
    (Q : α → σ → List (Happening I) → Prop) (E : σ → List (Happening I) → Prop)
    (x : Fallible I ε σ α) : Prop :=
  ∀ s past, P s past → (x.start s).Within R (Ends Q E) past

variable {R : List (Happening I) → I.Action → Prop} {P : σ → List (Happening I) → Prop}
  {M : α → σ → List (Happening I) → Prop} {Q : β → σ → List (Happening I) → Prop}
  {E : σ → List (Happening I) → Prop}

theorem tracks_pure {v : β} (h : ∀ s past, P s past → Q v s past) :
    Tracks R P Q E (pure v : Fallible I ε σ β) := h

theorem tracks_throw {e : ε} (h : ∀ s past, P s past → E s past) :
    Tracks R P Q E (throw e : Fallible I ε σ β) := h

theorem Tracks.bind {x : Fallible I ε σ α} {f : α → Fallible I ε σ β}
    (hx : Tracks R P M E x) (hf : ∀ v, Tracks R (M v) Q E (f v)) :
    Tracks R P Q E (x >>= f) := by
  intro s past hpre
  apply (hx s past hpre).bind
  intro past' ending hends
  obtain ⟨answer, s'⟩ := ending
  cases answer with
  | error e => exact hends
  | ok v => exact hf v s' past' hends

/-- Go on with the state that is read. -/
theorem tracks_get {f : σ → Fallible I ε σ β}
    (hf : ∀ s, Tracks R (fun s' past => s' = s ∧ P s' past) Q E (f s)) :
    Tracks R P Q E (MonadState.get >>= f) :=
  fun s past hpre => hf s s past ⟨rfl, hpre⟩

theorem tracks_modify {f : σ → σ} {Q : Unit → σ → List (Happening I) → Prop}
    (h : ∀ s past, P s past → Q () (f s) past) :
    Tracks R P Q E (modify f : Fallible I ε σ Unit) := h

theorem tracks_perform {a : I.Action} (h : ∀ s past, P s past → R past a)
    {Q : I.Reply a → σ → List (Happening I) → Prop}
    (hpost : ∀ r s past, P s past → Q r s (⟨a, r⟩ :: past)) :
    Tracks R P Q E (perform a : Fallible I ε σ (I.Reply a)) :=
  fun s past hpre => ⟨h s past hpre, fun r => hpost r s past hpre⟩

theorem tracks_check {e : Except ε β} (h : ∀ v s past, e = .ok v → P s past → Q v s past)
    (herr : ∀ err s past, e = .error err → P s past → E s past) :
    Tracks R P Q E (check e : Fallible I ε σ β) := by
  cases e with
  | ok v => exact tracks_pure fun s past => h v s past rfl
  | error err => exact tracks_throw fun s past => herr err s past rfl

theorem Tracks.of_imp {x : Fallible I ε σ β} {P' : σ → List (Happening I) → Prop}
    (hx : Tracks R P Q E x) (hpre : ∀ s past, P' s past → P s past) :
    Tracks R P' Q E x :=
  fun s past h => hx s past (hpre s past h)

/-- What holds for every value of an unknown. -/
theorem Tracks.of_exists {ι : Type} {x : Fallible I ε σ β}
    {P : ι → σ → List (Happening I) → Prop} (h : ∀ i, Tracks R (P i) Q E x) :
    Tracks R (fun s past => ∃ i, P i s past) Q E x :=
  fun s past ⟨i, hi⟩ => h i s past hi

/-- The program fails or not; where it fails, the state is changed. -/
theorem Tracks.recover {x : Fallible I ε σ α} {E' S : σ → List (Happening I) → Prop}
    (hx : Tracks R P M E x) {f : σ → σ} (hok : ∀ v s past, M v s past → S s past)
    (herr : ∀ s past, E s past → S (f s) past) :
    Tracks R P (fun _ => S) E' (x.recover f) := by
  have hdone : Tracks R P (fun _ : Unit => S) E (x >>= fun _ => pure ()) :=
    hx.bind fun v => tracks_pure (hok v)
  intro s past hpre
  apply (hdone s past hpre).bind
  intro past' ending hends
  obtain ⟨answer, s'⟩ := ending
  cases answer with
  | error e => exact herr s' past' hends
  | ok v => exact hends

end Fallible

end AtomicProgram
