import Claimward.Library.Program

/-!
# Programs with a state of their own that may fail

A program of atomic actions with private state beside it, ended by the first
failure; what has been written to the state before a failure stays. The
environment decides every reply, so a statement about such a program is one
about all replies: which actions it may ask for, which invariant of its state
it keeps, and what it returns when it succeeds. There is one rule for each way
of building a program.
-/

namespace AtomicProgram

variable {I : Interface} {ε σ α β : Type}

namespace Program

variable {P : I.Action → Prop} {Q : α → Prop} {R : β → Prop}

/-- Whatever the replies are, every action meets `P` and the value meets `Q`. -/
def Ensures (P : I.Action → Prop) (Q : α → Prop) : Program I α → Prop
  | .ret v => Q v
  | .act a next => P a ∧ ∀ r, (next r).Ensures P Q

theorem Ensures.bind {p : Program I α} {f : α → Program I β} (hp : p.Ensures P Q)
    (hf : ∀ v, Q v → (f v).Ensures P R) : (p >>= f).Ensures P R := by
  induction p with
  | ret v => exact hf v hp
  | act a next ih => exact ⟨hp.1, fun r => ih r (hp.2 r)⟩

/-- What is asked for, the latest first, when every reply may depend on all that
was asked before. -/
def asked (env : List I.Action → (a : I.Action) → I.Reply a) :
    Program I α → List I.Action → List I.Action
  | .ret _, past => past
  | .act a next, past => (next (env past a)).asked env (a :: past)

theorem Ensures.asked {p : Program I α} (h : p.Ensures P Q)
    (env : List I.Action → (a : I.Action) → I.Reply a) {past : List I.Action}
    (hpast : ∀ a ∈ past, P a) : ∀ a ∈ p.asked env past, P a := by
  induction p generalizing past with
  | ret v => exact hpast
  | act a next ih => exact ih _ (h.2 _) (List.forall_mem_cons.mpr ⟨h.1, hpast⟩)

end Program

/-- A program with a state of its own that may fail. -/
abbrev Fallible (I : Interface) (ε σ α : Type) := ExceptT ε (StateT σ (Program I)) α

namespace Fallible

/-- The program from a state: how it ends, and the state it leaves. -/
def start (x : Fallible I ε σ α) (s : σ) : Program I (Except ε α × σ) := x s

/-- Ask for an action. -/
def perform (a : I.Action) : Fallible I ε σ (I.Reply a) :=
  fun s => Program.act a fun r => .ret (.ok r, s)

/-- Go on with a result, or fail with its error. -/
def check : Except ε α → Fallible I ε σ α
  | .ok a => pure a
  | .error e => throw e

/-- Where a program fails, change the state and go on. -/
def recover (x : Fallible I ε σ α) (f : σ → σ) : Fallible I ε σ Unit :=
  tryCatch (x >>= fun _ => pure ()) fun _ => modify f

variable {Inv : σ → Prop} {P : I.Action → Prop} {Q : α → Prop} {R : β → Prop}

/-- From every state with the invariant: every action meets `P`, the invariant is
kept however the program ends, and if it succeeds its value meets `Q`. -/
def Meets (Inv : σ → Prop) (P : I.Action → Prop) (Q : α → Prop) (x : Fallible I ε σ α) : Prop :=
  ∀ s, Inv s → (x.start s).Ensures P fun r => Inv r.2 ∧ ∀ a, r.1 = .ok a → Q a

theorem meets_pure {a : α} (h : Q a) : Meets Inv P Q (pure a : Fallible I ε σ α) := by
  refine fun s hs => ⟨hs, fun b hb => ?_⟩
  obtain rfl := Except.ok.inj hb
  exact h

theorem meets_throw {e : ε} : Meets Inv P Q (throw e : Fallible I ε σ α) :=
  fun _ hs => ⟨hs, fun _ hb => absurd hb (by simp)⟩

theorem Meets.bind {x : Fallible I ε σ α} {f : α → Fallible I ε σ β} (hx : Meets Inv P Q x)
    (hf : ∀ a, Q a → Meets Inv P R (f a)) : Meets Inv P R (x >>= f) := by
  intro s hs
  refine (hx s hs).bind ?_
  rintro ⟨answer, s'⟩ ⟨hs', hanswer⟩
  cases answer with
  | error e => exact meets_throw s' hs'
  | ok a => exact hf a (hanswer a rfl) s' hs'

/-- The state that is read has the invariant. -/
theorem meets_get : Meets Inv P Inv (MonadState.get : Fallible I ε σ σ) := by
  refine fun s hs => ⟨hs, fun b hb => ?_⟩
  obtain rfl := Except.ok.inj hb
  exact hs

theorem meets_modify {f : σ → σ} (h : ∀ s, Inv s → Inv (f s)) :
    Meets Inv P (fun _ => True) (modify f : Fallible I ε σ Unit) :=
  fun s hs => ⟨h s hs, fun _ _ => trivial⟩

theorem meets_perform {a : I.Action} (h : P a) :
    Meets Inv P (fun _ => True) (perform a : Fallible I ε σ (I.Reply a)) :=
  fun _ hs => ⟨h, fun _ => ⟨hs, fun _ _ => trivial⟩⟩

/-- After a check, the result is known to be the value it went on with. -/
theorem meets_check {e : Except ε α} :
    Meets Inv P (fun a => e = .ok a) (check e : Fallible I ε σ α) := by
  cases e with
  | ok a => exact meets_pure rfl
  | error e => exact meets_throw

theorem Meets.recover {x : Fallible I ε σ α} (hx : Meets Inv P Q x) {f : σ → σ}
    (hf : ∀ s, Inv s → Inv (f s)) : Meets Inv P (fun _ => True) (x.recover f) := by
  intro s hs
  refine Program.Ensures.bind (hx.bind (R := fun _ => True) (fun _ _ => meets_pure trivial) s hs) ?_
  rintro ⟨answer, s'⟩ ⟨hs', -⟩
  cases answer with
  | error e => exact meets_modify hf s' hs'
  | ok a => exact meets_pure trivial s' hs'

end Fallible

end AtomicProgram
