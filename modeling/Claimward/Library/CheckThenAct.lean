import Claimward.Library.Interleaving

/-!
# Check, then act

A program checks something with one action and relies on it in a later one,
while other threads act in between. What it has checked is a fact about the
shared state. The fact holds when the program relies on it, if every check
establishes it and no thread takes it back from a program that may still rely on
it without checking again.
-/

namespace AtomicProgram

variable {I : Interface} {Ω σ α : Type}

namespace Program

/-- The program may perform a `target` before it performs another `check`. -/
def MayBefore (check target : I.Action → Prop) : Program I α → Prop
  | .ret _ => False
  | .act a next => target a ∨ ¬ check a ∧ ∃ r, (next r).MayBefore check target

/-- After a check, the program may perform a `target` only if the reply to the
check allows it. -/
def Checked (check target : I.Action → Prop) (allows : (a : I.Action) → I.Reply a → Prop) :
    Program I α → Prop
  | .ret _ => True
  | .act a next => ∀ r, (check a → (next r).MayBefore check target → allows a r) ∧
      (next r).Checked check target allows

/-- The program has everything to check still. -/
structure Unchecked (check target : I.Action → Prop) (allows : (a : I.Action) → I.Reply a → Prop)
    (p : Program I α) : Prop where
  checked : p.Checked check target allows
  unmet : ¬ p.MayBefore check target

/-- The program checks before it relies on the fact, and where it has checked
the fact holds. -/
structure Vouched (check target : I.Action → Prop) (allows : (a : I.Action) → I.Reply a → Prop)
    (fact : σ → Prop) (s : σ) (p : Program I α) : Prop where
  checked : p.Checked check target allows
  holds : p.MayBefore check target → fact s

variable {check target : I.Action → Prop} {allows : (a : I.Action) → I.Reply a → Prop}
  {fact : σ → Prop} {s s' : σ} {p : Program I α} {exec : Semantics I Ω σ}

theorem not_mayBefore_of_only (h : p.Only fun a => ¬ target a) : ¬ p.MayBefore check target := by
  induction p with
  | ret v => exact id
  | act a next ih =>
      rintro (ha | ⟨-, r, hr⟩)
      · exact h.1 ha
      · exact ih r (h.2 r) hr

/-- A program without checks has nothing to say about them. -/
theorem checked_of_only (h : p.Only fun a => ¬ check a) : p.Checked check target allows := by
  induction p with
  | ret v => trivial
  | act a next ih => exact fun r => ⟨fun ha => absurd ha h.1, ih r (h.2 r)⟩

/-- A program that relies on nothing has nothing to check. -/
theorem checked_of_only_not_target (h : p.Only fun a => ¬ target a) :
    p.Checked check target allows := by
  induction p with
  | ret v => trivial
  | act a next ih =>
      exact fun r => ⟨fun _ hr => absurd hr (not_mayBefore_of_only (h.2 r)), ih r (h.2 r)⟩

theorem unchecked_ret (v : α) : (Program.ret v : Program I α).Unchecked check target allows :=
  ⟨trivial, id⟩

theorem unchecked_of_only (h : p.Only fun a => ¬ target a) : p.Unchecked check target allows :=
  ⟨checked_of_only_not_target h, not_mayBefore_of_only h⟩

/-- One more action before what is still to be checked. -/
theorem unchecked_act {a : I.Action} {next : I.Reply a → Program I α} (ha : ¬ target a)
    (h : ∀ r, (next r).Unchecked check target allows) :
    (Program.act a next).Unchecked check target allows := by
  refine ⟨fun r => ⟨fun _ hr => absurd hr (h r).unmet, (h r).checked⟩, ?_⟩
  rintro (htarget | ⟨-, r, hr⟩)
  · exact ha htarget
  · exact (h r).unmet hr

/-- The check itself. -/
theorem unchecked_check {a : I.Action} {next : I.Reply a → Program I α} (hcheck : check a)
    (ha : ¬ target a)
    (h : ∀ r, ((next r).MayBefore check target → allows a r) ∧
      (next r).Checked check target allows) :
    (Program.act a next).Unchecked check target allows := by
  refine ⟨fun r => ⟨fun _ => (h r).1, (h r).2⟩, ?_⟩
  rintro (htarget | ⟨hnot, -⟩)
  · exact ha htarget
  · exact hnot hcheck

/-- An action of another thread that does not take the fact back. -/
theorem Vouched.frame (h : p.Vouched check target allows fact s)
    (hkeeps : p.MayBefore check target → fact s → fact s') :
    p.Vouched check target allows fact s' :=
  ⟨h.checked, fun hp => hkeeps hp (h.holds hp)⟩

/-- An action of the program itself. -/
theorem Vouched.act {a : I.Action} {next : I.Reply a → Program I α} {ω : Ω}
    (h : (Program.act a next).Vouched check target allows fact s)
    (hcheck : check a → allows a (exec a ω s).1 → fact (exec a ω s).2.2)
    (hkeeps : (Program.act a next).MayBefore check target → fact s → fact (exec a ω s).2.2) :
    (next (exec a ω s).1).Vouched check target allows fact (exec a ω s).2.2 := by
  obtain ⟨hallows, hnext⟩ := h.checked (exec a ω s).1
  refine ⟨hnext, fun hp => ?_⟩
  by_cases ha : check a
  · exact hcheck ha (hallows ha hp)
  · have hact : (Program.act a next).MayBefore check target := Or.inr ⟨ha, _, hp⟩
    exact hkeeps hact (h.holds hact)

end Program

namespace Pool

open Program

variable {check target : I.Action → Prop} {allows : (a : I.Action) → I.Reply a → Prop}
  {fact : σ → Prop} {exec : Semantics I Ω σ}

/-- Every thread has checked what it relies on. -/
def AllVouched (check target : I.Action → Prop) (allows : (a : I.Action) → I.Reply a → Prop)
    (fact : σ → Prop) (c : Pool I Ω σ α) : Prop :=
  c.Every fun p _ => p.Vouched check target allows fact c.shared

/-- One move: what is started has everything to check still, and an action that
is a check establishes the fact, while no action takes it back from a thread
that may rely on it. -/
theorem AllVouched.move {c : Pool I Ω σ α} {m : Move I Ω α}
    (h : c.AllVouched check target allows fact)
    (hstart : ∀ i p ω, m = .start i p ω → p.Unchecked check target allows)
    (hact : ∀ i a next ω, m = .advance i → c.thread i = some (.act a next, ω) →
      (check a → allows a (exec a ω c.shared).1 → fact (exec a ω c.shared).2.2) ∧
      ∀ j p ω', c.thread j = some (p, ω') → p.MayBefore check target → fact c.shared →
        fact (exec a ω c.shared).2.2) :
    (c.move exec m).AllVouched check target allows fact := by
  rcases c.move_cases exec m with heq | ⟨i, p, ω, hm, hfree, heq⟩ | ⟨i, a, next, ω, hm, hi, heq⟩
  · rw [heq]
    exact h
  · obtain ⟨hchecked, hnot⟩ := hstart i p ω hm
    rw [heq]
    exact Every.update h ⟨hchecked, fun hp => absurd hp hnot⟩ _
  · obtain ⟨hcheck, hkeeps⟩ := hact i a next ω hm hi
    have hframe : c.Every fun p _ =>
        p.Vouched check target allows fact (exec a ω c.shared).2.2 :=
      fun j p ω' hj => (h j p ω' hj).frame (hkeeps j p ω' hj)
    rw [heq]
    exact hframe.update ((h i _ ω hi).act hcheck (hkeeps i _ ω hi)) _

theorem allVouched_initial (s : σ) :
    (initial s : Pool I Ω σ α).AllVouched check target allows fact := every_initial s

/-- A thread that is about to perform a `target` can rely on the fact. -/
theorem AllVouched.fact_of_target {c : Pool I Ω σ α} (h : c.AllVouched check target allows fact)
    {i : ℕ} {a : I.Action} (hi : c.nextAction i = some a) (ha : target a) : fact c.shared := by
  obtain ⟨next, ω, hi⟩ := thread_of_nextAction hi
  exact (h i _ ω hi).holds (Or.inl ha)

end Pool

end AtomicProgram
