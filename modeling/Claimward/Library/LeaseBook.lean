import Mathlib.Data.Set.Insert

/-!
# Books of leases

A book says which key holds which address, and which addresses are taken. One
step lets a key without an address take one that is not taken, or gives up the
addresses of some keys. No step changes the address a key holds.
-/

/-- Who holds which address, and the addresses that cannot be handed out. -/
structure LeaseBook (K A : Type*) where
  holds : K → Option A
  taken : Set A

namespace LeaseBook

variable {K A : Type*} {b b' : LeaseBook K A} {fixed : Set A}

/-- One key takes an address, or some keys give theirs up. -/
inductive Step (b b' : LeaseBook K A) : Prop
  | take (k : K) (a : A) (hk : b.holds k = none) (ha : a ∉ b.taken)
      (hk' : b'.holds k = some a) (hframe : ∀ l, l ≠ k → b'.holds l = b.holds l)
      (htaken : ∀ x, x ∈ b'.taken ↔ x = a ∨ x ∈ b.taken)
  | giveUp (hframe : ∀ k, b'.holds k = none ∨ b'.holds k = b.holds k)
      (htaken : ∀ x, x ∈ b'.taken ↔
        x ∈ b.taken ∧ ∀ k, b.holds k = some x → b'.holds k = some x)

/-- No two keys hold one address, and what is held is taken. Apart from fixed
addresses that nobody ever holds, nothing else is taken. -/
structure Balanced (fixed : Set A) (b : LeaseBook K A) : Prop where
  exclusive : ∀ {k l a}, b.holds k = some a → b.holds l = some a → k = l
  taken_iff : ∀ x, x ∈ b.taken ↔ x ∈ fixed ∨ ∃ k, b.holds k = some x
  not_fixed : ∀ {k a}, b.holds k = some a → a ∉ fixed

theorem Balanced.empty : Balanced fixed (⟨fun _ => none, fixed⟩ : LeaseBook K A) where
  exclusive := by simp
  taken_iff := by simp
  not_fixed := by simp

private theorem Balanced.take (h : Balanced fixed b) {k : K} {a : A} (hk : b.holds k = none)
    (ha : a ∉ b.taken) (hk' : b'.holds k = some a)
    (hframe : ∀ l, l ≠ k → b'.holds l = b.holds l)
    (htaken : ∀ x, x ∈ b'.taken ↔ x = a ∨ x ∈ b.taken) : Balanced fixed b' := by
  have hnew : ∀ l x, b'.holds l = some x → l = k ∧ x = a ∨ l ≠ k ∧ b.holds l = some x := by
    intro l x hl
    by_cases hlk : l = k
    · subst hlk
      exact Or.inl ⟨rfl, Option.some.inj (hl.symm.trans hk')⟩
    · exact Or.inr ⟨hlk, (hframe l hlk).symm.trans hl⟩
  have hfree : ∀ l, b.holds l ≠ some a := fun l hl => ha ((h.taken_iff a).mpr (Or.inr ⟨l, hl⟩))
  constructor
  · intro l m x hl hm
    rcases hnew l x hl with ⟨rfl, rfl⟩ | ⟨-, hl⟩
    · rcases hnew m x hm with ⟨rfl, -⟩ | ⟨-, hm⟩
      · rfl
      · exact absurd hm (hfree m)
    · rcases hnew m x hm with ⟨rfl, rfl⟩ | ⟨-, hm⟩
      · exact absurd hl (hfree l)
      · exact h.exclusive hl hm
  · intro x
    rw [htaken, h.taken_iff]
    constructor
    · rintro (rfl | hx | ⟨l, hl⟩)
      · exact Or.inr ⟨k, hk'⟩
      · exact Or.inl hx
      · refine Or.inr ⟨l, ?_⟩
        rw [hframe l (by rintro rfl; simp [hk] at hl), hl]
    · rintro (hx | ⟨l, hl⟩)
      · exact Or.inr (Or.inl hx)
      · rcases hnew l x hl with ⟨-, rfl⟩ | ⟨-, hl⟩
        · exact Or.inl rfl
        · exact Or.inr (Or.inr ⟨l, hl⟩)
  · intro l x hl hx
    rcases hnew l x hl with ⟨-, rfl⟩ | ⟨-, hl⟩
    · exact ha ((h.taken_iff x).mpr (Or.inl hx))
    · exact h.not_fixed hl hx

private theorem Balanced.giveUp (h : Balanced fixed b)
    (hframe : ∀ k, b'.holds k = none ∨ b'.holds k = b.holds k)
    (htaken : ∀ x, x ∈ b'.taken ↔ x ∈ b.taken ∧ ∀ k, b.holds k = some x → b'.holds k = some x) :
    Balanced fixed b' := by
  have hold : ∀ {k x}, b'.holds k = some x → b.holds k = some x := by
    intro k x hk
    rcases hframe k with hnone | hsame
    · simp [hnone] at hk
    · rw [← hsame, hk]
  constructor
  · intro k l a hk hl
    exact h.exclusive (hold hk) (hold hl)
  · intro x
    rw [htaken, h.taken_iff]
    constructor
    · rintro ⟨hx | ⟨k, hk⟩, hkeep⟩
      · exact Or.inl hx
      · exact Or.inr ⟨k, hkeep k hk⟩
    · rintro (hx | ⟨k, hk⟩)
      · exact ⟨Or.inl hx, fun k hk => absurd hx (h.not_fixed hk)⟩
      · refine ⟨Or.inr ⟨k, hold hk⟩, ?_⟩
        intro l hl
        rw [h.exclusive hl (hold hk), hk]
  · intro k a hk
    exact h.not_fixed (hold hk)

/-- A step keeps a book balanced. -/
theorem Balanced.step (h : Balanced fixed b) (hstep : Step b b') : Balanced fixed b' := by
  cases hstep with
  | take k a hk ha hk' hframe htaken => exact h.take hk ha hk' hframe htaken
  | giveUp hframe htaken => exact h.giveUp hframe htaken

end LeaseBook
