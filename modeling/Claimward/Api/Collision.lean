import Claimward.Api.Contention
import Mathlib.Data.Finset.Card

/-!
# What a race leaves behind

Once both enrollments have found the key absent, both go to the pool: either
two more addresses end up in use, or one request is refused for want of an
address. No serial order does the one or the other.
-/

namespace Claimward.Api

open AtomicProgram AtomicProgram.Program Inet Wg Peers Runs

/-- The call has its address, or has written its entry. -/
def Holding (key : String) (p : Handler Response) : Prop :=
  (∃ subject ip, Writing key subject ip p) ∨ Finishing Response.Served p

theorem not_willPut_of_entering {key k : String} {p : Handler Response} (h : Entering key p) :
    ¬ WillPut k p := by
  induction p with
  | ret v => exact id
  | act a next ih =>
      intro hput
      cases a with
      | now => exact ih 0 (h.2 0) (hput 0)
      | addPeer pub ip => exact h.1
      | storePut e => exact h.1
      | _ => exact hput

theorem not_willPut_of_finishing {k : String} {P : Response → Prop} {p : Handler Response}
    (h : Finishing P p) : ¬ WillPut k p := by
  induction p with
  | ret v => exact id
  | act a next ih =>
      intro hput
      cases a with
      | now => exact ih 0 (h.2 0) (hput 0)
      | addPeer pub ip => exact h.1
      | storePut e => exact h.1
      | _ => exact hput

/-- While both orders are open, nobody is on the way to write a first entry. -/
theorem not_claiming_of_ready {key k : String} {s : Server} {p : Handler Response}
    (h : Ready key s p) (hget : s.store.get key = none) : ¬ Claiming k s p := by
  intro hclaim
  rcases h with hent | ⟨-, hfree, halloc | hfin⟩ | ⟨e, he, -⟩
  · cases p with
    | ret v => exact hclaim
    | act a next =>
        cases a with
        | allocate => exact hent.1
        | _ => exact not_willPut_of_entering (k := k) hent hclaim
  · cases p with
    | ret v => exact halloc
    | act a next =>
        cases a with
        | allocate => exact hclaim.1 hfree
        | _ => exact halloc
  · cases p with
    | ret v => exact hclaim
    | act a next =>
        cases a with
        | allocate => exact hfin.1
        | _ => exact not_willPut_of_finishing (k := k) hfin hclaim
  · exact absurd (hget.symm.trans he) (by simp)

/-- Both calls have found no entry: both still without an address, one with an
address, both with different ones, or one refused. -/
inductive Raced (key : String) (s₀ : Server) (c : Threads) : Prop
  | neither (h : ∀ i : Fin 2, At c i (Allocating key)) (halloc : c.shared.alloc = s₀.alloc)
  | one (i j : Fin 2) (hij : i ≠ j) (hi : At c i (Holding key)) (hj : At c j (Allocating key))
      (htook : s₀.Took c.shared)
  | both (h : ∀ i : Fin 2, At c i (Holding key))
      (htook : ∃ x y, x ∉ s₀.alloc.used ∧ y ∉ insert x s₀.alloc.used ∧
        c.shared.alloc.used = insert y (insert x s₀.alloc.used))
  | refused (i j : Fin 2) (hij : i ≠ j) (hi : At c i (Holding key))
      (hj : At c j (Finishing Response.Exhausted))

section Runs

variable [GoText.CaseTables] {key subject : String} {ip : IP} {s s₀ : Server} {ω : Oracle}
  {p q : Handler Response} {c : Threads}

theorem Holding.act {a : Action} {next : Reply a → Handler Response}
    (h : Holding key (.act a next)) (hω : ω.Reliable) :
    Holding key (next (exec a ω s).1) ∧ (exec a ω s).2.2.alloc = s.alloc := by
  rcases h with ⟨subject, ip, hwrite⟩ | hfin
  · rcases hwrite.act hω (s := s) with ⟨pub, rfl, -, hnext⟩ | ⟨rfl, hnext⟩ |
      ⟨e, rfl, -, -, -, hfin⟩
    · rw [(exec_addPeer hω pub ip).2]
      exact ⟨Or.inl ⟨_, _, hnext⟩, rfl⟩
    · exact ⟨Or.inl ⟨_, _, hnext⟩, rfl⟩
    · exact ⟨Or.inr hfin, rfl⟩
  · rw [exec_local_state hfin.1]
    exact ⟨Or.inr (hfin.2 _), rfl⟩

theorem Writing.run (h : Writing key subject ip p) (hω : ω.Reliable) :
    (p.run exec ω s).1.Served ∧ (p.run exec ω s).2.2.alloc = s.alloc ∧
      ∃ e, (p.run exec ω s).2.2.store.get key = some e := by
  induction p generalizing s ω with
  | ret v => exact h.elim
  | act a next ih =>
      rw [run_act]
      rcases h.act hω (s := s) with ⟨pub, rfl, -, hnext⟩ | ⟨rfl, hnext⟩ |
        ⟨e, rfl, rfl, -, -, hfin⟩
      · obtain ⟨hserved, halloc, hget⟩ := ih _ hnext (hω.exec _ s)
          (s := (exec (.addPeer pub ip) ω s).2.2)
        refine ⟨hserved, halloc.trans ?_, hget⟩
        rw [(exec_addPeer hω pub ip).2]
        rfl
      · exact ih _ hnext (hω.exec _ s)
      · obtain ⟨-, hstate, hserved⟩ := hfin.run (ω := (exec (.storePut e) ω s).2.1)
          (s := (exec (.storePut e) ω s).2.2) ⟨rfl, rfl⟩
        rw [hstate]
        exact ⟨hserved, rfl, e, Store.get_put_eq_some.mpr (Or.inl ⟨rfl, rfl⟩)⟩

theorem Allocating.run (h : Allocating key p) (hω : ω.Reliable)
    (hfree : s.alloc.free = some ip) :
    (p.run exec ω s).1.Served ∧
      (p.run exec ω s).2.2.alloc.used = insert (text ip) s.alloc.used ∧
      ∃ e, (p.run exec ω s).2.2.store.get key = some e := by
  cases p with
  | ret v => exact h.elim
  | act a next =>
      have hω' := hω.exec a s
      obtain ⟨rfl, -, hok⟩ := h.act (ω := ω) (s := s)
      obtain ⟨⟨subject, hwrite⟩, hstate⟩ := hok ip hfree
      rw [run_act, hstate]
      obtain ⟨hserved, halloc, hget⟩ := hwrite.run hω'
        (s := { s with alloc := { s.alloc with used := insert (text ip) s.alloc.used } })
      exact ⟨hserved, by rw [halloc], hget⟩

/-- An enrollment of a key that has an entry takes no address. -/
theorem Entering.run_present (h : Entering key p) (hω : ω.Reliable)
    (hget : ∃ e, s.store.get key = some e) :
    (p.run exec ω s).1.Served ∧ (p.run exec ω s).2.2.alloc = s.alloc := by
  induction p generalizing ω with
  | ret v => exact ⟨h, rfl⟩
  | act a next ih =>
      rw [run_act]
      rcases h.local_or_get with ⟨ha, hnext⟩ | rfl
      · rw [exec_local_state ha]
        exact ih _ (hnext _) (hω.exec a s)
      · obtain ⟨e, hget⟩ := hget
        rcases (h.get (ω := ω)).2 e hget with hfin | hwrite
        · obtain ⟨-, hstate, hserved⟩ := hfin.run (ω := ω) (s := s) ⟨rfl, rfl⟩
          exact ⟨hserved, congrArg Server.alloc hstate⟩
        · obtain ⟨hserved, halloc, -⟩ := hwrite.run hω (s := s)
          exact ⟨hserved, halloc⟩

/-- An enrollment of a key that has none is refused early or takes the next free
address and writes its entry. -/
theorem Entering.run_absent (h : Entering key p) (hω : ω.Reliable)
    (hget : s.store.get key = none) (hfree : s.alloc.free = some ip) :
    (p.run exec ω s).1.Served ∧
      ((p.run exec ω s).2.2 = s ∨
        (p.run exec ω s).2.2.alloc.used = insert (text ip) s.alloc.used ∧
          ∃ e, (p.run exec ω s).2.2.store.get key = some e) := by
  induction p generalizing ω with
  | ret v => exact ⟨h, Or.inl rfl⟩
  | act a next ih =>
      rw [run_act]
      rcases h.local_or_get with ⟨ha, hnext⟩ | rfl
      · rw [exec_local_state ha]
        exact ih _ (hnext _) (hω.exec a s)
      · obtain ⟨hserved, hused⟩ := ((h.get (ω := ω)).1 hget).run hω hfree
        exact ⟨hserved, Or.inr hused⟩

/-- Serial enrollments of a key that has no entry take one address at most, and
neither is refused for want of one. -/
theorem serial_takes_one {ω' : Oracle} (hp : Entering key p) (hω : ω.Reliable)
    (hq : Entering key q) (hω' : ω'.Reliable) (hget : s.store.get key = none)
    (hfree : s.alloc.free = some ip) :
    (p.run exec ω s).1.Served ∧ (q.run exec ω' (p.run exec ω s).2.2).1.Served ∧
      ((q.run exec ω' (p.run exec ω s).2.2).2.2.alloc.used = s.alloc.used ∨
        (q.run exec ω' (p.run exec ω s).2.2).2.2.alloc.used =
          insert (text ip) s.alloc.used) := by
  obtain ⟨hserved, hstate | ⟨hused, hentry⟩⟩ := hp.run_absent hω hget hfree
  · obtain ⟨hserved', hstate' | ⟨hused', -⟩⟩ := hq.run_absent hω' hget hfree
    · rw [hstate]
      exact ⟨hserved, hserved', Or.inl (congrArg (fun s => s.alloc.used) hstate')⟩
    · rw [hstate]
      exact ⟨hserved, hserved', Or.inr hused'⟩
  · obtain ⟨hserved', halloc⟩ := hq.run_present hω' hentry
    exact ⟨hserved, hserved', Or.inr (by rw [halloc, hused])⟩

section Turns

variable {i j k : Fin 2} {a : Action} {next : Reply a → Handler Response}

/-- The first of the two takes an address. -/
theorem raced_take_first (h : ∀ i : Fin 2, At c i (Allocating key))
    (halloc : c.shared.alloc = s₀.alloc) (hfree : s₀.alloc.free = some ip)
    (hk : c.thread k = some (.act a next, ω)) : Raced key s₀ (c.move exec (.advance k)) := by
  obtain ⟨j, hkj⟩ : ∃ j : Fin 2, k ≠ j := ⟨1 - k, by omega⟩
  obtain ⟨hall, hω⟩ := (h k).of_thread hk
  obtain ⟨rfl, -, hok⟩ := hall.act (ω := ω) (s := c.shared)
  obtain ⟨⟨subject, hwrite⟩, hstate⟩ := hok ip (halloc ▸ hfree)
  refine .one k j hkj (At.advance hk hω (Or.inl ⟨subject, ip, hwrite⟩))
    (At.advance_of_ne (Fin.val_ne_of_ne hkj.symm) (h j)) ?_
  rw [Pool.move_advance hk, hstate]
  exact ⟨text ip, Ipam.Allocator.free_not_used hfree, by rw [halloc]⟩

/-- The second takes an address, or is refused. -/
theorem raced_take_second (hij : i ≠ j) (hi : At c i (Holding key)) (hj : At c j (Allocating key))
    (htook : s₀.Took c.shared) (hk : c.thread j = some (.act a next, ω)) :
    Raced key s₀ (c.move exec (.advance j)) := by
  obtain ⟨hall, hω⟩ := hj.of_thread hk
  obtain ⟨rfl, herror, hok⟩ := hall.act (ω := ω) (s := c.shared)
  have hat := At.advance_of_ne (Fin.val_ne_of_ne hij) hi
  cases hfree : c.shared.alloc.free with
  | none => exact .refused i j hij hat (At.advance hk hω (herror hfree).1)
  | some ip =>
      obtain ⟨⟨subject, hwrite⟩, hstate⟩ := hok ip hfree
      refine .both (fun i' => ?_) ?_
      · by_cases hi' : i' = i
        · rw [hi']
          exact hat
        · obtain rfl := eq_of_ne_ne hij (Ne.symm hi')
          exact At.advance hk hω (Or.inl ⟨subject, ip, hwrite⟩)
      · obtain ⟨x, hx, hused⟩ := htook
        refine ⟨x, text ip, hx, hused ▸ Ipam.Allocator.free_not_used hfree, ?_⟩
        rw [Pool.move_advance hk, hstate, ← hused]

end Turns

/-- One turn after the race. -/
theorem raced_advance (h : Raced key s₀ c) (hfree : s₀.alloc.free ≠ none) (k : Fin 2) :
    Raced key s₀ (c.move exec (.advance k)) := by
  by_cases hfly : c.InFlight k
  · obtain ⟨a, next, ω, hk⟩ := hfly
    have hshared : (c.move exec (.advance k)).shared = (exec a ω c.shared).2.2 := by
      rw [Pool.move_advance hk]
    cases h with
    | neither h halloc =>
        obtain ⟨ip, hfree⟩ := Option.ne_none_iff_exists'.mp hfree
        exact raced_take_first h halloc hfree hk
    | one i j hij hi hj htook =>
        by_cases hki : k = i
        · subst hki
          obtain ⟨hhold, hω⟩ := hi.of_thread hk
          obtain ⟨hnext, halloc⟩ := hhold.act hω (s := c.shared)
          refine .one k j hij (At.advance hk hω hnext)
            (At.advance_of_ne (Fin.val_ne_of_ne hij.symm) hj) ?_
          rw [hshared]
          exact htook.of_alloc halloc
        · obtain rfl := eq_of_ne_ne hij (Ne.symm hki)
          exact raced_take_second hij hi hj htook hk
    | both h htook =>
        obtain ⟨hhold, hω⟩ := (h k).of_thread hk
        obtain ⟨hnext, halloc⟩ := hhold.act hω (s := c.shared)
        refine .both (fun i => ?_) ?_
        · by_cases hi : i = k
          · rw [hi]
            exact At.advance hk hω hnext
          · exact At.advance_of_ne (Fin.val_ne_of_ne hi) (h i)
        · rw [hshared, halloc]
          exact htook
    | refused i j hij hi hj =>
        have hne : (i : ℕ) ≠ j := Fin.val_ne_of_ne hij
        by_cases hki : k = i
        · subst hki
          obtain ⟨hhold, hω⟩ := hi.of_thread hk
          exact .refused k j hij (At.advance hk hω (hhold.act hω).1)
            (At.advance_of_ne hne.symm hj)
        · obtain rfl := eq_of_ne_ne hij (Ne.symm hki)
          obtain ⟨hfin, hω⟩ := hj.of_thread hk
          exact .refused i j hij (At.advance_of_ne hne hi) (At.advance hk hω (hfin.2 _))
  · rw [Pool.move_advance_stopped hfly]
    exact h

theorem raced_run (schedule : List (Fin 2)) (h : Raced key s₀ c)
    (hfree : s₀.alloc.free ≠ none) :
    Raced key s₀ (run (Pool.move exec) c (advances schedule)) := by
  induction schedule generalizing c with
  | nil => exact h
  | cons k rest ih => exact ih (raced_advance h hfree k)

omit [GoText.CaseTables] in
/-- What is left when both have returned: one is refused, or two addresses are
taken. -/
theorem Raced.result (h : Raced key s₀ c) {r₀ r₁ : Response}
    (h₀ : c.result 0 = some r₀) (h₁ : c.result 1 = some r₁) :
    r₀.Exhausted ∨ r₁.Exhausted ∨ c.shared.alloc.used.card = s₀.alloc.used.card + 2 := by
  have hret : ∀ {i r} {P : Handler Response → Prop},
      c.result i = some r → At c i P → P (.ret r) := by
    intro i r P hr hat
    obtain ⟨ω, hi⟩ := Pool.result_eq hr
    exact (hat.of_thread hi).1
  cases h with
  | neither h halloc => exact (hret h₀ (h 0)).elim
  | one i j hij hi hj htook =>
      obtain rfl | rfl : j = 0 ∨ j = 1 := by omega
      · exact (hret h₀ hj).elim
      · exact (hret h₁ hj).elim
  | both h htook =>
      obtain ⟨x, y, hx, hy, hused⟩ := htook
      refine Or.inr (Or.inr ?_)
      rw [hused, Finset.card_insert_of_notMem hy, Finset.card_insert_of_notMem hx]
  | refused i j hij hi hj =>
      obtain rfl | rfl : j = 0 ∨ j = 1 := by omega
      · exact Or.inl (hret h₀ hj)
      · exact Or.inr (Or.inl (hret h₁ hj))

omit [GoText.CaseTables] in
theorem Enrolling.key_of_get {k : String} {next : Reply (.storeGet k) → Handler Response}
    (h : Enrolling key (.act (.storeGet k) next)) : k = key := by
  rcases h with hent | halloc | ⟨subject, ip, hwrite⟩ | hfin
  · exact hent.1
  · exact halloc.elim
  · exact hwrite.elim
  · exact hfin.1.elim

/-- The other call asks for the entry while the one that goes first has an address
but no entry. -/
theorem raced_of_committed {i j : Fin 2} (hij : i ≠ j) (hi : At c i (Committed key s₀ c.shared))
    (hj : At c j (Entering key)) (hget : c.shared.store.get key = none)
    {next : Reply (.storeGet key) → Handler Response}
    (hk : c.thread j = some (.act (.storeGet key) next, ω)) :
    Raced key s₀ (c.move exec (.advance j)) := by
  obtain ⟨hent, hω⟩ := hj.of_thread hk
  have hshared : (c.move exec (.advance j)).shared = c.shared := by
    rw [Pool.move_advance hk]
    rfl
  have hat : At (c.move exec (.advance j)) j (Allocating key) :=
    At.advance hk hω (hent.get.1 hget)
  obtain ⟨p, ω', hi, hcommitted, hω'⟩ := At.advance_of_ne (Fin.val_ne_of_ne hij) hi
  rcases hcommitted with ⟨hall, halloc⟩ | ⟨hwrite, htook⟩
  · refine .neither (fun i' => ?_) (by rw [hshared, halloc])
    by_cases hi' : i' = i
    · rw [hi']
      exact ⟨p, ω', hi, hall, hω'⟩
    · obtain rfl := eq_of_ne_ne hij (Ne.symm hi')
      exact hat
  · refine .one i j hij ⟨p, ω', hi, Or.inl hwrite, hω'⟩ hat ?_
    rw [hshared]
    exact htook

/-- A turn that is not unraced makes it a race. -/
theorem raced_of_not_unraced {T : Fin 2 → Fin 2 → Option (Response × Response × Server)}
    (h : Explained key s₀ T c) (hslots : ∀ j, 2 ≤ j → c.thread j = none) {k : Fin 2}
    (hok : ¬ Unraced c (.advance k)) :
    s₀.store.get key = none ∧ s₀.alloc.free ≠ none ∧
      Raced key s₀ (c.move exec (.advance k)) := by
  obtain ⟨key', hnext, hget', j, p, ω, hjk, hj, hclaim⟩ :
      ∃ key', c.nextAction k = some (.storeGet key') ∧ c.shared.store.get key' = none ∧
        ∃ (j : ℕ) (p : Handler Response) (ω : Oracle),
          j ≠ k ∧ c.thread j = some (p, ω) ∧ Claiming key' c.shared p := by
    simpa only [Unraced, not_forall, exists_prop, not_not] using hok
  obtain ⟨next, ω', hk⟩ := Pool.thread_of_nextAction hnext
  have hlt : j < 2 := by
    by_contra hge
    exact absurd ((hslots j (not_lt.mp hge)).symm.trans hj) (by simp)
  obtain ⟨j, rfl⟩ : ∃ i : Fin 2, j = i := ⟨⟨j, hlt⟩, rfl⟩
  have hkj : k ≠ j := fun heq => hjk (by rw [heq])
  cases h with
  | undecided hstore halloc h =>
      obtain ⟨hready, -⟩ := (h k j hkj).1.of_thread hk
      obtain rfl : key' = key := hready.enrolling.key_of_get
      obtain ⟨hready', -⟩ := (h j k hkj.symm).1.of_thread hj
      exact absurd hclaim (not_claiming_of_ready hready' hget')
  | committed i j' hij habsent hfree hi hj' hget hserial =>
      refine ⟨habsent, hfree, ?_⟩
      by_cases hki : k = i
      · -- the call that goes first does not ask again
        subst hki
        obtain ⟨hall, -⟩ | ⟨⟨_, _, hwrite⟩, -⟩ := (hi.of_thread hk).1
        · exact hall.elim
        · exact hwrite.elim
      · obtain rfl := eq_of_ne_ne hij (Ne.symm hki)
        obtain rfl : key' = key := (hj'.of_thread hk).1.1
        exact raced_of_committed hij hi hj' hget hk
  | written i j' hij hi hj' hget hserial =>
      obtain ⟨e, he⟩ := hget
      have henrolling : Enrolling key (.act (.storeGet key') next) := by
        by_cases hki : k = i
        · subst hki
          exact Or.inl (entering_of_finishing (hi.of_thread hk).1)
        · obtain rfl := eq_of_ne_ne hij (Ne.symm hki)
          exact (hj'.of_thread hk).1
      obtain rfl : key' = key := henrolling.key_of_get
      exact absurd (hget'.symm.trans he) (by simp)

/-- A schedule of unraced turns stays explained; any other leaves a race, and the
key had no entry and the pool an address to begin with. -/
theorem contention_run {T : Fin 2 → Fin 2 → Option (Response × Response × Server)}
    (schedule : List (Fin 2)) (h : Explained key s₀ T c)
    (hslots : ∀ j, 2 ≤ j → c.thread j = none) :
    (Admissible (Pool.move exec) Unraced c (advances schedule) ∧
        Explained key s₀ T (run (Pool.move exec) c (advances schedule))) ∨
      (¬ Admissible (Pool.move exec) Unraced c (advances schedule) ∧
        s₀.store.get key = none ∧ s₀.alloc.free ≠ none ∧
        Raced key s₀ (run (Pool.move exec) c (advances schedule))) := by
  induction schedule generalizing c with
  | nil => exact Or.inl ⟨trivial, h⟩
  | cons k rest ih =>
      by_cases hok : Unraced c (.advance k)
      · have hslots' : ∀ j, 2 ≤ j → (c.move exec (.advance k)).thread j = none := by
          intro j hj
          rw [Pool.thread_advance_of_ne (by omega), hslots j hj]
        rcases ih (explained_advance h k hok) hslots' with ⟨hrest, hend⟩ | ⟨hrest, hrace⟩
        · exact Or.inl ⟨⟨hok, hrest⟩, hend⟩
        · exact Or.inr ⟨fun hall => hrest hall.2, hrace⟩
      · obtain ⟨habsent, hfree, hraced⟩ := raced_of_not_unraced h hslots hok
        exact Or.inr ⟨fun hall => hok hall.1, habsent, hfree, raced_run rest hraced hfree⟩

end Runs

end Claimward.Api
