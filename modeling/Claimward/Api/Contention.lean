import Claimward.Api.Enrolling
import Claimward.Api.Guarded
import Claimward.Library.Serial

/-!
# Two enrollments in contention

The invariant of two overlapping enrollments of one key: as long as neither has
found the key absent with an address to be had, nor written its entry, both
serial orders explain what has happened; then only the order that this call
goes first in.
-/

namespace Claimward.Api

open AtomicProgram AtomicProgram.Program Inet Wg Peers Runs

/-- The call goes on to write an entry for the key without asking the store
again; one that has no address yet can get one. -/
def Claiming (key : String) (s : Server) : Handler Response → Prop
  | .act .allocate next => s.alloc.free ≠ none ∧ ∀ ip, WillPut key (next (.ok ip))
  | p => WillPut key p

/-- Whenever a call asks for a key that has no entry, no other call is on its
way to write one. -/
def Unraced (c : Threads) : Turn → Prop
  | .start _ _ _ => True
  | .advance i =>
      ∀ key, c.nextAction i = some (.storeGet key) → c.shared.store.get key = none →
        ∀ j p ω, j ≠ i → c.thread j = some (p, ω) → ¬ Claiming key c.shared p

theorem willPut_of_writing {key subject : String} {ip : IP} {p : Handler Response}
    (h : Writing key subject ip p) : WillPut key p := by
  induction p with
  | ret v => exact h.elim
  | act a next ih =>
      cases a with
      | addPeer pub ip' => exact ih true h.2.2
      | now => exact fun t => ih t (h t)
      | storePut e => exact h.1
      | _ => exact h.elim

/-- One more address is in use than at the start. -/
def Server.Took (s₀ s : Server) : Prop :=
  ∃ x ∉ s₀.alloc.used, s.alloc.used = insert x s₀.alloc.used

theorem Server.Took.of_alloc {s₀ s s' : Server} (h : s₀.Took s) (halloc : s'.alloc = s.alloc) :
    s₀.Took s' := by
  rw [Took, halloc]
  exact h

/-- The call has found no entry for the key, and it alone may write one: it takes
an address next, or has taken one. -/
def Committed (key : String) (s₀ s : Server) (p : Handler Response) : Prop :=
  (Allocating key p ∧ s.alloc = s₀.alloc) ∨
    (∃ subject ip, Writing key subject ip p) ∧ s₀.Took s

theorem Committed.enrolling {key : String} {s₀ s : Server} {p : Handler Response}
    (h : Committed key s₀ s p) : Enrolling key p := by
  rcases h with ⟨halloc, -⟩ | ⟨hwrite, -⟩
  · exact Or.inr (Or.inl halloc)
  · exact Or.inr (Or.inr (Or.inl hwrite))

theorem claiming_of_committed {key : String} {s₀ s : Server} {p : Handler Response}
    (h : Committed key s₀ s p) (hfree : s₀.alloc.free ≠ none) : Claiming key s p := by
  rcases h with ⟨halloc, hsame⟩ | ⟨⟨subject, ip, hwrite⟩, -⟩
  · cases p with
    | ret v => exact halloc.elim
    | act a next =>
        cases a with
        | allocate =>
            obtain ⟨-, subject, hwrite⟩ := halloc
            exact ⟨hsame ▸ hfree, fun ip => willPut_of_writing (hwrite ip)⟩
        | _ => exact halloc.elim
  · have hput := willPut_of_writing hwrite
    cases p with
    | ret v => exact hput
    | act a next =>
        cases a with
        | allocate => exact hput.elim
        | _ => exact hput

/-- The turns of two calls, as a schedule orders them. -/
def advances (schedule : List (Fin 2)) : List Turn := schedule.map fun k => .advance k.val

/-- The thread of the slot has the property, on a device that never fails. -/
def At (c : Threads) (k : ℕ) (P : Handler Response → Prop) : Prop :=
  ∃ p ω, c.thread k = some (p, ω) ∧ P p ∧ ω.Reliable

theorem At.of_thread {c : Threads} {k : ℕ} {P : Handler Response → Prop} {p : Handler Response}
    {ω : Oracle} (h : At c k P) (hk : c.thread k = some (p, ω)) : P p ∧ ω.Reliable := by
  obtain ⟨p', ω', hk', hp, hω⟩ := h
  obtain ⟨rfl, rfl⟩ := Prod.mk.inj (Option.some.inj (hk.symm.trans hk'))
  exact ⟨hp, hω⟩

theorem eq_of_ne_ne {i j k : Fin 2} (hij : i ≠ j) (hik : i ≠ k) : j = k := by
  omega

section Steps

variable [GoText.CaseTables] {key : String} {c : Threads} {p q : Handler Response}
  {ω ω' : Oracle} {a : Action} {next : Reply a → Handler Response}

section Serial

variable {i j : ℕ}

/-- A local action may be performed after the rest of another enrollment. -/
theorem serial_local (hij : i ≠ j) (hi : c.thread i = some (p, ω)) (hp : Enrolling key p)
    (hω : ω.Reliable) (hj : c.thread j = some (.act a next, ω')) (ha : a.Local) :
    (c.move exec (.advance j)).serial exec i j = c.serial exec i j := by
  have hexec := exec_local (ω := ω') ha (hp.agrees_run hω (s := c.shared))
  apply Pool.serial_advance_second hij hi hj
  · rw [hexec]
  · rw [hexec]
  · rw [hexec, exec_local_state ha]
  · rw [exec_local_state ha]

/-- Any action of an enrollment may be performed after a rest that only reads. -/
theorem serial_finishing {P : Response → Prop} (hij : i ≠ j) (hi : c.thread i = some (p, ω))
    (hp : Finishing P p) (hj : c.thread j = some (.act a next, ω'))
    (ha : c.shared.Agrees (exec a ω' c.shared).2.2) :
    (c.move exec (.advance j)).serial exec i j = c.serial exec i j := by
  have hrest : (p.run exec ω c.shared).2.2 = c.shared := (hp.run ⟨rfl, rfl⟩).2.1
  obtain ⟨hresult, hstate, -⟩ := hp.run (ω := ω) ha
  apply Pool.serial_advance_second hij hi hj
  · rw [hrest]
  · rw [hrest]
  · rw [hrest, hstate]
  · exact hresult

omit [GoText.CaseTables] in
theorem reusing_of_ready {s : Server} {e : Peer} (h : Ready key s p)
    (hget : s.store.get key = some e) : Reusing key e.subject e.ip p := by
  rcases h with hent | ⟨hnone, -, -⟩ | ⟨e', he, hwrite⟩
  · exact Or.inl hent
  · exact absurd (hnone.symm.trans hget) (by simp)
  · obtain rfl := Option.some.inj (he.symm.trans hget)
    exact Or.inr hwrite

/-- The entry of the key may be read after the rest of another enrollment that
reuses it. -/
theorem serial_get {next : Reply (.storeGet key) → Handler Response} {e : Peer} (hij : i ≠ j)
    (hi : c.thread i = some (p, ω)) (hp : Ready key c.shared p) (hω : ω.Reliable)
    (hj : c.thread j = some (.act (.storeGet key) next, ω'))
    (hent : Entering key (.act (.storeGet key) next))
    (hget : c.shared.store.get key = some e) :
    (c.move exec (.advance j)).serial exec i j = c.serial exec i j := by
  obtain ⟨⟨e', hget', hsubject, hip⟩, -⟩ :=
    (reusing_of_ready hp hget).run hω (s := c.shared) ⟨e, hget, rfl, rfl⟩
  obtain ⟨-, -, -, hsame⟩ := hent
  apply Pool.serial_advance_second hij hi hj
  · simp only [exec, hget, hget']
    exact hsame e' e hsubject hip
  · rfl
  · rfl
  · rfl

/-- The peer of an entry may be programmed after the rest of another enrollment
that reuses the entry. -/
theorem serial_addPeer {pub : Key} {e : Peer}
    {next : Reply (.addPeer pub e.ip) → Handler Response} (hij : i ≠ j)
    (hi : c.thread i = some (p, ω)) (hp : Ready key c.shared p) (hω : ω.Reliable)
    (hj : c.thread j = some (.act (.addPeer pub e.ip) next, ω')) (hω' : ω'.Reliable)
    (hkey : parseKey key = .ok pub) (hget : c.shared.store.get key = some e) :
    (c.move exec (.advance j)).serial exec i j = c.serial exec i j := by
  have hrun := ((reusing_of_ready hp hget).run hω (s := c.shared) ⟨e, hget, rfl, rfl⟩).2 pub hkey
  have hstate := (exec_addPeer hω' pub e.ip (s := c.shared)).2
  apply Pool.serial_advance_second hij hi hj
  · rw [(exec_addPeer hω' pub e.ip).1, (exec_addPeer hω' pub e.ip).1]
  · rfl
  · rw [(exec_addPeer hω' pub e.ip).2, hstate, hrun]
  · rw [hstate, hrun]

end Serial

/-- What explains the interleaving so far: both orders, or the order that one of
the two has been committed to. -/
inductive Explained (key : String) (s₀ : Server)
    (T : Fin 2 → Fin 2 → Option (Response × Response × Server)) (c : Threads) : Prop
  | undecided (hstore : c.shared.store = s₀.store) (halloc : c.shared.alloc = s₀.alloc)
      (h : ∀ i j : Fin 2, i ≠ j → At c i (Ready key c.shared) ∧ c.serial exec i j = T i j)
  | committed (i j : Fin 2) (hij : i ≠ j) (habsent : s₀.store.get key = none)
      (hfree : s₀.alloc.free ≠ none) (hi : At c i (Committed key s₀ c.shared))
      (hj : At c j (Entering key)) (hget : c.shared.store.get key = none)
      (hserial : c.serial exec i j = T i j)
  | written (i j : Fin 2) (hij : i ≠ j) (hi : At c i (Finishing Response.Served))
      (hj : At c j (Enrolling key)) (hget : ∃ e, c.shared.store.get key = some e)
      (hserial : c.serial exec i j = T i j)

variable {s₀ : Server} {T : Fin 2 → Fin 2 → Option (Response × Response × Server)}

theorem Explained.serial (h : Explained key s₀ T c) :
    ∃ i j : Fin 2, i ≠ j ∧ c.serial exec i j = T i j := by
  cases h with
  | undecided hstore halloc h => exact ⟨0, 1, by decide, (h 0 1 (by decide)).2⟩
  | committed i j hij habsent hfree hi hj hget hserial => exact ⟨i, j, hij, hserial⟩
  | written i j hij hi hj hget hserial => exact ⟨i, j, hij, hserial⟩

/-- A thread that has performed an action. -/
theorem At.advance {k : ℕ} {P : Handler Response → Prop}
    (hk : c.thread k = some (.act a next, ω)) (hω : ω.Reliable)
    (h : P (next (exec a ω c.shared).1)) : At (c.move exec (.advance k)) k P := by
  rw [Pool.move_advance hk]
  exact ⟨_, _, Function.update_self _ _ _, h, hω.exec a c.shared⟩

/-- The other thread stays where it is. -/
theorem At.advance_of_ne {j k : ℕ} {P : Handler Response → Prop} (hjk : j ≠ k) (h : At c j P) :
    At (c.move exec (.advance k)) j P := by
  obtain ⟨p, ω, hj, hp, hω⟩ := h
  exact ⟨p, ω, by rw [Pool.thread_advance_of_ne hjk, hj], hp, hω⟩

section Undecided

variable {k j : Fin 2} (hkj : k ≠ j) (hstore : c.shared.store = s₀.store)
  (halloc : c.shared.alloc = s₀.alloc) (hk : c.thread k = some (.act a next, ω))
  (hω : ω.Reliable) (hj : c.thread j = some (q, ω')) (hω' : ω'.Reliable)
  (hkj' : c.serial exec k j = T k j)

include hkj hstore halloc hk hω hj hω' hkj'

/-- Both orders stay open. -/
theorem undecided_advance (key : String) (hjk : c.serial exec j k = T j k)
    (hstore' : (exec a ω c.shared).2.2.store = c.shared.store)
    (halloc' : (exec a ω c.shared).2.2.alloc = c.shared.alloc)
    (hready : Ready key (exec a ω c.shared).2.2 (next (exec a ω c.shared).1))
    (hq : Ready key (exec a ω c.shared).2.2 q)
    (hserial : (c.move exec (.advance k)).serial exec j k = c.serial exec j k) :
    Explained key s₀ T (c.move exec (.advance k)) := by
  have hne : (k : ℕ) ≠ j := Fin.val_ne_of_ne hkj
  have hshared : (c.move exec (.advance k)).shared = (exec a ω c.shared).2.2 := by
    rw [Pool.move_advance hk]
  refine .undecided (by rw [hshared, hstore', hstore]) (by rw [hshared, halloc', halloc])
    fun i i' hii' => ?_
  rw [hshared]
  by_cases hi : i = k
  · subst hi
    obtain rfl := eq_of_ne_ne hkj hii'
    refine ⟨At.advance hk hω hready, ?_⟩
    rw [Pool.serial_advance_first hne hk hj, hkj']
  · obtain rfl := eq_of_ne_ne (Ne.symm hi) hkj
    obtain rfl := eq_of_ne_ne (Ne.symm hkj) hii'
    exact ⟨At.advance_of_ne hne.symm ⟨q, ω', hj, hq, hω'⟩, hserial.trans hjk⟩

/-- A call that is about to take an address goes first from here on. -/
theorem committed_advance (hq : Ready key c.shared q) (hget : c.shared.store.get key = none)
    (hfree : c.shared.alloc.free ≠ none) (hsame : (exec a ω c.shared).2.2 = c.shared)
    (hnext : Allocating key (next (exec a ω c.shared).1)) :
    Explained key s₀ T (c.move exec (.advance k)) := by
  have hne : (k : ℕ) ≠ j := Fin.val_ne_of_ne hkj
  have hshared : (c.move exec (.advance k)).shared = c.shared := by
    rw [Pool.move_advance hk, hsame]
  have hent : Entering key q := by
    rcases hq with hent | ⟨-, hnone, -⟩ | ⟨e, he, -⟩
    · exact hent
    · exact absurd hnone hfree
    · exact absurd (hget.symm.trans he) (by simp)
  refine .committed k j hkj (hstore ▸ hget) (halloc ▸ hfree) ?_
    (At.advance_of_ne hne.symm ⟨q, ω', hj, hent, hω'⟩) ?_ ?_
  · rw [hshared]
    exact At.advance hk hω (Or.inl ⟨hnext, halloc⟩)
  · rw [hshared]
    exact hget
  · rw [Pool.serial_advance_first hne hk hj, hkj']

/-- One action while both orders are open. -/
theorem undecided_act (hready : Ready key c.shared (.act a next)) (hq : Ready key c.shared q)
    (hjk : c.serial exec j k = T j k) :
    Explained key s₀ T (c.move exec (.advance k)) := by
  have hne : (k : ℕ) ≠ j := Fin.val_ne_of_ne hkj
  have hopen := undecided_advance hkj hstore halloc hk hω hj hω' hkj' key hjk
  rcases hready with hent | ⟨hget, hfree, hall | hfin⟩ | ⟨e, hget, hwrite⟩
  · rcases hent.local_or_get with ⟨ha, hnext⟩ | rfl
    · rw [exec_local_state ha] at hopen
      exact hopen rfl rfl (Or.inl (hnext _)) hq
        (serial_local hne.symm hj hq.enrolling hω' hk ha)
    · cases hget : c.shared.store.get key with
      | some e =>
          refine hopen rfl rfl ?_ hq (serial_get hne.symm hj hq hω' hk hent hget)
          rcases hent.get.2 e hget with hfin | hwrite
          · exact Or.inl (entering_of_finishing hfin)
          · exact Or.inr (Or.inr ⟨e, hget, hwrite⟩)
      | none =>
          have hall := (hent.get (ω := ω)).1 hget
          by_cases hfree : c.shared.alloc.free = none
          · refine hopen rfl rfl (Or.inr (Or.inl ⟨hget, hfree, Or.inl hall⟩)) hq ?_
            exact Pool.serial_advance_still hne.symm hj hk rfl (hq.still hget hfree)
          · exact committed_advance hkj hstore halloc hk hω hj hω' hkj' hq hget hfree rfl hall
  · obtain ⟨hfin, hstate⟩ := (hall.act (ω := ω)).2.1 hfree
    rw [hstate] at hopen
    refine hopen rfl rfl (Or.inr (Or.inl ⟨hget, hfree, Or.inr hfin⟩)) hq ?_
    exact Pool.serial_advance_still hne.symm hj hk hstate (hq.still hget hfree)
  · rw [exec_local_state hfin.1] at hopen
    exact hopen rfl rfl (Or.inr (Or.inl ⟨hget, hfree, Or.inr (hfin.2 _)⟩)) hq
      (serial_local hne.symm hj hq.enrolling hω' hk hfin.1)
  · rcases hwrite.act hω (s := c.shared) with ⟨pub, rfl, hkey, hnext⟩ | ⟨rfl, hnext⟩ |
      ⟨e', rfl, rfl, -, -, hfin⟩
    · rw [(exec_addPeer hω pub e.ip).2] at hopen
      exact hopen rfl rfl (Or.inr (Or.inr ⟨e, hget, hnext⟩)) hq
        (serial_addPeer hne.symm hj hq hω' hk hω hkey hget)
    · exact hopen rfl rfl (Or.inr (Or.inr ⟨e, hget, hnext⟩)) hq
        (serial_local hne.symm hj hq.enrolling hω' hk trivial)
    · refine .written k j hkj (At.advance hk hω hfin)
        (At.advance_of_ne hne.symm ⟨q, ω', hj, hq.enrolling, hω'⟩) ⟨e', ?_⟩ ?_
      · rw [Pool.move_advance hk]
        exact Store.get_put_eq_some.mpr (Or.inl ⟨rfl, rfl⟩)
      · rw [Pool.serial_advance_first hne hk hj, hkj']

end Undecided

/-- One action of the call that goes first. -/
theorem committed_act {k j : Fin 2} (hkj : k ≠ j) (habsent : s₀.store.get key = none)
    (hfree : s₀.alloc.free ≠ none) (hk : c.thread k = some (.act a next, ω))
    (hcommitted : Committed key s₀ c.shared (.act a next))
    (hω : ω.Reliable) (hj : c.thread j = some (q, ω')) (hq : Entering key q)
    (hω' : ω'.Reliable) (hget : c.shared.store.get key = none)
    (hserial : c.serial exec k j = T k j) :
    Explained key s₀ T (c.move exec (.advance k)) := by
  have hne : (k : ℕ) ≠ j := Fin.val_ne_of_ne hkj
  have hown : (c.move exec (.advance k)).serial exec k j = T k j := by
    rw [Pool.serial_advance_first hne hk hj, hserial]
  have hshared : (c.move exec (.advance k)).shared = (exec a ω c.shared).2.2 := by
    rw [Pool.move_advance hk]
  have hat : At (c.move exec (.advance k)) j (Entering key) :=
    At.advance_of_ne hne.symm ⟨q, ω', hj, hq, hω'⟩
  have hstay : ∀ {subject ip}, Writing key subject ip (next (exec a ω c.shared).1) →
      (exec a ω c.shared).2.2.store = c.shared.store → s₀.Took (exec a ω c.shared).2.2 →
      Explained key s₀ T (c.move exec (.advance k)) := by
    intro subject ip hwrite hstore htook
    refine .committed k j hkj habsent hfree ?_ hat ?_ hown
    · rw [hshared]
      exact At.advance hk hω (Or.inr ⟨⟨subject, ip, hwrite⟩, htook⟩)
    · rw [hshared, hstore, hget]
  rcases hcommitted with ⟨halloc, hsame⟩ | ⟨⟨subject, ip, hwrite⟩, htook⟩
  · obtain ⟨ip, hfree⟩ := Option.ne_none_iff_exists'.mp hfree
    obtain ⟨rfl, -, hok⟩ := halloc.act (ω := ω) (s := c.shared)
    obtain ⟨⟨subject, hwrite⟩, hstate⟩ := hok ip (hsame ▸ hfree)
    rw [hstate] at hstay
    refine hstay hwrite rfl ⟨text ip, Ipam.Allocator.free_not_used hfree, ?_⟩
    rw [hsame]
  · rcases hwrite.act hω (s := c.shared) with ⟨pub, rfl, -, hnext⟩ | ⟨rfl, hnext⟩ |
      ⟨e, rfl, rfl, -, -, hfin⟩
    · rw [(exec_addPeer hω pub ip).2] at hstay
      exact hstay hnext rfl htook
    · exact hstay hnext rfl htook
    · refine .written k j hkj (At.advance hk hω hfin)
        (At.advance_of_ne hne.symm ⟨q, ω', hj, Or.inl hq, hω'⟩) ⟨e, ?_⟩ hown
      rw [hshared]
      exact Store.get_put_eq_some.mpr (Or.inl ⟨rfl, rfl⟩)

/-- One action of the call that goes second, while the first may still write. -/
theorem waiting_act {i k : Fin 2} (hik : i ≠ k) (habsent : s₀.store.get key = none)
    (hfree : s₀.alloc.free ≠ none) (hi : c.thread i = some (p, ω))
    (hcommitted : Committed key s₀ c.shared p) (hω : ω.Reliable)
    (hk : c.thread k = some (.act a next, ω')) (hent : Entering key (.act a next))
    (hω' : ω'.Reliable) (hget : c.shared.store.get key = none)
    (hserial : c.serial exec i k = T i k) (hok : Unraced c (.advance k)) :
    Explained key s₀ T (c.move exec (.advance k)) := by
  have hne : (i : ℕ) ≠ k := Fin.val_ne_of_ne hik
  have hshared : (c.move exec (.advance k)).shared = (exec a ω' c.shared).2.2 := by
    rw [Pool.move_advance hk]
  rcases hent.local_or_get with ⟨ha, hnext⟩ | rfl
  · rw [exec_local_state ha] at hshared
    refine .committed i k hik habsent hfree ?_ (At.advance hk hω' (hnext _)) ?_ ?_
    · rw [hshared]
      exact At.advance_of_ne hne ⟨p, ω, hi, hcommitted, hω⟩
    · rw [hshared]
      exact hget
    · exact (serial_local hne hi hcommitted.enrolling hω hk ha).trans hserial
  · exact absurd (claiming_of_committed hcommitted hfree)
      (hok key (Pool.nextAction_eq hk) hget i p ω hne hi)

/-- An enrollment deletes no entry. -/
theorem Enrolling.get_act {s : Server} (h : Enrolling key (.act a next)) {k : String} {e : Peer}
    (he : s.store.get k = some e) : ∃ e', (exec a ω s).2.2.store.get k = some e' := by
  apply get_exec_of_get he
  rintro rfl
  rcases h with hent | halloc | ⟨subject, ip, hwrite⟩ | hfin
  · exact hent.1
  · exact halloc
  · exact hwrite
  · exact hfin.1

/-- One action after one of the two has written its entry. -/
theorem written_act {i j k : Fin 2} (hij : i ≠ j) (hi : At c i (Finishing Response.Served))
    (hj : At c j (Enrolling key)) (hget : ∃ e, c.shared.store.get key = some e)
    (hserial : c.serial exec i j = T i j) (hk : c.thread k = some (.act a next, ω)) :
    Explained key s₀ T (c.move exec (.advance k)) := by
  have hne : (i : ℕ) ≠ j := Fin.val_ne_of_ne hij
  have hshared : (c.move exec (.advance k)).shared = (exec a ω c.shared).2.2 := by
    rw [Pool.move_advance hk]
  obtain ⟨e, he⟩ := hget
  by_cases hki : k = i
  · subst hki
    obtain ⟨hfin, hω⟩ := hi.of_thread hk
    have hat := At.advance_of_ne hne.symm hj
    obtain ⟨q, ω', hj, -, -⟩ := hj
    refine .written k j hij (At.advance hk hω (hfin.2 _)) hat ⟨e, ?_⟩ ?_
    · rw [hshared, exec_local_state hfin.1, he]
    · rw [Pool.serial_advance_first hne hk hj, hserial]
  · obtain rfl := eq_of_ne_ne hij (Ne.symm hki)
    obtain ⟨hen, hω⟩ := hj.of_thread hk
    have hat := At.advance_of_ne hne hi
    obtain ⟨p, ω', hi, hfin, -⟩ := hi
    obtain ⟨hnext, hagrees⟩ := hen.act hω (s := c.shared)
    refine .written i j hij hat (At.advance hk hω hnext) ?_ ?_
    · rw [hshared]
      exact hen.get_act he
    · rw [serial_finishing hne hi hfin hk hagrees, hserial]

/-- One turn keeps the interleaving explained. -/
theorem explained_advance (h : Explained key s₀ T c) (k : Fin 2)
    (hok : Unraced c (.advance k)) : Explained key s₀ T (c.move exec (.advance k)) := by
  by_cases hfly : c.InFlight k
  · obtain ⟨a, next, ω, hk⟩ := hfly
    cases h with
    | undecided hstore halloc h =>
        obtain ⟨j, hkj⟩ : ∃ j : Fin 2, k ≠ j := ⟨1 - k, by omega⟩
        obtain ⟨hat, hserial⟩ := h k j hkj
        obtain ⟨hready, hω⟩ := hat.of_thread hk
        obtain ⟨⟨q, ω', hq, hready', hω'⟩, hserial'⟩ := h j k hkj.symm
        exact undecided_act hkj hstore halloc hk hω hq hω' hserial hready hready' hserial'
    | committed i j hij habsent hfree hi hj hget hserial =>
        by_cases hki : k = i
        · subst hki
          obtain ⟨hcommitted, hω⟩ := hi.of_thread hk
          obtain ⟨q, ω', hj, hent, hω'⟩ := hj
          exact committed_act hij habsent hfree hk hcommitted hω hj hent hω' hget hserial
        · obtain rfl := eq_of_ne_ne hij (Ne.symm hki)
          obtain ⟨p, ω', hi, hcommitted, hω'⟩ := hi
          obtain ⟨hent, hω⟩ := hj.of_thread hk
          exact waiting_act hij habsent hfree hi hcommitted hω' hk hent hω hget hserial hok
    | written i j hij hi hj hget hserial => exact written_act hij hi hj hget hserial hk
  · rw [Pool.move_advance_stopped hfly]
    exact h

end Steps

end Claimward.Api
