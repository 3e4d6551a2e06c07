import Claimward.Api.Addresses
import Claimward.Api.Holds

/-!
# Addresses under overlapping calls

Between reading an entry and acting on it a call holds no lock. A removal may
delete and release what is no longer its own, an enrollment may write an entry
back that has been removed meanwhile. The invariant is that of the address
book, with the addresses that calls in progress are about to write or to give
back; it holds in every interleaving whose removals act on current entries.
-/

namespace Claimward.Api

open AtomicProgram AtomicProgram.Program Inet Wg Peers Runs

/-- Whenever a removal deletes an entry, the store still has that entry at the
address the removal is about to release, and no other call may still write it
back there. -/
def RemovalsCurrent (c : Threads) : Turn → Prop
  | .start _ _ _ => True
  | .advance i =>
      ∀ key next ω ip, c.thread i = some (.act (.storeDelete key) next, ω) →
        (∀ r, Releases (next r) ip) →
        (∃ p, c.shared.store.get key = some p ∧ p.ip = ip) ∧
          ∀ j p ω', j ≠ i → c.thread j = some (p, ω') → ¬ MayPut key (text ip) p

/-- An entry has the address, or a call is about to write one with it. -/
def Claimed (s : Server) (note : ℕ → Option Hold) (key addr : String) : Prop :=
  s.book.holds key = some addr ∨ ∃ i, note i = some (.holds key addr)

/-- Claimed addresses are used and of one key each. An address about to be
given back is used, by nobody, and only one call gives it back. -/
structure Exclusive (s : Server) (note : ℕ → Option Hold) : Prop where
  used : ∀ {k x}, Claimed s note k x → x ∈ s.alloc.used
  unique : ∀ {k l x}, Claimed s note k x → Claimed s note l x → k = l
  releasing_used : ∀ {i x}, note i = some (.releasing x) → x ∈ s.alloc.used
  releasing_free : ∀ {i k x}, note i = some (.releasing x) → ¬ Claimed s note k x
  releasing_unique : ∀ {i j x}, note i = some (.releasing x) →
    note j = some (.releasing x) → i = j

section Steps

variable {s s' : Server} {note note' : ℕ → Option Hold}

/-- Nothing more is claimed or about to be given back. -/
theorem Exclusive.of_le (h : Exclusive s note)
    (hclaimed : ∀ {k x}, Claimed s' note' k x → Claimed s note k x)
    (hused : s'.alloc.used = s.alloc.used)
    (hreleasing : ∀ {i x}, note' i = some (.releasing x) → note i = some (.releasing x)) :
    Exclusive s' note' where
  used hk := hused ▸ h.used (hclaimed hk)
  unique hk hl := h.unique (hclaimed hk) (hclaimed hl)
  releasing_used hi := hused ▸ h.releasing_used (hreleasing hi)
  releasing_free hi hk := h.releasing_free (hreleasing hi) (hclaimed hk)
  releasing_unique hi hj := h.releasing_unique (hreleasing hi) (hreleasing hj)

/-- The store's addresses and the pool are as before. -/
theorem Exclusive.of_same (h : Exclusive s note) (hbook : s'.book = s.book) :
    Exclusive s' note := by
  have hused : s'.alloc.used = s.alloc.used :=
    Finset.coe_injective (congrArg LeaseBook.taken hbook)
  apply h.of_le _ hused id
  intro k x hk
  rw [Claimed, hbook] at hk
  exact hk

variable {i : ℕ}

/-- A call notes the address of an entry it has read. -/
theorem Exclusive.note_entry (h : Exclusive s note) {key x : String}
    (hentry : s.book.holds key = some x) :
    Exclusive s (Function.update note i (some (.holds key x))) := by
  apply h.of_le _ rfl
  · intro j y hj
    rcases Pool.update_eq_some hj with ⟨-, hm⟩ | ⟨-, hm⟩
    · exact absurd hm (by simp)
    · exact hm
  · rintro k y (hk | ⟨j, hj⟩)
    · exact Or.inl hk
    · rcases Pool.update_eq_some hj with ⟨-, hm⟩ | ⟨-, hm⟩
      · obtain ⟨rfl, rfl⟩ := Hold.holds.inj (Option.some.inj hm)
        exact Or.inl hentry
      · exact Or.inr ⟨j, hm⟩

/-- A call takes an address that is not used. -/
theorem Exclusive.allocate (h : Exclusive s note) {key x : String}
    (hfree : x ∉ s.alloc.used) (hbook : s'.book.holds = s.book.holds)
    (hused : s'.alloc.used = insert x s.alloc.used) :
    Exclusive s' (Function.update note i (some (.holds key x))) := by
  have hold : ∀ {k y}, Claimed s' (Function.update note i (some (.holds key x))) k y →
      k = key ∧ y = x ∨ Claimed s note k y := by
    rintro k y (hk | ⟨j, hj⟩)
    · exact Or.inr (Or.inl (hbook ▸ hk))
    · rcases Pool.update_eq_some hj with ⟨-, hm⟩ | ⟨-, hm⟩
      · obtain ⟨rfl, rfl⟩ := Hold.holds.inj (Option.some.inj hm)
        exact Or.inl ⟨rfl, rfl⟩
      · exact Or.inr (Or.inr ⟨j, hm⟩)
  have hrel : ∀ {j y}, Function.update note i (some (.holds key x)) j = some (.releasing y) →
      note j = some (.releasing y) := by
    intro j y hj
    rcases Pool.update_eq_some hj with ⟨-, hm⟩ | ⟨-, hm⟩
    · exact absurd hm (by simp)
    · exact hm
  constructor
  · intro k y hk
    rw [hused, Finset.mem_insert]
    rcases hold hk with ⟨-, rfl⟩ | hk
    · exact Or.inl rfl
    · exact Or.inr (h.used hk)
  · intro k l y hk hl
    rcases hold hk with ⟨hkey, hx⟩ | hk
    · rcases hold hl with ⟨hkey', -⟩ | hl
      · rw [hkey, hkey']
      · exact absurd (hx ▸ h.used hl) hfree
    · rcases hold hl with ⟨-, hx⟩ | hl
      · exact absurd (hx ▸ h.used hk) hfree
      · exact h.unique hk hl
  · intro j y hj
    rw [hused, Finset.mem_insert]
    exact Or.inr (h.releasing_used (hrel hj))
  · intro j k y hj hk
    rcases hold hk with ⟨-, hx⟩ | hk
    · exact hfree (hx ▸ h.releasing_used (hrel hj))
    · exact h.releasing_free (hrel hj) hk
  · intro j l y hj hl
    exact h.releasing_unique (hrel hj) (hrel hl)

/-- A call writes the entry it has noted. -/
theorem Exclusive.put (h : Exclusive s note) {p : Peer}
    (hi : note i = some (.holds p.publicKey (text p.ip))) :
    Exclusive { s with store := s.store.put p } (Function.update note i none) := by
  apply h.of_le
  · rintro k y (hk | ⟨j, hj⟩)
    · obtain ⟨q, hq, rfl⟩ := Server.holds_eq_some.mp hk
      rcases Store.get_put_eq_some.mp hq with ⟨rfl, rfl⟩ | ⟨-, hold⟩
      · exact Or.inr ⟨i, hi⟩
      · exact Or.inl (Server.holds_eq_some.mpr ⟨q, hold, rfl⟩)
    · rcases Pool.update_eq_some hj with ⟨-, hm⟩ | ⟨-, hm⟩
      · exact absurd hm (by simp)
      · exact Or.inr ⟨j, hm⟩
  · rfl
  · intro j y hj
    rcases Pool.update_eq_some hj with ⟨-, hm⟩ | ⟨-, hm⟩
    · exact absurd hm (by simp)
    · exact hm

/-- A removal deletes the entry it is about to release the address of, and
nobody else has noted that address. -/
theorem Exclusive.delete (h : Exclusive s note) {p : Peer} {key : String}
    (hget : s.store.get key = some p)
    (hother : ∀ j, j ≠ i → note j ≠ some (.holds key (text p.ip))) :
    Exclusive { s with store := s.store.delete key }
      (Function.update note i (some (.releasing (text p.ip)))) := by
  have hentry : Claimed s note key (text p.ip) :=
    Or.inl (Server.holds_eq_some.mpr ⟨p, hget, rfl⟩)
  have hclaimed : ∀ {k y}, Claimed { s with store := s.store.delete key }
      (Function.update note i (some (.releasing (text p.ip)))) k y →
      Claimed s note k y ∧ (k = key → y ≠ text p.ip) := by
    rintro k y (hk | ⟨j, hj⟩)
    · obtain ⟨q, hq, rfl⟩ := Server.holds_eq_some.mp hk
      simp only [Store.get_delete] at hq
      split at hq
      · exact absurd hq (by simp)
      · rename_i hne
        exact ⟨Or.inl (Server.holds_eq_some.mpr ⟨q, hq, rfl⟩), fun heq => absurd heq hne⟩
    · rcases Pool.update_eq_some hj with ⟨-, hm⟩ | ⟨hne, hm⟩
      · exact absurd hm (by simp)
      · refine ⟨Or.inr ⟨j, hm⟩, ?_⟩
        rintro rfl rfl
        exact hother j hne hm
  have hreleasing : ∀ {j y}, Function.update note i (some (.releasing (text p.ip))) j =
      some (.releasing y) → j = i ∧ y = text p.ip ∨ note j = some (.releasing y) := by
    intro j y hj
    rcases Pool.update_eq_some hj with ⟨rfl, hm⟩ | ⟨-, hm⟩
    · exact Or.inl ⟨rfl, (Hold.releasing.inj (Option.some.inj hm)).symm⟩
    · exact Or.inr hm
  constructor
  · intro k y hk
    exact h.used (hclaimed hk).1
  · intro k l y hk hl
    exact h.unique (hclaimed hk).1 (hclaimed hl).1
  · intro j y hj
    rcases hreleasing hj with ⟨-, rfl⟩ | hj
    · exact h.used hentry
    · exact h.releasing_used hj
  · intro j k y hj hk
    obtain ⟨hk, hne⟩ := hclaimed hk
    rcases hreleasing hj with ⟨-, rfl⟩ | hj
    · exact hne (h.unique hk hentry) rfl
    · exact h.releasing_free hj hk
  · intro j l y hj hl
    rcases hreleasing hj with ⟨rfl, rfl⟩ | hj
    · rcases hreleasing hl with ⟨rfl, -⟩ | hl
      · rfl
      · exact absurd hentry (h.releasing_free hl)
    · rcases hreleasing hl with ⟨-, rfl⟩ | hl
      · exact absurd hentry (h.releasing_free hj)
      · exact h.releasing_unique hj hl

/-- A removal gives back the address it has noted. -/
theorem Exclusive.release (h : Exclusive s note) {ip : IP}
    (hi : note i = some (.releasing (text ip))) :
    Exclusive { s with alloc := s.alloc.release ip } (Function.update note i none) := by
  have hclaimed : ∀ {k y}, Claimed { s with alloc := s.alloc.release ip }
      (Function.update note i none) k y → Claimed s note k y := by
    rintro k y (hk | ⟨j, hj⟩)
    · exact Or.inl hk
    · rcases Pool.update_eq_some hj with ⟨-, hm⟩ | ⟨-, hm⟩
      · exact absurd hm (by simp)
      · exact Or.inr ⟨j, hm⟩
  have hreleasing : ∀ {j y}, Function.update note i none j = some (.releasing y) →
      j ≠ i ∧ note j = some (.releasing y) := by
    intro j y hj
    rcases Pool.update_eq_some hj with ⟨-, hm⟩ | ⟨hne, hm⟩
    · exact absurd hm (by simp)
    · exact ⟨hne, hm⟩
  constructor
  · intro k y hk
    refine Finset.mem_erase.mpr ⟨?_, h.used (hclaimed hk)⟩
    rintro rfl
    exact h.releasing_free hi (hclaimed hk)
  · intro k l y hk hl
    exact h.unique (hclaimed hk) (hclaimed hl)
  · intro j y hj
    obtain ⟨hne, hj⟩ := hreleasing hj
    refine Finset.mem_erase.mpr ⟨?_, h.releasing_used hj⟩
    rintro rfl
    exact hne (h.releasing_unique hj hi)
  · intro j k y hj hk
    exact h.releasing_free (hreleasing hj).2 (hclaimed hk)
  · intro j l y hj hl
    exact h.releasing_unique (hreleasing hj).2 (hreleasing hl).2

end Steps

section Runs

variable [GoText.CaseTables] {cfg : Config}

/-- A call with a note: what it may still do, on a device that never fails. -/
def Allows (n : Option Hold) (p : Handler Response) (ω : Oracle) : Prop := Safe n p ∧ ω.Reliable

/-- The actions that change neither an entry's address nor the pool. -/
def Action.Quiet : Action → Prop
  | .storePut _ => False
  | .storeDelete _ => False
  | .allocate => False
  | .release _ => False
  | _ => True

theorem book_exec {a : Action} (ha : a.Quiet) (ω : Oracle) (s : Server) :
    (exec a ω s).2.2.book = s.book := by
  cases a with
  | storePut p => exact ha.elim
  | storeDelete key => exact ha.elim
  | allocate => exact ha.elim
  | release ip => exact ha.elim
  | storeRenew key expiry =>
      simp only [exec, Server.book, LeaseBook.mk.injEq, and_true]
      funext k
      rw [Store.get_renew]
      split
      · rename_i hk
        rw [hk, Option.map_map]
        rfl
      · rfl
  | addPeer pub ip =>
      simp only [exec]
      split
      · rfl
      · rfl
  | removePeer pub =>
      simp only [exec]
      split
      · rfl
      · rfl
  | _ => simp [exec, Server.book]

theorem quiet_act {c : Threads} {note : ℕ → Option Hold} {i : ℕ} {a : Action}
    {p : Handler Response} {ω : Oracle} (h : Exclusive c.shared note) (ha : a.Quiet)
    (hsafe : Safe (note i) p) (hω : (exec a ω c.shared).2.1.Reliable) :
    ∃ n, Allows n p (exec a ω c.shared).2.1 ∧
      Exclusive (exec a ω c.shared).2.2 (Function.update note i n) := by
  refine ⟨note i, ⟨hsafe, hω⟩, ?_⟩
  rw [Function.update_eq_self]
  exact h.of_same (book_exec ha ω c.shared)

/-- One action of one call keeps the addresses exclusive, with a new note for
that call. -/
theorem exclusive_act {c : Threads} {note : ℕ → Option Hold} {i : ℕ} {a : Action}
    {next : Reply a → Handler Response} {ω : Oracle} (h : Exclusive c.shared note)
    (hfit : Pool.NotesFit Allows note c) (hi : c.thread i = some (.act a next, ω))
    (hok : RemovalsCurrent c (.advance i)) :
    ∃ n, Allows n (next (exec a ω c.shared).1) (exec a ω c.shared).2.1 ∧
      Exclusive (exec a ω c.shared).2.2 (Function.update note i n) := by
  obtain ⟨hsafe, hω⟩ := hfit.1 i _ _ hi
  have hω' := hω.exec a c.shared
  cases a with
  | storePut p => exact ⟨none, ⟨hsafe.2, hω'⟩, h.put hsafe.1⟩
  | release ip => exact ⟨none, ⟨hsafe.2, hω'⟩, h.release hsafe.1⟩
  | storeGet key =>
      obtain ⟨hn, hnone, hsome⟩ := hsafe
      cases hget : c.shared.store.get key with
      | none =>
          refine quiet_act h trivial ?_ hω'
          rw [hn]
          simpa only [exec, hget] using hnone
      | some p =>
          rcases hsome p (Store.key_of_get hget) with hfree | hhold
          · refine quiet_act h trivial ?_ hω'
            rw [hn]
            simpa only [exec, hget] using hfree
          · refine ⟨some (.holds key (text p.ip)), ⟨?_, hω'⟩, ?_⟩
            · simpa only [exec, hget] using hhold
            · exact h.note_entry (Server.holds_eq_some.mpr ⟨p, hget, rfl⟩)
  | allocate =>
      obtain ⟨hn, herror, key, hok'⟩ := hsafe
      cases hfree : c.shared.alloc.free with
      | none =>
          have halloc := Ipam.Allocator.allocate_of_exhausted hfree
          refine ⟨none, ⟨?_, hω'⟩, ?_⟩
          · simpa only [exec, halloc] using herror _
          · rw [← hn, Function.update_eq_self]
            simpa only [exec, halloc] using h
      | some ip =>
          have halloc := Ipam.Allocator.allocate_of_free hfree
          refine ⟨some (.holds key (text ip)), ⟨?_, hω'⟩, ?_⟩
          · simpa only [exec, halloc] using hok' ip
          · apply h.allocate (Ipam.Allocator.free_not_used hfree)
            · rfl
            · simp only [exec, halloc]
  | storeDelete key =>
      obtain ⟨hn, ip, hreleases, hrest⟩ := hsafe
      obtain ⟨⟨p, hget, rfl⟩, hputs⟩ := hok key next ω ip hi hreleases
      refine ⟨some (.releasing (text p.ip)), ⟨hrest _, hω'⟩, h.delete hget ?_⟩
      intro j hj hnote
      cases hthread : c.thread j with
      | none => exact absurd (hfit.2 j hthread) (by simp [hnote])
      | some t =>
          have hallows := (hfit.1 j t.1 t.2 hthread).1
          rw [hnote] at hallows
          exact hputs j t.1 t.2 hj hthread (mayPut_of_safe hallows)
  | addPeer pub ip =>
      refine quiet_act h trivial ?_ hω'
      have hadd : ω.addOk.head = true := hω.addOk 0
      have hnext : Safe (note i) (next true) := hsafe
      simpa only [exec, hadd] using hnext
  | _ => exact quiet_act h trivial (hsafe _) hω'

variable {a : Ipam.Allocator} {device : Device} {registry : Registry} {tenants : TenantStore}
  {turns : List Turn}

theorem exclusive_run (hstart : ∀ m ∈ turns, m.StartsCall cfg)
    (hrun : Server.Interleaves RemovalsCurrent (.start a device registry tenants) turns) :
    Pool.Noted Allows Exclusive (Server.interleave (.start a device registry tenants) turns) := by
  apply Pool.noted_run _ _ _ (hrun.and_forall hstart)
  · rintro c i p ω ⟨⟨⟨call, rfl⟩, hω⟩, -⟩
    exact ⟨safe_call cfg call, hω⟩
  · intro c note i a next ω h hfit hi hok
    exact exclusive_act h hfit hi hok.2
  · apply Pool.noted_initial
    have hnone : ∀ {k x}, ¬ Claimed (Server.start a device registry tenants)
        (fun _ => none) k x := by
      rintro k x (hk | ⟨i, hi⟩)
      · simp [Server.book, Server.start] at hk
      · exact absurd hi (by simp)
    exact ⟨fun hk => absurd hk hnone, fun hk => absurd hk hnone, by simp, by simp, by simp⟩

/-- In every interleaving whose removals act on current entries, no two entries
have one address, and every entry's address is in use. -/
theorem overlapping_calls_keep_addresses (hstart : ∀ m ∈ turns, m.StartsCall cfg)
    (hrun : Server.Interleaves RemovalsCurrent (.start a device registry tenants) turns) :
    (∀ k₁ k₂ p₁ p₂,
      (Server.interleave (.start a device registry tenants) turns).shared.store.get k₁ =
        some p₁ →
      (Server.interleave (.start a device registry tenants) turns).shared.store.get k₂ =
        some p₂ → k₁ ≠ k₂ → p₁.ip ≠ p₂.ip) ∧
    ∀ k p,
      (Server.interleave (.start a device registry tenants) turns).shared.store.get k = some p →
      text p.ip ∈
        (Server.interleave (.start a device registry tenants) turns).shared.alloc.used := by
  obtain ⟨note, -, h⟩ := exclusive_run hstart hrun
  constructor
  · intro k₁ k₂ p₁ p₂ h₁ h₂ hne hip
    apply hne
    apply h.unique (Or.inl (Server.holds_eq_some.mpr ⟨p₁, h₁, rfl⟩))
    exact Or.inl (Server.holds_eq_some.mpr ⟨p₂, h₂, by rw [hip]⟩)
  · intro k p hp
    exact h.used (Or.inl (Server.holds_eq_some.mpr ⟨p, hp, rfl⟩))

end Runs

/-- The turn does not delete an entry. -/
def NoDelete (c : Threads) : Turn → Bool
  | .start _ _ _ => true
  | .advance i =>
      match c.thread i with
      | some (.act (.storeDelete _) _, _) => false
      | _ => true

theorem removalsCurrent_of_noDelete {c : Threads} {m : Turn} (h : NoDelete c m = true) :
    RemovalsCurrent c m := by
  cases m with
  | start i p ω => trivial
  | advance i =>
      intro key next ω ip hi
      rw [NoDelete, hi] at h
      exact absurd h (by simp)

/-- Two peers enroll at the same time, each step of one between two of the other. -/
private def overlappingEnrollments : List Turn :=
  Sample.begin 0 false (Sample.enroll "alice" Sample.key₁) ++
    Sample.begin 1 false (Sample.enroll "bob" Sample.key₂) ++
    (List.replicate 8 [Move.advance 0, Move.advance 1]).flatten

attribute [local instance] GoText.asciiTables

theorem overlapping_enrollments_distinct_ips :
    ∃ p₁ p₂,
      (Sample.start.interleave overlappingEnrollments).shared.store.get Sample.key₁ = some p₁ ∧
      (Sample.start.interleave overlappingEnrollments).shared.store.get Sample.key₂ = some p₂ ∧
      p₁.ip ≠ p₂.ip := by
  obtain ⟨p₁, h₁⟩ : ∃ p, (Sample.start.interleave overlappingEnrollments).shared.store.get
      Sample.key₁ = some p := Option.isSome_iff_exists.mp (by decide +kernel)
  obtain ⟨p₂, h₂⟩ : ∃ p, (Sample.start.interleave overlappingEnrollments).shared.store.get
      Sample.key₂ = some p := Option.isSome_iff_exists.mp (by decide +kernel)
  have hstart : ∀ m ∈ overlappingEnrollments, m.StartsCall (Sample.config false) := by
    simp [overlappingEnrollments, Sample.begin, Turn.StartsCall, Sample.reliable]
  have hquiet : Sample.start.Interleaves (fun c m => NoDelete c m = true)
      overlappingEnrollments := by decide +kernel
  have hrun := hquiet.mono fun _ _ => removalsCurrent_of_noDelete
  exact ⟨p₁, p₂, h₁, h₂, (overlapping_calls_keep_addresses hstart hrun).1 _ _ p₁ p₂ h₁ h₂
    (by decide)⟩

/-- Two requests to leave read the entry, one of them completes, Bob gets the
address, the other request releases it, and Carol gets it as well. -/
theorem stale_release_shares_address :
    let c := Sample.start.interleave
      (Sample.begin 0 false (Sample.enroll "alice" Sample.key₁) ++ Sample.steps 0 8 ++
        Sample.begin 1 false (Sample.deregister "alice" Sample.key₁) ++ Sample.steps 1 1 ++
        Sample.begin 2 false (Sample.deregister "alice" Sample.key₁) ++ Sample.steps 2 1 ++
        Sample.steps 1 3 ++
        Sample.begin 3 false (Sample.enroll "bob" Sample.key₂) ++ Sample.steps 3 8 ++
        Sample.steps 2 3 ++
        Sample.begin 4 false (Sample.enroll "carol" Sample.key₃) ++ Sample.steps 4 8)
    (c.shared.store.get Sample.key₂).map Peer.ip = some [10, 80, 0, 2] ∧
      (c.shared.store.get Sample.key₃).map Peer.ip = some [10, 80, 0, 2] ∧
      Sample.key₂ ≠ Sample.key₃ := by
  decide +kernel

end Claimward.Api
