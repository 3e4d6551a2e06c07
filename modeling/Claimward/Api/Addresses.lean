import Claimward.Api.CallEffect
import Claimward.Ipam.HostRange
import Claimward.Library.LeaseBook

/-!
# The addresses of enrolled peers

The store and the pool together keep a book of leases: an entry holds its
address, and the pool's used addresses are those taken. Every call is a step
of that book, except a repeated enrollment that the device refuses: it gives
back an address that its entry keeps.
-/

namespace Claimward.Api

open AtomicProgram Inet Wg Runs

/-- The book that the store and the pool keep, by the texts of the addresses. -/
def Server.book (s : Server) : LeaseBook String String where
  holds k := (s.store.get k).map fun p => text p.ip
  taken := s.alloc.used

theorem Server.holds_eq_some {s : Server} {k x : String} :
    s.book.holds k = some x ↔ ∃ p, s.store.get k = some p ∧ text p.ip = x := by
  simp [Server.book]

private theorem book_dropAll (s : Server) (ps : List Peer) (oks : Stream' Bool)
    (hps : ∀ p ∈ ps, s.store.get p.publicKey = some p) :
    LeaseBook.Step s.book (s.dropAll ps oks).book := by
  apply LeaseBook.Step.giveUp
  · intro k
    simp only [Server.book, get_dropAll]
    split
    · exact Or.inl rfl
    · exact Or.inr rfl
  · intro x
    change x ∈ (s.dropAll ps oks).alloc.used ↔ x ∈ s.alloc.used ∧ _
    rw [mem_used_dropAll]
    refine and_congr_right fun _ => ⟨fun h k hk => ?_, fun h p hp hx => ?_⟩
    · obtain ⟨p, hget, rfl⟩ := Server.holds_eq_some.mp hk
      refine Server.holds_eq_some.mpr ⟨p, get_dropAll_eq_some.mpr ⟨hget, ?_⟩, rfl⟩
      intro hmem
      obtain ⟨q, hq, rfl⟩ := List.mem_map.mp hmem
      have hqp : q = p := Option.some.inj ((hps q hq).symm.trans hget)
      exact h q hq (by rw [hqp])
    · obtain ⟨q, hget, -⟩ := Server.holds_eq_some.mp
        (h p.publicKey (Server.holds_eq_some.mpr ⟨p, hps p hp, hx⟩))
      exact (get_dropAll_eq_some.mp hget).2 (List.mem_map_of_mem hp)

private theorem book_unchanged {s s' : Server}
    (hstore : ∀ k, s'.book.holds k = s.book.holds k) (hused : s'.alloc.used = s.alloc.used) :
    LeaseBook.Step s.book s'.book := by
  apply LeaseBook.Step.giveUp
  · intro k
    exact Or.inr (hstore k)
  · intro x
    simp only [hstore, imp_self, implies_true, and_true]
    change x ∈ s'.alloc.used ↔ x ∈ s.alloc.used
    rw [hused]

section Steps

variable [GoText.CaseTables] {cfg : Config}

/-- No repetition of an enrollment by the owner of the key, once past its
checks, is refused by the device. -/
def RepeatsSucceed (cfg : Config) (s : Server) (l : Call × Oracle) : Prop :=
  ∀ claims req pub expiry tenantID existing,
    l.1 = .enroll claims (.ok req) →
    Admitted cfg s l.2.clock claims req pub expiry tenantID →
    s.store.get req.publicKey = some existing → existing.subject = claims.subject →
    l.2.addOk.head = true

/-- The device never refuses to program a peer. -/
def AddsSucceed (_ : Server) (l : Call × Oracle) : Prop := ∀ n, l.2.addOk.get n = true

theorem AddsSucceed.repeatsSucceed {s : Server} {l : Call × Oracle} (h : AddsSucceed s l) :
    RepeatsSucceed cfg s l := by
  intro _ _ _ _ _ _ _ _ _ _
  exact h 0

/-- Every call whose repetitions succeed is a step of the book. -/
theorem book_step {s : Server} {l : Call × Oracle} (hok : RepeatsSucceed cfg s l) :
    LeaseBook.Step s.book (s.serve cfg l).book := by
  obtain ⟨c, ω⟩ := l
  obtain ⟨r, s', hs', heff⟩ := exists_effect cfg ω s c
  rw [hs']
  cases heff with
  | idle hr => exact book_unchanged (fun _ => rfl) rfl
  | install hr => exact book_unchanged (fun _ => rfl) rfl
  | tenants hkeep hr => exact book_unchanged (fun _ => rfl) rfl
  | drop hr => exact book_dropAll s _ _ fun p hp => get_of_mem_dropped hp
  | @reassign claims req pub expiry tenantID existing r hadm hget hown hadd at' hr =>
      refine book_unchanged (fun k => ?_) rfl
      by_cases hk : k = req.publicKey
      · simp [Server.book, Store.get_put, entry, hk, hget]
      · simp [Server.book, Store.get_put, entry, hk]
  | renew hget hown hmember hlease =>
      refine book_unchanged (fun k => ?_) rfl
      simp only [Server.book, Store.get_renew]
      split
      · rename_i hk
        simp [hk, hget]
      · rfl
  | disown hadm hget hown hfail hr =>
      have := hok _ _ _ _ _ _ rfl hadm hget hown
      simp_all
  | @assign claims req pub expiry tenantID ip r hadm hget hfree hadd at' hr =>
      apply LeaseBook.Step.take req.publicKey (text ip)
      · simp [Server.book, hget]
      · exact Ipam.Allocator.free_not_used hfree
      · simp [Server.book, Store.get_put, entry]
      · intro k hk
        simp [Server.book, Store.get_put, entry, hk]
      · intro x
        simp [Server.book]

/-- Where an entry's address is from: the entry had it before, or it is the
one the pool would hand out next. -/
theorem ip_step (s : Server) (l : Call × Oracle) {k : String} {p : Peer}
    (h : (s.serve cfg l).store.get k = some p) :
    (∃ q, s.store.get k = some q ∧ q.ip = p.ip) ∨
      s.store.get k = none ∧ s.alloc.free = some p.ip := by
  obtain ⟨c, ω⟩ := l
  obtain ⟨r, s', hs', heff⟩ := exists_effect cfg ω s c
  rw [hs'] at h
  cases heff with
  | idle hr => exact Or.inl ⟨p, h, rfl⟩
  | install hr => exact Or.inl ⟨p, h, rfl⟩
  | tenants hkeep hr => exact Or.inl ⟨p, h, rfl⟩
  | disown hadm hget hown hfail hr => exact Or.inl ⟨p, h, rfl⟩
  | drop hr => exact Or.inl ⟨p, (get_dropAll_eq_some.mp h).1, rfl⟩
  | @reassign _ _ _ _ _ existing _ hadm hget hown hadd at' hr =>
      rw [Store.get_put] at h
      split at h
      · rename_i hk
        obtain rfl := Option.some.inj h
        exact Or.inl ⟨existing, hk ▸ hget, rfl⟩
      · exact Or.inl ⟨p, h, rfl⟩
  | assign hadm hget hfree hadd at' hr =>
      rw [Store.get_put] at h
      split at h
      · rename_i hk
        obtain rfl := Option.some.inj h
        exact Or.inr ⟨hk ▸ hget, hfree⟩
      · exact Or.inl ⟨p, h, rfl⟩
  | renew hget hown hmember hlease =>
      rw [Store.get_renew] at h
      split at h
      · rename_i hk
        obtain ⟨q, hq, rfl⟩ := Option.map_eq_some_iff.mp h
        exact Or.inl ⟨q, hk ▸ hq, rfl⟩
      · exact Or.inl ⟨p, h, rfl⟩

theorem network_step (s : Server) (l : Call × Oracle) :
    (s.serve cfg l).alloc.network = s.alloc.network := by
  obtain ⟨c, ω⟩ := l
  obtain ⟨r, s', hs', heff⟩ := exists_effect cfg ω s c
  rw [hs']
  cases heff with
  | drop hr => exact dropAll_network
  | _ => rfl

end Steps

/-- The entries' addresses and the pool's used addresses agree. -/
structure Accounted (c : Ipam.Cidr) (a : Ipam.Allocator) (s : Server) : Prop where
  used_iff : ∀ x, x ∈ s.alloc.used ↔
    x = text a.serverIP ∨ ∃ k p, s.store.get k = some p ∧ text p.ip = x
  distinct : ∀ k₁ k₂ p₁ p₂, s.store.get k₁ = some p₁ → s.store.get k₂ = some p₂ →
    k₁ ≠ k₂ → p₁.ip ≠ p₂.ip
  ne_gateway : ∀ k p, s.store.get k = some p → p.ip ≠ a.serverIP
  host : ∀ k p, s.store.get k = some p → c.Host p.ip

section Distinct

variable [GoText.CaseTables] {cfg : Config} {c : Ipam.Cidr} {a : Ipam.Allocator}
  {device : Device} {registry : Peers.Registry} {tenants : TenantStore}
  {calls : List (Call × Oracle)}

omit [GoText.CaseTables] in
theorem balanced_start (hnew : Ipam.new c = .ok a) :
    LeaseBook.Balanced {text a.serverIP} (Server.start a device registry tenants).book := by
  have hbook : (Server.start a device registry tenants).book =
      ⟨fun _ => none, {text a.serverIP}⟩ := by
    simp [Server.start, Server.book, (Ipam.new_eq_ok hnew).2]
  rw [hbook]
  exact .empty

theorem balanced_run (hnew : Ipam.new c = .ok a)
    (hrun : Server.Serves cfg (RepeatsSucceed cfg) (.start a device registry tenants) calls) :
    LeaseBook.Balanced {text a.serverIP}
      (Server.serveAll cfg (.start a device registry tenants) calls).book := by
  apply hrun.invariant fun s => LeaseBook.Balanced {text a.serverIP} s.book
  · intro s l h hok
    exact h.step (book_step hok)
  · exact balanced_start hnew

omit [GoText.CaseTables] in
theorem distinct_of_balanced {fixed : Set String} {s : Server}
    (h : LeaseBook.Balanced fixed s.book) {k₁ k₂ : String} {p₁ p₂ : Peer}
    (h₁ : s.store.get k₁ = some p₁) (h₂ : s.store.get k₂ = some p₂) (hne : k₁ ≠ k₂) :
    p₁.ip ≠ p₂.ip := by
  intro hip
  apply hne
  apply h.exclusive (Server.holds_eq_some.mpr ⟨p₁, h₁, rfl⟩)
  exact Server.holds_eq_some.mpr ⟨p₂, h₂, by rw [hip]⟩

/-- In every run whose repeated enrollments the device accepts, no two entries
have one address. -/
theorem entries_have_distinct_ips (hnew : Ipam.new c = .ok a)
    (hrun : Server.Serves cfg (RepeatsSucceed cfg) (.start a device registry tenants) calls)
    (k₁ k₂ : String) (p₁ p₂ : Peer)
    (h₁ : (Server.serveAll cfg (.start a device registry tenants) calls).store.get k₁ = some p₁)
    (h₂ : (Server.serveAll cfg (.start a device registry tenants) calls).store.get k₂ = some p₂)
    (hne : k₁ ≠ k₂) : p₁.ip ≠ p₂.ip :=
  distinct_of_balanced (balanced_run hnew hrun) h₁ h₂ hne

end Distinct

/-- Two peers enroll, the second after a first attempt that the device refuses. -/
private def retriedEnrollment : List (Call × Oracle) :=
  [(Sample.enroll "alice" Sample.key₁, Sample.oracle true true),
    (Sample.enroll "bob" Sample.key₂, Sample.oracle false true),
    (Sample.enroll "bob" Sample.key₂, Sample.oracle true true)]

attribute [local instance] GoText.asciiTables

theorem retried_enrollment_distinct_ips :
    ∃ p₁ p₂,
      (Sample.start.serveAll (Sample.config false) retriedEnrollment).store.get Sample.key₁ =
        some p₁ ∧
      (Sample.start.serveAll (Sample.config false) retriedEnrollment).store.get Sample.key₂ =
        some p₂ ∧
      p₁.ip ≠ p₂.ip := by
  obtain ⟨p₁, h₁⟩ : ∃ p, (Sample.start.serveAll (Sample.config false)
      retriedEnrollment).store.get Sample.key₁ = some p :=
    Option.isSome_iff_exists.mp (by decide +kernel)
  obtain ⟨p₂, h₂⟩ : ∃ p, (Sample.start.serveAll (Sample.config false)
      retriedEnrollment).store.get Sample.key₂ = some p :=
    Option.isSome_iff_exists.mp (by decide +kernel)
  have hrun : Sample.start.Serves (Sample.config false) (RepeatsSucceed (Sample.config false))
      retriedEnrollment := by
    refine ⟨?_, ?_, ?_, trivial⟩
    · intro _ _ _ _ _ _ _ _ _ _
      rfl
    · intro claims req pub expiry tenantID existing hcall hadm hget hown
      obtain ⟨rfl, hreq⟩ := Call.enroll.inj hcall
      obtain rfl := Except.ok.inj hreq
      exact absurd (hget.symm.trans (show _ = none by decide +kernel)) (by simp)
    · intro _ _ _ _ _ _ _ _ _ _
      rfl
  exact ⟨p₁, p₂, h₁, h₂,
    entries_have_distinct_ips Sample.new_pool hrun _ _ p₁ p₂ h₁ h₂ (by decide)⟩

/-- A repeated enrollment that the device refuses frees the address its entry
keeps, and the next peer gets the same one. -/
theorem refused_repetition_shares_address :
    let s := Sample.start.serveAll (Sample.config false)
      [(Sample.enroll "alice" Sample.key₁, Sample.oracle true true),
        (Sample.enroll "alice" Sample.key₁, Sample.oracle false true),
        (Sample.enroll "bob" Sample.key₂, Sample.oracle true true)]
    (s.store.get Sample.key₁).map Peer.ip = some [10, 80, 0, 2] ∧
      (s.store.get Sample.key₂).map Peer.ip = some [10, 80, 0, 2] ∧
      Sample.key₁ ≠ Sample.key₂ := by
  decide +kernel

section Accounts

variable [GoText.CaseTables] {cfg : Config} {c : Ipam.Cidr} {a : Ipam.Allocator}
  {device : Device} {registry : Peers.Registry} {tenants : TenantStore}
  {calls : List (Call × Oracle)}

theorem hosts_step (hc : c.Plain) {s : Server} (l : Call × Oracle)
    (h : s.alloc.network = c.network ∧ ∀ k p, s.store.get k = some p → c.Host p.ip) :
    (s.serve cfg l).alloc.network = c.network ∧
      ∀ k p, (s.serve cfg l).store.get k = some p → c.Host p.ip := by
  refine ⟨(network_step s l).trans h.1, ?_⟩
  intro k p hp
  rcases ip_step s l hp with ⟨q, hq, hip⟩ | ⟨-, hfree⟩
  · exact hip ▸ h.2 k q hq
  · exact Ipam.Allocator.free_host hc h.1 hfree

theorem hosts_run (hc : c.Plain) (hnew : Ipam.new c = .ok a) (k : String) (p : Peer)
    (hp : (Server.serveAll cfg (.start a device registry tenants) calls).store.get k = some p) :
    c.Host p.ip := by
  exact (run_invariant
    (fun s : Server => s.alloc.network = c.network ∧ ∀ k p, s.store.get k = some p → c.Host p.ip)
    (fun s l h => hosts_step hc l h)
    ⟨(Ipam.new_eq_ok hnew).1, by simp [Server.start]⟩ calls).2 k p hp

/-- An entry keeps its address from one call to the next, unless it is removed. -/
theorem ip_kept (s : Server) (l : Call × Oracle) {k : String} {p q : Peer}
    (hp : s.store.get k = some p) (hq : (s.serve cfg l).store.get k = some q) : q.ip = p.ip := by
  rcases ip_step s l hq with ⟨p', hp', hip⟩ | ⟨hnone, -⟩
  · rw [← hip, Option.some.inj (hp.symm.trans hp')]
  · simp [hp] at hnone

theorem ip_kept_run (s : Server) {k : String} {p : Peer} (hp : s.store.get k = some p)
    (hstay : ∀ n, (s.serveAll cfg (calls.take n)).store.get k ≠ none) :
    ∃ q, (s.serveAll cfg calls).store.get k = some q ∧ q.ip = p.ip := by
  induction calls generalizing s p with
  | nil => exact ⟨p, hp, rfl⟩
  | cons l rest ih =>
      obtain ⟨q, hq⟩ := Option.ne_none_iff_exists'.mp (hstay 1)
      obtain ⟨q', hq', hip⟩ := ih (s.serve cfg l) hq fun n => hstay (n + 1)
      exact ⟨q', hq', hip.trans (ip_kept s l hp hq)⟩

/-- In every run in which the device programs every peer it is given, the used
addresses are exactly the gateway's and the entries', all of them different
host addresses of the pool, and an entry keeps its address until its removal. -/
theorem addresses_accounted (hc : c.Plain) (hnew : Ipam.new c = .ok a)
    (hrun : Server.Serves cfg AddsSucceed (.start a device registry tenants) calls) :
    Accounted c a (Server.serveAll cfg (.start a device registry tenants) calls) ∧
      ∀ earlier later, calls = earlier ++ later → ∀ k p,
        (Server.serveAll cfg (.start a device registry tenants) earlier).store.get k = some p →
        (∀ n, (Server.serveAll cfg (.start a device registry tenants)
          (earlier ++ later.take n)).store.get k ≠ none) →
        ∃ q, (Server.serveAll cfg (.start a device registry tenants) calls).store.get k = some q ∧
          q.ip = p.ip := by
  have hbal := balanced_run hnew (hrun.mono fun s l h => h.repeatsSucceed)
  refine ⟨⟨?_, ?_, ?_, hosts_run hc hnew⟩, ?_⟩
  · intro x
    have htaken := hbal.taken_iff x
    simp only [Server.holds_eq_some] at htaken
    exact htaken
  · intro k₁ k₂ p₁ p₂ h₁ h₂ hne
    exact distinct_of_balanced hbal h₁ h₂ hne
  · intro k p hp hip
    exact hbal.not_fixed (Server.holds_eq_some.mpr ⟨p, hp, rfl⟩) (by rw [hip]; rfl)
  · rintro earlier later rfl k p hp hstay
    simp only [Server.serveAll, run_append] at hstay ⊢
    exact ip_kept_run _ hp hstay

end Accounts

/-- Two peers enroll, one of them again, and the other leaves although the
device does not let go of it. -/
private def enrollRepeatLeave : List (Call × Oracle) :=
  [(Sample.enroll "alice" Sample.key₁, Sample.oracle true true),
    (Sample.enroll "bob" Sample.key₂, Sample.oracle true true),
    (Sample.enroll "alice" Sample.key₁, Sample.oracle true true),
    (Sample.deregister "bob" Sample.key₂, Sample.oracle true false)]

theorem enroll_repeat_leave_accounted :
    Accounted Sample.pool Sample.alloc
      (Sample.start.serveAll (Sample.config false) enrollRepeatLeave) := by
  have hrun : Sample.start.Serves (Sample.config false) AddsSucceed enrollRepeatLeave :=
    ⟨fun _ => rfl, fun _ => rfl, fun _ => rfl, fun _ => rfl, trivial⟩
  have hplain : Sample.pool.Plain := show Sample.pool.addr.length = 4 from rfl
  exact (addresses_accounted hplain Sample.new_pool hrun).1

end Claimward.Api
