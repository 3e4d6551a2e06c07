import Claimward.Api.Ownership

/-!
# Peers without an entry

A peer that an enrollment put on the device should have an entry, or nothing
ever takes it off again. Removals delete the entry whatever the device says,
so this holds for runs whose failed removals leave nothing behind.
-/

namespace Claimward.Api

open AtomicProgram Inet Wg Runs

/-- The call put the key on the device: an enrollment of it that was granted. -/
def Event.Adds (e : Event) (pub : Key) : Prop :=
  ∃ claims req, e.call = .enroll claims (.ok req) ∧ parseKey req.publicKey = .ok pub ∧
    e.response.Grants

/-- Some call of the session put the key on the device. -/
def Session.Added (σ : Session) (pub : Key) : Prop := ∃ e ∈ σ.log, e.Adds pub

theorem Event.Adds.grants {e : Event} {pub : Key} (h : e.Adds pub) : e.response.Grants := by
  obtain ⟨-, -, -, -, hgrants⟩ := h
  exact hgrants

theorem Event.Adds.eq_of_enroll {e : Event} {pub pub' : Key} {claims : Claims}
    {req : EnrollRequest} (h : e.Adds pub') (hcall : e.call = .enroll claims (.ok req))
    (hkey : parseKey req.publicKey = .ok pub) : pub' = pub := by
  obtain ⟨claims', req', hcall', hkey', -⟩ := h
  obtain ⟨-, hreq⟩ := Call.enroll.inj (hcall'.symm.trans hcall)
  obtain rfl := Except.ok.inj hreq
  exact Except.ok.inj (hkey'.symm.trans hkey)

/-- The latest call added the key, or an earlier one. -/
theorem Session.Added.of_cons {s s' : Server} {e : Event} {log : List Event} {pub : Key}
    (h : Session.Added ⟨s', e :: log⟩ pub) : e.Adds pub ∨ Session.Added ⟨s, log⟩ pub := by
  obtain ⟨e', he, hadds⟩ := h
  rcases List.mem_cons.mp he with rfl | he
  · exact Or.inl hadds
  · exact Or.inr ⟨e', he, hadds⟩

/-- Whenever the device does not remove a peer, it does not have it, or another
entry spells its key. -/
def FailsHarmlessly : Server → List Peer → Stream' Bool → Prop
  | _, [], _ => True
  | s, p :: rest, oks =>
      (∀ pub, Spells p pub → oks.head = false →
        s.device.lookup pub = none ∨
          ∃ k q, s.store.get k = some q ∧ k ≠ p.publicKey ∧ Spells q pub) ∧
      FailsHarmlessly (s.drop p oks.head) rest (outcomesLeft p oks)

/-- Every key of the given ones that is on the device has an entry. -/
def NoOrphan (added : Key → Prop) (s : Server) : Prop :=
  ∀ pub, added pub → s.device.lookup pub ≠ none →
    ∃ k p, s.store.get k = some p ∧ parseKey k = .ok pub

section Steps

variable {added : Key → Prop} {s : Server}

theorem NoOrphan.mono {added' : Key → Prop} (h : NoOrphan added s)
    (hle : ∀ pub, added' pub → added pub) : NoOrphan added' s :=
  fun pub hadded hdev => h pub (hle pub hadded) hdev

theorem lookup_drop_ne_none {p : Peer} {ok : Bool} {pub : Key}
    (h : (s.drop p ok).device.lookup pub ≠ none) :
    s.device.lookup pub ≠ none ∧ (ok = true → ¬ Spells p pub) := by
  unfold Server.drop at h
  simp only at h
  split at h
  · rename_i key hkey
    split at h
    · rw [Device.lookup_removePeer] at h
      split at h
      · exact absurd rfl h
      · rename_i hne
        refine ⟨h, fun _ hspell => hne ?_⟩
        exact Except.ok.inj (hspell.symm.trans hkey)
    · rename_i hok
      exact ⟨h, fun htrue => absurd htrue hok⟩
  · rename_i msg hkey
    refine ⟨h, fun _ hspell => ?_⟩
    rw [Spells, hkey] at hspell
    exact absurd hspell (by simp)

theorem NoOrphan.drop (h : NoOrphan added s) {p : Peer} {ok : Bool}
    (hok : ∀ pub, Spells p pub → ok = false → s.device.lookup pub = none ∨
      ∃ k q, s.store.get k = some q ∧ k ≠ p.publicKey ∧ Spells q pub) :
    NoOrphan added (s.drop p ok) := by
  intro pub hadded hdev
  obtain ⟨hbefore, hremoved⟩ := lookup_drop_ne_none hdev
  -- An entry of another text stays; the removed one was not the last of its key.
  obtain ⟨k, q, hget, hne, hkey⟩ :
      ∃ k q, s.store.get k = some q ∧ k ≠ p.publicKey ∧ parseKey k = .ok pub := by
    obtain ⟨k, q, hget, hkey⟩ := h pub hadded hbefore
    by_cases hk : k = p.publicKey
    · subst hk
      cases ok with
      | true => exact absurd hkey (hremoved rfl)
      | false =>
          rcases hok pub hkey rfl with hnone | ⟨l, q', hl, hne, hspell⟩
          · exact absurd hnone hbefore
          · exact ⟨l, q', hl, hne, by rwa [Spells, Store.key_of_get hl] at hspell⟩
    · exact ⟨k, q, hget, hk, hkey⟩
  exact ⟨k, q, by simp [Server.drop, Store.get_delete, hne, hget], hkey⟩

theorem NoOrphan.dropAll (h : NoOrphan added s) {ps : List Peer} {oks : Stream' Bool}
    (hok : FailsHarmlessly s ps oks) : NoOrphan added (s.dropAll ps oks) := by
  induction ps generalizing s oks with
  | nil => exact h
  | cons p rest ih => exact ih (h.drop hok.1) hok.2

/-- An entry is written and its key programmed. -/
theorem NoOrphan.put (h : NoOrphan added s) {p : Peer} {pub : Key} {a : Ipam.Allocator} {ip : IP}
    (hp : Spells p pub) :
    NoOrphan (fun k => k = pub ∨ added k)
      { s with alloc := a, device := s.device.addPeer pub ip, store := s.store.put p } := by
  intro k hadded hdev
  by_cases hk : k = pub
  · exact ⟨p.publicKey, p, by simp [Store.get_put], hk ▸ hp⟩
  · rw [Device.lookup_addPeer, if_neg hk] at hdev
    have hbefore : s.device.lookup k ≠ none := fun hnone => hdev (by rw [hnone, Option.map_none])
    obtain ⟨l, q, hget, hkey⟩ := h k (hadded.resolve_left hk) hbefore
    have hl : l ≠ p.publicKey := by
      rintro rfl
      exact hk (Except.ok.inj (hkey.symm.trans hp))
    exact ⟨l, q, by simp [Store.get_put, hl, hget], hkey⟩

theorem NoOrphan.renew (h : NoOrphan added s) (key : String) (expiry : Time) :
    NoOrphan added { s with store := (s.store.renew key expiry).2 } := by
  intro pub hadded hdev
  obtain ⟨k, p, hget, hkey⟩ := h pub hadded hdev
  obtain ⟨e, he⟩ := Store.get_renew_of_get (k := key) (t := expiry) hget
  exact ⟨k, _, he, hkey⟩

/-- Deregistering a key that another entry spells leaves no orphan. -/
theorem failsHarmlessly_of_spelling {claims : Claims} {req : DeregisterRequest} {ω : Oracle}
    {oks : Stream' Bool} {k : String} (hk : (s.store.get k).isSome) (hne : k ≠ req.publicKey)
    (hkey : parseKey k = parseKey req.publicKey) :
    FailsHarmlessly s ((Call.deregister claims (.ok req)).dropped ω s) oks := by
  obtain ⟨q, hq⟩ := Option.isSome_iff_exists.mp hk
  simp only [Call.dropped]
  split
  · rename_i p hp
    split
    · refine ⟨fun pub hspell _ => Or.inr ⟨k, q, hq, ?_, ?_⟩, trivial⟩
      · rw [Store.key_of_get hp]
        exact hne
      · rw [Spells, Store.key_of_get hq, hkey, ← Store.key_of_get hp]
        exact hspell
    · trivial
  · trivial

end Steps

section Runs

variable [GoText.CaseTables] {cfg : Config}

/-- Every removal of the call that the device refuses is harmless. -/
def RefusalsHarmless (σ : Session) (l : Call × Oracle) : Prop :=
  FailsHarmlessly σ.server (l.1.dropped l.2 σ.server) l.2.removeOk

theorem noOrphan_step {σ : Session} {l : Call × Oracle} (h : NoOrphan σ.Added σ.server)
    (hok : RefusalsHarmless σ l) :
    NoOrphan (σ.serve cfg l).Added (σ.serve cfg l).server := by
  obtain ⟨c, ω⟩ := l
  obtain ⟨s, log⟩ := σ
  obtain ⟨r, s', hserve, heff⟩ := Session.exists_effect cfg ω s log c
  rw [hserve]
  -- A call that is no granted enrollment adds no key.
  have hsame : ¬ r.Grants → ∀ pub, Session.Added ⟨s', ⟨c, ω, s, r⟩ :: log⟩ pub →
      Session.Added ⟨s, log⟩ pub := by
    intro hr pub hpub
    exact hpub.of_cons.resolve_left fun hadds => hr hadds.grants
  cases heff with
  | idle hr => exact h.mono (hsame hr)
  | install hr => exact NoOrphan.mono h (hsame hr)
  | tenants hkeep hr => exact NoOrphan.mono h (hsame hr)
  | disown hadm hget hown hfail hr => exact NoOrphan.mono h (hsame hr)
  | drop hr => exact (h.dropAll hok).mono (hsame hr)
  | @reassign claims req pub expiry tenantID existing r hadm hget hown hadd at' hr =>
      exact (h.put (p := entry claims req expiry tenantID existing.ip at') hadm.parsed).mono
        fun k hk => hk.of_cons.imp_left fun hadds => hadds.eq_of_enroll rfl hadm.parsed
  | @assign claims req pub expiry tenantID ip r hadm hget hfree hadd at' hr =>
      exact (h.put (p := entry claims req expiry tenantID ip at') hadm.parsed).mono
        fun k hk => hk.of_cons.imp_left fun hadds => hadds.eq_of_enroll rfl hadm.parsed
  | @renew claims req existing expiry hget hown hmember hlease =>
      refine (h.renew req.publicKey expiry).mono fun pub hpub => ?_
      exact hpub.of_cons.resolve_left fun ⟨_, _, hcall, _, _⟩ => Call.noConfusion hcall

/-- In every run whose refused removals are harmless, a peer that the run put
on the device and that is still there has an entry. -/
theorem added_peers_have_entries {s : Server} {calls : List (Call × Oracle)}
    (hrun : Admissible (Session.serve cfg) RefusalsHarmless (.new s) calls) (pub : Key)
    (hadded : (Session.history cfg s calls).Added pub)
    (hdev : (Session.history cfg s calls).server.device.lookup pub ≠ none) :
    ∃ k p, (Session.history cfg s calls).server.store.get k = some p ∧
      parseKey k = .ok pub := by
  have h : NoOrphan (Session.history cfg s calls).Added (Session.history cfg s calls).server := by
    apply hrun.invariant fun σ => NoOrphan σ.Added σ.server
    · intro σ l h hok
      exact noOrphan_step h hok
    · rintro pub ⟨e, he, -⟩
      exact absurd he List.not_mem_nil
  exact h pub hadded hdev

end Runs

/-- Alice enrolls a key under two spellings and drops the second, which the
device refuses. -/
private def refusedSpelling : List (Call × Oracle) :=
  [(Sample.enroll "alice" Sample.key₁, Sample.oracle true true),
    (Sample.enroll "alice" Sample.alias₁, Sample.oracle true true),
    (Sample.deregister "alice" Sample.alias₁, Sample.oracle true false)]

attribute [local instance] GoText.asciiTables

theorem refused_spelling_keeps_entry :
    ∃ k p, (Session.history (Sample.config false) Sample.start refusedSpelling).server.store.get
      k = some p ∧ parseKey k = .ok Sample.bytes₁ := by
  have hrun : Admissible (Session.serve (Sample.config false)) RefusalsHarmless
      (.new Sample.start) refusedSpelling := by
    refine ⟨trivial, trivial, ?_, trivial⟩
    exact failsHarmlessly_of_spelling (k := Sample.key₁) (by decide +kernel) (by decide)
      (by decide +kernel)
  apply added_peers_have_entries hrun
  · exact ⟨_, List.mem_cons_of_mem _ List.mem_cons_self, _, _, rfl, by decide +kernel,
      by decide +kernel⟩
  · decide +kernel

/-- Alice leaves, the device refuses to remove the peer, and no entry is left
that stands for it. -/
theorem refused_removal_leaves_orphan :
    let σ := Session.history (Sample.config false) Sample.start
      [(Sample.enroll "alice" Sample.key₁, Sample.oracle true true),
        (Sample.deregister "alice" Sample.key₁, Sample.oracle true false)]
    σ.Added Sample.bytes₁ ∧
      σ.server.device.lookup Sample.bytes₁ = some [hostNet [10, 80, 0, 2]] ∧
      ¬ ∃ k p, σ.server.store.get k = some p ∧ parseKey k = .ok Sample.bytes₁ := by
  intro σ
  refine ⟨?_, by decide +kernel, ?_⟩
  · exact ⟨_, List.mem_cons_of_mem _ List.mem_cons_self, _, _, rfl, by decide +kernel,
      by decide +kernel⟩
  · rintro ⟨k, p, hget, -⟩
    have hlist : σ.server.store.list = [] := by decide +kernel
    have hmem := Store.mem_list_of_get hget
    rw [hlist] at hmem
    exact absurd hmem List.not_mem_nil

end Claimward.Api
