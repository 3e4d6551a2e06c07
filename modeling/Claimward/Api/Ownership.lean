import Claimward.Api.Addresses

/-!
# Whose a key is, on the device

Ownership is checked on the text of a key, the device is programmed with the
bytes. Several texts spell the same bytes, so what an owner may rely on holds
for runs in which spellings do not get in each other's way.
-/

namespace Claimward.Api

open AtomicProgram Inet Wg Runs

/-- The entry's text stands for the key. -/
def Spells (p : Peer) (pub : Key) : Prop := parseKey p.publicKey = .ok pub

/-- A request made by the subject. -/
def Call.By (subject : String) : Call → Prop
  | .enroll claims _ => claims.subject = subject
  | .heartbeat claims _ => claims.subject = subject
  | .deregister claims _ => claims.subject = subject
  | _ => False

/-- No entry is removed while one that stays spells the same key. -/
def RemovesLastSpelling (s : Server) (l : Call × Oracle) : Prop :=
  ∀ p ∈ l.1.dropped l.2 s, ∀ k q, s.store.get k = some q → q ∉ l.1.dropped l.2 s →
    ∀ pub, Spells p pub → ¬ Spells q pub

/-- No enrollment, once past its checks, names a key that an entry of another
subject spells differently. -/
def RespectsSpellings [GoText.CaseTables] (cfg : Config) (s : Server) (l : Call × Oracle) : Prop :=
  ∀ claims req pub expiry tenantID, l.1 = .enroll claims (.ok req) →
    Admitted cfg s l.2.clock claims req pub expiry tenantID →
    ∀ k q, s.store.get k = some q → q.subject ≠ claims.subject → k ≠ req.publicKey →
      parseKey k ≠ .ok pub

/-- Every entry's key is on the device, with the address of an entry that
spells it. -/
def Programmed (s : Server) : Prop :=
  ∀ k p, s.store.get k = some p → ∃ pub l q, Spells p pub ∧ s.store.get l = some q ∧
    Spells q pub ∧ s.device.lookup pub = some [hostNet q.ip]

/-- Programming a peer at an address that no entry of another key has leaves
the peers of the other entries as they are. -/
theorem lookup_addPeer_other {s : Server} {pub k : Key} {ip : IP} {q : Peer}
    (hk : k ≠ pub) (hq : s.device.lookup k = some [hostNet q.ip]) (hip : q.ip ≠ ip) :
    (s.device.addPeer pub ip).lookup k = some [hostNet q.ip] := by
  apply Device.lookup_addPeer_of_not_mem hk hq
  intro hmem
  exact hip (congrArg IPNet.ip (List.mem_singleton.mp hmem)).symm

section Steps

variable [GoText.CaseTables] {cfg : Config} {fixed : Set String}

theorem reliable_repeatsSucceed {s : Server} {l : Call × Oracle} (h : l.2.Reliable) :
    RepeatsSucceed cfg s l := by
  intro _ _ _ _ _ _ _ _ _ _
  exact h.addOk 0

omit [GoText.CaseTables] in
/-- After an entry is written and its key programmed at its address, every
entry is programmed, if those of other keys have other addresses. -/
theorem Programmed.put {s : Server} (h : Programmed s) {p : Peer} {pub : Key} {a : Ipam.Allocator}
    (hp : Spells p pub)
    (hip : ∀ k q, s.store.get k = some q → k ≠ p.publicKey → q.ip ≠ p.ip) :
    Programmed { s with
      alloc := a, device := s.device.addPeer pub p.ip, store := s.store.put p } := by
  intro k q hq
  by_cases hpub : Spells q pub
  · refine ⟨pub, p.publicKey, p, hpub, ?_, hp, ?_⟩
    · simp [Store.get_put]
    · simp [Device.lookup_addPeer]
  · have hqp : q ≠ p := by
      rintro rfl
      exact hpub hp
    simp only [Store.get_put] at hq
    split at hq
    · exact absurd (Option.some.inj hq).symm hqp
    · obtain ⟨pub', l, q', hspell, hget, hspell', hdev⟩ := h k q hq
      have hne : pub' ≠ pub := by
        rintro rfl
        exact hpub hspell
      have hl : l ≠ p.publicKey := by
        rintro rfl
        have hkey := Store.key_of_get hget
        rw [Spells, hkey, hp] at hspell'
        exact hne (Except.ok.inj hspell').symm
      refine ⟨pub', l, q', hspell, ?_, hspell', lookup_addPeer_other hne hdev (hip l q' hget hl)⟩
      simp [Store.get_put, hl, hget]

omit [GoText.CaseTables] in
theorem Programmed.dropAll {s : Server} (h : Programmed s) {c : Call} {ω : Oracle}
    (hlast : RemovesLastSpelling s (c, ω)) :
    Programmed (s.dropAll (c.dropped ω s) ω.removeOk) := by
  intro k q hq
  obtain ⟨hget, hstay⟩ := get_dropAll_eq_some.mp hq
  obtain ⟨pub, l, q', hspell, hget', hspell', hdev⟩ := h k q hget
  have hq_stays : q ∉ c.dropped ω s := by
    intro hmem
    exact hstay (Store.key_of_get hget ▸ List.mem_map_of_mem hmem)
  have hnone : ∀ p ∈ c.dropped ω s, ¬ Spells p pub := by
    intro p hp hpub
    exact hlast p hp k q hget hq_stays pub hpub hspell
  refine ⟨pub, l, q', hspell, get_dropAll_eq_some.mpr ⟨hget', ?_⟩, hspell', ?_⟩
  · intro hmem
    obtain ⟨p, hp, rfl⟩ := List.mem_map.mp hmem
    have hpq : p = q' := Option.some.inj ((get_of_mem_dropped hp).symm.trans hget')
    exact hnone p hp (hpq ▸ hspell')
  · rw [lookup_dropAll_of_ne hnone, hdev]

omit [GoText.CaseTables] in
theorem ip_ne_of_free {s : Server} (hbal : LeaseBook.Balanced fixed s.book) {ip : IP}
    (hfree : s.alloc.free = some ip) {k : String} {q : Peer} (hq : s.store.get k = some q) :
    q.ip ≠ ip := by
  rintro rfl
  apply Ipam.Allocator.free_not_used hfree
  exact (hbal.taken_iff _).mpr (Or.inr ⟨k, Server.holds_eq_some.mpr ⟨q, hq, rfl⟩⟩)

theorem Programmed.step {s : Server} (h : Programmed s)
    (hbal : LeaseBook.Balanced fixed s.book) {l : Call × Oracle}
    (hlast : RemovesLastSpelling s l) : Programmed (s.serve cfg l) := by
  obtain ⟨c, ω⟩ := l
  obtain ⟨r, s', hs', heff⟩ := exists_effect cfg ω s c
  rw [hs']
  cases heff with
  | idle hr => exact h
  | install hr => exact h
  | tenants hkeep hr => exact h
  | disown hadm hget hown hfail hr => exact h
  | drop hr => exact h.dropAll hlast
  | @reassign claims req pub expiry tenantID existing r hadm hget hown hadd at' hr =>
      apply h.put (p := entry claims req expiry tenantID existing.ip at') (a := s.alloc) hadm.parsed
      intro k q hq hk
      have hne : q.ip ≠ existing.ip := distinct_of_balanced hbal hq hget hk
      exact hne
  | @assign claims req pub expiry tenantID ip r hadm hget hfree hadd at' hr =>
      apply h.put (p := entry claims req expiry tenantID ip at') hadm.parsed
      intro k q hq _
      exact ip_ne_of_free hbal hfree hq
  | @renew claims req existing expiry hget hown hmember hlease =>
      intro k q hq
      obtain ⟨p, hp, hqp⟩ := Store.get_of_get_renew hq
      obtain ⟨pub, m, p', hspell, hget', hspell', hdev⟩ := h k p hp
      obtain ⟨e, he⟩ := Store.get_renew_of_get (k := req.publicKey) (t := expiry) hget'
      exact ⟨pub, m, _, by rw [hqp]; exact hspell, he, hspell', hdev⟩

omit [GoText.CaseTables] in
theorem subject_of_mem_dropped {s : Server} {c : Call} {ω : Oracle} {subject : String}
    (hby : c.By subject) {p : Peer} (hp : p ∈ c.dropped ω s) : p.subject = subject := by
  cases c with
  | deregister claims body =>
      cases body with
      | error msg => exact absurd hp List.not_mem_nil
      | ok req =>
          simp only [Call.dropped] at hp
          split at hp
          · split at hp
            · rename_i hown
              rw [List.mem_singleton.mp hp, hown]
              exact hby
            · exact absurd hp List.not_mem_nil
          · exact absurd hp List.not_mem_nil
  | enroll claims body => exact absurd hp List.not_mem_nil
  | heartbeat claims body => exact absurd hp List.not_mem_nil
  | _ => exact hby.elim

omit [GoText.CaseTables] in
theorem key_ne_of_subject {s : Server} {subject k k' : String} {e e' : Peer}
    (he : s.store.get k = some e) (hother : e.subject ≠ subject)
    (he' : s.store.get k' = some e') (hown : e'.subject = subject) : k ≠ k' := by
  rintro rfl
  rw [Option.some.inj (he.symm.trans he')] at hother
  exact hother hown

omit [GoText.CaseTables] in
/-- What a caller drops is neither the entry of another nor the peer of one. -/
theorem other_kept_drop {s : Server} {c : Call} {ω : Oracle} {subject k : String} {e : Peer}
    {pub : Key} (hby : c.By subject) (hlast : RemovesLastSpelling s (c, ω))
    (he : s.store.get k = some e) (hother : e.subject ≠ subject) (hpub : parseKey k = .ok pub) :
    (s.dropAll (c.dropped ω s) ω.removeOk).store.get k = some e ∧
      (s.dropAll (c.dropped ω s) ω.removeOk).device.lookup pub = s.device.lookup pub := by
  have hstay : ∀ p ∈ c.dropped ω s, p ≠ e := by
    rintro p hp rfl
    exact hother (subject_of_mem_dropped hby hp)
  constructor
  · refine get_dropAll_eq_some.mpr ⟨he, fun hmem => ?_⟩
    obtain ⟨p, hp, rfl⟩ := List.mem_map.mp hmem
    exact hstay p hp (Option.some.inj ((get_of_mem_dropped hp).symm.trans he))
  · refine lookup_dropAll_of_ne fun p hp hp' => ?_
    refine hlast p hp k e he (fun hmem => hstay e hmem rfl) pub hp' ?_
    rw [Spells, Store.key_of_get he, hpub]

/-- A call that keeps to its own spellings leaves the entries of others, and
their peers, as they are. -/
theorem others_kept_step {s : Server} (h : Programmed s)
    (hbal : LeaseBook.Balanced fixed s.book) {l : Call × Oracle} {subject : String}
    (hby : l.1.By subject) (hlast : RemovesLastSpelling s l) (hspell : RespectsSpellings cfg s l)
    {k : String} {e : Peer} (he : s.store.get k = some e) (hother : e.subject ≠ subject) :
    (s.serve cfg l).store.get k = some e ∧ ∃ pub nets, parseKey k = .ok pub ∧
      s.device.lookup pub = some nets ∧ (s.serve cfg l).device.lookup pub = some nets := by
  obtain ⟨pub, m, q, hpub, hget', hspell', hdev⟩ := h k e he
  rw [Spells, Store.key_of_get he] at hpub
  obtain ⟨c, ω⟩ := l
  obtain ⟨r, s', hs', heff⟩ := exists_effect cfg ω s c
  rw [hs']
  cases heff with
  | idle hr => exact ⟨he, pub, _, hpub, hdev, hdev⟩
  | install hr => exact ⟨he, pub, _, hpub, hdev, hdev⟩
  | tenants hkeep hr => exact ⟨he, pub, _, hpub, hdev, hdev⟩
  | disown hadm hget hown hfail hr => exact ⟨he, pub, _, hpub, hdev, hdev⟩
  | drop hr =>
      obtain ⟨hget, hlookup⟩ := other_kept_drop hby hlast he hother hpub
      exact ⟨hget, pub, _, hpub, hdev, hlookup.trans hdev⟩
  | @reassign claims req pub' expiry tenantID existing r hadm hget hown hadd at' hr =>
      have hk : k ≠ req.publicKey := key_ne_of_subject he hother hget (hown.trans hby)
      have hkeys := hspell _ _ _ _ _ rfl hadm k e he (fun h => hother (h.trans hby)) hk
      rw [hpub] at hkeys
      have hm : m ≠ req.publicKey := by
        rintro rfl
        rw [Spells, Store.key_of_get hget', hadm.parsed] at hspell'
        exact hkeys hspell'.symm
      have hip : q.ip ≠ existing.ip := distinct_of_balanced hbal hget' hget hm
      refine ⟨?_, pub, _, hpub, hdev, lookup_addPeer_other (fun h => hkeys (by rw [h])) hdev hip⟩
      simp [Store.get_put, entry, hk, he]
  | @assign claims req pub' expiry tenantID ip r hadm hget hfree hadd at' hr =>
      have hk : k ≠ req.publicKey := by
        rintro rfl
        simp [hget] at he
      have hkeys := hspell _ _ _ _ _ rfl hadm k e he (fun h => hother (h.trans hby)) hk
      rw [hpub] at hkeys
      have hip : q.ip ≠ ip := ip_ne_of_free hbal hfree hget'
      refine ⟨?_, pub, _, hpub, hdev, lookup_addPeer_other (fun h => hkeys (by rw [h])) hdev hip⟩
      simp [Store.get_put, entry, hk, he]
  | @renew claims req existing expiry hget hown hmember hlease =>
      have hk : k ≠ req.publicKey := key_ne_of_subject he hother hget (hown.trans hby)
      refine ⟨?_, pub, _, hpub, hdev, hdev⟩
      simp [Store.get_renew, hk, he]

end Steps

section Runs

variable [GoText.CaseTables] {cfg : Config} {c : Ipam.Cidr} {a : Ipam.Allocator}
  {device : Device} {registry : Peers.Registry} {tenants : TenantStore}
  {calls : List (Call × Oracle)}

theorem programmed_run (hnew : Ipam.new c = .ok a)
    (hrun : Server.Serves cfg (fun s l => l.2.Reliable ∧ RemovesLastSpelling s l)
      (.start a device registry tenants) calls) :
    Programmed (Server.serveAll cfg (.start a device registry tenants) calls) := by
  apply And.right
  apply hrun.invariant fun s =>
    LeaseBook.Balanced {text a.serverIP} s.book ∧ Programmed s
  · rintro s l ⟨hbal, hprog⟩ ⟨hω, hlast⟩
    exact ⟨hbal.step (book_step (reliable_repeatsSucceed hω)), hprog.step hbal hlast⟩
  · refine ⟨balanced_start hnew, ?_⟩
    intro k p hp
    simp [Server.start] at hp

/-- In every state reached with a device that never fails, a request that
keeps to its own spellings leaves the entries of other subjects and their
peers on the device as they are. -/
theorem others_keep_their_keys (hnew : Ipam.new c = .ok a)
    (hrun : Server.Serves cfg (fun s l => l.2.Reliable ∧ RemovesLastSpelling s l)
      (.start a device registry tenants) calls)
    (request : Call) (ω : Oracle) (subject : String) (hby : request.By subject)
    (hlast : RemovesLastSpelling
      (Server.serveAll cfg (.start a device registry tenants) calls) (request, ω))
    (hspell : RespectsSpellings cfg
      (Server.serveAll cfg (.start a device registry tenants) calls) (request, ω))
    (k : String) (e : Peer)
    (he : (Server.serveAll cfg (.start a device registry tenants) calls).store.get k = some e)
    (hother : e.subject ≠ subject) :
    ((Server.serveAll cfg (.start a device registry tenants) calls).serve cfg
        (request, ω)).store.get k = some e ∧
      ∃ pub nets, parseKey k = .ok pub ∧
        (Server.serveAll cfg (.start a device registry tenants) calls).device.lookup pub =
          some nets ∧
        ((Server.serveAll cfg (.start a device registry tenants) calls).serve cfg
          (request, ω)).device.lookup pub = some nets := by
  have hbal := balanced_run hnew (hrun.mono fun s l h => reliable_repeatsSucceed h.1)
  exact others_kept_step (programmed_run hnew hrun) hbal hby hlast hspell he hother

end Runs

attribute [local instance] GoText.asciiTables

/-- Bob enrolls beside Alice. -/
theorem enrollment_beside_another :
    let s := Sample.start.serveAll (Sample.config false)
      [(Sample.enroll "alice" Sample.key₁, Sample.oracle true true)]
    let s' := s.serve (Sample.config false)
      (Sample.enroll "bob" Sample.key₂, Sample.oracle true true)
    ∃ e pub nets, s.store.get Sample.key₁ = some e ∧ s'.store.get Sample.key₁ = some e ∧
      parseKey Sample.key₁ = .ok pub ∧ s.device.lookup pub = some nets ∧
      s'.device.lookup pub = some nets := by
  intro s s'
  obtain ⟨e, he⟩ : ∃ e, s.store.get Sample.key₁ = some e :=
    Option.isSome_iff_exists.mp (by decide +kernel)
  have hlist : ∀ q ∈ s.store.list,
      q.subject = "alice" ∧ parseKey q.publicKey ≠ parseKey Sample.key₂ := by
    decide +kernel
  have hrun : Sample.start.Serves (Sample.config false)
      (fun s l => l.2.Reliable ∧ RemovesLastSpelling s l)
      [(Sample.enroll "alice" Sample.key₁, Sample.oracle true true)] := by
    refine ⟨⟨Sample.reliable, ?_⟩, trivial⟩
    intro p hp
    exact absurd hp List.not_mem_nil
  have hspell : RespectsSpellings (Sample.config false) s
      (Sample.enroll "bob" Sample.key₂, Sample.oracle true true) := by
    intro claims req pub expiry tenantID hcall hadm k q hq _ _
    obtain ⟨rfl, hreq⟩ := Call.enroll.inj hcall
    obtain rfl := Except.ok.inj hreq
    rw [← Store.key_of_get hq, ← hadm.parsed]
    exact (hlist q (Store.mem_list_of_get hq)).2
  have hlast : RemovesLastSpelling s (Sample.enroll "bob" Sample.key₂,
      Sample.oracle true true) := by
    intro p hp
    exact absurd hp List.not_mem_nil
  have hother : e.subject ≠ "bob" := by
    rw [(hlist e (Store.mem_list_of_get he)).1]
    decide
  obtain ⟨hget, pub, nets, hkey, hbefore, hafter⟩ :=
    others_keep_their_keys Sample.new_pool hrun (Sample.enroll "bob" Sample.key₂)
      (Sample.oracle true true) "bob" rfl hlast hspell Sample.key₁ e he hother
  exact ⟨e, pub, nets, he, hget, hkey, hbefore, hafter⟩

/-- Mallory enrolls Alice's key under another spelling, and the device moves
Alice's peer to Mallory's address. -/
theorem alias_moves_peer :
    let s := Sample.start.serveAll (Sample.config false)
      [(Sample.enroll "alice" Sample.key₁, Sample.oracle true true)]
    let s' := s.serve (Sample.config false)
      (Sample.enroll "mallory" Sample.alias₁, Sample.oracle true true)
    (s.store.get Sample.key₁).map Peer.subject = some "alice" ∧
      parseKey Sample.key₁ = .ok Sample.bytes₁ ∧
      s.device.lookup Sample.bytes₁ = some [hostNet [10, 80, 0, 2]] ∧
      s'.device.lookup Sample.bytes₁ = some [hostNet [10, 80, 0, 3]] := by
  decide +kernel

end Claimward.Api
