import Claimward.Api.Rules
import Claimward.Api.Threads

/-!
# The stages of an enrollment

An enrollment reads the registry, the tenants and the clock until it asks the
store for the key. If there is an entry, it is refused or reuses the entry's
address; if there is none, it takes an address from the pool. Then it programs
the device and writes the entry, and what follows only reads again.

Each stage is a predicate on the rest of the program. The lemmas say what one
action and what the whole rest does from a stage, on a device that never fails.
-/

namespace Claimward.Api

open AtomicProgram AtomicProgram.Program Inet Wg Peers

/-- The actions that leave the server alone and read no more of it than the
registry and the tenants. -/
def Action.Local : Action → Prop
  | .now => True
  | .lookup _ => True
  | .tenantsFor _ => True
  | .isMember _ _ => True
  | .routes _ => True
  | _ => False

/-- The refusal for want of a free address. -/
def Response.Exhausted (r : Response) : Prop := ∃ msg, r = .refused 503 "pool_exhausted" msg

/-- Any other answer. -/
def Response.Served (r : Response) : Prop := ¬ r.Exhausted

/-- Only local actions are left, and the answer will have the property. -/
def Finishing (P : Response → Prop) : Handler Response → Prop
  | .ret v => P v
  | .act a next => a.Local ∧ ∀ r, Finishing P (next r)

/-- The call has an address for the key and goes on to program the device and
to write the entry. -/
def Writing (key subject : String) (ip : IP) : Handler Response → Prop
  | .act (.addPeer pub ip') next =>
      parseKey key = .ok pub ∧ ip' = ip ∧ Writing key subject ip (next true)
  | .act .now next => ∀ t, Writing key subject ip (next t)
  | .act (.storePut e) next =>
      e.publicKey = key ∧ e.subject = subject ∧ e.ip = ip ∧ Finishing Response.Served (next ())
  | _ => False

/-- The call has found no entry for the key and takes an address next. -/
def Allocating (key : String) : Handler Response → Prop
  | .act .allocate next =>
      (∀ msg, Finishing Response.Exhausted (next (.error msg))) ∧
        ∃ subject, ∀ ip, Writing key subject ip (next (.ok ip))
  | _ => False

/-- The call has not asked the store yet, or has nothing more to do there. Of an
entry it looks at the subject and the address only. -/
def Entering (key : String) : Handler Response → Prop
  | .ret v => v.Served
  | .act (.storeGet k) next =>
      k = key ∧ Allocating key (next none) ∧
        (∀ e : Peer,
          Finishing Response.Served (next (some e)) ∨ Writing key e.subject e.ip (next (some e))) ∧
        ∀ e e' : Peer, e.subject = e'.subject → e.ip = e'.ip → next (some e) = next (some e')
  | .act a next => a.Local ∧ ∀ r, Entering key (next r)

/-- The rest of an enrollment of the key, at any stage. -/
def Enrolling (key : String) (p : Handler Response) : Prop :=
  Entering key p ∨ Allocating key p ∨ (∃ subject ip, Writing key subject ip p) ∨
    Finishing Response.Exhausted p

theorem Response.served_of_code {status : ℕ} {code msg : String} (h : code ≠ "pool_exhausted") :
    (Response.refused status code msg).Served := by
  rintro ⟨msg', heq⟩
  injection heq with _ hcode _
  exact h hcode

theorem Response.served_enrolled (r : EnrollResponse) : (Response.enrolled r).Served := by
  rintro ⟨msg, heq⟩
  exact Response.noConfusion heq

theorem Response.served_aborted : Response.aborted.Served := by
  rintro ⟨msg, heq⟩
  exact Response.noConfusion heq

theorem Response.Early.served {r : Response} (h : r.Early) : r.Served := by
  rintro ⟨msg, rfl⟩
  exact h rfl

theorem entering_of_finishing {key : String} {p : Handler Response}
    (h : Finishing Response.Served p) : Entering key p := by
  induction p with
  | ret v => exact h
  | act a next ih =>
      cases a with
      | storeGet k => exact h.1.elim
      | _ => exact ⟨h.1, fun r => ih r (h.2 r)⟩

/-- What is left before the store is asked is local, up to asking. -/
theorem Entering.local_or_get {key : String} {a : Action} {next : Reply a → Handler Response}
    (h : Entering key (.act a next)) :
    (a.Local ∧ ∀ r, Entering key (next r)) ∨ a = .storeGet key := by
  cases a with
  | storeGet k => exact Or.inr (by rw [h.1])
  | _ => exact Or.inl h

section Programs

variable (cfg : Config) (claims : Claims)

theorem writing_enrollPeer {req : EnrollRequest} {pub : Key} {expiry : Time} {tenantID : String}
    (ip : IP) (hkey : parseKey req.publicKey = .ok pub) :
    Writing req.publicKey claims.subject ip
      (enrollPeer cfg claims req pub expiry tenantID ip) := by
  refine ⟨hkey, rfl, ?_⟩
  intro enrolledAt
  refine ⟨rfl, rfl, rfl, trivial, ?_⟩
  intro routes
  cases routes with
  | none => exact Response.served_aborted
  | some rs => exact Response.served_enrolled _

theorem entering_enrollAddress {req : EnrollRequest} {pub : Key} {expiry : Time}
    {tenantID : String} (hkey : parseKey req.publicKey = .ok pub) :
    Entering req.publicKey (enrollAddress cfg claims req pub expiry tenantID) := by
  refine ⟨rfl, ⟨fun msg => ⟨msg, rfl⟩, claims.subject, fun ip => ?_⟩, ?_, ?_⟩
  · exact writing_enrollPeer cfg claims ip hkey
  · intro e
    change Finishing Response.Served (if e.subject ≠ claims.subject then _ else _) ∨
      Writing req.publicKey e.subject e.ip (if e.subject ≠ claims.subject then _ else _)
    by_cases hown : e.subject = claims.subject
    · rw [if_neg (not_not.mpr hown), hown]
      exact Or.inr (writing_enrollPeer cfg claims e.ip hkey)
    · rw [if_pos hown]
      exact Or.inl (Response.served_of_code (by decide))
  · intro e e' hsubject hip
    change (if e.subject ≠ claims.subject then _ else enrollPeer _ _ _ _ _ _ e.ip) =
      (if e'.subject ≠ claims.subject then _ else enrollPeer _ _ _ _ _ _ e'.ip)
    rw [hsubject, hip]

/-- Every enrollment starts before the store. -/
theorem entering_handleEnroll (req : EnrollRequest) :
    Entering req.publicKey (handleEnroll cfg claims (.ok req)) := by
  apply handleEnroll_rule
  · exact fun r hr => hr.served
  · exact fun next ih => ⟨trivial, ih⟩
  · exact fun key next ih => ⟨trivial, ih⟩
  · rintro req' pub expiry next ⟨⟩ hkey hnext
    refine ⟨trivial, fun ts => ?_⟩
    rcases hnext ts with ⟨r, hr, heq⟩ | ⟨tenantID, -, heq⟩
    · rw [heq]
      exact hr.served
    · rw [heq]
      exact entering_enrollAddress cfg claims hkey

end Programs

/-- Where both orders are still open: nothing has been asked yet, the pool is
exhausted, or the entry of the key is being reused. -/
def Ready (key : String) (s : Server) (p : Handler Response) : Prop :=
  Entering key p ∨
    (s.store.get key = none ∧ s.alloc.free = none ∧
      (Allocating key p ∨ Finishing Response.Exhausted p)) ∨
    ∃ e, s.store.get key = some e ∧ Writing key e.subject e.ip p

theorem Ready.enrolling {key : String} {s : Server} {p : Handler Response}
    (h : Ready key s p) : Enrolling key p := by
  rcases h with hent | ⟨-, -, halloc | hfin⟩ | ⟨e, -, hwrite⟩
  · exact Or.inl hent
  · exact Or.inr (Or.inl halloc)
  · exact Or.inr (Or.inr (Or.inr hfin))
  · exact Or.inr (Or.inr (Or.inl ⟨_, _, hwrite⟩))

/-- The entry of the key has the subject and the address. -/
def Server.Owned (key subject : String) (ip : IP) (s : Server) : Prop :=
  ∃ e, s.store.get key = some e ∧ e.subject = subject ∧ e.ip = ip

/-- The server with a peer on the device. -/
def Server.withPeer (s : Server) (pub : Key) (ip : IP) : Server :=
  { s with device := s.device.addPeer pub ip }

/-- The registry and the tenants are the same. -/
def Server.Agrees (s s' : Server) : Prop :=
  s'.registry = s.registry ∧ s'.tenants = s.tenants

section Runs

variable [GoText.CaseTables] {key subject : String} {ip : IP} {s s' : Server} {ω : Oracle}
  {p : Handler Response}

section Actions

variable {a : Action} {next : Reply a → Handler Response}

/-- A local action does the same in servers that agree. -/
theorem exec_local (ha : a.Local) (h : s.Agrees s') :
    exec a ω s' = ((exec a ω s).1, (exec a ω s).2.1, s') := by
  obtain ⟨hregistry, htenants⟩ := h
  cases a with
  | now => rfl
  | lookup k => simp only [exec, hregistry]
  | tenantsFor m => simp only [exec, htenants]
  | isMember id m => simp only [exec, htenants]
  | routes id => simp only [exec, htenants]
  | _ => exact ha.elim

theorem exec_local_state (ha : a.Local) : (exec a ω s).2.2 = s := by
  rw [exec_local ha ⟨rfl, rfl⟩]

theorem exec_addPeer (hω : ω.Reliable) (pub : Key) (ip : IP) :
    (exec (.addPeer pub ip) ω s).1 = true ∧
      (exec (.addPeer pub ip) ω s).2.2 = s.withPeer pub ip := by
  have hadd : ω.addOk.head = true := hω.addOk 0
  simp only [exec, hadd, if_true, Server.withPeer, and_self]

/-- The next action of a call that has its address: the device, the clock, or
the entry. -/
theorem Writing.act (h : Writing key subject ip (.act a next)) (hω : ω.Reliable) :
    (∃ pub, a = .addPeer pub ip ∧ parseKey key = .ok pub ∧
      Writing key subject ip (next (exec a ω s).1)) ∨
    (a = .now ∧ Writing key subject ip (next (exec a ω s).1)) ∨
    ∃ e, a = .storePut e ∧ e.publicKey = key ∧ e.subject = subject ∧ e.ip = ip ∧
      Finishing Response.Served (next (exec a ω s).1) := by
  cases a with
  | addPeer pub ip' =>
      obtain ⟨hkey, rfl, hnext⟩ := h
      refine Or.inl ⟨pub, rfl, hkey, ?_⟩
      rw [(exec_addPeer hω pub ip').1]
      exact hnext
  | now => exact Or.inr (Or.inl ⟨rfl, h _⟩)
  | storePut e => exact Or.inr (Or.inr ⟨e, rfl, h⟩)
  | _ => exact h.elim

/-- The call takes an address, if there is one. -/
theorem Allocating.act (h : Allocating key (.act a next)) :
    a = .allocate ∧
      (s.alloc.free = none →
        Finishing Response.Exhausted (next (exec a ω s).1) ∧ (exec a ω s).2.2 = s) ∧
      ∀ ip, s.alloc.free = some ip →
        (∃ subject, Writing key subject ip (next (exec a ω s).1)) ∧
          (exec a ω s).2.2 =
            { s with alloc := { s.alloc with used := insert (text ip) s.alloc.used } } := by
  cases a with
  | allocate =>
      obtain ⟨herror, subject, hok⟩ := h
      refine ⟨rfl, fun hfree => ?_, fun ip hfree => ?_⟩
      · simp only [exec, Ipam.Allocator.allocate_of_exhausted hfree, and_true]
        exact herror _
      · simp only [exec, Ipam.Allocator.allocate_of_free hfree, and_true]
        exact ⟨subject, hok ip⟩
  | _ => exact h.elim

/-- What the call does with the store's answer. -/
theorem Entering.get {next : Reply (.storeGet key) → Handler Response}
    (h : Entering key (.act (.storeGet key) next)) :
    (s.store.get key = none → Allocating key (next (exec (.storeGet key) ω s).1)) ∧
      ∀ e, s.store.get key = some e →
        Finishing Response.Served (next (exec (.storeGet key) ω s).1) ∨
          Writing key e.subject e.ip (next (exec (.storeGet key) ω s).1) := by
  obtain ⟨-, hnone, hsome, -⟩ := h
  constructor
  · intro hget
    simpa only [exec, hget] using hnone
  · intro e hget
    simpa only [exec, hget] using hsome e

theorem Enrolling.act (h : Enrolling key (.act a next)) (hω : ω.Reliable) :
    Enrolling key (next (exec a ω s).1) ∧ s.Agrees (exec a ω s).2.2 := by
  rcases h with hent | halloc | ⟨subject, ip, hwrite⟩ | hfin
  · rcases hent.local_or_get with ⟨ha, hnext⟩ | rfl
    · rw [exec_local_state ha]
      exact ⟨Or.inl (hnext _), rfl, rfl⟩
    · refine ⟨?_, rfl, rfl⟩
      obtain ⟨hnone, hsome⟩ := hent.get (ω := ω) (s := s)
      cases hget : s.store.get key with
      | none => exact Or.inr (Or.inl (hnone hget))
      | some e =>
          rcases hsome e hget with hfin | hwrite
          · exact Or.inl (entering_of_finishing hfin)
          · exact Or.inr (Or.inr (Or.inl ⟨_, _, hwrite⟩))
  · obtain ⟨rfl, herror, hok⟩ := halloc.act (ω := ω) (s := s)
    refine ⟨?_, rfl, rfl⟩
    cases hfree : s.alloc.free with
    | none => exact Or.inr (Or.inr (Or.inr (herror hfree).1))
    | some ip =>
        obtain ⟨⟨subject, hwrite⟩, -⟩ := hok ip hfree
        exact Or.inr (Or.inr (Or.inl ⟨_, _, hwrite⟩))
  · rcases hwrite.act hω (s := s) with ⟨pub, rfl, -, hnext⟩ | ⟨rfl, hnext⟩ |
      ⟨e, rfl, -, -, -, hfin⟩
    · rw [(exec_addPeer hω pub ip).2]
      exact ⟨Or.inr (Or.inr (Or.inl ⟨_, _, hnext⟩)), rfl, rfl⟩
    · exact ⟨Or.inr (Or.inr (Or.inl ⟨_, _, hnext⟩)), rfl, rfl⟩
    · exact ⟨Or.inl (entering_of_finishing hfin), rfl, rfl⟩
  · rw [exec_local_state hfin.1]
    exact ⟨Or.inr (Or.inr (Or.inr (hfin.2 _))), rfl, rfl⟩

end Actions

/-- An enrollment touches neither the registry nor the tenants. -/
theorem Enrolling.agrees_run (h : Enrolling key p) (hω : ω.Reliable) :
    s.Agrees (p.run exec ω s).2.2 := by
  induction p generalizing s ω with
  | ret v => exact ⟨rfl, rfl⟩
  | act a next ih =>
      obtain ⟨hnext, hregistry, htenants⟩ := h.act hω (s := s)
      obtain ⟨hregistry', htenants'⟩ := ih _ hnext (hω.exec a s)
      exact ⟨hregistry'.trans hregistry, htenants'.trans htenants⟩

/-- What only local actions are left of ends the same in servers that agree,
with the answer it has to have, and changes nothing. -/
theorem Finishing.run {P : Response → Prop} (h : Finishing P p) (hs : s.Agrees s') :
    (p.run exec ω s').1 = (p.run exec ω s).1 ∧ (p.run exec ω s').2.2 = s' ∧
      P (p.run exec ω s').1 := by
  induction p generalizing ω with
  | ret v => exact ⟨rfl, rfl, h⟩
  | act a next ih =>
      have hexec := exec_local (ω := ω) h.1 hs
      rw [run_act, run_act, exec_local_state h.1 (s := s), hexec]
      exact ih _ (h.2 _)

/-- With no entry and no free address an enrollment changes nothing. -/
theorem Ready.still (h : Ready key s p) (hget : s.store.get key = none)
    (hfree : s.alloc.free = none) : (p.run exec ω s).2.2 = s := by
  induction p generalizing ω with
  | ret v => rfl
  | act a next ih =>
      have hstep : (exec a ω s).2.2 = s ∧ Ready key s (next (exec a ω s).1) := by
        rcases h with hent | ⟨-, -, halloc | hfin⟩ | ⟨e, he, -⟩
        · rcases hent.local_or_get with ⟨ha, hnext⟩ | rfl
          · exact ⟨exec_local_state ha, Or.inl (hnext _)⟩
          · exact ⟨rfl, Or.inr (Or.inl ⟨hget, hfree, Or.inl (hent.get.1 hget)⟩)⟩
        · obtain ⟨hfin, hstate⟩ := halloc.act.2.1 hfree
          exact ⟨hstate, Or.inr (Or.inl ⟨hget, hfree, Or.inr hfin⟩)⟩
        · exact ⟨exec_local_state hfin.1, Or.inr (Or.inl ⟨hget, hfree, Or.inr (hfin.2 _)⟩)⟩
        · exact absurd (hget.symm.trans he) (by simp)
      rw [run_act, hstep.1]
      exact ih _ hstep.2

/-- The rest of an enrollment of a key whose entry has the subject and the
address. -/
def Reusing (key subject : String) (ip : IP) (p : Handler Response) : Prop :=
  Entering key p ∨ Writing key subject ip p

theorem Reusing.act {a : Action} {next : Reply a → Handler Response}
    (h : Reusing key subject ip (.act a next)) (hω : ω.Reliable) (hs : s.Owned key subject ip) :
    Reusing key subject ip (next (exec a ω s).1) ∧
      Server.Owned key subject ip (exec a ω s).2.2 ∧
      ∀ pub, parseKey key = .ok pub → exec a ω (s.withPeer pub ip) =
        ((exec a ω s).1, (exec a ω s).2.1, Server.withPeer (exec a ω s).2.2 pub ip) := by
  rcases h with hent | hwrite
  · rcases hent.local_or_get with ⟨ha, hnext⟩ | rfl
    · rw [exec_local_state ha]
      exact ⟨Or.inl (hnext _), hs, fun pub _ => exec_local ha ⟨rfl, rfl⟩⟩
    · refine ⟨?_, hs, fun pub _ => rfl⟩
      obtain ⟨e, hget, rfl, rfl⟩ := hs
      rcases hent.get.2 e hget with hfin | hwrite
      · exact Or.inl (entering_of_finishing hfin)
      · exact Or.inr hwrite
  · rcases hwrite.act hω (s := s) with ⟨pub, rfl, hkey, hnext⟩ | ⟨rfl, hnext⟩ |
      ⟨e, rfl, rfl, rfl, rfl, hfin⟩
    · refine ⟨Or.inr hnext, ?_, fun pub' hkey' => ?_⟩
      · rw [(exec_addPeer hω pub ip).2]
        exact hs
      · obtain rfl := Except.ok.inj (hkey.symm.trans hkey')
        have hadd : ω.addOk.head = true := hω.addOk 0
        simp only [exec, hadd, if_true, Server.withPeer]
    · exact ⟨Or.inr hnext, hs, fun pub _ => rfl⟩
    · refine ⟨Or.inl (entering_of_finishing hfin), ⟨e, ?_, rfl, rfl⟩, fun pub _ => rfl⟩
      exact Store.get_put_eq_some.mpr (Or.inl ⟨rfl, rfl⟩)

/-- Such a rest keeps the entry's subject and address, and it does the same
whether or not the peer is on the device already. -/
theorem Reusing.run (h : Reusing key subject ip p) (hω : ω.Reliable)
    (hs : s.Owned key subject ip) :
    Server.Owned key subject ip (p.run exec ω s).2.2 ∧
      ∀ pub, parseKey key = .ok pub → p.run exec ω (s.withPeer pub ip) =
        ((p.run exec ω s).1, (p.run exec ω s).2.1,
          Server.withPeer (p.run exec ω s).2.2 pub ip) := by
  induction p generalizing s ω with
  | ret v => exact ⟨hs, fun _ _ => rfl⟩
  | act a next ih =>
      obtain ⟨hnext, hs', hcomm⟩ := h.act hω hs
      obtain ⟨howned, hrun⟩ := ih _ hnext (hω.exec a s) hs'
      refine ⟨howned, fun pub hkey => ?_⟩
      rw [run_act, hcomm pub hkey]
      exact hrun pub hkey

end Runs

end Claimward.Api
