import Claimward.Api.Rules
import Claimward.Api.Threads

/-!
# What a call may still do with an address

Between reading an entry and acting on it a call holds no lock. A note records
what a call in progress has to do with an address, and `Safe` which programs a
note allows; every call is safe from its start, without a note.
-/

namespace Claimward.Api

open AtomicProgram AtomicProgram.Program Inet Wg Peers

/-- What a call in progress has to do with an address: it is about to write an
entry with it, or to give it back. -/
inductive Hold where
  | holds (key addr : String)
  | releasing (addr : String)

/-- The next action of the call releases the address. -/
def Releases (p : Handler Response) (ip : IP) : Prop :=
  ∃ rest : Unit → Handler Response, p = .act (.release ip) rest

/-- The call may write an entry for the key at the address, without asking the
store or the pool again. -/
def MayPut (key addr : String) : Handler Response → Prop
  | .ret _ => False
  | .act (.storePut p) next =>
      p.publicKey = key ∧ text p.ip = addr ∨ MayPut key addr (next ())
  | .act (.storeGet _) _ => False
  | .act .allocate _ => False
  | .act _ next => ∃ r, MayPut key addr (next r)

/-- What a call may still do under its note. -/
def Safe : Option Hold → Handler Response → Prop
  | n, .ret _ => n = none
  | n, .act (.storePut p) next =>
      n = some (.holds p.publicKey (text p.ip)) ∧ Safe none (next ())
  | n, .act (.storeGet key) next =>
      n = none ∧ Safe none (next none) ∧ ∀ p : Peer, p.publicKey = key →
        Safe none (next (some p)) ∨ Safe (some (.holds key (text p.ip))) (next (some p))
  | n, .act .allocate next =>
      n = none ∧ (∀ msg, Safe none (next (.error msg))) ∧
        ∃ key, ∀ ip, Safe (some (.holds key (text ip))) (next (.ok ip))
  | n, .act (.storeDelete _) next =>
      n = none ∧ ∃ ip, (∀ r, Releases (next r) ip) ∧
        ∀ r, Safe (some (.releasing (text ip))) (next r)
  | n, .act (.release ip) next => n = some (.releasing (text ip)) ∧ Safe none (next ())
  | n, .act (.addPeer _ _) next => Safe n (next true)
  | n, .act _ next => ∀ r, Safe n (next r)

/-- A call that holds an address may still write an entry there. -/
theorem mayPut_of_safe {key addr : String} {p : Handler Response}
    (h : Safe (some (.holds key addr)) p) : MayPut key addr p := by
  induction p with
  | ret v => exact absurd h (by simp [Safe])
  | act a next ih =>
      obtain ⟨r⟩ := nonempty_reply a
      cases a with
      | storePut p =>
          obtain ⟨hn, -⟩ := h
          obtain ⟨rfl, rfl⟩ := Hold.holds.inj (Option.some.inj hn)
          exact Or.inl ⟨rfl, rfl⟩
      | storeGet key => exact absurd h.1 (by simp)
      | allocate => exact absurd h.1 (by simp)
      | storeDelete key => exact absurd h.1 (by simp)
      | release ip => exact absurd h.1 (by simp)
      | addPeer pub ip => exact ⟨true, ih true h⟩
      | _ => exact ⟨r, ih r (h r)⟩

section Programs

variable (cfg : Config) (claims : Claims)

theorem safe_enrollPeer (req : EnrollRequest) (pub : Key) (expiry : Time) (tenantID : String)
    (ip : IP) :
    Safe (some (.holds req.publicKey (text ip)))
      (enrollPeer cfg claims req pub expiry tenantID ip) := by
  simp only [enrollPeer, call_eq_act, act_bind, ret_bind, Safe, if_true, true_and]
  intro enrolledAt routes
  cases routes with
  | none => rfl
  | some rs => rfl

theorem safe_enrollAddress (req : EnrollRequest) (pub : Key) (expiry : Time)
    (tenantID : String) : Safe none (enrollAddress cfg claims req pub expiry tenantID) := by
  simp only [enrollAddress, call_eq_act, act_bind, ret_bind, Safe, pure_eq_ret, true_and]
  refine ⟨⟨fun _ => trivial, req.publicKey, safe_enrollPeer cfg claims req pub expiry tenantID⟩, ?_⟩
  intro existing hkey
  by_cases hown : existing.subject = claims.subject
  · rw [if_neg (not_not.mpr hown)]
    exact Or.inr (safe_enrollPeer cfg claims req pub expiry tenantID existing.ip)
  · rw [if_pos hown]
    exact Or.inl rfl

theorem closed_safe : Closed (Safe none) where
  ret _ := rfl
  now h := h
  storeGet h := ⟨rfl, h none, fun p _ => Or.inl (h (some p))⟩
  storeRenew h := h
  storeExpired h := h
  storeList h := h
  drop h := ⟨rfl, _, fun _ => ⟨_, rfl⟩, fun _ => ⟨rfl, h⟩⟩
  removePeer h := h
  lookup h := h
  install h := h
  tenantsFor h := h
  isMember h := h
  createTenant h := h
  updateTenant h := h
  deleteTenant h := h

/-- Every call is safe from its start. -/
theorem safe_call (c : Call) : Safe none (c.program cfg) :=
  closed_safe.call (fun claims req pub expiry tenantID _ =>
    safe_enrollAddress cfg claims req pub expiry tenantID) c

end Programs

end Claimward.Api
