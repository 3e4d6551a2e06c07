import Claimward.Api.Guarded
import Claimward.Api.Leases
import Claimward.Library.Journal

/-!
# Nothing is changed unchecked

Between the check a call makes and the change that rests on it, other calls may
change the state. What the code does promise is that no change is made without
its checks: the rule below says, for each action, which answers the call must
have received before it. Every call keeps the rule whatever it is answered, so
it is kept in every interleaving, where each answer was given by a state of the
run.
-/

namespace Claimward.Api

open AtomicProgram AtomicProgram.Program Inet Wg Peers

/-- What a call has done and been answered, the latest first. -/
abbrev Journal := List (Happening interface)

/-- Something that was done, and its answer. -/
abbrev did (a : Action) (r : Reply a) : Happening interface := ⟨a, r⟩

section Checks

/-- The lease was worked out from a reading of the clock and, with a registry,
from a lookup made after it that found the key registered to the caller. -/
def LeaseFound (cfg : Config) (claims : Claims) (key : String) (lease : Time) (past : Journal) :
    Prop :=
  ∃ now newer older, past = newer ++ older ∧ did .now now ∈ older ∧
    (cfg.usePeers = false → lease = now + cfg.leaseTTL) ∧
    (cfg.usePeers = true → ∃ q, did (.lookup key) (some q) ∈ newer ∧
      q.subject = claims.subject ∧ lease = min q.expires (now + cfg.leaseTTL))

/-- The tenant is one of the caller's, and the one that was asked for if one was. -/
def Placed (claims : Claims) (asked tenant : String) (past : Journal) : Prop :=
  ∃ ts, did (.tenantsFor claims.tenancy) (some ts) ∈ past ∧ (∃ t ∈ ts, t.id = tenant) ∧
    (asked ≠ "" → tenant = asked)

/-- The store was asked for the key and had an entry of the caller's. -/
def Owned (claims : Claims) (key : String) (past : Journal) (e : Peer) : Prop :=
  did (.storeGet key) (some e) ∈ past ∧ e.subject = claims.subject

/-- The address is that of the caller's entry, or was handed out for want of an
entry. -/
def Assigned (claims : Claims) (key : String) (ip : IP) (past : Journal) : Prop :=
  (∃ e, Owned claims key past e ∧ e.ip = ip) ∨
    did (.storeGet key) none ∈ past ∧ did .allocate (.ok ip) ∈ past

/-- All that an enrollment has to show before it takes an address. -/
structure Granted (cfg : Config) (claims : Claims) (req : EnrollRequest) (lease : Time)
    (tenant : String) (past : Journal) : Prop where
  lease_found : LeaseFound cfg claims req.publicKey lease past
  placed : Placed claims req.tenant tenant past

/-- The provider, or the predicate in its place, did not have the key for the
entry's subject. -/
def Denied (past : Journal) (e : Peer) : Allowed → Prop
  | .registry => ∃ answer, did (.lookup e.publicKey) answer ∈ past ∧
      ∀ q, answer = some q → q.subject ≠ e.subject
  | .predicate f => f e.publicKey e.subject = false

/-- Why a call may take away the entry of a key, with its address. -/
inductive Cause : Call → Journal → String → IP → Prop
  | owner {claims : Claims} {req : DeregisterRequest} {past : Journal} {e : Peer}
      (h : Owned claims req.publicKey past e) :
      Cause (.deregister claims (.ok req)) past req.publicKey e.ip
  | ended {past : Journal} {now : Time} {ps : List Peer} {e : Peer}
      (hnow : did .now now ∈ past) (hps : did (.storeExpired now) ps ∈ past) (he : e ∈ ps) :
      Cause .reapExpired past e.publicKey e.ip
  | denied {past : Journal} {allowed : Allowed} {ps : List Peer} {e : Peer}
      (hps : did .storeList ps ∈ past) (he : e ∈ ps) (h : Denied past e allowed) :
      Cause (.reconcile allowed) past e.publicKey e.ip

/-- What a call must have been answered before it does something. Reading needs
nothing. -/
def Sanctioned (cfg : Config) (c : Call) (past : Journal) : Action → Prop
  | .allocate => ∃ claims req lease tenant, c = .enroll claims (.ok req) ∧
      Granted cfg claims req lease tenant past ∧ did (.storeGet req.publicKey) none ∈ past
  | .addPeer pub ip => ∃ claims req lease tenant, c = .enroll claims (.ok req) ∧
      parseKey req.publicKey = .ok pub ∧ Granted cfg claims req lease tenant past ∧
      Assigned claims req.publicKey ip past
  | .storePut p => ∃ claims req pub, c = .enroll claims (.ok req) ∧
      p.publicKey = req.publicKey ∧ p.subject = claims.subject ∧
      parseKey req.publicKey = .ok pub ∧ Granted cfg claims req p.leaseExpiry p.tenant past ∧
      Assigned claims req.publicKey p.ip past ∧ did (.addPeer pub p.ip) true ∈ past
  | .storeRenew key lease => ∃ claims req e, c = .heartbeat claims (.ok req) ∧
      key = req.publicKey ∧ Owned claims key past e ∧
      did (.isMember e.tenant claims.tenancy) (some true) ∈ past ∧
      LeaseFound cfg claims key lease past
  | .removePeer pub => ∃ key ip, parseKey key = .ok pub ∧ Cause c past key ip
  | .storeDelete key => ∃ ip, Cause c past key ip ∧
      ∀ pub, parseKey key = .ok pub → ∃ ok, did (.removePeer pub) ok ∈ past
  | .release ip => (∃ key e, Cause c past key ip ∧ did (.storeDelete key) e ∈ past) ∨
      ∃ claims req pub, c = .enroll claims (.ok req) ∧ did (.addPeer pub ip) false ∈ past
  | .install l => c = .refresh (.ok l)
  | .createTenant t => c = .createTenant t
  | .updateTenant id inp => c = .updateTenant id inp
  | .deleteTenant id => c = .deleteTenant id
  | _ => True

/-- The rest of a call keeps the rule. -/
abbrev Mediated (cfg : Config) (c : Call) (p : Handler Response) (past : Journal) : Prop :=
  p.Within (Sanctioned cfg c) (fun _ _ => True) past

end Checks

section Growing

variable {cfg : Config} {claims : Claims} {key : String} {past past' : Journal}

theorem LeaseFound.cons {lease : Time} (h : LeaseFound cfg claims key lease past)
    (e : Happening interface) : LeaseFound cfg claims key lease (e :: past) := by
  obtain ⟨now, newer, older, rfl, hnow, hopen, hpeers⟩ := h
  refine ⟨now, e :: newer, older, rfl, hnow, hopen, fun hcfg => ?_⟩
  obtain ⟨q, hq, hrest⟩ := hpeers hcfg
  exact ⟨q, List.mem_cons_of_mem e hq, hrest⟩

theorem Placed.cons {asked tenant : String} (h : Placed claims asked tenant past)
    (e : Happening interface) : Placed claims asked tenant (e :: past) := by
  obtain ⟨ts, hts, hrest⟩ := h
  exact ⟨ts, List.mem_cons_of_mem e hts, hrest⟩

theorem Granted.cons {req : EnrollRequest} {lease : Time} {tenant : String}
    (h : Granted cfg claims req lease tenant past) (e : Happening interface) :
    Granted cfg claims req lease tenant (e :: past) :=
  ⟨h.lease_found.cons e, h.placed.cons e⟩

theorem Owned.mono {e : Peer} (h : Owned claims key past e) (hsub : past ⊆ past') :
    Owned claims key past' e :=
  ⟨hsub h.1, h.2⟩

theorem Assigned.mono {ip : IP} (h : Assigned claims key ip past) (hsub : past ⊆ past') :
    Assigned claims key ip past' := by
  rcases h with ⟨e, he, hip⟩ | ⟨hnone, hip⟩
  · exact Or.inl ⟨e, he.mono hsub, hip⟩
  · exact Or.inr ⟨hsub hnone, hsub hip⟩

theorem Denied.mono {e : Peer} {allowed : Allowed} (h : Denied past e allowed)
    (hsub : past ⊆ past') : Denied past' e allowed := by
  cases allowed with
  | registry =>
      obtain ⟨answer, hanswer, hno⟩ := h
      exact ⟨answer, hsub hanswer, hno⟩
  | predicate f => exact h

theorem Cause.mono {c : Call} {ip : IP} (h : Cause c past key ip) (hsub : past ⊆ past') :
    Cause c past' key ip := by
  cases h with
  | owner h => exact .owner (h.mono hsub)
  | ended hnow hps he => exact .ended (hsub hnow) (hsub hps) he
  | denied hps he h => exact .denied (hsub hps) he (h.mono hsub)

end Growing

section Enrollment

variable {cfg : Config} {claims : Claims} {req : EnrollRequest} {past : Journal}

theorem eq_min_of_clampLease {lease expiry : Time} {q : Registration}
    (h : clampLease claims lease (some q) = some expiry) : expiry = min q.expires lease := by
  simp only [clampLease] at h
  split at h
  · exact absurd h (by simp)
  · rw [← Option.some.inj h]
    split
    · rename_i hlt
      exact (min_eq_left hlt.le).symm
    · rename_i hlt
      exact (min_eq_right (not_lt.mp hlt)).symm

/-- From the reading of the clock on, `registered` leaves a lease that was
worked out. -/
theorem mediated_registered {c : Call} {key : String} {now : Time}
    {next : Option Time → Handler Response}
    (hrefused : ∀ past, Mediated cfg c (next none) past)
    (hnext : ∀ lease past', past ⊆ past' → LeaseFound cfg claims key lease past' →
      Mediated cfg c (next (some lease)) past')
    (hnow : did .now now ∈ past) :
    Mediated cfg c (registered cfg key claims (now + cfg.leaseTTL) >>= next) past := by
  unfold registered
  split
  · rename_i hcfg
    refine ⟨trivial, fun answer => ?_⟩
    change Mediated cfg c (next (clampLease claims (now + cfg.leaseTTL) answer)) _
    cases hclamp : clampLease claims (now + cfg.leaseTTL) answer with
    | none => exact hrefused _
    | some lease =>
        apply hnext lease _ (List.subset_cons_self _ _)
        obtain ⟨q, rfl, hsubject⟩ := clampLease_eq_some claims hclamp
        refine ⟨now, [did (.lookup key) (some q)], past, rfl, hnow, fun h => ?_, fun _ => ?_⟩
        · exact absurd (hcfg.symm.trans h) (by simp)
        · exact ⟨q, List.mem_cons_self, hsubject, eq_min_of_clampLease hclamp⟩
  · rename_i hcfg
    apply hnext _ _ (List.Subset.refl past)
    exact ⟨now, [], past, rfl, hnow, fun _ => rfl, fun h => absurd h hcfg⟩

theorem pickTenant_asked {asked tenant : String} {answer : Option (List Tenant)}
    (h : pickTenant asked answer = .chosen tenant) (hasked : asked ≠ "") : tenant = asked := by
  unfold pickTenant at h
  split at h
  · exact absurd h (by simp)
  · rw [if_neg hasked] at h
    split at h
    · exact (TenantChoice.chosen.inj h).symm
    · exact absurd h (by simp)

variable {pub : Key} {lease : Time} {tenant : String}

theorem mediated_enrollPeer {ip : IP} (hkey : parseKey req.publicKey = .ok pub)
    (hgranted : Granted cfg claims req lease tenant past)
    (hip : Assigned claims req.publicKey ip past) :
    Mediated cfg (.enroll claims (.ok req))
      (enrollPeer cfg claims req pub lease tenant ip) past := by
  refine ⟨⟨claims, req, lease, tenant, rfl, hkey, hgranted, hip⟩, fun added => ?_⟩
  cases added with
  | false =>
      refine ⟨Or.inr ⟨claims, req, pub, rfl, List.mem_cons_self⟩, fun _ => trivial⟩
  | true =>
      refine ⟨trivial, fun enrolledAt => ⟨?_, fun _ => ⟨trivial, fun answer => ?_⟩⟩⟩
      · refine ⟨claims, req, pub, rfl, rfl, rfl, hkey, (hgranted.cons _).cons _, ?_, ?_⟩
        · exact hip.mono (List.subset_cons_of_subset _ (List.subset_cons_self _ _))
        · exact List.mem_cons_of_mem _ List.mem_cons_self
      · cases answer with
        | none => trivial
        | some rs => trivial

theorem mediated_enrollAddress (hkey : parseKey req.publicKey = .ok pub)
    (hgranted : Granted cfg claims req lease tenant past) :
    Mediated cfg (.enroll claims (.ok req))
      (enrollAddress cfg claims req pub lease tenant) past := by
  refine ⟨trivial, fun entry => ?_⟩
  cases entry with
  | some e =>
      change Mediated _ _ (if e.subject ≠ claims.subject then _ else _) _
      split
      · trivial
      · rename_i hsubject
        refine mediated_enrollPeer hkey (hgranted.cons _) (Or.inl ⟨e, ?_, rfl⟩)
        exact ⟨List.mem_cons_self, not_not.mp hsubject⟩
  | none =>
      refine ⟨⟨claims, req, lease, tenant, rfl, hgranted.cons _, List.mem_cons_self⟩, ?_⟩
      intro answer
      cases answer with
      | error msg => trivial
      | ok ip =>
          refine mediated_enrollPeer hkey ((hgranted.cons _).cons _) (Or.inr ⟨?_, ?_⟩)
          · exact List.mem_cons_of_mem _ List.mem_cons_self
          · exact List.mem_cons_self

theorem mediated_handleEnroll (body : Except String EnrollRequest) :
    Mediated cfg (.enroll claims body) (handleEnroll cfg claims body) [] := by
  cases body with
  | error msg => trivial
  | ok req =>
      cases hkey : parseKey req.publicKey with
      | error msg =>
          simp only [handleEnroll, hkey]
          trivial
      | ok pub =>
          simp only [handleEnroll, hkey]
          refine ⟨trivial, fun now => mediated_registered (fun _ => trivial) ?_ List.mem_cons_self⟩
          intro lease past _ hlease
          refine ⟨trivial, fun ts => ?_⟩
          change Mediated _ _ (enrollChosen cfg claims req pub lease (pickTenant req.tenant ts)) _
          rcases enrollChosen_cases pub lease ts with ⟨r, -, heq⟩ | ⟨tenant, hpick, heq⟩
          · rw [heq]
            trivial
          · rw [heq]
            obtain ⟨ts, rfl, hmem⟩ := pickTenant_chosen hpick
            refine mediated_enrollAddress hkey ⟨hlease.cons _, ts, List.mem_cons_self, hmem, ?_⟩
            exact pickTenant_asked hpick

end Enrollment

section Removals

variable {cfg : Config} {claims : Claims} {past : Journal}

theorem mediated_handleHeartbeat (body : Except String HeartbeatRequest) :
    Mediated cfg (.heartbeat claims body) (handleHeartbeat cfg claims body) [] := by
  cases body with
  | error msg => trivial
  | ok req =>
      refine ⟨trivial, fun entry => ?_⟩
      cases entry with
      | none => trivial
      | some e =>
          change Mediated _ _ (if e.subject ≠ claims.subject then _ else _) _
          split
          · trivial
          · rename_i hsubject
            refine ⟨trivial, fun member => ?_⟩
            match member with
            | none => trivial
            | some false => trivial
            | some true =>
                refine ⟨trivial, fun now =>
                  mediated_registered (fun _ => trivial) ?_ List.mem_cons_self⟩
                intro lease past hsub hlease
                have hget : did (.storeGet req.publicKey) (some e) ∈ past := hsub (by simp)
                have hmember : did (.isMember e.tenant claims.tenancy) (some true) ∈ past :=
                  hsub (by simp)
                have howned : e.subject = claims.subject := not_not.mp hsubject
                refine ⟨⟨claims, req, e, rfl, rfl, ⟨hget, howned⟩, hmember, hlease⟩, ?_⟩
                exact fun _ => trivial

/-- A removal that has a cause, and goes on with more in its journal. -/
theorem mediated_dropPeer {c : Call} {key : String} {ip : IP} {next : Unit → Handler Response}
    (h : Cause c past key ip)
    (hnext : ∀ past', past ⊆ past' → Mediated cfg c (next ()) past') :
    Mediated cfg c (dropPeer key ip >>= next) past := by
  -- the deletion and the release, with what was done on the device in the journal
  have hdelete : ∀ past', past ⊆ past' →
      (∀ pub, parseKey key = .ok pub → ∃ ok, did (.removePeer pub) ok ∈ past') →
      Mediated cfg c (.act (.storeDelete key) fun _ => .act (.release ip) next) past' := by
    intro past' hsub hremoved
    refine ⟨⟨ip, h.mono hsub, hremoved⟩, fun e => ⟨Or.inl ⟨key, e, ?_, ?_⟩, fun _ => ?_⟩⟩
    · exact h.mono (List.subset_cons_of_subset _ hsub)
    · exact List.mem_cons_self
    · exact hnext _ (List.subset_cons_of_subset _ (List.subset_cons_of_subset _ hsub))
  cases hkey : parseKey key with
  | error msg =>
      simp only [dropPeer, hkey]
      apply hdelete past (List.Subset.refl past)
      intro pub hpub
      exact absurd (hkey.symm.trans hpub) (by simp)
  | ok pub =>
      simp only [dropPeer, hkey]
      refine ⟨⟨key, ip, hkey, h⟩, fun ok => hdelete _ (List.subset_cons_self _ _) ?_⟩
      intro pub' hpub
      obtain rfl := Except.ok.inj (hkey.symm.trans hpub)
      exact ⟨ok, List.mem_cons_self⟩

theorem mediated_handleDeregister (body : Except String DeregisterRequest) :
    Mediated cfg (.deregister claims body) (handleDeregister claims body) [] := by
  cases body with
  | error msg => trivial
  | ok req =>
      refine ⟨trivial, fun entry => ?_⟩
      cases entry with
      | none => trivial
      | some e =>
          change Mediated _ _ (if e.subject ≠ claims.subject then _ else _) _
          split
          · trivial
          · rename_i hsubject
            refine mediated_dropPeer (.owner ⟨List.mem_cons_self, not_not.mp hsubject⟩) ?_
            exact fun _ _ => trivial

theorem mediated_reapLoop {now : Time} {all ps : List Peer} (hnow : did .now now ∈ past)
    (hall : did (.storeExpired now) all ∈ past) (hps : ps ⊆ all) :
    Mediated cfg .reapExpired (reapLoop ps) past := by
  induction ps generalizing past with
  | nil => trivial
  | cons p rest ih =>
      obtain ⟨hp, hrest⟩ := List.cons_subset.mp hps
      apply mediated_dropPeer (.ended hnow hall hp)
      intro past' hsub
      exact ih (hsub hnow) (hsub hall) hrest

theorem mediated_reconcileLoop {allowed : Allowed} {all ps : List Peer}
    (hall : did .storeList all ∈ past) (hps : ps ⊆ all) :
    Mediated cfg (.reconcile allowed) (reconcileLoop allowed.decide ps) past := by
  induction ps generalizing past with
  | nil => trivial
  | cons p rest ih =>
      obtain ⟨hp, hrest⟩ := List.cons_subset.mp hps
      have hdrop : ∀ past', past ⊆ past' → Denied past' p allowed →
          Mediated cfg (.reconcile allowed)
            (dropPeer p.publicKey p.ip >>= fun _ => reconcileLoop allowed.decide rest) past' := by
        intro past' hsub hdenied
        apply mediated_dropPeer (.denied (hsub hall) hp hdenied)
        intro past'' hsub'
        exact ih (hsub' (hsub hall)) hrest
      cases allowed with
      | registry =>
          refine ⟨trivial, fun answer => ?_⟩
          change Mediated _ _ (if (answer.any fun q => q.subject = p.subject) = true then _
            else _) _
          split
          · exact ih (List.mem_cons_of_mem _ hall) hrest
          · rename_i hno
            apply hdrop _ (List.subset_cons_self _ _)
            refine ⟨answer, List.mem_cons_self, ?_⟩
            rintro q rfl hsubject
            exact hno (by simp [hsubject])
      | predicate f =>
          change Mediated _ _ (if f p.publicKey p.subject = true then _ else _) _
          split
          · exact ih hall hrest
          · rename_i hno
            exact hdrop past (List.Subset.refl past) (Bool.eq_false_of_not_eq_true hno)

end Removals

/-- Every call keeps the rule, whatever it is answered. -/
theorem mediated_call (cfg : Config) (c : Call) : Mediated cfg c (c.program cfg) [] := by
  cases c with
  | enroll claims body => exact mediated_handleEnroll body
  | heartbeat claims body => exact mediated_handleHeartbeat body
  | deregister claims body => exact mediated_handleDeregister body
  | reapExpired =>
      refine ⟨trivial, fun now => ⟨trivial, fun ps => ?_⟩⟩
      apply mediated_reapLoop _ List.mem_cons_self (List.Subset.refl ps)
      exact List.mem_cons_of_mem _ List.mem_cons_self
  | reconcile allowed =>
      refine ⟨trivial, fun ps => ?_⟩
      exact mediated_reconcileLoop List.mem_cons_self (List.Subset.refl ps)
  | refresh fetched =>
      cases fetched with
      | error msg => trivial
      | ok l => exact ⟨rfl, fun _ => trivial⟩
  | createTenant t => exact ⟨rfl, fun _ => trivial⟩
  | updateTenant id inp => exact ⟨rfl, fun _ => trivial⟩
  | deleteTenant id => exact ⟨rfl, fun _ => trivial⟩

/-- A turn of an interleaving in which every call keeps a journal. -/
abbrev RecordedTurn := Move interface (Oracle × Journal) Response

section Interleavings

variable [GoText.CaseTables]

/-- The state after a list of turns, with the states before it. -/
abbrev Server.interleaveJournaled (s : Server) (turns : List RecordedTurn) :
    Pool interface (Oracle × Journal) (History Server) Response :=
  Runs.run (Pool.move (journaled (recorded exec))) (.initial ⟨s, []⟩) turns

/-- **Complete mediation.** However calls overlap, whatever the device does and
whatever the clocks say: what a call is about to do is sanctioned by what it has
been answered, and each answer was given by the server in a state of the run. -/
theorem calls_mediated (cfg : Config) (calls : ℕ → Call) (s : Server) {turns : List RecordedTurn}
    (hstart : ∀ i p ω, .start i p ω ∈ turns → p = (calls i).program cfg ∧ ω.2 = []) :
    let c := s.interleaveJournaled turns
    ∀ i a next ω past, c.thread i = some (.act a next, (ω, past)) →
      Sanctioned cfg (calls i) past a ∧ Truthful exec past c.shared.moments := by
  intro c i a next ω past hi
  have hrules : c.KeepsRules exec fun i => Sanctioned cfg (calls i) := by
    apply Pool.keepsRules_run s
    intro i p ω hmem
    obtain ⟨rfl, hempty⟩ := hstart i p ω hmem
    exact ⟨hempty, mediated_call cfg (calls i)⟩
  obtain ⟨hwithin, htrue⟩ := hrules i _ _ hi
  exact ⟨hwithin.1, htrue⟩

end Interleavings

/-- An enrollment, up to its write to the store. -/
private def beforePut : List RecordedTurn :=
  .start 0 ((Sample.enroll "alice" Sample.key₁).program (Sample.config false))
    (Sample.oracle true true, []) :: List.replicate 6 (.advance 0)

attribute [local instance] GoText.asciiTables

theorem put_mediated :
    let c := Sample.start.interleaveJournaled beforePut
    ∃ p next ω past, c.thread 0 = some (.act (.storePut p) next, (ω, past)) ∧
      Sanctioned (Sample.config false) (Sample.enroll "alice" Sample.key₁) past (.storePut p) ∧
      Truthful exec past c.shared.moments := by
  have hthread : ∃ p next ω past, (Sample.start.interleaveJournaled beforePut).thread 0 =
      some (.act (.storePut p) next, (ω, past)) := ⟨_, _, _, _, rfl⟩
  obtain ⟨p, next, ω, past, hthread⟩ := hthread
  refine ⟨p, next, ω, past, hthread, ?_⟩
  refine calls_mediated (Sample.config false) (fun _ => Sample.enroll "alice" Sample.key₁)
    Sample.start ?_ 0 _ next ω past hthread
  intro i p ω hmem
  obtain ⟨-, rfl, rfl⟩ : i = 0 ∧ p = _ ∧ ω = _ := by simpa [beforePut] using hmem
  exact ⟨rfl, rfl⟩

end Claimward.Api
