import Claimward.Api.Threads

/-!
# The stages of a heartbeat and of a reaper

A heartbeat asks for the entry of its key, checks, and writes the lease; what it
answers follows from the write. A round of `ReapExpired` reads the clock, takes a
snapshot of what has expired and removes it peer by peer. The lemmas say where a
call of either kind can stand, given what it was started as, and what its next
action does to an entry.
-/

namespace Claimward.Api

open AtomicProgram AtomicProgram.Program Inet Wg Peers

/-- Whatever is started is a heartbeat or a round of the reaper. -/
def Turn.BeatsOrReaps (cfg : Config) : Turn → Prop
  | .start _ p _ => (∃ claims body, p = handleHeartbeat cfg claims body) ∨ p = reapExpired
  | .advance _ => True

/-- The action takes away the entry of the key, its peer on the device or the
address. -/
def Takes (key addr : String) : Action → Prop
  | .storeDelete k => k = key
  | .removePeer pub => parseKey key = .ok pub
  | .release ip => text ip = addr
  | _ => False

/-- The call has its snapshot of expired entries and may still take something
away of what the key has. -/
def MayTake (key addr : String) : Handler Response → Prop
  | .ret _ => False
  | .act (.storeExpired _) _ => False
  | .act a next => Takes key addr a ∨ ∃ r, MayTake key addr (next r)

/-- The call has found the entry of the key and may still write its lease. -/
def Renewing (key : String) : Handler Response → Prop
  | .ret _ => False
  | .act (.storeGet _) _ => False
  | .act (.storeRenew k _) _ => k = key
  | .act _ next => ∃ r, Renewing key (next r)

/-- The removal of the peer takes something away of what the key has: they are
filed under the same text, stand for the same key of the device or have the
same address. -/
def Touches (q : Peer) (key addr : String) : Prop :=
  q.publicKey = key ∨ (∃ pub, parseKey q.publicKey = .ok pub ∧ parseKey key = .ok pub) ∨
    text q.ip = addr

/-- The entry is as it was, and so is its peer on the device; its address is
not given back. -/
structure Server.Keeps (s s' : Server) (e : Peer) : Prop where
  entry : s'.store.get e.publicKey = s.store.get e.publicKey
  device : ∀ pub, parseKey e.publicKey = .ok pub → s'.device.lookup pub = s.device.lookup pub
  address : text e.ip ∈ s.alloc.used → text e.ip ∈ s'.alloc.used

/-- A heartbeat for the key that has not answered yet, or has refused. -/
def Beats (key : String) : Handler Response → Prop
  | .ret v => ∀ expiry, v ≠ .renewed expiry
  | .act (.storeGet k) next => k = key ∧ ¬ Renewing key (next none) ∧ ∀ r, Beats key (next r)
  | .act (.storeRenew k expiry) next => k = key ∧ ∀ r, next r = .ret (.renewed expiry)
  | .act (.isMember _ _) next => ∀ r, Beats key (next r)
  | .act .now next => ∀ r, Beats key (next r)
  | .act (.lookup _) next => ∀ r, Beats key (next r)
  | _ => False

/-- A reaper that works through its snapshot. -/
def Dropping : Handler Response → Prop
  | .ret v => v = .finished
  | .act (.removePeer _) next => ∀ r, Dropping (next r)
  | .act (.storeDelete _) next => ∀ r, Dropping (next r)
  | .act (.release _) next => ∀ r, Dropping (next r)
  | _ => False

/-- Where a call of either kind may stand, given what it was started as. -/
inductive Stands (cfg : Config) : Handler Response × Oracle → Handler Response → Oracle → Prop
  | rejected {claims msg ω} :
      Stands cfg (handleHeartbeat cfg claims (.error msg), ω)
        (handleHeartbeat cfg claims (.error msg)) ω
  | beats {claims key ω₀ p ω} (hp : Beats key p) :
      Stands cfg (handleHeartbeat cfg claims (.ok ⟨key⟩), ω₀) p ω
  | renewed {claims key expiry ω₀ ω} :
      Stands cfg (handleHeartbeat cfg claims (.ok ⟨key⟩), ω₀) (.ret (.renewed expiry)) ω
  | waits {ω} : Stands cfg (reapExpired, ω) reapExpired ω
  | looks {ω₀ ω} :
      Stands cfg (reapExpired, ω₀) (.act (.storeExpired ω₀.clock.head) reapLoop) ω
  | drops {ω₀ p ω} (hp : Dropping p) : Stands cfg (reapExpired, ω₀) p ω

section Programs

variable {cfg : Config} {claims : Claims} {key addr : String}

theorem mayTake_of_next {a : Action} {next : Reply a → Handler Response} {r : Reply a}
    (ha : ∀ now, a ≠ .storeExpired now) (h : MayTake key addr (next r)) :
    MayTake key addr (.act a next) := by
  cases a with
  | storeExpired now => exact absurd rfl (ha now)
  | _ => exact Or.inr ⟨r, h⟩

theorem takes_of_mayTake {a : Action} {next : Reply a → Handler Response}
    (h : ¬ MayTake key addr (.act a next)) : ¬ Takes key addr a := by
  cases a with
  | storeExpired now => exact id
  | _ => exact fun ha => h (Or.inl ha)

/-- What a reaper takes away belongs to a peer of its snapshot. -/
theorem mayTake_reapLoop {ps : List Peer} (h : MayTake key addr (reapLoop ps)) :
    ∃ q ∈ ps, Touches q key addr := by
  induction ps with
  | nil => exact h.elim
  | cons q rest ih =>
      have hlast : MayTake key addr (.act (.storeDelete q.publicKey) fun _ =>
          .act (.release q.ip) fun _ => reapLoop rest) →
          ∃ q' ∈ q :: rest, Touches q' key addr := by
        rintro (hkey | ⟨_, haddr | ⟨_, hrest⟩⟩)
        · exact ⟨q, List.mem_cons_self, Or.inl hkey⟩
        · exact ⟨q, List.mem_cons_self, Or.inr (Or.inr haddr)⟩
        · obtain ⟨q', hmem, htouch⟩ := ih hrest
          exact ⟨q', List.mem_cons_of_mem _ hmem, htouch⟩
      unfold reapLoop dropPeer at h
      cases hparse : parseKey q.publicKey with
      | error msg =>
          rw [hparse] at h
          exact hlast h
      | ok pub =>
          rw [hparse] at h
          rcases h with hpub | ⟨_, h⟩
          · exact ⟨q, List.mem_cons_self, Or.inr (Or.inl ⟨pub, hparse, hpub⟩)⟩
          · exact hlast h

theorem dropping_reapLoop (ps : List Peer) : Dropping (reapLoop ps) := by
  induction ps with
  | nil => rfl
  | cons q rest ih =>
      unfold reapLoop dropPeer
      cases parseKey q.publicKey with
      | error msg => exact fun _ _ => ih
      | ok pub => exact fun _ _ _ => ih

theorem not_renewing_of_dropping {p : Handler Response} (h : Dropping p) : ¬ Renewing key p := by
  induction p with
  | ret v => exact id
  | act a next ih =>
      cases a with
      | removePeer pub => exact fun ⟨r, hr⟩ => ih r (h r) hr
      | storeDelete k => exact fun ⟨r, hr⟩ => ih r (h r) hr
      | release ip => exact fun ⟨r, hr⟩ => ih r (h r) hr
      | _ => exact h.elim

/-- The next action of a heartbeat writes the lease and answers, or takes nothing
away and leaves the heartbeat on its way. -/
theorem Beats.cases_act {a : Action} {next : Reply a → Handler Response}
    (h : Beats key (.act a next)) :
    (∃ expiry, a = .storeRenew key expiry ∧ ∀ r, next r = .ret (.renewed expiry)) ∨
      (∀ k addr, ¬ Takes k addr a) ∧ ∀ r, Beats key (next r) := by
  cases a with
  | storeGet k => exact Or.inr ⟨fun _ _ => id, h.2.2⟩
  | storeRenew k expiry =>
      obtain ⟨rfl, hnext⟩ := h
      exact Or.inl ⟨expiry, rfl, hnext⟩
  | isMember id m => exact Or.inr ⟨fun _ _ htake => htake, h⟩
  | now => exact Or.inr ⟨fun _ _ => id, h⟩
  | lookup k => exact Or.inr ⟨fun _ _ => id, h⟩
  | _ => exact h.elim

theorem not_mayTake_of_beats {k : String} {p : Handler Response} (h : Beats k p) :
    ¬ MayTake key addr p := by
  induction p with
  | ret v => exact id
  | act a next ih =>
      intro hmay
      obtain ⟨r, hr⟩ | htake : (∃ r, MayTake key addr (next r)) ∨ Takes key addr a := by
        cases a with
        | storeExpired now => exact hmay.elim
        | _ => exact hmay.symm
      · rcases h.cases_act with ⟨expiry, rfl, hnext⟩ | ⟨-, hnext⟩
        · rw [hnext r] at hr
          exact hr
        · exact ih r (hnext r) hr
      · rcases h.cases_act with ⟨expiry, rfl, -⟩ | ⟨htakes, -⟩
        · exact htake
        · exact htakes key addr htake

theorem beats_registered {lease : Time} {next : Option Time → Handler Response}
    (h : ∀ r, Beats key (next r)) : Beats key (registered cfg key claims lease >>= next) := by
  unfold registered
  split
  · intro p
    exact h _
  · exact h _

theorem beats_handleHeartbeat (cfg : Config) (claims : Claims) (req : HeartbeatRequest) :
    Beats req.publicKey (handleHeartbeat cfg claims (.ok req)) := by
  refine ⟨rfl, id, fun answer => ?_⟩
  cases answer with
  | none => exact fun _ => Response.noConfusion
  | some peer =>
      change Beats req.publicKey (if peer.subject ≠ claims.subject then _ else _)
      split
      · exact fun _ => Response.noConfusion
      · intro member
        cases member with
        | none => exact fun _ => Response.noConfusion
        | some member =>
            cases member with
            | false => exact fun _ => Response.noConfusion
            | true =>
                intro now
                apply beats_registered
                intro expiry
                cases expiry with
                | none => exact fun _ => Response.noConfusion
                | some expiry => exact ⟨rfl, fun _ => rfl⟩

theorem stands_handleHeartbeat (cfg : Config) (claims : Claims)
    (body : Except String HeartbeatRequest) (ω : Oracle) :
    Stands cfg (handleHeartbeat cfg claims body, ω) (handleHeartbeat cfg claims body) ω := by
  cases body with
  | error msg => exact .rejected
  | ok req => exact .beats (beats_handleHeartbeat cfg claims req)

/-- A heartbeat is none of the reaper's rounds. -/
theorem handleHeartbeat_ne_reapExpired {body : Except String HeartbeatRequest} :
    handleHeartbeat cfg claims body ≠ reapExpired := by
  cases body with
  | error msg => exact fun h => nomatch h
  | ok req => exact fun h => nomatch h

/-- A heartbeat asks for its key first. -/
theorem key_of_handleHeartbeat {claims' : Claims} {k : String}
    (h : handleHeartbeat cfg claims (.ok ⟨key⟩) = handleHeartbeat cfg claims' (.ok ⟨k⟩)) :
    key = k :=
  Action.storeGet.inj (Program.act.inj h).1

theorem renewing_of_beats {k : String} {p : Handler Response} (h : Beats key p)
    (hr : Renewing k p) : k = key := by
  induction p with
  | ret v => exact hr.elim
  | act a next ih =>
      cases a with
      | storeGet k' => exact hr.elim
      | storeRenew k' expiry => exact (show k' = k from hr).symm.trans h.1
      | isMember id m =>
          obtain ⟨r, hr⟩ := hr
          exact ih r (h r) hr
      | now =>
          obtain ⟨r, hr⟩ := hr
          exact ih r (h r) hr
      | lookup k' =>
          obtain ⟨r, hr⟩ := hr
          exact ih r (h r) hr
      | _ => exact h.elim

end Programs

section Standing

variable {cfg : Config} {ω : Oracle} {a : Action} {next : Reply a → Handler Response}
  {o : Handler Response × Oracle}

/-- A call that stands at an action: on its way through a heartbeat, or at one of
the three stages of a reaper. -/
theorem Stands.cases_act (h : Stands cfg o (.act a next) ω) :
    (∃ claims key ω₀, o = (handleHeartbeat cfg claims (.ok ⟨key⟩), ω₀) ∧
      Beats key (.act a next)) ∨
    ∃ ω₀, o = (reapExpired, ω₀) ∧
      ((ω = ω₀ ∧ Program.act a next = reapExpired) ∨
        Program.act a next =
          (.act (.storeExpired ω₀.clock.head) reapLoop : Handler Response) ∨
        Dropping (.act a next)) := by
  generalize hp : (Program.act a next : Handler Response) = p at h ⊢
  cases h with
  | rejected => exact nomatch hp
  | @beats claims key ω₀ _ _ hbeats => exact Or.inl ⟨claims, key, ω₀, rfl, hbeats⟩
  | renewed => exact nomatch hp
  | waits => exact Or.inr ⟨ω, rfl, Or.inl ⟨rfl, rfl⟩⟩
  | @looks ω₀ => exact Or.inr ⟨ω₀, rfl, Or.inr (Or.inl rfl)⟩
  | @drops ω₀ _ _ hdrop => exact Or.inr ⟨ω₀, rfl, Or.inr (Or.inr hdrop)⟩

/-- Neither kind of call writes an entry. -/
theorem Stands.ne_put (h : Stands cfg o (.act a next) ω) (p : Peer) : a ≠ .storePut p := by
  rintro rfl
  rcases h.cases_act with ⟨claims, key, ω₀, rfl, hbeats⟩ |
    ⟨ω₀, rfl, ⟨rfl, hwait⟩ | hlook | hdrop⟩
  · exact hbeats.elim
  · exact nomatch hwait
  · exact nomatch hlook
  · exact hdrop.elim

/-- A lease is acknowledged by the action that writes it, under the key of the
heartbeat. -/
theorem Stands.answered (h : Stands cfg o (.act a next) ω) {claims : Claims} {key : String}
    {ω₀ : Oracle} (ho : o = (handleHeartbeat cfg claims (.ok ⟨key⟩), ω₀)) {r : Reply a}
    {expiry : Time} (hret : next r = .ret (.renewed expiry)) : a = .storeRenew key expiry := by
  rcases h.cases_act with ⟨claims', k, ω₁, rfl, hbeats⟩ | ⟨ω₁, rfl, -⟩
  · obtain rfl : k = key := key_of_handleHeartbeat (Prod.mk.inj ho).1
    rcases hbeats.cases_act with ⟨expiry', rfl, hnext⟩ | ⟨-, hnext⟩
    · have hexpiry := Response.renewed.inj (Program.ret.inj ((hnext r).symm.trans hret))
      rw [hexpiry]
    · have hrefuses := hnext r
      rw [hret] at hrefuses
      exact absurd rfl (hrefuses expiry)
  · exact absurd (Prod.mk.inj ho).1.symm handleHeartbeat_ne_reapExpired

/-- The actions of a reaper. -/
def Action.Reaps : Action → Prop
  | .now => True
  | .storeExpired _ => True
  | .removePeer _ => True
  | .storeDelete _ => True
  | .release _ => True
  | _ => False

/-- What a reaper does next: it takes its snapshot by the clock it has read, or
performs another of its actions. -/
theorem Stands.reaper (h : Stands cfg o (.act a next) ω) {ω₀ : Oracle}
    (ho : o = (reapExpired, ω₀)) :
    a.Reaps ∧ ((∀ now, a ≠ .storeExpired now) ∨ Program.act a next =
      (.act (.storeExpired ω₀.clock.head) reapLoop : Handler Response)) := by
  rcases h.cases_act with ⟨claims, key, ω₁, rfl, -⟩ | ⟨ω₁, rfl, ⟨rfl, hwait⟩ | hlook | hdrop⟩
  · exact absurd (Prod.mk.inj ho).1 handleHeartbeat_ne_reapExpired
  · cases hwait
    exact ⟨trivial, Or.inl fun _ => Action.noConfusion⟩
  · obtain rfl := (Prod.mk.inj ho).2
    cases hlook
    exact ⟨trivial, Or.inr rfl⟩
  · cases a with
    | removePeer pub => exact ⟨trivial, Or.inl fun _ => Action.noConfusion⟩
    | storeDelete k => exact ⟨trivial, Or.inl fun _ => Action.noConfusion⟩
    | release ip => exact ⟨trivial, Or.inl fun _ => Action.noConfusion⟩
    | _ => exact hdrop.elim

/-- A call that is just started is neither about to write a lease nor about to
take anything away. -/
theorem started_harmless {p : Handler Response} {i : ℕ}
    (hp : Turn.BeatsOrReaps cfg (.start i p ω)) (key addr : String) :
    ¬ Renewing key p ∧ ¬ MayTake key addr p ∧ ∀ expiry, p ≠ .ret (.renewed expiry) := by
  obtain ⟨claims, body, rfl⟩ | rfl := hp
  · cases body with
    | error msg => exact ⟨id, id, fun _ h => nomatch h⟩
    | ok req =>
        exact ⟨id, not_mayTake_of_beats (beats_handleHeartbeat cfg claims req),
          fun _ h => nomatch h⟩
  · refine ⟨?_, ?_, fun _ h => nomatch h⟩
    · rintro ⟨now, ps, hr⟩
      exact not_renewing_of_dropping (dropping_reapLoop ps) hr
    · rintro (h | ⟨now, h⟩)
      · exact h
      · exact h

end Standing

section Steps

variable [GoText.CaseTables] {cfg : Config} {s : Server} {ω : Oracle} {a : Action}
  {next : Reply a → Handler Response} {o : Handler Response × Oracle}

/-- An action of either kind of call writes no entry: what is there afterwards
was there before, but for the lease it may just have written. -/
theorem get_of_get_exec_of_ne_put (hput : ∀ p, a ≠ .storePut p) {k : String} {q : Peer}
    (h : (exec a ω s).2.2.store.get k = some q) :
    ∃ q₀, s.store.get k = some q₀ ∧
      (q = q₀ ∨ ∃ expiry, a = .storeRenew k expiry ∧ q = { q₀ with leaseExpiry := expiry }) := by
  cases a with
  | storePut p => exact absurd rfl (hput p)
  | storeDelete key =>
      simp only [exec, Store.get_delete] at h
      split at h
      · exact absurd h (by simp)
      · exact ⟨q, h, Or.inl rfl⟩
  | storeRenew key expiry =>
      simp only [exec, Store.get_renew] at h
      split at h
      · rename_i hk
        subst hk
        obtain ⟨q₀, hq₀, rfl⟩ := Option.map_eq_some_iff.mp h
        exact ⟨q₀, hq₀, Or.inr ⟨expiry, rfl, rfl⟩⟩
      · exact ⟨q, h, Or.inl rfl⟩
  | _ =>
      rw [store_exec ω s id] at h
      exact ⟨q, h, Or.inl rfl⟩

/-- A reaper's action that takes nothing away of what an entry has keeps it. -/
theorem keeps_of_not_takes {e : Peer} (hreaps : a.Reaps)
    (ha : ¬ Takes e.publicKey (text e.ip) a) : s.Keeps (exec a ω s).2.2 e := by
  cases a with
  | now => exact ⟨rfl, fun _ _ => rfl, id⟩
  | storeExpired now => exact ⟨rfl, fun _ _ => rfl, id⟩
  | removePeer pub =>
      have hstore : (exec (.removePeer pub) ω s).2.2.store = s.store := store_exec ω s id
      refine ⟨by rw [hstore], fun pub' hpub => ?_, fun haddr => ?_⟩
      · have hne : pub' ≠ pub := by
          rintro rfl
          exact ha hpub
        simp only [exec]
        split
        · rw [Device.lookup_removePeer, if_neg hne]
        · rfl
      · simp only [exec]
        split
        · exact haddr
        · exact haddr
  | storeDelete k =>
      have hne : e.publicKey ≠ k := fun h => ha h.symm
      refine ⟨?_, fun _ _ => rfl, id⟩
      simp only [exec, Store.get_delete, if_neg hne]
  | release ip =>
      refine ⟨rfl, fun _ _ => rfl, fun haddr => ?_⟩
      simp only [exec, Ipam.Allocator.release_used, Finset.mem_erase]
      exact ⟨fun h => ha h.symm, haddr⟩
  | _ => exact hreaps.elim

/-- One action of a call, and where it then stands. -/
theorem Stands.act (h : Stands cfg o (.act a next) ω) (s : Server) :
    Stands cfg o (next (exec a ω s).1) (exec a ω s).2.1 := by
  rcases h.cases_act with ⟨claims, key, ω₀, rfl, hbeats⟩ |
    ⟨ω₀, rfl, ⟨rfl, hwait⟩ | hlook | hdrop⟩
  · rcases hbeats.cases_act with ⟨expiry, rfl, hnext⟩ | ⟨-, hnext⟩
    · rw [hnext]
      exact .renewed
    · exact .beats (hnext _)
  · cases hwait
    exact .looks
  · cases hlook
    exact .drops (dropping_reapLoop _)
  · cases a with
    | removePeer pub => exact .drops (hdrop _)
    | storeDelete k => exact .drops (hdrop _)
    | release ip => exact .drops (hdrop _)
    | _ => exact hdrop.elim

/-- A heartbeat comes to be about to write a lease only by finding the entry. -/
theorem Stands.found (h : Stands cfg o (.act a next) ω) {key : String}
    (hr : Renewing key (next (exec a ω s).1)) :
    Renewing key (.act a next) ∨
      a = .storeGet key ∧ ∃ e, s.store.get key = some e := by
  rcases h.cases_act with ⟨claims, k, ω₀, rfl, hbeats⟩ |
    ⟨ω₀, rfl, ⟨rfl, hwait⟩ | hlook | hdrop⟩
  · cases a with
    | storeGet k' =>
        obtain ⟨rfl, hnone, hnext⟩ := hbeats
        right
        obtain rfl : key = k' := renewing_of_beats (hnext _) hr
        cases hget : s.store.get key with
        | none =>
            simp only [exec, hget] at hr
            exact absurd hr hnone
        | some e => exact ⟨rfl, e, rfl⟩
    | storeRenew k' expiry =>
        rw [hbeats.2] at hr
        exact hr.elim
    | isMember id m => exact Or.inl ⟨_, hr⟩
    | now => exact Or.inl ⟨_, hr⟩
    | lookup k' => exact Or.inl ⟨_, hr⟩
    | _ => exact hbeats.elim
  · cases hwait
    exact Or.inl ⟨_, hr⟩
  · cases hlook
    exact absurd hr (not_renewing_of_dropping (dropping_reapLoop _))
  · cases a with
    | removePeer pub => exact Or.inl ⟨_, hr⟩
    | storeDelete k => exact Or.inl ⟨_, hr⟩
    | release ip => exact Or.inl ⟨_, hr⟩
    | _ => exact hdrop.elim

end Steps

end Claimward.Api
