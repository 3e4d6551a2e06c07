import Claimward.Api.Addresses
import Claimward.Api.Independence

/-!
# Requests for different keys

Any number of enrollments, heartbeats and deregistrations for keys apart may
overlap. Whatever the scheduling, every request that has answered has answered
what it answers when they are served one after the other, in the order in which
they went to the pool, whether or not the others have come to their end.

## Implementation notes

Only the pool is shared by such requests, and each goes there once at most. That
two of them never give one address to two peers is an invariant over the run: a
request that holds an address holds it in a balanced book, which the store does
not show while an enrollment is between the pool and the store.
-/

namespace Claimward.Api

open AtomicProgram AtomicProgram.Pool Inet Wg Peers Runs

/-- What a request knows of the address of its key: it has not asked, there is
none, the entry has it, it comes from the pool, or it does not matter any more. -/
inductive Stage where
  | asking
  | vacant
  | found (ip : IP)
  | taken (ip : IP)
  | settled

/-- What a request may do next. -/
def Stage.Allows (key : String) (stage : Stage) : Action → Prop
  | .storeGet k => k = key ∧ stage = .asking
  | .allocate => stage = .vacant
  | .addPeer pub ip => parseKey key = .ok pub ∧ (stage = .found ip ∨ stage = .taken ip)
  | .removePeer pub => parseKey key = .ok pub ∧ ∃ ip, stage = .found ip
  | .storeDelete k => k = key ∧ ∃ ip, stage = .found ip
  | .storeRenew k _ => k = key ∧ ∃ ip, stage = .found ip
  | .release ip => stage = .found ip
  | .storePut e => e.publicKey = key ∧ stage = .settled
  | a => a.Local

/-- What a request knows after an action. -/
def Stage.after (stage : Stage) : (a : Action) → Reply a → Stage
  | .storeGet _, none => .vacant
  | .storeGet _, some e => .found e.ip
  | .allocate, .ok ip => .taken ip
  | .allocate, .error _ => .settled
  | .addPeer _ _, _ => .settled
  | .release _, _ => .settled
  | _, _ => stage

/-- What the key of a request holds after an action of it. -/
def heldAfter (held : Option String) : (a : Action) → Reply a → Option String
  | .allocate, .ok ip => some (text ip)
  | .release _, _ => none
  | _, _ => held

/-- The key holds what the request knows it to hold. Before it asks, that is the
address in the store. -/
def Stage.Fits (held : Option String) (entry : Option Peer) : Stage → Prop
  | .asking => held = entry.map fun p => text p.ip
  | .vacant => held = none
  | .found ip => held = some (text ip)
  | .taken ip => held = some (text ip)
  | .settled => True

/-- The request does not go to the pool any more. -/
def Stage.Spent : Stage → Prop
  | .taken _ => True
  | .settled => True
  | _ => False

/-- The reply is the one of a device that never fails. -/
def Action.Succeeds : (a : Action) → Reply a → Prop
  | .addPeer _ _, ok => ok = true
  | _, _ => True

/-- The rest of a request, by what it knows. -/
def Works (key : String) : Stage → Handler Response → Prop
  | _, .ret _ => True
  | stage, .act a next =>
      stage.Allows key a ∧ ∀ r, a.Succeeds r → Works key (stage.after a r) (next r)

/-- The key a request is for. -/
def Call.key : Call → Option String
  | .enroll _ (.ok req) => some req.publicKey
  | .heartbeat _ (.ok req) => some req.publicKey
  | .deregister _ (.ok req) => some req.publicKey
  | _ => none

/-- The call is a request of a client. -/
def Call.IsRequest : Call → Prop
  | .enroll _ _ => True
  | .heartbeat _ _ => True
  | .deregister _ _ => True
  | _ => False

/-- The requests are not for one key. -/
def Call.Apart (c c' : Call) : Prop :=
  ∀ key key', c.key = some key → c'.key = some key' → KeysApart key key'

section Programs

variable (cfg : Config) (claims : Claims)

theorem works_enrollPeer {req : EnrollRequest} {pub : Key} {expiry : Time} {tenantID : String}
    {stage : Stage} {ip : IP} (hkey : parseKey req.publicKey = .ok pub)
    (hip : stage = .found ip ∨ stage = .taken ip) :
    Works req.publicKey stage (enrollPeer cfg claims req pub expiry tenantID ip) := by
  refine ⟨⟨hkey, hip⟩, fun ok hok => ?_⟩
  obtain rfl : ok = true := hok
  refine ⟨trivial, fun enrolledAt _ => ⟨⟨rfl, rfl⟩, fun _ _ => ⟨trivial, fun routes _ => ?_⟩⟩⟩
  cases routes with
  | none => trivial
  | some rs => trivial

theorem works_enrollAddress {req : EnrollRequest} {pub : Key} {expiry : Time}
    {tenantID : String} (hkey : parseKey req.publicKey = .ok pub) :
    Works req.publicKey .asking (enrollAddress cfg claims req pub expiry tenantID) := by
  refine ⟨⟨rfl, rfl⟩, fun entry _ => ?_⟩
  cases entry with
  | none =>
      refine ⟨rfl, fun answer _ => ?_⟩
      cases answer with
      | error msg => trivial
      | ok ip => exact works_enrollPeer cfg claims hkey (Or.inr rfl)
  | some e =>
      change Works req.publicKey (.found e.ip) (if e.subject ≠ claims.subject then _ else _)
      split
      · trivial
      · exact works_enrollPeer cfg claims hkey (Or.inl rfl)

theorem works_handleEnroll (req : EnrollRequest) :
    Works req.publicKey .asking (handleEnroll cfg claims (.ok req)) := by
  apply handleEnroll_rule
  · exact fun r _ => trivial
  · exact fun next ih => ⟨trivial, fun t _ => ih t⟩
  · exact fun key next ih => ⟨trivial, fun r _ => ih r⟩
  · intro req' pub expiry next heq hkey hnext
    obtain rfl := Except.ok.inj heq
    refine ⟨trivial, fun ts _ => ?_⟩
    rcases hnext ts with ⟨r, -, heq⟩ | ⟨tenantID, -, heq⟩
    · rw [heq]
      trivial
    · rw [heq]
      exact works_enrollAddress cfg claims hkey

theorem works_handleHeartbeat (req : HeartbeatRequest) :
    Works req.publicKey .asking (handleHeartbeat cfg claims (.ok req)) := by
  refine ⟨⟨rfl, rfl⟩, fun entry _ => ?_⟩
  cases entry with
  | none => trivial
  | some e =>
      change Works req.publicKey (.found e.ip) (if e.subject ≠ claims.subject then _ else _)
      split
      · trivial
      · refine ⟨trivial, fun member _ => ?_⟩
        match member with
        | none => trivial
        | some false => trivial
        | some true =>
            refine ⟨trivial, fun now _ => ?_⟩
            apply registered_rule (Q := Works req.publicKey (.found e.ip))
            · exact fun next ih => ⟨trivial, fun r _ => ih r⟩
            · intro answer
              cases answer with
              | none => trivial
              | some expiry => exact ⟨⟨rfl, e.ip, rfl⟩, fun _ _ => trivial⟩

theorem works_handleDeregister (req : DeregisterRequest) :
    Works req.publicKey .asking (handleDeregister claims (.ok req)) := by
  refine ⟨⟨rfl, rfl⟩, fun entry _ => ?_⟩
  cases entry with
  | none => trivial
  | some e =>
      change Works req.publicKey (.found e.ip) (if e.subject ≠ claims.subject then _ else _)
      split
      · trivial
      · have hdelete : Works req.publicKey (.found e.ip)
            (.act (.storeDelete req.publicKey) fun _ =>
              .act (.release e.ip) fun _ => .ret .noContent) :=
          ⟨⟨rfl, e.ip, rfl⟩, fun _ _ => ⟨rfl, fun _ _ => trivial⟩⟩
        unfold dropPeer
        cases hkey : parseKey req.publicKey with
        | error msg => exact hdelete
        | ok pub => exact ⟨⟨hkey, e.ip, rfl⟩, fun _ _ => hdelete⟩

/-- Every request starts without having asked for its key. A body that does not
decode is refused at once. -/
theorem Call.IsRequest.works {c : Call} (h : c.IsRequest) :
    (∃ r, c.program cfg = .ret r) ∨
      ∃ key, c.key = some key ∧ Works key .asking (c.program cfg) := by
  cases c with
  | enroll claims body =>
      cases body with
      | error msg => exact Or.inl ⟨_, rfl⟩
      | ok req => exact Or.inr ⟨_, rfl, works_handleEnroll cfg claims req⟩
  | heartbeat claims body =>
      cases body with
      | error msg => exact Or.inl ⟨_, rfl⟩
      | ok req => exact Or.inr ⟨_, rfl, works_handleHeartbeat cfg claims req⟩
  | deregister claims body =>
      cases body with
      | error msg => exact Or.inl ⟨_, rfl⟩
      | ok req => exact Or.inr ⟨_, rfl, works_handleDeregister claims req⟩
  | _ => exact h.elim

end Programs

section Actions

variable {key : String} {stage : Stage} {a : Action}

theorem Stage.Allows.about (h : stage.Allows key a) : a.About key := by
  cases a with
  | storeGet k => exact .entry h.1
  | storePut e => exact .entry h.1
  | storeDelete k => exact .entry h.1
  | storeRenew k t => exact .entry h.1
  | allocate => exact .pool rfl
  | release ip => exact .pool rfl
  | addPeer pub ip => exact .peer pub h.1 rfl
  | removePeer pub => exact .peer pub h.1 rfl
  | _ => exact .reads h

/-- A request goes to the pool only while it is not spent, and is then. -/
theorem Stage.Allows.onPool (h : stage.Allows key a) (hpool : a.onPool = true) (r : Reply a) :
    ¬ stage.Spent ∧ (stage.after a r).Spent := by
  cases a with
  | allocate =>
      obtain rfl : stage = .vacant := h
      cases r with
      | error msg => exact ⟨id, trivial⟩
      | ok ip => exact ⟨id, trivial⟩
  | release ip =>
      obtain rfl : stage = .found ip := h
      exact ⟨id, trivial⟩
  | _ => exact absurd hpool (by simp [Action.onPool])

theorem Stage.Allows.spent (h : stage.Allows key a) (hspent : stage.Spent) (r : Reply a) :
    (stage.after a r).Spent := by
  cases a with
  | storeGet k =>
      obtain ⟨-, rfl⟩ := h
      exact hspent.elim
  | allocate => exact (h.onPool rfl r).2
  | release ip => exact (h.onPool rfl r).2
  | addPeer pub ip => trivial
  | _ => exact hspent

theorem Stage.after_local (stage : Stage) (h : a.Local) (r : Reply a) (held : Option String) :
    stage.after a r = stage ∧ heldAfter held a r = held := by
  cases a with
  | now => exact ⟨rfl, rfl⟩
  | lookup k => exact ⟨rfl, rfl⟩
  | tenantsFor m => exact ⟨rfl, rfl⟩
  | isMember id m => exact ⟨rfl, rfl⟩
  | routes id => exact ⟨rfl, rfl⟩
  | _ => exact h.elim

/-- A settled request stays settled, and its key holds what it held. -/
theorem Stage.Allows.settled (h : Stage.Allows key .settled a) (r : Reply a)
    (held : Option String) :
    Stage.after .settled a r = .settled ∧ heldAfter held a r = held := by
  cases a with
  | storeGet k => exact absurd h.2 (by simp)
  | allocate => exact absurd h (by simp [Stage.Allows])
  | release ip => exact absurd h (by simp [Stage.Allows])
  | addPeer pub ip => exact ⟨rfl, rfl⟩
  | _ => exact ⟨rfl, rfl⟩

variable [GoText.CaseTables] {ω : Oracle} {s : Server} {held : Option String}

theorem Oracle.Reliable.succeeds (hω : ω.Reliable) (a : Action) (s : Server) :
    a.Succeeds (Api.exec a ω s).1 := by
  cases a with
  | addPeer pub ip => exact hω.addOk 0
  | _ => trivial

/-- What the request knows stays true. -/
theorem Stage.Fits.step (h : stage.Fits held (s.store.get key)) (ha : stage.Allows key a) :
    (stage.after a (exec a ω s).1).Fits (heldAfter held a (exec a ω s).1)
      ((exec a ω s).2.2.store.get key) := by
  by_cases hlocal : a.Local
  · obtain ⟨hstage, hheld⟩ := stage.after_local hlocal (exec a ω s).1 held
    rw [hstage, hheld, exec_local_state hlocal]
    exact h
  cases a with
  | storeGet k =>
      obtain ⟨rfl, rfl⟩ := ha
      simp only [exec]
      cases hget : s.store.get k with
      | none =>
          rw [hget] at h
          exact h
      | some e =>
          rw [hget] at h
          exact h
  | allocate =>
      obtain rfl : stage = .vacant := ha
      simp only [exec]
      cases hanswer : s.alloc.allocate.1 with
      | error msg => trivial
      | ok ip => rfl
  | release ip => trivial
  | addPeer pub ip => trivial
  | removePeer pub =>
      obtain ⟨-, ip, rfl⟩ := ha
      exact h
  | storeDelete k =>
      obtain ⟨-, ip, rfl⟩ := ha
      exact h
  | storeRenew k t =>
      obtain ⟨-, ip, rfl⟩ := ha
      exact h
  | storePut e =>
      obtain ⟨-, rfl⟩ := ha
      trivial
  | _ => exact absurd ha hlocal

/-- A request for another key leaves the entry alone. -/
theorem Action.About.get_exec (h : a.About key) {k : String} (hk : k ≠ key) :
    (exec a ω s).2.2.store.get k = s.store.get k := by
  cases h with
  | reads h => rw [exec_local_state h]
  | entry h =>
      obtain ⟨f, reply, new, hexec, -, hget⟩ := exec_entry h
      rw [hexec]
      exact (hget s.store k).trans (if_neg hk)
  | pool h =>
      obtain ⟨f, hexec⟩ := exec_onPool h
      rw [hexec]
  | peer pub hkey h =>
      obtain ⟨f, hexec⟩ := exec_peer h
      rw [hexec]

/-- An action that does not go to the pool leaves the book as it is. -/
theorem Action.About.book_exec (h : a.About key) (hpool : a.onPool = false)
    (held : Option String) :
    (exec a ω s).2.2.alloc = s.alloc ∧ heldAfter held a (exec a ω s).1 = held := by
  have hheld : heldAfter held a (exec a ω s).1 = held := by
    cases a with
    | allocate => exact absurd hpool (by simp [Action.onPool])
    | release ip => exact absurd hpool (by simp [Action.onPool])
    | _ => rfl
  refine ⟨?_, hheld⟩
  cases h with
  | reads h => rw [exec_local_state h]
  | entry h =>
      obtain ⟨f, reply, new, hexec, -⟩ := exec_entry h
      rw [hexec]
  | pool h => exact absurd hpool (by simp [h])
  | peer pub hkey h =>
      obtain ⟨f, hexec⟩ := exec_peer h
      rw [hexec]

/-- Every action of a request keeps the book balanced. -/
theorem Stage.Allows.balanced {hold : String → Option String} {fixed : Set String}
    (ha : stage.Allows key a) (hfits : stage.Fits (hold key) (s.store.get key))
    (h : LeaseBook.Balanced fixed ⟨hold, s.alloc.used⟩) :
    LeaseBook.Balanced fixed
      ⟨Function.update hold key (heldAfter (hold key) a (exec a ω s).1),
        (exec a ω s).2.2.alloc.used⟩ := by
  cases hpool : a.onPool with
  | false =>
      obtain ⟨halloc, hheld⟩ := ha.about.book_exec (ω := ω) (s := s) hpool (hold key)
      rw [halloc, hheld, Function.update_eq_self]
      exact h
  | true =>
      cases a with
      | allocate =>
          obtain rfl : stage = .vacant := ha
          cases hfree : s.alloc.free with
          | none =>
              simp only [exec, Ipam.Allocator.allocate_of_exhausted hfree, heldAfter,
                Function.update_eq_self]
              exact h
          | some ip =>
              simp only [exec, Ipam.Allocator.allocate_of_free hfree, heldAfter]
              refine h.step (.take key (text ip) hfits (Ipam.Allocator.free_not_used hfree)
                (Function.update_self _ _ _) (fun k hk => Function.update_of_ne hk _ _) ?_)
              intro x
              simp
      | release ip =>
          obtain rfl : stage = .found ip := ha
          simp only [exec, heldAfter]
          refine h.step (.giveUp (fun k => ?_) fun x => ?_)
          · by_cases hk : k = key
            · rw [hk]
              exact Or.inl (Function.update_self _ _ _)
            · exact Or.inr (Function.update_of_ne hk _ _)
          · simp only [Ipam.Allocator.release_used, Finset.coe_erase, Set.mem_sdiff,
              Set.mem_singleton_iff]
            refine and_congr_right fun _ => ⟨fun hne k hk => ?_, fun hkeep hx => ?_⟩
            · have hkey : k ≠ key := by
                intro hkey
                rw [hkey, hfits] at hk
                exact hne (Option.some.inj hk).symm
              exact (Function.update_of_ne hkey _ _).trans hk
            · have := hkeep key (hx ▸ hfits)
              simp at this
      | _ => exact absurd hpool (by simp [Action.onPool])

end Actions

section Progress

variable [GoText.CaseTables]

/-- How far the requests are, after the steps they have taken: what each knows,
what each key holds, and which steps went to the pool and to the device. -/
structure Progress (key : ℕ → Option String) (fixed : Set String) (stage : ℕ → Stage)
    (hold : String → Option String) (past : List (ℕ × Action)) (c : Threads) : Prop where
  balanced : LeaseBook.Balanced fixed ⟨hold, c.shared.alloc.used⟩
  works : ∀ i p ω, c.thread i = some (p, ω) →
    ω.Reliable ∧ ((∃ r, p = .ret r) ∨ ∃ k, key i = some k ∧ Works k (stage i) p)
  fits : ∀ i k, key i = some k → (stage i).Fits (hold k) (c.shared.store.get k)
  about : ∀ e ∈ past, ∃ k, key e.1 = some k ∧ e.2.About k
  adds : ∀ i pub ip, (i, .addPeer pub ip) ∈ past →
    stage i = .settled ∧ ∀ k, key i = some k → hold k = some (text ip)
  spent : ∀ e ∈ past, e.2.onPool = true → (stage e.1).Spent
  once : past.Pairwise fun e f => e.2.onPool = true → f.2.onPool = true → e.1 ≠ f.1

variable {key : ℕ → Option String} {fixed : Set String}

/-- One step of one request. -/
theorem Progress.step {stage : ℕ → Stage} {hold : String → Option String}
    {past : List (ℕ × Action)} {c : Threads} (h : Progress key fixed stage hold past c)
    (hinj : ∀ i j k, key i = some k → key j = some k → i = j) {i : ℕ} {a : Action}
    {next : Reply a → Handler Response} {ω : Oracle} (hi : c.thread i = some (.act a next, ω)) :
    ∃ stage' hold',
      Progress key fixed stage' hold' (past ++ [(i, a)]) (c.move exec (.advance i)) := by
  obtain ⟨hω, hret | ⟨k, hk, hallows, hnext⟩⟩ := h.works i _ ω hi
  · exact absurd hret (by simp)
  have hother : ∀ {j k'}, j ≠ i → key j = some k' → k' ≠ k := by
    intro j k' hji hj hkk
    exact hji (hinj j i k (hkk ▸ hj) hk)
  have hfits := h.fits i k hk
  set r := (exec a ω c.shared).1 with hr
  refine ⟨Function.update stage i ((stage i).after a r),
    Function.update hold k (heldAfter (hold k) a r), ?_⟩
  rw [move_advance hi]
  refine ⟨hallows.balanced hfits h.balanced, ?_, ?_, ?_, ?_, ?_, ?_⟩
  · intro j p ω' hj
    rcases thread_update hj with ⟨rfl, rfl, rfl⟩ | ⟨hji, hj⟩
    · refine ⟨hω.exec a _, Or.inr ⟨k, hk, ?_⟩⟩
      rw [Function.update_self]
      exact hnext _ (hω.succeeds a _)
    · rw [Function.update_of_ne hji]
      exact h.works j p ω' hj
  · intro j k' hj
    by_cases hji : j = i
    · subst hji
      obtain rfl := Option.some.inj (hk.symm.trans hj)
      rw [Function.update_self, Function.update_self]
      exact hfits.step hallows
    · have hkk := hother hji hj
      rw [Function.update_of_ne hji, Function.update_of_ne hkk, hallows.about.get_exec hkk]
      exact h.fits j k' hj
  · intro e he
    rcases List.mem_append.mp he with he | he
    · exact h.about e he
    · obtain rfl := List.mem_singleton.mp he
      exact ⟨k, hk, hallows.about⟩
  · intro j pub ip hj
    rcases List.mem_append.mp hj with hj | hj
    · obtain ⟨hsettled, hheld⟩ := h.adds j pub ip hj
      by_cases hji : j = i
      · subst hji
        rw [hsettled] at hallows ⊢
        obtain ⟨hstage, hsame⟩ := hallows.settled r (hold k)
        rw [Function.update_self, hstage, hsame, Function.update_eq_self]
        exact ⟨rfl, hheld⟩
      · rw [Function.update_of_ne hji]
        refine ⟨hsettled, fun k' hk' => ?_⟩
        rw [Function.update_of_ne (hother hji hk')]
        exact hheld k' hk'
    · obtain ⟨rfl, rfl⟩ := Prod.mk.inj (List.mem_singleton.mp hj)
      rw [Function.update_self]
      refine ⟨rfl, fun k' hk' => ?_⟩
      obtain rfl := Option.some.inj (hk.symm.trans hk')
      rw [Function.update_self]
      rcases hallows.2 with hstage | hstage
      · rw [hstage] at hfits
        exact hfits
      · rw [hstage] at hfits
        exact hfits
  · intro e he hpool
    rcases List.mem_append.mp he with he | he
    · have hspent := h.spent e he hpool
      by_cases hei : e.1 = i
      · rw [hei, Function.update_self]
        rw [hei] at hspent
        exact hallows.spent hspent r
      · rw [Function.update_of_ne hei]
        exact hspent
    · obtain rfl := List.mem_singleton.mp he
      rw [Function.update_self]
      exact (hallows.onPool hpool r).2
  · refine List.pairwise_append.mpr ⟨h.once, List.pairwise_singleton _ _, ?_⟩
    intro e he f hf hpool hpool' hsame
    obtain rfl := List.mem_singleton.mp hf
    have hspent := h.spent e he hpool
    rw [show e.1 = i from hsame] at hspent
    exact (hallows.onPool hpool' r).1 hspent

end Progress

section Serial

/-- The server with some calls begun, each in its own slot. -/
def Server.begun (cfg : Config) (s : Server) (calls : List (Call × Oracle)) : Threads :=
  ⟨s, fun i => calls[i]?.map fun l => (l.1.program cfg, l.2)⟩

/-- The server and its calls when the slots have been given turns. -/
abbrev Server.overlap [GoText.CaseTables] (cfg : Config) (s : Server) (calls : List (Call × Oracle))
    (schedule : List ℕ) : Threads :=
  run (Pool.move exec) (s.begun cfg calls) (schedule.map .advance)

/-- The calls of some slots, in their order. -/
abbrev select (calls : List (Call × Oracle)) (order : List ℕ) : List (Call × Oracle) :=
  order.filterMap fun i => calls[i]?

variable {calls : List (Call × Oracle)}

section Begun

variable [GoText.CaseTables] {cfg : Config} {s : Server}

theorem alone_begun {i : ℕ} {l : Call × Oracle} (hl : calls[i]? = some l) (t : Server) :
    alone exec (s.begun cfg calls).thread t i =
      (some (l.1.response cfg l.2 t), t.serve cfg l) := by
  simp only [alone, Server.begun, hl, Option.map_some]
  rfl

theorem inTurn_begun (t : Server) (order : List ℕ) :
    inTurn exec (s.begun cfg calls).thread t order = t.serveAll cfg (select calls order) := by
  induction order generalizing t with
  | nil => rfl
  | cons i order ih =>
      rw [inTurn_cons, ih]
      cases hi : calls[i]? with
      | none =>
          rw [select, select, List.filterMap_cons_none hi]
          simp only [alone, Server.begun, hi, Option.map_none]
      | some l =>
          rw [select, select, List.filterMap_cons_some hi, alone_begun hi]
          rfl

end Begun

/-- The key of the request in a slot. -/
def slotKey (calls : List (Call × Oracle)) (i : ℕ) : Option String :=
  calls[i]?.bind fun l => l.1.key

theorem slotKey_apart (hapart : calls.Pairwise fun l l' => l.1.Apart l'.1) {i j : ℕ}
    (hij : i ≠ j) {k k' : String} (hi : slotKey calls i = some k)
    (hj : slotKey calls j = some k') : KeysApart k k' := by
  obtain ⟨l, hl, hk⟩ := Option.bind_eq_some_iff.mp hi
  obtain ⟨l', hl', hk'⟩ := Option.bind_eq_some_iff.mp hj
  obtain ⟨hilt, rfl⟩ := List.getElem?_eq_some_iff.mp hl
  obtain ⟨hjlt, rfl⟩ := List.getElem?_eq_some_iff.mp hl'
  rcases Nat.lt_or_gt_of_ne hij with hlt | hgt
  · exact List.pairwise_iff_getElem.mp hapart i j hilt hjlt hlt k k' hk hk'
  · obtain ⟨hne, hpub⟩ := List.pairwise_iff_getElem.mp hapart j i hjlt hilt hgt k' k hk' hk
    exact ⟨hne.symm, fun pub hkey hkey' => hpub pub hkey' hkey⟩

theorem progress_begun {cfg : Config} {s : Server} {fixed : Set String}
    (hbal : LeaseBook.Balanced fixed s.book)
    (hreq : ∀ l ∈ calls, l.1.IsRequest ∧ l.2.Reliable) :
    Progress (slotKey calls) fixed (fun _ => .asking) s.book.holds [] (s.begun cfg calls) where
  balanced := hbal
  works := by
    intro i p ω hi
    obtain ⟨l, hl, heq⟩ := Option.map_eq_some_iff.mp hi
    obtain ⟨rfl, rfl⟩ := Prod.mk.inj heq
    obtain ⟨hrequest, hω⟩ := hreq l (List.mem_of_getElem? hl)
    refine ⟨hω, (hrequest.works cfg).imp_right ?_⟩
    rintro ⟨k, hk, hworks⟩
    exact ⟨k, by simp [slotKey, hl, hk], hworks⟩
  fits := fun _ _ _ => rfl
  about := by simp
  adds := by simp
  spent := by simp
  once := .nil

/-- The slots in the order in which they went to the pool, and then the others. -/
def poolOrder (n : ℕ) (past : List (ℕ × Action)) : List ℕ :=
  let first := (past.filter (·.2.onPool)).map Prod.fst
  first ++ (List.range n).filter (· ∉ first)

theorem poolOrder_nodup {n : ℕ} {past : List (ℕ × Action)}
    (honce : past.Pairwise fun e f => e.2.onPool = true → f.2.onPool = true → e.1 ≠ f.1) :
    (poolOrder n past).Nodup := by
  refine List.nodup_append.mpr ⟨?_, List.nodup_range.filter _, ?_⟩
  · rw [List.Nodup, List.pairwise_map, List.pairwise_filter]
    exact honce
  · intro i hi j hj hij
    have hnot := of_decide_eq_true (List.mem_filter.mp hj).2
    exact hnot (hij ▸ hi)

theorem poolOrder_perm {n : ℕ} {past : List (ℕ × Action)} (hslots : ∀ e ∈ past, e.1 < n)
    (honce : past.Pairwise fun e f => e.2.onPool = true → f.2.onPool = true → e.1 ≠ f.1) :
    (poolOrder n past).Perm (List.range n) := by
  refine (List.perm_ext_iff_of_nodup (poolOrder_nodup honce) List.nodup_range).mpr fun i => ?_
  simp only [poolOrder, List.mem_append, List.mem_filter, decide_eq_true_eq]
  constructor
  · rintro (hi | ⟨hi, -⟩)
    · obtain ⟨e, he, rfl⟩ := List.mem_map.mp hi
      exact List.mem_range.mpr (hslots e (List.mem_filter.mp he).1)
    · exact hi
  · intro hi
    exact (em _).imp_right fun hnot => ⟨hi, hnot⟩

/-- Two steps to the pool stand as the order has their slots. -/
theorem poolOrder_respects {n : ℕ} {past : List (ℕ × Action)}
    (honce : past.Pairwise fun e f => e.2.onPool = true → f.2.onPool = true → e.1 ≠ f.1) :
    past.Pairwise fun e f => [f.1, e.1].Sublist (poolOrder n past) →
      ¬ (e.2.onPool = true ∧ f.2.onPool = true) := by
  rw [List.pairwise_iff_forall_sublist]
  rintro e f hef hfe ⟨he, hf⟩
  refine not_sublist_swap (poolOrder_nodup honce) ?_ hfe
  have hsub := (hef.filter fun e => e.2.onPool).map Prod.fst
  simp only [List.filter_cons, he, hf, if_true, List.filter_nil, List.map_cons,
    List.map_nil] at hsub
  exact hsub.trans (List.sublist_append_left _ _)

/-- They still do when the unfinished requests go on, one after the other in that
order: who has been at the pool does not go there again. -/
theorem poolOrder_respects_append {n : ℕ} {past more : List (ℕ × Action)}
    (honce : (past ++ more).Pairwise fun e f =>
      e.2.onPool = true → f.2.onPool = true → e.1 ≠ f.1)
    (hmore : more.Pairwise fun e f => e.1 = f.1 ∨ [e.1, f.1].Sublist (poolOrder n past)) :
    (past ++ more).Pairwise fun e f => [f.1, e.1].Sublist (poolOrder n past) →
      ¬ (e.2.onPool = true ∧ f.2.onPool = true) := by
  obtain ⟨hpast, honce', hcross⟩ := List.pairwise_append.mp honce
  have hnodup := poolOrder_nodup (n := n) hpast
  refine List.pairwise_append.mpr ⟨poolOrder_respects hpast, ?_, ?_⟩
  · refine (honce'.and hmore).imp fun {e f} hef hfe hpool => ?_
    have hsub := hef.2.resolve_left (hef.1 hpool.1 hpool.2)
    exact not_sublist_swap hnodup hsub hfe
  · rintro e he f hf hfe ⟨hpool, hpool'⟩
    have hfirst : e.1 ∈ (past.filter (·.2.onPool)).map Prod.fst :=
      List.mem_map.mpr ⟨e, List.mem_filter.mpr ⟨he, hpool⟩, rfl⟩
    have hlater : f.1 ∉ (past.filter (·.2.onPool)).map Prod.fst := by
      intro hmem
      obtain ⟨e', he', heq⟩ := List.mem_map.mp hmem
      obtain ⟨he', hpool''⟩ := List.mem_filter.mp he'
      exact hcross e' he' f hf hpool'' hpool' heq
    have hrest := (List.mem_append.mp (hfe.subset List.mem_cons_self)).resolve_left hlater
    refine not_sublist_swap hnodup ?_ hfe
    exact (List.singleton_sublist.mpr hfirst).append (List.singleton_sublist.mpr hrest)

variable [GoText.CaseTables] {cfg : Config} {s : Server}

section Ended

variable {fixed : Set String} {past : List (ℕ × Action)} {d : Threads} {order : List ℕ}

/-- What the steps of requests for keys apart have in common. -/
theorem exists_progress (hbal : LeaseBook.Balanced fixed s.book)
    (hreq : ∀ l ∈ calls, l.1.IsRequest ∧ l.2.Reliable)
    (hapart : calls.Pairwise fun l l' => l.1.Apart l'.1)
    (hsteps : Steps exec (s.begun cfg calls) past d) :
    ∃ stage hold, Progress (slotKey calls) fixed stage hold past d := by
  have hinj : ∀ i j k, slotKey calls i = some k → slotKey calls j = some k → i = j := by
    intro i j k hi hj
    by_contra hij
    exact (slotKey_apart hapart hij hi hj).1 rfl
  refine hsteps.invariant
    (J := fun past c => ∃ stage hold, Progress (slotKey calls) fixed stage hold past c)
    ⟨_, _, progress_begun hbal hreq⟩ ?_
  rintro past c i a next ω ⟨_, _, hc⟩ hi
  exact hc.step hinj hi

omit [GoText.CaseTables] in
/-- Every step is that of one of the requests. -/
theorem Progress.slot_lt {stage : ℕ → Stage} {hold : String → Option String}
    (h : Progress (slotKey calls) fixed stage hold past d) :
    ∀ e ∈ past, e.1 < calls.length := by
  intro e he
  obtain ⟨k, hk, -⟩ := h.about e he
  obtain ⟨l, hl, -⟩ := Option.bind_eq_some_iff.mp hk
  exact (List.getElem?_eq_some_iff.mp hl).1

/-- Steps of two requests do not clash unless both go to the pool. -/
theorem Progress.independent {stage : ℕ → Stage} {hold : String → Option String}
    (h : Progress (slotKey calls) fixed stage hold past d)
    (hapart : calls.Pairwise fun l l' => l.1.Apart l'.1) {e f : ℕ × Action} (he : e ∈ past)
    (hf : f ∈ past) (hne : e.1 ≠ f.1) (hpool : ¬ (e.2.onPool = true ∧ f.2.onPool = true)) :
    Independent exec Server.Same e.2 f.2 := by
  obtain ⟨k, hk, habout⟩ := h.about e he
  obtain ⟨k', hk', habout'⟩ := h.about f hf
  have hkeys := slotKey_apart hapart hne hk hk'
  refine habout.independent hkeys habout' hpool ?_
  rintro ⟨pub, pub', ip, ip', ha, hb, htext⟩
  have hheld := (h.adds e.1 pub ip (by rw [← ha]; exact he)).2 k hk
  have hheld' := (h.adds f.1 pub' ip' (by rw [← hb]; exact hf)).2 k' hk'
  rw [← htext] at hheld'
  exact hkeys.1 (h.balanced.exclusive hheld hheld')

/-- Requests that have all come to their end have answered as in an order that has
those who went to the pool as they went there. -/
theorem serial_of_ended (hbal : LeaseBook.Balanced fixed s.book)
    (hreq : ∀ l ∈ calls, l.1.IsRequest ∧ l.2.Reliable)
    (hapart : calls.Pairwise fun l l' => l.1.Apart l'.1)
    (hsteps : Steps exec (s.begun cfg calls) past d)
    (hperm : order.Perm (List.range calls.length))
    (hrespects : past.Pairwise fun e f => [f.1, e.1].Sublist order →
      ¬ (e.2.onPool = true ∧ f.2.onPool = true))
    (hended : ∀ i ∈ order, ¬ d.InFlight i) :
    Server.Same d.shared (s.serveAll cfg (select calls order)) ∧
      ∀ before i after l, order = before ++ i :: after → calls[i]? = some l →
        d.result i = some (l.1.response cfg l.2 (s.serveAll cfg (select calls before))) := by
  obtain ⟨stage, hold, hend⟩ := exists_progress hbal hreq hapart hsteps
  have hnodup : order.Nodup := hperm.nodup_iff.mpr List.nodup_range
  -- Steps the order wants exchanged are of different slots, and do not clash.
  have hind : past.Pairwise fun e f => [f.1, e.1].Sublist order →
      Independent exec Server.Same e.2 f.2 := by
    refine hrespects.imp_of_mem fun {e f} he hf hpool hfe => ?_
    have hne : e.1 ≠ f.1 := by
      intro hsame
      have hpair := hnodup.sublist hfe
      simp [hsame] at hpair
    exact hend.independent hapart he hf hne (hpool hfe)
  have hslots : ∀ e ∈ past, e.1 ∈ order := by
    intro e he
    rw [hperm.mem_iff, List.mem_range]
    exact hend.slot_lt e he
  obtain ⟨hsame, hresults⟩ := hsteps.serial Server.same_equivalence hnodup hslots hind
    (fun e he => (hend.about e he).elim fun k hk => hk.2.respects) hended
  constructor
  · rw [inTurn_begun] at hsame
    exact hsame
  · intro before i after l horder hl
    rw [hresults before i after horder, alone_begun hl, inTurn_begun]
    rfl

end Ended

/-- Any number of requests for keys apart, overlapping as they like on a device
that never fails, from a server whose book is balanced. Take the requests in the
order in which they went to the pool, and then the others. Every request that has
answered has answered what it answers when they are served one after the other in
that order; and when all have answered, the server answers every lookup as it does
then. -/
theorem requests_serialize (cfg : Config) {fixed : Set String}
    (hbal : LeaseBook.Balanced fixed s.book)
    (hreq : ∀ l ∈ calls, l.1.IsRequest ∧ l.2.Reliable)
    (hapart : calls.Pairwise fun l l' => l.1.Apart l'.1) (schedule : List ℕ) :
    let c := s.overlap cfg calls schedule
    let order := poolOrder calls.length (stepsOf exec (s.begun cfg calls) schedule)
    order.Perm (List.range calls.length) ∧
      (∀ before i after l r, order = before ++ i :: after → calls[i]? = some l →
        c.result i = some r →
          r = l.1.response cfg l.2 (s.serveAll cfg (select calls before))) ∧
      ((∀ i < calls.length, (c.result i).isSome = true) →
        Server.Same c.shared (s.serveAll cfg (select calls order))) := by
  intro c order
  have hsteps := steps_stepsOf exec (s.begun cfg calls) schedule
  obtain ⟨stage, hold, hnow⟩ := exists_progress hbal hreq hapart hsteps
  have hperm : order.Perm (List.range calls.length) := poolOrder_perm hnow.slot_lt hnow.once
  -- The requests that are still in progress are run to their end, in the same order.
  obtain ⟨more, d, hmore, hslots, hended, hsorted⟩ := exists_ends exec c order
  have hall := hsteps.append hmore
  obtain ⟨stage', hold', hend⟩ := exists_progress hbal hreq hapart hall
  obtain ⟨hsame, hresults⟩ := serial_of_ended hbal hreq hapart hall hperm
    (poolOrder_respects_append hend.once hsorted) hended
  refine ⟨hperm, ?_, ?_⟩
  · intro before i after l r horder hl hr
    have hstays : d.result i = some r := hmore.result_eq hr
    exact Option.some.inj (hstays.symm.trans (hresults before i after l horder hl))
  · intro hdone
    -- With all of them at their end, nothing was left to run.
    have hnothing : more = [] := by
      cases hmore with
      | nil => rfl
      | @cons _ _ i a l hnext hrest =>
          have hi : i ∈ order := hslots (i, a) List.mem_cons_self
          have hret := hdone i (List.mem_range.mp (hperm.mem_iff.mp hi))
          obtain ⟨next, ω, hfly⟩ := thread_of_nextAction hnext
          simp [result, hfly] at hret
    subst hnothing
    cases hmore
    exact hsame

end Serial

/-- Enrollments of two keys. -/
private def twoEnrollments : List (Call × Oracle) :=
  [(Sample.enroll "alice" Sample.key₁, Sample.oracle true true),
    (Sample.enroll "bob" Sample.key₂, Sample.oracle true true)]

/-- Bob's enrollment begins after Alice's, is first at the pool and answers first. -/
private def bobOvertakes : List ℕ := [0, 0, 1, 1, 1, 1, 0, 1, 0, 0, 1, 0, 0, 1, 1]

attribute [local instance] GoText.asciiTables

theorem overlapping_enrollments_serialized :
    let cfg := Sample.config false
    let c := Sample.start.overlap cfg twoEnrollments bobOvertakes
    poolOrder 2 (stepsOf exec (Sample.start.begun cfg twoEnrollments) bobOvertakes) = [1, 0] ∧
      c.result 0 = none ∧
      c.result 1 = some ((Sample.enroll "bob" Sample.key₂).response cfg
        (Sample.oracle true true) Sample.start) := by
  intro cfg c
  have hkeys : KeysApart Sample.key₁ Sample.key₂ := by
    refine ⟨by decide, fun pub hkey hkey' => ?_⟩
    exact absurd (hkey.trans hkey'.symm) (by decide +kernel)
  have horder : poolOrder 2 (stepsOf exec (Sample.start.begun cfg twoEnrollments) bobOvertakes) =
      [1, 0] := by decide +kernel
  have hreq : ∀ l ∈ twoEnrollments, l.1.IsRequest ∧ l.2.Reliable := by
    simp [twoEnrollments, Sample.enroll, Call.IsRequest, Sample.reliable]
  have hapart : twoEnrollments.Pairwise fun l l' => l.1.Apart l'.1 := by
    refine List.pairwise_pair.mpr ?_
    intro key key' hkey hkey'
    obtain rfl := Option.some.inj hkey
    obtain rfl := Option.some.inj hkey'
    exact hkeys
  have hbob : (c.result 1).isSome = true := by decide +kernel
  obtain ⟨r, hr⟩ := Option.isSome_iff_exists.mp hbob
  obtain ⟨-, hanswers, -⟩ :=
    requests_serialize cfg (balanced_start Sample.new_pool) hreq hapart bobOvertakes
  refine ⟨horder, by decide +kernel, ?_⟩
  rw [hr, hanswers [] 1 [0] _ r horder rfl hr]
  rfl

end Claimward.Api
