import Claimward.Api.Enrolling
import Claimward.Library.Conflicts

/-!
# Which actions of two requests can be told apart

A request reads the registry, the tenants and the clock, works on the store's
entry and the device's peer of its own key, and takes or gives back addresses.
Two actions of requests for different keys do not see each other, unless both
go to the pool, or both give one address to a peer.
-/

namespace Claimward.Api

open AtomicProgram AtomicProgram.Pool Inet Wg Peers

/-- The actions on the store's entry of a key. -/
def Action.OnEntry (key : String) : Action → Prop
  | .storeGet k => k = key
  | .storePut e => e.publicKey = key
  | .storeDelete k => k = key
  | .storeRenew k _ => k = key
  | _ => False

/-- The actions on the pool. -/
def Action.onPool : Action → Bool
  | .allocate => true
  | .release _ => true
  | _ => false

/-- The actions on the device's peer of a key. -/
def Action.OnPeer (pub : Key) : Action → Prop
  | .addPeer k _ => k = pub
  | .removePeer k => k = pub
  | _ => False

/-- The actions of a request for a key. -/
inductive Action.About (key : String) (a : Action) : Prop
  | reads (h : a.Local)
  | entry (h : a.OnEntry key)
  | pool (h : a.onPool = true)
  | peer (pub : Key) (hkey : parseKey key = .ok pub) (h : a.OnPeer pub)

/-- Two requests' keys: different texts that do not spell one key. -/
def KeysApart (key key' : String) : Prop :=
  key ≠ key' ∧ ∀ pub, parseKey key = .ok pub → parseKey key' ≠ .ok pub

/-- The actions give one address to a peer each. -/
def Action.ClashAt (a b : Action) : Prop :=
  ∃ pub pub' ip ip', a = .addPeer pub ip ∧ b = .addPeer pub' ip' ∧ text ip = text ip'

/-- Servers that answer every lookup alike: only the order in which the store
and the device list their entries may differ. -/
structure Server.Same (s t : Server) : Prop where
  alloc : t.alloc = s.alloc
  store : ∀ k, t.store.get k = s.store.get k
  device : ∀ pub, t.device.lookup pub = s.device.lookup pub
  registry : t.registry = s.registry
  tenants : t.tenants = s.tenants

theorem Server.same_equivalence : Equivalence Server.Same where
  refl _ := ⟨rfl, fun _ => rfl, fun _ => rfl, rfl, rfl⟩
  symm h := ⟨h.alloc.symm, fun k => (h.store k).symm, fun pub => (h.device pub).symm,
    h.registry.symm, h.tenants.symm⟩
  trans h h' := ⟨h'.alloc.trans h.alloc, fun k => (h'.store k).trans (h.store k),
    fun pub => (h'.device pub).trans (h.device pub), h'.registry.trans h.registry,
    h'.tenants.trans h.tenants⟩

theorem Server.Same.refl (s : Server) : s.Same s := Server.same_equivalence.refl s

section Forms

variable [GoText.CaseTables] {a : Action} {key : String} {pub : Key}

/-- An action on an entry answers from that entry, and changes no other. -/
theorem exec_entry (h : a.OnEntry key) :
    ∃ (f : Store → Reply a × Store) (reply : Option Peer → Reply a)
      (new : Option Peer → Option Peer),
      (∀ ω s, exec a ω s = ((f s.store).1, ω, { s with store := (f s.store).2 })) ∧
      (∀ store, (f store).1 = reply (store.get key)) ∧
      ∀ store k, (f store).2.get k = if k = key then new (store.get key) else store.get k := by
  cases a with
  | storeGet k =>
      obtain rfl : k = key := h
      refine ⟨fun store => (store.get k, store), id, id, fun _ _ => rfl, fun _ => rfl, ?_⟩
      intro store k'
      split
      · rename_i hk
        rw [hk, id]
      · rfl
  | storePut e =>
      obtain rfl : e.publicKey = key := h
      exact ⟨fun store => ((), store.put e), fun _ => (), fun _ => some e, fun _ _ => rfl,
        fun _ => rfl, fun _ _ => Store.get_put⟩
  | storeDelete k =>
      obtain rfl : k = key := h
      exact ⟨fun store => (store.get k, store.delete k), id, fun _ => none, fun _ _ => rfl,
        fun _ => rfl, fun _ _ => Store.get_delete⟩
  | storeRenew k t =>
      obtain rfl : k = key := h
      refine ⟨fun store => store.renew k t, Option.isSome,
        Option.map fun p => { p with leaseExpiry := t }, fun _ _ => rfl, ?_,
        fun _ _ => Store.get_renew⟩
      intro store
      cases hget : store.get k with
      | none => simp [Store.renew, hget]
      | some p => simp [Store.renew, hget]
  | _ => exact h.elim

/-- An action on the pool answers from the pool, and changes nothing else. -/
theorem exec_onPool (h : a.onPool = true) :
    ∃ f : Ipam.Allocator → Reply a × Ipam.Allocator, ∀ ω s,
      exec a ω s = ((f s.alloc).1, ω, { s with alloc := (f s.alloc).2 }) := by
  cases a with
  | allocate => exact ⟨Ipam.Allocator.allocate, fun _ _ => rfl⟩
  | release ip => exact ⟨fun alloc => ((), alloc.release ip), fun _ _ => rfl⟩
  | _ => exact absurd h (by simp [Action.onPool])

/-- What an action on a peer makes of the device, for each outcome. -/
def Action.configure (ω : Oracle) (d : Device) : Action → Device
  | .addPeer k ip => if ω.addOk.head then d.addPeer k ip else d
  | .removePeer k => if ω.removeOk.head then d.removePeer k else d
  | _ => d

/-- An action on a peer answers as the device likes, and changes nothing else. -/
theorem exec_peer (h : a.OnPeer pub) :
    ∃ f : Oracle → Reply a × Oracle, ∀ ω s,
      exec a ω s = ((f ω).1, (f ω).2, { s with device := a.configure ω s.device }) := by
  cases a with
  | addPeer k ip =>
      refine ⟨fun ω => (ω.addOk.head, { ω with addOk := ω.addOk.tail }), fun ω s => ?_⟩
      simp only [exec, Action.configure]
      split
      · rfl
      · rfl
  | removePeer k =>
      refine ⟨fun ω => (ω.removeOk.head, { ω with removeOk := ω.removeOk.tail }), fun ω s => ?_⟩
      simp only [exec, Action.configure]
      split
      · rfl
      · rfl
  | _ => exact h.elim

omit [GoText.CaseTables] in
/-- The peer gets what the action gives it, whatever addresses of others it
loses before or after. The other peers lose at most the address that is added. -/
theorem lookup_configure (h : a.OnPeer pub) (ω : Oracle) :
    ∃ (new : Option (List IPNet) → Option (List IPNet)) (keep : IPNet → Bool),
      (∀ d k, (a.configure ω d).lookup k =
        if k = pub then new (d.lookup k) else (d.lookup k).map (List.filter keep)) ∧
      (∀ n, keep n = false → ∃ ip, a = .addPeer pub ip ∧ n = hostNet ip) ∧
      ∀ keep', (∀ ip, a = .addPeer pub ip → keep' (hostNet ip) = true) →
        ∀ nets, new (nets.map (List.filter keep')) = (new nets).map (List.filter keep') := by
  have hall : (List.filter fun _ : IPNet => true) = id := funext fun _ => List.filter_true _
  have hidle : ∀ d : Device, ∀ k, d.lookup k = if k = pub then id (d.lookup k)
      else (d.lookup k).map (List.filter fun _ => true) := by
    intro d k
    split
    · rfl
    · rw [hall, Option.map_id, id]
  cases a with
  | addPeer k ip =>
      obtain rfl : k = pub := h
      cases hadd : ω.addOk.head with
      | true =>
          refine ⟨fun _ => some [hostNet ip], (· ≠ hostNet ip), fun d k' => ?_, ?_, ?_⟩
          · simp only [Action.configure, hadd, if_true]
            exact Device.lookup_addPeer
          · intro n hn
            exact ⟨ip, rfl, by simpa using hn⟩
          · intro keep' hkeep nets
            simp [hkeep ip rfl]
      | false =>
          refine ⟨id, fun _ => true, fun d k' => ?_, by simp, fun _ _ _ => rfl⟩
          simp only [Action.configure, hadd, Bool.false_eq_true, if_false]
          exact hidle d k'
  | removePeer k =>
      obtain rfl : k = pub := h
      cases hremove : ω.removeOk.head with
      | true =>
          refine ⟨fun _ => none, fun _ => true, fun d k' => ?_, by simp, fun _ _ _ => rfl⟩
          simp only [Action.configure, hremove, if_true, Device.lookup_removePeer,
            hall, Option.map_id, id]
      | false =>
          refine ⟨id, fun _ => true, fun d k' => ?_, by simp, fun _ _ _ => rfl⟩
          simp only [Action.configure, hremove, Bool.false_eq_true, if_false]
          exact hidle d k'
  | _ => exact h.elim

end Forms

section Requests

variable [GoText.CaseTables] {a b : Action} {key key' : String} {pub pub' : Key}

/-- No action of a request can tell servers that answer every lookup alike. -/
theorem Action.About.respects (h : a.About key) : Respects exec Server.Same a := by
  intro ω s t hst
  cases h with
  | reads h =>
      refine ⟨t, exec_local h ⟨hst.registry, hst.tenants⟩, ?_⟩
      rw [exec_local_state h]
      exact hst
  | entry h =>
      obtain ⟨f, reply, new, hexec, hreply, hget⟩ := exec_entry h
      refine ⟨{ t with store := (f t.store).2 }, ?_, ?_⟩
      · rw [hexec, hexec, hreply, hreply, hst.store]
      · rw [hexec]
        refine ⟨hst.alloc, fun k => ?_, hst.device, hst.registry, hst.tenants⟩
        simp only [hget, hst.store]
  | pool h =>
      obtain ⟨f, hexec⟩ := exec_onPool h
      refine ⟨{ t with alloc := (f t.alloc).2 }, ?_, ?_⟩
      · rw [hexec, hexec, hst.alloc]
      · rw [hexec, hst.alloc]
        exact ⟨rfl, hst.store, hst.device, hst.registry, hst.tenants⟩
  | peer pub hkey h =>
      obtain ⟨f, hexec⟩ := exec_peer h
      refine ⟨{ t with device := a.configure ω t.device }, ?_, ?_⟩
      · rw [hexec, hexec]
      · obtain ⟨new, keep, hlookup, -⟩ := lookup_configure h ω
        rw [hexec]
        refine ⟨hst.alloc, hst.store, fun k => ?_, hst.registry, hst.tenants⟩
        simp only [hlookup, hst.device]

theorem independent_symm (h : Independent exec Server.Same a b) :
    Independent exec Server.Same b a := by
  intro ω ω' s
  obtain ⟨t, t', hb, ha, ht⟩ := h ω' ω s
  exact ⟨t', t, ha, hb, Server.same_equivalence.symm ht⟩

/-- Of what a request for another key changes, a local action sees nothing. -/
theorem independent_local (ha : a.Local) (hb : b.About key) :
    Independent exec Server.Same a b := by
  intro ω ω' s
  have hagrees : s.Agrees (exec b ω' s).2.2 := by
    cases hb with
    | reads h =>
        rw [exec_local_state h]
        exact ⟨rfl, rfl⟩
    | entry h =>
        obtain ⟨f, -, -, hexec, -⟩ := exec_entry h
        rw [hexec]
        exact ⟨rfl, rfl⟩
    | pool h =>
        obtain ⟨f, hexec⟩ := exec_onPool h
        rw [hexec]
        exact ⟨rfl, rfl⟩
    | peer pub hkey h =>
        obtain ⟨f, hexec⟩ := exec_peer h
        rw [hexec]
        exact ⟨rfl, rfl⟩
  refine ⟨_, _, ?_, exec_local ha hagrees, Server.Same.refl _⟩
  rw [exec_local_state ha]

theorem independent_entries (hkeys : key ≠ key') (ha : a.OnEntry key) (hb : b.OnEntry key') :
    Independent exec Server.Same a b := by
  intro ω ω' s
  obtain ⟨f, reply, new, hexec, hreply, hget⟩ := exec_entry ha
  obtain ⟨g, reply', new', hexec', hreply', hget'⟩ := exec_entry hb
  refine ⟨{ s with store := (g (f s.store).2).2 }, { s with store := (f (g s.store).2).2 },
    ?_, ?_, rfl, fun k => ?_, fun _ => rfl, rfl, rfl⟩
  · simp only [hexec, hexec', hreply', hget, if_neg hkeys.symm]
  · simp only [hexec, hexec', hreply, hget', if_neg hkeys]
  · simp only [hget, hget', if_neg hkeys, if_neg hkeys.symm]
    by_cases hk : k = key
    · simp only [hk, if_true, if_neg hkeys]
    · simp only [if_neg hk]

theorem independent_peers (hpubs : pub ≠ pub') (hclash : ¬ a.ClashAt b) (ha : a.OnPeer pub)
    (hb : b.OnPeer pub') : Independent exec Server.Same a b := by
  intro ω ω' s
  obtain ⟨f, hexec⟩ := exec_peer ha
  obtain ⟨g, hexec'⟩ := exec_peer hb
  obtain ⟨new, keep, hlookup, hkeep, hnew⟩ := lookup_configure ha ω
  obtain ⟨new', keep', hlookup', hkeep', hnew'⟩ := lookup_configure hb ω'
  have hkept : ∀ ip, a = .addPeer pub ip → keep' (hostNet ip) = true := by
    intro ip hadd
    by_contra hlost
    obtain ⟨ip', hadd', hnet⟩ := hkeep' _ (eq_false_of_ne_true hlost)
    exact hclash ⟨pub, pub', ip, ip', hadd, hadd', congrArg text (IPNet.mk.inj hnet).1⟩
  have hkept' : ∀ ip, b = .addPeer pub' ip → keep (hostNet ip) = true := by
    intro ip hadd
    by_contra hlost
    obtain ⟨ip', hadd', hnet⟩ := hkeep _ (eq_false_of_ne_true hlost)
    exact hclash ⟨pub, pub', ip', ip, hadd', hadd, congrArg text (IPNet.mk.inj hnet).1.symm⟩
  refine ⟨{ s with device := b.configure ω' (a.configure ω s.device) },
    { s with device := a.configure ω (b.configure ω' s.device) },
    by simp only [hexec, hexec'], by simp only [hexec, hexec'], rfl, fun _ => rfl, fun k => ?_,
    rfl, rfl⟩
  simp only [hlookup, hlookup']
  by_cases hk : k = pub
  · simp only [hk, if_true, if_neg hpubs]
    exact hnew keep' hkept _
  · by_cases hk' : k = pub'
    · simp only [hk', if_true, if_neg hpubs.symm]
      exact (hnew' keep hkept' _).symm
    · simp only [if_neg hk, if_neg hk', Option.map_map]
      congr 1
      funext nets
      simp only [Function.comp_apply, List.filter_filter, Bool.and_comm]

theorem independent_entry_pool (ha : a.OnEntry key) (hb : b.onPool = true) :
    Independent exec Server.Same a b := by
  intro ω ω' s
  obtain ⟨f, -, -, hexec, -⟩ := exec_entry ha
  obtain ⟨g, hexec'⟩ := exec_onPool hb
  refine ⟨{ s with store := (f s.store).2, alloc := (g s.alloc).2 },
    { s with store := (f s.store).2, alloc := (g s.alloc).2 }, ?_, ?_, .refl _⟩
  · simp only [hexec, hexec']
  · simp only [hexec, hexec']

theorem independent_entry_peer (ha : a.OnEntry key) (hb : b.OnPeer pub) :
    Independent exec Server.Same a b := by
  intro ω ω' s
  obtain ⟨f, -, -, hexec, -⟩ := exec_entry ha
  obtain ⟨g, hexec'⟩ := exec_peer hb
  refine ⟨{ s with store := (f s.store).2, device := b.configure ω' s.device },
    { s with store := (f s.store).2, device := b.configure ω' s.device }, ?_, ?_, .refl _⟩
  · simp only [hexec, hexec']
  · simp only [hexec, hexec']

theorem independent_pool_peer (ha : a.onPool = true) (hb : b.OnPeer pub) :
    Independent exec Server.Same a b := by
  intro ω ω' s
  obtain ⟨f, hexec⟩ := exec_onPool ha
  obtain ⟨g, hexec'⟩ := exec_peer hb
  refine ⟨{ s with alloc := (f s.alloc).2, device := b.configure ω' s.device },
    { s with alloc := (f s.alloc).2, device := b.configure ω' s.device }, ?_, ?_, .refl _⟩
  · simp only [hexec, hexec']
  · simp only [hexec, hexec']

/-- Actions of requests for keys apart do not see each other, unless both are on
the pool or they give one address to two peers. -/
theorem Action.About.independent (hkeys : KeysApart key key') (ha : a.About key)
    (hb : b.About key') (hpool : ¬ (a.onPool = true ∧ b.onPool = true))
    (hclash : ¬ a.ClashAt b) : Independent exec Server.Same a b := by
  cases ha with
  | reads h => exact independent_local h hb
  | entry h =>
      cases hb with
      | reads h' => exact independent_symm (independent_local h' (.entry h))
      | entry h' => exact independent_entries hkeys.1 h h'
      | pool h' => exact independent_entry_pool h h'
      | peer pub' hkey' h' => exact independent_entry_peer h h'
  | pool h =>
      cases hb with
      | reads h' =>
          exact independent_symm (independent_local h' (Action.About.pool h : a.About key))
      | entry h' => exact independent_symm (independent_entry_pool h' h)
      | pool h' => exact absurd ⟨h, h'⟩ hpool
      | peer pub' hkey' h' => exact independent_pool_peer h h'
  | peer pub hkey h =>
      cases hb with
      | reads h' => exact independent_symm (independent_local h' (.peer pub hkey h))
      | entry h' => exact independent_symm (independent_entry_peer h' h)
      | pool h' => exact independent_symm (independent_pool_peer h' h)
      | peer pub' hkey' h' =>
          refine independent_peers ?_ hclash h h'
          intro hpubs
          exact hkeys.2 pub hkey (hpubs ▸ hkey')

end Requests

end Claimward.Api
