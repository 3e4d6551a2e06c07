import Claimward.Api.Backed

/-!
# Revocation under overlapping calls

When a new list is installed, `Reconcile` walks over a snapshot of the store
and drops what the list no longer registers. An enrollment that has looked its
key up before the list came, and writes its entry after the snapshot, is not
seen. The theorem says what remains true: if no such enrollment is in progress
when the snapshot is taken, and no entry is deleted while its key is on the
device, the store and the device follow the list.
-/

namespace Claimward.Api

open AtomicProgram AtomicProgram.Program Inet Wg Peers Runs

/-- The list registers the key to the subject. -/
def Registers (l : KeyList) (key subject : String) : Prop :=
  ∃ q, l.byKey.lookup key = some q ∧ q.subject = subject

/-- The turn installs no list. -/
def KeepsList (c : Threads) : Turn → Bool
  | .start _ _ _ => true
  | .advance i =>
      match c.nextAction i with
      | some (.install _) => false
      | _ => true

/-- When the call of slot `r` takes its snapshot, the other calls may write
only what the list registers. -/
def SnapshotSettled (l : KeyList) (r : ℕ) (c : Threads) : Turn → Prop
  | .start _ _ _ => True
  | .advance i =>
      i = r → c.nextAction r = some .storeList → ∀ j p ω k subject, j ≠ r →
        c.thread j = some (p, ω) → MayPutAs k subject p → Registers l k subject

/-- The rest of a removal once the device call is done. -/
def deleting (p : Peer) (rest : List Peer) : Handler Response :=
  .act (.storeDelete p.publicKey) fun _ =>
    .act (.release p.ip) fun _ => reconcileLoop registryAllowed rest

/-- Where `Reconcile` may stand, with the entries of its snapshot that it has
neither found registered nor deleted. -/
inductive Reconciling : List Peer → Handler Response → Prop
  | done : Reconciling [] (.ret .finished)
  | asking (p : Peer) (rest : List Peer) :
      Reconciling (p :: rest) (.act (.lookup p.publicKey) fun r =>
        if r.any (fun q => q.subject = p.subject) = true then reconcileLoop registryAllowed rest
        else dropPeer p.publicKey p.ip >>= fun _ => reconcileLoop registryAllowed rest)
  | removing (pub : Key) (p : Peer) (rest : List Peer) :
      Reconciling (p :: rest) (.act (.removePeer pub) fun _ => deleting p rest)
  | deleting (p : Peer) (rest : List Peer) : Reconciling (p :: rest) (deleting p rest)
  | releasing (ip : IP) (rest : List Peer) :
      Reconciling rest (.act (.release ip) fun _ => reconcileLoop registryAllowed rest)

theorem reconciling_loop (ps : List Peer) :
    Reconciling ps (reconcileLoop registryAllowed ps) := by
  cases ps with
  | nil => exact .done
  | cons p rest => exact .asking p rest

theorem reconciling_drop (p : Peer) (rest : List Peer) :
    Reconciling (p :: rest)
      (dropPeer p.publicKey p.ip >>= fun _ => reconcileLoop registryAllowed rest) := by
  unfold dropPeer
  cases parseKey p.publicKey with
  | ok pub => exact .removing pub p rest
  | error msg => exact .deleting p rest

/-- With the list installed, every entry is registered or still to be looked
at, and the calls in progress write only what is registered. -/
structure Settling (l : KeyList) (pending : List Peer) (c : Threads) : Prop where
  covered : ∀ k e, c.shared.store.get k = some e →
    Registers l k e.subject ∨ ∃ p ∈ pending, p.publicKey = k ∧ p.subject = e.subject
  writers : c.Every fun p _ => ∀ k subject, MayPutAs k subject p → Registers l k subject

section States

variable {l : KeyList} {pending : List Peer} {ω : Oracle} {r : ℕ}

theorem registers_of_lookup {key : String} {clock : Stream' Time} {q : Registration}
    (h : ((Registry.new.install l).lookup key clock).1 = some q) : Registers l key q.subject := by
  obtain ⟨-, -, -, hq, -⟩ := Registry.lookup_eq_some h
  exact ⟨q, hq, rfl⟩

/-- What is registered or has no entry need not be looked at any more. -/
theorem Settling.shrink {c : Threads} {pending' : List Peer} (h : Settling l pending c)
    (hp : ∀ p ∈ pending, p ∈ pending' ∨ Registers l p.publicKey p.subject ∨
      c.shared.store.get p.publicKey = none) : Settling l pending' c where
  covered k e he := by
    rcases h.covered k e he with hreg | ⟨p, hmem, rfl, hsubject⟩
    · exact Or.inl hreg
    · rcases hp p hmem with hmem | hreg | hnone
      · exact Or.inr ⟨p, hmem, rfl, hsubject⟩
      · exact Or.inl (hsubject ▸ hreg)
      · exact absurd (hnone.symm.trans he) (by simp)
  writers := h.writers

theorem keepsList_act {c : Threads} {i : ℕ} {a : Action} {next : Reply a → Handler Response}
    (hi : c.thread i = some (.act a next, ω))
    (h : KeepsList c (.advance i) = true) (l : KeyList) : a ≠ .install l := by
  rintro rfl
  rw [KeepsList, Pool.nextAction_eq hi] at h
  exact absurd h (by simp)

/-- The snapshot holds every entry. -/
theorem Settling.snapshot {c : Threads}
    (hr : c.thread r = some (reconcile registryAllowed, ω))
    (hok : SnapshotSettled l r c (.advance r)) :
    Settling l (ω.order.walk c.shared.store.list) c where
  covered k e he := by
    right
    refine ⟨e, ?_, Store.key_of_get he, rfl⟩
    exact (ω.order.perm _).mem_iff.mpr (Store.mem_list_of_get he)
  writers := by
    intro j p ω' hj k subject hput
    by_cases hjr : j = r
    · subst hjr
      obtain ⟨rfl, rfl⟩ := Prod.mk.inj (Option.some.inj (hj.symm.trans hr))
      obtain ⟨ps, hput⟩ := hput
      exact absurd hput (not_mayPutAs_reconcileLoop .registry ps)
    · exact hok rfl (Pool.nextAction_eq hr) j p ω' k subject hjr hj hput

/-- `Reconcile` is in slot `r`, with the list installed: it has not taken its
snapshot yet, or it is working through it. -/
structure Reconciles (l : KeyList) (r : ℕ) (c : Threads) : Prop where
  watched : Watched c
  installed : c.shared.registry = Registry.new.install l
  progress : (∃ ω, c.thread r = some (reconcile registryAllowed, ω)) ∨
    ∃ pending p ω, c.thread r = some (p, ω) ∧ Reconciling pending p ∧ Settling l pending c

theorem Reconciling.pending_of_ret {v : Response} (h : Reconciling pending (.ret v)) :
    pending = [] := by
  cases h
  rfl

/-- When `Reconcile` has returned, everything is registered. -/
theorem Reconciles.settled {c : Threads} (h : Reconciles l r c) (hdone : c.result r ≠ none) :
    Settling l [] c := by
  obtain ⟨v, hv⟩ := Option.ne_none_iff_exists'.mp hdone
  obtain ⟨ω', hret⟩ := Pool.result_eq hv
  rcases h.progress with ⟨ω'', hr⟩ | ⟨pending, p, ω'', hr, hrec, hset⟩
  · exact absurd (hret.symm.trans hr) (by simp [reconcile])
  · obtain ⟨rfl, -⟩ := Prod.mk.inj (Option.some.inj (hret.symm.trans hr))
    rw [hrec.pending_of_ret] at hset
    exact hset

theorem Settling.registers {c : Threads} (h : Settling l [] c) {k : String} {e : Peer}
    (he : c.shared.store.get k = some e) : Registers l k e.subject := by
  rcases h.covered k e he with hreg | ⟨p, hmem, -⟩
  · exact hreg
  · exact absurd hmem List.not_mem_nil

end States

section Reconciliation

variable [GoText.CaseTables] {cfg : Config} {l : KeyList} {s : Server} {ω : Oracle} {a : Action}
  {next : Reply a → Handler Response} {pending : List Peer} {r : ℕ}

/-- A guarded call that writes only what the list registers goes on so. -/
theorem writers_exec (hguard : Guarded (.act a next))
    (hl : s.registry = Registry.new.install l)
    (h : ∀ k subject, MayPutAs k subject (.act a next) → Registers l k subject)
    {k subject : String} (hput : MayPutAs k subject (next (exec a ω s).1)) :
    Registers l k subject := by
  cases a with
  | lookup key =>
      have hs : s.registry.Consistent := hl ▸ Registry.Consistent.install _ l
      obtain ⟨rfl, q, hq, rfl⟩ :=
        (hguard _ fun q hq => hs.string_of_lookup hq).1 k subject hput
      rw [hl] at hq
      exact registers_of_lookup hq
  | storePut p => exact h k subject (Or.inr hput)
  | _ => exact h k subject ⟨_, hput⟩

/-- One action of any call keeps the store settling. -/
theorem Settling.act {c : Threads} {i : ℕ} (h : Settling l pending c)
    (hl : c.shared.registry = Registry.new.install l)
    (hguard : Guarded (.act a next)) (hi : c.thread i = some (.act a next, ω)) :
    Settling l pending
      ⟨(exec a ω c.shared).2.2, Function.update c.thread i
        (some (next (exec a ω c.shared).1, (exec a ω c.shared).2.1))⟩ where
  covered k e he := by
    rcases get_of_get_exec he with ⟨e', hold, hsubject⟩ | ⟨p, rfl, rfl, rfl⟩
    · rw [← hsubject]
      exact h.covered k e' hold
    · exact Or.inl (h.writers i _ _ hi _ _ (Or.inl ⟨rfl, rfl⟩))
  writers := h.writers.update
    (fun _ _ => writers_exec hguard hl (h.writers i _ _ hi)) _

/-- What `Reconcile` has done with its snapshot after one more action. -/
theorem Reconciling.act (h : Reconciling pending (.act a next))
    (hl : s.registry = Registry.new.install l) :
    ∃ pending', Reconciling pending' (next (exec a ω s).1) ∧
      ∀ p ∈ pending, p ∈ pending' ∨ Registers l p.publicKey p.subject ∨
        (exec a ω s).2.2.store.get p.publicKey = none := by
  cases h with
  | asking p rest =>
      change ∃ pending', Reconciling pending'
        (if (s.registry.lookup p.publicKey ω.clock).1.any (fun q => q.subject = p.subject) = true
          then _ else _) ∧ _
      split
      · rename_i hallowed
        rw [Option.any_eq_true, hl] at hallowed
        obtain ⟨q, hq, hsubject⟩ := hallowed
        have hsubject := of_decide_eq_true hsubject
        refine ⟨rest, reconciling_loop rest, ?_⟩
        intro p' hp'
        rcases List.mem_cons.mp hp' with rfl | hmem
        · exact Or.inr (Or.inl (hsubject ▸ registers_of_lookup hq))
        · exact Or.inl hmem
      · exact ⟨p :: rest, reconciling_drop p rest, fun p' hp' => Or.inl hp'⟩
  | removing pub p rest => exact ⟨p :: rest, .deleting p rest, fun p' hp' => Or.inl hp'⟩
  | deleting p rest =>
      refine ⟨rest, .releasing p.ip rest, ?_⟩
      intro p' hp'
      rcases List.mem_cons.mp hp' with rfl | hmem
      · exact Or.inr (Or.inr (by simp [exec, Store.get_delete]))
      · exact Or.inl hmem
  | releasing ip => exact ⟨pending, reconciling_loop pending, fun p' hp' => Or.inl hp'⟩

theorem reconciles_move {c : Threads} {m : Turn} (hpeers : cfg.usePeers = true)
    (h : Reconciles l r c) (hstart : m.StartsCall cfg) (hdel : DeletesOffDevice c m = true)
    (hkeep : KeepsList c m = true) (hsnap : SnapshotSettled l r c m) :
    Reconciles l r (c.move exec m) := by
  have hw := watched_move hpeers h.watched hstart hdel
  rcases c.move_cases exec m with heq | ⟨i, p, ω, rfl, hfree, heq⟩ |
    ⟨i, a, next, ω, rfl, hi, heq⟩
  · rw [heq]
    exact h
  · have hne : ∀ {t}, c.thread r = some t → r ≠ i := by
      rintro t ht rfl
      exact absurd (hfree.symm.trans ht) (by simp)
    obtain ⟨⟨call, rfl⟩, -⟩ := hstart
    rw [heq] at hw ⊢
    refine ⟨hw, h.installed, ?_⟩
    rcases h.progress with ⟨ω', hr⟩ | ⟨pending, p, ω', hr, hrec, hset⟩
    · exact Or.inl ⟨ω', by simpa [Function.update_of_ne (hne hr)] using hr⟩
    · refine Or.inr ⟨pending, p, ω', by simpa [Function.update_of_ne (hne hr)] using hr, hrec, ?_⟩
      exact ⟨hset.covered, hset.writers.update
        (fun _ _ hput => absurd hput (not_mayPutAs_call cfg hpeers call)) _⟩
  · have hguard := (h.watched.threads i _ _ hi).1
    have hl : (exec a ω c.shared).2.2.registry = Registry.new.install l := by
      rw [registry_exec ω c.shared (keepsList_act hi hkeep), h.installed]
    rw [heq] at hw ⊢
    refine ⟨hw, hl, ?_⟩
    rcases h.progress with ⟨ω', hr⟩ | ⟨pending, p, ω', hr, hrec, hset⟩
    · by_cases hir : i = r
      · -- the snapshot is taken now
        subst hir
        obtain ⟨hp, rfl⟩ := Prod.mk.inj (Option.some.inj (hi.symm.trans hr))
        cases hp
        have hset := (Settling.snapshot hr hsnap).act h.installed hguard hr
        exact Or.inr ⟨_, _, _, Function.update_self _ _ _, reconciling_loop _, hset⟩
      · left
        exact ⟨ω', by simpa [Function.update_of_ne (Ne.symm hir)] using hr⟩
    · right
      have hset' := hset.act h.installed hguard hi
      by_cases hir : i = r
      · subst hir
        obtain ⟨rfl, rfl⟩ := Prod.mk.inj (Option.some.inj (hr.symm.trans hi))
        obtain ⟨pending', hrec', hp⟩ := hrec.act h.installed (ω := ω')
        exact ⟨pending', _, _, Function.update_self _ _ _, hrec', hset'.shrink hp⟩
      · exact ⟨pending, p, ω', by simpa [Function.update_of_ne (Ne.symm hir)] using hr, hrec, hset'⟩

variable {alloc : Ipam.Allocator} {tenants : TenantStore} {before after turns : List Turn}

theorem reconciles_run {c : Threads} (hpeers : cfg.usePeers = true)
    (hstart : ∀ m ∈ after, m.StartsCall cfg)
    (hdelete : Admissible (Pool.move exec) (fun c m => DeletesOffDevice c m = true) c after)
    (hafter : Admissible (Pool.move exec)
      (fun c m => KeepsList c m = true ∧ SnapshotSettled l r c m) c after)
    (h : Reconciles l r c) : Reconciles l r (run (Pool.move exec) c after) := by
  induction after generalizing c with
  | nil => exact h
  | cons m rest ih =>
      obtain ⟨hm, hrest⟩ := List.forall_mem_cons.mp hstart
      exact ih hrest hdelete.2 hafter.2
        (reconciles_move hpeers h hm hdelete.1 hafter.1.1 hafter.1.2)

theorem reconciles_start (hpeers : cfg.usePeers = true) (hs : s = .start alloc ∅ .new tenants)
    (hstart : ∀ m ∈ before ++ [.start r (reconcile registryAllowed) ω], m.StartsCall cfg)
    (hdelete : s.Interleaves (fun c m => DeletesOffDevice c m = true)
      (before ++ [.start r (reconcile registryAllowed) ω]))
    (hfree : (s.interleave before).thread r = none)
    (hlist : (s.interleave before).shared.registry.list = some l) :
    Reconciles l r (s.interleave (before ++ [.start r (reconcile registryAllowed) ω])) := by
  have hw := watched_run hpeers hs hstart hdelete
  have hbefore := watched_run hpeers hs
    (fun m hm => hstart m (List.mem_append_left _ hm)) (admissible_append.mp hdelete).1
  have hstep : s.interleave (before ++ [.start r (reconcile registryAllowed) ω]) =
      { s.interleave before with
        thread := Function.update (s.interleave before).thread r
          (some (reconcile registryAllowed, ω)) } := by
    rw [Server.interleave, run_append, run_cons, run_nil]
    exact Pool.move_start hfree
  refine ⟨hw, ?_, Or.inl ⟨ω, ?_⟩⟩
  · rw [hstep]
    exact hbefore.registry.eq_install hlist
  · rw [hstep]
    exact Function.update_self _ _ _

/-- With a registry and a device that never fails, in any interleaving of calls
in which no entry is deleted while its key is on the device: a `Reconcile` is
started with the list installed, no list is installed since, and when it took
its snapshot no call in progress could still write what the list does not
register. Once it has returned, every entry and every key on the device is
registered by the list, to the subject of the entry. -/
theorem revoked_keys_gone (hpeers : cfg.usePeers = true) (hs : s = .start alloc ∅ .new tenants)
    (hturns : turns = before ++ .start r (reconcile registryAllowed) ω :: after)
    (hstart : ∀ m ∈ turns, m.StartsCall cfg)
    (hdelete : s.Interleaves (fun c m => DeletesOffDevice c m = true) turns)
    (hfree : (s.interleave before).thread r = none)
    (hlist : (s.interleave before).shared.registry.list = some l)
    (hafter : Admissible (Pool.move exec)
      (fun c m => KeepsList c m = true ∧ SnapshotSettled l r c m)
      (s.interleave (before ++ [.start r (reconcile registryAllowed) ω])) after)
    (hdone : (s.interleave turns).result r ≠ none) :
    (∀ k e, (s.interleave turns).shared.store.get k = some e →
      ∃ q, l.byKey.lookup k = some q ∧ q.subject = e.subject) ∧
    ∀ pub, (s.interleave turns).shared.device.lookup pub ≠ none →
      ∃ q, l.byKey.lookup pub.string = some q ∧
        ∀ e, (s.interleave turns).shared.store.get pub.string = some e →
          q.subject = e.subject := by
  have hsplit : turns = (before ++ [.start r (reconcile registryAllowed) ω]) ++ after := by
    simp [hturns]
  have hrec := reconciles_start hpeers hs
    (fun m hm => hstart m (hsplit ▸ List.mem_append_left _ hm))
    (admissible_append.mp (hsplit ▸ hdelete)).1 hfree hlist
  have hend : Reconciles l r (s.interleave turns) := by
    rw [hsplit, Server.interleave, run_append]
    refine reconciles_run hpeers ?_ ?_ hafter hrec
    · intro m hm
      exact hstart m (hsplit ▸ List.mem_append_right _ hm)
    · exact (admissible_append.mp (hsplit ▸ hdelete)).2
  have hset := hend.settled hdone
  refine ⟨fun k e he => hset.registers he, ?_⟩
  intro pub hpub
  obtain ⟨subject, q, hq, -⟩ : ∃ subject, Registers l pub.string subject := by
    rcases hend.watched.backed pub hpub with ⟨e, he⟩ | ⟨i, p, ω', hi, hput⟩
    · exact ⟨_, hset.registers he⟩
    · obtain ⟨subject, hput⟩ := mayPutAs_of_willPut hput
      exact ⟨subject, hset.writers i p ω' hi _ _ hput⟩
  refine ⟨q, hq, ?_⟩
  intro e he
  obtain ⟨q', hq', hsubject⟩ := hset.registers he
  rw [← hsubject, Option.some.inj (hq.symm.trans hq')]

end Reconciliation

/-- While the other calls have all returned, a call takes its snapshot settled. -/
theorem snapshotSettled_steps [GoText.CaseTables] {l : KeyList} {r : ℕ} {c : Threads} (n : ℕ)
    (h : ∀ j, j ≠ r → c.thread j = none ∨ c.result j ≠ none) :
    Admissible (Pool.move exec) (SnapshotSettled l r) c (Sample.steps r n) := by
  induction n generalizing c with
  | zero => trivial
  | succ n ih =>
      refine ⟨?_, ih fun j hj => ?_⟩
      · intro _ _ j p ω k subject hj hthread hput
        rcases h j hj with hnone | hdone
        · exact absurd (hnone.symm.trans hthread) (by simp)
        · obtain ⟨v, hv⟩ := Option.ne_none_iff_exists'.mp hdone
          obtain ⟨ω', hret⟩ := Pool.result_eq hv
          obtain ⟨rfl, -⟩ := Prod.mk.inj (Option.some.inj (hret.symm.trans hthread))
          exact hput.elim
      · have hthread : (c.move exec (.advance r)).thread j = c.thread j :=
          Pool.thread_advance_of_ne hj
        simpa only [Pool.result, hthread] using h j hj

private def noKeys : KeyList := ⟨[], 100⟩

/-- Alice enrolls a registered key, and the provider takes the key back. -/
private def takenBack : List Turn :=
  Sample.begin 0 true (.refresh (.ok (Sample.list "alice"))) ++ Sample.steps 0 1 ++
    Sample.begin 1 true (Sample.enroll "alice" Sample.key₁) ++ Sample.steps 1 9 ++
    Sample.begin 2 true (.refresh (.ok noKeys)) ++ Sample.steps 2 1

private def reconciliation : Turn :=
  .start 3 (reconcile registryAllowed) (Sample.oracle true true)

attribute [local instance] GoText.asciiTables

private theorem takenBack_settled (j : ℕ) (hj : j ≠ 3) :
    (Sample.start.interleave (takenBack ++ [reconciliation])).thread j = none ∨
      (Sample.start.interleave (takenBack ++ [reconciliation])).result j ≠ none := by
  by_cases hlt : j < 3
  · right
    have hdone : ∀ j < 3,
        (Sample.start.interleave (takenBack ++ [reconciliation])).result j ≠ none := by
      decide +kernel
    exact hdone j hlt
  · left
    apply Pool.thread_run_eq_none rfl
    intro p ω hmem
    simp [takenBack, reconciliation, Sample.begin, Sample.steps] at hmem
    omega

theorem taken_back_key_gone :
    (Sample.start.interleave takenBack).shared.store.get Sample.key₁ ≠ none ∧
      (Sample.start.interleave (takenBack ++ reconciliation :: Sample.steps 3 5)).shared.store.get
        Sample.key₁ = none := by
  refine ⟨by decide +kernel, ?_⟩
  have hreconcile : ∃ c : Call, reconcile registryAllowed = c.program (Sample.config true) :=
    ⟨.reconcile .registry, rfl⟩
  have hstart : ∀ m ∈ takenBack ++ reconciliation :: Sample.steps 3 5,
      m.StartsCall (Sample.config true) := by
    simp [takenBack, reconciliation, Sample.begin, Sample.steps, Turn.StartsCall, Sample.reliable,
      hreconcile]
  have hkeep : Admissible (Pool.move exec) (fun c m => KeepsList c m = true)
      (Sample.start.interleave (takenBack ++ [reconciliation])) (Sample.steps 3 5) := by
    decide +kernel
  have hgone := revoked_keys_gone (s := Sample.start) (l := noKeys) rfl rfl rfl hstart
    (by decide +kernel) (by decide +kernel) (by decide +kernel)
    (hkeep.and (snapshotSettled_steps 5 takenBack_settled)) (by decide +kernel)
  by_contra hsome
  obtain ⟨e, he⟩ := Option.ne_none_iff_exists'.mp hsome
  obtain ⟨q, hq, -⟩ := hgone.1 _ e he
  have hnone : noKeys.byKey.lookup Sample.key₁ = none := rfl
  exact absurd (hnone.symm.trans hq) (by simp)

/-- Alice's enrollment has looked the key up when the provider takes it back.
`Reconcile` finds the store empty, and the enrollment goes on. -/
theorem enrollment_outruns_revocation :
    let c := Sample.start.interleave
      (Sample.begin 0 true (.refresh (.ok (Sample.list "alice"))) ++ Sample.steps 0 1 ++
        Sample.begin 1 true (Sample.enroll "alice" Sample.key₁) ++ Sample.steps 1 2 ++
        Sample.begin 2 true (.refresh (.ok noKeys)) ++ Sample.steps 2 1 ++
        Sample.begin 3 true (.reconcile .registry) ++ Sample.steps 3 1 ++
        Sample.steps 1 7)
    (∀ i < 4, c.result i ≠ none) ∧ c.shared.registry.list = some noKeys ∧
      (c.shared.store.get Sample.key₁).map Peer.subject = some "alice" ∧
      (c.shared.device.lookup Sample.bytes₁).isSome = true ∧
      noKeys.byKey.lookup Sample.key₁ = none := by
  decide +kernel

end Claimward.Api
