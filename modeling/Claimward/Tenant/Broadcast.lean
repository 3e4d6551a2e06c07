import Claimward.Tenant.Hub

/-!
# No route update is lost, no channel is misused

Two invariants of the tenant store with its watchers. The first is about the
channels: each belongs to one subscription, those of a tenant are open, and what
a watcher finds or has seen last is the tenant's route set, unless a broadcast
has not reached it yet. It implies that no step fails. The second is about the
order of the sets that a watcher sees, and needs that no serial wraps around.
-/

namespace Claimward

open Runs

/-- The holder of the mutex has not sent the channel its new set. -/
def Pending.Unsent (id : String) (c : ℕ) : Option Pending → Prop
  | some (.broadcast id' _ todo drained) => id' = id ∧ (c ∈ todo ∨ drained = some c)
  | _ => False

/-- The holder of the mutex has closed the channel. -/
def Pending.Shut (id : String) (c : ℕ) : Option Pending → Prop
  | some (.closing id' todo) => id' = id ∧ c ∉ todo
  | _ => False

namespace Hub

/-- The channel is that of a subscription of the tenant. -/
def Watches (h : Hub) (id : String) (c : ℕ) : Prop := ∃ n, (h.subs id).lookup n = some c

/-- An `Update` of the tenant is in progress. -/
def Updating (h : Hub) (id : String) : Prop :=
  ∃ set todo drained, h.holder = some (.broadcast id set todo drained)

/-- What the holder of the mutex works on. -/
def HolderFits (h : Hub) : Option Pending → Prop
  | none => True
  | some (.broadcast id set todo drained) =>
      (∃ t, h.store.tenants.lookup id = some t ∧ t.routes = set) ∧ todo.Nodup ∧
        (∀ c ∈ todo, h.Watches id c) ∧
        ∀ c, drained = some c → h.Watches id c ∧ c ∉ todo ∧ (h.box c).slot = none
  | some (.closing id todo) =>
      id ≠ defaultID ∧ todo.Nodup ∧ ∀ c ∈ todo, h.Watches id c

/-- Every channel belongs to one subscription. -/
structure Registered (h : Hub) : Prop where
  hasDefault : h.store.HasDefault
  allocated : ∀ id c, h.Watches id c → c < h.made
  distinct : ∀ id id' n n' c, (h.subs id).lookup n = some c → (h.subs id').lookup n' = some c →
    id = id' ∧ n = n'

structure Sound (h : Hub) : Prop extends h.Registered where
  opened : ∀ id c, h.Watches id c → (h.box c).closed = false ∨ Pending.Shut id c h.holder
  current : ∀ id t c, h.store.tenants.lookup id = some t → h.Watches id c →
    (h.box c).history.head? = some t.routes ∨ Pending.Unsent id c h.holder
  holds : h.HolderFits h.holder

variable {h : Hub}

theorem sound_new (ips dns : List String) : (new ips dns).Sound where
  hasDefault := TenantStore.hasDefault_new ips dns
  allocated := by
    rintro id c ⟨n, hn⟩
    simp [new] at hn
  distinct := by
    intro id id' n n' c hn
    simp [new] at hn
  opened := by
    rintro id c ⟨n, hn⟩
    simp [new] at hn
  current := by
    rintro id t c _ ⟨n, hn⟩
    simp [new] at hn
  holds := trivial

theorem Registered.eq_of_watches (hr : h.Registered) {id id' : String} {c : ℕ}
    (hc : h.Watches id c) (hc' : h.Watches id' c) : id = id' := by
  obtain ⟨n, hn⟩ := hc
  obtain ⟨n', hn'⟩ := hc'
  exact (hr.distinct id id' n n' c hn hn').1

theorem Registered.nodup_subs (hr : h.Registered) (id : String) :
    (Table.values (h.subs id)).Nodup := by
  apply Table.nodup_values
  intro n n' c hn hn'
  exact (hr.distinct id id n n' c hn hn').2

theorem mem_values_subs {id : String} {c : ℕ} :
    c ∈ Table.values (h.subs id) ↔ h.Watches id c := Table.mem_values

/-- Subscriptions that are left when some go are still those of one channel each. -/
theorem Registered.restrict (hr : h.Registered) {h' : Hub} (hdefault : h'.store.HasDefault)
    (hmade : h'.made = h.made)
    (hsub : ∀ id n c, (h'.subs id).lookup n = some c → (h.subs id).lookup n = some c) :
    h'.Registered where
  hasDefault := hdefault
  allocated := by
    rintro id c ⟨n, hn⟩
    rw [hmade]
    exact hr.allocated id c ⟨n, hsub id n c hn⟩
  distinct := by
    intro id id' n n' c hn hn'
    exact hr.distinct id id' n n' c (hsub id n c hn) (hsub id' n' c hn')

/-- Subscriptions of a tenant whose map is replaced by an empty one. -/
theorem lookup_update_empty {subs : String → Table Int64 ℕ} {id id' : String} {n : Int64} {c : ℕ}
    (hn : (Function.update subs id ∅ id').lookup n = some c) :
    id' ≠ id ∧ (subs id').lookup n = some c := by
  by_cases hid : id' = id
  · subst hid
    simp at hn
  · rw [Function.update_of_ne hid] at hn
    exact ⟨hid, hn⟩

/-- Beside a new subscription there are those from before, with older channels. -/
theorem Registered.lookup_subscribe (hr : h.Registered) {id id' : String} {n : Int64} {c : ℕ}
    (hn : (Function.update h.subs id ((h.subs id).insert h.nextSub h.made) id').lookup n =
      some c) :
    c = h.made ∧ id' = id ∧ n = h.nextSub ∨ c ≠ h.made ∧ (h.subs id').lookup n = some c := by
  have hlt : (h.subs id').lookup n = some c → c ≠ h.made := fun hn' =>
    Nat.ne_of_lt (hr.allocated id' c ⟨n, hn'⟩)
  by_cases hid : id' = id
  · subst hid
    rw [Function.update_self, Table.lookup_insert_eq] at hn
    split at hn
    · rename_i hnext
      exact Or.inl ⟨(Option.some.inj hn).symm, rfl, hnext⟩
    · exact Or.inr ⟨hlt hn, hn⟩
  · rw [Function.update_of_ne hid] at hn
    exact Or.inr ⟨hlt hn, hn⟩

/-- What is left when a subscription ends was there before and has another
channel. -/
theorem Registered.lookup_unsubscribe (hr : h.Registered) {id id' : String} {n n' : Int64}
    {c c' : ℕ} (hc : (h.subs id).lookup n = some c)
    (hn : (Function.update h.subs id ((h.subs id).erase n) id').lookup n' = some c') :
    c' ≠ c ∧ (h.subs id').lookup n' = some c' := by
  by_cases hid : id' = id
  · subst hid
    rw [Function.update_self, Table.lookup_erase_eq] at hn
    split at hn
    · exact absurd hn (by simp)
    · rename_i hne
      refine ⟨?_, hn⟩
      rintro rfl
      exact hne (hr.distinct id' id' n' n c' hn hc).2
  · rw [Function.update_of_ne hid] at hn
    refine ⟨?_, hn⟩
    rintro rfl
    exact hid (hr.distinct id' id n' n c' hn hc).1

theorem onChannel_ok {c : ℕ} {m : Mailbox RouteSet}
    {f : Mailbox RouteSet → Except Mailbox.Misuse (Mailbox RouteSet)} (hf : f (h.box c) = .ok m) :
    h.onChannel c f = .ok { h with box := Function.update h.box c m } := by
  simp [onChannel, hf]

section Calls

variable (hs : h.Sound) (hfree : h.holder = none)

include hs hfree

theorem Sound.create [GoText.CaseTables] (t : Tenant) : (h.create t).Sound := by
  unfold Hub.create
  split
  · rename_i t' store heq
    obtain ⟨-, -, rfl⟩ := TenantStore.create_eq_ok heq
    refine ⟨hs.restrict (TenantStore.exists_lookup_insert hs.hasDefault _ _) rfl ?_, ?_, ?_, ?_⟩
    · intro id n c hn
      exact (lookup_update_empty hn).2
    · rintro id c ⟨n, hn⟩
      exact hs.opened id c ⟨n, (lookup_update_empty hn).2⟩
    · rintro id t c hid ⟨n, hn⟩
      obtain ⟨hne, hn⟩ := lookup_update_empty hn
      rw [Table.lookup_insert_eq, if_neg hne] at hid
      exact hs.current id t c hid ⟨n, hn⟩
    · simp [hfree, HolderFits]
  · exact hs

theorem Sound.update (id : String) (inp : Tenant) : (h.update id inp).Sound := by
  unfold Hub.update
  split
  · rename_i t store heq
    obtain ⟨old, hold, -, rfl⟩ := TenantStore.update_eq_ok heq
    refine ⟨hs.restrict (TenantStore.exists_lookup_insert hs.hasDefault _ _) rfl
      fun _ _ _ hn => hn, ?_, ?_, ?_⟩
    · intro id' c hc
      have hopen := hs.opened id' c hc
      simp only [hfree, Pending.Shut, or_false] at hopen
      exact Or.inl hopen
    · intro id' t' c hid hc
      by_cases hne : id' = id
      · subst hne
        exact Or.inr ⟨rfl, Or.inl (mem_values_subs.mpr hc)⟩
      · rw [Table.lookup_insert_eq, if_neg hne] at hid
        have hcurrent := hs.current id' t' c hid hc
        simp only [hfree, Pending.Unsent, or_false] at hcurrent
        exact Or.inl hcurrent
    · refine ⟨⟨t, by rw [Table.lookup_insert_eq, if_pos rfl], rfl⟩, hs.nodup_subs id, ?_, ?_⟩
      · intro c hc
        exact mem_values_subs.mp hc
      · intro c hc
        exact absurd hc (by simp)
  · exact hs

theorem Sound.delete (id : String) : (h.delete id).Sound := by
  unfold Hub.delete
  split
  · exact hs
  · rename_i hdefault
    split
    · exact hs
    · refine ⟨hs.restrict hs.hasDefault rfl fun _ _ _ hn => hn, ?_, ?_, ?_⟩
      · intro id' c hc
        have hopen := hs.opened id' c hc
        simp only [hfree, Pending.Shut, or_false] at hopen
        exact Or.inl hopen
      · intro id' t' c hid hc
        have hcurrent := hs.current id' t' c hid hc
        simp only [hfree, Pending.Unsent, or_false] at hcurrent
        exact Or.inl hcurrent
      · exact ⟨hdefault, hs.nodup_subs id, fun c hc => mem_values_subs.mp hc⟩

omit hfree in
theorem Sound.watched (tenantID : String) :
    ∃ id t, h.watched tenantID = some (id, t) ∧ h.store.tenants.lookup id = some t := by
  unfold Hub.watched
  split
  · rename_i t ht
    exact ⟨tenantID, t, rfl, ht⟩
  · obtain ⟨t, ht⟩ := hs.hasDefault
    exact ⟨defaultID, t, by simp [ht], ht⟩

theorem Sound.subscribe (tenantID : String) :
    ∃ h', h.subscribe tenantID = .ok h' ∧ h'.Sound := by
  obtain ⟨id, t, hwatched, hid⟩ := hs.watched tenantID
  refine ⟨_, by simp only [Hub.subscribe, hwatched]; rfl, ?_⟩
  refine ⟨⟨hs.hasDefault, ?_, ?_⟩, ?_, ?_, ?_⟩
  · rintro id' c ⟨n, hn⟩
    rcases hs.lookup_subscribe hn with ⟨rfl, -⟩ | ⟨-, hn⟩
    · exact Nat.lt_succ_self _
    · exact Nat.lt_succ_of_lt (hs.allocated id' c ⟨n, hn⟩)
  · intro id' id'' n n' c hn hn'
    rcases hs.lookup_subscribe hn with ⟨hc, rfl, rfl⟩ | ⟨hc, hn⟩
    · rcases hs.lookup_subscribe hn' with ⟨-, rfl, rfl⟩ | ⟨hc', -⟩
      · exact ⟨rfl, rfl⟩
      · exact absurd hc hc'
    · rcases hs.lookup_subscribe hn' with ⟨hc', -⟩ | ⟨-, hn'⟩
      · exact absurd hc' hc
      · exact hs.distinct id' id'' n n' c hn hn'
  · rintro id' c ⟨n, hn⟩
    rcases hs.lookup_subscribe hn with ⟨rfl, -⟩ | ⟨hc, hn⟩
    · simp [Mailbox.made]
    · simpa [Function.update_of_ne hc] using hs.opened id' c ⟨n, hn⟩
  · rintro id' t' c hid' ⟨n, hn⟩
    rcases hs.lookup_subscribe hn with ⟨rfl, rfl, -⟩ | ⟨hc, hn⟩
    · obtain rfl := Option.some.inj (hid.symm.trans hid')
      simp
    · simpa [Function.update_of_ne hc] using hs.current id' t' c hid' ⟨n, hn⟩
  · simp [hfree, HolderFits]

theorem Sound.unsubscribe (tenantID : String) (n : Int64) :
    ∃ h', h.unsubscribe tenantID n = .ok h' ∧ h'.Sound := by
  obtain ⟨id, t, hwatched, -⟩ := hs.watched tenantID
  simp only [Hub.unsubscribe, hwatched]
  cases hc : (h.subs id).lookup n with
  | none => exact ⟨h, rfl, hs⟩
  | some c =>
      have hopen : (h.box c).closed = false := by
        simpa [hfree, Pending.Shut] using hs.opened id c ⟨n, hc⟩
      refine ⟨_, onChannel_ok (Mailbox.close_of_open hopen), ?_⟩
      refine ⟨hs.restrict hs.hasDefault rfl fun _ _ _ hn' =>
        (hs.lookup_unsubscribe hc hn').2, ?_, ?_, ?_⟩
      · rintro id' c' ⟨n', hn'⟩
        obtain ⟨hne, hn'⟩ := hs.lookup_unsubscribe hc hn'
        simpa [Function.update_of_ne hne] using hs.opened id' c' ⟨n', hn'⟩
      · rintro id' t' c' hid' ⟨n', hn'⟩
        obtain ⟨hne, hn'⟩ := hs.lookup_unsubscribe hc hn'
        simpa [Function.update_of_ne hne] using hs.current id' t' c' hid' ⟨n', hn'⟩
      · simp [hfree, HolderFits]

end Calls

section Work

/-- The watcher reads: no matter when, what it finds or has seen last is the same. -/
theorem Sound.receive (hs : h.Sound) (c : ℕ) : (h.receive c).Sound := by
  have hbox : ∀ c', ((h.receive c).box c').history = (h.box c').history ∧
      ((h.receive c).box c').closed = (h.box c').closed ∧
      ((h.box c').slot = none → ((h.receive c).box c').slot = none) := by
    intro c'
    by_cases hc : c' = c
    · subst hc
      simp [Hub.receive]
    · simp [Hub.receive, Function.update_of_ne hc]
  refine ⟨hs.restrict hs.hasDefault rfl fun _ _ _ hn => hn, ?_, ?_, ?_⟩
  · intro id c' hc'
    rw [(hbox c').2.1]
    exact hs.opened id c' hc'
  · intro id t c' hid hc'
    rw [(hbox c').1]
    exact hs.current id t c' hid hc'
  · have hholds := hs.holds
    cases hholder : h.holder with
    | none => simp [Hub.receive, hholder, HolderFits]
    | some p =>
        simp only [Hub.receive, hholder] at hholds ⊢
        cases p with
        | broadcast id set todo drained =>
            obtain ⟨ht, hnodup, htodo, hdrained⟩ := hholds
            refine ⟨ht, hnodup, htodo, ?_⟩
            intro c' hc'
            obtain ⟨hwatch, hmem, hslot⟩ := hdrained c' hc'
            exact ⟨hwatch, hmem, (hbox c').2.2 hslot⟩
        | closing id todo => exact hholds

/-- What a step of the holder of the mutex does. -/
inductive Worked (h : Hub) : Hub → Prop
  | idle : Worked h h
  | sent {id set todo c} (hholder : h.holder = some (.broadcast id set todo (some c)))
      (hempty : (h.box c).slot = none) :
      Worked h { h with
        box := Function.update h.box c { h.box c with slot := some set }
        holder := some (.broadcast id set todo none) }
  | drained {id set todo c} (hholder : h.holder = some (.broadcast id set todo none))
      (hc : c ∈ todo) :
      Worked h { h with
        box := Function.update h.box c (h.box c).drain
        holder := some (.broadcast id set (todo.erase c) (some c)) }
  | released {id set} (hholder : h.holder = some (.broadcast id set [] none)) :
      Worked h { h with holder := none }
  | closed {id todo c} (hholder : h.holder = some (.closing id todo)) (hc : c ∈ todo) :
      Worked h { h with
        box := Function.update h.box c { h.box c with closed := true }
        holder := some (.closing id (todo.erase c)) }
  | removed {id} (hholder : h.holder = some (.closing id [])) :
      Worked h { h with
        store := (h.store.delete id).2
        subs := Function.update h.subs id ∅
        holder := none }

/-- No send of a broadcast waits or meets a closed channel, and `Delete` closes
none twice. -/
theorem Sound.worked (hs : h.Sound) (c : ℕ) : ∃ h', h.work c = .ok h' ∧ h.Worked h' := by
  have hholds := hs.holds
  unfold Hub.work
  split
  · exact ⟨h, rfl, .idle⟩
  · rename_i id set todo c' hholder
    rw [hholder] at hholds
    obtain ⟨hwatch, -, hempty⟩ := hholds.2.2.2 c' rfl
    have hopen : (h.box c').closed = false := by
      simpa [hholder, Pending.Shut] using hs.opened id c' hwatch
    exact ⟨_, onChannel_ok (Mailbox.send_of_empty hopen hempty), .sent hholder hempty⟩
  · rename_i hholder
    exact ⟨_, rfl, .released hholder⟩
  · rename_i hholder
    split
    · rename_i hc
      exact ⟨_, rfl, .drained hholder hc⟩
    · exact ⟨h, rfl, .idle⟩
  · rename_i hholder
    exact ⟨_, rfl, .removed hholder⟩
  · rename_i id todo _ hholder
    rw [hholder] at hholds
    split
    · rename_i hc
      have hopen : (h.box c).closed = false := by
        simpa [hholder, Pending.Shut, hc] using hs.opened id c (hholds.2.2 c hc)
      exact ⟨_, onChannel_ok (Mailbox.close_of_open hopen), .closed hholder hc⟩
    · exact ⟨h, rfl, .idle⟩

variable {id : String} {set : RouteSet} {todo : List ℕ} {c : ℕ}

theorem Sound.sent (hs : h.Sound) (hholder : h.holder = some (.broadcast id set todo (some c)))
    (hempty : (h.box c).slot = none) :
    Sound { h with
      box := Function.update h.box c { h.box c with slot := some set }
      holder := some (.broadcast id set todo none) } := by
  have hopened := hs.opened
  have hcurrent := hs.current
  have hholds := hs.holds
  rw [hholder] at hopened hcurrent hholds
  obtain ⟨⟨t, ht, hset⟩, hnodup, htodo, hdrained⟩ := hholds
  obtain ⟨hwatch, hmem, -⟩ := hdrained c rfl
  refine ⟨hs.restrict hs.hasDefault rfl fun _ _ _ hn => hn, ?_, ?_, ?_⟩
  · intro id' c' hc'
    by_cases hne : c' = c
    · subst hne
      simpa [Pending.Shut] using hopened id' c' hc'
    · simpa [Function.update_of_ne hne, Pending.Shut] using hopened id' c' hc'
  · intro id' t' c' hid' hc'
    by_cases hne : c' = c
    · subst hne
      obtain rfl := hs.eq_of_watches hc' hwatch
      obtain rfl := Option.some.inj (ht.symm.trans hid')
      left
      simp [Mailbox.history_send hempty, hset]
    · rcases hcurrent id' t' c' hid' hc' with hhead | ⟨hid, hunsent⟩
      · left
        simpa [Function.update_of_ne hne] using hhead
      · right
        refine ⟨hid, Or.inl (hunsent.resolve_right ?_)⟩
        intro heq
        exact hne (Option.some.inj heq).symm
  · exact ⟨⟨t, ht, hset⟩, hnodup, htodo, fun c' hc' => absurd hc' (by simp)⟩

theorem Sound.drained (hs : h.Sound) (hholder : h.holder = some (.broadcast id set todo none))
    (hc : c ∈ todo) :
    Sound { h with
      box := Function.update h.box c (h.box c).drain
      holder := some (.broadcast id set (todo.erase c) (some c)) } := by
  have hopened := hs.opened
  have hcurrent := hs.current
  have hholds := hs.holds
  rw [hholder] at hopened hcurrent hholds
  obtain ⟨ht, hnodup, htodo, -⟩ := hholds
  refine ⟨hs.restrict hs.hasDefault rfl fun _ _ _ hn => hn, ?_, ?_, ?_⟩
  · intro id' c' hc'
    by_cases hne : c' = c
    · subst hne
      simpa [Pending.Shut, Mailbox.drain] using hopened id' c' hc'
    · simpa [Function.update_of_ne hne, Pending.Shut] using hopened id' c' hc'
  · intro id' t' c' hid' hc'
    by_cases hne : c' = c
    · subst hne
      obtain rfl := hs.eq_of_watches hc' (htodo c' hc)
      exact Or.inr ⟨rfl, Or.inr rfl⟩
    · rcases hcurrent id' t' c' hid' hc' with hhead | ⟨hid, hunsent⟩
      · left
        simpa [Function.update_of_ne hne] using hhead
      · right
        refine ⟨hid, Or.inl ((List.mem_erase_of_ne hne).mpr (hunsent.resolve_right ?_))⟩
        simp
  · refine ⟨ht, hnodup.erase c, fun c' hc' => htodo c' (List.mem_of_mem_erase hc'), ?_⟩
    intro c' hc'
    obtain rfl := Option.some.inj hc'
    refine ⟨htodo c hc, hnodup.not_mem_erase, ?_⟩
    simp [Mailbox.drain]

theorem Sound.released (hs : h.Sound) (hholder : h.holder = some (.broadcast id set [] none)) :
    Sound { h with holder := none } := by
  have hopened := hs.opened
  have hcurrent := hs.current
  rw [hholder] at hopened hcurrent
  refine ⟨hs.restrict hs.hasDefault rfl fun _ _ _ hn => hn, ?_, ?_, trivial⟩
  · intro id' c' hc'
    simpa [Pending.Shut] using hopened id' c' hc'
  · intro id' t' c' hid' hc'
    simpa [Pending.Unsent] using hcurrent id' t' c' hid' hc'

theorem Sound.closed (hs : h.Sound) (hholder : h.holder = some (.closing id todo))
    (hc : c ∈ todo) :
    Sound { h with
      box := Function.update h.box c { h.box c with closed := true }
      holder := some (.closing id (todo.erase c)) } := by
  have hopened := hs.opened
  have hcurrent := hs.current
  have hholds := hs.holds
  rw [hholder] at hopened hcurrent hholds
  obtain ⟨hdefault, hnodup, htodo⟩ := hholds
  refine ⟨hs.restrict hs.hasDefault rfl fun _ _ _ hn => hn, ?_, ?_, ?_⟩
  · intro id' c' hc'
    by_cases hne : c' = c
    · subst hne
      obtain rfl := hs.eq_of_watches hc' (htodo c' hc)
      exact Or.inr ⟨rfl, hnodup.not_mem_erase⟩
    · rcases hopened id' c' hc' with hopen | ⟨hid, hmem⟩
      · left
        simpa [Function.update_of_ne hne] using hopen
      · exact Or.inr ⟨hid, fun h' => hmem (List.mem_of_mem_erase h')⟩
  · intro id' t' c' hid' hc'
    have hhead := hcurrent id' t' c' hid' hc'
    by_cases hne : c' = c
    · subst hne
      simpa [Pending.Unsent, Mailbox.history] using hhead
    · simpa [Function.update_of_ne hne, Pending.Unsent] using hhead
  · exact ⟨hdefault, hnodup.erase c, fun c' hc' => htodo c' (List.mem_of_mem_erase hc')⟩

theorem Sound.removed (hs : h.Sound) (hholder : h.holder = some (.closing id [])) :
    Sound { h with
      store := (h.store.delete id).2
      subs := Function.update h.subs id ∅
      holder := none } := by
  have hopened := hs.opened
  have hcurrent := hs.current
  rw [hholder] at hopened hcurrent
  refine ⟨hs.restrict (hs.hasDefault.delete id) rfl ?_, ?_, ?_, trivial⟩
  · intro id' n c hn
    exact (lookup_update_empty hn).2
  · rintro id' c ⟨n, hn⟩
    obtain ⟨hne, hn⟩ := lookup_update_empty hn
    have hopen := hopened id' c ⟨n, hn⟩
    simp only [Pending.Shut, hne.symm, false_and, or_false] at hopen
    exact Or.inl hopen
  · rintro id' t' c hid' ⟨n, hn⟩
    obtain ⟨hne, hn⟩ := lookup_update_empty hn
    rw [TenantStore.lookup_delete_of_ne fun _ => hne] at hid'
    have hhead := hcurrent id' t' c hid' ⟨n, hn⟩
    simp only [Pending.Unsent, or_false] at hhead
    exact Or.inl hhead

theorem Sound.work {h' : Hub} (hs : h.Sound) (hwork : h.Worked h') : h'.Sound := by
  cases hwork with
  | idle => exact hs
  | sent hholder hempty => exact hs.sent hholder hempty
  | drained hholder hc => exact hs.drained hholder hc
  | released hholder => exact hs.released hholder
  | closed hholder hc => exact hs.closed hholder hc
  | removed hholder => exact hs.removed hholder

end Work

variable [GoText.CaseTables]

theorem Sound.step (hs : h.Sound) (l : HubLabel) : ∃ h', h.step l = .ok h' ∧ h'.Sound := by
  cases l with
  | call c =>
      cases hholder : h.holder with
      | some p => exact ⟨h, by simp [Hub.step, hholder], hs⟩
      | none =>
          simp only [Hub.step, hholder, Option.isSome_none, Bool.false_eq_true, if_false]
          cases c with
          | create t => exact ⟨_, rfl, hs.create hholder t⟩
          | update id inp => exact ⟨_, rfl, hs.update hholder id inp⟩
          | delete id => exact ⟨_, rfl, hs.delete hholder id⟩
          | subscribe tenantID => exact hs.subscribe hholder tenantID
          | unsubscribe tenantID n => exact hs.unsubscribe hholder tenantID n
  | work c =>
      obtain ⟨h', hwork, hworked⟩ := hs.worked c
      exact ⟨h', hwork, hs.work hworked⟩
  | receive c => exact ⟨_, rfl, hs.receive c⟩

theorem sound_run (ips dns : List String) (ls : List HubLabel) :
    ∃ h, (new ips dns).run ls = .ok h ∧ h.Sound :=
  runFallible_invariant (fun h _ => Sound h) (fun _ l _ hs => hs.step l) (sound_new ips dns)

/-- No interleaving of calls and receives closes a channel twice, sends on a
closed one or has a broadcast wait on a full one. -/
theorem channels_never_misused (ips dns : List String) (ls : List HubLabel) :
    ∃ h, (new ips dns).run ls = .ok h := by
  obtain ⟨h, hrun, -⟩ := sound_run ips dns ls
  exact ⟨h, hrun⟩

end Hub

end Claimward
