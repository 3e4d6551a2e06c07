import Claimward.Tenant.Broadcast

/-!
# What a watcher sees

Between updates of its tenant, a watcher finds the tenant's route set or has
seen it last. The serials it sees go up, as long as none wraps around: a tenant
starts at 1, so the last update that leaves them in order is the one before the
`2 ^ 64 - 1`st.
-/

namespace Claimward

open Runs

/-- Newer sets first, with serials that go down. -/
def Descending (sets : List RouteSet) : Prop :=
  sets.Pairwise fun newer older => older.serial < newer.serial

/-- The label is an `Update`. -/
def HubLabel.isUpdate : HubLabel → Bool
  | .call (.update _ _) => true
  | _ => false

namespace Hub

/-- What every watcher has seen and finds is in order, and a broadcast sends a
set that is newer than all of it. -/
structure Ordered (h : Hub) : Prop where
  boxes : ∀ c, Descending (h.box c).history
  behind : ∀ id set todo drained, h.holder = some (.broadcast id set todo drained) →
    ∀ c, c ∈ todo ∨ drained = some c → ∀ v ∈ (h.box c).history, v.serial < set.serial

/-- The updates to come do not take a serial to its end. -/
def Room (h : Hub) (ls : List HubLabel) : Prop :=
  1 + ls.countP HubLabel.isUpdate < 2 ^ 64 ∧
    ∀ id t, h.store.tenants.lookup id = some t →
      t.serial.toNat + ls.countP HubLabel.isUpdate < 2 ^ 64

variable {h h' : Hub}

theorem ordered_new (ips dns : List String) : (new ips dns).Ordered where
  boxes _ := List.Pairwise.nil
  behind := by
    intro id set todo drained hholder
    simp [new] at hholder

/-- Values go and nothing more is owed to a watcher. -/
theorem Ordered.shrink (ho : h.Ordered)
    (hbox : ∀ c, (h'.box c).history.Sublist (h.box c).history)
    (hholder : ∀ id set todo drained, h'.holder = some (.broadcast id set todo drained) →
      ∃ todo' drained', h.holder = some (.broadcast id set todo' drained') ∧
        ∀ c, c ∈ todo ∨ drained = some c → c ∈ todo' ∨ drained' = some c) : h'.Ordered where
  boxes c := (ho.boxes c).sublist (hbox c)
  behind := by
    intro id set todo drained hheld c hc v hv
    obtain ⟨todo', drained', hheld', hsub⟩ := hholder id set todo drained hheld
    exact ho.behind id set todo' drained' hheld' c (hsub c hc) v ((hbox c).subset hv)

/-- A step that is not part of a broadcast, to a channel whose values stay or go. -/
theorem Ordered.onChannel (ho : h.Ordered) {c : ℕ} {m : Mailbox RouteSet}
    (hm : m.history.Sublist (h.box c).history) (hbox : h'.box = Function.update h.box c m)
    (hholder : ∀ id set todo drained, h'.holder = some (.broadcast id set todo drained) →
      ∃ todo' drained', h.holder = some (.broadcast id set todo' drained') ∧
        ∀ c, c ∈ todo ∨ drained = some c → c ∈ todo' ∨ drained' = some c) : h'.Ordered := by
  apply ho.shrink _ hholder
  intro c'
  rw [hbox]
  by_cases hc : c' = c
  · subst hc
    rw [Function.update_self]
    exact hm
  · rw [Function.update_of_ne hc]

/-- The newest set of a history in order has the greatest serial. -/
theorem serial_le_of_head {sets : List RouteSet} {v w : RouteSet} (h : Descending sets)
    (hv : sets.head? = some v) (hw : w ∈ sets) : w.serial ≤ v.serial := by
  cases sets with
  | nil => exact absurd hw List.not_mem_nil
  | cons a rest =>
      obtain rfl := Option.some.inj hv
      rcases List.mem_cons.mp hw with rfl | hw
      · exact UInt64.le_refl _
      · exact UInt64.le_of_lt (List.rel_of_pairwise_cons h hw)

theorem Ordered.update (hs : h.Sound) (ho : h.Ordered) (hfree : h.holder = none) (id : String)
    (inp : Tenant)
    (hroom : ∀ t, h.store.tenants.lookup id = some t → t.serial.toNat + 1 < 2 ^ 64) :
    (h.update id inp).Ordered := by
  unfold Hub.update
  split
  · rename_i t store heq
    obtain ⟨old, hold, hserial, rfl⟩ := TenantStore.update_eq_ok heq
    refine ⟨ho.boxes, ?_⟩
    rintro id' set todo drained hheld c hc v hv
    simp only [Option.some.injEq, Pending.broadcast.injEq] at hheld
    obtain ⟨rfl, rfl, rfl, rfl⟩ := hheld
    have hwatch : h.Watches id c := mem_values_subs.mp (hc.resolve_right (by simp))
    have hhead : (h.box c).history.head? = some old.routes := by
      simpa [hfree, Pending.Unsent] using hs.current id old c hold hwatch
    have hle := UInt64.le_iff_toNat_le.mp (serial_le_of_head (ho.boxes c) hhead hv)
    have hbound := hroom old hold
    rw [UInt64.lt_iff_toNat_lt, Tenant.routes, hserial, UInt64.toNat_add]
    simp only [Tenant.routes] at hle
    have hone : (1 : UInt64).toNat = 1 := rfl
    omega
  · exact ho

theorem Ordered.subscribe (ho : h.Ordered) (hfree : h.holder = none) {tenantID : String}
    (hstep : h.subscribe tenantID = .ok h') : h'.Ordered := by
  unfold Hub.subscribe at hstep
  split at hstep
  · exact absurd hstep (by simp)
  · obtain rfl := Except.ok.inj hstep
    constructor
    · intro c
      by_cases hc : c = h.made
      · subst hc
        simp [Descending]
      · simpa [Function.update_of_ne hc] using ho.boxes c
    · intro id set todo drained hheld
      simp [hfree] at hheld

theorem Ordered.unsubscribe (ho : h.Ordered) (hfree : h.holder = none) {tenantID : String}
    {n : Int64} (hstep : h.unsubscribe tenantID n = .ok h') : h'.Ordered := by
  unfold Hub.unsubscribe at hstep
  split at hstep
  · exact absurd hstep (by simp)
  · split at hstep
    · obtain rfl := Except.ok.inj hstep
      exact ho
    · rename_i c _
      simp only [Hub.onChannel, Mailbox.close] at hstep
      split at hstep
      · rename_i m hm
        obtain rfl := Except.ok.inj hstep
        refine ho.onChannel (c := c) (m := m) ?_ rfl (by simp [hfree])
        split at hm
        · exact absurd hm (by simp)
        · obtain rfl := Except.ok.inj hm
          exact List.Sublist.refl _
      · exact absurd hstep (by simp)

theorem Ordered.receive (ho : h.Ordered) (c : ℕ) : (h.receive c).Ordered :=
  ho.onChannel (m := (h.box c).receive) (List.Sublist.refl _) rfl fun _ _ todo drained hheld =>
    ⟨todo, drained, hheld, fun _ hc => hc⟩

theorem Ordered.work (hs : h.Sound) (ho : h.Ordered) (hwork : h.Worked h') : h'.Ordered := by
  cases hwork with
  | idle => exact ho
  | @sent id set todo c hholder hempty =>
      have hbehind := ho.behind id set todo (some c) hholder
      have hholds := hs.holds
      rw [hholder] at hholds
      constructor
      · intro c'
        by_cases hc : c' = c
        · subst hc
          simp only [Function.update_self, Mailbox.history_send hempty]
          exact List.Pairwise.cons (hbehind c' (Or.inr rfl)) (ho.boxes c')
        · simpa [Function.update_of_ne hc] using ho.boxes c'
      · intro id' set' todo' drained' hheld c' hc' v hv
        simp only [Option.some.injEq, Pending.broadcast.injEq] at hheld
        obtain ⟨rfl, rfl, rfl, rfl⟩ := hheld
        have hmem : c' ∈ todo := hc'.resolve_right (by simp)
        have hne : c' ≠ c := by
          rintro rfl
          exact (hholds.2.2.2 c' rfl).2.1 hmem
        simp only [Function.update_of_ne hne] at hv
        exact hbehind c' (Or.inl hmem) v hv
  | @drained id set todo c hholder hc =>
      refine ho.onChannel (Mailbox.history_drain ▸ Mailbox.seen_sublist_history) rfl ?_
      intro id' set' todo' drained' hheld
      simp only [Option.some.injEq, Pending.broadcast.injEq] at hheld
      obtain ⟨rfl, rfl, rfl, rfl⟩ := hheld
      refine ⟨todo, none, hholder, ?_⟩
      rintro c' (hmem | heq)
      · exact Or.inl (List.mem_of_mem_erase hmem)
      · obtain rfl := Option.some.inj heq
        exact Or.inl hc
  | @released id set hholder => exact ho.shrink (fun _ => List.Sublist.refl _) (by simp)
  | @closed id todo c hholder hc =>
      exact ho.onChannel (m := { h.box c with closed := true }) (List.Sublist.refl _) rfl (by simp)
  | @removed id hholder => exact ho.shrink (fun _ => List.Sublist.refl _) (by simp)

section Runs

variable [GoText.CaseTables] {l : HubLabel} {ls : List HubLabel}

theorem Ordered.create (ho : h.Ordered) (t : Tenant) : (h.create t).Ordered := by
  unfold Hub.create
  split
  · exact ho.shrink (fun _ => List.Sublist.refl _) fun _ _ todo drained hheld =>
      ⟨todo, drained, hheld, fun _ hc => hc⟩
  · exact ho

omit [GoText.CaseTables] in
theorem Ordered.delete (ho : h.Ordered) (id : String) : (h.delete id).Ordered := by
  unfold Hub.delete
  split
  · exact ho
  · split
    · exact ho
    · exact ho.shrink (fun _ => List.Sublist.refl _) (by simp)

theorem Ordered.step (hs : h.Sound) (ho : h.Ordered) (hroom : h.Room (l :: ls))
    (hstep : h.step l = .ok h') : h'.Ordered := by
  cases l with
  | call c =>
      cases hholder : h.holder with
      | some p =>
          simp only [Hub.step, hholder, Option.isSome_some, if_true] at hstep
          obtain rfl := Except.ok.inj hstep
          exact ho
      | none =>
          simp only [Hub.step, hholder, Option.isSome_none, Bool.false_eq_true, if_false] at hstep
          cases c with
          | create t =>
              obtain rfl := Except.ok.inj hstep
              exact ho.create t
          | update id inp =>
              obtain rfl := Except.ok.inj hstep
              apply ho.update hs hholder
              intro t ht
              have hbound := hroom.2 id t ht
              simp only [List.countP_cons, HubLabel.isUpdate, if_true] at hbound
              omega
          | delete id =>
              obtain rfl := Except.ok.inj hstep
              exact ho.delete id
          | subscribe tenantID => exact ho.subscribe hholder hstep
          | unsubscribe tenantID n => exact ho.unsubscribe hholder hstep
  | work c =>
      obtain ⟨h'', hwork, hworked⟩ := hs.worked c
      obtain rfl := Except.ok.inj (hwork.symm.trans hstep)
      exact ho.work hs hworked
  | receive c =>
      obtain rfl := Except.ok.inj hstep
      exact ho.receive c

theorem Room.step (hroom : h.Room (l :: ls)) (hstep : h.step l = .ok h') : h'.Room ls := by
  obtain ⟨hone, hserial⟩ := hroom
  have hle : ls.countP HubLabel.isUpdate ≤ (l :: ls).countP HubLabel.isUpdate :=
    (List.sublist_cons_self l ls).countP_le
  have hkept : ∀ id t, h.store.tenants.lookup id = some t →
      t.serial.toNat + ls.countP HubLabel.isUpdate < 2 ^ 64 := fun id t ht =>
    lt_of_le_of_lt (Nat.add_le_add_left hle _) (hserial id t ht)
  refine ⟨by omega, ?_⟩
  intro id t ht
  rcases store_step hstep with heq | ⟨t', -, heq⟩ | ⟨id', inp, rfl, heq⟩ | ⟨id', -, heq⟩
  · exact hkept id t (heq ▸ ht)
  · rcases TenantStore.lookup_create (heq ▸ ht) with hfirst | hold
    · rw [hfirst]
      exact lt_of_le_of_lt (Nat.add_le_add_left hle 1) hone
    · exact hkept id t hold
  · rcases TenantStore.lookup_update (heq ▸ ht) with hold | ⟨old, hold, hnext⟩
    · exact hkept id t hold
    · have hbound := hserial id old hold
      have hle' : t.serial.toNat ≤ old.serial.toNat + 1 := by
        rw [hnext, UInt64.toNat_add]
        exact Nat.mod_le _ _
      simp only [List.countP_cons, HubLabel.isUpdate, if_true] at hbound
      omega
  · exact hkept id t (TenantStore.lookup_of_lookup_delete (heq ▸ ht))

theorem ordered_run (ips dns : List String)
    (hcount : ls.countP HubLabel.isUpdate < 2 ^ 64 - 1) :
    ∃ h, (new ips dns).run ls = .ok h ∧ h.Ordered := by
  have hroom : (new ips dns).Room ls := by
    refine ⟨by omega, ?_⟩
    intro id t ht
    have hserial : t.serial = 1 := by
      simp only [new, TenantStore.new, Table.lookup_insert_eq] at ht
      split at ht
      · exact Option.some.inj ht ▸ rfl
      · simp at ht
    rw [hserial]
    exact Nat.lt_of_lt_of_le (Nat.add_lt_add_left hcount 1) (by decide)
  have hstep : ∀ (h : Hub) l ls, h.Sound ∧ h.Ordered ∧ h.Room (l :: ls) →
      ∃ h', h.step l = .ok h' ∧ h'.Sound ∧ h'.Ordered ∧ h'.Room ls := by
    rintro h l ls ⟨hs, ho, hroom⟩
    obtain ⟨h', hstep, hs'⟩ := hs.step l
    exact ⟨h', hstep, hs', ho.step hs hroom hstep, hroom.step hstep⟩
  obtain ⟨h, hrun, -, ho, -⟩ := runFallible_invariant
    (fun (h : Hub) ls => h.Sound ∧ h.Ordered ∧ h.Room ls) hstep
    ⟨sound_new ips dns, ordered_new ips dns, hroom⟩
  exact ⟨h, hrun, ho⟩

/-- The route set of a tenant reaches every watcher: between updates the watcher
finds it or has seen it last, and the serials it sees go up if there are fewer
than `2 ^ 64 - 1` updates. -/
theorem route_updates_arrive (ips dns : List String) (ls : List HubLabel) :
    ∃ h, (new ips dns).run ls = .ok h ∧
      (∀ id t n c, h.store.tenants.lookup id = some t → (h.subs id).lookup n = some c →
        ¬ h.Updating id →
        (h.box c).slot = some t.routes ∨
          (h.box c).slot = none ∧ (h.box c).seen.head? = some t.routes) ∧
      (ls.countP HubLabel.isUpdate < 2 ^ 64 - 1 → ∀ c, Descending (h.box c).seen) := by
  obtain ⟨h, hrun, hs⟩ := sound_run ips dns ls
  refine ⟨h, hrun, ?_, ?_⟩
  · intro id t n c hid hc hidle
    apply Mailbox.head_history_iff.mp
    apply (hs.current id t c hid ⟨n, hc⟩).resolve_right
    intro hunsent
    unfold Pending.Unsent at hunsent
    split at hunsent
    · rename_i set todo drained hholder
      obtain ⟨rfl, -⟩ := hunsent
      exact hidle ⟨_, _, _, hholder⟩
    · exact hunsent
  · intro hcount c
    obtain ⟨h', hrun', ho⟩ := ordered_run ips dns hcount
    obtain rfl := Except.ok.inj (hrun'.symm.trans hrun)
    exact (ho.boxes c).sublist Mailbox.seen_sublist_history

end Runs

section Wraparound

attribute [local instance] GoText.asciiTables

/-- The default tenant at its `k`th update. -/
private def updated (k : ℕ) : Tenant :=
  { id := defaultID, name := "Default", domains := [], groups := [], idps := [],
    allowedIPs := ["10.80.0.0/29"], dns := [], serial := UInt64.ofNat (k + 1) }

/-- One watcher of the default tenant, when that has been updated `k` times. -/
private def watching (k : ℕ) (slot : Option RouteSet) (seen : List RouteSet) : Hub where
  store := ⟨AList.insert defaultID (updated k) ∅⟩
  subs := Function.update (fun _ => ∅) defaultID (AList.insert 0 0 ∅)
  nextSub := 1
  box := Function.update (fun _ => ⟨none, false, []⟩) 0 ⟨slot, false, seen⟩
  made := 1
  holder := none

/-- An update and its broadcast to one watcher. -/
private def updateRound : List HubLabel :=
  [.call (.update defaultID (updated 0)), .work 0, .work 0, .work 0]

private theorem run_updateRound (k : ℕ) (slot : Option RouteSet) (seen : List RouteSet) :
    (watching k slot seen).run updateRound =
      .ok (watching (k + 1) (some (updated (k + 1)).routes) seen) := by
  have hupdate : (watching k slot seen).step (.call (.update defaultID (updated 0))) =
      .ok { watching (k + 1) slot seen with
        holder := some (.broadcast defaultID (updated (k + 1)).routes [0] none) } := by
    simp [Hub.step, Hub.call, Hub.update, watching, TenantStore.update, updated]
    rfl
  have hdrain : Hub.step { watching (k + 1) slot seen with
        holder := some (.broadcast defaultID (updated (k + 1)).routes [0] none) } (.work 0) =
      .ok { watching (k + 1) none seen with
        holder := some (.broadcast defaultID (updated (k + 1)).routes [] (some 0)) } := by
    simp [Hub.step, Hub.work, watching, Mailbox.drain]
  have hsend : Hub.step { watching (k + 1) none seen with
        holder := some (.broadcast defaultID (updated (k + 1)).routes [] (some 0)) } (.work 0) =
      .ok { watching (k + 1) (some (updated (k + 1)).routes) seen with
        holder := some (.broadcast defaultID (updated (k + 1)).routes [] none) } := by
    simp [Hub.step, Hub.work, watching, Hub.onChannel, Mailbox.send]
  rw [updateRound, Hub.run, runFallible_cons hupdate, runFallible_cons hdrain,
    runFallible_cons hsend]
  rfl

private theorem run_subscribe : (new ["10.80.0.0/29"] []).step (.call (.subscribe defaultID)) =
    .ok (watching 0 none [(updated 0).routes]) := rfl

/-- A watcher of the default tenant that has not read its first update yet. -/
theorem first_update_arrives :
    ∃ h, (new ["10.80.0.0/29"] []).run (.call (.subscribe defaultID) :: updateRound) = .ok h ∧
      ((h.box 0).slot = some (updated 1).routes ∨
        (h.box 0).slot = none ∧ (h.box 0).seen.head? = some (updated 1).routes) ∧
      Descending (h.box 0).seen := by
  have hrun : (new ["10.80.0.0/29"] []).run (.call (.subscribe defaultID) :: updateRound) =
      .ok (watching 1 (some (updated 1).routes) [(updated 0).routes]) := by
    rw [Hub.run, runFallible_cons run_subscribe]
    exact run_updateRound 0 none _
  obtain ⟨h, hrun', hcurrent, hordered⟩ := route_updates_arrive ["10.80.0.0/29"] []
    (.call (.subscribe defaultID) :: updateRound)
  obtain rfl := Except.ok.inj (hrun.symm.trans hrun')
  refine ⟨_, hrun, hcurrent defaultID (updated 1) 0 0 rfl rfl ?_, hordered (by decide) 0⟩
  rintro ⟨set, todo, drained, hheld⟩
  exact absurd hheld (by simp [watching])

/-- The watcher does not read while the tenant is updated. -/
private theorem run_updateRounds (n k : ℕ) (slot : Option RouteSet) (seen : List RouteSet) :
    (watching k slot seen).run (List.replicate (n + 1) updateRound).flatten =
      .ok (watching (k + n + 1) (some (updated (k + n + 1)).routes) seen) := by
  induction n generalizing k slot with
  | zero => simpa using run_updateRound k slot seen
  | succ n ih =>
      rw [List.replicate_succ, List.flatten_cons, Hub.run,
        runFallible_append (run_updateRound k slot seen)]
      rw [show k + (n + 1) + 1 = k + 1 + n + 1 by omega]
      exact ih (k + 1) _

private theorem countP_updateRounds (n : ℕ) :
    (List.replicate n updateRound).flatten.countP HubLabel.isUpdate = n := by
  rw [List.countP_flatten, List.map_replicate, List.sum_replicate_nat]
  exact Nat.mul_one n

private theorem run_receive (k : ℕ) (v : RouteSet) (seen : List RouteSet) :
    (watching k (some v) seen).step (.receive 0) = .ok (watching k none (v :: seen)) := by
  simp [Hub.step, Hub.receive, watching, Mailbox.receive]

/-- After `2 ^ 64 - 1` updates the serial is 0, and a watcher that reads before
and after the last of them sees it go down. -/
theorem last_serial_wraps :
    ∃ ls, ls.countP HubLabel.isUpdate < 2 ^ 64 ∧
      ∃ h, (new ["10.80.0.0/29"] []).run ls = .ok h ∧ ¬ Descending (h.box 0).seen := by
  obtain ⟨n, hn⟩ : ∃ n, n + 3 = 2 ^ 64 := ⟨2 ^ 64 - 3, by decide⟩
  have hrounds := run_updateRounds n 0 none [(updated 0).routes]
  rw [Nat.zero_add] at hrounds
  refine ⟨.call (.subscribe defaultID) :: ((List.replicate (n + 1) updateRound).flatten ++
    .receive 0 :: (updateRound ++ [.receive 0])), ?_,
    watching (n + 2) none [(updated (n + 2)).routes, (updated (n + 1)).routes, (updated 0).routes],
    ?_, ?_⟩
  · have hround : updateRound.countP HubLabel.isUpdate = 1 := rfl
    simp only [List.countP_cons, List.countP_append, countP_updateRounds, hround,
      HubLabel.isUpdate, Bool.false_eq_true, if_false, List.countP_nil]
    omega
  · rw [Hub.run, runFallible_cons run_subscribe, runFallible_append hrounds,
      runFallible_cons (run_receive _ _ _), runFallible_append (run_updateRound _ _ _),
      runFallible_cons (run_receive _ _ _)]
    rfl
  · intro h
    have hlt : UInt64.ofNat (n + 2) < UInt64.ofNat (n + 3) :=
      List.rel_of_pairwise_cons h List.mem_cons_self
    rw [hn, UInt64.lt_iff_toNat_lt] at hlt
    exact absurd hlt (Nat.not_lt_zero _)

end Wraparound

end Hub

end Claimward
