import Claimward.Tenant.Broadcast

/-!
# Whole calls of the tenant store

Nothing but a receive can fall between the steps of a call that holds the mutex.
Where receives are not in question, a call is one step: it and all the work it
leaves, in the order of the subscriptions.
-/

namespace Claimward

open Runs

/-- The steps that finish what the holder of the mutex has begun. -/
def Pending.works : Option Pending → List HubLabel
  | none => []
  | some (.broadcast _ _ todo _) => (todo.flatMap fun c => [.work c, .work c]) ++ [.work 0]
  | some (.closing _ todo) => todo.map .work ++ [.work 0]

variable [GoText.CaseTables]

/-- What a call does to the tenants. -/
def HubCall.onStore (s : TenantStore) : HubCall → TenantStore
  | .create t => (s.create t).2
  | .update id inp => (s.update id inp).2
  | .delete id => (s.delete id).2
  | .subscribe _ => s
  | .unsubscribe _ _ => s

namespace Hub

/-- A call from its lock to its unlock. -/
def atomically (h : Hub) (c : HubCall) : Except Fault Hub := do
  let h ← h.call c
  h.run (Pending.works h.holder)

variable {h : Hub}

/-- What remains of the subscriptions when the given channels have been closed. -/
structure Closed (h : Hub) (subs : String → Table Int64 ℕ) (channels : List ℕ) (h' : Hub) :
    Prop where
  subs : h'.subs = subs
  nextSub : h'.nextSub = h.nextSub
  made : h'.made = h.made
  closed : ∀ c, (h'.box c).closed = true ↔ (h.box c).closed = true ∨ c ∈ channels

omit [GoText.CaseTables] in
/-- Going on from a state where a channel has not been closed. -/
theorem Closed.of_open {h₁ h' : Hub} {subs : String → Table Int64 ℕ} {channels : List ℕ}
    (hrest : Closed h₁ subs channels h') (hnext : h₁.nextSub = h.nextSub)
    (hmade : h₁.made = h.made) (hclosed : ∀ c, (h₁.box c).closed = (h.box c).closed) :
    Closed h subs channels h' where
  subs := hrest.subs
  nextSub := hrest.nextSub.trans hnext
  made := hrest.made.trans hmade
  closed c := by rw [hrest.closed, hclosed]

/-- A broadcast reaches every watcher and changes no tenant and no subscription. -/
theorem Sound.run_broadcast (hs : h.Sound) {id : String} {set : RouteSet} {todo : List ℕ}
    (hholder : h.holder = some (.broadcast id set todo none)) :
    ∃ h', h.run (Pending.works h.holder) = .ok h' ∧ h'.Sound ∧ h'.holder = none ∧
      h'.store = h.store ∧ Closed h h.subs [] h' := by
  rw [hholder, Pending.works]
  induction todo generalizing h with
  | nil =>
      have hwork : h.step (.work 0) = .ok { h with holder := none } := by
        simp [Hub.step, Hub.work, hholder]
      refine ⟨{ h with holder := none }, runFallible_cons hwork, ?_, rfl, rfl, ?_⟩
      · exact hs.work (.released hholder)
      · exact ⟨rfl, rfl, rfl, by simp⟩
  | cons c rest ih =>
      let h₁ : Hub := { h with
        box := Function.update h.box c (h.box c).drain
        holder := some (.broadcast id set rest (some c)) }
      have hdrain : h.step (.work c) = .ok h₁ := by
        simp [Hub.step, Hub.work, hholder, h₁]
      have hs₁ : h₁.Sound := by
        have hsound := hs.work (.drained hholder List.mem_cons_self)
        rwa [List.erase_cons_head] at hsound
      obtain ⟨hwatch, -, hempty⟩ := hs₁.holds.2.2.2 c rfl
      have hopen : (h₁.box c).closed = false := by
        simpa [h₁, Pending.Shut] using hs₁.opened id c hwatch
      have hsend : h₁.step (.work c) = .ok { h₁ with
          box := Function.update h₁.box c { h₁.box c with slot := some set }
          holder := some (.broadcast id set rest none) } := by
        have hok := Mailbox.send_of_empty (v := set) hopen hempty
        simp only [Hub.step, Hub.work, Hub.onChannel, h₁] at hok ⊢
        rw [hok]
      have hs₂ := hs₁.work (.sent rfl hempty)
      obtain ⟨h', hrun, hs', hfree, hstore, hclosed⟩ := ih hs₂ rfl
      refine ⟨h', ?_, hs', hfree, hstore, hclosed.of_open rfl rfl fun c' => ?_⟩
      · simp only [Hub.run, List.flatMap_cons, List.cons_append, List.nil_append]
        rw [runFallible_cons hdrain, runFallible_cons hsend]
        exact hrun
      · by_cases hc : c' = c
        · subst hc
          simp [h₁, Mailbox.drain]
        · simp [h₁, hc]

/-- A deletion closes every channel of the tenant and takes the tenant away, its
subscriptions with it. -/
theorem Sound.run_closing (hs : h.Sound) {id : String} {todo : List ℕ}
    (hholder : h.holder = some (.closing id todo)) :
    ∃ h', h.run (Pending.works h.holder) = .ok h' ∧ h'.Sound ∧ h'.holder = none ∧
      h'.store = (h.store.delete id).2 ∧ Closed h (Function.update h.subs id ∅) todo h' := by
  rw [hholder, Pending.works]
  induction todo generalizing h with
  | nil =>
      refine ⟨{ h with
        store := (h.store.delete id).2
        subs := Function.update h.subs id ∅
        holder := none }, ?_, hs.work (.removed hholder), rfl, rfl, ⟨rfl, rfl, rfl, by simp⟩⟩
      exact runFallible_cons (by simp [Hub.step, Hub.work, hholder])
  | cons c rest ih =>
      have hwatch : h.Watches id c := by
        have hholds := hs.holds
        rw [hholder] at hholds
        exact hholds.2.2 c List.mem_cons_self
      have hopen : (h.box c).closed = false := by
        simpa [hholder, Pending.Shut] using hs.opened id c hwatch
      have hclose : h.step (.work c) = .ok { h with
          box := Function.update h.box c { h.box c with closed := true }
          holder := some (.closing id rest) } := by
        simp [Hub.step, Hub.work, hholder, Hub.onChannel, Mailbox.close_of_open hopen]
      have hs₁ := hs.work (.closed hholder List.mem_cons_self)
      rw [List.erase_cons_head] at hs₁
      obtain ⟨h', hrun, hs', hfree, hstore, hrest⟩ := ih hs₁ rfl
      refine ⟨h', ?_, hs', hfree, hstore, hrest.subs, hrest.nextSub, hrest.made, fun c' => ?_⟩
      · simp only [Hub.run, List.map_cons, List.cons_append]
        rw [runFallible_cons hclose]
        exact hrun
      · rw [hrest.closed]
        by_cases hc : c' = c
        · subst hc
          simp
        · simp [hc]

/-- Where a call stands once it has the mutex: it is done, or it has a broadcast
or the channels of a tenant before it. The store is the one it leaves. -/
inductive Begun (store : TenantStore) (h : Hub) : Prop
  | done (hholder : h.holder = none) (hstore : h.store = store)
  | broadcasts {id set todo} (hholder : h.holder = some (.broadcast id set todo none))
      (hstore : h.store = store)
  | closes {id todo} (hholder : h.holder = some (.closing id todo))
      (hstore : (h.store.delete id).2 = store)

omit [GoText.CaseTables] in
theorem begun_update (hfree : h.holder = none) (id : String) (inp : Tenant) :
    Begun (h.store.update id inp).2 (h.update id inp) := by
  rw [← store_update]
  unfold Hub.update
  split
  · exact .broadcasts rfl rfl
  · exact .done hfree rfl

omit [GoText.CaseTables] in
theorem begun_delete (hfree : h.holder = none) (id : String) :
    Begun (h.store.delete id).2 (h.delete id) := by
  unfold Hub.delete
  split
  · rename_i hid
    exact .done hfree (by simp [TenantStore.delete, hid])
  · rename_i hid
    split
    · rename_i hlookup
      exact .done hfree (by simp [TenantStore.delete, hid, hlookup])
    · exact .closes rfl rfl

theorem begun_call {c : HubCall} {h₁ : Hub} (hfree : h.holder = none)
    (hcall : h.call c = .ok h₁) : Begun (c.onStore h.store) h₁ := by
  cases c with
  | create t =>
      obtain rfl := Except.ok.inj hcall
      obtain ⟨hstore, hholder⟩ := h.store_create t
      exact .done (hholder.trans hfree) hstore
  | update id inp =>
      obtain rfl := Except.ok.inj hcall
      exact begun_update hfree id inp
  | delete id =>
      obtain rfl := Except.ok.inj hcall
      exact begun_delete hfree id
  | subscribe tenantID =>
      obtain ⟨hstore, hholder⟩ := store_subscribe hcall
      exact .done (hholder.trans hfree) hstore
  | unsubscribe tenantID n =>
      obtain ⟨hstore, hholder⟩ := store_unsubscribe hcall
      exact .done (hholder.trans hfree) hstore

/-- A call and then the work that it leaves. -/
theorem atomically_eq {c : HubCall} {h₁ : Hub} (hcall : h.call c = .ok h₁) :
    h.atomically c = h₁.run (Pending.works h₁.holder) := by
  simp only [Hub.atomically, hcall]
  rfl

theorem atomically_of_call {c : HubCall} {h₁ : Hub} (hcall : h.call c = .ok h₁)
    (hfree : h₁.holder = none) : h.atomically c = .ok h₁ := by
  rw [atomically_eq hcall, hfree]
  rfl

theorem eq_of_atomically {c : HubCall} {h₁ h' : Hub} (hstep : h.atomically c = .ok h')
    (hcall : h.call c = .ok h₁) (hfree : h₁.holder = none) : h₁ = h' :=
  Except.ok.inj ((atomically_of_call hcall hfree).symm.trans hstep)

/-- A whole call does to the tenants what the store without watchers does, and
leaves the mutex free. -/
theorem Sound.atomically (hs : h.Sound) (hfree : h.holder = none) (c : HubCall) :
    ∃ h', h.atomically c = .ok h' ∧ h'.Sound ∧ h'.holder = none ∧
      h'.store = c.onStore h.store := by
  obtain ⟨h₁, hcall, hs₁⟩ := hs.step (.call c)
  simp only [Hub.step, hfree, Option.isSome_none, Bool.false_eq_true, if_false] at hcall
  have hrun := atomically_eq hcall
  cases begun_call hfree hcall with
  | done hholder hstore =>
      exact ⟨h₁, atomically_of_call hcall hholder, hs₁, hholder, hstore⟩
  | broadcasts hholder hstore =>
      obtain ⟨h', hworks, hs', hfree', hsame, -⟩ := hs₁.run_broadcast hholder
      exact ⟨h', hrun.trans hworks, hs', hfree', hsame.trans hstore⟩
  | closes hholder hstore =>
      obtain ⟨h', hworks, hs', hfree', hgone, -⟩ := hs₁.run_closing hholder
      exact ⟨h', hrun.trans hworks, hs', hfree', hgone.trans hstore⟩

end Hub

end Claimward
