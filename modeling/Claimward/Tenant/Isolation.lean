import Claimward.Tenant.Broadcast

/-!
# The updates of one tenant are nothing to the others

Two runs of the store with its watchers are compared: one in which a tenant is
updated, and one from which exactly that has been left out: its updates, their
steps while they hold the mutex, and the calls that find it held by one of them and
wait. The tenant itself may differ between the two, and what its watchers are sent.
Everything else is the same: the other tenants, who watches what, what the watchers
of the other tenants have been sent and have seen, and what holds the mutex.
-/

namespace Claimward

open Runs

namespace TenantStore

variable {a : String} {s s' : TenantStore}

/-- The stores differ in what one tenant is at most, and not in whether it is there. -/
structure AlikeBut (a : String) (s s' : TenantStore) : Prop where
  other : ∀ id, id ≠ a → s'.tenants.lookup id = s.tenants.lookup id
  there : ∀ id, (s'.tenants.lookup id).isSome = (s.tenants.lookup id).isSome

theorem AlikeBut.refl (a : String) (s : TenantStore) : s.AlikeBut a s where
  other _ _ := rfl
  there _ := rfl

theorem AlikeBut.lookup (h : s.AlikeBut a s') (id : String) :
    s.tenants.lookup id = none ∧ s'.tenants.lookup id = none ∨
      ∃ t t', s.tenants.lookup id = some t ∧ s'.tenants.lookup id = some t' ∧
        (id ≠ a → t' = t) := by
  have hthere := h.there id
  cases hs : s.tenants.lookup id with
  | none =>
      rw [hs, Option.isSome_none, Option.isSome_eq_false_iff, Option.isNone_iff_eq_none] at hthere
      exact Or.inl ⟨rfl, hthere⟩
  | some t =>
      rw [hs, Option.isSome_some] at hthere
      obtain ⟨t', ht'⟩ := Option.isSome_iff_exists.mp hthere
      refine Or.inr ⟨t, t', rfl, ht', ?_⟩
      intro hne
      apply Option.some.inj
      rw [← ht', ← hs]
      exact h.other id hne

theorem AlikeBut.insert (h : s.AlikeBut a s') (id : String) (t : Tenant) :
    AlikeBut a ⟨s.tenants.insert id t⟩ ⟨s'.tenants.insert id t⟩ where
  other id' hne := by
    rw [Table.lookup_insert_eq, Table.lookup_insert_eq, h.other id' hne]
  there id' := by
    rw [Table.lookup_insert_eq, Table.lookup_insert_eq]
    split
    · rfl
    · exact h.there id'

/-- The tenant that may differ is replaced in one of the stores. -/
theorem AlikeBut.replace (h : s.AlikeBut a s') {old : Tenant} (hold : s.tenants.lookup a = some old)
    (t : Tenant) : AlikeBut a ⟨s.tenants.insert a t⟩ s' where
  other id hne := by
    rw [Table.lookup_insert_eq, if_neg hne]
    exact h.other id hne
  there id := by
    rw [Table.lookup_insert_eq, h.there id]
    split
    · rename_i hid
      rw [hid, hold]
      rfl
    · rfl

theorem AlikeBut.delete (h : s.AlikeBut a s') (id : String) :
    AlikeBut a (s.delete id).2 (s'.delete id).2 := by
  unfold TenantStore.delete
  split
  · exact h
  · rcases h.lookup id with ⟨hs, hs'⟩ | ⟨t, t', hs, hs', -⟩
    · rw [hs, hs']
      exact h
    · rw [hs, hs']
      constructor
      · intro id' hne
        rw [Table.lookup_erase_eq, Table.lookup_erase_eq, h.other id' hne]
      · intro id'
        rw [Table.lookup_erase_eq, Table.lookup_erase_eq]
        split
        · rfl
        · exact h.there id'

/-- `Create` asks whether the tenant is there, and nothing else. -/
theorem AlikeBut.create [GoText.CaseTables] (h : s.AlikeBut a s') (inp : Tenant) :
    (∃ e, s.create inp = (.error e, s) ∧ s'.create inp = (.error e, s')) ∨
      ∃ t, s.create inp = (.ok t, ⟨s.tenants.insert t.id t⟩) ∧
        s'.create inp = (.ok t, ⟨s'.tenants.insert t.id t⟩) := by
  have hthere := h.there (createID inp)
  simp only [TenantStore.create]
  by_cases hid : createID inp = ""
  · rw [if_pos hid, if_pos hid]
    exact Or.inl ⟨_, rfl, rfl⟩
  · rw [if_neg hid, if_neg hid, hthere]
    by_cases htaken : (s.tenants.lookup (createID inp)).isSome
    · rw [if_pos htaken, if_pos htaken]
      exact Or.inl ⟨_, rfl, rfl⟩
    · rw [if_neg htaken, if_neg htaken]
      right
      refine ⟨{ inp with id := createID inp, serial := 1 }, ?_⟩
      dsimp only
      exact ⟨rfl, rfl⟩

end TenantStore

namespace Hub

variable {a : String} {h h' : Hub}

instance (h : Hub) (a : String) : Decidable (h.Updating a) :=
  match hholder : h.holder with
  | some (.broadcast id set todo drained) =>
      if hid : id = a then .isTrue ⟨set, todo, drained, hid ▸ hholder⟩
      else .isFalse fun hown => by
        obtain ⟨_, _, _, hown⟩ := hown
        injection Option.some.inj (hholder.symm.trans hown) with heq
        exact hid heq
  | some (.closing id todo) => .isFalse fun hown => by
      obtain ⟨_, _, _, hown⟩ := hown
      exact absurd (hholder.symm.trans hown) (by simp)
  | none => .isFalse fun hown => by
      obtain ⟨_, _, _, hown⟩ := hown
      exact absurd (hholder.symm.trans hown) (by simp)

/-- The label is an update of the tenant, a step of one, or a call that waits for one. -/
def updates (a : String) (h : Hub) : HubLabel → Bool
  | .call (.update id _) => h.Updating a ∨ id = a
  | .call _ => h.Updating a
  | .work _ => h.Updating a
  | .receive _ => false

theorem updates_call {c : HubCall} :
    h.updates a (.call c) = true ↔ h.Updating a ∨ ∃ inp, c = .update a inp := by
  cases c with
  | update id inp => simp [Hub.updates]
  | _ => simp [Hub.updates]

theorem not_updating_of_free (hfree : h.holder = none) : ¬ h.Updating a := by
  rintro ⟨set, todo, drained, hholder⟩
  exact absurd (hfree.symm.trans hholder) (by simp)

theorem not_updating_broadcast {id : String} {set : RouteSet} {todo : List ℕ} {drained : Option ℕ}
    (hholder : h.holder = some (.broadcast id set todo drained)) (hne : id ≠ a) :
    ¬ h.Updating a := by
  rintro ⟨set', todo', drained', hholder'⟩
  injection Option.some.inj (hholder.symm.trans hholder') with hid
  exact hne hid

theorem not_updating_closing {id : String} {todo : List ℕ}
    (hholder : h.holder = some (.closing id todo)) : ¬ h.Updating a := by
  rintro ⟨set, todo', drained, hholder'⟩
  exact absurd (hholder.symm.trans hholder') (by simp)

/-- The second of two stores with watchers has seen no update of the tenant. While the
first is at one, the second is at nothing; otherwise both are at the same. -/
structure AlikeBut (a : String) (h h' : Hub) : Prop where
  sound : h.Sound
  sound' : h'.Sound
  store : h.store.AlikeBut a h'.store
  subs : h'.subs = h.subs
  nextSub : h'.nextSub = h.nextSub
  made : h'.made = h.made
  box : ∀ id c, id ≠ a → h.Watches id c → h'.box c = h.box c
  holder : h'.holder = h.holder ∧ ¬ h.Updating a ∨ h.Updating a ∧ h'.holder = none

theorem AlikeBut.refl (hs : h.Sound) (hfree : h.holder = none) : h.AlikeBut a h where
  sound := hs
  sound' := hs
  store := .refl a h.store
  subs := rfl
  nextSub := rfl
  made := rfl
  box _ _ _ _ := rfl
  holder := Or.inl ⟨rfl, not_updating_of_free hfree⟩

theorem AlikeBut.free (hr : h.AlikeBut a h') (hfree : h.holder = none) : h'.holder = none := by
  rcases hr.holder with ⟨heq, -⟩ | ⟨-, hnone⟩
  · rw [heq, hfree]
  · exact hnone

theorem eq_of_onChannel {c : ℕ}
    {f : Mailbox RouteSet → Except Mailbox.Misuse (Mailbox RouteSet)}
    (hstep : h.onChannel c f = .ok h') :
    ∃ m, f (h.box c) = .ok m ∧ h' = { h with box := Function.update h.box c m } := by
  unfold onChannel at hstep
  split at hstep
  · rename_i m hm
    exact ⟨m, hm, (Except.ok.inj hstep).symm⟩
  · exact absurd hstep (by simp)

section Calls

variable (hr : h.AlikeBut a h') (hfree : h.holder = none)

include hr hfree

theorem AlikeBut.create [GoText.CaseTables] (inp : Tenant) :
    (h.create inp).AlikeBut a (h'.create inp) := by
  have hs := hr.sound.create hfree inp
  have hs' := hr.sound'.create (hr.free hfree) inp
  unfold Hub.create at hs hs' ⊢
  rcases hr.store.create inp with ⟨e, heq, heq'⟩ | ⟨t, heq, heq'⟩
  · rw [heq, heq']
    exact hr
  · rw [heq] at hs ⊢
    rw [heq'] at hs' ⊢
    refine ⟨hs, hs', hr.store.insert t.id t, ?_, hr.nextSub, hr.made, ?_, hr.holder⟩
    · exact congrArg (Function.update · t.id ∅) hr.subs
    · rintro id c hne ⟨n, hn⟩
      exact hr.box id c hne ⟨n, (lookup_update_empty hn).2⟩

/-- An update of the tenant is seen by one of the two only. -/
theorem AlikeBut.update_own (inp : Tenant) : (h.update a inp).AlikeBut a h' := by
  have hs := hr.sound.update hfree a inp
  unfold Hub.update at hs ⊢
  cases hupdate : h.store.update a inp with
  | mk answer store =>
      rw [hupdate] at hs
      cases answer with
      | error e => exact hr
      | ok t =>
          obtain ⟨old, hold, -, rfl⟩ := TenantStore.update_eq_ok hupdate
          exact ⟨hs, hr.sound', hr.store.replace hold t, hr.subs, hr.nextSub, hr.made, hr.box,
            Or.inr ⟨⟨_, _, _, rfl⟩, hr.free hfree⟩⟩

theorem AlikeBut.update_other {id : String} (hne : id ≠ a) (inp : Tenant) :
    (h.update id inp).AlikeBut a (h'.update id inp) := by
  have hs := hr.sound.update hfree id inp
  have hs' := hr.sound'.update (hr.free hfree) id inp
  have hlookup := hr.store.other id hne
  simp only [Hub.update, TenantStore.update, hlookup, hr.subs] at hs hs' ⊢
  cases hold : h.store.tenants.lookup id with
  | none => exact hr
  | some old =>
      simp only [hold] at hs hs' ⊢
      exact ⟨hs, hs', hr.store.insert id _, rfl, hr.nextSub, hr.made, hr.box,
        Or.inl ⟨rfl, not_updating_broadcast rfl hne⟩⟩

theorem AlikeBut.delete (id : String) : (h.delete id).AlikeBut a (h'.delete id) := by
  have hs := hr.sound.delete hfree id
  have hs' := hr.sound'.delete (hr.free hfree) id
  simp only [Hub.delete, hr.subs] at hs hs' ⊢
  split
  · exact hr
  · rename_i hdefault
    rw [if_neg hdefault] at hs hs'
    rcases hr.store.lookup id with ⟨hold, hold'⟩ | ⟨old, old', hold, hold', -⟩
    · simp only [hold, hold']
      exact hr
    · simp only [hold] at hs
      simp only [hold'] at hs'
      simp only [hold, hold']
      exact ⟨hs, hs', hr.store, rfl, hr.nextSub, hr.made, hr.box,
        Or.inl ⟨rfl, not_updating_closing rfl⟩⟩

omit hfree in
/-- A subscription is for the same tenant in both. -/
theorem AlikeBut.watched (tenantID : String) :
    ∃ id t t', h.watched tenantID = some (id, t) ∧ h'.watched tenantID = some (id, t') ∧
      (id ≠ a → t' = t) := by
  simp only [Hub.watched]
  rcases hr.store.lookup tenantID with ⟨hnone, hnone'⟩ | ⟨t, t', ht, ht', hsame⟩
  · obtain ⟨t, ht⟩ := hr.sound.hasDefault
    rcases hr.store.lookup defaultID with ⟨hdefault, -⟩ | ⟨t, t', ht, ht', hsame⟩
    · exact absurd (hdefault.symm.trans ht) (by simp)
    · simp only [hnone, hnone', ht, ht']
      exact ⟨defaultID, t, t', rfl, rfl, hsame⟩
  · simp only [ht, ht']
    exact ⟨tenantID, t, t', rfl, rfl, hsame⟩

theorem AlikeBut.subscribe (tenantID : String) :
    ∃ h₁ h₁', h.subscribe tenantID = .ok h₁ ∧ h'.subscribe tenantID = .ok h₁' ∧
      h₁.AlikeBut a h₁' := by
  obtain ⟨id, t, t', hwatched, hwatched', hsame⟩ := hr.watched tenantID
  obtain ⟨h₁, hcall, hs⟩ := hr.sound.subscribe hfree tenantID
  obtain ⟨h₁', hcall', hs'⟩ := hr.sound'.subscribe (hr.free hfree) tenantID
  refine ⟨h₁, h₁', hcall, hcall', ?_⟩
  simp only [Hub.subscribe, hwatched] at hcall
  simp only [Hub.subscribe, hwatched', hr.subs, hr.nextSub, hr.made] at hcall'
  obtain rfl := Except.ok.inj hcall
  obtain rfl := Except.ok.inj hcall'
  refine ⟨hs, hs', hr.store, rfl, rfl, rfl, ?_, hr.holder⟩
  rintro id' c hne ⟨n, hn⟩
  dsimp only at hn ⊢
  rcases hr.sound.lookup_subscribe hn with ⟨rfl, rfl, -⟩ | ⟨hc, hn⟩
  · rw [Function.update_self, Function.update_self, hsame hne]
  · rw [Function.update_of_ne hc, Function.update_of_ne hc]
    exact hr.box id' c hne ⟨n, hn⟩

theorem AlikeBut.unsubscribe (tenantID : String) (n : Int64) :
    ∃ h₁ h₁', h.unsubscribe tenantID n = .ok h₁ ∧ h'.unsubscribe tenantID n = .ok h₁' ∧
      h₁.AlikeBut a h₁' := by
  obtain ⟨id, t, t', hwatched, hwatched', -⟩ := hr.watched tenantID
  obtain ⟨h₁, hcall, hs⟩ := hr.sound.unsubscribe hfree tenantID n
  obtain ⟨h₁', hcall', hs'⟩ := hr.sound'.unsubscribe (hr.free hfree) tenantID n
  refine ⟨h₁, h₁', hcall, hcall', ?_⟩
  simp only [Hub.unsubscribe, hwatched] at hcall
  simp only [Hub.unsubscribe, hwatched', hr.subs] at hcall'
  cases hc : (h.subs id).lookup n with
  | none =>
      simp only [hc] at hcall hcall'
      obtain rfl := Except.ok.inj hcall
      obtain rfl := Except.ok.inj hcall'
      exact hr
  | some c =>
      simp only [hc] at hcall hcall'
      obtain ⟨m, -, rfl⟩ := eq_of_onChannel hcall
      obtain ⟨m', -, rfl⟩ := eq_of_onChannel hcall'
      refine ⟨hs, hs', hr.store, rfl, hr.nextSub, hr.made, ?_, hr.holder⟩
      rintro id' c' hne ⟨n', hn'⟩
      obtain ⟨hc', hn'⟩ := hr.sound.lookup_unsubscribe hc hn'
      dsimp only
      rw [Function.update_of_ne hc', Function.update_of_ne hc']
      exact hr.box id' c' hne ⟨n', hn'⟩

end Calls

/-- Both write to a channel, the same where it is of another tenant. -/
theorem AlikeBut.write (hr : h.AlikeBut a h') {c : ℕ} {m m' : Mailbox RouteSet}
    {p p' : Option Pending} (hs : Sound { h with box := Function.update h.box c m, holder := p })
    (hs' : Sound { h' with box := Function.update h'.box c m', holder := p' })
    (hm : ∀ id, id ≠ a → h.Watches id c → m' = m)
    (hp : p' = p ∧ ¬ Updating { h with holder := p } a ∨
      Updating { h with holder := p } a ∧ p' = none) :
    AlikeBut a { h with box := Function.update h.box c m, holder := p }
      { h' with box := Function.update h'.box c m', holder := p' } := by
  refine ⟨hs, hs', hr.store, hr.subs, hr.nextSub, hr.made, ?_, hp⟩
  intro id c' hne hc'
  dsimp only
  by_cases hc : c' = c
  · subst hc
    rw [Function.update_self, Function.update_self, hm id hne hc']
  · rw [Function.update_of_ne hc, Function.update_of_ne hc]
    exact hr.box id c' hne hc'

theorem AlikeBut.receive (hr : h.AlikeBut a h') (c : ℕ) :
    (h.receive c).AlikeBut a (h'.receive c) := by
  apply hr.write (hr.sound.receive c) (hr.sound'.receive c) ?_ hr.holder
  intro id hne hc
  rw [hr.box id c hne hc]

/-- The holder of the mutex goes on with an update of the tenant. -/
theorem AlikeBut.work_own {h₁ : Hub} (hr : h.AlikeBut a h') (hown : h.Updating a)
    (hfree : h'.holder = none) (hworked : h.Worked h₁) : h₁.AlikeBut a h' := by
  have hs := hr.sound.work hworked
  have hholds := hr.sound.holds
  obtain ⟨set, todo, drained, hown⟩ := hown
  rw [hown] at hholds
  obtain ⟨-, -, htodo, hdrained⟩ := hholds
  -- What is written goes to a watcher of the tenant, so to nobody who watches another.
  have hbox : ∀ (c : ℕ) (m : Mailbox RouteSet), h.Watches a c → ∀ id c', id ≠ a →
      h.Watches id c' → h'.box c' = Function.update h.box c m c' := by
    intro c m hc id c' hne hc'
    have hcc : c' ≠ c := by
      rintro rfl
      exact hne (hr.sound.eq_of_watches hc' hc)
    rw [Function.update_of_ne hcc]
    exact hr.box id c' hne hc'
  cases hworked with
  | idle => exact hr
  | sent hholder hempty =>
      obtain ⟨rfl, rfl, rfl, rfl⟩ := by simpa using hown.symm.trans hholder
      exact ⟨hs, hr.sound', hr.store, hr.subs, hr.nextSub, hr.made,
        hbox _ _ (hdrained _ rfl).1, Or.inr ⟨⟨_, _, _, rfl⟩, hfree⟩⟩
  | drained hholder hc =>
      obtain ⟨rfl, rfl, rfl, rfl⟩ := by simpa using hown.symm.trans hholder
      exact ⟨hs, hr.sound', hr.store, hr.subs, hr.nextSub, hr.made,
        hbox _ _ (htodo _ hc), Or.inr ⟨⟨_, _, _, rfl⟩, hfree⟩⟩
  | released hholder =>
      exact ⟨hs, hr.sound', hr.store, hr.subs, hr.nextSub, hr.made, hr.box,
        Or.inl ⟨hfree, not_updating_of_free rfl⟩⟩
  | closed hholder hc => exact absurd (hown.symm.trans hholder) (by simp)
  | removed hholder => exact absurd (hown.symm.trans hholder) (by simp)

section WorkTogether

variable (hr : h.AlikeBut a h') (c : ℕ)

include hr

theorem AlikeBut.work_sound :
    ∃ h₁ h₁', h.work c = .ok h₁ ∧ h'.work c = .ok h₁' ∧ h₁.Sound ∧ h₁'.Sound := by
  obtain ⟨h₁, hwork, hworked⟩ := hr.sound.worked c
  obtain ⟨h₁', hwork', hworked'⟩ := hr.sound'.worked c
  exact ⟨h₁, h₁', hwork, hwork', hr.sound.work hworked, hr.sound'.work hworked'⟩

/-- Both send to the watchers of another tenant, and find the same in their channels. -/
theorem AlikeBut.work_broadcast {id : String} {set : RouteSet} {todo : List ℕ}
    {drained : Option ℕ} (hp : h.holder = some (.broadcast id set todo drained))
    (hp' : h'.holder = some (.broadcast id set todo drained)) (hne : id ≠ a) :
    ∃ h₁ h₁', h.work c = .ok h₁ ∧ h'.work c = .ok h₁' ∧ h₁.AlikeBut a h₁' := by
  obtain ⟨h₁, h₁', hwork, hwork', hs, hs'⟩ := hr.work_sound c
  refine ⟨h₁, h₁', hwork, hwork', ?_⟩
  have hholds := hr.sound.holds
  rw [hp] at hholds
  obtain ⟨-, -, htodo, hdrained⟩ := hholds
  unfold Hub.work at hwork hwork'
  cases drained with
  | some c' =>
      simp only [hp, hp'] at hwork hwork'
      obtain ⟨m, hm, rfl⟩ := eq_of_onChannel hwork
      obtain ⟨m', hm', rfl⟩ := eq_of_onChannel hwork'
      apply hr.write hs hs' ?_ (Or.inl ⟨rfl, not_updating_broadcast rfl hne⟩)
      intro _ _ _
      dsimp only at hm hm'
      rw [hr.box id c' hne (hdrained c' rfl).1, hm] at hm'
      exact (Except.ok.inj hm').symm
  | none =>
      cases todo with
      | nil =>
          simp only [hp, hp', Except.ok.injEq] at hwork hwork'
          subst hwork hwork'
          exact ⟨hs, hs', hr.store, hr.subs, hr.nextSub, hr.made, hr.box,
            Or.inl ⟨rfl, not_updating_of_free rfl⟩⟩
      | cons first rest =>
          simp only [hp, hp'] at hwork hwork'
          by_cases hc : c ∈ first :: rest
          · rw [if_pos hc, Except.ok.injEq] at hwork hwork'
            subst hwork hwork'
            apply hr.write hs hs' ?_ (Or.inl ⟨rfl, not_updating_broadcast rfl hne⟩)
            intro _ _ _
            rw [hr.box id c hne (htodo c hc)]
          · rw [if_neg hc, Except.ok.injEq] at hwork hwork'
            subst hwork hwork'
            exact hr

/-- Both close the channels of the watchers of a tenant, which may be the one that
differs: its channels are open in both, whatever is in them. -/
theorem AlikeBut.work_closing {id : String} {todo : List ℕ}
    (hp : h.holder = some (.closing id todo)) (hp' : h'.holder = some (.closing id todo)) :
    ∃ h₁ h₁', h.work c = .ok h₁ ∧ h'.work c = .ok h₁' ∧ h₁.AlikeBut a h₁' := by
  obtain ⟨h₁, h₁', hwork, hwork', hs, hs'⟩ := hr.work_sound c
  refine ⟨h₁, h₁', hwork, hwork', ?_⟩
  unfold Hub.work at hwork hwork'
  cases todo with
  | nil =>
      simp only [hp, hp', Except.ok.injEq] at hwork hwork'
      subst hwork hwork'
      refine ⟨hs, hs', hr.store.delete id, ?_, hr.nextSub, hr.made, ?_,
        Or.inl ⟨rfl, not_updating_of_free rfl⟩⟩
      · exact congrArg (Function.update · id ∅) hr.subs
      · rintro id' c' hne ⟨n, hn⟩
        exact hr.box id' c' hne ⟨n, (lookup_update_empty hn).2⟩
  | cons first rest =>
      simp only [hp, hp'] at hwork hwork'
      by_cases hc : c ∈ first :: rest
      · rw [if_pos hc] at hwork hwork'
        obtain ⟨m, hm, rfl⟩ := eq_of_onChannel hwork
        obtain ⟨m', hm', rfl⟩ := eq_of_onChannel hwork'
        apply hr.write hs hs' ?_ (Or.inl ⟨rfl, not_updating_closing rfl⟩)
        intro id' hne hwatch
        dsimp only at hm hm'
        rw [hr.box id' c hne hwatch, hm] at hm'
        exact (Except.ok.inj hm').symm
      · rw [if_neg hc, Except.ok.injEq] at hwork hwork'
        subst hwork hwork'
        exact hr

/-- The holder of the mutex goes on with something else. -/
theorem AlikeBut.work_other (hholder : h'.holder = h.holder) (hother : ¬ h.Updating a) :
    ∃ h₁ h₁', h.work c = .ok h₁ ∧ h'.work c = .ok h₁' ∧ h₁.AlikeBut a h₁' := by
  cases hp : h.holder with
  | none =>
      refine ⟨h, h', ?_, ?_, hr⟩
      · simp only [Hub.work, hp]
      · simp only [Hub.work, hholder, hp]
  | some p =>
      rw [hp] at hholder
      cases p with
      | broadcast id set todo drained =>
          apply hr.work_broadcast c hp hholder
          rintro rfl
          exact hother ⟨set, todo, drained, hp⟩
      | closing id todo => exact hr.work_closing c hp hholder

end WorkTogether

variable [GoText.CaseTables]

/-- Taken by both: the mutex is not held for an update of the tenant. -/
theorem AlikeBut.call_other (hr : h.AlikeBut a h') (hother : ¬ h.Updating a) {c : HubCall}
    (hc : ∀ inp, c ≠ .update a inp) :
    ∃ h₁ h₁', h.step (.call c) = .ok h₁ ∧ h'.step (.call c) = .ok h₁' ∧ h₁.AlikeBut a h₁' := by
  obtain ⟨hsame, -⟩ := hr.holder.resolve_right fun hown => hother hown.1
  cases hholder : h.holder with
  | some p =>
      refine ⟨h, h', ?_, ?_, hr⟩
      · simp [Hub.step, hholder]
      · simp [Hub.step, hsame, hholder]
  | none =>
      simp only [Hub.step, hsame, hholder, Option.isSome_none, Bool.false_eq_true, if_false]
      cases c with
      | create t => exact ⟨_, _, rfl, rfl, hr.create hholder t⟩
      | update id inp =>
          have hid : id ≠ a := by
            rintro rfl
            exact hc inp rfl
          exact ⟨_, _, rfl, rfl, hr.update_other hholder hid inp⟩
      | delete id => exact ⟨_, _, rfl, rfl, hr.delete hholder id⟩
      | subscribe tenantID => exact hr.subscribe hholder tenantID
      | unsubscribe tenantID n => exact hr.unsubscribe hholder tenantID n

/-- Left out: an update of the tenant, or a call that waits for one. -/
theorem AlikeBut.call_own (hr : h.AlikeBut a h') {c : HubCall}
    (hown : h.Updating a ∨ ∃ inp, c = .update a inp) :
    ∃ h₁, h.step (.call c) = .ok h₁ ∧ h₁.AlikeBut a h' := by
  cases hholder : h.holder with
  | some p => exact ⟨h, by simp [Hub.step, hholder], hr⟩
  | none =>
      obtain ⟨inp, rfl⟩ := hown.resolve_left (not_updating_of_free hholder)
      refine ⟨h.update a inp, ?_, hr.update_own hholder inp⟩
      simp [Hub.step, hholder, Hub.call]

theorem AlikeBut.step (hr : h.AlikeBut a h') (l : HubLabel) :
    ∃ h₁, h.step l = .ok h₁ ∧
      if h.updates a l then h₁.AlikeBut a h'
      else ∃ h₁', h'.step l = .ok h₁' ∧ h₁.AlikeBut a h₁' := by
  by_cases hout : h.updates a l = true
  · simp only [hout, if_true]
    cases l with
    | call c => exact hr.call_own (updates_call.mp hout)
    | work c =>
        have hown : h.Updating a := of_decide_eq_true hout
        obtain ⟨h₁, hwork, hworked⟩ := hr.sound.worked c
        obtain ⟨-, hfree⟩ := hr.holder.resolve_left fun hother => hother.2 hown
        exact ⟨h₁, hwork, hr.work_own hown hfree hworked⟩
    | receive c => exact absurd hout (by simp [Hub.updates])
  · simp only [hout, Bool.false_eq_true, if_false]
    cases l with
    | call c =>
        rw [updates_call, not_or] at hout
        obtain ⟨h₁, h₁', hcall, hcall', hr₁⟩ :=
          hr.call_other hout.1 fun inp hc => hout.2 ⟨inp, hc⟩
        exact ⟨h₁, hcall, h₁', hcall', hr₁⟩
    | work c =>
        have hother : ¬ h.Updating a := fun hown => hout (decide_eq_true hown)
        obtain ⟨hholder, -⟩ := hr.holder.resolve_right fun hown => hother hown.1
        obtain ⟨h₁, h₁', hwork, hwork', hr₁⟩ := hr.work_other c hholder hother
        exact ⟨h₁, hwork, h₁', hwork', hr₁⟩
    | receive c => exact ⟨_, rfl, _, rfl, hr.receive c⟩

/-- Whatever is called and received in whatever order, what the store is to everybody
but one tenant it would have been without that tenant's updates. -/
theorem updates_isolated (ips dns : List String) (a : String) (ls : List HubLabel) :
    ∃ h h', (new ips dns).run ls = .ok h ∧
      (new ips dns).run (leaving Hub.step (Hub.updates a) (new ips dns) ls) = .ok h' ∧
      (∀ id, id ≠ a → h'.store.tenants.lookup id = h.store.tenants.lookup id) ∧
      (h'.store.tenants.lookup a).isSome = (h.store.tenants.lookup a).isSome ∧
      h'.subs = h.subs ∧ h'.nextSub = h.nextSub ∧ h'.made = h.made ∧
      (∀ id c, id ≠ a → h.Watches id c → h'.box c = h.box c) ∧
      h'.holder = if h.Updating a then none else h.holder := by
  have hinit : (new ips dns).AlikeBut a (new ips dns) := .refl (sound_new ips dns) rfl
  obtain ⟨h, h', hrun, hrun', hr⟩ :=
    runFallible_leaving (AlikeBut a) (fun h h' l hr => hr.step l) hinit ls
  refine ⟨h, h', hrun, hrun', hr.store.other, hr.store.there a, hr.subs, hr.nextSub, hr.made,
    hr.box, ?_⟩
  rcases hr.holder with ⟨hsame, hother⟩ | ⟨hown, hfree⟩
  · rw [hsame, if_neg hother]
  · rw [hfree, if_pos hown]

end Hub

end Claimward
