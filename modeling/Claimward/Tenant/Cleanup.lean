import Claimward.Tenant.Subscriptions

/-!
# Subscriptions that are ended

`Subscribe` and `Unsubscribe` each resolve the ID they are given, and the default
tenant stands in for a missing one. If the tenant has been created between the
two, the second looks in the new tenant for a subscription that is with the
default one. This is the only way in which a subscription outlives its
`Unsubscribe`.
-/

namespace Claimward

open Runs

/-- How many subscriptions a sequence of calls makes. -/
def HubCall.total : List HubCall → ℕ
  | [] => 0
  | call :: calls => call.subscribes + total calls

theorem HubCall.total_append (calls calls' : List HubCall) :
    total (calls ++ calls') = total calls + total calls' := by
  induction calls with
  | nil => exact (Nat.zero_add _).symm
  | cons call calls ih => rw [List.cons_append, total, ih, total, Nat.add_assoc]

namespace Hub

/-- Ending the subscription under this ID would miss it: the tenant is there, and
the subscription is with the default one. -/
def Misses (h : Hub) (tenantID : String) (n : Int64) : Prop :=
  tenantID ≠ defaultID ∧ (h.store.tenants.lookup tenantID).isSome = true ∧
    ((h.subs defaultID).lookup n).isSome = true

instance (h : Hub) (tenantID : String) (n : Int64) : Decidable (h.Misses tenantID n) :=
  inferInstanceAs (Decidable (_ ∧ _))

/-- No tenant holds a subscription of this number, and the channel is closed. -/
def CleanOf (h : Hub) (n : Int64) (c : ℕ) : Prop :=
  (∀ id, (h.subs id).lookup n = none) ∧ (h.box c).closed = true

/-- `WatcherCount`. -/
def watcherCount (h : Hub) : ℕ :=
  h.store.tenants.keys.foldl (fun n id => n + (h.subs id).keys.length) 0

/-- What holds between two calls. -/
structure Settled (h : Hub) : Prop where
  sound : h.Sound
  free : h.holder = none
  filed : h.Filed

/-- The numbers of the subscriptions are those of their channels, and a channel
that nobody watches any more is closed. -/
structure Numbered (h : Hub) : Prop where
  next : h.nextSub = Int64.ofNat h.made
  numbers : ∀ id n c, (h.subs id).lookup n = some c → n = Int64.ofNat c
  released : ∀ c < h.made, (∀ id, ¬ h.Watches id c) → (h.box c).closed = true

theorem settled_new (ips dns : List String) : (new ips dns).Settled :=
  ⟨sound_new ips dns, rfl, fun _ _ _ hc => absurd hc (by simp [new])⟩

theorem numbered_new (ips dns : List String) : (new ips dns).Numbered :=
  ⟨rfl, fun _ _ _ hc => absurd hc (by simp [new]), fun _ hc => absurd hc (Nat.not_lt_zero _)⟩

theorem ofNat_inj {a b : ℕ} (ha : a < 2 ^ 64) (hb : b < 2 ^ 64)
    (h : Int64.ofNat a = Int64.ofNat b) : a = b := by
  have hbits := congrArg (fun n : Int64 => n.toBitVec.toNat) h
  simp only [Int64.toBitVec_ofNat', BitVec.toNat_ofNat] at hbits
  rwa [Nat.mod_eq_of_lt ha, Nat.mod_eq_of_lt hb] at hbits

variable {h h' : Hub} {call : HubCall}

/-- A call keeps the numbers apart while they last. -/
theorem Numbered.follows (hn : h.Numbered) (hf : Follows h call h')
    (hlimit : h'.made ≤ 2 ^ 64) : h'.Numbered where
  next := by rw [hf.nextSub, hf.made, hn.next, Int64.ofNat_add]
  numbers id n c hc := by
    rcases hf.older id n c hc with hold | ⟨_, -, -, rfl, rfl⟩
    · exact hn.numbers id n c hold
    · exact hn.next
  released c hc hunwatched := by
    by_cases hnew : c < h.made
    · by_cases hbefore : ∃ id, h.Watches id c
      · obtain ⟨id, n, hlookup⟩ := hbefore
        rcases hf.dropped id n c hlookup with hkept | hclosed | ⟨hone, hnext⟩
        · exact absurd ⟨n, hkept⟩ (hunwatched id)
        · exact hclosed
        · -- the number would have been given out before
          have hmade := hf.made
          rw [hn.numbers id n c hlookup, hn.next] at hnext
          exact absurd (ofNat_inj (by omega) (by omega) hnext) hnew.ne
      · exact hf.closed c hnew (hn.released c hnew (not_exists.mp hbefore))
    · have hmade := hf.made
      obtain ⟨hone, rfl⟩ : call.subscribes = 1 ∧ c = h.made := by
        cases call with
        | subscribe tenantID => exact ⟨rfl, by simp only [HubCall.subscribes] at hmade; omega⟩
        | create t => simp only [HubCall.subscribes] at hmade; omega
        | update id inp => simp only [HubCall.subscribes] at hmade; omega
        | delete id => simp only [HubCall.subscribes] at hmade; omega
        | unsubscribe id n => simp only [HubCall.subscribes] at hmade; omega
      obtain ⟨id, hid⟩ := hf.began hone
      exact absurd ⟨_, hid⟩ (hunwatched id)

/-- A channel that nobody watches: its number is free and it is closed. -/
theorem Numbered.cleanOf (hn : h.Numbered) (hs : h.Sound) (hlimit : h.made ≤ 2 ^ 64) {c : ℕ}
    (hc : c < h.made) (hunwatched : ∀ id, ¬ h.Watches id c) : h.CleanOf (Int64.ofNat c) c := by
  refine ⟨fun id => ?_, hn.released c hc hunwatched⟩
  rw [Option.eq_none_iff_forall_ne_some]
  intro c' hc'
  have hlt := hs.allocated id c' ⟨_, hc'⟩
  obtain rfl := ofNat_inj (by omega) (by omega) (hn.numbers id _ c' hc')
  exact hunwatched id ⟨_, hc'⟩

theorem Numbered.unwatched (hn : h.Numbered) {c : ℕ} (hclean : h.CleanOf (Int64.ofNat c) c)
    (id : String) : ¬ h.Watches id c := by
  rintro ⟨n, hlookup⟩
  rw [hn.numbers id n c hlookup, hclean.1 id] at hlookup
  exact absurd hlookup (by simp)

section Runs

variable [GoText.CaseTables]

theorem Settled.step (hset : h.Settled) (call : HubCall) :
    ∃ h', h.atomically call = .ok h' ∧ h'.Settled ∧ Follows h call h' := by
  obtain ⟨h', hcall, hs', hfree', -⟩ := hset.sound.atomically hset.free call
  have hf := follows_atomically hset.filed hset.sound hset.free hcall
  exact ⟨h', hcall, ⟨hs', hfree', hf.filed⟩, hf⟩

/-- A sequence of calls makes as many channels as it makes subscriptions, and
adds no watcher to a channel that was there before. -/
theorem Settled.run (hset : h.Settled) (calls : List HubCall) :
    ∃ h', runFallible atomically h calls = .ok h' ∧ h'.Settled ∧
      h'.made = h.made + HubCall.total calls ∧
      (∀ id c, c < h.made → h'.Watches id c → h.Watches id c) ∧
      (h.Numbered → h.made + HubCall.total calls ≤ 2 ^ 64 → h'.Numbered) := by
  induction calls generalizing h with
  | nil => exact ⟨h, rfl, hset, rfl, fun _ _ _ hc => hc, fun hn _ => hn⟩
  | cons call calls ih =>
      obtain ⟨h₁, hcall, hset₁, hf⟩ := hset.step call
      obtain ⟨h', hrun, hset', hmade, hold, hnum⟩ := ih hset₁
      have hstep := hf.made
      have htotal : HubCall.total (call :: calls) = call.subscribes + HubCall.total calls := rfl
      refine ⟨h', (runFallible_cons hcall).trans hrun, hset', by omega, fun id c hc hw => ?_,
        fun hn hlimit => hnum (hn.follows hf (by omega)) (by omega)⟩
      obtain ⟨n, hlookup⟩ := hold id c (by omega) hw
      rcases hf.older id n c hlookup with hlookup | ⟨_, -, -, -, rfl⟩
      · exact ⟨n, hlookup⟩
      · exact absurd hc (lt_irrefl _)

/-- What is cleaned up stays so. -/
theorem Settled.clean_run (hset : h.Settled) (hn : h.Numbered) (calls : List HubCall)
    (hlimit : h.made + HubCall.total calls ≤ 2 ^ 64) {c : ℕ} (hc : c < h.made) :
    ∃ h', runFallible atomically h calls = .ok h' ∧
      (h.CleanOf (Int64.ofNat c) c → h'.CleanOf (Int64.ofNat c) c) := by
  obtain ⟨h', hrun, hset', hmade, hold, hnum⟩ := hset.run calls
  refine ⟨h', hrun, fun hclean => ?_⟩
  refine (hnum hn hlimit).cleanOf hset'.sound (by omega) (by omega) fun id hwatch => ?_
  exact hn.unwatched hclean id (hold id c hc hwatch)

/-- What `Unsubscribe` leaves: nothing of that number where it looks, and
everything elsewhere. -/
theorem Settled.lookup_unsubscribe (hset : h.Settled) {tenantID id : String} {n : Int64}
    (hstep : h.atomically (.unsubscribe tenantID n) = .ok h') (hr : h.Resolves tenantID id) :
    (h'.subs id).lookup n = none ∧ ∀ id', id' ≠ id → h'.subs id' = h.subs id' := by
  obtain ⟨h₁, hcall, -⟩ := hset.sound.unsubscribe hset.free tenantID n
  have hholder : h₁.holder = none := (store_unsubscribe hcall).2.trans hset.free
  obtain rfl := eq_of_atomically hstep hcall hholder
  obtain ⟨t, ht⟩ := hr
  simp only [Hub.unsubscribe, ht] at hcall
  split at hcall
  · rename_i hnone
    obtain rfl := Except.ok.inj hcall
    exact ⟨hnone, fun _ _ => rfl⟩
  · rename_i c hc
    have hsubs : h₁.subs = Function.update h.subs id ((h.subs id).erase n) := by
      unfold onChannel at hcall
      split at hcall
      · rw [← Except.ok.inj hcall]
      · exact absurd hcall (by simp)
    rw [hsubs]
    refine ⟨?_, fun id' hne => Function.update_of_ne hne _ _⟩
    rw [Function.update_self, Table.lookup_erase_eq, if_pos rfl]

/-- A subscription that is still with the tenant of the ID or with the default
one after `Unsubscribe` was missed. -/
theorem Settled.misses_of_held (hset : h.Settled) {tenantID id : String} {n : Int64} {c : ℕ}
    (hstep : h.atomically (.unsubscribe tenantID n) = .ok h')
    (hheld : (h'.subs id).lookup n = some c) (hid : id = tenantID ∨ id = defaultID) :
    h.Misses tenantID n := by
  have hf := follows_atomically hset.filed hset.sound hset.free hstep
  have hbefore : (h.subs id).lookup n = some c := by
    rcases hf.older id n c hheld with hold | ⟨_, hcall, -⟩
    · exact hold
    · exact absurd hcall (by simp)
  have hgone {id'} (hr : h.Resolves tenantID id') : id ≠ id' := by
    rintro rfl
    rw [(hset.lookup_unsubscribe hstep hr).1] at hheld
    exact absurd hheld (by simp)
  cases hpresent : h.store.tenants.lookup tenantID with
  | none =>
      -- the default tenant is looked in, and only tenants of the store have subscriptions
      rcases hid with rfl | rfl
      · obtain ⟨t, ht⟩ := hset.filed id n c hbefore
        rw [hpresent] at ht
        exact absurd ht (by simp)
      · exact absurd rfl (hgone ((resolves_of_missing hset.sound.hasDefault hpresent).mpr rfl))
  | some t =>
      have hne : id ≠ tenantID := hgone ((resolves_of_present hpresent).mpr rfl)
      obtain rfl : id = defaultID := hid.resolve_left hne
      exact ⟨Ne.symm hne, by rw [hpresent]; rfl, by rw [hbefore]; rfl⟩

/-- A subscription that is missed stays. -/
theorem Settled.not_clean_of_misses (hset : h.Settled) {tenantID : String} {n : Int64} {c : ℕ}
    (hstep : h.atomically (.unsubscribe tenantID n) = .ok h') (hmiss : h.Misses tenantID n) :
    ¬ h'.CleanOf n c := by
  obtain ⟨hne, hpresent, hheld⟩ := hmiss
  obtain ⟨t, ht⟩ := Option.isSome_iff_exists.mp hpresent
  have hother := (hset.lookup_unsubscribe hstep ((resolves_of_present ht).mpr rfl)).2 defaultID
    (Ne.symm hne)
  rintro ⟨hnone, -⟩
  rw [← hother, hnone] at hheld
  exact absurd hheld (by simp)

/-- A subscription from its `Subscribe` to after its `Unsubscribe`, with any calls
between: the two are at one moment with the tenant of the ID or the default one,
so that it is cleaned up unless it was missed. -/
theorem Settled.cleanOf_iff {h₁ h₂ h₃ : Hub} {tenantID : String} (hset : h.Settled)
    (hsub : Follows h (.subscribe tenantID) h₁)
    (hold : ∀ id c, c < h₁.made → h₂.Watches id c → h₁.Watches id c)
    (hset₂ : h₂.Settled) (hnum : h.Numbered) (hnum₂ : h₂.Numbered) (hmade : h.made < h₂.made)
    (hlimit : h₂.made ≤ 2 ^ 64)
    (hstep : h₂.atomically (.unsubscribe tenantID h.nextSub) = .ok h₃) :
    h₃.CleanOf h.nextSub h.made ↔ ¬ h₂.Misses tenantID h.nextSub := by
  have hf := follows_atomically hset₂.filed hset₂.sound hset₂.free hstep
  have hmade₃ : h₃.made = h₂.made := hf.made
  have hnum₃ := hnum₂.follows hf (by omega)
  refine ⟨fun hclean hmiss => hset₂.not_clean_of_misses hstep hmiss hclean, fun hmiss => ?_⟩
  obtain ⟨h₃', hstep', hset₃, -⟩ := hset₂.step (.unsubscribe tenantID h.nextSub)
  obtain rfl := Except.ok.inj (hstep.symm.trans hstep')
  rw [hnum.next]
  refine hnum₃.cleanOf hset₃.sound (by omega) (by omega) fun id hwatch => hmiss ?_
  obtain ⟨n, hheld⟩ := hwatch
  have hn : n = h.nextSub := (hnum₃.numbers id n _ hheld).trans hnum.next.symm
  subst hn
  -- where the subscription is, it has been since it was made
  have hwatch₂ : h₂.Watches id h.made := by
    rcases hf.older id _ _ hheld with hbefore | ⟨_, hcall, -⟩
    · exact ⟨_, hbefore⟩
    · exact absurd hcall (by simp)
  have hmade₁ : h₁.made = h.made + 1 := hsub.made
  obtain ⟨n₁, hn₁⟩ := hold id h.made (by omega) hwatch₂
  rcases hsub.older id n₁ h.made hn₁ with hbefore | ⟨_, hcall, hr, -, -⟩
  · exact absurd (hset.sound.allocated id h.made ⟨n₁, hbefore⟩) (lt_irrefl _)
  · obtain rfl := HubCall.subscribe.inj hcall
    exact hset₂.misses_of_held hstep hheld hr.cases

end Runs

end Hub

section Attended

variable [GoText.CaseTables]

/-- The store, the watches that have begun and not ended, and whether one has
been missed. -/
structure Attended where
  hub : Hub
  watches : List (String × Int64)
  missed : Bool

/-- Nobody watches yet. -/
def Attended.new (ips dns : List String) : Attended := ⟨.new ips dns, [], false⟩

/-- A watch begins with its `Subscribe` and ends with its `Unsubscribe`. -/
def HubCall.onWatches (x : Attended) : HubCall → List (String × Int64)
  | .subscribe tenantID => (tenantID, x.hub.nextSub) :: x.watches
  | .unsubscribe tenantID n => x.watches.erase (tenantID, n)
  | _ => x.watches

def HubCall.misses (x : Attended) : HubCall → Bool
  | .unsubscribe tenantID n => (tenantID, n) ∈ x.watches ∧ x.hub.Misses tenantID n
  | _ => false

def Attended.step (x : Attended) (call : HubCall) : Except Fault Attended :=
  (x.hub.atomically call).map fun h =>
    { hub := h, watches := call.onWatches x, missed := x.missed || call.misses x }

/-- Every subscription is that of a watch, and with the tenant of its ID or with
the default one, unless a watch has been missed. -/
structure Attended.Accounted (x : Attended) : Prop where
  settled : x.hub.Settled
  held : x.missed = false → ∀ id n c, (x.hub.subs id).lookup n = some c →
    ∃ tenantID, (tenantID, n) ∈ x.watches ∧ (id = tenantID ∨ id = defaultID)

theorem Attended.Accounted.step {x : Attended} (hx : x.Accounted) (call : HubCall) :
    ∃ x', x.step call = .ok x' ∧ x'.Accounted := by
  obtain ⟨h', hcall, hset', hf⟩ := hx.settled.step call
  refine ⟨_, by simp only [Attended.step, hcall]; rfl, hset', fun hmissed id n c hc => ?_⟩
  obtain ⟨hbefore, hnow⟩ := Bool.or_eq_false_iff.mp hmissed
  rcases hf.older id n c hc with hold | ⟨tenantID, rfl, hr, rfl, rfl⟩
  · obtain ⟨tenantID, hmem, hid⟩ := hx.held hbefore id n c hold
    refine ⟨tenantID, ?_, hid⟩
    cases call with
    | create t => exact hmem
    | update id' inp => exact hmem
    | delete id' => exact hmem
    | subscribe id' => exact List.mem_cons_of_mem _ hmem
    | unsubscribe id' n' =>
        -- the watch that ends is another one: of this one nothing would be left
        refine (List.mem_erase_of_ne ?_).mpr hmem
        intro heq
        obtain ⟨rfl, rfl⟩ := Prod.mk.inj heq
        have hmiss := hx.settled.misses_of_held hcall hc hid
        exact of_decide_eq_false hnow ⟨hmem, hmiss⟩
  · exact ⟨tenantID, List.mem_cons_self, hr.cases⟩

omit [GoText.CaseTables] in
theorem Attended.accounted_new (ips dns : List String) : (Attended.new ips dns).Accounted :=
  ⟨Hub.settled_new ips dns, fun _ _ _ _ hc => absurd hc (by simp [Attended.new, Hub.new])⟩

theorem Attended.accounted_run (ips dns : List String) (calls : List HubCall) :
    ∃ x, runFallible Attended.step (.new ips dns) calls = .ok x ∧ x.Accounted :=
  runFallible_invariant (fun x _ => Attended.Accounted x) (fun _ call _ hx => hx.step call)
    (Attended.accounted_new ips dns)

omit [GoText.CaseTables] in
/-- A store without subscriptions has no watchers. -/
theorem Hub.watcherCount_eq_zero {h : Hub} (hnone : ∀ id n c, (h.subs id).lookup n ≠ some c) :
    h.watcherCount = 0 := by
  have hempty (id : String) : (h.subs id).keys.length = 0 := by
    rw [List.length_eq_zero_iff, List.eq_nil_iff_forall_not_mem]
    intro n hn
    obtain ⟨c, hc⟩ := Option.isSome_iff_exists.mp (AList.lookup_isSome.mpr hn)
    exact hnone id n c hc
  unfold Hub.watcherCount
  generalize h.store.tenants.keys = ids
  induction ids with
  | nil => rfl
  | cons id ids ih => rwa [List.foldl_cons, hempty]

/-- For every subscription: while numbers last, it is cleaned up by its
`Unsubscribe` if and only if it is not missed, and then for good, whatever calls
there are before, between and after. And once every watch has ended, and none
has been missed, nobody watches. -/
theorem subscriptions_cleaned_up (ips dns : List String) :
    (∀ (before between after : List HubCall) (tenantID : String),
      HubCall.total (before ++ .subscribe tenantID :: between ++ after) ≤ 2 ^ 64 →
      ∃ h₀ h₂ h₃ h₄, runFallible Hub.atomically (.new ips dns) before = .ok h₀ ∧
        runFallible Hub.atomically h₀ (.subscribe tenantID :: between) = .ok h₂ ∧
        h₂.atomically (.unsubscribe tenantID h₀.nextSub) = .ok h₃ ∧
        runFallible Hub.atomically h₃ after = .ok h₄ ∧
        (h₃.CleanOf h₀.nextSub h₀.made ↔ ¬ h₂.Misses tenantID h₀.nextSub) ∧
        (¬ h₂.Misses tenantID h₀.nextSub → h₄.CleanOf h₀.nextSub h₀.made)) ∧
      ∀ calls, ∃ x, runFallible Attended.step (.new ips dns) calls = .ok x ∧
        (x.watches = [] → x.missed = false → x.hub.watcherCount = 0) := by
  constructor
  · intro before between after tenantID hlimit
    have htotal : HubCall.total (before ++ .subscribe tenantID :: between ++ after) =
        HubCall.total before + (1 + HubCall.total between) + HubCall.total after := by
      rw [HubCall.total_append, HubCall.total_append]
      rfl
    rw [htotal] at hlimit
    obtain ⟨h₀, hrun₀, hset₀, hmade₀, -, hnum₀⟩ := (Hub.settled_new ips dns).run before
    have hzero : (Hub.new ips dns).made = 0 := rfl
    replace hnum₀ := hnum₀ (Hub.numbered_new ips dns) (by omega)
    obtain ⟨h₁, hcall₁, hset₁, hf₁⟩ := hset₀.step (.subscribe tenantID)
    have hmade₁ : h₁.made = h₀.made + 1 := hf₁.made
    have hnum₁ := hnum₀.follows hf₁ (by omega)
    obtain ⟨h₂, hrun₂, hset₂, hmade₂, hold₂, hnum₂⟩ := hset₁.run between
    replace hnum₂ := hnum₂ hnum₁ (by omega)
    obtain ⟨h₃, hcall₃, hset₃, hf₃⟩ := hset₂.step (.unsubscribe tenantID h₀.nextSub)
    have hmade₃ : h₃.made = h₂.made := hf₃.made
    have hnum₃ := hnum₂.follows hf₃ (by omega)
    have hiff := hset₀.cleanOf_iff hf₁ hold₂ hset₂ hnum₀ hnum₂ (by omega) (by omega) hcall₃
    obtain ⟨h₄, hrun₄, hstays⟩ := hset₃.clean_run hnum₃ after (by omega) (c := h₀.made) (by omega)
    rw [← hnum₀.next] at hstays
    exact ⟨h₀, h₂, h₃, h₄, hrun₀, (runFallible_cons hcall₁).trans hrun₂, hcall₃, hrun₄, hiff,
      fun hmiss => hstays (hiff.mpr hmiss)⟩
  · intro calls
    obtain ⟨x, hrun, hx⟩ := Attended.accounted_run ips dns calls
    refine ⟨x, hrun, fun hended hmissed => Hub.watcherCount_eq_zero fun id n c hc => ?_⟩
    obtain ⟨tenantID, hmem, -⟩ := hx.held hmissed id n c hc
    rw [hended] at hmem
    exact absurd hmem (by simp)

end Attended

/-- Somebody subscribes to a tenant that is missing, the tenant is created, and
the subscription is ended: the default tenant keeps it, its channel stays open,
and it is counted. -/
theorem created_between_leaks :
    let _ : GoText.GoTables := GoText.asciiTables
    (runFallible Hub.atomically (.new [] [])
      [.subscribe "x", .create ⟨"x", "", [], [], [], [], [], 0⟩, .unsubscribe "x" 0]).map
        (fun h => ((h.subs defaultID).lookup 0, (h.box 0).closed, h.watcherCount)) =
      .ok (some 0, false, 1) := by
  decide +kernel

/-- Somebody watches a tenant that is updated meanwhile, and after the end of the
watch deleted and created again. -/
theorem ended_watch_cleaned_up :
    let _ : GoText.GoTables := GoText.asciiTables
    let lab : Tenant := ⟨"lab", "", [], [], [], ["10.1.0.0/16"], [], 0⟩
    ∃ h₀ h₂ h₃ h₄, runFallible Hub.atomically (.new [] []) [.create lab] = .ok h₀ ∧
      runFallible Hub.atomically h₀
        [.subscribe "lab", .update "lab" lab, .subscribe defaultID] = .ok h₂ ∧
      h₂.atomically (.unsubscribe "lab" h₀.nextSub) = .ok h₃ ∧
      runFallible Hub.atomically h₃ [.delete "lab", .create lab] = .ok h₄ ∧
      h₃.CleanOf h₀.nextSub h₀.made ∧ h₄.CleanOf h₀.nextSub h₀.made := by
  intro _ lab
  obtain ⟨h₀, h₂, h₃, h₄, hrun₀, hrun₂, hcall, hrun₄, hiff, hstays⟩ :=
    (subscriptions_cleaned_up [] []).1 [.create lab] [.update "lab" lab, .subscribe defaultID]
      [.delete "lab", .create lab] "lab" (by decide)
  have hfirst : h₀.nextSub = 0 := by
    have hnext : (runFallible Hub.atomically (.new [] []) [.create lab]).map Hub.nextSub =
        .ok 0 := by decide +kernel
    rw [hrun₀] at hnext
    exact Except.ok.inj hnext
  have hmiss : ¬ h₂.Misses "lab" h₀.nextSub := by
    have hnot : (runFallible Hub.atomically (.new [] []) ([.create lab] ++
        [.subscribe "lab", .update "lab" lab, .subscribe defaultID])).map
          (fun h => decide (h.Misses "lab" 0)) = .ok false := by decide +kernel
    rw [runFallible_append hrun₀, hrun₂] at hnot
    rw [hfirst]
    exact of_decide_eq_false (Except.ok.inj hnot)
  exact ⟨h₀, h₂, h₃, h₄, hrun₀, hrun₂, hcall, hrun₄, hiff.mpr hmiss, hstays hmiss⟩

end Claimward
