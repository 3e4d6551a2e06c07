import Claimward.Api.CallEffect

/-!
# What a reconciliation drops

`Reconcile` asks the lookup that enrollments ask, and that lookup fails closed:
once the list has expired it finds nobody. So it drops entries that the provider
never took back, when the list expires before or while the loop runs. The
theorem says exactly when it drops what was taken back and nothing else.
-/

namespace Claimward.Api

open AtomicProgram Inet Wg Peers

/-- The peers of a snapshot, each with the clock readings that are left when it
is looked up. -/
def asked (r : Registry) : List Peer → Stream' Time → List (Peer × Stream' Time)
  | [], _ => []
  | p :: rest, clock => (p, clock) :: asked r rest (r.lookup p.publicKey clock).2

/-- The reading made for a key: the one its registration is compared with, or,
if none is, the one the list is compared with. -/
def readingFor (l : KeyList) (key : String) (clock : Stream' Time) : Time :=
  if clock.head < l.expires ∧ (l.byKey.lookup key).isSome then clock.tail.head else clock.head

/-- The list has a registration of the peer's key under its subject that has not
expired. -/
def Vouches (l : KeyList) (p : Peer) (now : Time) : Prop :=
  ∃ q ∈ l.peers, q.key.string = p.publicKey ∧ q.subject = p.subject ∧ now < q.expires

instance (l : KeyList) (p : Peer) (now : Time) : Decidable (Vouches l p now) :=
  inferInstanceAs (Decidable (∃ q ∈ l.peers, _))

section Lookups

variable {l : KeyList} {key : String} {clock : Stream' Time} {p : Peer} {r : Registry}

/-- When a lookup in an installed list succeeds. -/
theorem lookup_install_eq_some {q : Registration} :
    ((r.install l).lookup key clock).1 = some q ↔
      clock.head < l.expires ∧ l.byKey.lookup key = some q ∧ clock.tail.head < q.expires := by
  constructor
  · intro h
    obtain ⟨l', hl, hlist, hkey, hq⟩ := Registry.lookup_eq_some h
    obtain rfl := Option.some.inj hl
    exact ⟨hlist, hkey, hq⟩
  · rintro ⟨hlist, hkey, hq⟩
    simp only [Registry.lookup, Registry.install, hlist, hkey, hq, not_true_eq_false, if_false]

/-- What `Allowed` answers for an entry. -/
theorem ask_install_iff :
    (Allowed.registry.ask (r.install l) p.publicKey p.subject clock).1 = true ↔
      clock.head < l.expires ∧ ∃ q, l.byKey.lookup p.publicKey = some q ∧
        q.subject = p.subject ∧ readingFor l p.publicKey clock < q.expires := by
  simp only [Allowed.ask, Option.any_eq_true, decide_eq_true_eq]
  constructor
  · rintro ⟨q, hq, hsubject⟩
    obtain ⟨hlist, hkey, hexpires⟩ := lookup_install_eq_some.mp hq
    refine ⟨hlist, q, hkey, hsubject, ?_⟩
    rw [readingFor, if_pos ⟨hlist, by simp [hkey]⟩]
    exact hexpires
  · rintro ⟨hlist, q, hkey, hsubject, hexpires⟩
    rw [readingFor, if_pos ⟨hlist, by simp [hkey]⟩] at hexpires
    exact ⟨q, lookup_install_eq_some.mpr ⟨hlist, hkey, hexpires⟩, hsubject⟩

/-- The peers that are looked up are those of the snapshot. -/
theorem mem_of_mem_asked {ps : List Peer} {pair : Peer × Stream' Time}
    (h : pair ∈ asked r ps clock) : pair.1 ∈ ps := by
  induction ps generalizing clock with
  | nil => exact absurd h List.not_mem_nil
  | cons q rest ih =>
      rcases List.mem_cons.mp h with rfl | h
      · exact List.mem_cons_self
      · exact List.mem_cons_of_mem _ (ih h)

theorem exists_mem_asked {ps : List Peer} {clock₀ : Stream' Time} (h : p ∈ ps) :
    ∃ clock, (p, clock) ∈ asked r ps clock₀ := by
  induction ps generalizing clock₀ with
  | nil => exact absurd h List.not_mem_nil
  | cons q rest ih =>
      rcases List.mem_cons.mp h with rfl | h
      · exact ⟨clock₀, List.mem_cons_self⟩
      · obtain ⟨clock, hmem⟩ := ih h
        exact ⟨clock, List.mem_cons_of_mem _ hmem⟩

/-- A peer is rejected by what `Allowed` answers at its place in the loop. -/
theorem mem_rejected_iff {ps : List Peer} {clock₀ : Stream' Time}
    (hnodup : (ps.map Peer.publicKey).Nodup) (h : (p, clock) ∈ asked r ps clock₀) :
    p ∈ Allowed.registry.rejected r ps clock₀ ↔
      (Allowed.registry.ask r p.publicKey p.subject clock).1 = false := by
  induction ps generalizing clock₀ with
  | nil => exact absurd h List.not_mem_nil
  | cons q rest ih =>
      obtain ⟨hq, hrest⟩ := List.nodup_cons.mp hnodup
      have hfresh : q ∉ Allowed.registry.rejected r rest (r.lookup q.publicKey clock₀).2 := by
        intro hmem
        exact hq (List.mem_map_of_mem ((rejected_sublist _ _ _).subset hmem))
      rcases List.mem_cons.mp h with heq | h
      · obtain ⟨rfl, rfl⟩ := Prod.mk.inj heq
        cases hask : (Allowed.registry.ask r p.publicKey p.subject clock).1 with
        | true =>
            simp only [Allowed.rejected, hask, if_true]
            exact iff_of_false hfresh (by simp)
        | false =>
            simp only [Allowed.rejected, hask, Bool.false_eq_true, if_false]
            exact iff_of_true List.mem_cons_self trivial
      · have hne : p ≠ q := by
          rintro rfl
          exact hq (List.mem_map_of_mem (mem_of_mem_asked h))
        rw [← ih hrest h]
        simp only [Allowed.rejected]
        split
        · exact Iff.rfl
        · exact List.mem_cons.trans (or_iff_right hne)

end Lookups

section Reconcile

variable [GoText.CaseTables]

/-- Of the entries that a reconciliation with the list walks over, it drops
those the list does not vouch for, at the reading made for each. -/
def DropsTakenBack (cfg : Config) (s : Server) (ω : Oracle) (l : KeyList) : Prop :=
  ∀ p clock, (p, clock) ∈ asked s.registry (ω.order.walk s.store.list) ω.clock →
    ((s.serve cfg (.reconcile .registry, ω)).store.get p.publicKey = none ↔
      ¬ Vouches l p (readingFor l p.publicKey clock))

/-- An entry is dropped exactly if `Allowed` refuses it at its place. -/
theorem dropped_iff (cfg : Config) (s : Server) (ω : Oracle) {p : Peer} {clock : Stream' Time}
    (h : (p, clock) ∈ asked s.registry (ω.order.walk s.store.list) ω.clock) :
    (s.serve cfg (.reconcile .registry, ω)).store.get p.publicKey = none ↔
      (Allowed.registry.ask s.registry p.publicKey p.subject clock).1 = false := by
  have hwalk := ω.order.perm s.store.list
  have hnodup : ((ω.order.walk s.store.list).map Peer.publicKey).Nodup :=
    (hwalk.map Peer.publicKey).nodup_iff.mpr Store.nodup_keys_list
  have hget : s.store.get p.publicKey = some p :=
    Store.mem_list.mp (hwalk.mem_iff.mp (mem_of_mem_asked h))
  rw [serve_reconcile, get_dropAll, ← mem_rejected_iff hnodup h]
  constructor
  · intro hnone
    split at hnone
    · rename_i hmem
      obtain ⟨q, hq, hkey⟩ := List.mem_map.mp hmem
      have hgetq := get_of_mem_dropped hq
      rw [hkey, hget, Option.some.injEq] at hgetq
      rw [hgetq]
      exact hq
    · exact absurd (hget.symm.trans hnone) (by simp)
  · intro hmem
    exact if_pos (List.mem_map_of_mem hmem)

/-- A reconciliation drops what the provider took back and nothing else exactly
if, of every entry the list vouches for, the list has not expired when the entry
is looked up and the last registration of its key is one that vouches for it. -/
theorem reconcile_drops_taken_back_iff (cfg : Config) (s : Server) (ω : Oracle) (l : KeyList) :
    DropsTakenBack cfg { s with registry := s.registry.install l } ω l ↔
      ∀ p clock,
        (p, clock) ∈ asked (s.registry.install l) (ω.order.walk s.store.list) ω.clock →
        Vouches l p (readingFor l p.publicKey clock) →
        clock.head < l.expires ∧ ∃ q, l.byKey.lookup p.publicKey = some q ∧
          q.subject = p.subject ∧ readingFor l p.publicKey clock < q.expires := by
  refine forall₂_congr fun p clock => forall_congr' fun hmem => ?_
  rw [dropped_iff cfg { s with registry := s.registry.install l } ω hmem,
    ← ask_install_iff (r := s.registry)]
  constructor
  · intro h hvouch
    rw [← Bool.not_eq_false]
    exact fun hask => h.mp hask hvouch
  · intro h
    constructor
    · intro hask hvouch
      exact absurd (h hvouch) (by simp [hask])
    · intro hvouch
      rw [← Bool.not_eq_true]
      intro hask
      obtain ⟨-, q, hkey, hsubject, hexpires⟩ :=
        (ask_install_iff (r := s.registry)).mp hask
      obtain ⟨hq, hstring⟩ := KeyList.byKey_lookup hkey
      exact hvouch ⟨q, hq, hstring, hsubject, hexpires⟩

end Reconcile

attribute [local instance] GoText.asciiTables

/-- Alice's key is registered until 100 in a list that expires as it is read, at
0. The entry is dropped with its peer and its address. -/
theorem expired_list_drops_registered_key :
    let l : KeyList := ⟨[⟨Sample.bytes₁, "alice", 100⟩], 0⟩
    let s := Sample.start.serveAll (Sample.config true)
      [(.refresh (.ok (Sample.list "alice")), Sample.oracle true true),
        (Sample.enroll "alice" Sample.key₁, Sample.oracle true true),
        (.refresh (.ok l), Sample.oracle true true)]
    let s' := s.serve (Sample.config true) (.reconcile .registry, Sample.oracle true true)
    (∃ p ∈ s.store.get Sample.key₁, Vouches l p 0) ∧ s'.store.get Sample.key₁ = none ∧
      s'.device.lookup Sample.bytes₁ = none ∧ "10.80.0.2" ∉ s'.alloc.used := by
  decide +kernel

end Claimward.Api
