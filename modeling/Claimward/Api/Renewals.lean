import Claimward.Api.Heartbeats
import Claimward.Library.Traced

/-!
# Renewals and the reaper

`handleHeartbeat` looks the entry up, checks and then writes the lease, and
does not look whether the write found an entry. `ReapExpired` removes what a
snapshot held. When the two cross, a renewal is acknowledged for an entry that
is already gone, or that the reaper goes on to remove. The theorem says which
crossings those are: in every other interleaving no acknowledged lease is lost
before its end.
-/

namespace Claimward.Api

open AtomicProgram AtomicProgram.Program Inet Wg Peers Runs

/-- The calls in progress, with what each was started as. -/
abbrev History := Traced interface Oracle Server Response

section Conditions

variable (cfg : Config)

/-- A heartbeat for the key has been answered with the lease. -/
def Acknowledged (t : History) (key : String) (expiry : Time) : Prop :=
  ∃ i claims ω, t.origin i = some (handleHeartbeat cfg claims (.ok ⟨key⟩), ω) ∧
    t.pool.result i = some (.renewed expiry)

/-- The call of the slot is a round of the reaper that reads the clock as
`now`. -/
def Reaper (t : History) (i : ℕ) (now : Time) : Prop :=
  ∃ ω, t.origin i = some (reapExpired, ω) ∧ ω.clock.head = now

/-- When a lease is written, no reaper that read the clock before the end of
the lease is still to take something away of what the key has, no heartbeat for
the key was answered with a longer lease, and no other entry has the key of the
device or the address. When an entry is deleted, no heartbeat that has found it
is still to write its lease. -/
def Uncrossed (t : History) : Turn → Prop
  | .start _ _ _ => True
  | .advance i =>
      (∀ key expiry e, t.pool.nextAction i = some (.storeRenew key expiry) →
        t.pool.shared.store.get key = some e →
        (∀ j now p ω, Reaper t j now → now < expiry → t.pool.thread j = some (p, ω) →
          ¬ MayTake key (text e.ip) p) ∧
        (∀ lease, Acknowledged cfg t key lease → lease ≤ expiry) ∧
        ∀ k q, t.pool.shared.store.get k = some q → Touches q key (text e.ip) → k = key) ∧
      ∀ key, t.pool.nextAction i = some (.storeDelete key) →
        ∀ j p ω, t.pool.thread j = some (p, ω) → ¬ Renewing key p

variable [GoText.CaseTables]

/-- A lease is written to an entry, and no reaper that read the clock before the
end of an acknowledged lease takes anything away of what its key has. -/
def NotLost (t : History) : Turn → Prop
  | .start _ _ _ => True
  | .advance i =>
      (∀ key expiry, t.pool.nextAction i = some (.storeRenew key expiry) →
        ∃ e, t.pool.shared.store.get key = some e) ∧
      ∀ now key expiry e, Reaper t i now → Acknowledged cfg t key expiry → now < expiry →
        t.pool.shared.store.get key = some e →
        t.pool.shared.Keeps (t.move exec (.advance i)).pool.shared e

end Conditions

/-- What holds in every state: each call stands where its kind may stand, a
heartbeat that is about to write a lease has an entry to write it to, and what
was acknowledged and has an entry is out of the reach of the reapers that may
not take it away. -/
structure Safekept (cfg : Config) (t : History) : Prop where
  threads : t.Follows (Stands cfg)
  found : ∀ i p ω key, t.pool.thread i = some (p, ω) → Renewing key p →
    ∃ e, t.pool.shared.store.get key = some e
  lease : ∀ key expiry e, Acknowledged cfg t key expiry →
    t.pool.shared.store.get key = some e → expiry ≤ e.leaseExpiry
  alone : ∀ key expiry e, Acknowledged cfg t key expiry →
    t.pool.shared.store.get key = some e → ∀ k q, t.pool.shared.store.get k = some q →
    Touches q key (text e.ip) → k = key
  spared : ∀ key expiry e, Acknowledged cfg t key expiry →
    t.pool.shared.store.get key = some e → ∀ j now p ω, Reaper t j now → now < expiry →
    t.pool.thread j = some (p, ω) → ¬ MayTake key (text e.ip) p

section Steps

variable [GoText.CaseTables] {cfg : Config} {t : History} {s : Server} {ω : Oracle}
  {a : Action} {next : Reply a → Handler Response} {o : Handler Response × Oracle} {i : ℕ}

theorem acknowledged_of_start (hi : t.pool.thread i = none) {p : Handler Response}
    (hp : ∀ v, p ≠ .ret (.renewed v)) {key : String} {expiry : Time}
    (h : Acknowledged cfg (t.move exec (.start i p ω)) key expiry) :
    Acknowledged cfg t key expiry := by
  obtain ⟨j, claims, ω', horigin, hresult⟩ := h
  obtain ⟨ω'', hthread⟩ := Pool.result_eq hresult
  rw [Traced.move_start hi] at horigin hthread
  rcases Pool.thread_update hthread with ⟨rfl, hret, -⟩ | ⟨hji, hthread⟩
  · exact absurd hret (hp expiry)
  · simp only [Function.update_of_ne hji] at horigin
    exact ⟨j, claims, ω', horigin, by simp [Pool.result, hthread]⟩

theorem acknowledged_of_advance (hi : t.pool.thread i = some (.act a next, ω))
    (ho : t.origin i = some o) (hstands : Stands cfg o (.act a next) ω) {key : String}
    {expiry : Time} (h : Acknowledged cfg (t.move exec (.advance i)) key expiry) :
    Acknowledged cfg t key expiry ∨ a = .storeRenew key expiry := by
  obtain ⟨j, claims, ω', horigin, hresult⟩ := h
  obtain ⟨ω'', hthread⟩ := Pool.result_eq hresult
  rw [Traced.move_advance hi] at horigin hthread
  rcases Pool.thread_update hthread with ⟨rfl, hret, -⟩ | ⟨-, hthread⟩
  · right
    exact hstands.answered (Option.some.inj (ho.symm.trans horigin)) hret
  · left
    exact ⟨j, claims, ω', horigin, by simp [Pool.result, hthread]⟩

/-- What is acknowledged after an action was acknowledged before or has just been
written: its entry is old, has the lease, and is out of the reapers' reach. -/
theorem Safekept.acknowledged (h : Safekept cfg t) (hi : t.pool.thread i = some (.act a next, ω))
    (hok : Uncrossed cfg t (.advance i)) {key : String} {expiry : Time} {e' : Peer}
    (hack : Acknowledged cfg (t.move exec (.advance i)) key expiry)
    (he' : (exec a ω t.pool.shared).2.2.store.get key = some e') :
    ∃ e, t.pool.shared.store.get key = some e ∧ e'.ip = e.ip ∧ expiry ≤ e'.leaseExpiry ∧
      (∀ k q, t.pool.shared.store.get k = some q → Touches q key (text e.ip) → k = key) ∧
      ∀ j now p ω, Reaper t j now → now < expiry → t.pool.thread j = some (p, ω) →
        ¬ MayTake key (text e.ip) p := by
  obtain ⟨o, ho, hstands⟩ := h.threads i _ _ hi
  have hnext := Pool.nextAction_eq hi
  rcases acknowledged_of_advance hi ho hstands hack with hold | rfl
  · obtain ⟨e, he, heq⟩ := get_of_get_exec_of_ne_put hstands.ne_put he'
    refine ⟨e, he, ?_, ?_, h.alone key expiry e hold he, h.spared key expiry e hold he⟩
    · rcases heq with rfl | ⟨lease, -, rfl⟩
      · rfl
      · rfl
    · rcases heq with rfl | ⟨lease, rfl, rfl⟩
      · exact h.lease key expiry e' hold he
      · exact (hok.1 key lease e hnext he).2.1 expiry hold
  · simp only [exec, Store.get_renew, if_true] at he'
    obtain ⟨e, he, rfl⟩ := Option.map_eq_some_iff.mp he'
    obtain ⟨hreapers, -, halone⟩ := hok.1 key expiry e hnext he
    exact ⟨e, he, rfl, le_refl _, halone, hreapers⟩

theorem Safekept.found_advance (h : Safekept cfg t)
    (hi : t.pool.thread i = some (.act a next, ω)) (hok : Uncrossed cfg t (.advance i))
    {j : ℕ} {p : Handler Response} {ω' : Oracle} {key : String}
    (hj : (t.move exec (.advance i)).pool.thread j = some (p, ω')) (hr : Renewing key p) :
    ∃ e, (exec a ω t.pool.shared).2.2.store.get key = some e := by
  obtain ⟨o, ho, hstands⟩ := h.threads i _ _ hi
  rw [Traced.move_advance hi] at hj
  have hkeep : ∀ {j p ω'}, t.pool.thread j = some (p, ω') → Renewing key p →
      ∃ e, (exec a ω t.pool.shared).2.2.store.get key = some e := by
    intro k q ω₁ hk hr
    obtain ⟨e, he⟩ := h.found k q ω₁ key hk hr
    apply get_exec_of_get he
    rintro rfl
    exact hok.2 key (Pool.nextAction_eq hi) k q ω₁ hk hr
  rcases Pool.thread_update hj with ⟨rfl, rfl, -⟩ | ⟨-, hj⟩
  · rcases hstands.found hr with hr | ⟨rfl, hentry⟩
    · exact hkeep hi hr
    · exact hentry
  · exact hkeep hj hr

omit [GoText.CaseTables] in
/-- A snapshot holds what had ended by then, so not an entry whose lease lasts. -/
theorem not_mayTake_snapshot {s : Server} {key : String} {now expiry : Time} {e : Peer}
    (he : s.store.get key = some e) (hlease : expiry ≤ e.leaseExpiry) (hlt : now < expiry)
    (halone : ∀ k q, s.store.get k = some q → Touches q key (text e.ip) → k = key) :
    ¬ MayTake key (text e.ip) (reapLoop (ω.order.walk (s.store.expired now))) := by
  intro hmay
  obtain ⟨q, hq, htouch⟩ := mayTake_reapLoop hmay
  rw [(ω.order.perm _).mem_iff, Store.mem_expired] at hq
  have hkey := halone q.publicKey q hq.1 htouch
  have hqe : some q = some e := by
    rw [← hq.1, hkey]
    exact he
  obtain rfl := Option.some.inj hqe
  exact absurd (lt_of_le_of_lt hq.2 hlt) (not_lt.mpr hlease)

theorem Safekept.spared_advance (h : Safekept cfg t)
    (hi : t.pool.thread i = some (.act a next, ω)) (hok : Uncrossed cfg t (.advance i))
    {key : String} {expiry now : Time} {e' : Peer} {j : ℕ} {p : Handler Response} {ω' : Oracle}
    (hack : Acknowledged cfg (t.move exec (.advance i)) key expiry)
    (he' : (exec a ω t.pool.shared).2.2.store.get key = some e') (hreaper : Reaper t j now)
    (hlt : now < expiry) (hj : (t.move exec (.advance i)).pool.thread j = some (p, ω')) :
    ¬ MayTake key (text e'.ip) p := by
  obtain ⟨o, ho, hstands⟩ := h.threads i _ _ hi
  obtain ⟨e, he, hip, hlease, halone, hspared⟩ := h.acknowledged hi hok hack he'
  rw [Traced.move_advance hi] at hj
  rcases Pool.thread_update hj with ⟨rfl, rfl, -⟩ | ⟨-, hj⟩
  · obtain ⟨ω₀, hω₀, rfl⟩ := hreaper
    rcases (hstands.reaper (Option.some.inj (ho.symm.trans hω₀))).2 with hother | hlook
    · intro hmay
      rw [hip] at hmay
      exact hspared j _ _ _ ⟨ω₀, hω₀, rfl⟩ hlt hi (mayTake_of_next hother hmay)
    · cases hlook
      rw [← hip] at halone
      exact not_mayTake_snapshot he' hlease hlt halone
  · rw [hip]
    exact hspared j now p ω' hreaper hlt hj

theorem Safekept.advance (h : Safekept cfg t) (hi : t.pool.thread i = some (.act a next, ω))
    (hok : Uncrossed cfg t (.advance i)) : Safekept cfg (t.move exec (.advance i)) := by
  obtain ⟨o, ho, hstands⟩ := h.threads i _ _ hi
  have hmove : t.move exec (.advance i) = _ := Traced.move_advance hi
  have hshared : (t.move exec (.advance i)).pool.shared = (exec a ω t.pool.shared).2.2 := by
    rw [hmove]
  constructor
  · rw [hmove]
    exact h.threads.advance ho (hstands.act t.pool.shared) _
  · intro j p ω' key hj hr
    rw [hshared]
    exact h.found_advance hi hok hj hr
  · intro key expiry e' hack he'
    rw [hshared] at he'
    obtain ⟨e, he, hip, hlease, -⟩ := h.acknowledged hi hok hack he'
    exact hlease
  · intro key expiry e' hack he' k q' hq' htouch
    rw [hshared] at he' hq'
    obtain ⟨e, he, hip, -, halone, -⟩ := h.acknowledged hi hok hack he'
    obtain ⟨q, hq, heq⟩ := get_of_get_exec_of_ne_put hstands.ne_put hq'
    rw [hip] at htouch
    apply halone k q hq
    rcases heq with rfl | ⟨lease, -, rfl⟩
    · exact htouch
    · exact htouch
  · intro key expiry e' hack he' j now p ω' hreaper hlt hj
    rw [hshared] at he'
    rw [hmove] at hreaper
    exact h.spared_advance hi hok hack he' hreaper hlt hj

theorem Safekept.start (h : Safekept cfg t) {p : Handler Response}
    (hp : Turn.BeatsOrReaps cfg (.start i p ω)) (hi : t.pool.thread i = none) :
    Safekept cfg (t.move exec (.start i p ω)) := by
  have hharmless := started_harmless hp
  have hmove : t.move exec (.start i p ω) = _ := Traced.move_start hi
  have hback : ∀ {key expiry}, Acknowledged cfg (t.move exec (.start i p ω)) key expiry →
      Acknowledged cfg t key expiry :=
    acknowledged_of_start hi (hharmless "" "").2.2
  have hshared : (t.move exec (.start i p ω)).pool.shared = t.pool.shared := by
    rw [hmove]
  constructor
  · rw [hmove]
    apply h.threads.start
    obtain ⟨claims, body, rfl⟩ | rfl := hp
    · exact stands_handleHeartbeat cfg claims body ω
    · exact .waits
  · intro j q ω' key hj hr
    rw [hmove] at hj
    rw [hshared]
    rcases Pool.thread_update hj with ⟨rfl, rfl, -⟩ | ⟨-, hj⟩
    · exact absurd hr (hharmless key "").1
    · exact h.found j q ω' key hj hr
  · intro key expiry e hack he
    rw [hshared] at he
    exact h.lease key expiry e (hback hack) he
  · intro key expiry e hack he
    rw [hshared] at he ⊢
    exact h.alone key expiry e (hback hack) he
  · intro key expiry e hack he j now q ω' hreaper hlt hj
    rw [hshared] at he
    rw [hmove] at hj hreaper
    rcases Pool.thread_update hj with ⟨rfl, rfl, -⟩ | ⟨hji, hj⟩
    · exact (hharmless key (text e.ip)).2.1
    · simp only [Reaper, Function.update_of_ne hji] at hreaper
      exact h.spared key expiry e (hback hack) he j now q ω' hreaper hlt hj

theorem Safekept.move {m : Turn} (h : Safekept cfg t) (hm : m.BeatsOrReaps cfg)
    (hok : Uncrossed cfg t m) : Safekept cfg (t.move exec m) := by
  rcases t.move_cases exec m with heq | ⟨i, p, ω, rfl, hi, -⟩ | ⟨i, a, next, ω, rfl, hi, -⟩
  · rw [heq]
    exact h
  · exact h.start hm hi
  · exact h.advance hi hok

/-- In such a state no turn loses an acknowledged lease. -/
theorem Safekept.notLost {m : Turn} (h : Safekept cfg t) : NotLost cfg t m := by
  cases m with
  | start i p ω => trivial
  | advance i =>
      constructor
      · intro key expiry hnext
        obtain ⟨next, ω, hi⟩ := Pool.thread_of_nextAction hnext
        exact h.found i _ ω key hi rfl
      · intro now key expiry e hreaper hack hlt he
        by_cases hfly : t.pool.InFlight i
        · obtain ⟨a, next, ω, hi⟩ := hfly
          obtain ⟨o, ho, hstands⟩ := h.threads i _ _ hi
          obtain ⟨ω₀, hω₀, hnow⟩ := hreaper
          have hreaps := (hstands.reaper (Option.some.inj (ho.symm.trans hω₀))).1
          have hspared := h.spared key expiry e hack he i now _ ω ⟨ω₀, hω₀, hnow⟩ hlt hi
          rw [Traced.move_advance hi]
          apply keeps_of_not_takes hreaps
          rw [Store.key_of_get he]
          exact takes_of_mayTake hspared
        · have hsame : (t.move exec (.advance i)).pool = t.pool := Pool.move_advance_stopped hfly
          rw [hsame]
          exact ⟨rfl, fun _ _ => rfl, id⟩

/-- In every interleaving of heartbeats and reapers, from any server, in which
they do not cross: a lease is written to an entry, and no reaper takes the key
away before the end of a lease that was acknowledged. -/
theorem acknowledged_leases_kept {turns : List Turn}
    (hstart : ∀ m ∈ turns, m.BeatsOrReaps cfg)
    (hrun : Admissible (Traced.move exec) (Uncrossed cfg) (.initial s) turns) :
    Admissible (Traced.move exec) (NotLost cfg) (.initial s) turns := by
  have hinit : Safekept cfg (.initial s) := by
    have hnone : ∀ key expiry, ¬ Acknowledged cfg (.initial s) key expiry := by
      rintro key expiry ⟨i, claims, ω, horigin, -⟩
      exact absurd horigin (by simp [Traced.initial])
    constructor
    · exact Traced.follows_initial s
    · intro i p ω key hi
      exact absurd hi (by simp [Traced.initial, Pool.initial])
    · exact fun key expiry e hack => absurd hack (hnone key expiry)
    · exact fun key expiry e hack => absurd hack (hnone key expiry)
    · exact fun key expiry e hack => absurd hack (hnone key expiry)
  refine ((hrun.and_forall hstart).and_invariant (Safekept cfg) ?_ hinit).mono ?_
  · intro t m h hm
    exact h.move hm.1 hm.2
  · intro t m h
    exact h.1.notLost

end Steps

/-- Alice's entry, whose lease has just ended. -/
private def lapsed : Server :=
  { Sample.start with
    store := Store.new.put
      { publicKey := Sample.key₁, subject := "alice", email := "", ip := [10, 80, 0, 2],
        device := ⟨"laptop", "linux"⟩, enrolledAt := 0, leaseExpiry := 0, tenant := defaultID }
    device := Device.addPeer ∅ Sample.bytes₁ [10, 80, 0, 2]
    alloc := { Sample.alloc with used := insert "10.80.0.2" Sample.alloc.used } }

/-- The next action neither writes a lease nor deletes an entry. -/
private def leavesEntries : Option Action → Bool
  | some (.storeRenew _ _) => false
  | some (.storeDelete _) => false
  | _ => true

private theorem uncrossed_of_leavesEntries {cfg : Config} {t : History} {i : ℕ}
    (h : leavesEntries (t.pool.nextAction i) = true) : Uncrossed cfg t (.advance i) := by
  constructor
  · intro key expiry e hnext
    rw [hnext] at h
    exact absurd h (by simp [leavesEntries])
  · intro key hnext
    rw [hnext] at h
    exact absurd h (by simp [leavesEntries])

/-- With one heartbeat and nothing else started, and one entry, nothing crosses. -/
private theorem uncrossed_of_single {cfg : Config} {t : History} {ω : Oracle}
    {key : String} {expiry : Time} (claims : Claims)
    (horigin : ∀ j, j ≠ 0 → t.origin j = none)
    (hbeat : t.origin 0 = some (handleHeartbeat cfg claims (.ok ⟨key⟩), ω))
    (hnext : t.pool.nextAction 0 = some (.storeRenew key expiry))
    (hstore : ∀ k q, t.pool.shared.store.get k = some q → k = key) :
    Uncrossed cfg t (.advance 0) := by
  have hslot : ∀ {j o}, t.origin j = some o → j = 0 := by
    intro j o ho
    by_contra hj
    exact absurd ((horigin j hj).symm.trans ho) (by simp)
  constructor
  · intro k lease e hnext' he
    obtain ⟨rfl, rfl⟩ := Action.storeRenew.inj (Option.some.inj (hnext.symm.trans hnext'))
    refine ⟨?_, ?_, fun k q hq _ => hstore k q hq⟩
    · rintro j now p ω' ⟨ω'', hreap, -⟩
      obtain rfl := hslot hreap
      exact absurd (Prod.mk.inj (Option.some.inj (hbeat.symm.trans hreap))).1
        handleHeartbeat_ne_reapExpired
    · rintro lease ⟨j, claims', ω', ho, hresult⟩
      obtain rfl := hslot ho
      obtain ⟨ω'', hret⟩ := Pool.result_eq hresult
      exact absurd hnext (by simp [Pool.nextAction, hret])
  · intro k hnext'
    exact absurd (hnext.symm.trans hnext') (by simp)

/-- Alice's lease is renewed, then the reaper comes by. -/
private def beatThenReap : List Turn :=
  Sample.begin 0 false (Sample.heartbeat "alice" Sample.key₁) ++ Sample.steps 0 4 ++
    Sample.begin 1 false .reapExpired ++ Sample.steps 1 2

attribute [local instance] GoText.asciiTables

theorem renewed_entry_survives_reaper :
    (lapsed.interleave beatThenReap).result 0 = some (.renewed 3600) ∧
      (lapsed.interleave beatThenReap).result 1 = some .finished ∧
      Admissible (Traced.move exec) (NotLost (Sample.config false)) (.initial lapsed)
        beatThenReap := by
  refine ⟨by decide +kernel, by decide +kernel, ?_⟩
  apply acknowledged_leases_kept
  · intro m hm
    cases m with
    | advance i => trivial
    | start i p ω =>
        simp only [beatThenReap, Sample.begin, Sample.steps, List.mem_append,
          List.mem_singleton, List.mem_replicate, Move.start.injEq, reduceCtorEq, and_false,
          or_false] at hm
        obtain ⟨-, rfl, -⟩ | ⟨-, rfl, -⟩ := hm
        · exact Or.inl ⟨Sample.claims "alice", .ok ⟨Sample.key₁⟩, rfl⟩
        · exact Or.inr rfl
  · refine ⟨trivial, ?_, ?_, ?_, ?_, trivial, ?_, ?_, trivial⟩
    · exact uncrossed_of_leavesEntries (by decide +kernel)
    · exact uncrossed_of_leavesEntries (by decide +kernel)
    · exact uncrossed_of_leavesEntries (by decide +kernel)
    · have hnext : (lapsed.interleave (Sample.begin 0 false
          (Sample.heartbeat "alice" Sample.key₁) ++ Sample.steps 0 3)).nextAction 0 =
            some (.storeRenew Sample.key₁ 3600) := rfl
      refine uncrossed_of_single (Sample.claims "alice") ?_ rfl hnext ?_
      · intro j hj
        exact Function.update_of_ne hj _ _
      · intro k q hq
        obtain ⟨q', hq', -⟩ : ∃ q', lapsed.store.get k = some q' ∧ q' = q := ⟨q, hq, rfl⟩
        rcases Store.get_put_eq_some.mp hq' with ⟨rfl, -⟩ | ⟨-, hnew⟩
        · rfl
        · simp at hnew
    · exact uncrossed_of_leavesEntries (by decide +kernel)
    · exact uncrossed_of_leavesEntries (by decide +kernel)

/-- The reaper takes its snapshot, Alice's heartbeat is answered with a lease, and
the reaper goes on to remove the entry, the peer and the address. In the other
order the entry is gone before the lease is written, and the heartbeat is
answered with the lease all the same. -/
theorem crossed_renewals_lost :
    let start := Sample.begin 0 false (Sample.heartbeat "alice" Sample.key₁) ++
      Sample.begin 1 false .reapExpired
    let lost := lapsed.interleave
      (start ++ Sample.steps 1 2 ++ Sample.steps 0 4 ++ Sample.steps 1 3)
    let late := lapsed.interleave
      (start ++ Sample.steps 0 3 ++ Sample.steps 1 4)
    let answered := lapsed.interleave
      (start ++ Sample.steps 0 3 ++ Sample.steps 1 4 ++ Sample.steps 0 1)
    ((Sample.oracle true true).clock.head < 3600 ∧
        lapsed.device.lookup Sample.bytes₁ ≠ none ∧ lost.result 0 = some (.renewed 3600) ∧
        lost.shared.store.get Sample.key₁ = none ∧ lost.shared.device.lookup Sample.bytes₁ = none ∧
        "10.80.0.2" ∉ lost.shared.alloc.used) ∧
      late.shared.store.get Sample.key₁ = none ∧ answered.result 0 = some (.renewed 3600) := by
  decide +kernel

end Claimward.Api
