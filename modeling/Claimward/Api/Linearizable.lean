import Claimward.Api.Collision

/-!
# Two enrollments of one key at the same time

The check whether a key is enrolled and the write that enrolls it are separate
steps. If both requests find no entry before either has written one, both take
an address, and no serial order explains what they answer and leave. In every
other interleaving one does.
-/

namespace Claimward.Api

open AtomicProgram AtomicProgram.Program Inet Wg Peers Runs

/-- The answer without the time the lease runs to. -/
def Response.withoutExpiry : Response → Response
  | .enrolled r => .enrolled { r with leaseExpiresAt := 0 }
  | r => r

theorem Response.Exhausted.of_withoutExpiry {r r' : Response}
    (h : r.withoutExpiry = r'.withoutExpiry) (hr : r.Exhausted) : r'.Exhausted := by
  obtain ⟨msg, rfl⟩ := hr
  cases r' with
  | refused status code message => exact ⟨msg, h.symm⟩
  | _ => exact absurd h (by simp [Response.withoutExpiry])

/-- The two answers, up to the expiry of the lease, and the store, the used set and
the device are what serving the one call and then the other gives. -/
structure Server.Serializes [GoText.CaseTables] (cfg : Config) (s : Server)
    (l l' : Call × Oracle) (r r' : Response) (final : Server) : Prop where
  first : r.withoutExpiry = (l.1.response cfg l.2 s).withoutExpiry
  second : r'.withoutExpiry = (l'.1.response cfg l'.2 (s.serve cfg l)).withoutExpiry
  store : final.store = ((s.serve cfg l).serve cfg l').store
  used : final.alloc.used = ((s.serve cfg l).serve cfg l').alloc.used
  device : final.device = ((s.serve cfg l).serve cfg l').device

theorem Server.Serializes.of_eq [GoText.CaseTables] {cfg : Config} {s final : Server}
    {l l' : Call × Oracle} {r r' : Response} (hfirst : r = l.1.response cfg l.2 s)
    (hsecond : r' = l'.1.response cfg l'.2 (s.serve cfg l))
    (hfinal : final = (s.serve cfg l).serve cfg l') : s.Serializes cfg l l' r r' final := by
  subst hfirst hsecond hfinal
  exact ⟨rfl, rfl, rfl, rfl, rfl⟩

section Serialization

variable [GoText.CaseTables] {cfg : Config} {s : Server} {c₀ c₁ : Call} {claims₀ claims₁ : Claims}
  {req₀ req₁ : EnrollRequest} {ω₀ ω₁ : Oracle} {schedule : List (Fin 2)} {turns : List Turn}
  {r₀ r₁ : Response}

/-- Two calls that have just been started. -/
def started (s : Server) (t₀ t₁ : Handler Response × Oracle) : Threads :=
  ⟨s, fun k => if k = 0 then some t₀ else if k = 1 then some t₁ else none⟩

theorem interleave_start (p₀ p₁ : Handler Response) :
    s.interleave [.start 0 p₀ ω₀, .start 1 p₁ ω₁] = started s (p₀, ω₀) (p₁, ω₁) := by
  rw [Server.interleave, run_cons, run_cons, run_nil, Pool.move_start rfl, Pool.move_start rfl]
  congr 1
  funext k
  by_cases hk₁ : k = 1
  · simp [hk₁]
  · by_cases hk₀ : k = 0
    · simp [hk₀]
    · simp [hk₀, hk₁, Pool.initial]

theorem explained_start {key : String} {p₀ p₁ : Handler Response} (hp₀ : Entering key p₀)
    (hp₁ : Entering key p₁) (hω₀ : ω₀.Reliable) (hω₁ : ω₁.Reliable) :
    Explained key s (fun i j => (started s (p₀, ω₀) (p₁, ω₁)).serial exec i j)
      (started s (p₀, ω₀) (p₁, ω₁)) := by
  refine .undecided rfl rfl fun i j _ => ⟨?_, rfl⟩
  obtain rfl | rfl : i = 0 ∨ i = 1 := by omega
  · exact ⟨p₀, ω₀, rfl, Or.inl hp₀, hω₀⟩
  · exact ⟨p₁, ω₁, rfl, Or.inl hp₁, hω₁⟩

omit [GoText.CaseTables] in
theorem started_slots {t₀ t₁ : Handler Response × Oracle} {j : ℕ} (hj : 2 ≤ j) :
    (started s t₀ t₁).thread j = none := by
  simp [started, show j ≠ 0 by omega, show j ≠ 1 by omega]

/-- An explained interleaving that has come to its end is one of the two orders. -/
theorem serializes_of_explained {key : String} {c : Threads}
    (h : Explained key s (fun i j => (started s (c₀.program cfg, ω₀)
      (c₁.program cfg, ω₁)).serial exec i j) c)
    (h₀ : c.result 0 = some r₀) (h₁ : c.result 1 = some r₁) :
    s.Serializes cfg (c₀, ω₀) (c₁, ω₁) r₀ r₁ c.shared ∨
      s.Serializes cfg (c₁, ω₁) (c₀, ω₀) r₁ r₀ c.shared := by
  obtain ⟨i, j, hij, hserial⟩ := h.serial
  obtain rfl | rfl : i = 0 ∨ i = 1 := by omega
  · obtain rfl : j = 1 := by omega
    have hall := (Pool.serial_of_result h₀ h₁).symm.trans hserial
    rw [Pool.serial_eq (c := started s _ _) rfl rfl] at hall
    simp only [Option.some.injEq, Prod.mk.injEq] at hall
    obtain ⟨hfirst, hsecond, hshared⟩ := hall
    exact Or.inl (.of_eq hfirst hsecond hshared)
  · obtain rfl : j = 0 := by omega
    have hall := (Pool.serial_of_result h₁ h₀).symm.trans hserial
    rw [Pool.serial_eq (c := started s _ _) rfl rfl] at hall
    simp only [Option.some.injEq, Prod.mk.injEq] at hall
    obtain ⟨hfirst, hsecond, hshared⟩ := hall
    exact Or.inr (.of_eq hfirst hsecond hshared)

/-- In a serial order one address at most is taken for a key that had none, and
neither call is refused for want of one. -/
theorem Server.Serializes.takes_one {key : String} {final : Server}
    (h : s.Serializes cfg (c₀, ω₀) (c₁, ω₁) r₀ r₁ final)
    (hent₀ : Entering key (c₀.program cfg)) (hω₀ : ω₀.Reliable)
    (hent₁ : Entering key (c₁.program cfg)) (hω₁ : ω₁.Reliable)
    (habsent : s.store.get key = none) (hfree : s.alloc.free ≠ none) :
    r₀.Served ∧ r₁.Served ∧ final.alloc.used.card ≤ s.alloc.used.card + 1 := by
  obtain ⟨ip, hfree⟩ := Option.ne_none_iff_exists'.mp hfree
  obtain ⟨hserved₀, hserved₁, hused⟩ := serial_takes_one hent₀ hω₀ hent₁ hω₁ habsent hfree
  refine ⟨fun hr => hserved₀ (hr.of_withoutExpiry h.first),
    fun hr => hserved₁ (hr.of_withoutExpiry h.second), ?_⟩
  rw [h.used]
  rcases hused with hused | hused
  · exact (congrArg Finset.card hused).trans_le (Nat.le_succ _)
  · exact (congrArg Finset.card hused).trans_le (Finset.card_insert_le _ _)

/-- What a race leaves is not what a serial order leaves. -/
theorem Raced.not_serializes {key : String} {c : Threads} (hraced : Raced key s c)
    (hent₀ : Entering key (c₀.program cfg)) (hω₀ : ω₀.Reliable)
    (hent₁ : Entering key (c₁.program cfg)) (hω₁ : ω₁.Reliable)
    (habsent : s.store.get key = none) (hfree : s.alloc.free ≠ none)
    (h₀ : c.result 0 = some r₀) (h₁ : c.result 1 = some r₁) :
    ¬ (s.Serializes cfg (c₀, ω₀) (c₁, ω₁) r₀ r₁ c.shared ∨
      s.Serializes cfg (c₁, ω₁) (c₀, ω₀) r₁ r₀ c.shared) := by
  intro hserial
  obtain ⟨hserved₀, hserved₁, hcard⟩ :
      r₀.Served ∧ r₁.Served ∧ c.shared.alloc.used.card ≤ s.alloc.used.card + 1 := by
    rcases hserial with h | h
    · exact h.takes_one hent₀ hω₀ hent₁ hω₁ habsent hfree
    · obtain ⟨hserved₁, hserved₀, hcard⟩ :=
        h.takes_one hent₁ hω₁ hent₀ hω₀ habsent hfree
      exact ⟨hserved₀, hserved₁, hcard⟩
  rcases hraced.result h₀ h₁ with hexhausted | hexhausted | htwo
  · exact hserved₀ hexhausted
  · exact hserved₁ hexhausted
  · omega

/-- Two enrollments of one key, from any state of the server and on a device
that never fails: their answers and what they leave are those of a serial order
exactly if neither asks for the key's entry, finding none, while the other is on
its way to write one. -/
theorem enrollments_serialize (hc₀ : c₀ = .enroll claims₀ (.ok req₀))
    (hc₁ : c₁ = .enroll claims₁ (.ok req₁)) (hkey : req₀.publicKey = req₁.publicKey)
    (hω₀ : ω₀.Reliable) (hω₁ : ω₁.Reliable)
    (hturns : turns = .start 0 (c₀.program cfg) ω₀ :: .start 1 (c₁.program cfg) ω₁ ::
      advances schedule)
    (h₀ : (s.interleave turns).result 0 = some r₀)
    (h₁ : (s.interleave turns).result 1 = some r₁) :
    (s.Serializes cfg (c₀, ω₀) (c₁, ω₁) r₀ r₁ (s.interleave turns).shared ∨
      s.Serializes cfg (c₁, ω₁) (c₀, ω₀) r₁ r₀ (s.interleave turns).shared) ↔
    s.Interleaves Unraced turns := by
  have hsplit : turns = [.start 0 (c₀.program cfg) ω₀, .start 1 (c₁.program cfg) ω₁] ++
      advances schedule := hturns
  have hent₀ : Entering req₁.publicKey (c₀.program cfg) := by
    rw [hc₀, ← hkey]
    exact entering_handleEnroll cfg claims₀ req₀
  have hent₁ : Entering req₁.publicKey (c₁.program cfg) := by
    rw [hc₁]
    exact entering_handleEnroll cfg claims₁ req₁
  have hinterleave : s.interleave turns = run (Pool.move exec)
      (started s (c₀.program cfg, ω₀) (c₁.program cfg, ω₁)) (advances schedule) := by
    rw [hsplit, Server.interleave, run_append]
    rw [← interleave_start]
  have hadmissible : s.Interleaves Unraced turns ↔ Admissible (Pool.move exec) Unraced
      (started s (c₀.program cfg, ω₀) (c₁.program cfg, ω₁)) (advances schedule) := by
    rw [← interleave_start, hsplit, Server.Interleaves, admissible_append]
    exact and_iff_right ⟨trivial, trivial, trivial⟩
  rw [hadmissible, hinterleave]
  rw [hinterleave] at h₀ h₁
  rcases contention_run schedule (explained_start (s := s) hent₀ hent₁ hω₀ hω₁)
    (fun j => started_slots) with ⟨hunraced, hend⟩ | ⟨hrace, habsent, hfree, hend⟩
  · exact iff_of_true (serializes_of_explained hend h₀ h₁) hunraced
  · exact iff_of_false
      (hend.not_serializes hent₀ hω₀ hent₁ hω₁ habsent hfree h₀ h₁) hrace

end Serialization

/-- The call has returned or asks the store next. -/
private def asks : Option Action → Bool
  | none => true
  | some (.storeGet _) => true
  | some _ => false

private theorem not_claiming_of_asks {c : Threads} {j : ℕ} {p : Handler Response} {ω : Oracle}
    {key : String} {s : Server} (hj : c.thread j = some (p, ω))
    (h : asks (c.nextAction j) = true) : ¬ Claiming key s p := by
  cases p with
  | ret v => exact id
  | act a next =>
      rw [Pool.nextAction_eq hj] at h
      cases a with
      | storeGet k => exact id
      | _ => exact absurd h (by simp [asks])

/-- With two slots: the entry asked for exists, or the other call has returned or
asks next as well. -/
private def asksAlone (c : Threads) : Turn → Bool
  | .start i _ _ => i < 2
  | .advance i =>
      match c.nextAction i with
      | some (.storeGet key) => (c.shared.store.get key).isSome || asks (c.nextAction (1 - i))
      | _ => true

private theorem unraced_of_asksAlone {c : Threads} {m : Turn}
    (hfree : ∀ j, 2 ≤ j → c.thread j = none) (h : asksAlone c m = true) : Unraced c m := by
  have hlt : ∀ {j t}, c.thread j = some t → j < 2 := by
    intro j t hj
    by_contra hge
    exact absurd ((hfree j (not_lt.mp hge)).symm.trans hj) (by simp)
  cases m with
  | start i p ω => trivial
  | advance i =>
      intro key hnext hget j p ω hji hj
      have hi : i < 2 := by
        unfold Pool.nextAction at hnext
        split at hnext
        · rename_i hi
          exact hlt hi
        · exact absurd hnext (by simp)
      obtain rfl : j = 1 - i := by
        have := hlt hj
        omega
      apply not_claiming_of_asks hj
      simpa [asksAlone, hnext, hget] using h

attribute [local instance] GoText.asciiTables

private theorem two_slots {c : Threads} {m : Turn} (hfree : ∀ j, 2 ≤ j → c.thread j = none)
    (h : asksAlone c m = true) : ∀ j, 2 ≤ j → (c.move exec m).thread j = none := by
  intro j hj
  change (run (Pool.move exec) c [m]).thread j = none
  refine Pool.thread_run_eq_none (hfree j hj) ?_
  rintro p ω hmem
  obtain rfl := List.mem_singleton.mp hmem
  have hlt : j < 2 := by simpa [asksAlone] using h
  omega

/-- Alice and Bob enroll one key. Bob asks for the entry when Alice has written
it. -/
private def bobSecond : List Turn :=
  Sample.begin 0 false (Sample.enroll "alice" Sample.key₁) ++
    Sample.begin 1 false (Sample.enroll "bob" Sample.key₁) ++
    advances [1, 1, 0, 0, 0, 0, 0, 0, 0, 1, 0]

theorem second_enrollment_refused :
    ∃ r, (Sample.start.interleave bobSecond).result 0 = some r ∧
      (Sample.start.interleave bobSecond).result 1 =
        some (.refused 409 "key_taken" "this key is enrolled by another user") ∧
      Sample.start.Serializes (Sample.config false)
        (Sample.enroll "alice" Sample.key₁, Sample.oracle true true)
        (Sample.enroll "bob" Sample.key₁, Sample.oracle true true) r
        (.refused 409 "key_taken" "this key is enrolled by another user")
        (Sample.start.interleave bobSecond).shared := by
  have hrefused : (Sample.start.interleave bobSecond).result 1 =
      some (.refused 409 "key_taken" "this key is enrolled by another user") := by decide +kernel
  have hasks : Sample.start.Interleaves (fun c m => asksAlone c m = true) bobSecond := by
    decide +kernel
  have hrun : Sample.start.Interleaves Unraced bobSecond :=
    (hasks.and_invariant (fun c => ∀ j, 2 ≤ j → c.thread j = none)
      (fun _ _ => two_slots) fun _ _ => rfl).mono fun _ _ h => unraced_of_asksAlone h.1 h.2
  obtain ⟨r, h₀⟩ := Option.isSome_iff_exists.mp
    (show ((Sample.start.interleave bobSecond).result 0).isSome = true by decide +kernel)
  refine ⟨r, h₀, hrefused, ?_⟩
  have hserial :=
    (enrollments_serialize rfl rfl rfl Sample.reliable Sample.reliable rfl h₀ hrefused).mpr hrun
  rcases hserial with halice | hbob
  · exact halice
  · exact absurd hbob.first (by decide +kernel)

/-- Both requests ask before either writes: both are granted the key, with
different addresses, and the address of the one that wrote first stays reserved
without an entry. In either serial order the second is refused. -/
theorem raced_enrollments_both_granted :
    let alice := Sample.enroll "alice" Sample.key₁
    let bob := Sample.enroll "bob" Sample.key₁
    let cfg := Sample.config false
    let ω := Sample.oracle true true
    let c := Sample.start.interleave (Sample.begin 0 false alice ++ Sample.begin 1 false bob ++
      advances [0, 0, 0, 1, 1, 1, 0, 0, 0, 0, 0, 1, 1, 1, 1, 1])
    (∃ r, c.result 0 = some (.enrolled r) ∧ r.assignedIP = "10.80.0.2/32") ∧
      (∃ r, c.result 1 = some (.enrolled r) ∧ r.assignedIP = "10.80.0.3/32") ∧
      "10.80.0.2" ∈ c.shared.alloc.used ∧
      (∀ p ∈ c.shared.store.list, text p.ip ≠ "10.80.0.2") ∧
      bob.response cfg ω (alice.after cfg ω Sample.start) =
        .refused 409 "key_taken" "this key is enrolled by another user" ∧
      alice.response cfg ω (bob.after cfg ω Sample.start) =
        .refused 409 "key_taken" "this key is enrolled by another user" := by
  have hgranted (ip : String) : (EnrollResponse.mk ip "server" "vpn:51820" ["10.80.0.0/29"] []
      "vpn:9443" 25 3600).assignedIP = ip := rfl
  refine ⟨⟨_, ?_, hgranted _⟩, ⟨_, ?_, hgranted _⟩, ?_, ?_, ?_, ?_⟩
  all_goals decide +kernel

end Claimward.Api
