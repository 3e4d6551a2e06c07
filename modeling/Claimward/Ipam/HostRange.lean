import Claimward.Ipam.Allocator
import Mathlib.Order.Interval.Finset.Nat

/-!
# The host addresses of a plain pool

For a pool written as `a.b.c.d/n` the walk of `Allocate` visits, in numerical
order, the addresses strictly between the network and the broadcast address
and stops before the latter. `scan_spec` is the induction over that walk; the
statements about `free` follow from it.
-/

namespace Claimward.Ipam

open Inet

/-- The number of a counter given least significant byte first. -/
private def littleValue : List UInt8 → ℕ
  | [] => 0
  | b :: bs => b.toNat + 256 * littleValue bs

private theorem value_append_singleton (bs : List UInt8) (b : UInt8) :
    value (bs ++ [b]) = value bs * 256 + b.toNat := by
  induction bs with
  | nil => simp [value]
  | cons c cs ih =>
      simp only [List.cons_append, value, ih, List.length_append, List.length_singleton]
      ring

private theorem value_reverse (bs : List UInt8) : value bs.reverse = littleValue bs := by
  induction bs with
  | nil => rfl
  | cons b bs ih =>
      rw [List.reverse_cons, value_append_singleton, ih, littleValue]
      ring

private theorem length_increment (bs : List UInt8) : (increment bs).length = bs.length := by
  induction bs with
  | nil => rfl
  | cons b bs ih => simp only [increment]; split <;> simp [ih]

private theorem littleValue_increment (bs : List UInt8) :
    littleValue (increment bs) = (littleValue bs + 1) % 256 ^ bs.length := by
  induction bs with
  | nil => simp [increment, littleValue]
  | cons b bs ih =>
      have hsucc : (b + 1).toNat = (b.toNat + 1) % 256 := by simp [UInt8.toNat_add]
      have hb := b.toNat_lt
      have htail : littleValue bs < 256 ^ bs.length := by
        simpa [value_reverse] using value_lt bs.reverse
      by_cases hcarry : b + 1 = 0
      · -- the byte was 255: it becomes zero and the carry goes on
        have h255 : b.toNat = 255 := by
          have h0 := congrArg UInt8.toNat hcarry
          rw [hsucc, UInt8.toNat_zero] at h0
          omega
        simp only [increment, hcarry, ne_eq, not_true, if_false, littleValue, ih, h255,
          UInt8.toNat_zero, List.length_cons]
        rw [show 255 + 256 * littleValue bs + 1 = 256 * (littleValue bs + 1) by ring,
          show (256 : ℕ) ^ (bs.length + 1) = 256 * 256 ^ bs.length by rw [pow_succ]; ring,
          Nat.mul_mod_mul_left, Nat.zero_add]
      · have hne : b.toNat + 1 < 256 := by
          by_contra hge
          apply hcarry
          apply UInt8.toNat_inj.mp
          rw [hsucc, UInt8.toNat_zero]
          omega
        simp only [increment, ne_eq, hcarry, not_false_eq_true, if_true, littleValue,
          List.length_cons]
        rw [hsucc, Nat.mod_eq_of_lt hne, Nat.mod_eq_of_lt]
        · ring
        · rw [pow_succ]; omega

theorem to4_of_length {ip : IP} (h : ip.length = 4) : to4 ip = some ip := by simp [to4, h]

theorem length_next {ip : IP} (h : ip.length = 4) : (next ip).length = 4 := by
  simp [next, to4_of_length h, length_increment, h]

/-- The successor of an address, with the last one wrapping to zero. -/
theorem value_next {ip : IP} (h : ip.length = 4) :
    value (next ip) = (value ip + 1) % 2 ^ 32 := by
  have hrev := littleValue_increment ip.reverse
  rw [← value_reverse, ← value_reverse, List.reverse_reverse, List.length_reverse, h] at hrev
  simpa [next, to4_of_length h] using hrev

/-- A pool in the plain spelling. -/
def Cidr.Plain (c : Cidr) : Prop := c.addr.length = 4

/-- How many addresses the pool has, network and broadcast included. -/
def Cidr.size (c : Cidr) : ℕ := 2 ^ (32 - c.ones)

/-- The numbers of the network and of the broadcast address. -/
def Cidr.netValue (c : Cidr) : ℕ := value c.addr / c.size * c.size

def Cidr.broadcastValue (c : Cidr) : ℕ := c.netValue + (c.size - 1)

def Cidr.broadcast (c : Cidr) : IP :=
  List.zipWith (fun b m => b ||| ~~~m) c.network.ip c.network.mask

/-- A host address: strictly between the network and the broadcast address. -/
def Cidr.Host (c : Cidr) (ip : IP) : Prop :=
  ip.length = 4 ∧ c.netValue < value ip ∧ value ip < c.broadcastValue

namespace Cidr

/-- A pool of two addresses or one has no host address. -/
theorem not_host_of_le {c : Cidr} (h : 31 ≤ c.ones) {p : IP} : ¬ c.Host p := by
  rintro ⟨-, hlo, hhi⟩
  have hsize : c.size ≤ 2 ^ 1 := Nat.pow_le_pow_right (by decide) (by omega)
  simp only [broadcastValue] at hhi
  omega

variable {c : Cidr} (hc : c.Plain)

include hc

theorem Plain.ones_le : c.ones ≤ 32 := by
  rcases c.valid with ⟨_, h⟩ | ⟨h, _⟩
  · exact h
  · simp only [Plain] at hc; omega

theorem Plain.network_eq :
    c.network = ⟨applyMask c.addr (cidrMask c.ones 4), cidrMask c.ones 4⟩ := by
  simp only [Plain] at hc
  simp [network, hc]

theorem Plain.length_network : c.network.ip.length = 4 := by
  rw [Plain.network_eq hc, length_applyMask (by rw [length_cidrMask]; exact hc)]
  exact hc

theorem Plain.value_network : value c.network.ip = c.netValue := by
  have hones := Plain.ones_le hc
  rw [Plain.network_eq hc, value_applyMask hc (by omega)]
  rfl

theorem Plain.broadcastValue_lt : c.broadcastValue < 2 ^ 32 := by
  have hones := Plain.ones_le hc
  have hlt : value c.addr < 2 ^ 32 := by
    have := value_lt c.addr
    rw [show c.addr.length = 4 from hc] at this
    simpa using this
  have hpow : c.size * 2 ^ c.ones = 2 ^ 32 := by
    rw [size, ← pow_add]
    congr 1
    omega
  have hpos : 0 < c.size := Nat.two_pow_pos _
  have hdiv : value c.addr / c.size + 1 ≤ 2 ^ c.ones := by
    apply Nat.div_lt_of_lt_mul
    rw [hpow]
    exact hlt
  calc
    c.broadcastValue < (value c.addr / c.size + 1) * c.size := by
      simp only [broadcastValue, netValue, Nat.add_mul]
      omega
    _ ≤ 2 ^ c.ones * c.size := Nat.mul_le_mul_right _ hdiv
    _ = 2 ^ 32 := by rw [Nat.mul_comm, hpow]

/-- The pool contains an address when its number lies between those of the
network and of the broadcast address. -/
theorem Plain.contains_iff {ip : IP} (hip : ip.length = 4) :
    contains c.network ip = true ↔
      c.netValue ≤ value ip ∧ value ip ≤ c.broadcastValue := by
  have hones := Plain.ones_le hc
  have hpos : 0 < c.size := Nat.two_pow_pos _
  have hmask : c.network.mask = cidrMask c.ones 4 := by rw [Plain.network_eq hc]
  have hquot : c.netValue / c.size = value c.addr / c.size := Nat.mul_div_cancel _ hpos
  have hself : c.netValue = value c.addr / c.size * c.size := rfl
  simp only [contains, networkNumberAndMask, to4_of_length (Plain.length_network hc), hmask,
    length_cidrMask, if_true, to4_of_length hip, Option.getD_some, hip,
    Plain.length_network hc, decide_eq_true_eq, true_and]
  rw [applyMask_eq_iff (Plain.length_network hc) hip (by omega), Plain.value_network hc]
  change c.netValue / c.size = value ip / c.size ↔ _
  rw [hquot]
  constructor
  · intro h
    have hle := Nat.div_mul_le_self (value ip) c.size
    have hlt := Nat.lt_div_mul_add (a := value ip) hpos
    simp only [broadcastValue, hself, h]
    omega
  · rintro ⟨hlo, hhi⟩
    symm
    apply Nat.div_eq_of_lt_le
    · rw [← hself]; exact hlo
    · simp only [broadcastValue, hself] at hhi
      rw [Nat.add_mul, Nat.one_mul]
      omega

theorem Plain.length_broadcast : c.broadcast.length = 4 := by
  have hmask : c.network.mask = cidrMask c.ones 4 := by rw [Plain.network_eq hc]
  simp [broadcast, hmask, length_cidrMask, Plain.length_network hc]

theorem Plain.value_broadcast : value c.broadcast = c.broadcastValue := by
  have hones := Plain.ones_le hc
  have hpos : 0 < c.size := Nat.two_pow_pos _
  have hmask : c.network.mask = cidrMask c.ones 4 := by rw [Plain.network_eq hc]
  have hvalue := value_or_not_mask (Plain.length_network hc) (show c.ones ≤ 8 * 4 by omega)
  rw [Plain.value_network hc] at hvalue
  change _ = c.netValue / c.size * c.size + (c.size - 1) at hvalue
  rw [show c.netValue / c.size * c.size = c.netValue by
    rw [netValue, Nat.mul_div_cancel _ hpos]] at hvalue
  rw [broadcast, hmask, hvalue]
  rfl

theorem Plain.isBroadcast_iff {ip : IP} (hip : ip.length = 4) :
    isBroadcast ip c.network = true ↔ value ip = c.broadcastValue := by
  have hbc : isBroadcast ip c.network = equal ip c.broadcast := by
    simp [isBroadcast, broadcast, to4_of_length (Plain.length_network hc)]
  simp only [hbc, equal, hip, Plain.length_broadcast hc, if_true, decide_eq_true_eq]
  rw [← Plain.value_broadcast hc]
  exact ⟨congrArg value, value_injective (hip.trans (Plain.length_broadcast hc).symm)⟩

theorem Plain.length_firstHost : (firstHost c.network).length = 4 := by
  simpa [firstHost, to4_of_length (Plain.length_network hc)] using
    length_next (Plain.length_network hc)

theorem Plain.value_firstHost :
    value (firstHost c.network) = (c.netValue + 1) % 2 ^ 32 := by
  rw [firstHost, to4_of_length (Plain.length_network hc), Option.getD_some,
    value_next (Plain.length_network hc), Plain.value_network hc]

end Cidr

namespace Allocator

variable {a : Allocator} {c : Cidr}

section Walk

variable (hc : c.Plain) (hnet : a.network = c.network) {start : IP} (hlen : start.length = 4)

include hc hlen

/-- Below the broadcast address the walk goes up by one. -/
theorem value_next_below (hlt : value start < c.broadcastValue) :
    value (next start) = value start + 1 := by
  have hbc := Cidr.Plain.broadcastValue_lt hc
  rw [value_next hlen, Nat.mod_eq_of_lt (by omega)]

include hnet

/-- At the broadcast address it ends. -/
theorem scan_broadcast (n : ℕ) (heq : value start = c.broadcastValue) :
    a.scan (n + 1) start = some none := by
  have hin : contains a.network start = true := by
    rw [hnet, Cidr.Plain.contains_iff hc hlen, heq]
    exact ⟨Nat.le_add_right _ _, le_rfl⟩
  have hb : isBroadcast start a.network = true := by
    rw [hnet, Cidr.Plain.isBroadcast_iff hc hlen]
    exact heq
  simp [scan, hin, hb]

/-- One round at a host address. -/
theorem scan_below (n : ℕ) (hlo : c.netValue < value start)
    (hlt : value start < c.broadcastValue) :
    a.scan (n + 1) start =
      if text start ∉ a.used then some (some start) else a.scan n (next start) := by
  have hin : contains a.network start = true := by
    rw [hnet, Cidr.Plain.contains_iff hc hlen]
    exact ⟨hlo.le, hlt.le⟩
  have hb : isBroadcast start a.network = false := by
    rw [Bool.eq_false_iff, ne_eq, hnet, Cidr.Plain.isBroadcast_iff hc hlen]
    exact hlt.ne
  simp [scan, hin, hb]

/-- The walk from an address of the pool: enough rounds let it end, and it
ends at the first host address from there on that is not used, if any. -/
theorem scan_spec (n : ℕ) (hlo : c.netValue < value start)
    (hhi : value start ≤ c.broadcastValue) (hn : c.broadcastValue < value start + n) :
    (∃ ip, a.scan n start = some (some ip) ∧ c.Host ip ∧
        ∀ p, c.Host p → value start ≤ value p → value p < value ip → text p ∈ a.used) ∨
      a.scan n start = some none ∧
        ∀ p, c.Host p → value start ≤ value p → text p ∈ a.used := by
  induction n generalizing start with
  | zero => omega
  | succ n ih =>
      rcases hhi.eq_or_lt with hbc | hlt
      · refine .inr ⟨scan_broadcast hc hnet hlen n hbc, ?_⟩
        rintro p ⟨_, _, hp⟩ hge
        omega
      · rw [scan_below hc hnet hlen n hlo hlt]
        by_cases hused : text start ∈ a.used
        · rw [if_neg (not_not.mpr hused)]
          have hsucc := value_next_below hc hlen hlt
          -- an address between the start and its successor is the start itself
          have hfirst (p : IP) (hp : c.Host p) (hge : value start ≤ value p) :
              text p ∈ a.used ∨ value (next start) ≤ value p := by
            by_cases heq : value start = value p
            · left
              rwa [← value_injective (hlen.trans hp.1.symm) heq]
            · right
              omega
          rcases ih (length_next hlen) (by omega) (by omega) (by omega) with
            ⟨ip, hip, hhost, hbelow⟩ | ⟨hnone, hall⟩
          · left
            refine ⟨ip, hip, hhost, fun p hp hge hlt => ?_⟩
            rcases hfirst p hp hge with h | h
            · exact h
            · exact hbelow p hp h hlt
          · right
            refine ⟨hnone, fun p hp hge => ?_⟩
            rcases hfirst p hp hge with h | h
            · exact h
            · exact hall p hp h
        · rw [if_pos hused]
          refine .inl ⟨start, rfl, ⟨hlen, hlo, hlt⟩, fun p _ hge hlt => ?_⟩
          omega

end Walk

/-- From the first host on, the walk ends and meets every host address. -/
theorem scan_firstHost (hc : c.Plain) (hnet : a.network = c.network) :
    (∃ ip, a.scan rounds (firstHost a.network) = some (some ip) ∧ c.Host ip ∧
        ∀ p, c.Host p → value p < value ip → text p ∈ a.used) ∨
      a.scan rounds (firstHost a.network) = some none ∧ ∀ p, c.Host p → text p ∈ a.used := by
  have hlen := Cidr.Plain.length_firstHost hc
  have hval := Cidr.Plain.value_firstHost hc
  have hbc := Cidr.Plain.broadcastValue_lt hc
  by_cases hsize : c.size = 1
  · -- a single address: the first host lies outside, and there is no host
    right
    have hbn : c.broadcastValue = c.netValue := by simp [Cidr.broadcastValue, hsize]
    have hout : contains a.network (firstHost a.network) = false := by
      rw [hnet, Bool.eq_false_iff, ne_eq, Cidr.Plain.contains_iff hc hlen]
      omega
    refine ⟨by simp [scan, rounds, hout], ?_⟩
    rintro p ⟨_, h₁, h₂⟩
    omega
  · have hpos : 0 < c.size := Nat.two_pow_pos _
    have hfirst : value (firstHost c.network) = c.netValue + 1 := by
      rw [hval, Nat.mod_eq_of_lt]
      simp only [Cidr.broadcastValue] at hbc
      omega
    have hspec := scan_spec (a := a) hc hnet hlen rounds (by omega)
      (by simp only [Cidr.broadcastValue]; omega) (by simp only [rounds]; omega)
    rw [hnet]
    rcases hspec with ⟨ip, hip, hhost, hbelow⟩ | ⟨hnone, hall⟩
    · left
      refine ⟨ip, hip, hhost, fun p hp hlt => hbelow p hp ?_ hlt⟩
      obtain ⟨_, h, _⟩ := hp
      omega
    · right
      refine ⟨hnone, fun p hp => hall p hp ?_⟩
      obtain ⟨_, h, _⟩ := hp
      omega

/-- `Allocate` would hand out the least host address that is not used. -/
theorem free_least (hc : c.Plain) (hnet : a.network = c.network) {ip : IP}
    (h : a.free = some ip) :
    c.Host ip ∧ ∀ p, c.Host p → text p ∉ a.used → value ip ≤ value p := by
  rcases scan_firstHost hc hnet with ⟨q, hq, hhost, hbelow⟩ | ⟨hnone, _⟩
  · simp only [free, hq, Option.join_some, Option.some.injEq] at h
    subst h
    refine ⟨hhost, fun p hp hfree => ?_⟩
    by_contra hlt
    exact hfree (hbelow p hp (not_le.mp hlt))
  · simp [free, hnone] at h

theorem free_host (hc : c.Plain) (hnet : a.network = c.network) {ip : IP}
    (h : a.free = some ip) : c.Host ip := (free_least hc hnet h).1

theorem used_of_exhausted (hc : c.Plain) (hnet : a.network = c.network) (h : a.free = none)
    {p : IP} (hp : c.Host p) : text p ∈ a.used := by
  rcases scan_firstHost hc hnet with ⟨q, hq, -, -⟩ | ⟨-, hall⟩
  · simp [free, hq] at h
  · exact hall p hp

/-- The numbers of the host addresses that are not used. -/
def vacant (a : Allocator) (c : Cidr) : Finset ℕ :=
  (Finset.Ioo c.netValue c.broadcastValue).filter fun v => text (bytes 4 v) ∉ a.used

theorem mem_vacant (hc : c.Plain) {v : ℕ} :
    v ∈ a.vacant c ↔ ∃ ip, c.Host ip ∧ text ip ∉ a.used ∧ value ip = v := by
  simp only [vacant, Finset.mem_filter, Finset.mem_Ioo]
  constructor
  · rintro ⟨⟨hlo, hhi⟩, hfree⟩
    have hvalue : value (bytes 4 v) = v :=
      value_bytes (lt_trans hhi (Cidr.Plain.broadcastValue_lt hc))
    refine ⟨bytes 4 v, ⟨length_bytes 4 v, ?_, ?_⟩, hfree, hvalue⟩
    · rw [hvalue]; exact hlo
    · rw [hvalue]; exact hhi
  · rintro ⟨ip, ⟨hlen, hlo, hhi⟩, hfree, rfl⟩
    have hbytes : bytes 4 (value ip) = ip := by
      refine value_injective ((length_bytes 4 _).trans hlen.symm) (value_bytes ?_)
      exact lt_trans hhi (Cidr.Plain.broadcastValue_lt hc)
    rw [hbytes]
    exact ⟨⟨hlo, hhi⟩, hfree⟩

theorem value_mem_vacant (hc : c.Plain) (hnet : a.network = c.network) {ip : IP}
    (hfree : a.free = some ip) : value ip ∈ a.vacant c :=
  (mem_vacant hc).mpr ⟨ip, free_host hc hnet hfree, free_not_used hfree, rfl⟩

/-- The pool is exhausted when no host address is left. -/
theorem free_eq_none_iff_vacant (hc : c.Plain) (hnet : a.network = c.network) :
    a.free = none ↔ a.vacant c = ∅ := by
  constructor
  · intro hfree
    refine Finset.eq_empty_iff_forall_notMem.mpr fun v hv => ?_
    obtain ⟨ip, hhost, hnot, -⟩ := (mem_vacant hc).mp hv
    exact hnot (used_of_exhausted hc hnet hfree hhost)
  · intro hempty
    cases hfree : a.free with
    | none => rfl
    | some ip =>
        exact absurd (hempty ▸ value_mem_vacant hc hnet hfree) (Finset.notMem_empty _)

theorem exists_free (hc : c.Plain) (hnet : a.network = c.network)
    (h : 0 < (a.vacant c).card) : ∃ ip, a.free = some ip := by
  rw [← Option.ne_none_iff_exists', Ne, free_eq_none_iff_vacant hc hnet]
  exact Finset.nonempty_iff_ne_empty.mp (Finset.card_pos.mp h)

/-- `Allocate` takes one of them away. -/
theorem vacant_insert (hc : c.Plain) (hnet : a.network = c.network) {ip : IP}
    (hfree : a.free = some ip) :
    ({ a with used := insert (text ip) a.used } : Allocator).vacant c =
      (a.vacant c).erase (value ip) := by
  have hhost := free_host hc hnet hfree
  ext v
  rw [Finset.mem_erase, mem_vacant hc, mem_vacant hc]
  constructor
  · rintro ⟨p, hp, hnot, rfl⟩
    rw [Finset.mem_insert, not_or] at hnot
    refine ⟨fun heq => hnot.1 ?_, p, hp, hnot.2, rfl⟩
    rw [value_injective (hp.1.trans hhost.1.symm) heq]
  · rintro ⟨hne, p, hp, hnot, rfl⟩
    refine ⟨p, hp, ?_, rfl⟩
    rw [Finset.mem_insert, not_or]
    exact ⟨fun heq => hne (congrArg value (text_injective hp.1 hhost.1 heq)), hnot⟩

theorem card_vacant_insert (hc : c.Plain) (hnet : a.network = c.network) {ip : IP}
    (hfree : a.free = some ip) :
    (({ a with used := insert (text ip) a.used } : Allocator).vacant c).card =
      (a.vacant c).card - 1 := by
  rw [vacant_insert hc hnet hfree, Finset.card_erase_of_mem (value_mem_vacant hc hnet hfree)]

/-- Where the walk has ended, more rounds change nothing. -/
theorem scan_add {n : ℕ} {start : IP} {r : Option IP} (h : a.scan n start = some r) (k : ℕ) :
    a.scan (n + k) start = some r := by
  induction n generalizing start with
  | zero => simp [scan] at h
  | succ n ih =>
      rw [Nat.succ_add]
      simp only [scan] at h ⊢
      split
      · rename_i hout
        rwa [if_pos hout] at h
      · rename_i hin
        rw [if_neg hin] at h
        split
        · rename_i hbc
          rwa [if_pos hbc] at h
        · rename_i hbc
          rw [if_neg hbc] at h
          split
          · rename_i hfree
            rwa [if_pos hfree] at h
          · rename_i hused
            rw [if_neg hused] at h
            exact ih h

/-- The walk of `Allocate` ends. -/
theorem scan_ends (hc : c.Plain) (hnet : a.network = c.network) :
    ∃ r, ∀ n, rounds ≤ n → a.scan n (firstHost a.network) = some r := by
  obtain ⟨r, hr⟩ : ∃ r, a.scan rounds (firstHost a.network) = some r := by
    rcases scan_firstHost hc hnet with ⟨ip, hip, -⟩ | ⟨hnone, -⟩
    · exact ⟨some ip, hip⟩
    · exact ⟨none, hnone⟩
  refine ⟨r, fun n hn => ?_⟩
  obtain ⟨k, rfl⟩ := Nat.exists_eq_add_of_le hn
  exact scan_add hr k

/-- In every plain pool and for every set of used addresses: the walk ends; an
address that is handed out is the least host address not used, and nothing else
becomes used; without one, every host address is used and nothing changes. Pools
of two addresses or one have no host address. -/
theorem allocate_exact (hc : c.Plain) (hnet : a.network = c.network) :
    (∃ r, ∀ n, rounds ≤ n → a.scan n (firstHost a.network) = some r) ∧
      (∀ ip a', a.allocate = (.ok ip, a') →
        c.Host ip ∧ text ip ∉ a.used ∧
          (∀ p, c.Host p → text p ∉ a.used → value ip ≤ value p) ∧
          a' = { a with used := insert (text ip) a.used } ∧
          ∀ p : IP, p.length = 4 → (text p ∈ a'.used ↔ text p ∈ a.used ∨ p = ip)) ∧
      (∀ msg a', a.allocate = (.error msg, a') →
        a' = a ∧ ∀ p, c.Host p → text p ∈ a.used) ∧
      (31 ≤ c.ones → ∀ p, ¬ c.Host p) := by
  refine ⟨scan_ends hc hnet, ?_, ?_, fun hones p => Cidr.not_host_of_le hones⟩
  · intro ip a' h
    cases hfree : a.free with
    | none =>
        rw [allocate_of_exhausted hfree] at h
        exact absurd (Prod.mk.inj h).1 (by simp)
    | some q =>
        rw [allocate_of_free hfree] at h
        obtain ⟨hq, rfl⟩ := Prod.mk.inj h
        obtain rfl := Except.ok.inj hq
        obtain ⟨hhost, hleast⟩ := free_least hc hnet hfree
        refine ⟨hhost, free_not_used hfree, hleast, rfl, fun p hp => ?_⟩
        rw [Finset.mem_insert, or_comm]
        exact or_congr_right ⟨text_injective hp hhost.1, congrArg text⟩
  · intro msg a' h
    cases hfree : a.free with
    | none =>
        rw [allocate_of_exhausted hfree] at h
        exact ⟨(Prod.mk.inj h).2.symm, fun p hp => used_of_exhausted hc hnet hfree hp⟩
    | some q =>
        rw [allocate_of_free hfree] at h
        exact absurd (Prod.mk.inj h).1 (by simp)

theorem next_host_allocated :
    let c : Cidr := ⟨[10, 80, 0, 0], 29, by decide⟩
    let a : Allocator := ⟨c.network, [10, 80, 0, 1], {"10.80.0.1"}⟩
    ∃ a', a.allocate = (.ok [10, 80, 0, 2], a') ∧ c.Host [10, 80, 0, 2] ∧
      ∀ p, c.Host p → text p ∉ a.used → value [10, 80, 0, 2] ≤ value p := by
  intro c a
  have halloc := allocate_of_free (show a.free = some [10, 80, 0, 2] by decide +kernel)
  obtain ⟨hhost, -, hleast, -⟩ := (allocate_exact (c := c) (a := a) rfl rfl).2.1 _ _ halloc
  exact ⟨_, halloc, hhost, hleast⟩

end Allocator

end Claimward.Ipam
