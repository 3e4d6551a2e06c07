import Claimward.Ipam.HostRange
import Claimward.Library.Runs

/-!
# The two spellings of a pool

`New` accepts `::ffff:a.b.c.d/(96+n)` for `a.b.c.d/n`. The network is then kept
with 16 bytes. `Contains` and the text of the network read the last four bytes
of the mask, but `isBroadcast` reads its first four, which are ones, and so
looks for the network address. The walk of `Allocate` therefore goes one
address further: `scan_mapped` says where it ends, and `mapped_answers` which
sequences of calls can tell the two allocators apart.
-/

namespace Claimward.Ipam

open Inet

/-- The calls of an allocator and what they answer. -/
inductive PoolOp where
  | allocate
  | reserve (ip : IP)
  | release (ip : IP)
  deriving DecidableEq, Repr

inductive PoolAnswer where
  | allocated (result : Except String IP)
  | reserved (taken : Bool)
  | released
  deriving DecidableEq

def Allocator.perform (a : Allocator) : PoolOp → PoolAnswer × Allocator
  | .allocate => (.allocated a.allocate.1, a.allocate.2)
  | .reserve ip => (.reserved (a.reserve ip).1, (a.reserve ip).2)
  | .release ip => (.released, a.release ip)

def Allocator.answers (a : Allocator) (ops : List PoolOp) : List PoolAnswer :=
  Runs.answers Allocator.perform a ops

theorem to4_mapped {ip : IP} (h : ip.length = 4) : to4 (v4InV6Prefix ++ ip) = some ip := by
  have hlen : (v4InV6Prefix ++ ip).length = 16 := by simp [v4InV6Prefix, h]
  have htake : (v4InV6Prefix ++ ip).take 12 = v4InV6Prefix := by simp [v4InV6Prefix]
  have hdrop : (v4InV6Prefix ++ ip).drop 12 = ip := by simp [v4InV6Prefix]
  rw [to4, if_neg (by omega), if_pos ⟨hlen, htake⟩, hdrop]

namespace Cidr

/-- The spelling of a plain pool with 16 bytes. -/
def mapped (c : Cidr) (hc : c.Plain) : Cidr where
  addr := v4InV6Prefix ++ c.addr
  ones := 96 + c.ones
  valid := by
    have hlen : (v4InV6Prefix ++ c.addr).length = 16 := by
      rw [List.length_append, show c.addr.length = 4 from hc]
      rfl
    exact .inr ⟨hlen, Nat.add_le_add_left hc.ones_le 96⟩

variable {c : Cidr} (hc : c.Plain)

theorem network_mapped :
    (c.mapped hc).network =
      ⟨v4InV6Prefix ++ c.network.ip, List.replicate 12 255 ++ c.network.mask⟩ := by
  have hlen : (v4InV6Prefix ++ c.addr).length = 4 + 12 := by
    rw [List.length_append, show c.addr.length = 4 from hc]
    rfl
  have hmask : cidrMask (96 + c.ones) (4 + 12) = List.replicate 12 255 ++ cidrMask c.ones 4 :=
    cidrMask_add 12 c.ones 4
  simp only [network, mapped, hlen, hmask, show c.addr.length = 4 from hc]
  rw [show (12 : ℕ) = v4InV6Prefix.length from rfl, applyMask_append_ones]

theorem length_mask_network : c.network.mask.length = c.addr.length := by
  simp [network, length_cidrMask]

theorem to4_network_mapped : to4 (c.mapped hc).network.ip = some c.network.ip := by
  rw [network_mapped hc]
  exact to4_mapped (Plain.length_network hc)

/-- Where addresses are compared with the network, the spelling is gone. -/
theorem networkNumberAndMask_mapped :
    networkNumberAndMask (c.mapped hc).network = networkNumberAndMask c.network := by
  have hmask : c.network.mask.length = 4 := length_mask_network.trans hc
  have hlen : (List.replicate 12 (255 : UInt8) ++ c.network.mask).length = 16 := by simp [hmask]
  have hdrop : (List.replicate 12 (255 : UInt8) ++ c.network.mask).drop 12 = c.network.mask :=
    List.drop_left' (by simp)
  simp only [networkNumberAndMask, to4_network_mapped hc, to4_of_length (Plain.length_network hc),
    hmask, if_true]
  simp only [network_mapped hc, hlen, hdrop, Nat.reduceEqDiff, if_false, if_true]

theorem contains_mapped (ip : IP) :
    contains (c.mapped hc).network ip = contains c.network ip := by
  simp only [contains, networkNumberAndMask_mapped hc]

theorem netText_mapped : netText (c.mapped hc).network = netText c.network := by
  simp only [netText, networkNumberAndMask_mapped hc]

theorem firstHost_mapped : firstHost (c.mapped hc).network = firstHost c.network := by
  simp only [firstHost, to4_network_mapped hc, to4_of_length (Plain.length_network hc)]

/-- What the mapped spelling takes for the broadcast address is the address of
the network. -/
theorem isBroadcast_mapped_iff {ip : IP} (hip : ip.length = 4) :
    isBroadcast ip (c.mapped hc).network = true ↔ value ip = c.netValue := by
  have hnet := Plain.length_network hc
  have hones : List.zipWith (fun b m => b ||| ~~~m) c.network.ip
      (List.replicate 12 255 ++ c.network.mask) = c.network.ip := by
    rw [show List.replicate 12 (255 : UInt8) ++ c.network.mask =
      List.replicate c.network.ip.length 255 ++ (List.replicate 8 255 ++ c.network.mask) by
        rw [hnet]; rfl]
    exact or_not_ones _ _
  have hmask : (c.mapped hc).network.mask = List.replicate 12 255 ++ c.network.mask := by
    rw [network_mapped hc]
  simp only [isBroadcast, to4_network_mapped hc, Option.getD_some, hmask, hones, equal, hip, hnet,
    if_true, decide_eq_true_eq]
  rw [← Plain.value_network hc]
  exact ⟨congrArg value, value_injective (hip.trans hnet.symm)⟩

end Cidr

namespace Allocator

/-- Two allocators of one pool, the second in the mapped spelling, that have
the same addresses in use. -/
structure Mirrors (c : Cidr) (hc : c.Plain) (a b : Allocator) : Prop where
  plain : a.network = c.network
  mapped : b.network = (c.mapped hc).network
  used : b.used = a.used

variable {c : Cidr} {hc : c.Plain} {a b : Allocator}

/-- Past the broadcast address the walk in the mapped spelling ends as well: it
is outside the pool or, in `0.0.0.0/0`, back at the network address. -/
theorem Mirrors.scan_past (h : Mirrors c hc a b) (n : ℕ) {start : IP} (hlen : start.length = 4)
    (hstart : value start = c.broadcastValue) : b.scan (n + 1) (next start) = some none := by
  have hnext := value_next hlen
  have hbc := Cidr.Plain.broadcastValue_lt hc
  simp only [scan, h.mapped, Cidr.contains_mapped]
  by_cases hin : contains c.network (next start) = true
  · have hrange := (Cidr.Plain.contains_iff hc (length_next hlen)).mp hin
    have hnet : value (next start) = c.netValue := by
      by_cases hwrap : c.broadcastValue + 1 = 2 ^ 32
      · rw [hnext, hstart, hwrap, Nat.mod_self]
        rw [hnext, hstart, hwrap, Nat.mod_self] at hrange
        omega
      · rw [hnext, hstart, Nat.mod_eq_of_lt (by omega)] at hrange
        omega
    rw [hin, (Cidr.isBroadcast_mapped_iff hc (length_next hlen)).mpr hnet]
    rfl
  · simp [Bool.eq_false_iff.mpr hin]

/-- From an address of the pool on, the walk in the mapped spelling ends where
the plain one does or, if that finds nothing, at the broadcast address. -/
theorem Mirrors.scan_mapped (h : Mirrors c hc a b) (n : ℕ) {start : IP}
    (hlen : start.length = 4) (hlo : c.netValue < value start)
    (hhi : value start ≤ c.broadcastValue) (hn : c.broadcastValue < value start + n) :
    b.scan (n + 1) start = (a.scan n start).map fun r =>
      r.or (if text c.broadcast ∈ a.used then none else some c.broadcast) := by
  induction n generalizing start with
  | zero => omega
  | succ n ih =>
      have hin : contains c.network start = true :=
        (Cidr.Plain.contains_iff hc hlen).mpr ⟨hlo.le, hhi⟩
      have hnot : isBroadcast start (c.mapped hc).network = false := by
        rw [Bool.eq_false_iff, ne_eq, Cidr.isBroadcast_mapped_iff hc hlen]
        omega
      have hmapped : b.scan (n + 2) start =
          if text start ∉ a.used then some (some start) else b.scan (n + 1) (next start) := by
        simp [scan, h.mapped, h.used, Cidr.contains_mapped, hin, hnot]
      rw [hmapped]
      rcases hhi.eq_or_lt with hbc | hlt
      · have hstart : start = c.broadcast :=
          value_injective (hlen.trans (Cidr.Plain.length_broadcast hc).symm)
            (hbc.trans (Cidr.Plain.value_broadcast hc).symm)
        rw [scan_broadcast hc h.plain hlen n hbc, h.scan_past n hlen hbc, ← hstart]
        by_cases hused : text start ∈ a.used
        · simp [hused]
        · simp [hused]
      · rw [scan_below hc h.plain hlen n hlo hlt]
        by_cases hused : text start ∈ a.used
        · have hsucc := value_next_below hc hlen hlt
          simp only [hused, not_true, if_false]
          exact ih (length_next hlen) (by omega) (by omega) (by omega)
        · simp [hused]

/-- In a pool of one address neither spelling has anything to hand out. -/
theorem Mirrors.free_single (h : Mirrors c hc a b) (hones : c.ones = 32) :
    a.free = none ∧ b.free = none := by
  have hsize : c.size = 1 := by simp [Cidr.size, hones]
  have hbn : c.broadcastValue = c.netValue := by simp [Cidr.broadcastValue, hsize]
  have hbc := Cidr.Plain.broadcastValue_lt hc
  have hout : contains c.network (firstHost c.network) = false := by
    rw [Bool.eq_false_iff, ne_eq,
      Cidr.Plain.contains_iff hc (Cidr.Plain.length_firstHost hc), Cidr.Plain.value_firstHost hc]
    omega
  constructor
  · simp [free, scan, rounds, h.plain, hout]
  · simp [free, scan, rounds, h.mapped, Cidr.contains_mapped, Cidr.firstHost_mapped, hout]

/-- In a larger pool the mapped spelling also has the broadcast address. -/
theorem Mirrors.free_mapped (h : Mirrors c hc a b) (hones : c.ones < 32) :
    b.free = a.free.or (if text c.broadcast ∈ a.used then none else some c.broadcast) := by
  have hsize : 2 ^ 1 ≤ c.size := Nat.pow_le_pow_right (by decide) (by omega)
  have hbc := Cidr.Plain.broadcastValue_lt hc
  have hlen := Cidr.Plain.length_firstHost hc
  have hvalue : value (firstHost c.network) = c.netValue + 1 := by
    rw [Cidr.Plain.value_firstHost hc, Nat.mod_eq_of_lt]
    simp only [Cidr.broadcastValue] at hbc
    omega
  have hhi : value (firstHost c.network) ≤ c.broadcastValue := by
    simp only [Cidr.broadcastValue]
    omega
  -- one round less is still enough for the plain walk
  have hwalk : ∃ r, a.scan (rounds - 1) (firstHost c.network) = some r := by
    rcases scan_spec hc h.plain hlen (rounds - 1) (by omega) hhi
      (by simp only [rounds]; omega) with ⟨ip, hip, -⟩ | ⟨hnone, -⟩
    · exact ⟨_, hip⟩
    · exact ⟨_, hnone⟩
  obtain ⟨r, hr⟩ := hwalk
  have hrounds : rounds = rounds - 1 + 1 := rfl
  have hplain : a.scan rounds (firstHost c.network) = some r := by
    rw [hrounds]
    exact scan_add hr 1
  have hmapped := h.scan_mapped (rounds - 1) hlen (by omega) hhi (by simp only [rounds]; omega)
  rw [hr, ← hrounds] at hmapped
  simp only [free, h.plain, h.mapped, Cidr.firstHost_mapped, hplain, hmapped, Option.map_some,
    Option.join_some]

/-- A call on which the spelling does not show: an `Allocate` for which some
host address is free, or the broadcast address is in use, or the pool is a
single address. -/
def Spared (c : Cidr) (a : Allocator) : PoolOp → Prop
  | .allocate => (∃ p, c.Host p ∧ text p ∉ a.used) ∨ text c.broadcast ∈ a.used ∨ c.ones = 32
  | _ => True

theorem Mirrors.free_eq (h : Mirrors c hc a b) (hspared : Spared c a .allocate) :
    b.free = a.free := by
  by_cases hones : c.ones = 32
  · obtain ⟨ha, hb⟩ := h.free_single hones
    rw [ha, hb]
  · rw [h.free_mapped (by have := Cidr.Plain.ones_le hc; omega)]
    rcases hspared with ⟨p, hp, hfree⟩ | hused | hsingle
    · cases ha : a.free with
      | none => exact absurd (used_of_exhausted hc h.plain ha hp) hfree
      | some ip => rfl
    · simp [hused]
    · exact absurd hsingle hones

theorem Mirrors.free_ne (h : Mirrors c hc a b) (hshown : ¬ Spared c a .allocate) :
    a.free = none ∧ b.free = some c.broadcast := by
  simp only [Spared, not_or, not_exists, not_and, not_not] at hshown
  obtain ⟨hall, hbroadcast, hones⟩ := hshown
  have ha : a.free = none := by
    cases hfree : a.free with
    | none => rfl
    | some ip => exact absurd (hall ip (free_host hc h.plain hfree)) (free_not_used hfree)
  refine ⟨ha, ?_⟩
  rw [h.free_mapped (by have := Cidr.Plain.ones_le hc; omega), ha]
  simp [hbroadcast]

theorem Mirrors.taken (h : Mirrors c hc a b) (t : String) :
    Mirrors c hc { a with used := insert t a.used } { b with used := insert t b.used } :=
  ⟨h.plain, h.mapped, congrArg (insert t) h.used⟩

theorem Mirrors.released (h : Mirrors c hc a b) (ip : IP) :
    Mirrors c hc (a.release ip) (b.release ip) :=
  ⟨h.plain, h.mapped, congrArg (fun used => used.erase (text ip)) h.used⟩

theorem Mirrors.allocate (h : Mirrors c hc a b) (hfree : b.free = a.free) :
    a.allocate.1 = b.allocate.1 ∧ Mirrors c hc a.allocate.2 b.allocate.2 := by
  cases ha : a.free with
  | none =>
      rw [allocate_of_exhausted ha, allocate_of_exhausted (hfree.trans ha), h.plain, h.mapped,
        Cidr.netText_mapped]
      exact ⟨rfl, h⟩
  | some ip =>
      rw [allocate_of_free ha, allocate_of_free (hfree.trans ha)]
      exact ⟨rfl, h.taken (text ip)⟩

theorem Mirrors.reserve (h : Mirrors c hc a b) (ip : IP) :
    (a.reserve ip).1 = (b.reserve ip).1 ∧ Mirrors c hc (a.reserve ip).2 (b.reserve ip).2 := by
  have hin : contains b.network ip = contains a.network ip := by
    rw [h.plain, h.mapped, Cidr.contains_mapped]
  unfold Allocator.reserve
  rw [hin, h.used]
  split
  · exact ⟨rfl, h⟩
  · split
    · exact ⟨rfl, h⟩
    · exact ⟨rfl, h.used ▸ h.taken (text ip)⟩

theorem Mirrors.perform_spared (h : Mirrors c hc a b) {op : PoolOp} (hspared : Spared c a op) :
    (a.perform op).1 = (b.perform op).1 ∧ Mirrors c hc (a.perform op).2 (b.perform op).2 := by
  cases op with
  | allocate =>
      obtain ⟨hanswer, hnext⟩ := h.allocate (h.free_eq hspared)
      exact ⟨congrArg PoolAnswer.allocated hanswer, hnext⟩
  | reserve ip =>
      obtain ⟨hanswer, hnext⟩ := h.reserve ip
      exact ⟨congrArg PoolAnswer.reserved hanswer, hnext⟩
  | release ip => exact ⟨rfl, h.released ip⟩

theorem Mirrors.perform_shown (h : Mirrors c hc a b) {op : PoolOp} (hshown : ¬ Spared c a op) :
    (a.perform op).1 ≠ (b.perform op).1 := by
  cases op with
  | allocate =>
      obtain ⟨ha, hb⟩ := h.free_ne hshown
      simp [perform, allocate_of_exhausted ha, allocate_of_free hb]
  | reserve ip => exact absurd trivial hshown
  | release ip => exact absurd trivial hshown

theorem perform_network (op : PoolOp) : (a.perform op).2.network = a.network := by
  cases op with
  | allocate => simp only [perform, allocate]; split <;> rfl
  | reserve ip => simp only [perform, reserve]; split <;> [rfl; (split <;> rfl)]
  | release ip => rfl

/-- A plain pool answers with host addresses only. -/
theorem host_of_answered (hc : c.Plain) (hnet : a.network = c.network) {ops : List PoolOp}
    {ip : IP} (h : .allocated (.ok ip) ∈ a.answers ops) : c.Host ip := by
  induction ops generalizing a with
  | nil => simp [answers, Runs.answers] at h
  | cons op ops ih =>
      simp only [answers, Runs.answers, List.mem_cons] at h
      rcases h with h | h
      · cases op with
        | allocate =>
            cases hfree : a.free with
            | none => simp [perform, allocate_of_exhausted hfree] at h
            | some q =>
                simp only [perform, allocate_of_free hfree, PoolAnswer.allocated.injEq,
                  Except.ok.injEq] at h
                exact h ▸ free_host hc hnet hfree
        | reserve q => simp [perform] at h
        | release q => simp [perform] at h
      · exact ih ((perform_network op).trans hnet) h

theorem new_plain (hc : c.Plain) :
    new c = .ok ⟨c.network, firstHost c.network, {text (firstHost c.network)}⟩ := by
  simp [new, to4_of_length hc]

theorem new_mapped (hc : c.Plain) :
    new (c.mapped hc) =
      .ok ⟨(c.mapped hc).network, firstHost c.network, {text (firstHost c.network)}⟩ := by
  have hto4 : to4 (c.mapped hc).addr = some c.addr := to4_mapped hc
  simp [new, hto4, Cidr.firstHost_mapped]

/-- For every plain pool: `New` accepts both spellings and gives both the same
gateway address; a sequence of calls gets the same answers from both exactly
when the spelling shows on none of its calls; and along such a sequence the
mapped spelling hands out host addresses only. -/
theorem mapped_answers (c : Cidr) (hc : c.Plain) :
    ∃ a b, new c = .ok a ∧ new (c.mapped hc) = .ok b ∧ b.serverIP = a.serverIP ∧
      ∀ ops, (b.answers ops = a.answers ops ↔
          Runs.Admissible (fun a op => (a.perform op).2) (Spared c) a ops) ∧
        (Runs.Admissible (fun a op => (a.perform op).2) (Spared c) a ops →
          ∀ ip, .allocated (.ok ip) ∈ b.answers ops → c.Host ip ∧ ip ≠ c.broadcast) := by
  refine ⟨_, _, new_plain hc, new_mapped hc, rfl, fun ops => ?_⟩
  have hmirrors : Mirrors c hc ⟨c.network, firstHost c.network, {text (firstHost c.network)}⟩
      ⟨(c.mapped hc).network, firstHost c.network, {text (firstHost c.network)}⟩ :=
    ⟨rfl, rfl, rfl⟩
  have hiff := Runs.answers_eq_iff (f := perform) (g := perform) (Mirrors c hc)
    (fun _ _ _ h => h.perform_spared) (fun _ _ _ h => h.perform_shown) hmirrors ops
  refine ⟨eq_comm.trans hiff, fun hspared ip hip => ?_⟩
  rw [answers, ← hiff.mpr hspared] at hip
  have hhost := host_of_answered hc rfl hip
  refine ⟨hhost, ?_⟩
  rintro rfl
  exact absurd (Cidr.Plain.value_broadcast hc) hhost.2.2.ne

/-- In `::ffff:10.0.0.0/126` the second address handed out is the broadcast
address, where `10.0.0.0/30` is exhausted. -/
theorem mapped_hands_out_broadcast :
    let c : Cidr := ⟨[10, 0, 0, 0], 30, by decide⟩
    ∃ a b, new c = .ok a ∧ new (c.mapped rfl) = .ok b ∧
      a.answers [.allocate, .allocate] = [.allocated (.ok [10, 0, 0, 2]),
        .allocated (.error "address pool 10.0.0.0/30 exhausted")] ∧
      b.answers [.allocate, .allocate] = [.allocated (.ok [10, 0, 0, 2]),
        .allocated (.ok [10, 0, 0, 3])] ∧
      c.broadcast = [10, 0, 0, 3] := by
  refine ⟨_, _, rfl, rfl, ?_⟩
  decide +kernel

theorem mapped_answers_in_a_larger_pool :
    let c : Cidr := ⟨[10, 0, 0, 0], 29, by decide⟩
    ∃ a b, new c = .ok a ∧ new (c.mapped rfl) = .ok b ∧
      b.answers [.allocate, .release [10, 0, 0, 2], .allocate] =
        a.answers [.allocate, .release [10, 0, 0, 2], .allocate] := by
  intro c
  obtain ⟨a, b, ha, hb, -, hruns⟩ := mapped_answers c rfl
  refine ⟨a, b, ha, hb, (hruns _).1.mpr ?_⟩
  obtain rfl := Except.ok.inj ((new_plain (c := c) rfl).symm.trans ha)
  have hhost : c.Host [10, 0, 0, 5] := ⟨rfl, by decide +kernel, by decide +kernel⟩
  exact ⟨.inl ⟨_, hhost, by decide +kernel⟩, trivial, .inl ⟨_, hhost, by decide +kernel⟩, trivial⟩

end Allocator

end Claimward.Ipam
