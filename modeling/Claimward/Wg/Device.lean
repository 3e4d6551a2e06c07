import Claimward.Ipam.Allocator
import Claimward.Library.Table
import Claimward.Wg.Key

/-!
# The WireGuard device

One peer for each key, each with its allowed IPs. Giving an allowed IP to a
peer takes it away from any other peer that had it. `addPeer` and `removePeer`
are the configurations that `internal/wg` sends.
-/

namespace Claimward.Wg

open Inet

abbrev Device := Table Key (List IPNet)

/-- The `/32` of an address, the only allowed IP `AddPeer` gives a peer. -/
def hostNet (ip : IP) : IPNet := ⟨ip, cidrMask 32 4⟩

namespace Device

/-- Take an allowed IP away from every peer. -/
def withdraw (d : Device) (net : IPNet) : Device := Table.mapValues (·.filter (· ≠ net)) d

def addPeer (d : Device) (pub : Key) (ip : IP) : Device :=
  (d.withdraw (hostNet ip)).insert pub [hostNet ip]

def removePeer (d : Device) (pub : Key) : Device := d.erase pub

variable {d : Device} {pub k : Key} {ip : IP}

theorem lookup_addPeer : (d.addPeer pub ip).lookup k =
    if k = pub then some [hostNet ip]
    else (d.lookup k).map (·.filter (· ≠ hostNet ip)) := by
  rw [addPeer, Table.lookup_insert_eq, withdraw, Table.lookup_mapValues]

theorem lookup_removePeer :
    (d.removePeer pub).lookup k = if k = pub then none else d.lookup k :=
  Table.lookup_erase_eq _ _ _

/-- A peer that does not hold the address keeps what it has when another peer
is given that address. -/
theorem lookup_addPeer_of_not_mem {nets : List IPNet} (hk : k ≠ pub)
    (hd : d.lookup k = some nets) (hnet : hostNet ip ∉ nets) :
    (d.addPeer pub ip).lookup k = some nets := by
  rw [lookup_addPeer, if_neg hk, hd, Option.map_some, Option.some.injEq, List.filter_eq_self]
  intro n hn
  simp only [decide_eq_true_eq]
  rintro rfl
  exact hnet hn

end Device

/-- A peer as the device lists it. -/
structure Peer where
  publicKey : Key
  allowedIPs : List IPNet
  deriving DecidableEq, Repr

def Device.peers (d : Device) : List Peer := d.entries.map fun e => ⟨e.1, e.2⟩

theorem Device.mem_peers {d : Device} {p : Peer} :
    p ∈ d.peers ↔ d.lookup p.publicKey = some p.allowedIPs := by
  rw [peers, List.mem_map, ← Option.mem_def, AList.mem_lookup_iff]
  constructor
  · rintro ⟨⟨k, nets⟩, hmem, rfl⟩
    exact hmem
  · intro h
    exact ⟨⟨p.publicKey, p.allowedIPs⟩, h, rfl⟩

/-- Configure a peer with its allowed IPs, taking each of them away from any other
peer. -/
def Device.configure (d : Device) (p : Peer) : Device :=
  (p.allowedIPs.foldl withdraw d).insert p.publicKey p.allowedIPs

/-- Two peers that share neither the key nor an allowed IP. -/
def Peer.Apart (p q : Peer) : Prop :=
  p.publicKey ≠ q.publicKey ∧ List.Disjoint p.allowedIPs q.allowedIPs

theorem Device.lookup_foldl_withdraw {d : Device} {nets : List IPNet} {k : Key} :
    (nets.foldl withdraw d).lookup k = (d.lookup k).map (·.filter (· ∉ nets)) := by
  induction nets generalizing d with
  | nil => simp
  | cons net nets ih =>
      rw [List.foldl_cons, ih, withdraw, Table.lookup_mapValues, Option.map_map]
      congr 1
      funext old
      rw [Function.comp_apply, List.filter_filter]
      congr 1
      funext n
      simp [Bool.and_comm]

/-- A peer apart from those on the device is added to them. -/
theorem Device.mem_peers_configure {d : Device} {p q : Peer} (h : ∀ q ∈ d.peers, q.Apart p) :
    q ∈ (d.configure p).peers ↔ q ∈ d.peers ∨ q = p := by
  rw [mem_peers, configure, Table.lookup_insert_eq, lookup_foldl_withdraw]
  split
  · rename_i hkey
    have hnot : q ∉ d.peers := fun hq => (h q hq).1 hkey
    simp only [hnot, false_or, Option.some.injEq]
    constructor
    · intro hnets
      obtain ⟨k, nets⟩ := q
      obtain ⟨k', nets'⟩ := p
      obtain rfl : k = k' := hkey
      obtain rfl : nets' = nets := hnets
      rfl
    · rintro rfl
      rfl
  · rename_i hkey
    have hne : q ≠ p := fun heq => hkey (congrArg Peer.publicKey heq)
    simp only [hne, or_false, mem_peers]
    cases hold : d.lookup q.publicKey with
    | none => simp
    | some old =>
        have hapart := h ⟨q.publicKey, old⟩ (mem_peers.mpr hold)
        have hkept : old.filter (· ∉ p.allowedIPs) = old := by
          rw [List.filter_eq_self]
          intro n hn
          exact decide_eq_true (hapart.2 hn)
        rw [Option.map_some, hkept]

theorem Device.mem_peers_foldl_configure {d : Device} {ps : List Peer} {q : Peer}
    (hps : ps.Pairwise Peer.Apart) (h : ∀ p ∈ ps, ∀ q ∈ d.peers, q.Apart p) :
    q ∈ (ps.foldl configure d).peers ↔ q ∈ d.peers ∨ q ∈ ps := by
  induction ps generalizing d with
  | nil => simp
  | cons p ps ih =>
      obtain ⟨hp, hps⟩ := List.pairwise_cons.mp hps
      obtain ⟨hd, hrest⟩ := List.forall_mem_cons.mp h
      rw [List.foldl_cons, ih hps, mem_peers_configure hd, List.mem_cons, or_assoc]
      intro p' hp' q hq
      rcases (mem_peers_configure hd).mp hq with hold | rfl
      · exact hrest p' hp' q hold
      · exact hp p' hp'

/-- Whether a peer has the shape `AddPeer` gives every peer: one allowed IP,
a `/32` inside the pool. -/
def ours (allowedIPs : List IPNet) (pool : IPNet) : Bool :=
  match allowedIPs with
  | [a] =>
      let size := maskSize a.mask
      size.2 = 32 && size.1 = 32 && contains pool a.ip
  | _ => false

end Claimward.Wg
