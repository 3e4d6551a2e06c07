import Mathlib.Data.Nat.Notation
import Mathlib.Tactic.Common
import Mathlib.Tactic.Ring

/-!
# Internet addresses as byte strings

An address is a string of 4 or 16 bytes, most significant first; an IPv4
address has two spellings, its 4 bytes and those bytes behind a fixed prefix
of 12. A network is an address with a mask of as many bytes. The operations
are those of Go's `net` package, with its conventions for the two spellings.

The second half reads an address as a number: its mask keeps the leading bits,
so belonging to a network is agreeing on a quotient by a power of two.
-/

namespace Inet

abbrev IP := List UInt8

abbrev IPMask := List UInt8

structure IPNet where
  ip : IP
  mask : IPMask
  deriving DecidableEq, Repr

/-- What precedes the 4 bytes of an IPv4 address spelt with 16. -/
def v4InV6Prefix : List UInt8 := [0, 0, 0, 0, 0, 0, 0, 0, 0, 0, 255, 255]

/-- The 4 bytes of an IPv4 address in either spelling. -/
def to4 (ip : IP) : Option IP :=
  if ip.length = 4 then some ip
  else if ip.length = 16 ∧ ip.take 12 = v4InV6Prefix then some (ip.drop 12)
  else none

/-- The mask of `len` bytes whose leading `ones` bits are set. -/
def cidrMask : ℕ → ℕ → IPMask
  | _, 0 => []
  | ones, len + 1 =>
      if 8 ≤ ones then 255 :: cidrMask (ones - 8) len
      else ~~~((255 : UInt8) >>> UInt8.ofNat ones) :: cidrMask 0 len

/-- The number of leading ones of a byte, and the byte shifted past them. -/
def leadingOnes : ℕ → UInt8 → ℕ × UInt8
  | 0, v => (0, v)
  | fuel + 1, v =>
      if v &&& 128 ≠ 0 then
        let rest := leadingOnes fuel (v <<< 1)
        (rest.1 + 1, rest.2)
      else (0, v)

/-- The length of a mask that is a run of ones followed by zeros. -/
def simpleMaskLength : IPMask → Option ℕ
  | [] => some 0
  | v :: rest =>
      if v = 255 then (· + 8) <$> simpleMaskLength rest
      else
        let ones := leadingOnes 8 v
        if ones.2 = 0 ∧ rest.all (· = 0) then some ones.1 else none

/-- The numbers of ones and of bits of a mask, both zero for a mask that is
not a run of ones followed by zeros. -/
def maskSize (m : IPMask) : ℕ × ℕ :=
  match simpleMaskLength m with
  | some ones => (ones, m.length * 8)
  | none => (0, 0)

/-- The bytes of an address that a mask keeps. -/
def applyMask (ip : IP) (m : IPMask) : List UInt8 := List.zipWith (· &&& ·) ip m

/-- The network's address and mask in the spelling used to compare. -/
def networkNumberAndMask (n : IPNet) : IP × IPMask :=
  match to4 n.ip with
  | some ip =>
      if n.mask.length = 4 then (ip, n.mask)
      else if n.mask.length = 16 then (ip, n.mask.drop 12)
      else ([], [])
  | none =>
      if n.ip.length = 16 ∧ n.mask.length = 16 then (n.ip, n.mask) else ([], [])

/-- Whether the network includes the address. -/
def contains (n : IPNet) (ip : IP) : Bool :=
  let nn := networkNumberAndMask n
  let ip := (to4 ip).getD ip
  ip.length = nn.1.length ∧ applyMask nn.1 nn.2 = applyMask ip nn.2

/-- Equality of addresses, whichever spelling each has. -/
def equal (a b : IP) : Bool :=
  if a.length = b.length then a = b
  else if a.length = 4 ∧ b.length = 16 then b.take 12 = v4InV6Prefix ∧ a = b.drop 12
  else if a.length = 16 ∧ b.length = 4 then a.take 12 = v4InV6Prefix ∧ a.drop 12 = b
  else false

/-! ## Texts -/

/-- The lower-case hexadecimal digits of a number. -/
def hexText (n : ℕ) : String := String.ofList (Nat.toDigits 16 n)

/-- The eight groups of a 16-byte address. -/
def groups : List UInt8 → List ℕ
  | a :: b :: rest => (a.toNat * 256 + b.toNat) :: groups rest
  | _ => []

/-- Start and length of the first longest run of zero groups, at least two. -/
def zeroRun (gs : List ℕ) : Option (ℕ × ℕ) :=
  (List.range gs.length).foldl (fun best i =>
    let len := ((gs.drop i).takeWhile (· = 0)).length
    if 2 ≤ len ∧ (best.map Prod.snd).getD 0 < len then some (i, len) else best) none

/-- The text of a 16-byte address that is not an IPv4 address. -/
def text16 (ip : IP) : String :=
  let gs := groups ip
  let join := fun part => ":".intercalate (part.map hexText)
  match zeroRun gs with
  | none => join gs
  | some (start, len) => join (gs.take start) ++ "::" ++ join (gs.drop (start + len))

/-- The text of an address: dotted decimal for IPv4 in either spelling. -/
def text (ip : IP) : String :=
  if ip.length = 0 then "<nil>"
  else match to4 ip with
    | some p4 => ".".intercalate (p4.map fun b => toString b.toNat)
    | none =>
        if ip.length = 16 then text16 ip
        else "?" ++ String.join (ip.map fun b =>
          hexText (b.toNat / 16) ++ hexText (b.toNat % 16))

theorem toList_text {ip : IP} (h : ip.length = 4) :
    (text ip).toList = ['.'].intercalate (ip.map fun b => (toString b.toNat).toList) := by
  simp [text, to4, h, Function.comp_def]

theorem dot_notMem_toString (n : ℕ) : '.' ∉ (toString n).toList := by
  intro h
  rw [Nat.toString_eq_repr, Nat.repr_eq_ofList_toDigits, String.toList_ofList] at h
  exact absurd (Nat.isDigit_of_mem_toDigits (by decide) (by decide) h) (by decide)

/-- The bytes of an IPv4 address can be read back from its text. -/
theorem splitOn_text {ip : IP} (h : ip.length = 4) :
    (text ip).toList.splitOn '.' = ip.map fun b => (toString b.toNat).toList := by
  rw [toList_text h]
  apply List.splitOn_intercalate
  · intro part hpart
    obtain ⟨b, -, rfl⟩ := List.mem_map.mp hpart
    exact dot_notMem_toString b.toNat
  · rintro hnil
    rw [List.map_eq_nil_iff] at hnil
    simp [hnil] at h

theorem text_injective {p q : IP} (hp : p.length = 4) (hq : q.length = 4)
    (h : text p = text q) : p = q := by
  have hbytes := splitOn_text hp
  rw [h, splitOn_text hq] at hbytes
  refine (List.map_inj_right ?_).mp hbytes.symm
  intro b b' hb
  have hdigits : Nat.toDigits 10 b.toNat = Nat.toDigits 10 b'.toNat := by
    simpa [Nat.toString_eq_repr, Nat.repr_eq_ofList_toDigits] using hb
  have hvalue := congrArg (fun ds => Nat.ofDigitChars 10 ds 0) hdigits
  simp only [Nat.ofDigitChars_toDigits (by decide : 1 < 10) (le_refl 10)] at hvalue
  exact UInt8.toNat_inj.mp hvalue

/-- The text of a network, its address followed by the length of its mask. -/
def netText (n : IPNet) : String :=
  let nn := networkNumberAndMask n
  if nn.1.length = 0 then "<nil>"
  else match simpleMaskLength nn.2 with
    | some ones => text nn.1 ++ "/" ++ toString ones
    | none =>
        text nn.1 ++ "/" ++ String.join (nn.2.map fun b =>
          hexText (b.toNat / 16) ++ hexText (b.toNat % 16))

example : text [10, 80, 0, 2] = "10.80.0.2" ∧
    text (v4InV6Prefix ++ [10, 80, 0, 2]) = "10.80.0.2" ∧
    text [32, 1, 13, 184, 0, 0, 0, 0, 0, 0, 0, 0, 0, 0, 0, 1] = "2001:db8::1" ∧
    netText ⟨[10, 80, 0, 0], [255, 255, 255, 0]⟩ = "10.80.0.0/24" := by decide +kernel

end Inet
