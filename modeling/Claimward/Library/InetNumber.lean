import Claimward.Library.Inet
import Mathlib.Algebra.Order.Ring.Nat
import Mathlib.Tactic.GCongr
import Mathlib.Tactic.Linarith

/-!
# Addresses as numbers

A byte string is read as a number, most significant byte first. Keeping the
leading bits is then rounding down to a multiple of a power of two, and
setting the bits outside the mask is rounding up to one less than the next
multiple. Both are proved for byte strings of any length.
-/

namespace Inet

/-- The number a byte string spells. -/
def value : List UInt8 → ℕ
  | [] => 0
  | b :: bs => b.toNat * 256 ^ bs.length + value bs

theorem value_lt (bs : List UInt8) : value bs < 256 ^ bs.length := by
  induction bs with
  | nil => simp [value]
  | cons b bs ih =>
      have hb : b.toNat ≤ 255 := Nat.le_of_lt_succ b.toNat_lt
      calc
        value (b :: bs) < b.toNat * 256 ^ bs.length + 256 ^ bs.length := by
          simpa [value] using ih
        _ ≤ 255 * 256 ^ bs.length + 256 ^ bs.length := by gcongr
        _ = 256 ^ (b :: bs).length := by rw [List.length_cons, pow_succ]; ring

theorem value_injective {a b : List UInt8} (hlen : a.length = b.length)
    (h : value a = value b) : a = b := by
  induction a generalizing b with
  | nil => exact (List.length_eq_zero_iff.mp hlen.symm).symm
  | cons x xs ih =>
      obtain ⟨y, ys, rfl⟩ := List.exists_cons_of_length_pos (l := b) (by simp [← hlen])
      have htail : xs.length = ys.length := by simpa using hlen
      have hx := value_lt xs
      have hy := value_lt ys
      rw [htail] at hx
      simp only [value, htail] at h
      have hhead : x.toNat = y.toNat := by
        have hdiv := congrArg (· / 256 ^ ys.length) h
        simpa [Nat.mul_add_div, Nat.div_eq_of_lt hx, Nat.div_eq_of_lt hy,
          Nat.mul_comm _ (256 ^ ys.length)] using hdiv
      have hrest : value xs = value ys := by rw [hhead] at h; omega
      rw [UInt8.toNat_inj.mp hhead, ih htail hrest]

/-- The bytes of a number, so many of them. -/
def bytes : ℕ → ℕ → List UInt8
  | 0, _ => []
  | n + 1, v => UInt8.ofNat (v / 256 ^ n) :: bytes n (v % 256 ^ n)

theorem length_bytes (n v : ℕ) : (bytes n v).length = n := by
  induction n generalizing v with
  | zero => rfl
  | succ n ih => rw [bytes, List.length_cons, ih]

/-- Every number that fits is that of its bytes. -/
theorem value_bytes {n v : ℕ} (h : v < 256 ^ n) : value (bytes n v) = v := by
  induction n generalizing v with
  | zero => exact (Nat.lt_one_iff.mp h).symm
  | succ n ih =>
      have hpos : 0 < 256 ^ n := Nat.pow_pos (by decide)
      have hfirst : v / 256 ^ n < 256 := by
        rw [Nat.div_lt_iff_lt_mul hpos]
        rwa [pow_succ, Nat.mul_comm] at h
      rw [bytes, value, length_bytes, ih (Nat.mod_lt v hpos), UInt8.toNat_ofNat_of_lt' hfirst]
      exact Nat.div_add_mod' v (256 ^ n)

theorem length_cidrMask (ones len : ℕ) : (cidrMask ones len).length = len := by
  induction len generalizing ones with
  | zero => rfl
  | succ len ih => simp only [cidrMask]; split <;> simp [ih]

/-- Whole bytes of ones in front of a mask. -/
theorem cidrMask_add (k ones len : ℕ) :
    cidrMask (8 * k + ones) (len + k) = List.replicate k 255 ++ cidrMask ones len := by
  induction k with
  | zero => simp
  | succ k ih =>
      rw [← Nat.add_assoc, cidrMask, if_pos (by omega),
        show 8 * (k + 1) + ones - 8 = 8 * k + ones by omega, ih]
      rfl

theorem length_applyMask {ip : IP} {m : IPMask} (h : ip.length = m.length) :
    (applyMask ip m).length = ip.length := by simp [applyMask, h]

private theorem byte_and_mask : ∀ ones < 8, ∀ x < 256,
    (UInt8.ofNat x &&& ~~~((255 : UInt8) >>> UInt8.ofNat ones)).toNat =
      x / 2 ^ (8 - ones) * 2 ^ (8 - ones) := by decide +kernel

private theorem byte_or_not_mask : ∀ ones < 8, ∀ x < 256,
    (UInt8.ofNat x ||| ~~~(~~~((255 : UInt8) >>> UInt8.ofNat ones))).toNat =
      x / 2 ^ (8 - ones) * 2 ^ (8 - ones) + (2 ^ (8 - ones) - 1) := by decide +kernel

private theorem byte_and_ones (x : UInt8) : x &&& 255 = x := by
  have h : (255 : UInt8) = -1 := by decide
  rw [h, UInt8.and_neg_one]

private theorem byte_or_not_ones (x : UInt8) : x ||| ~~~255 = x := by
  have h : ~~~(255 : UInt8) = 0 := by decide
  rw [h, UInt8.or_zero]

/-- Whole bytes of ones keep what they stand in front of. -/
theorem applyMask_append_ones (front : List UInt8) (ip : IP) (m : IPMask) :
    applyMask (front ++ ip) (List.replicate front.length 255 ++ m) =
      front ++ applyMask ip m := by
  induction front with
  | nil => rfl
  | cons b bs ih =>
      simp only [List.length_cons, List.replicate_succ, List.cons_append, applyMask,
        List.zipWith_cons_cons, byte_and_ones]
      exact congrArg (b :: ·) ih

/-- Whole bytes of ones leave no bit to set. -/
theorem or_not_ones (ip : IP) (m : IPMask) :
    List.zipWith (fun b m => b ||| ~~~m) ip (List.replicate ip.length 255 ++ m) = ip := by
  induction ip with
  | nil => rfl
  | cons b bs ih =>
      simp only [List.length_cons, List.replicate_succ, List.cons_append,
        List.zipWith_cons_cons, byte_or_not_ones, ih]

private theorem two_pow_eight_mul (len : ℕ) : (256 : ℕ) ^ len = 2 ^ (8 * len) := by
  rw [pow_mul]; norm_num

/-- Splitting a leading byte off a quotient, when the divisor divides the
weight of that byte. -/
private theorem cons_div {x v weight d m : ℕ} (hw : weight = d * m) (hd : 0 < d) :
    (x * weight + v) / d = x * m + v / d := by
  rw [hw, show x * (d * m) + v = d * (x * m) + v by ring, Nat.mul_add_div hd]

/-- Splitting a leading byte off a quotient, when the divisor is a multiple
of the weight of that byte. -/
private theorem cons_div_of_lt {x v weight m : ℕ} (hv : v < weight) :
    (x * weight + v) / (weight * m) = x / m := by
  have hw : 0 < weight := by omega
  rw [← Nat.div_div_eq_div_mul, show x * weight + v = weight * x + v by ring,
    Nat.mul_add_div hw, Nat.div_eq_of_lt hv, Nat.add_zero]

/-- Keeping the leading bits rounds down to a multiple of a power of two. -/
theorem value_applyMask {ones len : ℕ} {ip : IP} (hip : ip.length = len)
    (hones : ones ≤ 8 * len) :
    value (applyMask ip (cidrMask ones len)) =
      value ip / 2 ^ (8 * len - ones) * 2 ^ (8 * len - ones) := by
  induction len generalizing ones ip with
  | zero =>
      obtain rfl := List.length_eq_zero_iff.mp hip
      simp [applyMask, value]
  | succ len ih =>
      obtain ⟨x, xs, rfl⟩ := List.exists_cons_of_length_pos (l := ip) (by omega)
      have hxs : xs.length = len := by simpa using hip
      have hlt := value_lt xs
      rw [hxs] at hlt
      have hmlen (k : ℕ) : (applyMask xs (cidrMask k len)).length = len := by
        rw [length_applyMask (by rw [length_cidrMask, hxs]), hxs]
      by_cases h8 : 8 ≤ ones
      · have hk : 8 * (len + 1) - ones = 8 * len - (ones - 8) := by omega
        have hw : (256 : ℕ) ^ len = 2 ^ (8 * len - (ones - 8)) * 2 ^ (ones - 8) := by
          rw [two_pow_eight_mul, ← pow_add]; congr 1; omega
        have htail := ih hxs (show ones - 8 ≤ 8 * len by omega)
        simp only [cidrMask, if_pos h8, applyMask, List.zipWith_cons_cons, byte_and_ones, value]
        change x.toNat * 256 ^ (applyMask xs (cidrMask (ones - 8) len)).length +
          value (applyMask xs (cidrMask (ones - 8) len)) = _
        rw [hmlen, htail, hxs, hk, cons_div hw (by positivity), hw]
        ring
      · have hk : 2 ^ (8 * (len + 1) - ones) = 256 ^ len * 2 ^ (8 - ones) := by
          rw [two_pow_eight_mul, ← pow_add]; congr 1; omega
        have htail := ih hxs (show 0 ≤ 8 * len by omega)
        rw [Nat.sub_zero, ← two_pow_eight_mul, Nat.div_eq_of_lt hlt, Nat.zero_mul] at htail
        have hbyte := byte_and_mask ones (by omega) x.toNat x.toNat_lt
        rw [UInt8.ofNat_toNat] at hbyte
        simp only [cidrMask, if_neg h8, applyMask, List.zipWith_cons_cons, value, hbyte]
        change _ * 256 ^ (applyMask xs (cidrMask 0 len)).length +
          value (applyMask xs (cidrMask 0 len)) = _
        rw [hmlen, htail, hxs, hk, cons_div_of_lt hlt]
        ring

/-- Setting the bits outside the mask rounds up to one less than the next
multiple of the same power of two. -/
theorem value_or_not_mask {ones len : ℕ} {ip : IP} (hip : ip.length = len)
    (hones : ones ≤ 8 * len) :
    value (List.zipWith (fun b m => b ||| ~~~m) ip (cidrMask ones len)) =
      value ip / 2 ^ (8 * len - ones) * 2 ^ (8 * len - ones) +
        (2 ^ (8 * len - ones) - 1) := by
  induction len generalizing ones ip with
  | zero =>
      obtain rfl := List.length_eq_zero_iff.mp hip
      simp [value]
  | succ len ih =>
      obtain ⟨x, xs, rfl⟩ := List.exists_cons_of_length_pos (l := ip) (by omega)
      have hxs : xs.length = len := by simpa using hip
      have hlt := value_lt xs
      rw [hxs] at hlt
      have hmlen (k : ℕ) :
          (List.zipWith (fun b m => b ||| ~~~m) xs (cidrMask k len)).length = len := by
        simp [length_cidrMask, hxs]
      by_cases h8 : 8 ≤ ones
      · have hk : 8 * (len + 1) - ones = 8 * len - (ones - 8) := by omega
        have hw : (256 : ℕ) ^ len = 2 ^ (8 * len - (ones - 8)) * 2 ^ (ones - 8) := by
          rw [two_pow_eight_mul, ← pow_add]; congr 1; omega
        have htail := ih hxs (show ones - 8 ≤ 8 * len by omega)
        simp only [cidrMask, if_pos h8, List.zipWith_cons_cons, byte_or_not_ones, value]
        rw [hmlen, htail, hxs, hk, cons_div hw (by positivity), hw]
        ring
      · have hk : 2 ^ (8 * (len + 1) - ones) = 256 ^ len * 2 ^ (8 - ones) := by
          rw [two_pow_eight_mul, ← pow_add]; congr 1; omega
        have htail := ih hxs (show 0 ≤ 8 * len by omega)
        rw [Nat.sub_zero, ← two_pow_eight_mul, Nat.div_eq_of_lt hlt, Nat.zero_mul,
          Nat.zero_add] at htail
        have hbyte := byte_or_not_mask ones (by omega) x.toNat x.toNat_lt
        rw [UInt8.ofNat_toNat] at hbyte
        simp only [cidrMask, if_neg h8, List.zipWith_cons_cons, value, hbyte]
        rw [hmlen, htail, hxs, hk, cons_div_of_lt hlt]
        have hp : 1 ≤ 2 ^ (8 - ones) := Nat.one_le_two_pow
        have hw : 1 ≤ 256 ^ len := Nat.one_le_pow _ _ (by norm_num)
        have hm : 1 ≤ 256 ^ len * 2 ^ (8 - ones) := Nat.one_le_iff_ne_zero.mpr (by positivity)
        zify [hp, hw, hm]
        ring

/-- Two addresses agree under a mask when they agree on the leading bits. -/
theorem applyMask_eq_iff {ones len : ℕ} {a b : IP} (ha : a.length = len)
    (hb : b.length = len) (hones : ones ≤ 8 * len) :
    applyMask a (cidrMask ones len) = applyMask b (cidrMask ones len) ↔
      value a / 2 ^ (8 * len - ones) = value b / 2 ^ (8 * len - ones) := by
  have hpos : 0 < 2 ^ (8 * len - ones) := by positivity
  constructor
  · intro h
    have hv := congrArg value h
    rw [value_applyMask ha hones, value_applyMask hb hones] at hv
    exact Nat.eq_of_mul_eq_mul_right hpos hv
  · intro h
    have hm : (cidrMask ones len).length = len := length_cidrMask _ _
    apply value_injective
    · rw [length_applyMask (ha.trans hm.symm), length_applyMask (hb.trans hm.symm), ha, hb]
    · rw [value_applyMask ha hones, value_applyMask hb hones, h]

end Inet
