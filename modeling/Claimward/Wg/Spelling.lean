import Claimward.Library.Base64Texts
import Claimward.Wg.Key
import Mathlib.Data.List.OfFn

/-!
# The texts of a key

Requests name keys by text, and the store files entries by it. A key has one
text that `Key.String` writes, and more that `parseKey` reads: the two low bits
of the last character before the padding are free, and line breaks may stand
anywhere.
-/

namespace Claimward.Wg

open Base64

/-- The text of a key with the unused bits of its last character set. -/
def Key.spelling (k : Key) (low : Fin 4) : List Char := encodeWith low k.bytes

theorem parseKey_eq_ok_iff {s : String} {k : Key} :
    parseKey s = .ok k ↔ decode s.toList = .ok k.bytes := by
  unfold parseKey
  split
  · rename_i offset h
    simp [h]
  · rename_i b h
    rw [h, Except.ok.injEq]
    split
    · rw [Except.ok.injEq]
      exact ⟨congrArg Key.bytes, fun heq => by subst heq; rfl⟩
    · rename_i hlen
      refine iff_of_false (by simp) ?_
      rintro rfl
      exact hlen k.length_eq

/-- Without its line breaks, a text of a key is one of four. -/
theorem parseKey_eq_ok_iff_spelling {s : String} {k : Key} :
    parseKey s = .ok k ↔ ∃ low, unbroken s.toList = k.spelling low := by
  have hslack : slack k.bytes.length = 4 := by rw [k.length_eq]; rfl
  rw [parseKey_eq_ok_iff, decode_eq_ok_iff, hslack]
  constructor
  · rintro ⟨low, hlow, heq⟩
    exact ⟨⟨low, hlow⟩, heq⟩
  · rintro ⟨low, heq⟩
    exact ⟨low, low.isLt, heq⟩

/-- The text of a key with a row of line breaks after it. -/
def Key.broken (k : Key) {m : ℕ} (breaks : Fin m → Bool) : String :=
  k.string ++ String.ofList (List.ofFn fun i => if breaks i then '\n' else '\r')

theorem Key.length_broken (k : Key) {m : ℕ} (breaks : Fin m → Bool) :
    (k.broken breaks).length = k.string.length + m := by
  simp [Key.broken]

theorem Key.broken_injective (k : Key) (m : ℕ) :
    Function.Injective (k.broken : (Fin m → Bool) → String) := by
  intro breaks breaks' h
  have hrow := String.ofList_injective (String.append_right_inj k.string |>.mp h)
  ext i
  have hi := congrFun (List.ofFn_injective hrow) i
  cases hb : breaks i
  all_goals cases hb' : breaks' i
  all_goals simp [hb, hb'] at hi ⊢

theorem parseKey_broken (k : Key) {m : ℕ} (breaks : Fin m → Bool) :
    parseKey (k.broken breaks) = .ok k := by
  obtain ⟨low, hlow⟩ := parseKey_eq_ok_iff_spelling.mp (parseKey_string k)
  refine parseKey_eq_ok_iff_spelling.mpr ⟨low, ?_⟩
  have hrow : unbroken (List.ofFn fun i => if breaks i then '\n' else '\r') = [] := by
    apply List.filter_eq_nil_iff.mpr
    intro c hc
    obtain ⟨i, rfl⟩ := List.mem_ofFn.mp hc
    cases breaks i
    all_goals decide
  calc unbroken (k.broken breaks).toList
      = unbroken k.string.toList ++
          unbroken (List.ofFn fun i => if breaks i then '\n' else '\r') := by
        simp [Key.broken, unbroken]
    _ = k.spelling low := by rw [hlow, hrow, List.append_nil]

end Claimward.Wg
