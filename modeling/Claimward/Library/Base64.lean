import Mathlib.Data.Nat.Notation
import Mathlib.Tactic.Common

/-!
# The standard base64 encoding, decoded leniently

The encoder is the padded standard alphabet. The decoder accepts more than
the encoder produces: carriage returns and line feeds are skipped wherever
they stand, and the unused low bits of the last character before the padding
are ignored. Different texts may therefore decode to the same bytes.

## Implementation notes

The decoder collects the sextets of the current group and is handed the
length `n` of the whole text, so the offset of an error is `n` less what is
still to be read.
-/

namespace Base64

/-- The sextet a character of the standard alphabet stands for. -/
def decodeChar (c : Char) : Option ℕ :=
  if 'A' ≤ c ∧ c ≤ 'Z' then some (c.toNat - 65)
  else if 'a' ≤ c ∧ c ≤ 'z' then some (c.toNat - 71)
  else if '0' ≤ c ∧ c ≤ '9' then some (c.toNat + 4)
  else if c = '+' then some 62
  else if c = '/' then some 63
  else none

/-- The character of the standard alphabet for a sextet. -/
def encodeChar (v : ℕ) : Char :=
  if v < 26 then Char.ofNat (v + 65)
  else if v < 52 then Char.ofNat (v + 71)
  else if v < 62 then Char.ofNat (v - 4)
  else if v = 62 then '+'
  else '/'

theorem decodeChar_encodeChar : ∀ v < 64, decodeChar (encodeChar v) = some v := by decide

/-- The three bytes of four sextets. -/
def quantum (a b c d : ℕ) : List UInt8 :=
  [UInt8.ofNat (a * 4 + b / 16), UInt8.ofNat (b * 16 + c / 4), UInt8.ofNat (c * 64 + d)]

/-- What is left of a text after the line breaks it starts with. -/
def skipNewlines : List Char → List Char
  | [] => []
  | c :: cs => if c = '\n' ∨ c = '\r' then skipNewlines cs else c :: cs

/-- The end of the text must follow the padding, line breaks apart. -/
def finish (n : ℕ) (rest : List Char) (bytes : List UInt8) : Except ℕ (List UInt8) :=
  match skipNewlines rest with
  | [] => .ok bytes
  | rest => .error (n - rest.length)

/-- The group of sextets `dbuf` is closed by a padding character, already
read; `rest` is what follows it. -/
def padded (n : ℕ) (rest : List Char) : List ℕ → Except ℕ (List UInt8)
  | [a, b] =>
      match skipNewlines rest with
      | [] => .error n
      | c :: cs =>
          if c = '=' then finish n cs ((quantum a b 0 0).take 1)
          else .error (n - cs.length - 2)
  | [a, b, c] => finish n rest ((quantum a b c 0).take 2)
  | _ => .error (n - rest.length - 1)

/-- Decode the rest of a text of length `n`, with the sextets read so far of
the current group. An error carries its offset in the text. -/
def decodeFrom (n : ℕ) : List Char → List ℕ → Except ℕ (List UInt8)
  | [], [] => .ok []
  | [], dbuf => .error (n - dbuf.length)
  | ch :: rest, dbuf =>
      match decodeChar ch with
      | some d =>
          match dbuf with
          | [a, b, c] => (quantum a b c d ++ ·) <$> decodeFrom n rest []
          | _ => decodeFrom n rest (dbuf ++ [d])
      | none =>
          if ch = '\n' ∨ ch = '\r' then decodeFrom n rest dbuf
          else if ch = '=' then padded n rest dbuf
          else .error (n - rest.length - 1)

/-- Decode a text, or the offset of the first byte that is not accepted. -/
def decode (text : List Char) : Except ℕ (List UInt8) := decodeFrom text.length text []

/-- The padded text of a list of bytes. -/
def encode : List UInt8 → List Char
  | a :: b :: c :: rest =>
      encodeChar (a.toNat / 4) :: encodeChar (a.toNat % 4 * 16 + b.toNat / 16) ::
        encodeChar (b.toNat % 16 * 4 + c.toNat / 64) :: encodeChar (c.toNat % 64) ::
          encode rest
  | [a, b] =>
      [encodeChar (a.toNat / 4), encodeChar (a.toNat % 4 * 16 + b.toNat / 16),
        encodeChar (b.toNat % 16 * 4), '=']
  | [a] => [encodeChar (a.toNat / 4), encodeChar (a.toNat % 4 * 16), '=', '=']
  | [] => []

private theorem ofNat_eq_of_toNat_mod {x : ℕ} {b : UInt8} (h : x % 256 = b.toNat) :
    UInt8.ofNat x = b := by
  apply UInt8.toNat_inj.mp
  simpa using h

theorem quantum_split (a b c : UInt8) :
    quantum (a.toNat / 4) (a.toNat % 4 * 16 + b.toNat / 16)
      (b.toNat % 16 * 4 + c.toNat / 64) (c.toNat % 64) = [a, b, c] := by
  have ha := a.toNat_lt
  have hb := b.toNat_lt
  have hc := c.toNat_lt
  simp only [quantum, List.cons.injEq, and_true]
  exact ⟨ofNat_eq_of_toNat_mod (by omega), ofNat_eq_of_toNat_mod (by omega),
    ofNat_eq_of_toNat_mod (by omega)⟩

/-- A character of the alphabet is one more sextet of an open group. -/
theorem decodeFrom_encodeChar {n v : ℕ} (hv : v < 64) (rest : List Char) {dbuf : List ℕ}
    (hopen : dbuf.length < 3) :
    decodeFrom n (encodeChar v :: rest) dbuf = decodeFrom n rest (dbuf ++ [v]) := by
  rw [decodeFrom.eq_def]
  simp only [decodeChar_encodeChar v hv]
  split
  · simp at hopen
  · rfl

/-- The fourth character of the alphabet closes the group. -/
theorem decodeFrom_encodeChar_close {n d : ℕ} (hd : d < 64) (rest : List Char) (a b c : ℕ) :
    decodeFrom n (encodeChar d :: rest) [a, b, c] =
      (quantum a b c d ++ ·) <$> decodeFrom n rest [] := by
  rw [decodeFrom.eq_def]
  simp only [decodeChar_encodeChar d hd]

theorem decodeFrom_pad {n : ℕ} (rest : List Char) (dbuf : List ℕ) :
    decodeFrom n ('=' :: rest) dbuf = padded n rest dbuf := by
  have h : decodeChar '=' = none := by decide
  rw [decodeFrom.eq_def]
  simp [h]

/-- Decoding inverts encoding, at every offset bookkeeping `n`. -/
theorem decodeFrom_encode (n : ℕ) (bytes : List UInt8) :
    decodeFrom n (encode bytes) [] = .ok bytes := by
  fun_induction encode bytes with
  | case1 a b c rest ih =>
      have ha := a.toNat_lt
      have hb := b.toNat_lt
      have hc := c.toNat_lt
      rw [decodeFrom_encodeChar (by omega) _ (by simp),
        decodeFrom_encodeChar (by omega) _ (by simp),
        decodeFrom_encodeChar (by omega) _ (by simp)]
      simp only [List.nil_append, List.cons_append]
      rw [decodeFrom_encodeChar_close (by omega), quantum_split, ih]
      rfl
  | case2 a b =>
      have ha := a.toNat_lt
      have hb := b.toNat_lt
      rw [decodeFrom_encodeChar (by omega) _ (by simp),
        decodeFrom_encodeChar (by omega) _ (by simp),
        decodeFrom_encodeChar (by omega) _ (by simp), decodeFrom_pad]
      have hq := quantum_split a b 0
      simp only [UInt8.toNat_zero, Nat.zero_div, Nat.zero_mod, Nat.add_zero] at hq
      simp [padded, finish, skipNewlines, hq]
  | case3 a =>
      have ha := a.toNat_lt
      rw [decodeFrom_encodeChar (by omega) _ (by simp),
        decodeFrom_encodeChar (by omega) _ (by simp), decodeFrom_pad]
      have hq := quantum_split a 0 0
      simp only [UInt8.toNat_zero, Nat.zero_div, Nat.zero_mod, Nat.add_zero,
        Nat.zero_mul] at hq
      simp [padded, finish, skipNewlines, hq]
  | case4 => rfl

theorem decode_encode (bytes : List UInt8) : decode (encode bytes) = .ok bytes :=
  decodeFrom_encode _ bytes

example : decode "AQ==".toList = .ok [1] ∧ decode "AR==".toList = .ok [1] ∧
    decode "A\nQ=\r=".toList = .ok [1] ∧ decode "AQ=".toList = .error 3 := by decide

end Base64
