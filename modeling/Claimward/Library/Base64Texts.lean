import Claimward.Library.Base64
import Mathlib.Data.List.Basic

/-!
# Which texts decode to given bytes

Up to line breaks, a text that decodes to given bytes is their encoding with the
unused low bits of the last character before the padding set at will: there are
none of those after whole groups, four after one byte and two after two bytes.
-/

namespace Base64

/-- The alphabet has one character for each sextet. -/
theorem decodeChar_eq_some {ch : Char} {d : ℕ} (h : decodeChar ch = some d) :
    d < 64 ∧ ch = encodeChar d := by
  unfold decodeChar at h
  split at h
  · rename_i hrange
    have hlo : 65 ≤ ch.toNat := UInt32.le_iff_toNat_le.mp hrange.1
    have hhi : ch.toNat ≤ 90 := UInt32.le_iff_toNat_le.mp hrange.2
    obtain rfl := Option.some.inj h
    refine ⟨by omega, ?_⟩
    rw [encodeChar, if_pos (by omega), Nat.sub_add_cancel hlo, Char.ofNat_toNat]
  · split at h
    · rename_i hrange
      have hlo : 97 ≤ ch.toNat := UInt32.le_iff_toNat_le.mp hrange.1
      have hhi : ch.toNat ≤ 122 := UInt32.le_iff_toNat_le.mp hrange.2
      obtain rfl := Option.some.inj h
      refine ⟨by omega, ?_⟩
      rw [encodeChar, if_neg (by omega), if_pos (by omega), Nat.sub_add_cancel (by omega),
        Char.ofNat_toNat]
    · split at h
      · rename_i hrange
        have hlo : 48 ≤ ch.toNat := UInt32.le_iff_toNat_le.mp hrange.1
        have hhi : ch.toNat ≤ 57 := UInt32.le_iff_toNat_le.mp hrange.2
        obtain rfl := Option.some.inj h
        refine ⟨by omega, ?_⟩
        rw [encodeChar, if_neg (by omega), if_neg (by omega), if_pos (by omega),
          Nat.add_sub_cancel, Char.ofNat_toNat]
      · split at h
        · rename_i hplus
          obtain rfl := Option.some.inj h
          exact ⟨by decide, hplus⟩
        · split at h
          · rename_i hslash
            obtain rfl := Option.some.inj h
            exact ⟨by decide, hslash⟩
          · exact absurd h (by simp)

/-- The text without its line breaks. -/
def unbroken (text : List Char) : List Char := text.filter fun c => ¬ (c = '\n' ∨ c = '\r')

theorem unbroken_cons_break {c : Char} (h : c = '\n' ∨ c = '\r') (cs : List Char) :
    unbroken (c :: cs) = unbroken cs :=
  List.filter_cons_of_neg (by simpa [or_iff_not_imp_left] using h)

theorem unbroken_cons {c : Char} (h : ¬ (c = '\n' ∨ c = '\r')) (cs : List Char) :
    unbroken (c :: cs) = c :: unbroken cs :=
  List.filter_cons_of_pos (by simpa using h)

theorem unbroken_skipNewlines (cs : List Char) : unbroken (skipNewlines cs) = unbroken cs := by
  induction cs with
  | nil => rfl
  | cons c cs ih =>
      simp only [skipNewlines]
      split
      · rename_i h
        rw [ih, unbroken_cons_break h]
      · rfl

/-- What is left after the line breaks starts with something else. -/
theorem not_break_of_skipNewlines {cs rest : List Char} {c : Char}
    (h : skipNewlines cs = c :: rest) : ¬ (c = '\n' ∨ c = '\r') := by
  induction cs with
  | nil => exact absurd h (by simp [skipNewlines])
  | cons c' cs ih =>
      simp only [skipNewlines] at h
      split at h
      · exact ih h
      · rename_i hc
        rw [← (List.cons.inj h).1]
        exact hc

/-- How a text without line breaks is read, with the sextets of the open group. -/
inductive Reads : List ℕ → List Char → List UInt8 → Prop
  | done : Reads [] [] []
  | collect {dbuf : List ℕ} {ch : Char} {d : ℕ} {cs : List Char} {bytes : List UInt8}
      (hch : decodeChar ch = some d) (hopen : dbuf.length < 3)
      (h : Reads (dbuf ++ [d]) cs bytes) : Reads dbuf (ch :: cs) bytes
  | close {a b c d : ℕ} {ch : Char} {cs : List Char} {bytes : List UInt8}
      (hch : decodeChar ch = some d) (h : Reads [] cs bytes) :
      Reads [a, b, c] (ch :: cs) (quantum a b c d ++ bytes)
  | padTwo {a b : ℕ} : Reads [a, b] ['=', '='] ((quantum a b 0 0).take 1)
  | padOne {a b c : ℕ} : Reads [a, b, c] ['='] ((quantum a b c 0).take 2)

section Decoding

variable {n : ℕ} {text rest : List Char} {dbuf : List ℕ} {bytes bytes' : List UInt8}

theorem finish_eq_ok_iff :
    finish n rest bytes = .ok bytes' ↔ unbroken rest = [] ∧ bytes = bytes' := by
  rw [← unbroken_skipNewlines]
  unfold finish
  cases h : skipNewlines rest with
  | nil => simp [unbroken]
  | cons c cs => simp [unbroken_cons (not_break_of_skipNewlines h)]

theorem decodeChar_pad : decodeChar '=' = none := by decide

theorem not_break_of_decodeChar {ch : Char} {d : ℕ} (h : decodeChar ch = some d) :
    ¬ (ch = '\n' ∨ ch = '\r') := by
  rintro (rfl | rfl)
  · exact absurd h (by simp [show decodeChar '\n' = none by decide])
  · exact absurd h (by simp [show decodeChar '\r' = none by decide])

/-- The padding is no sextet, so it ends the text. -/
theorem reads_pad_iff : Reads dbuf ('=' :: rest) bytes ↔
    (∃ a b, dbuf = [a, b] ∧ rest = ['='] ∧ bytes = (quantum a b 0 0).take 1) ∨
      ∃ a b c, dbuf = [a, b, c] ∧ rest = [] ∧ bytes = (quantum a b c 0).take 2 := by
  have hpad : ∀ d, decodeChar '=' ≠ some d := by simp [decodeChar_pad]
  constructor
  · intro h
    cases h with
    | collect hch => exact absurd hch (hpad _)
    | close hch => exact absurd hch (hpad _)
    | padTwo => exact Or.inl ⟨_, _, rfl, rfl, rfl⟩
    | padOne => exact Or.inr ⟨_, _, _, rfl, rfl, rfl⟩
  · rintro (⟨a, b, rfl, rfl, rfl⟩ | ⟨a, b, c, rfl, rfl, rfl⟩)
    · exact .padTwo
    · exact .padOne

theorem padded_eq_ok_iff :
    padded n rest dbuf = .ok bytes ↔ Reads dbuf ('=' :: unbroken rest) bytes := by
  rw [reads_pad_iff]
  unfold padded
  split
  · rename_i a b
    rw [← unbroken_skipNewlines]
    cases h : skipNewlines rest with
    | nil => simp [unbroken]
    | cons c cs =>
        rw [unbroken_cons (not_break_of_skipNewlines h)]
        by_cases hc : c = '='
        · simp only [hc, if_true, finish_eq_ok_iff]
          simp [eq_comm]
        · simp [hc]
  · rename_i a b c
    rw [finish_eq_ok_iff]
    simp [eq_comm]
  · rename_i hne₂ hne₃
    refine iff_of_false (by simp) ?_
    rintro (⟨a, b, rfl, -⟩ | ⟨a, b, c, rfl, -⟩)
    · exact hne₂ a b rfl
    · exact hne₃ a b c rfl

/-- A sextet joins the open group, or closes it. -/
theorem reads_sextet_iff {ch : Char} {d : ℕ} (hch : decodeChar ch = some d)
    (hopen : dbuf.length < 3) :
    Reads dbuf (ch :: rest) bytes ↔ Reads (dbuf ++ [d]) rest bytes := by
  constructor
  · intro h
    cases h with
    | collect hch' _ h =>
        obtain rfl := Option.some.inj (hch.symm.trans hch')
        exact h
    | close => exact absurd hopen (by simp)
    | padTwo => exact absurd hch (by simp [decodeChar_pad])
    | padOne => exact absurd hopen (by simp)
  · exact .collect hch hopen

theorem reads_close_iff {a b c d : ℕ} {ch : Char} (hch : decodeChar ch = some d) :
    Reads [a, b, c] (ch :: rest) bytes ↔
      ∃ bytes', Reads [] rest bytes' ∧ bytes = quantum a b c d ++ bytes' := by
  constructor
  · intro h
    cases h with
    | collect _ hopen => exact absurd hopen (by simp)
    | close hch' h =>
        obtain rfl := Option.some.inj (hch.symm.trans hch')
        exact ⟨_, h, rfl⟩
    | padOne => exact absurd hch (by simp [decodeChar_pad])
  · rintro ⟨bytes', h, rfl⟩
    exact .close hch h

theorem not_reads_of_decodeChar {ch : Char} (hch : decodeChar ch = none) (hpad : ch ≠ '=') :
    ¬ Reads dbuf (ch :: rest) bytes := by
  intro h
  cases h with
  | collect hch' => exact absurd (hch.symm.trans hch') (by simp)
  | close hch' => exact absurd (hch.symm.trans hch') (by simp)
  | padTwo => exact hpad rfl
  | padOne => exact hpad rfl

/-- The decoder accepts what can be read, line breaks apart. -/
theorem decodeFrom_eq_ok_iff (hopen : dbuf.length ≤ 3) :
    decodeFrom n text dbuf = .ok bytes ↔ Reads dbuf (unbroken text) bytes := by
  induction text generalizing dbuf bytes with
  | nil =>
      cases dbuf with
      | nil =>
          constructor
          · intro h
            obtain rfl := Except.ok.inj h
            exact .done
          · intro h
            cases h with
            | done => rfl
      | cons d dbuf =>
          refine iff_of_false (by simp [decodeFrom]) ?_
          intro h
          cases h
  | cons ch rest ih =>
      cases hch : decodeChar ch with
      | some d =>
          rw [unbroken_cons (not_break_of_decodeChar hch)]
          obtain ⟨hd, rfl⟩ := decodeChar_eq_some hch
          by_cases hlen : dbuf.length < 3
          · have hgroup : (dbuf ++ [d]).length ≤ 3 := by simp; omega
            rw [reads_sextet_iff hch hlen, ← ih hgroup, decodeFrom_encodeChar hd rest hlen]
          · obtain ⟨a, b, c, rfl⟩ : ∃ a b c, dbuf = [a, b, c] :=
              List.length_eq_three.mp (by omega)
            rw [decodeFrom_encodeChar_close hd, reads_close_iff hch]
            cases hrest : decodeFrom n rest [] with
            | error e =>
                refine iff_of_false (by simp) ?_
                rintro ⟨bytes', hreads, -⟩
                exact absurd (hrest.symm.trans ((ih (by simp)).mpr hreads)) (by simp)
            | ok tail =>
                have hreads : ∀ bytes', Reads [] (unbroken rest) bytes' ↔ tail = bytes' := by
                  intro bytes'
                  rw [← ih (by simp), hrest]
                  simp
                simp [hreads, eq_comm]
      | none =>
          by_cases hbreak : ch = '\n' ∨ ch = '\r'
          · rw [unbroken_cons_break hbreak, ← ih hopen]
            simp [decodeFrom, hch, hbreak]
          · rw [unbroken_cons hbreak]
            by_cases hpad : ch = '='
            · rw [hpad, decodeFrom_pad, padded_eq_ok_iff]
            · exact iff_of_false (by simp [decodeFrom, hch, hbreak, hpad])
                (not_reads_of_decodeChar hch hpad)

end Decoding

/-- The padded text of a list of bytes, with the given number in the unused bits. -/
def encodeWith (low : ℕ) : List UInt8 → List Char
  | a :: b :: c :: rest =>
      encodeChar (a.toNat / 4) :: encodeChar (a.toNat % 4 * 16 + b.toNat / 16) ::
        encodeChar (b.toNat % 16 * 4 + c.toNat / 64) :: encodeChar (c.toNat % 64) ::
          encodeWith low rest
  | [a, b] =>
      [encodeChar (a.toNat / 4), encodeChar (a.toNat % 4 * 16 + b.toNat / 16),
        encodeChar (b.toNat % 16 * 4 + low), '=']
  | [a] => [encodeChar (a.toNat / 4), encodeChar (a.toNat % 4 * 16 + low), '=', '=']
  | [] => []

/-- How many numbers the unused bits of a text can hold, by the count of its bytes. -/
def slack (count : ℕ) : ℕ :=
  if count % 3 = 0 then 1 else if count % 3 = 1 then 16 else 4

theorem slack_add_three (count : ℕ) : slack (count + 3) = slack count := by
  rw [slack, slack, Nat.add_mod_right]

section Texts

variable {a b c d : ℕ} {t cs : List Char} {bytes : List UInt8}

/-- The sextets of three bytes. -/
theorem quantum_eq {x y z : UInt8} (ha : a < 64) (hb : b < 64) (hc : c < 64) (hd : d < 64)
    (h : quantum a b c d = [x, y, z]) :
    a = x.toNat / 4 ∧ b = x.toNat % 4 * 16 + y.toNat / 16 ∧
      c = y.toNat % 16 * 4 + z.toNat / 64 ∧ d = z.toNat % 64 := by
  obtain ⟨rfl, rfl, rfl⟩ : UInt8.ofNat (a * 4 + b / 16) = x ∧
      UInt8.ofNat (b * 16 + c / 4) = y ∧ UInt8.ofNat (c * 64 + d) = z := by
    simpa [quantum] using h
  simp only [UInt8.toNat_ofNat']
  omega

/-- The first sextets of two bytes. -/
theorem quantum_take_two {x y : UInt8} (ha : a < 64) (hb : b < 64) (hc : c < 64) :
    (quantum a b c 0).take 2 = [x, y] ↔ a = x.toNat / 4 ∧
      b = x.toNat % 4 * 16 + y.toNat / 16 ∧ c / 4 = y.toNat % 16 := by
  have hx := x.toNat_lt
  have hy := y.toNat_lt
  simp only [quantum, List.take_succ_cons, List.take_zero, List.cons.injEq, and_true,
    ← UInt8.toNat_inj, UInt8.toNat_ofNat']
  omega

/-- The first sextets of one byte. -/
theorem quantum_take_one {x : UInt8} (ha : a < 64) (hb : b < 64) :
    (quantum a b 0 0).take 1 = [x] ↔ a = x.toNat / 4 ∧ b / 16 = x.toNat % 4 := by
  have hx := x.toNat_lt
  simp only [quantum, List.take_succ_cons, List.take_zero, List.cons.injEq, and_true,
    ← UInt8.toNat_inj, UInt8.toNat_ofNat']
  omega

/-- What can be read from the start of a group: nothing, a group that is padded, or a
whole group and more. -/
theorem reads_nil_cases (h : Reads [] t bytes) :
    (t = [] ∧ bytes = []) ∨
      (∃ a b, a < 64 ∧ b < 64 ∧ t = [encodeChar a, encodeChar b, '=', '='] ∧
        bytes = (quantum a b 0 0).take 1) ∨
      (∃ a b c, a < 64 ∧ b < 64 ∧ c < 64 ∧
        t = [encodeChar a, encodeChar b, encodeChar c, '='] ∧
        bytes = (quantum a b c 0).take 2) ∨
      ∃ a b c d cs bytes', a < 64 ∧ b < 64 ∧ c < 64 ∧ d < 64 ∧
        t = encodeChar a :: encodeChar b :: encodeChar c :: encodeChar d :: cs ∧
        bytes = quantum a b c d ++ bytes' ∧ Reads [] cs bytes' := by
  cases h with
  | done => exact Or.inl ⟨rfl, rfl⟩
  | collect hch _ h =>
      obtain ⟨ha, rfl⟩ := decodeChar_eq_some hch
      cases h with
      | collect hch _ h =>
          obtain ⟨hb, rfl⟩ := decodeChar_eq_some hch
          cases h with
          | padTwo => exact Or.inr (Or.inl ⟨_, _, ha, hb, rfl, rfl⟩)
          | collect hch _ h =>
              obtain ⟨hc, rfl⟩ := decodeChar_eq_some hch
              cases h with
              | collect _ hopen => exact absurd hopen (by simp)
              | padOne => exact Or.inr (Or.inr (Or.inl ⟨_, _, _, ha, hb, hc, rfl, rfl⟩))
              | close hch h =>
                  obtain ⟨hd, rfl⟩ := decodeChar_eq_some hch
                  exact Or.inr (Or.inr (Or.inr
                    ⟨_, _, _, _, _, _, ha, hb, hc, hd, rfl, rfl, h⟩))

/-- Read four sextets, of which the first three are collected. -/
theorem Reads.group (ha : a < 64) (hb : b < 64) (hc : c < 64)
    (h : Reads [a, b, c] cs bytes) :
    Reads [] (encodeChar a :: encodeChar b :: encodeChar c :: cs) bytes := by
  apply Reads.collect (decodeChar_encodeChar a ha) (by simp)
  apply Reads.collect (decodeChar_encodeChar b hb) (by simp)
  exact Reads.collect (decodeChar_encodeChar c hc) (by simp) h

theorem reads_encodeWith {low : ℕ} (hlow : low < slack bytes.length) :
    Reads [] (encodeWith low bytes) bytes := by
  fun_induction encodeWith low bytes with
  | case1 x y z rest ih =>
      have hx := x.toNat_lt
      have hy := y.toNat_lt
      have hz := z.toNat_lt
      apply Reads.group (by omega) (by omega) (by omega)
      have hrest : Reads [] (encodeWith low rest) rest :=
        ih (slack_add_three rest.length ▸ hlow)
      have hclose := Reads.close (a := x.toNat / 4) (b := x.toNat % 4 * 16 + y.toNat / 16)
        (c := y.toNat % 16 * 4 + z.toNat / 64)
        (decodeChar_encodeChar (z.toNat % 64) (by omega)) hrest
      rwa [quantum_split] at hclose
  | case2 x y =>
      have hlow : low < 4 := hlow
      have hx := x.toNat_lt
      have hy := y.toNat_lt
      apply Reads.group (by omega) (by omega) (by omega)
      have hbytes := (quantum_take_two (a := x.toNat / 4)
        (b := x.toNat % 4 * 16 + y.toNat / 16) (c := y.toNat % 16 * 4 + low) (x := x) (y := y)
        (by omega) (by omega) (by omega)).mpr ⟨rfl, rfl, by omega⟩
      exact hbytes ▸ .padOne
  | case3 x =>
      have hlow : low < 16 := hlow
      have hx := x.toNat_lt
      apply Reads.collect (decodeChar_encodeChar _ (by omega)) (by simp)
      apply Reads.collect (decodeChar_encodeChar _ (by omega)) (by simp)
      have hbytes := (quantum_take_one (a := x.toNat / 4) (b := x.toNat % 4 * 16 + low) (x := x)
        (by omega) (by omega)).mpr ⟨rfl, by omega⟩
      exact hbytes ▸ .padTwo
  | case4 => exact .done

/-- What reads as given bytes is their encoding, unused bits apart. -/
theorem encodeWith_of_reads (h : Reads [] t bytes) :
    ∃ low < slack bytes.length, t = encodeWith low bytes := by
  induction bytes using encodeWith.induct generalizing t with
  | case1 x y z rest ih =>
      rcases reads_nil_cases h with ⟨-, hnil⟩ | ⟨a, b, -, -, -, hone⟩ |
        ⟨a, b, c, -, -, -, -, htwo⟩ | ⟨a, b, c, d, cs, bytes', ha, hb, hc, hd, rfl, hbytes, hrest⟩
      · exact absurd hnil (by simp)
      · exact absurd (congrArg List.length hone) (by simp [quantum])
      · exact absurd (congrArg List.length htwo) (by simp [quantum])
      · obtain ⟨hq, rfl⟩ : quantum a b c d = [x, y, z] ∧ bytes' = rest := by
          simpa [quantum, eq_comm, and_assoc] using hbytes
        obtain ⟨low, hlow, rfl⟩ := ih hrest
        obtain ⟨rfl, rfl, rfl, rfl⟩ := quantum_eq ha hb hc hd hq
        exact ⟨low, (slack_add_three bytes'.length).symm ▸ hlow, rfl⟩
  | case2 x y =>
      rcases reads_nil_cases h with ⟨-, hnil⟩ | ⟨a, b, -, -, -, hone⟩ |
        ⟨a, b, c, ha, hb, hc, rfl, htwo⟩ | ⟨a, b, c, d, cs, bytes', -, -, -, -, -, hmore, -⟩
      · exact absurd hnil (by simp)
      · exact absurd (congrArg List.length hone) (by simp [quantum])
      · obtain ⟨rfl, rfl, hhigh⟩ := (quantum_take_two ha hb hc).mp htwo.symm
        have hlast : y.toNat % 16 * 4 + c % 4 = c := by omega
        exact ⟨c % 4, Nat.mod_lt c (by decide), by rw [encodeWith, hlast]⟩
      · exact absurd (congrArg List.length hmore) (by simp [quantum])
  | case3 x =>
      rcases reads_nil_cases h with ⟨-, hnil⟩ | ⟨a, b, ha, hb, rfl, hone⟩ |
        ⟨a, b, c, -, -, -, -, htwo⟩ | ⟨a, b, c, d, cs, bytes', -, -, -, -, -, hmore, -⟩
      · exact absurd hnil (by simp)
      · obtain ⟨rfl, hhigh⟩ := (quantum_take_one ha hb).mp hone.symm
        have hlast : x.toNat % 4 * 16 + b % 16 = b := by omega
        exact ⟨b % 16, Nat.mod_lt b (by decide), by rw [encodeWith, hlast]⟩
      · exact absurd (congrArg List.length htwo) (by simp [quantum])
      · exact absurd (congrArg List.length hmore) (by simp [quantum])
  | case4 =>
      rcases reads_nil_cases h with ⟨rfl, -⟩ | ⟨a, b, -, -, -, hone⟩ |
        ⟨a, b, c, -, -, -, -, htwo⟩ | ⟨a, b, c, d, cs, bytes', -, -, -, -, -, hmore, -⟩
      · exact ⟨0, Nat.one_pos, rfl⟩
      · exact absurd (congrArg List.length hone) (by simp [quantum])
      · exact absurd (congrArg List.length htwo) (by simp [quantum])
      · exact absurd (congrArg List.length hmore) (by simp [quantum])

/-- **The texts of given bytes.** A text decodes to them if, line breaks apart, it is
their encoding with some number in the unused bits. -/
theorem decode_eq_ok_iff {text : List Char} : decode text = .ok bytes ↔
    ∃ low < slack bytes.length, unbroken text = encodeWith low bytes := by
  rw [decode, decodeFrom_eq_ok_iff (by simp)]
  constructor
  · exact encodeWith_of_reads
  · rintro ⟨low, hlow, heq⟩
    rw [heq]
    exact reads_encodeWith hlow

end Texts

end Base64
