import Mathlib.Data.Nat.Notation
import Mathlib.Tactic.Common

/-!
# Texts as Go's `strings` package handles them

Texts are sequences of Unicode characters. White space and trimming are
concrete. The two case tables are a parameter: most of what is proved holds for
every pair of tables. `GoTables` adds the facts about the tables of Go's
`unicode` package that the rest depends on.
-/

namespace GoText

/-- The simple case mappings: `unicode.ToLower`, and the representative of a
character under simple case folding. -/
class CaseTables where
  toLower : Char → Char
  fold : Char → Char

/-- `unicode.IsSpace`. -/
def isSpace (c : Char) : Bool :=
  c.toNat ∈ [0x20, 0x85, 0xA0, 0x1680, 0x2028, 0x2029, 0x202F, 0x205F, 0x3000] ||
    (0x09 ≤ c.toNat && c.toNat ≤ 0x0D) || (0x2000 ≤ c.toNat && c.toNat ≤ 0x200A)

/-- Drop the characters that satisfy a predicate at both ends. -/
def trimChars (p : Char → Bool) (cs : List Char) : List Char :=
  ((cs.dropWhile p).reverse.dropWhile p).reverse

section Trim

variable {p : Char → Bool} {cs : List Char}

/-- Neither end of the text satisfies the predicate. -/
def Trimmed (p : Char → Bool) (cs : List Char) : Prop :=
  (∀ c ∈ cs.head?, p c = false) ∧ ∀ c ∈ cs.getLast?, p c = false

theorem mem_of_mem_trimChars {c : Char} (h : c ∈ trimChars p cs) : c ∈ cs := by
  have hback := (List.dropWhile_sublist p).subset (List.mem_reverse.mp h)
  exact (List.dropWhile_sublist p).subset (List.mem_reverse.mp hback)

theorem mem_dropWhile {c : Char} (h : c ∈ cs) (hc : p c = false) : c ∈ cs.dropWhile p := by
  induction cs with
  | nil => simp at h
  | cons d cs ih =>
      rw [List.dropWhile_cons]
      split
      · rename_i hd
        rcases List.mem_cons.mp h with rfl | h
        · exact absurd hd (by simp [hc])
        · exact ih h
      · exact h

/-- Only characters that satisfy the predicate are cut off. -/
theorem mem_trimChars {c : Char} (h : c ∈ cs) (hc : p c = false) : c ∈ trimChars p cs := by
  rw [trimChars, List.mem_reverse]
  exact mem_dropWhile (List.mem_reverse.mpr (mem_dropWhile h hc)) hc

theorem trimChars_cons {c : Char} (hc : p c = true) : trimChars p (c :: cs) = trimChars p cs := by
  rw [trimChars, List.dropWhile_cons, if_pos hc, trimChars]

theorem head?_dropWhile {c : Char} (h : c ∈ (cs.dropWhile p).head?) : p c = false := by
  have hnot := List.head?_dropWhile_not p cs
  rw [Option.mem_def.mp h] at hnot
  exact hnot

theorem trimmed_trimChars (p : Char → Bool) (cs : List Char) : Trimmed p (trimChars p cs) := by
  constructor
  · intro c hc
    -- the first character that is left is the first one after the leading run
    rw [trimChars, List.head?_reverse, Option.mem_def, List.getLast?_eq_some_iff] at hc
    obtain ⟨front, hfront⟩ := hc
    obtain ⟨cut, hcut⟩ := List.dropWhile_suffix p (l := (cs.dropWhile p).reverse)
    rw [hfront, ← List.append_assoc] at hcut
    have hdrop : cs.dropWhile p = c :: (cut ++ front).reverse := by
      rw [← List.reverse_reverse (cs.dropWhile p), ← hcut]
      simp
    exact head?_dropWhile (by rw [hdrop]; rfl)
  · intro c hc
    rw [trimChars, List.getLast?_reverse] at hc
    exact head?_dropWhile hc

/-- Being trimmed carries over to a text with the same image, where what meets the
predicate meets only its like. -/
theorem Trimmed.of_map {α : Type} {f g : Char → α} {ds : List Char} (h : Trimmed p cs)
    (hmap : cs.map f = ds.map g)
    (hlike : ∀ c d, p c = false → f c = g d → p d = false) : Trimmed p ds := by
  constructor
  · intro d hd
    have hhead := congrArg List.head? hmap
    rw [List.head?_map, List.head?_map, Option.mem_def.mp hd, Option.map_some,
      Option.map_eq_some_iff] at hhead
    obtain ⟨c, hc, heq⟩ := hhead
    exact hlike c d (h.1 c hc) heq
  · intro d hd
    have hlast := congrArg List.getLast? hmap
    rw [List.getLast?_map, List.getLast?_map, Option.mem_def.mp hd, Option.map_some,
      Option.map_eq_some_iff] at hlast
    obtain ⟨c, hc, heq⟩ := hlast
    exact hlike c d (h.2 c hc) heq

theorem dropWhile_eq_self (h : ∀ c ∈ cs.head?, p c = false) : cs.dropWhile p = cs := by
  cases cs with
  | nil => rfl
  | cons c cs => rw [List.dropWhile_cons, h c rfl, if_neg Bool.false_ne_true]

theorem Trimmed.trimChars_eq (h : Trimmed p cs) : trimChars p cs = cs := by
  have hback : cs.reverse.dropWhile p = cs.reverse :=
    dropWhile_eq_self (by rw [List.head?_reverse]; exact h.2)
  rw [trimChars, dropWhile_eq_self h.1, hback, List.reverse_reverse]

theorem trimChars_eq_self_iff : trimChars p cs = cs ↔ Trimmed p cs := by
  constructor
  · intro h
    rw [← h]
    exact trimmed_trimChars p cs
  · exact Trimmed.trimChars_eq

end Trim

def trimSpace (s : String) : String := String.ofList (trimChars isSpace s.toList)

theorem trimmed_trimSpace (s : String) : Trimmed isSpace (trimSpace s).toList := by
  rw [trimSpace, String.toList_ofList]
  exact trimmed_trimChars isSpace s.toList

theorem trimSpace_eq_self_iff {s : String} : trimSpace s = s ↔ Trimmed isSpace s.toList := by
  rw [← trimChars_eq_self_iff, trimSpace, ← String.toList_inj, String.toList_ofList]

/-- `strings.Trim` for a cutset of one character. -/
def trim (c : Char) (s : String) : String := String.ofList (trimChars (· = c) s.toList)

/-- The text after the last occurrence of a character, if it occurs. -/
def afterLast (c : Char) (s : String) : Option String :=
  if c ∈ s.toList then
    some (String.ofList (s.toList.reverse.takeWhile (· ≠ c)).reverse)
  else none

theorem afterLast_append {c : Char} {b : String} (a : String) (h : c ∉ b.toList) :
    afterLast c (a ++ String.singleton c ++ b) = some b := by
  have hall : ∀ d ∈ b.toList.reverse, decide (d ≠ c) = true := by
    intro d hd
    refine decide_eq_true ?_
    rintro rfl
    exact h (List.mem_reverse.mp hd)
  have htext : (a ++ String.singleton c ++ b).toList.reverse =
      b.toList.reverse ++ c :: a.toList.reverse := by simp
  rw [afterLast, if_pos (by simp), htext, List.takeWhile_append_of_pos hall,
    List.takeWhile_cons_of_neg (by simp), List.append_nil, List.reverse_reverse,
    String.ofList_toList]

/-- `İ`, which becomes `i` in lower case but is folded to no other character. -/
def dottedI : Char := '\u0130'

/-- What is used of the tables of Go's `unicode` package. -/
class GoTables extends CaseTables where
  toLower_ascii : ∀ c : Char, c.toNat < 128 → ¬ ('A' ≤ c ∧ c ≤ 'Z') → toLower c = c
  toLower_dottedI : toLower dottedI = 'i'
  fold_toLower : ∀ c, c ≠ dottedI → fold (toLower c) = fold c
  fold_dottedI : ∀ c, fold c = fold dottedI → c = dottedI
  fold_space : ∀ c d, isSpace c = true → fold d = fold c → d = c

section Ascii

/-- The lower case of the 26 ASCII letters. -/
def asciiLower (c : Char) : Char :=
  if 'A' ≤ c ∧ c ≤ 'Z' then Char.ofNat (c.toNat + 32) else c

private theorem lower_letters : ∀ n < 26,
    asciiLower (Char.ofNat (65 + n)) = Char.ofNat (97 + n) ∧
      asciiLower (Char.ofNat (97 + n)) = Char.ofNat (97 + n) ∧
      Char.ofNat (97 + n) ≠ dottedI ∧ isSpace (Char.ofNat (97 + n)) = false ∧
      isSpace (Char.ofNat (65 + n)) = false := by decide +kernel

private theorem upper_letter {c : Char} (h : 'A' ≤ c ∧ c ≤ 'Z') :
    ∃ n < 26, c = Char.ofNat (65 + n) := by
  have hlo : 65 ≤ c.toNat := h.1
  have hhi : c.toNat ≤ 90 := h.2
  refine ⟨c.toNat - 65, by omega, ?_⟩
  rw [Nat.add_sub_cancel' hlo, Char.ofNat_toNat]

/-- A character is its own lower case, or that is a letter `a` to `z`. -/
theorem asciiLower_cases (c : Char) :
    asciiLower c = c ∨ ∃ n < 26, asciiLower c = Char.ofNat (97 + n) := by
  by_cases h : 'A' ≤ c ∧ c ≤ 'Z'
  · obtain ⟨n, hn, rfl⟩ := upper_letter h
    exact .inr ⟨n, hn, (lower_letters n hn).1⟩
  · exact .inl (if_neg h)

/-- Tables that know the ASCII letters and `İ` have all these facts. -/
@[reducible] def asciiTables : GoTables where
  toLower c := if c = dottedI then 'i' else asciiLower c
  fold := asciiLower
  toLower_ascii c hascii hnot := by
    have hne : c ≠ dottedI := by
      rintro rfl
      exact absurd hascii (by decide)
    rw [if_neg hne, asciiLower, if_neg hnot]
  toLower_dottedI := if_pos rfl
  fold_toLower c hne := by
    rw [if_neg hne]
    rcases asciiLower_cases c with h | ⟨n, hn, h⟩
    · rw [h, h]
    · rw [h, (lower_letters n hn).2.1]
  fold_dottedI c h := by
    rw [show asciiLower dottedI = dottedI by decide] at h
    rcases asciiLower_cases c with hself | ⟨n, hn, hletter⟩
    · exact hself.symm.trans h
    · exact absurd (hletter.symm.trans h) (lower_letters n hn).2.2.1
  fold_space c d hspace h := by
    have hc : asciiLower c = c := by
      refine if_neg fun hupper => ?_
      obtain ⟨n, hn, rfl⟩ := upper_letter hupper
      exact absurd hspace (by simp [(lower_letters n hn).2.2.2.2])
    rw [hc] at h
    rcases asciiLower_cases d with hself | ⟨n, hn, hletter⟩
    · exact hself.symm.trans h
    · rw [hletter] at h
      exact absurd (h ▸ hspace) (by simp [(lower_letters n hn).2.2.2.1])

end Ascii

section Cases

variable [CaseTables]

def toLower (s : String) : String := String.ofList (s.toList.map CaseTables.toLower)

/-- Equality under simple case folding. -/
def equalFold (s t : String) : Bool :=
  s.toList.map CaseTables.fold = t.toList.map CaseTables.fold

/-- No other character folds like this one. -/
def FoldsAlone (c : Char) : Prop := ∀ d, CaseTables.fold d = CaseTables.fold c → d = c

/-- Such a character keeps two texts apart if it is in one of them only. -/
theorem equalFold_of_foldsAlone {c : Char} {s t : String} (h : FoldsAlone c) (hs : c ∉ s.toList)
    (ht : c ∈ t.toList) : equalFold s t = false := by
  rw [equalFold, decide_eq_false_iff_not]
  intro heq
  have hmem : CaseTables.fold c ∈ s.toList.map CaseTables.fold := heq ▸ List.mem_map_of_mem ht
  obtain ⟨d, hd, hfold⟩ := List.mem_map.mp hmem
  exact hs (h d hfold ▸ hd)

end Cases

section Folding

variable [GoTables] {cs ds : List Char} {entry domain : String}

/-- Lower case does not change how a text without `İ` folds. -/
theorem equalFold_toLower (h : dottedI ∉ domain.toList) :
    equalFold entry (toLower domain) = equalFold entry domain := by
  have hmap : (domain.toList.map CaseTables.toLower).map CaseTables.fold =
      domain.toList.map CaseTables.fold := by
    rw [List.map_map]
    refine List.map_congr_left fun c hc => GoTables.fold_toLower c ?_
    rintro rfl
    exact h hc
  simp only [equalFold, toLower, String.toList_ofList, hmap]

/-- A text with `İ` does not fold like its lower case. -/
theorem equalFold_toLower_self (h : dottedI ∈ domain.toList) :
    equalFold domain (toLower domain) = false := by
  simp only [equalFold, toLower, String.toList_ofList, decide_eq_false_iff_not, List.map_map]
  intro heq
  have hfold := List.map_inj_left.mp heq dottedI h
  rw [Function.comp_apply, GoTables.toLower_dottedI] at hfold
  exact absurd (GoTables.fold_dottedI 'i' hfold.symm) (by decide)

/-- A text that folds like one without white space at its ends has none there. -/
theorem Trimmed.of_fold (h : Trimmed isSpace cs)
    (hfold : cs.map CaseTables.fold = ds.map CaseTables.fold) : Trimmed isSpace ds := by
  refine h.of_map hfold fun c d hc heq => ?_
  by_contra hspace
  rw [Bool.not_eq_false] at hspace
  rw [GoTables.fold_space d c hspace heq, hspace] at hc
  exact absurd hc (by simp)

/-- White space is its own lower case. -/
theorem toLower_space {c : Char} (h : isSpace c = true) : CaseTables.toLower c = c := by
  refine GoTables.fold_space c _ h (GoTables.fold_toLower c ?_)
  rintro rfl
  exact absurd h (by decide)

theorem Trimmed.of_toLower (h : Trimmed isSpace (cs.map CaseTables.toLower)) :
    Trimmed isSpace cs := by
  refine h.of_map (List.map_id _) fun c d hc heq => ?_
  rw [id_eq] at heq
  by_contra hspace
  rw [Bool.not_eq_false] at hspace
  rw [heq, toLower_space hspace, hspace] at hc
  exact absurd hc (by simp)

/-- A trimmed entry matches no domain with white space at an end, whether or not
the domain is put in lower case. -/
theorem equalFold_untrimmed (h : trimSpace domain ≠ domain) (entry : String) :
    equalFold (trimSpace entry) (toLower domain) = false ∧
      equalFold (trimSpace entry) domain = false := by
  rw [ne_eq, trimSpace_eq_self_iff] at h
  have hentry := trimmed_trimSpace entry
  constructor
  · rw [equalFold, decide_eq_false_iff_not]
    intro heq
    have hlower := hentry.of_fold heq
    rw [toLower, String.toList_ofList] at hlower
    exact h hlower.of_toLower
  · rw [equalFold, decide_eq_false_iff_not]
    intro heq
    exact h (hentry.of_fold heq)

end Folding

end GoText
