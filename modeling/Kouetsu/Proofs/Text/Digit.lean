import Kouetsu.Proofs.Traverse
import Kouetsu.Text.Digit
import Mathlib.Data.List.DropRight
/-!
# Numerals

A text of digits in the wide sense is an integer exactly if each digit has a value and they are not
too many.  Such a text has no white space, sign or underscore, so it is read digit by digit.
-/

namespace Kouetsu

/-! ## Characters of numerals -/

def blankCodes : List Nat :=
  [9, 10, 11, 12, 13, 0x1c, 0x1d, 0x1e, 0x1f, 0x20, 0x85, 0xa0, 0x1680, 0x2000, 0x2001, 0x2002,
    0x2003, 0x2004, 0x2005, 0x2006, 0x2007, 0x2008, 0x2009, 0x200a, 0x2028, 0x2029, 0x202f, 0x205f,
    0x3000]

theorem toNat_mem_blankCodes {c : Char} (h : isBlank c = true) : c.toNat ∈ blankCodes := by
  simp only [isBlank, Bool.or_eq_true, Bool.and_eq_true, decide_eq_true_eq] at h
  simp only [blankCodes, List.mem_cons]
  omega

theorem not_isDigit_of_mem_blankCodes : ∀ n ∈ blankCodes, isDigit (Char.ofNat n) = false := by
  decide

theorem not_isBlank_of_isDigit {c : Char} (h : isDigit c = true) : isBlank c = false := by
  cases hblank : isBlank c with
  | false => rfl
  | true =>
      have hnot := not_isDigit_of_mem_blankCodes _ (toNat_mem_blankCodes hblank)
      rw [c.ofNat_toNat, h] at hnot
      contradiction

variable {t : Text}

theorem dropWhile_isBlank_eq_self (h : ∀ c ∈ t, isDigit c = true) : t.dropWhile isBlank = t := by
  cases t with
  | nil => rfl
  | cons c rest => simp [not_isBlank_of_isDigit (h c List.mem_cons_self)]

theorem trim_eq_self (h : ∀ c ∈ t, isDigit c = true) : t.trim = t := by
  have hreverse : ∀ c ∈ t.reverse, isDigit c = true := fun c hc => h c (List.mem_reverse.mp hc)
  rw [Text.trim, Text.trimStart, dropWhile_isBlank_eq_self h, Text.trimEnd, Text.dropWhileEnd,
    dropWhile_isBlank_eq_self hreverse, List.reverse_reverse]

theorem signOf_eq_self (h : ∀ c ∈ t, isDigit c = true) : signOf t = (false, t) := by
  unfold signOf
  split
  · next rest => exact absurd (h _ List.mem_cons_self) (by decide)
  · next rest => exact absurd (h _ List.mem_cons_self) (by decide)
  · rfl

/-! ## Reading digits -/

theorem digits?_eq_mapM (hne : t ≠ []) (h : ∀ c ∈ t, isDigit c = true) :
    digits? t = t.mapM digitValue? := by
  fun_induction digits? t with
  | case1 => contradiction
  | case2 c => cases hc : digitValue? c <;> simp [hc]
  | case3 c rest ih => exact absurd (h '_' (by simp)) (by decide)
  | case4 c rest hone hmark ih =>
      have hrest : rest ≠ [] := fun hnil => hone hnil
      rw [List.mapM_cons, ih hrest fun d hd => h d (List.mem_cons_of_mem c hd)]

theorem parseInteger_of_digits (hne : t ≠ []) (h : ∀ c ∈ t, isDigit c = true) :
    parseInteger t = match t.mapM digitValue? with
      | none => .error .malformed
      | some ds =>
          if maxIntegerDigits < ds.length then .error (.tooLong ds.length)
          else .ok (ofDigits ds) := by
  rw [parseInteger, trim_eq_self h, signOf_eq_self h]
  simp only [digits?_eq_mapM hne h]
  rfl

/-! ## The number of some digits -/

theorem ofDigits_concat (ds : List Nat) (d : Nat) :
    ofDigits (ds ++ [d]) = 10 * ofDigits ds + d := by
  rw [ofDigits, List.foldl_append]
  rfl

theorem ofDigits_eq_zero_iff {ds : List Nat} : ofDigits ds = 0 ↔ ∀ d ∈ ds, d = 0 := by
  induction ds using List.reverseRecOn with
  | nil => simp [ofDigits]
  | append_singleton ds d ih =>
      rw [ofDigits_concat, List.forall_mem_append, ← ih, List.forall_mem_singleton]
      omega

theorem ofDigits_concat_eq_iff {ds : List Nat} {d n : Nat} (hn : n < 10) :
    ofDigits (ds ++ [d]) = n ↔ (∀ d ∈ ds, d = 0) ∧ d = n := by
  rw [ofDigits_concat, ← ofDigits_eq_zero_iff]
  omega

end Kouetsu
