import Kouetsu.Number.Double
import Kouetsu.Text.Basic
/-!
# Shortest decimal text

The fewest decimal digits that read back as the same number, and of those the nearest to
it.  A number is written positionally while its leading digit stands between `10 ^ -4` and
`10 ^ 15`, and with a two-digit exponent beyond.
-/

namespace Kouetsu

namespace Double

private def compareScaled (a : Nat) (p : Int) (c : Nat) (s : Int) : Ordering :=
  let (up2, down2) := powerParts 2 p
  let (up10, down10) := powerParts 10 s
  compare (a * up2 * down10) (c * up10 * down2)

private def floorScaled (a : Nat) (p : Int) (s : Int) : Nat :=
  let (up2, down2) := powerParts 2 p
  let (up10, down10) := powerParts 10 s
  a * up2 * down10 / (down2 * up10)

/-- The least `k` near the guess with `a * 2 ^ p < 10 ^ k`. -/
private def decimalWidth (a : Nat) (p : Int) : Int :=
  let guess := ((Nat.log2 a : Int) + p) * 30103 / 100000
  if compareScaled a p 1 guess = .lt then guess
  else if compareScaled a p 1 (guess + 1) = .lt then guess + 1
  else guess + 2

private def interval (x : Double) : Nat × Nat × Nat :=
  let m := x.mantissa
  let low := if m = leadingBit && x.biased > 1 then 4 * m - 1 else 4 * m - 2
  (low, 4 * m, 4 * m + 2)

private def readsBack (x : Double) (c : Nat) (s : Int) : Bool :=
  let (low, _, high) := x.interval
  let p := x.exponent - 2
  let closed := x.mantissa % 2 = 0
  let atLow := compareScaled low p c s
  let atHigh := compareScaled high p c s
  (atLow = .lt || (closed && atLow = .eq)) && (atHigh = .gt || (closed && atHigh = .eq))

/-- The neighbour of the number on the grid of step `10 ^ s` that reads back, if one does;
of two the nearer, and the even one of two equally near. -/
private def onGrid? (x : Double) (s : Int) : Option Nat :=
  let p := x.exponent - 2
  let c := floorScaled (4 * x.mantissa) p s
  match x.readsBack c s, x.readsBack (c + 1) s with
  | true, true =>
      match compareScaled (8 * x.mantissa) p (2 * c + 1) s with
      | .lt => some c
      | .gt => some (c + 1)
      | .eq => some (if c % 2 = 0 then c else c + 1)
  | true, false => some c
  | false, true => some (c + 1)
  | false, false => none

private def firstGrid (x : Double) (width : Int) : Nat → Nat → Nat × Int
  | 0, n =>
      let s := width - n
      (floorScaled (4 * x.mantissa) (x.exponent - 2) s, s)
  | left + 1, n =>
      match x.onGrid? (width - n) with
      | some c => (c, width - n)
      | none => firstGrid x width left (n + 1)

/-- A positive finite number as `digits * 10 ^ scale` with the fewest digits. -/
def shortest (x : Double) : Nat × Int :=
  let width := decimalWidth (4 * x.mantissa) (x.exponent - 2)
  firstGrid x width 17 1

private def dropZeros (digits : List Char) : List Char :=
  match Text.dropWhileEnd (· = '0') digits with
  | [] => ['0']
  | ds => ds

private def zeros (n : Nat) : List Char := List.replicate n '0'

private def positional (digits : List Char) (point : Int) : List Char :=
  if point ≤ 0 then '0' :: '.' :: zeros (-point).toNat ++ digits
  else
    let whole := point.toNat
    if digits.length ≤ whole then digits ++ zeros (whole - digits.length) ++ ['.', '0']
    else digits.take whole ++ '.' :: digits.drop whole

private def scientific (digits : List Char) (exponent : Int) : List Char :=
  let head := digits.take 1
  let tail := digits.drop 1
  let size := Nat.toDigits 10 exponent.natAbs
  head ++ (if tail.isEmpty then [] else '.' :: tail) ++ ['e', if exponent < 0 then '-' else '+'] ++
    zeros (2 - size.length) ++ size

def text (x : Double) : String :=
  let sign := if x.isNegative && !x.isNaN then ['-'] else []
  let body :=
    if x.isNaN then ['n', 'a', 'n']
    else if !x.isFinite then ['i', 'n', 'f']
    else if x.isZero then ['0', '.', '0']
    else
      let (c, s) := x.shortest
      let all := Nat.toDigits 10 c
      let digits := dropZeros all
      let point := (all.length : Int) + s
      if -4 < point && point ≤ 16 then positional digits point
      else scientific digits (point - 1)
  String.ofList (sign ++ body)

/-! ## The characters of a number -/

def isTextChar (c : Char) : Bool :=
  c.isDigit || c = '-' || c = '+' || c = '.' || c = 'e' || c = 'n' || c = 'a' || c = 'i' || c = 'f'

private theorem all_toDigits (n : Nat) : (Nat.toDigits 10 n).all isTextChar = true := by
  rw [List.all_eq_true]
  intro c hc
  simp [isTextChar, Nat.isDigit_of_mem_toDigits (by decide) (by decide) hc]

private theorem all_zeros (n : Nat) : (zeros n).all isTextChar = true := by
  rw [List.all_eq_true]
  intro c hc
  rw [List.eq_of_mem_replicate hc]
  rfl

private theorem all_dropZeros {digits : List Char} (h : digits.all isTextChar = true) :
    (dropZeros digits).all isTextChar = true := by
  unfold dropZeros
  split
  · rfl
  · rw [List.all_eq_true] at h ⊢
    intro c hc
    exact h c (List.mem_reverse.mp ((List.dropWhile_sublist _).mem (List.mem_reverse.mp hc)))

private theorem all_take_drop {digits : List Char} (h : digits.all isTextChar = true) (n : Nat) :
    (digits.take n).all isTextChar = true ∧ (digits.drop n).all isTextChar = true := by
  rw [← Bool.and_eq_true, ← List.all_append, List.take_append_drop]
  exact h

private theorem all_positional {digits : List Char} (h : digits.all isTextChar = true)
    (point : Int) : (positional digits point).all isTextChar = true := by
  obtain ⟨htake, hdrop⟩ := all_take_drop h point.toNat
  unfold positional
  split
  · simp [List.all_append, all_zeros, h, isTextChar]
  · simp only
    split
    · rw [List.all_append, List.all_append, h, all_zeros]
      rfl
    · rw [List.all_append, htake, List.all_cons, hdrop]
      rfl

private theorem all_scientific {digits : List Char} (h : digits.all isTextChar = true)
    (exponent : Int) : (scientific digits exponent).all isTextChar = true := by
  obtain ⟨htake, hdrop⟩ := all_take_drop h 1
  unfold scientific
  simp only [List.all_append, htake, all_zeros, all_toDigits, Bool.and_true, Bool.true_and,
    Bool.and_eq_true]
  constructor
  · split
    · rfl
    · rw [List.all_cons, hdrop]
      rfl
  · split <;> rfl

theorem all_text (x : Double) : x.text.toList.all isTextChar = true := by
  rw [text, String.toList_ofList, List.all_append, Bool.and_eq_true]
  constructor
  · split <;> rfl
  · split
    · rfl
    · split
      · rfl
      · split
        · rfl
        · simp only
          split
          · exact all_positional (all_dropZeros (all_toDigits _)) _
          · exact all_scientific (all_dropZeros (all_toDigits _)) _

private theorem positional_ne_nil (digits : List Char) (point : Int) :
    positional digits point ≠ [] := by
  unfold positional
  split
  · simp
  · simp only
    split <;> simp

theorem text_ne_nil (x : Double) : x.text.toList ≠ [] := by
  rw [text, String.toList_ofList]
  refine List.append_ne_nil_of_right_ne_nil _ ?_
  split
  · simp
  · split
    · simp
    · split
      · simp
      · simp only
        split
        · exact positional_ne_nil _ _
        · simp [scientific]

end Double

end Kouetsu
