import Kouetsu.Position.LineIndex
import Mathlib.Data.List.Basic
import Mathlib.Data.List.TakeWhile
/-!
# Lines of offsets

The line of an offset counts the line feeds before it.  Raw offsets and positions on the first
line agree up to its end, so normalising a range that holds either gives the positions of its
offsets.
-/

namespace Kouetsu

/-! ## Line starts -/

theorem length_takeWhile_lineStartsFrom (t : Text) (base o : Nat) :
    ((lineStartsFrom base t).takeWhile (· ≤ o)).length = (t.take (o - base)).count '\n' := by
  induction t generalizing base with
  | nil => simp [lineStartsFrom]
  | cons c rest ih =>
      rcases Nat.lt_or_ge base o with hlt | hge
      · obtain ⟨d, rfl⟩ : ∃ d, o = base + 1 + d := ⟨o - (base + 1), by omega⟩
        have hnext := ih (base + 1)
        rw [show base + 1 + d - base = d + 1 by omega]
        rw [show base + 1 + d - (base + 1) = d by omega] at hnext
        by_cases hc : c = '\n'
        · subst hc
          simp only [lineStartsFrom, if_pos, List.take_succ_cons, List.count_cons_self]
          rw [List.takeWhile_cons_of_pos (by simp), List.length_cons, hnext]
        · rw [lineStartsFrom, if_neg hc, List.take_succ_cons, List.count_cons_of_ne hc, hnext]
      · have hnext := ih (base + 1)
        rw [show o - (base + 1) = 0 by omega] at hnext
        rw [show o - base = 0 by omega]
        by_cases hc : c = '\n'
        · subst hc
          simp only [lineStartsFrom, if_pos, List.take_zero, List.count_nil]
          rw [List.takeWhile_cons_of_neg (by simp; omega), List.length_nil]
        · simpa [lineStartsFrom, hc] using hnext

namespace LineIndex

/-- The line up to which the line starts reach, and the place in that line. -/
theorem positionAt_ofText (t : Text) (o : Nat) :
    (ofText t).positionAt o =
      ⟨((lineStartsFrom 0 t).takeWhile (· ≤ min o t.length)).length,
        (min o t.length : Nat) -
          (lineStarts t).getD ((lineStartsFrom 0 t).takeWhile (· ≤ min o t.length)).length 0⟩ :=
  rfl

theorem line_positionAt (t : Text) (o : Nat) :
    ((ofText t).positionAt o).line = (t.take o).count '\n' := by
  rw [positionAt_ofText, length_takeWhile_lineStartsFrom, Nat.sub_zero]
  rw [List.take_eq_take_iff.mpr (by omega : min (min o t.length) t.length = min o t.length)]

/-! ## The first line -/

theorem firstLineLength_ofText (t : Text) :
    (ofText t).firstLineLength = (t.takeWhile (· ≠ '\n')).length :=
  rfl

theorem count_take_eq_zero_iff (t : Text) (o : Nat) :
    (t.take o).count '\n' = 0 ↔ min o t.length ≤ (ofText t).firstLineLength := by
  rw [firstLineLength_ofText]
  induction t generalizing o with
  | nil => simp
  | cons c rest ih =>
      cases o with
      | zero => simp
      | succ o =>
          rw [List.take_succ_cons, List.length_cons]
          by_cases hc : c = '\n'
          · subst hc
            rw [List.count_cons_self, List.takeWhile_cons_of_neg (by simp), List.length_nil]
            omega
          · have hrest := ih o
            rw [List.count_cons_of_ne hc, List.takeWhile_cons_of_pos (by simp [hc]),
              List.length_cons]
            omega

theorem positionAt_of_line_eq_zero {t : Text} {o : Nat}
    (h : ((ofText t).positionAt o).line = 0) :
    (ofText t).positionAt o = ⟨0, (min o t.length : Nat)⟩ := by
  rw [positionAt_ofText] at h ⊢
  have hline : ((lineStartsFrom 0 t).takeWhile (· ≤ min o t.length)).length = 0 :=
    Int.ofNat_eq_zero.mp h
  rw [hline]
  simp [lineStarts]

theorem positionAt_of_le_firstLineLength {t : Text} {o : Nat} (ho : o ≤ t.length)
    (h : o ≤ (ofText t).firstLineLength) : (ofText t).positionAt o = ⟨0, o⟩ := by
  have hcount : (t.take o).count '\n' = 0 := (count_take_eq_zero_iff t o).mpr (by omega)
  rw [positionAt_of_line_eq_zero, Nat.min_eq_left ho]
  rw [line_positionAt, hcount]
  rfl

theorem character_le_of_line_eq_zero {t : Text} {o : Nat}
    (h : ((ofText t).positionAt o).line = 0) :
    ((ofText t).positionAt o).character ≤ (ofText t).firstLineLength := by
  rw [positionAt_of_line_eq_zero h]
  rw [line_positionAt, Int.ofNat_eq_zero] at h
  exact Int.ofNat_le.mpr ((count_take_eq_zero_iff t o).mp h)

/-! ## Normalised ranges -/

theorem normalise_ofOffsets {t : Text} {start stop : Nat} (hstart : start ≤ t.length)
    (hstop : stop ≤ t.length) :
    (ofText t).normalise (.ofOffsets start stop) = (ofText t).rangeAt start stop := by
  rw [normalise]
  split
  · rfl
  · next hfirst =>
      simp only [Range.ofOffsets, true_and, not_or] at hfirst
      rw [rangeAt, positionAt_of_le_firstLineLength hstart (by omega),
        positionAt_of_le_firstLineLength hstop (by omega)]
      rfl

theorem normalise_rangeAt (t : Text) (start stop : Nat) :
    (ofText t).normalise ((ofText t).rangeAt start stop) = (ofText t).rangeAt start stop := by
  rw [normalise, if_neg]
  rintro ⟨hstart, hstop, hbeyond⟩
  have hs := character_le_of_line_eq_zero hstart
  have he := character_le_of_line_eq_zero hstop
  simp only [rangeAt] at hbeyond
  omega

/-! ## Offsets of positions -/

theorem exists_line (t : Text) {o : Nat} (ho : o ≤ t.length) :
    ∃ line start : Nat, (lineStarts t)[line]? = some start ∧
      (∀ next, (lineStarts t)[line + 1]? = some next → o < next) ∧
        (ofText t).positionAt o = ⟨line, o - start⟩ := by
  have hlen : ((lineStartsFrom 0 t).takeWhile (· ≤ o)).length < (lineStarts t).length :=
    Nat.lt_succ_of_le (List.takeWhile_prefix _).length_le
  refine ⟨((lineStartsFrom 0 t).takeWhile (· ≤ o)).length, _,
    List.getElem?_eq_getElem hlen, fun next hnext => ?_, ?_⟩
  · have hdrop : ((lineStartsFrom 0 t).dropWhile (· ≤ o)).head? = some next := by
      rw [lineStarts, List.getElem?_cons_succ] at hnext
      nth_rewrite 1 [← List.takeWhile_append_dropWhile (p := (· ≤ o))
        (l := lineStartsFrom 0 t)] at hnext
      rwa [List.getElem?_append_right (Nat.le_refl _), Nat.sub_self,
        ← List.head?_eq_getElem?] at hnext
    have hfirst := List.head?_dropWhile_not (fun x => decide (x ≤ o)) (lineStartsFrom 0 t)
    rw [hdrop] at hfirst
    exact Nat.lt_of_not_le (of_decide_eq_false hfirst)
  · rw [positionAt_ofText, Nat.min_eq_left ho, List.getD_eq_getElem?_getD,
      List.getElem?_eq_getElem hlen, Option.getD_some]

/-- A position counts from the start of its line, but not beyond the end of the text. -/
theorem offsetAt_of_lineStarts {t : Text} {line start : Nat}
    (hstart : (lineStarts t)[line]? = some start) (character : Int) :
    (ofText t).offsetAt ⟨line, character⟩ = min (start + character) t.length := by
  rw [offsetAt, if_neg (Int.not_lt.mpr (Int.natCast_nonneg line))]
  simp only [Int.toNat_natCast, ofText, hstart]

theorem offsetAt_positionAt {t : Text} {o : Nat} (ho : o ≤ t.length) :
    (ofText t).offsetAt ((ofText t).positionAt o) = o := by
  obtain ⟨line, start, hstart, _, hpos⟩ := exists_line t ho
  rw [hpos, offsetAt_of_lineStarts hstart]
  omega

theorem offsetAt_positionAt_of_le {t : Text} {o : Int} (hlow : 0 ≤ o) (hhigh : o ≤ t.length) :
    (ofText t).offsetAt ((ofText t).positionAt o) = o := by
  obtain ⟨n, rfl⟩ := Int.eq_ofNat_of_zero_le hlow
  exact offsetAt_positionAt (by omega)

theorem lineLength_of_lineStarts {t : Text} {line start : Nat}
    (hstart : (lineStarts t)[line]? = some start) :
    (ofText t).lineLength line =
      match (lineStarts t)[line + 1]? with
      | some next => next - 1 - start
      | none => t.length - start := by
  rw [lineLength, if_neg (by omega)]
  simp only [Int.toNat_natCast, ofText, hstart]
  cases (lineStarts t)[line + 1]? <;> rfl

theorem character_le_lineLength {t : Text} {o : Nat} (ho : o ≤ t.length) :
    ((ofText t).positionAt o).character ≤
      (ofText t).lineLength ((ofText t).positionAt o).line := by
  obtain ⟨line, start, hstart, hnext, hpos⟩ := exists_line t ho
  rw [hpos]
  simp only
  rw [lineLength_of_lineStarts hstart]
  cases hafter : (lineStarts t)[line + 1]? with
  | none => simp only; omega
  | some next =>
      have := hnext next hafter
      simp only
      omega

/-- One character on from a position, but not beyond its line, stands at most one offset on. -/
theorem offsetAt_next {t : Text} {o : Nat} (ho : o < t.length) :
    let p := (ofText t).positionAt o
    let stop := (ofText t).offsetAt ⟨p.line, min (p.character + 1) ((ofText t).lineLength p.line)⟩
    (o : Int) ≤ stop ∧ stop ≤ o + 1 := by
  obtain ⟨line, start, hstart, _, hpos⟩ := exists_line t (Nat.le_of_lt ho)
  have hlength := character_le_lineLength (Nat.le_of_lt ho)
  rw [hpos] at hlength
  simp only at hlength
  intro p stop
  have hp : p = ⟨line, o - start⟩ := hpos
  have hstop : stop = min ((start : Int) +
      min ((o : Int) - start + 1) ((ofText t).lineLength line)) t.length := by
    show (ofText t).offsetAt _ = _
    rw [hp, offsetAt_of_lineStarts hstart]
  omega

/-! ## The order of positions -/

theorem character_nonneg (t : Text) (o : Nat) : 0 ≤ ((ofText t).positionAt o).character := by
  rw [positionAt_ofText]
  show (0 : Int) ≤ (min o t.length : Nat) - _
  generalize hstarts : (lineStartsFrom 0 t).takeWhile (· ≤ min o t.length) = before
  suffices h : (lineStarts t).getD before.length 0 ≤ min o t.length by omega
  cases hlast : before.length with
  | zero => exact Nat.zero_le _
  | succ n =>
      have hn : n < before.length := by omega
      have hprefix : before <+: lineStartsFrom 0 t := hstarts ▸ List.takeWhile_prefix _
      have hget : (lineStarts t)[n + 1]? = some before[n] := by
        rw [lineStarts, List.getElem?_cons_succ]
        exact List.prefix_iff_getElem?.mp hprefix n hn
      have hmem : before[n] ∈ (lineStartsFrom 0 t).takeWhile (· ≤ min o t.length) :=
        hstarts ▸ List.getElem_mem hn
      have hle := List.mem_takeWhile_imp (p := fun x => decide (x ≤ min o t.length)) hmem
      rw [List.getD_eq_getElem?_getD, hget, Option.getD_some]
      exact of_decide_eq_true hle

/-- Of two offsets the later one stands on a later line, or on the same line by as much further
on. -/
theorem line_lt_or_same {t : Text} {o p : Nat} (hop : o ≤ p) (hp : p ≤ t.length) :
    ((ofText t).positionAt o).line < ((ofText t).positionAt p).line ∨
      ((ofText t).positionAt o).line = ((ofText t).positionAt p).line ∧
        ((ofText t).positionAt p).character - ((ofText t).positionAt o).character = p - o := by
  have hlines : ((ofText t).positionAt o).line ≤ ((ofText t).positionAt p).line := by
    rw [line_positionAt, line_positionAt]
    exact Int.ofNat_le.mpr ((List.take_sublist_take_left hop).count_le '\n')
  obtain ⟨k, start, hstart, _, hpos⟩ := exists_line t (hop.trans hp)
  obtain ⟨l, start', hstart', _, hpos'⟩ := exists_line t hp
  rw [hpos, hpos'] at hlines ⊢
  simp only at hlines ⊢
  by_cases hsame : k = l
  · subst hsame
    obtain rfl := Option.some.inj (hstart.symm.trans hstart')
    exact Or.inr ⟨rfl, by omega⟩
  · exact Or.inl (by omega)

theorem before_positionAt {t : Text} {o p : Nat} (hop : o ≤ p) (hp : p ≤ t.length) :
    ((ofText t).positionAt p).before ((ofText t).positionAt o) = false := by
  have hline := line_lt_or_same hop hp
  simp only [Position.before, Bool.or_eq_false_iff, Bool.and_eq_false_iff, decide_eq_false_iff_not]
  omega

theorem before_positionAt_of_lt {t : Text} {o p : Nat} (hop : o < p) (hp : p ≤ t.length) :
    ((ofText t).positionAt o).before ((ofText t).positionAt p) = true := by
  have hline := line_lt_or_same (Nat.le_of_lt hop) hp
  simp only [Position.before, Bool.or_eq_true, Bool.and_eq_true, decide_eq_true_eq]
  omega

/-! ## The end of a character -/

theorem count_take_succ {t : Text} {o : Nat} (ho : o < t.length) :
    (t.take (o + 1)).count '\n' = (t.take o).count '\n' + if t[o]? = some '\n' then 1 else 0 := by
  rw [List.take_add_one, List.count_append, List.getElem?_eq_getElem ho, Option.toList_some,
    List.count_singleton]
  simp

theorem line_positionAt_succ {t : Text} {o : Nat} (ho : o < t.length) :
    ((ofText t).positionAt (o + 1 : Nat)).line =
      ((ofText t).positionAt o).line + (if t[o]? = some '\n' then 1 else 0 : Nat) := by
  have hcount := count_take_succ ho
  rw [line_positionAt, line_positionAt]
  omega

/-- One character on from a position stands on its line, unless a line feed is stepped over. -/
theorem next_character {t : Text} {o : Nat} (ho : o < t.length) :
    let p := (ofText t).positionAt o
    min (p.character + 1) ((ofText t).lineLength p.line) =
      if t[o]? = some '\n' then p.character else p.character + 1 := by
  obtain ⟨line, start, hstart, hnext, hpos⟩ := exists_line t (Nat.le_of_lt ho)
  obtain ⟨line', start', hstart', hnext', hpos'⟩ := exists_line t (Nat.succ_le_of_lt ho)
  have hlines : line' = line + if t[o]? = some '\n' then 1 else 0 := by
    have hline := line_positionAt_succ ho
    rw [hpos, hpos'] at hline
    simp only at hline
    omega
  have hlength := lineLength_of_lineStarts hstart
  intro p
  have hp : p = ⟨line, o - start⟩ := hpos
  rw [hp]
  simp only
  by_cases hfeed : t[o]? = some '\n'
  · rw [if_pos hfeed] at hlines ⊢
    subst hlines
    have hle := character_nonneg t o
    have hle' := character_nonneg t (o + 1)
    have hbefore : o < start' := hnext start' hstart'
    rw [hpos] at hle
    rw [hpos'] at hle'
    rw [hstart'] at hlength
    simp only at hle hle' hlength
    omega
  · rw [if_neg hfeed, Nat.add_zero] at hlines
    rw [if_neg hfeed]
    subst hlines
    cases hafter : (lineStarts t)[line' + 1]? with
    | none =>
        rw [hafter] at hlength
        simp only at hlength
        omega
    | some next =>
        have hbeyond := hnext' next hafter
        rw [hafter] at hlength
        simp only at hlength
        omega

/-- The end of a character stands right behind it, or before it if it is a line feed. -/
theorem offsetAt_end {t : Text} {o : Nat} (ho : o < t.length) :
    let p := (ofText t).positionAt o
    (ofText t).offsetAt ⟨p.line, min (p.character + 1) ((ofText t).lineLength p.line)⟩ =
      if t[o]? = some '\n' then (o : Int) else o + 1 := by
  obtain ⟨line, start, hstart, _, hpos⟩ := exists_line t (Nat.le_of_lt ho)
  intro p
  have hp : p = ⟨line, o - start⟩ := hpos
  rw [next_character ho]
  show (ofText t).offsetAt ⟨p.line, if t[o]? = some '\n' then p.character else p.character + 1⟩ = _
  rw [hp, offsetAt_of_lineStarts hstart]
  simp only
  split <;> omega

theorem offsetAt_le (ix : LineIndex) (p : Position) : ix.offsetAt p ≤ ix.text.length := by
  rw [offsetAt]
  split
  · exact Int.natCast_nonneg _
  · cases ix.starts[p.line.toNat]? with
    | none => exact Int.le_refl _
    | some start => exact Int.min_le_right _ _

/-! ## Texts with the same lines -/

variable {ix jx : LineIndex}

theorem positionAt_congr (hlen : ix.text.length = jx.text.length) (hstarts : ix.starts = jx.starts)
    (o : Int) : ix.positionAt o = jx.positionAt o := by
  rw [positionAt, positionAt, hlen, hstarts]

end LineIndex
end Kouetsu
