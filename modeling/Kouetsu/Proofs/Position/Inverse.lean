import Kouetsu.Proofs.Position.LineIndex
import Kouetsu.Proofs.Text.Scan
/-!
# Offsets and positions are one to one

Every offset of a text is a place in exactly one of its lines, the end of the line included.  So
the positions on the lines are those of the offsets, each of one offset alone, in the same order.
-/

namespace Kouetsu

namespace Text

/-! ## Numbered lines -/

theorem map_snd_numberPieces (offset : Nat) (pieces : List Text) :
    (numberPieces offset pieces).map (·.2) = pieces := by
  induction pieces generalizing offset with
  | nil => rfl
  | cons piece more ih => rw [numberPieces, List.map_cons, ih]

theorem map_fst_numberPieces_lines (offset : Nat) (t : Text) :
    (numberPieces offset t.lines).map (·.1) = offset :: lineStartsFrom offset t := by
  induction t generalizing offset with
  | nil => rfl
  | cons c rest ih =>
      have hrest := ih (offset + 1)
      rw [lines, lineStartsFrom]
      split
      · rw [numberPieces, List.map_cons, List.length_nil, Nat.add_zero, hrest]
      · cases hlines : lines rest with
        | nil => exact absurd hlines (lines_ne_nil rest)
        | cons line more =>
            -- the character joins the first line of the rest, so the later lines start as before
            rw [hlines, numberPieces, List.map_cons, List.cons.injEq] at hrest
            simp only
            rw [numberPieces, List.map_cons, List.length_cons, ← hrest.2,
              show offset + (line.length + 1) + 1 = offset + 1 + line.length + 1 by omega]

variable {offset k : Nat} {pieces : List Text} {t : Text} {x y : Nat × Text}

theorem start_of_getElem?_succ (hx : (numberPieces offset pieces)[k]? = some x)
    (hy : (numberPieces offset pieces)[k + 1]? = some y) : y.1 = x.1 + x.2.length + 1 := by
  induction pieces generalizing offset k with
  | nil => simp [numberPieces] at hx
  | cons piece more ih =>
      cases k with
      | succ k => exact ih hx hy
      | zero =>
          cases more with
          | nil => simp [numberPieces] at hy
          | cons next more =>
              obtain rfl := Option.some.inj hx
              obtain rfl := Option.some.inj hy
              rfl

theorem stop_of_getElem?_last (sep : Char) (hx : (numberPieces offset pieces)[k]? = some x)
    (hlast : (numberPieces offset pieces)[k + 1]? = none) :
    x.1 + x.2.length = offset + ([sep].intercalate pieces).length := by
  induction pieces generalizing offset k with
  | nil => simp [numberPieces] at hx
  | cons piece more ih =>
      cases more with
      | nil =>
          cases k with
          | zero =>
              obtain rfl := Option.some.inj hx
              simp
          | succ k => simp [numberPieces] at hx
      | cons next more =>
          cases k with
          | zero => simp [numberPieces] at hlast
          | succ k =>
              rw [List.intercalate_cons_cons, List.length_append, List.length_append, ih hx hlast,
                List.length_singleton]
              omega

theorem getElem?_lineStarts (t : Text) (k : Nat) :
    (lineStarts t)[k]? = (t.numberedLines[k]?).map (·.1) := by
  rw [lineStarts, ← map_fst_numberPieces_lines, List.getElem?_map, numberedLines]

theorem getElem?_lines (t : Text) (k : Nat) :
    t.lines[k]? = (t.numberedLines[k]?).map (·.2) := by
  rw [← List.getElem?_map, numberedLines, map_snd_numberPieces]

/-! ## Places on lines -/

def PlaceAt (t : Text) (o line character : Nat) : Prop :=
  ∃ x, t.numberedLines[line]? = some x ∧ character ≤ x.2.length ∧ o = x.1 + character

variable {o line line' character character' : Nat}

theorem PlaceAt.le_length (h : t.PlaceAt o line character) : o ≤ t.length := by
  obtain ⟨x, hx, hle, rfl⟩ := h
  have hstop := stop_le_of_mem_numberedLines (List.mem_of_getElem? hx)
  omega

/-- The lines end before the next one starts, so no offset stands on two of them. -/
theorem PlaceAt.not_lt (h : t.PlaceAt o line character) (h' : t.PlaceAt o line' character') :
    ¬line < line' := by
  intro hlt
  obtain ⟨x, hx, hle, rfl⟩ := h
  obtain ⟨y, hy, _, hsame⟩ := h'
  have hapart := List.pairwise_iff_getElem.mp (pairwise_numberPieces 0 t.lines)
  obtain ⟨hk, rfl⟩ := List.getElem?_eq_some_iff.mp hx
  obtain ⟨hl, rfl⟩ := List.getElem?_eq_some_iff.mp hy
  have := hapart line line' hk hl hlt
  simp only [numberedLines] at hle hsame
  omega

theorem PlaceAt.unique (h : t.PlaceAt o line character) (h' : t.PlaceAt o line' character') :
    line = line' ∧ character = character' := by
  obtain rfl : line = line' := by
    have := h.not_lt h'
    have := h'.not_lt h
    omega
  obtain ⟨x, hx, _, rfl⟩ := h
  obtain ⟨y, hy, _, hsame⟩ := h'
  obtain rfl := Option.some.inj (hx.symm.trans hy)
  exact ⟨rfl, by omega⟩

end Text

namespace LineIndex

variable {t : Text} {o line character : Nat}

theorem lineLength_eq {x : Nat × Text} (hx : t.numberedLines[line]? = some x) :
    (ofText t).lineLength line = x.2.length := by
  have hstart : (lineStarts t)[line]? = some x.1 := by
    rw [Text.getElem?_lineStarts, hx, Option.map_some]
  rw [lineLength_of_lineStarts hstart, Text.getElem?_lineStarts]
  cases hafter : t.numberedLines[line + 1]? with
  | none =>
      have hstop := Text.stop_of_getElem?_last '\n' hx hafter
      rw [Text.intercalate_lines] at hstop
      show t.length - x.1 = x.2.length
      omega
  | some y =>
      have hnext := Text.start_of_getElem?_succ hx hafter
      show y.1 - 1 - x.1 = x.2.length
      omega

theorem exists_placeAt (ho : o ≤ t.length) :
    ∃ line character : Nat, t.PlaceAt o line character ∧
      (ofText t).positionAt o = ⟨line, character⟩ := by
  obtain ⟨line, start, hstart, -, hpos⟩ := exists_line t ho
  have hnonneg := character_nonneg t o
  have hlength := character_le_lineLength ho
  rw [hpos] at hnonneg hlength
  simp only at hnonneg hlength
  rw [Text.getElem?_lineStarts, Option.map_eq_some_iff] at hstart
  obtain ⟨x, hx, rfl⟩ := hstart
  rw [lineLength_eq hx] at hlength
  exact ⟨line, o - x.1, ⟨x, hx, by omega, by omega⟩, by rw [hpos, Int.ofNat_sub (by omega)]⟩

theorem positionAt_of_placeAt (h : t.PlaceAt o line character) :
    (ofText t).positionAt o = ⟨line, character⟩ := by
  obtain ⟨line', character', hplace, hpos⟩ := exists_placeAt h.le_length
  obtain ⟨rfl, rfl⟩ := h.unique hplace
  exact hpos

theorem offsetAt_of_placeAt (h : t.PlaceAt o line character) :
    (ofText t).offsetAt ⟨line, character⟩ = o := by
  rw [← positionAt_of_placeAt h, offsetAt_positionAt h.le_length]

/-! ## Positions on lines -/

theorem length_starts (t : Text) : (ofText t).starts.length = t.numberedLines.length := by
  have hstarts := congrArg List.length (Text.map_fst_numberPieces_lines 0 t)
  rw [List.length_map] at hstarts
  exact hstarts.symm

structure Holds (ix : LineIndex) (p : Position) : Prop where
  line_nonneg : 0 ≤ p.line
  line_lt : p.line < ix.starts.length
  character_nonneg : 0 ≤ p.character
  character_le : p.character ≤ ix.lineLength p.line

instance (ix : LineIndex) (p : Position) : Decidable (ix.Holds p) :=
  decidable_of_iff
    (0 ≤ p.line ∧ p.line < ix.starts.length ∧ 0 ≤ p.character ∧ p.character ≤ ix.lineLength p.line)
    ⟨fun ⟨hline, hlt, hcharacter, hle⟩ => ⟨hline, hlt, hcharacter, hle⟩,
      fun ⟨hline, hlt, hcharacter, hle⟩ => ⟨hline, hlt, hcharacter, hle⟩⟩

theorem holds_iff {p : Position} :
    (ofText t).Holds p ↔ ∃ o line character : Nat, t.PlaceAt o line character ∧
      p = ⟨line, character⟩ := by
  constructor
  · rintro ⟨hline, hlt, hcharacter, hle⟩
    obtain ⟨line, hline⟩ := Int.eq_ofNat_of_zero_le hline
    obtain ⟨character, hcharacter⟩ := Int.eq_ofNat_of_zero_le hcharacter
    rw [hline, length_starts, Int.ofNat_lt] at hlt
    have hx := List.getElem?_eq_getElem hlt
    rw [hline, lineLength_eq hx, hcharacter, Int.ofNat_le] at hle
    exact ⟨_, line, character, ⟨_, hx, hle, rfl⟩, by rw [← hline, ← hcharacter]⟩
  · rintro ⟨_, line, character, ⟨x, hx, hle, -⟩, rfl⟩
    obtain ⟨hlt, -⟩ := List.getElem?_eq_some_iff.mp hx
    refine ⟨Int.natCast_nonneg _, ?_, Int.natCast_nonneg _, ?_⟩
    · rw [length_starts]
      exact Int.ofNat_lt.mpr hlt
    · rw [lineLength_eq hx]
      exact Int.ofNat_le.mpr hle

theorem positionAt_clamp (ix : LineIndex) (o : Int) :
    ix.positionAt o = ix.positionAt (max 0 (min o ix.text.length)) := by
  have hclamp : min (max 0 (min o (ix.text.length : Int))).toNat ix.text.length =
      min o.toNat ix.text.length := by
    omega
  rw [positionAt, positionAt, hclamp]

/-- The offsets of a text and the positions on its lines are one to one and in the same order. -/
theorem positionAt_bijective (t : Text) :
    let ix := ofText t
    (ix.starts.length = t.lines.length ∧
        ∀ (line : Nat) (u : Text), t.lines[line]? = some u → ix.lineLength line = u.length) ∧
      (∀ o : Int, 0 ≤ o → o ≤ t.length →
        ix.Holds (ix.positionAt o) ∧ ix.offsetAt (ix.positionAt o) = o) ∧
      (∀ p, ix.Holds p →
        0 ≤ ix.offsetAt p ∧ ix.offsetAt p ≤ t.length ∧ ix.positionAt (ix.offsetAt p) = p) ∧
      (∀ o o' : Int, 0 ≤ o → o < o' → o' ≤ t.length →
        (ix.positionAt o).before (ix.positionAt o') = true) ∧
      ∀ o : Int, ix.positionAt o = ix.positionAt (max 0 (min o t.length)) := by
  intro ix
  have hlines : ix.starts.length = t.lines.length := by
    have hpieces := congrArg List.length (Text.map_snd_numberPieces 0 t.lines)
    rw [List.length_map] at hpieces
    rw [length_starts, Text.numberedLines, hpieces]
  refine ⟨⟨hlines, fun line u hu => ?_⟩, fun o hlow hhigh => ?_, fun p hp => ?_,
    fun o o' hlow hlt hhigh => ?_, ix.positionAt_clamp⟩
  · rw [Text.getElem?_lines, Option.map_eq_some_iff] at hu
    obtain ⟨x, hx, rfl⟩ := hu
    exact lineLength_eq hx
  · obtain ⟨n, rfl⟩ := Int.eq_ofNat_of_zero_le hlow
    obtain ⟨line, character, hplace, hpos⟩ := exists_placeAt (Int.ofNat_le.mp hhigh)
    exact ⟨holds_iff.mpr ⟨n, line, character, hplace, hpos⟩, offsetAt_positionAt_of_le hlow hhigh⟩
  · obtain ⟨n, line, character, hplace, rfl⟩ := holds_iff.mp hp
    rw [offsetAt_of_placeAt hplace]
    exact ⟨Int.natCast_nonneg n, Int.ofNat_le.mpr hplace.le_length, positionAt_of_placeAt hplace⟩
  · obtain ⟨n, rfl⟩ := Int.eq_ofNat_of_zero_le hlow
    obtain ⟨m, rfl⟩ := Int.eq_ofNat_of_zero_le (Int.le_trans hlow (Int.le_of_lt hlt))
    exact before_positionAt_of_lt (Int.ofNat_lt.mp hlt) (Int.ofNat_le.mp hhigh)

/-- The offsets around a line feed, the empty line behind the last one, and what lies beyond. -/
theorem positionAt_bijective_closing_feed :
    let ix := ofText "ab\ncd\n".toList
    ix.offsetAt (ix.positionAt 2) = 2 ∧ ix.positionAt 2 = ⟨0, 2⟩ ∧
      (ix.positionAt 2).before (ix.positionAt 3) = true ∧
      ix.Holds ⟨2, 0⟩ ∧ ix.positionAt (ix.offsetAt ⟨2, 0⟩) = ⟨2, 0⟩ ∧
      ix.positionAt (-3) = ⟨0, 0⟩ ∧ ix.positionAt 100 = ⟨2, 0⟩ := by
  intro ix
  obtain ⟨-, hoffsets, hpositions, hbefore, hclamp⟩ := positionAt_bijective "ab\ncd\n".toList
  have hholds : ix.Holds ⟨2, 0⟩ := by decide
  obtain ⟨-, htwo⟩ := hoffsets 2 (by decide) (by decide)
  obtain ⟨-, -, hlast⟩ := hpositions ⟨2, 0⟩ hholds
  exact ⟨htwo, by decide, hbefore 2 3 (by decide) (by decide) (by decide), hholds, hlast,
    (hclamp (-3)).trans (by decide), (hclamp 100).trans (by decide)⟩

end LineIndex

end Kouetsu
