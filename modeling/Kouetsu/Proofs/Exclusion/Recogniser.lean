import Kouetsu.Exclusion.Recogniser
import Kouetsu.Proofs.Text.Scan
import Mathlib.Data.List.TakeWhile
/-!
# Bounds of markup

No recogniser of markup reaches beyond the text, line marks end inside their line, and a line
with a mark belongs to no table.
-/

namespace Kouetsu

namespace Markup

open Text

/-! ## Recognisers -/

theorem bounded_codeBlock : Bounded codeBlock := by
  intro before t n h
  rw [codeBlock] at h
  split at h
  · obtain ⟨i, hi, rfl⟩ := Option.map_eq_some_iff.mp h
    have hlen := add_length_le_of_find? hi
    rw [List.length_drop] at hlen
    simp only [fence, List.length_cons, List.length_nil] at hlen
    omega
  · simp at h

theorem length_takeWhile_lt {p : Char → Bool} {t : Text} {c : Char}
    (h : (t.drop (t.takeWhile p).length).head? = some c) : (t.takeWhile p).length < t.length := by
  rw [List.head?_drop] at h
  exact (List.getElem?_eq_some_iff.mp h).1

theorem bounded_inlineCode : Bounded inlineCode := by
  intro before t n h
  unfold inlineCode at h
  split at h
  · next rest =>
      simp only at h
      split at h
      · next hclosed =>
          rw [Bool.and_eq_true, decide_eq_true_eq] at hclosed
          have hlt := length_takeWhile_lt hclosed.2
          rw [Option.some.injEq] at h
          rw [List.length_cons]
          omega
      · simp at h
  · simp at h

theorem length_le_of_scheme? {t : Text} {n : Nat} (h : scheme? t = some n) : n ≤ t.length := by
  rw [scheme?] at h
  split at h
  · next hlead =>
      rw [Option.some.injEq] at h
      rw [← h]
      exact length_le_of_startsWith hlead
  · split at h
    · next hlead =>
        rw [Option.some.injEq] at h
        rw [← h]
        exact length_le_of_startsWith hlead
    · simp at h

theorem bounded_plainUrl : Bounded plainUrl := by
  intro before t n h
  obtain ⟨m, hm, h⟩ := Option.bind_eq_some_iff.mp h
  have hlead := length_le_of_scheme? hm
  have hbody := length_takeWhile_le
    (fun c => !isBlank c && !"<>[]()".toList.contains c) (t.drop m)
  rw [List.length_drop] at hbody
  simp only at h
  split at h
  · simp at h
  · rw [Option.some.injEq] at h
    omega

theorem length_le_of_linkParts? {t : Text} {label url : Nat}
    (h : linkParts? t = some (label, url)) : label + url + 4 ≤ t.length := by
  unfold linkParts? at h
  split at h
  · next rest =>
      simp only at h
      split at h
      · next target hrest =>
          split at h
          · next hclosed =>
              rw [Bool.and_eq_true, decide_eq_true_eq] at hclosed
              have hurl := length_takeWhile_lt hclosed.2
              have hlen := congrArg List.length hrest
              rw [List.length_drop, List.length_cons, List.length_cons] at hlen
              rw [Option.some.injEq, Prod.mk.injEq] at h
              rw [List.length_cons]
              omega
          · simp at h
      · simp at h
  · simp at h

theorem bounded_link : Bounded link := by
  intro before t n h
  obtain ⟨⟨label, url⟩, hparts, rfl⟩ := Option.map_eq_some_iff.mp h
  exact length_le_of_linkParts? hparts

theorem bounded_autoLink : Bounded autoLink := by
  intro before t n h
  unfold autoLink at h
  split at h
  · next rest =>
      obtain ⟨m, hm, h⟩ := Option.bind_eq_some_iff.mp h
      have hlead := length_le_of_scheme? hm
      simp only at h
      split at h
      · next hclosed =>
          rw [Bool.and_eq_true, decide_eq_true_eq, ← List.drop_drop] at hclosed
          have hbody := length_takeWhile_lt hclosed.2
          rw [List.length_drop] at hbody
          rw [Option.some.injEq] at h
          rw [List.length_cons]
          omega
      · simp at h
  · simp at h

theorem bounded_configKey : Bounded configKey := by
  intro before t n h
  rw [configKey] at h
  split at h
  · simp at h
  · obtain ⟨lead, hfound, h⟩ := Option.bind_eq_some_iff.mp h
    have hlead := length_le_of_startsWith (List.find?_some hfound)
    have hbody := length_takeWhile_le (fun c => isAsciiWordChar c || c = '.') (t.drop lead.length)
    rw [List.length_drop] at hbody
    simp only at h
    split at h
    · simp at h
    · rw [Option.some.injEq] at h
      omega

/-! ## Line marks -/

theorem length_le_of_headingMark? {line : Text} {n : Nat} (h : headingMark? line = some n) :
    n ≤ line.length := by
  rw [headingMark?] at h
  split at h
  · next hmark =>
      rw [Bool.and_eq_true, Option.any_eq_true] at hmark
      obtain ⟨_, c, hc, _⟩ := hmark
      have hlt := length_takeWhile_lt hc
      rw [Option.some.injEq] at h
      omega
  · simp at h

theorem length_le_of_bulletMark? {line : Text} {n : Nat} (h : bulletMark? line = some n) :
    n ≤ line.length := by
  rw [bulletMark?] at h
  split at h
  · next c d rest hline =>
      have hlen := congrArg List.length hline
      rw [List.length_drop, List.length_cons, List.length_cons] at hlen
      split at h
      · rw [Option.some.injEq] at h
        omega
      · simp at h
  · simp at h

theorem length_le_of_ordinalMark? {line : Text} {n : Nat} (h : ordinalMark? line = some n) :
    n ≤ line.length := by
  rw [ordinalMark?] at h
  split at h
  · next d rest hline =>
      have hlen := congrArg List.length hline
      rw [List.length_drop, List.length_cons, List.length_cons] at hlen
      split at h
      · rw [Option.some.injEq] at h
        omega
      · simp at h
  · simp at h

theorem listMark?_eq_some {line : Text} {n : Nat} (h : listMark? line = some n) :
    bulletMark? line = some n ∨ ordinalMark? line = some n := by
  rw [listMark?, Option.or_eq_some_iff] at h
  tauto

theorem length_le_of_listMark? {line : Text} {n : Nat} (h : listMark? line = some n) :
    n ≤ line.length :=
  (listMark?_eq_some h).elim length_le_of_bulletMark? length_le_of_ordinalMark?

/-! ## Table lines -/

def firstVisible? (line : Text) : Option Char := List.find? (fun c => !isBlank c) line

theorem firstVisible?_eq_head? (line : Text) :
    firstVisible? line = (line.dropWhile isBlank).head? := by
  rw [firstVisible?, List.find?_eq_head?_dropWhile_not]
  simp

theorem firstVisible?_of_isTableSeparator {line : Text} (h : isTableSeparator line = true) :
    firstVisible? line = some '|' := by
  unfold isTableSeparator at h
  split at h
  · next rest hline => rw [firstVisible?, ← List.head?_filter, hline, List.head?_cons]
  · simp at h

theorem firstVisible?_of_isTableRow {line : Text} (h : isTableRow line = true) :
    firstVisible? line = some '|' := by
  unfold isTableRow at h
  split at h
  · next rest hline =>
      have hprefix : line.trim <+: line.dropWhile isBlank := by
        rw [Text.trim, Text.trimEnd, Text.dropWhileEnd, Text.trimStart, ← List.reverse_suffix,
          List.reverse_reverse]
        exact List.dropWhile_suffix _
      obtain ⟨tail, htail⟩ := hprefix
      rw [firstVisible?_eq_head?, ← htail, hline]
      rfl
  · simp at h

theorem drop_length_takeWhile (p : Char → Bool) (t : Text) :
    t.drop (t.takeWhile p).length = t.dropWhile p := by
  induction t with
  | nil => rfl
  | cons c rest ih =>
      cases hc : p c with
      | true => simp [hc, ih]
      | false => simp [hc]

theorem tableLine_eq_outside {line : Text} (h : firstVisible? line ≠ some '|') :
    tableLine line = .outside := by
  rw [tableLine, if_neg (mt firstVisible?_of_isTableSeparator h),
    if_neg (mt firstVisible?_of_isTableRow h)]

theorem tableLine_of_headingMark? {line : Text} {n : Nat} (h : headingMark? line = some n) :
    tableLine line = .outside := by
  apply tableLine_eq_outside
  cases line with
  | nil => simp [firstVisible?]
  | cons c rest =>
      by_cases hc : c = '#'
      · subst hc
        have hvisible : isBlank '#' = false := by decide
        simp [firstVisible?, hvisible]
      · simp [headingMark?, hc] at h

theorem tableLine_of_listMark? {line : Text} {n : Nat} (h : listMark? line = some n) :
    tableLine line = .outside := by
  apply tableLine_eq_outside
  rw [firstVisible?_eq_head?]
  rcases listMark?_eq_some h with h | h
  · rw [bulletMark?, drop_length_takeWhile] at h
    split at h
    · next c d rest hline =>
        rw [hline, List.head?_cons]
        rintro hbar
        rw [Option.some.injEq] at hbar
        subst hbar
        simp at h
    · simp at h
  · rw [ordinalMark?, drop_length_takeWhile] at h
    split at h
    · split at h
      · next hdigits =>
          rw [Bool.and_eq_true, decide_eq_true_eq] at hdigits
          intro hbar
          cases hrest : line.dropWhile isBlank with
          | nil => simp [hrest] at hbar
          | cons c rest =>
              rw [hrest, List.head?_cons, Option.some.injEq] at hbar
              subst hbar
              have hdecimal : isDecimal '|' = false := by decide
              simp [hrest, hdecimal] at hdigits
      · simp at h
    · simp at h

end Markup

end Kouetsu
