import Kouetsu.Text.Blank
import Mathlib.Data.List.Basic
/-!
# Spans found in a text

Searches answer spans inside their text: matches of a recogniser that does not reach beyond
the text, occurrences of phrases, lines with their offsets, and spans without the white space
around them.
-/

namespace Kouetsu

theorem eq_or_rel_of_pairwise {α : Type} {R : α → α → Prop} {l : List α} (h : l.Pairwise R)
    {a b : α} (ha : a ∈ l) (hb : b ∈ l) : a = b ∨ R a b ∨ R b a := by
  induction h with
  | nil => simp at ha
  | cons hhead htail ih =>
      rcases List.mem_cons.mp ha with rfl | hatail
      · rcases List.mem_cons.mp hb with rfl | hbtail
        · exact Or.inl rfl
        · exact Or.inr (Or.inl (hhead b hbtail))
      · rcases List.mem_cons.mp hb with rfl | hbtail
        · exact Or.inr (Or.inr (hhead a hatail))
        · exact ih hatail hbtail

def Span.shift (n : Nat) (s : Span) : Span := ⟨s.start + n, s.stop + n⟩

structure Span.Within (s : Span) (t : Text) : Prop where
  ordered : s.start ≤ s.stop
  bounded : s.stop ≤ t.length

namespace Text

/-! ## Recognisers -/

def Bounded (r : Recogniser) : Prop := ∀ before t n, r before t = some n → n ≤ t.length

theorem bounds_of_mem_scanFrom {r : Recogniser} (hr : Bounded r) {t : Text}
    {before : Option Char} {offset skip : Nat} {s : Span}
    (hs : s ∈ scanFrom r before offset skip t) :
    offset ≤ s.start ∧ s.start < s.stop ∧ s.stop ≤ offset + t.length := by
  induction t generalizing before offset skip with
  | nil => simp [scanFrom] at hs
  | cons c rest ih =>
      rw [List.length_cons]
      cases skip with
      | succ skip =>
          have := ih hs
          omega
      | zero =>
          rw [scanFrom] at hs
          split at hs
          · next n hn =>
              have hlen := hr _ _ _ hn
              rw [List.length_cons] at hlen
              rcases List.mem_cons.mp hs with rfl | hs
              · simp only
                omega
              · have := ih hs
                omega
          · have := ih hs
            omega

theorem length_of_mem_scanFrom {r : Recogniser} {n : Nat}
    (hr : ∀ before t m, r before t = some m → m = n) {t : Text} {before : Option Char}
    {offset skip : Nat} {s : Span} (hs : s ∈ scanFrom r before offset skip t) :
    s.stop = s.start + n := by
  induction t generalizing before offset skip with
  | nil => simp [scanFrom] at hs
  | cons c rest ih =>
      cases skip with
      | succ skip => exact ih hs
      | zero =>
          rw [scanFrom] at hs
          split at hs
          · next m hm =>
              rcases List.mem_cons.mp hs with rfl | hs
              · have hlen : m + 1 = n := hr _ _ _ hm
                show offset + m + 1 = offset + n
                omega
              · exact ih hs
          · exact ih hs

theorem bounds_of_mem_scan {r : Recogniser} (hr : Bounded r) {t : Text} {s : Span}
    (hs : s ∈ t.scan r) : s.start < s.stop ∧ s.stop ≤ t.length := by
  have := bounds_of_mem_scanFrom hr hs
  omega

theorem within_of_mem_scan {r : Recogniser} (hr : Bounded r) {t : Text} {s : Span}
    (hs : s ∈ t.scan r) : s.Within t :=
  have hb := bounds_of_mem_scan hr hs
  ⟨Nat.le_of_lt hb.1, hb.2⟩

theorem le_start_of_mem_scanFrom {r : Recogniser} {t : Text} {before : Option Char}
    {offset skip : Nat} {s : Span} (hs : s ∈ scanFrom r before offset skip t) :
    offset + skip ≤ s.start := by
  induction t generalizing before offset skip with
  | nil => simp [scanFrom] at hs
  | cons c rest ih =>
      cases skip with
      | succ skip =>
          have := ih hs
          omega
      | zero =>
          rw [scanFrom] at hs
          split at hs
          · rcases List.mem_cons.mp hs with rfl | hs
            · exact Nat.le_refl offset
            · have := ih hs
              omega
          · have := ih hs
            omega

theorem filter_scanFrom_of_le {r : Recogniser} {before : Option Char} {m n : Nat} {t : Text}
    (h : m ≤ n) :
    (scanFrom r before n 0 t).filter (m ≤ ·.start) = scanFrom r before n 0 t := by
  rw [List.filter_eq_self]
  intro s hs
  have := le_start_of_mem_scanFrom hs
  rw [decide_eq_true_eq]
  omega

theorem pairwise_scanFrom (r : Recogniser) (before : Option Char) (offset skip : Nat) (t : Text) :
    (scanFrom r before offset skip t).Pairwise fun s s' => s.stop ≤ s'.start := by
  induction t generalizing before offset skip with
  | nil => exact List.Pairwise.nil
  | cons c rest ih =>
      cases skip with
      | succ skip => exact ih ..
      | zero =>
          rw [scanFrom]
          split
          · refine List.pairwise_cons.mpr ⟨fun s hs => ?_, ih ..⟩
            have := le_start_of_mem_scanFrom hs
            simp only
            omega
          · exact ih ..

theorem pairwise_scan (r : Recogniser) (t : Text) :
    (t.scan r).Pairwise fun s s' => s.stop ≤ s'.start :=
  pairwise_scanFrom r none 0 0 t

/-- The matches of a recogniser that does not look back move with the text. -/
theorem scanFrom_shift {r : Recogniser} (hr : ∀ b b' t, r b t = r b' t)
    (before before' : Option Char) (offset n skip : Nat) (t : Text) :
    scanFrom r before (offset + n) skip t =
      (scanFrom r before' offset skip t).map (·.shift n) := by
  induction t generalizing before before' offset skip with
  | nil => rfl
  | cons c rest ih =>
      cases skip with
      | succ skip =>
          rw [scanFrom, scanFrom, Nat.add_right_comm]
          exact ih ..
      | zero =>
          rw [scanFrom, scanFrom, hr before before', Nat.add_right_comm offset n 1]
          split
          · rw [List.map_cons, ← ih (some c) (some c), Span.shift, Nat.add_right_comm offset n,
              Nat.add_right_comm (offset + _) n]
          · exact ih ..

theorem scanFrom_drop {r : Recogniser} (hr : ∀ b b' t, r b t = r b' t)
    (before before' : Option Char) (offset skip : Nat) (t : Text) :
    scanFrom r before offset skip t = scanFrom r before' (offset + skip) 0 (t.drop skip) := by
  induction t generalizing before offset skip with
  | nil => rw [List.drop_nil, scanFrom, scanFrom]
  | cons c rest ih =>
      cases skip with
      | succ skip => rw [scanFrom, ih, List.drop_succ_cons, Nat.add_assoc, Nat.add_comm 1 skip]
      | zero => rw [List.drop_zero, Nat.add_zero, scanFrom, scanFrom, hr before before']

theorem length_takeWhile_le (p : Char → Bool) (t : Text) : (t.takeWhile p).length ≤ t.length :=
  (List.takeWhile_sublist p).length_le

theorem length_le_of_startsWith {t lead : Text} (h : startsWith t lead = true) :
    lead.length ≤ t.length :=
  (startsWith_iff.mp h).length_le

theorem add_length_le_of_find? {needle t : Text} {i : Nat} (h : find? needle t = some i) :
    i + needle.length ≤ t.length := by
  induction t generalizing i with
  | nil =>
      rw [find?] at h
      split at h
      · next hempty =>
          rw [Option.some.injEq] at h
          rw [List.isEmpty_iff] at hempty
          simp [← h, hempty]
      · simp at h
  | cons c rest ih =>
      rw [find?] at h
      split at h
      · next hlead =>
          rw [Option.some.injEq] at h
          rw [← h, Nat.zero_add]
          exact length_le_of_startsWith hlead
      · obtain ⟨j, hj, rfl⟩ := Option.map_eq_some_iff.mp h
        have := ih hj
        rw [List.length_cons]
        omega

theorem bounded_phrase (p : Text) : Bounded (phrase p) := by
  intro before t n h
  rw [phrase] at h
  split at h
  · next hlead =>
      rw [Option.some.injEq] at h
      rw [← h]
      exact length_le_of_startsWith hlead
  · simp at h

theorem bounded_run (p : Char → Bool) : Bounded (run p) := by
  intro before t n h
  have hlen := length_takeWhile_le p t
  rw [run] at h
  split at h
  · simp at h
  · next m hm =>
      rw [Option.some.injEq] at h
      omega

/-! ## Occurrences -/

theorem add_length_le_of_mem_occurrences {t needle : Text} {i : Nat}
    (h : i ∈ t.occurrences needle) : i + needle.length ≤ t.length := by
  by_cases hn : needle = []
  · simp [occurrences, hn] at h
  · have hpos := List.length_pos_iff.mpr hn
    have hlen := ((mem_occurrences hn).mp h).length_le
    rw [List.length_drop] at hlen
    omega

/-! ## Pieces -/

theorem splitOn_ne_nil {α : Type} [DecidableEq α] (sep : α) (t : List α) : splitOn sep t ≠ [] := by
  cases t with
  | nil => simp [splitOn]
  | cons c rest =>
      rw [splitOn]
      split
      · simp
      · split <;> simp

theorem splitOn_eq {α : Type} [DecidableEq α] (sep : α) (t : List α) :
    splitOn sep t = List.splitOn sep t := by
  induction t with
  | nil => rfl
  | cons c rest ih =>
      rw [splitOn, List.splitOn_cons_eq_if_modifyHead, ih]
      by_cases hc : c = sep
      · simp [hc]
      · rw [if_neg hc, if_neg (by simpa using hc)]
        cases hpieces : List.splitOn sep rest with
        | nil => exact absurd hpieces (List.splitOn_ne_nil sep rest)
        | cons piece more => rfl

theorem lines_eq_splitOn (t : Text) : t.lines = splitOn '\n' t := by
  induction t with
  | nil => rfl
  | cons c rest ih =>
      rw [lines, splitOn, ih]
      cases splitOn '\n' rest <;> rfl

theorem not_mem_of_mem_splitOn {α : Type} [DecidableEq α] {sep : α} {t piece : List α}
    (h : piece ∈ splitOn sep t) : sep ∉ piece := by
  induction t generalizing piece with
  | nil =>
      rw [splitOn, List.mem_singleton] at h
      simp [h]
  | cons c rest ih =>
      rw [splitOn] at h
      split at h
      · rcases List.mem_cons.mp h with rfl | h
        · simp
        · exact ih h
      · next hc =>
          split at h
          · rw [List.mem_singleton.mp h]
            simpa using Ne.symm hc
          · next first more hsplit =>
              rcases List.mem_cons.mp h with rfl | h
              · have := ih (hsplit ▸ List.mem_cons_self)
                simpa [Ne.symm hc] using this
              · exact ih (hsplit ▸ List.mem_cons_of_mem first h)

theorem start_le_of_mem_numberPieces {offset : Nat} {pieces : List Text} {x : Nat × Text}
    (hx : x ∈ numberPieces offset pieces) : offset ≤ x.1 := by
  induction pieces generalizing offset with
  | nil => simp [numberPieces] at hx
  | cons piece more ih =>
      rcases List.mem_cons.mp hx with rfl | hx
      · exact Nat.le_refl _
      · have := ih hx
        omega

theorem mem_of_mem_numberPieces {offset : Nat} {pieces : List Text} {x : Nat × Text}
    (hx : x ∈ numberPieces offset pieces) : x.2 ∈ pieces := by
  induction pieces generalizing offset with
  | nil => simp [numberPieces] at hx
  | cons piece more ih =>
      rcases List.mem_cons.mp hx with rfl | hx
      · exact List.mem_cons_self
      · exact List.mem_cons_of_mem piece (ih hx)

theorem pairwise_numberPieces (offset : Nat) (pieces : List Text) :
    (numberPieces offset pieces).Pairwise fun x y => x.1 + x.2.length < y.1 := by
  induction pieces generalizing offset with
  | nil => simp [numberPieces]
  | cons piece more ih =>
      refine List.pairwise_cons.mpr ⟨fun y hy => ?_, ih _⟩
      have := start_le_of_mem_numberPieces hy
      simp only
      omega

/-- A piece stands in the text between separators, or at an end of it. -/
theorem exists_append_of_mem_numberPieces {sep : Char} {offset : Nat} {t : Text}
    {x : Nat × Text} (hx : x ∈ numberPieces offset (splitOn sep t)) :
    ∃ before after, t = before ++ (x.2 ++ after) ∧ x.1 = offset + before.length ∧
      (before = [] ∨ before.getLast? = some sep) ∧ (after = [] ∨ after.head? = some sep) := by
  induction t generalizing offset x with
  | nil =>
      simp only [splitOn, numberPieces, List.mem_singleton] at hx
      subst hx
      exact ⟨[], [], rfl, rfl, Or.inl rfl, Or.inl rfl⟩
  | cons c rest ih =>
      rw [splitOn] at hx
      split at hx
      · next hsep =>
          subst hsep
          rcases List.mem_cons.mp hx with rfl | hx
          · exact ⟨[], c :: rest, rfl, rfl, Or.inl rfl, Or.inr rfl⟩
          · obtain ⟨before, after, rfl, hstart, hbefore, hafter⟩ := ih hx
            refine ⟨c :: before, after, rfl, ?_, Or.inr ?_, hafter⟩
            · rw [hstart, List.length_nil, List.length_cons]
              omega
            · rcases hbefore with rfl | hlast
              · rfl
              · rw [List.getLast?_cons, hlast, Option.getD_some]
      · cases hrest : splitOn sep rest with
        | nil => exact absurd hrest (splitOn_ne_nil sep rest)
        | cons piece more =>
            rw [hrest] at hx
            -- the first piece grows by the character, so it starts one offset earlier
            rcases List.mem_cons.mp hx with rfl | hx
            · obtain ⟨before, after, hsplit, hstart, _, hafter⟩ :=
                @ih (offset + 1) (offset + 1, piece) (by rw [hrest]; exact List.mem_cons_self)
              obtain rfl : before = [] := List.length_eq_zero_iff.mp (by omega)
              exact ⟨[], after, by rw [hsplit]; rfl, rfl, Or.inl rfl, hafter⟩
            · have hmore : x ∈ numberPieces (offset + 1 + piece.length + 1) more := by
                rwa [List.length_cons, show offset + (piece.length + 1) + 1 =
                  offset + 1 + piece.length + 1 by omega] at hx
              have hlow := start_le_of_mem_numberPieces hmore
              obtain ⟨before, after, hsplit, hstart, hbefore, hafter⟩ :=
                @ih (offset + 1) x (by rw [hrest]; exact List.mem_cons_of_mem _ hmore)
              refine ⟨c :: before, after, by rw [hsplit]; rfl, ?_, Or.inr ?_, hafter⟩
              · rw [hstart, List.length_cons]
                omega
              · rcases hbefore with rfl | hlast
                · rw [List.length_nil] at hstart
                  omega
                · rw [List.getLast?_cons, hlast, Option.getD_some]

theorem stop_le_of_mem_numberPieces {sep : Char} {offset : Nat} {t : Text} {x : Nat × Text}
    (hx : x ∈ numberPieces offset (splitOn sep t)) : x.1 + x.2.length ≤ offset + t.length := by
  obtain ⟨before, after, rfl, hstart, _, _⟩ := exists_append_of_mem_numberPieces hx
  rw [hstart, List.length_append, List.length_append]
  omega

theorem ne_sep_of_mem_numberPieces {sep : Char} {offset i : Nat} {t : Text} {x : Nat × Text}
    (hx : x ∈ numberPieces offset (splitOn sep t)) (hlow : x.1 ≤ i) (hhigh : i < x.1 + x.2.length) :
    t[i - offset]? ≠ some sep := by
  obtain ⟨before, after, rfl, hstart, _, _⟩ := exists_append_of_mem_numberPieces hx
  intro hsep
  rw [List.getElem?_append_right (by omega), List.getElem?_append_left (by omega)] at hsep
  exact not_mem_of_mem_splitOn (mem_of_mem_numberPieces hx) (List.mem_of_getElem? hsep)

theorem pairwise_sep_numberPieces (sep : Char) (offset : Nat) (t : Text) :
    (numberPieces offset (splitOn sep t)).Pairwise fun x y =>
      x.1 + x.2.length < y.1 ∧ t[x.1 + x.2.length - offset]? = some sep := by
  apply (pairwise_numberPieces offset (splitOn sep t)).imp_of_mem
  intro x y hx hy hxy
  refine ⟨hxy, ?_⟩
  have hlast := stop_le_of_mem_numberPieces hy
  obtain ⟨before, after, rfl, hstart, _, hafter⟩ := exists_append_of_mem_numberPieces hx
  rw [List.length_append, List.length_append] at hlast
  have hne : after ≠ [] := by
    rintro rfl
    rw [List.length_nil] at hlast
    omega
  rw [List.getElem?_append_right (by omega), List.getElem?_append_right (by omega),
    show x.1 + x.2.length - offset - before.length - x.2.length = 0 by omega,
    ← List.head?_eq_getElem?]
  exact hafter.resolve_left hne

theorem exists_append_of_mem_numberedLines {t : Text} {x : Nat × Text}
    (hx : x ∈ t.numberedLines) :
    ∃ before after, t = before ++ (x.2 ++ after) ∧ x.1 = before.length ∧
      (before = [] ∨ before.getLast? = some '\n') ∧ (after = [] ∨ after.head? = some '\n') := by
  rw [numberedLines, lines_eq_splitOn] at hx
  simpa only [Nat.zero_add] using exists_append_of_mem_numberPieces hx

theorem stop_le_of_mem_numberedLines {t : Text} {x : Nat × Text} (hx : x ∈ t.numberedLines) :
    x.1 + x.2.length ≤ t.length := by
  rw [numberedLines, lines_eq_splitOn] at hx
  simpa using stop_le_of_mem_numberPieces hx

/-! ## White space -/

theorem length_takeWhile_add_dropWhile (p : Char → Bool) (t : Text) :
    (t.takeWhile p).length + (t.dropWhile p).length = t.length := by
  rw [← List.length_append, List.takeWhile_append_dropWhile]

theorem length_dropWhileEnd_le (p : Char → Bool) (t : Text) :
    (dropWhileEnd p t).length ≤ t.length := by
  have hle := (List.dropWhile_sublist p (l := t.reverse)).length_le
  rw [List.length_reverse] at hle
  rwa [dropWhileEnd, List.length_reverse]

theorem length_trimEnd_le (t : Text) : t.trimEnd.length ≤ t.length :=
  length_dropWhileEnd_le isBlank t

theorem length_takeWhile_add_trim_le (t : Text) :
    (t.takeWhile isBlank).length + t.trim.length ≤ t.length := by
  have hsplit := length_takeWhile_add_dropWhile isBlank t
  have hend := length_trimEnd_le t.trimStart
  rw [trim]
  rw [trimStart] at hend ⊢
  omega

/-- A trimmed span is not empty and lies in the span and in the text. -/
theorem bounds_of_trimSpan? {t : Text} {s s' : Span} (h : t.trimSpan? s = some s') :
    s.start ≤ s'.start ∧ s'.start < s'.stop ∧ s'.stop ≤ s.stop ∧ s'.stop ≤ t.length := by
  unfold trimSpan? at h
  simp only at h
  split at h
  · next hlt =>
      have hlen := length_takeWhile_add_trim_le (t.slice s)
      rw [length_slice] at hlen
      rw [Option.some.injEq] at h
      subst h
      simp only
      omega
  · simp at h

def VisibleAt (t : Text) (i : Nat) : Prop := ∃ c, t[i]? = some c ∧ isBlank c = false

theorem VisibleAt.lt_length {t : Text} {i : Nat} (h : t.VisibleAt i) : i < t.length := by
  obtain ⟨c, hc, _⟩ := h
  exact (List.getElem?_eq_some_iff.mp hc).1

/-- What follows the white space at the start of a text is its trimmed text with white space
after it. -/
theorem exists_trimStart_eq (t : Text) :
    ∃ tail, t.trimStart = t.trim ++ tail ∧ ∀ c ∈ tail, isBlank c = true := by
  refine ⟨(t.trimStart.reverse.takeWhile isBlank).reverse, ?_, fun c hc => ?_⟩
  · rw [trim, trimEnd, dropWhileEnd, ← List.reverse_append, List.takeWhile_append_dropWhile,
      List.reverse_reverse]
  · exact List.all_eq_true.mp List.all_takeWhile c (List.mem_reverse.mp hc)

theorem getLast?_trimEnd {t : Text} {c : Char} (h : t.trimEnd.getLast? = some c) :
    isBlank c = false := by
  rw [trimEnd, dropWhileEnd, List.getLast?_reverse] at h
  have hnot := List.head?_dropWhile_not isBlank t.reverse
  rwa [h] at hnot

theorem head?_trim {t : Text} {c : Char} (h : t.trim.head? = some c) : isBlank c = false := by
  obtain ⟨tail, hsplit, _⟩ := exists_trimStart_eq t
  have hnot := List.head?_dropWhile_not isBlank t
  rw [trimStart] at hsplit
  rwa [hsplit, List.head?_append, h] at hnot

theorem getElem?_trim {t : Text} {i : Nat} (hi : i < t.trim.length) :
    t[(t.takeWhile isBlank).length + i]? = t.trim[i]? := by
  obtain ⟨tail, hsplit, _⟩ := exists_trimStart_eq t
  rw [trimStart] at hsplit
  conv_lhs => arg 1; rw [← List.takeWhile_append_dropWhile (p := isBlank) (l := t), hsplit]
  rw [List.getElem?_append_right (Nat.le_add_right _ _), Nat.add_sub_cancel_left,
    List.getElem?_append_left hi]

theorem bounds_of_visibleAt {t : Text} {k : Nat} (h : t.VisibleAt k) :
    (t.takeWhile isBlank).length ≤ k ∧ k < (t.takeWhile isBlank).length + t.trim.length := by
  obtain ⟨c, hc, hvisible⟩ := h
  obtain ⟨tail, hsplit, htail⟩ := exists_trimStart_eq t
  rw [trimStart] at hsplit
  rw [← List.takeWhile_append_dropWhile (p := isBlank) (l := t), hsplit, List.getElem?_append,
    List.getElem?_append] at hc
  split at hc
  · have hblank := List.all_eq_true.mp List.all_takeWhile c (List.mem_of_getElem? hc)
    rw [hblank] at hvisible
    contradiction
  · split at hc
    · omega
    · rw [htail c (List.mem_of_getElem? hc)] at hvisible
      contradiction

theorem visibleAt_slice {t : Text} {s : Span} {k : Nat} (hlow : s.start ≤ k) (hhigh : k < s.stop) :
    (t.slice s).VisibleAt (k - s.start) ↔ t.VisibleAt k := by
  rw [VisibleAt, VisibleAt, getElem?_slice, show s.start + (k - s.start) = k by omega,
    if_pos hhigh]

theorem trimSpan?_eq (t : Text) (s : Span) :
    t.trimSpan? s =
      if (t.slice s).trim = [] then none
      else some ⟨s.start + ((t.slice s).takeWhile isBlank).length,
        s.start + ((t.slice s).takeWhile isBlank).length + (t.slice s).trim.length⟩ := by
  rw [trimSpan?]
  by_cases h : (t.slice s).trim = []
  · simp [h]
  · have := List.length_pos_iff.mpr h
    rw [if_neg h, if_pos (by omega)]

/-- A span has a trimmed span if one of its offsets is visible, and that span holds all of
them. -/
theorem exists_trimSpan? {t : Text} {s : Span} {k : Nat} (h : t.VisibleAt k)
    (hlow : s.start ≤ k) (hhigh : k < s.stop) :
    ∃ s', t.trimSpan? s = some s' ∧ s'.start ≤ k ∧ k < s'.stop := by
  have hbounds := bounds_of_visibleAt ((visibleAt_slice hlow hhigh).mpr h)
  have hne : (t.slice s).trim ≠ [] := by
    intro hnil
    rw [hnil, List.length_nil] at hbounds
    omega
  refine ⟨_, by rw [trimSpan?_eq, if_neg hne], ?_, ?_⟩
  · simp only
    omega
  · simp only
    omega

theorem visibleAt_of_trimSpan? {t : Text} {s s' : Span} (h : t.trimSpan? s = some s') :
    t.VisibleAt s'.start ∧ t.VisibleAt (s'.stop - 1) := by
  have hbounds := bounds_of_trimSpan? h
  rw [trimSpan?_eq] at h
  split at h
  · simp at h
  · next hne =>
      rw [Option.some.injEq] at h
      subst h
      simp only at hbounds ⊢
      have hpos := List.length_pos_iff.mpr hne
      have hchar (i : Nat) (hi : i < (t.slice s).trim.length) :
          t[s.start + ((t.slice s).takeWhile isBlank).length + i]? = (t.slice s).trim[i]? := by
        rw [← getElem?_trim hi, getElem?_slice, ← Nat.add_assoc, if_pos (by omega)]
      constructor
      · refine ⟨(t.slice s).trim.head hne, ?_, head?_trim (List.head?_eq_some_head hne)⟩
        rw [← Nat.add_zero (_ + _), hchar 0 hpos, ← List.head?_eq_getElem?,
          List.head?_eq_some_head hne]
      · refine ⟨(t.slice s).trim.getLast hne, ?_,
          getLast?_trimEnd (List.getLast?_eq_some_getLast hne)⟩
        rw [Nat.add_sub_assoc hpos, hchar _ (by omega), ← List.getLast?_eq_getElem?,
          List.getLast?_eq_some_getLast hne]

theorem slice_trimSpan? {t : Text} {s s' : Span} (h : t.trimSpan? s = some s') :
    t.slice s' = (t.slice s).trim := by
  rw [trimSpan?_eq] at h
  split at h
  · contradiction
  · obtain rfl := Option.some.inj h
    have hfit := length_takeWhile_add_trim_le (t.slice s)
    rw [length_slice] at hfit
    refine List.ext_getElem? fun i => ?_
    rw [getElem?_slice]
    simp only
    split
    · next hi =>
        rw [← getElem?_trim (by omega), getElem?_slice, ← Nat.add_assoc, if_pos (by omega)]
    · next hi => rw [List.getElem?_eq_none (by omega)]

theorem slice_middle (lead middle rest : Text) :
    (lead ++ (middle ++ rest)).slice ⟨lead.length, lead.length + middle.length⟩ = middle := by
  rw [slice, ← List.append_assoc, List.take_left' (List.length_append ..), List.drop_left]

end Text

end Kouetsu
