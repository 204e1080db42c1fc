import Kouetsu.Proofs.Exclusion.Patterns
/-!
# Tables

The tables of a text are its maximal runs of table lines, code blocks aside.  A table stays out if
a code block overlaps it, but its separator lines and its bars count wherever no range of an
earlier pass is in the way.
-/

namespace Kouetsu

/-! ## Table lines -/

namespace Markup

def IsSeparator (line : Text) : Prop :=
  ∃ body, body ≠ [] ∧ (∀ c ∈ body, c = '-' ∨ c = ':' ∨ c = '|') ∧
    line.filter (fun c => !isBlank c) = '|' :: (body ++ ['|'])

def IsRow (line : Text) : Prop := ∃ body, line.trim = '|' :: (body ++ ['|'])

def IsTableLine (line : Text) : Prop := IsRow line ∨ IsSeparator line

theorem isTableSeparator_iff {line : Text} : isTableSeparator line = true ↔ IsSeparator line := by
  unfold isTableSeparator IsSeparator
  constructor
  · intro h
    split at h
    · next rest hline =>
        simp only [Bool.and_eq_true, decide_eq_true_eq, List.all_eq_true, Bool.or_eq_true] at h
        obtain ⟨⟨hlong, hlast⟩, hall⟩ := h
        obtain ⟨body, rfl⟩ := List.getLast?_eq_some_iff.mp hlast
        refine ⟨body, ?_, fun c hc => ?_, hline⟩
        · rintro rfl
          simp at hlong
        · simpa only [or_assoc] using hall c (List.mem_append_left _ hc)
    · contradiction
  · rintro ⟨body, hne, hbody, hline⟩
    rw [hline]
    have hpos := List.length_pos_iff.mpr hne
    simp only [List.length_append, List.length_cons, List.length_nil, List.getLast?_concat,
      List.all_append, Bool.and_eq_true, decide_eq_true_eq, List.all_eq_true, Bool.or_eq_true]
    refine ⟨⟨by omega, trivial⟩, fun c hc => ?_, by simp⟩
    simpa only [or_assoc] using hbody c hc

theorem isTableRow_iff {line : Text} : isTableRow line = true ↔ IsRow line := by
  unfold isTableRow IsRow
  constructor
  · intro h
    split at h
    · next rest hline =>
        obtain ⟨body, rfl⟩ := List.getLast?_eq_some_iff.mp (of_decide_eq_true h)
        exact ⟨body, hline⟩
    · contradiction
  · rintro ⟨body, hline⟩
    rw [hline]
    simp

theorem tableLine_eq_separator_iff {line : Text} :
    tableLine line = .separator ↔ IsSeparator line := by
  rw [← isTableSeparator_iff, tableLine]
  cases isTableSeparator line <;> cases isTableRow line <;> simp

theorem tableLine_eq_row_iff {line : Text} :
    tableLine line = .row ↔ IsRow line ∧ ¬IsSeparator line := by
  rw [← isTableSeparator_iff, ← isTableRow_iff, tableLine]
  cases isTableSeparator line <;> cases isTableRow line <;> simp

theorem tableLine_eq_outside_iff {line : Text} :
    tableLine line = .outside ↔ ¬IsTableLine line := by
  rw [IsTableLine, ← isTableSeparator_iff, ← isTableRow_iff, tableLine]
  cases isTableSeparator line <;> cases isTableRow line <;> simp

end Markup

/-! ## Runs of table lines -/

theorem Markup.IsTableLine.ne_nil {line : Text} (h : IsTableLine line) : line ≠ [] := by
  rintro rfl
  rcases h with ⟨body, hbody⟩ | ⟨body, _, _, hbody⟩
  · simp [Text.trim, Text.trimStart, Text.trimEnd, Text.dropWhileEnd] at hbody
  · simp at hbody

/-- A run of table lines with no table line right before it and none right behind it. -/
structure TableRun (before run after : List (Nat × Text)) : Prop where
  run_ne : run ≠ []
  inside : ∀ x ∈ run, Markup.IsTableLine x.2
  left : ∀ x ∈ before.getLast?, ¬Markup.IsTableLine x.2
  right : ∀ x ∈ after.head?, ¬Markup.IsTableLine x.2

theorem TableRun.before_eq_nil {before run after : List (Nat × Text)}
    (h : TableRun before run after) (hbefore : ∀ x ∈ before, Markup.IsTableLine x.2) :
    before = [] := by
  by_contra hne
  exact h.left _ (List.getLast?_eq_some_getLast hne) (hbefore _ (List.getLast_mem hne))

/-- Where the first of some lines starts, or the end of the text if there is none. -/
def firstOffset (stop : Nat) (lines : List (Nat × Text)) : Nat :=
  (lines.head?.map (·.1)).getD stop

/-- A span over a maximal run of table lines, up to the start of the line behind it or to the end
of the text. -/
def IsTable (t : Text) (s : Span) : Prop :=
  ∃ before run after, t.numberedLines = before ++ (run ++ after) ∧ TableRun before run after ∧
    s = ⟨firstOffset t.length run, firstOffset t.length after⟩

theorem IsTable.start_lt_stop {t : Text} {s : Span} (h : IsTable t s) : s.start < s.stop := by
  obtain ⟨before, run, after, hlines, hrun, rfl⟩ := h
  obtain ⟨x, more, rfl⟩ := List.exists_cons_of_ne_nil hrun.run_ne
  have hlong := List.length_pos_iff.mpr (hrun.inside x List.mem_cons_self).ne_nil
  have hapart := (Detection.linesApart_numberedLines t).apart
  have hbound := (Detection.linesApart_numberedLines t).bounded x (by simp [hlines])
  rw [hlines] at hapart
  have hrest := (List.pairwise_append.mp (List.pairwise_append.mp hapart).2.1).2.2
  cases after with
  | nil =>
      show x.1 < t.length
      omega
  | cons y after =>
      have hnext := hrest x List.mem_cons_self y List.mem_cons_self
      show x.1 < y.1
      omega

section Runs

variable {run rest : List (Nat × Text)} {x : Nat × Text}

/-- A line outside all tables parts the runs before it from those behind it. -/
theorem exists_tableRun_cons_iff (hrun : ∀ y ∈ run, Markup.IsTableLine y.2)
    (hx : ¬Markup.IsTableLine x.2) {P : List (Nat × Text) → List (Nat × Text) → Prop} :
    (∃ before run' after, run ++ x :: rest = before ++ (run' ++ after) ∧
        TableRun before run' after ∧ P run' after) ↔
      (run ≠ [] ∧ P run (x :: rest)) ∨
        ∃ before run' after, rest = before ++ (run' ++ after) ∧ TableRun before run' after ∧
          P run' after := by
  constructor
  · rintro ⟨before, run', after, hsplit, hrun', hP⟩
    rcases List.append_eq_append_iff.mp hsplit with ⟨as, hbefore, hrest⟩ | ⟨bs, hopen, hrest⟩
    · cases as with
      | nil =>
          -- the line would be the first one of the run
          obtain ⟨y, ys, rfl⟩ := List.exists_cons_of_ne_nil hrun'.run_ne
          obtain ⟨rfl, _⟩ := List.cons.inj hrest
          exact absurd (hrun'.inside x List.mem_cons_self) hx
      | cons y as =>
          obtain ⟨rfl, htail⟩ := List.cons.inj hrest
          refine Or.inr ⟨as, run', after, htail, ⟨hrun'.run_ne, hrun'.inside, ?_, hrun'.right⟩, hP⟩
          intro z hz
          apply hrun'.left z
          cases as with
          | nil => simp at hz
          | cons w as => rwa [hbefore, List.getLast?_append_cons, List.getLast?_cons_cons]
    · obtain rfl : before = [] := hrun'.before_eq_nil fun y hy => hrun y (by simp [hopen, hy])
      rw [List.nil_append] at hopen
      subst hopen
      have hsame : run' = run ∧ after = x :: rest := by
        rcases List.append_eq_append_iff.mp hrest with ⟨as, hlong, hafter⟩ | ⟨as, hlong, hafter⟩
        · cases as with
          | nil => exact ⟨by simpa using hlong.symm, hafter⟩
          | cons y as =>
              have hy : Markup.IsTableLine y.2 := hrun y (by simp [hlong])
              exact absurd hy (hrun'.right y (by simp [hafter]))
        · cases as with
          | nil => exact ⟨by simpa using hlong, hafter.symm⟩
          | cons y as =>
              obtain ⟨rfl, _⟩ := List.cons.inj hafter
              exact absurd (hrun'.inside x (by simp [hlong])) hx
      rw [hsame.1, hsame.2] at hP
      exact Or.inl ⟨hsame.1 ▸ hrun'.run_ne, hP⟩
  · rintro (⟨hne, hP⟩ | ⟨before, run', after, rfl, hrun', hP⟩)
    · refine ⟨[], run, x :: rest, rfl, ⟨hne, hrun, by simp, ?_⟩, hP⟩
      intro y hy
      rw [List.head?_cons, Option.mem_some] at hy
      exact hy ▸ hx
    · refine ⟨run ++ x :: before, run', after, by simp, ⟨hrun'.run_ne, hrun'.inside, ?_,
        hrun'.right⟩, hP⟩
      intro y hy
      cases before with
      | nil =>
          rw [List.getLast?_concat, Option.mem_some] at hy
          exact hy ▸ hx
      | cons z before =>
          rw [List.getLast?_append_cons, List.getLast?_cons_cons] at hy
          exact hrun'.left y hy

theorem exists_tableRun_iff (hrun : ∀ y ∈ run, Markup.IsTableLine y.2)
    {P : List (Nat × Text) → List (Nat × Text) → Prop} :
    (∃ before run' after, run = before ++ (run' ++ after) ∧ TableRun before run' after ∧
        P run' after) ↔ run ≠ [] ∧ P run [] := by
  constructor
  · rintro ⟨before, run', after, rfl, hrun', hP⟩
    obtain rfl : before = [] := hrun'.before_eq_nil fun y hy => hrun y (by simp [hy])
    obtain rfl : after = [] := by
      cases after with
      | nil => rfl
      | cons y after => exact absurd (hrun y (by simp)) (hrun'.right y rfl)
    rw [List.nil_append, List.append_nil]
    exact ⟨hrun'.run_ne, hP⟩
  · rintro ⟨hne, hP⟩
    exact ⟨[], run, [], by simp, ⟨hne, hrun, by simp, by simp⟩, hP⟩

end Runs

namespace Detection

/-! ## Candidates of tables -/

variable {stop : Nat} {lines run : List (Nat × Text)} {c : Candidate} {s : Span}

theorem exists_mem_closedTable_iff (stop stop' : Nat) :
    (∃ c ∈ closedTable stop (run.head?.map (·.1)), c.kind = .table ∧ c.span = s) ↔
      run ≠ [] ∧ s = ⟨firstOffset stop' run, stop⟩ := by
  cases run with
  | nil => simp [closedTable]
  | cons x run => simp [closedTable, firstOffset, eq_comm]

/-- The tables that are still offered are the runs of the lines that are left, the lines of the
open table put in front of them. -/
theorem exists_table_tableCandidatesFrom_iff (hrun : ∀ x ∈ run, Markup.IsTableLine x.2) :
    (∃ c ∈ tableCandidatesFrom stop (run.head?.map (·.1)) lines, c.kind = .table ∧ c.span = s) ↔
      ∃ before run' after, run ++ lines = before ++ (run' ++ after) ∧
        TableRun before run' after ∧ s = ⟨firstOffset stop run', firstOffset stop after⟩ := by
  induction lines generalizing run with
  | nil =>
      rw [List.append_nil, exists_tableRun_iff hrun, tableCandidatesFrom]
      exact exists_mem_closedTable_iff stop stop
  | cons x rest ih =>
      rw [tableCandidatesFrom_cons]
      split
      · next hout =>
          rw [Markup.tableLine_eq_outside_iff] at hout
          have hrest := @ih [] (by simp)
          rw [List.nil_append] at hrest
          rw [exists_tableRun_cons_iff hrun hout, ← hrest]
          simp only [List.mem_append, or_and_right, exists_or]
          exact or_congr (exists_mem_closedTable_iff x.1 stop) Iff.rfl
      · next hin =>
          rw [Markup.tableLine_eq_outside_iff, not_not] at hin
          have hopen : some ((run.head?.map (·.1)).getD x.1) = (run ++ [x]).head?.map (·.1) := by
            cases run <;> rfl
          have hlonger : ∀ y ∈ run ++ [x], Markup.IsTableLine y.2 := by
            intro y hy
            rcases List.mem_append.mp hy with hy | hy
            · exact hrun y hy
            · exact List.mem_singleton.mp hy ▸ hin
          have hmore := ih hlonger
          rw [List.append_assoc, List.singleton_append] at hmore
          rw [hopen, ← hmore]
          constructor
          · rintro ⟨c, hc, hkind, hspan⟩
            rcases List.mem_append.mp hc with hc | hc
            · exact absurd hkind (mem_lineParts hc).1
            · exact ⟨c, hc, hkind, hspan⟩
          · rintro ⟨c, hc, hc'⟩
            exact ⟨c, List.mem_append_right _ hc, hc'⟩

theorem exists_table_tableCandidates_iff {t : Text} :
    (∃ c ∈ tableCandidates t, c.kind = .table ∧ c.span = s) ↔ IsTable t s :=
  @exists_table_tableCandidatesFrom_iff t.length t.numberedLines [] s (by simp)

theorem mem_tableCandidatesFrom_iff {opened : Option Nat} (hc : c.kind ≠ .table) :
    c ∈ tableCandidatesFrom stop opened lines ↔ ∃ x ∈ lines, c ∈ lineParts x.1 x.2 := by
  have hclosed (stop : Nat) (opened : Option Nat) : c ∉ closedTable stop opened :=
    fun h => hc (mem_closedTable h).1
  induction lines generalizing opened with
  | nil => simp [tableCandidatesFrom, hclosed]
  | cons x rest ih =>
      rw [tableCandidatesFrom_cons, List.exists_mem_cons_iff]
      split
      · next hout =>
          have hnone : c ∉ lineParts x.1 x.2 := by simp [lineParts, hout]
          rw [List.mem_append, or_iff_right (hclosed _ _), or_iff_right hnone]
          exact ih
      · rw [List.mem_append]
        exact or_congr_right ih

theorem mem_delimiterCandidates_iff {offset : Nat} {row : Text} :
    c ∈ delimiterCandidates offset row ↔
      ∃ i, row[i]? = some '|' ∧
        c = ⟨⟨offset + i, offset + i + 1⟩, .tableDelimiter, "マークダウンテーブル区切り文字検出"⟩ := by
  induction row generalizing offset with
  | nil => simp [delimiterCandidates]
  | cons d rest ih =>
      have hnext (i : Nat) : (⟨offset + (i + 1), offset + (i + 1) + 1⟩ : Span) =
          ⟨offset + 1 + i, offset + 1 + i + 1⟩ := by
        rw [Nat.add_assoc offset 1 i, Nat.add_comm 1 i]
      rw [delimiterCandidates, ← Nat.or_exists_add_one]
      simp only [List.getElem?_cons_zero, List.getElem?_cons_succ, Option.some.injEq, hnext,
        Nat.add_zero, ← ih]
      by_cases hd : d = '|'
      · rw [if_pos hd, List.mem_cons, and_iff_right hd]
      · rw [if_neg hd, or_iff_right fun h => hd h.1]

theorem pairwise_delimiterCandidates (offset : Nat) (line : Text) :
    (delimiterCandidates offset line).Pairwise fun a b => a.span.stop ≤ b.span.start := by
  induction line generalizing offset with
  | nil => exact List.Pairwise.nil
  | cons d rest ih =>
      rw [delimiterCandidates]
      split
      · exact List.pairwise_cons.mpr ⟨fun b hb => (mem_delimiterCandidates hb).2.1, ih _⟩
      · exact ih _

theorem pairwise_lineParts (offset : Nat) (line : Text) :
    (lineParts offset line).Pairwise fun a b => a.span.stop ≤ b.span.start := by
  unfold lineParts
  split
  · exact List.pairwise_singleton _ _
  · exact pairwise_delimiterCandidates offset line
  · exact List.Pairwise.nil

theorem pairwise_parts {opened : Option Nat} (hl : LinesApart stop lines) :
    (tableCandidatesFrom stop opened lines).Pairwise
      fun a b => b.kind ≠ .table → a.span.stop ≤ b.span.start := by
  induction lines generalizing opened with
  | nil => cases opened <;> simp [tableCandidatesFrom, closedTable]
  | cons x rest ih =>
      rw [tableCandidatesFrom_cons]
      split
      · refine List.pairwise_append.mpr ⟨?_, ih hl.tail, ?_⟩
        · cases opened <;> simp [closedTable]
        · intro a ha b hb _
          rw [(mem_closedTable ha).2.1]
          refine low_le_of_mem_tableCandidatesFrom (by simp) (fun y hy => ?_) hb
          have := hl.stop_lt hy
          omega
      · refine List.pairwise_append.mpr ⟨?_, ih hl.tail, ?_⟩
        · refine (pairwise_lineParts x.1 x.2).imp ?_
          intro a b hab _
          exact hab
        · intro a ha b hb hkind
          obtain ⟨y, hy, hb⟩ := (mem_tableCandidatesFrom_iff hkind).mp hb
          have hstop := (mem_lineParts ha).2.2.2
          have hstart := (mem_lineParts hb).2.2.1
          have hnext := hl.stop_lt hy
          omega

theorem mem_lineParts_iff {offset : Nat} {line : Text} :
    c ∈ lineParts offset line ↔
      (Markup.IsSeparator line ∧ c = separatorCandidate offset line) ∨
        ((Markup.IsRow line ∧ ¬Markup.IsSeparator line) ∧ c ∈ delimiterCandidates offset line) := by
  rw [← Markup.tableLine_eq_row_iff, ← Markup.tableLine_eq_separator_iff, lineParts]
  cases Markup.tableLine line <;> simp

theorem exists_separator_tableCandidates_iff {t : Text} :
    (∃ c ∈ tableCandidates t, c.kind = .tableSeparator ∧ c.span = s) ↔
      ∃ x ∈ t.numberedLines, Markup.IsSeparator x.2 ∧ s = ⟨x.1, x.1 + x.2.length⟩ := by
  constructor
  · rintro ⟨c, hc, hkind, rfl⟩
    obtain ⟨x, hx, hc⟩ := (mem_tableCandidatesFrom_iff (by simp [hkind])).mp hc
    rcases mem_lineParts_iff.mp hc with ⟨hseparator, rfl⟩ | ⟨_, hc⟩
    · exact ⟨x, hx, hseparator, rfl⟩
    · simp [(mem_delimiterCandidates hc).1] at hkind
  · rintro ⟨x, hx, hseparator, rfl⟩
    refine ⟨separatorCandidate x.1 x.2, ?_, rfl, rfl⟩
    refine (mem_tableCandidatesFrom_iff (by simp [separatorCandidate])).mpr ⟨x, hx, ?_⟩
    exact mem_lineParts_iff.mpr (Or.inl ⟨hseparator, rfl⟩)

theorem exists_delimiter_tableCandidates_iff {t : Text} :
    (∃ c ∈ tableCandidates t, c.kind = .tableDelimiter ∧ c.span = s) ↔
      ∃ x ∈ t.numberedLines, Markup.IsTableLine x.2 ∧ ¬Markup.IsSeparator x.2 ∧
        ∃ i, x.2[i]? = some '|' ∧ s = ⟨x.1 + i, x.1 + i + 1⟩ := by
  constructor
  · rintro ⟨c, hc, hkind, rfl⟩
    obtain ⟨x, hx, hc⟩ := (mem_tableCandidatesFrom_iff (by simp [hkind])).mp hc
    rcases mem_lineParts_iff.mp hc with ⟨_, rfl⟩ | ⟨⟨hrow, hother⟩, hc⟩
    · simp [separatorCandidate] at hkind
    · obtain ⟨i, hi, rfl⟩ := mem_delimiterCandidates_iff.mp hc
      exact ⟨x, hx, Or.inl hrow, hother, i, hi, rfl⟩
  · rintro ⟨x, hx, hline, hother, i, hi, rfl⟩
    have hrow : Markup.IsRow x.2 := hline.resolve_right hother
    refine ⟨⟨⟨x.1 + i, x.1 + i + 1⟩, .tableDelimiter, "マークダウンテーブル区切り文字検出"⟩, ?_,
      rfl, rfl⟩
    refine (mem_tableCandidatesFrom_iff (by simp)).mpr ⟨x, hx, ?_⟩
    exact mem_lineParts_iff.mpr
      (Or.inr ⟨⟨hrow, hother⟩, mem_delimiterCandidates_iff.mpr ⟨i, hi, rfl⟩⟩)

/-! ## Accepted tables -/

theorem mem_tablePass_iff {t : Text} {d : Detection} {r : ExcludedRange} :
    r ∈ (d.tablePass t (tableCandidates t)).accepted ↔ r ∈ d.accepted ∨
      ∃ c ∈ tableCandidates t, c.span.start < c.span.stop ∧
        c.overlaps (if c.kind = .table then d.accepted.filter (·.kind = .codeBlock)
          else d.accepted) = false ∧ r = c.range t := by
  apply mem_offerEach_iff
  intro pre c post hsplit
  by_cases htable : c.kind = .table
  · rw [if_pos htable, if_pos htable]
  · rw [if_neg htable, if_neg htable]
    apply overlaps_accepted_offerEach
    intro c' hc'
    have hparts : (tableCandidates t).Pairwise
        fun a b => b.kind ≠ .table → a.span.stop ≤ b.span.start :=
      pairwise_parts (linesApart_numberedLines t)
    rw [hsplit] at hparts
    exact (List.pairwise_append.mp hparts).2.2 c' hc' c List.mem_cons_self htable

end Detection

def ExcludedRange.Over (r : ExcludedRange) (s : Span) : Prop := r.start = s.start ∧ r.stop = s.stop

def Clear (rs : List ExcludedRange) (kinds : RangeKind → Prop) (s : Span) : Prop :=
  ∀ r ∈ rs, kinds r.kind → r.overlaps s.start s.stop = false

/-- The ranges of a kind are those over the spans of a class, from left to right. -/
structure RangesOver (rs : List ExcludedRange) (kind : RangeKind) (P : Span → Prop) : Prop where
  ordered : (rs.filter (·.kind = kind)).Pairwise fun r s => r.stop ≤ s.start
  sound : ∀ r ∈ rs, r.kind = kind → ∃ s, P s ∧ r.Over s
  complete : ∀ s, P s → ∃ r ∈ rs, r.kind = kind ∧ r.Over s

/-- The tables of a text among its ranges: runs of table lines that no code block overlaps, and
separator lines and bars of other table lines that no range of an earlier pass overlaps. -/
structure TablesFound (t : Text) (rs : List ExcludedRange) : Prop where
  tables : RangesOver rs .table fun s => IsTable t s ∧ Clear rs (· = .codeBlock) s
  separators : RangesOver rs .tableSeparator fun s =>
    (∃ x ∈ t.numberedLines, Markup.IsSeparator x.2 ∧ s = ⟨x.1, x.1 + x.2.length⟩) ∧
      Clear rs (·.priority < RangeKind.table.priority) s
  delimiters : RangesOver rs .tableDelimiter fun s =>
    (∃ x ∈ t.numberedLines, Markup.IsTableLine x.2 ∧ ¬Markup.IsSeparator x.2 ∧
      ∃ i, x.2[i]? = some '|' ∧ s = ⟨x.1 + i, x.1 + i + 1⟩) ∧
      Clear rs (·.priority < RangeKind.table.priority) s

namespace Detection

section Found

variable {t : Text} {on : FilterSwitch → Bool} {custom : List Candidate}

theorem clear_ranges_iff (hfit : Fit t custom) (hcustom : ∀ c ∈ custom, c.kind = .custom)
    (c : Candidate) :
    Clear (runWith t on custom).ranges
        (fun k => if c.kind = .table then k = .codeBlock else k.priority < 5) c.span ↔
      c.overlaps (if c.kind = .table then
          (offerAll t (inlineCandidates t on custom) {}).accepted.filter (·.kind = .codeBlock)
        else (offerAll t (inlineCandidates t on custom) {}).accepted) = false := by
  have hmem (r : ExcludedRange) : r ∈ (runWith t on custom).ranges ∧ r.kind.priority < 5 ↔
      r ∈ (offerAll t (inlineCandidates t on custom) {}).accepted := by
    constructor
    · rintro ⟨hr, hpriority⟩
      exact (mem_runWith_iff_inline (Nat.le_of_lt_succ hpriority)).mp (mem_ranges.mp hr)
    · intro hr
      have hpriority := (PassesDone.inline on hfit hcustom).priority_le_of_mem hr
      exact ⟨mem_ranges.mpr ((mem_runWith_iff_inline hpriority).mpr hr),
        Nat.lt_succ_of_le hpriority⟩
  rw [Candidate.overlaps_eq_false_iff, Clear]
  by_cases htable : c.kind = .table
  · simp only [if_pos htable, List.mem_filter, decide_eq_true_eq, ← hmem, and_imp]
    refine forall₂_congr fun r _ => ⟨fun h _ hcode => h hcode, fun h hcode => h ?_ hcode⟩
    rw [hcode]
    decide
  · simp only [if_neg htable, ← hmem, and_imp]

/-- The tables and their parts among the ranges are the candidates that are clear of ranges. -/
theorem mem_ranges_of_priority (hfit : Fit t custom) (hcustom : ∀ c ∈ custom, c.kind = .custom)
    (hon : on .tables = true) {r : ExcludedRange} (hr : r.kind.priority = 5) :
    r ∈ (runWith t on custom).ranges ↔ ∃ c ∈ tableCandidates t, c.span.start < c.span.stop ∧
      Clear (runWith t on custom).ranges
        (fun k => if c.kind = .table then k = .codeBlock else k.priority < 5) c.span ∧
      r = c.range t := by
  have hnew : r ∉ (offerAll t (inlineCandidates t on custom) {}).accepted := by
    intro hold
    have := (PassesDone.inline on hfit hcustom).priority_le_of_mem hold
    omega
  have hcs : ifOn (on .tables) (tableCandidates t) = tableCandidates t := by
    rw [hon]
    rfl
  rw [mem_ranges, mem_runWith_iff hr.le, hcs, mem_tablePass_iff, or_iff_right hnew]
  simp only [clear_ranges_iff hfit hcustom]

theorem rangesOver_runWith (hfit : Fit t custom) (hcustom : ∀ c ∈ custom, c.kind = .custom)
    (hon : on .tables = true) {kind : RangeKind} (hkind : kind.priority = 5)
    {P : Span → Prop} (hP : ∀ s, (∃ c ∈ tableCandidates t, c.kind = kind ∧ c.span = s) ↔ P s)
    (hlong : ∀ s, P s → s.start < s.stop) :
    RangesOver (runWith t on custom).ranges kind fun s => P s ∧
      Clear (runWith t on custom).ranges
        (fun k => if kind = .table then k = .codeBlock else k.priority < 5) s where
  ordered := (passesDone_runWith t on hfit hcustom).detected.pairwise_kind kind
  sound r hr hrkind := by
    have hpriority : r.kind.priority = 5 := by rw [hrkind, hkind]
    obtain ⟨c, hc, _, hclear, rfl⟩ :=
      (mem_ranges_of_priority hfit hcustom hon hpriority).mp hr
    replace hrkind : c.kind = kind := hrkind
    rw [hrkind] at hclear
    exact ⟨c.span, ⟨(hP c.span).mp ⟨c, hc, hrkind, rfl⟩, hclear⟩, rfl, rfl⟩
  complete s hs := by
    obtain ⟨hs, hclear⟩ := hs
    obtain ⟨c, hc, hckind, rfl⟩ := (hP s).mpr hs
    refine ⟨c.range t, ?_, hckind, rfl, rfl⟩
    have hpriority : (c.range t).kind.priority = 5 :=
      (congrArg RangeKind.priority hckind).trans hkind
    refine (mem_ranges_of_priority hfit hcustom hon hpriority).mpr
      ⟨c, hc, hlong c.span hs, ?_, rfl⟩
    rw [hckind]
    exact hclear

theorem tablesFound_runWith (hfit : Fit t custom) (hcustom : ∀ c ∈ custom, c.kind = .custom)
    (hon : on .tables = true) : TablesFound t (runWith t on custom).ranges where
  tables := rangesOver_runWith hfit hcustom hon rfl (fun _ => exists_table_tableCandidates_iff)
    fun _ => IsTable.start_lt_stop
  separators := by
    refine rangesOver_runWith hfit hcustom hon rfl
      (fun _ => exists_separator_tableCandidates_iff) ?_
    rintro s ⟨x, _, hseparator, rfl⟩
    have hline : Markup.IsTableLine x.2 := Or.inr hseparator
    have hpos := List.length_pos_iff.mpr hline.ne_nil
    show x.1 < x.1 + x.2.length
    omega
  delimiters := by
    refine rangesOver_runWith hfit hcustom hon rfl
      (fun _ => exists_delimiter_tableCandidates_iff) ?_
    rintro s ⟨x, _, _, _, i, _, rfl⟩
    exact Nat.lt_succ_self _

end Found

end Detection

/-- Where tables are switched on, detection finds exactly the tables, unless it fails. -/
theorem detect?_tables (t : Text) (cfg : FilterConfig) (hon : cfg.switches .tables = true) :
    match detect? t cfg with
    | none => ∃ v ∈ cfg.custom, ¬Compilable cfg.characters v ∧ ¬Faulty cfg.characters v
    | some rs => TablesFound t rs := by
  split
  · next hnone => exact Detection.detect?_eq_none_iff.mp hnone
  · next rs hrs =>
      obtain ⟨d, hd, rfl⟩ := Option.map_eq_some_iff.mp hrs
      rw [Detection.run?_eq_some hd]
      exact Detection.tablesFound_runWith (Detection.fit_customCandidates t cfg)
        (Detection.kind_of_mem_customCandidates t cfg) hon

theorem detect?_tables_separator :
    let t := "| a |\n|---|\nb".toList
    ({} : FilterConfig).switches .tables = true ∧ ∃ rs, detect? t {} = some rs ∧ TablesFound t rs :=
  ⟨rfl, _, rfl, detect?_tables _ {} rfl⟩

end Kouetsu
