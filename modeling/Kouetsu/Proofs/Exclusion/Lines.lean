import Kouetsu.Proofs.Exclusion.Candidates
/-!
# Candidates of lines

Tables follow each other and avoid every line outside all tables.  Marks at the starts of lines
stand on such lines, one on each.
-/

namespace Kouetsu

namespace Detection

/-! ## Tables -/

theorem mem_closedTable {stop : Nat} {opened : Option Nat} {c : Candidate}
    (h : c ∈ closedTable stop opened) :
    c.kind = .table ∧ c.span.stop = stop ∧ c.span.start ∈ opened := by
  cases opened with
  | none => simp [closedTable] at h
  | some start =>
      rw [closedTable, List.mem_singleton] at h
      rw [h]
      exact ⟨rfl, rfl, rfl⟩

theorem mem_delimiterCandidates {offset : Nat} {line : Text} {c : Candidate}
    (h : c ∈ delimiterCandidates offset line) :
    c.kind = .tableDelimiter ∧ offset ≤ c.span.start ∧ c.span.stop ≤ offset + line.length := by
  induction line generalizing offset with
  | nil => simp [delimiterCandidates] at h
  | cons d rest ih =>
      rw [List.length_cons]
      rw [delimiterCandidates] at h
      split at h
      · rcases List.mem_cons.mp h with rfl | h
        · simp only [true_and]
          omega
        · obtain ⟨hkind, hlow, hhigh⟩ := ih h
          exact ⟨hkind, by omega, by omega⟩
      · obtain ⟨hkind, hlow, hhigh⟩ := ih h
        exact ⟨hkind, by omega, by omega⟩

def lineParts (offset : Nat) (line : Text) : List Candidate :=
  match Markup.tableLine line with
  | .separator => [separatorCandidate offset line]
  | .row => delimiterCandidates offset line
  | .outside => []

theorem mem_lineParts {offset : Nat} {line : Text} {c : Candidate}
    (h : c ∈ lineParts offset line) :
    c.kind ≠ .table ∧ c.kind.priority = 5 ∧ offset ≤ c.span.start ∧
      c.span.stop ≤ offset + line.length := by
  unfold lineParts at h
  split at h
  · rw [List.mem_singleton] at h
    rw [h]
    exact ⟨by simp [separatorCandidate], rfl, Nat.le_refl _, Nat.le_refl _⟩
  · obtain ⟨hkind, hlow, hhigh⟩ := mem_delimiterCandidates h
    rw [hkind]
    exact ⟨by simp, rfl, hlow, hhigh⟩
  · simp at h

/-- A line either goes on with a table or closes the table before it. -/
theorem tableCandidatesFrom_cons (stop : Nat) (opened : Option Nat) (offset : Nat) (line : Text)
    (rest : List (Nat × Text)) :
    tableCandidatesFrom stop opened ((offset, line) :: rest) =
      if Markup.tableLine line = .outside then
        closedTable offset opened ++ tableCandidatesFrom stop none rest
      else
        lineParts offset line ++ tableCandidatesFrom stop (some (opened.getD offset)) rest := by
  rw [tableCandidatesFrom, lineParts]
  cases Markup.tableLine line <;> simp

theorem priority_of_mem_tableCandidatesFrom {stop : Nat} {opened : Option Nat}
    {lines : List (Nat × Text)} {c : Candidate} (h : c ∈ tableCandidatesFrom stop opened lines) :
    c.kind.priority = 5 := by
  induction lines generalizing opened with
  | nil =>
      rw [(mem_closedTable h).1]
      rfl
  | cons x rest ih =>
      rw [tableCandidatesFrom_cons] at h
      split at h
      · rcases List.mem_append.mp h with h | h
        · rw [(mem_closedTable h).1]
          rfl
        · exact ih h
      · rcases List.mem_append.mp h with h | h
        · exact (mem_lineParts h).2.1
        · exact ih h

/-- Lines that follow each other, and none reaches beyond an offset. -/
structure LinesApart (stop : Nat) (lines : List (Nat × Text)) : Prop where
  apart : lines.Pairwise fun x y => x.1 + x.2.length < y.1
  bounded : ∀ x ∈ lines, x.1 + x.2.length ≤ stop

theorem linesApart_numberedLines (t : Text) : LinesApart t.length t.numberedLines where
  apart := Text.pairwise_numberPieces 0 t.lines
  bounded _ hx := Text.stop_le_of_mem_numberedLines hx

section Lines

variable {stop : Nat} {lines : List (Nat × Text)}

theorem LinesApart.tail {x : Nat × Text} (h : LinesApart stop (x :: lines)) :
    LinesApart stop lines :=
  ⟨(List.pairwise_cons.mp h.apart).2, fun y hy => h.bounded y (List.mem_cons_of_mem x hy)⟩

theorem LinesApart.stop_lt {x y : Nat × Text} (h : LinesApart stop (x :: lines))
    (hy : y ∈ lines) : x.1 + x.2.length < y.1 :=
  (List.pairwise_cons.mp h.apart).1 y hy

theorem stop_le_of_mem_tableCandidatesFrom {opened : Option Nat} {c : Candidate}
    (hl : LinesApart stop lines) (h : c ∈ tableCandidatesFrom stop opened lines) :
    c.span.stop ≤ stop := by
  induction lines generalizing opened with
  | nil => exact (mem_closedTable h).2.1.le
  | cons x rest ih =>
      have hx := hl.bounded x List.mem_cons_self
      rw [tableCandidatesFrom_cons] at h
      split at h
      · rcases List.mem_append.mp h with h | h
        · have := (mem_closedTable h).2.1
          omega
        · exact ih hl.tail h
      · rcases List.mem_append.mp h with h | h
        · have := (mem_lineParts h).2.2.2
          omega
        · exact ih hl.tail h

/-- Nothing starts before the table that is open, nor before the first line. -/
theorem low_le_of_mem_tableCandidatesFrom {opened : Option Nat} {low : Nat} {c : Candidate}
    (hopened : ∀ s ∈ opened, low ≤ s) (hlines : ∀ x ∈ lines, low ≤ x.1)
    (h : c ∈ tableCandidatesFrom stop opened lines) : low ≤ c.span.start := by
  induction lines generalizing opened with
  | nil => exact hopened _ (mem_closedTable h).2.2
  | cons x rest ih =>
      have hx := hlines x List.mem_cons_self
      have hrest : ∀ y ∈ rest, low ≤ y.1 := fun y hy => hlines y (List.mem_cons_of_mem x hy)
      rw [tableCandidatesFrom_cons] at h
      split at h
      · rcases List.mem_append.mp h with h | h
        · exact hopened _ (mem_closedTable h).2.2
        · exact ih (by simp) hrest h
      · rcases List.mem_append.mp h with h | h
        · have := (mem_lineParts h).2.2.1
          omega
        · refine ih ?_ hrest h
          intro s hs
          rw [Option.mem_some] at hs
          cases opened with
          | none => exact hs ▸ hx
          | some o => exact hs ▸ hopened o rfl

theorem pairwise_tableCandidatesFrom {opened : Option Nat} (hl : LinesApart stop lines) :
    (tableCandidatesFrom stop opened lines).Pairwise
      fun a b => a.kind = .table → a.span.stop ≤ b.span.start := by
  induction lines generalizing opened with
  | nil => cases opened <;> simp [tableCandidatesFrom, closedTable]
  | cons x rest ih =>
      rw [tableCandidatesFrom_cons]
      split
      · refine List.pairwise_append.mpr ⟨?_, ih hl.tail, ?_⟩
        · cases opened <;> simp [closedTable]
        · intro a ha b hb _
          rw [(mem_closedTable ha).2.1]
          refine low_le_of_mem_tableCandidatesFrom (by simp) ?_ hb
          intro y hy
          have := hl.stop_lt hy
          omega
      · refine List.pairwise_append.mpr ⟨?_, ih hl.tail, ?_⟩
        · refine List.pairwise_of_forall_mem_list fun a ha b _ htable => ?_
          exact absurd htable (mem_lineParts ha).1
        · intro a ha b _ htable
          exact absurd htable (mem_lineParts ha).1

/-- A table starts where a line does, and stops there or at the end of the text. -/
theorem table_edges {opened : Option Nat} {c : Candidate}
    (h : c ∈ tableCandidatesFrom stop opened lines) (htable : c.kind = .table) :
    (c.span.start ∈ opened ∨ ∃ x ∈ lines, c.span.start = x.1) ∧
      (c.span.stop = stop ∨ ∃ x ∈ lines, c.span.stop = x.1) := by
  induction lines generalizing opened with
  | nil =>
      obtain ⟨_, hstop, hopened⟩ := mem_closedTable h
      exact ⟨Or.inl hopened, Or.inl hstop⟩
  | cons x rest ih =>
      have hlater {P : Nat → Prop} (hex : ∃ y ∈ rest, P y.1) : ∃ y ∈ x :: rest, P y.1 := by
        obtain ⟨y, hy, hP⟩ := hex
        exact ⟨y, List.mem_cons_of_mem x hy, hP⟩
      rw [tableCandidatesFrom_cons] at h
      split at h
      · rcases List.mem_append.mp h with h | h
        · obtain ⟨_, hstop, hopened⟩ := mem_closedTable h
          exact ⟨Or.inl hopened, Or.inr ⟨x, List.mem_cons_self, hstop⟩⟩
        · obtain ⟨hstart, hstop⟩ := ih h
          refine ⟨Or.inr (hlater (hstart.resolve_left (by simp))), hstop.imp_right hlater⟩
      · rcases List.mem_append.mp h with h | h
        · exact absurd htable (mem_lineParts h).1
        · obtain ⟨hstart, hstop⟩ := ih h
          refine ⟨?_, hstop.imp_right hlater⟩
          rcases hstart with hstart | hstart
          · cases opened with
            | none =>
                exact Or.inr ⟨x, List.mem_cons_self, (Option.mem_some.mp hstart).symm⟩
            | some o => exact Or.inl hstart
          · exact Or.inr (hlater hstart)

/-- A table stops before a line outside all tables, or starts after it. -/
theorem table_avoids_outside {opened : Option Nat} {c : Candidate} {x : Nat × Text}
    (hl : LinesApart stop lines) (h : c ∈ tableCandidatesFrom stop opened lines)
    (htable : c.kind = .table) (hx : x ∈ lines) (hout : Markup.tableLine x.2 = .outside) :
    c.span.stop ≤ x.1 ∨ x.1 + x.2.length < c.span.start := by
  -- a table closed at a line stops before it; what is offered later starts after that line
  induction lines generalizing opened with
  | nil => simp at hx
  | cons y rest ih =>
      rw [tableCandidatesFrom_cons] at h
      split at h
      · rcases List.mem_append.mp h with hclosed | hmore
        · left
          rw [(mem_closedTable hclosed).2.1]
          rcases List.mem_cons.mp hx with rfl | hx
          · exact Nat.le_refl _
          · have := hl.stop_lt hx
            omega
        · rcases List.mem_cons.mp hx with rfl | hx
          · right
            exact low_le_of_mem_tableCandidatesFrom (by simp) (fun z hz => hl.stop_lt hz) hmore
          · exact ih hl.tail hmore hx
      · next hline =>
          rcases List.mem_append.mp h with h | h
          · exact absurd htable (mem_lineParts h).1
          · rcases List.mem_cons.mp hx with rfl | hx
            · exact absurd hout hline
            · exact ih hl.tail h hx

end Lines

theorem fit_tableCandidates (t : Text) : Fit t (tableCandidates t) :=
  fun _ hc => stop_le_of_mem_tableCandidatesFrom (linesApart_numberedLines t) hc

/-! ## Line marks -/

/-- A recogniser of marks that end inside their line, a line of no table. -/
structure MarksOutside (mark? : Text → Option Nat) : Prop where
  bounded : ∀ line n, mark? line = some n → n ≤ line.length
  outside : ∀ line n, mark? line = some n → Markup.tableLine line = .outside

theorem marksOutside_headingMark? : MarksOutside Markup.headingMark? where
  bounded _ _ h := Markup.length_le_of_headingMark? h
  outside _ _ h := Markup.tableLine_of_headingMark? h

theorem marksOutside_listMark? : MarksOutside Markup.listMark? where
  bounded _ _ h := Markup.length_le_of_listMark? h
  outside _ _ h := Markup.tableLine_of_listMark? h

section Marks

variable {mark? : Text → Option Nat} {kind : RangeKind} {reason : String} {t : Text}

theorem mem_markCandidates {c : Candidate} :
    c ∈ markCandidates mark? kind reason t ↔
      ∃ x ∈ t.numberedLines, ∃ n, mark? x.2 = some n ∧ ⟨⟨x.1, x.1 + n⟩, kind, reason⟩ = c := by
  simp only [markCandidates, List.mem_filterMap, Option.map_eq_some_iff]

theorem fit_markCandidates (hm : MarksOutside mark?) :
    Fit t (markCandidates mark? kind reason t) := by
  intro c hc
  obtain ⟨x, hx, n, hn, rfl⟩ := mem_markCandidates.mp hc
  have hline := Text.stop_le_of_mem_numberedLines hx
  have hmark := hm.bounded _ _ hn
  simp only
  omega

theorem kind_of_mem_markCandidates {c : Candidate}
    (hc : c ∈ markCandidates mark? kind reason t) : c.kind = kind := by
  obtain ⟨x, _, n, _, rfl⟩ := mem_markCandidates.mp hc
  rfl

theorem pairwise_markCandidates (hm : MarksOutside mark?) :
    (markCandidates mark? kind reason t).Pairwise fun a b => a.span.stop ≤ b.span.start := by
  refine (Text.pairwise_numberPieces 0 t.lines).filterMap _ ?_
  intro x y hxy a ha b hb
  obtain ⟨n, hn, rfl⟩ := Option.map_eq_some_iff.mp ha
  obtain ⟨m, _, rfl⟩ := Option.map_eq_some_iff.mp hb
  have hmark := hm.bounded _ _ hn
  simp only
  omega

theorem table_avoids_mark (hm : MarksOutside mark?) {c m : Candidate}
    (hc : c ∈ tableCandidates t) (htable : c.kind = .table)
    (hmark : m ∈ markCandidates mark? kind reason t) :
    c.span.stop ≤ m.span.start ∨ m.span.stop ≤ c.span.start := by
  obtain ⟨x, hx, n, hn, rfl⟩ := mem_markCandidates.mp hmark
  have havoid := table_avoids_outside (linesApart_numberedLines t) hc htable hx
    (hm.outside _ _ hn)
  have hlen := hm.bounded _ _ hn
  simp only
  omega

end Marks

end Detection

end Kouetsu
