/-!
# Texts and their offsets

A document is a list of code points, and every offset in this library counts code
points.  This module holds the searches and cuts that the other modules share.  Main
statements: a slice holds the characters at its offsets, a phrase occurs exactly where it is
a prefix of the rest, and the lines of a text join to the text.
-/

namespace Kouetsu

abbrev Text := List Char

/-- The half-open interval of offsets `start ≤ i < stop`. -/
structure Span where
  start : Nat
  stop : Nat
deriving DecidableEq, Repr

namespace Span

def length (s : Span) : Nat := s.stop - s.start

def covers (s : Span) (offset : Nat) : Bool := s.start ≤ offset && offset < s.stop

end Span

namespace Text

def slice (t : Text) (s : Span) : Text := (t.take s.stop).drop s.start

theorem length_slice (t : Text) (s : Span) :
    (t.slice s).length = min s.stop t.length - s.start := by
  simp [slice]

theorem getElem?_slice (t : Text) (s : Span) (i : Nat) :
    (t.slice s)[i]? = if s.start + i < s.stop then t[s.start + i]? else none := by
  simp only [slice, List.getElem?_drop, List.getElem?_take]

/-- The offset an index stands for when a negative index counts from the end.  Indices
beyond either end stand for that end. -/
def resolveIndex (length : Nat) (i : Int) : Nat :=
  if i < 0 then (length + i).toNat else min i.toNat length

/-- The characters between two indices, negative ones counting from the end. -/
def sliceBetween (t : Text) (start stop : Int) : Text :=
  t.slice ⟨resolveIndex t.length start, resolveIndex t.length stop⟩

def startsWith (t lead : Text) : Bool := lead.isPrefixOf t

theorem startsWith_iff {t lead : Text} : startsWith t lead = true ↔ lead <+: t := by
  simp [startsWith]

def endsWith (t tail : Text) : Bool := tail.isSuffixOf t

theorem endsWith_iff {t tail : Text} : endsWith t tail = true ↔ tail <:+ t := by
  simp [endsWith]

def find? (needle : Text) : Text → Option Nat
  | [] => if needle.isEmpty then some 0 else none
  | c :: rest =>
      if startsWith (c :: rest) needle then some 0 else (find? needle rest).map (· + 1)

theorem find?_eq_some {needle t : Text} {i : Nat} (h : find? needle t = some i) :
    needle <+: t.drop i := by
  induction t generalizing i with
  | nil =>
      simp only [find?] at h
      split at h
      · simp_all
      · simp at h
  | cons c rest ih =>
      simp only [find?] at h
      split at h
      · simp only [Option.some.injEq] at h
        subst h
        exact startsWith_iff.mp ‹_›
      · obtain ⟨j, hj, rfl⟩ := Option.map_eq_some_iff.mp h
        exact ih hj

def contains (t needle : Text) : Bool := (find? needle t).isSome

theorem contains_iff {t needle : Text} : contains t needle = true ↔ needle <:+: t := by
  rw [contains]
  induction t with
  | nil => cases needle <;> simp [find?]
  | cons c rest ih =>
      rw [find?, List.infix_cons_iff, ← startsWith_iff]
      split
      · next h => simp [h]
      · next h =>
          rw [Option.isSome_map, ih]
          simp [h]

def findFrom? (t needle : Text) (start : Nat) : Option Nat :=
  if start ≤ t.length then (find? needle (t.drop start)).map (· + start) else none

def occurrencesFrom (needle : Text) (offset : Nat) : Text → List Nat
  | [] => []
  | c :: rest =>
      if startsWith (c :: rest) needle then offset :: occurrencesFrom needle (offset + 1) rest
      else occurrencesFrom needle (offset + 1) rest

/-- The offsets of all occurrences of a phrase, overlapping ones included.  The empty
phrase occurs nowhere. -/
def occurrences (t needle : Text) : List Nat :=
  if needle.isEmpty then [] else occurrencesFrom needle 0 t

theorem mem_occurrencesFrom {needle : Text} (hn : needle ≠ []) {t : Text} {offset i : Nat} :
    i ∈ occurrencesFrom needle offset t ↔ offset ≤ i ∧ needle <+: t.drop (i - offset) := by
  induction t generalizing offset with
  | nil => simp [occurrencesFrom, hn]
  | cons c rest ih =>
      have hstep : i ∈ occurrencesFrom needle offset (c :: rest) ↔
          (i = offset ∧ needle <+: c :: rest) ∨ i ∈ occurrencesFrom needle (offset + 1) rest := by
        simp only [occurrencesFrom]
        split
        · next h => simp [startsWith_iff.mp h]
        · next h => simp [mt startsWith_iff.mpr h]
      rw [hstep, ih]
      constructor
      · rintro (⟨rfl, h⟩ | ⟨hle, h⟩)
        · simpa using h
        · obtain ⟨d, rfl⟩ := Nat.exists_eq_add_of_le hle
          refine ⟨by omega, ?_⟩
          have he : offset + 1 + d - offset = d + 1 := by omega
          rw [he]
          simpa using h
      · rintro ⟨hle, h⟩
        obtain ⟨d, rfl⟩ := Nat.exists_eq_add_of_le hle
        cases d with
        | zero => left; simpa using h
        | succ d =>
            right
            refine ⟨by omega, ?_⟩
            have he : offset + (d + 1) - (offset + 1) = d := by omega
            rw [he]
            simpa using h

theorem mem_occurrences {t needle : Text} (hn : needle ≠ []) {i : Nat} :
    i ∈ occurrences t needle ↔ needle <+: t.drop i := by
  simp [occurrences, hn, mem_occurrencesFrom hn]

/-- A recogniser sees the character before the current offset, if any, and the text from
the offset on, and answers the length of the match that starts there. -/
abbrev Recogniser := Option Char → Text → Option Nat

/-- Walks over a text, `skip` characters of which belong to the last match. -/
def scanFrom (r : Recogniser) (before : Option Char) (offset skip : Nat) : Text → List Span
  | [] => []
  | c :: rest =>
      match skip with
      | skip + 1 => scanFrom r (some c) (offset + 1) skip rest
      | 0 =>
          match r before (c :: rest) with
          | some (n + 1) => ⟨offset, offset + n + 1⟩ :: scanFrom r (some c) (offset + 1) n rest
          | _ => scanFrom r (some c) (offset + 1) 0 rest

/-- The leftmost matches of a recogniser that do not overlap, empty ones left out. -/
def scan (r : Recogniser) (t : Text) : List Span := scanFrom r none 0 0 t

def phrase (p : Text) : Recogniser := fun _ t => if startsWith t p then some p.length else none

def run (p : Char → Bool) : Recogniser := fun _ t =>
  match (t.takeWhile p).length with
  | 0 => none
  | n + 1 => some (n + 1)

/-- The lines of a text, without their line feeds.  There is one more than there are
line feeds. -/
def lines : Text → List Text
  | [] => [[]]
  | c :: rest =>
      if c = '\n' then [] :: lines rest
      else
        match lines rest with
        | [] => [[c]]
        | line :: more => (c :: line) :: more

theorem lines_ne_nil (t : Text) : lines t ≠ [] := by
  cases t with
  | nil => simp [lines]
  | cons c rest =>
      simp only [lines]
      split
      · simp
      · split <;> simp

theorem intercalate_lines (t : Text) : ['\n'].intercalate (lines t) = t := by
  induction t with
  | nil => rfl
  | cons c rest ih =>
      simp only [lines]
      have hne := lines_ne_nil rest
      split
      · next h =>
          subst h
          cases hl : lines rest with
          | nil => exact absurd hl hne
          | cons line more => rw [hl] at ih; simp [← ih, List.intercalate, List.intersperse]
      · cases hl : lines rest with
        | nil => exact absurd hl hne
        | cons line more =>
            rw [hl] at ih
            cases more <;> simp_all [List.intercalate, List.intersperse]

/-- Pairs each piece with the offset of its first character, one separator between two pieces. -/
def numberPieces (offset : Nat) : List Text → List (Nat × Text)
  | [] => []
  | line :: more => (offset, line) :: numberPieces (offset + line.length + 1) more

def numberedLines (t : Text) : List (Nat × Text) := numberPieces 0 t.lines

/-- The pieces of a text between separators.  There is one more than there are
separators. -/
def splitOn {α : Type} [DecidableEq α] (sep : α) : List α → List (List α)
  | [] => [[]]
  | c :: rest =>
      if c = sep then [] :: splitOn sep rest
      else
        match splitOn sep rest with
        | [] => [[c]]
        | piece :: more => (c :: piece) :: more

def dropWhileEnd (p : Char → Bool) (t : Text) : Text := (t.reverse.dropWhile p).reverse

/-- Cuts a text at the first separator; the separator goes to neither side. -/
def cut (sep : Char) (t : Text) : Text × Text :=
  (t.takeWhile (· ≠ sep), (t.dropWhile (· ≠ sep)).drop 1)

theorem cut_append {sep : Char} {a : Text} (b : Text) (h : sep ∉ a) :
    cut sep (a ++ sep :: b) = (a, b) := by
  have hp : ∀ c ∈ a, decide (c ≠ sep) = true := fun c hc => by
    simp only [decide_eq_true_eq]
    exact fun e => h (e ▸ hc)
  simp only [cut, List.takeWhile_append_of_pos hp, List.dropWhile_append_of_pos hp]
  simp

end Text

def inIntervals (table : List (Nat × Nat)) (n : Nat) : Bool :=
  table.any fun (low, high) => low ≤ n && n ≤ high

end Kouetsu
