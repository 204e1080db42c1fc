import Kouetsu.Proofs.Text.Scan
import Kouetsu.Token.Mecab
import Mathlib.Algebra.Ring.Nat
/-!
# Tagger output read back

A tagger prints a word as its surface, a tab and its features between commas.  Whatever the lines
end with, and wherever empty lines and end marks stand between them, every word comes back as a
token, with its features and after the surfaces of the words before it.
-/

namespace Kouetsu

namespace Text

/-- The end of a line: a boundary, or a carriage return and the line feed after it. -/
inductive LineEnd where
  | boundary (c : Char) (h : isLineBoundary c = true)
  | returnAndFeed

def LineEnd.text : LineEnd → Text
  | .boundary c _ => [c]
  | .returnAndFeed => ['\r', '\n']

def OneLine (t : Text) : Prop := ∀ c ∈ t, isLineBoundary c = false

instance (t : Text) : Decidable t.OneLine :=
  decidable_of_iff (t.all fun c => !isLineBoundary c) (by simp [OneLine])

variable {line t u : Text}

theorem OneLine.append (h : t.OneLine) (h' : u.OneLine) : (t ++ u).OneLine :=
  List.forall_mem_append.mpr ⟨h, h'⟩

theorem oneLine_intercalate {sep : Text} (hsep : sep.OneLine) {pieces : List Text}
    (h : ∀ piece ∈ pieces, piece.OneLine) : OneLine (sep.intercalate pieces) := by
  induction pieces with
  | nil => exact List.forall_mem_nil _
  | cons first more ih =>
      obtain ⟨hfirst, hmore⟩ := List.forall_mem_cons.mp h
      cases more with
      | nil => simpa using hfirst
      | cons second more =>
          rw [List.intercalate_cons_cons]
          exact (hfirst.append hsep).append (ih hmore)

theorem boundaryLines_go_append {rest acc : Text} (h : line.OneLine) :
    boundaryLines.go (line ++ rest) acc = boundaryLines.go rest (line.reverse ++ acc) := by
  induction line generalizing acc with
  | nil => rfl
  | cons c line ih =>
      obtain ⟨hc, hline⟩ := List.forall_mem_cons.mp h
      have hreturn : c ≠ '\r' := by
        rintro rfl
        exact absurd hc (by decide)
      rw [List.cons_append, boundaryLines.go, if_neg (by simp [hc]), ih hline, List.reverse_cons,
        List.append_assoc, List.singleton_append]
      intro _ hr
      exact absurd hr hreturn

theorem boundaryLines_of_oneLine (h : line.OneLine) :
    line.boundaryLines = if line = [] then [] else [line] := by
  have hgo : boundaryLines.go (line ++ []) [] = boundaryLines.go [] (line.reverse ++ []) :=
    boundaryLines_go_append h
  rw [List.append_nil, List.append_nil] at hgo
  rw [boundaryLines, hgo, boundaryLines.go]
  simp

/-- Behind a line with its end stand the lines of the rest.  Where the end is a carriage return
and a line feed opens the rest, the two are one boundary and the empty line between them is none. -/
theorem exists_boundaryLines_append (h : line.OneLine) (e : LineEnd)
    (rest : Text) : ∃ more, (line ++ (e.text ++ rest)).boundaryLines = line :: more ∧
      (rest.boundaryLines = more ∨ rest.boundaryLines = [] :: more) := by
  have hgo : (line ++ (e.text ++ rest)).boundaryLines =
      boundaryLines.go (e.text ++ rest) line.reverse := by
    rw [boundaryLines, boundaryLines_go_append h, List.append_nil]
  rw [hgo]
  cases e with
  | returnAndFeed =>
      refine ⟨boundaryLines rest, ?_, .inl rfl⟩
      rw [LineEnd.text, List.cons_append, List.singleton_append, boundaryLines.go,
        List.reverse_reverse, boundaryLines]
  | boundary c hc =>
      rw [LineEnd.text, List.singleton_append]
      by_cases hfeed : c = '\r' ∧ ∃ after, rest = '\n' :: after
      · obtain ⟨rfl, after, rfl⟩ := hfeed
        refine ⟨boundaryLines after, ?_, .inr ?_⟩
        · rw [boundaryLines.go, List.reverse_reverse, boundaryLines]
        · rw [boundaryLines, boundaryLines.go, if_pos (by decide), boundaryLines, List.reverse_nil]
          exact fun _ hreturn => absurd hreturn (by decide)
      · refine ⟨boundaryLines rest, ?_, .inl rfl⟩
        rw [boundaryLines.go, if_pos hc, List.reverse_reverse, boundaryLines]
        exact fun after hreturn hrest => hfeed ⟨hreturn, after, hrest⟩

end Text

namespace Token

def attributes (k : Token) : List String :=
  [k.pos, k.posDetail1, k.posDetail2, k.posDetail3, k.conjugation, k.conjugationForm, k.baseForm,
    k.reading, k.pronunciation]

theorem length_placeEntries (offset : Nat) (xs : List (String × List String)) :
    (placeEntries offset xs).length = xs.length := by
  induction xs generalizing offset with
  | nil => rfl
  | cons x xs ih => rw [placeEntries, List.length_cons, ih, List.length_cons]

theorem getElem?_placeEntries (offset : Nat) (xs : List (String × List String)) (i : Nat) :
    (placeEntries offset xs)[i]? = xs[i]?.map fun x =>
      ofFeatures x.1 x.2 (offset + ((xs.take i).map fun y => y.1.length).sum : Nat) := by
  induction xs generalizing offset i with
  | nil => rfl
  | cons x xs ih =>
      rw [placeEntries]
      cases i with
      | zero => simp
      | succ i =>
          rw [List.getElem?_cons_succ, ih, List.getElem?_cons_succ, List.take_succ_cons,
            List.map_cons, List.sum_cons, Nat.add_assoc]

end Token

namespace Mecab

structure Entry where
  surface : Text
  features : List Text
  surface_ne_nil : surface ≠ []
  tab_not_mem : '\t' ∉ surface
  surface_line : surface.OneLine
  comma_not_mem : ∀ f ∈ features, ',' ∉ f
  features_line : ∀ f ∈ features, f.OneLine

namespace Entry

def row (e : Entry) : Text := [','].intercalate e.features

def text (e : Entry) : Text := e.surface ++ '\t' :: e.row

/-- The feature at an index; an asterisk stands for one that is missing or empty. -/
def featureAt (e : Entry) (k : Nat) : String :=
  match e.features[k]? with
  | none | some [] => "*"
  | some f => String.ofList f

theorem oneLine_row (e : Entry) : e.row.OneLine :=
  Text.oneLine_intercalate (by decide) e.features_line

theorem oneLine_text (e : Entry) : e.text.OneLine := by
  have htab : Text.OneLine ['\t'] := by decide
  exact e.surface_line.append (htab.append e.oneLine_row)

theorem splitOn_row (e : Entry) (h : e.features ≠ []) : Text.splitOn ',' e.row = e.features := by
  rw [row, Text.splitOn_eq, List.splitOn_intercalate ',' e.comma_not_mem h]

def read (e : Entry) : String × List String :=
  (String.ofList e.surface,
    if e.row.isEmpty then [] else (Text.splitOn ',' e.row).map String.ofList)

/-- The tab tells the line of an entry from an end mark, whatever the surface. -/
theorem entryOfLine?_text (e : Entry) : Token.entryOfLine? e.text = some e.read := by
  have htab : '\t' ∈ e.text := List.mem_append_right _ List.mem_cons_self
  have hempty : e.text.isEmpty = false := List.isEmpty_eq_false_iff.mpr (List.ne_nil_of_mem htab)
  have hmark : e.text ≠ "EOS".toList := fun h => absurd (h ▸ htab) (by decide)
  have hsurface : e.surface.isEmpty = false := List.isEmpty_eq_false_iff.mpr e.surface_ne_nil
  rw [Token.entryOfLine?, hempty, Bool.false_or, if_neg (by simpa using hmark), text,
    Text.cut_append e.row e.tab_not_mem]
  simp only [hsurface, Bool.false_eq_true, if_false]
  rfl

theorem feature_read (e : Entry) (k : Nat) : Token.feature e.read.2 k = e.featureAt k := by
  by_cases hrow : e.row = []
  · -- no feature at all, or a single empty one
    have hnone : e.features = [] ∨ e.features = [[]] := by
      rw [or_iff_not_imp_left]
      intro hne
      rw [← e.splitOn_row hne, hrow, Text.splitOn]
    have hread : e.read.2 = [] := if_pos (List.isEmpty_iff.mpr hrow)
    rw [hread, featureAt]
    obtain h | h := hnone
    · rw [h]
      rfl
    · rw [h]
      cases k <;> rfl
  · have hne : e.features ≠ [] := fun h => hrow (by rw [row, h]; rfl)
    have hread : e.read.2 = e.features.map String.ofList := by
      rw [read, if_neg (mt List.isEmpty_iff.mp hrow), e.splitOn_row hne]
    rw [hread, featureAt, Token.feature, List.getElem?_map]
    cases e.features[k]? with
    | none => rfl
    | some f => cases f with
      | nil => rfl
      | cons c f => simp

end Entry

inductive Line where
  | entry (e : Entry)
  | empty
  | endMark

namespace Line

def text : Line → Text
  | .entry e => e.text
  | .empty => []
  | .endMark => "EOS".toList

def entry? : Line → Option Entry
  | .entry e => some e
  | .empty | .endMark => none

theorem oneLine_text (l : Line) : l.text.OneLine := by
  cases l with
  | entry e => exact e.oneLine_text
  | empty => decide
  | endMark => decide

theorem entryOfLine?_text (l : Line) : Token.entryOfLine? l.text = l.entry?.map Entry.read := by
  cases l with
  | entry e => exact e.entryOfLine?_text
  | empty => rfl
  | endMark => rfl

end Line

/-- A tagger's output: lines with their ends, and a last line without one. -/
inductive Output where
  | last (l : Line)
  | line (l : Line) (e : Text.LineEnd) (rest : Output)

namespace Output

def text : Output → Text
  | .last l => l.text
  | .line l e rest => l.text ++ (e.text ++ rest.text)

def entries : Output → List Entry
  | .last l => l.entry?.toList
  | .line l _ rest => l.entry?.toList ++ rest.entries

theorem filterMap_boundaryLines (o : Output) :
    o.text.boundaryLines.filterMap Token.entryOfLine? = o.entries.map Entry.read := by
  induction o with
  | last l =>
      have hread := l.entryOfLine?_text
      rw [text, Text.boundaryLines_of_oneLine l.oneLine_text, entries]
      split
      · next hempty =>
          rw [hempty] at hread
          have hnone : l.entry? = none := Option.map_eq_none_iff.mp hread.symm
          rw [hnone]
          rfl
      · cases hentry : l.entry? <;> simp [hread, hentry]
  | line l e rest ih =>
      obtain ⟨more, hlines, hrest⟩ :=
        Text.exists_boundaryLines_append l.oneLine_text e rest.text
      have hmore : more.filterMap Token.entryOfLine? =
          rest.text.boundaryLines.filterMap Token.entryOfLine? := by
        obtain h | h := hrest
        · rw [h]
        · rw [h, List.filterMap_cons_none rfl]
      rw [text, hlines, entries, List.map_append, ← ih, ← hmore, List.filterMap_cons,
        l.entryOfLine?_text]
      cases l.entry? <;> rfl

/-- The words of an output come back one by one, each with its features and behind the surfaces of
the words before it. -/
theorem ofMecab_printed (o : Output) :
    (Token.ofMecab o.text).length = o.entries.length ∧
      ∀ (i : Nat) (e : Entry), o.entries[i]? = some e →
        ∃ k : Token, (Token.ofMecab o.text)[i]? = some k ∧ k.surface = String.ofList e.surface ∧
          k.attributes = (List.range 9).map e.featureAt ∧
          k.start = ((o.entries.take i).map fun before => before.surface.length).sum ∧
          k.stop = k.start + e.surface.length := by
  have hread : Token.ofMecab o.text = Token.placeEntries 0 (o.entries.map Entry.read) := by
    rw [Token.ofMecab, o.filterMap_boundaryLines]
  rw [hread]
  refine ⟨by rw [Token.length_placeEntries, List.length_map], fun i e he => ?_⟩
  have hlength : (fun e : Entry => e.read.1.length) = fun e => e.surface.length :=
    funext fun e => String.length_ofList
  have hplace := Token.getElem?_placeEntries 0 (o.entries.map Entry.read) i
  rw [List.getElem?_map, he, Option.map_some, Option.map_some, ← List.map_take, List.map_map,
    Nat.zero_add, Function.comp_def, hlength] at hplace
  have hattributes (start : Int) : (Token.ofFeatures e.read.1 e.read.2 start).attributes =
      (List.range 9).map e.featureAt := by
    rw [← funext e.feature_read]
    rfl
  refine ⟨_, hplace, rfl, hattributes _, rfl, ?_⟩
  rw [← congrFun hlength e]
  rfl

/-- A word spelled like the end mark is kept, behind an end mark and before an empty line. -/
theorem ofMecab_printed_endMark :
    let mark : Entry := ⟨"EOS".toList, ["名詞".toList, [], "*".toList], by decide, by decide,
      by decide, by decide, by decide⟩
    let verb : Entry := ⟨"走る".toList, [], by decide, by decide, by decide, by decide, by decide⟩
    let o : Output := .line .endMark (.boundary '\n' rfl) (.line (.entry mark) .returnAndFeed
      (.line .empty (.boundary '\n' rfl) (.last (.entry verb))))
    o.text = "EOS\nEOS\t名詞,,*\r\n\n走る\t".toList ∧
      (∃ k : Token, (Token.ofMecab o.text)[0]? = some k ∧ k.surface = "EOS" ∧
        k.attributes = "名詞" :: List.replicate 8 "*" ∧ k.start = 0 ∧ k.stop = 3) ∧
      ∃ k : Token, (Token.ofMecab o.text)[1]? = some k ∧ k.surface = "走る" ∧
        k.attributes = List.replicate 9 "*" ∧ k.start = 3 ∧ k.stop = 5 := by
  intro mark verb o
  obtain ⟨-, hread⟩ := ofMecab_printed o
  refine ⟨by decide, ?_, ?_⟩
  · obtain ⟨k, hk, hsurface, hattributes, hstart, hstop⟩ := hread 0 mark rfl
    exact ⟨k, hk, hsurface, hattributes, hstart, by rw [hstop, hstart]; rfl⟩
  · obtain ⟨k, hk, hsurface, hattributes, hstart, hstop⟩ := hread 1 verb rfl
    exact ⟨k, hk, hsurface, hattributes, hstart, by rw [hstop, hstart]; rfl⟩

end Output

end Mecab

end Kouetsu
