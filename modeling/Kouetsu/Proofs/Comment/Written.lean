import Kouetsu.Proofs.Comment.Lexer
/-!
# Comments are found where they were written

A program written as a sequence of characters of code, literals and comments has exactly those
comments, whatever marks its literals hold and whatever quotes its comments hold.
-/

namespace Kouetsu

/-! ## Programs as they are written -/

/-- A part of a literal: a character after a backslash, or one that stands for itself. -/
inductive LiteralPart where
  | escaped (c : Char)
  | plain (c : Char)

namespace LiteralPart

def text : LiteralPart → Text
  | escaped c => ['\\', c]
  | plain c => [c]

/-- Whether a part may stand in a literal.  Only backticks go on over lines. -/
def Fits (quote : Char) : LiteralPart → Prop
  | escaped _ => True
  | plain c => c ≠ quote ∧ c ≠ '\\' ∧ (c = '\n' → quote = '\x60')

instance (quote : Char) : (x : LiteralPart) → Decidable (x.Fits quote)
  | escaped _ => inferInstanceAs (Decidable True)
  | plain c => inferInstanceAs (Decidable (c ≠ quote ∧ c ≠ '\\' ∧ (c = '\n' → quote = '\x60')))

end LiteralPart

inductive Piece where
  | code (c : Char)
  | literal (quote : Char) (parts : List LiteralPart)
  | line (body : Text)
  | block (body : Text)

namespace Piece

def text (style : CommentStyle) : Piece → Text
  | code c => [c]
  | literal quote parts => quote :: parts.flatMap LiteralPart.text ++ [quote]
  | line body => style.lineMark ++ body
  | block body =>
      match style.blockMarks with
      | some (opening, closing) => opening ++ body ++ closing
      | none => body

/-- Whether a piece may stand before a text: no mark starts at a character of code, a line comment
goes on to the end of its line, and a block comment up to its first closing mark. -/
def Fits (style : CommentStyle) (next : Text) : Piece → Prop
  | code c => c ∉ style.quotes ∧ ¬style.lineMark <+: c :: next ∧
      ∀ marks ∈ style.blockMarks, ¬marks.1 <+: c :: next
  | literal quote parts => quote ∈ style.quotes ∧ ∀ x ∈ parts, x.Fits quote
  | line body => '\n' ∉ body ∧ (next = [] ∨ next.head? = some '\n')
  | block body => ∃ marks ∈ style.blockMarks, ¬marks.2 <:+: body

instance (style : CommentStyle) (next : Text) : (p : Piece) → Decidable (p.Fits style next)
  | code c => inferInstanceAs (Decidable (c ∉ style.quotes ∧ ¬style.lineMark <+: c :: next ∧
      ∀ marks ∈ style.blockMarks, ¬marks.1 <+: c :: next))
  | literal quote parts =>
      inferInstanceAs (Decidable (quote ∈ style.quotes ∧ ∀ x ∈ parts, x.Fits quote))
  | line body => inferInstanceAs (Decidable ('\n' ∉ body ∧ (next = [] ∨ next.head? = some '\n')))
  | block body => inferInstanceAs (Decidable (∃ marks ∈ style.blockMarks, ¬marks.2 <:+: body))

def kind? : Piece → Option CommentKind
  | line _ => some .line
  | block _ => some .block
  | _ => none

def mark? (style : CommentStyle) (offset : Nat) (p : Piece) :
    Option (Span × Text × CommentKind) :=
  p.kind?.map fun kind =>
    (⟨offset, offset + (p.text style).length⟩, p.text style, kind)

end Piece

def written (style : CommentStyle) (pieces : List Piece) : Text := pieces.flatMap (·.text style)

/-- Pieces each of which fits before those that follow it. -/
def WellFormed (style : CommentStyle) : List Piece → Prop
  | [] => True
  | p :: more => p.Fits style (written style more) ∧ WellFormed style more

instance decidableWellFormed (style : CommentStyle) :
    (pieces : List Piece) → Decidable (WellFormed style pieces)
  | [] => inferInstanceAs (Decidable True)
  | p :: more =>
      have := decidableWellFormed style more
      inferInstanceAs (Decidable (p.Fits style (written style more) ∧ WellFormed style more))

/-- The comments among pieces of which the first one stands at an offset. -/
def marked (style : CommentStyle) (offset : Nat) : List Piece → List (Span × Text × CommentKind)
  | [] => []
  | p :: more =>
      (p.mark? style offset).toList ++ marked style (offset + (p.text style).length) more

/-- A style without texts in three quotes and raw strings, whose marks are told apart by what they
start with. -/
structure CommentStyle.Plain (style : CommentStyle) : Prop extends style.Marked where
  docStrings_eq : style.docStrings = false
  rawStrings_eq : style.rawStrings = false
  backslash_not_mem : '\\' ∉ style.quotes
  lineMark_head : ∀ c ∈ style.lineMark.head?, c ∉ style.quotes
  opening_head : ∀ marks ∈ style.blockMarks, ∀ c ∈ marks.1.head?, c ∉ style.quotes
  opening_apart : ∀ marks ∈ style.blockMarks, ∀ t, ¬style.lineMark <+: marks.1 ++ t
  closing_pair : ∀ marks ∈ style.blockMarks, ∃ a b, a ≠ b ∧ marks.2 = [a, b]

theorem plain_slashes : CommentStyle.slashes.Plain where
  lineMark_ne := by decide
  lineMark_oneLine := by decide
  opening_ne := by decide
  docStrings_eq := rfl
  rawStrings_eq := rfl
  backslash_not_mem := by decide
  lineMark_head := by
    rintro _ ⟨⟩
    decide
  opening_head := by
    rintro _ ⟨⟩ _ ⟨⟩
    decide
  opening_apart := by
    rintro _ ⟨⟩ t h
    simp [CommentStyle.slashes] at h
  closing_pair := by
    rintro _ ⟨⟩
    exact ⟨'*', '/', by decide, rfl⟩

theorem plain_hash : CommentStyle.hash.Plain where
  lineMark_ne := by decide
  lineMark_oneLine := by decide
  opening_ne := by decide
  docStrings_eq := rfl
  rawStrings_eq := rfl
  backslash_not_mem := by decide
  lineMark_head := by
    rintro _ ⟨⟩
    decide
  opening_head := by rintro _ ⟨⟩
  opening_apart := by rintro _ ⟨⟩
  closing_pair := by rintro _ ⟨⟩

/-! ## Lexemes -/

theorem literalLength_written {quote : Char} (hquote : quote ≠ '\\') {parts : List LiteralPart}
    (hparts : ∀ x ∈ parts, x.Fits quote) (next : Text) :
    literalLength quote (parts.flatMap LiteralPart.text ++ quote :: next) =
      (parts.flatMap LiteralPart.text).length + 1 := by
  induction parts with
  | nil =>
      rw [List.flatMap_nil, List.nil_append, literalLength, if_pos rfl]
      · rfl
      · rintro _ _ h
        exact absurd h hquote
  | cons x more ih =>
      have hmore := ih fun y hy => hparts y (List.mem_cons_of_mem x hy)
      have hx := hparts x List.mem_cons_self
      cases x with
      | escaped c =>
          simp only [List.flatMap_cons, LiteralPart.text, List.cons_append, List.nil_append,
            literalLength, List.length_cons]
          omega
      | plain c =>
          obtain ⟨hne, hback, hfeed⟩ := hx
          simp only [List.flatMap_cons, LiteralPart.text, List.cons_append, List.nil_append,
            List.length_cons]
          rw [literalLength, if_neg hne, if_neg, hmore]
          · omega
          · simpa using hfeed
          · rintro _ _ h
            exact absurd h hback

theorem find?_pair {a b : Char} (hab : a ≠ b) {body : Text} (hbody : ¬[a, b] <:+: body)
    (next : Text) : Text.find? [a, b] (body ++ ([a, b] ++ next)) = some body.length := by
  induction body with
  | nil =>
      rw [List.nil_append, List.cons_append, Text.find?, if_pos]
      · rfl
      · exact Text.startsWith_iff.mpr (List.prefix_append [a, b] next)
  | cons c rest ih =>
      have hrest : ¬[a, b] <:+: rest := fun h => hbody (h.trans (List.suffix_cons c rest).isInfix)
      rw [List.cons_append, Text.find?, if_neg, ih hrest]
      · rfl
      · intro hlead
        have hlead := Text.startsWith_iff.mp hlead
        -- the mark would start at `c` and end in what follows
        cases rest with
        | nil =>
            simp only [List.nil_append, List.cons_append, List.cons_prefix_cons] at hlead
            exact hab hlead.2.1.symm
        | cons d rest =>
            simp only [List.cons_append, List.cons_prefix_cons] at hlead
            obtain ⟨rfl, rfl, _⟩ := hlead
            exact hbody ⟨[], rest, rfl⟩

theorem lexeme_plain {style : CommentStyle} (hstyle : style.Plain) (before : Option Char)
    (offset : Nat) (c : Char) (rest : Text) :
    lexeme style before offset c rest =
      if style.quotes.contains c then .skipped (1 + literalLength c rest)
      else if Text.startsWith (c :: rest) style.lineMark then
        .comment (lineComment style.lineMark offset (c :: rest))
      else
        match style.blockMarks with
        | some (opening, closing) =>
            if Text.startsWith (c :: rest) opening then
              .comment (blockComment opening closing true offset (c :: rest))
            else .skipped 1
        | none => .skipped 1 := by
  rw [lexeme, hstyle.docStrings_eq, hstyle.rawStrings_eq]
  rfl

theorem lexeme_code {style : CommentStyle} (hstyle : style.Plain) {c : Char} {next : Text}
    (h : (Piece.code c).Fits style next) (before : Option Char) (offset : Nat) :
    lexeme style before offset c next = .skipped 1 := by
  obtain ⟨hquote, hline, hblock⟩ := h
  rw [lexeme_plain hstyle, if_neg (by simpa using hquote),
    if_neg fun hlead => hline (Text.startsWith_iff.mp hlead)]
  split
  · next opening closing hmarks =>
      exact if_neg fun hlead => hblock _ hmarks (Text.startsWith_iff.mp hlead)
  · rfl

theorem lexeme_literal {style : CommentStyle} (hstyle : style.Plain) {quote : Char}
    {parts : List LiteralPart} {next : Text} (h : (Piece.literal quote parts).Fits style next)
    (before : Option Char) (offset : Nat) :
    lexeme style before offset quote (parts.flatMap LiteralPart.text ++ quote :: next) =
      .skipped ((Piece.literal quote parts).text style).length := by
  obtain ⟨hquote, hparts⟩ := h
  have hne : quote ≠ '\\' := fun heq => hstyle.backslash_not_mem (heq ▸ hquote)
  rw [lexeme_plain hstyle, if_pos (by simpa using hquote), literalLength_written hne hparts]
  simp [Piece.text]
  omega

theorem lineComment_written {mark body next : Text} (hmark : '\n' ∉ mark) (hbody : '\n' ∉ body)
    (hnext : next = [] ∨ next.head? = some '\n') (offset : Nat) :
    (lineComment mark offset (mark ++ body ++ next)).text = mark ++ body := by
  have hfeed : '\n' ∉ mark ++ body := by simp [hmark, hbody]
  show (mark ++ body ++ next).takeWhile (· ≠ '\n') = mark ++ body
  rw [List.takeWhile_append_of_pos fun c hc => decide_eq_true (ne_of_mem_of_not_mem hc hfeed)]
  cases next with
  | nil => simp
  | cons c rest =>
      obtain rfl : c = '\n' := by simpa using hnext
      simp

theorem blockComment_written {opening body next : Text} {a b : Char} (hab : a ≠ b)
    (hbody : ¬[a, b] <:+: body) (offset : Nat) :
    (blockComment opening [a, b] true offset (opening ++ body ++ [a, b] ++ next)).text =
      opening ++ body ++ [a, b] := by
  have hsplit : opening ++ body ++ [a, b] ++ next = opening ++ (body ++ ([a, b] ++ next)) := by
    simp only [List.append_assoc]
  have hfound : Text.find? [a, b] ((opening ++ body ++ [a, b] ++ next).drop opening.length) =
      some body.length := by
    rw [hsplit, List.drop_left, find?_pair hab hbody]
  unfold blockComment
  simp only
  rw [hfound, Option.map_some, Option.getD_some, List.take_left']
  rw [List.length_append, List.length_append]

/-! ## Walking over a program -/

def Lexeme.size : Lexeme → Nat
  | comment m => m.span.length
  | skipped length => length

def Lexeme.found : Lexeme → List Comment
  | comment m => [m]
  | skipped _ => []

def Comment.mark (m : Comment) : Span × Text × CommentKind := (m.span, m.text, m.kind)

theorem Comment.StandsIn.mark_eq {m : Comment} {offset : Nat} {t text : Text}
    (h : m.StandsIn offset t) (hstart : m.span.start = offset) (htext : m.text = text) :
    m.mark = (⟨offset, offset + text.length⟩, text, m.kind) := by
  have hspan : m.span = ⟨offset, offset + text.length⟩ := by
    rw [← htext, ← hstart, ← h.stop_eq]
  rw [Comment.mark, hspan, htext]

theorem commentsFrom_skip (style : CommentStyle) (before : Option Char) (offset : Nat)
    (xs next : Text) : ∃ before', commentsFrom style before offset xs.length (xs ++ next) =
      commentsFrom style before' (offset + xs.length) 0 next := by
  induction xs generalizing before offset with
  | nil => exact ⟨before, rfl⟩
  | cons c rest ih =>
      obtain ⟨before', h⟩ := ih (some c) (offset + 1)
      refine ⟨before', ?_⟩
      rw [List.length_cons, List.cons_append, commentsFrom, h, Nat.add_right_comm, Nat.add_assoc]

theorem commentsFrom_lexeme {style : CommentStyle} {before : Option Char} {offset : Nat} {c : Char}
    {xs next : Text} (h : (lexeme style before offset c (xs ++ next)).size = xs.length + 1) :
    ∃ before', commentsFrom style before offset 0 (c :: xs ++ next) =
      (lexeme style before offset c (xs ++ next)).found ++
        commentsFrom style before' (offset + (c :: xs).length) 0 next := by
  obtain ⟨before', hskip⟩ := commentsFrom_skip style (some c) (offset + 1) xs next
  refine ⟨before', ?_⟩
  rw [List.cons_append, List.length_cons, commentsFrom]
  cases hlexeme : lexeme style before offset c (xs ++ next) with
  | comment m =>
      have hlong : m.span.length = xs.length + 1 := by rwa [hlexeme] at h
      simp only [hlong, Nat.add_sub_cancel, hskip, Lexeme.found, List.singleton_append]
      rw [Nat.add_right_comm, Nat.add_assoc]
  | skipped n =>
      have hlong : n = xs.length + 1 := by rwa [hlexeme] at h
      simp only [hlong, Nat.add_sub_cancel, hskip, Lexeme.found, List.nil_append]
      rw [Nat.add_right_comm, Nat.add_assoc]

theorem lexeme_eq_comment {m : Comment} {offset : Nat} {t text : Text}
    (h : m.StandsIn offset t) (hstart : m.span.start = offset) (htext : m.text = text) :
    (Lexeme.comment m).size = text.length ∧
      (Lexeme.comment m).found.map Comment.mark =
        [(⟨offset, offset + text.length⟩, text, m.kind)] := by
  have hmark := h.mark_eq hstart htext
  refine ⟨?_, by rw [Lexeme.found, List.map_singleton, hmark]⟩
  rw [Lexeme.size, show m.span = _ from congrArg Prod.fst hmark]
  exact Nat.add_sub_cancel_left offset text.length

/-- A piece that is one lexeme in front of a text, with the comment that it has, if any. -/
def Piece.IsLexeme (style : CommentStyle) (next : Text) (p : Piece) : Prop :=
  ∃ c xs, p.text style = c :: xs ∧ ∀ before offset,
    (lexeme style before offset c (xs ++ next)).size = xs.length + 1 ∧
      (lexeme style before offset c (xs ++ next)).found.map Comment.mark =
        (p.mark? style offset).toList

theorem isLexeme_line {style : CommentStyle} (hstyle : style.Plain) {body next : Text}
    (hbody : '\n' ∉ body) (hnext : next = [] ∨ next.head? = some '\n') :
    (Piece.line body).IsLexeme style next := by
  obtain ⟨c, mark, hmark⟩ := List.exists_cons_of_ne_nil hstyle.lineMark_ne
  refine ⟨c, mark ++ body, by rw [Piece.text, hmark, List.cons_append], ?_⟩
  intro before offset
  have hquote : c ∉ style.quotes := hstyle.lineMark_head c (by rw [hmark]; rfl)
  have hsplit : c :: (mark ++ body ++ next) = style.lineMark ++ body ++ next := by
    rw [hmark, List.cons_append, List.cons_append]
  have hlead : style.lineMark <+: style.lineMark ++ body ++ next := by
    rw [List.append_assoc]
    exact List.prefix_append _ _
  obtain ⟨hstands, hstart⟩ :=
    Comment.standsIn_lineComment offset hstyle.lineMark_ne hlead hstyle.lineMark_oneLine
  rw [lexeme_plain hstyle, if_neg (by simpa using hquote), hsplit,
    if_pos (Text.startsWith_iff.mpr hlead)]
  obtain ⟨hsize, hfound⟩ := lexeme_eq_comment hstands hstart
    (lineComment_written hstyle.lineMark_oneLine hbody hnext offset)
  refine ⟨?_, hfound⟩
  rw [hsize, hmark, List.cons_append, List.length_cons]

theorem isLexeme_block {style : CommentStyle} (hstyle : style.Plain) {body next : Text}
    {marks : Text × Text} (hmarks : marks ∈ style.blockMarks) (hbody : ¬marks.2 <:+: body) :
    (Piece.block body).IsLexeme style next := by
  obtain ⟨opening, closing⟩ := marks
  obtain ⟨a, b, hab, rfl⟩ := hstyle.closing_pair _ hmarks
  have hne : opening ≠ [] := hstyle.opening_ne _ hmarks
  obtain ⟨c, mark, hmark⟩ := List.exists_cons_of_ne_nil hne
  have htext : (Piece.block body).text style = opening ++ body ++ [a, b] := by
    rw [Piece.text, Option.mem_def.mp hmarks]
  refine ⟨c, mark ++ body ++ [a, b], ?_, ?_⟩
  · rw [htext, hmark, List.cons_append, List.cons_append]
  intro before offset
  have hquote : c ∉ style.quotes := hstyle.opening_head _ hmarks c (by rw [hmark]; rfl)
  have hsplit : c :: (mark ++ body ++ [a, b] ++ next) = opening ++ body ++ [a, b] ++ next := by
    rw [hmark, List.cons_append, List.cons_append, List.cons_append]
  have hgroup : opening ++ body ++ [a, b] ++ next = opening ++ (body ++ [a, b] ++ next) := by
    simp only [List.append_assoc]
  have hlead : opening <+: opening ++ body ++ [a, b] ++ next :=
    hgroup ▸ List.prefix_append _ _
  have hline : ¬style.lineMark <+: opening ++ body ++ [a, b] ++ next :=
    hgroup ▸ hstyle.opening_apart _ hmarks _
  obtain ⟨hstands, hstart⟩ := Comment.standsIn_blockComment [a, b] true offset hne hlead
  rw [lexeme_plain hstyle, if_neg (by simpa using hquote), hsplit,
    if_neg fun h => hline (Text.startsWith_iff.mp h), Option.mem_def.mp hmarks]
  simp only
  rw [if_pos (Text.startsWith_iff.mpr hlead)]
  obtain ⟨hsize, hfound⟩ := lexeme_eq_comment hstands hstart
    (blockComment_written hab hbody offset)
  refine ⟨?_, ?_⟩
  · rw [hsize, hmark, List.cons_append, List.cons_append, List.length_cons]
  · rw [hfound, Piece.mark?, htext]
    rfl

theorem isLexeme_of_fits {style : CommentStyle} (hstyle : style.Plain) {p : Piece} {next : Text}
    (h : p.Fits style next) : p.IsLexeme style next := by
  cases p with
  | code c =>
      refine ⟨c, [], rfl, fun before offset => ?_⟩
      rw [List.nil_append, lexeme_code hstyle h]
      exact ⟨rfl, rfl⟩
  | literal quote parts =>
      refine ⟨quote, parts.flatMap LiteralPart.text ++ [quote], rfl, fun before offset => ?_⟩
      rw [List.append_assoc, List.singleton_append, lexeme_literal hstyle h]
      exact ⟨rfl, rfl⟩
  | line body => exact isLexeme_line hstyle h.1 h.2
  | block body =>
      obtain ⟨marks, hmarks, hbody⟩ := h
      exact isLexeme_block hstyle hmarks hbody

theorem commentsFrom_written {style : CommentStyle} (hstyle : style.Plain) {pieces : List Piece}
    (h : WellFormed style pieces) (before : Option Char) (offset : Nat) :
    (commentsFrom style before offset 0 (written style pieces)).map Comment.mark =
      marked style offset pieces := by
  induction pieces generalizing before offset with
  | nil => rfl
  | cons p more ih =>
      obtain ⟨hp, hmore⟩ := h
      obtain ⟨c, xs, htext, hlexeme⟩ := isLexeme_of_fits hstyle hp
      obtain ⟨hsize, hfound⟩ := hlexeme before offset
      obtain ⟨before', hwalk⟩ := commentsFrom_lexeme hsize
      rw [written, List.flatMap_cons, htext, marked, ← hfound, htext]
      show (commentsFrom style before offset 0 (c :: xs ++ written style more)).map Comment.mark = _
      rw [hwalk, List.map_append, ih hmore]

/-- Comments are found exactly where a program has them, with their text and their kind. -/
theorem commentsOf_written {language : String} {style : CommentStyle}
    (hlanguage : commentStyle? language = some style) (hstyle : style = .slashes ∨ style = .hash)
    {pieces : List Piece} (h : WellFormed style pieces) :
    (commentsOf (written style pieces) language).map (fun m => (m.span, m.text, m.kind)) =
      marked style 0 pieces := by
  have hplain : style.Plain := by
    rcases hstyle with rfl | rfl
    · exact plain_slashes
    · exact plain_hash
  rw [commentsOf, hlanguage]
  exact commentsFrom_written hplain h none 0

/-- Marks in a literal, a quote in a comment and a star before the closing mark. -/
theorem commentsOf_written_go :
    let pieces : List Piece :=
      [.literal '"' [.plain '/', .plain '/', .escaped '"'], .code '*', .block "い\"*".toList,
        .code 'x', .line " う */".toList, .code '\n']
    commentStyle? "go" = some .slashes ∧ WellFormed .slashes pieces ∧
      written .slashes pieces = "\"//\\\"\"*/*い\"**/x// う */\n".toList ∧
      (commentsOf (written .slashes pieces) "go").map (fun m => (m.span, m.text, m.kind)) =
        [(⟨7, 14⟩, "/*い\"**/".toList, .block), (⟨15, 22⟩, "// う */".toList, .line)] := by
  intro pieces
  have hpieces : WellFormed .slashes pieces := by decide
  refine ⟨rfl, hpieces, by decide, ?_⟩
  rw [commentsOf_written rfl (Or.inl rfl) hpieces]
  decide

end Kouetsu
