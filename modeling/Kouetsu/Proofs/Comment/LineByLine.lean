import Kouetsu.Proofs.Comment.Written
/-!
# Comments line by line

Where comments open with a number sign, no lexeme goes on behind its line unless a backslash takes
the line feed with it.  So a text has the comments of its first lines and those of its other lines,
however ill-formed the lines are.
-/

namespace Kouetsu

/-! ## Moved comments -/

namespace Comment

/-- The comment of a text in front of which `n` characters are written. -/
def shift (n : Nat) (m : Comment) : Comment :=
  { m with span := m.span.shift n, prose := m.prose.map (·.shift n) }

theorem lineProse_shift (mark : Text) (offset n : Nat) (t : Text) :
    lineProse mark (offset + n) t = (lineProse mark offset t).shift n := by
  simp only [lineProse, Span.shift, Span.mk.injEq]
  omega

theorem lineComment_shift (mark : Text) (offset n : Nat) (t : Text) :
    lineComment mark (offset + n) t = (lineComment mark offset t).shift n := by
  simp only [lineComment, shift, lineProse_shift, Span.shift, List.map_cons, List.map_nil,
    mk.injEq, Span.mk.injEq, and_true, true_and]
  omega

end Comment

namespace Lexeme

def shift (n : Nat) : Lexeme → Lexeme
  | comment m => comment (m.shift n)
  | skipped length => skipped length

theorem size_shift (n : Nat) (l : Lexeme) : (l.shift n).size = l.size := by
  cases l with
  | comment m =>
      simp only [shift, size, Comment.shift, Span.shift, Span.length]
      omega
  | skipped length => rfl

theorem found_shift (n : Nat) (l : Lexeme) : (l.shift n).found = l.found.map (·.shift n) := by
  cases l <;> rfl

end Lexeme

theorem commentsFrom_cons (style : CommentStyle) (before : Option Char) (offset : Nat) (c : Char)
    (rest : Text) :
    commentsFrom style before offset 0 (c :: rest) =
      (lexeme style before offset c rest).found ++
        commentsFrom style (some c) (offset + 1) ((lexeme style before offset c rest).size - 1)
          rest := by
  rw [commentsFrom]
  cases lexeme style before offset c rest <;> rfl

/-! ## Lexemes after a number sign -/

theorem mem_quotes_hash {c : Char} : c ∈ CommentStyle.hash.quotes ↔ c = '"' ∨ c = '\x27' := by
  simp [CommentStyle.hash]

theorem lexeme_hash (before : Option Char) (offset : Nat) (c : Char) (rest : Text) :
    lexeme .hash before offset c rest =
      if c ∈ CommentStyle.hash.quotes then .skipped (1 + literalLength c rest)
      else if c = '#' then .comment (lineComment ['#'] offset (c :: rest))
      else .skipped 1 := by
  have hmark : Text.startsWith (c :: rest) CommentStyle.hash.lineMark = true ↔ c = '#' := by
    rw [Text.startsWith_iff]
    simp [CommentStyle.hash, eq_comm]
  rw [lexeme_plain plain_hash]
  simp only [List.contains_iff_mem, hmark]
  rfl

theorem lexeme_hash_shift (before before' : Option Char) (offset n : Nat) (c : Char)
    (rest : Text) :
    lexeme .hash before (offset + n) c rest = (lexeme .hash before' offset c rest).shift n := by
  rw [lexeme_hash, lexeme_hash, Comment.lineComment_shift]
  by_cases hquote : c ∈ CommentStyle.hash.quotes
  · rw [if_pos hquote, if_pos hquote]
    rfl
  · rw [if_neg hquote, if_neg hquote]
    by_cases hmark : c = '#'
    · rw [if_pos hmark, if_pos hmark]
      rfl
    · rw [if_neg hmark, if_neg hmark]
      rfl

/-- Nothing in these languages looks back, so the comments of a text move with it. -/
theorem commentsFrom_hash_shift (before before' : Option Char) (offset n skip : Nat) (t : Text) :
    commentsFrom .hash before (offset + n) skip t =
      (commentsFrom .hash before' offset skip t).map (·.shift n) := by
  induction t generalizing before before' offset skip with
  | nil => rfl
  | cons c rest ih =>
      cases skip with
      | succ skip =>
          rw [commentsFrom, commentsFrom, Nat.add_right_comm]
          exact ih ..
      | zero =>
          rw [commentsFrom_cons, commentsFrom_cons, lexeme_hash_shift before before',
            Lexeme.size_shift, Lexeme.found_shift, List.map_append, Nat.add_right_comm]
          exact congrArg _ (ih ..)

/-! ## Ends of lines -/

theorem literalLength_le (quote : Char) (t : Text) : literalLength quote t ≤ t.length := by
  fun_induction literalLength quote t with
  | case1 => exact Nat.le_refl 0
  | case2 c rest ih =>
      rw [List.length_cons, List.length_cons]
      omega
  | case3 => exact Nat.le_add_left 1 _
  | case4 => exact Nat.zero_le _
  | case5 =>
      rw [List.length_cons]
      omega

theorem size_lexeme_hash_le (before : Option Char) (offset : Nat) (c : Char) (rest : Text) :
    (lexeme .hash before offset c rest).size ≤ rest.length + 1 := by
  rw [lexeme_hash]
  by_cases hquote : c ∈ CommentStyle.hash.quotes
  · have hlength := literalLength_le c rest
    rw [if_pos hquote, Lexeme.size]
    omega
  · rw [if_neg hquote]
    by_cases hmark : c = '#'
    · have hlength := Text.length_takeWhile_le (· ≠ '\n') (c :: rest)
      rw [List.length_cons] at hlength
      rw [if_pos hmark]
      simp only [Lexeme.size, lineComment, Span.length]
      omega
    · rw [if_neg hmark, Lexeme.size]
      omega

theorem getLast?_ne_of_cons {c d : Char} {rest : Text} (h : (c :: rest).getLast? ≠ some d) :
    rest.getLast? ≠ some d := by
  cases rest with
  | nil => simp
  | cons e more => rwa [List.getLast?_cons_cons] at h

theorem literalLength_cons {c : Char} (hc : c ≠ '\\') (quote : Char) (rest : Text) :
    literalLength quote (c :: rest) =
      if c = quote then 1
      else if c = '\n' && quote ≠ '\x60' then 0
      else 1 + literalLength quote rest := by
  rw [literalLength]
  rintro _ _ h
  exact absurd h hc

theorem literalLength_append_line {quote : Char} (hquote : quote ∈ CommentStyle.hash.quotes)
    {t : Text} (ht : t.getLast? ≠ some '\\') (next : Text) :
    literalLength quote (t ++ '\n' :: next) = literalLength quote t := by
  -- a backslash has a character behind it, as it does not end the text
  have hplain {c : Char} {rest : Text} (hc : (c :: rest).getLast? ≠ some '\\')
      (hlone : ∀ d more, c = '\\' → rest = d :: more → False) : c ≠ '\\' := by
    rintro rfl
    cases rest with
    | nil => exact hc rfl
    | cons d more => exact hlone d more rfl rfl
  fun_induction literalLength quote t with
  | case1 =>
      rcases mem_quotes_hash.mp hquote with rfl | rfl <;> rfl
  | case2 c rest ih =>
      have hrest := getLast?_ne_of_cons (getLast?_ne_of_cons ht)
      rw [List.cons_append, List.cons_append, literalLength, ih hrest]
  | case3 rest hlone =>
      rw [List.cons_append, literalLength_cons (hplain ht hlone), if_pos rfl]
  | case4 c rest hlone hopen hfeed =>
      rw [List.cons_append, literalLength_cons (hplain ht hlone), if_neg hopen, if_pos hfeed]
  | case5 c rest hlone hopen hfeed ih =>
      rw [List.cons_append, literalLength_cons (hplain ht hlone), if_neg hopen, if_neg hfeed,
        ih (getLast?_ne_of_cons ht)]

theorem lineComment_append_line (mark : Text) (offset : Nat) (t next : Text) :
    lineComment mark offset (t ++ '\n' :: next) = lineComment mark offset t := by
  have hline : (t ++ '\n' :: next).takeWhile (· ≠ '\n') = t.takeWhile (· ≠ '\n') := by
    rw [List.takeWhile_append]
    split
    · next hall =>
        rw [List.takeWhile_cons_of_neg (by decide), List.append_nil]
        exact ((List.takeWhile_prefix _).eq_of_length hall).symm
    · rfl
  simp only [lineComment, hline]

theorem lexeme_hash_append_line {c : Char} {rest : Text}
    (hrest : (c :: rest).getLast? ≠ some '\\') (before : Option Char) (offset : Nat)
    (next : Text) :
    lexeme .hash before offset c (rest ++ '\n' :: next) = lexeme .hash before offset c rest := by
  rw [lexeme_hash, lexeme_hash, ← List.cons_append, lineComment_append_line]
  by_cases hquote : c ∈ CommentStyle.hash.quotes
  · rw [if_pos hquote, if_pos hquote,
      literalLength_append_line hquote (getLast?_ne_of_cons hrest)]
  · rw [if_neg hquote, if_neg hquote]

/-- At a line feed that no backslash takes with it the lexer starts afresh. -/
theorem commentsFrom_append_line {a : Text} (ha : a.getLast? ≠ some '\\')
    (before : Option Char) (offset : Nat) {skip : Nat} (hskip : skip ≤ a.length) (b : Text) :
    commentsFrom .hash before offset skip (a ++ '\n' :: b) =
      commentsFrom .hash before offset skip a ++
        commentsFrom .hash (some '\n') (offset + (a.length + 1)) 0 b := by
  induction a generalizing before offset skip with
  | nil =>
      obtain rfl : skip = 0 := Nat.le_zero.mp hskip
      rw [List.nil_append, commentsFrom_cons, lexeme_hash, if_neg (by decide), if_neg (by decide)]
      rfl
  | cons c rest ih =>
      have hrest := getLast?_ne_of_cons ha
      have hoffset : offset + 1 + (rest.length + 1) = offset + ((c :: rest).length + 1) := by
        rw [List.length_cons]
        omega
      cases skip with
      | succ skip =>
          rw [List.cons_append, commentsFrom, commentsFrom,
            ih hrest _ _ (Nat.le_of_succ_le_succ hskip), hoffset]
      | zero =>
          have hsize := size_lexeme_hash_le before offset c rest
          rw [List.cons_append, commentsFrom_cons, commentsFrom_cons, lexeme_hash_append_line ha,
            ih hrest _ _ (Nat.sub_le_of_le_add hsize), hoffset, List.append_assoc]

/-- An unclosed literal costs no comment of a later line. -/
theorem commentsOf_append_line {language : String} (hhash : commentStyle? language = some .hash)
    {a : Text} (ha : a.getLast? ≠ some '\\') (b : Text) :
    commentsOf (a ++ '\n' :: b) language =
      commentsOf a language ++ (commentsOf b language).map (·.shift (a.length + 1)) := by
  simp only [commentsOf, hhash]
  rw [commentsFrom_append_line ha none 0 (Nat.zero_le _), commentsFrom_hash_shift _ none]

/-- A text that is not closed, and a comment in the next line. -/
theorem commentsOf_append_line_unclosed :
    commentStyle? "toml" = some .hash ∧ "a = \"# い".toList.getLast? ≠ some '\\' ∧
      commentsOf "a = \"# い\n# う".toList "toml" =
        commentsOf "a = \"# い".toList "toml" ++
          (commentsOf "# う".toList "toml").map (·.shift 9) := by
  have hlast : "a = \"# い".toList.getLast? ≠ some '\\' := by decide
  exact ⟨rfl, hlast, commentsOf_append_line rfl hlast "# う".toList⟩

end Kouetsu
