import Kouetsu.Comment.Lexer
import Kouetsu.Proofs.Text.Scan
import Mathlib.Tactic.Common
/-!
# Comments in their source

Comments follow each other without overlapping.  The prose of a comment lies behind its opening
mark, at most one span on a line, so that a line feed stands between any two of its spans.
-/

namespace Kouetsu

namespace Comment

/-! ## Prose -/

/-- Spans of prose in a text that starts at an offset, behind an opening mark. -/
structure ProseIn (spans : List Span) (offset opening : Nat) (t : Text) : Prop where
  within : ∀ s ∈ spans,
    offset + opening ≤ s.start ∧ s.start ≤ s.stop ∧ s.stop ≤ offset + t.length
  oneLine : ∀ s ∈ spans, ∀ i, s.start ≤ i → i < s.stop → t[i - offset]? ≠ some '\n'
  apart : spans.Pairwise fun s s' => ∃ i, s.stop ≤ i ∧ i < s'.start ∧ t[i - offset]? = some '\n'

theorem proseIn_lineProse {mark t : Text} (offset : Nat) (hmark : mark.length ≤ t.length)
    (hline : '\n' ∉ t) : ProseIn [lineProse mark offset t] offset mark.length t := by
  refine ⟨?_, fun _ _ i _ _ hi => hline (List.mem_of_getElem? hi), List.pairwise_singleton _ _⟩
  simp only [List.mem_singleton, forall_eq, lineProse]
  generalize hbody : (t.drop mark.length).dropWhile (isMarkTail mark) = body
  have hlen : body.length ≤ t.length - mark.length := by
    rw [← hbody, ← List.length_drop]
    exact (List.dropWhile_sublist _).length_le
  have hrest : (if body.head? = some ' ' then body.drop 1 else body).length ≤ body.length := by
    split <;> simp
  generalize (if body.head? = some ' ' then body.drop 1 else body) = rest at hrest
  have hend := Text.length_dropWhileEnd_le (· = '\r') rest
  omega

theorem withoutLead_suffix (starred : Bool) (line : Text) : withoutLead starred line <:+ line := by
  have hindent : line.dropWhile isIndent <:+ line := List.dropWhile_suffix _
  unfold withoutLead
  simp only
  split
  · next rest hstar =>
      rw [hstar] at hindent
      have hrest : rest <:+ line := (List.suffix_cons '*' rest).trans hindent
      split
      · split
        · exact (List.drop_suffix 1 rest).trans hrest
        · exact hrest
      · rwa [hstar]
  · exact hindent

theorem bounds_of_blockLineProse? {starred : Bool} {offset : Nat} {line : Text} {s : Span}
    (h : blockLineProse? starred offset line = some s) :
    offset ≤ s.start ∧ s.start < s.stop ∧ s.stop ≤ offset + line.length := by
  unfold blockLineProse? at h
  have hlen := (withoutLead_suffix starred line).length_le
  generalize withoutLead starred line = body at h hlen
  have hend := Text.length_dropWhileEnd_le (fun c => isIndent c || c = '\r') body
  simp only at h
  split at h
  · next hlt =>
      rw [← Option.some.inj h]
      simp only
      omega
  · contradiction

theorem exists_append_blockBody {opening : Nat} {t : Text} (hopening : opening ≤ t.length)
    (closing : Nat) (starred : Bool) :
    let inner := (t.drop opening).take (t.length - opening - closing)
    let body := if starred then inner.dropWhile fun c => c = '*' || c = '!' else inner
    ∃ a b, t = a ++ (body ++ b) ∧ a.length = opening + (inner.length - body.length) := by
  intro inner body
  have hsuffix : body <:+ inner := by
    show (if starred then _ else _) <:+ _
    split
    · exact List.dropWhile_suffix _
    · exact List.suffix_rfl
  obtain ⟨lead, hlead⟩ := hsuffix
  obtain ⟨rest, hrest⟩ : inner <+: t.drop opening := List.take_prefix _ _
  refine ⟨t.take opening ++ lead, rest, ?_, ?_⟩
  · rw [List.append_assoc, ← List.append_assoc lead, hlead, hrest, List.take_append_drop]
  · have hlen := congrArg List.length hlead
    rw [List.length_append] at hlen
    rw [List.length_append, List.length_take]
    omega

theorem ProseIn.append {spans : List Span} {offset : Nat} {a body : Text}
    (h : ProseIn spans (offset + a.length) 0 body) (b : Text) :
    ProseIn spans offset a.length (a ++ (body ++ b)) := by
  have hchar (i : Nat) (hlow : offset + a.length ≤ i)
      (hhigh : i < offset + a.length + body.length) :
      (a ++ (body ++ b))[i - offset]? = body[i - (offset + a.length)]? := by
    rw [List.getElem?_append_right (by omega), List.getElem?_append_left (by omega),
      Nat.sub_add_eq]
  constructor
  · intro s hs
    have hin := h.within s hs
    rw [List.length_append, List.length_append]
    omega
  · intro s hs i hlow hhigh
    have hin := h.within s hs
    rw [hchar i (by omega) (by omega)]
    exact h.oneLine s hs i hlow hhigh
  · apply h.apart.imp_of_mem
    rintro s s' hs hs' ⟨i, hlow, hhigh, hi⟩
    have hin := h.within s hs
    have hin' := h.within s' hs'
    refine ⟨i, hlow, hhigh, ?_⟩
    rwa [hchar i (by omega) (by omega)]

theorem ProseIn.mono {spans : List Span} {offset low opening : Nat} {t : Text}
    (h : ProseIn spans offset opening t) (hlow : low ≤ opening) : ProseIn spans offset low t :=
  ⟨fun s hs => ⟨by have := h.within s hs; omega, (h.within s hs).2⟩, h.oneLine, h.apart⟩

/-- A span of one line ends before the line feed behind it, and that of a later line starts behind
it. -/
theorem pairwise_lines (offset : Nat) (body : Text) :
    (Text.numberPieces offset (Text.splitOn '\n' body)).Pairwise fun x y =>
      ∀ b b' s s', blockLineProse? b x.1 x.2 = some s → blockLineProse? b' y.1 y.2 = some s' →
        ∃ i, s.stop ≤ i ∧ i < s'.start ∧ body[i - offset]? = some '\n' := by
  apply (Text.pairwise_sep_numberPieces '\n' offset body).imp
  rintro x y ⟨hnext, hsep⟩ b b' s s' hs hs'
  have hbefore := bounds_of_blockLineProse? hs
  have hafter := bounds_of_blockLineProse? hs'
  exact ⟨x.1 + x.2.length, hbefore.2.2, by omega, hsep⟩

theorem proseIn_lines {starred : Bool} {offset : Nat} {body : Text} {first : Nat × Text}
    {more : List (Nat × Text)}
    (hpieces : Text.numberPieces offset (Text.splitOn '\n' body) = first :: more) :
    ProseIn ((blockLineProse? false first.1 first.2).toList ++
      more.filterMap fun x => blockLineProse? starred x.1 x.2) offset 0 body := by
  have hpiece (x : Nat × Text) (hx : x ∈ first :: more) :
      offset ≤ x.1 ∧ x.1 + x.2.length ≤ offset + body.length := by
    rw [← hpieces] at hx
    exact ⟨Text.start_le_of_mem_numberPieces hx, Text.stop_le_of_mem_numberPieces hx⟩
  have hsource : ∀ s ∈ (blockLineProse? false first.1 first.2).toList ++
      more.filterMap (fun x => blockLineProse? starred x.1 x.2),
      ∃ x ∈ first :: more, ∃ b, blockLineProse? b x.1 x.2 = some s := by
    intro s hs
    rcases List.mem_append.mp hs with hs | hs
    · exact ⟨first, List.mem_cons_self, false, Option.mem_toList.mp hs⟩
    · obtain ⟨x, hx, hs⟩ := List.mem_filterMap.mp hs
      exact ⟨x, List.mem_cons_of_mem first hx, starred, hs⟩
  have hpairs := pairwise_lines offset body
  rw [hpieces] at hpairs
  obtain ⟨hfirst, hmore⟩ := List.pairwise_cons.mp hpairs
  constructor
  · intro s hs
    obtain ⟨x, hx, b, hs⟩ := hsource s hs
    have hbounds := hpiece x hx
    have hinside := bounds_of_blockLineProse? hs
    omega
  · intro s hs i hlow hhigh
    obtain ⟨x, hx, b, hs⟩ := hsource s hs
    have hinside := bounds_of_blockLineProse? hs
    rw [← hpieces] at hx
    exact Text.ne_sep_of_mem_numberPieces hx (by omega) (by omega)
  · apply List.pairwise_append.mpr
    refine ⟨?_, ?_, ?_⟩
    · cases blockLineProse? false first.1 first.2 <;> simp
    · apply List.pairwise_filterMap.mpr
      exact hmore.imp fun hxy s hs s' hs' => hxy _ _ s s' hs hs'
    · intro s hs s' hs'
      obtain ⟨y, hy, hs'⟩ := List.mem_filterMap.mp hs'
      exact hfirst y hy _ _ s s' (Option.mem_toList.mp hs) hs'

theorem proseIn_blockProse {opening : Nat} {t : Text} (closing : Nat) (starred : Bool)
    (offset : Nat) (hopening : opening ≤ t.length) :
    ProseIn (blockProse opening closing starred offset t) offset opening t := by
  obtain ⟨a, b, ht, ha⟩ := exists_append_blockBody hopening closing starred
  unfold blockProse
  generalize (t.drop opening).take (t.length - opening - closing) = inner at ht ha ⊢
  simp only at ht ha ⊢
  generalize (if starred = true then inner.dropWhile fun c => c = '*' || c = '!' else inner) = body
    at ht ha ⊢
  rw [show offset + opening + (inner.length - body.length) = offset + a.length by omega,
    Text.lines_eq_splitOn]
  cases hpieces : Text.numberPieces (offset + a.length) (Text.splitOn '\n' body) with
  | nil => exact ⟨by simp, by simp, by simp⟩
  | cons first more =>
      rw [ht]
      exact ((proseIn_lines hpieces).append b).mono (by omega)

/-! ## Comments of a text -/

/-- A comment of a text that starts at an offset.  Its prose lies behind the first character of
its mark. -/
structure StandsIn (m : Comment) (offset : Nat) (t : Text) : Prop where
  start_le : offset ≤ m.span.start
  stop_eq : m.span.stop = m.span.start + m.text.length
  text_ne : m.text ≠ []
  text_prefix : m.text <+: t.drop (m.span.start - offset)
  prose : ProseIn m.prose m.span.start 1 m.text

theorem StandsIn.start_lt_stop {m : Comment} {offset : Nat} {t : Text} (h : m.StandsIn offset t) :
    m.span.start < m.span.stop := by
  have hpos := List.length_pos_iff.mpr h.text_ne
  have hstop := h.stop_eq
  omega

theorem StandsIn.cons {m : Comment} {offset : Nat} {t : Text} (h : m.StandsIn (offset + 1) t)
    (c : Char) : m.StandsIn offset (c :: t) := by
  have hstart := h.start_le
  refine ⟨by omega, h.stop_eq, h.text_ne, ?_, h.prose⟩
  rw [show m.span.start - offset = m.span.start - (offset + 1) + 1 by omega, List.drop_succ_cons]
  exact h.text_prefix

theorem StandsIn.getElem?_eq {m : Comment} {t : Text} (h : m.StandsIn 0 t) {i : Nat}
    (hlow : m.span.start ≤ i) (hhigh : i < m.span.stop) : t[i]? = m.text[i - m.span.start]? := by
  have hstop := h.stop_eq
  obtain ⟨rest, hrest⟩ := h.text_prefix
  rw [show i = m.span.start - 0 + (i - m.span.start) by omega, ← List.getElem?_drop, ← hrest,
    List.getElem?_append_left (by omega), Nat.sub_zero, Nat.add_sub_cancel_left]

theorem standsIn_lineComment {mark t : Text} (offset : Nat) (hne : mark ≠ [])
    (hmark : mark <+: t) (hfeed : '\n' ∉ mark) :
    (lineComment mark offset t).StandsIn offset t ∧
      (lineComment mark offset t).span.start = offset := by
  have hline : mark <+: t.takeWhile (· ≠ '\n') := by
    obtain ⟨rest, rfl⟩ := hmark
    rw [List.takeWhile_append_of_pos fun c hc => decide_eq_true (ne_of_mem_of_not_mem hc hfeed)]
    exact List.prefix_append _ _
  have hpos := List.length_pos_iff.mpr hne
  refine ⟨⟨Nat.le_refl _, rfl, ?_, ?_, ?_⟩, rfl⟩
  · exact hline.ne_nil hne
  · simpa [lineComment] using List.takeWhile_prefix _
  · apply (proseIn_lineProse offset hline.length_le ?_).mono hpos
    intro hmem
    simpa using List.all_eq_true.mp List.all_takeWhile _ hmem

theorem standsIn_blockComment {opening t : Text} (closing : Text) (starred : Bool) (offset : Nat)
    (hne : opening ≠ []) (hopening : opening <+: t) :
    (blockComment opening closing starred offset t).StandsIn offset t ∧
      (blockComment opening closing starred offset t).span.start = offset := by
  have hpos := List.length_pos_iff.mpr hne
  have hlen := hopening.length_le
  refine ⟨?_, rfl⟩
  unfold blockComment
  simp only
  generalize hsize : ((Text.find? closing (t.drop opening.length)).map
    fun n => opening.length + n + closing.length).getD t.length = size
  have hbounds : opening.length ≤ size ∧ size ≤ t.length := by
    cases hfound : Text.find? closing (t.drop opening.length) with
    | none =>
        rw [hfound] at hsize
        exact ⟨hsize ▸ hlen, hsize ▸ Nat.le_refl _⟩
    | some n =>
        have hclose := Text.add_length_le_of_find? hfound
        rw [List.length_drop] at hclose
        rw [hfound, Option.map_some, Option.getD_some] at hsize
        omega
  have htext : (t.take size).length = size := List.length_take_of_le hbounds.2
  refine ⟨Nat.le_refl _, by rw [htext], ?_, ?_, ?_⟩
  · rw [← List.length_pos_iff, htext]
    omega
  · rw [Nat.sub_self, List.drop_zero]
    exact List.take_prefix size t
  · exact (proseIn_blockProse _ starred offset (by omega)).mono hpos

end Comment

/-- The marks of comments are not empty, and that of a line comment holds no line feed. -/
structure CommentStyle.Marked (style : CommentStyle) : Prop where
  lineMark_ne : style.lineMark ≠ []
  lineMark_oneLine : '\n' ∉ style.lineMark
  opening_ne : ∀ marks ∈ style.blockMarks, marks.1 ≠ []

theorem known_of_commentStyle? {language : String} {style : CommentStyle}
    (h : commentStyle? language = some style) :
    style = .slashes ∨ style = .hashWithDocStrings ∨ style = .slashesWithRawStrings ∨
      style = .hash := by
  unfold commentStyle? at h
  repeat' split at h
  all_goals simp_all

theorem marked_of_commentStyle? {language : String} {style : CommentStyle}
    (h : commentStyle? language = some style) : style.Marked := by
  rcases known_of_commentStyle? h with rfl | rfl | rfl | rfl <;>
    exact ⟨by decide, by decide, by decide⟩

namespace Comment

theorem comment_of_lexeme {style : CommentStyle} {before : Option Char} {offset : Nat} {c : Char}
    {rest : Text} {m : Comment} (h : lexeme style before offset c rest = .comment m) :
    (∃ q, tripleQuote? (c :: rest) = some q ∧ m = blockComment q q false offset (c :: rest)) ∨
      (style.lineMark <+: c :: rest ∧ m = lineComment style.lineMark offset (c :: rest)) ∨
      ∃ opening closing, style.blockMarks = some (opening, closing) ∧ opening <+: c :: rest ∧
        m = blockComment opening closing true offset (c :: rest) := by
  unfold lexeme at h
  simp only at h
  split at h
  · next found hfound =>
      subst h
      rw [Option.or_eq_some_iff] at hfound
      rcases hfound with hdoc | ⟨_, hraw⟩
      · split at hdoc
        · obtain ⟨q, hq, hm⟩ := Option.map_eq_some_iff.mp hdoc
          exact Or.inl ⟨q, hq, (Lexeme.comment.inj hm).symm⟩
        · contradiction
      · split at hraw
        · obtain ⟨_, _, hm⟩ := Option.map_eq_some_iff.mp hraw
          contradiction
        · contradiction
  · split at h
    · contradiction
    · split at h
      · next hline =>
          exact Or.inr (Or.inl ⟨Text.startsWith_iff.mp hline, (Lexeme.comment.inj h).symm⟩)
      · split at h
        · next opening closing hmarks =>
            split at h
            · next hblock =>
                exact Or.inr (Or.inr ⟨opening, closing, hmarks, Text.startsWith_iff.mp hblock,
                  (Lexeme.comment.inj h).symm⟩)
            · contradiction
        · contradiction

theorem tripleQuote?_eq_some {t q : Text} (h : tripleQuote? t = some q) :
    q <+: t ∧ (q = ['"', '"', '"'] ∨ q = ['\x27', '\x27', '\x27']) := by
  refine ⟨Text.startsWith_iff.mp (List.find?_some h), ?_⟩
  simpa using List.mem_of_find?_eq_some h

theorem standsIn_of_lexeme {style : CommentStyle} (hstyle : style.Marked) {before : Option Char}
    {offset : Nat} {c : Char} {rest : Text} {m : Comment}
    (h : lexeme style before offset c rest = .comment m) :
    m.StandsIn offset (c :: rest) ∧ m.span.start = offset := by
  rcases comment_of_lexeme h with
    ⟨q, hq, rfl⟩ | ⟨hlead, rfl⟩ | ⟨opening, closing, hmarks, hlead, rfl⟩
  · obtain ⟨hlead, rfl | rfl⟩ := tripleQuote?_eq_some hq
    all_goals exact standsIn_blockComment _ _ _ (List.cons_ne_nil _ _) hlead
  · exact standsIn_lineComment offset hstyle.lineMark_ne hlead hstyle.lineMark_oneLine
  · exact standsIn_blockComment closing true offset (hstyle.opening_ne _ hmarks) hlead

theorem exists_lexeme_of_mem_commentsFrom {style : CommentStyle} {before : Option Char}
    {offset skip : Nat} {t : Text} {m : Comment}
    (hm : m ∈ commentsFrom style before offset skip t) :
    ∃ before' offset' c rest, lexeme style before' offset' c rest = .comment m := by
  induction t generalizing before offset skip with
  | nil => simp [commentsFrom] at hm
  | cons c rest ih =>
      cases skip with
      | succ skip => exact ih hm
      | zero =>
          unfold commentsFrom at hm
          simp only at hm
          split at hm
          · next found hfound =>
              rcases List.mem_cons.mp hm with rfl | hm
              · exact ⟨before, offset, c, rest, hfound⟩
              · exact ih hm
          · exact ih hm

theorem le_start_of_mem_commentsFrom {style : CommentStyle} (hstyle : style.Marked)
    {before : Option Char} {offset skip : Nat} {t : Text} {m : Comment}
    (hm : m ∈ commentsFrom style before offset skip t) : offset + skip ≤ m.span.start := by
  induction t generalizing before offset skip with
  | nil => simp [commentsFrom] at hm
  | cons c rest ih =>
      cases skip with
      | succ skip =>
          have := ih hm
          omega
      | zero =>
          unfold commentsFrom at hm
          simp only at hm
          split at hm
          · next found hfound =>
              rcases List.mem_cons.mp hm with rfl | hm
              · exact Nat.le_of_eq (standsIn_of_lexeme hstyle hfound).2.symm
              · have := ih hm
                omega
          · have := ih hm
            omega

theorem standsIn_of_mem_commentsFrom {style : CommentStyle} (hstyle : style.Marked)
    {before : Option Char} {offset skip : Nat} {t : Text} {m : Comment}
    (hm : m ∈ commentsFrom style before offset skip t) : m.StandsIn offset t := by
  induction t generalizing before offset skip with
  | nil => simp [commentsFrom] at hm
  | cons c rest ih =>
      cases skip with
      | succ skip => exact (ih hm).cons c
      | zero =>
          unfold commentsFrom at hm
          simp only at hm
          split at hm
          · next found hfound =>
              rcases List.mem_cons.mp hm with rfl | hm
              · exact (standsIn_of_lexeme hstyle hfound).1
              · exact (ih hm).cons c
          · exact (ih hm).cons c

/-- The next comment starts where the lexer goes on, at the end of the last one or later. -/
theorem pairwise_commentsFrom {style : CommentStyle} (hstyle : style.Marked)
    (before : Option Char) (offset skip : Nat) (t : Text) :
    (commentsFrom style before offset skip t).Pairwise fun m n => m.span.stop ≤ n.span.start := by
  induction t generalizing before offset skip with
  | nil => exact List.Pairwise.nil
  | cons c rest ih =>
      cases skip with
      | succ skip => exact ih ..
      | zero =>
          unfold commentsFrom
          simp only
          split
          · next found hfound =>
              apply List.Pairwise.cons _ (ih ..)
              intro n hn
              have hnext := le_start_of_mem_commentsFrom hstyle hn
              obtain ⟨hfound, hstart⟩ := standsIn_of_lexeme hstyle hfound
              have hlong := hfound.start_lt_stop
              rw [Span.length] at hnext
              omega
          · exact ih ..

theorem standsIn_of_mem_commentsOf {t : Text} {language : String} {m : Comment}
    (hm : m ∈ commentsOf t language) : m.StandsIn 0 t := by
  unfold commentsOf at hm
  split at hm
  · next hstyle => exact standsIn_of_mem_commentsFrom (marked_of_commentStyle? hstyle) hm
  · contradiction

theorem pairwise_commentsOf (t : Text) (language : String) :
    (commentsOf t language).Pairwise fun m n => m.span.stop ≤ n.span.start := by
  unfold commentsOf
  split
  · next hstyle => exact pairwise_commentsFrom (marked_of_commentStyle? hstyle) ..
  · exact List.Pairwise.nil

end Comment

end Kouetsu
