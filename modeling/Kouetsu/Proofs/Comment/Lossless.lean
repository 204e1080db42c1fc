import Kouetsu.Proofs.Comment.Lexer
import Kouetsu.Proofs.Comment.Prose
/-!
# What comments lose

Line feeds, blanks and marks are all that a comment loses: every other character of it stands in
one of its spans of prose, and so in the prose view.
-/

namespace Kouetsu

namespace Comment

/-- Line feeds, blanks and the characters of marks. -/
def isLosable (c : Char) : Bool :=
  ['\n', ' ', '\t', '\r', '/', '*', '#', '!', '\x27', '"'].contains c

/-- Whether spans hold all of a text that starts at an offset, but for what it may lose. -/
def Hold (spans : List Span) (offset : Nat) (t : Text) : Prop :=
  ∀ i c, t[i]? = some c → isLosable c = false → ∃ s ∈ spans, s.covers (offset + i) = true

def LeadsTo (t body : Text) : Prop := ∃ lead, t = lead ++ body ∧ ∀ c ∈ lead, isLosable c = true

namespace Hold

variable {spans : List Span} {offset : Nat} {a b : Text}

theorem of_losable (h : ∀ c ∈ a, isLosable c = true) : Hold spans offset a := by
  intro i c hc hlost
  rw [h c (List.mem_of_getElem? hc)] at hlost
  contradiction

theorem append (ha : Hold spans offset a) (hb : Hold spans (offset + a.length) b) :
    Hold spans offset (a ++ b) := by
  intro i c hc hlost
  rcases Nat.lt_or_ge i a.length with hi | hi
  · rw [List.getElem?_append_left hi] at hc
    exact ha i c hc hlost
  · rw [List.getElem?_append_right hi] at hc
    obtain ⟨s, hs, hcovers⟩ := hb _ c hc hlost
    rw [show offset + a.length + (i - a.length) = offset + i by omega] at hcovers
    exact ⟨s, hs, hcovers⟩

theorem mono {spans' : List Span} (h : Hold spans offset a) (hsub : ∀ s ∈ spans, s ∈ spans') :
    Hold spans' offset a := by
  intro i c hc hlost
  obtain ⟨s, hs, hcovers⟩ := h i c hc hlost
  exact ⟨s, hsub s hs, hcovers⟩

theorem whole (offset : Nat) (t : Text) : Hold [⟨offset, offset + t.length⟩] offset t := by
  intro i c hc _
  have hi := (List.getElem?_eq_some_iff.mp hc).1
  exact ⟨_, List.mem_singleton_self _, by simp [Span.covers, hi]⟩

end Hold

/-! ## One line -/

theorem LeadsTo.refl (t : Text) : LeadsTo t t := ⟨[], rfl, by simp⟩

theorem LeadsTo.trans {t body rest : Text} (h : LeadsTo t body) (h' : LeadsTo body rest) :
    LeadsTo t rest := by
  obtain ⟨lead, rfl, hlead⟩ := h
  obtain ⟨lead', rfl, hlead'⟩ := h'
  refine ⟨lead ++ lead', (List.append_assoc ..).symm, fun c hc => ?_⟩
  exact (List.mem_append.mp hc).elim (hlead c) (hlead' c)

theorem leadsTo_dropWhile {p : Char → Bool} (hp : ∀ c, p c = true → isLosable c = true) (t : Text) :
    LeadsTo t (t.dropWhile p) :=
  ⟨t.takeWhile p, List.takeWhile_append_dropWhile.symm,
    fun c hc => hp c (List.mem_takeWhile_imp hc)⟩

theorem leadsTo_cons {c : Char} (hc : isLosable c = true) (t : Text) : LeadsTo (c :: t) t :=
  ⟨[c], rfl, by simpa using hc⟩

theorem leadsTo_drop {n : Nat} {t : Text} (h : ∀ c ∈ t.take n, isLosable c = true) :
    LeadsTo t (t.drop n) :=
  ⟨t.take n, (List.take_append_drop n t).symm, h⟩

theorem exists_dropWhileEnd_append (p : Char → Bool) (t : Text) :
    ∃ tail, t = Text.dropWhileEnd p t ++ tail ∧ ∀ c ∈ tail, p c = true := by
  refine ⟨(t.reverse.takeWhile p).reverse, ?_, fun c hc => ?_⟩
  · rw [Text.dropWhileEnd, ← List.reverse_append, List.takeWhile_append_dropWhile,
      List.reverse_reverse]
  · exact List.mem_takeWhile_imp (List.mem_reverse.mp hc)

theorem hold_trimmed {t body : Text} {p : Char → Bool} (h : LeadsTo t body)
    (hp : ∀ c, p c = true → isLosable c = true) (offset : Nat) :
    let start := offset + (t.length - body.length)
    Hold [⟨start, start + (Text.dropWhileEnd p body).length⟩] offset t := by
  intro start
  obtain ⟨lead, rfl, hlead⟩ := h
  obtain ⟨tail, hbody, htail⟩ := exists_dropWhileEnd_append p body
  have hstart : start = offset + lead.length := by
    show offset + ((lead ++ body).length - body.length) = _
    rw [List.length_append, Nat.add_sub_cancel]
  rw [hstart]
  refine (Hold.of_losable hlead).append ?_
  nth_rewrite 2 [hbody]
  exact (Hold.whole _ _).append (.of_losable fun c hc => hp c (htail c hc))

theorem isLosable_of_isMarkTail {mark : Text} (hmark : ∀ c ∈ mark, isLosable c = true) (c : Char)
    (hc : isMarkTail mark c = true) : isLosable c = true := by
  rw [isMarkTail, Bool.or_eq_true, decide_eq_true_eq, decide_eq_true_eq] at hc
  rcases hc with hlast | rfl
  · exact hmark c (List.mem_of_getLast? hlast)
  · decide

theorem hold_lineProse {mark t : Text} (hmark : ∀ c ∈ mark, isLosable c = true)
    (hlead : mark <+: t) (offset : Nat) : Hold [lineProse mark offset t] offset t := by
  obtain ⟨rest, rfl⟩ := hlead
  refine hold_trimmed ?_ (by simp [isLosable]) offset
  rw [List.drop_left]
  have hbody : LeadsTo (mark ++ rest) (rest.dropWhile (isMarkTail mark)) :=
    LeadsTo.trans ⟨mark, rfl, hmark⟩ (leadsTo_dropWhile (isLosable_of_isMarkTail hmark) rest)
  split
  · next hblank =>
      refine hbody.trans (leadsTo_drop fun c hc => ?_)
      rw [List.take_one, hblank, Option.toList_some, List.mem_singleton] at hc
      rw [hc]
      decide
  · exact hbody

theorem isLosable_of_isIndent (c : Char) (hc : isIndent c = true) : isLosable c = true := by
  rw [isIndent, Bool.or_eq_true, decide_eq_true_eq, decide_eq_true_eq] at hc
  rcases hc with rfl | rfl <;> decide

theorem leadsTo_withoutLead (starred : Bool) (line : Text) :
    LeadsTo line (withoutLead starred line) := by
  have hindent : LeadsTo line (line.dropWhile isIndent) := leadsTo_dropWhile isLosable_of_isIndent _
  unfold withoutLead
  simp only
  split
  · next rest hstar =>
      have hrest : LeadsTo line rest :=
        LeadsTo.trans (hstar ▸ hindent) (leadsTo_cons (by decide) rest)
      split
      · split
        · next hblank =>
            refine hrest.trans (leadsTo_drop fun c hc => ?_)
            rw [List.take_one, Option.mem_toList] at hc
            rw [hc, Option.any_some] at hblank
            exact isLosable_of_isIndent c hblank
        · exact hrest
      · exact hindent
  · exact hindent

theorem hold_blockLineProse? (starred : Bool) (offset : Nat) (line : Text) :
    Hold (blockLineProse? starred offset line).toList offset line := by
  have hhold := hold_trimmed (leadsTo_withoutLead starred line)
    (p := fun c => isIndent c || c = '\r') (fun c hc => by
      rw [Bool.or_eq_true, decide_eq_true_eq] at hc
      rcases hc with hc | rfl
      · exact isLosable_of_isIndent c hc
      · decide) offset
  unfold blockLineProse?
  simp only at hhold ⊢
  split
  · exact hhold
  · next hempty =>
      -- an empty span covers nothing
      intro i c hc hlost
      obtain ⟨s, hs, hcovers⟩ := hhold i c hc hlost
      simp only [List.mem_singleton.mp hs, Span.covers, Bool.and_eq_true, decide_eq_true_eq]
        at hcovers
      omega

/-! ## Blocks of lines -/

theorem hold_lines {spans : List Span} {offset : Nat} {pieces : List Text}
    (h : ∀ x ∈ Text.numberPieces offset pieces, Hold spans x.1 x.2) :
    Hold spans offset (['\n'].intercalate pieces) := by
  induction pieces generalizing offset with
  | nil => exact .of_losable (by simp)
  | cons piece more ih =>
      obtain ⟨hpiece, hmore⟩ := List.forall_mem_cons.mp h
      cases more with
      | nil => simpa using hpiece
      | cons next more =>
          rw [List.intercalate_cons_cons]
          refine (hpiece.append (.of_losable ?_)).append ?_
          · intro c hc
            rw [List.mem_singleton.mp hc]
            decide
          · rw [List.length_append, ← Nat.add_assoc]
            exact ih hmore

theorem hold_numberedLines {offset : Nat} {body : Text} {first : Nat × Text}
    {more : List (Nat × Text)} (starred : Bool)
    (hpieces : Text.numberPieces offset (Text.lines body) = first :: more) :
    Hold ((blockLineProse? false first.1 first.2).toList ++
      more.filterMap fun x => blockLineProse? starred x.1 x.2) offset body := by
  rw [← Text.intercalate_lines body]
  refine hold_lines fun x hx => ?_
  rw [hpieces] at hx
  rcases List.mem_cons.mp hx with rfl | hx
  · exact (hold_blockLineProse? false _ _).mono fun s hs => List.mem_append_left _ hs
  · refine (hold_blockLineProse? starred _ _).mono fun s hs => List.mem_append_right _ ?_
    exact List.mem_filterMap.mpr ⟨x, hx, Option.mem_toList.mp hs⟩

theorem hold_blockProse {opening closing : Nat} {t : Text} (starred : Bool) (offset : Nat)
    (hlen : opening ≤ t.length) (hopening : ∀ c ∈ t.take opening, isLosable c = true)
    (hclosing : ∀ c ∈ t.drop (t.length - closing), isLosable c = true) :
    Hold (blockProse opening closing starred offset t) offset t := by
  have hsplit : t = t.take opening ++ ((t.drop opening).take (t.length - opening - closing) ++
      t.drop (opening + (t.length - opening - closing))) := by
    rw [← List.drop_drop, List.take_append_drop, List.take_append_drop]
  have hrest : ∀ c ∈ t.drop (opening + (t.length - opening - closing)), isLosable c = true :=
    fun c hc => hclosing c (List.drop_subset_drop_left t (by omega) hc)
  have htake : (t.take opening).length = opening := List.length_take_of_le hlen
  unfold blockProse
  generalize (t.drop opening).take (t.length - opening - closing) = inner at hsplit ⊢
  have hinner : LeadsTo inner
      (if starred then inner.dropWhile fun c => c = '*' || c = '!' else inner) := by
    split
    · exact leadsTo_dropWhile (by simp [isLosable]) inner
    · exact .refl inner
  simp only
  generalize (if starred = true then inner.dropWhile fun c => c = '*' || c = '!' else inner) = body
    at hinner ⊢
  obtain ⟨lead, rfl, hlead⟩ := hinner
  rw [List.length_append, Nat.add_sub_cancel]
  cases hpieces : Text.numberPieces (offset + opening + lead.length) (Text.lines body) with
  | nil =>
      obtain ⟨line, lines, hlines⟩ := List.exists_cons_of_ne_nil (Text.lines_ne_nil body)
      rw [hlines] at hpieces
      contradiction
  | cons first more =>
      have hbody := hold_numberedLines starred hpieces
      rw [hsplit]
      refine (Hold.of_losable hopening).append (Hold.append (Hold.append (.of_losable hlead) ?_)
        (.of_losable hrest))
      rwa [htake]

/-! ## Comments of a text -/

theorem hold_lineComment {mark t : Text} (hmark : ∀ c ∈ mark, isLosable c = true)
    (hfeed : '\n' ∉ mark) (hlead : mark <+: t) (offset : Nat) :
    Hold (lineComment mark offset t).prose offset (lineComment mark offset t).text := by
  apply hold_lineProse hmark
  obtain ⟨rest, rfl⟩ := hlead
  rw [List.takeWhile_append_of_pos fun c hc => decide_eq_true (ne_of_mem_of_not_mem hc hfeed)]
  exact List.prefix_append _ _

theorem hold_blockComment {opening closing t : Text} (hopening : ∀ c ∈ opening, isLosable c = true)
    (hclosing : ∀ c ∈ closing, isLosable c = true) (hlead : opening <+: t) (starred : Bool)
    (offset : Nat) :
    Hold (blockComment opening closing starred offset t).prose offset
      (blockComment opening closing starred offset t).text := by
  have hlen := hlead.length_le
  have htake {n : Nat} (hn : opening.length ≤ n) :
      ∀ c ∈ (t.take n).take opening.length, isLosable c = true := by
    rw [List.take_take, Nat.min_eq_left hn, ← List.prefix_iff_eq_take.mp hlead]
    exact hopening
  unfold blockComment
  simp only
  cases hfound : Text.find? closing (t.drop opening.length) with
  | none =>
      -- a block that is not closed goes on to the end
      apply hold_blockProse
      · simpa using hlen
      · exact htake hlen
      · simp
  | some n =>
      have hclose := Text.add_length_le_of_find? hfound
      rw [List.length_drop] at hclose
      apply hold_blockProse
      · simp only [Option.map_some, Option.getD_some, List.length_take]
        omega
      · exact htake (by simp only [Option.map_some, Option.getD_some]; omega)
      · obtain ⟨rest, hrest⟩ := Text.find?_eq_some hfound
        rw [List.drop_drop] at hrest
        simp only [Option.map_some, Option.getD_some]
        rw [List.length_take_of_le (by omega), Nat.add_sub_cancel, List.drop_take,
          Nat.add_sub_cancel_left, ← hrest, List.take_left]
        exact hclosing

end Comment

structure CommentStyle.Losable (style : CommentStyle) : Prop where
  lineMark : style.lineMark.all Comment.isLosable = true
  blockMarks : ∀ marks ∈ style.blockMarks,
    marks.1.all Comment.isLosable = true ∧ marks.2.all Comment.isLosable = true

theorem losable_of_commentStyle? {language : String} {style : CommentStyle}
    (h : commentStyle? language = some style) : style.Losable := by
  rcases known_of_commentStyle? h with rfl | rfl | rfl | rfl <;> exact ⟨by decide, by decide⟩

namespace Comment

theorem hold_of_lexeme {style : CommentStyle} (hmarked : style.Marked) (hlosable : style.Losable)
    {before : Option Char} {offset : Nat} {c : Char} {rest : Text} {m : Comment}
    (h : lexeme style before offset c rest = .comment m) : Hold m.prose m.span.start m.text := by
  rcases comment_of_lexeme h with
    ⟨q, hq, rfl⟩ | ⟨hlead, rfl⟩ | ⟨opening, closing, hmarks, hlead, rfl⟩
  · obtain ⟨hlead, hquotes⟩ := tripleQuote?_eq_some hq
    have hlosable : q.all isLosable = true := by rcases hquotes with rfl | rfl <;> decide
    have hq := List.all_eq_true.mp hlosable
    exact hold_blockComment hq hq hlead false offset
  · exact hold_lineComment (List.all_eq_true.mp hlosable.lineMark) hmarked.lineMark_oneLine hlead
      offset
  · obtain ⟨hopening, hclosing⟩ := hlosable.blockMarks _ hmarks
    exact hold_blockComment (List.all_eq_true.mp hopening) (List.all_eq_true.mp hclosing) hlead
      true offset

theorem hold_of_mem_commentsOf {t : Text} {language : String} {m : Comment}
    (hm : m ∈ commentsOf t language) : Hold m.prose m.span.start m.text := by
  unfold commentsOf at hm
  split at hm
  · next hstyle =>
      obtain ⟨_, _, _, _, hlexeme⟩ := exists_lexeme_of_mem_commentsFrom hm
      exact hold_of_lexeme (marked_of_commentStyle? hstyle) (losable_of_commentStyle? hstyle) hlexeme
  · contradiction

/-- A comment in a text, whose spans of prose hold all of it but line feeds, blanks and marks. -/
structure Lossless (m : Comment) (t : Text) : Prop where
  nonempty : m.span.start < m.span.stop
  bounded : m.span.stop ≤ t.length
  text_eq : m.text = t.slice m.span
  ordered : m.prose.Pairwise fun s s' => s.stop < s'.start
  within : ∀ s ∈ m.prose, m.span.start ≤ s.start ∧ s.start ≤ s.stop ∧ s.stop ≤ m.span.stop
  oneLine : ∀ s ∈ m.prose, '\n' ∉ t.slice s
  lost : ∀ o c, m.span.covers o = true → t[o]? = some c → (∀ s ∈ m.prose, s.covers o = false) →
    isLosable c = true

theorem lossless_of_mem_commentsOf {t : Text} {language : String} {m : Comment}
    (hm : m ∈ commentsOf t language) : m.Lossless t := by
  have hstands := standsIn_of_mem_commentsOf hm
  have hstop := hstands.stop_eq
  obtain ⟨rest, hrest⟩ := hstands.text_prefix
  rw [Nat.sub_zero] at hrest
  have hlen := congrArg List.length hrest
  rw [List.length_append, List.length_drop] at hlen
  have hpos := hstands.start_lt_stop
  have hprose := hstands.prose
  have hwithin : ∀ s ∈ m.prose,
      m.span.start ≤ s.start ∧ s.start ≤ s.stop ∧ s.stop ≤ m.span.stop := by
    intro s hs
    have := hprose.within s hs
    omega
  refine ⟨hpos, by omega, ?_, ?_, hwithin, ?_, ?_⟩
  · rw [Text.slice, List.drop_take, ← hrest, hstop, Nat.add_sub_cancel_left, List.take_left]
  · apply hprose.apart.imp
    rintro s s' ⟨i, hlow, hhigh, _⟩
    omega
  · intro s hs hfeed
    obtain ⟨i, hi⟩ := List.mem_iff_getElem?.mp hfeed
    rw [Text.getElem?_slice] at hi
    split at hi
    · next hlt =>
        have hin := hwithin s hs
        rw [hstands.getElem?_eq (by omega) (by omega)] at hi
        exact hprose.oneLine s hs (s.start + i) (by omega) hlt hi
    · contradiction
  · intro o c ho hc hout
    simp only [Span.covers, Bool.and_eq_true, decide_eq_true_eq] at ho
    by_contra hkept
    rw [hstands.getElem?_eq ho.1 ho.2] at hc
    obtain ⟨s, hs, hcovers⟩ := hold_of_mem_commentsOf hm _ c hc (Bool.eq_false_iff.mpr hkept)
    rw [Nat.add_sub_cancel' ho.1, hout s hs] at hcovers
    contradiction

end Comment

/-- Comments stand in the text one behind the other.  All that one of them loses is line feeds,
blanks and marks, and its other characters have their place in the prose view. -/
theorem commentsOf_lossless (t : Text) (language : String) :
    let comments := commentsOf t language
    let view := proseView t language
    let map := OffsetMap.ofRanges t view.text view.ranges
    comments.Pairwise (fun m n => m.span.stop ≤ n.span.start) ∧
      (∀ m ∈ comments, m.Lossless t) ∧
      ∀ m ∈ comments, ∀ o c, m.span.covers o = true → t[o]? = some c →
        Comment.isLosable c = false →
          ∃ f : Nat, view.text[f]? = some c ∧ map.documentOffset? f = some (o : Int) := by
  intro comments view map
  refine ⟨Comment.pairwise_commentsOf t language, fun m hm => Comment.lossless_of_mem_commentsOf hm,
    fun m hm o c ho hc hkept => ?_⟩
  have hcode : isCodeLanguage language = true := by
    by_contra hprose
    rw [Bool.not_eq_true, isCodeLanguage, Option.isSome_eq_false_iff, Option.isNone_iff_eq_none]
      at hprose
    simp [comments, commentsOf, hprose] at hm
  refine exists_place_proseView hcode hc (Or.inr ?_)
  by_contra hout
  have hlost := (Comment.lossless_of_mem_commentsOf hm).lost o c ho hc fun s hs =>
    Bool.eq_false_iff.mpr fun hcovers => hout ⟨m, hm, s, hs, hcovers⟩
  rw [hkept] at hlost
  contradiction

end Kouetsu
