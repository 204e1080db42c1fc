import Kouetsu.Proofs.Sentence.Closing
import Kouetsu.Proofs.Text.Visible
import Kouetsu.Rule.Basic
/-!
# Closing marks and verdicts

The style of a sentence is the same behind any run of closing marks.  Its ending and the verdict on
its adverbs show only where the sentence is closed by one mark: of a run no more than the last mark
is taken off.
-/

namespace Kouetsu

variable {w before lead body marks marks' rest p : Text} {s s' : Sentence}

structure IsMarks (marks : Text) : Prop where
  nonempty : marks ≠ []
  marked : ∀ c ∈ marks, isTerminator c = true

def Text.EndsInWord (t : Text) : Prop := ∃ c, t.getLast? = some c ∧ isTerminator c = false

instance (t : Text) : Decidable t.EndsInWord :=
  decidable_of_iff (t.getLast?.any fun c => !isTerminator c) (by
    simp [Text.EndsInWord, Option.any_eq_true])

/-- What a text holds after its last closing mark, white space in front left out. -/
def Text.afterLastMark (t : Text) : Text :=
  trimStart (t.reverse.takeWhile fun c => !isTerminator c).reverse

/-! ## Phrases before closing marks -/

namespace IsMarks

theorem exists_concat (h : IsMarks marks) : ∃ init m, marks = init ++ [m] ∧
    isTerminator m = true ∧ ∀ c ∈ init, isTerminator c = true := by
  obtain ⟨init, m, rfl⟩ := (List.eq_nil_or_concat' marks).resolve_left h.nonempty
  exact ⟨init, m, rfl, h.marked m (by simp), fun c hc => h.marked c (by simp [hc])⟩

/-- A phrase that ends in another character does not end where closing marks end. -/
theorem not_suffix (h : IsMarks marks) (hp : p.EndsInWord) : ¬p <:+ w ++ marks := by
  obtain ⟨init, m, rfl, hm, _⟩ := h.exists_concat
  obtain ⟨c, hc, hword⟩ := hp
  rintro ⟨lead, hlead⟩
  have hlast := congrArg List.getLast? hlead
  rw [List.getLast?_append, hc, Option.some_or, ← List.append_assoc, List.getLast?_concat] at hlast
  obtain rfl := Option.some.inj hlast
  rw [hm] at hword
  contradiction

theorem infix_iff (h : IsMarks marks) (hp : p.EndsInWord) : p <:+: w ++ marks ↔ p <:+: w := by
  constructor
  · rintro ⟨before, after, hsplit⟩
    rcases List.append_eq_append_iff.mp hsplit with ⟨x, rfl, -⟩ | ⟨x, hx, hmarks⟩
    · exact ⟨before, x, rfl⟩
    · -- else the phrase ends among the closing marks
      cases x with
      | nil => exact ⟨before, [], by simpa using hx⟩
      | cons c x =>
          have hmore : IsMarks (c :: x) :=
            ⟨List.cons_ne_nil c x, fun d hd => h.marked d (hmarks ▸ List.mem_append_left _ hd)⟩
          exact absurd ⟨before, hx⟩ (hmore.not_suffix (w := w) hp)
  · exact fun hw => hw.trans (List.prefix_append w marks).isInfix

/-- Only one mark is taken off, so that a phrase shows in front of one mark and of no more. -/
theorem suffix_withoutTerminator_iff (h : IsMarks marks) (hp : p.EndsInWord) :
    p <:+ withoutTerminator (w ++ marks) ↔ marks.length = 1 ∧ p <:+ w := by
  obtain ⟨init, m, rfl, hm, hinit⟩ := h.exists_concat
  have hwithout : withoutTerminator (w ++ (init ++ [m])) = w ++ init := by
    rw [withoutTerminator, ← List.append_assoc, List.getLast?_concat, Option.any_some, if_pos hm,
      List.dropLast_concat]
  rw [hwithout]
  cases init with
  | nil => simp
  | cons c init =>
      have hmore : IsMarks (c :: init) := ⟨List.cons_ne_nil c init, hinit⟩
      exact iff_of_false (hmore.not_suffix hp) (by simp)

theorem withoutLineFeed_eq (h : IsMarks marks) : withoutLineFeed (w ++ marks) = w ++ marks := by
  obtain ⟨init, m, rfl, hm, _⟩ := h.exists_concat
  rw [withoutLineFeed, ← List.append_assoc, List.getLast?_concat, if_neg]
  rintro hfeed
  obtain rfl := Option.some.inj hfeed
  revert hm
  decide

theorem withoutClosing_eq (h : IsMarks marks) : withoutClosing (w ++ marks) = withoutClosing w := by
  rw [withoutClosing, withoutClosing, Text.dropWhileEnd, Text.dropWhileEnd, List.reverse_append,
    List.dropWhile_append_of_pos]
  intro c hc
  rw [h.marked c (List.mem_reverse.mp hc), Bool.true_or]

end IsMarks

/-! ## Verdicts on a sentence -/

namespace Sentence

theorem style_congr (h : s'.body = s.body) : s'.style = s.style := by
  rw [style, style, endsPolitely, endsPolitely, endsPlainly, endsPlainly, h]

theorem endsInWord_of_mem_endings : ∀ e ∈ endings, Text.EndsInWord e.toList := by decide

/-- An ending shows before one closing mark, and before several none does. -/
theorem ending?_marks_eq_none_iff (h : IsMarks marks) (hs : s.text = body ++ marks) :
    s.ending? = none ↔ marks.length = 1 → ∀ e ∈ endings, ¬e.toList <:+ body := by
  rw [ending?_eq_none_iff, hs, h.withoutLineFeed_eq]
  constructor
  · intro hnone hone e he hsuffix
    exact hnone e he ((h.suffix_withoutTerminator_iff (endsInWord_of_mem_endings e he)).mpr
      ⟨hone, hsuffix⟩)
  · intro hnone e he hsuffix
    obtain ⟨hone, hsuffix⟩ :=
      (h.suffix_withoutTerminator_iff (endsInWord_of_mem_endings e he)).mp hsuffix
    exact hnone hone e he hsuffix

theorem ending?_congr_of_single (hs : s.text = body ++ marks) (hs' : s'.text = body ++ marks')
    (h : IsMarks marks) (h' : IsMarks marks') (hone : marks.length = 1)
    (hone' : marks'.length = 1) : s'.ending? = s.ending? := by
  obtain ⟨m, rfl⟩ := List.length_eq_one_iff.mp hone
  obtain ⟨m', rfl⟩ := List.length_eq_one_iff.mp hone'
  have hwithout {c : Char} (hc : isTerminator c = true) :
      withoutTerminator (body ++ [c]) = body := by
    rw [withoutTerminator, List.getLast?_concat, Option.any_some, if_pos hc, List.dropLast_concat]
  rw [ending?, ending?, hs, hs', h.withoutLineFeed_eq, h'.withoutLineFeed_eq,
    hwithout (h.marked m List.mem_cons_self), hwithout (h'.marked m' List.mem_cons_self)]

/-- Two runs of closing marks give a sentence one ending if both are one mark or neither is, and
else if there is none to be found. -/
theorem ending?_marks_eq_iff (hs : s.text = body ++ marks) (hs' : s'.text = body ++ marks')
    (h : IsMarks marks) (h' : IsMarks marks') :
    s'.ending? = s.ending? ↔
      (marks'.length = 1 ↔ marks.length = 1) ∨ ∀ e ∈ endings, ¬e.toList <:+ body := by
  have hnone := ending?_marks_eq_none_iff h hs
  have hnone' := ending?_marks_eq_none_iff h' hs'
  by_cases hone : marks.length = 1
  · by_cases hone' : marks'.length = 1
    · simp only [hone, hone', true_or, iff_true]
      exact ending?_congr_of_single hs hs' h h' hone hone'
    · have hlost : s'.ending? = none := hnone'.mpr fun h => absurd h hone'
      rw [hlost, eq_comm, hnone]
      simp [hone, hone']
  · have hlost : s.ending? = none := hnone.mpr fun h => absurd h hone
    rw [hlost, hnone']
    by_cases hone' : marks'.length = 1
    · simp [hone, hone']
    · simp [hone, hone']

end Sentence

/-! ## Adverbs and the end of their sentence -/

namespace Check

open Text

def Agreement.Broken (a : Agreement) (words : Text) : Prop :=
  a.adverb.toList <:+: words ∧ ∃ f ∈ a.forbidden, f.toList <:+ words

theorem endsInWord_of_mem_agreements : ∀ a ∈ agreements, EndsInWord a.adverb.toList ∧
    ∀ f ∈ a.forbidden, EndsInWord f.toList := by decide

/-- An adverb is blamed before one closing mark, and before several none is. -/
theorem isSome_broken?_marks_iff {a : Agreement} (ha : a ∈ agreements) (h : IsMarks marks) :
    (a.broken? (w ++ marks)).isSome ↔ marks.length = 1 ∧ a.Broken w := by
  obtain ⟨hadverb, hforbidden⟩ := endsInWord_of_mem_agreements a ha
  have hends {f : String} (hf : f ∈ a.forbidden) :
      endsWith (withoutTerminator (w ++ marks)) f.toList = true ↔
        marks.length = 1 ∧ f.toList <:+ w := by
    rw [endsWith_iff, h.suffix_withoutTerminator_iff (hforbidden f hf)]
  rw [Agreement.broken?]
  split
  · next hin =>
      rw [contains_iff, h.infix_iff hadverb] at hin
      rw [List.find?_isSome]
      constructor
      · rintro ⟨f, hf, hend⟩
        obtain ⟨hone, hsuffix⟩ := (hends hf).mp hend
        exact ⟨hone, hin, f, hf, hsuffix⟩
      · rintro ⟨hone, _, f, hf, hsuffix⟩
        exact ⟨f, hf, (hends hf).mpr ⟨hone, hsuffix⟩⟩
  · next hout =>
      rw [contains_iff, h.infix_iff hadverb] at hout
      exact iff_of_false (by simp) fun hbroken => hout hbroken.2.1

/-! ## The sentence that ends at an offset -/

theorem exists_afterLastMark (t : Text) : ∃ lead body, t = lead ++ body ∧ lead.EndsMarked ∧
    (∀ c ∈ body, isTerminator c = false) ∧ t.afterLastMark = trimStart body := by
  refine ⟨(t.reverse.dropWhile fun c => !isTerminator c).reverse,
    (t.reverse.takeWhile fun c => !isTerminator c).reverse, ?_, fun c hc => ?_, fun c hc => ?_, rfl⟩
  · rw [← List.reverse_append, List.takeWhile_append_dropWhile, List.reverse_reverse]
  · rw [List.getLast?_reverse] at hc
    have hnot := List.head?_dropWhile_not (fun c => !isTerminator c) t.reverse
    rw [hc] at hnot
    simpa using hnot
  · simpa using List.mem_takeWhile_imp (List.mem_reverse.mp hc)

theorem trim_append_marks (body : Text) (h : IsMarks marks) :
    trim (body ++ marks) = trimStart body ++ marks := by
  obtain ⟨init, m, rfl, hm, hinit⟩ := h.exists_concat
  have hstart : trimStart (body ++ (init ++ [m])) = trimStart body ++ (init ++ [m]) := by
    have hmarks : (init ++ [m]).dropWhile isBlank = init ++ [m] := by
      cases init with
      | nil => simp [isBlank_of_isTerminator hm]
      | cons c init => simp [isBlank_of_isTerminator (hinit c List.mem_cons_self)]
    rw [trimStart, trimStart, List.dropWhile_append, hmarks]
    split
    · next hnil => rw [List.isEmpty_iff.mp hnil, List.nil_append]
    · rfl
  rw [trim, hstart, trimEnd, dropWhileEnd, ← List.append_assoc, List.reverse_concat,
    List.dropWhile_cons_of_neg (by simp [isBlank_of_isTerminator hm]), List.reverse_cons,
    List.reverse_reverse]

theorem slice_of_stop_eq (hlead : lead.EndsMarked) (h : Stretch body marks rest)
    (hmarks : IsMarks marks) {s : Span}
    (hs : s ∈ plainSentences (lead ++ (body ++ (marks ++ rest))))
    (hstop : s.stop = lead.length + body.length + marks.length) :
    slice (lead ++ (body ++ (marks ++ rest))) s = trimStart body ++ marks := by
  have hpos := List.length_pos_iff.mpr h.nonempty
  obtain ⟨piece, hpiece, htrim⟩ := List.mem_filterMap.mp hs
  have hbounds := bounds_of_trimSpan? htrim
  rw [scan_plainSentence_stretch hlead h, List.mem_append, List.mem_cons] at hpiece
  rcases hpiece with hpiece | rfl | hpiece
  · have hearly := bounds_of_mem_scan bounded_plainSentence hpiece
    omega
  · have hslice := slice_middle lead (body ++ marks) rest
    rw [List.length_append, ← Nat.add_assoc, List.append_assoc] at hslice
    rw [slice_trimSpan? htrim, hslice, trim_append_marks body hmarks]
  · have hlate := le_start_of_mem_scanFrom hpiece
    omega

theorem exists_stop_eq (hlead : lead.EndsMarked) (h : Stretch body marks rest)
    (hmarks : IsMarks marks) : ∃ s ∈ plainSentences (lead ++ (body ++ (marks ++ rest))),
      s.stop = lead.length + body.length + marks.length := by
  obtain ⟨init, m, rfl, hm, _⟩ := hmarks.exists_concat
  have hvisible : VisibleAt (lead ++ (body ++ (init ++ [m] ++ rest)))
      (lead.length + body.length + init.length) := by
    refine ⟨m, ?_, isBlank_of_isTerminator hm⟩
    simp [Nat.add_assoc]
  have hlast : lead.length + body.length + init.length <
      lead.length + body.length + (init ++ [m]).length := by
    rw [List.length_append, List.length_singleton]
    omega
  obtain ⟨s, hs, _, hhigh⟩ := exists_trimSpan? (s := ⟨lead.length, _⟩) hvisible
    (by simp only; omega) hlast
  refine ⟨s, List.mem_filterMap.mpr ⟨_, ?_, hs⟩, ?_⟩
  · rw [scan_plainSentence_stretch hlead h]
    exact List.mem_append_right _ List.mem_cons_self
  · have hbounds := (bounds_of_trimSpan? hs).2.2.1
    rw [List.length_append, List.length_singleton] at hbounds ⊢
    simp only at hbounds
    omega

theorem stop_ne_of_mem_plainSentences (hmarks : IsMarks marks) (hrest : rest.StartsUnmarked)
    {s : Span} (hs : s ∈ plainSentences (marks ++ rest)) : s.stop ≠ marks.length := by
  obtain ⟨piece, hpiece, htrim⟩ := List.mem_filterMap.mp hs
  have hbounds := bounds_of_trimSpan? htrim
  have hmarked : EndsMarked marks := fun c hc => hmarks.marked c (List.mem_of_getLast? hc)
  rw [scan, scanFrom_plainSentence_append none 0 hmarked hrest, List.mem_append] at hpiece
  rcases hpiece with hpiece | hpiece
  · obtain ⟨_, before, hmatch⟩ := exists_of_mem_scanFrom hpiece
    have hinside := bounds_of_mem_scanFrom bounded_plainSentence hpiece
    have hmark : piece.start - 0 < marks.length := by omega
    rw [List.drop_eq_getElem_cons hmark,
      plainSentence_mark before (hmarks.marked _ (List.getElem_mem hmark))] at hmatch
    contradiction
  · have hlow := le_start_of_mem_scanFrom hpiece
    omega

/-! ## Reports on adverbs -/

/-- Whether the check of adverbs reports the sentence that ends at an offset. -/
def ReportsAdverbAt (c : Context) (stop : Nat) : Prop :=
  ∃ found, adverbAgreement.findings? c = some found ∧ ∃ f ∈ found, f.stop = stop

theorem reportsAdverbAt_iff {c : Context} {stop : Nat} : ReportsAdverbAt c stop ↔
    ∃ s ∈ plainSentences c.text, s.stop = stop ∧
      ∃ a ∈ agreements, (a.broken? (c.text.slice s)).isSome := by
  constructor
  · rintro ⟨found, hfound, f, hf, hstop⟩
    obtain rfl : adverbAgreements c = found := Option.some.inj hfound
    obtain ⟨s, hs, hf⟩ := List.mem_flatMap.mp hf
    obtain ⟨a, ha, hreport⟩ := List.mem_filterMap.mp hf
    obtain ⟨actual, hbroken, rfl⟩ := Option.map_eq_some_iff.mp hreport
    exact ⟨s, hs, Int.ofNat.inj hstop, a, ha, Option.isSome_of_eq_some hbroken⟩
  · rintro ⟨s, hs, rfl, a, ha, hbroken⟩
    obtain ⟨actual, hactual⟩ := Option.isSome_iff_exists.mp hbroken
    exact ⟨_, rfl, _, List.mem_flatMap.mpr ⟨s, hs, List.mem_filterMap.mpr
      ⟨a, ha, Option.map_eq_some_iff.mpr ⟨actual, hactual, rfl⟩⟩⟩, rfl⟩

instance (c : Context) (stop : Nat) : Decidable (ReportsAdverbAt c stop) :=
  decidable_of_iff _ reportsAdverbAt_iff.symm

/-- What stands before closing marks is reported if they are one mark and an adverb is broken. -/
theorem reportsAdverbAt_marks_iff (hbefore : before.EndsUnmarked) (h : IsMarks marks)
    (hrest : rest.StartsUnmarked) {c : Context} (hc : c.text = before ++ (marks ++ rest)) :
    ReportsAdverbAt c (before.length + marks.length) ↔
      marks.length = 1 ∧ ∃ a ∈ agreements, a.Broken before.afterLastMark := by
  have hbroken : (∃ a ∈ agreements, (a.broken? (before.afterLastMark ++ marks)).isSome) ↔
      marks.length = 1 ∧ ∃ a ∈ agreements, a.Broken before.afterLastMark := by
    constructor
    · rintro ⟨a, ha, hsome⟩
      obtain ⟨hone, hbroken⟩ := (isSome_broken?_marks_iff ha h).mp hsome
      exact ⟨hone, a, ha, hbroken⟩
    · rintro ⟨hone, a, ha, hbroken⟩
      exact ⟨a, ha, (isSome_broken?_marks_iff ha h).mpr ⟨hone, hbroken⟩⟩
  rw [reportsAdverbAt_iff, hc, ← hbroken]
  obtain ⟨lead, body, rfl, hlead, hbody, hlast⟩ := exists_afterLastMark before
  rw [hlast, List.append_assoc, List.length_append]
  by_cases hnone : body = []
  · -- a text that ends both in a closing mark and in none is empty
    subst hnone
    rw [List.append_nil] at hbefore
    obtain rfl := hlead.eq_nil hbefore
    constructor
    · rintro ⟨s, hs, hstop, -⟩
      exact absurd (by simpa using hstop) (stop_ne_of_mem_plainSentences h hrest hs)
    · rintro ⟨a, ha, hsome⟩
      have := ((isSome_broken?_marks_iff ha h).mp hsome).2.1
      obtain ⟨d, hd, -⟩ := (endsInWord_of_mem_agreements a ha).1
      rw [show trimStart [] = [] from rfl, List.infix_nil] at this
      rw [this, List.getLast?_nil] at hd
      exact absurd hd.symm (Option.some_ne_none d)
  · have hstretch : Stretch body marks rest :=
      ⟨hnone, hbody, h.marked, hrest, fun hnil => absurd hnil h.nonempty⟩
    constructor
    · rintro ⟨s, hs, hstop, hsome⟩
      rwa [slice_of_stop_eq hlead hstretch h hs hstop] at hsome
    · intro hsome
      obtain ⟨s, hs, hstop⟩ := exists_stop_eq hlead hstretch h
      refine ⟨s, hs, hstop, ?_⟩
      rwa [slice_of_stop_eq hlead hstretch h hs hstop]

end Check

/-- Another run of closing marks leaves the style of a sentence as it is.  It leaves its ending and
the report on its adverbs as they are exactly if both runs are one mark, or neither is, or nothing
is found before the marks. -/
theorem Sentence.verdicts_eq_iff (hbefore : (lead ++ body).EndsUnmarked)
    (hrest : rest.StartsUnmarked) (h : IsMarks marks) (h' : IsMarks marks')
    (hs : s.text = body ++ marks) (hs' : s'.text = body ++ marks') {c c' : Context}
    (hc : c.text = lead ++ (s.text ++ rest)) (hc' : c'.text = lead ++ (s'.text ++ rest)) :
    s'.style = s.style ∧
      (s'.ending? = s.ending? ↔
        (marks'.length = 1 ↔ marks.length = 1) ∨ ∀ e ∈ endings, ¬e.toList <:+ body) ∧
      ((Check.ReportsAdverbAt c' (lead.length + s'.text.length) ↔
          Check.ReportsAdverbAt c (lead.length + s.text.length)) ↔
        (marks'.length = 1 ↔ marks.length = 1) ∨
          ∀ a ∈ Check.agreements, ¬a.Broken (lead ++ body).afterLastMark) := by
  have hbody : s'.body = s.body := by
    rw [Sentence.body, Sentence.body, hs, hs', h.withoutClosing_eq, h'.withoutClosing_eq]
  have hreport := Check.reportsAdverbAt_marks_iff hbefore h hrest (c := c)
    (by rw [hc, hs, List.append_assoc, List.append_assoc])
  have hreport' := Check.reportsAdverbAt_marks_iff hbefore h' hrest (c := c')
    (by rw [hc', hs', List.append_assoc, List.append_assoc])
  rw [List.length_append, Nat.add_assoc, ← List.length_append] at hreport hreport'
  refine ⟨style_congr hbody, ending?_marks_eq_iff hs hs' h h', ?_⟩
  rw [hs, hs', hreport, hreport']
  by_cases hone : marks.length = 1 <;> by_cases hone' : marks'.length = 1 <;> simp [hone, hone']

/-- One mark for another, in the second sentence of three. -/
theorem Sentence.verdicts_eq_iff_question :
    let s : Sentence := ⟨"全く行きます。".toList, 4, 11, []⟩
    let s' : Sentence := ⟨"全く行きます？".toList, 4, 11, []⟩
    let c : Context := .of ("はい。\n".toList ++ (s.text ++ " でも".toList)) [] [s] {}
    let c' : Context := .of ("はい。\n".toList ++ (s'.text ++ " でも".toList)) [] [s'] {}
    s'.style = s.style ∧ s'.ending? = s.ending? ∧ s.ending? = some "ます" ∧
      Check.ReportsAdverbAt c 11 ∧ Check.ReportsAdverbAt c' 11 := by
  intro s s' c c'
  have hmark {m : Char} (hm : isTerminator m = true) : IsMarks [m] :=
    ⟨List.cons_ne_nil m [], List.forall_mem_singleton.mpr hm⟩
  have hbefore : Text.EndsUnmarked ("はい。\n".toList ++ "全く行きます".toList) := by decide
  have hrest : Text.StartsUnmarked " でも".toList := by decide
  have hs : s.text = "全く行きます".toList ++ ['。'] := rfl
  have hs' : s'.text = "全く行きます".toList ++ ['？'] := rfl
  have hc : c.text = "はい。\n".toList ++ (s.text ++ " でも".toList) := rfl
  have hc' : c'.text = "はい。\n".toList ++ (s'.text ++ " でも".toList) := rfl
  obtain ⟨hstyle, hending, hreport⟩ :=
    verdicts_eq_iff hbefore hrest (hmark (by decide)) (hmark (by decide)) hs hs' hc hc'
  have hfound : Check.ReportsAdverbAt c 11 := by decide +kernel
  exact ⟨hstyle, hending.mpr (Or.inl Iff.rfl), by decide +kernel, hfound,
    (hreport.mpr (Or.inl Iff.rfl)).mpr hfound⟩

/-- A second mark hides the ending of a sentence and the adverb that does not agree with it. -/
theorem Sentence.verdicts_lost_behind_marks :
    let s : Sentence := ⟨"全く行きます".toList ++ "。".toList, 0, 7, []⟩
    let s' : Sentence := ⟨"全く行きます".toList ++ "。。".toList, 0, 8, []⟩
    (s.ending? = some "ます" ∧ s'.ending? = none) ∧
      Check.ReportsAdverbAt (.of s.text [] [s] {}) 7 ∧
        ¬Check.ReportsAdverbAt (.of s'.text [] [s'] {}) 8 := by
  decide +kernel

end Kouetsu
