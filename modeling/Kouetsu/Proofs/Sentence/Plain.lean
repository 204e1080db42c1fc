import Kouetsu.Proofs.Proofreading
import Kouetsu.Proofs.Rule.Agreement
import Kouetsu.Proofs.Rule.Basic
import Kouetsu.Proofs.Sentence.Break
import Kouetsu.Proofs.Sentence.Closing
/-!
# Sentences by closing marks alone

Two checks cut the text after its closing marks and nowhere else.  What they take for a sentence
lies in one sentence of the text exactly where no structural break and no blank line stands inside
it.
-/

namespace Kouetsu

/-! ## Plain sentences -/

namespace Check

/-- Behind a closing mark of a plain sentence there are only closing marks. -/
theorem terminatorAt_of_plainSentence {before : Option Char} {t : Text} {n : Nat}
    (h : plainSentence before t = some n) {i j : Nat} (hi : TerminatorAt t i) (hij : i ≤ j)
    (hj : j < n) : TerminatorAt t j := by
  obtain ⟨body, marks, rest, rfl, rfl, hbody, hmarks⟩ := exists_append_of_plainSentence h
  have hlow : body.length ≤ i := by
    by_contra hlt
    obtain ⟨c, hc, hterm⟩ := hi
    rw [List.getElem?_append_left (by omega)] at hc
    rw [hbody c (List.mem_of_getElem? hc)] at hterm
    exact Bool.false_ne_true hterm
  have hhigh : j - body.length < marks.length := by omega
  refine ⟨marks[j - body.length], ?_, hmarks _ (List.getElem_mem hhigh)⟩
  rw [List.getElem?_append_right (by omega), List.getElem?_append_left hhigh,
    List.getElem?_eq_getElem hhigh]

theorem terminatorAt_drop {t : Text} {i k : Nat} :
    TerminatorAt (t.drop i) k ↔ TerminatorAt t (i + k) := by
  rw [TerminatorAt, TerminatorAt, List.getElem?_drop]

theorem terminatorAt_of_mem_plainSentences {t : Text} {s : Span} (hs : s ∈ plainSentences t)
    {i j : Nat} (hi : TerminatorAt t i) (hlow : s.start ≤ i) (hij : i ≤ j) (hj : j < s.stop) :
    TerminatorAt t j := by
  obtain ⟨piece, hpiece, htrim⟩ := List.mem_filterMap.mp hs
  have hbounds := Text.bounds_of_trimSpan? htrim
  obtain ⟨_, before, hmatch⟩ := Text.exists_of_mem_scanFrom hpiece
  rw [Nat.sub_zero] at hmatch
  have hshift (k : Nat) (hk : piece.start ≤ k) :
      TerminatorAt (t.drop piece.start) (k - piece.start) ↔ TerminatorAt t k := by
    rw [terminatorAt_drop, Nat.add_sub_cancel' hk]
  rw [← hshift j (by omega)]
  exact terminatorAt_of_plainSentence hmatch ((hshift i (by omega)).mpr hi) (by omega) (by omega)

end Check

/-! ## Plain sentences and sentences -/

/-- A stretch of a text without structural breaks and blank lines inside it. -/
structure Unbroken (t : Text) (ranges : List ExcludedRange) (start stop : Nat) : Prop where
  noBreak : ∀ b ∈ structuralBreaks t ranges, ¬((start : Int) < b ∧ b < (stop : Int))
  noBlankLine : ∀ k, start < k → k < stop → ¬BlankLineAfter t k

/-- A sentence holds a stretch if it covers its first and its last character. -/
theorem Sentence.covers_ends_iff (x : Sentence) {start stop : Nat} (h : start < stop) :
    x.start ≤ start ∧ stop ≤ x.stop ↔ x.Covers start ∧ x.Covers (stop - 1) := by
  unfold Sentence.Covers
  omega

/-- A plain sentence of a filtered text lies in one sentence exactly if it is unbroken. -/
theorem exists_sentence_iff_unbroken (t : Text) (cfg : FilterConfig) (tokens : List Token)
    {s : Span} (hs : s ∈ Check.plainSentences (filterText t cfg).text) :
    (∃ x ∈ segment (filterText t cfg).text tokens (some (filterText t cfg).ranges),
        x.start ≤ s.start ∧ s.stop ≤ x.stop) ↔
      Unbroken (filterText t cfg).text (filterText t cfg).ranges s.start s.stop := by
  obtain ⟨piece, hpiece, htrim⟩ := List.mem_filterMap.mp hs
  have hbounds := Text.bounds_of_trimSpan? htrim
  obtain ⟨hfirst, hlast⟩ := Text.visibleAt_of_trimSpan? htrim
  have hsegmented := segment_exact (filterText t cfg).text tokens (some (filterText t cfg).ranges)
  rw [exists_congr fun x => and_congr_right fun _ => x.covers_ends_iff hbounds.2.1]
  rcases Nat.lt_or_ge s.start (s.stop - 1) with hlt | hge
  · rw [hsegmented.together _ _ hlt hfirst hlast]
    constructor
    · intro hwhole
      refine ⟨fun b hb hinside => hwhole ?_, fun k hlow hhigh hblank => hwhole ?_⟩
      · exact .atBreak hb hinside.1 (by omega) (not_insideRun_of_filterText hb (by omega))
      · have hne : k ≠ s.stop - 1 := fun h => not_visibleAt_of_lineFeed (h ▸ hblank.1) hlast
        exact .blankLine hlow (by omega) hblank
    · intro hunbroken hseparated
      cases hseparated with
      | terminator hik hkj hk hend =>
          exact hend (Check.terminatorAt_of_mem_plainSentences hs hk hik (by omega) (by omega))
      | atBreak hb hib hbj _ => exact hunbroken.noBreak _ hb ⟨hib, by omega⟩
      | blankLine hik hkj hk => exact hunbroken.noBlankLine _ hik (by omega) hk
  · -- one character is crossed by nothing
    obtain ⟨x, ⟨hx, hxcovers⟩, _⟩ := hsegmented.covered s.start hfirst
    have hone : s.stop - 1 = s.start := by omega
    refine iff_of_true ⟨x, hx, hxcovers, hone ▸ hxcovers⟩
      ⟨fun b _ hinside => ?_, fun k hlow _ => ?_⟩
    · omega
    · omega

/-! ## Checks by plain sentences -/

namespace Check

def ReadsPlainly (c : Check) : Prop := c = .missingSubject ∨ c = .adverbAgreement

theorem ReadsPlainly.exists_plainSentence {c : Check} (hc : c.ReadsPlainly) {ctx : Context}
    {fs : List Finding} (hfs : c.findings? ctx = some fs) {f : Finding} (hf : f ∈ fs) :
    ∃ s ∈ plainSentences ctx.text, f.start = s.start ∧ f.stop = s.stop := by
  rcases hc with rfl | rfl
  · obtain ⟨s, hs, rfl⟩ := List.mem_map.mp (Option.some.inj hfs ▸ hf)
    exact ⟨s, (List.mem_filter.mp hs).1, rfl, rfl⟩
  · obtain ⟨s, hs, hf⟩ := List.mem_flatMap.mp (Option.some.inj hfs ▸ hf)
    obtain ⟨a, _, hreport⟩ := List.mem_filterMap.mp hf
    obtain ⟨actual, _, rfl⟩ := Option.map_eq_some_iff.mp hreport
    exact ⟨s, hs, rfl, rfl⟩

/-- A diagnostic of a check by plain sentences has the range of a plain sentence. -/
theorem ReadsPlainly.exists_range {c : Check} (hc : c.ReadsPlainly) {ctx : Context}
    (hindex : ctx.index = LineIndex.ofText ctx.text) {d : Diagnostic}
    (hd : d ∈ Engine.diagnosticsOf ctx c.rule) :
    ∃ s ∈ plainSentences ctx.text, d.range = ctx.index.rangeAt s.start s.stop := by
  obtain ⟨fs, hfs, f, hf, rfl⟩ := Engine.mem_diagnosticsOf_check.mp hd
  obtain ⟨s, hs, hstart, hstop⟩ := hc.exists_plainSentence hfs hf
  have hwithin := (marks_of_mem_plainSentences hs).within
  have hle : s.start ≤ ctx.text.length := Nat.le_trans hwithin.ordered hwithin.bounded
  have hraw : c.rangeOf ctx.index f = .ofOffsets s.start s.stop := by
    rw [← hstart, ← hstop]
    rcases hc with rfl | rfl <;> rfl
  refine ⟨s, hs, ?_⟩
  show ctx.index.normalise (c.rangeOf ctx.index f) = _
  rw [hraw, hindex, LineIndex.normalise_ofOffsets hle hwithin.bounded]

end Check

namespace Proofreader

variable {p : Prepared} {tokens : List Token} {cfg : RulesConfig} {d : Diagnostic}

/-- Every diagnostic of built-in checks comes from the check of its code. -/
theorem mem_diagnosticsOf_of_mem_foundByChecks {cs : List Check} {names : Option (List String)}
    (hd : d ∈ foundByChecks cs p tokens cfg names) {c : Check} (hcode : d.code = c.code) :
    d ∈ Engine.diagnosticsOf (p.context tokens cfg) c.rule := by
  obtain ⟨c', _, hd⟩ := List.mem_flatMap.mp hd
  obtain ⟨f, range, hshape⟩ := Check.exists_finding_of_mem_diagnosticsOf hd
  obtain rfl : c' = c := Check.code_injective (by rw [← hcode, hshape]; rfl)
  exact hd

theorem mem_foundByChecks_of_chosen {cs : List Check} {names : List String}
    (hd : d ∈ foundByChecks cs p tokens cfg (some names)) :
    d ∈ foundByChecks cs p tokens cfg none := by
  obtain ⟨c, hc, hd⟩ := List.mem_flatMap.mp hd
  obtain ⟨hc, hon, _⟩ := Check.mem_running.mp hc
  exact List.mem_flatMap.mpr ⟨c, Check.mem_running.mpr ⟨hc, hon, nofun⟩, hd⟩

end Proofreader

/-- The filter is given the text itself, or the prose of its comments. -/
theorem exists_filtered_eq (t : Text) (language : String) (cfg : FilterConfig) :
    ∃ u, (prepare t language cfg).filtered = filterText u cfg := by
  rw [prepare]
  split
  · exact ⟨_, rfl⟩
  · exact ⟨_, rfl⟩

/-- A diagnostic about a missing subject or an adverb has the range of a stretch of the filtered
text in which closing marks stand only at the end.  It lies in one sentence exactly if neither a
structural break nor a blank line stands inside it. -/
theorem plain_diagnostic_within_sentence_iff (t : Text) (language : String) (settings : Settings)
    (base : RulesConfig) (names : Option (List String)) (tokens : List Token) :
    let p := prepare t language settings.filter
    let f := p.filtered
    let sentences := segment f.text (keepTokens tokens f.ranges) (some f.ranges)
    ∃ ds, Proofreader.diagnostics ⟨settings, .builtIn base, names⟩ p tokens = .ok ds ∧
      ∀ d ∈ ds, d.code = "missing-subject" ∨ d.code = "adverb-agreement" →
        ∃ start stop : Nat, start < stop ∧ stop ≤ f.text.length ∧
          d.range = (LineIndex.ofText f.text).rangeAt start stop ∧
          (∀ i j, start ≤ i → i ≤ j → j < stop → TerminatorAt f.text i → TerminatorAt f.text j) ∧
          ((∃ s ∈ sentences, s.start ≤ start ∧ stop ≤ s.stop) ↔
            Unbroken f.text f.ranges start stop) := by
  intro p f sentences
  refine ⟨_, Proofreader.diagnostics_ofChecks .., fun d hd hcode => ?_⟩
  obtain ⟨u, hu⟩ := exists_filtered_eq t language settings.filter
  obtain ⟨c, hplain, hc⟩ : ∃ c : Check, c.ReadsPlainly ∧ d.code = c.code := by
    rcases hcode with hcode | hcode
    · exact ⟨.missingSubject, Or.inl rfl, hcode⟩
    · exact ⟨.adverbAgreement, Or.inr rfl, hcode⟩
  obtain ⟨s, hs, hrange⟩ :=
    hplain.exists_range rfl (Proofreader.mem_diagnosticsOf_of_mem_foundByChecks hd hc)
  replace hs : s ∈ Check.plainSentences f.text := hs
  have hbounds : s.start < s.stop ∧ s.stop ≤ f.text.length := by
    obtain ⟨piece, _, htrim⟩ := List.mem_filterMap.mp hs
    exact ⟨(Text.bounds_of_trimSpan? htrim).2.1, (Text.bounds_of_trimSpan? htrim).2.2.2⟩
  refine ⟨s.start, s.stop, hbounds.1, hbounds.2, hrange, fun i j hlow hij hj hi =>
    Check.terminatorAt_of_mem_plainSentences hs hi hlow hij hj, ?_⟩
  show (∃ x ∈ segment f.text _ (some f.ranges), _) ↔ Unbroken f.text f.ranges _ _
  rw [show f = filterText u settings.filter from hu] at hs ⊢
  exact exists_sentence_iff_unbroken u settings.filter _ hs

/-- What the default filter keeps of a text whose accepted ranges are in order. -/
theorem filterText_of_accepted {t : Text} {rs : List ExcludedRange}
    (haccepted : (Detection.runWith t (fun k => k ≠ .debugMode) []).accepted = rs)
    (hsorted : rs.mergeSort Detection.startsBefore = rs) :
    (filterText t {}).ranges = rs ∧ (filterText t {}).text = mask t rs := by
  have hranges : (filterText t {}).ranges = rs := by
    rw [filterText, Detection.run?, List.mapM_nil]
    exact (congrArg (List.mergeSort · Detection.startsBefore) haccepted).trans hsorted
  have htext : (filterText t {}).text = mask t (filterText t {}).ranges := rfl
  exact ⟨hranges, by rw [htext, hranges]⟩

/-- An adverb and the ending that it forbids, in one sentence. -/
theorem plain_diagnostic_within_sentence_iff_adverb :
    let p := prepare "全くします。".toList "markdown" {}
    ∃ ds, Proofreader.diagnostics ⟨{}, .builtIn {}, some ["adverb-agreement"]⟩ p [] = .ok ds ∧
      ∃ d ∈ ds, d.code = "adverb-agreement" ∧
        ∃ start stop : Nat, start < stop ∧
          d.range = (LineIndex.ofText p.filtered.text).rangeAt start stop ∧
          ((∃ s ∈ segment p.filtered.text (keepTokens [] p.filtered.ranges)
              (some p.filtered.ranges), s.start ≤ start ∧ stop ≤ s.stop) ↔
            Unbroken p.filtered.text p.filtered.ranges start stop) := by
  intro p
  have haccepted : (Detection.runWith "全くします。".toList (fun k => k ≠ .debugMode) []).accepted =
      [] := by decide +kernel
  obtain ⟨hranges, htext⟩ := filterText_of_accepted haccepted List.mergeSort_nil
  have hfound : "adverb-agreement" ∈
      (Proofreader.foundByChecks Check.all p [] {} (some ["adverb-agreement"])).map (·.code) := by
    show _ ∈ ((Check.running _ _ _).flatMap fun c =>
      Engine.diagnosticsOf (.of (filterText _ {}).text _
        (segment (filterText _ {}).text _ (some (filterText _ {}).ranges)) _) c.rule).map _
    rw [hranges, htext]
    decide +kernel
  obtain ⟨d, hd, hcode⟩ := List.mem_map.mp hfound
  have hdiagnostics := Proofreader.diagnostics_ofChecks {} {} Check.all
    (some ["adverb-agreement"]) p []
  obtain ⟨ds, hds, hall⟩ := plain_diagnostic_within_sentence_iff "全くします。".toList "markdown"
    {} {} (some ["adverb-agreement"]) []
  obtain rfl := Except.ok.inj (hdiagnostics.symm.trans hds)
  obtain ⟨start, stop, hlt, _, hrange, _, hiff⟩ := hall d hd (Or.inr hcode)
  exact ⟨_, hds, d, hd, hcode, start, stop, hlt, hrange, hiff⟩

/-- An adverb in a heading is judged together with the ending of the next line, though they stand
in two sentences. -/
theorem plain_diagnostic_crosses_heading :
    let p := prepare "# 全く\nします。".toList "markdown" {}
    (∃ ds, Proofreader.diagnostics ⟨{}, .builtIn {}, none⟩ p [] = .ok ds ∧
        ∃ d ∈ ds, d.code = "adverb-agreement" ∧
          d.range = (LineIndex.ofText p.filtered.text).rangeAt 2 9) ∧
      ∀ s ∈ segment p.filtered.text (keepTokens [] p.filtered.ranges) (some p.filtered.ranges),
        ¬(s.start ≤ 2 ∧ 9 ≤ s.stop) := by
  intro p
  have haccepted : (Detection.runWith "# 全く\nします。".toList
      (fun k => k ≠ .debugMode) []).accepted =
        [⟨0, 2, .heading, "# ".toList, "マークダウン見出しマーカー検出"⟩] := by decide +kernel
  obtain ⟨hranges, htext⟩ := filterText_of_accepted haccepted (List.mergeSort_singleton _)
  constructor
  · have hfound : ("adverb-agreement", (LineIndex.ofText p.filtered.text).rangeAt 2 9) ∈
        (Proofreader.foundByChecks Check.all p [] {} (some ["adverb-agreement"])).map
          fun d => (d.code, d.range) := by
      show (_, (LineIndex.ofText (filterText _ {}).text).rangeAt 2 9) ∈
        ((Check.running _ _ _).flatMap fun c => Engine.diagnosticsOf
          (.of (filterText _ {}).text _
            (segment (filterText _ {}).text _ (some (filterText _ {}).ranges)) _) c.rule).map _
      rw [hranges, htext]
      decide +kernel
    obtain ⟨d, hd, hd'⟩ := List.mem_map.mp hfound
    obtain ⟨hcode, hrange⟩ := Prod.mk.inj hd'
    exact ⟨_, Proofreader.diagnostics_ofChecks .., d, Proofreader.mem_foundByChecks_of_chosen hd, hcode,
      hrange⟩
  · show ∀ s ∈ segment (filterText _ {}).text (keepTokens [] (filterText _ {}).ranges)
      (some (filterText _ {}).ranges), _
    rw [hranges, htext]
    decide +kernel

end Kouetsu
