import Kouetsu.Proofs.Config.Rules
import Kouetsu.Proofs.Origin
import Kouetsu.Proofs.Rule.Spelling
import Kouetsu.Proofs.Token.Tiles
/-!
# Issues outside excluded ranges

Whatever is visible in a filtered text was not blanked, and a kept token starts outside every range.
A finding spans one or the other, so no issue lies in blanked text alone.
-/

namespace Kouetsu

/-! ## Findings -/

def Text.IsVisible (t : Text) : Prop := ∃ i, t.VisibleAt i

theorem Dictionary.isVisible_of_mem {d : Dictionary} {x : String × String} (hx : x ∈ d.terms) :
    Text.IsVisible x.1.toList := by
  have htable : d.terms.map (·.1) ∈ phraseTables := by
    cases d <;> simp [phraseTables, Dictionary.terms]
  exact ⟨0, visibleAt_of_mem_phraseTables htable (List.mem_map.mpr ⟨x, hx, rfl⟩)⟩

theorem RulesConfig.isVisible_of_mem_terms {cfg : RulesConfig}
    (hcustom : ∀ x ∈ cfg.customTerms, Text.IsVisible x.1.toList) {x : String × String}
    (hx : x ∈ cfg.terms) : Text.IsVisible x.1.toList := by
  rcases mem_terms hx with hx | ⟨d, hx⟩
  · exact hcustom x hx
  · exact d.isVisible_of_mem hx

theorem Finding.Grounded.visible_or_token {ctx : Context} (hctx : ctx.Fits)
    (hlimit : 0 < ctx.config.limits .passiveOveruse)
    (hcustom : ∀ x ∈ ctx.config.customTerms, Text.IsVisible x.1.toList) {f : Finding}
    (h : f.Grounded ctx) :
    f.Visible ctx.text ∨ ∃ k ∈ ctx.tokens, f.start ≤ k.start ∧ k.stop ≤ f.stop := by
  cases h with
  | marks h => exact Or.inl h.visible
  | tokens h => exact Or.inr (h.within_and_exists_token hctx.tokens).2
  | term h =>
      obtain ⟨x, hx, _, s, hs, rfl⟩ := Check.mem_termSpellings.mp h
      obtain ⟨k, hk⟩ := RulesConfig.isVisible_of_mem_terms hcustom hx
      exact Or.inl ((Check.visible_of_mem_termSpans hk hs).finding _ _)
  | passives h =>
      obtain ⟨hstart, hstop, hcount⟩ := h
      obtain ⟨i, hi⟩ := Check.exists_visibleAt_of_passiveCount (Nat.lt_of_lt_of_le hlimit hcount)
      have hlt := hi.lt_length
      exact Or.inl ⟨i, hi, by omega, by omega⟩

/-! ## Filtered texts -/

theorem not_blanked_of_visibleAt {t : Text} {cfg : FilterConfig} {i : Nat}
    (h : (filterText t cfg).text.VisibleAt i) : ¬Blanked (filterText t cfg).ranges i := by
  have hexact := filterText_exact t cfg
  split at hexact
  · rw [hexact]
    rintro ⟨r, hr, _⟩
    exact List.not_mem_nil hr
  · obtain ⟨hranges, hmasked, _⟩ := hexact
    intro hblank
    rw [hranges] at hblank
    obtain ⟨c, hc, hvisible⟩ := h
    have hlt : i < t.length := hmasked.length ▸ (List.getElem?_eq_some_iff.mp hc).1
    -- a blanked character is a space, a line feed stays one
    have hchar := hmasked.char i t[i] (List.getElem?_eq_getElem hlt)
    rw [hc, Option.some.injEq, if_pos hblank] at hchar
    have hspace : isBlank c = true := by
      rw [hchar]
      split <;> decide
    simp [hspace] at hvisible

theorem not_blanked_of_mem_keepTokens {t : Text} {cfg : FilterConfig} {tokens : List Token}
    {k : Token} (hk : k ∈ keepTokens tokens (filterText t cfg).ranges) (hne : k.start < k.stop) :
    ¬Blanked (filterText t cfg).ranges k.start := by
  rintro ⟨r, hr, _, hstart, hstop⟩
  have hkept := (List.mem_filter.mp hk).2
  have hwithin := within_of_mem_filterText hr
  have hexcluded : k.isExcluded (filterText t cfg).ranges = true := by
    refine isExcluded_iff.mpr ⟨r, hr, hwithin.2.1, ?_⟩
    simp only [ExcludedRange.overlaps, Bool.and_eq_true, decide_eq_true_eq]
    omega
  simp [hexcluded] at hkept

/-! ## Issues -/

/-- An issue over an offset that was not blanked, starting outside tables. -/
structure Issue.OutsideExcluded (i : Issue) (t : Text) (ranges : List ExcludedRange) : Prop where
  prose : ∃ o : Nat, (LineIndex.ofText t).offsetAt i.diagnostic.range.start ≤ o ∧
    o < (LineIndex.ofText t).offsetAt i.diagnostic.range.stop ∧ ¬Blanked ranges o
  table : ∀ r ∈ ranges, r.kind = .table →
    ¬(r.start ≤ (LineIndex.ofText t).offsetAt i.diagnostic.range.start ∧
      (LineIndex.ofText t).offsetAt i.diagnostic.range.start < r.stop)

theorem Issue.ComesFrom.outsideExcluded {i : Issue} {t : Text} {tokens : List Token}
    {settings : Settings} (hfit : TokensFit (filterText t settings.filter).text tokens)
    (hlimit : 0 < settings.rules.limits .passiveOveruse)
    (hcustom : ∀ x ∈ settings.rules.customTerms, Text.IsVisible x.1.toList) {c : Check}
    {f : Finding} (h : i.ComesFrom t tokens settings c f) :
    i.OutsideExcluded t (filterText t settings.filter).ranges := by
  have hctx := fits_proseContext hfit
  obtain ⟨fs, hfs, hf⟩ := h.found
  have hgrounded := (Check.grounded_findings? hctx hfs hf).visible_or_token hctx hlimit hcustom
  constructor
  · rw [h.range]
    simp only [LineIndex.rangeAt, h.within.offsetAt_start, h.within.offsetAt_stop]
    rcases hgrounded with ⟨o, ho, hstart, hstop⟩ | ⟨k, hk, hstart, hstop⟩
    · exact ⟨o, hstart, hstop, not_blanked_of_visibleAt ho⟩
    · have hne := hctx.tokens.nonempty k hk
      have hnonneg := hctx.tokens.nonneg k hk
      have hnot := not_blanked_of_mem_keepTokens hk hne
      rw [← Int.toNat_of_nonneg hnonneg] at hnot
      exact ⟨k.start.toNat, by omega, by omega, hnot⟩
  · rw [h.range]
    simp only [LineIndex.rangeAt, h.within.offsetAt_start]
    exact h.outside

/-- Nothing is said of excluded text alone, if it takes a passive to report too many of them. -/
theorem checkText_outsideExcluded {ε : Type} {t : Text} {language : String}
    (hprose : isCodeLanguage language = false) {settings : Settings}
    (hlimit : 0 < settings.rules.limits .passiveOveruse)
    (hcustom : ∀ x ∈ settings.rules.customTerms, Text.IsVisible x.1.toList) (base : RulesConfig)
    (names : Option (List String)) (file : Json.Node) {tokens : List Token}
    (htiles : tokens = [] ∨ Tiles 0 (filterText t settings.filter).text.length tokens) :
    let check : Except (TextError ε) (List Issue) :=
      Proofreader.checkText ⟨settings, .builtIn base, names⟩ t language file fun _ => .ok tokens
    ∃ is, check = .ok is ∧
      ∀ i ∈ is, i.OutsideExcluded t (filterText t settings.filter).ranges := by
  intro check
  have hfit : TokensFit (filterText t settings.filter).text tokens := by
    rcases htiles with rfl | htiles
    · exact ⟨by simp, by simp, by simp, .nil⟩
    · exact htiles.fit
  refine ⟨_, Proofreader.checkText_builtIn .., fun i hi => ?_⟩
  obtain ⟨c, f, hfrom⟩ := Proofreader.exists_comesFrom hprose hfit hi
  exact hfrom.outsideExcluded hfit hlimit hcustom

/-- Inline code before two particles, with a term of the user. -/
theorem checkText_outsideExcluded_code :
    let t := "`x`がが".toList
    let settings : Settings := { rules := RulesConfig.withTerms {} [("ねこ", "猫")] }
    let tokens : List Token :=
      [{ surface := "   ", pos := "記号", stop := 3 },
        { surface := "が", pos := "助詞", start := 3, stop := 4 },
        { surface := "が", pos := "助詞", start := 4, stop := 5 }]
    let check : Except (TextError MorphologyError) (List Issue) :=
      Proofreader.checkText ⟨settings, .builtIn {}, none⟩ t "markdown" .null fun _ => .ok tokens
    isCodeLanguage "markdown" = false ∧ 0 < settings.rules.limits .passiveOveruse ∧
      (∀ x ∈ settings.rules.customTerms, Text.IsVisible x.1.toList) ∧
        Tiles 0 (filterText t settings.filter).text.length tokens ∧
          ∃ is, check = .ok is ∧
            ∀ i ∈ is, i.OutsideExcluded t (filterText t settings.filter).ranges := by
  intro t settings tokens check
  have hprose : isCodeLanguage "markdown" = false := by decide
  have hlimit : 0 < settings.rules.limits .passiveOveruse := by decide
  have hcustom : ∀ x ∈ settings.rules.customTerms, Text.IsVisible x.1.toList := by
    intro x hx
    obtain rfl : x = ("ねこ", "猫") := List.mem_singleton.mp hx
    exact ⟨0, 'ね', rfl, by decide⟩
  have htiles : Tiles 0 (filterText t settings.filter).text.length tokens := by
    rw [length_filterText]
    exact .cons rfl (by decide) (.cons rfl (by decide) (.cons rfl (by decide) (.nil 5)))
  exact ⟨hprose, hlimit, hcustom, htiles,
    checkText_outsideExcluded hprose hlimit hcustom {} none .null (Or.inr htiles)⟩

/-- With a limit of none, inline code alone holds too many passives. -/
theorem checkText_passiveLimit_zero :
    let t := "`x`".toList
    let settings : Settings :=
      { rules := { limits := fun l => if l = .passiveOveruse then 0 else l.initial } }
    let check : Except (TextError MorphologyError) (List Issue) :=
      Proofreader.checkText ⟨settings, .builtIn {}, none⟩ t "markdown" .null fun _ => .ok []
    settings.rules.customTerms = [] ∧
      ∃ is, check = .ok is ∧ ∃ i ∈ is, i.diagnostic.code = "passive-overuse" ∧
        i.diagnostic.range = ⟨⟨0, 0⟩, ⟨0, 3⟩⟩ ∧
          ¬i.OutsideExcluded t (filterText t settings.filter).ranges := by
  intro t settings check
  let code : ExcludedRange := ⟨0, 3, .inlineCode, t, "インラインコード検出"⟩
  have hranges : (filterText t settings.filter).ranges = [code] := by
    let d := Detection.runWith t settings.filter.switches []
    have hrun : Detection.run? t settings.filter = some d := rfl
    have haccepted : d.accepted = [code] := by decide +kernel
    rw [filterText, hrun]
    show d.accepted.mergeSort _ = _
    rw [haccepted, List.mergeSort_singleton]
  have hfound : ∃ fs, Check.passiveOveruse.findings? (proseContext t [] settings) = some fs ∧
      ∃ f ∈ fs, f.start = 0 ∧ f.stop = 3 := by
    refine ⟨_, rfl, ?_⟩
    decide +kernel
  obtain ⟨fs, hfs, f, hf, hstart, hstop⟩ := hfound
  have hout : ∀ r ∈ (filterText t settings.filter).ranges, r.kind = .table →
      ¬(r.start ≤ f.start ∧ f.start < r.stop) := by
    intro r hr htable
    rw [hranges] at hr
    rw [List.mem_singleton.mp hr] at htable
    exact absurd htable (by decide)
  obtain ⟨i, hi, hfrom⟩ := @Proofreader.exists_issue t "markdown" settings none [] .null
    (by decide) ⟨by simp, by simp, by simp, .nil⟩ _ ⟨rfl, by simp⟩ _ hfs _ hf hout
  have hrange : i.diagnostic.range = ⟨⟨0, 0⟩, ⟨0, 3⟩⟩ := by
    rw [hfrom.range, hstart, hstop]
    decide
  refine ⟨rfl, _, Proofreader.checkText_builtIn .., i, hi, hfrom.code, hrange, ?_⟩
  rintro ⟨⟨o, _, ho, hprose⟩, _⟩
  rw [hrange] at ho
  have hlt : (o : Int) < 3 := ho
  refine hprose ⟨code, hranges ▸ List.mem_singleton_self code, by decide, ?_, hlt⟩
  exact Int.natCast_nonneg o

end Kouetsu
