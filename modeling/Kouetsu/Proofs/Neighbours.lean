import Kouetsu.Proofs.Origin
import Kouetsu.Proofs.Token.Tiles
/-!
# Issues of neighbouring tokens

The checks of neighbouring tokens see a text without its excluded tokens.  What they report spans
two tokens with nothing but excluded ones between them; the two stand side by side in the text
exactly if no excluded range lies across the issue.
-/

namespace Kouetsu

theorem Check.exists_pair {ctx : Context} {c : Check} (hc : c.isPairwise = true)
    {fs : List Finding} (hfs : c.findings? ctx = some fs) {f : Finding} (hf : f ∈ fs) :
    ∃ first second, (first, second) ∈ ctx.tokens.zip ctx.tokens.tail ∧ f.start = first.start ∧
      f.stop = second.stop := by
  have hpair : ∃ fault?, fs = pairFindings fault? ctx.tokens := by
    cases c with
    | doubleParticle => exact ⟨_, (Option.some.inj hfs).symm⟩
    | particleSequence => exact ⟨_, (Option.some.inj hfs).symm⟩
    | verbParticleMismatch => exact ⟨_, (Option.some.inj hfs).symm⟩
    | redundantCopula => exact ⟨_, (Option.some.inj hfs).symm⟩
    | _ => simp [isPairwise] at hc
  obtain ⟨fault?, rfl⟩ := hpair
  obtain ⟨⟨first, second⟩, hmem, hfault⟩ := List.mem_filterMap.mp hf
  obtain ⟨fault, _, rfl⟩ := Option.map_eq_some_iff.mp hfault
  exact ⟨first, second, hmem, rfl, rfl⟩

structure Issue.OfPair (i : Issue) (t : Text) (tokens : List Token) (ranges : List ExcludedRange)
    (first second : Token) : Prop where
  neighbours : Neighbours tokens ranges first second
  range : i.diagnostic.range = (LineIndex.ofText t).rangeAt first.start second.stop
  touch_iff : first.stop = second.start ↔
    ∀ r ∈ ranges, r.overlaps first.start second.stop = false

/-- Whatever is said of two tokens holds of tokens that touch, unless an excluded range lies across
it. -/
theorem checkText_pairs {ε : Type} {t : Text} {language : String}
    (hprose : isCodeLanguage language = false) (settings : Settings) (base : RulesConfig)
    (names : Option (List String)) (file : Json.Node) {tokens : List Token}
    (htiles : Tiles 0 (filterText t settings.filter).text.length tokens) :
    let check : Except (TextError ε) (List Issue) :=
      Proofreader.checkText ⟨settings, .builtIn base, names⟩ t language file fun _ => .ok tokens
    ∃ is, check = .ok is ∧
      ∀ i ∈ is, ∀ c : Check, c.isPairwise = true → i.diagnostic.code = c.code →
        ∃ first second, i.OfPair t tokens (filterText t settings.filter).ranges first second := by
  intro check
  refine ⟨_, Proofreader.checkText_builtIn .., fun i hi c hc hcode => ?_⟩
  obtain ⟨c', f, hfrom⟩ := Proofreader.exists_comesFrom hprose htiles.fit hi
  obtain rfl := Check.code_injective (hfrom.code.symm.trans hcode)
  obtain ⟨fs, hfs, hf⟩ := hfrom.found
  obtain ⟨first, second, hmem, hstart, hstop⟩ := Check.exists_pair hc hfs hf
  have hneighbours := neighbours_of_mem_zip_tail hmem
  refine ⟨first, second, hneighbours, by rw [hfrom.range, hstart, hstop], ?_⟩
  rw [hneighbours.touch_iff htiles]
  exact forall₂_congr fun r hr => forall_prop_of_true (within_of_mem_filterText hr).2.1

/-- Two particles that touch. -/
theorem checkText_pairs_touching :
    let t := "がが".toList
    let tokens : List Token :=
      [{ surface := "が", pos := "助詞", stop := 1 },
        { surface := "が", pos := "助詞", start := 1, stop := 2 }]
    let check : Except (TextError MorphologyError) (List Issue) :=
      Proofreader.checkText ⟨{}, .builtIn {}, none⟩ t "markdown" .null fun _ => .ok tokens
    isCodeLanguage "markdown" = false ∧ Tiles 0 (filterText t {}).text.length tokens ∧
      ∃ is, check = .ok is ∧
        ∀ i ∈ is, i.diagnostic.code = "double-particle" →
          ∃ first second, i.OfPair t tokens (filterText t {}).ranges first second := by
  intro t tokens check
  have hprose : isCodeLanguage "markdown" = false := by decide
  have htiles : Tiles 0 (filterText t {}).text.length tokens := by
    rw [length_filterText]
    exact .cons rfl (by decide) (.cons rfl (by decide) (.nil 2))
  obtain ⟨is, his, hpairs⟩ := checkText_pairs hprose {} {} none .null htiles
  exact ⟨hprose, htiles, is, his, fun i hi hcode => hpairs i hi .doubleParticle rfl hcode⟩

/-- Particles on both sides of inline code are reported as doubled. -/
theorem checkText_pairs_across :
    let t := "これが`x`が".toList
    let tokens : List Token :=
      [{ surface := "これ", pos := "名詞", stop := 2 },
        { surface := "が", pos := "助詞", start := 2, stop := 3 },
        { surface := "   ", pos := "記号", start := 3, stop := 6 },
        { surface := "が", pos := "助詞", start := 6, stop := 7 }]
    let check : Except (TextError MorphologyError) (List Issue) :=
      Proofreader.checkText ⟨{}, .builtIn {}, none⟩ t "markdown" .null fun _ => .ok tokens
    Tiles 0 (filterText t {}).text.length tokens ∧
      ∃ is, check = .ok is ∧
        ∃ i ∈ is, i.diagnostic.code = "double-particle" ∧
          i.diagnostic.range = ⟨⟨0, 2⟩, ⟨0, 7⟩⟩ ∧
            ∃ r ∈ (filterText t {}).ranges, r.start = 3 ∧ r.stop = 6 ∧ r.kind = .inlineCode := by
  intro t tokens check
  have htiles : Tiles 0 (filterText t {}).text.length tokens := by
    rw [length_filterText]
    exact .cons rfl (by decide) (.cons rfl (by decide) (.cons rfl (by decide)
      (.cons rfl (by decide) (.nil 7))))
  let code : ExcludedRange := ⟨3, 6, .inlineCode, "`x`".toList, "インラインコード検出"⟩
  have hranges : (filterText t {}).ranges = [code] := by
    let d := Detection.runWith t ({} : FilterConfig).switches []
    have hrun : Detection.run? t {} = some d := rfl
    have haccepted : d.accepted = [code] := by decide +kernel
    rw [filterText, hrun]
    show d.accepted.mergeSort _ = _
    rw [haccepted, List.mergeSort_singleton]
  have hfound : ∃ fs, Check.doubleParticle.findings? (proseContext t tokens {}) = some fs ∧
      ∃ f ∈ fs, f.start = 2 ∧ f.stop = 7 := by
    have hkept : (proseContext t tokens {}).tokens = keepTokens tokens [code] := by
      rw [← hranges]
      rfl
    rw [Check.findings?, hkept]
    refine ⟨_, rfl, ?_⟩
    decide
  obtain ⟨fs, hfs, f, hf, hstart, hstop⟩ := hfound
  have hout : ∀ r ∈ (filterText t {}).ranges, r.kind = .table →
      ¬(r.start ≤ f.start ∧ f.start < r.stop) := by
    intro r hr htable
    rw [hranges] at hr
    rw [List.mem_singleton.mp hr] at htable
    exact absurd htable (by decide)
  obtain ⟨i, hi, hfrom⟩ := @Proofreader.exists_issue t "markdown" {} none tokens .null
    (by decide) htiles.fit _ ⟨rfl, by simp⟩ _ hfs _ hf hout
  have hcode : code ∈ (filterText t {}).ranges := hranges ▸ List.mem_singleton_self code
  refine ⟨htiles, _, Proofreader.checkText_builtIn .., i, hi, hfrom.code, ?_, code, hcode, rfl, rfl,
    rfl⟩
  rw [hfrom.range, hstart, hstop]
  decide

end Kouetsu
