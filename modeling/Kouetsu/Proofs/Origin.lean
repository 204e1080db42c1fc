import Kouetsu.Proofs.Engine
import Kouetsu.Proofs.Exclusion.Filter
import Kouetsu.Proofs.Proofreading
/-!
# Where issues come from

Every issue of a document of prose comes from a finding of a check.  It has the range of the
offsets of the finding, which starts outside tables.
-/

namespace Kouetsu

structure Check.Gives (ctx : Context) (c : Check) (f : Finding) (d : Diagnostic) : Prop where
  found : ∃ fs, c.findings? ctx = some fs ∧ f ∈ fs
  within : f.Within ctx.text
  code : d.code = c.code
  range : d.range = ctx.index.rangeAt f.start f.stop

namespace Check

variable {ctx : Context} {c : Check} {f : Finding} {d : Diagnostic}

theorem normalise_rangeOf (hctx : ctx.Fits) (hindex : ctx.index = LineIndex.ofText ctx.text)
    {fs : List Finding} (hfs : c.findings? ctx = some fs) (hf : f ∈ fs) :
    ctx.index.normalise (c.diagnostic ctx.index f).range = ctx.index.rangeAt f.start f.stop := by
  have hwithin := within_findings? hctx hfs hf
  have hstart := Int.toNat_of_nonneg hwithin.nonneg
  have hstop := Int.toNat_of_nonneg (hwithin.nonneg.trans hwithin.ordered)
  have hreports : c.rule.Reports ctx (c.diagnostic ctx.index f) f.start.toNat f.stop.toNat :=
    .check hfs hf hstart.symm hstop.symm
  have hrange := hreports.normalise_range hctx hindex
  rwa [hstart, hstop] at hrange

theorem exists_gives (hctx : ctx.Fits) (hindex : ctx.index = LineIndex.ofText ctx.text)
    (hd : d ∈ Engine.diagnosticsOf ctx c.rule) : ∃ f, c.Gives ctx f d := by
  obtain ⟨fs, hfs, f, hf, rfl⟩ := Engine.mem_diagnosticsOf_check.mp hd
  exact ⟨f, ⟨fs, hfs, hf⟩, within_findings? hctx hfs hf, rfl,
    normalise_rangeOf hctx hindex hfs hf⟩

theorem exists_diagnostic (hctx : ctx.Fits) (hindex : ctx.index = LineIndex.ofText ctx.text)
    {fs : List Finding} (hfs : c.findings? ctx = some fs) (hf : f ∈ fs) :
    ∃ d ∈ Engine.diagnosticsOf ctx c.rule, c.Gives ctx f d := by
  refine ⟨{ c.diagnostic ctx.index f with range := ctx.index.rangeAt f.start f.stop }, ?_,
    ⟨fs, hfs, hf⟩, within_findings? hctx hfs hf, rfl, rfl⟩
  refine Engine.mem_diagnosticsOf_check.mpr ⟨fs, hfs, f, hf, ?_⟩
  rw [normalise_rangeOf hctx hindex hfs hf]

end Check

/-! ## Documents of prose -/

def proseContext (t : Text) (tokens : List Token) (settings : Settings) : Context :=
  (Prepared.mk t (filterText t settings.filter) none).context tokens settings.rules

/-- An issue of a document of prose with the finding of a check that it comes from. -/
structure Issue.ComesFrom (i : Issue) (t : Text) (tokens : List Token) (settings : Settings)
    (c : Check) (f : Finding) : Prop where
  found : ∃ fs, c.findings? (proseContext t tokens settings) = some fs ∧ f ∈ fs
  within : f.Within t
  code : i.diagnostic.code = c.code
  range : i.diagnostic.range = (LineIndex.ofText t).rangeAt f.start f.stop
  outside : ∀ r ∈ (filterText t settings.filter).ranges, r.kind = .table →
    ¬(r.start ≤ f.start ∧ f.start < r.stop)

theorem fits_proseContext {t : Text} {tokens : List Token} {settings : Settings}
    (hfit : TokensFit (filterText t settings.filter).text tokens) :
    (proseContext t tokens settings).Fits :=
  Context.fits_of (hfit.sublist List.filter_sublist) _ _

section

variable {t : Text} {language : String} {settings : Settings}
  {names : Option (List String)} {tokens : List Token} {file : Json.Node}

theorem prepare_of_prose (hprose : isCodeLanguage language = false) (cfg : FilterConfig) :
    prepare t language cfg = ⟨t, filterText t cfg, none⟩ := by
  rw [prepare, hprose, if_neg Bool.false_ne_true]

theorem rangeAt_filterText (cfg : FilterConfig) (start stop : Int) :
    (LineIndex.ofText (filterText t cfg).text).rangeAt start stop =
      (LineIndex.ofText t).rangeAt start stop := by
  have hlen := length_filterText t cfg
  have hstarts := lineStarts_filterText t cfg
  exact congrArg₂ Range.mk (LineIndex.positionAt_congr hlen hstarts start)
    (LineIndex.positionAt_congr hlen hstarts stop)

theorem Finding.Within.offsetAt_start {f : Finding} {u : Text} (h : f.Within u) :
    (LineIndex.ofText u).offsetAt ((LineIndex.ofText u).positionAt f.start) = f.start :=
  LineIndex.offsetAt_positionAt_of_le h.nonneg (h.ordered.trans h.bounded)

theorem Finding.Within.offsetAt_stop {f : Finding} {u : Text} (h : f.Within u) :
    (LineIndex.ofText u).offsetAt ((LineIndex.ofText u).positionAt f.stop) = f.stop :=
  LineIndex.offsetAt_positionAt_of_le (h.nonneg.trans h.ordered) h.bounded

theorem Finding.within_filterText_iff {f : Finding} {cfg : FilterConfig} :
    f.Within (filterText t cfg).text ↔ f.Within t := by
  have hlen := length_filterText t cfg
  constructor
  · rintro ⟨hnonneg, hordered, hbounded⟩
    exact ⟨hnonneg, hordered, hlen ▸ hbounded⟩
  · rintro ⟨hnonneg, hordered, hbounded⟩
    exact ⟨hnonneg, hordered, hlen.symm ▸ hbounded⟩

namespace Proofreader

theorem exists_comesFrom (hprose : isCodeLanguage language = false)
    (hfit : TokensFit (filterText t settings.filter).text tokens) {i : Issue}
    (hi : i ∈ (prepare t language settings.filter).issuesOf
      (foundByChecks Check.all (prepare t language settings.filter) tokens settings.rules names) file) :
    ∃ c f, i.ComesFrom t tokens settings c f := by
  rw [mem_issuesOf_foundByChecks, prepare_of_prose hprose] at hi
  obtain ⟨c, _, _, d, hfirst, rfl⟩ := hi
  obtain ⟨found, hfound, hlocate⟩ := List.mem_filterMap.mp (List.mem_of_find?_eq_some hfirst)
  obtain ⟨r, hshows, rfl⟩ := Prepared.locate?_eq_some.mp hlocate
  obtain ⟨f, hgives⟩ := Check.exists_gives (fits_proseContext hfit) rfl hfound
  refine ⟨c, f, hgives.found, Finding.within_filterText_iff.mp hgives.within, hgives.code, ?_,
    fun x hx htable => ?_⟩
  · show r = _
    rw [hshows.same rfl, hgives.range]
    exact rangeAt_filterText settings.filter f.start f.stop
  · have hout := hshows.outside x hx htable
    rw [hgives.range] at hout
    rwa [← hgives.within.offsetAt_start]

/-- Whatever a check that runs finds outside tables becomes an issue. -/
theorem exists_issue (hprose : isCodeLanguage language = false)
    (hfit : TokensFit (filterText t settings.filter).text tokens) {c : Check}
    (hruns : c.Runs settings.rules names) {fs : List Finding}
    (hfs : c.findings? (proseContext t tokens settings) = some fs) {f : Finding} (hf : f ∈ fs)
    (hout : ∀ r ∈ (filterText t settings.filter).ranges, r.kind = .table →
      ¬(r.start ≤ f.start ∧ f.start < r.stop)) :
    ∃ i ∈ (prepare t language settings.filter).issuesOf
      (foundByChecks Check.all (prepare t language settings.filter) tokens settings.rules names) file,
      i.ComesFrom t tokens settings c f := by
  obtain ⟨d, hd, hgives⟩ := Check.exists_diagnostic (fits_proseContext hfit) rfl hfs hf
  let p : Prepared := ⟨t, filterText t settings.filter, none⟩
  have hstart : p.prose.offsetAt d.range.start = f.start := by
    rw [hgives.range]
    exact hgives.within.offsetAt_start
  have hlocate : p.locate? p.prose d = some d := by
    refine Prepared.locate?_eq_some.mpr ⟨d.range, ⟨fun x hx htable => ?_, fun _ => rfl, ?_⟩, rfl⟩
    · rw [hstart]
      exact hout x hx htable
    · simp [p]
  have hshown : d ∈ p.shown (foundByChecks Check.all p tokens settings.rules names) := by
    rw [shown_foundByChecks, List.mem_flatMap]
    exact ⟨c, Check.mem_running.mpr ⟨Check.mem_all c, hruns⟩,
      List.mem_filterMap.mpr ⟨d, hd, hlocate⟩⟩
  obtain ⟨i, hi, hkey⟩ := Prepared.exists_mem_issuesOf.mpr ⟨d, hshown, rfl⟩
  have hrange : i.diagnostic.range = d.range := congrArg DiagnosticKey.range hkey
  have hcode : i.diagnostic.code = d.code := congrArg DiagnosticKey.code hkey
  refine ⟨i, ?_, ⟨fs, hfs, hf⟩, Finding.within_filterText_iff.mp hgives.within,
    hcode.trans hgives.code, ?_, hout⟩
  · rw [prepare_of_prose hprose]
    exact hi
  · rw [hrange, hgives.range]
    exact rangeAt_filterText settings.filter f.start f.stop

end Proofreader

end

end Kouetsu
