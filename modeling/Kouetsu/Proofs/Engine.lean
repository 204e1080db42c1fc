import Kouetsu.Engine
import Kouetsu.Proofs.Entries
import Kouetsu.Proofs.Rule.Basic
import Kouetsu.Proofs.Traverse
/-!
# Ranges of diagnostics

An engine with the built-in checks and rules of users answers the positions of the offsets that
its rules mean.
-/

namespace Kouetsu

namespace Engine

/-! ## Registered rules -/

def Standard (e : Engine) : Prop :=
  ∀ x ∈ e.rules, (∃ c : Check, x.2 = c.rule) ∨ ∃ p : PatternRule, x.2 = p.rule

theorem standard_builtIn (cfg : RulesConfig) : (builtIn cfg).Standard := by
  intro x hx
  obtain ⟨c, _, rfl⟩ := List.mem_map.mp hx
  exact Or.inl ⟨c, rfl⟩

def registerAll (e : Engine) (ps : List PatternRule) : Except RegisterError Engine :=
  ps.foldlM (fun e p => e.register p.rule) e

/-- Registering adds nothing but the rules, and leaves the settings alone. -/
theorem of_registerAll {e e' : Engine} {ps : List PatternRule} (he' : e.registerAll ps = .ok e') :
    e'.config = e.config ∧ ∀ x ∈ e'.rules, x ∈ e.rules ∨ ∃ p ∈ ps, x = (p.name, p.rule) := by
  refine foldlM_invariant_ok (P := fun e' : Engine => e'.config = e.config ∧
    ∀ x ∈ e'.rules, x ∈ e.rules ∨ ∃ p ∈ ps, x = (p.name, p.rule)) he' ⟨rfl, fun x hx => Or.inl hx⟩ ?_
  rintro before p after ⟨hconfig, hrules⟩ hp hafter
  rw [register] at hafter
  split at hafter
  · simp at hafter
  · rw [← Except.ok.inj hafter]
    refine ⟨hconfig, fun x hx => ?_⟩
    rcases Entries.mem_insert hx with rfl | hx
    · exact Or.inr ⟨p, hp, rfl⟩
    · exact hrules x hx

theorem Standard.registerAll {e e' : Engine} (h : e.Standard) {ps : List PatternRule}
    (he' : e.registerAll ps = .ok e') : e'.Standard := by
  intro x hx
  rcases (of_registerAll he').2 x hx with hx | ⟨p, _, rfl⟩
  · exact h x hx
  · exact Or.inr ⟨p, rfl⟩

/-! ## Rules in turn -/

/-- A rule that always tells whether it is on and leaves every document as it is. -/
structure Harmless (r : Rule) : Prop where
  tells : ∀ cfg, (r.isOn? cfg).isSome = true
  leaves : ∀ ctx, (r.run ctx).left = ctx

theorem harmless_check (c : Check) : Harmless c.rule := by
  refine ⟨fun cfg => rfl, fun ctx => ?_⟩
  show (c.run ctx).left = ctx
  rw [Check.run]
  split <;> rfl

theorem harmless_pattern (p : PatternRule) : Harmless p.rule := ⟨fun _ => rfl, fun _ => rfl⟩

theorem Standard.harmless {e : Engine} (h : e.Standard) {r : Rule} (hr : r ∈ e.rules.map (·.2)) :
    Harmless r := by
  obtain ⟨x, hx, rfl⟩ := List.mem_map.mp hr
  rcases h x hx with ⟨c, hc⟩ | ⟨p, hp⟩
  · exact hc ▸ harmless_check c
  · exact hp ▸ harmless_pattern p

def diagnosticsOf (ctx : Context) (r : Rule) : List Diagnostic := placed ctx.index (r.run ctx)

/-- The rules that say that they are on and that a choice of names lets through. -/
def running (e : Engine) (cfg : RulesConfig) (names : Option (List String)) : List Rule :=
  (e.rules.map (·.2)).filter fun r => isChosen names r && r.isEnabled cfg

theorem runInTurn_eq_flatMap {ctx : Context} {rs : List Rule}
    (h : ∀ r ∈ rs, (r.run ctx).left = ctx) :
    runInTurn ctx.index rs ctx = rs.flatMap (diagnosticsOf ctx) := by
  induction rs with
  | nil => rfl
  | cons r rs ih =>
      obtain ⟨hr, hrs⟩ := List.forall_mem_cons.mp h
      rw [runInTurn, hr, ih hrs, List.flatMap_cons, diagnosticsOf]

section

variable {e : Engine} {cfg : RulesConfig}

theorem enabledRules_eq_ok (h : ∀ r ∈ e.rules.map (·.2), (r.isOn? cfg).isSome = true) :
    e.enabledRules cfg = .ok ((e.rules.map (·.2)).filter (·.isEnabled cfg)) := by
  have hfind : (e.rules.map (·.2)).find? (fun r => (r.isOn? cfg).isNone) = none :=
    List.find?_eq_none.mpr fun r hr => by simp [Option.isSome_iff_ne_none.mp (h r hr)]
  simp only [enabledRules, hfind]

theorem enabledRules_eq_error {r : Rule}
    (h : (e.rules.map (·.2)).find? (fun r => (r.isOn? cfg).isNone) = some r) :
    e.enabledRules cfg = .error ⟨r.name⟩ := by
  simp only [enabledRules, h]

/-- Where all tests tell, the rules that run look at the document in turn. -/
theorem check_eq_runInTurn (h : ∀ r ∈ e.rules.map (·.2), (r.isOn? cfg).isSome = true) (t : Text)
    (tokens : List Token) (sentences : List Sentence) (names : Option (List String)) :
    e.check t tokens sentences cfg names =
      .ok (runInTurn (.ofText t) (e.running cfg names) (.of t tokens sentences cfg)) := by
  rw [check, enabledRules_eq_ok h, running, ← List.filter_filter]
  rfl

/-- A check with harmless rules is done, with the diagnostics of one rule after the other. -/
theorem check_of_harmless (h : ∀ r ∈ e.rules.map (·.2), Harmless r) (t : Text)
    (tokens : List Token) (sentences : List Sentence) (cfg : RulesConfig)
    (names : Option (List String)) :
    e.check t tokens sentences cfg names =
      .ok ((e.running cfg names).flatMap (diagnosticsOf (.of t tokens sentences cfg))) := by
  rw [check_eq_runInTurn fun r hr => (h r hr).tells cfg]
  exact congrArg Except.ok (@runInTurn_eq_flatMap (.of t tokens sentences cfg) _
    fun r hr => (h r (List.mem_filter.mp hr).1).leaves _)

end

/-! ## Diagnostics -/

theorem diagnosticsOf_check (ctx : Context) (c : Check) :
    diagnosticsOf ctx c.rule = ((c.findings? ctx).getD []).map fun f =>
      { c.diagnostic ctx.index f with
        range := ctx.index.normalise (c.diagnostic ctx.index f).range } := by
  show placed ctx.index (c.run ctx) = _
  rw [placed, Check.run]
  cases c.findings? ctx with
  | none => rfl
  | some fs => exact List.map_map

theorem mem_diagnosticsOf_check {ctx : Context} {c : Check} {d : Diagnostic} :
    d ∈ diagnosticsOf ctx c.rule ↔ ∃ fs, c.findings? ctx = some fs ∧ ∃ f ∈ fs,
      { c.diagnostic ctx.index f with
        range := ctx.index.normalise (c.diagnostic ctx.index f).range } = d := by
  rw [diagnosticsOf_check, List.mem_map]
  cases c.findings? ctx <;> simp

/-- The diagnostics of a rule are what it reports, at the positions of the offsets it means. -/
theorem mem_diagnosticsOf_iff {ctx : Context} (hctx : ctx.Fits)
    (hindex : ctx.index = LineIndex.ofText ctx.text) {r : Rule}
    (hr : (∃ c : Check, r = c.rule) ∨ ∃ p : PatternRule, r = p.rule) {d : Diagnostic} :
    d ∈ diagnosticsOf ctx r ↔ ∃ raw start stop, r.Reports ctx raw start stop ∧
      { raw with range := ctx.index.rangeAt start stop } = d := by
  rw [diagnosticsOf, placed]
  constructor
  · intro hd
    split at hd
    · simp at hd
    · obtain ⟨raw, hraw, rfl⟩ := List.mem_map.mp hd
      obtain ⟨start, stop, hreports⟩ : ∃ start stop, r.Reports ctx raw start stop := by
        rcases hr with ⟨c, rfl⟩ | ⟨p, rfl⟩
        · exact Rule.exists_reports_of_check hctx hraw
        · exact Rule.exists_reports_of_pattern hraw
      exact ⟨raw, start, stop, hreports, by rw [hreports.normalise_range hctx hindex]⟩
  · rintro ⟨raw, start, stop, hreports, rfl⟩
    obtain ⟨hraw, hwhole⟩ := hreports.mem_run
    rw [hwhole, if_neg Bool.false_ne_true, List.mem_map]
    exact ⟨raw, hraw, by rw [hreports.normalise_range hctx hindex]⟩

/-- The diagnostics are exactly what the chosen rules report, at the positions of the offsets that
they mean.  Normalising turns raw offsets into positions and leaves positions as they are, on any
text. -/
theorem mem_check_iff {t : Text} {tokens : List Token} (htokens : TokensFit t tokens)
    (ranges : Option (List ExcludedRange)) (base cfg : RulesConfig)
    (names : Option (List String)) {ps : List PatternRule} {e : Engine}
    (he : (builtIn base).registerAll ps = .ok e) :
    (∃ ds, e.check t tokens (segment t tokens ranges) cfg names = .ok ds ∧ ∀ d, d ∈ ds ↔
      ∃ r ∈ e.rules.map (·.2), r.isEnabled cfg = true ∧ isChosen names r = true ∧
        ∃ raw start stop, r.Reports (.of t tokens (segment t tokens ranges) cfg) raw start stop ∧
          { raw with range := (LineIndex.ofText t).rangeAt start stop } = d) ∧
      (∀ r raw start stop,
        Rule.Reports (.of t tokens (segment t tokens ranges) cfg) r raw start stop →
          start ≤ stop ∧ stop ≤ t.length ∧
            (raw.range = .ofOffsets start stop ∨
              raw.range = (LineIndex.ofText t).rangeAt start stop)) ∧
      ∀ start stop : Nat, start ≤ stop → stop ≤ t.length →
        (LineIndex.ofText t).normalise (.ofOffsets start stop) =
            (LineIndex.ofText t).rangeAt start stop ∧
          (LineIndex.ofText t).normalise ((LineIndex.ofText t).rangeAt start stop) =
            (LineIndex.ofText t).rangeAt start stop := by
  have hctx := Context.fits_of htokens ranges cfg
  have hstandard := (standard_builtIn base).registerAll he
  refine ⟨⟨_, check_of_harmless (fun r hr => hstandard.harmless hr) _ _ _ _ _, fun d => ?_⟩,
    fun r raw start stop hreports => ?_, fun start stop hle hlen => ?_⟩
  · have hkinds : ∀ r ∈ e.rules.map (·.2),
        (∃ c : Check, r = c.rule) ∨ ∃ p : PatternRule, r = p.rule := by
      intro r hr
      obtain ⟨x, hx, rfl⟩ := List.mem_map.mp hr
      exact hstandard x hx
    rw [List.mem_flatMap]
    constructor
    · rintro ⟨r, hr, hd⟩
      obtain ⟨hr, hruns⟩ := List.mem_filter.mp hr
      obtain ⟨hchosen, henabled⟩ := Bool.and_eq_true_iff.mp hruns
      exact ⟨r, hr, henabled, hchosen, (mem_diagnosticsOf_iff hctx rfl (hkinds r hr)).mp hd⟩
    · rintro ⟨r, hr, henabled, hchosen, hd⟩
      exact ⟨r, List.mem_filter.mpr ⟨hr, Bool.and_eq_true_iff.mpr ⟨hchosen, henabled⟩⟩,
        (mem_diagnosticsOf_iff hctx rfl (hkinds r hr)).mpr hd⟩
  · obtain ⟨hle, hlen⟩ := hreports.bounds hctx
    exact ⟨hle, hlen, hreports.range_eq⟩
  · exact ⟨LineIndex.normalise_ofOffsets (Nat.le_trans hle hlen) hlen,
      LineIndex.normalise_rangeAt t start stop⟩

/-- A rule for a letter finds it on the second line. -/
theorem mem_check_iff_letter :
    let t := "a\na".toList
    let tokens : List Token :=
      [{ surface := "a", stop := 1 }, { surface := "a", start := 2, stop := 3 }]
    let p : PatternRule := ⟨"letter", ⟨"a", .char 97, {}⟩, "", .null, .warning⟩
    TokensFit t tokens ∧ ∃ e, (builtIn {}).registerAll [p] = .ok e ∧
      ∃ ds, e.check t tokens (segment t tokens none) {} none = .ok ds ∧
        ∃ d ∈ ds, d.range = ⟨⟨1, 0⟩, ⟨1, 1⟩⟩ := by
  intro t tokens p
  have htokens : TokensFit t tokens := ⟨by decide, by decide, by decide, by decide⟩
  have he : (builtIn {}).registerAll [p] =
      .ok { builtIn {} with rules := (builtIn {}).rules.insert p.name p.rule } := rfl
  obtain ⟨ds, hds, hmem⟩ := (mem_check_iff htokens none {} {} none he).1
  refine ⟨htokens, _, he, ds, hds, ?_⟩
  have hreports : p.rule.Reports (.of t tokens (segment t tokens none) {})
      (p.diagnostic t ⟨2, 3⟩) 2 3 := .pattern (s := ⟨2, 3⟩) (by decide) (by decide)
  refine ⟨_, (hmem _).mpr ⟨p.rule, ?_, rfl, rfl, p.diagnostic t ⟨2, 3⟩, 2, 3, hreports, rfl⟩, ?_⟩
  · exact List.mem_map_of_mem (Entries.mem_insert_self _ _ _)
  · decide

end Engine

end Kouetsu
