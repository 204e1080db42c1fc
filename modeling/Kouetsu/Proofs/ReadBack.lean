import Kouetsu.Proofs.Issue
import Kouetsu.Proofs.Proofreading
import Kouetsu.Proofs.RuleFile
/-!
# Issues read back from their records

A built-in check suggests texts.  A rule file may suggest any value, and what is no text is
another issue when it is read back.
-/

namespace Kouetsu

namespace Engine

variable {ps : List PatternRule} {d : Diagnostic}

theorem suggestions_of_pattern {ctx : Context} {p : PatternRule}
    (hd : d ∈ diagnosticsOf ctx p.rule) :
    d.code = p.name ∧ d.suggestions = if p.suggestion.isTruthy then [p.suggestion] else [] := by
  obtain ⟨raw, hraw, rfl⟩ := List.mem_map.mp hd
  obtain ⟨s, _, rfl⟩ := List.mem_map.mp hraw
  exact ⟨rfl, rfl⟩

theorem suggestions_of_mem_check {base cfg : RulesConfig} {t : Text} {tokens : List Token}
    {sentences : List Sentence} {names : Option (List String)}
    {ds : List Diagnostic}
    (h : ((builtIn base).withRules ps).check t tokens sentences cfg names = .ok ds) (hd : d ∈ ds) :
    (∀ v ∈ d.suggestions, ∃ s, v = .str s) ∨
      ∃ p ∈ ps, d.code = p.name ∧ p.suggestion.isTruthy = true ∧
        d.suggestions = [p.suggestion] := by
  rw [check_of_harmless fun r hr => (standard_withRules base ps).harmless hr,
    Except.ok.injEq] at h
  obtain ⟨r, hr, hd⟩ := List.mem_flatMap.mp (h ▸ hd)
  obtain ⟨x, hx, rfl⟩ := List.mem_map.mp (List.mem_filter.mp hr).1
  rcases mem_rules_withRules hx with hcheck | ⟨p, hp, hrule⟩
  · obtain ⟨c, _, rfl⟩ := List.mem_map.mp hcheck
    obtain ⟨f, _, rfl⟩ := Check.exists_finding_of_mem_diagnosticsOf hd
    left
    intro v hv
    obtain ⟨s, _, rfl⟩ := List.mem_map.mp hv
    exact ⟨s, rfl⟩
  · rw [hrule] at hd
    obtain ⟨hcode, hsuggestions⟩ := suggestions_of_pattern hd
    split at hsuggestions
    · next htruthy => exact Or.inr ⟨p, hp, hcode, htruthy, hsuggestions⟩
    · left
      simp [hsuggestions]

end Engine

namespace Proofreader

variable {r : Proofreader} {issues : List Issue} {i : Issue}

theorem exists_mem_diagnostics {p : Prepared} {ds : List Diagnostic} {file : Json.Node}
    (hi : i ∈ p.issuesOf ds file) : ∃ d ∈ ds,
      i.diagnostic.code = d.code ∧ i.diagnostic.suggestions = d.suggestions := by
  obtain ⟨e, he, rfl⟩ := Prepared.mem_issuesOf.mp hi
  obtain ⟨d, hd, hlocate⟩ := List.mem_filterMap.mp (List.mem_of_find?_eq_some he)
  obtain ⟨range, _, rfl⟩ := Prepared.locate?_eq_some.mp hlocate
  exact ⟨d, hd, rfl, rfl⟩

theorem exists_of_mem_checkText {ε : Type} {t : Text} {language : String} {file : Json.Node}
    {tokensOf : Text → Except ε (List Token)}
    (h : r.checkText t language file tokensOf = .ok issues) (hi : i ∈ issues) :
    ∃ tokens ds, r.diagnostics (prepare t language r.settings.filter) tokens = .ok ds ∧
      i ∈ (prepare t language r.settings.filter).issuesOf ds file := by
  obtain ⟨tokens, _, h⟩ := bind_eq_ok.mp h
  obtain ⟨ds, hds, h⟩ := bind_eq_ok.mp h
  obtain rfl := Except.ok.inj h
  exact ⟨tokens, ds, mapError_eq_ok.mp hds, hi⟩

/-- An issue is read back from its record exactly if its suggestions are texts.  Those of a
built-in check are, and so are those of a rule file whose tables suggest texts or nothing.  Any
other value of a table is read back as a text. -/
theorem readBack_checkText {characters : CharacterNames} {data : Value} {path : String}
    {f : RuleFile} (hfile : RuleFile.ofValue characters data path = .ok f) {base : RulesConfig}
    (hengine : r.engine = (Engine.builtIn base).withRules f.rules) {ε : Type} {t : Text}
    {language : String} {file : Json.Node} {tokensOf : Text → Except ε (List Token)}
    (h : r.checkText t language file tokensOf = .ok issues) :
    (∀ i ∈ issues,
      ((∃ j, Issue.ofNode i.toNode = .ok j ∧ j.toNode = i.toNode) ↔ i.SuggestsTexts) ∧
      (i.SuggestsTexts ∨ ∃ it ∈ RuleFile.items path data, i.diagnostic.code = it.name ∧
        it.suggestion.isTruthy = true ∧ i.diagnostic.suggestions = [it.suggestion])) ∧
      ((∀ it ∈ RuleFile.items path data, it.suggestion.isTruthy = true →
          ∃ s, it.suggestion = .str s) →
        (issues.map Issue.toNode).mapM Issue.ofNode = .ok issues) := by
  have horigin : ∀ i ∈ issues, i.SuggestsTexts ∨
      ∃ it ∈ RuleFile.items path data, i.diagnostic.code = it.name ∧
        it.suggestion.isTruthy = true ∧ i.diagnostic.suggestions = [it.suggestion] := by
    intro i hi
    obtain ⟨tokens, ds, hds, hi⟩ := exists_of_mem_checkText h hi
    obtain ⟨d, hd, hcode, hsuggestions⟩ := exists_mem_diagnostics hi
    rw [diagnostics, hengine] at hds
    rw [Issue.SuggestsTexts, hcode, hsuggestions]
    refine (Engine.suggestions_of_mem_check hds hd).imp_right ?_
    rintro ⟨p, hp, hname, htruthy, hone⟩
    obtain ⟨it, hit, hread⟩ := RuleFile.exists_read_of_mem (RuleFile.forall₂_items hfile) hp
    have hsuggestion := RuleFile.suggestion_of_read hread
    exact ⟨it, hit, hname.trans (RuleFile.name_of_read hread), hsuggestion ▸ htruthy,
      hsuggestion ▸ hone⟩
  refine ⟨fun i hi => ⟨Issue.exists_ofNode_toNode_iff, horigin i hi⟩, fun htexts => ?_⟩
  apply Issue.mapM_ofNode_toNode
  intro i hi
  rcases horigin i hi with hsuggests | ⟨it, hit, _, htruthy, hone⟩
  · exact hsuggests
  · obtain ⟨s, hs⟩ := htexts it hit htruthy
    intro v hv
    rw [hone, hs] at hv
    exact ⟨s, List.mem_singleton.mp hv⟩

theorem checkText_letter (p : PatternRule) :
    let r : Proofreader := { engine := (Engine.builtIn {}).withRules [p], names := some ["x"] }
    let q := prepare "あ".toList "markdown" {}
    r.checkText "あ".toList "markdown" .null (fun _ => Except.ok (ε := Empty) []) =
      .ok (q.issuesOf ((r.engine.running {} r.names).flatMap
        (Engine.diagnosticsOf (q.context [] {}))) .null) :=
  checkText_eq _ _ _ _ []
    (Engine.check_of_harmless (fun _ hx => (Engine.standard_withRules {} [p]).harmless hx) ..)

/-- A table that suggests a text. -/
theorem readBack_checkText_text :
    let data : Value := .list [.map [(.str "id", .str "x"), (.str "pattern", .str "あ"),
      (.str "suggestion", .str "い")]]
    let p : PatternRule := ⟨"x", ⟨"あ", .char 0x3042, {}⟩, "", .str "い", .warning⟩
    let f : RuleFile := { path := "r.json", rules := [p] }
    let r : Proofreader :=
      { engine := (Engine.builtIn {}).withRules f.rules, names := some ["x"] }
    RuleFile.ofValue (fun _ => none) data "r.json" = .ok f ∧ ∃ issues ≠ [],
      r.checkText "あ".toList "markdown" .null (fun _ => Except.ok (ε := Empty) []) = .ok issues ∧
        (issues.map Issue.toNode).mapM Issue.ofNode = .ok issues := by
  intro data p f r
  have hfile : RuleFile.ofValue (fun _ => none) data "r.json" = .ok f := rfl
  have hcheck := checkText_letter p
  refine ⟨hfile, _, ?_, hcheck, ?_⟩
  · exact List.isEmpty_eq_false_iff.mp (by decide +kernel)
  · refine (readBack_checkText hfile rfl hcheck).2 fun it hit _ => ?_
    rw [List.mem_singleton.mp hit]
    exact ⟨"い", rfl⟩

/-- A table that suggests a number: its issue is read back with another suggestion. -/
theorem not_readBack_number :
    let data : Value := .list [.map [(.str "id", .str "x"), (.str "pattern", .str "あ"),
      (.str "suggestion", .int 5)]]
    let p : PatternRule := ⟨"x", ⟨"あ", .char 0x3042, {}⟩, "", .int 5, .warning⟩
    let f : RuleFile := { path := "r.json", rules := [p] }
    let r : Proofreader :=
      { engine := (Engine.builtIn {}).withRules f.rules, names := some ["x"] }
    RuleFile.ofValue (fun _ => none) data "r.json" = .ok f ∧ ∃ issues,
      r.checkText "あ".toList "markdown" .null (fun _ => Except.ok (ε := Empty) []) = .ok issues ∧
        ∃ i ∈ issues, ¬∃ j, Issue.ofNode i.toNode = .ok j ∧ j.toNode = i.toNode := by
  intro data p f r
  refine ⟨rfl, _, checkText_letter p, ?_⟩
  let q := prepare "あ".toList "markdown" {}
  have hnumber : (q.issuesOf ((r.engine.running {} r.names).flatMap
      (Engine.diagnosticsOf (q.context [] {}))) .null).any
      (fun i => i.diagnostic.suggestions.any fun v => v.kindName == "int") = true := by
    decide +kernel
  obtain ⟨i, hi, hnumber⟩ := List.any_eq_true.mp hnumber
  obtain ⟨v, hv, hnumber⟩ := List.any_eq_true.mp hnumber
  refine ⟨i, hi, fun hback => ?_⟩
  obtain ⟨s, rfl⟩ := Issue.exists_ofNode_toNode_iff.mp hback v hv
  exact absurd hnumber (by simp [Value.kindName])

end Proofreader

end Kouetsu
