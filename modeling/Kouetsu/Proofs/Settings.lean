import Kouetsu.Proofreading.Paths
import Kouetsu.Proofs.Entries
import Kouetsu.Proofs.Rule.Spelling
/-!
# What settings decide

Settings that differ in the order of the user's terms only lead to the same issues.
-/

namespace Kouetsu

namespace RulesConfig

variable {cfg cfg' : RulesConfig}

/-- Settings with the same switches, limits and level, and the same terms in any order. -/
structure Agrees (cfg cfg' : RulesConfig) : Prop where
  switches : cfg.switches = cfg'.switches
  limits : cfg.limits = cfg'.limits
  level : cfg.level = cfg'.level
  terms : ∀ x, x ∈ cfg.customTerms ↔ x ∈ cfg'.customTerms

def dictionaryTerms (cfg : RulesConfig) : Entries String String :=
  (Dictionary.all.filter fun d => cfg.isOn (.dictionary d)).foldl
    (fun e d => Entries.merge e d.terms) []

theorem nodup_keys_dictionaryTerms (cfg : RulesConfig) : cfg.dictionaryTerms.keys.Nodup := by
  rw [dictionaryTerms]
  generalize Dictionary.all.filter _ = ds
  suffices h : ∀ e : Entries String String, e.keys.Nodup →
      (ds.foldl (fun e d => Entries.merge e d.terms) e).keys.Nodup from h [] List.nodup_nil
  induction ds with
  | nil => exact fun e he => he
  | cons d ds ih => exact fun e he => ih _ (Entries.nodup_keys_merge he d.terms)

theorem Agrees.mem_terms (h : cfg.Agrees cfg') (hkeys : cfg.customTerms.keys.Nodup)
    (hkeys' : cfg'.customTerms.keys.Nodup) (x : String × String) :
    x ∈ cfg.terms ↔ x ∈ cfg'.terms := by
  have hkey (k : String) : k ∈ cfg.customTerms.keys ↔ k ∈ cfg'.customTerms.keys := by
    simp only [Entries.keys, List.mem_map, h.terms]
  have hdictionary : cfg.dictionaryTerms = cfg'.dictionaryTerms := by
    simp only [dictionaryTerms, isOn, h.switches]
  rw [show cfg.terms = cfg.dictionaryTerms.merge cfg.customTerms from rfl,
    show cfg'.terms = cfg'.dictionaryTerms.merge cfg'.customTerms from rfl,
    Entries.mem_merge_iff (nodup_keys_dictionaryTerms cfg) hkeys,
    Entries.mem_merge_iff (nodup_keys_dictionaryTerms cfg') hkeys', h.terms, hkey, hdictionary]

end RulesConfig

namespace Check

variable {cfg cfg' : RulesConfig} {p : Prepared} {tokens : List Token} {d : Diagnostic} {c : Check}

/-! ## Checks that look at no terms -/

theorem findings?_congr (h : cfg.Agrees cfg') (hc : c ≠ .termSpelling) (t : Text)
    (tokens : List Token) (sentences : List Sentence) :
    c.findings? (.of t tokens sentences cfg) = c.findings? (.of t tokens sentences cfg') := by
  obtain ⟨switches, limits, level, languages, terms⟩ := cfg
  obtain ⟨switches', limits', level', languages', terms'⟩ := cfg'
  obtain ⟨rfl, rfl, rfl, -⟩ := h
  cases c <;> first | rfl | exact absurd rfl hc

theorem shown_congr (h : cfg.Agrees cfg') (hc : c ≠ .termSpelling) (p : Prepared)
    (tokens : List Token) : c.shown p tokens cfg = c.shown p tokens cfg' := by
  have hfindings : c.findings? (p.context tokens cfg) = c.findings? (p.context tokens cfg') :=
    findings?_congr h hc _ _ _
  rw [shown, shown, Engine.diagnosticsOf_check, Engine.diagnosticsOf_check, hfindings]
  rfl

/-! ## The check of terms -/

def termDiagnostic (r : Range) (wrong right : String) : Diagnostic where
  code := Check.termSpelling.code
  message := termMessage wrong right
  range := r
  source := Diagnostic.textSource
  suggestions := [.str ("「" ++ right ++ "」に変更する")]

theorem mem_shown_termSpelling : d ∈ Check.termSpelling.shown p tokens cfg ↔
    ∃ x ∈ cfg.terms, x.1 ≠ x.2 ∧ ∃ s ∈ termSpans p.filtered.text x.1.toList, ∃ r,
      p.Shows (p.prose.rangeAt s.start s.stop) r ∧ d = termDiagnostic r x.1 x.2 := by
  have hrange {x : String × String} {s : Span} (hs : s ∈ termSpans p.filtered.text x.1.toList) :
      p.prose.normalise (.ofOffsets s.start s.stop) = p.prose.rangeAt s.start s.stop :=
    have hwithin := within_of_mem_termSpans hs
    LineIndex.normalise_ofOffsets (hwithin.ordered.trans hwithin.bounded) hwithin.bounded
  have hlist : Check.termSpelling.shown p tokens cfg =
      ((termSpellings (p.context tokens cfg)).map fun f => { termSpelling.diagnostic p.prose f with
        range := p.prose.normalise (.ofOffsets f.start f.stop) }).filterMap
          (p.locate? p.prose) := by
    rw [shown, Engine.diagnosticsOf_check]
    rfl
  rw [hlist, List.mem_filterMap]
  constructor
  · rintro ⟨e, he, hlocate⟩
    obtain ⟨f, hf, rfl⟩ := List.mem_map.mp he
    obtain ⟨x, hx, hne, s, hs, rfl⟩ := mem_termSpellings.mp hf
    obtain ⟨r, hr, rfl⟩ := Prepared.locate?_eq_some.mp hlocate
    exact ⟨x, hx, hne, s, hs, r, hrange hs ▸ hr, rfl⟩
  · rintro ⟨x, hx, hne, s, hs, r, hr, rfl⟩
    refine ⟨_, List.mem_map_of_mem (mem_termSpellings.mpr ⟨x, hx, hne, s, hs, rfl⟩), ?_⟩
    exact Prepared.locate?_eq_some.mpr ⟨r, (hrange hs).symm ▸ hr, rfl⟩

/-- What is shown of terms at one place with one message is the same. -/
theorem eq_of_mem_shown_termSpelling {t : Text} {language : String} {filter : FilterConfig}
    (hp : p = prepare t language filter) {e : Diagnostic}
    (hd : d ∈ Check.termSpelling.shown p tokens cfg)
    (he : e ∈ Check.termSpelling.shown p tokens cfg) (h : d.key = e.key) : d = e := by
  obtain ⟨⟨wrong, right⟩, _, _, s, hs, r, hr, rfl⟩ := mem_shown_termSpelling.mp hd
  obtain ⟨⟨wrong', right'⟩, _, _, s', hs', r', hr', rfl⟩ := mem_shown_termSpelling.mp he
  obtain rfl : r = r' := congrArg DiagnosticKey.range h
  have hmessages : termMessage wrong right = termMessage wrong' right' :=
    congrArg DiagnosticKey.message h
  subst hp
  have hlt := hr.length_lt (within_of_mem_termSpans hs) (within_of_mem_termSpans hs') hr'
  have hgt := hr'.length_lt (within_of_mem_termSpans hs') (within_of_mem_termSpans hs) hr
  have hlength : s.stop = s.start + wrong.length := length_of_mem_termSpans hs
  have hlength' : s'.stop = s'.start + wrong'.length := length_of_mem_termSpans hs'
  rw [Span.length, Span.length] at hlt hgt
  obtain ⟨rfl, rfl⟩ := eq_of_termMessage hmessages (by omega) (by omega)
  rfl

theorem find?_key_eq_some {ds : List Diagnostic} (h : ∀ d ∈ ds, ∀ e ∈ ds, d.key = e.key → d = e) :
    ds.find? (·.key = d.key) = some d ↔ d ∈ ds := by
  constructor
  · exact List.mem_of_find?_eq_some
  · intro hd
    obtain ⟨e, he⟩ : ∃ e, ds.find? (·.key = d.key) = some e :=
      Option.isSome_iff_exists.mp (List.find?_isSome.mpr ⟨d, hd, by simp⟩)
    have hkey : e.key = d.key := by simpa using List.find?_some he
    rw [he, h e (List.mem_of_find?_eq_some he) d hd hkey]

theorem finds_congr (h : cfg.Agrees cfg') (hkeys : cfg.customTerms.keys.Nodup)
    (hkeys' : cfg'.customTerms.keys.Nodup) {t : Text} {language : String} {filter : FilterConfig}
    (hp : p = prepare t language filter) {file : Json.Node} {i : Issue} :
    c.Finds p tokens cfg file i ↔ c.Finds p tokens cfg' file i := by
  by_cases hc : c = .termSpelling
  · subst hc
    refine exists_congr fun d => and_congr_left' ?_
    rw [find?_key_eq_some fun d hd e he => eq_of_mem_shown_termSpelling hp hd he,
      find?_key_eq_some fun d hd e he => eq_of_mem_shown_termSpelling hp hd he,
      mem_shown_termSpelling, mem_shown_termSpelling]
    simp only [h.mem_terms hkeys hkeys']
  · rw [Finds, Finds, shown_congr h hc]

end Check

/-! ## The issues of a file -/

theorem Path.head?_language (p : Path) : ∀ c ∈ p.language.toList.head?, c.isDigit = false := by
  have hlist {languages : Entries String String} {x : String × String}
      (hall : (languages.all fun x => x.2.toList.head?.all fun c => !c.isDigit) = true)
      (hx : x ∈ languages) : ∀ c ∈ x.2.toList.head?, c.isDigit = false := by
    intro c hc
    have hfirst := List.all_eq_true.mp hall x hx
    rw [Option.mem_def.mp hc] at hfirst
    simpa using hfirst
  rw [language]
  split
  · next language hlanguage =>
      obtain ⟨name, _, hname⟩ := Option.bind_eq_some_iff.mp hlanguage
      exact hlist (by decide : (namedLanguages.all _) = true) (Entries.mem_of_get?_eq_some hname)
  · cases hlanguage : p.lowerSuffix?.bind suffixLanguages.get? with
    | none => simp
    | some language =>
        obtain ⟨suffix, _, hsuffix⟩ := Option.bind_eq_some_iff.mp hlanguage
        exact hlist (by decide : (suffixLanguages.all _) = true)
          (Entries.mem_of_get?_eq_some hsuffix)

/-- Whether a language is left out depends on the texts among the excluded values only. -/
theorem excludes_eq_true {cfg : RulesConfig} {language : String} :
    excludes cfg language = true ↔ Value.str language ∈ cfg.excludedLanguages := by
  rw [excludes, List.any_eq_true]
  constructor
  · rintro ⟨v, hv, hlanguage⟩
    split at hlanguage
    · rwa [← of_decide_eq_true hlanguage]
    · simp at hlanguage
  · exact fun h => ⟨_, h, by simp⟩

namespace Proofreader

variable {r r' : Proofreader}

structure Agrees (r r' : Proofreader) : Prop where
  rules : r.settings.rules.Agrees r'.settings.rules
  languages : ∀ language : String, (∀ c ∈ language.toList.head?, c.isDigit = false) →
    (Value.str language ∈ r.settings.rules.excludedLanguages ↔
      Value.str language ∈ r'.settings.rules.excludedLanguages)
  filter : r.settings.filter = r'.settings.filter
  names : ∀ n, (∀ ns, r.names = some ns → n ∈ ns) ↔ ∀ ns, r'.names = some ns → n ∈ ns

/-- A proofreader with the built-in checks.  The user's terms are a mapping, the patterns of the
filter are texts, no pattern stands for a language, and a date is written with its year first. -/
structure BuiltIn (r : Proofreader) : Prop where
  engine : ∃ base, r.engine = .builtIn base
  terms : r.settings.rules.customTerms.keys.Nodup
  patterns : ∀ v ∈ r.settings.filter.custom, ∃ pattern, v = .str pattern
  dates : ∀ plain quoted, .scalar (.moment plain quoted) ∈ r.settings.rules.excludedLanguages →
    ∃ c ∈ plain.toList.head?, c.isDigit = true
  languages : ∀ p, .scalar (.pattern p) ∉ r.settings.rules.excludedLanguages

theorem builtIn_initial (names : Option (List String)) :
    BuiltIn { engine := .builtIn {}, names := names } :=
  ⟨⟨{}, rfl⟩, List.nodup_nil, by simp, by simp, by simp⟩

theorem Agrees.checkText (h : r.Agrees r') (hr : r.BuiltIn) (hr' : r'.BuiltIn) {ε : Type}
    (t : Text) (language : String) (file : Json.Node) (tokensOf : Text → Except ε (List Token)) :
    r.checkText t language file tokensOf = r'.checkText t language file tokensOf := by
  rw [Proofreader.checkText, Proofreader.checkText, h.filter]
  refine bind_congr fun tokens => ?_
  obtain ⟨settings, _, names⟩ := r
  obtain ⟨settings', _, names'⟩ := r'
  obtain ⟨⟨base, rfl⟩, hterms, -⟩ := hr
  obtain ⟨⟨base', rfl⟩, hterms', -⟩ := hr'
  rw [Engine.builtIn_eq_ofChecks, Engine.builtIn_eq_ofChecks, diagnostics_ofChecks,
    diagnostics_ofChecks]
  refine congrArg Except.ok (eq_of_pairwise_rank (Prepared.pairwise_issuesOf _ _ _)
    (Prepared.pairwise_issuesOf _ _ _) fun i => ?_)
  rw [mem_issuesOf_foundByChecks, mem_issuesOf_foundByChecks]
  refine exists_congr fun c => and_congr_right' (and_congr ?_ ?_)
  · rw [Check.Runs, Check.Runs, RulesConfig.isOn, RulesConfig.isOn, h.rules.switches]
    exact and_congr_right' (h.names c.name)
  · exact Check.finds_congr h.rules hterms hterms' rfl

/-- Proofreaders that agree find the same issues in a file, with the same tokens. -/
theorem Agrees.checkFile (h : r.Agrees r') (hr : r.BuiltIn) (hr' : r'.BuiltIn) (m : Morphology)
    {enabled enabled' : Bool} (htokens : m.tokens enabled = m.tokens enabled') {t t' : FileTree}
    {path : LooseText} (hfile : (t.file? (Path.ofText path)).map (·.content) =
      (t'.file? (Path.ofText path)).map (·.content)) :
    r.checkFile m enabled t path = r'.checkFile m enabled' t' path := by
  have hcontent (t : FileTree) : ((t.file? (Path.ofText path)).bind fun f =>
      readableText? f.content) =
        ((t.file? (Path.ofText path)).map (·.content)).bind readableText? := by
    rw [Option.bind_map]
    rfl
  rw [Proofreader.checkFile, Proofreader.checkFile, hcontent, hcontent, hfile]
  cases ((t'.file? (Path.ofText path)).map (·.content)).bind readableText? with
  | none => rfl
  | some text =>
      have hexcludes : excludes r.settings.rules (Path.ofText path).language =
          excludes r'.settings.rules (Path.ofText path).language := by
        rw [Bool.eq_iff_iff, excludes_eq_true, excludes_eq_true]
        exact h.languages _ (Path.head?_language _)
      have hanalyse : shouldAnalyse path.shown (Path.ofText path).language text r.settings.rules =
          shouldAnalyse path.shown (Path.ofText path).language text r'.settings.rules := by
        rw [shouldAnalyse, shouldAnalyse, hexcludes, RulesConfig.isOn, RulesConfig.isOn,
          h.rules.switches]
        rfl
      simp only [checkDocument, hanalyse, htokens, h.checkText hr hr']

end Proofreader

end Kouetsu
