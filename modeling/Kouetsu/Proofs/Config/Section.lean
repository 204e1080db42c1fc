import Kouetsu.Proofs.Config.Fields
import Kouetsu.Proofs.Settings
/-!
# Tables among the options of a section

Only the terms and the filter of a section are read from tables.  A table under another name is left
out, also where the option of that name is one.
-/

namespace Kouetsu

namespace RulesConfig

variable {cfg cfg' : RulesConfig}

structure Same (cfg cfg' : RulesConfig) : Prop extends Agrees cfg cfg' where
  languages : cfg.excludedLanguages = cfg'.excludedLanguages

theorem same_of_get? (h : ∀ {key current}, key ≠ RulesDraft.termsKey →
      Entries.get? (entries {}) key = some current →
        Entries.get? cfg.entries key = Entries.get? cfg'.entries key)
    (hterms : ∀ x, x ∈ cfg.customTerms ↔ x ∈ cfg'.customTerms) : cfg.Same cfg' where
  switches := by
    funext s
    have hne : s.key ≠ RulesDraft.termsKey := by
      intro hkey
      have hkeys : RulesDraft.termsKey ∉ Switch.all.map Switch.key := by decide +kernel
      exact hkeys (hkey ▸ List.mem_map_of_mem s.mem_all)
    simpa [get?_switch] using h hne (get?_switch {} s)
  limits := by
    funext l
    have hl := h (by cases l <;> decide) (get?_limit {} l)
    rw [get?_limit, get?_limit] at hl
    have hint : (cfg.limits l : Int) = cfg'.limits l := by simpa using hl
    exact_mod_cast hint
  level := by
    have hlevel := h (by decide) (get?_level {})
    exact WeakLevel.name_injective (by simpa [get?_level] using hlevel)
  languages := by
    have hlanguages := h (by decide) (get?_languages {})
    simpa [get?_languages] using hlanguages
  terms := hterms

end RulesConfig

namespace Settings

variable {entries : List (Scalar × Value)} {s : Settings}

/-- The entries of a section but for those that the filter and the terms have their names from. -/
def others (entries : List (Scalar × Value)) : List (Scalar × Value) :=
  entries.filter fun x => x.1 ≠ .str "filter" ∧ x.1 ≠ .str "notation"

def ownTerms (entries : List (Scalar × Value)) : Entries String String :=
  ((table? entries "notation").map textTable).getD []

theorem withNotation_eq (entries : List (Scalar × Value)) (rules : RulesConfig) :
    withNotation entries rules = rules.withTerms (ownTerms entries) := by
  rw [withNotation, ownTerms]
  cases table? entries "notation" <;> rfl

theorem apply_flat_others (cfg : RulesConfig) (entries : List (Scalar × Value)) :
    cfg.apply (flat (others entries)) = cfg.apply (flat entries) := by
  have hset (d : RulesDraft) (x : Scalar × Value)
      (hx : decide (x.1 ≠ .str "filter" ∧ x.1 ≠ .str "notation") = false) :
      d.set x.1 x.2 = .ok d := by
    rw [decide_eq_false_iff_not, not_and_or, not_not, not_not] at hx
    rcases hx with hx | hx <;> rw [hx] <;> rfl
  rw [flat, others, List.filter_comm]
  exact congrArg (· >>= RulesDraft.finish)
    (foldlM_filter (fun d x _ hx => hset d x hx) cfg.draft)

/-- Options whose tables may be left out where some terms are added: no field that is not read from
tables is named by one, the level is not last named by one, and all the terms of the last one give
way to those that are added. -/
structure LosesNothing (options : List (Scalar × Value)) (added : Entries String String) :
    Prop where
  kinds : ∀ x ∈ options, isTable x.2 = true → snakeCase x.1.text ≠ RulesDraft.levelKey →
    snakeCase x.1.text ≠ RulesDraft.termsKey →
      Entries.get? (RulesConfig.entries {}) (snakeCase x.1.text) = none
  level : ∀ v, Fields.last? options RulesDraft.levelKey = some v → isTable v = false
  terms : ∀ entries, Fields.last? options RulesDraft.termsKey = some (.map entries) →
    (textTable entries).keys ⊆ added.keys

end Settings

open Settings

theorem Settings.exists_eq_map {v : Value} (h : isTable v = true) : ∃ table, v = .map table := by
  cases v with
  | map table => exact ⟨table, rfl⟩
  | _ => contradiction

theorem Fields.kind_of_readAs_table {key : String} {current v w : Value} (hv : isTable v = true)
    (h : readAs key current v = .ok w) :
    (∀ b, current ≠ .bool b) ∧ (∀ n, current ≠ .int n) ∧ ∀ items, current ≠ .list items := by
  obtain ⟨table, rfl⟩ := exists_eq_map hv
  refine ⟨?_, ?_, ?_⟩ <;> rintro _ rfl <;>
    simp [readAs, readSwitch, readLimit, readList, Except.map] at h

namespace RulesConfig

variable {cfg r : RulesConfig} {options : List (Scalar × Value)} {added : Entries String String}

theorem terms_of_apply (h : apply {} options = .ok r) :
    (Fields.last? options RulesDraft.termsKey = none ∧ r.customTerms = []) ∨
      ∃ entries, Fields.last? options RulesDraft.termsKey = some (.map entries) ∧
        r.customTerms = textTable entries := by
  obtain ⟨happly, -⟩ := exists_apply_entries_iff.mp ⟨r, h, rfl⟩
  have hterms := Fields.get?_apply happly (get?_terms {})
  rw [get?_terms] at hterms
  cases hlast : Fields.last? options RulesDraft.termsKey with
  | none =>
      rw [hlast, Option.elim_none, Option.some.injEq] at hterms
      exact Or.inl ⟨rfl, Value.ofTerms_injective hterms⟩
  | some v =>
      rw [hlast, Option.elim_some, Fields.readAs_ofTerms, eq_comm, toOption_eq_some,
        map_eq_ok] at hterms
      obtain ⟨terms, hread, hterms⟩ := hterms
      obtain ⟨entries, rfl, rfl⟩ := readTable_eq_ok.mp hread
      exact Or.inr ⟨entries, rfl, (Value.ofTerms_injective hterms).symm⟩

theorem terms_of_apply_flat (h : apply {} (flat options) = .ok cfg) : cfg.customTerms = [] := by
  rcases terms_of_apply h with ⟨_, hterms⟩ | ⟨entries, hlast, _⟩
  · exact hterms
  · obtain ⟨x, hx, _, hvalue⟩ := Fields.mem_of_last? hlast
    have htable := (List.mem_filter.mp hx).2
    rw [hvalue] at htable
    contradiction

theorem get?_eq_none_of_table (h : Fields.Reads (entries {}) options) {x : Scalar × Value}
    (hx : x ∈ options) (htable : isTable x.2 = true)
    (hlevel : snakeCase x.1.text ≠ RulesDraft.levelKey)
    (hterms : snakeCase x.1.text ≠ RulesDraft.termsKey) :
    Entries.get? (entries {}) (snakeCase x.1.text) = none := by
  by_contra hne
  obtain ⟨current, hcurrent⟩ := Option.ne_none_iff_exists'.mp hne
  obtain ⟨w, hw⟩ := h x hx current hcurrent
  obtain ⟨hbool, hint, hlist⟩ := Fields.kind_of_readAs_table htable hw
  rw [← RulesDraft.entries_draft, RulesDraft.get?_entries] at hcurrent
  split at hcurrent
  · exact hbool _ (Option.some.inj hcurrent).symm
  · exact hint _ (Option.some.inj hcurrent).symm
  · rw [if_neg hlevel, if_neg hterms] at hcurrent
    split at hcurrent
    · exact hlist _ (Option.some.inj hcurrent).symm
    · simp at hcurrent

/-- Options that are no tables keep their order, so the last of them counts as before. -/
theorem last?_flat (h : LosesNothing options added) {key : String} {current : Value}
    (hkey : key ≠ RulesDraft.termsKey) (hcurrent : Entries.get? (entries {}) key = some current) :
    Fields.last? (flat options) key = Fields.last? options key := by
  refine Fields.last?_filter (p := fun v => !isTable v) fun v hv => ?_
  suffices htable : isTable v = false by rw [htable]; rfl
  by_cases hlevel : key = RulesDraft.levelKey
  · exact h.level v (hlevel ▸ hv)
  · obtain ⟨x, hx, rfl, rfl⟩ := Fields.mem_of_last? hv
    by_contra htable
    rw [Bool.not_eq_false] at htable
    cases hcurrent.symm.trans (h.kinds x hx htable hlevel hkey)

theorem reads_of_flat (h : LosesNothing options added)
    (hflat : Fields.Reads (entries {}) (flat options)) : Fields.Reads (entries {}) options := by
  intro x hx current hcurrent
  cases htable : isTable x.2 with
  | false => exact hflat x (List.mem_filter.mpr ⟨hx, by rw [htable]; rfl⟩) current hcurrent
  | true =>
      by_cases hlevel : snakeCase x.1.text = RulesDraft.levelKey
      · rw [hlevel, get?_level] at hcurrent
        exact ⟨x.2, Option.some.inj hcurrent ▸ rfl⟩
      · by_cases hterms : snakeCase x.1.text = RulesDraft.termsKey
        · rw [hterms, get?_terms] at hcurrent
          obtain ⟨table, hvalue⟩ := exists_eq_map htable
          rw [hterms, ← Option.some.inj hcurrent, Fields.readAs_ofTerms, hvalue]
          exact ⟨_, map_eq_ok.mpr ⟨_, readTable_eq_ok.mpr ⟨table, rfl, rfl⟩, rfl⟩⟩
        · cases hcurrent.symm.trans (h.kinds x hx htable hlevel hterms)

theorem get?_withTerms (cfg : RulesConfig) (terms : Entries String String) {key : String}
    (h : key ≠ RulesDraft.termsKey) :
    Entries.get? (cfg.withTerms terms).entries key = Entries.get? cfg.entries key := by
  rw [entries_withTerms, Entries.get?_insert, if_neg (Ne.symm h)]

/-- Leaving tables out changes nothing exactly if they lose nothing. -/
theorem same_flat_iff (hadded : added.keys.Nodup) (hflat : apply {} (flat options) = .ok cfg) :
    (∃ r, apply {} options = .ok r ∧ (cfg.withTerms added).Same (r.withTerms added)) ↔
      LosesNothing options added := by
  have hmem (terms : Entries String String) (hterms : terms.keys.Nodup) (x : String × String) :
      x ∈ terms.merge added ↔ x ∈ added ∨ (x.1 ∉ added.keys ∧ x ∈ terms) :=
    Entries.mem_merge_iff hterms hadded
  obtain ⟨hreads, hlevel⟩ := exists_apply_iff.mp ⟨cfg, hflat⟩
  constructor
  · rintro ⟨r, hr, hsame⟩
    obtain ⟨hreads', hlevel'⟩ := exists_apply_iff.mp ⟨r, hr⟩
    refine ⟨fun x hx htable => get?_eq_none_of_table hreads' hx htable, fun v hv => ?_,
      fun table hlast => ?_⟩
    -- a level that is accepted is a text
    · obtain ⟨level, hvalue⟩ := Option.isSome_iff_exists.mp (hlevel' v hv)
      rw [WeakLevel.ofValue?_eq_some.mp hvalue]
      rfl
    -- a term that nothing takes the place of would be in one of the settings only
    · intro k hk
      obtain ⟨x, hx, rfl⟩ := List.mem_map.mp hk
      by_contra hnot
      have hterms : r.customTerms = textTable table := by
        rcases terms_of_apply hr with ⟨hnone, _⟩ | ⟨table', hlast', hterms⟩
        · cases hlast.symm.trans hnone
        · obtain rfl : table = table' := Value.map.inj (Option.some.inj (hlast.symm.trans hlast'))
          exact hterms
      have hin : x ∈ (cfg.withTerms added).customTerms := by
        rw [hsame.terms]
        show x ∈ r.customTerms.merge added
        rw [hterms]
        exact (hmem _ (nodup_keys_textTable table) x).mpr (Or.inr ⟨hnot, hx⟩)
      have hin : x ∈ cfg.customTerms.merge added := hin
      rw [terms_of_apply_flat hflat] at hin
      rcases Entries.mem_merge hin with hin | hin
      · exact hnot (List.mem_map_of_mem hin)
      · exact List.not_mem_nil hin
  · intro h
    obtain ⟨r, hr⟩ := exists_apply_iff.mpr ⟨reads_of_flat h hreads, fun v hv =>
      hlevel v (by rw [last?_flat h (by decide) (get?_level {}), hv])⟩
    refine ⟨r, hr, same_of_get? (fun hkey hcurrent => ?_) fun x => ?_⟩
    · obtain ⟨happly, -⟩ := exists_apply_entries_iff.mp ⟨cfg, hflat, rfl⟩
      obtain ⟨happly', -⟩ := exists_apply_entries_iff.mp ⟨r, hr, rfl⟩
      rw [get?_withTerms _ _ hkey, get?_withTerms _ _ hkey, Fields.get?_apply happly hcurrent,
        Fields.get?_apply happly' hcurrent, last?_flat h hkey hcurrent]
    · show x ∈ cfg.customTerms.merge added ↔ x ∈ r.customTerms.merge added
      rw [terms_of_apply_flat hflat]
      rcases terms_of_apply hr with ⟨_, hterms⟩ | ⟨table, hlast, hterms⟩
      · rw [hterms]
      · rw [hterms, hmem [] List.nodup_nil, hmem _ (nodup_keys_textTable table)]
        refine or_congr_right (iff_of_false (fun hx => List.not_mem_nil hx.2) fun hx => ?_)
        exact hx.1 (h.terms table hlast (List.mem_map_of_mem hx.2))

end RulesConfig

namespace Settings

variable {entries : List (Scalar × Value)} {s : Settings}

/-- The settings of the checks come from the options that are no tables, with the terms of the
section.  These are the settings that all the options make exactly if the tables lose nothing. -/
theorem ofSection_rules (h : ofSection entries = .ok s) :
    (∃ r, RulesConfig.apply {} (flat (others entries)) = .ok r ∧
      s.rules = r.withTerms (ownTerms entries)) ∧
    ((∃ r, RulesConfig.apply {} (others entries) = .ok r ∧
        s.rules.Same (r.withTerms (ownTerms entries))) ↔
      LosesNothing (others entries) (ownTerms entries)) := by
  obtain ⟨rules, filter, hrules, _, rfl⟩ := ofSection_eq_ok.mp h
  rw [← apply_flat_others] at hrules
  simp only [withNotation_eq]
  have hown : (ownTerms entries).keys.Nodup := by
    rw [ownTerms]
    cases table? entries "notation" with
    | none => exact List.nodup_nil
    | some terms => exact nodup_keys_textTable terms
  exact ⟨⟨rules, hrules, rfl⟩, RulesConfig.same_flat_iff hown hrules⟩

/-- A threshold beside terms. -/
theorem ofSection_rules_limit :
    ∃ s r, ofSection [(.str "commaCountThreshold", .int 7),
        (.str "notation", .map [(.str "Github", .str "GitHub")])] = .ok s ∧
      RulesConfig.apply {} [(.str "commaCountThreshold", .int 7)] = .ok r ∧
      s.rules = r.withTerms [("Github", "GitHub")] := by
  obtain ⟨s, hs⟩ : ∃ s, ofSection [(.str "commaCountThreshold", .int 7),
      (.str "notation", .map [(.str "Github", .str "GitHub")])] = .ok s :=
    exists_eq_ok (by decide +kernel)
  obtain ⟨⟨r, hr, hrules⟩, -⟩ := ofSection_rules hs
  exact ⟨s, r, hs, hr, hrules⟩

/-- A table of terms under the name of its option. -/
theorem ofSection_loses_table :
    ∃ s r, ofSection [(.str "customNotationRules", .map [(.str "a", .str "b")])] = .ok s ∧
      RulesConfig.apply {} (others [(.str "customNotationRules", .map [(.str "a", .str "b")])]) =
        .ok r ∧
      ¬s.rules.Same
        (r.withTerms (ownTerms [(.str "customNotationRules", .map [(.str "a", .str "b")])])) := by
  obtain ⟨s, hs⟩ : ∃ s, ofSection [(.str "customNotationRules", .map [(.str "a", .str "b")])] =
      .ok s := exists_eq_ok (by decide +kernel)
  obtain ⟨r, hr⟩ : ∃ r, RulesConfig.apply {}
      (others [(.str "customNotationRules", .map [(.str "a", .str "b")])]) = .ok r :=
    exists_eq_ok (by decide +kernel)
  refine ⟨s, r, hs, hr, fun hsame => ?_⟩
  have hlost : (ofSection [(.str "customNotationRules", .map [(.str "a", .str "b")])]).toOption.map
      (·.rules.customTerms) = some [] := by decide +kernel
  have hkept : (RulesConfig.apply {}
      (others [(.str "customNotationRules", .map [(.str "a", .str "b")])])).toOption.map
        (·.customTerms) = some [("a", "b")] := by decide +kernel
  rw [hs] at hlost
  rw [hr] at hkept
  have hnone : s.rules.customTerms = [] := Option.some.inj hlost
  have hone : r.customTerms = [("a", "b")] := Option.some.inj hkept
  have hterm : ("a", "b") ∈ s.rules.customTerms :=
    (hsame.terms ("a", "b")).mpr (hone ▸ List.mem_singleton_self _)
  exact List.not_mem_nil (hnone ▸ hterm)

end Settings

end Kouetsu
