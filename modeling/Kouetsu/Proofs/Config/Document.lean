import Kouetsu.File.Loading
import Kouetsu.Proofs.Config.Fields
/-!
# Settings of a document

A document is refused for an option whose value is not of the kind of its field, and the error names
the option and quotes the value.  Only a section that is no table ends the reading in another way.
-/

namespace Kouetsu

namespace ConfigError

/-- The option that an error is about, and the value that stands there. -/
def option? : ConfigError → Option (String × Value)
  | .notBoolean key v => some (key, v)
  | .notInteger key v => some (key, v)
  | .belowOne key v => some (key, v)
  | .notList key v => some (key, v)
  | .notTable key v => some (key, v)
  | .unknownLevel v => some (RulesDraft.levelKey, v)
  | .missingFile _ => none
  | .malformedFile _ => none

/-- An error about one of some options, whose message ends with the value of that option if it can
be quoted. -/
def Blames (e : ConfigError) (options : List (Scalar × Value)) : Prop :=
  ∃ x ∈ options, e.option? = some (snakeCase x.1.text, x.2) ∧
    ∃ told, e.message = x.2.quoted.map (told ++ ·)

theorem exists_message {e : ConfigError} {key : String} {v : Value}
    (h : e.option? = some (key, v)) : ∃ told, e.message = v.quoted.map (told ++ ·) := by
  cases e with
  | missingFile _ => contradiction
  | malformedFile _ => contradiction
  | _ =>
      obtain ⟨-, rfl⟩ := Prod.mk.inj (Option.some.inj h)
      exact ⟨_, rfl⟩

theorem blames_of_mem {e : ConfigError} {options : List (Scalar × Value)} {x : Scalar × Value}
    (hx : x ∈ options) (h : e.option? = some (snakeCase x.1.text, x.2)) : e.Blames options :=
  ⟨x, hx, h, exists_message h⟩

theorem Blames.mono {e : ConfigError} {options options' : List (Scalar × Value)}
    (h : e.Blames options) (hsub : options ⊆ options') : e.Blames options' := by
  obtain ⟨x, hx, h⟩ := h
  exact ⟨x, hsub hx, h⟩

end ConfigError

namespace Fields

variable {base r : Fields} {options : List (Scalar × Value)} {key : String} {e : ConfigError}

theorem option?_of_readAs {current v : Value} (h : readAs key current v = .error e) :
    e.option? = some (key, v) := by
  unfold readAs at h
  split at h
  · have h := map_eq_error.mp h
    unfold readSwitch at h
    split at h <;> cases h
    rfl
  · have h := map_eq_error.mp h
    unfold readLimit at h
    split at h
    · split at h <;> cases h
      rfl
    · cases h
      rfl
  · have h := map_eq_error.mp h
    unfold readList at h
    split at h <;> cases h
    rfl
  · have h := map_eq_error.mp h
    unfold readTable at h
    split at h <;> cases h
    rfl
  · contradiction

theorem blames_of_apply (h : base.apply options = .error e) : e.Blames options := by
  obtain ⟨fields, x, hx, hset⟩ := exists_step_error h
  simp only [set] at hset
  split at hset
  · exact ConfigError.blames_of_mem hx (option?_of_readAs (map_eq_error.mp hset))
  · contradiction

theorem eq_of_checkLevel_error (h : checkLevel r = .error e) :
    ∃ v, r.get? RulesDraft.levelKey = some v ∧ WeakLevel.ofValue? v = none ∧
      e = .unknownLevel v := by
  rw [checkLevel] at h
  split at h
  · next v hv =>
      split at h
      · contradiction
      · next hlevel =>
          exact ⟨v, hv, Option.not_isSome_iff_eq_none.mp hlevel, (Except.error.inj h).symm⟩
  · contradiction

end Fields

namespace RulesConfig

variable {cfg : RulesConfig} {options : List (Scalar × Value)} {e : ConfigError}

theorem blames_of_apply (h : cfg.apply options = .error e) : e.Blames options := by
  have hentries : Fields.apply cfg.entries options >>= Fields.checkLevel = .error e := by
    rw [← entries_apply, h]
    rfl
  rcases bind_eq_error.mp hentries with happly | ⟨r, hr, hcheck⟩
  · exact Fields.blames_of_apply happly
  · obtain ⟨v, hv, hlevel, rfl⟩ := Fields.eq_of_checkLevel_error hcheck
    rw [get?_level_apply hr, Option.some.injEq] at hv
    cases hlast : Fields.last? options RulesDraft.levelKey with
    | none =>
        rw [hlast, Option.getD_none] at hv
        cases hlevel.symm.trans (WeakLevel.ofValue?_eq_some.mpr hv.symm)
    | some w =>
        rw [hlast, Option.getD_some] at hv
        obtain ⟨x, hx, hkey, rfl⟩ := Fields.mem_of_last? hlast
        exact ConfigError.blames_of_mem hx (by rw [hkey, hv]; rfl)

end RulesConfig

theorem FilterConfig.blames_of_apply {cfg : FilterConfig} {options : List (Scalar × Value)}
    {e : ConfigError} (h : cfg.apply options = .error e) : e.Blames options :=
  Fields.blames_of_apply (by rw [← entries_apply, h]; rfl)

namespace Settings

variable {document : Value} {entries : List (Scalar × Value)} {e : ConfigError}

def optionsOf (entries : List (Scalar × Value)) : List (Scalar × Value) :=
  flat entries ++ (table? entries "filter").getD []

structure SectionReads (entries : List (Scalar × Value)) : Prop where
  rules : Fields.Reads (RulesConfig.entries {}) (flat entries)
  level : ∀ v, Fields.last? (flat entries) RulesDraft.levelKey = some v →
    (WeakLevel.ofValue? v).isSome
  filter : ∀ options, table? entries "filter" = some options →
    Fields.Reads (FilterConfig.entries {}) options

theorem exists_ofSection_iff : (∃ s, ofSection entries = .ok s) ↔ SectionReads entries := by
  have hfilter : (∃ filter, readFilter entries = .ok filter) ↔
      ∀ options, table? entries "filter" = some options →
        Fields.Reads (FilterConfig.entries {}) options := by
    rw [readFilter]
    cases table? entries "filter" with
    | none => simp
    | some options => simpa using FilterConfig.exists_apply_iff
  simp only [ofSection_eq_ok]
  constructor
  · rintro ⟨_, rules, filter, hrules, hread, _⟩
    obtain ⟨hreads, hlevel⟩ := RulesConfig.exists_apply_iff.mp ⟨rules, hrules⟩
    exact ⟨hreads, hlevel, hfilter.mp ⟨filter, hread⟩⟩
  · rintro ⟨hreads, hlevel, hoptions⟩
    obtain ⟨rules, hrules⟩ := RulesConfig.exists_apply_iff.mpr ⟨hreads, hlevel⟩
    obtain ⟨filter, hread⟩ := hfilter.mpr hoptions
    exact ⟨_, rules, filter, hrules, hread, rfl⟩

theorem blames_of_ofSection (h : ofSection entries = .error e) : e.Blames (optionsOf entries) := by
  rw [ofSection_eq] at h
  rcases bind_eq_error.mp h with hrules | ⟨rules, _, hfilter⟩
  · exact (RulesConfig.blames_of_apply hrules).mono (List.subset_append_left _ _)
  · have hfilter := map_eq_error.mp hfilter
    rw [readFilter] at hfilter
    rw [optionsOf]
    cases htable : table? entries "filter" with
    | none =>
        rw [htable] at hfilter
        contradiction
    | some options =>
        rw [htable] at hfilter
        exact (FilterConfig.blames_of_apply hfilter).mono (List.subset_append_right _ _)

def sectionOf? (document : Value) : Option Value :=
  (document.get? "tool").bind (·.get? "japroselint")

theorem ofDocument_eq (document : Value) :
    ofDocument document =
      match sectionOf? document with
      | none => .ok {}
      | some (.map entries) => (ofSection entries).mapError .config
      | some _ => .error .sectionNotTable := by
  rw [ofDocument, sectionOf?]
  cases document.get? "tool" with
  | none => rfl
  | some tool =>
      cases tool with
      | map tool => rfl
      | list items => rfl
      | scalar s => rfl

theorem exists_ofDocument_iff : (∃ s, ofDocument document = .ok s) ↔
    ∀ v, sectionOf? document = some v → ∃ entries, v = .map entries ∧ SectionReads entries := by
  rw [ofDocument_eq]
  cases sectionOf? document with
  | none => simp
  | some v =>
      cases v with
      | map entries => simp [mapError_eq_ok, exists_ofSection_iff]
      | list items => simp
      | scalar s => simp

theorem ofDocument_eq_sectionNotTable : ofDocument document = .error .sectionNotTable ↔
    ∃ v, sectionOf? document = some v ∧ isTable v = false := by
  rw [ofDocument_eq]
  cases sectionOf? document with
  | none => simp
  | some v =>
      cases v with
      | map entries => simp [mapError_eq_error, isTable]
      | list items => simp [isTable]
      | scalar s => simp [isTable]

theorem blames_of_ofDocument {f : SettingsFileError} (h : ofDocument document = .error f)
    (hf : f ≠ .sectionNotTable) : ∃ e entries, f = .config e ∧
      sectionOf? document = some (.map entries) ∧ e.Blames (optionsOf entries) := by
  rw [ofDocument_eq] at h
  split at h
  · contradiction
  · next entries hsection =>
      obtain ⟨e, hread, rfl⟩ := mapError_eq_error.mp h
      exact ⟨e, entries, rfl, hsection, blames_of_ofSection hread⟩
  · exact absurd (Except.error.inj h).symm hf

/-- A document gives settings exactly if its section, where it has one, is a table whose options can
be read.  Otherwise an option is to blame, or the section is no table, which is no error of the
settings. -/
theorem ofDocument_outcome (document : Value) :
    ((∃ s, ofDocument document = .ok s) ↔
      ∀ v, sectionOf? document = some v → ∃ entries, v = .map entries ∧ SectionReads entries) ∧
    (((∃ s, ofDocument document = .ok s) ∨ ∃ e, ofDocument document = .error (.config e)) ↔
      ∀ v, sectionOf? document = some v → isTable v = true) ∧
    ∀ e, ofDocument document = .error (.config e) → ∃ entries,
      sectionOf? document = some (.map entries) ∧ e.Blames (optionsOf entries) := by
  refine ⟨exists_ofDocument_iff, ?_, fun e he => ?_⟩
  · have htable : (∀ v, sectionOf? document = some v → isTable v = true) ↔
        ofDocument document ≠ .error .sectionNotTable := by
      rw [ne_eq, ofDocument_eq_sectionNotTable]
      simp
    rw [htable]
    cases houtcome : ofDocument document with
    | ok s => simp
    | error f =>
        constructor
        · rintro (⟨s, hs⟩ | ⟨e, he⟩)
          · contradiction
          · simp [Except.error.inj he]
        · intro hne
          obtain ⟨e, _, rfl, _⟩ := blames_of_ofDocument houtcome fun hf => hne (hf ▸ rfl)
          exact Or.inr ⟨e, rfl⟩
  · obtain ⟨_, entries, heq, hsection, hblames⟩ := blames_of_ofDocument he (by simp)
    exact ⟨entries, hsection, SettingsFileError.config.inj heq ▸ hblames⟩

/-- A number in the place of the section. -/
theorem ofDocument_number :
    ¬((∃ s, ofDocument (.map [(.str "tool", .map [(.str "japroselint", .int 1)])]) = .ok s) ∨
      ∃ e, ofDocument (.map [(.str "tool", .map [(.str "japroselint", .int 1)])]) =
        .error (.config e)) := by
  have hread : ofDocument (.map [(.str "tool", .map [(.str "japroselint", .int 1)])]) =
      .error .sectionNotTable := rfl
  simp [hread]

end Settings

end Kouetsu
