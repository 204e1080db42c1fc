import Kouetsu.Proofs.Config.Shape
import Mathlib.Data.List.Find
/-!
# Layers of options

Options are applied layer by layer.  Two layers change settings as one list of both does, since the
kind by which a value is read never changes.  In each field the last option of its name counts, in
whichever layer and spelling it stands, and options of other names count nowhere.
-/

namespace Kouetsu

namespace Fields

variable {base r : Fields} {options options' : List (Scalar × Value)}

def known (base : Fields) (options : List (Scalar × Value)) : List (Scalar × Value) :=
  options.filter fun x => snakeCase x.1.text ∈ base.keys

/-- Options that say the same of every field: the last one has the same value, and none has a value
that is not already given to its field. -/
structure Retells (base : Fields) (options options' : List (Scalar × Value)) : Prop where
  last : ∀ key ∈ base.keys, last? options' key = last? options key
  mem : ∀ x ∈ base.known options', ∃ y ∈ options,
    snakeCase y.1.text = snakeCase x.1.text ∧ y.2 = x.2

theorem apply_append (base : Fields) (options options' : List (Scalar × Value)) :
    base.apply (options ++ options') = base.apply options >>= fun fields =>
      options'.foldlM (fun fields x => base.set fields x.1 x.2) fields :=
  List.foldlM_append

theorem apply_known (base : Fields) (options : List (Scalar × Value)) :
    base.apply (base.known options) = base.apply options := by
  refine foldlM_filter (fun fields x _ hx => ?_) base
  have hnone : base.get? (snakeCase x.1.text) = none :=
    Entries.get?_eq_none.mpr (of_decide_eq_false hx)
  exact set_eq_ok_iff.mpr (Or.inl ⟨hnone, rfl⟩)

theorem last?_append (options options' : List (Scalar × Value)) (key : String) :
    last? (options ++ options') key = (last? options' key).or (last? options key) := by
  rw [last?, List.reverse_append, List.find?_append, Option.map_or]
  rfl

/-- The last option of a name is there as long as the ones left out are of names that follow. -/
theorem last?_filter_append {p : Scalar × Value → Bool}
    (h : ∀ x ∈ options, p x = false → ∃ y ∈ options', snakeCase y.1.text = snakeCase x.1.text)
    (key : String) :
    last? (options.filter p ++ options') key = last? (options ++ options') key := by
  rw [last?_append, last?_append]
  cases hlast : last? options' key with
  | some v => rfl
  | none =>
      rw [Option.none_or, Option.none_or]
      have hnone : ∀ y ∈ options', snakeCase y.1.text ≠ key := by
        simpa [last?] using hlast
      rw [last?, last?, ← List.filter_reverse, List.find?_filter]
      refine congrArg _ (List.find?_congr fun x hx => ?_)
      cases hpx : p x with
      | true => simp
      | false =>
          obtain ⟨y, hy, hname⟩ := h x (List.mem_reverse.mp hx) hpx
          simp [hname ▸ hnone y hy]

theorem retells_filter_append {p : Scalar × Value → Bool}
    (h : ∀ x ∈ options, p x = false → ∃ y ∈ options', snakeCase y.1.text = snakeCase x.1.text)
    (base : Fields) : base.Retells (options ++ options') (options.filter p ++ options') where
  last := fun key _ => last?_filter_append h key
  mem := by
    intro x hx
    have hx : x ∈ options.filter p ++ options' := (List.mem_filter.mp hx).1
    refine ⟨x, ?_, rfl, rfl⟩
    rcases List.mem_append.mp hx with hx | hx
    · exact List.mem_append_left _ (List.mem_filter.mp hx).1
    · exact List.mem_append_right _ hx

theorem apply_of_retells (hbase : base.keys.Nodup) (h : base.apply options = .ok r)
    (hretells : base.Retells options options') : base.apply options' = .ok r := by
  -- each option that names a field is read as one that has been read before
  obtain ⟨r', hr'⟩ : ∃ r', base.apply options' = .ok r' := by
    refine exists_apply_iff.mpr fun x hx current hcurrent => ?_
    have hknown : x ∈ base.known options' :=
      List.mem_filter.mpr ⟨hx, decide_eq_true (Entries.mem_keys_of_get? hcurrent)⟩
    obtain ⟨y, hy, hname, hvalue⟩ := hretells.mem x hknown
    rw [← hname] at hcurrent ⊢
    exact hvalue ▸ exists_apply_iff.mp ⟨r, h⟩ y hy current hcurrent
  have hkeys : r'.keys = r.keys := (keys_apply hr').trans (keys_apply h).symm
  obtain rfl : r' = r := by
    refine Entries.ext_get? (keys_apply h ▸ hbase) hkeys fun key hkey => ?_
    rw [keys_apply h] at hkey
    cases hcurrent : base.get? key with
    | none => exact absurd hkey (Entries.get?_eq_none.mp hcurrent)
    | some current => rw [get?_apply h hcurrent, get?_apply hr' hcurrent, hretells.last key hkey]
  exact hr'

end Fields

/-! ## Settings that are changed field by field -/

/-- Settings that options change field by field, by kinds that stay, with a check of what comes out.
Nothing but the fields, and what is kept of any settings, makes the settings. -/
structure FieldWise {γ κ : Type} (entries : γ → Fields) (kept : γ → κ)
    (apply : γ → List (Scalar × Value) → Except ConfigError γ)
    (check : Fields → Except ConfigError Fields) : Prop where
  injective : Function.Injective fun c => (entries c, kept c)
  kept_apply : ∀ {c c' options}, apply c options = .ok c' → kept c' = kept c
  nodup_keys : ∀ c, (entries c).keys.Nodup
  set_eq : ∀ c c', (entries c).set = (entries c').set
  map_apply : ∀ c options, (apply c options).map entries = (entries c).apply options >>= check
  eq_of_check : ∀ {r r'}, check r = .ok r' → r = r'

/-- Two layers of options that change settings as one does. -/
structure Composes {γ : Type} (entries : γ → Fields)
    (apply : γ → List (Scalar × Value) → Except ConfigError γ) (base c₁ c₂ : γ)
    (o₁ o₂ : List (Scalar × Value)) : Prop where
  /-- One list with the options of both. -/
  append : apply base (o₁ ++ o₂) = .ok c₂
  /-- What is read for each field is the last option of its name. -/
  field : ∀ key current, (entries base).get? key = some current →
    (entries c₂).get? key = ((Fields.last? o₂ key).or (Fields.last? o₁ key)).elim (some current)
      fun v => (Fields.readAs key current v).toOption
  /-- Options of the first layer may be left out where the second one names their fields. -/
  overridden : ∀ p : Scalar × Value → Bool,
    (∀ x ∈ o₁, p x = false → ∃ y ∈ o₂, snakeCase y.1.text = snakeCase x.1.text) →
      apply base (o₁.filter p ++ o₂) = .ok c₂
  /-- Any other order and spelling in which the options say the same. -/
  retold : ∀ o, (entries base).Retells (o₁ ++ o₂) o → apply base o = .ok c₂
  /-- Options of unknown names may be put in and left out anywhere. -/
  unknown : ∀ o₁' o₂', (entries base).known o₁' = (entries base).known o₁ →
    (entries base).known o₂' = (entries base).known o₂ →
      apply base o₁' = .ok c₁ ∧ apply c₁ o₂' = .ok c₂ ∧ apply base (o₁' ++ o₂') = .ok c₂

namespace FieldWise

variable {γ κ : Type} {entries : γ → Fields} {kept : γ → κ}
  {apply : γ → List (Scalar × Value) → Except ConfigError γ}
  {check : Fields → Except ConfigError Fields} {base c c₁ c₂ : γ}
  {options options' o₁ o₂ : List (Scalar × Value)}

theorem apply_eq_of_map (h : FieldWise entries kept apply check) (hkept : kept c = kept c₁)
    (heq : (apply c options).map entries = (apply c₁ options').map entries) :
    apply c options = apply c₁ options' := by
  cases hleft : apply c options with
  | error e =>
      rw [hleft] at heq
      exact (map_eq_error.mp heq.symm).symm
  | ok a =>
      rw [hleft] at heq
      obtain ⟨b, hb, hab⟩ := map_eq_ok.mp heq.symm
      have hrest : kept b = kept a :=
        (h.kept_apply hb).trans (hkept.symm.trans (h.kept_apply hleft).symm)
      rw [hb, h.injective (Prod.ext hab hrest)]

theorem apply_eq_ok (h : FieldWise entries kept apply check) : apply c options = .ok c₁ ↔
    (entries c).apply options = .ok (entries c₁) ∧ check (entries c₁) = .ok (entries c₁) ∧
      kept c₁ = kept c := by
  have hmap : apply c options = .ok c₁ ↔
      (apply c options).map entries = .ok (entries c₁) ∧ kept c₁ = kept c := by
    rw [map_eq_ok]
    constructor
    · exact fun happly => ⟨⟨c₁, happly, rfl⟩, h.kept_apply happly⟩
    · rintro ⟨⟨c', happly, hfields⟩, hkept⟩
      rw [happly, h.injective (Prod.ext hfields ((h.kept_apply happly).trans hkept.symm))]
  rw [hmap, h.map_apply, bind_eq_ok]
  constructor
  · rintro ⟨⟨r, hr, hcheck⟩, hkept⟩
    obtain rfl := h.eq_of_check hcheck
    exact ⟨hr, hcheck, hkept⟩
  · exact fun ⟨hr, hcheck, hkept⟩ => ⟨⟨_, hr, hcheck⟩, hkept⟩

theorem apply_congr_known (h : FieldWise entries kept apply check)
    (hknown : (entries c).known options' = (entries c).known options) :
    apply c options' = apply c options := by
  apply h.apply_eq_of_map rfl
  rw [h.map_apply, h.map_apply, ← Fields.apply_known, hknown, Fields.apply_known]

/-- The second layer is read by the kinds that the settings had before the first one. -/
theorem apply_append (h : FieldWise entries kept apply check) (h₁ : apply base o₁ = .ok c₁)
    (o₂ : List (Scalar × Value)) : apply base (o₁ ++ o₂) = apply c₁ o₂ := by
  apply h.apply_eq_of_map (h.kept_apply h₁).symm
  rw [h.map_apply, h.map_apply, Fields.apply_append, (h.apply_eq_ok.mp h₁).1, h.set_eq base c₁]
  rfl

theorem keys_eq (h : FieldWise entries kept apply check) (h₁ : apply base o₁ = .ok c₁) :
    (entries c₁).keys = (entries base).keys :=
  Fields.keys_apply (h.apply_eq_ok.mp h₁).1

theorem composes (h : FieldWise entries kept apply check) (h₁ : apply base o₁ = .ok c₁)
    (h₂ : apply c₁ o₂ = .ok c₂) : Composes entries apply base c₁ c₂ o₁ o₂ := by
  -- the rest follows from the one list, whose check has been passed
  have happend : apply base (o₁ ++ o₂) = .ok c₂ := (h.apply_append h₁ o₂).trans h₂
  obtain ⟨hfields, hchecked⟩ := h.apply_eq_ok.mp happend
  have hretold (o : List (Scalar × Value)) (ho : (entries base).Retells (o₁ ++ o₂) o) :
      apply base o = .ok c₂ :=
    h.apply_eq_ok.mpr ⟨Fields.apply_of_retells (h.nodup_keys base) hfields ho, hchecked⟩
  refine ⟨happend, fun key current hcurrent => ?_, fun p hp => hretold _ ?_, hretold, ?_⟩
  · rw [Fields.get?_apply hfields hcurrent, Fields.last?_append]
  · exact Fields.retells_filter_append hp _
  · intro o₁' o₂' ho₁ ho₂
    have h₁' : apply base o₁' = .ok c₁ := (h.apply_congr_known ho₁).trans h₁
    have h₂' : apply c₁ o₂' = .ok c₂ := by
      rw [Fields.known, Fields.known, ← h.keys_eq h₁] at ho₂
      exact (h.apply_congr_known ho₂).trans h₂
    exact ⟨h₁', h₂', (h.apply_append h₁' o₂').trans h₂'⟩

end FieldWise

namespace RulesConfig

theorem entries_injective : Function.Injective entries := by
  intro cfg cfg' h
  have hget (key : String) : Entries.get? cfg.entries key = Entries.get? cfg'.entries key :=
    congrArg (fun e => Entries.get? e key) h
  have hswitches : cfg.switches = cfg'.switches := by
    funext s
    simpa [get?_switch] using hget s.key
  have hlimits : cfg.limits = cfg'.limits := by
    funext l
    have hlimit : (cfg.limits l : Int) = cfg'.limits l := by
      simpa [get?_limit] using hget l.key
    exact_mod_cast hlimit
  have hlevel : cfg.level = cfg'.level :=
    WeakLevel.name_injective (by simpa [get?_level] using hget RulesDraft.levelKey)
  have hlanguages : cfg.excludedLanguages = cfg'.excludedLanguages := by
    simpa [get?_languages] using hget RulesDraft.languagesKey
  have hterms : cfg.customTerms = cfg'.customTerms :=
    Value.ofTerms_injective (by simpa [get?_terms] using hget RulesDraft.termsKey)
  cases cfg
  cases cfg'
  exact mk.injEq .. ▸ ⟨hswitches, hlimits, hlevel, hlanguages, hterms⟩

/-- A value is read for a field by a kind that is the same in all settings. -/
theorem set_entries (cfg cfg' : RulesConfig) :
    Fields.set cfg.entries = Fields.set cfg'.entries := by
  funext fields name v
  rw [← RulesDraft.entries_draft, ← RulesDraft.entries_draft, Fields.set, Fields.set,
    RulesDraft.get?_entries, RulesDraft.get?_entries]
  generalize snakeCase name.text = key
  cases Switch.ofKey? key with
  | some s => rfl
  | none =>
      cases Limit.ofKey? key with
      | some l => rfl
      | none =>
          simp only
          split_ifs <;> rfl

theorem fieldWise : FieldWise entries (fun _ => ()) apply Fields.checkLevel where
  injective := fun _ _ h => entries_injective (congrArg Prod.fst h)
  kept_apply := fun _ => rfl
  nodup_keys := nodup_keys_entries
  set_eq := set_entries
  map_apply := entries_apply
  eq_of_check := fun h => (Fields.checkLevel_eq_ok.mp h).1

end RulesConfig

namespace FilterConfig

theorem entries_injective :
    Function.Injective fun cfg : FilterConfig => (cfg.entries, cfg.characters) := by
  intro cfg cfg' h
  obtain ⟨hentries, hcharacters⟩ := Prod.mk.inj h
  have hget (key : String) : Entries.get? cfg.entries key = Entries.get? cfg'.entries key :=
    congrArg (fun e => Entries.get? e key) hentries
  have hswitches : cfg.switches = cfg'.switches := by
    funext s
    have hkey : FilterSwitch.ofKey? s.key = some s := by cases s <;> decide
    simpa [get?_entries, hkey] using hget s.key
  have hcustom : cfg.custom = cfg'.custom := by
    have hkey : FilterSwitch.ofKey? customKey = none := by decide
    simpa [get?_entries, hkey] using hget customKey
  cases cfg
  cases cfg'
  exact mk.injEq .. ▸ ⟨hswitches, hcustom, hcharacters⟩

theorem characters_of_apply {cfg cfg' : FilterConfig} {options : List (Scalar × Value)}
    (h : cfg.apply options = .ok cfg') : cfg'.characters = cfg.characters := by
  refine foldlM_invariant_ok (P := fun c : FilterConfig => c.characters = cfg.characters) h rfl ?_
  intro c x c' hc _ hset
  unfold set at hset
  simp only at hset
  split at hset
  · obtain ⟨b, _, hset⟩ := bind_eq_ok.mp hset
    exact Except.ok.inj hset ▸ hc
  · split at hset
    · obtain ⟨items, _, hset⟩ := bind_eq_ok.mp hset
      exact Except.ok.inj hset ▸ hc
    · exact Except.ok.inj hset ▸ hc

theorem set_entries (cfg cfg' : FilterConfig) :
    Fields.set cfg.entries = Fields.set cfg'.entries := by
  funext fields name v
  rw [Fields.set, Fields.set, get?_entries, get?_entries]
  generalize snakeCase name.text = key
  cases FilterSwitch.ofKey? key with
  | some s => rfl
  | none =>
      simp only
      split_ifs <;> rfl

theorem fieldWise : FieldWise entries characters apply .ok where
  injective := entries_injective
  kept_apply := characters_of_apply
  nodup_keys := nodup_keys_entries
  set_eq := set_entries
  map_apply := fun cfg options => by
    rw [entries_apply]
    cases cfg.entries.apply options <;> rfl
  eq_of_check := Except.ok.inj

end FilterConfig

namespace Settings

/-- Layers of options compose, for the checks as for the filter. -/
theorem apply_layers :
    (∀ {base c₁ c₂ : RulesConfig} {o₁ o₂ : List (Scalar × Value)}, base.apply o₁ = .ok c₁ →
      c₁.apply o₂ = .ok c₂ → Composes RulesConfig.entries RulesConfig.apply base c₁ c₂ o₁ o₂) ∧
    ∀ {base c₁ c₂ : FilterConfig} {o₁ o₂ : List (Scalar × Value)}, base.apply o₁ = .ok c₁ →
      c₁.apply o₂ = .ok c₂ → Composes FilterConfig.entries FilterConfig.apply base c₁ c₂ o₁ o₂ :=
  ⟨RulesConfig.fieldWise.composes, FilterConfig.fieldWise.composes⟩

/-- Two spellings of a threshold around an unknown name, and a switch that is set twice. -/
theorem apply_layers_spellings :
    (∃ c₁ c₂, RulesConfig.apply {} [(.str "commaCountThreshold", .int 7), (.str "colour", .int 0)] =
        .ok c₁ ∧ c₁.apply [(.str "comma-count-threshold", .int 9)] = .ok c₂ ∧
      Composes RulesConfig.entries RulesConfig.apply {} c₁ c₂
        [(.str "commaCountThreshold", .int 7), (.str "colour", .int 0)]
        [(.str "comma-count-threshold", .int 9)]) ∧
    ∃ c₁ c₂, FilterConfig.apply {} [(.str "excludeTables", .bool false)] = .ok c₁ ∧
      c₁.apply [(.str "colour", .int 0), (.str "exclude_tables", .bool true)] = .ok c₂ ∧
      Composes FilterConfig.entries FilterConfig.apply {} c₁ c₂
        [(.str "excludeTables", .bool false)]
        [(.str "colour", .int 0), (.str "exclude_tables", .bool true)] := by
  constructor
  · obtain ⟨c₂, h⟩ : ∃ c₂,
        (RulesConfig.apply {} [(.str "commaCountThreshold", .int 7), (.str "colour", .int 0)] >>=
          fun c₁ => c₁.apply [(.str "comma-count-threshold", .int 9)]) = .ok c₂ :=
      exists_eq_ok (by decide +kernel)
    obtain ⟨c₁, h₁, h₂⟩ := bind_eq_ok.mp h
    exact ⟨c₁, c₂, h₁, h₂, apply_layers.1 h₁ h₂⟩
  · obtain ⟨c₂, h⟩ : ∃ c₂,
        (FilterConfig.apply {} [(.str "excludeTables", .bool false)] >>= fun c₁ =>
          c₁.apply [(.str "colour", .int 0), (.str "exclude_tables", .bool true)]) = .ok c₂ :=
      exists_eq_ok (by decide +kernel)
    obtain ⟨c₁, h₁, h₂⟩ := bind_eq_ok.mp h
    exact ⟨c₁, c₂, h₁, h₂, apply_layers.2 h₁ h₂⟩

end Settings

end Kouetsu
