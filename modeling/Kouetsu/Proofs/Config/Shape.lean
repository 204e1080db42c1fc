import Kouetsu.Proofs.Config.Fields
/-!
# The shape of settings

Every field keeps the kind of value that it has in the initial settings.  Since options are read by
the kinds of the fields, options that the initial settings accept are accepted by all settings.
-/

namespace Kouetsu

/-- Values that may take the place of an initial one: truth values, thresholds of at least one,
levels, lists, and tables of texts under distinct keys. -/
inductive Value.Shaped : String → Value → Value → Prop where
  | switch {key : String} (b b' : Bool) : Shaped key (.bool b) (.bool b')
  | limit {key : String} (n : Int) {n' : Int} (h : 1 ≤ n') : Shaped key (.int n) (.int n')
  | level (l l' : WeakLevel) : Shaped RulesDraft.levelKey (.str l.name) (.str l'.name)
  | list {key : String} (items items' : List Value) : Shaped key (.list items) (.list items')
  | terms {key : String} (entries : List (Scalar × Value)) {terms : Entries String String}
      (h : terms.keys.Nodup) : Shaped key (.map entries) (.ofTerms terms)

namespace Fields

/-- Fields of the same names as the initial ones, with values of the same kinds. -/
structure KeepsShape (fields initial : Fields) : Prop where
  keys : fields.keys = initial.keys
  values : ∀ {key : String} {d v : Value}, initial.get? key = some d → fields.get? key = some v →
    Value.Shaped key d v

variable {initial base fields r : Fields} {options : List (Scalar × Value)} {key : String}

namespace KeepsShape

theorem get?_eq_none (h : fields.KeepsShape initial) :
    fields.get? key = none ↔ initial.get? key = none := by
  rw [Entries.get?_eq_none, Entries.get?_eq_none, h.keys]

theorem exists_value (h : fields.KeepsShape initial) {d : Value} (hd : initial.get? key = some d) :
    ∃ v, fields.get? key = some v ∧ Value.Shaped key d v := by
  cases hv : fields.get? key with
  | none => cases hd.symm.trans (h.get?_eq_none.mp hv)
  | some v => exact ⟨v, rfl, h.values hd hv⟩

theorem exists_initial (h : fields.KeepsShape initial) {v : Value} (hv : fields.get? key = some v) :
    ∃ d, initial.get? key = some d ∧ Value.Shaped key d v := by
  cases hd : initial.get? key with
  | none => cases hv.symm.trans (h.get?_eq_none.mpr hd)
  | some d => exact ⟨d, rfl, h.values hd hv⟩

theorem insert (h : fields.KeepsShape initial) {d v : Value} (hd : initial.get? key = some d)
    (hv : Value.Shaped key d v) : KeepsShape (fields.insert key v) initial where
  keys := by
    rw [Entries.keys_insert, if_pos (h.keys ▸ Entries.mem_keys_of_get? hd), h.keys]
  values := by
    intro key' d' v' hd' hv'
    rw [Entries.get?_insert] at hv'
    split at hv'
    · next hkey =>
        subst hkey
        obtain rfl : d = d' := Option.some.inj (hd.symm.trans hd')
        exact Option.some.inj hv' ▸ hv
    · exact h.values hd' hv'

end KeepsShape

/-! ## Options -/

theorem readAs_of_shaped {d v : Value} (h : Value.Shaped key d v) (w : Value) :
    readAs key v w = readAs key d w := by
  cases h <;> rfl

theorem shaped_of_readAs {d v w w' : Value} (h : Value.Shaped key d v)
    (hread : readAs key v w = .ok w')
    (hlevel : key = RulesDraft.levelKey → (WeakLevel.ofValue? w').isSome) :
    Value.Shaped key d w' := by
  cases h with
  | switch b b' =>
      obtain ⟨b'', _, rfl⟩ := map_eq_ok.mp hread
      exact .switch b b''
  | limit n _ =>
      obtain ⟨n'', hn'', rfl⟩ := map_eq_ok.mp hread
      exact .limit n (by exact_mod_cast pos_of_readLimit hn'')
  | level l l' =>
      obtain ⟨l'', hl''⟩ := Option.isSome_iff_exists.mp (hlevel rfl)
      exact WeakLevel.ofValue?_eq_some.mp hl'' ▸ .level l l''
  | list items _ =>
      obtain ⟨items'', _, rfl⟩ := map_eq_ok.mp hread
      exact .list items items''
  | terms entries _ =>
      obtain ⟨terms'', hterms'', rfl⟩ := map_eq_ok.mp hread
      obtain ⟨entries'', _, rfl⟩ := readTable_eq_ok.mp hterms''
      exact .terms entries (Settings.nodup_keys_textTable entries'')

theorem keys_apply (h : base.apply options = .ok r) : r.keys = base.keys := by
  refine foldlM_invariant_ok (P := fun fields : Fields => fields.keys = base.keys) h rfl ?_
  intro fields x fields' hfields _ hset
  rcases set_eq_ok_iff.mp hset with ⟨_, rfl⟩ | ⟨current, w, hcurrent, _, rfl⟩
  · exact hfields
  · rw [Entries.keys_insert, if_pos (hfields ▸ Entries.mem_keys_of_get? hcurrent), hfields]

theorem KeepsShape.apply (h : base.KeepsShape initial) (happly : base.apply options = .ok r)
    (hlevel : ∀ v, r.get? RulesDraft.levelKey = some v → (WeakLevel.ofValue? v).isSome) :
    r.KeepsShape initial where
  keys := (keys_apply happly).trans h.keys
  values := by
    intro key d v hd hv
    obtain ⟨current, hcurrent, hshaped⟩ := h.exists_value hd
    have hvalue := get?_apply happly hcurrent
    rw [hv] at hvalue
    cases hlast : last? options key with
    | none =>
        rw [hlast, Option.elim_none, Option.some.injEq] at hvalue
        exact hvalue ▸ hshaped
    | some w =>
        -- any value can be read for the level, so its shape rests on the final check
        rw [hlast, Option.elim_some, eq_comm, toOption_eq_some] at hvalue
        exact shaped_of_readAs hshaped hvalue fun hkey => hlevel v (hkey ▸ hv)

theorem isLevel_of_shaped {d v : Value} (h : Value.Shaped key d v)
    (hd : (WeakLevel.ofValue? d).isSome) : (WeakLevel.ofValue? v).isSome := by
  cases h with
  | level l l' => exact Option.isSome_iff_exists.mpr ⟨l', WeakLevel.ofValue?_eq_some.mpr rfl⟩
  | _ => contradiction

/-- Options that the initial settings accept are accepted by settings of their shape, and the level
that they leave is one of the three in both. -/
theorem KeepsShape.exists_apply (h : base.KeepsShape initial) {options : List (Scalar × Value)}
    {r : Fields} (happly : initial.apply options >>= checkLevel = .ok r) :
    ∃ r', base.apply options >>= checkLevel = .ok r' := by
  obtain ⟨changed, hchanged, hcheck⟩ := bind_eq_ok.mp happly
  obtain ⟨r', hr'⟩ : ∃ r', base.apply options = .ok r' := by
    refine exists_apply_iff.mpr fun x hx current hcurrent => ?_
    obtain ⟨d, hd, hshaped⟩ := h.exists_initial hcurrent
    rw [readAs_of_shaped hshaped]
    exact exists_apply_iff.mp ⟨changed, hchanged⟩ x hx d hd
  refine ⟨r', bind_eq_ok.mpr ⟨r', hr', checkLevel_eq_ok.mpr ⟨rfl, fun v hv => ?_⟩⟩⟩
  -- either both levels stand as they were, or the same option has set them
  cases hd : initial.get? RulesDraft.levelKey with
  | none =>
      have hnone : r'.get? RulesDraft.levelKey = none := by
        rwa [Entries.get?_eq_none, keys_apply hr', ← Entries.get?_eq_none, h.get?_eq_none]
      cases hnone.symm.trans hv
  | some d =>
      obtain ⟨current, hcurrent, hshaped⟩ := h.exists_value hd
      have hlevel := (checkLevel_eq_ok.mp hcheck).2
      rw [get?_apply hchanged hd] at hlevel
      rw [get?_apply hr' hcurrent] at hv
      cases hlast : last? options RulesDraft.levelKey with
      | none =>
          rw [hlast, Option.elim_none] at hlevel hv
          exact Option.some.inj hv ▸ isLevel_of_shaped hshaped (hlevel d rfl)
      | some w =>
          rw [hlast, Option.elim_some, readAs_of_shaped hshaped] at hv
          exact hlevel v (by rw [hlast, Option.elim_some, hv])

end Fields

theorem Value.pos_of_shaped {key : String} {d : Value} {n : Int} (h : Shaped key d (.int n)) :
    0 < n := by
  cases h with
  | limit _ h => exact h

theorem Value.nodup_keys_of_shaped {key : String} {d : Value} {terms : Entries String String}
    (h : Shaped key d (.ofTerms terms)) : terms.keys.Nodup := by
  generalize hv : ofTerms terms = v at h
  cases h with
  | terms _ hnodup => exact ofTerms_injective hv ▸ hnodup
  | _ => exact absurd hv (by simp [ofTerms, record])

/-! ## Settings -/

namespace RulesConfig

variable {cfg cfg' : RulesConfig} {options : List (Scalar × Value)}

theorem keepsShape_initial : (entries {}).KeepsShape (entries {}) where
  keys := rfl
  values := by
    intro key d v hd hv
    obtain rfl : d = v := Option.some.inj (hd.symm.trans hv)
    rw [← RulesDraft.entries_draft, RulesDraft.get?_entries] at hd
    split at hd
    · exact Option.some.inj hd ▸ .switch _ _
    · next l _ _ => exact Option.some.inj hd ▸ .limit _ (by cases l <;> decide)
    · split at hd
      · next hkey => exact hkey ▸ Option.some.inj hd ▸ .level .normal .normal
      · split at hd
        · exact Option.some.inj hd ▸ .list _ _
        · split at hd
          · exact Option.some.inj hd ▸ .terms _ List.nodup_nil
          · contradiction

theorem keepsShape_apply (h : cfg.entries.KeepsShape (entries {}))
    (hread : cfg.apply options = .ok cfg') : cfg'.entries.KeepsShape (entries {}) := by
  obtain ⟨happly, hlevel⟩ := exists_apply_entries_iff.mp ⟨cfg', hread, rfl⟩
  exact h.apply happly hlevel

theorem keepsShape_withTerms (h : cfg.entries.KeepsShape (entries {}))
    (terms : Entries String String) : (cfg.withTerms terms).entries.KeepsShape (entries {}) := by
  have hkeys : cfg.customTerms.keys.Nodup :=
    Value.nodup_keys_of_shaped (h.values (get?_terms {}) (get?_terms cfg))
  rw [entries_withTerms]
  exact h.insert (get?_terms {}) (.terms _ (Entries.nodup_keys_merge hkeys terms))

theorem Accepted.keepsShape (h : cfg.Accepted) : cfg.entries.KeepsShape (entries {}) := by
  induction h with
  | initial => exact keepsShape_initial
  | apply _ hread ih => exact keepsShape_apply ih hread
  | withTerms _ terms ih => exact keepsShape_withTerms ih terms

theorem Accepted.limits_pos (h : cfg.Accepted) (l : Limit) : 0 < cfg.limits l := by
  have hpos := Value.pos_of_shaped (h.keepsShape.values (get?_limit {} l) (get?_limit cfg l))
  exact_mod_cast hpos

/-- Options that the initial settings accept are accepted by all settings of their shape. -/
theorem exists_apply (h : cfg.entries.KeepsShape (entries {}))
    (hread : RulesConfig.apply {} options = .ok cfg') : ∃ cfg'', cfg.apply options = .ok cfg'' := by
  have hinitial := entries_apply {} options
  rw [hread] at hinitial
  obtain ⟨r, hr⟩ := h.exists_apply hinitial.symm
  rw [← entries_apply] at hr
  obtain ⟨cfg'', hcfg'', _⟩ := map_eq_ok.mp hr
  exact ⟨cfg'', hcfg''⟩

end RulesConfig

namespace FilterConfig

variable {cfg cfg' : FilterConfig} {options : List (Scalar × Value)}

theorem keepsShape_initial : (entries {}).KeepsShape (entries {}) where
  keys := rfl
  values := by
    intro key d v hd hv
    obtain rfl : d = v := Option.some.inj (hd.symm.trans hv)
    rw [get?_entries] at hd
    split at hd
    · exact Option.some.inj hd ▸ .switch _ _
    · split at hd
      · exact Option.some.inj hd ▸ .list _ _
      · contradiction

theorem keepsShape_apply (h : cfg.entries.KeepsShape (entries {}))
    (hread : cfg.apply options = .ok cfg') : cfg'.entries.KeepsShape (entries {}) := by
  have hentries := entries_apply cfg options
  rw [hread] at hentries
  refine h.apply hentries.symm fun v hv => ?_
  rw [get?_entries, show FilterSwitch.ofKey? RulesDraft.levelKey = none by decide] at hv
  contradiction

theorem keepsShape_withPatterns (h : cfg.entries.KeepsShape (entries {})) (patterns : List String) :
    (cfg.withPatterns patterns).entries.KeepsShape (entries {}) := by
  have hcustom : Entries.get? (entries {}) customKey = some (.list []) := by
    rw [get?_entries, show FilterSwitch.ofKey? customKey = none by decide]
    rfl
  rw [show (cfg.withPatterns patterns).entries = Entries.insert customKey
    (.list (cfg.custom ++ patterns.map .str)) cfg.entries from (insert_custom _).symm]
  exact h.insert hcustom (.list _ _)

end FilterConfig

theorem RuleFile.exists_apply_of_readSettings {v : Value} {path : String}
    {settings : List (Scalar × Value)} (h : RuleFile.readSettings path v = .ok settings) :
    ∃ cfg, RulesConfig.apply {} settings = .ok cfg := by
  unfold readSettings at h
  split at h
  · obtain ⟨cfg, hcfg, h⟩ := bind_eq_ok.mp h
    obtain rfl := Except.ok.inj h
    exact ⟨cfg, mapError_eq_ok.mp hcfg⟩
  · contradiction

/-- What an accepted file sets is accepted by the initial settings. -/
theorem RuleFile.exists_apply_of_ofValue {characters : CharacterNames} {data : Value}
    {path : String} {f : RuleFile} (h : RuleFile.ofValue characters data path = .ok f) :
    ∃ cfg, RulesConfig.apply {} f.settings = .ok cfg := by
  unfold ofValue at h
  split at h
  · obtain ⟨rules, _, h⟩ := bind_eq_ok.mp h
    obtain rfl := Except.ok.inj h
    exact ⟨{}, rfl⟩
  · simp only at h
    split at h
    all_goals
      obtain ⟨rules, _, h⟩ := bind_eq_ok.mp h
      obtain ⟨excludes, _, h⟩ := bind_eq_ok.mp h
      obtain ⟨terms, _, h⟩ := bind_eq_ok.mp h
      obtain ⟨settings, hsettings, h⟩ := bind_eq_ok.mp h
      obtain rfl := Except.ok.inj h
      exact exists_apply_of_readSettings hsettings
  · contradiction

namespace Settings

/-- Settings that a section gives, or none, with what any rule files add. -/
inductive Reachable : Settings → Prop where
  | initial : Reachable {}
  | ofSection {entries : List (Scalar × Value)} {s : Settings} (h : ofSection entries = .ok s) :
      Reachable s
  | apply {f : RuleFile} {s s' : Settings} (hs : Reachable s) (h : f.apply s = .ok s') :
      Reachable s'

structure KeepsShape (s : Settings) : Prop where
  rules : s.rules.entries.KeepsShape (RulesConfig.entries {})
  filter : s.filter.entries.KeepsShape (FilterConfig.entries {})

theorem Reachable.accepted {s : Settings} (h : s.Reachable) : s.rules.Accepted := by
  induction h with
  | initial => exact .initial
  | ofSection h => exact accepted_of_ofSection h
  | apply _ h ih => exact RuleFile.accepted_of_apply ih h

theorem keepsShape_readFilter {entries : List (Scalar × Value)} {filter : FilterConfig}
    (h : readFilter entries = .ok filter) :
    filter.entries.KeepsShape (FilterConfig.entries {}) := by
  rw [readFilter] at h
  cases htable : table? entries "filter" with
  | none =>
      rw [htable] at h
      exact Except.ok.inj h ▸ FilterConfig.keepsShape_initial
  | some options =>
      rw [htable] at h
      exact FilterConfig.keepsShape_apply FilterConfig.keepsShape_initial h

theorem Reachable.keepsShape {s : Settings} (h : s.Reachable) : s.KeepsShape where
  rules := h.accepted.keepsShape
  filter := by
    induction h with
    | initial => exact FilterConfig.keepsShape_initial
    | ofSection h =>
        obtain ⟨_, filter, _, hfilter, rfl⟩ := ofSection_eq_ok.mp h
        exact keepsShape_readFilter hfilter
    | apply _ h ih =>
        obtain ⟨rules, _, h⟩ := bind_eq_ok.mp h
        obtain rfl := Except.ok.inj h
        exact FilterConfig.keepsShape_withPatterns ih _

/-- Settings keep the shape of the initial ones, options are read by the kinds of their fields, and
a rule file that is accepted can be applied to them. -/
theorem Reachable.keepsShape_and_applies {s : Settings} (h : s.Reachable) :
    s.KeepsShape ∧
      (∀ options, (s.rules.apply options).map RulesConfig.entries =
        s.rules.entries.apply options >>= Fields.checkLevel) ∧
      (∀ options, (s.filter.apply options).map FilterConfig.entries =
        s.filter.entries.apply options) ∧
      ∀ (characters : CharacterNames) (data : Value) (path : String) (f : RuleFile),
        RuleFile.ofValue characters data path = .ok f → ∃ s', f.apply s = .ok s' := by
  refine ⟨h.keepsShape, s.rules.entries_apply, s.filter.entries_apply,
    fun characters data path f hf => ?_⟩
  obtain ⟨cfg, hcfg⟩ := RuleFile.exists_apply_of_ofValue hf
  obtain ⟨rules, hrules⟩ := RulesConfig.exists_apply h.keepsShape.rules hcfg
  exact ⟨_, bind_eq_ok.mpr ⟨rules, hrules, rfl⟩⟩

/-- A file that sets the level, applied to settings with a threshold of their own. -/
theorem keepsShape_and_applies_level :
    ∃ s f s', ofSection [(.str "commaCountThreshold", .int 7)] = .ok s ∧
      RuleFile.ofValue (fun _ => none)
        (.map [(.str "settings", .map [(.str "weakExpressionLevel", .str "strict")])])
        "rules.yml" = .ok f ∧
      f.apply s = .ok s' ∧ s.KeepsShape := by
  obtain ⟨s, hs⟩ : ∃ s, ofSection [(.str "commaCountThreshold", .int 7)] = .ok s :=
    exists_eq_ok (by decide +kernel)
  obtain ⟨f, hf⟩ : ∃ f, RuleFile.ofValue (fun _ => none)
      (.map [(.str "settings", .map [(.str "weakExpressionLevel", .str "strict")])])
        "rules.yml" = .ok f :=
    exists_eq_ok (by decide +kernel)
  obtain ⟨hshape, -, -, happlies⟩ := (Reachable.ofSection hs).keepsShape_and_applies
  obtain ⟨s', hs'⟩ := happlies _ _ _ f hf
  exact ⟨s, f, s', hs, hf, hs', hshape⟩

end Settings

end Kouetsu
