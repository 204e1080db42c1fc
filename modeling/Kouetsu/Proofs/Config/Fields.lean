import Kouetsu.Proofs.Config.Rules
import Kouetsu.Proofs.Proofreading
import Mathlib.Data.List.Induction
/-!
# Options and the fields that they set

Settings are fields under the names of options.  An option is read by the kind of the value that
stands in its field, and of several options for one field the last one counts.
-/

namespace Kouetsu

/-- Settings as values under the names of options. -/
abbrev Fields := Entries String Value

def Value.ofTerms (terms : Entries String String) : Value :=
  .record (terms.map fun (k, v) => (k, .str v))

theorem Value.ofTerms_injective : Function.Injective Value.ofTerms := by
  have hinner : Function.Injective fun x : String × String => (x.1, Value.str x.2) :=
    fun x y hxy => by simpa [Prod.ext_iff] using hxy
  have houter : Function.Injective fun x : String × Value => (Scalar.str x.1, x.2) :=
    fun x y hxy => by simpa [Prod.ext_iff] using hxy
  intro terms terms' h
  exact List.map_injective_iff.mpr hinner (List.map_injective_iff.mpr houter (Value.map.inj h))

namespace Fields

/-- Reads a value by the kind of the one whose place it takes.  Any value takes that of a text. -/
def readAs (key : String) (current v : Value) : Except ConfigError Value :=
  match current with
  | .bool _ => (readSwitch key v).map .bool
  | .int _ => (readLimit key v).map fun n : Nat => .int n
  | .list _ => (readList key v).map .list
  | .map _ => (readTable key v).map .ofTerms
  | _ => .ok v

theorem readAs_ofTerms (key : String) (terms : Entries String String) (v : Value) :
    readAs key (.ofTerms terms) v = (readTable key v).map .ofTerms := rfl

/-- Sets the field that a name stands for, by the kind of its value in `base`; unknown names set
nothing. -/
def set (base fields : Fields) (name : Scalar) (v : Value) : Except ConfigError Fields :=
  let key := snakeCase name.text
  match base.get? key with
  | some current => (readAs key current v).map fun w => fields.insert key w
  | none => .ok fields

def apply (base : Fields) (options : List (Scalar × Value)) : Except ConfigError Fields :=
  options.foldlM (fun fields (name, v) => base.set fields name v) base

def checkLevel (fields : Fields) : Except ConfigError Fields :=
  match fields.get? RulesDraft.levelKey with
  | some v => if (WeakLevel.ofValue? v).isSome then .ok fields else .error (.unknownLevel v)
  | none => .ok fields

/-- Options of which each can be read for the field that it names. -/
def Reads (base : Fields) (options : List (Scalar × Value)) : Prop :=
  ∀ x ∈ options, ∀ current, base.get? (snakeCase x.1.text) = some current →
    ∃ w, readAs (snakeCase x.1.text) current x.2 = .ok w

def last? (options : List (Scalar × Value)) (key : String) : Option Value :=
  (options.reverse.find? fun x => snakeCase x.1.text = key).map (·.2)

/-! ## What options set -/

variable {base r : Fields} {options : List (Scalar × Value)} {key : String}

theorem set_eq_ok_iff {fields fields' : Fields} {name : Scalar} {v : Value} :
    base.set fields name v = .ok fields' ↔
      (base.get? (snakeCase name.text) = none ∧ fields' = fields) ∨
        ∃ current w, base.get? (snakeCase name.text) = some current ∧
          readAs (snakeCase name.text) current v = .ok w ∧
            fields' = fields.insert (snakeCase name.text) w := by
  simp only [Fields.set]
  cases base.get? (snakeCase name.text) with
  | none => simp [eq_comm]
  | some current =>
      cases hread : readAs (snakeCase name.text) current v with
      | error e => simp [hread, Except.map]
      | ok w => simp [hread, Except.map, eq_comm]

theorem exists_apply_iff : (∃ r, base.apply options = .ok r) ↔ base.Reads options := by
  refine exists_foldlM_ok_iff (fun fields x _ => ?_) base
  show (∃ fields', base.set fields x.1 x.2 = .ok fields') ↔ _
  simp only [set_eq_ok_iff]
  cases base.get? (snakeCase x.1.text) with
  | none => simp
  | some current => simp

theorem checkLevel_eq_ok {fields : Fields} : checkLevel fields = .ok r ↔
    fields = r ∧ ∀ v, fields.get? RulesDraft.levelKey = some v → (WeakLevel.ofValue? v).isSome := by
  rw [checkLevel]
  cases fields.get? RulesDraft.levelKey with
  | none => simp
  | some v => cases hv : (WeakLevel.ofValue? v).isSome <;> simp [hv]

theorem last?_concat (options : List (Scalar × Value)) (x : Scalar × Value) (key : String) :
    last? (options ++ [x]) key =
      if snakeCase x.1.text = key then some x.2 else last? options key := by
  rw [last?, List.reverse_append, List.reverse_singleton, List.singleton_append, List.find?_cons]
  by_cases hx : snakeCase x.1.text = key
  · simp [hx]
  · simp [hx, last?]

theorem mem_of_last? {v : Value} (h : last? options key = some v) :
    ∃ x ∈ options, snakeCase x.1.text = key ∧ x.2 = v := by
  obtain ⟨x, hx, rfl⟩ := Option.map_eq_some_iff.mp h
  exact ⟨x, List.mem_reverse.mp (List.mem_of_find?_eq_some hx),
    by simpa using List.find?_some hx, rfl⟩

theorem last?_filter {p : Value → Bool} (h : ∀ v, last? options key = some v → p v = true) :
    last? (options.filter fun x => p x.2) key = last? options key := by
  induction options using List.reverseRecOn with
  | nil => rfl
  | append_singleton options x ih =>
      rw [last?_concat] at h
      rw [List.filter_append, List.filter_singleton, last?_concat]
      by_cases hkey : snakeCase x.1.text = key
      · rw [if_pos hkey] at h
        rw [h x.2 rfl, cond_true, last?_concat, if_pos hkey, if_pos hkey]
      · rw [if_neg hkey] at h
        rw [if_neg hkey, ← ih h]
        cases p x.2 with
        | true => rw [cond_true, last?_concat, if_neg hkey]
        | false => rw [cond_false, List.append_nil]

/-- A field holds what its last option gives, or what it held before. -/
theorem get?_apply (h : base.apply options = .ok r) {current : Value}
    (hbase : base.get? key = some current) :
    r.get? key =
      (last? options key).elim (some current) fun v => (readAs key current v).toOption := by
  -- from the back, where the option stands that decides
  induction options using List.reverseRecOn generalizing r with
  | nil => rwa [← Except.ok.inj h]
  | append_singleton options x ih =>
      rw [apply, List.foldlM_append] at h
      obtain ⟨fields, hfields, h⟩ := bind_eq_ok.mp h
      rw [List.foldlM_cons] at h
      obtain ⟨next, hnext, h⟩ := bind_eq_ok.mp h
      obtain rfl : next = r := Except.ok.inj h
      rw [last?_concat]
      rcases set_eq_ok_iff.mp hnext with ⟨hnone, rfl⟩ | ⟨current', w, hsome, hread, rfl⟩
      · have hne : snakeCase x.1.text ≠ key := by
          rintro rfl
          cases hbase.symm.trans hnone
        rw [if_neg hne, ih hfields]
      · rw [Entries.get?_insert]
        split
        · next hkey =>
            subst hkey
            obtain rfl : current = current' := Option.some.inj (hbase.symm.trans hsome)
            rw [Option.elim_some, hread]
            rfl
        · exact ih hfields

end Fields

/-! ## The fields of settings -/

theorem Switch.mem_all (s : Switch) : s ∈ Switch.all := by
  cases s with
  | check c => exact List.mem_append_left _ (List.mem_append_left _
      (List.mem_map_of_mem (Check.mem_all c)))
  | dictionary d => cases d <;> decide
  | untitledFiles => decide
  | contentDetection => decide

theorem Limit.mem_all (l : Limit) : l ∈ Limit.all := by cases l <;> decide

theorem FilterSwitch.mem_all (s : FilterSwitch) : s ∈ FilterSwitch.all := by cases s <;> decide

theorem WeakLevel.name_injective : Function.Injective WeakLevel.name := by
  intro l l' h
  cases l <;> cases l' <;> first | rfl | exact absurd h (by decide)

theorem WeakLevel.ofValue?_eq_some {v : Value} {level : WeakLevel} :
    ofValue? v = some level ↔ v = .str level.name := by
  constructor
  · intro h
    unfold ofValue? at h
    split at h
    · rw [show level.name = _ by simpa using List.find?_some h]
    · contradiction
  · rintro rfl
    cases level <;> decide

theorem RulesConfig.nodup_keys : (Switch.all.map Switch.key ++ Limit.all.map Limit.key ++
    [RulesDraft.levelKey, RulesDraft.languagesKey, RulesDraft.termsKey]).Nodup := by
  decide +kernel

theorem Switch.nodup_keys : (Switch.all.map Switch.key).Nodup :=
  RulesConfig.nodup_keys.of_append_left.of_append_left

theorem Limit.nodup_keys : (Limit.all.map Limit.key).Nodup :=
  RulesConfig.nodup_keys.of_append_left.of_append_right

theorem FilterSwitch.nodup_keys : (FilterSwitch.all.map FilterSwitch.key).Nodup := by decide

theorem mem_of_find?_key {ι : Type} {key : ι → String} {is : List ι} {k : String} {i : ι}
    (h : is.find? (key · = k) = some i) : i ∈ is ∧ key i = k :=
  ⟨List.mem_of_find?_eq_some h, by simpa using List.find?_some h⟩

theorem not_mem_of_find?_key {ι : Type} {key : ι → String} {is : List ι} {k : String}
    (h : is.find? (key · = k) = none) : k ∉ is.map key := by
  rw [List.mem_map]
  rintro ⟨i, hi, rfl⟩
  simpa using List.find?_eq_none.mp h i hi

namespace RulesConfig

def entries (cfg : RulesConfig) : Fields :=
  Switch.all.map (fun s => (s.key, Value.bool (cfg.switches s))) ++
    Limit.all.map (fun l => (l.key, Value.int (cfg.limits l))) ++
    [("weak_expression_level", .str cfg.level.name),
      ("excluded_language_ids", .list cfg.excludedLanguages),
      ("custom_notation_rules", .record (cfg.customTerms.map fun (k, v) => (k, .str v)))]

theorem nodup_keys_entries (cfg : RulesConfig) : cfg.entries.keys.Nodup := by
  rw [entries, Entries.keys, List.map_append, List.map_append, List.map_map, List.map_map]
  exact nodup_keys

end RulesConfig

namespace RulesDraft

def entries (d : RulesDraft) : Fields :=
  Switch.all.map (fun s => (s.key, Value.bool (d.config.switches s))) ++
    Limit.all.map (fun l => (l.key, Value.int (d.config.limits l))) ++
    [(levelKey, d.level), (languagesKey, .list d.config.excludedLanguages),
      (termsKey, .ofTerms d.config.customTerms)]

theorem entries_draft (cfg : RulesConfig) : cfg.draft.entries = cfg.entries := rfl

theorem get?_entries (d : RulesDraft) (key : String) :
    Entries.get? d.entries key =
      match Switch.ofKey? key, Limit.ofKey? key with
      | some s, _ => some (.bool (d.config.switches s))
      | none, some l => some (.int (d.config.limits l))
      | none, none =>
          if key = levelKey then some d.level
          else if key = languagesKey then some (.list d.config.excludedLanguages)
          else if key = termsKey then some (.ofTerms d.config.customTerms)
          else none := by
  rw [entries, Entries.get?_append, Entries.get?_append, Entries.get?_map, Entries.get?_map]
  show ((Option.map _ (Switch.ofKey? key)).or (Option.map _ (Limit.ofKey? key))).or _ = _
  cases Switch.ofKey? key with
  | some s => rfl
  | none =>
      cases Limit.ofKey? key with
      | some l => rfl
      | none =>
          simp only [Option.map_none, Option.none_or, Entries.get?_cons, eq_comm (a := key)]
          rfl

theorem get?_level (d : RulesDraft) : Entries.get? d.entries levelKey = some d.level := by
  rw [get?_entries, show Switch.ofKey? levelKey = none by decide +kernel,
    show Limit.ofKey? levelKey = none by decide]
  rfl

theorem get?_terms (d : RulesDraft) :
    Entries.get? d.entries termsKey = some (.ofTerms d.config.customTerms) := by
  rw [get?_entries, show Switch.ofKey? termsKey = none by decide +kernel,
    show Limit.ofKey? termsKey = none by decide]
  rfl

variable {d : RulesDraft}

theorem insert_switch {s : Switch} (b : Bool) :
    Entries.insert s.key (.bool b) d.entries =
      entries { d with
        config.switches := fun s' => if s' = s then b else d.config.switches s' } := by
  rw [entries, List.append_assoc, Entries.insert_map_append Switch.nodup_keys s.mem_all,
    ← List.append_assoc]
  simp only [entries, apply_ite Value.bool]

theorem insert_limit {l : Limit} (hswitch : Switch.ofKey? l.key = none) (n : Nat) :
    Entries.insert l.key (.int n) d.entries =
      entries { d with config.limits := fun l' => if l' = l then n else d.config.limits l' } := by
  have hvalue (l' : Limit) : Value.int (if l' = l then n else d.config.limits l' : Nat) =
      if l' = l then .int n else .int (d.config.limits l') := by split <;> rfl
  rw [entries, List.append_assoc, Entries.insert_append, Entries.keys_map,
    if_neg (not_mem_of_find?_key hswitch), Entries.insert_map_append Limit.nodup_keys l.mem_all,
    ← List.append_assoc]
  simp only [entries, hvalue]

theorem insert_other {key : String} (hswitch : Switch.ofKey? key = none)
    (hlimit : Limit.ofKey? key = none) (v : Value) :
    Entries.insert key v d.entries =
      Switch.all.map (fun s => (s.key, Value.bool (d.config.switches s))) ++
        Limit.all.map (fun l => (l.key, Value.int (d.config.limits l))) ++
          Entries.insert key v [(levelKey, d.level), (languagesKey, .list d.config.excludedLanguages),
            (termsKey, .ofTerms d.config.customTerms)] := by
  rw [entries, Entries.insert_append, if_neg]
  rw [Entries.keys, List.map_append, List.mem_append, ← Entries.keys, ← Entries.keys,
    Entries.keys_map, Entries.keys_map]
  exact not_or.mpr ⟨not_mem_of_find?_key hswitch, not_mem_of_find?_key hlimit⟩

theorem insert_terms (terms : Entries String String) :
    Entries.insert termsKey (.ofTerms terms) d.entries =
      entries { d with config.customTerms := terms } :=
  insert_other (by decide +kernel) (by decide) _

theorem entries_set (cfg : RulesConfig) (d : RulesDraft) (name : Scalar) (v : Value) :
    (d.set name v).map entries = Fields.set cfg.entries d.entries name v := by
  rw [← entries_draft, set, Fields.set, get?_entries]
  simp only
  generalize snakeCase name.text = key
  cases hswitch : Switch.ofKey? key with
  | some s =>
      obtain rfl : s.key = key := (mem_of_find?_key hswitch).2
      simp only [Fields.readAs]
      cases readSwitch s.key v with
      | error e => rfl
      | ok b => exact congrArg Except.ok (insert_switch b).symm
  | none =>
      cases hlimit : Limit.ofKey? key with
      | some l =>
          obtain rfl : l.key = key := (mem_of_find?_key hlimit).2
          simp only [Fields.readAs]
          cases readLimit l.key v with
          | error e => rfl
          | ok n => exact congrArg Except.ok (insert_limit hswitch n).symm
      | none =>
          -- the three fields without a family
          have hother := insert_other (d := d) hswitch hlimit
          simp only
          split
          · next hkey =>
              subst hkey
              exact congrArg Except.ok (hother v).symm
          · split
            · next hkey =>
                subst hkey
                simp only [Fields.readAs]
                cases readList languagesKey v with
                | error e => rfl
                | ok items => exact congrArg Except.ok (hother _).symm
            · split
              · next hkey =>
                  subst hkey
                  simp only [Fields.readAs_ofTerms]
                  cases readTable termsKey v with
                  | error e => rfl
                  | ok terms => exact congrArg Except.ok (hother _).symm
              · rfl

theorem entries_finish (d : RulesDraft) :
    d.finish.map RulesConfig.entries = Fields.checkLevel d.entries := by
  rw [finish, Fields.checkLevel, get?_level]
  simp only
  cases hvalue : WeakLevel.ofValue? d.level with
  | none => rfl
  | some level =>
      rw [Option.isSome_some, if_pos rfl, entries, WeakLevel.ofValue?_eq_some.mp hvalue]
      rfl

end RulesDraft

/-- Settings are changed field by field, and only the level is looked at again. -/
theorem RulesConfig.entries_apply (cfg : RulesConfig) (options : List (Scalar × Value)) :
    (cfg.apply options).map entries = Fields.apply cfg.entries options >>= Fields.checkLevel := by
  have hset : (options.foldlM (fun d x => RulesDraft.set d x.1 x.2) cfg.draft).map
      RulesDraft.entries = Fields.apply cfg.entries options :=
    map_foldlM (fun d x => RulesDraft.entries_set cfg d x.1 x.2) cfg.draft
  rw [← hset]
  show (options.foldlM (fun d x => RulesDraft.set d x.1 x.2) cfg.draft >>= RulesDraft.finish).map
    entries = _
  cases options.foldlM (fun d x => RulesDraft.set d x.1 x.2) cfg.draft with
  | error e => rfl
  | ok d => exact RulesDraft.entries_finish d

namespace RulesConfig

variable {cfg cfg' : RulesConfig} {options : List (Scalar × Value)} {r : Fields}

theorem exists_apply_entries_iff : (∃ cfg', cfg.apply options = .ok cfg' ∧ cfg'.entries = r) ↔
    Fields.apply cfg.entries options = .ok r ∧
      ∀ v, r.get? RulesDraft.levelKey = some v → (WeakLevel.ofValue? v).isSome := by
  rw [← map_eq_ok, entries_apply, bind_eq_ok]
  simp only [Fields.checkLevel_eq_ok]
  constructor
  · rintro ⟨_, hr, rfl, hlevel⟩
    exact ⟨hr, hlevel⟩
  · rintro ⟨hr, hlevel⟩
    exact ⟨r, hr, rfl, hlevel⟩

theorem get?_level (cfg : RulesConfig) :
    Entries.get? cfg.entries RulesDraft.levelKey = some (.str cfg.level.name) :=
  RulesDraft.get?_level cfg.draft

theorem get?_terms (cfg : RulesConfig) :
    Entries.get? cfg.entries RulesDraft.termsKey = some (.ofTerms cfg.customTerms) :=
  RulesDraft.get?_terms cfg.draft

theorem get?_switch (cfg : RulesConfig) (s : Switch) :
    Entries.get? cfg.entries s.key = some (.bool (cfg.switches s)) :=
  Entries.get?_eq_some_of_mem cfg.nodup_keys_entries
    (List.mem_append_left _ (List.mem_append_left _ (List.mem_map.mpr ⟨s, s.mem_all, rfl⟩)))

theorem get?_limit (cfg : RulesConfig) (l : Limit) :
    Entries.get? cfg.entries l.key = some (.int (cfg.limits l)) :=
  Entries.get?_eq_some_of_mem cfg.nodup_keys_entries
    (List.mem_append_left _ (List.mem_append_right _ (List.mem_map.mpr ⟨l, l.mem_all, rfl⟩)))

theorem get?_languages (cfg : RulesConfig) :
    Entries.get? cfg.entries RulesDraft.languagesKey = some (.list cfg.excludedLanguages) :=
  Entries.get?_eq_some_of_mem cfg.nodup_keys_entries
    (List.mem_append_right _ (List.mem_cons_of_mem _ List.mem_cons_self))

theorem entries_withTerms (cfg : RulesConfig) (terms : Entries String String) :
    (cfg.withTerms terms).entries =
      Entries.insert RulesDraft.termsKey (.ofTerms (cfg.customTerms.merge terms)) cfg.entries :=
  (RulesDraft.insert_terms (d := cfg.draft) _).symm

theorem get?_level_apply (h : Fields.apply cfg.entries options = .ok r) :
    r.get? RulesDraft.levelKey =
      some ((Fields.last? options RulesDraft.levelKey).getD (.str cfg.level.name)) := by
  rw [Fields.get?_apply h (get?_level cfg)]
  cases Fields.last? options RulesDraft.levelKey with
  | none => rfl
  | some v => rfl

/-- Options are accepted when each of them is, and the level that they leave is one of the three. -/
theorem exists_apply_iff : (∃ cfg', cfg.apply options = .ok cfg') ↔
    Fields.Reads cfg.entries options ∧
      ∀ v, Fields.last? options RulesDraft.levelKey = some v → (WeakLevel.ofValue? v).isSome := by
  rw [← Fields.exists_apply_iff]
  constructor
  · rintro ⟨cfg', h⟩
    obtain ⟨hr, hlevel⟩ := exists_apply_entries_iff.mp ⟨cfg', h, rfl⟩
    refine ⟨⟨_, hr⟩, fun v hv => hlevel v ?_⟩
    rw [get?_level_apply hr, hv, Option.getD_some]
  · rintro ⟨⟨r, hr⟩, hlevel⟩
    have hfinal : ∀ v, r.get? RulesDraft.levelKey = some v → (WeakLevel.ofValue? v).isSome := by
      intro v hv
      rw [get?_level_apply hr, Option.some.injEq] at hv
      cases hlast : Fields.last? options RulesDraft.levelKey with
      | none =>
          rw [hlast, Option.getD_none] at hv
          exact Option.isSome_iff_exists.mpr ⟨_, WeakLevel.ofValue?_eq_some.mpr hv.symm⟩
      | some w =>
          rw [hlast, Option.getD_some] at hv
          exact hv ▸ hlevel w hlast
    obtain ⟨cfg', h, _⟩ := exists_apply_entries_iff.mpr ⟨hr, hfinal⟩
    exact ⟨cfg', h⟩

end RulesConfig

namespace FilterConfig

def entries (cfg : FilterConfig) : Fields :=
  FilterSwitch.all.map (fun s => (s.key, Value.bool (cfg.switches s))) ++
    [(customKey, .list cfg.custom)]

theorem nodup_keys_entries (cfg : FilterConfig) : cfg.entries.keys.Nodup := by
  have hkeys : cfg.entries.keys = FilterSwitch.all.map FilterSwitch.key ++ [customKey] := by
    rw [entries, Entries.keys, List.map_append, List.map_map]
    rfl
  rw [hkeys]
  decide +kernel

theorem get?_entries (cfg : FilterConfig) (key : String) :
    Entries.get? cfg.entries key =
      match FilterSwitch.ofKey? key with
      | some s => some (.bool (cfg.switches s))
      | none => if key = customKey then some (.list cfg.custom) else none := by
  rw [entries, Entries.get?_append, Entries.get?_map]
  show (Option.map _ (FilterSwitch.ofKey? key)).or _ = _
  cases FilterSwitch.ofKey? key with
  | some s => rfl
  | none =>
      simp only [Option.map_none, Option.none_or, Entries.get?_cons, eq_comm (a := key)]
      rfl

theorem insert_switch {cfg : FilterConfig} {s : FilterSwitch} (b : Bool) :
    Entries.insert s.key (.bool b) cfg.entries =
      entries { cfg with switches := fun s' => if s' = s then b else cfg.switches s' } := by
  rw [entries, Entries.insert_map_append FilterSwitch.nodup_keys s.mem_all]
  simp only [entries, apply_ite Value.bool]

theorem insert_custom {cfg : FilterConfig} (items : List Value) :
    Entries.insert customKey (.list items) cfg.entries = entries { cfg with custom := items } := by
  rw [entries, Entries.insert_append, if_neg]
  · rfl
  · rw [Entries.keys_map]
    decide

theorem entries_set (base cfg : FilterConfig) (name : Scalar) (v : Value) :
    (cfg.set name v).map entries = Fields.set base.entries cfg.entries name v := by
  rw [set, Fields.set, get?_entries]
  generalize snakeCase name.text = key
  cases hswitch : FilterSwitch.ofKey? key with
  | some s =>
      obtain rfl : s.key = key := (mem_of_find?_key hswitch).2
      simp only [Fields.readAs]
      cases readSwitch s.key v with
      | error e => rfl
      | ok b => exact congrArg Except.ok (insert_switch b).symm
  | none =>
      simp only
      split
      · next hkey =>
          subst hkey
          simp only [Fields.readAs]
          cases readList customKey v with
          | error e => rfl
          | ok items => exact congrArg Except.ok (insert_custom items).symm
      · rfl

theorem entries_apply (cfg : FilterConfig) (options : List (Scalar × Value)) :
    (cfg.apply options).map entries = Fields.apply cfg.entries options :=
  map_foldlM (fun cfg' x => entries_set cfg cfg' x.1 x.2) cfg

theorem exists_apply_iff {cfg : FilterConfig} {options : List (Scalar × Value)} :
    (∃ cfg', cfg.apply options = .ok cfg') ↔ Fields.Reads cfg.entries options := by
  rw [← Fields.exists_apply_iff, ← entries_apply]
  simp only [map_eq_ok]
  constructor
  · rintro ⟨cfg', h⟩
    exact ⟨_, cfg', h, rfl⟩
  · rintro ⟨_, cfg', h, _⟩
    exact ⟨cfg', h⟩

end FilterConfig

end Kouetsu
