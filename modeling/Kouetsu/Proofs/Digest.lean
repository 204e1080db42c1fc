import Kouetsu.Digest.Settings
import Kouetsu.Proofs.Config.Fields
import Kouetsu.Proofs.Entries
import Kouetsu.Proofs.Json.Read
import Kouetsu.Proofs.Settings
/-!
# What a digest tells

The text that is digested determines the settings but for the order of keys and the characters that
patterns may name.  Only dates and patterns cannot be told from the texts that spell them.
-/

namespace Kouetsu

namespace Json

theorem writeAt_spaced (v : Value) (depth : Nat) :
    writeAt .spaced depth v = writeAt .spaced 0 v := by
  have henclose (opening closing : String) (ps : List String) (depth : Nat) :
      enclose .spaced depth opening closing ps = enclose .spaced 0 opening closing ps := rfl
  induction v using Value.inductionOn generalizing depth with
  | scalar s => rfl
  | list items ih =>
      rw [writeAt_list, writeAt_list, henclose]
      congr 1
      exact List.map_congr_left fun v hv => by rw [ih v hv, ih v hv (0 + 1)]
  | map entries ih =>
      rw [writeAt_map, writeAt_map, henclose]
      congr 1
      refine List.map_congr_left fun x hx => ?_
      rw [writeEntry, writeEntry, ih x hx, ih x hx (0 + 1)]

theorem writeScalar_ne_empty (s : Scalar) : writeScalar s ≠ "" := by
  intro hempty
  have htext : (writeScalar s).toList = [] := congrArg String.toList hempty
  cases s with
  | null => simp [writeScalar] at htext
  | bool b => cases b <;> simp [writeScalar] at htext
  | int n =>
      rw [show writeScalar (.int n) = n.repr from rfl, toList_repr] at htext
      exact Nat.toDigits_ne_nil (List.append_eq_nil_iff.mp htext).2
  | float x =>
      rw [writeScalar, writeDouble] at htext
      split at htext
      · simp at htext
      · split at htext
        · split at htext <;> simp at htext
        · exact x.text_ne_nil htext
  | str s => simp [writeScalar, toList_writeString] at htext
  | moment plain quoted => simp [writeScalar, toList_writeString] at htext
  | pattern p => simp [writeScalar, toList_writeString] at htext

theorem writeAt_ne_empty (l : Layout) (depth : Nat) (v : Value) : writeAt l depth v ≠ "" := by
  have henclose (opening closing : String) (ps : List String) (hopening : opening.toList ≠ []) :
      enclose l depth opening closing ps ≠ "" := by
    obtain ⟨t, ht⟩ := exists_toList_enclose l depth opening closing ps
    intro hempty
    rw [hempty, eq_comm] at ht
    exact hopening (List.append_eq_nil_iff.mp ht).1
  cases v with
  | list items => rw [writeAt_list]; exact henclose _ _ _ (by decide)
  | map entries => rw [writeAt_map]; exact henclose _ _ _ (by decide)
  | scalar s => exact writeScalar_ne_empty s

theorem eq_of_writeAt_eq_writeString {l : Layout} {depth : Nat} {v : Value} {s : String}
    (h : writeAt l depth v = writeString s) : ∃ u, v = .scalar u ∧ WrittenAs u s := by
  have hhead : (writeAt l depth v).toList.head? = some '"' := by
    rw [h, toList_writeString, List.head?_cons]
  cases v with
  | list items =>
      obtain ⟨t, ht⟩ := exists_toList_enclose l depth "[" "]" (items.map (writeAt l (depth + 1)))
      rw [writeAt_list, ht] at hhead
      simp at hhead
  | map entries =>
      obtain ⟨t, ht⟩ := exists_toList_enclose l depth "\x7b" "\x7d"
        (entries.map (writeEntry l (depth + 1)))
      rw [writeAt_map, ht] at hhead
      simp at hhead
  | scalar u =>
      rw [writeAt] at h hhead
      rcases string_or_inert_writeScalar u with ⟨t, ht, hu⟩ | hinert
      · have hts : t = s := by
          have htexts := congrArg (fun w => String.toList w ++ []) (ht.symm.trans h)
          exact (eq_of_writeString htexts).1
        exact ⟨u, rfl, hts ▸ hu⟩
      · have hquote := List.all_eq_true.mp hinert '"' (List.mem_of_head? hhead)
        exact absurd hquote (by decide)

end Json

namespace Value

/-! ## The text of a value -/

def canonical (v : Value) : String := Json.write .spaced (Json.sortKeys v.plain)

def canonicalEntry (x : String × Value) : String :=
  Json.writeString x.1 ++ (": " ++ x.2.canonical)

theorem plainItems_eq_map (items : List Value) : plain.plainItems items = items.map plain := by
  induction items with
  | nil => rfl
  | cons v items ih => rw [plain.plainItems, ih, List.map_cons]

theorem plainEntries_record (es : Entries String Value) :
    plain.plainEntries (es.map fun (k, v) => (.str k, v)) = es.map fun x => (x.1, x.2.plain) := by
  induction es with
  | nil => rfl
  | cons x es ih => rw [List.map_cons, plain.plainEntries, ih, List.map_cons]; rfl

theorem sortItems_eq_map (items : List Value) :
    Json.sortKeys.sortItems items = items.map Json.sortKeys := by
  induction items with
  | nil => rfl
  | cons v items ih => rw [Json.sortKeys.sortItems, ih, List.map_cons]

theorem sortEntries_eq_map (entries : List (Scalar × Value)) :
    Json.sortKeys.sortEntries entries = entries.map fun x => (x.1, Json.sortKeys x.2) := by
  induction entries with
  | nil => rfl
  | cons x entries ih => rw [Json.sortKeys.sortEntries, ih, List.map_cons]

theorem canonical_list (items : List Value) :
    (list items).canonical = Json.enclose .spaced 0 "[" "]" (items.map canonical) := by
  rw [canonical, plain, plainItems_eq_map, Json.sortKeys, sortItems_eq_map, Json.write,
    Json.writeAt_list, List.map_map, List.map_map]
  congr 1
  exact List.map_congr_left fun v _ => Json.writeAt_spaced _ _

theorem exists_canonical_record {es : Entries String Value} (hes : es.keys.Nodup) :
    ∃ ps, ps.Perm (es.map canonicalEntry) ∧
      (record es).canonical = Json.enclose .spaced 0 "\x7b" "\x7d" ps := by
  let sorted := (es.map fun x => (x.1, x.2.plain)).mergeSort fun a b => decide (a.1 ≤ b.1)
  have hperm : sorted.Perm (es.map fun x => (x.1, x.2.plain)) := List.mergeSort_perm _ _
  have hkeys : (Entries.keys sorted).Nodup := by
    have hmap := hperm.map Prod.fst
    rw [List.map_map] at hmap
    exact hmap.nodup_iff.mpr hes
  have hplain : (record es).plain = record sorted := by
    rw [record, plain, plainEntries_record, Entries.ofList_of_nodup hkeys]
  refine ⟨_, ?_, by rw [canonical, hplain, record, Json.sortKeys, Json.write, Json.writeAt_map]⟩
  refine ((List.mergeSort_perm _ _).map _).trans ?_
  rw [sortEntries_eq_map, List.map_map, List.map_map]
  refine (hperm.map _).trans ?_
  rw [List.map_map]
  refine List.Perm.of_eq (List.map_congr_left fun x _ => ?_)
  show Json.writeString x.1 ++ ": " ++ Json.writeAt .spaced (0 + 1) (Json.sortKeys x.2.plain) = _
  rw [Json.writeAt_spaced, String.append_assoc]
  rfl

/-! ## What equal texts tell -/

theorem passes_canonical (v : Value) :
    v.canonical ≠ "" ∧ Json.Passes v.canonical.toList (0, .plain) (0, .plain) :=
  ⟨Json.writeAt_ne_empty _ _ _, Json.passes_writeAt _ _ _ _⟩

theorem passes_canonicalEntry (x : String × Value) :
    canonicalEntry x ≠ "" ∧ Json.Passes (canonicalEntry x).toList (0, .plain) (0, .plain) := by
  constructor
  · intro h
    have htext := congrArg String.toList h
    rw [canonicalEntry, String.toList_append, Json.toList_writeString] at htext
    simp at htext
  · rw [canonicalEntry, String.toList_append, String.toList_append]
    exact (Json.passes_writeString 0 x.1).append
      ((Json.Passes.cons rfl (.of_step rfl)).append x.2.passes_canonical.2)

theorem eq_of_canonicalEntry {x y : String × Value} (h : canonicalEntry x = canonicalEntry y) :
    x.1 = y.1 ∧ x.2.canonical = y.2.canonical := by
  have htexts := congrArg String.toList h
  simp only [canonicalEntry, String.toList_append] at htexts
  obtain ⟨hkeys, hvalues⟩ := Json.eq_of_writeString htexts
  exact ⟨hkeys, String.toList_inj.mp (List.append_cancel_left hvalues)⟩

theorem eq_of_canonical_list {items items' : List Value}
    (h : (list items).canonical = (list items').canonical) :
    items.map canonical = items'.map canonical := by
  have hparts (items : List Value) : ∀ p ∈ items.map canonical,
      p ≠ "" ∧ Json.Passes p.toList (0, .plain) (0, .plain) := by
    intro p hp
    obtain ⟨v, _, rfl⟩ := List.mem_map.mp hp
    exact v.passes_canonical
  rw [canonical_list, canonical_list] at h
  refine Json.eq_of_enclose (hparts items) (hparts items') (fun c hc => ?_) h
  obtain rfl : ']' = c := Option.some.inj hc
  rfl

/-- Records with one text have the same entries, as far as their texts go. -/
theorem perm_of_canonical_record {es es' : Entries String Value} (hes : es.keys.Nodup)
    (hes' : es'.keys.Nodup) (h : (record es).canonical = (record es').canonical) :
    (es.map canonicalEntry).Perm (es'.map canonicalEntry) := by
  obtain ⟨ps, hps, htext⟩ := exists_canonical_record hes
  obtain ⟨qs, hqs, htext'⟩ := exists_canonical_record hes'
  have hparts {ps : List String} {es : Entries String Value}
      (hps : ps.Perm (es.map canonicalEntry)) :
      ∀ p ∈ ps, p ≠ "" ∧ Json.Passes p.toList (0, .plain) (0, .plain) := by
    intro p hp
    obtain ⟨x, _, rfl⟩ := List.mem_map.mp (hps.mem_iff.mp hp)
    exact passes_canonicalEntry x
  rw [htext, htext'] at h
  have heq : ps = qs := by
    refine Json.eq_of_enclose (hparts hps) (hparts hqs) (fun c hc => ?_) h
    obtain rfl : '\x7d' = c := Option.some.inj hc
    rfl
  exact hps.symm.trans (heq ▸ hqs)

theorem exists_mem_of_canonical_record {es es' : Entries String Value} (hes : es.keys.Nodup)
    (hes' : es'.keys.Nodup) (h : (record es).canonical = (record es').canonical)
    {x : String × Value} (hx : x ∈ es) :
    ∃ v, (x.1, v) ∈ es' ∧ x.2.canonical = v.canonical := by
  have hmem := (perm_of_canonical_record hes hes' h).subset (List.mem_map_of_mem hx)
  obtain ⟨y, hy, hxy⟩ := List.mem_map.mp hmem
  obtain ⟨hkey, hvalue⟩ := eq_of_canonicalEntry hxy
  exact ⟨y.2, hkey ▸ hy, hvalue.symm⟩

theorem canonical_eq_of_mem {es es' : Entries String Value} (hes : es.keys.Nodup)
    (hes' : es'.keys.Nodup) (h : (record es).canonical = (record es').canonical) {k : String}
    {v v' : Value} (hv : (k, v) ∈ es) (hv' : (k, v') ∈ es') : v.canonical = v'.canonical := by
  obtain ⟨w, hw, hvalue⟩ := exists_mem_of_canonical_record hes hes' h hv
  have hget := Entries.get?_eq_some_of_mem hes' hw
  rw [Entries.get?_eq_some_of_mem hes' hv'] at hget
  rw [hvalue, Option.some.inj hget]

/-- Values that stand in a digest as a string. -/
inductive DigestsAs : Value → String → Prop
  | str (s : String) : DigestsAs (.str s) s
  | moment (plain quoted : String) : DigestsAs (.scalar (.moment plain quoted)) plain
  | pattern (p : Pattern) : DigestsAs (.scalar (.pattern p)) p.source

/-- A value with the text of a string stands in a digest as that string. -/
theorem digestsAs_of_canonical {v : Value} {s : String} (h : v.canonical = (str s).canonical) :
    v.DigestsAs s := by
  obtain ⟨u, hu, hwritten⟩ := Json.eq_of_writeAt_eq_writeString h
  cases v with
  | scalar w =>
      cases w with
      | pattern p =>
          obtain rfl : .str p.source = u := Value.scalar.inj hu
          cases hwritten
          exact .pattern p
      | _ =>
          obtain rfl := Value.scalar.inj hu
          cases hwritten <;> constructor
  | list items => cases hu
  | map entries => cases hu

theorem eq_of_canonical_strs {s t : String} (h : (str s).canonical = (str t).canonical) :
    s = t := by
  cases digestsAs_of_canonical h
  rfl

theorem eq_of_canonical_bool {b b' : Bool} (h : (bool b).canonical = (bool b').canonical) :
    b = b' := by
  cases b <;> cases b' <;> first | rfl | exact absurd h (by decide)

theorem eq_of_canonical_nat {n n' : Nat} (h : (int n).canonical = (int n').canonical) :
    n = n' := by
  have htoList (n : Nat) : (int n).canonical.toList = Nat.toDigits 10 n := by
    rw [show (int n).canonical = (n : Int).repr from rfl, Json.toList_repr, if_neg (by omega)]
    rfl
  have hdigits : Nat.toDigits 10 n = Nat.toDigits 10 n' := by
    rw [← htoList, ← htoList, h]
  calc
    n = Json.digitsOf (Nat.toDigits 10 n) := (Json.digitsOf_toDigits n).symm
    _ = Json.digitsOf (Nat.toDigits 10 n') := by rw [hdigits]
    _ = n' := Json.digitsOf_toDigits n'

theorem eq_of_canonical_strings {xs ys : List String}
    (h : (strings xs).canonical = (strings ys).canonical) : xs = ys := by
  have hmaps := eq_of_canonical_list h
  rw [List.map_map, List.map_map] at hmaps
  exact List.map_injective_iff.mpr (fun s s' hs => eq_of_canonical_strs hs) hmaps

/-- A string in a list stands in every list with one text, if only as a date or a pattern. -/
theorem exists_digestsAs_of_canonical_list {items items' : List Value}
    (h : (list items).canonical = (list items').canonical) {s : String} (hs : .str s ∈ items) :
    ∃ v ∈ items', v.DigestsAs s := by
  have hmem : (str s).canonical ∈ items'.map canonical :=
    eq_of_canonical_list h ▸ List.mem_map_of_mem hs
  obtain ⟨v, hv, htext⟩ := List.mem_map.mp hmem
  exact ⟨v, hv, digestsAs_of_canonical htext⟩

theorem map_canonical_of_digestText {parts parts' : List Value}
    (h : digestText parts = digestText parts') : parts.map canonical = parts'.map canonical := by
  have hcanonical (parts : List Value) : digestText parts = (list parts).canonical := by
    rw [digestText, canonical, plain, plainItems_eq_map]
  rw [hcanonical, hcanonical] at h
  exact eq_of_canonical_list h

theorem eq_strings_of_forall {items : List Value} (h : ∀ v ∈ items, ∃ s, v = .str s) :
    ∃ xs, list items = strings xs := by
  induction items with
  | nil => exact ⟨[], rfl⟩
  | cons v items ih =>
      obtain ⟨s, rfl⟩ := h v List.mem_cons_self
      obtain ⟨xs, hxs⟩ := ih fun u hu => h u (List.mem_cons_of_mem _ hu)
      exact ⟨s :: xs, by rw [strings, List.map_cons, Value.list.inj hxs]⟩

end Value

/-! ## Settings -/

namespace RulesConfig

variable {cfg cfg' : RulesConfig}

theorem canonical_eq_of_mem_entries (h : cfg.toValue.canonical = cfg'.toValue.canonical)
    {k : String} {v v' : Value} (hv : (k, v) ∈ cfg.entries) (hv' : (k, v') ∈ cfg'.entries) :
    v.canonical = v'.canonical :=
  Value.canonical_eq_of_mem (nodup_keys_entries cfg) (nodup_keys_entries cfg') h hv hv'

theorem mem_customTerms_of_canonical (h : cfg.toValue.canonical = cfg'.toValue.canonical)
    (hkeys : cfg.customTerms.keys.Nodup) (hkeys' : cfg'.customTerms.keys.Nodup)
    {x : String × String} (hx : x ∈ cfg.customTerms) : x ∈ cfg'.customTerms := by
  have hmem (cfg : RulesConfig) : (RulesDraft.termsKey,
      Value.record (cfg.customTerms.map fun x => (x.1, .str x.2))) ∈ cfg.entries :=
    Entries.mem_of_get?_eq_some (get?_terms cfg)
  have hnodup {terms : Entries String String} (hterms : terms.keys.Nodup) :
      (Entries.keys (terms.map fun x => (x.1, Value.str x.2))).Nodup := by
    rw [Entries.keys, List.map_map]
    exact hterms
  obtain ⟨v, hv, hvalue⟩ := Value.exists_mem_of_canonical_record (hnodup hkeys) (hnodup hkeys')
    (canonical_eq_of_mem_entries h (hmem cfg) (hmem cfg')) (List.mem_map_of_mem hx)
  obtain ⟨y, hy, hxy⟩ := List.mem_map.mp hv
  obtain ⟨hkey, rfl⟩ := Prod.mk.inj hxy
  have hright : x.2 = y.2 := Value.eq_of_canonical_strs hvalue
  rwa [Prod.ext (show x.1 = y.1 from hkey.symm) hright]

theorem agrees_of_canonical (h : cfg.toValue.canonical = cfg'.toValue.canonical)
    (hkeys : cfg.customTerms.keys.Nodup) (hkeys' : cfg'.customTerms.keys.Nodup) :
    cfg.Agrees cfg' := by
  constructor
  · funext s
    have hs (cfg : RulesConfig) : (s.key, Value.bool (cfg.switches s)) ∈ cfg.entries :=
      List.mem_append_left _ (List.mem_append_left _ (List.mem_map_of_mem (Switch.mem_all s)))
    exact Value.eq_of_canonical_bool (canonical_eq_of_mem_entries h (hs cfg) (hs cfg'))
  · funext l
    have hl (cfg : RulesConfig) : (l.key, Value.int (cfg.limits l)) ∈ cfg.entries :=
      List.mem_append_left _ (List.mem_append_right _ (List.mem_map_of_mem (Limit.mem_all l)))
    exact Value.eq_of_canonical_nat (canonical_eq_of_mem_entries h (hl cfg) (hl cfg'))
  · have hlevel := canonical_eq_of_mem_entries h (List.mem_append_right _ List.mem_cons_self)
      (List.mem_append_right _ List.mem_cons_self)
    exact WeakLevel.name_injective (Value.eq_of_canonical_strs hlevel)
  · exact fun x => ⟨mem_customTerms_of_canonical h hkeys hkeys',
      mem_customTerms_of_canonical h.symm hkeys' hkeys⟩

end RulesConfig

namespace FilterConfig

variable {cfg cfg' : FilterConfig}

/-- Settings whose patterns are texts are the same if they have one text and may name the same
characters. -/
theorem eq_of_canonical (h : cfg.toValue.canonical = cfg'.toValue.canonical)
    (hcharacters : cfg.characters = cfg'.characters) (hcustom : ∀ v ∈ cfg.custom, ∃ s, v = .str s)
    (hcustom' : ∀ v ∈ cfg'.custom, ∃ s, v = .str s) :
    cfg = cfg' := by
  have hmem {k : String} {v v' : Value} (hv : (k, v) ∈ cfg.entries) (hv' : (k, v') ∈ cfg'.entries) :
      v.canonical = v'.canonical :=
    Value.canonical_eq_of_mem (nodup_keys_entries cfg) (nodup_keys_entries cfg') h hv hv'
  have hswitches : cfg.switches = cfg'.switches := by
    funext s
    have hs (cfg : FilterConfig) : (s.key, Value.bool (cfg.switches s)) ∈ cfg.entries :=
      List.mem_append_left _ (List.mem_map_of_mem (FilterSwitch.mem_all s))
    exact Value.eq_of_canonical_bool (hmem (hs cfg) (hs cfg'))
  have hlists := hmem (List.mem_append_right _ List.mem_cons_self)
    (List.mem_append_right _ List.mem_cons_self)
  obtain ⟨xs, hxs⟩ := Value.eq_strings_of_forall hcustom
  obtain ⟨ys, hys⟩ := Value.eq_strings_of_forall hcustom'
  rw [hxs, hys] at hlists
  rw [Value.eq_of_canonical_strings hlists, ← hys] at hxs
  cases cfg
  cases cfg'
  exact mk.injEq .. ▸ ⟨hswitches, Value.list.inj hxs, hcharacters⟩

end FilterConfig

theorem mem_sortedNames {names : List String} {n : String} : n ∈ sortedNames names ↔ n ∈ names := by
  rw [sortedNames, List.mem_eraseDups, List.mem_mergeSort]

namespace Proofreader

variable {r r' : Proofreader} {analyser analyser' : Option Analyser}

theorem str_mem_excludedLanguages (hr' : r'.BuiltIn)
    (h : (Value.list r.settings.rules.excludedLanguages).canonical =
      (Value.list r'.settings.rules.excludedLanguages).canonical) {language : String}
    (hlanguage : ∀ c ∈ language.toList.head?, c.isDigit = false)
    (hmem : .str language ∈ r.settings.rules.excludedLanguages) :
    .str language ∈ r'.settings.rules.excludedLanguages := by
  obtain ⟨v, hv, hdigests⟩ := Value.exists_digestsAs_of_canonical_list h hmem
  cases hdigests with
  | str _ => exact hv
  | moment _ quoted =>
      obtain ⟨c, hc, hdigit⟩ := hr'.dates _ _ hv
      exact absurd hdigit (by simp [hlanguage c hc])
  | pattern p => exact absurd hv (hr'.languages p)

theorem chosen_of_canonical {names names' : Option (List String)}
    (h : ((names.map fun ns => Value.strings (sortedNames ns)).getD .null).canonical =
      ((names'.map fun ns => Value.strings (sortedNames ns)).getD .null).canonical) (n : String) :
    (∀ ns, names = some ns → n ∈ ns) ↔ ∀ ns, names' = some ns → n ∈ ns := by
  have hnull (ns : List String) :
      Value.null.canonical ≠ (Value.strings (sortedNames ns)).canonical := by
    intro heq
    have hhead := congrArg (fun t => t.toList.head?) heq
    obtain ⟨t, ht⟩ := Json.exists_toList_enclose .spaced 0 "[" "]"
      (((sortedNames ns).map Value.str).map Value.canonical)
    rw [Value.strings, Value.canonical_list, ht] at hhead
    simp [show Value.null.canonical = "null" from rfl] at hhead
  cases names with
  | none => cases names' with
    | none => simp
    | some ns => exact absurd h (hnull ns)
  | some ns => cases names' with
    | none => exact absurd h.symm (hnull ns)
    | some ns' =>
        have hsorted := Value.eq_of_canonical_strings h
        simp only [Option.some.injEq, forall_eq']
        rw [← mem_sortedNames, hsorted, mem_sortedNames]

theorem analyser_of_canonical
    (h : ((analyser.map fun a => Value.str a.name).getD .null).canonical =
      ((analyser'.map fun a => Value.str a.name).getD .null).canonical) : analyser = analyser' := by
  revert h
  cases analyser with
  | none => cases analyser' with
    | none => exact fun _ => rfl
    | some a => cases a <;> exact fun h => absurd h (by decide)
  | some a => cases analyser' with
    | none => cases a <;> exact fun h => absurd h (by decide)
    | some a' =>
        cases a <;> cases a' <;> first | exact fun _ => rfl | exact fun h => absurd h (by decide)

/-- Proofreaders with one digest text, whose patterns may name the same characters, agree and have
the same analyser. -/
theorem agrees_of_digestText (hr : r.BuiltIn) (hr' : r'.BuiltIn)
    (hcharacters : r.settings.filter.characters = r'.settings.filter.characters)
    (h : digestText (r.digestParts analyser) = digestText (r'.digestParts analyser')) :
    r.Agrees r' ∧ analyser = analyser' := by
  have hparts := Value.map_canonical_of_digestText h
  simp only [digestParts, List.map_cons, List.map_nil, List.cons.injEq, and_true] at hparts
  obtain ⟨hrules, hfilter, hnames, _, hanalyser⟩ := hparts
  have hlanguages := RulesConfig.canonical_eq_of_mem_entries hrules
    (List.mem_append_right _ (List.mem_cons_of_mem _ List.mem_cons_self))
    (List.mem_append_right _ (List.mem_cons_of_mem _ List.mem_cons_self))
  refine ⟨⟨?_, fun language hlanguage => ?_, ?_, chosen_of_canonical hnames⟩,
    analyser_of_canonical hanalyser⟩
  · exact RulesConfig.agrees_of_canonical hrules hr.terms hr'.terms
  · exact ⟨str_mem_excludedLanguages hr' hlanguages hlanguage,
      str_mem_excludedLanguages hr hlanguages.symm hlanguage⟩
  · exact FilterConfig.eq_of_canonical hfilter hcharacters hr.patterns hr'.patterns

end Proofreader

end Kouetsu
