import Kouetsu.CommandLine.Run
import Kouetsu.Proofs.Engine
import Kouetsu.Proofs.Proofreading
import Kouetsu.Proofs.Registration
/-!
# Rules of several files

The tables in the lists of rule files, in the order in which their rules are registered.  A table
without an id is named after its place in its own file, so a table of another file may come to the
same name, and of the rules with one name the last one stays.
-/

namespace Kouetsu

namespace RuleFile

/-! ## Tables of rules -/

/-- A table in the list of rules of a file, with its place there, counted from one. -/
structure Item where
  path : String
  number : Nat
  entries : List (Scalar × Value)

namespace Item

def id (it : Item) : Value := (Value.lookup it.entries "id").getD .null

/-- A table without an id, or with an empty one. -/
def isAnonymous (it : Item) : Bool := !it.id.isTruthy

def name (it : Item) : String :=
  if it.isAnonymous then "custom-" ++ toString it.number else it.id.text

def suggestion (it : Item) : Value := (Value.lookup it.entries "suggestion").getD .null

def read (characters : CharacterNames) (it : Item) : Except RuleFileError (Option PatternRule) :=
  readRule characters it.path it.number (.map it.entries)

end Item

def numbered (path : String) (first : Nat) : List Value → List Item
  | [] => []
  | .map entries :: rest => ⟨path, first, entries⟩ :: numbered path (first + 1) rest
  | _ :: rest => numbered path (first + 1) rest

def items (path : String) : Value → List Item
  | .list values => numbered path 1 values
  | .map entries =>
      match Value.lookup entries "rules" with
      | some (.list values) => numbered path 1 values
      | _ => []
  | _ => []

theorem number_ge_of_mem_numbered {path : String} {first : Nat} {values : List Value} {it : Item}
    (h : it ∈ numbered path first values) : first ≤ it.number := by
  induction values generalizing first with
  | nil => exact absurd h List.not_mem_nil
  | cons v values ih =>
      cases v with
      | map entries =>
          rcases List.mem_cons.mp h with rfl | h
          · exact Nat.le_refl first
          · exact Nat.le_of_succ_le (ih h)
      | list _ => exact Nat.le_of_succ_le (ih h)
      | scalar _ => exact Nat.le_of_succ_le (ih h)

theorem pairwise_numbered (path : String) (first : Nat) (values : List Value) :
    (numbered path first values).Pairwise (·.number < ·.number) := by
  induction values generalizing first with
  | nil => exact List.Pairwise.nil
  | cons v values ih =>
      cases v with
      | map entries =>
          exact List.pairwise_cons.mpr ⟨fun it hit => number_ge_of_mem_numbered hit, ih _⟩
      | list _ => exact ih _
      | scalar _ => exact ih _

theorem pairwise_items (path : String) (v : Value) :
    (items path v).Pairwise (·.number < ·.number) := by
  unfold items
  split
  · exact pairwise_numbered _ _ _
  · split
    · exact pairwise_numbered _ _ _
    · exact List.Pairwise.nil
  · exact List.Pairwise.nil

theorem nodup_anonymous_names (path : String) (v : Value) :
    (((items path v).filter (·.isAnonymous)).map (·.name)).Nodup := by
  refine List.pairwise_map.mpr (((pairwise_items path v).filter _).imp_of_mem ?_)
  intro a b ha hb hlt hname
  rw [Item.name, if_pos (List.mem_filter.mp ha).2, Item.name, if_pos (List.mem_filter.mp hb).2,
    String.append_right_inj] at hname
  have hdigits : Nat.toDigits 10 a.number = Nat.toDigits 10 b.number := by
    rwa [Nat.toString_eq_repr, Nat.toString_eq_repr, Nat.repr_eq_ofList_toDigits,
      Nat.repr_eq_ofList_toDigits, String.ofList_inj] at hname
  have hnumber : a.number = b.number := by
    rw [← Nat.ofDigitChars_ten_toDigits (n := a.number), hdigits, Nat.ofDigitChars_ten_toDigits]
  exact absurd hnumber (Nat.ne_of_lt hlt)

/-! ## Rules of a file -/

variable {characters : CharacterNames}

theorem exists_of_read_ok {it : Item} {result : Option PatternRule}
    (h : it.read characters = .ok result) :
    ∃ p, result = some p ∧ p.name = it.name ∧ p.suggestion = it.suggestion := by
  unfold Item.read readRule at h
  simp only at h
  split at h
  · split at h
    · simp at h
    · obtain ⟨pattern, _, h⟩ := bind_eq_ok.mp h
      obtain ⟨severity, _, h⟩ := bind_eq_ok.mp h
      refine ⟨_, (Except.ok.inj h).symm, ?_, rfl⟩
      rw [Item.name, Item.isAnonymous]
      cases htruthy : it.id.isTruthy
      · exact if_neg (by rw [← Bool.not_eq_true] at htruthy; exact htruthy)
      · exact if_pos htruthy
  · simp at h

/-- What the values of a list give, without what is passed over, are the rules of its tables. -/
theorem forall₂_numbered {path : String} {k : Nat} {values : List Value}
    {found : List (Option PatternRule)}
    (h : List.Forall₂ (fun x r => readRule characters path (x.2 + 1) x.1 = .ok r)
      (values.zipIdx k) found) :
    List.Forall₂ (fun it p => it.read characters = .ok (some p)) (numbered path (k + 1) values)
      (found.filterMap id) := by
  induction values generalizing k found with
  | nil =>
      rw [List.zipIdx_nil, List.forall₂_nil_left_iff] at h
      rw [h]
      exact .nil
  | cons v values ih =>
      rw [List.zipIdx_cons, List.forall₂_cons_left_iff] at h
      obtain ⟨result, rest, hresult, hrest, rfl⟩ := h
      have hrules := ih hrest
      cases v with
      | map entries =>
          have hread : Item.read characters ⟨path, k + 1, entries⟩ = .ok result := hresult
          obtain ⟨p, rfl, _⟩ := exists_of_read_ok hread
          exact .cons hresult hrules
      | list _ =>
          obtain rfl := Except.ok.inj hresult
          exact hrules
      | scalar _ =>
          obtain rfl := Except.ok.inj hresult
          exact hrules

theorem forall₂_of_readRules {path : String} {v : Value} {ps : List PatternRule}
    (h : readRules characters path v = .ok ps) : ∃ values, v = .list values ∧
      List.Forall₂ (fun it p => it.read characters = .ok (some p)) (numbered path 1 values) ps := by
  unfold readRules at h
  split at h
  · next values =>
      obtain ⟨found, hfound, h⟩ := bind_eq_ok.mp h
      obtain rfl := Except.ok.inj h
      exact ⟨values, rfl, forall₂_numbered (forall₂_of_mapM_ok hfound)⟩
  · simp at h

theorem forall₂_items {v : Value} {path : String} {f : RuleFile}
    (h : ofValue characters v path = .ok f) :
    List.Forall₂ (fun it p => it.read characters = .ok (some p)) (items path v) f.rules := by
  unfold ofValue at h
  split at h
  · obtain ⟨rules, hrules, h⟩ := bind_eq_ok.mp h
    obtain rfl := Except.ok.inj h
    obtain ⟨values, hv, hvalues⟩ := forall₂_of_readRules hrules
    obtain rfl := Value.list.inj hv
    exact hvalues
  · simp only at h
    rw [items]
    split at h
    · next listed hlisted =>
        obtain ⟨rules, hrules, h⟩ := bind_eq_ok.mp h
        obtain ⟨excludes, _, h⟩ := bind_eq_ok.mp h
        obtain ⟨terms, _, h⟩ := bind_eq_ok.mp h
        obtain ⟨settings, _, h⟩ := bind_eq_ok.mp h
        obtain rfl := Except.ok.inj h
        obtain ⟨values, rfl, hvalues⟩ := forall₂_of_readRules hrules
        rw [hlisted]
        exact hvalues
    · next hlisted =>
        obtain ⟨rules, hrules, h⟩ := bind_eq_ok.mp h
        obtain rfl := Except.ok.inj hrules
        obtain ⟨excludes, _, h⟩ := bind_eq_ok.mp h
        obtain ⟨terms, _, h⟩ := bind_eq_ok.mp h
        obtain ⟨settings, _, h⟩ := bind_eq_ok.mp h
        obtain rfl := Except.ok.inj h
        rw [hlisted]
        exact .nil
  · simp at h

theorem name_of_read {it : Item} {p : PatternRule} (h : it.read characters = .ok (some p)) :
    p.name = it.name := by
  obtain ⟨q, hq, hname, _⟩ := exists_of_read_ok h
  rw [Option.some.inj hq, hname]

theorem suggestion_of_read {it : Item} {p : PatternRule} (h : it.read characters = .ok (some p)) :
    p.suggestion = it.suggestion := by
  obtain ⟨q, hq, _, hsuggestion⟩ := exists_of_read_ok h
  rw [Option.some.inj hq, hsuggestion]

theorem exists_read_of_mem {its : List Item} {ps : List PatternRule}
    (h : List.Forall₂ (fun it p => it.read characters = .ok (some p)) its ps) {p : PatternRule}
    (hp : p ∈ ps) : ∃ it ∈ its, it.read characters = .ok (some p) := by
  induction h with
  | nil => exact absurd hp List.not_mem_nil
  | @cons it _ _ _ hread _ ih =>
      rcases List.mem_cons.mp hp with rfl | hp
      · exact ⟨it, List.mem_cons_self, hread⟩
      · obtain ⟨it', hit', hread'⟩ := ih hp
        exact ⟨it', List.mem_cons_of_mem it hit', hread'⟩

theorem name_ne_of_mem {its : List Item} {ps : List PatternRule}
    (h : List.Forall₂ (fun it p => it.read characters = .ok (some p)) its ps) {name : String}
    (hits : ∀ it ∈ its, it.name ≠ name) : ∀ p ∈ ps, p.name ≠ name := by
  intro p hp
  obtain ⟨it, hit, hread⟩ := exists_read_of_mem h hp
  exact name_of_read hread ▸ hits it hit

end RuleFile

/-! ## Rules of users in an engine -/

namespace Engine

/-- An engine with rules of users that are registered one after the other.  A rule that is refused
is left out. -/
def withRules (e : Engine) (ps : List PatternRule) : Engine :=
  (ps.map (·.rule)).foldl (fun e r => ((e.register r).toOption).getD e) e

theorem registerAll_eq_withRules {ps : List PatternRule} (h : ∀ p ∈ ps, p.name ≠ "") (e : Engine) :
    e.registerAll ps = .ok (e.withRules ps) := by
  induction ps generalizing e with
  | nil => rfl
  | cons p ps ih =>
      obtain ⟨hp, hps⟩ := List.forall_mem_cons.mp h
      have hregister := register_named (e := e) (r := p.rule) hp
      rw [registerAll, List.foldlM_cons, hregister, withRules, List.map_cons, List.foldl_cons,
        hregister]
      exact ih hps _

theorem mem_rules_withRules {e : Engine} {ps : List PatternRule} {x : String × Rule}
    (h : x ∈ (e.withRules ps).rules) : x ∈ e.rules ∨ ∃ p ∈ ps, x.2 = p.rule := by
  induction ps generalizing e with
  | nil => exact Or.inl h
  | cons p ps ih =>
      rcases ih h with hold | ⟨q, hq, hrule⟩
      · by_cases hname : p.rule.name = ""
        · simp only [register_nameless hname] at hold
          exact Or.inl hold
        · simp only [register_named hname] at hold
          rcases Entries.mem_insert hold with rfl | hold
          · exact Or.inr ⟨p, List.mem_cons_self, rfl⟩
          · exact Or.inl hold
      · exact Or.inr ⟨q, List.mem_cons_of_mem p hq, hrule⟩

theorem standard_withRules (base : RulesConfig) (ps : List PatternRule) :
    ((builtIn base).withRules ps).Standard := by
  intro x hx
  rcases mem_rules_withRules hx with hx | ⟨p, _, hp⟩
  · exact standard_builtIn base x hx
  · exact Or.inr ⟨p, hp⟩

theorem withRules_eq_foldl (e : Engine) (ps : List PatternRule) :
    e.withRules ps = (ps.map fun p => Change.register p.rule).foldl Change.apply e := by
  rw [withRules, List.foldl_map, List.foldl_map]
  congr 1
  funext e p
  rw [Change.apply]
  cases e.register p.rule <;> rfl

theorem builtIn_eq_after (base : RulesConfig) :
    builtIn base = after base (Check.all.map fun c => .register c.rule) := by
  have hchecks : ofRules base (Check.all.map Check.rule) = .ok (builtIn base) :=
    ofRules_checks (by decide)
  have hfold := foldl_apply_register hchecks
  rw [List.map_map] at hfold
  exact hfold.symm

theorem follows_withRules (base : RulesConfig) (ps : List PatternRule) :
    Follows ((builtIn base).withRules ps)
      ((Check.all.map fun c => .register c.rule) ++ ps.map fun p => .register p.rule) := by
  rw [withRules_eq_foldl, builtIn_eq_after, after, ← List.foldl_append]
  exact follows_after base _

/-- The last rule of a name is in the engine, and no other rule has the name. -/
theorem last_withRules (base : RulesConfig) {rules before after : List PatternRule}
    {p : PatternRule} (hrules : rules = before ++ p :: after) (hp : p.name ≠ "")
    (hafter : ∀ q ∈ after, q.name ≠ p.name) :
    p.rule ∈ ((builtIn base).withRules rules).rules.map (·.2) ∧
      ∀ r ∈ ((builtIn base).withRules rules).rules.map (·.2), r.name = p.name → r = p.rule := by
  subst hrules
  have hfollows := follows_withRules base (before ++ p :: after)
  have hlatest : Latest ((Check.all.map fun c => .register c.rule) ++
      (before ++ p :: after).map fun p => .register p.rule) p.name p.rule := by
    rw [List.map_append, List.map_cons, ← List.append_assoc]
    refine latest_of_append hp fun c hc => ?_
    obtain ⟨q, hq, rfl⟩ := List.mem_map.mp hc
    exact ⟨nofun, fun r' hr' => Change.register.inj hr' ▸ hafter q hq⟩
  have hget := (hfollows.get?_eq_some _ _).mpr hlatest
  refine ⟨List.mem_map_of_mem (Entries.mem_of_get?_eq_some hget), fun r hr hname => ?_⟩
  exact Option.some.inj ((hname ▸ hfollows.get?_name hr).symm.trans hget)

/-- A rule of a user that is in an engine reports each match that is not empty. -/
theorem mem_check_of_mem_rules {e : Engine} (he : e.Standard) {p : PatternRule}
    (hp : p.rule ∈ e.rules.map (·.2)) (t : Text) (tokens : List Token)
    (sentences : List Sentence) (cfg : RulesConfig) :
    ∃ ds, e.check t tokens sentences cfg none = .ok ds ∧
      ∀ s ∈ p.pattern.spans t, s.start < s.stop →
        { p.diagnostic t s with range := (LineIndex.ofText t).rangeAt s.start s.stop } ∈ ds := by
  refine ⟨_, check_of_harmless (fun r hr => he.harmless hr) _ _ _ _ _, fun s hs hne => ?_⟩
  have hwithin := Pattern.within_of_mem_spans hs
  have hstart : s.start ≤ t.length := Nat.le_trans hwithin.ordered hwithin.bounded
  refine List.mem_flatMap.mpr ⟨p.rule, List.mem_filter.mpr ⟨hp, rfl⟩, ?_⟩
  have hreports : p.rule.Reports (.of t tokens sentences cfg) (p.diagnostic t s) s.start s.stop :=
    .pattern hs hne
  obtain ⟨hraw, hwhole⟩ := hreports.mem_run
  rw [diagnosticsOf, placed, hwhole, if_neg Bool.false_ne_true]
  refine List.mem_map.mpr ⟨p.diagnostic t s, hraw, ?_⟩
  rw [show (p.diagnostic t s).range = .ofOffsets s.start s.stop from rfl,
    show (Context.of t tokens sentences cfg).index = LineIndex.ofText t from rfl,
    LineIndex.normalise_ofOffsets hstart hwithin.bounded]

/-- The rules of accepted files, registered one after the other.  The rule of a table without an id
stays, and reports each of its matches that is not empty, where no later table comes to its name.
Otherwise the last table of that name has its rule in the engine, and no other rule has the name.
Within one file tables without an id never share a name. -/
theorem withRules_of_files (base : RulesConfig) {characters : CharacterNames}
    {sources : List (Value × String)} {files : List RuleFile}
    (hread : sources.mapM (fun s => RuleFile.ofValue characters s.1 s.2) = .ok files) :
    let items := sources.flatMap fun s => RuleFile.items s.2 s.1
    let rules := files.flatMap (·.rules)
    let e := (builtIn base).withRules rules
    ((∀ it ∈ items, it.name ≠ "") → (builtIn base).registerAll rules = .ok e) ∧
      (∀ s ∈ sources,
        (((RuleFile.items s.2 s.1).filter (·.isAnonymous)).map (·.name)).Nodup) ∧
      ∀ earlier it later, items = earlier ++ it :: later → it.isAnonymous = true →
        ∃ p ∈ rules, it.read characters = .ok (some p) ∧ p.name = "custom-" ++ toString it.number ∧
          ((∀ x ∈ later, x.name ≠ p.name) → p.rule ∈ e.rules.map (·.2) ∧
            ∀ (t : Text) (tokens : List Token) (sentences : List Sentence) (cfg : RulesConfig),
              ∃ ds, e.check t tokens sentences cfg none = .ok ds ∧
                ∀ s ∈ p.pattern.spans t, s.start < s.stop →
                  { p.diagnostic t s with
                    range := (LineIndex.ofText t).rangeAt s.start s.stop } ∈ ds) ∧
          ∀ between x after, later = between ++ x :: after → x.name = p.name →
            (∀ y ∈ after, y.name ≠ p.name) →
              ∃ q ∈ rules, x.read characters = .ok (some q) ∧ q.rule ∈ e.rules.map (·.2) ∧
                ∀ r ∈ e.rules.map (·.2), r.name = p.name → r = q.rule := by
  intro items rules e
  have hitems : List.Forall₂ (fun it p => it.read characters = .ok (some p)) items rules :=
    List.rel_flatMap (forall₂_of_mapM_ok hread) fun s f h => RuleFile.forall₂_items h
  refine ⟨fun hnames => registerAll_eq_withRules (RuleFile.name_ne_of_mem hitems hnames) _,
    fun s _ => RuleFile.nodup_anonymous_names s.2 s.1, fun earlier it later hsplit hanonymous => ?_⟩
  rw [hsplit] at hitems
  obtain ⟨before, p, after, hrules, _, hp, hafter⟩ := exists_of_forall₂_append_cons hitems
  have hname : p.name = "custom-" ++ toString it.number := by
    rw [RuleFile.name_of_read hp, RuleFile.Item.name, if_pos hanonymous]
  have hne : p.name ≠ "" := by
    rw [hname]
    exact fun h => by simpa using congrArg String.toList h
  have hmem : p ∈ rules := hrules ▸ List.mem_append_right _ List.mem_cons_self
  refine ⟨p, hmem, hp, hname, fun hlast => ?_, fun between x rest hlater hx hlast => ?_⟩
  · obtain ⟨hkept, _⟩ :=
      last_withRules base hrules hne (RuleFile.name_ne_of_mem hafter hlast)
    exact ⟨hkept, mem_check_of_mem_rules (standard_withRules base rules) hkept⟩
  · rw [hlater] at hafter
    obtain ⟨before', q, after', rfl, _, hq, hafter'⟩ := exists_of_forall₂_append_cons hafter
    have hqname : q.name = p.name := (RuleFile.name_of_read hq).trans hx
    rw [← List.cons_append, ← List.append_assoc] at hrules
    obtain ⟨hkept, honly⟩ := last_withRules base hrules (hqname ▸ hne)
      (RuleFile.name_ne_of_mem hafter' (hqname ▸ hlast))
    exact ⟨q, hrules ▸ List.mem_append_right _ List.mem_cons_self, hq, hkept,
      fun r hr hrname => honly r hr (hrname.trans hqname.symm)⟩

/-- The tables of two files that each give a rule without an id, the second with a place of its
own. -/
theorem withRules_of_files_apart :
    let data₁ : Value := .list [.map [(.str "pattern", .str "あ"), (.str "message", .str "m1")]]
    let data₂ : Value :=
      .list [.null, .map [(.str "pattern", .str "い"), (.str "message", .str "m2")]]
    let p₁ : PatternRule := ⟨"custom-1", ⟨"あ", .char 0x3042, {}⟩, "m1", .null, .warning⟩
    let p₂ : PatternRule := ⟨"custom-2", ⟨"い", .char 0x3044, {}⟩, "m2", .null, .warning⟩
    let files : List RuleFile :=
      [{ path := "a.json", rules := [p₁] }, { path := "b.json", rules := [p₂] }]
    [(data₁, "a.json"), (data₂, "b.json")].mapM
        (fun s => RuleFile.ofValue (fun _ => none) s.1 s.2) = .ok files ∧
      p₁.rule ∈ ((builtIn {}).withRules [p₁, p₂]).rules.map (·.2) ∧
      ∃ ds, ((builtIn {}).withRules [p₁, p₂]).check "いあ".toList [] [] {} none = .ok ds ∧
        { p₁.diagnostic "いあ".toList ⟨1, 2⟩ with range := ⟨⟨0, 1⟩, ⟨0, 2⟩⟩ } ∈ ds := by
  intro data₁ data₂ p₁ p₂ files
  have hread : [(data₁, "a.json"), (data₂, "b.json")].mapM
      (fun s => RuleFile.ofValue (fun _ => none) s.1 s.2) = .ok files := rfl
  obtain ⟨_, _, hstays⟩ := withRules_of_files {} hread
  obtain ⟨p, _, hp, hname, hkept, _⟩ := hstays [] _ _ rfl rfl
  have hread₁ : RuleFile.Item.read (fun _ => none) ⟨"a.json", 1, [(.str "pattern", .str "あ"),
      (.str "message", .str "m1")]⟩ = .ok (some p₁) := rfl
  obtain rfl : p₁ = p := Option.some.inj (Except.ok.inj (hread₁.symm.trans hp))
  obtain ⟨hmem, hreports⟩ := hkept (by decide)
  obtain ⟨ds, hds, hreports⟩ := hreports "いあ".toList [] [] {}
  exact ⟨hread, hmem, ds, hds, hreports ⟨1, 2⟩ (by decide) (by decide)⟩

/-- Two files whose first tables have no id: the rule of the first file is gone, and its match is
not reported. -/
theorem withRules_loses_anonymous :
    let data (pattern message : String) : Value :=
      .list [.map [(.str "pattern", .str pattern), (.str "message", .str message)]]
    let p₁ : PatternRule := ⟨"custom-1", ⟨"あ", .char 0x3042, {}⟩, "m1", .null, .warning⟩
    let p₂ : PatternRule := ⟨"custom-1", ⟨"い", .char 0x3044, {}⟩, "m2", .null, .warning⟩
    let files : List RuleFile :=
      [{ path := "a.json", rules := [p₁] }, { path := "b.json", rules := [p₂] }]
    let e := (builtIn {}).withRules (files.flatMap (·.rules))
    [(data "あ" "m1", "a.json"), (data "い" "m2", "b.json")].mapM
        (fun s => RuleFile.ofValue (fun _ => none) s.1 s.2) = .ok files ∧
      (∀ it ∈ RuleFile.items "a.json" (data "あ" "m1"), it.isAnonymous = true) ∧
      (builtIn {}).registerAll (files.flatMap (·.rules)) = .ok e ∧
      p₁.rule ∉ e.rules.map (·.2) ∧ (⟨0, 1⟩ : Span) ∈ p₁.pattern.spans "あ".toList ∧
      e.check "あ".toList [] [] {} (some ["custom-1"]) = .ok [] := by
  intro data p₁ p₂ files e
  refine ⟨rfl, by decide, rfl, fun hmem => ?_, by decide, ?_⟩
  · have hdescription : "m1" ∈ e.rules.map (·.2.description) := by
      obtain ⟨x, hx, hrule⟩ := List.mem_map.mp hmem
      exact List.mem_map.mpr ⟨x, hx, congrArg Rule.description hrule⟩
    exact absurd hdescription (by decide +kernel)
  · rw [check_of_harmless fun r hr => (standard_withRules {} _).harmless hr]
    exact congrArg Except.ok (List.isEmpty_iff.mp (by decide +kernel))

end Engine

namespace CommandLine

theorem exists_value_of_ofFile {characters : CharacterNames} {path : String}
    {content : Option ByteArray} {f : RuleFile}
    (h : RuleFile.ofFile characters path content = .ok f) :
    ∃ v : Value, RuleFile.ofValue characters v (Path.ofText path).text.shown = .ok f := by
  unfold RuleFile.ofFile at h
  split at h
  · simp at h
  · split at h
    · simp at h
    · obtain ⟨w, _, h⟩ := bind_eq_ok.mp h
      simp only at h
      split at h
      · obtain ⟨v, _, h⟩ := bind_eq_ok.mp h
        exact ⟨v, mapError_eq_ok.mp h⟩
      · obtain ⟨v, _, h⟩ := bind_eq_ok.mp h
        exact ⟨v, mapError_eq_ok.mp h⟩

theorem characters_of_apply {f : RuleFile} {s s' : Settings} (h : f.apply s = .ok s') :
    s'.filter.characters = s.filter.characters := by
  obtain ⟨rules, _, h⟩ := bind_eq_ok.mp h
  obtain rfl := Except.ok.inj h
  rfl

/-- The engine of a run has the rules of the values that its rule files hold. -/
theorem exists_sources_of_addRuleFile {t : FileTree} {paths : List String} {s s' : Settings}
    {e e' : Engine} (h : paths.foldlM (addRuleFile t) (s, e) = .ok (s', e')) :
    ∃ (sources : List (Value × String)) (files : List RuleFile),
      sources.mapM (fun x => RuleFile.ofValue s.filter.characters x.1 x.2) = .ok files ∧
        e' = e.withRules (files.flatMap (·.rules)) := by
  induction paths generalizing s e with
  | nil =>
      obtain ⟨rfl, rfl⟩ := Prod.mk.inj (Except.ok.inj h)
      exact ⟨[], [], rfl, rfl⟩
  | cons path paths ih =>
      rw [List.foldlM_cons] at h
      obtain ⟨⟨s₁, e₁⟩, hfile, h⟩ := bind_eq_ok.mp h
      obtain ⟨sources, files, hread, rfl⟩ := ih h
      unfold addRuleFile at hfile
      simp only at hfile
      split at hfile
      · simp at hfile
      · next f hf =>
          obtain ⟨v, hv⟩ := exists_value_of_ofFile hf
          obtain ⟨s₂, happly, hfile⟩ := bind_eq_ok.mp hfile
          obtain ⟨rfl, rfl⟩ := Prod.mk.inj (Except.ok.inj hfile)
          rw [characters_of_apply (mapError_eq_ok.mp happly)] at hread
          refine ⟨(v, (Path.ofText path).text.shown) :: sources, f :: files, ?_, ?_⟩
          · rw [List.mapM_cons, hv, hread]
            rfl
          · rw [List.flatMap_cons, Engine.withRules, Engine.withRules, List.map_append,
              List.foldl_append]

end CommandLine

end Kouetsu
