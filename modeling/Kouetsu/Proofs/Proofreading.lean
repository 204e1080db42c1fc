import Kouetsu.Proofreading
import Kouetsu.Proofs.Engine
import Mathlib.Data.List.Sort
import Mathlib.Data.Prod.Lex
import Mathlib.Data.String.Basic
/-!
# Issues of a text

The issues of a text are the diagnostics that can be shown in it, each key once and in order.
No two built-in checks share a code, so of the issues with one key all come from one check, and
what a choice of checks finds is put together from what each of them finds.
-/

namespace Kouetsu

/-! ## The order of issues -/

/-- A range, a code and a message as they are compared: part by part. -/
abbrev DiagnosticRank := Int ×ₗ Int ×ₗ Int ×ₗ Int ×ₗ String ×ₗ String

namespace DiagnosticKey

def rank (k : DiagnosticKey) : DiagnosticRank :=
  toLex (k.range.start.line, toLex (k.range.start.character,
    toLex (k.range.stop.line, toLex (k.range.stop.character, toLex (k.code, k.message)))))

theorem rank_injective : Function.Injective rank := by
  rintro ⟨⟨⟨a, b⟩, ⟨c, d⟩⟩, e, f⟩ ⟨⟨⟨a', b'⟩, ⟨c', d'⟩⟩, e', f'⟩ h
  simp only [rank, EmbeddingLike.apply_eq_iff_eq, Prod.mk.injEq] at h
  obtain ⟨rfl, rfl, rfl, rfl, rfl, rfl⟩ := h
  rfl

theorem le_iff {k l : DiagnosticKey} : k.le l = true ↔ k.rank ≤ l.rank := by
  obtain ⟨⟨⟨a, b⟩, ⟨c, d⟩⟩, e, f⟩ := k
  obtain ⟨⟨⟨a', b'⟩, ⟨c', d'⟩⟩, e', f'⟩ := l
  simp only [le, rank, Range.before, Position.before, Prod.Lex.toLex_le_toLex, Bool.or_eq_true,
    Bool.and_eq_true, decide_eq_true_eq, Range.mk.injEq, Position.mk.injEq]
  grind

end DiagnosticKey

def Issue.rank (i : Issue) : DiagnosticRank := i.diagnostic.key.rank

/-! ## The first of each key -/

theorem mem_firstOfEach {ds : List Diagnostic} {d : Diagnostic} :
    d ∈ firstOfEach ds ↔ ds.find? (·.key = d.key) = some d := by
  induction ds with
  | nil => simp [firstOfEach]
  | cons x rest ih =>
      rw [firstOfEach, List.mem_cons, List.mem_filter, ih, List.find?_cons]
      by_cases hkey : x.key = d.key
      · simp [hkey, eq_comm]
      · have hne : d ≠ x := fun h => hkey (h ▸ rfl)
        simp [hkey, hne, Ne.symm hkey]

theorem exists_mem_firstOfEach {ds : List Diagnostic} {k : DiagnosticKey} :
    (∃ d ∈ firstOfEach ds, d.key = k) ↔ ∃ d ∈ ds, d.key = k := by
  constructor
  · rintro ⟨d, hd, rfl⟩
    exact ⟨d, List.mem_of_find?_eq_some (mem_firstOfEach.mp hd), rfl⟩
  · rintro ⟨d, hd, rfl⟩
    obtain ⟨e, he⟩ : ∃ e, ds.find? (·.key = d.key) = some e :=
      Option.isSome_iff_exists.mp (List.find?_isSome.mpr ⟨d, hd, by simp⟩)
    have hkey : e.key = d.key := by simpa using List.find?_some he
    exact ⟨e, mem_firstOfEach.mpr (hkey ▸ he), hkey⟩

theorem pairwise_firstOfEach (ds : List Diagnostic) :
    (firstOfEach ds).Pairwise fun d e => d.key ≠ e.key := by
  induction ds with
  | nil => exact .nil
  | cons x rest ih =>
      refine List.pairwise_cons.mpr ⟨fun e he => ?_, ih.sublist List.filter_sublist⟩
      exact Ne.symm (of_decide_eq_true (List.mem_filter.mp he).2)

/-! ## What is shown -/

/-- The document range of two offsets of the prose: from the position of the first character to
the end of the last, or the position of the first where there is no last. -/
inductive OffsetMap.Shows (m : OffsetMap) (start stop : Int) : Range → Prop
  | point {s : Position} (hempty : stop ≤ start) (hs : m.toDocument? start = some s) :
      Shows m start stop ⟨s, s⟩
  | chars {s last : Position} (hne : start < stop) (hs : m.toDocument? start = some s)
      (hlast : m.toDocument? (stop - 1) = some last) :
      Shows m start stop
        ⟨s, ⟨last.line, min (last.character + 1) (m.index.lineLength last.line)⟩⟩

theorem documentRange?_eq_some {prose : LineIndex} {m : OffsetMap} {r r' : Range} :
    documentRange? prose m r = some r' ↔
      m.Shows (prose.offsetAt r.start) (prose.offsetAt r.stop) r' := by
  rw [documentRange?]
  generalize prose.offsetAt r.start = start
  generalize prose.offsetAt r.stop = stop
  constructor
  · intro h
    obtain ⟨s, hs, h⟩ := Option.bind_eq_some_iff.mp h
    split at h
    · next hlt =>
        obtain ⟨last, hlast, h⟩ := Option.bind_eq_some_iff.mp h
        exact Option.some.inj h ▸ .chars hlt hs hlast
    · next hle => exact Option.some.inj h ▸ .point (Int.not_lt.mp hle) hs
  · rintro (⟨hempty, hs⟩ | ⟨hne, hs, hlast⟩)
    · simp [hs, Int.not_lt.mpr hempty]
    · simp [hs, hne, hlast]

namespace Prepared

def prose (p : Prepared) : LineIndex := LineIndex.ofText p.filtered.text

/-- A range of the prose that starts outside tables, with the range of the document that stands
for it. -/
structure Shows (p : Prepared) (r r' : Range) : Prop where
  outside : ∀ x ∈ p.filtered.ranges, x.kind = .table →
    ¬(x.start ≤ p.prose.offsetAt r.start ∧ p.prose.offsetAt r.start < x.stop)
  same : p.map = none → r' = r
  mapped : ∀ m, p.map = some m →
    m.Shows (p.prose.offsetAt r.start) (p.prose.offsetAt r.stop) r'

theorem inTable_eq_false {offset : Int} {ranges : List ExcludedRange} :
    inTable offset ranges = false ↔
      ∀ x ∈ ranges, x.kind = .table → ¬(x.start ≤ offset ∧ offset < x.stop) := by
  rw [inTable, List.any_eq_false]
  simp only [ExcludedRange.covers, Bool.and_eq_true, decide_eq_true_eq]
  exact forall₂_congr fun x _ => not_and

theorem locate?_eq_some {p : Prepared} {d e : Diagnostic} :
    p.locate? p.prose d = some e ↔ ∃ r, p.Shows d.range r ∧ e = { d with range := r } := by
  rw [locate?]
  split
  · next htable =>
      refine iff_of_false (by simp) ?_
      rintro ⟨r, hr, _⟩
      exact Bool.false_ne_true ((inTable_eq_false.mpr hr.outside).symm.trans htable)
  · next htable =>
      have houtside := inTable_eq_false.mp (Bool.eq_false_iff.mpr htable)
      cases hmap : p.map with
      | none =>
          constructor
          · intro h
            exact ⟨d.range, ⟨houtside, fun _ => rfl, by simp [hmap]⟩, (Option.some.inj h).symm⟩
          · rintro ⟨r, hr, rfl⟩
            rw [hr.same hmap]
      | some m =>
          simp only [Option.map_eq_some_iff, documentRange?_eq_some]
          constructor
          · rintro ⟨r, hr, rfl⟩
            refine ⟨r, ⟨houtside, by simp [hmap], fun m' hm' => ?_⟩, rfl⟩
            rwa [← Option.some.inj (hmap.symm.trans hm')]
          · rintro ⟨r, hr, rfl⟩
            exact ⟨r, hr.mapped m hmap, rfl⟩

end Prepared

/-! ## Issues -/

namespace Prepared

variable {p : Prepared} {ds : List Diagnostic} {file : Json.Node}

def shown (p : Prepared) (ds : List Diagnostic) : List Diagnostic :=
  ds.filterMap (p.locate? p.prose)

def issueOf (p : Prepared) (file : Json.Node) (d : Diagnostic) : Issue :=
  ⟨file, d, String.ofList (snippetAt (LineIndex.ofText p.document) d.range)⟩

theorem mem_issuesOf {i : Issue} :
    i ∈ p.issuesOf ds file ↔
      ∃ d, (p.shown ds).find? (·.key = d.key) = some d ∧ i = p.issueOf file d := by
  rw [show p.issuesOf ds file = ((firstOfEach (p.shown ds)).mergeSort
    fun d e => d.key.le e.key).map (p.issueOf file) from rfl, List.mem_map]
  refine exists_congr fun d => ?_
  rw [List.mem_mergeSort, mem_firstOfEach, eq_comm (a := i)]

theorem pairwise_issuesOf (p : Prepared) (ds : List Diagnostic) (file : Json.Node) :
    (p.issuesOf ds file).Pairwise fun i j => i.rank < j.rank := by
  have hsorted : ((firstOfEach (p.shown ds)).mergeSort fun d e => d.key.le e.key).Pairwise
      fun d e => d.key.rank ≤ e.key.rank := by
    refine (List.pairwise_mergeSort ?_ ?_ _).imp DiagnosticKey.le_iff.mp
    · intro a b c hab hbc
      exact DiagnosticKey.le_iff.mpr
        ((DiagnosticKey.le_iff.mp hab).trans (DiagnosticKey.le_iff.mp hbc))
    · intro a b
      rw [Bool.or_eq_true, DiagnosticKey.le_iff, DiagnosticKey.le_iff]
      exact le_total _ _
  have hapart := (List.mergeSort_perm (firstOfEach (p.shown ds))
    fun d e => d.key.le e.key).symm.pairwise (pairwise_firstOfEach _) fun h => h.symm
  exact List.pairwise_map.mpr (hsorted.imp₂ (fun d e hle hne =>
    lt_of_le_of_ne hle (DiagnosticKey.rank_injective.ne hne)) hapart)

theorem exists_mem_issuesOf {k : DiagnosticKey} :
    (∃ i ∈ p.issuesOf ds file, i.diagnostic.key = k) ↔ ∃ d ∈ p.shown ds, d.key = k := by
  rw [← exists_mem_firstOfEach]
  constructor
  · rintro ⟨i, hi, rfl⟩
    obtain ⟨d, hd, rfl⟩ := mem_issuesOf.mp hi
    exact ⟨d, mem_firstOfEach.mpr hd, rfl⟩
  · rintro ⟨d, hd, rfl⟩
    exact ⟨p.issueOf file d, mem_issuesOf.mpr ⟨d, mem_firstOfEach.mp hd, rfl⟩, rfl⟩

theorem exists_mem_shown {k : DiagnosticKey} :
    (∃ d ∈ p.shown ds, d.key = k) ↔ ∃ d ∈ ds,
      p.Shows d.range k.range ∧ d.code = k.code ∧ d.message = k.message := by
  constructor
  · rintro ⟨e, he, rfl⟩
    obtain ⟨d, hd, hlocate⟩ := List.mem_filterMap.mp he
    obtain ⟨range, hshows, rfl⟩ := Prepared.locate?_eq_some.mp hlocate
    exact ⟨d, hd, hshows, rfl, rfl⟩
  · rintro ⟨d, hd, hshows, hcode, hmessage⟩
    refine ⟨{ d with range := k.range }, List.mem_filterMap.mpr ⟨d, hd, ?_⟩, ?_⟩
    · exact Prepared.locate?_eq_some.mpr ⟨k.range, hshows, rfl⟩
    · exact congrArg₂ (DiagnosticKey.mk k.range) hcode hmessage

end Prepared

/-! ## Issues of the built-in checks -/

namespace Check

theorem mem_all (c : Check) : c ∈ all := by cases c <;> decide

theorem name_injective : Function.Injective name := fun c d h =>
  List.inj_on_of_nodup_map (show (all.map name).Nodup by decide) (mem_all c) (mem_all d) h

theorem code_injective : Function.Injective code := fun c d h =>
  List.inj_on_of_nodup_map (show (all.map code).Nodup by decide) (mem_all c) (mem_all d) h

theorem exists_finding_of_mem_diagnosticsOf {ctx : Context} {c : Check} {d : Diagnostic}
    (hd : d ∈ Engine.diagnosticsOf ctx c.rule) :
    ∃ f r, d = { c.diagnostic ctx.index f with range := r } := by
  obtain ⟨_, _, f, _, rfl⟩ := Engine.mem_diagnosticsOf_check.mp hd
  exact ⟨f, _, rfl⟩

end Check

namespace Engine

def ofChecks (base : RulesConfig) (cs : List Check) : Engine :=
  { rules := cs.map fun c => (c.name, c.rule), config := base }

theorem builtIn_eq_ofChecks (base : RulesConfig) : builtIn base = ofChecks base Check.all := rfl

theorem register_ofChecks {base : RulesConfig} {cs : List Check} {c : Check} (hc : c ∉ cs) :
    (ofChecks base cs).register c.rule = .ok (ofChecks base (cs ++ [c])) := by
  have hname : c.name.isEmpty = false := by cases c <;> rfl
  have hinsert : Entries.insert c.name c.rule (cs.map fun c => (c.name, c.rule)) =
      (cs ++ [c]).map fun c => (c.name, c.rule) := by
    induction cs with
    | nil => rfl
    | cons d cs ih =>
        rw [List.mem_cons, not_or] at hc
        have hne : d.name ≠ c.name := Check.name_injective.ne (Ne.symm hc.1)
        rw [List.map_cons, Entries.insert, if_neg hne, ih hc.2]
        rfl
  rw [register, show c.rule.name = c.name from rfl, hname, if_neg Bool.false_ne_true]
  exact congrArg (fun rules => Except.ok (Engine.mk rules base)) hinsert

theorem ofRules_checks {base : RulesConfig} {cs : List Check} (hcs : cs.Nodup) :
    ofRules base (cs.map Check.rule) = .ok (ofChecks base cs) := by
  suffices h : ∀ before, (before ++ cs).Nodup →
      (cs.map Check.rule).foldlM register (ofChecks base before) =
        .ok (ofChecks base (before ++ cs)) from h [] hcs
  clear hcs
  intro before
  induction cs generalizing before with
  | nil =>
      intro _
      rw [List.append_nil]
      rfl
  | cons c cs ih =>
      intro hnodup
      have hc : c ∉ before := fun hc =>
        List.disjoint_of_nodup_append hnodup hc List.mem_cons_self
      rw [List.map_cons, List.foldlM_cons, register_ofChecks hc]
      have hrest := ih (before ++ [c]) (List.append_cons before c cs ▸ hnodup)
      rw [← List.append_cons] at hrest
      exact hrest

end Engine

/-- Blocks of which only one can hold what is looked for are looked through one by one. -/
theorem find?_flatMap_eq_some {α β : Type} {xs : List α} {f : α → List β} {q : β → Bool} {b : β}
    (hunique : ∀ x ∈ xs, ∀ y ∈ xs, ∀ b ∈ f x, ∀ c ∈ f y, q b = true → q c = true → x = y) :
    (xs.flatMap f).find? q = some b ↔ ∃ x ∈ xs, (f x).find? q = some b := by
  rw [List.find?_flatMap]
  constructor
  · exact List.exists_of_findSome?_eq_some
  · rintro ⟨x, hx, hb⟩
    obtain ⟨c, hc⟩ : ∃ c, xs.findSome? (fun y => (f y).find? q) = some c :=
      Option.isSome_iff_exists.mp (List.findSome?_isSome_iff.mpr ⟨x, hx, by simp [hb]⟩)
    obtain ⟨y, hy, hcy⟩ := List.exists_of_findSome?_eq_some hc
    have hxy : x = y := hunique x hx y hy b (List.mem_of_find?_eq_some hb) c
      (List.mem_of_find?_eq_some hcy) (List.find?_some hb) (List.find?_some hcy)
    rw [hc, ← hcy, ← hxy, hb]

def Prepared.context (p : Prepared) (tokens : List Token) (cfg : RulesConfig) : Context :=
  let kept := keepTokens tokens p.filtered.ranges
  .of p.filtered.text kept (segment p.filtered.text kept (some p.filtered.ranges)) cfg

namespace Check

/-- Whether a check is switched on and let through by a choice of names. -/
def Runs (c : Check) (cfg : RulesConfig) (names : Option (List String)) : Prop :=
  cfg.isOn (.check c) = true ∧ ∀ ns, names = some ns → c.name ∈ ns

def running (cs : List Check) (cfg : RulesConfig) (names : Option (List String)) : List Check :=
  cs.filter fun c => c.rule.isEnabled cfg && Engine.isChosen names c.rule

theorem mem_running {cs : List Check} {cfg : RulesConfig} {names : Option (List String)}
    {c : Check} : c ∈ running cs cfg names ↔ c ∈ cs ∧ c.Runs cfg names := by
  rw [running, List.mem_filter]
  cases names <;> simp [Runs, rule, Rule.isEnabled, Engine.isChosen]

def shown (c : Check) (p : Prepared) (tokens : List Token) (cfg : RulesConfig) :
    List Diagnostic :=
  p.shown (Engine.diagnosticsOf (p.context tokens cfg) c.rule)

/-- An issue that a check finds: of the diagnostics with one key the first. -/
def Finds (c : Check) (p : Prepared) (tokens : List Token) (cfg : RulesConfig) (file : Json.Node)
    (i : Issue) : Prop :=
  ∃ d, (c.shown p tokens cfg).find? (·.key = d.key) = some d ∧ i = p.issueOf file d

theorem exists_finding_of_mem_shown {c : Check} {p : Prepared} {tokens : List Token}
    {cfg : RulesConfig} {d : Diagnostic} (hd : d ∈ c.shown p tokens cfg) :
    ∃ f r, d = { c.diagnostic p.prose f with range := r } := by
  obtain ⟨e, he, hlocate⟩ := List.mem_filterMap.mp hd
  obtain ⟨r, _, rfl⟩ := Prepared.locate?_eq_some.mp hlocate
  obtain ⟨f, _, rfl⟩ := exists_finding_of_mem_diagnosticsOf he
  exact ⟨f, r, rfl⟩

theorem code_of_mem_shown {c : Check} {p : Prepared} {tokens : List Token} {cfg : RulesConfig}
    {d : Diagnostic} (hd : d ∈ c.shown p tokens cfg) : d.code = c.code := by
  obtain ⟨f, r, rfl⟩ := exists_finding_of_mem_shown hd
  rfl

end Check

namespace Proofreader

variable {settings : Settings} {base : RulesConfig} {cs : List Check}
  {names : Option (List String)} {p : Prepared} {tokens : List Token} {file : Json.Node}

def foundByChecks (cs : List Check) (p : Prepared) (tokens : List Token) (cfg : RulesConfig)
    (names : Option (List String)) : List Diagnostic :=
  (Check.running cs cfg names).flatMap fun c =>
    Engine.diagnosticsOf (p.context tokens cfg) c.rule

theorem diagnostics_ofChecks (settings : Settings) (base : RulesConfig) (cs : List Check)
    (names : Option (List String)) (p : Prepared) (tokens : List Token) :
    diagnostics ⟨settings, .ofChecks base cs, names⟩ p tokens =
      .ok (foundByChecks cs p tokens settings.rules names) := by
  have hharmless : ∀ r ∈ (Engine.ofChecks base cs).rules.map (·.2), Engine.Harmless r := by
    intro r hr
    rw [Engine.ofChecks, List.map_map] at hr
    obtain ⟨c, _, rfl⟩ := List.mem_map.mp hr
    exact Engine.harmless_check c
  have hrules : (Engine.ofChecks base cs).running settings.rules names =
      (Check.running cs settings.rules names).map Check.rule := by
    rw [Engine.running, Engine.ofChecks, List.map_map, List.filter_map, Check.running]
    congr 2
    funext c
    exact Bool.and_comm _ _
  rw [diagnostics, Engine.check_of_harmless hharmless, hrules, List.flatMap_map]
  rfl

theorem shown_foundByChecks : p.shown (foundByChecks cs p tokens settings.rules names) =
    (Check.running cs settings.rules names).flatMap fun c => c.shown p tokens settings.rules :=
  List.filterMap_flatMap

theorem mem_issuesOf_foundByChecks {i : Issue} :
    i ∈ p.issuesOf (foundByChecks cs p tokens settings.rules names) file ↔
      ∃ c ∈ cs, c.Runs settings.rules names ∧ c.Finds p tokens settings.rules file i := by
  have hfind (d : Diagnostic) : (((Check.running cs settings.rules names).flatMap fun c =>
      c.shown p tokens settings.rules).find? (·.key = d.key) = some d) ↔
        ∃ c ∈ Check.running cs settings.rules names,
          (c.shown p tokens settings.rules).find? (·.key = d.key) = some d := by
    refine find?_flatMap_eq_some fun x _ y _ b hb c hc hbd hcd => ?_
    have hkeys : b.key = c.key := (of_decide_eq_true hbd).trans (of_decide_eq_true hcd).symm
    have hcodes : b.code = c.code := congrArg DiagnosticKey.code hkeys
    rw [Check.code_of_mem_shown hb, Check.code_of_mem_shown hc] at hcodes
    exact Check.code_injective hcodes
  rw [Prepared.mem_issuesOf, shown_foundByChecks]
  constructor
  · rintro ⟨d, hd, rfl⟩
    obtain ⟨c, hc, hd⟩ := (hfind d).mp hd
    obtain ⟨hc, hruns⟩ := Check.mem_running.mp hc
    exact ⟨c, hc, hruns, d, hd, rfl⟩
  · rintro ⟨c, hc, hruns, d, hd, rfl⟩
    exact ⟨d, (hfind d).mpr ⟨c, Check.mem_running.mpr ⟨hc, hruns⟩, hd⟩, rfl⟩

theorem eq_of_pairwise_rank {is js : List Issue} (his : is.Pairwise fun i j => i.rank < j.rank)
    (hjs : js.Pairwise fun i j => i.rank < j.rank) (hmem : ∀ i, i ∈ is ↔ i ∈ js) : is = js := by
  have : Std.Irrefl fun i j : Issue => i.rank < j.rank := ⟨fun i => lt_irrefl _⟩
  have : Std.Antisymm fun i j : Issue => i.rank < j.rank :=
    ⟨fun i j hij hji => absurd hji (lt_asymm hij)⟩
  exact his.eq_of_mem_iff hjs hmem

theorem issuesOf_foundByChecks_congr {ds : List Check} (h : ∀ c, c ∈ cs ↔ c ∈ ds) :
    p.issuesOf (foundByChecks cs p tokens settings.rules names) file =
      p.issuesOf (foundByChecks ds p tokens settings.rules names) file := by
  refine eq_of_pairwise_rank (p.pairwise_issuesOf _ _) (p.pairwise_issuesOf _ _) fun i => ?_
  simp only [mem_issuesOf_foundByChecks, h]

/-- A text with its tokens given has issues if its rules all tell whether they are on. -/
theorem checkText_eq {ε : Type} (r : Proofreader) (t : Text) (language : String) (file : Json.Node)
    (tokens : List Token) {ds : List Diagnostic}
    (h : r.diagnostics (prepare t language r.settings.filter) tokens = .ok ds) :
    r.checkText t language file (fun _ => Except.ok (ε := ε) tokens) =
      .ok ((prepare t language r.settings.filter).issuesOf ds file) := by
  show (r.diagnostics _ tokens).mapError TextError.enabling >>= _ = _
  rw [h]
  rfl

theorem checkText_builtIn {ε : Type} (settings : Settings) (base : RulesConfig)
    (names : Option (List String)) (t : Text) (language : String) (file : Json.Node)
    (tokens : List Token) :
    checkText ⟨settings, .builtIn base, names⟩ t language file
        (fun _ => Except.ok (ε := ε) tokens) =
      .ok ((prepare t language settings.filter).issuesOf
        (foundByChecks Check.all (prepare t language settings.filter) tokens settings.rules names) file) :=
  checkText_eq _ t language file tokens (diagnostics_ofChecks ..)

end Proofreader

/-! ## The issues of a text -/

/-- Issues that are in order and have the keys of those diagnostics that are shown. -/
structure KeysShown (p : Prepared) (ds : List Diagnostic) (is : List Issue) : Prop where
  sorted : is.Pairwise fun i j => i.rank < j.rank
  keys : ∀ k, (∃ i ∈ is, i.diagnostic.key = k) ↔
    ∃ d ∈ ds, p.Shows d.range k.range ∧ d.code = k.code ∧ d.message = k.message

/-- Issues that are in order and come from two lists. -/
structure SortedUnion (is₁ is₂ is : List Issue) : Prop where
  sorted : is.Pairwise fun i j => i.rank < j.rank
  mem : ∀ i, i ∈ is ↔ i ∈ is₁ ∨ i ∈ is₂

/-- The issues of a text have the keys of the diagnostics that are shown, as long as every rule
tells whether it is on, which built-in checks do.  The issues of two choices of built-in checks
together are those of both, and no order of registration changes them. -/
theorem checkText_union {ε : Type} (t : Text) (language : String) (file : Json.Node)
    (tokens : List Token) (settings : Settings) :
    let p := prepare t language settings.filter
    let check (engine : Engine) (names : Option (List String)) :
        Except (TextError ε) (List Issue) :=
      Proofreader.checkText ⟨settings, engine, names⟩ t language file fun _ => .ok tokens
    (∀ engine names e, Proofreader.diagnostics ⟨settings, engine, names⟩ p tokens = .error e →
      check engine names = .error (.enabling e)) ∧
    (∀ engine names ds, Proofreader.diagnostics ⟨settings, engine, names⟩ p tokens = .ok ds →
      ∃ is, check engine names = .ok is ∧ KeysShown p ds is) ∧
    (∀ base names, ∃ ds,
      Proofreader.diagnostics ⟨settings, .builtIn base, names⟩ p tokens = .ok ds) ∧
    (∀ base ns₁ ns₂ ns, (∀ n, n ∈ ns ↔ n ∈ ns₁ ∨ n ∈ ns₂) → ∃ is₁ is₂ is,
      check (.builtIn base) (some ns₁) = .ok is₁ ∧ check (.builtIn base) (some ns₂) = .ok is₂ ∧
        check (.builtIn base) (some ns) = .ok is ∧ SortedUnion is₁ is₂ is) ∧
    ∀ base (cs : List Check), cs.Perm Check.all → ∃ engine,
      Engine.ofRules base (cs.map Check.rule) = .ok engine ∧
        ∀ names, check engine names = check (.builtIn base) names := by
  intro p check
  have hchecks (base : RulesConfig) (cs : List Check) (names : Option (List String)) :
      check (.ofChecks base cs) names =
        .ok (p.issuesOf (Proofreader.foundByChecks cs p tokens settings.rules names) file) :=
    Proofreader.checkText_eq _ t language file tokens (Proofreader.diagnostics_ofChecks ..)
  refine ⟨fun engine names e he => ?_, fun engine names ds hds => ?_,
    fun base names => ⟨_, Proofreader.diagnostics_ofChecks ..⟩, fun base ns₁ ns₂ ns hns => ?_,
    fun base cs hcs => ?_⟩
  · show (Proofreader.diagnostics _ _ tokens).mapError TextError.enabling >>= _ = _
    rw [he]
    rfl
  · exact ⟨_, Proofreader.checkText_eq _ t language file tokens hds, p.pairwise_issuesOf _ _,
      fun k => Prepared.exists_mem_issuesOf.trans Prepared.exists_mem_shown⟩
  · refine ⟨_, _, _, hchecks base _ _, hchecks base _ _, hchecks base _ _,
      p.pairwise_issuesOf _ _, fun i => ?_⟩
    simp only [Proofreader.mem_issuesOf_foundByChecks, Check.Runs, Option.some.injEq, forall_eq', hns,
      and_or_left, or_and_right, exists_or]
  · have hnodup : cs.Nodup := hcs.nodup_iff.mpr (by decide)
    refine ⟨_, Engine.ofRules_checks hnodup, fun names => ?_⟩
    rw [hchecks, Engine.builtIn_eq_ofChecks, hchecks,
      Proofreader.issuesOf_foundByChecks_congr fun c => hcs.mem_iff]

/-- Two checks, and all checks registered backwards. -/
theorem checkText_union_reverse :
    let check (engine : Engine) (names : Option (List String)) : Except (TextError MorphologyError) _ :=
      Proofreader.checkText ⟨{}, engine, names⟩ "ｱを".toList "markdown" .null fun _ => .ok []
    (∃ is₁ is₂ is, check (.builtIn {}) (some ["halfwidth-kana"]) = .ok is₁ ∧
      check (.builtIn {}) (some ["sahen-verb"]) = .ok is₂ ∧
      check (.builtIn {}) (some ["sahen-verb", "halfwidth-kana"]) = .ok is ∧
      SortedUnion is₁ is₂ is) ∧
    ∃ engine, Engine.ofRules {} (Check.all.reverse.map Check.rule) = .ok engine ∧
      ∀ names, check engine names = check (.builtIn {}) names := by
  intro check
  obtain ⟨_, _, _, hunion, horder⟩ :=
    @checkText_union MorphologyError "ｱを".toList "markdown" .null [] {}
  exact ⟨hunion {} _ _ _ (by simp [or_comm]), horder {} _ Check.all.reverse_perm⟩

end Kouetsu
