import Kouetsu.Proofs.Digest
import Kouetsu.Proofs.Engine
import Kouetsu.Proofs.Value.Text
import Kouetsu.RuleFile
/-!
# What a digest tells of rules

The digest of an engine names its rules and shows their patterns.  What the rules say at their
matches is not in it, so engines with one digest find the same only as far as rules with one name
and one pattern say the same.
-/

namespace Kouetsu

/-! ## Patterns -/

namespace Pattern

/-- A pattern that is shown with the whole of its source. -/
def IsShort (p : Pattern) : Prop := (quoteString p.source).length ≤ 200

theorem flagNames_subset (f : Flags) : flagNames f ⊆ ["re.TEMPLATE", "re.IGNORECASE",
    "re.MULTILINE", "re.DOTALL", "re.VERBOSE", "re.ASCII"] := by
  intro name hname
  simp only [flagNames, List.mem_append] at hname
  rcases hname with ((((h | h) | h) | h) | h) | h
  all_goals
    split at h
    · simp [List.mem_singleton.mp h]
    · exact absurd h List.not_mem_nil

theorem isUnmarked_intercalate {sep : String} {parts : List String}
    (hsep : isUnmarked sep.toList = true) (hparts : ∀ p ∈ parts, isUnmarked p.toList = true) :
    isUnmarked (String.intercalate sep parts).toList = true := by
  cases parts with
  | nil => rfl
  | cons p parts =>
      have hrest : ∀ q ∈ parts, isUnmarked (sep.toList ++ q.toList) = true := by
        intro q hq
        rw [isUnmarked_append, hsep, hparts q (List.mem_cons_of_mem p hq)]
        rfl
      rw [Json.toList_intercalate, isUnmarked_append, hparts p List.mem_cons_self, Bool.true_and,
        isUnmarked, List.all_flatMap, List.all_eq_true]
      exact hrest

theorem exists_toList_shown {p : Pattern} (h : p.IsShort) :
    ∃ tail : Text, isUnmarked tail = true ∧
      p.shown.toList = "re.compile(".toList ++ ((quoteString p.source).toList ++ tail) := by
  have htake : (quoteString p.source).toList.take 200 = (quoteString p.source).toList :=
    List.take_of_length_le (by rwa [String.length_toList])
  have hname : ∀ name ∈ flagNames p.flags, isUnmarked name.toList = true := by
    have hall : ∀ name ∈ ["re.TEMPLATE", "re.IGNORECASE", "re.MULTILINE", "re.DOTALL",
        "re.VERBOSE", "re.ASCII"], isUnmarked name.toList = true := by decide +kernel
    exact fun name hname => hall name (flagNames_subset p.flags hname)
  have hflags : isUnmarked (String.intercalate "|" (flagNames p.flags)).toList = true :=
    isUnmarked_intercalate (by decide) hname
  let tail := (if (flagNames p.flags).isEmpty then ""
    else ", " ++ String.intercalate "|" (flagNames p.flags)) ++ ")"
  refine ⟨tail.toList, ?_, ?_⟩
  · rw [String.toList_append, isUnmarked_append]
    split
    · decide
    · rw [String.toList_append, isUnmarked_append, hflags]
      decide
  · rw [shown]
    simp only [htake, String.ofList_toList, String.toList_append, List.append_assoc, tail]

theorem compile_source {characters : CharacterNames} {source : String} {p : Pattern}
    (h : compile characters source = .ok p) : compile characters p.source = .ok p := by
  obtain ⟨⟨expr, flags⟩, _, hp⟩ := bind_eq_ok.mp h
  obtain rfl := Except.ok.inj hp
  exact h

end Pattern

/-! ## Rules -/

namespace PatternRule

def IsRead (p : PatternRule) (characters : CharacterNames) : Prop :=
  Pattern.compile characters p.pattern.source = .ok p.pattern

/-- Rules that say the same, wherever they say something. -/
structure SaysSame (p q : PatternRule) : Prop where
  message : p.message = q.message
  suggestion : p.suggestion = q.suggestion
  severity : p.severity = q.severity

variable {p q : PatternRule} {characters : CharacterNames}

theorem toList_digestPart (p : PatternRule) : p.rule.digestPart.toList =
    "<PatternRule ".toList ++ (p.name.toList ++ ('>' :: p.pattern.shown.toList)) := by
  show ("<" ++ "PatternRule" ++ " " ++ p.name ++ ">" ++ p.pattern.shown).toList = _
  simp

/-- The part of a rule in a digest tells its name and its pattern, and no more. -/
theorem digestPart_eq_iff (hp : p.pattern.IsShort) (hq : q.pattern.IsShort)
    (hpread : p.IsRead characters) (hqread : q.IsRead characters) :
    p.rule.digestPart = q.rule.digestPart ↔
      p.name = q.name ∧ p.pattern = q.pattern := by
  constructor
  · intro h
    obtain ⟨tail, htail, hshown⟩ := Pattern.exists_toList_shown hp
    obtain ⟨tail', htail', hshown'⟩ := Pattern.exists_toList_shown hq
    have htexts := congrArg String.toList h
    rw [toList_digestPart, toList_digestPart, hshown, hshown', List.append_cancel_left_eq] at htexts
    have hsplit (name quoted : Text) : name ++ '>' :: ("re.compile(".toList ++ quoted) =
        (name ++ ">re.compile(".toList) ++ quoted := by
      simp
    have hopen : ">re.compile(".toList.getLast? = some '(' := by decide
    have hlast (name : Text) : (name ++ ">re.compile(".toList).getLast? ≠ some '\\' := by
      rw [List.getLast?_append, hopen]
      simp
    rw [hsplit, hsplit] at htexts
    obtain ⟨hbefore, hsource, _⟩ := eq_of_quoteString (hlast _) (hlast _) htail htail' htexts
    have hname := String.toList_inj.mp (List.append_cancel_right hbefore)
    rw [IsRead, hsource, hqread] at hpread
    exact ⟨hname, (Except.ok.inj hpread).symm⟩
  · rintro ⟨hname, hpattern⟩
    rw [← String.toList_inj, toList_digestPart, toList_digestPart, hname, hpattern]

end PatternRule

namespace RuleFile

variable {characters : CharacterNames}

theorem isRead_of_readRule {path : String} {number : Nat} {v : Value} {p : PatternRule}
    (h : readRule characters path number v = .ok (some p)) : p.IsRead characters := by
  unfold readRule at h
  split at h
  · split at h
    · split at h
      · simp at h
      · next source _ _ =>
          obtain ⟨pattern, hpattern, h⟩ := bind_eq_ok.mp h
          obtain ⟨severity, _, h⟩ := bind_eq_ok.mp h
          obtain rfl := Option.some.inj (Except.ok.inj h)
          exact Pattern.compile_source (mapError_eq_ok.mp hpattern)
    · simp at h
  · simp at h

theorem isRead_of_readRules {path : String} {v : Value} {ps : List PatternRule}
    (h : readRules characters path v = .ok ps) {p : PatternRule} (hp : p ∈ ps) :
    p.IsRead characters := by
  unfold readRules at h
  split at h
  · obtain ⟨found, hfound, h⟩ := bind_eq_ok.mp h
    obtain rfl := Except.ok.inj h
    obtain ⟨result, hresult, rfl⟩ := List.mem_filterMap.mp hp
    obtain ⟨⟨item, i⟩, _, hread⟩ := mem_of_mapM_ok hfound hresult
    exact isRead_of_readRule hread
  · simp at h

theorem isRead_of_ofValue {v : Value} {path : String} {f : RuleFile}
    (h : ofValue characters v path = .ok f) {p : PatternRule} (hp : p ∈ f.rules) :
    p.IsRead characters := by
  unfold ofValue at h
  split at h
  · obtain ⟨rules, hrules, h⟩ := bind_eq_ok.mp h
    obtain rfl := Except.ok.inj h
    exact isRead_of_readRules hrules hp
  · simp only at h
    split at h
    · obtain ⟨rules, hrules, h⟩ := bind_eq_ok.mp h
      obtain ⟨excludes, _, h⟩ := bind_eq_ok.mp h
      obtain ⟨terms, _, h⟩ := bind_eq_ok.mp h
      obtain ⟨settings, _, h⟩ := bind_eq_ok.mp h
      obtain rfl := Except.ok.inj h
      exact isRead_of_readRules hrules hp
    · obtain ⟨rules, hrules, h⟩ := bind_eq_ok.mp h
      obtain rfl := Except.ok.inj hrules
      obtain ⟨excludes, _, h⟩ := bind_eq_ok.mp h
      obtain ⟨terms, _, h⟩ := bind_eq_ok.mp h
      obtain ⟨settings, _, h⟩ := bind_eq_ok.mp h
      obtain rfl := Except.ok.inj h
      exact absurd hp List.not_mem_nil
  · simp at h

end RuleFile

namespace PatternRule

theorem eq_of_digestPart {p q : PatternRule} {characters : CharacterNames}
    (hp : p.pattern.IsShort) (hq : q.pattern.IsShort) (hpread : p.IsRead characters)
    (hqread : q.IsRead characters) (hsame : p.name = q.name → p.pattern = q.pattern → p.SaysSame q)
    (h : p.rule.digestPart = q.rule.digestPart) : p = q := by
  obtain ⟨hname, hpattern⟩ := (digestPart_eq_iff hp hq hpread hqread).mp h
  obtain ⟨hmessage, hsuggestion, hseverity⟩ := hsame hname hpattern
  obtain ⟨name, pattern, message, suggestion, severity⟩ := p
  obtain ⟨name', pattern', message', suggestion', severity'⟩ := q
  simp only at hname hpattern hmessage hsuggestion hseverity
  rw [hname, hpattern, hmessage, hsuggestion, hseverity]

end PatternRule

theorem Check.eq_of_digestPart {c c' : Check} (h : c.rule.digestPart = c'.rule.digestPart) :
    c = c' := by
  have hnodup : (Check.all.map fun c => c.rule.digestPart).Nodup := by decide +kernel
  exact List.inj_on_of_nodup_map hnodup (mem_all c) (mem_all c') h

/-- The part of a check ends with its name, that of a user's rule with a pattern. -/
theorem digestPart_check_ne (c : Check) (p : PatternRule) :
    c.rule.digestPart ≠ p.rule.digestPart := by
  have hcheck : c.rule.digestPart.toList.getLast? = some '>' := by
    show (_ ++ ">" ++ "").toList.getLast? = some '>'
    rw [String.append_empty, String.toList_append, List.getLast?_append]
    rfl
  have hpattern : p.rule.digestPart.toList.getLast? = some ')' := by
    show (p.rule.shown ++ (_ ++ ")")).toList.getLast? = some ')'
    rw [String.toList_append, String.toList_append, ← List.append_assoc, List.getLast?_append]
    rfl
  intro h
  rw [h, hpattern] at hcheck
  exact absurd hcheck (by decide)

/-! ## Engines -/

/-- An engine with the built-in checks and the rules of accepted files. -/
structure Engine.ReadFrom (e : Engine) (characters : CharacterNames) (base : RulesConfig)
    (files : List RuleFile) : Prop where
  accepted : ∀ f ∈ files, ∃ v path, RuleFile.ofValue characters v path = .ok f
  registered : (Engine.builtIn base).registerAll (files.flatMap (·.rules)) = .ok e

/-- Files whose patterns are shown in full.  Rules of both with one name and one pattern say the
same. -/
structure RuleFile.Comparable (files files' : List RuleFile) : Prop where
  short : ∀ p ∈ files.flatMap (·.rules), p.pattern.IsShort
  short' : ∀ p ∈ files'.flatMap (·.rules), p.pattern.IsShort
  same : ∀ p ∈ files.flatMap (·.rules), ∀ q ∈ files'.flatMap (·.rules), p.name = q.name →
    p.pattern = q.pattern → p.SaysSame q

theorem eq_of_map_eq {α β : Type} {f : α → β} {xs ys : List α} (h : xs.map f = ys.map f)
    (hinj : ∀ x ∈ xs, ∀ y ∈ ys, f x = f y → x = y) : xs = ys := by
  induction xs generalizing ys with
  | nil => exact (List.map_eq_nil_iff.mp h.symm).symm
  | cons x xs ih =>
      cases ys with
      | nil => simp at h
      | cons y ys =>
          rw [List.map_cons, List.map_cons, List.cons.injEq] at h
          rw [hinj x List.mem_cons_self y List.mem_cons_self h.1, ih h.2 fun x hx y hy =>
            hinj x (List.mem_cons_of_mem _ hx) y (List.mem_cons_of_mem _ hy)]

namespace Engine

variable {e e' : Engine} {characters : CharacterNames} {base : RulesConfig}
  {files files' : List RuleFile}

theorem ReadFrom.mem_rules (h : e.ReadFrom characters base files) {x : String × Rule}
    (hx : x ∈ e.rules) :
    (∃ c : Check, x = (c.name, c.rule)) ∨
      ∃ p ∈ files.flatMap (·.rules), p.IsRead characters ∧ x = (p.name, p.rule) := by
  rcases (of_registerAll h.registered).2 x hx with hx | ⟨p, hp, hx⟩
  · obtain ⟨c, _, rfl⟩ := List.mem_map.mp hx
    exact Or.inl ⟨c, rfl⟩
  · obtain ⟨f, hf, hpf⟩ := List.mem_flatMap.mp hp
    obtain ⟨v, path, hv⟩ := h.accepted f hf
    exact Or.inr ⟨p, hp, RuleFile.isRead_of_ofValue hv hpf, hx⟩

theorem ReadFrom.eq_of_digestParts (h : e.ReadFrom characters base files)
    (h' : e'.ReadFrom characters base files')
    (hfiles : RuleFile.Comparable files files')
    (hparts : (e.rules.map fun (_, r) => r.digestPart) = e'.rules.map fun (_, r) => r.digestPart) :
    e = e' := by
  have hrules : e.rules = e'.rules := by
    refine eq_of_map_eq hparts fun x hx y hy hxy => ?_
    rcases h.mem_rules hx with ⟨c, rfl⟩ | ⟨p, hp, hpread, rfl⟩
    · rcases h'.mem_rules hy with ⟨c', rfl⟩ | ⟨q, _, _, rfl⟩
      · rw [Check.eq_of_digestPart hxy]
      · exact absurd hxy (digestPart_check_ne c q)
    · rcases h'.mem_rules hy with ⟨c', rfl⟩ | ⟨q, hq, hqread, rfl⟩
      · exact absurd hxy.symm (digestPart_check_ne c' p)
      · rw [PatternRule.eq_of_digestPart (hfiles.short p hp) (hfiles.short' q hq) hpread hqread
          (hfiles.same p hp q hq) hxy]
  have hconfig : e.config = e'.config := by
    rw [(of_registerAll h.registered).1, (of_registerAll h'.registered).1]
  obtain ⟨rules, config⟩ := e
  obtain ⟨rules', config'⟩ := e'
  exact congrArg₂ Engine.mk hrules hconfig

end Engine

/-- Engines with one digest find the same in every file. -/
theorem checkFile_of_digest {e e' : Engine} {characters : CharacterNames} {base : RulesConfig}
    {files files' : List RuleFile} (h : e.ReadFrom characters base files)
    (h' : e'.ReadFrom characters base files')
    (hfiles : RuleFile.Comparable files files') (settings : Settings)
    (names : Option (List String)) (analyser : Option Analyser)
    (hcollision : Proofreader.digest ⟨settings, e, names⟩ analyser =
        Proofreader.digest ⟨settings, e', names⟩ analyser →
      digestText (Proofreader.digestParts ⟨settings, e, names⟩ analyser) =
        digestText (Proofreader.digestParts ⟨settings, e', names⟩ analyser))
    (hdigest : Proofreader.digest ⟨settings, e, names⟩ analyser =
      Proofreader.digest ⟨settings, e', names⟩ analyser) (m : Morphology) (enabled : Bool)
    (t : FileTree) (path : LooseText) :
    Proofreader.checkFile ⟨settings, e, names⟩ m enabled t path =
      Proofreader.checkFile ⟨settings, e', names⟩ m enabled t path := by
  have hcanonical := Value.map_canonical_of_digestText (hcollision hdigest)
  simp only [Proofreader.digestParts, List.map_cons, List.map_nil, List.cons.injEq, and_true,
    true_and] at hcanonical
  have hparts := Value.eq_of_canonical_strings hcanonical
  rw [h.eq_of_digestParts h' hfiles hparts]

/-- A rule that says what it would say anyway. -/
theorem checkFile_of_digest_severity :
    let entries : List (Scalar × Value) :=
      [(.str "id", .str "x"), (.str "pattern", .str "あ"), (.str "message", .str "m")]
    let p : PatternRule := ⟨"x", ⟨"あ", .char 0x3042, {}⟩, "m", .null, .warning⟩
    let f : RuleFile := { path := "a.json", rules := [p] }
    let e : Engine :=
      { Engine.builtIn {} with rules := (Engine.builtIn {}).rules ++ [("x", p.rule)] }
    RuleFile.ofValue (fun _ => none) (.list [.map entries]) "a.json" = .ok f ∧
      RuleFile.ofValue (fun _ => none)
          (.list [.map (entries ++ [(.str "severity", .str "warning")])]) "a.json" = .ok f ∧
        e.ReadFrom (fun _ => none) {} [f] ∧ RuleFile.Comparable [f] [f] ∧
          ∀ m enabled t path, Proofreader.checkFile ⟨{}, e, none⟩ m enabled t path =
            Proofreader.checkFile ⟨{}, e, none⟩ m enabled t path := by
  intro entries p f e
  have hread : RuleFile.ofValue (fun _ => none) (.list [.map entries]) "a.json" = .ok f := rfl
  have hfrom : e.ReadFrom (fun _ => none) {} [f] :=
    ⟨fun g hg => ⟨_, _, List.mem_singleton.mp hg ▸ hread⟩, rfl⟩
  have hrules : ∀ q ∈ [f].flatMap (·.rules), q = p := by simp [f]
  have hshort : p.pattern.IsShort := by
    show (quoteString "あ").length ≤ 200
    decide +kernel
  have hfiles : RuleFile.Comparable [f] [f] := by
    refine ⟨fun q hq => hrules q hq ▸ hshort, fun q hq => hrules q hq ▸ hshort, ?_⟩
    intro q hq q' hq' _ _
    rw [hrules q hq, hrules q' hq']
    exact ⟨rfl, rfl, rfl⟩
  exact ⟨hread, rfl, hfrom, hfiles,
    checkFile_of_digest hfrom hfrom hfiles {} none none (fun _ => rfl) rfl⟩

/-- A message that changes leaves the digest as it was. -/
theorem checkFile_of_digest_message :
    let data (message : String) : Value :=
      .list [.map [(.str "id", .str "x"), (.str "pattern", .str "あ"),
        (.str "message", .str message)]]
    let p (message : String) : PatternRule :=
      ⟨"x", ⟨"あ", .char 0x3042, {}⟩, message, .null, .warning⟩
    let f (message : String) : RuleFile := { path := "a.json", rules := [p message] }
    let e (message : String) : Engine :=
      { Engine.builtIn {} with rules := (Engine.builtIn {}).rules ++ [("x", (p message).rule)] }
    let r (message : String) : Proofreader := ⟨{}, e message, some ["x"]⟩
    let t : FileTree := { root := .folder [("a.md", .file ⟨"あ".toUTF8, 1⟩)] }
    (∀ message ∈ ["m1", "m2"],
        RuleFile.ofValue (fun _ => none) (data message) "a.json" = .ok (f message) ∧
          (e message).ReadFrom (fun _ => none) {} [f message]) ∧
      (r "m1").digest none = (r "m2").digest none ∧
        (r "m1").checkFile {} false t "a.md" ≠ (r "m2").checkFile {} false t "a.md" := by
  intro data p f e r t
  have hfrom {message : String}
      (hread : RuleFile.ofValue (fun _ => none) (data message) "a.json" = .ok (f message)) :
      RuleFile.ofValue (fun _ => none) (data message) "a.json" = .ok (f message) ∧
        (e message).ReadFrom (fun _ => none) {} [f message] :=
    ⟨hread, fun g hg => ⟨_, _, List.mem_singleton.mp hg ▸ hread⟩, rfl⟩
  let said (message : String) : Option (List String) :=
    ((r message).checkFile {} false t "a.md").toOption.map (·.map (·.diagnostic.message))
  have hmessages : said "m1" ≠ said "m2" := by decide +kernel
  refine ⟨fun message hmessage => ?_, rfl, fun h => hmessages ?_⟩
  · simp only [List.mem_cons, List.not_mem_nil, or_false] at hmessage
    rcases hmessage with rfl | rfl
    · exact hfrom rfl
    · exact hfrom rfl
  · exact congrArg (fun found => found.toOption.map (·.map (·.diagnostic.message))) h

end Kouetsu
