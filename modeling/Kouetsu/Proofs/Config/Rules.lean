import Kouetsu.Config.Settings
import Kouetsu.Proofs.Entries
import Kouetsu.Proofs.Traverse
import Kouetsu.Rule.Dictionary
import Kouetsu.RuleFile
/-!
# Settings that are read

A section gives settings part by part, and a rule file adds to them.  The terms in force are those
of the dictionaries and of the user.
-/

namespace Kouetsu

namespace RulesConfig

/-- Settings that options, tables of terms and rule files make of the ones without any. -/
inductive Accepted : RulesConfig → Prop where
  | initial : Accepted {}
  | apply {cfg cfg' : RulesConfig} {options : List (Scalar × Value)} (h : Accepted cfg)
      (hread : cfg.apply options = .ok cfg') : Accepted cfg'
  | withTerms {cfg : RulesConfig} (h : Accepted cfg) (terms : Entries String String) :
      Accepted (cfg.withTerms terms)

end RulesConfig

/-! ## Values that are read -/

theorem pos_of_readLimit {key : String} {v : Value} {n : Nat} (h : readLimit key v = .ok n) :
    0 < n := by
  unfold readLimit at h
  split at h
  · split at h
    · simp at h
    · rw [Except.ok.injEq] at h
      omega
  · simp at h

theorem readTable_eq_ok {key : String} {v : Value} {terms : Entries String String} :
    readTable key v = .ok terms ↔
      ∃ entries, v = .map entries ∧ Settings.textTable entries = terms := by
  cases v with
  | map entries => simp [readTable, Settings.textTable]
  | list items => simp [readTable]
  | scalar s => simp [readTable]

theorem Settings.nodup_keys_textTable (entries : List (Scalar × Value)) :
    (textTable entries).keys.Nodup := Entries.nodup_keys_ofList _

/-! ## Sections and rule files -/

namespace Settings

def flat (entries : List (Scalar × Value)) : List (Scalar × Value) :=
  entries.filter fun x => !isTable x.2

def withNotation (entries : List (Scalar × Value)) (rules : RulesConfig) : RulesConfig :=
  (table? entries "notation").elim rules fun terms => rules.withTerms (textTable terms)

def readFilter (entries : List (Scalar × Value)) : Except ConfigError FilterConfig :=
  (table? entries "filter").elim (.ok {}) (FilterConfig.apply {})

def readOptions (entries : List (Scalar × Value)) : Entries String Value :=
  Entries.ofList ((flat entries).filterMap fun x =>
    if optionNames.contains (snakeCase x.1.text) then some (snakeCase x.1.text, x.2) else none)

theorem ofSection_eq (entries : List (Scalar × Value)) :
    ofSection entries = RulesConfig.apply {} (flat entries) >>= fun rules =>
      (readFilter entries).map fun filter =>
        ⟨withNotation entries rules, filter, readOptions entries⟩ := by
  rw [ofSection]
  refine bind_congr fun rules => ?_
  rw [withNotation, readFilter]
  cases table? entries "notation" <;> cases table? entries "filter" <;> rfl

theorem ofSection_eq_ok {entries : List (Scalar × Value)} {s : Settings} :
    ofSection entries = .ok s ↔ ∃ rules filter, RulesConfig.apply {} (flat entries) = .ok rules ∧
      readFilter entries = .ok filter ∧
        ⟨withNotation entries rules, filter, readOptions entries⟩ = s := by
  simp only [ofSection_eq, bind_eq_ok, map_eq_ok, exists_and_left]

theorem accepted_of_ofSection {entries : List (Scalar × Value)} {s : Settings}
    (h : ofSection entries = .ok s) : s.rules.Accepted := by
  obtain ⟨rules, _, hrules, _, rfl⟩ := ofSection_eq_ok.mp h
  have haccepted : rules.Accepted := .apply .initial hrules
  show (withNotation entries rules).Accepted
  rw [withNotation]
  cases table? entries "notation" with
  | none => exact haccepted
  | some terms => exact haccepted.withTerms _

end Settings

theorem RuleFile.accepted_of_apply {f : RuleFile} {s s' : Settings} (hs : s.rules.Accepted)
    (h : f.apply s = .ok s') : s'.rules.Accepted := by
  obtain ⟨rules, hrules, h⟩ := bind_eq_ok.mp h
  rw [← Except.ok.inj h]
  exact (hs.apply hrules).withTerms f.terms

/-! ## Terms -/

theorem RulesConfig.mem_terms {cfg : RulesConfig} {x : String × String} (h : x ∈ cfg.terms) :
    x ∈ cfg.customTerms ∨ ∃ d : Dictionary, x ∈ d.terms := by
  refine (Entries.mem_merge h).imp_right fun h => ?_
  refine List.foldlRecOn (motive := fun e : Entries String String => ∀ x ∈ e, ∃ d : Dictionary,
    x ∈ d.terms) _ _ ?_ ?_ x h
  · exact fun x hx => absurd hx List.not_mem_nil
  · intro e he d _ x hx
    exact (Entries.mem_merge hx).elim (fun hx => ⟨d, hx⟩) (he x)

end Kouetsu
