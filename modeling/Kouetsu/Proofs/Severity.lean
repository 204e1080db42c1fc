import Kouetsu.Proofs.Text.Digit
import Kouetsu.Severity
/-!
# What a value says of a severity

A value names a severity by its number, by a decimal numeral or by its name, and any other value
stands for a warning.  Only texts of digits are refused: those with a digit that has no decimal
value, and those that are too long to be read.
-/

namespace Kouetsu

namespace Severity

def names : List (String × Severity) :=
  [("error", .error), ("warning", .warning), ("warn", .warning), ("information", .information),
    ("info", .information), ("hint", .hint)]

def key (text : String) : Text := Text.lower (Text.trim text.toList)

theorem key_def (text : String) : key text = Text.lower (Text.trim text.toList) := rfl

def IsNumeral (t : Text) (s : Severity) : Prop :=
  ∃ zeros digit, t = zeros ++ [digit] ∧ (∀ c ∈ zeros, digitValue? c = some 0) ∧
    digitValue? digit = some s.toNat

inductive Names : Value → Severity → Prop
  | number (s : Severity) : Names (.int s.toNat) s
  | numeral {text : String} {s : Severity} (h : IsNumeral (key text) s) : Names (.str text) s
  | name {text : String} {s : Severity} (h : (String.ofList (key text), s) ∈ names) :
      Names (.str text) s

inductive Refused : Value → NumeralError → Prop
  | malformed {text : String} {c : Char} (hdigits : ∀ c ∈ key text, isDigit c = true)
      (hc : c ∈ key text) (hvalue : digitValue? c = none) :
      Refused (.str text) ⟨String.ofList (key text), .malformed⟩
  | tooLong {text : String} (hdecimal : ∀ c ∈ key text, isDecimal c = true)
      (hlength : maxIntegerDigits < (key text).length) :
      Refused (.str text) ⟨String.ofList (key text), .tooLong (key text).length⟩

/-- The severity that has a property, or a warning if none has it. -/
def OrWarning (named : Severity → Prop) (s : Severity) : Prop :=
  named s ∨ s = .warning ∧ ∀ s', ¬named s'

theorem eq_iff_orWarning {named : Severity → Prop} {s s' : Severity}
    (hnamed : ∀ s', named s' → s = s') (hnone : (∀ s', ¬named s') → s = .warning) :
    s = s' ↔ OrWarning named s' := by
  constructor
  · rintro rfl
    by_cases h : ∃ s', named s'
    · obtain ⟨s', h⟩ := h
      obtain rfl := hnamed s' h
      exact Or.inl h
    · rw [not_exists] at h
      exact Or.inr ⟨hnone h, h⟩
  · rintro (h | ⟨rfl, h⟩)
    · exact hnamed s' h
    · exact hnone h

theorem OrWarning.congr {named named' : Severity → Prop} (h : ∀ s, named s ↔ named' s)
    {s : Severity} : OrWarning named s ↔ OrWarning named' s := by
  simp only [OrWarning, h]

/-! ## Numbers and names -/

theorem ofInt_toNat (s : Severity) : ofInt s.toNat = s := by
  cases s <;> rfl

theorem ofInt_eq_iff {n : Int} {s : Severity} :
    ofInt n = s ↔ OrWarning (fun s => n = s.toNat) s := by
  refine eq_iff_orWarning (fun s' hs' => hs' ▸ ofInt_toNat s') fun hnone => ?_
  have herror : n ≠ 0 := hnone .error
  have hinformation : n ≠ 2 := hnone .information
  have hhint : n ≠ 3 := hnone .hint
  rw [ofInt, if_neg herror, if_neg hinformation, if_neg hhint]

theorem ofName_of_mem_names : ∀ x ∈ names, ofName x.1 = x.2 := by
  decide

theorem ofName_eq_iff {name : String} {s : Severity} :
    ofName name = s ↔ OrWarning (fun s => (name, s) ∈ names) s := by
  refine eq_iff_orWarning (fun s' hs' => ofName_of_mem_names _ hs') fun hnone => ?_
  have hother : ∀ x ∈ names, name ≠ x.1 := fun x hx hname => hnone x.2 (hname ▸ hx)
  simp only [names, List.forall_mem_cons, ne_eq] at hother
  simp [ofName, hother]

/-! ## Texts of digits -/

def IsDigits (t : Text) : Prop := t ≠ [] ∧ ∀ c ∈ t, isDigit c = true

theorem isDigits_iff {t : Text} : (!t.isEmpty && t.all isDigit) = true ↔ IsDigits t := by
  simp [IsDigits]

instance (t : Text) : Decidable (IsDigits t) := decidable_of_iff _ isDigits_iff

theorem isDigit_of_isSome_digitValue? {c : Char} (h : (digitValue? c).isSome = true) :
    isDigit c = true := by
  rw [isDigit, isDecimal, h, Bool.true_or]

theorem IsNumeral.isDigits {t : Text} {s : Severity} (h : IsNumeral t s) : IsDigits t := by
  obtain ⟨zeros, digit, rfl, hzeros, hdigit⟩ := h
  refine ⟨by simp, fun c hc => isDigit_of_isSome_digitValue? ?_⟩
  rcases List.mem_append.mp hc with hc | hc
  · rw [hzeros c hc, Option.isSome_some]
  · rw [List.mem_singleton.mp hc, hdigit, Option.isSome_some]

theorem not_isDigits_of_mem_names : ∀ x ∈ names, ¬IsDigits x.1.toList := by
  decide

/-- Among digits that have values, a numeral is told by the number they stand for. -/
theorem isNumeral_iff {t : Text} {ds : List Nat} (hne : t ≠ [])
    (h : t.mapM digitValue? = some ds) {s : Severity} :
    IsNumeral t s ↔ (ofDigits ds : Int) = s.toNat := by
  obtain ⟨front, last, rfl⟩ := (List.eq_nil_or_concat' t).resolve_left hne
  obtain ⟨ns, n, hns, hn, rfl⟩ := mapM_concat_eq_some.mp h
  have hsmall : s.toNat < 10 := by cases s <;> decide
  rw [Int.natCast_inj, ofDigits_concat_eq_iff hsmall, forall_mem_iff_of_mapM hns]
  constructor
  · rintro ⟨zeros, digit, hsplit, hzeros, hdigit⟩
    obtain ⟨rfl, hlast⟩ := List.append_inj' hsplit rfl
    obtain rfl : last = digit := List.singleton_inj.mp hlast
    exact ⟨fun c hc => ⟨0, hzeros c hc, rfl⟩, Option.some.inj (hn.symm.trans hdigit)⟩
  · rintro ⟨hzeros, rfl⟩
    refine ⟨front, last, rfl, fun c hc => ?_, hn⟩
    obtain ⟨_, hvalue, rfl⟩ := hzeros c hc
    exact hvalue

variable {text : String} {s : Severity}

theorem names_str_iff_of_isDigits (h : IsDigits (key text)) :
    Names (.str text) s ↔ IsNumeral (key text) s := by
  constructor
  · rintro (_ | hnumeral | hname)
    · exact hnumeral
    · have hnot := not_isDigits_of_mem_names _ hname
      rw [String.toList_ofList] at hnot
      exact absurd h hnot
  · exact .numeral

theorem names_str_iff_of_not_isDigits (h : ¬IsDigits (key text)) :
    Names (.str text) s ↔ (String.ofList (key text), s) ∈ names := by
  constructor
  · rintro (_ | hnumeral | hname)
    · exact absurd hnumeral.isDigits h
    · exact hname
  · exact .name

theorem Refused.isDigits {e : NumeralError} (h : Refused (.str text) e) : IsDigits (key text) := by
  rcases h with ⟨hdigits, hc, _⟩ | ⟨hdecimal, hlength⟩
  · exact ⟨List.ne_nil_of_mem hc, hdigits⟩
  · refine ⟨fun hnil => ?_, fun c hc => isDigit_of_isSome_digitValue? (hdecimal c hc)⟩
    simp [hnil] at hlength

theorem ofValue_str (text : String) : ofValue (.str text) =
    if IsDigits (key text) then ofInt <$> readInteger (String.ofList (key text))
    else .ok (ofName (String.ofList (key text))) := by
  have hdigits : (!(String.ofList (key text)).isEmpty &&
      (String.ofList (key text)).toList.all isDigit) = true ↔ IsDigits (key text) := by
    simp [← isDigits_iff]
  rw [ofValue]
  simp only [← key_def, hdigits]

theorem readInteger_of_isDigits {t : Text} (h : IsDigits t) : readInteger (String.ofList t) =
    match t.mapM digitValue? with
    | none => .error ⟨String.ofList t, .malformed⟩
    | some ds =>
        if maxIntegerDigits < ds.length then .error ⟨String.ofList t, .tooLong ds.length⟩
        else .ok (ofDigits ds) := by
  rw [readInteger, String.toList_ofList, parseInteger_of_digits h.1 h.2]
  cases t.mapM digitValue? with
  | none => rfl
  | some ds =>
      by_cases hlong : maxIntegerDigits < ds.length
      · simp only [if_pos hlong]
      · simp only [if_neg hlong]

/-! ## Any value -/

/-- What comes of a value that may name a severity. -/
structure Outcome (v : Value) : Prop where
  refused : ∀ e, ofValue v = .error e ↔ Refused v e
  answered : ∀ s, ofValue v = .ok s ↔ (∀ e, ¬Refused v e) ∧ OrWarning (Names v) s
  stable : ∀ s, ofValue v = .ok s → ofValue (.int s.toNat) = .ok s

theorem outcome_of_ok {v : Value} {s₀ : Severity} (h : ofValue v = .ok s₀)
    (hrefused : ∀ e, ¬Refused v e) (hnamed : ∀ s, s₀ = s ↔ OrWarning (Names v) s) : Outcome v where
  refused e := by
    rw [h]
    exact iff_of_false (by simp) (hrefused e)
  answered s := by
    rw [h, Except.ok.injEq, hnamed]
    exact (and_iff_right hrefused).symm
  stable s _ := congrArg Except.ok (ofInt_toNat s)

theorem outcome_of_error {v : Value} {e₀ : NumeralError} (h : ofValue v = .error e₀)
    (hrefused : ∀ e, e₀ = e ↔ Refused v e) : Outcome v where
  refused e := by rw [h, Except.error.injEq, hrefused]
  answered s := by
    rw [h]
    exact iff_of_false (by simp) fun hanswered => hanswered.1 e₀ ((hrefused e₀).mp rfl)
  stable s _ := congrArg Except.ok (ofInt_toNat s)

theorem outcome_of_not_isDigits (h : ¬IsDigits (key text)) : Outcome (.str text) := by
  refine outcome_of_ok (by rw [ofValue_str, if_neg h]) (fun e he => h he.isDigits) fun s => ?_
  rw [ofName_eq_iff]
  exact OrWarning.congr fun s => (names_str_iff_of_not_isDigits h).symm

theorem outcome_of_malformed (h : IsDigits (key text))
    (hvalues : (key text).mapM digitValue? = none) : Outcome (.str text) := by
  have hread := ofValue_str text
  rw [if_pos h, readInteger_of_isDigits h, hvalues] at hread
  obtain ⟨c, hc, hvalue⟩ := mapM_eq_none_iff.mp hvalues
  refine outcome_of_error hread fun e => ⟨?_, ?_⟩
  · rintro rfl
    exact .malformed h.2 hc hvalue
  · rintro (_ | ⟨hdecimal, _⟩)
    · rfl
    · have hsome := hdecimal c hc
      simp [isDecimal, hvalue] at hsome

/-- Digits that have values are refused if they are too many, and read as a number otherwise. -/
theorem outcome_of_decimal {ds : List Nat} (h : IsDigits (key text))
    (hvalues : (key text).mapM digitValue? = some ds) : Outcome (.str text) := by
  have hread := ofValue_str text
  rw [if_pos h, readInteger_of_isDigits h, hvalues] at hread
  have hdecimal : ∀ c ∈ key text, isDecimal c = true :=
    isSome_mapM_iff.mp (hvalues ▸ Option.isSome_some)
  have hnot {c : Char} (hc : c ∈ key text) : digitValue? c ≠ none :=
    Option.ne_none_iff_isSome.mpr (hdecimal c hc)
  simp only [length_of_mapM hvalues] at hread
  by_cases hlong : maxIntegerDigits < (key text).length
  · rw [if_pos hlong] at hread
    refine outcome_of_error hread fun e => ⟨?_, ?_⟩
    · rintro rfl
      exact .tooLong hdecimal hlong
    · rintro (⟨_, hc, hvalue⟩ | _)
      · exact absurd hvalue (hnot hc)
      · rfl
  · rw [if_neg hlong] at hread
    refine outcome_of_ok hread (fun e he => ?_) fun s => ?_
    · rcases he with ⟨_, hc, hvalue⟩ | ⟨_, hlength⟩
      · exact hnot hc hvalue
      · exact hlong hlength
    · rw [ofInt_eq_iff]
      refine OrWarning.congr fun s => ?_
      rw [names_str_iff_of_isDigits h, isNumeral_iff h.1 hvalues]

theorem outcome_of_no_name {v : Value} (h : ofValue v = .ok .warning) (hrefused : ∀ e, ¬Refused v e)
    (hnames : ∀ s, ¬Names v s) : Outcome v :=
  outcome_of_ok h hrefused fun _ =>
    eq_iff_orWarning (fun s hs => absurd hs (hnames s)) fun _ => rfl

/-- A value is refused exactly if it is a text of digits that is no numeral or too long; any other
names a severity or stands for a warning, and the number of the severity names it too. -/
theorem ofValue_outcome (v : Value) : Outcome v := by
  match v with
  | .int n =>
      refine outcome_of_ok rfl (fun e he => by cases he) fun s => ?_
      rw [ofInt_eq_iff]
      refine OrWarning.congr fun s => ⟨?_, ?_⟩
      · rintro rfl
        exact .number s
      · rintro ⟨⟩
        rfl
  | .str text =>
      by_cases h : IsDigits (key text)
      · cases hvalues : (key text).mapM digitValue? with
        | none => exact outcome_of_malformed h hvalues
        | some ds => exact outcome_of_decimal h hvalues
      · exact outcome_of_not_isDigits h
  | .null => exact outcome_of_no_name rfl (fun e he => by cases he) fun s hs => by cases hs
  | .bool b => exact outcome_of_no_name rfl (fun e he => by cases he) fun s hs => by cases hs
  | .float x => exact outcome_of_no_name rfl (fun e he => by cases he) fun s hs => by cases hs
  | .scalar (.moment plain quoted) =>
      exact outcome_of_no_name rfl (fun e he => by cases he) fun s hs => by cases hs
  | .scalar (.pattern p) =>
      exact outcome_of_no_name rfl (fun e he => by cases he) fun s hs => by cases hs
  | .list items => exact outcome_of_no_name rfl (fun e he => by cases he) fun s hs => by cases hs
  | .map entries => exact outcome_of_no_name rfl (fun e he => by cases he) fun s hs => by cases hs

/-- A superscript is a digit in the wide sense that has no decimal value. -/
theorem ofValue_superscript : ofValue (.str "²") = .error ⟨"²", .malformed⟩ := by
  have hkey : key "²" = ['²'] := by decide
  have hdigits : IsDigits ['²'] := by decide
  have hvalues : ['²'].mapM digitValue? = none := by decide
  rw [ofValue_str, hkey, if_pos hdigits, readInteger_of_isDigits hdigits, hvalues]
  rfl

end Severity

end Kouetsu
