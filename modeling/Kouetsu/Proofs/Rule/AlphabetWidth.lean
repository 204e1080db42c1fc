import Kouetsu.Proofs.Rule.Safety
import Kouetsu.Proofs.Text.Rewrite
import Kouetsu.Rule.Basic
/-!
# Following the advice on letters of two widths

A text with letters of both widths is told to write the rarer ones in the other width, by the words
that stand between brackets in the suggestions.  These words are half-width.  So full-width letters
that are no more than the half-width ones are gone when the advice is followed, and nothing is left
to report; half-width letters that are fewer stay as they are, and are reported again.
-/

namespace Kouetsu

namespace Text

/-- What stands between the first corner bracket that opens and the next one that closes. -/
def bracketed (t : Text) : Text := (cut '」' (cut '「' t).2).1

theorem bracketed_append {lead word : Text} (rest : Text) (hlead : '「' ∉ lead)
    (hword : '」' ∉ word) : bracketed (lead ++ '「' :: (word ++ '」' :: rest)) = word := by
  rw [bracketed, cut_append _ hlead, cut_append _ hword]

end Text

/-! ## Letters of two widths -/

/-- The half-width form of a full-width letter, and any other character itself. -/
def narrowLetter (c : Char) : Char := (halfwidthLetter? c).getD c

theorem halfwidthLetters?_eq (t : Text) : halfwidthLetters? t = some (t.map narrowLetter) := by
  induction t with
  | nil => rfl
  | cons c rest ih =>
      obtain ⟨narrow, hnarrow⟩ := Option.isSome_iff_exists.mp (isSome_halfwidthLetter? c)
      rw [halfwidthLetters?] at ih ⊢
      rw [List.mapM_cons, ih, List.map_cons, narrowLetter, hnarrow]
      rfl

theorem not_isFullwidthLetter_of_isHalfwidthLetter {c : Char} (h : isHalfwidthLetter c = true) :
    isFullwidthLetter c = false := by
  by_contra hfull
  obtain ⟨n, hn, _⟩ := widthShift_add_of_isFullwidthLetter (Bool.eq_true_of_not_eq_false hfull)
  have hle {a b : Char} : a ≤ b ↔ a.toNat ≤ b.toNat := Iff.rfl
  simp only [isHalfwidthLetter, Bool.or_eq_true, Bool.and_eq_true, decide_eq_true_eq, hle] at h
  have : 'Z'.toNat = 90 := rfl
  have : 'z'.toNat = 122 := rfl
  have : widthShift = 65248 := rfl
  omega

theorem narrowLetter_of_not_isFullwidthLetter {c : Char} (h : isFullwidthLetter c = false) :
    narrowLetter c = c := by
  rw [narrowLetter, halfwidthLetter?, if_neg (by simp [h])]
  rfl

theorem narrowLetter_of_isHalfwidthLetter {c : Char} (h : isHalfwidthLetter c = true) :
    narrowLetter c = c :=
  narrowLetter_of_not_isFullwidthLetter (not_isFullwidthLetter_of_isHalfwidthLetter h)

theorem isHalfwidthLetter_narrowLetter {c : Char} (h : isFullwidthLetter c = true) :
    isHalfwidthLetter (narrowLetter c) = true := by
  obtain ⟨narrow, hnarrow, hhalf, _⟩ := halfwidthLetter?_of_isFullwidthLetter h
  rw [narrowLetter, hnarrow]
  exact hhalf

theorem isFullwidthLetter_narrowLetter (c : Char) : isFullwidthLetter (narrowLetter c) = false := by
  cases h : isFullwidthLetter c with
  | true => exact not_isFullwidthLetter_of_isHalfwidthLetter (isHalfwidthLetter_narrowLetter h)
  | false => rwa [narrowLetter_of_not_isFullwidthLetter h]

/-- Writing the letters of either width in half width leaves no bracket in a word of them. -/
theorem not_mem_map_narrowLetter {word : Text} (h : ∀ c ∈ word,
    isFullwidthLetter c = true ∨ isHalfwidthLetter c = true) : '」' ∉ word.map narrowLetter := by
  intro hmem
  obtain ⟨c, hc, hmark⟩ := List.mem_map.mp hmem
  have hhalf : isHalfwidthLetter (narrowLetter c) = true := by
    rcases h c hc with hfull | hhalf
    · exact isHalfwidthLetter_narrowLetter hfull
    · rwa [narrowLetter_of_isHalfwidthLetter hhalf]
  rw [hmark] at hhalf
  exact absurd hhalf (by decide)

namespace Check

/-! ## The findings in closed form -/

def isMostlyFull (t : Text) : Bool := t.countP isHalfwidthLetter < t.countP isFullwidthLetter

def isRarer (t : Text) : Char → Bool :=
  if isMostlyFull t then isHalfwidthLetter else isFullwidthLetter

/-- What is suggested for letters of the rarer width: half-width ones, whichever width that is. -/
def widthSuggestion (toFull : Bool) (word : Text) : String :=
  if toFull then "半角" ++ ("「" ++ String.ofList (word.map narrowLetter) ++ "」に変更する")
  else "「" ++ String.ofList (word.map narrowLetter) ++ "」に変更する"

def widthFinding (t : Text) (s : Span) : Finding :=
  .ofSpan s
    ("全角と半角アルファベットが混在しています。「" ++ String.ofList (t.slice s) ++ "」を" ++
      (if isMostlyFull t then "全角" else "半角") ++ "に統一してください。")
    [widthSuggestion (isMostlyFull t) (t.slice s)]

def IsMixed (t : Text) : Prop := t.countP isFullwidthLetter ≠ 0 ∧ t.countP isHalfwidthLetter ≠ 0

instance (t : Text) : Decidable (IsMixed t) := inferInstanceAs (Decidable (_ ∧ _))

theorem totalLength_cons (s : Span) (spans : List Span) :
    totalLength (s :: spans) = s.length + totalLength spans := by
  have hfrom (m : Nat) : spans.foldl (fun n s => n + s.length) m = m + totalLength spans := by
    induction spans generalizing m with
    | nil => rfl
    | cons s spans ih =>
        rw [totalLength, List.foldl_cons, List.foldl_cons, ih, ih (0 + _)]
        omega
  rw [totalLength, List.foldl_cons, hfrom, Nat.zero_add]

theorem totalLength_shift (n : Nat) (spans : List Span) :
    totalLength (spans.map (·.shift n)) = totalLength spans := by
  rw [totalLength, List.foldl_map]
  simp only [Span.length, Span.shift, Nat.add_sub_add_right]
  rfl

theorem totalLength_scan_run (p : Char → Bool) (t : Text) :
    totalLength (t.scan (Text.run p)) = t.countP p := by
  induction t using Text.run_induction p with
  | nil => rfl
  | skip c rest hc ih =>
      rw [Text.scan_run_skip hc, totalLength_shift, ih, List.countP_cons_of_neg (by simp [hc])]
  | word w rest hw hp hrest ih =>
      rw [Text.scan_run_word hw hp hrest, totalLength_cons, totalLength_shift, ih,
        List.countP_append, List.countP_eq_length.mpr hp]
      rfl

theorem isEmpty_scan_run_iff (t : Text) :
    ((t.scan (Text.run isFullwidthLetter)).isEmpty ||
      (t.scan (Text.run isHalfwidthLetter)).isEmpty) = true ↔ ¬IsMixed t := by
  rw [Bool.or_eq_true, List.isEmpty_iff, List.isEmpty_iff, Text.scan_run_eq_nil_iff,
    Text.scan_run_eq_nil_iff, IsMixed]
  omega

def widthFindings (t : Text) : List Finding :=
  if IsMixed t then (t.scan (Text.run (isRarer t))).map (widthFinding t) else []

theorem alphabetWidths_eq (c : Context) : alphabetWidths c = some (widthFindings c.text) := by
  simp only [alphabetWidths, widthFindings, totalLength_scan_run, halfwidthLetters?_eq,
    Option.bind_eq_bind, Option.bind_some]
  by_cases hmixed : IsMixed c.text
  · rw [if_neg (mt (isEmpty_scan_run_iff _).mp (not_not_intro hmixed)), if_pos hmixed]
    refine List.mapM_pure.trans ?_
    unfold widthFinding widthSuggestion isRarer isMostlyFull
    by_cases hfull : c.text.countP isHalfwidthLetter < c.text.countP isFullwidthLetter
    · simp only [gt_iff_lt, hfull, if_true, decide_true]
      rfl
    · simp only [gt_iff_lt, hfull, if_false, decide_false]
      rfl
  · rw [if_pos ((isEmpty_scan_run_iff _).mpr hmixed), if_neg hmixed]

end Check

/-! ## Following suggestions -/

/-- The word that the first suggestion of a finding names, in place of what the finding marks. -/
def Finding.edit? (f : Finding) : Option (Span × Text) :=
  f.suggestions.head?.map fun s => (⟨f.start.toNat, f.stop.toNat⟩, Text.bracketed s.toList)

/-- A text after the suggestions of findings, which mark spans in the order of the text. -/
def followed (t : Text) (found : List Finding) : Text :=
  t.rewriteFrom 0 (found.filterMap Finding.edit?)

namespace Check

theorem bracketed_widthSuggestion {toFull : Bool} {word : Text}
    (hword : '」' ∉ word.map narrowLetter) :
    Text.bracketed (widthSuggestion toFull word).toList = word.map narrowLetter := by
  cases toFull with
  | true =>
      simp only [widthSuggestion, if_true, String.toList_append, String.toList_ofList]
      exact Text.bracketed_append _ (by decide : '「' ∉ "半角".toList) hword
  | false =>
      simp only [widthSuggestion, Bool.false_eq_true, if_false, String.toList_append,
        String.toList_ofList]
      exact Text.bracketed_append _ List.not_mem_nil hword

/-- The letters of the rarer width are letters of either width, which brackets are not. -/
theorem not_mem_narrow_slice {t : Text} {s : Span} (hs : s ∈ t.scan (Text.run (isRarer t))) :
    '」' ∉ (t.slice s).map narrowLetter := by
  refine not_mem_map_narrowLetter fun c hc => ?_
  have hrarer := Text.forall_mem_slice_of_mem_scan hs c hc
  rw [isRarer] at hrarer
  split at hrarer
  · exact Or.inr hrarer
  · exact Or.inl hrarer

theorem edit?_widthFinding {t : Text} {s : Span} (hs : s ∈ t.scan (Text.run (isRarer t))) :
    (widthFinding t s).edit? = some (s, (t.slice s).map narrowLetter) := by
  rw [Finding.edit?, widthFinding]
  simp only [Finding.ofSpan, List.head?_cons, Option.map_some, Int.toNat_natCast,
    bracketed_widthSuggestion (not_mem_narrow_slice hs)]

theorem filterMap_edit?_widthFinding (t : Text) :
    ((t.scan (Text.run (isRarer t))).map (widthFinding t)).filterMap Finding.edit? =
      Text.editsAt narrowLetter t (t.scan (Text.run (isRarer t))) := by
  rw [List.filterMap_map, Text.editsAt, ← List.filterMap_eq_map]
  exact List.filterMap_congr fun s hs => edit?_widthFinding hs

theorem map_isRarer (t : Text) : (t.map fun c => if isRarer t c then narrowLetter c else c) =
    if isMostlyFull t then t else t.map narrowLetter := by
  cases hfull : isMostlyFull t with
  | true =>
      have hkept (c : Char) : (if isHalfwidthLetter c then narrowLetter c else c) = c := by
        split
        · next hhalf => exact narrowLetter_of_isHalfwidthLetter hhalf
        · rfl
      rw [isRarer, hfull, if_pos rfl, if_pos rfl]
      exact List.map_id'' hkept t
  | false =>
      rw [isRarer, hfull, if_neg (by simp), if_neg (by simp)]
      refine List.map_congr_left fun c _ => ?_
      cases h : isFullwidthLetter c with
      | true => rfl
      | false => exact (narrowLetter_of_not_isFullwidthLetter h).symm

theorem map_narrowLetter_eq_self {t : Text} (h : t.countP isFullwidthLetter = 0) :
    t.map narrowLetter = t := by
  rw [List.countP_eq_zero] at h
  have hkept : ∀ c ∈ t, narrowLetter c = id c := fun c hc =>
    narrowLetter_of_not_isFullwidthLetter (Bool.eq_false_of_not_eq_true (h c hc))
  rw [List.map_congr_left hkept, List.map_id]

theorem followed_widthFindings (t : Text) : followed t (widthFindings t) =
    if isMostlyFull t then t else t.map narrowLetter := by
  rw [widthFindings]
  split
  · rw [followed, filterMap_edit?_widthFinding, Text.rewriteFrom_scan_run, map_isRarer]
  · next hmixed =>
      show t = _
      split
      · rfl
      · next hfull =>
          refine (map_narrowLetter_eq_self ?_).symm
          rw [IsMixed] at hmixed
          rw [isMostlyFull, decide_eq_true_eq] at hfull
          omega

/-! ## What is left to report -/

theorem widthFindings_map_narrowLetter (t : Text) : widthFindings (t.map narrowLetter) = [] := by
  have hnone : (t.map narrowLetter).countP isFullwidthLetter = 0 := by
    rw [List.countP_eq_zero, List.forall_mem_map]
    exact fun c _ => by simp [isFullwidthLetter_narrowLetter]
  rw [widthFindings, if_neg fun hmixed => hmixed.1 hnone]

theorem widthFindings_ne_nil_iff {t : Text} : widthFindings t ≠ [] ↔ IsMixed t := by
  rw [widthFindings]
  split
  · next hmixed =>
      refine iff_of_true (fun hnil => ?_) hmixed
      have hcount := Text.scan_run_eq_nil_iff.mp (List.map_eq_nil_iff.mp hnil)
      rw [isRarer] at hcount
      split at hcount
      · exact hmixed.2 hcount
      · exact hmixed.1 hcount
  · next hmixed => exact iff_of_false (not_not_intro rfl) hmixed

structure WidthAdvice (c : Context) (found : List Finding) : Prop where
  answer : alphabetWidth.findings? c = some found
  reported : found ≠ [] ↔ IsMixed c.text
  rewritten : followed c.text found =
    if isMostlyFull c.text then c.text else c.text.map narrowLetter
  settled : found ≠ [] → ∀ c' : Context, c'.text = followed c.text found →
    (alphabetWidth.findings? c' = some [] ↔
      c.text.countP isFullwidthLetter ≤ c.text.countP isHalfwidthLetter)

/-- Following the advice leaves nothing to report exactly where the full-width letters are no more
than the half-width ones. -/
theorem alphabetWidth_followed (c : Context) : ∃ found, WidthAdvice c found := by
  have hfollowed := followed_widthFindings c.text
  refine ⟨widthFindings c.text, alphabetWidths_eq c, widthFindings_ne_nil_iff, hfollowed,
    fun hreported c' hc' => ?_⟩
  show alphabetWidths c' = some [] ↔ _
  rw [alphabetWidths_eq, hc', hfollowed, Option.some.injEq, isMostlyFull]
  by_cases hfull : c.text.countP isHalfwidthLetter < c.text.countP isFullwidthLetter
  · rw [decide_eq_true hfull, if_pos rfl]
    exact ⟨fun h => absurd h hreported, fun h => absurd h (Nat.not_le.mpr hfull)⟩
  · rw [decide_eq_false hfull, if_neg (by simp)]
    exact ⟨fun _ => Nat.le_of_not_lt hfull, fun _ => widthFindings_map_narrowLetter c.text⟩

/-- A half-width letter among more full-width ones is to be replaced by itself. -/
private def mostlyFull : Context := .of "ＡＢa".toList [] [] {}

theorem alphabetWidth_followed_unchanged : ∃ found,
    alphabetWidth.findings? mostlyFull = some found ∧ found ≠ [] ∧
      followed mostlyFull.text found = mostlyFull.text ∧
        alphabetWidth.findings? mostlyFull ≠ some [] := by
  have hanswer : alphabetWidth.findings? mostlyFull = some (widthFindings mostlyFull.text) :=
    alphabetWidths_eq mostlyFull
  have hmixed : widthFindings mostlyFull.text ≠ [] := widthFindings_ne_nil_iff.mpr (by decide)
  refine ⟨_, hanswer, hmixed, ?_, by simpa [hanswer] using hmixed⟩
  rw [followed_widthFindings, if_pos (by decide)]

end Check

end Kouetsu
