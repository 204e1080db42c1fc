import Kouetsu.Proofs.Text.Scan
import Kouetsu.Rule.Agreement
import Mathlib.Data.List.TakeWhile
/-!
# Texts between closing marks

A text is taken apart into closing marks that nothing precedes and stretches, other characters with
the closing marks behind them.  The scan for plain sentences finds the stretches, and it may be cut
wherever a stretch ends.
-/

namespace Kouetsu

theorem isBlank_of_isTerminator {c : Char} (hc : isTerminator c = true) : isBlank c = false := by
  simp only [isTerminator, Bool.or_eq_true, decide_eq_true_eq] at hc
  rcases hc with (((rfl | rfl) | rfl) | rfl) | rfl <;> decide

def Text.StartsUnmarked (t : Text) : Prop := ∀ c, t.head? = some c → isTerminator c = false

def Text.EndsUnmarked (t : Text) : Prop := ∀ c, t.getLast? = some c → isTerminator c = false

def Text.EndsMarked (t : Text) : Prop := ∀ c, t.getLast? = some c → isTerminator c = true

instance (t : Text) : Decidable t.StartsUnmarked :=
  decidable_of_iff (t.head?.all fun c => !isTerminator c) (by
    simp [Text.StartsUnmarked, Option.all_eq_true])

instance (t : Text) : Decidable t.EndsUnmarked :=
  decidable_of_iff (t.getLast?.all fun c => !isTerminator c) (by
    simp [Text.EndsUnmarked, Option.all_eq_true])

/-- A text that opens with other characters, the closing marks after them, and the rest.  Marks are
missing only at the end of the text. -/
structure Stretch (body marks rest : Text) : Prop where
  nonempty : body ≠ []
  unmarked : ∀ c ∈ body, isTerminator c = false
  marked : ∀ c ∈ marks, isTerminator c = true
  next : rest.StartsUnmarked
  ended : marks = [] → rest = []

namespace Text

variable {t u lead body marks rest : Text} {c : Char}

theorem StartsUnmarked.append (h : t.StartsUnmarked) (h' : u.StartsUnmarked) :
    (t ++ u).StartsUnmarked := by
  cases t with
  | nil => exact h'
  | cons d t => exact h

theorem EndsMarked.of_append (h : (t ++ u).EndsMarked) : u.EndsMarked := by
  intro c hc
  exact h c (by rw [List.getLast?_append, hc, Option.some_or])

theorem EndsMarked.eq_nil (h : t.EndsMarked) (h' : t.EndsUnmarked) : t = [] := by
  by_contra hne
  obtain ⟨c, hc⟩ := Option.isSome_iff_exists.mp (List.getLast?_isSome.mpr hne)
  have hmark := h c hc
  rw [h' c hc] at hmark
  contradiction

theorem exists_stretch (hne : t ≠ []) (hstart : t.StartsUnmarked) :
    ∃ body marks rest, t = body ++ (marks ++ rest) ∧ Stretch body marks rest := by
  obtain ⟨c, tail, rfl⟩ := List.exists_cons_of_ne_nil hne
  have hbody := List.takeWhile_append_dropWhile (p := fun d => !isTerminator d) (l := c :: tail)
  have hfirst := List.head?_dropWhile_not (fun d => !isTerminator d) (c :: tail)
  generalize (c :: tail).dropWhile (fun d => !isTerminator d) = after at hbody hfirst
  refine ⟨(c :: tail).takeWhile fun d => !isTerminator d, after.takeWhile isTerminator,
    after.dropWhile isTerminator, ?_, ?_, fun d hd => ?_, fun d hd => ?_, fun d hd => ?_,
    fun hnone => ?_⟩
  · rw [List.takeWhile_append_dropWhile, hbody]
  · rw [List.takeWhile_cons_of_pos (by simp [hstart c rfl])]
    exact List.cons_ne_nil _ _
  · simpa using List.mem_takeWhile_imp hd
  · exact List.mem_takeWhile_imp hd
  · have hnot := List.head?_dropWhile_not isTerminator after
    rwa [hd] at hnot
  · -- only a closing mark ends the characters before
    cases after with
    | nil => rfl
    | cons d rest =>
        rw [List.takeWhile_cons_of_pos (by simpa using hfirst)] at hnone
        contradiction

/-- A text is empty, or opens with a closing mark, or is a stretch and the rest. -/
theorem closing_induction {motive : Text → Prop} (nil : motive [])
    (mark : ∀ c rest, isTerminator c = true → motive rest → motive (c :: rest))
    (stretch : ∀ body marks rest, Stretch body marks rest → motive rest →
      motive (body ++ (marks ++ rest))) (t : Text) : motive t := by
  induction hn : t.length using Nat.strong_induction_on generalizing t with
  | _ n ih =>
      cases t with
      | nil => exact nil
      | cons c tail =>
          cases hc : isTerminator c with
          | true => exact mark c tail hc (ih tail.length (by simp [← hn]) tail rfl)
          | false =>
              obtain ⟨body, marks, rest, hsplit, h⟩ :=
                exists_stretch (t := c :: tail) (by simp) fun d hd => Option.some.inj hd ▸ hc
              have hlen := congrArg List.length hsplit
              have hpos := List.length_pos_iff.mpr h.nonempty
              rw [List.length_append, List.length_append, hn] at hlen
              rw [hsplit]
              exact stretch body marks rest h (ih rest.length (by omega) rest rfl)

end Text

namespace Check

open Text

variable {t u lead body marks rest : Text} {c : Char}

theorem plainSentence_mark (before : Option Char) (hc : isTerminator c = true) :
    plainSentence before (c :: rest) = none := by
  simp [plainSentence, hc]

theorem plainSentence_stretch (before : Option Char) (h : Stretch body marks rest) :
    plainSentence before (body ++ (marks ++ rest)) = some (body.length + marks.length) := by
  have hbody : (body ++ (marks ++ rest)).takeWhile (fun c => !isTerminator c) = body := by
    rw [List.takeWhile_append_of_pos fun c hc => by simpa using h.unmarked c hc]
    cases marks with
    | nil => simp [h.ended rfl]
    | cons d marks => simp [h.marked d List.mem_cons_self]
  have hmarks : (marks ++ rest).takeWhile isTerminator = marks := by
    rw [List.takeWhile_append_of_pos h.marked]
    cases rest with
    | nil => simp
    | cons d rest => simp [h.next d rfl]
  rw [plainSentence]
  simp only [hbody, List.drop_left, hmarks]
  simp [h.nonempty]

theorem exists_append_of_plainSentence {before : Option Char} {t : Text} {n : Nat}
    (h : plainSentence before t = some n) : ∃ body marks rest, t = body ++ (marks ++ rest) ∧
      n = body.length + marks.length ∧ (∀ c ∈ body, isTerminator c = false) ∧
        ∀ c ∈ marks, isTerminator c = true := by
  rw [plainSentence] at h
  split at h
  · simp at h
  · have hdrop : t.drop (t.takeWhile fun c => !isTerminator c).length =
        t.dropWhile fun c => !isTerminator c := by
      conv_lhs =>
        arg 2
        rw [← List.takeWhile_append_dropWhile (p := fun c => !isTerminator c) (l := t)]
      exact List.drop_left
    rw [hdrop, Option.some.injEq] at h
    refine ⟨_, _, (t.dropWhile fun c => !isTerminator c).dropWhile isTerminator, ?_, h.symm,
      fun c hc => ?_, fun c hc => ?_⟩
    · rw [List.takeWhile_append_dropWhile, List.takeWhile_append_dropWhile]
    · simpa using List.all_eq_true.mp List.all_takeWhile c hc
    · exact List.all_eq_true.mp List.all_takeWhile c hc

theorem bounded_plainSentence : Bounded plainSentence := by
  intro before t n h
  obtain ⟨body, marks, rest, rfl, rfl, _⟩ := exists_append_of_plainSentence h
  rw [List.length_append, List.length_append]
  omega

/-! ## The scan along the stretches -/

theorem scanFrom_plainSentence_mark (before : Option Char) (offset : Nat)
    (hc : isTerminator c = true) :
    scanFrom plainSentence before offset 0 (c :: rest) =
      scanFrom plainSentence (some c) (offset + 1) 0 rest := by
  rw [scanFrom, plainSentence_mark before hc]

theorem scanFrom_plainSentence_stretch (before : Option Char) (offset : Nat)
    (h : Stretch body marks rest) :
    scanFrom plainSentence before offset 0 (body ++ (marks ++ rest)) =
      ⟨offset, offset + body.length + marks.length⟩ ::
        scanFrom plainSentence none (offset + body.length + marks.length) 0 rest := by
  have hmatch := plainSentence_stretch before h
  cases body with
  | nil => exact absurd rfl h.nonempty
  | cons d body =>
      rw [List.cons_append] at hmatch ⊢
      rw [scanFrom, hmatch, List.length_cons,
        show body.length + 1 + marks.length = body.length + marks.length + 1 by omega]
      simp only
      rw [scanFrom_drop (fun _ _ _ => rfl) (some d) none, ← List.append_assoc, List.drop_left'
        (List.length_append ..)]
      congr 2
      · omega
      · omega

/-- The scan may be cut where a stretch ends. -/
theorem scanFrom_plainSentence_append (before : Option Char) (offset : Nat)
    (hlead : lead.EndsMarked) (hu : u.StartsUnmarked) :
    scanFrom plainSentence before offset 0 (lead ++ u) =
      scanFrom plainSentence before offset 0 lead ++
        scanFrom plainSentence none (offset + lead.length) 0 u := by
  induction lead using closing_induction generalizing before offset with
  | nil => exact scanFrom_drop (fun _ _ _ => rfl) before none offset 0 u
  | mark c rest hc ih =>
      rw [List.cons_append, scanFrom_plainSentence_mark before offset hc,
        scanFrom_plainSentence_mark before offset hc,
        ih (some c) (offset + 1) (EndsMarked.of_append (t := [c]) hlead), List.length_cons,
        Nat.add_assoc, Nat.add_comm 1]
  | stretch body marks rest h ih =>
      have hmarks : marks ≠ [] := by
        rintro rfl
        obtain rfl := h.ended rfl
        rw [List.append_nil, List.append_nil] at hlead
        exact h.nonempty (hlead.eq_nil fun d hd => h.unmarked d (List.mem_of_getLast? hd))
      have hwhole : Stretch body marks (rest ++ u) :=
        ⟨h.nonempty, h.unmarked, h.marked, h.next.append hu, fun hnone => absurd hnone hmarks⟩
      rw [List.append_assoc, List.append_assoc, scanFrom_plainSentence_stretch before offset hwhole,
        scanFrom_plainSentence_stretch before offset h,
        ih none _ (EndsMarked.of_append (EndsMarked.of_append hlead)), List.cons_append]
      congr 3
      simp only [List.length_append]
      omega

theorem scan_plainSentence_stretch (hlead : lead.EndsMarked) (h : Stretch body marks rest) :
    (lead ++ (body ++ (marks ++ rest))).scan plainSentence =
      lead.scan plainSentence ++ ⟨lead.length, lead.length + body.length + marks.length⟩ ::
        scanFrom plainSentence none (lead.length + body.length + marks.length) 0 rest := by
  have hstart : (body ++ (marks ++ rest)).StartsUnmarked := by
    intro c hc
    rw [List.head?_append_of_ne_nil _ h.nonempty] at hc
    exact h.unmarked c (List.mem_of_head? hc)
  rw [scan, scanFrom_plainSentence_append none 0 hlead hstart, Nat.zero_add,
    scanFrom_plainSentence_stretch none _ h, scan]

end Check

end Kouetsu
