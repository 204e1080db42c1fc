import Kouetsu.Comment.Prose
import Kouetsu.Proofs.Position.LineIndex
import Kouetsu.Proofs.Position.Mapper
/-!
# Prose views are exact

The ranges that a prose view removes are the offsets that hold neither a line feed nor prose
of a comment, and the map between the view and the source text keeps characters, lines and
order.
-/

namespace Kouetsu

/-! ## Removed runs -/

/-- Ranges in order between two offsets that hold exactly the offsets of a predicate. -/
structure RunsOver (low high : Nat) (marked : Nat → Prop) (ranges : List ExcludedRange) :
    Prop where
  within : ∀ r ∈ ranges, (low : Int) ≤ r.start ∧ r.start < r.stop ∧ r.stop ≤ high
  ordered : ranges.Pairwise fun r s => r.stop ≤ s.start
  covers_iff : ∀ i : Nat, (∃ r ∈ ranges, r.covers i = true) ↔ marked i

namespace RunsOver

theorem nil (i : Nat) : RunsOver i i (fun _ => False) [] :=
  ⟨by simp, by simp, by simp⟩

theorem append {a b c d : Nat} {P Q : Nat → Prop} {xs ys : List ExcludedRange}
    (hx : RunsOver a b P xs) (hy : RunsOver c d Q ys) (hab : a ≤ b) (hbc : b ≤ c)
    (hcd : c ≤ d) : RunsOver a d (fun i => P i ∨ Q i) (xs ++ ys) := by
  constructor
  · intro r hr
    rcases List.mem_append.mp hr with hr | hr
    · have := hx.within r hr
      omega
    · have := hy.within r hr
      omega
  · rw [List.pairwise_append]
    refine ⟨hx.ordered, hy.ordered, fun r hr s hs => ?_⟩
    have h1 := hx.within r hr
    have h2 := hy.within s hs
    omega
  · intro i
    rw [← hx.covers_iff i, ← hy.covers_iff i]
    simp only [List.mem_append, or_and_right, exists_or]

theorem congr {a b : Nat} {P Q : Nat → Prop} {xs : List ExcludedRange}
    (hx : RunsOver a b P xs) (h : ∀ i, P i ↔ Q i) : RunsOver a b Q xs :=
  ⟨hx.within, hx.ordered, fun i => (hx.covers_iff i).trans (h i)⟩

end RunsOver

def heldLength : Option (ProseRole × Text) → Nat
  | some (_, content) => content.length
  | none => 0

@[simp] theorem heldLength_none : heldLength none = 0 := rfl

@[simp] theorem heldLength_some (role : ProseRole) (content : Text) :
    heldLength (some (role, content)) = content.length := rfl

theorem runsOver_flush {i : Nat} {opened : Option (ProseRole × Text)}
    (hle : heldLength opened ≤ i) (hne : opened.all fun o => !o.2.isEmpty) :
    RunsOver (i - heldLength opened) i (fun j => i - heldLength opened ≤ j ∧ j < i)
      (flush i opened) := by
  cases opened with
  | none => exact (RunsOver.nil i).congr fun j => by simp [heldLength]
  | some run =>
      obtain ⟨role, content⟩ := run
      have hpos : 0 < content.length := by
        rw [List.length_pos_iff]
        simpa using hne
      simp only [heldLength] at hle ⊢
      refine ⟨?_, by simp [flush], ?_⟩
      · simp only [flush, removedRange, List.mem_singleton, forall_eq]
        omega
      · intro j
        simp only [flush, removedRange, List.mem_singleton, exists_eq_left,
          ExcludedRange.covers, Bool.and_eq_true, decide_eq_true_eq]
        omega

/-- The offsets, counted from `i`, of the characters that are not kept. -/
def Removed (i : Nat) (roles : List (Char × ProseRole)) (j : Nat) : Prop :=
  i ≤ j ∧ ∃ x, roles[j - i]? = some x ∧ x.2 ≠ .kept

theorem removed_cons {i j : Nat} {x : Char × ProseRole} {roles : List (Char × ProseRole)} :
    Removed i (x :: roles) j ↔ (j = i ∧ x.2 ≠ .kept) ∨ Removed (i + 1) roles j := by
  unfold Removed
  rcases Nat.lt_trichotomy j i with hlt | rfl | hgt
  · constructor <;> intro h <;> omega
  · have hlater : ¬j + 1 ≤ j := by omega
    simp [hlater]
  · obtain ⟨d, rfl⟩ := Nat.exists_eq_add_of_lt hgt
    rw [show i + d + 1 - i = d + 1 by omega, show i + d + 1 - (i + 1) = d by omega,
      List.getElem?_cons_succ]
    constructor
    · exact fun h => Or.inr ⟨by omega, h.2⟩
    · rintro (h | h)
      · omega
      · exact ⟨by omega, h.2⟩

/-- A run stays open over characters of its role, and each removed character joins one run. -/
theorem runsOver_removedRuns (roles : List (Char × ProseRole)) (i : Nat)
    (opened : Option (ProseRole × Text)) (hle : heldLength opened ≤ i)
    (hne : opened.all fun o => !o.2.isEmpty) :
    RunsOver (i - heldLength opened) (i + roles.length)
      (fun j => (i - heldLength opened ≤ j ∧ j < i) ∨ Removed i roles j)
      (removedRuns i opened roles) := by
  induction roles generalizing i opened with
  | nil => exact (runsOver_flush hle hne).congr fun j => by simp [Removed]
  | cons x rest ih =>
      obtain ⟨c, role⟩ := x
      have hrest := ih (i + 1) none (by simp) rfl
      rw [List.length_cons, show i + (rest.length + 1) = i + 1 + rest.length by omega]
      unfold removedRuns
      split
      · next hkept =>
          -- the open run ends before a kept character
          refine ((runsOver_flush hle hne).append hrest (by omega) (by simp)
            (by simp)).congr fun j => ?_
          have hnone : ¬(i + 1 - heldLength none ≤ j ∧ j < i + 1) := by simp
          rw [removed_cons]
          tauto
      · next hrole =>
          have hopen := ih (i + 1) (some (role, [c])) (by simp) rfl
          have hsingle : ∀ j,
              (i + 1 - heldLength (some (role, [c])) ≤ j ∧ j < i + 1) ↔ j = i := by
            intro j
            rw [heldLength_some, List.length_singleton]
            omega
          split
          · next r content =>
              rw [heldLength_some] at hle
              split
              · next hsame =>
                  -- the open run takes the character
                  have hlong := ih (i + 1) (some (r, c :: content)) (by simpa using hle) rfl
                  rw [heldLength_some, List.length_cons, Nat.add_sub_add_right] at hlong
                  rw [heldLength_some]
                  refine hlong.congr fun j => ?_
                  have hgrow : (i - content.length ≤ j ∧ j < i + 1) ↔
                      (i - content.length ≤ j ∧ j < i) ∨ j = i := by omega
                  rw [removed_cons, hgrow]
                  tauto
              · -- the open run ends, and the character opens another
                have hlow : i + 1 - heldLength (some (role, [c])) = i := by simp
                refine ((runsOver_flush hle hne).append hopen (by omega) (by omega)
                  (by omega)).congr fun j => ?_
                rw [removed_cons, hsingle]
                tauto
          · refine hopen.congr fun j => ?_
            have hnone : ¬(i - heldLength none ≤ j ∧ j < i) := by
              rw [heldLength_none]
              omega
            rw [removed_cons, hsingle]
            tauto

/-! ## Roles of characters -/

def InProse (comments : List Comment) (i : Nat) : Prop :=
  ∃ m ∈ comments, ∃ s ∈ m.prose, s.covers i = true

theorem proseRoles_eq (comments : List Comment) (t : Text) (offset : Nat) :
    proseRoles comments offset t =
      (t.zipIdx offset).map fun x => (x.1, proseRole comments x.2 x.1) := by
  induction t generalizing offset with
  | nil => rfl
  | cons c rest ih => rw [proseRoles, List.zipIdx_cons, List.map_cons, ih]

theorem proseRole_eq_kept_iff {comments : List Comment} {i : Nat} {c : Char} :
    proseRole comments i c = .kept ↔ c = '\n' ∨ InProse comments i := by
  have hkept : (c = '\n' || comments.any fun m => m.prose.any (·.covers i)) = true ↔
      c = '\n' ∨ InProse comments i := by
    simp [InProse, List.any_eq_true]
  rw [← hkept, proseRole]
  split
  · next h => simp [h]
  · next h => split <;> simp [h]

theorem removed_proseRoles {comments : List Comment} {t : Text} {i : Nat} :
    Removed 0 (proseRoles comments 0 t) i ↔
      ∃ c, t[i]? = some c ∧ c ≠ '\n' ∧ ¬InProse comments i := by
  rw [proseRoles_eq, Removed, Nat.sub_zero]
  simp only [List.getElem?_map, List.getElem?_zipIdx, Option.map_map, Option.map_eq_some_iff,
    Nat.zero_le, true_and, Nat.zero_add, Function.comp_apply]
  constructor
  · rintro ⟨_, ⟨c, hc, rfl⟩, hrole⟩
    rw [ne_eq, proseRole_eq_kept_iff, not_or] at hrole
    exact ⟨c, hc, hrole⟩
  · rintro ⟨c, hc, hrole⟩
    refine ⟨_, ⟨c, hc, rfl⟩, ?_⟩
    rw [ne_eq, proseRole_eq_kept_iff, not_or]
    exact hrole

/-! ## The view -/

theorem proseView_eq {language : String} (hcode : isCodeLanguage language = true) (t : Text) :
    proseView t language =
      { text := ((proseRoles (commentsOf t language) 0 t).filter (·.2 = .kept)).map (·.1)
        ranges := removedRuns 0 none (proseRoles (commentsOf t language) 0 t)
        comments := commentsOf t language } := by
  rw [proseView, if_pos hcode]

/-- The ranges of a view hold exactly what is neither a line feed nor prose. -/
theorem runsOver_proseView {language : String} (hcode : isCodeLanguage language = true)
    (t : Text) :
    RunsOver 0 t.length
      (fun i => ∃ c, t[i]? = some c ∧ c ≠ '\n' ∧ ¬InProse (commentsOf t language) i)
      (proseView t language).ranges := by
  have hlen : (proseRoles (commentsOf t language) 0 t).length = t.length := by
    rw [proseRoles_eq, List.length_map, List.length_zipIdx]
  have hruns := runsOver_removedRuns (proseRoles (commentsOf t language) 0 t) 0 none
    (Nat.le_refl 0) rfl
  rw [hlen, Nat.zero_add] at hruns
  rw [proseView_eq hcode]
  refine hruns.congr fun i => ?_
  rw [removed_proseRoles]
  simp

theorem uncovered_proseView_iff {language : String} (hcode : isCodeLanguage language = true)
    {t : Text} {i : Nat} {c : Char} (hc : t[i]? = some c) :
    uncovered (proseView t language).ranges i = true ↔
      c = '\n' ∨ InProse (commentsOf t language) i := by
  have hcov := (runsOver_proseView hcode t).covers_iff i
  rw [hc] at hcov
  simp only [Option.some.injEq, exists_eq_left'] at hcov
  rw [uncovered, Bool.not_eq_true', ← Bool.not_eq_true, List.any_eq_true, hcov]
  tauto

theorem text_proseView {language : String} (hcode : isCodeLanguage language = true) (t : Text) :
    (proseView t language).text = uncoveredText t (proseView t language).ranges := by
  have hroles : (proseView t language).text =
      (t.zipIdx.filter fun x => proseRole (commentsOf t language) x.2 x.1 = .kept).map
        (·.1) := by
    rw [proseView_eq hcode, proseRoles_eq, List.filter_map, List.map_map]
    rfl
  rw [hroles, uncoveredText]
  congr 1
  apply List.filter_congr
  intro x hx
  have hc := List.mem_zipIdx_iff_getElem?.mp hx
  rw [Bool.eq_iff_iff, decide_eq_true_eq, proseRole_eq_kept_iff,
    uncovered_proseView_iff hcode hc]

/-- The map of a view keeps characters, lines and the order of offsets. -/
theorem faithful_proseView {language : String} (hcode : isCodeLanguage language = true) (t : Text) :
    (OffsetMap.ofRanges t (proseView t language).text (proseView t language).ranges).Faithful t
      (proseView t language).text := by
  have hruns := runsOver_proseView hcode t
  have hfaithful : (OffsetMap.ofRanges t (uncoveredText t (proseView t language).ranges)
      (proseView t language).ranges).Faithful t
        (uncoveredText t (proseView t language).ranges) := by
    apply OffsetMap.faithful_ofRanges
    · intro r hr _
      exact (hruns.within r hr).1
    · intro i hi
      exact (uncovered_proseView_iff hcode hi).mpr (Or.inl rfl)
  rwa [← text_proseView hcode t] at hfaithful

theorem documentOffset?_proseView {language : String} (hcode : isCodeLanguage language = true)
    (t : Text) (f : Nat) :
    (OffsetMap.ofRanges t (proseView t language).text (proseView t language).ranges).documentOffset?
      f = (((List.range t.length).filter
        (uncovered (proseView t language).ranges))[f]?).map Int.ofNat := by
  apply OffsetMap.documentOffset?_eq
  · intro r hr _
    exact ((runsOver_proseView hcode t).within r hr).1
  · rw [text_proseView hcode, length_uncoveredText]

theorem exists_place_proseView {language : String} (hcode : isCodeLanguage language = true)
    {t : Text} {i : Nat} {c : Char} (hc : t[i]? = some c)
    (hkept : c = '\n' ∨ InProse (commentsOf t language) i) :
    ∃ f : Nat, (proseView t language).text[f]? = some c ∧
      (OffsetMap.ofRanges t (proseView t language).text
        (proseView t language).ranges).documentOffset? f = some (i : Int) := by
  have hmem : i ∈ (List.range t.length).filter (uncovered (proseView t language).ranges) := by
    rw [List.mem_filter, List.mem_range]
    exact ⟨(List.getElem?_eq_some_iff.mp hc).1, (uncovered_proseView_iff hcode hc).mpr hkept⟩
  obtain ⟨f, hf⟩ := List.mem_iff_getElem?.mp hmem
  have hplace : (OffsetMap.ofRanges t (proseView t language).text
      (proseView t language).ranges).documentOffset? f = some (i : Int) := by
    rw [documentOffset?_proseView hcode, hf]
    rfl
  have hlt : f < (proseView t language).text.length := by
    rw [text_proseView hcode, length_uncoveredText, List.countP_eq_length_filter]
    exact (List.getElem?_eq_some_iff.mp hf).1
  obtain ⟨o, ho, hchar, _⟩ := (faithful_proseView hcode t).place f hlt
  obtain rfl : i = o := Int.ofNat_inj.mp (Option.some.inj (hplace.symm.trans ho))
  exact ⟨f, hchar.symm.trans hc, hplace⟩

/-- A prose view removes exactly what is neither a line feed nor prose of a comment, and its
map keeps characters, lines and order. -/
theorem proseView_exact {language : String} (hcode : isCodeLanguage language = true) (t : Text) :
    let view := proseView t language
    let map := OffsetMap.ofRanges t view.text view.ranges
    RunsOver 0 t.length
        (fun i => ∃ c, t[i]? = some c ∧ c ≠ '\n' ∧ ¬InProse (commentsOf t language) i)
        view.ranges ∧
      view.text = (t.zipIdx.filter fun x => !view.ranges.any (·.covers x.2)).map (·.1) ∧
      map.Faithful t view.text ∧
      ∀ x : Int, map.toKept? x = none ↔
        x < 0 ∨ t.length ≤ x ∨ ∃ r ∈ view.ranges, r.covers x = true := by
  intro view map
  exact ⟨runsOver_proseView hcode t, text_proseView hcode t, faithful_proseView hcode t,
    fun x => OffsetMap.toKept?_eq_none_iff⟩

/-- Two comments on one line, with marks between them. -/
theorem proseView_exact_go :
    let t := "a /* い */ // う\n".toList
    let view := proseView t "go"
    let map := OffsetMap.ofRanges t view.text view.ranges
    isCodeLanguage "go" = true ∧ view.text = "いう\n".toList ∧
      (∃ o : Nat, map.documentOffset? 1 = some (o : Int) ∧ t[o]? = some 'う') ∧
      map.toKept? 12 = none := by
  intro t view map
  have hcode : isCodeLanguage "go" = true := by decide
  have htext : view.text = "いう\n".toList := by decide
  obtain ⟨_, _, hfaithful, hnone⟩ := proseView_exact hcode t
  refine ⟨hcode, htext, ?_, (hnone 12).mpr (Or.inr (Or.inr ?_))⟩
  · obtain ⟨o, ho, hchar, _⟩ := hfaithful.place 1 (by decide)
    refine ⟨o, ho, hchar.trans ?_⟩
    decide
  · rw [← List.any_eq_true]
    decide

end Kouetsu
