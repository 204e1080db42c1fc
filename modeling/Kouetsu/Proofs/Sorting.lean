import Kouetsu.Proofreading.Paths
import Kouetsu.Proofs.Json.Node
import Mathlib.Data.List.Chain
import Mathlib.Data.List.Sort
import Mathlib.Data.Prod.Lex
import Mathlib.Data.String.Basic
/-!
# Issues of several files in order

Sorting keeps issues at one place in the order in which they came, and only issues of one file are
at one place.  So the order in which files are done does not matter.
-/

namespace Kouetsu

/-! ## Sorted lists -/

section Sorting

variable {α β : Type} [LinearOrder β] {key : α → β}

theorem le_key_trans (key : α → β) (x y z : α) (hxy : decide (key x ≤ key y) = true)
    (hyz : decide (key y ≤ key z) = true) : decide (key x ≤ key z) = true :=
  decide_eq_true ((of_decide_eq_true hxy).trans (of_decide_eq_true hyz))

theorem le_key_total (key : α → β) (x y : α) :
    (decide (key x ≤ key y) || decide (key y ≤ key x)) = true := by
  rw [Bool.or_eq_true, decide_eq_true_eq, decide_eq_true_eq]
  exact le_total _ _

theorem pairwise_mergeSort_key (l : List α) :
    (l.mergeSort fun x y => decide (key x ≤ key y)).Pairwise fun x y => key x ≤ key y :=
  (List.pairwise_mergeSort (le_key_trans key) (le_key_total key) l).imp of_decide_eq_true

/-- Sorting by a key keeps the members with one key in their order. -/
theorem filter_mergeSort (l : List α) (b : β) :
    (l.mergeSort fun x y => decide (key x ≤ key y)).filter (fun x => decide (key x = b)) =
      l.filter fun x => decide (key x = b) := by
  have hclass : (l.filter fun x => decide (key x = b)).Pairwise
      fun x y => decide (key x ≤ key y) = true := by
    refine List.pairwise_of_forall_mem_list fun x hx y hy => ?_
    rw [of_decide_eq_true (List.mem_filter.mp hx).2, of_decide_eq_true (List.mem_filter.mp hy).2]
    exact decide_eq_true (le_refl b)
  have hsub := (List.sublist_mergeSort (le_key_trans key) (le_key_total key) hclass
    List.filter_sublist).filter
    fun x => decide (key x = b)
  rw [List.filter_filter, List.filter_congr (q := fun x => decide (key x = b)) (by simp)] at hsub
  exact (hsub.eq_of_length (((List.mergeSort_perm l _).filter _).length_eq.symm)).symm

theorem eq_of_filter_eq {l l' : List α} (hl : l.Pairwise fun x y => key x ≤ key y)
    (hl' : l'.Pairwise fun x y => key x ≤ key y)
    (h : ∀ b, l.filter (fun x => decide (key x = b)) = l'.filter fun x => decide (key x = b)) :
    l = l' := by
  induction l generalizing l' with
  | nil =>
      cases l' with
      | nil => rfl
      | cons y l' => simpa using h (key y)
  | cons x l ih =>
      cases l' with
      | nil => simpa using h (key x)
      | cons y l' =>
          have hmem (z : α) : z ∈ x :: l ↔ z ∈ y :: l' := by
            have hz := congrArg (fun l => z ∈ l) (h (key z))
            simpa using hz
          obtain ⟨hx, hrest⟩ := List.pairwise_cons.mp hl
          obtain ⟨hy, hrest'⟩ := List.pairwise_cons.mp hl'
          have hxy : key x ≤ key y := by
            rcases List.mem_cons.mp ((hmem y).mpr List.mem_cons_self) with rfl | hlater
            · exact le_refl _
            · exact hx y hlater
          have hyx : key y ≤ key x := by
            rcases List.mem_cons.mp ((hmem x).mp List.mem_cons_self) with rfl | hlater
            · exact le_refl _
            · exact hy x hlater
          have hkeys := le_antisymm hxy hyx
          have hfirst := h (key x)
          rw [List.filter_cons_of_pos (by simp), List.filter_cons_of_pos (by simp [hkeys])]
            at hfirst
          obtain ⟨rfl, _⟩ := List.cons.inj hfirst
          refine congrArg (x :: ·) (ih hrest hrest' fun b => ?_)
          have hb := h b
          by_cases hxb : key x = b
          · rw [List.filter_cons_of_pos (by simpa using hxb),
              List.filter_cons_of_pos (by simpa using hxb)] at hb
            exact (List.cons.inj hb).2
          · rwa [List.filter_cons_of_neg (by simpa using hxb),
              List.filter_cons_of_neg (by simpa using hxb)] at hb

theorem filter_flatMap_owner {γ : Type} [DecidableEq γ] {g : γ → List α} (owner : β → γ)
    (howner : ∀ k, ∀ x ∈ g k, owner (key x) = k) (ks : List γ) (b : β) :
    (ks.flatMap g).filter (fun x => decide (key x = b)) =
      (ks.filter fun k => decide (k = owner b)).flatMap fun k =>
        (g k).filter fun x => decide (key x = b) := by
  induction ks with
  | nil => rfl
  | cons k ks ih =>
      rw [List.flatMap_cons, List.filter_append, ih, List.filter_cons]
      split
      · rw [List.flatMap_cons]
      · next hk =>
          have hnone : ((g k).filter fun x => decide (key x = b)) = [] := by
            refine List.filter_eq_nil_iff.mpr fun x hx hxb => hk ?_
            rw [← howner k x hx, of_decide_eq_true hxb]
            exact decide_eq_true rfl
          rw [hnone, List.nil_append]

/-- Blocks that share no key may be put together in any order before they are sorted, whatever
comes before them. -/
theorem mergeSort_append_flatMap_perm {γ : Type} [DecidableEq γ] {g : γ → List α} (owner : β → γ)
    (howner : ∀ k, ∀ x ∈ g k, owner (key x) = k) (first : List α) {ks ks' : List γ}
    (hks : ks.Perm ks') :
    ((first ++ ks.flatMap g).mergeSort fun x y => decide (key x ≤ key y)) =
      (first ++ ks'.flatMap g).mergeSort fun x y => decide (key x ≤ key y) := by
  refine eq_of_filter_eq (pairwise_mergeSort_key _) (pairwise_mergeSort_key _) fun b => ?_
  rw [filter_mergeSort, filter_mergeSort, List.filter_append, List.filter_append,
    filter_flatMap_owner owner howner, filter_flatMap_owner owner howner, List.filter_eq,
    List.filter_eq, hks.count_eq]

end Sorting

/-! ## Issues -/

namespace Json.Node

theorem same_text (s t : LooseText) : (text s).same (text t) = decide (s = t) := by
  simp [text, same, Leaf.ofText_injective.eq_iff]

theorem eq_text_of_same {n : Node} {t : LooseText} (h : (text t).same n = true) : n = text t := by
  cases n with
  | leaf l =>
      simp only [text, same, Leaf.text?_ofText, Option.isNone_some, Bool.false_and, Bool.or_false,
        decide_eq_true_eq] at h
      rw [text, h]
  | list items => simp [text, same] at h
  | map entries => simp [text, same] at h

theorem less_text (s t : LooseText) : (text s).less (text t) = .ok (!t.le s) := by
  simp [text, less]

theorem exists_eq_text_of_less {n : Node} {t : LooseText} {b : Bool}
    (h : (text t).less n = .ok b) : ∃ s, n = text s := by
  cases n with
  | leaf l =>
      cases l with
      | loose s => exact ⟨s.val, congrArg leaf (Leaf.ofText_val s).symm⟩
      | plain s =>
          cases s with
          | str s => exact ⟨s, (text_ofString s).symm⟩
          | _ => simp [text, less, Leaf.text?, Scalar.isNumber, Scalar.asInt?] at h
  | list items => simp [text, less] at h
  | map entries => simp [text, less] at h

end Json.Node

namespace Issue

def HasFileName (i : Issue) : Prop := ∃ t, i.fileKey = .text t

def fileName (i : Issue) : LooseText :=
  match i.fileKey with
  | .leaf l => l.text?.getD []
  | _ => []

theorem fileName_of_fileKey {i : Issue} {t : LooseText} (h : i.fileKey = .text t) :
    i.fileName = t := by
  rw [fileName, h, Json.Node.text]
  simp

theorem HasFileName.fileKey_eq {i : Issue} (h : i.HasFileName) : i.fileKey = .text i.fileName := by
  obtain ⟨t, ht⟩ := h
  rw [fileName_of_fileKey ht, ht]

/-- A file, a range and a code as they are compared: part by part. -/
abbrev Place := LooseText ×ₗ Int ×ₗ Int ×ₗ Int ×ₗ Int ×ₗ String

def place (i : Issue) : Place :=
  let r := i.diagnostic.range
  toLex (i.fileName, toLex (r.start.line, toLex (r.start.character,
    toLex (r.stop.line, toLex (r.stop.character, i.diagnostic.code)))))

theorem less_eq {i j : Issue} (hi : i.HasFileName) (hj : j.HasFileName) :
    i.less j = .ok (decide (i.place < j.place)) := by
  rw [less, hi.fileKey_eq, hj.fileKey_eq, Json.Node.same_text, Json.Node.less_text,
    LooseText.le_eq, place, place]
  generalize i.fileName = s
  generalize j.fileName = s'
  obtain ⟨_, ⟨e, _, ⟨⟨a, b⟩, ⟨c, d⟩⟩, _, _, _⟩, _⟩ := i
  obtain ⟨_, ⟨e', _, ⟨⟨a', b'⟩, ⟨c', d'⟩⟩, _, _, _⟩, _⟩ := j
  simp only [Range.before, Position.before, Prod.Lex.toLex_lt_toLex, Range.mk.injEq,
    Position.mk.injEq]
  split
  · next hs =>
      rw [of_decide_eq_true hs, Except.ok.injEq, Bool.eq_iff_iff]
      simp only [Bool.or_eq_true, Bool.and_eq_true, decide_eq_true_eq, lt_irrefl, true_and,
        false_or]
      grind
  · next hs =>
      have hne : s ≠ s' := by simpa using hs
      rw [Except.ok.injEq, Bool.eq_iff_iff]
      simp [hne]

theorem le_eq {i j : Issue} (hi : i.HasFileName) (hj : j.HasFileName) :
    i.le j = decide (i.place ≤ j.place) := by
  rw [le, less_eq hj hi, Bool.eq_iff_iff]
  simp

theorem sorted_eq {is : List Issue} (h : ∀ i ∈ is, i.HasFileName) :
    sorted is = is.mergeSort fun i j => decide (i.place ≤ j.place) := by
  have hmap : (is.mergeSort le).map id =
      (is.map id).mergeSort fun i j => decide (i.place ≤ j.place) :=
    List.map_mergeSort fun i hi j hj => le_eq (h i hi) (h j hj)
  rwa [List.map_id, List.map_id] at hmap

theorem pairwise_sorted {is : List Issue} (h : ∀ i ∈ is, i.HasFileName) :
    (sorted is).Pairwise fun i j => i.place ≤ j.place := by
  rw [sorted_eq h]
  exact pairwise_mergeSort_key is

theorem fileKey_of_file {i : Issue} {t : LooseText} (h : i.file = .text t) :
    i.fileKey = .text t := by
  rw [fileKey, h]
  split
  · rfl
  · next hfalsy =>
      -- no text but the empty one counts as false
      have hempty : t = [] := by
        simpa [Json.Node.isTruthy, Json.Node.text, Json.Node.shown, Value.isTruthy,
          LooseText.shown] using hfalsy
      rw [hempty, ← LooseText.ofString_empty, Json.Node.text_ofString]

theorem fileName_of_file {i : Issue} {t : LooseText} (h : i.file = .text t) : i.fileName = t :=
  fileName_of_fileKey (fileKey_of_file h)

theorem hasFileName_of_file {i : Issue} (h : ∃ t, i.file = .text t) : i.HasFileName :=
  h.imp fun _ => fileKey_of_file

/-- The issues of files may be put together in any order before they are sorted, whatever comes
before them. -/
theorem sorted_append_flatMap_perm {g : LooseText → List Issue}
    (hg : ∀ k, ∀ i ∈ g k, i.file = .text k) {first : List Issue}
    (hfirst : ∀ i ∈ first, i.HasFileName) {ks ks' : List LooseText} (hks : ks.Perm ks') :
    sorted (first ++ ks.flatMap g) = sorted (first ++ ks'.flatMap g) := by
  have howner : ∀ k, ∀ i ∈ g k, (ofLex i.place).1 = k := fun k i hi =>
    fileName_of_file (hg k i hi)
  have hall (ks : List LooseText) : ∀ i ∈ first ++ ks.flatMap g, i.HasFileName := by
    intro i hi
    rcases List.mem_append.mp hi with hi | hi
    · exact hfirst i hi
    · obtain ⟨k, _, hi⟩ := List.mem_flatMap.mp hi
      exact hasFileName_of_file ⟨k, hg k i hi⟩
  rw [sorted_eq (hall ks), sorted_eq (hall ks')]
  exact mergeSort_append_flatMap_perm (fun p : Place => (ofLex p).1) howner first hks

/-! ## Issues that have an order -/

/-- Two issues, the first one before the second, whose files have an order. -/
def Comparable (i j : Issue) : Prop := ∃ later, j.less i = .ok later

theorem firstUnorderable?_eq_none_iff {is : List Issue} :
    firstUnorderable? is = none ↔ is.Pairwise Comparable := by
  induction is with
  | nil => simp [firstUnorderable?]
  | cons i is ih =>
      rw [firstUnorderable?, List.pairwise_cons, ← ih, Option.orElse_eq_none]
      refine and_congr_left' ?_
      rw [List.findSome?_eq_none_iff]
      refine forall₂_congr fun j _ => ?_
      rw [Comparable]
      cases j.less i <;> simp

theorem comparable {i j : Issue} (hi : i.HasFileName) (hj : j.HasFileName) : i.Comparable j :=
  ⟨_, less_eq hj hi⟩

theorem pairwise_comparable {is : List Issue} (h : ∀ i ∈ is, i.HasFileName) :
    is.Pairwise Comparable :=
  List.pairwise_of_forall_mem_list fun i hi j hj => comparable (h i hi) (h j hj)

theorem firstUnorderable?_eq_none {is : List Issue} (h : ∀ i ∈ is, i.HasFileName) :
    firstUnorderable? is = none :=
  firstUnorderable?_eq_none_iff.mpr (pairwise_comparable h)

theorem comparable_iff {i j : Issue} (hj : j.HasFileName) : i.Comparable j ↔ i.HasFileName := by
  refine ⟨?_, fun hi => comparable hi hj⟩
  rintro ⟨later, hless⟩
  rw [less, hj.fileKey_eq] at hless
  split at hless
  · next hsame => exact ⟨_, Json.Node.eq_text_of_same hsame⟩
  · exact Json.Node.exists_eq_text_of_less hless

/-- Issues with names can follow others that can be ordered if those have names too. -/
theorem pairwise_append_iff {first is : List Issue} (his : ∀ i ∈ is, i.HasFileName) :
    (first ++ is).Pairwise Comparable ↔
      first.Pairwise Comparable ∧ (is ≠ [] → ∀ i ∈ first, i.HasFileName) := by
  rw [List.pairwise_append, and_iff_right (pairwise_comparable his)]
  refine and_congr_right' ?_
  cases is with
  | nil => simp
  | cons i is =>
      have hi := his i List.mem_cons_self
      constructor
      · exact fun h _ j hj => (comparable_iff hi).mp (h j hj i List.mem_cons_self)
      · exact fun h j hj k hk => comparable (h (List.cons_ne_nil i is) j hj) (his k hk)

theorem filter_sorted {is : List Issue} (hnamed : ∀ i ∈ is, i.HasFileName) {k : LooseText}
    (h : (is.filter fun i => decide (i.fileName = k)).Pairwise fun i j => i.place ≤ j.place) :
    (sorted is).filter (fun i => decide (i.fileName = k)) =
      is.filter fun i => decide (i.fileName = k) := by
  rw [sorted_eq hnamed]
  apply eq_of_filter_eq ((pairwise_mergeSort_key is).sublist List.filter_sublist) h
  intro b
  rw [List.filter_comm, filter_mergeSort, List.filter_comm]

theorem filter_flatMap {g : LooseText → List Issue} (hg : ∀ k, ∀ i ∈ g k, i.file = .text k)
    {ks : List LooseText} (hks : ks.Nodup) {k : LooseText} (hk : k ∈ ks) :
    (ks.flatMap g).filter (fun i => decide (i.fileName = k)) = g k := by
  have hname : ∀ k, ∀ i ∈ g k, i.fileName = k := fun k i hi => fileName_of_file (hg k i hi)
  have hblocks : (ks.flatMap g).filter (fun i => decide (i.fileName = k)) =
      (ks.filter fun k' => decide (k' = k)).flatMap fun k' =>
        (g k').filter fun i => decide (i.fileName = k) := by
    convert filter_flatMap_owner id hname ks k <;> rfl
  rw [hblocks, List.filter_eq, List.count_eq_one_of_mem hks hk,
    List.replicate_one, List.flatMap_singleton]
  exact List.filter_eq_self.mpr fun i hi => decide_eq_true (hname k i hi)

end Issue

end Kouetsu
