import Kouetsu.Proofs.Traverse
import Mathlib.Data.List.SplitBy
import Mathlib.Logic.Relator
/-!
# Runs of a list

A list that is cut where neighbours are not related falls into its maximal runs, each at one place.
Where an element has at most one neighbour on each side, two maximal runs with a common element are
the same.
-/

namespace Kouetsu

variable {α : Type}

structure Run (α : Type) where
  first : α
  rest : List α

namespace Run

def elements (u : Run α) : List α := u.first :: u.rest

def length (u : Run α) : Nat := u.elements.length

theorem elements_ne_nil (u : Run α) : u.elements ≠ [] := List.cons_ne_nil _ _

def last (u : Run α) : α := u.elements.getLast u.elements_ne_nil

def ofList? : List α → Option (Run α)
  | [] => none
  | first :: rest => some ⟨first, rest⟩

/-- A run of related neighbours, with parts before and after it whose ends are not related to it. -/
structure Between (u : Run α) (r : α → α → Bool) (before after : List α) : Prop where
  related : u.elements.IsChain fun x y => r x y
  opens : ∀ x, before.getLast? = some x → r x u.first = false
  closes : ∀ y, after.head? = some y → r u.last y = false

variable {u v : Run α} {r : α → α → Bool} {l before after : List α}

theorem elements_injective : Function.Injective (elements (α := α)) := by
  rintro ⟨first, rest⟩ ⟨first', rest'⟩ h
  obtain ⟨rfl, rfl⟩ := List.cons.inj h
  rfl

theorem ofList?_eq_some : ofList? l = some u ↔ l = u.elements := by
  cases l with
  | nil => simp [ofList?, elements]
  | cons first rest =>
      rw [ofList?, Option.some.injEq]
      exact ⟨fun h => h ▸ rfl, fun h => elements_injective h⟩

theorem exists_elements_eq (h : l ≠ []) : ∃ u : Run α, l = u.elements := by
  obtain ⟨first, rest, rfl⟩ := List.exists_cons_of_ne_nil h
  exact ⟨⟨first, rest⟩, rfl⟩

theorem getLast?_elements (u : Run α) : u.elements.getLast? = some u.last :=
  List.getLast?_eq_some_getLast _

theorem first_mem (u : Run α) : u.first ∈ u.elements := List.mem_cons_self

theorem last_mem (u : Run α) : u.last ∈ u.elements := List.getLast_mem _

theorem mem_filterMap_ofList? {pieces : List (List α)} :
    u ∈ pieces.filterMap ofList? ↔ u.elements ∈ pieces := by
  simp only [List.mem_filterMap, ofList?_eq_some]
  exact ⟨fun ⟨_, hmem, h⟩ => h ▸ hmem, fun hmem => ⟨_, hmem, rfl⟩⟩

/-! ## Cutting where neighbours are not related -/

theorem Between.splitBy_eq (h : u.Between r before after) :
    (before ++ (u.elements ++ after)).splitBy r =
      before.splitBy r ++ u.elements :: after.splitBy r := by
  rw [List.splitBy_append, List.splitBy_append, List.splitBy_of_isChain u.elements_ne_nil
    h.related, List.singleton_append]
  · intro x hx y hy
    rw [getLast?_elements, Option.mem_some_iff] at hx
    exact hx ▸ h.closes y hy
  · intro x hx y hy
    obtain rfl : u.first = y := Option.some.inj hy
    exact h.opens x hx

theorem between_of_splitBy_eq {before after : List (List α)}
    (h : l.splitBy r = before ++ u.elements :: after) :
    l = before.flatten ++ (u.elements ++ after.flatten) ∧
      u.Between r before.flatten after.flatten := by
  have hne (piece : List α) (hpiece : piece ∈ before ++ u.elements :: after) : piece ≠ [] :=
    List.ne_nil_of_mem_splitBy (h ▸ hpiece)
  have hcut := List.isChain_getLast_head_splitBy r l
  rw [h] at hcut
  refine ⟨by rw [← List.flatten_splitBy r l, h, List.flatten_append, List.flatten_cons], ?_,
    fun x hx => ?_, fun y hy => ?_⟩
  · exact List.isChain_of_mem_splitBy (h ▸ List.mem_append_right _ List.mem_cons_self)
  · rcases List.eq_nil_or_concat' before with rfl | ⟨pieces, piece, rfl⟩
    · simp at hx
    · rw [List.append_assoc, List.singleton_append, List.isChain_append_cons_cons] at hcut
      obtain ⟨_, ⟨hpiece, _, hrel⟩, _⟩ := hcut
      rw [List.flatten_concat, List.getLast?_append_of_ne_nil _ hpiece,
        List.getLast?_eq_some_getLast hpiece, Option.some.injEq] at hx
      exact hx ▸ hrel
  · cases after with
    | nil => simp at hy
    | cons piece pieces =>
        rw [List.isChain_append_cons_cons] at hcut
        obtain ⟨_, ⟨_, hpiece, hrel⟩, _⟩ := hcut
        rw [List.flatten_cons, List.head?_append_of_ne_nil _ hpiece,
          List.head?_eq_some_head hpiece, Option.some.injEq] at hy
        exact hy ▸ hrel

def placedFrom (n : Nat) : List (List α) → List (Nat × List α)
  | [] => []
  | piece :: pieces => (n, piece) :: placedFrom (n + piece.length) pieces

theorem map_snd_placedFrom (n : Nat) (pieces : List (List α)) :
    (placedFrom n pieces).map (·.2) = pieces := by
  induction pieces generalizing n with
  | nil => rfl
  | cons piece pieces ih => rw [placedFrom, List.map_cons, ih]

theorem mem_placedFrom {m n : Nat} {piece : List α} {pieces : List (List α)} :
    (n, piece) ∈ placedFrom m pieces ↔
      ∃ before after, pieces = before ++ piece :: after ∧ n = m + before.flatten.length := by
  induction pieces generalizing m with
  | nil => simp [placedFrom]
  | cons head pieces ih =>
      rw [placedFrom, List.mem_cons, ih, Prod.mk.injEq]
      constructor
      · rintro (⟨rfl, rfl⟩ | ⟨before, after, rfl, rfl⟩)
        · exact ⟨[], pieces, rfl, rfl⟩
        · refine ⟨head :: before, after, rfl, ?_⟩
          rw [List.flatten_cons, List.length_append, Nat.add_assoc]
      · rintro ⟨before, after, hsplit, rfl⟩
        cases before with
        | nil => exact Or.inl ⟨rfl, (List.cons.inj hsplit).1.symm⟩
        | cons first before =>
            obtain ⟨rfl, rfl⟩ := List.cons.inj hsplit
            refine Or.inr ⟨before, after, rfl, ?_⟩
            rw [List.flatten_cons, List.length_append, Nat.add_assoc]

theorem pairwise_placedFrom (n : Nat) (pieces : List (List α)) :
    (placedFrom n pieces).Pairwise fun a b => a.1 + a.2.length ≤ b.1 := by
  induction pieces generalizing n with
  | nil => exact List.Pairwise.nil
  | cons piece pieces ih =>
      refine List.pairwise_cons.mpr ⟨fun b hb => ?_, ih _⟩
      obtain ⟨before, after, _, hplace⟩ := mem_placedFrom.mp hb
      simp only
      omega

theorem mem_placedFrom_splitBy {n : Nat} : (n, u.elements) ∈ placedFrom 0 (l.splitBy r) ↔
    ∃ before after, l = before ++ (u.elements ++ after) ∧ before.length = n ∧
      u.Between r before after := by
  rw [mem_placedFrom]
  constructor
  · rintro ⟨before, after, hsplit, rfl⟩
    obtain ⟨hl, hbetween⟩ := between_of_splitBy_eq hsplit
    exact ⟨_, _, hl, (Nat.zero_add _).symm, hbetween⟩
  · rintro ⟨before, after, rfl, rfl, hbetween⟩
    refine ⟨_, _, hbetween.splitBy_eq, ?_⟩
    rw [List.flatten_splitBy, Nat.zero_add]

theorem splitBy_cons_of_not_rel {x y : α} (l : List α) (h : r x y = false) :
    (x :: y :: l).splitBy r = [x] :: (y :: l).splitBy r :=
  List.splitBy_append_cons (l := [x]) l (by simpa using h)

theorem splitBy_cons_of_rel {x y : α} {piece : List α} {pieces : List (List α)} (h : r x y = true)
    (hl : (y :: l).splitBy r = piece :: pieces) :
    (x :: y :: l).splitBy r = (x :: piece) :: pieces := by
  obtain ⟨u, rfl⟩ := exists_elements_eq (List.ne_nil_of_mem_splitBy (hl ▸ List.mem_cons_self))
  have hcut : (y :: l).splitBy r = [] ++ u.elements :: pieces := hl
  obtain ⟨hsplit, hbetween⟩ := between_of_splitBy_eq hcut
  have hjoined : Between ⟨x, u.elements⟩ r [] pieces.flatten := by
    refine ⟨List.isChain_cons_cons.mpr ⟨?_, hbetween.related⟩, fun _ hx => ?_, hbetween.closes⟩
    · rwa [← (List.cons.inj hsplit).1]
    · simp at hx
  have hpieces : pieces.flatten.splitBy r = pieces := by
    have hrest := hbetween.splitBy_eq
    rw [← hsplit, hcut] at hrest
    exact (List.cons.inj hrest).2.symm
  rw [hsplit]
  exact hjoined.splitBy_eq.trans (by rw [hpieces]; rfl)

theorem exists_between_of_mem_splitBy (h : u.elements ∈ l.splitBy r) :
    ∃ before after, l = before ++ (u.elements ++ after) ∧ u.Between r before after := by
  obtain ⟨before, after, hsplit⟩ := List.append_of_mem h
  exact ⟨_, _, between_of_splitBy_eq hsplit⟩

theorem exists_mapM_elements {β : Type} {f : List α → Option (Option β)} {g : Run α → Option β}
    (h : ∀ u : Run α, f u.elements = some (g u)) {pieces : List (List α)} (hne : [] ∉ pieces) :
    ∃ found, pieces.mapM f = some found ∧
      found.filterMap id = (pieces.filterMap ofList?).filterMap g := by
  induction pieces with
  | nil => exact ⟨[], rfl, rfl⟩
  | cons piece pieces ih =>
      rw [List.mem_cons, not_or] at hne
      obtain ⟨u, rfl⟩ := exists_elements_eq (Ne.symm hne.1)
      obtain ⟨found, hfound, hreport⟩ := ih hne.2
      refine ⟨g u :: found, mapM_cons_eq_some.mpr ⟨_, _, h u, hfound, rfl⟩, ?_⟩
      rw [List.filterMap_cons_some (ofList?_eq_some.mpr rfl), List.filterMap_cons,
        List.filterMap_cons, hreport]
      rfl

/-! ## Runs with a common element -/

theorem eq_of_isChain_cons {R : α → α → Prop} (hunique : Relator.RightUnique R) {x : α}
    {l l' : List α} (hl : (x :: l).IsChain R) (hl' : (x :: l').IsChain R)
    (hend : ∀ y ∈ (x :: l).getLast?, ∀ z, ¬R y z) (hend' : ∀ y ∈ (x :: l').getLast?, ∀ z, ¬R y z) :
    l = l' := by
  induction l generalizing x l' with
  | nil =>
      cases l' with
      | nil => rfl
      | cons y l' => exact absurd (List.isChain_cons_cons.mp hl').1 (hend x rfl y)
  | cons y l ih =>
      cases l' with
      | nil => exact absurd (List.isChain_cons_cons.mp hl).1 (hend' x rfl y)
      | cons y' l' =>
          obtain ⟨hy, hl⟩ := List.isChain_cons_cons.mp hl
          obtain ⟨hy', hl'⟩ := List.isChain_cons_cons.mp hl'
          obtain rfl := hunique hy hy'
          rw [List.getLast?_cons_cons] at hend hend'
          rw [ih hl hl' hend hend']

/-- A run of related neighbours that no element goes before or after. -/
structure Maximal (u : Run α) (R : α → α → Prop) : Prop where
  related : u.elements.IsChain R
  opens : ∀ x, ¬R x u.first
  closes : ∀ x, ¬R u.last x

namespace Maximal

variable {R : α → α → Prop} {a b : List α} {x : α}

theorem onward (h : u.Maximal R) (hsplit : u.elements = a ++ x :: b) :
    (x :: b).IsChain R ∧ ∀ y ∈ (x :: b).getLast?, ∀ z, ¬R y z := by
  refine ⟨h.related.suffix ⟨a, hsplit.symm⟩, fun y hy => ?_⟩
  rw [← List.getLast?_append_of_ne_nil a (List.cons_ne_nil x b), ← hsplit, getLast?_elements,
    Option.mem_some_iff] at hy
  exact hy ▸ h.closes

theorem backward (h : u.Maximal R) (hsplit : u.elements = a ++ x :: b) :
    (x :: a.reverse).IsChain (fun y z => R z y) ∧
      ∀ y ∈ (x :: a.reverse).getLast?, ∀ z, ¬R z y := by
  have hsplit' : u.elements = (x :: a.reverse).reverse ++ b := by simp [hsplit]
  refine ⟨?_, fun y hy => ?_⟩
  · rw [← List.isChain_reverse]
    exact h.related.prefix ⟨b, hsplit'.symm⟩
  · rw [← List.head?_reverse] at hy
    have hfirst : u.elements.head? = some y := by
      rw [hsplit', List.head?_append_of_ne_nil _ (by simp)]
      exact hy
    obtain rfl : u.first = y := Option.some.inj hfirst
    exact h.opens

/-- Where neighbours tell each other, a common element makes two maximal runs one. -/
theorem eq (hunique : Relator.BiUnique R) (hu : u.Maximal R) (hv : v.Maximal R)
    (hxu : x ∈ u.elements) (hxv : x ∈ v.elements) : u = v := by
  obtain ⟨a, b, hab⟩ := List.append_of_mem hxu
  obtain ⟨a', b', hab'⟩ := List.append_of_mem hxv
  have hright : b = b' :=
    eq_of_isChain_cons hunique.2 (hu.onward hab).1 (hv.onward hab').1 (hu.onward hab).2
      (hv.onward hab').2
  have hflip : Relator.RightUnique fun y z => R z y := fun _ _ _ h h' => hunique.1 h h'
  have hleft : a.reverse = a'.reverse :=
    eq_of_isChain_cons hflip (hu.backward hab).1
      (hv.backward hab').1 (hu.backward hab).2 (hv.backward hab').2
  apply elements_injective
  rw [hab, hab', hright, List.reverse_injective hleft]

end Maximal

end Run

end Kouetsu
