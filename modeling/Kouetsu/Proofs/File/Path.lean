import Kouetsu.File.Path
import Kouetsu.Proofs.Text.Loose
import Kouetsu.Proofs.Text.Scan
/-!
# Normal paths

A path in its normal form is read back from its text.
-/

namespace Kouetsu

namespace Path

structure IsPart (s : LooseText) : Prop where
  nonempty : s ≠ []
  leads : s ≠ "."
  slashless : .char '/' ∉ s

instance (s : LooseText) : Decidable (IsPart s) :=
  decidable_of_iff (s ≠ [] ∧ s ≠ "." ∧ .char '/' ∉ s)
    ⟨fun ⟨hne, hdot, hslash⟩ => ⟨hne, hdot, hslash⟩,
      fun ⟨hne, hdot, hslash⟩ => ⟨hne, hdot, hslash⟩⟩

structure Normal (p : Path) : Prop where
  root : p.root = "" ∨ p.root = "/" ∨ p.root = "//"
  parts : ∀ s ∈ p.parts, IsPart s

theorem normal_ofText (t : LooseText) : (ofText t).Normal := by
  constructor
  · rw [ofText]
    simp only
    unfold rootOf
    split <;> simp
  · intro part hpart
    obtain ⟨hpart, hleads⟩ := List.mem_filter.mp hpart
    rw [Bool.and_eq_true, decide_eq_true_eq, decide_eq_true_eq] at hleads
    exact ⟨hleads.1, hleads.2, Text.not_mem_of_mem_splitOn hpart⟩

theorem Normal.append {p : Path} (h : p.Normal) {parts : List LooseText}
    (hparts : ∀ s ∈ parts, IsPart s) : Normal { p with parts := p.parts ++ parts } where
  root := h.root
  parts s hs := (List.mem_append.mp hs).elim (h.parts s) (hparts s)

def joined (parts : List LooseText) : LooseText := [CodePoint.char '/'].intercalate parts

theorem partsOf_slash (t : LooseText) : partsOf (.char '/' :: t) = partsOf t := by
  rw [partsOf, partsOf, Text.splitOn, if_pos rfl, List.filter_cons_of_neg (by simp)]

theorem partsOf_joined {parts : List LooseText} (h : ∀ s ∈ parts, IsPart s) :
    partsOf (joined parts) = parts := by
  cases parts with
  | nil => rfl
  | cons s parts =>
      rw [partsOf, joined, Text.splitOn_eq, List.splitOn_intercalate (.char '/')
        (fun t ht => (h t ht).slashless) (by simp)]
      refine List.filter_eq_self.mpr fun part hpart => ?_
      simp [(h part hpart).nonempty, (h part hpart).leads]

theorem head?_joined {parts : List LooseText} (h : ∀ s ∈ parts, IsPart s) :
    (joined parts).head? ≠ some (.char '/') := by
  cases parts with
  | nil => simp [joined]
  | cons s parts =>
      obtain ⟨c, t, rfl⟩ := List.exists_cons_of_ne_nil (h s List.mem_cons_self).nonempty
      have hc : c ≠ .char '/' := by
        rintro rfl
        exact (h _ List.mem_cons_self).slashless List.mem_cons_self
      have hhead : (joined ((c :: t) :: parts)).head? = some c := by
        cases parts <;> simp [joined]
      rw [hhead]
      simpa using hc

theorem rootOf_of_head? {t : LooseText} (h : t.head? ≠ some (.char '/')) :
    rootOf t = "" ∧ rootOf (.char '/' :: t) = "/" ∧
      rootOf (.char '/' :: .char '/' :: t) = "//" := by
  cases t with
  | nil => exact ⟨rfl, rfl, rfl⟩
  | cons c t =>
      have hc : c ≠ .char '/' := by simpa using h
      simp [rootOf, hc]

theorem ofText_text {p : Path} (h : p.Normal) : ofText p.text = p := by
  obtain ⟨root, parts⟩ := p
  obtain ⟨hroot, hparts⟩ := h
  obtain ⟨hempty, hslash, hslashes⟩ := rootOf_of_head? (head?_joined hparts)
  by_cases hdot : (root = "" && parts.isEmpty) = true
  · rw [Bool.and_eq_true, decide_eq_true_eq, List.isEmpty_iff] at hdot
    obtain ⟨rfl, rfl⟩ := hdot
    rfl
  · have htext : text ⟨root, parts⟩ = .ofString root ++ joined parts := if_neg hdot
    rw [ofText, htext]
    rcases hroot with rfl | rfl | rfl
    · rw [LooseText.ofString_empty, List.nil_append, hempty, partsOf_joined hparts]
    · rw [show LooseText.ofString "/" ++ joined parts = .char '/' :: joined parts from rfl, hslash,
        partsOf_slash, partsOf_joined hparts]
    · rw [show LooseText.ofString "//" ++ joined parts = .char '/' :: .char '/' :: joined parts
          from rfl, hslashes, partsOf_slash, partsOf_slash, partsOf_joined hparts]

end Path

end Kouetsu
