import Kouetsu.Proofs.Json.Read
/-!
# Documents

Whatever is read from a JSON text holds scalars of JSON only, and its mappings have distinct texts
as keys.  So it can be written again.
-/

namespace Kouetsu

namespace Json

/-- Nodes that may be read from a JSON text. -/
inductive Node.IsDocument : Node → Prop
  | leaf {l : Leaf} (hl : unwritableKind? l.shown = none) : IsDocument (.leaf l)
  | list {items : List Node} (hitems : ∀ n ∈ items, IsDocument n) : IsDocument (.list items)
  | map {entries : Entries LooseText Node} (hkeys : entries.keys.Nodup)
      (hnodes : ∀ x ∈ entries, IsDocument x.2) :
      IsDocument (.map (entries.map fun x => (.ofText x.1, x.2)))

theorem Node.isDocument_text (t : LooseText) : (text t).IsDocument :=
  .leaf (by rw [Leaf.shown_ofText]; rfl)

theorem isDocument_of_magnitude {negative : Bool} {t rest : Text} {n : Node}
    (h : magnitude negative t = .ok (n, rest)) : n.IsDocument := by
  unfold magnitude at h
  simp only at h
  split at h
  · contradiction
  · split at h
    · split at h
      · contradiction
      · rw [← (Prod.mk.inj (Except.ok.inj h)).1]
        exact .leaf rfl
    · rw [← (Prod.mk.inj (Except.ok.inj h)).1]
      exact .leaf rfl

theorem isDocument_of_word? {t rest : Text} {n : Node} (h : word? t = some (n, rest)) :
    n.IsDocument := by
  obtain ⟨⟨w, u⟩, hmem, hfound⟩ := List.exists_of_findSome?_eq_some h
  simp only at hfound
  split at hfound
  · rw [← (Prod.mk.inj (Option.some.inj hfound)).1]
    simp only [List.mem_cons, List.not_mem_nil, or_false, Prod.mk.injEq] at hmem
    rcases hmem with ⟨_, rfl⟩ | ⟨_, rfl⟩ | ⟨_, rfl⟩ | ⟨_, rfl⟩ | ⟨_, rfl⟩ | ⟨_, rfl⟩ <;>
      exact .leaf rfl
  · contradiction

/-- What is read with some fuel, by itself or as the rest of a list or mapping. -/
structure ReadsDocuments (fuel : Nat) : Prop where
  value : ∀ {t rest : Text} {n : Node}, Json.value fuel t = .ok (n, rest) → n.IsDocument
  items : ∀ {acc : List Node} {t rest : Text} {n : Node}, (∀ a ∈ acc, a.IsDocument) →
    Json.items fuel acc t = .ok (n, rest) → n.IsDocument
  members : ∀ {acc : Entries LooseText Node} {t rest : Text} {n : Node}, acc.keys.Nodup →
    (∀ x ∈ acc, x.2.IsDocument) →
      Json.members fuel (acc.map fun x => (.ofText x.1, x.2)) t = .ok (n, rest) → n.IsDocument

namespace ReadsDocuments

variable {fuel : Nat} {t rest : Text} {n : Node}

theorem value_succ (ih : ReadsDocuments fuel) (h : Json.value (fuel + 1) t = .ok (n, rest)) :
    n.IsDocument := by
  have hempty : (Entries.keys ([] : Entries LooseText Node)).Nodup := List.nodup_nil
  unfold Json.value at h
  split at h
  · split at h
    · rw [← (Prod.mk.inj (Except.ok.inj h)).1]
      exact Node.isDocument_text _
    · contradiction
  · split at h
    · rw [← (Prod.mk.inj (Except.ok.inj h)).1]
      exact .list (by simp)
    · exact ih.items (by simp) h
  · split at h
    · rw [← (Prod.mk.inj (Except.ok.inj h)).1]
      exact .map hempty (by simp)
    · exact ih.members hempty (by simp) h
  · split at h
    · next hword => exact isDocument_of_word? (hword.trans (congrArg some (Except.ok.inj h)))
    · split at h
      · exact isDocument_of_magnitude h
      · exact isDocument_of_magnitude h

theorem items_succ (ih : ReadsDocuments fuel) {acc : List Node} (hacc : ∀ a ∈ acc, a.IsDocument)
    (h : Json.items (fuel + 1) acc t = .ok (n, rest)) : n.IsDocument := by
  unfold Json.items at h
  obtain ⟨⟨u, more⟩, hu, h⟩ := bind_eq_ok.mp h
  have hacc' : ∀ a ∈ u :: acc, a.IsDocument := by
    intro a ha
    rcases List.mem_cons.mp ha with rfl | ha
    · exact ih.value hu
    · exact hacc a ha
  simp only at h
  split at h
  · exact ih.items hacc' h
  · rw [← (Prod.mk.inj (Except.ok.inj h)).1]
    exact .list fun a ha => hacc' a (List.mem_reverse.mp ha)
  · contradiction

theorem members_succ (ih : ReadsDocuments fuel) {acc : Entries LooseText Node}
    (hkeys : acc.keys.Nodup) (hacc : ∀ x ∈ acc, x.2.IsDocument)
    (h : Json.members (fuel + 1) (acc.map fun x => (.ofText x.1, x.2)) t = .ok (n, rest)) :
    n.IsDocument := by
  unfold Json.members at h
  split at h
  · split at h
    · contradiction
    · next key _ _ =>
        split at h
        · obtain ⟨⟨u, more⟩, hu, h⟩ := bind_eq_ok.mp h
          have hkeys' := Entries.nodup_keys_insert hkeys key u
          have hacc' : ∀ x ∈ acc.insert key u, x.2.IsDocument := by
            intro x hx
            rcases Entries.mem_insert hx with rfl | hx
            · exact ih.value hu
            · exact hacc x hx
          have hinsert := Entries.insert_map_injective Leaf.ofText_injective id acc key u
          simp only [id_eq] at hinsert
          simp only [hinsert] at h
          split at h
          · exact ih.members hkeys' hacc' h
          · rw [← (Prod.mk.inj (Except.ok.inj h)).1]
            exact .map hkeys' hacc'
          · contradiction
        · contradiction
  · contradiction

end ReadsDocuments

theorem readsDocuments (fuel : Nat) : ReadsDocuments fuel := by
  induction fuel with
  | zero => exact ⟨by simp [Json.value], by simp [Json.items], by simp [Json.members]⟩
  | succ fuel ih => exact ⟨ih.value_succ, ih.items_succ, ih.members_succ⟩

theorem isDocument_of_readNode {t : Text} {n : Node} (h : readNode t = .ok n) : n.IsDocument := by
  obtain ⟨⟨u, rest⟩, hu, h⟩ := bind_eq_ok.mp h
  simp only at h
  split at h
  · exact Except.ok.inj h ▸ (readsDocuments _).value hu
  · contradiction

/-! ## Nodes that can be written -/

theorem firstUnwritable?_shown_list {items : List Node} :
    firstUnwritable? (Node.list items).shown = none ↔
      ∀ n ∈ items, firstUnwritable? n.shown = none := by
  rw [Node.shown_list, firstUnwritable?_list, List.forall_mem_map]

theorem firstUnwritable?_shown_record {entries : Entries String Node} :
    firstUnwritable? (Node.record entries).shown = none ↔
      ∀ x ∈ entries, firstUnwritable? x.2.shown = none := by
  rw [Node.shown_record, firstUnwritable?_record, List.forall_mem_map]

theorem firstUnwritable?_shown_texts {entries : Entries LooseText Node} :
    firstUnwritable? (Node.map (entries.map fun x => (.ofText x.1, x.2))).shown = none ↔
      ∀ x ∈ entries, firstUnwritable? x.2.shown = none := by
  have hkeys : (entries.map fun x => (Leaf.ofText x.1, x.2)).map
      (fun x : Leaf × Node => (x.1.shown, x.2.shown)) =
        (entries.map fun x => (x.1.shown, x.2.shown)).map fun x => (.str x.1, x.2) := by
    simp only [List.map_map, Function.comp_def, Leaf.shown_ofText]
  rw [Node.shown_map, hkeys]
  exact firstUnwritable?_record.trans List.forall_mem_map

theorem firstUnwritable?_of_isDocument {n : Node} (hn : n.IsDocument) :
    firstUnwritable? n.shown = none := by
  induction hn with
  | leaf hl => exact Option.map_eq_none_iff.mpr hl
  | list _ ih => exact firstUnwritable?_shown_list.mpr ih
  | map _ _ ih => exact firstUnwritable?_shown_texts.mpr ih

end Json

end Kouetsu
