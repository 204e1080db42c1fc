import Kouetsu.Entries
import Mathlib.Data.List.Nodup
/-!
# Members of entries

What is written to entries is in them, and every other key keeps its value.  Distinct keys stay
distinct.
-/

namespace Kouetsu

namespace Entries

theorem keys_map {ι α β : Type} (key : ι → α) (f : ι → β) (is : List ι) :
    keys (is.map fun i => (key i, f i)) = is.map key := by
  rw [keys, List.map_map]
  rfl

variable {α β : Type} [DecidableEq α] {e old new : Entries α β} {k : α} {v : β} {x : α × β}

theorem mem_insert (h : x ∈ e.insert k v) : x = (k, v) ∨ x ∈ e := by
  induction e with
  | nil =>
      rw [insert, List.mem_singleton] at h
      exact Or.inl h
  | cons y rest ih =>
      rw [insert] at h
      split at h
      · rcases List.mem_cons.mp h with h | h
        · exact Or.inl h
        · exact Or.inr (List.mem_cons_of_mem y h)
      · rcases List.mem_cons.mp h with rfl | h
        · exact Or.inr List.mem_cons_self
        · exact (ih h).imp_right (List.mem_cons_of_mem y)

theorem mem_insert_self (e : Entries α β) (k : α) (v : β) : (k, v) ∈ e.insert k v := by
  induction e with
  | nil => exact List.mem_singleton_self _
  | cons y rest ih =>
      rw [insert]
      split
      · exact List.mem_cons_self
      · exact List.mem_cons_of_mem y ih

theorem mem_insert_iff (he : e.keys.Nodup) :
    x ∈ e.insert k v ↔ x = (k, v) ∨ (x.1 ≠ k ∧ x ∈ e) := by
  induction e with
  | nil => simp [insert]
  | cons y rest ih =>
      obtain ⟨hy, hrest⟩ : y.1 ∉ keys rest ∧ (keys rest).Nodup := List.nodup_cons.mp he
      rw [insert]
      split
      · next heq =>
          have hne (h : x ∈ rest) : x.1 ≠ k := fun hx =>
            hy (heq ▸ hx ▸ List.mem_map_of_mem h)
          rw [List.mem_cons, List.mem_cons]
          constructor
          · exact fun h => h.imp_right fun h => ⟨hne h, Or.inr h⟩
          · rintro (h | ⟨hxk, rfl | h⟩)
            · exact Or.inl h
            · exact absurd heq hxk
            · exact Or.inr h
      · next hne =>
          rw [List.mem_cons, List.mem_cons, ih hrest]
          constructor
          · rintro (rfl | h | h)
            · exact Or.inr ⟨hne, Or.inl rfl⟩
            · exact Or.inl h
            · exact Or.inr ⟨h.1, Or.inr h.2⟩
          · rintro (h | ⟨hxk, h | h⟩)
            · exact Or.inr (Or.inl h)
            · exact Or.inl h
            · exact Or.inr (Or.inr ⟨hxk, h⟩)

theorem nodup_keys_insert (he : e.keys.Nodup) (k : α) (v : β) : (e.insert k v).keys.Nodup := by
  rw [keys_insert]
  split
  · exact he
  · next hk =>
      exact List.nodup_append.mpr ⟨he, List.nodup_singleton k, fun a ha b hb hab =>
        hk (List.mem_singleton.mp hb ▸ hab ▸ ha)⟩

theorem insert_of_not_mem (hk : k ∉ e.keys) (v : β) : e.insert k v = e ++ [(k, v)] := by
  induction e with
  | nil => rfl
  | cons y rest ih =>
      rw [keys, List.map_cons, List.mem_cons, not_or] at hk
      rw [insert, if_neg (Ne.symm hk.1), ih hk.2]
      rfl

/-- Keys that are put in the place of others, one for one, keep the order. -/
theorem insert_map_injective {γ δ : Type} [DecidableEq γ] {key : α → γ}
    (hkey : Function.Injective key) (f : β → δ) (e : Entries α β) (k : α) (v : β) :
    insert (key k) (f v) (e.map fun x => (key x.1, f x.2)) =
      (e.insert k v).map fun x => (key x.1, f x.2) := by
  induction e with
  | nil => rfl
  | cons y rest ih =>
      rw [List.map_cons, insert, insert, ih]
      by_cases hy : y.1 = k
      · rw [if_pos (congrArg key hy), if_pos hy, List.map_cons]
      · rw [if_neg fun h => hy (hkey h), if_neg hy, List.map_cons]

theorem get?_eq_some_of_mem (he : e.keys.Nodup) (h : (k, v) ∈ e) : e.get? k = some v := by
  induction e with
  | nil => simp at h
  | cons y rest ih =>
      obtain ⟨hy, hrest⟩ : y.1 ∉ keys rest ∧ (keys rest).Nodup := List.nodup_cons.mp he
      rw [get?, List.find?_cons]
      rcases List.mem_cons.mp h with rfl | h
      · simp
      · have hne : y.1 ≠ k := fun heq => hy (heq ▸ List.mem_map_of_mem h)
        simpa [hne, get?] using ih hrest h

theorem mem_of_get?_eq_some (h : e.get? k = some v) : (k, v) ∈ e := by
  obtain ⟨x, hx, rfl⟩ := Option.map_eq_some_iff.mp h
  have hkey : x.1 = k := by simpa using List.find?_some hx
  exact hkey ▸ List.mem_of_find?_eq_some hx

theorem get?_insert (e : Entries α β) (k : α) (v : β) (a : α) :
    (e.insert k v).get? a = if k = a then some v else e.get? a := by
  induction e with
  | nil =>
      rw [insert, get?, List.find?_cons]
      split <;> simp_all [get?]
  | cons y rest ih =>
      rw [insert]
      by_cases hy : y.1 = k
      · rw [if_pos hy, get?, get?, List.find?_cons, List.find?_cons]
        by_cases hk : k = a <;> simp [hy, hk]
      · rw [if_neg hy, get?, get?, List.find?_cons, List.find?_cons]
        by_cases ha : y.1 = a
        · have hk : k ≠ a := fun hk => hy (ha.trans hk.symm)
          simp [ha, hk]
        · simpa [ha, get?] using ih

theorem get?_erase (e : Entries α β) (k a : α) :
    (e.erase k).get? a = if k = a then none else e.get? a := by
  rw [get?, erase, List.find?_filter]
  by_cases hk : k = a
  · rw [if_pos hk, Option.map_eq_none_iff, List.find?_eq_none]
    intro x _
    simp [hk]
  · rw [if_neg hk, get?]
    congr 2
    funext x
    by_cases hx : x.1 = a
    · simp [hx, Ne.symm hk]
    · simp [hx]

theorem get?_cons (x : α × β) (rest : Entries α β) (a : α) :
    get? (x :: rest) a = if x.1 = a then some x.2 else get? rest a := by
  rw [get?, List.find?_cons]
  by_cases hx : x.1 = a <;> simp [hx, get?]

theorem get?_append (xs ys : Entries α β) (k : α) :
    get? (xs ++ ys) k = (get? xs k).or (get? ys k) := by
  rw [get?, List.find?_append, Option.map_or]
  rfl

theorem get?_eq_none : e.get? k = none ↔ k ∉ e.keys := by
  rw [get?, Option.map_eq_none_iff, List.find?_eq_none, keys, List.mem_map, not_exists]
  simp only [decide_eq_true_eq, not_and]

theorem mem_keys_of_get? (h : e.get? k = some v) : k ∈ e.keys :=
  List.mem_map_of_mem (mem_of_get?_eq_some h)

/-- Entries are told by the order of their keys and what is found under them. -/
theorem ext_get? {e' : Entries α β} (he : e.keys.Nodup) (hkeys : e'.keys = e.keys)
    (h : ∀ k ∈ e.keys, e'.get? k = e.get? k) : e' = e := by
  induction e generalizing e' with
  | nil => exact List.map_eq_nil_iff.mp hkeys
  | cons y rest ih =>
      obtain ⟨hy, hrest⟩ : y.1 ∉ keys rest ∧ (keys rest).Nodup := List.nodup_cons.mp he
      cases e' with
      | nil => cases hkeys
      | cons y' rest' =>
          obtain ⟨hkey, hkeys⟩ : y'.1 = y.1 ∧ keys rest' = keys rest := List.cons.inj hkeys
          have hvalue := h y.1 List.mem_cons_self
          rw [get?_cons, get?_cons, if_pos hkey, if_pos rfl, Option.some.injEq] at hvalue
          rw [Prod.ext hkey hvalue, ih hrest hkeys fun k hk => ?_]
          have hne : y.1 ≠ k := fun heq => hy (heq ▸ hk)
          simpa only [get?_cons, hkey, if_neg hne] using h k (List.mem_cons_of_mem _ hk)

theorem get?_map {ι : Type} (key : ι → α) (f : ι → β) (is : List ι) (k : α) :
    get? (is.map fun i => (key i, f i)) k = (is.find? (key · = k)).map f := by
  rw [get?, List.find?_map, Option.map_map]
  rfl

theorem insert_append (xs ys : Entries α β) (k : α) (v : β) :
    insert k v (xs ++ ys) = if k ∈ keys xs then insert k v xs ++ ys else xs ++ insert k v ys := by
  induction xs with
  | nil => rfl
  | cons y xs ih =>
      have hkeys : k ∈ keys (y :: xs) ↔ k = y.1 ∨ k ∈ keys xs := List.mem_cons
      rw [List.cons_append, insert, insert, ih]
      by_cases hy : y.1 = k
      · rw [if_pos hy, if_pos hy, if_pos (hkeys.mpr (Or.inl hy.symm)), List.cons_append]
      · rw [if_neg hy, if_neg hy]
        by_cases hk : k ∈ keys xs
        · rw [if_pos hk, if_pos (hkeys.mpr (Or.inr hk)), List.cons_append]
        · rw [if_neg hk, if_neg fun h => (hkeys.mp h).elim (fun h => hy h.symm) hk,
            List.cons_append]

theorem insert_map {ι : Type} [DecidableEq ι] {key : ι → α} {is : List ι}
    (h : (is.map key).Nodup) {i : ι} (hi : i ∈ is) (f : ι → β) (v : β) :
    insert (key i) v (is.map fun j => (key j, f j)) =
      is.map fun j => (key j, if j = i then v else f j) := by
  induction is with
  | nil => contradiction
  | cons j is ih =>
      obtain ⟨hj, hnodup⟩ := List.nodup_cons.mp h
      rw [List.map_cons, List.map_cons, insert]
      rcases List.mem_cons.mp hi with rfl | hi
      · rw [if_pos rfl, if_pos rfl]
        refine congrArg _ (List.map_congr_left fun j hj' => ?_)
        have hne : j ≠ i := by
          rintro rfl
          exact hj (List.mem_map_of_mem hj')
        rw [if_neg hne]
      · have hne : key j ≠ key i := fun heq => hj (heq ▸ List.mem_map_of_mem hi)
        have hji : j ≠ i := fun heq => hne (congrArg key heq)
        rw [if_neg hne, ih hnodup hi, if_neg hji]

theorem insert_map_append {ι : Type} [DecidableEq ι] {key : ι → α} {is : List ι}
    (h : (is.map key).Nodup) {i : ι} (hi : i ∈ is) (f : ι → β) (v : β) (rest : Entries α β) :
    insert (key i) v ((is.map fun j => (key j, f j)) ++ rest) =
      (is.map fun j => (key j, if j = i then v else f j)) ++ rest := by
  rw [insert_append, keys_map, if_pos (List.mem_map_of_mem hi), insert_map h hi]

theorem mem_merge (h : x ∈ merge old new) : x ∈ new ∨ x ∈ old := by
  induction new generalizing old with
  | nil => exact Or.inr h
  | cons y new ih =>
      rcases ih h with h | h
      · exact Or.inl (List.mem_cons_of_mem y h)
      · rcases mem_insert h with rfl | h
        · exact Or.inl List.mem_cons_self
        · exact Or.inr h

theorem nodup_keys_merge (hold : old.keys.Nodup) (new : Entries α β) :
    (merge old new).keys.Nodup := by
  induction new generalizing old with
  | nil => exact hold
  | cons y new ih => exact ih (nodup_keys_insert hold y.1 y.2)

theorem nodup_keys_ofList (xs : List (α × β)) : (ofList xs).keys.Nodup :=
  nodup_keys_merge (show (keys ([] : Entries α β)).Nodup from List.nodup_nil) xs

theorem mem_merge_iff (hold : old.keys.Nodup) (hnew : new.keys.Nodup) :
    x ∈ merge old new ↔ x ∈ new ∨ (x.1 ∉ new.keys ∧ x ∈ old) := by
  induction new generalizing old with
  | nil => simp [merge, keys]
  | cons y new ih =>
      obtain ⟨hy, hnew⟩ : y.1 ∉ keys new ∧ (keys new).Nodup := List.nodup_cons.mp hnew
      have hmem : x ∈ new → x.1 ≠ y.1 := fun h hx => hy (hx ▸ List.mem_map_of_mem h)
      rw [show merge old (y :: new) = merge (old.insert y.1 y.2) new from rfl,
        ih (nodup_keys_insert hold y.1 y.2) hnew, mem_insert_iff hold, keys, keys, List.map_cons]
      simp only [List.mem_cons, not_or]
      constructor
      · rintro (h | ⟨hx, rfl | ⟨hne, h⟩⟩)
        · exact Or.inl (Or.inr h)
        · exact Or.inl (Or.inl rfl)
        · exact Or.inr ⟨⟨hne, hx⟩, h⟩
      · rintro ((rfl | h) | ⟨⟨hne, hx⟩, h⟩)
        · exact Or.inr ⟨hy, Or.inl rfl⟩
        · exact Or.inl h
        · exact Or.inr ⟨hx, Or.inr ⟨hne, h⟩⟩

/-- Entries whose keys are distinct are what writing them one by one makes. -/
theorem ofList_of_nodup (he : e.keys.Nodup) : ofList e = e := by
  suffices h : ∀ old : Entries α β, (old ++ e).keys.Nodup → merge old e = old ++ e from h [] he
  intro old hkeys
  induction e generalizing old with
  | nil => simp [merge]
  | cons y rest ih =>
      have hy : y.1 ∉ old.keys := fun hmem => by
        rw [keys, List.map_append, List.map_cons] at hkeys
        exact (List.nodup_append.mp hkeys).2.2 _ hmem _ List.mem_cons_self rfl
      rw [show merge old (y :: rest) = merge (old.insert y.1 y.2) rest from rfl,
        insert_of_not_mem hy, ih, List.append_assoc]
      · rfl
      · exact (List.nodup_cons.mp he).2
      · rwa [List.append_assoc]

end Entries

end Kouetsu
