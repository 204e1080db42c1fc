import Kouetsu.Json.Printer
import Kouetsu.Proofs.Json.Write
import Kouetsu.Proofs.Text.Loose
import Mathlib.Data.Set.List
/-!
# Nodes without lone halves

A node whose text has an encoding is the node of a value, and its text is the text of the value.
-/

namespace Kouetsu

namespace Json

namespace Leaf

@[simp] theorem ofText_ofString (s : String) : ofText s = .plain (.str s) := by
  unfold ofText
  split
  · next t ht => rw [Option.some.inj ((LooseText.string?_ofString s).symm.trans ht)]
  · next ht => exact absurd ((LooseText.string?_ofString s).symm.trans ht) (by simp)

theorem ofText_val (t : { t : LooseText // t.string? = none }) : ofText t.val = .loose t := by
  unfold ofText
  split
  · next s hs => exact absurd (t.property.symm.trans hs) (by simp)
  · rfl

@[simp] theorem text?_ofText (t : LooseText) : (ofText t).text? = some t := by
  unfold ofText
  split
  · next s hs => exact congrArg some (LooseText.string?_eq_some.mp hs).symm
  · rfl

@[simp] theorem shown_ofText (t : LooseText) : (ofText t).shown = .str t.shown := by
  unfold ofText
  split
  · next s hs => rw [LooseText.string?_eq_some.mp hs, LooseText.shown_ofString, shown]
  · rfl

theorem ofText_injective : Function.Injective ofText := fun s t h =>
  Option.some.inj (by rw [← text?_ofText s, h, text?_ofText])

theorem exists_plain_eq_ofText_iff {t : LooseText} :
    (∃ s, .plain s = ofText t) ↔ ∃ s : String, t = s := by
  constructor
  · rintro ⟨s, hs⟩
    have htext := text?_ofText t
    rw [← hs] at htext
    cases s with
    | str s => exact ⟨s, (Option.some.inj htext).symm⟩
    | _ => contradiction
  · rintro ⟨s, rfl⟩
    exact ⟨.str s, (ofText_ofString s).symm⟩

end Leaf

namespace Node

theorem inductionOn {motive : Node → Prop} (n : Node) (leaf : ∀ l, motive (.leaf l))
    (list : ∀ items, (∀ n ∈ items, motive n) → motive (.list items))
    (map : ∀ entries, (∀ x ∈ entries, motive x.2) → motive (.map entries)) : motive n :=
  match n with
  | .leaf l => leaf l
  | .list items => list items fun n _ => n.inductionOn leaf list map
  | .map entries => map entries fun x _ => x.2.inductionOn leaf list map
termination_by n
decreasing_by
  · have := List.sizeOf_lt_of_mem ‹n ∈ items›
    simp only [Node.list.sizeOf_spec]
    omega
  · have := List.sizeOf_lt_of_mem ‹x ∈ entries›
    have : sizeOf x = 1 + sizeOf x.1 + sizeOf x.2 := rfl
    simp only [Node.map.sizeOf_spec]
    omega

@[simp] theorem text_ofString (s : String) : text s = .str s := by
  rw [text, Leaf.ofText_ofString]

@[simp] theorem ofValue_list (items : List Value) :
    ofValue (.list items) = .list (items.map ofValue) := by
  rw [ofValue]
  congr 1
  induction items with
  | nil => rfl
  | cons v items ih => rw [ofValue.ofItems, ih, List.map_cons]

theorem ofValue_map (entries : List (Scalar × Value)) :
    ofValue (.map entries) = .map (entries.map fun (k, v) => (.plain k, ofValue v)) := by
  rw [ofValue]
  congr 1
  induction entries with
  | nil => rfl
  | cons x entries ih => rw [ofValue.ofEntries, ih, List.map_cons]

@[simp] theorem ofValue_record (entries : Entries String Value) :
    ofValue (.record entries) = .record (entries.map fun (k, v) => (k, ofValue v)) := by
  rw [Value.record, ofValue_map, record, List.map_map, List.map_map]
  rfl

theorem shown_list (items : List Node) : (list items).shown = .list (items.map shown) := by
  rw [shown]
  congr 1
  induction items with
  | nil => rfl
  | cons n items ih => rw [shown.shownItems, ih, List.map_cons]

theorem shown_map (entries : List (Leaf × Node)) :
    (map entries).shown = .map (entries.map fun (k, n) => (k.shown, n.shown)) := by
  rw [shown]
  congr 1
  induction entries with
  | nil => rfl
  | cons x entries ih => rw [shown.shownEntries, ih, List.map_cons]

theorem shown_record (entries : Entries String Node) :
    (record entries).shown = .record (entries.map fun (k, n) => (k, n.shown)) := by
  rw [record, shown_map, Value.record, List.map_map, List.map_map]
  rfl

@[simp] theorem shown_ofValue (v : Value) : (ofValue v).shown = v := by
  induction v using Value.inductionOn with
  | scalar s => rfl
  | list items ih =>
      rw [ofValue_list, shown_list, List.map_map]
      exact congrArg _ (List.map_congr_left ih |>.trans (List.map_id items))
  | map entries ih =>
      rw [ofValue_map, shown_map, List.map_map]
      refine congrArg _ ((List.map_congr_left fun x hx => ?_).trans (List.map_id entries))
      exact Prod.ext rfl (ih x hx)

/-! ### Nodes of values -/

theorem exists_ofValue_eq_text_iff {t : LooseText} :
    (∃ v, ofValue v = text t) ↔ ∃ s : String, t = s := by
  rw [← Leaf.exists_plain_eq_ofText_iff]
  constructor
  · rintro ⟨v, hv⟩
    cases v with
    | scalar s => exact ⟨s, leaf.inj hv⟩
    | list items => contradiction
    | map entries => contradiction
  · rintro ⟨s, hs⟩
    exact ⟨.scalar s, congrArg leaf hs⟩

theorem exists_ofValue_eq_list_iff {items : List Node} :
    (∃ v, ofValue v = list items) ↔ ∀ n ∈ items, ∃ v, ofValue v = n := by
  have hrange : items ∈ Set.range (List.map ofValue) ↔ ∀ n ∈ items, ∃ v, ofValue v = n := by
    rw [Set.range_list_map]
    rfl
  rw [← hrange]
  constructor
  · rintro ⟨v, hv⟩
    cases v with
    | list vs => exact ⟨vs, list.inj ((ofValue_list vs).symm.trans hv)⟩
    | scalar s => contradiction
    | map es => contradiction
  · rintro ⟨vs, rfl⟩
    exact ⟨.list vs, ofValue_list vs⟩

theorem exists_ofValue_eq_map_iff {entries : List (Leaf × Node)} :
    (∃ v, ofValue v = map entries) ↔
      ∀ x ∈ entries, (∃ s, .plain s = x.1) ∧ ∃ v, ofValue v = x.2 := by
  have hrange : entries ∈ Set.range
      (List.map fun x : Scalar × Value => (Leaf.plain x.1, ofValue x.2)) ↔
        ∀ x ∈ entries, (∃ s, .plain s = x.1) ∧ ∃ v, ofValue v = x.2 := by
    rw [Set.range_list_map]
    refine forall₂_congr fun x _ => ?_
    obtain ⟨key, n⟩ := x
    simp
  rw [← hrange]
  constructor
  · rintro ⟨v, hv⟩
    cases v with
    | map es => exact ⟨es, map.inj ((ofValue_map es).symm.trans hv)⟩
    | scalar s => contradiction
    | list vs => contradiction
  · rintro ⟨es, rfl⟩
    exact ⟨.map es, ofValue_map es⟩

theorem exists_ofValue_eq_record_iff {entries : Entries String Node} :
    (∃ v, ofValue v = record entries) ↔ ∀ x ∈ entries, ∃ v, ofValue v = x.2 := by
  rw [record, exists_ofValue_eq_map_iff, List.forall_mem_map]
  exact forall₂_congr fun x _ => and_iff_right ⟨_, rfl⟩

end Node

/-! ## Texts of nodes -/

theorem ofString_intercalate (sep : String) (parts : List String) :
    LooseText.ofString (String.intercalate sep parts) =
      (LooseText.ofString sep).intercalate (parts.map LooseText.ofString) := by
  match parts with
  | [] => rfl
  | [p] => simp
  | p :: q :: parts =>
      rw [String.intercalate_cons_cons, List.map_cons, List.map_cons, List.intercalate_cons_cons,
        LooseText.ofString_append, LooseText.ofString_append, ofString_intercalate]
      rfl

theorem encloseLoose_map_ofString (depth : Nat) (opening closing : String) (parts : List String) :
    encloseLoose depth opening closing (parts.map LooseText.ofString) =
      enclose .indented depth opening closing parts := by
  rw [encloseLoose, enclose, List.isEmpty_map]
  split
  · rfl
  · simp only [LooseText.ofString_append, ofString_intercalate, List.append_assoc]

theorem mem_intercalate {sep : LooseText} {parts : List LooseText} {p : LooseText}
    (hp : p ∈ parts) {c : CodePoint} (hc : c ∈ p) : c ∈ sep.intercalate parts := by
  match parts with
  | [_] =>
      rw [List.intercalate_singleton]
      exact List.mem_singleton.mp hp ▸ hc
  | q :: q' :: parts =>
      rw [List.intercalate_cons_cons]
      rcases List.mem_cons.mp hp with rfl | hp
      · exact List.mem_append_left _ (List.mem_append_left _ hc)
      · exact List.mem_append_right _ (mem_intercalate hp hc)

theorem mem_encloseLoose {depth : Nat} {opening closing : String} {parts : List LooseText}
    {p : LooseText} (hp : p ∈ parts) {c : CodePoint} (hc : c ∈ p) :
    c ∈ encloseLoose depth opening closing parts := by
  rw [encloseLoose, if_neg (by simp [List.ne_nil_of_mem hp])]
  exact List.mem_append_left _ (List.mem_append_right _ (mem_intercalate hp hc))

theorem writeNode_list (depth : Nat) (items : List Node) :
    writeNode depth (.list items) =
      encloseLoose depth "[" "]" (items.map (writeNode (depth + 1))) := by
  rw [writeNode]
  congr 1
  induction items with
  | nil => rfl
  | cons n items ih => rw [writeNode.writeItems, ih, List.map_cons]

def writeNodeEntry (depth : Nat) (x : Leaf × Node) : LooseText :=
  writeLeafKey x.1 ++ .ofString ": " ++ writeNode depth x.2

theorem writeNode_map (depth : Nat) (entries : List (Leaf × Node)) :
    writeNode depth (.map entries) =
      encloseLoose depth "\x7b" "\x7d" (entries.map (writeNodeEntry (depth + 1))) := by
  rw [writeNode]
  congr 1
  induction entries with
  | nil => rfl
  | cons x entries ih =>
      rw [writeNode.writeEntries, ih, List.map_cons]
      rfl

theorem writeNode_ofValue (v : Value) (depth : Nat) :
    writeNode depth (.ofValue v) = writeAt .indented depth v := by
  induction v using Value.inductionOn generalizing depth with
  | scalar s => rfl
  | list items ih =>
      rw [Node.ofValue_list, writeNode_list, writeAt_list, ← encloseLoose_map_ofString,
        List.map_map, List.map_map]
      exact congrArg _ (List.map_congr_left fun v hv => ih v hv _)
  | map entries ih =>
      rw [Node.ofValue_map, writeNode_map, writeAt_map, ← encloseLoose_map_ofString,
        List.map_map, List.map_map]
      refine congrArg _ (List.map_congr_left fun x hx => ?_)
      simp only [Function.comp_apply, writeNodeEntry, writeEntry, LooseText.ofString_append,
        ih x hx]
      rfl

theorem mem_writeLoose {t : LooseText} {n : Fin 0x800} (h : CodePoint.half n ∈ t) :
    CodePoint.half n ∈ writeLoose t := by
  refine List.mem_append_left _ (List.mem_cons_of_mem _ (List.mem_flatMap.mpr ⟨_, h, ?_⟩))
  exact List.mem_singleton_self _

theorem exists_half_mem_writeLoose (t : { t : LooseText // t.string? = none }) :
    ∃ k, CodePoint.half k ∈ writeLoose t.val := by
  obtain ⟨k, hk⟩ := LooseText.string?_eq_none_iff.mp t.property
  exact ⟨k, mem_writeLoose hk⟩

theorem exists_ofValue_eq_of_writeNode {n : Node} {depth : Nat}
    (h : ∀ k, CodePoint.half k ∉ writeNode depth n) : ∃ v, .ofValue v = n := by
  induction n using Node.inductionOn generalizing depth with
  | leaf l =>
      cases l with
      | plain s => exact ⟨.scalar s, rfl⟩
      | loose t =>
          obtain ⟨k, hk⟩ := exists_half_mem_writeLoose t
          exact absurd hk (h k)
  | list items ih =>
      rw [writeNode_list] at h
      refine Node.exists_ofValue_eq_list_iff.mpr fun n hn => ?_
      have hitem (k : Fin 0x800) : CodePoint.half k ∉ writeNode (depth + 1) n := fun hk =>
        h k (mem_encloseLoose (List.mem_map_of_mem hn) hk)
      exact ih n hn hitem
  | map entries ih =>
      rw [writeNode_map] at h
      refine Node.exists_ofValue_eq_map_iff.mpr fun x hx => ?_
      have hentry (k : Fin 0x800) : CodePoint.half k ∉ writeNodeEntry (depth + 1) x := fun hk =>
        h k (mem_encloseLoose (List.mem_map_of_mem hx) hk)
      refine ⟨?_, ih x hx fun k hk => hentry k (List.mem_append_right _ hk)⟩
      obtain ⟨key, n⟩ := x
      cases key with
      | plain s => exact ⟨s, rfl⟩
      | loose t =>
          obtain ⟨k, hk⟩ := exists_half_mem_writeLoose t
          exact absurd (List.mem_append_left _ (List.mem_append_left _ hk)) (hentry k)

/-- The text of a node has an encoding exactly if the node is that of a value. -/
theorem encode_writeNode_eq_ok {n : Node} {s : String} :
    (writeNode 0 n).encode = .ok s ↔ ∃ v, .ofValue v = n ∧ write .indented v = s := by
  rw [LooseText.encode_eq_ok]
  constructor
  · intro h
    obtain ⟨v, rfl⟩ := exists_ofValue_eq_of_writeNode
      (LooseText.exists_eq_ofString_iff.mp ⟨s, h⟩)
    rw [writeNode_ofValue, LooseText.ofString_inj] at h
    exact ⟨v, rfl, h⟩
  · rintro ⟨v, rfl, rfl⟩
    exact writeNode_ofValue v 0

end Json

end Kouetsu
