import Kouetsu.Issue
import Kouetsu.Proofs.Json.Read
import Kouetsu.Proofs.Traverse
/-!
# Records of issues

Every record of an issue is read back, with the texts of its suggestions.  So an issue whose
suggestions are texts comes back as it is.
-/

namespace Kouetsu

namespace Issue

structure Plain (i : Issue) : Prop where
  file : ∃ t, i.file = .text t
  suggestions : ∃ texts : List String, i.diagnostic.suggestions = texts.map .str

theorem storable_position (p : Position) : p.toValue.Storable := by
  refine .record (show ["line", "character"].Nodup by decide) fun x hx => ?_
  simp only [List.mem_cons, List.not_mem_nil, or_false] at hx
  rcases hx with rfl | rfl <;> exact .int _

theorem storable_range (r : Range) : r.toValue.Storable := by
  refine .record (show ["start", "end"].Nodup by decide) fun x hx => ?_
  simp only [List.mem_cons, List.not_mem_nil, or_false] at hx
  rcases hx with rfl | rfl <;> exact storable_position _

theorem Plain.storable_toNode {i : Issue} (h : i.Plain) : i.toNode.Storable := by
  obtain ⟨file, ⟨code, message, range, severity, source, suggestions⟩, snippet⟩ := i
  obtain ⟨⟨path, rfl⟩, ⟨texts, rfl⟩⟩ := h
  refine .record ?_ fun x hx => ?_
  · cases texts with
    | nil => exact (by decide :
        ["file", "code", "message", "severity", "range", "source", "snippet"].Nodup)
    | cons _ _ => exact (by decide : ["file", "code", "message", "severity", "range", "source",
        "suggestions", "snippet"].Nodup)
  · simp only [List.mem_append, List.mem_singleton] at hx
    rcases hx with (rfl | hx) | rfl
    · exact .text path
    · obtain ⟨y, hy, rfl⟩ := List.mem_map.mp hx
      apply Json.Node.storable_ofValue
      simp only [Diagnostic.entries, List.mem_append, List.mem_cons, List.not_mem_nil,
        or_false] at hy
      rcases hy with (rfl | rfl | rfl | rfl | rfl) | hy
      · exact .str code
      · exact .str message
      · exact .int _
      · exact storable_range range
      · exact .str source
      · split at hy
        · simp at hy
        · obtain rfl := List.mem_singleton.mp hy
          refine .list fun v hv => ?_
          obtain ⟨s, _, rfl⟩ := List.mem_map.mp hv
          exact .str s
    · exact .str snippet

theorem exists_ofValue_eq_toNode_iff {i : Issue} :
    (∃ v, .ofValue v = i.toNode) ↔ ∃ v, .ofValue v = i.file := by
  rw [toNode, Json.Node.exists_ofValue_eq_record_iff]
  simp only [List.forall_mem_append, List.forall_mem_singleton, List.forall_mem_map]
  refine ⟨fun h => h.1.1, fun h => ⟨⟨h, fun x _ => ⟨x.2, rfl⟩⟩, .str i.snippet, rfl⟩⟩

def SuggestsTexts (i : Issue) : Prop := ∀ v ∈ i.diagnostic.suggestions, ∃ s, v = .str s

theorem Plain.suggestsTexts {i : Issue} (h : i.Plain) : i.SuggestsTexts := by
  obtain ⟨texts, htexts⟩ := h.suggestions
  intro v hv
  rw [htexts] at hv
  obtain ⟨s, _, rfl⟩ := List.mem_map.mp hv
  exact ⟨s, rfl⟩

def readBack (i : Issue) : Issue :=
  { i with diagnostic := { i.diagnostic with
      suggestions := i.diagnostic.suggestions.map fun v => .str v.text } }

theorem suggestions_of_toNode (i : Issue) :
    ((i.toNode.get? "suggestions").getD (.list [])).shown = .list i.diagnostic.suggestions := by
  obtain ⟨file, ⟨code, message, range, severity, source, suggestions⟩, snippet⟩ := i
  cases suggestions with
  | nil => rfl
  | cons v suggestions => exact Json.Node.shown_ofValue (.list (v :: suggestions))

theorem ofNode_toNode (i : Issue) : ofNode i.toNode = .ok i.readBack := by
  have hread : ofNode i.toNode = (memberTexts
      ((i.toNode.get? "suggestions").getD (.list [])).shown).map fun texts =>
        { i with diagnostic := { i.diagnostic with suggestions := texts.map .str } } := by
    obtain ⟨file, ⟨code, message, range, severity, source, suggestions⟩, snippet⟩ := i
    cases suggestions <;> cases severity <;> rfl
  rw [hread, suggestions_of_toNode, memberTexts, Except.map, readBack]
  simp only [List.map_map, Function.comp_def]

theorem readBack_eq_self_iff {i : Issue} : i.readBack = i ↔ i.SuggestsTexts := by
  obtain ⟨file, ⟨code, message, range, severity, source, suggestions⟩, snippet⟩ := i
  simp only [SuggestsTexts, readBack, mk.injEq, Diagnostic.mk.injEq, true_and, and_true]
  constructor
  · intro h v hv
    rw [← h] at hv
    obtain ⟨w, _, rfl⟩ := List.mem_map.mp hv
    exact ⟨w.text, rfl⟩
  · intro h
    have hsame : ∀ v ∈ suggestions, Value.str v.text = id v := by
      intro v hv
      obtain ⟨s, rfl⟩ := h v hv
      rfl
    rw [List.map_congr_left hsame, List.map_id]

/-- The record that is read back is the same exactly if the suggestions are texts. -/
theorem exists_ofNode_toNode_iff {i : Issue} :
    (∃ j, ofNode i.toNode = .ok j ∧ j.toNode = i.toNode) ↔ i.SuggestsTexts := by
  rw [← readBack_eq_self_iff]
  constructor
  · rintro ⟨j, hj, hsame⟩
    obtain rfl := Except.ok.inj ((ofNode_toNode i).symm.trans hj)
    have hlist : Value.list i.readBack.diagnostic.suggestions =
        Value.list i.diagnostic.suggestions := by
      rw [← suggestions_of_toNode, ← suggestions_of_toNode, hsame]
    rw [readBack, show i.diagnostic.suggestions.map (fun v => Value.str v.text) =
      i.diagnostic.suggestions from Value.list.inj hlist]
  · intro h
    exact ⟨i, by rw [ofNode_toNode, h], rfl⟩

theorem SuggestsTexts.ofNode_toNode {i : Issue} (h : i.SuggestsTexts) :
    ofNode i.toNode = .ok i := by
  rw [Issue.ofNode_toNode, readBack_eq_self_iff.mpr h]

theorem mapM_ofNode_toNode {is : List Issue} (h : ∀ i ∈ is, i.SuggestsTexts) :
    (is.map toNode).mapM ofNode = .ok is := by
  induction is with
  | nil => rfl
  | cons i is ih =>
      obtain ⟨hi, his⟩ := List.forall_mem_cons.mp h
      rw [List.map_cons, List.mapM_cons, hi.ofNode_toNode, ih his]
      rfl

/-! ## Records that are read -/

end Issue

end Kouetsu
