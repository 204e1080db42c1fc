import Kouetsu.Proofs.Exclusion.Filter
/-!
# Values that are no patterns

A filter passes over a text with a fault in it.  Any other value that is no pattern ends detection,
and the filter answers the text as it is: then whatever the other patterns and the other passes
would have found is lost.
-/

namespace Kouetsu

def Faulty (characters : CharacterNames) (v : Value) : Prop :=
  ∃ source f offset, v = .str source ∧ Pattern.compile characters source = .error (.fault f offset)

namespace Detection

variable {t : Text} {cfg : FilterConfig} {characters : CharacterNames} {v : Value}

theorem customCandidates?_of_faulty (h : Faulty characters v) (t : Text) :
    customCandidates? characters t v = some [] := by
  obtain ⟨source, f, offset, rfl, hsource⟩ := h
  simp [customCandidates?, hsource]

theorem customCandidates?_eq_none_iff :
    customCandidates? characters t v = none ↔
      ¬Compilable characters v ∧ ¬Faulty characters v := by
  constructor
  · intro hnone
    constructor
    · intro h
      have hsome := h.isSome_customCandidates? t
      simp [hnone] at hsome
    · intro h
      simp [customCandidates?_of_faulty h] at hnone
  · rintro ⟨hcompile, hfault⟩
    unfold customCandidates?
    split
    · next p => exact absurd (.pattern p) hcompile
    · next source =>
        split
        · next p hp => exact absurd (.text hp) hcompile
        · next f offset hf => exact absurd ⟨source, f, offset, rfl, hf⟩ hfault
        · rfl
    · rfl

/-- Detection fails for a value that is neither a pattern nor a faulty text, and for no other
reason. -/
theorem run?_eq_none_iff :
    run? t cfg = none ↔
      ∃ v ∈ cfg.custom, ¬Compilable cfg.characters v ∧ ¬Faulty cfg.characters v := by
  rw [run?, Option.map_eq_none_iff, ← Option.not_isSome_iff_eq_none, isSome_mapM_iff]
  simp only [not_forall, Option.not_isSome_iff_eq_none, customCandidates?_eq_none_iff, exists_prop]

theorem detect?_eq_none_iff :
    detect? t cfg = none ↔
      ∃ v ∈ cfg.custom, ¬Compilable cfg.characters v ∧ ¬Faulty cfg.characters v := by
  rw [detect?, Option.map_eq_none_iff, run?_eq_none_iff]

theorem run?_eq_of_ne_none (h : run? t cfg ≠ none) :
    run? t cfg = some (runWith t cfg.switches (customCandidates t cfg)) := by
  obtain ⟨d, hd⟩ := Option.ne_none_iff_exists'.mp h
  rw [hd, run?_eq_some hd]

end Detection

end Kouetsu
