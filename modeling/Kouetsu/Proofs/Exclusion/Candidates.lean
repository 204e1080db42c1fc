import Kouetsu.Exclusion.Detection
import Kouetsu.Proofs.Exclusion.Recogniser
import Kouetsu.Proofs.Pattern.Matcher
/-!
# Candidates of the passes

Every candidate ends inside the text, and the passes before tables offer theirs in the order of
their priorities.
-/

namespace Kouetsu

/-- The place of the pass that offers ranges of a kind.  A table and its parts share one. -/
def RangeKind.priority : RangeKind → Nat
  | .codeBlock => 0
  | .inlineCode => 1
  | .url => 2
  | .configKey => 3
  | .custom => 4
  | .table | .tableDelimiter | .tableSeparator => 5
  | .heading => 6
  | .listMarker => 7
  | .code | .commentMarker | .other _ => 8

namespace Detection

theorem mem_ifOn {b : Bool} {cs : List Candidate} {c : Candidate} :
    c ∈ ifOn b cs ↔ b = true ∧ c ∈ cs := by
  cases b <;> simp [ifOn]

theorem ifOn_sublist (b : Bool) (cs : List Candidate) : (ifOn b cs).Sublist cs := by
  cases b <;> simp [ifOn]

/-! ## Spans in the text -/

def Fit (t : Text) (cs : List Candidate) : Prop := ∀ c ∈ cs, c.span.stop ≤ t.length

theorem Fit.append {t : Text} {cs ds : List Candidate} (hc : Fit t cs) (hd : Fit t ds) :
    Fit t (cs ++ ds) := by
  intro c h
  exact (List.mem_append.mp h).elim (hc c) (hd c)

theorem Fit.ifOn {t : Text} {cs : List Candidate} (h : Fit t cs) (b : Bool) :
    Fit t (ifOn b cs) :=
  fun c hc => h c (mem_ifOn.mp hc).2

theorem fit_candidates {t : Text} {kind : RangeKind} {reason : String} {spans : List Span}
    (h : ∀ s ∈ spans, s.stop ≤ t.length) : Fit t (candidates kind reason spans) := by
  intro c hc
  obtain ⟨s, hs, rfl⟩ := List.mem_map.mp hc
  exact h s hs

theorem fit_scan {t : Text} {kind : RangeKind} {reason : String} {r : Text.Recogniser}
    (hr : Text.Bounded r) : Fit t (candidates kind reason (t.scan r)) :=
  fit_candidates fun _ hs => (Text.bounds_of_mem_scan hr hs).2

theorem fit_urlCandidates (t : Text) : Fit t (urlCandidates t) := by
  refine ((fit_scan Markup.bounded_plainUrl).append (fit_candidates ?_)).append
    (fit_candidates ?_)
  · intro s hs
    obtain ⟨s', hs', rfl⟩ := List.mem_map.mp hs
    have := (Text.bounds_of_mem_scan Markup.bounded_link hs').2
    simp only [Markup.linkTarget]
    omega
  · intro s hs
    obtain ⟨s', hs', rfl⟩ := List.mem_map.mp hs
    have := (Text.bounds_of_mem_scan Markup.bounded_autoLink hs').2
    simp only
    omega

theorem customCandidates?_eq_some {characters : CharacterNames} {t : Text} {v : Value}
    {cs : List Candidate} (h : customCandidates? characters t v = some cs) :
    cs = [] ∨ ∃ p, cs = patternCandidates t p := by
  unfold customCandidates? at h
  split at h
  · next p => exact Or.inr ⟨p, (Option.some.inj h).symm⟩
  · split at h
    · next source p _ => exact Or.inr ⟨p, (Option.some.inj h).symm⟩
    · exact Or.inl (Option.some.inj h).symm
    · contradiction
  · contradiction

theorem fit_customCandidates? {characters : CharacterNames} {t : Text} {v : Value}
    {cs : List Candidate} (h : customCandidates? characters t v = some cs) : Fit t cs := by
  rcases customCandidates?_eq_some h with rfl | ⟨p, rfl⟩
  · intro c hc
    simp at hc
  · exact fit_candidates fun s hs => (Pattern.within_of_mem_spans hs).bounded

theorem kind_of_mem_customCandidates? {characters : CharacterNames} {t : Text} {v : Value}
    {cs : List Candidate} (h : customCandidates? characters t v = some cs) :
    ∀ c ∈ cs, c.kind = .custom := by
  intro c hc
  rcases customCandidates?_eq_some h with rfl | ⟨p, rfl⟩
  · simp at hc
  · obtain ⟨s, _, rfl⟩ := List.mem_map.mp hc
    rfl

/-! ## Priorities -/

/-- Candidates whose priorities do not fall and lie between two bounds. -/
structure Ranked (low high : Nat) (cs : List Candidate) : Prop where
  ordered : cs.Pairwise fun a b => a.kind.priority ≤ b.kind.priority
  low_le : ∀ c ∈ cs, low ≤ c.kind.priority
  le_high : ∀ c ∈ cs, c.kind.priority ≤ high

theorem ranked_of_priority {n : Nat} {cs : List Candidate}
    (h : ∀ c ∈ cs, c.kind.priority = n) : Ranked n n cs where
  ordered := List.pairwise_of_forall_mem_list fun a ha b hb => by
    rw [h a ha, h b hb]
  low_le c hc := (h c hc).ge
  le_high c hc := (h c hc).le

theorem ranked_candidates (kind : RangeKind) (reason : String) (spans : List Span) :
    Ranked kind.priority kind.priority (candidates kind reason spans) := by
  apply ranked_of_priority
  intro c hc
  obtain ⟨s, _, rfl⟩ := List.mem_map.mp hc
  rfl

theorem Ranked.append {a b b' c : Nat} {cs ds : List Candidate} (hc : Ranked a b cs)
    (hd : Ranked b' c ds) (hab : a ≤ b') (hb : b ≤ b') (hbc : b ≤ c) : Ranked a c (cs ++ ds) where
  ordered := List.pairwise_append.mpr ⟨hc.ordered, hd.ordered, fun x hx y hy =>
    Nat.le_trans (hc.le_high x hx) (Nat.le_trans hb (hd.low_le y hy))⟩
  low_le x hx := (List.mem_append.mp hx).elim (hc.low_le x)
    fun hx => Nat.le_trans hab (hd.low_le x hx)
  le_high x hx := (List.mem_append.mp hx).elim
    (fun hx => Nat.le_trans (hc.le_high x hx) hbc) (hd.le_high x)

theorem Ranked.ifOn {low high : Nat} {cs : List Candidate} (h : Ranked low high cs) (b : Bool) :
    Ranked low high (ifOn b cs) where
  ordered := h.ordered.sublist (ifOn_sublist b cs)
  low_le c hc := h.low_le c (mem_ifOn.mp hc).2
  le_high c hc := h.le_high c (mem_ifOn.mp hc).2

theorem ranked_urlCandidates (t : Text) : Ranked 2 2 (urlCandidates t) :=
  have hrank := fun reason spans => ranked_candidates .url reason spans
  ((hrank _ _).append (hrank _ _) (Nat.le_refl 2) (Nat.le_refl 2) (Nat.le_refl 2)).append
    (hrank _ _) (Nat.le_refl 2) (Nat.le_refl 2) (Nat.le_refl 2)

theorem ranked_inlineCandidates (t : Text) (on : FilterSwitch → Bool) {custom : List Candidate}
    (hcustom : ∀ c ∈ custom, c.kind = .custom) : Ranked 0 4 (inlineCandidates t on custom) := by
  have hcode : Ranked 0 0 (ifOn (on .codeBlocks) (codeBlockCandidates t)) :=
    (ranked_candidates .codeBlock _ _).ifOn _
  have hinline : Ranked 1 1 (ifOn (on .inlineCode) (inlineCodeCandidates t)) :=
    (ranked_candidates .inlineCode _ _).ifOn _
  have hurl : Ranked 2 2 (ifOn (on .urls) (urlCandidates t)) :=
    (ranked_urlCandidates t).ifOn _
  have hkey : Ranked 3 3 (ifOn (on .configKeys) (configKeyCandidates t)) :=
    (ranked_candidates .configKey _ _).ifOn _
  have hpattern : Ranked 4 4 custom := ranked_of_priority fun c hc => by
    rw [hcustom c hc]
    rfl
  have h1 : Ranked 0 1 _ := hcode.append hinline (by omega) (by omega) (by omega)
  have h2 : Ranked 0 2 _ := h1.append hurl (by omega) (by omega) (by omega)
  have h3 : Ranked 0 3 _ := h2.append hkey (by omega) (by omega) (by omega)
  exact h3.append hpattern (by omega) (by omega) (by omega)

theorem fit_inlineCandidates (t : Text) (on : FilterSwitch → Bool) {custom : List Candidate}
    (hcustom : Fit t custom) : Fit t (inlineCandidates t on custom) := by
  have hcode : Fit t (codeBlockCandidates t) := fit_scan Markup.bounded_codeBlock
  have hinline : Fit t (inlineCodeCandidates t) := fit_scan Markup.bounded_inlineCode
  have hkey : Fit t (configKeyCandidates t) := fit_scan Markup.bounded_configKey
  exact ((((hcode.ifOn _).append (hinline.ifOn _)).append
    ((fit_urlCandidates t).ifOn _)).append (hkey.ifOn _)).append hcustom

end Detection

end Kouetsu
