import Kouetsu.Proofs.Rule.Table
import Kouetsu.Proofs.Sentence.Basic
import Kouetsu.Proofs.Token.Tiles
import Kouetsu.Rule.Finding
/-!
# Findings in a text

The findings of a check hold offsets of the text, in order.  Most of them stand on a visible
character, the others on tokens or on sentences.
-/

namespace Kouetsu

structure Finding.Within (f : Finding) (t : Text) : Prop where
  nonneg : 0 ≤ f.start
  ordered : f.start ≤ f.stop
  bounded : f.stop ≤ t.length

structure Context.Fits (c : Context) : Prop where
  tokens : TokensFit c.text c.tokens
  sentences : SentencesFit c.text c.tokens c.sentences

structure Span.Marks (s : Span) (t : Text) : Prop where
  within : s.Within t
  visible : s.Visible t

def Finding.Visible (f : Finding) (t : Text) : Prop :=
  ∃ i : Nat, t.VisibleAt i ∧ f.start ≤ i ∧ i < f.stop

structure Finding.Marks (f : Finding) (t : Text) : Prop where
  within : f.Within t
  visible : f.Visible t

theorem Span.Within.finding {s : Span} {t : Text} (h : s.Within t) (message : String)
    (suggestions : List String) : (Finding.ofSpan s message suggestions).Within t :=
  ⟨Int.natCast_nonneg _, Int.ofNat_le.mpr h.ordered, Int.ofNat_le.mpr h.bounded⟩

theorem Span.Visible.finding {s : Span} {t : Text} (h : s.Visible t) (message : String)
    (suggestions : List String) : (Finding.ofSpan s message suggestions).Visible t := by
  obtain ⟨i, hi, hstart, hstop⟩ := h
  exact ⟨i, hi, Int.ofNat_le.mpr hstart, Int.ofNat_lt.mpr hstop⟩

theorem Span.Marks.finding {s : Span} {t : Text} (h : s.Marks t) (message : String)
    (suggestions : List String) : (Finding.ofSpan s message suggestions).Marks t :=
  ⟨h.within.finding message suggestions, h.visible.finding message suggestions⟩

theorem startsWith_of_find? {t : Text} {openings : List String} {opening : String}
    (h : (openings.find? fun o => Text.startsWith t o.toList) = some opening) :
    Text.startsWith t opening.toList = true :=
  @List.find?_some _ (fun o : String => Text.startsWith t o.toList) _ _ h

theorem length_le_of_find?_startsWith {t : Text} {openings : List String} {opening : String}
    (h : (openings.find? fun o => Text.startsWith t o.toList) = some opening) :
    opening.length ≤ t.length := by
  have hlen := Text.length_le_of_startsWith (startsWith_of_find? h)
  rwa [String.length_toList] at hlen

theorem visibleAt_of_find?_startsWith {t : Text} {openings : List String}
    (hopenings : openings ∈ phraseTables) {opening : String}
    (h : (openings.find? fun o => Text.startsWith t o.toList) = some opening) :
    t.VisibleAt 0 ∧ 0 < opening.length := by
  have hmem := List.mem_of_find?_eq_some h
  have hvisible := visibleAt_of_mem_phraseTables hopenings hmem
  exact ⟨hvisible.of_startsWith (startsWith_of_find? h), pos_of_mem_phraseTables hopenings hmem⟩

/-! ## Phrases -/

theorem marks_of_mem_occurrencesOf {α : Type} {table : List (String × α)}
    (htable : table.map (·.1) ∈ phraseTables) {t : Text} {o : Occurrence α}
    (h : o ∈ occurrencesOf table t) : o.span.Marks t := by
  obtain ⟨⟨phrase, entry⟩, hmem, ho⟩ := List.mem_flatMap.mp h
  obtain ⟨i, hi, rfl⟩ := List.mem_map.mp ho
  have hopens := visibleAt_of_mem_phraseTables htable (List.mem_map.mpr ⟨_, hmem, rfl⟩)
  have hpos := hopens.lt_length
  have hlen := Text.add_length_le_of_mem_occurrences hi
  rw [String.length_toList] at hpos hlen
  exact ⟨⟨Nat.le_add_right _ _, hlen⟩,
    ⟨i, Text.visibleAt_of_mem_occurrences hopens hi, Nat.le_refl i, Nat.lt_add_of_pos_right hpos⟩⟩

theorem marks_of_mem_map_occurrencesOf {α : Type} {table : List (String × α)}
    (htable : table.map (·.1) ∈ phraseTables) {t : Text} {report : Occurrence α → Finding}
    (hspan : ∀ o, o.span.Marks t → (report o).Marks t) {f : Finding}
    (hf : f ∈ (occurrencesOf table t).map report) : f.Marks t := by
  obtain ⟨o, ho, rfl⟩ := List.mem_map.mp hf
  exact hspan o (marks_of_mem_occurrencesOf htable ho)

theorem marks_of_mem_scan {r : Text.Recogniser} (hr : Text.Bounded r) (hshow : Text.Showing r)
    {t : Text} {s : Span} (hs : s ∈ t.scan r) : s.Marks t :=
  ⟨Text.within_of_mem_scan hr hs, Text.visible_of_mem_scan hshow hs⟩

theorem marks_of_mem_map_scan {r : Text.Recogniser} (hr : Text.Bounded r) (hshow : Text.Showing r)
    {t : Text} {report : Span → Finding} (hspan : ∀ s, s.Marks t → (report s).Marks t)
    {f : Finding} (hf : f ∈ (t.scan r).map report) : f.Marks t := by
  obtain ⟨s, hs, rfl⟩ := List.mem_map.mp hf
  exact hspan s (marks_of_mem_scan hr hshow hs)

/-! ## Ends of ordered lists -/

theorem eq_or_rel_of_ends {α : Type} {R : α → α → Prop} {l : List α} {a b : α}
    (h : l.Pairwise R) (ha : l.head? = some a) (hb : l.getLast? = some b) : a = b ∨ R a b := by
  cases l with
  | nil => simp at ha
  | cons c rest =>
      rw [List.head?_cons, Option.some.injEq] at ha
      subst ha
      rcases List.mem_cons.mp (List.mem_of_getLast? hb) with rfl | hmem
      · exact Or.inl rfl
      · exact Or.inr ((List.pairwise_cons.mp h).1 b hmem)

theorem sublist_of_mem_zip_tail {α : Type} {l : List α} {a b : α} (h : (a, b) ∈ l.zip l.tail) :
    [a, b].Sublist l := by
  obtain ⟨before, after, rfl⟩ := exists_of_mem_zip_tail h
  exact (List.prefix_append [a, b] after).sublist.trans (List.sublist_append_right before _)

theorem TokensFit.sublist {t : Text} {tokens part : List Token} (h : TokensFit t tokens)
    (hpart : part.Sublist tokens) : TokensFit t part where
  nonneg k hk := h.nonneg k (hpart.subset hk)
  nonempty k hk := h.nonempty k (hpart.subset hk)
  bounded k hk := h.bounded k (hpart.subset hk)
  ordered := h.ordered.sublist hpart

theorem SentencesFit.sublist {t : Text} {tokens : List Token} {sentences part : List Sentence}
    (h : SentencesFit t tokens sentences) (hpart : part.Sublist sentences) :
    SentencesFit t tokens part where
  text s hs := h.text s (hpart.subset hs)
  visible s hs := h.visible s (hpart.subset hs)
  nonempty s hs := h.nonempty s (hpart.subset hs)
  bounded s hs := h.bounded s (hpart.subset hs)
  tokens s hs := h.tokens s (hpart.subset hs)
  ordered := h.ordered.sublist hpart

/-! ## Findings on tokens and sentences -/

def Finding.OnTokens (f : Finding) (tokens : List Token) : Prop :=
  ∃ (part : List Token) (a b : Token), part.Sublist tokens ∧ part.head? = some a ∧
    part.getLast? = some b ∧ f.start = a.start ∧ f.stop = b.stop

namespace Finding.OnTokens

variable {f : Finding} {t : Text} {tokens : List Token}

theorem of_mem {k : Token} (hk : k ∈ tokens) (message : String) (suggestions : List String) :
    (⟨k.start, k.stop, message, suggestions⟩ : Finding).OnTokens tokens :=
  ⟨[k], k, k, List.singleton_sublist.mpr hk, rfl, rfl, rfl, rfl⟩

theorem mono (h : f.OnTokens tokens) {more : List Token} (hsub : tokens.Sublist more) :
    f.OnTokens more := by
  obtain ⟨part, a, b, hpart, hends⟩ := h
  exact ⟨part, a, b, hpart.trans hsub, hends⟩

theorem within_and_exists_token (h : f.OnTokens tokens) (hfit : TokensFit t tokens) :
    f.Within t ∧ ∃ k ∈ tokens, f.start ≤ k.start ∧ k.stop ≤ f.stop := by
  obtain ⟨part, a, b, hpart, ha, hb, hstart, hstop⟩ := h
  have hmem := hpart.subset (List.mem_of_head? ha)
  have hmem' := hpart.subset (List.mem_of_getLast? hb)
  have hnonneg := hfit.nonneg a hmem
  have hne := hfit.nonempty a hmem
  have hne' := hfit.nonempty b hmem'
  have hbounded := hfit.bounded b hmem'
  have hle : a.stop ≤ b.stop := by
    rcases eq_or_rel_of_ends (hfit.ordered.sublist hpart) ha hb with rfl | hab
    · exact Int.le_refl _
    · omega
  exact ⟨⟨by omega, by omega, by omega⟩, a, hmem, by omega, by omega⟩

end Finding.OnTokens

/-- A finding on sentences of a text, from the first of them to the last, starts on a visible
character. -/
theorem SentencesFit.marks {t : Text} {tokens : List Token} {sentences : List Sentence}
    (h : SentencesFit t tokens sentences) {a b : Sentence} (ha : sentences.head? = some a)
    (hb : sentences.getLast? = some b) (message : String) (suggestions : List String) :
    (⟨a.start, b.stop, message, suggestions⟩ : Finding).Marks t := by
  have hmem := List.mem_of_head? ha
  have hmem' := List.mem_of_getLast? hb
  have hne := h.nonempty a hmem
  have hne' := h.nonempty b hmem'
  have hlt : a.start < b.stop := by
    rcases eq_or_rel_of_ends h.ordered ha hb with rfl | hab
    · exact hne
    · omega
  have hwithin : (⟨a.start, b.stop⟩ : Span).Within t := ⟨Nat.le_of_lt hlt, h.bounded b hmem'⟩
  exact Span.Marks.finding
    ⟨hwithin, a.start, h.visible a hmem, Nat.le_refl _, hlt⟩ message suggestions

end Kouetsu
