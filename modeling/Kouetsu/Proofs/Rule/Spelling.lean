import Kouetsu.Proofs.Comment.Prose
import Kouetsu.Proofs.Proofreading
import Kouetsu.Proofs.Rule.Phrase
/-!
# Findings of terms

Two findings of terms that are shown at one place with one message are the same finding.  A message
names two terms between brackets, and two readings of it differ in the length of the first term by
no less than the marks between them; ranges that are shown alike differ by one character at most.
-/

namespace Kouetsu

namespace Check

variable {c : Context} {f : Finding} {t term : Text} {s : Span}

/-! ## Messages -/

def termMessage (wrong right : String) : String :=
  "技術用語の表記「" ++ wrong ++ "」は「" ++ right ++ "」に統一してください。"

def termFinding (s : Span) (wrong right : String) : Finding :=
  .ofSpan s (termMessage wrong right) ["「" ++ right ++ "」に変更する"]

theorem mem_termSpellings : f ∈ termSpellings c ↔ ∃ x ∈ c.config.terms, x.1 ≠ x.2 ∧
    ∃ s ∈ termSpans c.text x.1.toList, f = termFinding s x.1 x.2 := by
  simp only [termSpellings, List.mem_flatMap, List.mem_filter, List.mem_map, decide_eq_true_eq,
    and_assoc, eq_comm (a := f)]
  rfl

/-- Nothing shorter than the marks between two terms can stand before them and repeat them. -/
theorem eq_nil_of_between {more a b : Text}
    (h : '」' :: 'は' :: '「' :: a = more ++ '」' :: 'は' :: '「' :: b) (hlen : more.length < 3) :
    more = [] := by
  match more with
  | [] => rfl
  | [x] => simp at h
  | [x, y] => simp at h
  | x :: y :: z :: rest => simp at hlen; omega

theorem eq_of_between {u v a b : Text}
    (h : u ++ '」' :: 'は' :: '「' :: a = v ++ '」' :: 'は' :: '「' :: b)
    (huv : u.length < v.length + 3) (hvu : v.length < u.length + 3) : u = v ∧ a = b := by
  rcases List.append_eq_append_iff.mp h with ⟨more, rfl, hrest⟩ | ⟨more, rfl, hrest⟩
  · have hmore : more = [] := eq_nil_of_between hrest (by rw [List.length_append] at hvu; omega)
    subst hmore
    simpa using hrest
  · have hmore : more = [] := eq_nil_of_between hrest (by rw [List.length_append] at huv; omega)
    subst hmore
    simpa [eq_comm] using hrest

theorem eq_of_joined {lead marks tail u v a b : String} (hmarks : marks.toList = ['」', 'は', '「'])
    (h : lead ++ u ++ marks ++ a ++ tail = lead ++ v ++ marks ++ b ++ tail)
    (huv : u.length < v.length + 3) (hvu : v.length < u.length + 3) : u = v ∧ a = b := by
  have htexts := congrArg String.toList h
  simp only [String.toList_append, List.append_assoc, hmarks] at htexts
  obtain ⟨hfirst, hrest⟩ := eq_of_between (List.append_cancel_left htexts)
    (by simpa only [String.length_toList] using huv)
    (by simpa only [String.length_toList] using hvu)
  exact ⟨String.toList_inj.mp hfirst, String.toList_inj.mp (List.append_cancel_right hrest)⟩

/-- A message can be read in one way only with terms of about that length. -/
theorem eq_of_termMessage {wrong right wrong' right' : String}
    (h : termMessage wrong right = termMessage wrong' right')
    (hlt : wrong.length < wrong'.length + 3) (hgt : wrong'.length < wrong.length + 3) :
    wrong = wrong' ∧ right = right' :=
  eq_of_joined (by decide : "」は「".toList = _) h hlt hgt

/-! ## Places -/

theorem length_of_mem_termSpans (hs : s ∈ termSpans t term) : s.stop = s.start + term.length := by
  rw [termSpans] at hs
  split at hs
  · next hempty =>
      rw [List.isEmpty_iff.mp hempty, List.length_nil, (bounds_of_mem_emptySpans hs).1,
        Nat.add_zero]
  · refine Text.length_of_mem_scanFrom (fun before rest m hm => ?_) hs
    split at hm
    · exact (Option.some.inj hm).symm
    · simp at hm

end Check

namespace OffsetMap

variable {m : OffsetMap} {document kept : Text} {start start' n n' : Nat} {r : Range}

theorem exists_nat_of_documentOffset? (hkept : m.keptLength = kept.length)
    (hm : m.Faithful document kept) {f : Nat} {o : Int} (h : m.documentOffset? f = some o) :
    ∃ a : Nat, o = a ∧ a < document.length ∧ f < kept.length := by
  have hf : f < kept.length := by
    rw [documentOffset?, hkept] at h
    split at h
    · simp at h
    · next hout =>
        simp only [Bool.or_eq_true, decide_eq_true_eq, not_or] at hout
        omega
  obtain ⟨a, ha, hchar, _⟩ := hm.place f hf
  refine ⟨a, Option.some.inj (h.symm.trans ha), ?_, hf⟩
  rw [List.getElem?_eq_getElem hf] at hchar
  exact (List.getElem?_eq_some_iff.mp hchar).1

theorem exists_of_toDocument? (hkept : m.keptLength = kept.length)
    (hm : m.Faithful document kept) (hindex : m.index = LineIndex.ofText document) {f : Nat}
    {p : Position} (h : m.toDocument? f = some p) :
    ∃ a : Nat, m.documentOffset? f = some (a : Int) ∧ a < document.length ∧
      p = (LineIndex.ofText document).positionAt a := by
  obtain ⟨o, ho, rfl⟩ := Option.map_eq_some_iff.mp h
  obtain ⟨a, rfl, ha, _⟩ := exists_nat_of_documentOffset? hkept hm ho
  exact ⟨a, ho, ha, by rw [hindex]⟩

/-- The offsets of a range of the document that stands for some characters of the prose.  It ends
at the last one, or one character further on. -/
theorem Shows.exists_offsets (hkept : m.keptLength = kept.length)
    (hm : m.Faithful document kept) (hindex : m.index = LineIndex.ofText document)
    (h : m.Shows start (start + n : Nat) r) :
    ∃ a : Nat, m.documentOffset? start = some (a : Int) ∧
      (LineIndex.ofText document).offsetAt r.start = a ∧
        ((n = 0 ∧ (LineIndex.ofText document).offsetAt r.stop = a) ∨
          ∃ b : Nat, 0 < n ∧ m.documentOffset? (start + n - 1 : Nat) = some (b : Int) ∧
            b ≤ (LineIndex.ofText document).offsetAt r.stop ∧
              (LineIndex.ofText document).offsetAt r.stop ≤ b + 1) := by
  cases h with
  | point hempty hs =>
      obtain ⟨a, ha, hlt, rfl⟩ := exists_of_toDocument? hkept hm hindex hs
      have hoffset := LineIndex.offsetAt_positionAt (Nat.le_of_lt hlt)
      exact ⟨a, ha, hoffset, Or.inl ⟨by omega, hoffset⟩⟩
  | chars hne hs hlast =>
      obtain ⟨a, ha, hlt, rfl⟩ := exists_of_toDocument? hkept hm hindex hs
      have hstop : ((start + n : Nat) : Int) - 1 = (start + n - 1 : Nat) := by omega
      rw [hstop] at hlast
      obtain ⟨b, hb, hblt, rfl⟩ := exists_of_toDocument? hkept hm hindex hlast
      have hnext := LineIndex.offsetAt_next hblt
      rw [hindex]
      exact ⟨a, ha, LineIndex.offsetAt_positionAt (Nat.le_of_lt hlt),
        Or.inr ⟨b, by omega, hb, hnext.1, hnext.2⟩⟩

theorem Shows.lt_add_three (hkept : m.keptLength = kept.length) (hm : m.Faithful document kept)
    (hindex : m.index = LineIndex.ofText document) (h : m.Shows start (start + n : Nat) r)
    (h' : m.Shows start' (start' + n' : Nat) r) : n' < n + 3 := by
  obtain ⟨a, ha, hstart, hstop⟩ := h.exists_offsets hkept hm hindex
  obtain ⟨a', ha', hstart', hstop'⟩ := h'.exists_offsets hkept hm hindex
  have haa : (a : Int) = a' := hstart.symm.trans hstart'
  have hsame : start = start' := by
    rcases Nat.lt_trichotomy start start' with hlt | heq | hgt
    · have := hm.increasing _ _ _ _ hlt ha ha'
      omega
    · exact heq
    · have := hm.increasing _ _ _ _ hgt ha' ha
      omega
  subst hsame
  by_contra hlong
  rcases hstop' with ⟨hzero, _⟩ | ⟨b', _, hb', hge, _⟩
  · omega
  rcases hstop with ⟨_, hend⟩ | ⟨b, hpos, hb, _, hle⟩
  · have := hm.increasing _ _ _ _ (by omega : start < start + n' - 1) ha hb'
    omega
  · -- The character after the shorter one lies between the two ends.
    obtain ⟨_, _, _, hlt⟩ := exists_nat_of_documentOffset? hkept hm hb'
    obtain ⟨c, hc, _⟩ := hm.place (start + n) (by omega)
    have hbc := hm.increasing _ _ _ _ (by omega : start + n - 1 < start + n) hb hc
    have hcb' := hm.increasing _ _ _ _ (by omega : start + n < start + n' - 1) hc hb'
    omega

end OffsetMap

theorem exists_faithful_prepare {t : Text} {language : String} {cfg : FilterConfig} {m : OffsetMap}
    (h : (prepare t language cfg).map = some m) :
    ∃ kept, m.keptLength = kept.length ∧ m.Faithful t kept ∧ m.index = LineIndex.ofText t := by
  rw [prepare] at h
  split at h
  · next hcode =>
      obtain rfl := Option.some.inj h
      exact ⟨_, rfl, faithful_proseView hcode t, rfl⟩
  · simp at h

theorem Prepared.Shows.length_lt {t : Text} {language : String} {cfg : FilterConfig} {s s' : Span}
    {r : Range} (hs : s.Within (prepare t language cfg).filtered.text)
    (hs' : s'.Within (prepare t language cfg).filtered.text)
    (h : (prepare t language cfg).Shows
      ((prepare t language cfg).prose.rangeAt s.start s.stop) r)
    (h' : (prepare t language cfg).Shows
      ((prepare t language cfg).prose.rangeAt s'.start s'.stop) r) :
    s'.length < s.length + 3 := by
  have hoffset {o : Nat} (ho : o ≤ (prepare t language cfg).filtered.text.length) :
      (prepare t language cfg).prose.offsetAt ((prepare t language cfg).prose.positionAt o) = o :=
    LineIndex.offsetAt_positionAt ho
  have hstart := hoffset (hs.ordered.trans hs.bounded)
  have hstart' := hoffset (hs'.ordered.trans hs'.bounded)
  have hstop := hoffset hs.bounded
  have hstop' := hoffset hs'.bounded
  have hlen := hs.ordered
  have hlen' := hs'.ordered
  rw [Span.length, Span.length]
  cases hmap : (prepare t language cfg).map with
  | none =>
      have hranges := (h.same hmap).symm.trans (h'.same hmap)
      have hends := Range.mk.inj hranges
      rw [hends.1, hstart'] at hstart
      rw [hends.2, hstop'] at hstop
      omega
  | some m =>
      obtain ⟨kept, hkept, hm, hindex⟩ := exists_faithful_prepare hmap
      have hshows := h.mapped m hmap
      have hshows' := h'.mapped m hmap
      simp only [LineIndex.rangeAt, hstart, hstop] at hshows
      simp only [LineIndex.rangeAt, hstart', hstop'] at hshows'
      rw [← Nat.add_sub_cancel' hlen] at hshows
      rw [← Nat.add_sub_cancel' hlen'] at hshows'
      exact hshows.lt_add_three hkept hm hindex hshows'

end Kouetsu
