import Kouetsu.Proofs.Exclusion.Patterns
import Kouetsu.Proofs.Text.Visible
import Mathlib.Data.List.Sort
/-!
# Inline code behind a fence

The scan for inline code knows nothing of code blocks: the last backtick of a closing fence opens a
match with the next backtick of its line.  The match is left out, for it overlaps the block, but
its closing backtick is lost to the inline code that it should have opened.
-/

namespace Kouetsu

namespace Markup

open Text

/-! ## Scans for inline code -/

def IsCode (body : Text) : Prop := body ≠ [] ∧ ∀ c ∈ body, c ≠ '\x60' ∧ c ≠ '\n'

theorem inlineCode_before (before before' : Option Char) (t : Text) :
    inlineCode before t = inlineCode before' t := rfl

theorem inlineCode_eq_some_iff {before : Option Char} {t : Text} {n : Nat} :
    inlineCode before t = some n ↔
      ∃ body rest, IsCode body ∧ t = '\x60' :: (body ++ '\x60' :: rest) ∧ n = body.length + 2 := by
  constructor
  · intro h
    unfold inlineCode at h
    split at h
    · next line =>
        simp only at h
        split at h
        · next hclosed =>
            rw [Bool.and_eq_true, decide_eq_true_eq, Bool.not_eq_true',
              List.isEmpty_eq_false_iff] at hclosed
            obtain ⟨rest, hrest⟩ := List.head?_eq_some_iff.mp hclosed.2
            have hline := List.prefix_iff_eq_append.mp
              (List.takeWhile_prefix (fun c => c ≠ '\x60' && c ≠ '\n') (l := line))
            refine ⟨_, rest, ⟨hclosed.1, fun c hc => ?_⟩, ?_, (Option.some.inj h).symm⟩
            · simpa using List.all_eq_true.mp List.all_takeWhile c hc
            · rw [← hrest, hline]
        · contradiction
    · contradiction
  · rintro ⟨body, rest, ⟨hne, hbody⟩, rfl, rfl⟩
    have htake : (body ++ '\x60' :: rest).takeWhile (fun c => c ≠ '\x60' && c ≠ '\n') = body := by
      rw [List.takeWhile_append_of_pos, List.takeWhile_cons_of_neg, List.append_nil]
      · simp
      · intro c hc
        simpa using hbody c hc
    simp only [inlineCode, htake, List.drop_left, List.head?_cons]
    rw [if_pos]
    simpa using hne

theorem inlineCode_of_ne {before : Option Char} {c : Char} {t : Text} (hc : c ≠ '\x60') :
    inlineCode before (c :: t) = none := by
  rw [Option.eq_none_iff_forall_ne_some]
  intro n h
  obtain ⟨body, rest, _, ht, _⟩ := inlineCode_eq_some_iff.mp h
  exact hc (List.cons.inj ht).1

theorem inlineCode_backticks {before : Option Char} {t : Text} :
    inlineCode before ('\x60' :: '\x60' :: t) = none := by
  rw [Option.eq_none_iff_forall_ne_some]
  intro n h
  obtain ⟨body, rest, ⟨hne, hbody⟩, ht, _⟩ := inlineCode_eq_some_iff.mp h
  obtain ⟨c, body, rfl⟩ := List.exists_cons_of_ne_nil hne
  have hc := (List.cons.inj (List.cons.inj ht).2).1
  exact (hbody c List.mem_cons_self).1 hc.symm

theorem scanFrom_inlineCode_none {before : Option Char} {c : Char} {t : Text} {offset : Nat}
    (h : inlineCode before (c :: t) = none) (before' : Option Char) :
    scanFrom inlineCode before offset 0 (c :: t) =
      scanFrom inlineCode before' (offset + 1) 0 t := by
  rw [scanFrom, h]
  exact scanFrom_drop inlineCode_before _ _ _ 0 t

theorem scanFrom_inlineCode_lead {lead : Text} (h : ∀ c ∈ lead, c ≠ '\x60')
    (before : Option Char) (offset : Nat) (t : Text) :
    scanFrom inlineCode before offset 0 (lead ++ t) =
      scanFrom inlineCode none (offset + lead.length) 0 t := by
  induction lead generalizing before offset with
  | nil => exact scanFrom_drop inlineCode_before _ _ _ 0 t
  | cons c lead ih =>
      have hhead : inlineCode before (c :: (lead ++ t)) = none :=
        inlineCode_of_ne (h c List.mem_cons_self)
      rw [List.cons_append, scanFrom_inlineCode_none hhead none,
        ih fun d hd => h d (List.mem_cons_of_mem c hd), List.length_cons, Nat.add_assoc,
        Nat.add_comm 1]

theorem scanFrom_inlineCode_match {before : Option Char} {offset : Nat} {body rest : Text}
    (h : IsCode body) :
    scanFrom inlineCode before offset 0 ('\x60' :: (body ++ '\x60' :: rest)) =
      ⟨offset, offset + body.length + 2⟩ ::
        scanFrom inlineCode none (offset + body.length + 2) 0 rest := by
  have hmatch : inlineCode before ('\x60' :: (body ++ '\x60' :: rest)) = some (body.length + 2) :=
    inlineCode_eq_some_iff.mpr ⟨body, rest, h, rfl, rfl⟩
  rw [scanFrom, hmatch]
  have hrest : (body ++ '\x60' :: rest).drop (body.length + 1) = rest := by
    rw [← List.drop_drop, List.drop_left, List.drop_succ_cons, List.drop_zero]
  show ⟨offset, offset + (body.length + 1) + 1⟩ ::
    scanFrom inlineCode (some '\x60') (offset + 1) (body.length + 1) _ = _
  rw [scanFrom_drop inlineCode_before _ none, hrest,
    show offset + 1 + (body.length + 1) = offset + body.length + 2 by omega, ← Nat.add_assoc]

/-! ## Scans through a fence -/

/-- Whatever stands before a fence, the scan comes to the last backtick of the fence. -/
theorem scanFrom_inlineCode_fence (before : Option Char) (offset skip : Nat) (a b : Text)
    (hskip : skip ≤ a.length + 1) :
    ∃ early, (∀ s ∈ early, s.start < offset + a.length + 2) ∧
      scanFrom inlineCode before offset skip (a ++ (fence ++ b)) =
        early ++ scanFrom inlineCode none (offset + a.length + 2) 0 ('\x60' :: b) := by
  induction a generalizing before offset skip with
  | nil =>
      refine ⟨[], by simp, ?_⟩
      have hlast (before : Option Char) (offset : Nat) :
          scanFrom inlineCode before offset 0 ('\x60' :: '\x60' :: b) =
            scanFrom inlineCode none (offset + 1) 0 ('\x60' :: b) :=
        scanFrom_inlineCode_none inlineCode_backticks none
      match skip, hskip with
      | 0, _ =>
          show scanFrom inlineCode before offset 0 ('\x60' :: '\x60' :: '\x60' :: b) = _
          rw [scanFrom_inlineCode_none inlineCode_backticks none, hlast]
          rfl
      | 1, _ => exact hlast (some '\x60') (offset + 1)
  | cons c a ih =>
      have hoffset : offset + 1 + a.length + 2 = offset + (c :: a).length + 2 := by
        rw [List.length_cons]
        omega
      rw [List.length_cons] at hskip
      cases skip with
      | succ skip =>
          have hrest := ih (some c) (offset + 1) skip (by omega)
          rwa [hoffset] at hrest
      | zero =>
          rw [List.cons_append]
          cases hmatch : inlineCode before (c :: (a ++ (fence ++ b))) with
          | none =>
              have hrest := ih none (offset + 1) 0 (by omega)
              rw [hoffset] at hrest
              rwa [scanFrom_inlineCode_none hmatch none]
          | some n =>
              obtain ⟨body, rest, hbody, hsplit, rfl⟩ := inlineCode_eq_some_iff.mp hmatch
              -- a match ends at the first backtick of the fence or before it
              have hshort : body.length ≤ a.length := by
                by_contra hlong
                have hfirst := congrArg (fun t : Text => t[a.length]?) (List.cons.inj hsplit).2
                rw [List.getElem?_append_right (Nat.le_refl _), Nat.sub_self,
                  List.getElem?_append_left (show a.length < body.length by omega)] at hfirst
                exact (hbody.2 '\x60' (List.mem_of_getElem? hfirst.symm)).1 rfl
              obtain ⟨early, hearly, hrest⟩ := ih (some c) (offset + 1) (body.length + 1) (by omega)
              rw [hoffset] at hearly hrest
              refine ⟨⟨offset, offset + (body.length + 1) + 1⟩ :: early, ?_, ?_⟩
              · intro s hs
                rcases List.mem_cons.mp hs with rfl | hs
                · show offset < offset + (c :: a).length + 2
                  omega
                · exact hearly s hs
              · rw [scanFrom, hmatch]
                exact congrArg (⟨offset, offset + (body.length + 1) + 1⟩ :: ·) hrest

theorem scan_inlineCode_fence {a : Text} (h : fence <:+ a) (b : Text) :
    ∃ early, (∀ s ∈ early, s.start < a.length - 1) ∧
      (a ++ b).scan inlineCode =
        early ++ scanFrom inlineCode none (a.length - 1) 0 ('\x60' :: b) := by
  obtain ⟨a, rfl⟩ := h
  have hlength : 0 + a.length + 2 = (a ++ fence).length - 1 := by
    rw [List.length_append]
    show _ = a.length + 3 - 1
    omega
  rw [List.append_assoc, ← hlength]
  exact scanFrom_inlineCode_fence none 0 0 a b (by omega)

/-- Inline code with text of its own line before it, and no backtick in the text. -/
def CodeBehindText (t : Text) : Prop :=
  ∃ lead code rest, IsCode lead ∧ IsCode code ∧ t = lead ++ '\x60' :: (code ++ '\x60' :: rest)

theorem CodeBehindText.opens {t : Text} (h : CodeBehindText t) :
    inlineCode none ('\x60' :: t) ≠ none := by
  obtain ⟨lead, code, rest, hlead, _, rfl⟩ := h
  rw [inlineCode_eq_some_iff.mpr ⟨lead, _, hlead, rfl, rfl⟩]
  simp

theorem codeBehindText_lead_iff {lead rest : Text} (hlead : IsCode lead) :
    CodeBehindText (lead ++ '\x60' :: rest) ↔ inlineCode none ('\x60' :: rest) ≠ none := by
  constructor
  · rintro ⟨lead', code, rest', hlead', hcode, hsplit⟩
    -- both texts end at the first backtick
    have hmatch : inlineCode none ('\x60' :: (lead ++ '\x60' :: rest)) = some (lead.length + 2) :=
      inlineCode_eq_some_iff.mpr ⟨lead, rest, hlead, rfl, rfl⟩
    have hmatch' : inlineCode none ('\x60' :: (lead ++ '\x60' :: rest)) = some (lead'.length + 2) :=
      inlineCode_eq_some_iff.mpr ⟨lead', _, hlead', congrArg _ hsplit, rfl⟩
    have hsame : lead.length = lead'.length := by
      rw [hmatch, Option.some.injEq] at hmatch'
      exact Nat.add_right_cancel hmatch'
    rw [(List.append_inj hsplit hsame).2, inlineCode_eq_some_iff.mpr ⟨code, rest', hcode, rfl, rfl⟩]
    simp
  · intro h
    obtain ⟨n, hn⟩ := Option.ne_none_iff_exists'.mp h
    obtain ⟨code, rest', hcode, hsplit, _⟩ := inlineCode_eq_some_iff.mp hn
    exact ⟨lead, code, rest', hlead, hcode, congrArg (lead ++ ·) hsplit⟩

/-- From the last backtick of a fence on, a scan finds the inline code of the text behind the
fence, unless a first piece of it stands behind other text of its line. -/
theorem filter_scanFrom_inlineCode_iff {n : Nat} (hn : 0 < n) (t : Text) :
    (scanFrom inlineCode none (n - 1) 0 ('\x60' :: t)).filter (n ≤ ·.start) =
        scanFrom inlineCode none n 0 t ↔ ¬CodeBehindText t := by
  cases hopen : inlineCode none ('\x60' :: t) with
  | none =>
      rw [scanFrom_inlineCode_none hopen none, Nat.sub_add_cancel hn,
        filter_scanFrom_of_le (Nat.le_refl n)]
      exact iff_of_true rfl fun h => h.opens hopen
  | some m =>
      obtain ⟨lead, rest, hlead, hsplit, _⟩ := inlineCode_eq_some_iff.mp hopen
      obtain rfl : t = lead ++ '\x60' :: rest := (List.cons.inj hsplit).2
      have hdropped : ¬n ≤ n - 1 := by omega
      have hbehind : n - 1 + lead.length + 2 = n + lead.length + 1 := by omega
      rw [codeBehindText_lead_iff hlead, scanFrom_inlineCode_match hlead,
        List.filter_cons_of_neg (by simpa using hdropped), hbehind,
        filter_scanFrom_of_le (by omega), scanFrom_inlineCode_lead fun c hc => (hlead.2 c hc).1]
      cases hcode : inlineCode none ('\x60' :: rest) with
      | none =>
          rw [scanFrom_inlineCode_none hcode none]
          simp
      | some m =>
          obtain ⟨code, rest', hcode', hsplit, _⟩ := inlineCode_eq_some_iff.mp hcode
          obtain rfl : rest = code ++ '\x60' :: rest' := (List.cons.inj hsplit).2
          refine iff_of_false ?_ (by simp)
          intro heq
          rw [scanFrom_inlineCode_match hcode'] at heq
          have hstart := le_start_of_mem_scanFrom (heq ▸ List.mem_cons_self)
          simp only at hstart
          omega

theorem filter_scan_inlineCode_iff {a : Text} (ha : fence <:+ a) (b : Text) :
    ((a ++ b).scan inlineCode).filter (a.length ≤ ·.start) =
        (b.scan inlineCode).map (·.shift a.length) ↔ ¬CodeBehindText b := by
  obtain ⟨early, hearly, hscan⟩ := scan_inlineCode_fence ha b
  have hnone : early.filter (a.length ≤ ·.start) = [] := by
    rw [List.filter_eq_nil_iff]
    intro s hs
    have := hearly s hs
    rw [decide_eq_true_eq]
    omega
  have hmoved : (b.scan inlineCode).map (·.shift a.length) =
      scanFrom inlineCode none a.length 0 b := by
    have hshift := scanFrom_shift inlineCode_before none none 0 a.length 0 b
    rw [Nat.zero_add] at hshift
    exact hshift.symm
  rw [hscan, List.filter_append, hnone, List.nil_append, hmoved]
  exact filter_scanFrom_inlineCode_iff (Nat.lt_of_lt_of_le (by decide) ha.length_le) b

/-! ## Code blocks behind each other -/

theorem fence_of_mem_scan_codeBlock {t : Text} {s : Span} (hs : s ∈ t.scan codeBlock) :
    fence <+: t.drop s.start ∧ s.start + 6 ≤ s.stop ∧ fence <+: t.drop (s.stop - 3) := by
  obtain ⟨_, before, hmatch⟩ := exists_of_mem_scanFrom hs
  rw [Nat.sub_zero, codeBlock] at hmatch
  split at hmatch
  · next hopen =>
      obtain ⟨i, hi, hlength⟩ := Option.map_eq_some_iff.mp hmatch
      have hclose := find?_eq_some hi
      rw [List.drop_drop, List.drop_drop] at hclose
      refine ⟨startsWith_iff.mp hopen, by omega, ?_⟩
      rwa [show s.stop - 3 = s.start + (3 + i) by omega]
  · contradiction

variable {a b : Text} {s : Span}

theorem infix_of_mem_scan_codeBlock (hs : s ∈ (a ++ b).scan codeBlock)
    (hstart : a.length ≤ s.start) : fence <:+: b := by
  have hopen := (fence_of_mem_scan_codeBlock hs).1
  rw [List.drop_append, List.drop_eq_nil_of_le hstart, List.nil_append] at hopen
  exact hopen.isInfix.trans (List.drop_suffix _ b).isInfix

theorem fence_suffix_of_mem_scan_codeBlock (hs : s ∈ (a ++ b).scan codeBlock)
    (hstop : s.stop = a.length) : fence <:+ a := by
  obtain ⟨_, hlong, hclose⟩ := fence_of_mem_scan_codeBlock hs
  rw [hstop, List.drop_append_of_le_length (Nat.sub_le _ _)] at hclose
  have hlength : (a.drop (a.length - 3)).length = 3 := by
    rw [List.length_drop]
    omega
  have hlast := List.prefix_of_prefix_length_le hclose (List.prefix_append _ b) hlength.ge
  rw [hlast.eq_of_length hlength.symm]
  exact List.drop_suffix _ a

/-- No code block ends behind one that a text without fences follows. -/
theorem stop_le_of_mem_scan_codeBlock {s' : Span} (hb : ¬fence <:+: b)
    (hs : s ∈ (a ++ b).scan codeBlock) (hstop : s.stop = a.length)
    (hs' : s' ∈ (a ++ b).scan codeBlock) : s'.stop ≤ a.length := by
  rcases eq_or_rel_of_pairwise (pairwise_scan codeBlock (a ++ b)) hs hs' with rfl | h | h
  · exact hstop.le
  · exact absurd (infix_of_mem_scan_codeBlock hs' (hstop ▸ h)) hb
  · have := (fence_of_mem_scan_codeBlock hs).2.1
    omega

end Markup

/-! ## Inline code among the ranges -/

namespace ExcludedRange

def shift (n : Nat) (r : ExcludedRange) : ExcludedRange :=
  { r with start := r.start + n, stop := r.stop + n }

end ExcludedRange

def codeRange (t : Text) (s : Span) : ExcludedRange :=
  (⟨s, .inlineCode, "インラインコード検出"⟩ : Candidate).range t

theorem codeRange_injective (t : Text) : Function.Injective (codeRange t) := by
  intro s s' h
  simp only [codeRange, Candidate.range, ExcludedRange.mk.injEq, Int.ofNat_inj] at h
  cases s
  cases s'
  simp_all

theorem codeRange_append (a b : Text) (s : Span) :
    codeRange (a ++ b) (s.shift a.length) = (codeRange b s).shift a.length := by
  have hcontent : (a ++ b).slice (s.shift a.length) = b.slice s := by
    rw [Text.slice, Text.slice, Span.shift, Nat.add_comm s.stop, Nat.add_comm s.start,
      List.take_length_add_append, List.drop_length_add_append]
  simp only [codeRange, Candidate.range, ExcludedRange.shift, hcontent]
  simp only [Span.shift, Int.natCast_add]

namespace Detection

section InlineCode

variable {t : Text} {on : FilterSwitch → Bool} {custom : List Candidate} {r : ExcludedRange}

def codeBlockPass (t : Text) (on : FilterSwitch → Bool) : Detection :=
  offerAll t (ifOn (on .codeBlocks) (codeBlockCandidates t)) {}

theorem exists_of_mem_codeBlockPass (hr : r ∈ (codeBlockPass t on).accepted) :
    ∃ s ∈ t.scan Markup.codeBlock, r = (⟨s, .codeBlock, "コードブロック検出"⟩ : Candidate).range t := by
  rcases mem_offerEach hr with hr | ⟨c, hc, _, rfl⟩
  · simp at hr
  · obtain ⟨s, hs, rfl⟩ := List.mem_map.mp (mem_ifOn.mp hc).2
    exact ⟨s, hs, rfl⟩

/-- The passes behind that for inline code add neither code blocks nor inline code. -/
theorem mem_ranges_code (hcustom : ∀ c ∈ custom, c.kind = .custom) (hr : r.kind.priority ≤ 1) :
    r ∈ (runWith t on custom).ranges ↔
      r ∈ (offerAll t (ifOn (on .inlineCode) (inlineCodeCandidates t))
        (codeBlockPass t on)).accepted := by
  have hurl : Ranked 2 2 (ifOn (on .urls) (urlCandidates t)) := (ranked_urlCandidates t).ifOn _
  have hkey : Ranked 3 3 (ifOn (on .configKeys) (configKeyCandidates t)) :=
    (ranked_candidates .configKey _ _).ifOn _
  have hsplit : inlineCandidates t on custom = ifOn (on .codeBlocks) (codeBlockCandidates t) ++
      (ifOn (on .inlineCode) (inlineCodeCandidates t) ++ (ifOn (on .urls) (urlCandidates t) ++
        (ifOn (on .configKeys) (configKeyCandidates t) ++ custom))) := by
    simp only [inlineCandidates, List.append_assoc]
  have hlate : ∀ c ∈ ifOn (on .urls) (urlCandidates t) ++
      (ifOn (on .configKeys) (configKeyCandidates t) ++ custom), 2 ≤ c.kind.priority := by
    intro c hc
    rcases List.mem_append.mp hc with hc | hc
    · exact hurl.low_le c hc
    · rcases List.mem_append.mp hc with hc | hc
      · exact Nat.le_of_succ_le (hkey.low_le c hc)
      · rw [hcustom c hc]
        decide
  rw [mem_ranges, mem_runWith_iff_inline (by omega), hsplit, offerAll, offerEach_append,
    offerEach_append]
  apply mem_offerEach_of_kind
  intro c hc heq
  have := hlate c hc
  rw [heq] at this
  omega

theorem mem_ranges_codeBlock (hcustom : ∀ c ∈ custom, c.kind = .custom)
    (hr : r.kind = .codeBlock) :
    r ∈ (runWith t on custom).ranges ↔ r ∈ (codeBlockPass t on).accepted := by
  rw [mem_ranges_code hcustom (by rw [hr]; decide)]
  apply mem_offerEach_of_kind
  intro c hc heq
  obtain ⟨s, _, rfl⟩ := List.mem_map.mp (mem_ifOn.mp hc).2
  rw [hr] at heq
  contradiction

theorem exists_scan_of_codeBlock (hcustom : ∀ c ∈ custom, c.kind = .custom)
    (hr : r ∈ (runWith t on custom).ranges) (hkind : r.kind = .codeBlock) :
    ∃ s ∈ t.scan Markup.codeBlock, r.stop = s.stop := by
  obtain ⟨s, hs, rfl⟩ := exists_of_mem_codeBlockPass ((mem_ranges_codeBlock hcustom hkind).mp hr)
  exact ⟨s, hs, rfl⟩

theorem mem_ranges_inlineCode (hcustom : ∀ c ∈ custom, c.kind = .custom)
    (hon : on .inlineCode = true) (hr : r.kind = .inlineCode) :
    r ∈ (runWith t on custom).ranges ↔ ∃ c ∈ inlineCodeCandidates t,
      c.span.start < c.span.stop ∧ c.overlaps (codeBlockPass t on).accepted = false ∧
        r = c.range t := by
  have hnew : r ∉ (codeBlockPass t on).accepted := by
    intro hold
    obtain ⟨s, _, rfl⟩ := exists_of_mem_codeBlockPass hold
    contradiction
  have hcs : ifOn (on .inlineCode) (inlineCodeCandidates t) = inlineCodeCandidates t := by
    rw [hon]
    rfl
  rw [mem_ranges_code hcustom (by rw [hr]; decide), hcs, offerAll, mem_offerEach_iff,
    or_iff_right hnew]
  -- matches follow each other, so that none blocks another
  intro pre c post hsplit
  have hordered : (inlineCodeCandidates t).Pairwise fun c c' => c.span.stop ≤ c'.span.start :=
    List.pairwise_map.mpr (Text.pairwise_scan Markup.inlineCode t)
  rw [hsplit] at hordered
  exact overlaps_accepted_offerEach fun c' hc' =>
    (List.pairwise_append.mp hordered).2.2 c' hc' c List.mem_cons_self

theorem mem_ranges_inlineCode_behind (hcustom : ∀ c ∈ custom, c.kind = .custom)
    (hon : on .inlineCode = true) {n : Nat}
    (hblocks : ∀ r ∈ (runWith t on custom).ranges, r.kind = .codeBlock → r.stop ≤ n) :
    (r ∈ (runWith t on custom).ranges ∧ r.kind = .inlineCode ∧ (n : Int) ≤ r.start) ↔
      ∃ s ∈ t.scan Markup.inlineCode, n ≤ s.start ∧ codeRange t s = r := by
  constructor
  · rintro ⟨hr, hkind, hstart⟩
    obtain ⟨c, hc, _, _, rfl⟩ := (mem_ranges_inlineCode hcustom hon hkind).mp hr
    obtain ⟨s, hs, rfl⟩ := List.mem_map.mp hc
    exact ⟨s, hs, Int.ofNat_le.mp hstart, rfl⟩
  · rintro ⟨s, hs, hstart, rfl⟩
    have hlong := (Text.bounds_of_mem_scan Markup.bounded_inlineCode hs).1
    refine ⟨(mem_ranges_inlineCode hcustom hon rfl).mpr
      ⟨_, List.mem_map_of_mem hs, hlong, ?_, rfl⟩, rfl, Int.ofNat_le.mpr hstart⟩
    rw [Candidate.overlaps_eq_false_iff]
    intro r hr
    have hkind : r.kind = .codeBlock := by
      obtain ⟨_, _, rfl⟩ := exists_of_mem_codeBlockPass hr
      rfl
    have hstop := hblocks r ((mem_ranges_codeBlock hcustom hkind).mpr hr) hkind
    rw [← Bool.not_eq_true, ExcludedRange.overlaps_iff]
    simp only
    omega

theorem filter_ranges_inlineCode (hfit : Fit t custom) (hcustom : ∀ c ∈ custom, c.kind = .custom)
    (hon : on .inlineCode = true) {n : Nat}
    (hblocks : ∀ r ∈ (runWith t on custom).ranges, r.kind = .codeBlock → r.stop ≤ n) :
    (runWith t on custom).ranges.filter (fun r => r.kind = .inlineCode ∧ (n : Int) ≤ r.start) =
      ((t.scan Markup.inlineCode).filter (n ≤ ·.start)).map (codeRange t) := by
  -- both lists go from left to right, so that it is enough that they have the same members
  have hirrefl : Std.Irrefl fun r s : ExcludedRange => r.start < s.start := ⟨fun r => lt_irrefl _⟩
  apply List.Pairwise.eq_of_mem_iff (r := fun r s : ExcludedRange => r.start < s.start)
  · have hdetected := (passesDone_runWith t on hfit hcustom).detected
    have hkind := hdetected.pairwise_kind .inlineCode
    rw [List.pairwise_filter] at hkind ⊢
    refine hkind.imp_of_mem fun {r s} hr hs hrs hr' hs' => ?_
    rw [decide_eq_true_eq] at hr' hs'
    have hle := hrs (decide_eq_true hr'.1) (decide_eq_true hs'.1)
    have hwithin := hdetected.within r hr
    omega
  · refine List.pairwise_map.mpr (((Text.pairwise_scan Markup.inlineCode t).sublist
      List.filter_sublist).imp_of_mem ?_)
    intro s s' hs _ hle
    have hlong := (Text.bounds_of_mem_scan Markup.bounded_inlineCode (List.mem_filter.mp hs).1).1
    show (s.start : Int) < s'.start
    omega
  · intro r
    simp only [List.mem_filter, List.mem_map, decide_eq_true_eq, and_assoc]
    exact mem_ranges_inlineCode_behind hcustom hon hblocks

theorem filter_ranges_inlineCode_of_no_block (hfit : Fit t custom)
    (hcustom : ∀ c ∈ custom, c.kind = .custom) (hon : on .inlineCode = true)
    (hblocks : ∀ r ∈ (runWith t on custom).ranges, r.kind ≠ .codeBlock) :
    (runWith t on custom).ranges.filter (·.kind = .inlineCode) =
      (t.scan Markup.inlineCode).map (codeRange t) := by
  have hall := filter_ranges_inlineCode (n := 0) hfit hcustom hon
    fun r hr hkind => absurd hkind (hblocks r hr)
  have hscan : (t.scan Markup.inlineCode).filter (0 ≤ ·.start) = t.scan Markup.inlineCode := by
    rw [List.filter_eq_self]
    intro s _
    exact decide_eq_true (Nat.zero_le s.start)
  rw [hscan] at hall
  rw [← hall]
  apply List.filter_congr
  intro r hr
  have hstart := ((passesDone_runWith t on hfit hcustom).detected.within r hr).1
  rw [decide_eq_decide, Int.natCast_zero, and_iff_left hstart]

end InlineCode

end Detection

/-- Behind a code block detection finds the inline code of the text that follows, unless a first
piece of it stands behind other text of the closing fence's line. -/
theorem detect?_inlineCode_append_iff (a b : Text) (cfg : FilterConfig)
    (hon : cfg.switches .inlineCode = true) (hb : ¬Markup.fence <:+: b)
    {rs : List ExcludedRange} (hrs : detect? (a ++ b) cfg = some rs)
    (hblock : ∃ r ∈ rs, r.kind = .codeBlock ∧ r.stop = a.length) :
    ∃ rs', detect? b cfg = some rs' ∧
      (rs.filter (fun r => r.kind = .inlineCode ∧ (a.length : Int) ≤ r.start) =
          (rs'.filter (·.kind = .inlineCode)).map (·.shift a.length) ↔
        ¬Markup.CodeBehindText b) := by
  have hfit := fun t => Detection.fit_customCandidates t cfg
  have hcustom := fun t => Detection.kind_of_mem_customCandidates t cfg
  obtain ⟨d, hd, rfl⟩ := Option.map_eq_some_iff.mp hrs
  -- whether detection fails is up to the patterns alone
  have hsome : Detection.run? b cfg ≠ none := by
    rw [Ne, Detection.run?_eq_none_iff, ← Detection.run?_eq_none_iff (t := a ++ b), hd]
    simp
  refine ⟨_, by rw [detect?, Detection.run?_eq_of_ne_none hsome, Option.map_some], ?_⟩
  obtain rfl := Detection.run?_eq_some hd
  obtain ⟨r, hr, hkind, hstop⟩ := hblock
  obtain ⟨s, hs, hsstop⟩ := Detection.exists_scan_of_codeBlock (hcustom _) hr hkind
  have hend : s.stop = a.length := by omega
  have hbefore := Detection.filter_ranges_inlineCode (hfit (a ++ b)) (hcustom _) hon
    (n := a.length) fun r hr hkind => by
      obtain ⟨s', hs', hrstop⟩ := Detection.exists_scan_of_codeBlock (hcustom _) hr hkind
      have := Markup.stop_le_of_mem_scan_codeBlock hb hs hend hs'
      omega
  have hbehind := Detection.filter_ranges_inlineCode_of_no_block (hfit b) (hcustom b) hon
    fun r hr hkind => by
      obtain ⟨s', hs', _⟩ := Detection.exists_scan_of_codeBlock (hcustom b) hr hkind
      exact hb (Markup.infix_of_mem_scan_codeBlock (a := []) hs' (Nat.zero_le _))
  have hmoved : ((b.scan Markup.inlineCode).map (codeRange b)).map (·.shift a.length) =
      ((b.scan Markup.inlineCode).map (·.shift a.length)).map (codeRange (a ++ b)) := by
    simp only [List.map_map, Function.comp_def, codeRange_append]
  rw [hbefore, hbehind, hmoved, (List.map_injective_iff.mpr (codeRange_injective _)).eq_iff]
  exact Markup.filter_scan_inlineCode_iff
    (Markup.fence_suffix_of_mem_scan_codeBlock hs hend) b

theorem detect?_inlineCode_append_iff_line :
    let a := "```\nx\n```".toList
    let b := "\n`c`".toList
    ({} : FilterConfig).switches .inlineCode = true ∧ ¬Markup.fence <:+: b ∧
      ∃ rs, detect? (a ++ b) {} = some rs ∧ (∃ r ∈ rs, r.kind = .codeBlock ∧ r.stop = a.length) ∧
        ∃ rs', detect? b {} = some rs' ∧
          (rs.filter (fun r => r.kind = .inlineCode ∧ (a.length : Int) ≤ r.start) =
              (rs'.filter (·.kind = .inlineCode)).map (·.shift a.length) ↔
            ¬Markup.CodeBehindText b) := by
  intro a b
  have hb : ¬Markup.fence <:+: b := by decide +kernel
  have hblock : ∃ r ∈ (Detection.runWith (a ++ b) ({} : FilterConfig).switches []).ranges,
      r.kind = .codeBlock ∧ r.stop = a.length := by
    have haccepted : ∃ r ∈ (Detection.runWith (a ++ b) ({} : FilterConfig).switches []).accepted,
        r.kind = .codeBlock ∧ r.stop = a.length := by decide +kernel
    obtain ⟨r, hr, hkind⟩ := haccepted
    exact ⟨r, Detection.mem_ranges.mpr hr, hkind⟩
  exact ⟨rfl, hb, _, rfl, hblock, detect?_inlineCode_append_iff a b {} rfl hb rfl hblock⟩

/-- The closing fence takes the backtick that opens the inline code. -/
theorem inlineCode_lost_behind_fence :
    let a := "``````".toList
    let b := "a`b`".toList
    let block : ExcludedRange := ⟨0, 6, .codeBlock, a, "コードブロック検出"⟩
    let code : ExcludedRange := ⟨1, 4, .inlineCode, "`b`".toList, "インラインコード検出"⟩
    ¬Markup.fence <:+: b ∧ block.stop = a.length ∧ detect? (a ++ b) {} = some [block] ∧
      detect? b {} = some [code] ∧
      [block].filter (fun r => r.kind = .inlineCode ∧ (a.length : Int) ≤ r.start) ≠
        ([code].filter (·.kind = .inlineCode)).map (·.shift a.length) := by
  intro a b block code
  have hdetect {t : Text} {r : ExcludedRange}
      (h : (Detection.runWith t ({} : FilterConfig).switches []).accepted = [r]) :
      detect? t {} = some [r] := by
    have hranges : detect? t {} =
        some (Detection.runWith t ({} : FilterConfig).switches []).ranges := rfl
    rw [hranges, Detection.ranges_eq_singleton h]
  exact ⟨by decide +kernel, rfl, hdetect (by decide +kernel), hdetect (by decide +kernel),
    by decide +kernel⟩

end Kouetsu
