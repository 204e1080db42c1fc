import Kouetsu.Proofs.Rule.Chain
import Kouetsu.Rule.Basic
import Mathlib.Data.List.Nodup
import Mathlib.Data.List.TakeWhile
/-!
# Chains of nouns

The check of noun chains reports each place of a known compound, and each maximal run of nouns that
is long enough and lies in no such place.  Runs are reported in the order of the tokens.  No run
that is reported spans a later one, so the places alone keep runs from being reported.
-/

namespace Kouetsu

/-! ## Runs of nouns -/

structure NounRun where
  first : Token
  rest : List Token

namespace NounRun

def tokens (r : NounRun) : List Token := r.first :: r.rest

def last (r : NounRun) : Token := (r.first :: r.rest).getLast (List.cons_ne_nil _ _)

def start (r : NounRun) : Int := r.first.start

def stop (r : NounRun) : Int := r.last.stop

def ofTokens? : List Token → Option NounRun
  | [] => none
  | first :: rest => some ⟨first, rest⟩

/-- The nouns of a list of tokens between two others, or between an end and another. -/
structure MaximalIn (r : NounRun) (all : List Token) : Prop where
  nouns : ∀ k ∈ r.tokens, k.isNoun = true
  split : ∃ before after, all = before ++ r.tokens ++ after ∧
    (∀ k, before.getLast? = some k → k.isNoun = false) ∧
    ∀ k, after.head? = some k → k.isNoun = false

theorem tokens_injective : Function.Injective tokens := by
  rintro ⟨first, rest⟩ ⟨first', rest'⟩ h
  obtain ⟨rfl, rfl⟩ := List.cons.inj h
  rfl

theorem ofTokens?_eq_some {tokens : List Token} {r : NounRun} :
    ofTokens? tokens = some r ↔ tokens = r.tokens := by
  cases tokens with
  | nil => simp [ofTokens?, NounRun.tokens]
  | cons first rest =>
      rw [ofTokens?, Option.some.injEq]
      exact ⟨fun h => h ▸ rfl, fun h => tokens_injective h⟩

theorem last_mem (r : NounRun) : r.last ∈ r.tokens := List.getLast_mem _

/-- Tokens that are ordered and not empty stop after they start, as a run. -/
theorem start_lt_stop {r : NounRun} (hordered : r.tokens.Pairwise fun a b => a.stop ≤ b.start)
    (hpos : ∀ k ∈ r.tokens, k.start < k.stop) : r.start < r.stop := by
  show r.first.start < r.last.stop
  have hlast := hpos _ r.last_mem
  rcases List.mem_cons.mp r.last_mem with hfirst | hrest
  · rwa [hfirst] at hlast ⊢
  · have hfirst := hpos _ (List.mem_cons_self : r.first ∈ r.tokens)
    have hbetween := List.rel_of_pairwise_cons hordered hrest
    omega

end NounRun

namespace Check

/-! ## Cutting tokens into runs -/

/-- A maximal run of nouns after a token that is none. -/
private structure InnerRun (r : NounRun) (all : List Token) : Prop where
  nouns : ∀ k ∈ r.tokens, k.isNoun = true
  split : ∃ before other after, all = before ++ other :: (r.tokens ++ after) ∧
    other.isNoun = false ∧ ∀ k, after.head? = some k → k.isNoun = false

private theorem takeWhile_eq_iff {all run : List Token} : all.takeWhile (·.isNoun) = run ↔
    (∀ k ∈ run, k.isNoun = true) ∧
      ∃ after, all = run ++ after ∧ ∀ k, after.head? = some k → k.isNoun = false := by
  constructor
  · rintro rfl
    refine ⟨fun _ => List.mem_takeWhile_imp, all.dropWhile (·.isNoun),
      List.takeWhile_append_dropWhile.symm, fun k hk => ?_⟩
    have hhead := List.head?_dropWhile_not (fun k : Token => k.isNoun) all
    rwa [hk] at hhead
  · rintro ⟨hrun, after, rfl, hafter⟩
    rw [List.takeWhile_append_of_pos hrun]
    cases after with
    | nil => simp
    | cons k after => simp [hafter k rfl]

private theorem maximalIn_iff {r : NounRun} {all : List Token} :
    r.MaximalIn all ↔ all.takeWhile (·.isNoun) = r.tokens ∨ InnerRun r all := by
  constructor
  · rintro ⟨hnouns, before, after, rfl, hbefore, hafter⟩
    rcases List.eq_nil_or_concat' before with rfl | ⟨before, other, rfl⟩
    · exact Or.inl (takeWhile_eq_iff.mpr ⟨hnouns, after, rfl, hafter⟩)
    · refine Or.inr ⟨hnouns, before, other, after, by simp, hbefore other ?_, hafter⟩
      exact List.getLast?_concat
  · rintro (hopen | ⟨hnouns, before, other, after, rfl, hother, hafter⟩)
    · obtain ⟨hnouns, after, rfl, hafter⟩ := takeWhile_eq_iff.mp hopen
      exact ⟨hnouns, [], after, rfl, fun k hk => absurd hk (by simp), hafter⟩
    · refine ⟨hnouns, before ++ [other], after, by simp, fun k hk => ?_, hafter⟩
      rw [List.getLast?_concat, Option.some.injEq] at hk
      exact hk ▸ hother

private theorem innerRun_cons_of_noun {r : NounRun} {k : Token} {rest : List Token}
    (hk : k.isNoun = true) : InnerRun r (k :: rest) ↔ InnerRun r rest := by
  constructor
  · rintro ⟨hnouns, before, other, after, hsplit, hother, hafter⟩
    cases before with
    | nil =>
        obtain ⟨rfl, _⟩ := List.cons.inj hsplit
        rw [hk] at hother
        contradiction
    | cons k' before =>
        exact ⟨hnouns, before, other, after, (List.cons.inj hsplit).2, hother, hafter⟩
  · rintro ⟨hnouns, before, other, after, rfl, hother, hafter⟩
    exact ⟨hnouns, k :: before, other, after, rfl, hother, hafter⟩

private theorem innerRun_cons_of_not_noun {r : NounRun} {k : Token} {rest : List Token}
    (hk : k.isNoun = false) : InnerRun r (k :: rest) ↔ r.MaximalIn rest := by
  rw [maximalIn_iff]
  constructor
  · rintro ⟨hnouns, before, other, after, hsplit, hother, hafter⟩
    cases before with
    | nil => exact Or.inl (takeWhile_eq_iff.mpr ⟨hnouns, after, (List.cons.inj hsplit).2, hafter⟩)
    | cons k' before =>
        exact Or.inr ⟨hnouns, before, other, after, (List.cons.inj hsplit).2, hother, hafter⟩
  · rintro (hopen | ⟨hnouns, before, other, after, rfl, hother, hafter⟩)
    · obtain ⟨hnouns, after, rfl, hafter⟩ := takeWhile_eq_iff.mp hopen
      exact ⟨hnouns, [], k, after, rfl, hk, hafter⟩
    · exact ⟨hnouns, k :: before, other, after, rfl, hother, hafter⟩

/-- The first run is the one that is still open at the start of the tokens. -/
private theorem exists_nounRuns_eq (all : List Token) :
    ∃ more, nounRuns all = all.takeWhile (·.isNoun) :: more ∧
      ∀ r : NounRun, r.tokens ∈ more ↔ InnerRun r all := by
  induction all with
  | nil =>
      refine ⟨[], rfl, fun r => ⟨fun h => absurd h List.not_mem_nil, ?_⟩⟩
      rintro ⟨_, before, other, after, hsplit, _⟩
      simp at hsplit
  | cons k rest ih =>
      obtain ⟨more, hmore, hmem⟩ := ih
      rw [nounRuns, hmore]
      -- a noun goes into the open run, any other token closes it
      cases hk : k.isNoun with
      | true =>
          refine ⟨more, by simp [hk], fun r => ?_⟩
          rw [hmem, innerRun_cons_of_noun hk]
      | false =>
          refine ⟨rest.takeWhile (·.isNoun) :: more, by simp [hk], fun r => ?_⟩
          rw [List.mem_cons, hmem, innerRun_cons_of_not_noun hk, maximalIn_iff, eq_comm]

theorem mem_nounRuns_iff {all : List Token} {r : NounRun} :
    r.tokens ∈ nounRuns all ↔ r.MaximalIn all := by
  obtain ⟨more, hmore, hmem⟩ := exists_nounRuns_eq all
  rw [hmore, List.mem_cons, hmem, maximalIn_iff, eq_comm]

/-- The runs of a list of tokens, without the empty ones between two others. -/
def nounRunsOf (all : List Token) : List NounRun := (nounRuns all).filterMap NounRun.ofTokens?

theorem mem_nounRunsOf_iff {all : List Token} {r : NounRun} :
    r ∈ nounRunsOf all ↔ r.MaximalIn all := by
  rw [← mem_nounRuns_iff, nounRunsOf, List.mem_filterMap]
  simp only [NounRun.ofTokens?_eq_some]
  exact ⟨fun ⟨_, hmem, htokens⟩ => htokens ▸ hmem, fun hmem => ⟨_, hmem, rfl⟩⟩

section Ordered

variable {all : List Token} (hordered : all.Pairwise fun a b => a.stop ≤ b.start)
include hordered

theorem pairwise_nounRunsOf : (nounRunsOf all).Pairwise fun a b => a.stop ≤ b.start := by
  have hflat : (nounRuns all).flatten.Pairwise fun a b => a.stop ≤ b.start :=
    flatten_nounRuns all ▸ hordered.sublist List.filter_sublist
  have hruns := (List.pairwise_flatten.mp hflat).2
  refine hruns.filterMap _ fun run run' hrel r hr r' hr' => ?_
  obtain rfl := NounRun.ofTokens?_eq_some.mp hr
  obtain rfl := NounRun.ofTokens?_eq_some.mp hr'
  exact hrel _ r.last_mem _ List.mem_cons_self

theorem start_lt_stop_of_mem_nounRunsOf (hpos : ∀ k ∈ all, k.start < k.stop) {r : NounRun}
    (hr : r ∈ nounRunsOf all) : r.start < r.stop := by
  obtain ⟨_, before, after, rfl, _⟩ := mem_nounRunsOf_iff.mp hr
  refine NounRun.start_lt_stop ?_ fun k hk => hpos k (by simp [hk])
  exact hordered.sublist ((List.sublist_append_right _ _).trans (List.sublist_append_left _ _))

end Ordered

/-! ## Reporting runs -/

def nounFinding (start stop : Int) (advice : String) : Finding :=
  ⟨start, stop, "名詞が連続して読みにくくなっています。" ++ advice, [advice]⟩

def placeFinding (o : Occurrence String) : Finding := nounFinding o.span.start o.span.stop o.entry

/-- The finding on a run, from the start of the first token to the stop of the last. -/
def runFinding (r : NounRun) : Finding :=
  nounFinding r.start r.stop "名詞の間に助詞を挿入して読みやすくしてください"

def isReported (limit : Nat) (found : List Finding) (r : NounRun) : Bool :=
  limit ≤ r.tokens.length && !found.any (·.spans r.start r.stop)

theorem isReported_iff {limit : Nat} {found : List Finding} {r : NounRun} :
    isReported limit found r = true ↔
      limit ≤ r.tokens.length ∧ ∀ f ∈ found, ¬(f.start ≤ r.start ∧ r.stop ≤ f.stop) := by
  simp only [isReported, Finding.spans, Bool.and_eq_true, decide_eq_true_eq, Bool.not_eq_true',
    List.any_eq_false]

theorem addNounRun_nil {limit : Nat} (hlimit : 1 ≤ limit) (found : List Finding) :
    addNounRun limit found [] = some found := by
  rw [addNounRun, if_pos (show ([] : List Token).length < limit from hlimit)]

theorem addNounRun_tokens (limit : Nat) (found : List Finding) (r : NounRun) :
    addNounRun limit found r.tokens =
      some (if isReported limit found r then found ++ [runFinding r] else found) := by
  have hlast : r.tokens.getLast? = some r.last := List.getLast?_eq_some_getLast _
  rw [addNounRun, hlast, show r.tokens.head? = some r.first from rfl]
  by_cases hshort : r.tokens.length < limit
  · have hreported : isReported limit found r = false := by
      simp [isReported, Nat.not_le.mpr hshort]
    rw [if_pos hshort, hreported, if_neg (by simp)]
  · have hreported : isReported limit found r = !found.any (·.spans r.start r.stop) := by
      simp [isReported, Nat.le_of_not_lt hshort]
    rw [if_neg hshort, hreported]
    show (if found.any (·.spans r.start r.stop) then some found
      else some (found ++ [runFinding r])) = _
    cases found.any (·.spans r.start r.stop) <;> rfl

theorem spans_runFinding {r r' : NounRun} (hlater : r.stop ≤ r'.start) (hpos : r'.start < r'.stop) :
    (runFinding r).spans r'.start r'.stop = false := by
  have hstop : (runFinding r).stop = r.stop := rfl
  rw [Finding.spans, hstop, decide_eq_false (show ¬r'.stop ≤ r.stop by omega), Bool.and_false]

/-- What is spanned by the findings so far is spanned by those from which they have grown. -/
theorem foldlM_addNounRun {limit : Nat} (hlimit : 1 ≤ limit) {base : List Finding}
    {pieces : List (List Token)}
    (hordered : (pieces.filterMap NounRun.ofTokens?).Pairwise fun a b => a.stop ≤ b.start)
    (hpos : ∀ r ∈ pieces.filterMap NounRun.ofTokens?, r.start < r.stop) {found : List Finding}
    (hfound : ∀ r ∈ pieces.filterMap NounRun.ofTokens?,
      found.any (·.spans r.start r.stop) = base.any (·.spans r.start r.stop)) :
    pieces.foldlM (addNounRun limit) found = some (found ++
      ((pieces.filterMap NounRun.ofTokens?).filter (isReported limit base)).map runFinding) := by
  induction pieces generalizing found with
  | nil => simp
  | cons piece pieces ih =>
      rw [List.foldlM_cons]
      cases piece with
      | nil =>
          rw [addNounRun_nil hlimit]
          exact ih hordered hpos hfound
      | cons first rest =>
          obtain ⟨r, hr⟩ : ∃ r : NounRun, r.tokens = first :: rest := ⟨⟨first, rest⟩, rfl⟩
          have hruns : ((first :: rest) :: pieces).filterMap NounRun.ofTokens? =
              r :: pieces.filterMap NounRun.ofTokens? :=
            List.filterMap_cons_some (NounRun.ofTokens?_eq_some.mpr hr.symm)
          rw [hruns] at hordered hpos hfound ⊢
          obtain ⟨hlater, hordered⟩ := List.pairwise_cons.mp hordered
          obtain ⟨_, hpos⟩ := List.forall_mem_cons.mp hpos
          obtain ⟨hfirst, hfound⟩ := List.forall_mem_cons.mp hfound
          rw [← hr, addNounRun_tokens, isReported, hfirst, ← isReported, List.filter_cons]
          cases isReported limit base r with
          | false => exact ih hordered hpos hfound
          | true =>
              -- the new finding lies before the later runs, so it spans none of them
              have hgrown : ∀ r' ∈ pieces.filterMap NounRun.ofTokens?,
                  (found ++ [runFinding r]).any (·.spans r'.start r'.stop) =
                    base.any (·.spans r'.start r'.stop) := by
                intro r' hr'
                rw [List.any_append, hfound r' hr', List.any_cons, List.any_nil,
                  spans_runFinding (hlater r' hr') (hpos r' hr'), Bool.or_false, Bool.or_false]
              rw [if_pos rfl, if_pos rfl, List.map_cons]
              refine (ih hordered hpos hgrown).trans ?_
              rw [List.append_assoc, List.singleton_append]

end Check

/-! ## Places of phrases -/

/-- The place of a phrase of a table, where the phrase stands in a text. -/
structure Occurrence.Shows {α : Type} (o : Occurrence α) (table : List (String × α)) (t : Text) :
    Prop where
  entry : (o.phrase, o.entry) ∈ table
  text : o.phrase.toList <+: t.drop o.span.start
  stop : o.span.stop = o.span.start + o.phrase.length

theorem mem_occurrencesOf_iff {α : Type} {table : List (String × α)}
    (htable : ∀ x ∈ table, x.1.toList ≠ []) {t : Text} {o : Occurrence α} :
    o ∈ occurrencesOf table t ↔ o.Shows table t := by
  rw [occurrencesOf, List.mem_flatMap]
  constructor
  · rintro ⟨x, hx, ho⟩
    obtain ⟨i, hi, rfl⟩ := List.mem_map.mp ho
    exact ⟨hx, (Text.mem_occurrences (htable x hx)).mp hi, rfl⟩
  · obtain ⟨⟨start, stop⟩, phrase, entry⟩ := o
    rintro ⟨hentry, htext, hstop⟩
    obtain rfl : stop = start + phrase.length := hstop
    exact ⟨_, hentry, List.mem_map.mpr
      ⟨start, (Text.mem_occurrences (htable _ hentry)).mpr htext, rfl⟩⟩

theorem nodup_occurrencesOf {α : Type} {table : List (String × α)}
    (htable : (table.map (·.1)).Nodup) (t : Text) : (occurrencesOf table t).Nodup := by
  rw [occurrencesOf, List.nodup_flatMap]
  constructor
  · intro x _
    refine List.Nodup.map (fun i j hij => ?_) ((t.pairwise_occurrences _).imp Nat.ne_of_lt)
    exact congrArg (fun o : Occurrence α => o.span.start) hij
  · refine (List.pairwise_map.mp htable).imp fun hne o ho ho' => hne ?_
    obtain ⟨i, _, rfl⟩ := List.mem_map.mp ho
    obtain ⟨j, _, hj⟩ := List.mem_map.mp ho'
    exact congrArg Occurrence.phrase hj.symm

namespace Check

/-- What the check finds: places of known compounds, and runs of nouns in their order. -/
structure NounChainReport (c : Context) (places : List (Occurrence String)) (runs : List NounRun) :
    Prop where
  found : nounChain.findings? c = some (places.map placeFinding ++ runs.map runFinding)
  places_nodup : places.Nodup
  mem_places : ∀ o, o ∈ places ↔ o.Shows knownCompounds c.text
  runs_nodup : runs.Nodup
  runs_ordered : runs.Pairwise fun a b => a.stop ≤ b.start
  mem_runs : ∀ r, r ∈ runs ↔
    r.MaximalIn c.tokens ∧ c.config.limits .nounChain ≤ r.tokens.length ∧
      ∀ o ∈ places, ¬(o.span.start ≤ r.start ∧ r.stop ≤ o.span.stop)

/-- Under ordered tokens that are not empty, the check reports every place of a known compound once,
and every maximal run of nouns that is long enough once, unless such a place spans it. -/
theorem nounChain_exact {c : Context} (hordered : c.tokens.Pairwise fun a b => a.stop ≤ b.start)
    (hpos : ∀ k ∈ c.tokens, k.start < k.stop) (hlimit : 1 ≤ c.config.limits .nounChain) :
    ∃ places runs, NounChainReport c places runs := by
  have hruns : (nounRunsOf c.tokens).Pairwise fun a b => a.stop ≤ b.start :=
    pairwise_nounRunsOf hordered
  have hstops : ∀ r ∈ nounRunsOf c.tokens, r.start < r.stop := fun r hr =>
    start_lt_stop_of_mem_nounRunsOf hordered hpos hr
  have hdistinct : (nounRunsOf c.tokens).Nodup := by
    refine hruns.imp_of_mem fun {r r'} hr _ hlater => ?_
    rintro rfl
    have := hstops r hr
    omega
  refine ⟨occurrencesOf knownCompounds c.text, (nounRunsOf c.tokens).filter (isReported
    (c.config.limits .nounChain) ((occurrencesOf knownCompounds c.text).map placeFinding)),
    foldlM_addNounRun hlimit hruns hstops fun _ _ => rfl, nodup_occurrencesOf (by decide) _,
    fun o => mem_occurrencesOf_iff (by decide), hdistinct.filter _,
    hruns.sublist List.filter_sublist, fun r => ?_⟩
  rw [List.mem_filter, mem_nounRunsOf_iff, isReported_iff]
  simp only [List.forall_mem_map]
  rfl

/-- A known compound of three nouns, and two nouns that end the tokens. -/
private def compounds : Context :=
  .of "情報システム管理者連絡先の図表番号".toList
    [{ surface := "情報システム", pos := "名詞", start := 0, stop := 6 },
      { surface := "管理者", pos := "名詞", start := 6, stop := 9 },
      { surface := "連絡先", pos := "名詞", start := 9, stop := 12 },
      { surface := "の", pos := "助詞", start := 12, stop := 13 },
      { surface := "図表", pos := "名詞", start := 13, stop := 15 },
      { surface := "番号", pos := "名詞", start := 15, stop := 17 }] []
    { limits := fun _ => 2 }

theorem nounChain_exact_compounds :
    (compounds.tokens.Pairwise fun a b => a.stop ≤ b.start) ∧
      (∀ k ∈ compounds.tokens, k.start < k.stop) ∧ 1 ≤ compounds.config.limits .nounChain ∧
        ∃ places runs, NounChainReport compounds places runs :=
  ⟨by decide, by decide, by decide, nounChain_exact (by decide) (by decide) (by decide)⟩

end Check

end Kouetsu
