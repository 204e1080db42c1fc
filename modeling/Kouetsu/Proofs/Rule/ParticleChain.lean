import Kouetsu.Proofs.Rule.Chain
import Kouetsu.Proofs.Runs
import Kouetsu.Proofs.Text.Run
import Kouetsu.Rule.Basic
/-!
# Chains of particles

The check of particle chains reports the maximal chains of の that are long enough.  It looks for
them in each stretch without closing marks; a link crosses no such mark, so no chain leaves its
stretch, and the particles of a stretch are cut exactly where two neighbours are too far apart.
-/

namespace Kouetsu

namespace Text

theorem mem_occurrences_singleton {t : Text} {c : Char} {i : Nat} :
    i ∈ t.occurrences [c] ↔ t[i]? = some c := by
  rw [mem_occurrences (List.cons_ne_nil c []), ← List.head?_drop]
  cases t.drop i with
  | nil => simp
  | cons d rest => simp [eq_comm]

end Text

namespace Check

/-! ## Links -/

/-- Two particles near enough to each other, with neither a third one nor the end of a sentence or
of a line between them. -/
structure Linked (t : Text) (i j : Nat) : Prop where
  lt : i < j
  near : j - i ≤ 20
  first : t[i]? = some 'の'
  second : t[j]? = some 'の'
  between : ∀ k c, i < k → k < j → t[k]? = some c → c ≠ 'の' ∧ c ≠ '\n' ∧ isTerminator c = false

/-- Particles that follow each other in links, with no link to another before or after them. -/
structure IsParticleChain (t : Text) (chain : Run Nat) : Prop where
  particles : ∀ i ∈ chain.elements, t[i]? = some 'の'
  maximal : chain.Maximal (Linked t)

variable {t : Text} {s : Span} {i j : Nat} {chain : Run Nat}

theorem Linked.eq_right {j' : Nat} (h : Linked t i j) (h' : Linked t i j') : j = j' := by
  rcases Nat.lt_trichotomy j j' with hlt | heq | hgt
  · exact absurd rfl (h'.between j _ h.lt hlt h.second).1
  · exact heq
  · exact absurd rfl (h.between j' _ h'.lt hgt h'.second).1

theorem Linked.eq_left {i' : Nat} (h : Linked t i j) (h' : Linked t i' j) : i = i' := by
  rcases Nat.lt_trichotomy i i' with hlt | heq | hgt
  · exact absurd rfl (h.between i' _ hlt h'.lt h'.first).1
  · exact heq
  · exact absurd rfl (h'.between i _ hgt h.lt h.first).1

theorem biUnique_linked (t : Text) : Relator.BiUnique (Linked t) :=
  ⟨fun _ _ _ h h' => h.eq_left h', fun _ _ _ h h' => h.eq_right h'⟩

/-! ## Stretches -/

def isOpen (c : Char) : Bool := !isTerminator c && c ≠ '\n'

theorem isOpen_particle : isOpen 'の' = true := by decide

theorem Linked.isOpen (h : Linked t i j) (k : Nat) (hlow : i ≤ k) (hhigh : k ≤ j) :
    ∃ c, t[k]? = some c ∧ Check.isOpen c = true := by
  rcases Nat.eq_or_lt_of_le hlow with rfl | hlow
  · exact ⟨_, h.first, isOpen_particle⟩
  rcases Nat.eq_or_lt_of_le hhigh with rfl | hhigh
  · exact ⟨_, h.second, isOpen_particle⟩
  have hj : j < t.length := (List.getElem?_eq_some_iff.mp h.second).1
  have hk : t[k]? = some t[k] := List.getElem?_eq_getElem (by omega)
  obtain ⟨_, hline, hmark⟩ := h.between k _ hlow hhigh hk
  exact ⟨_, hk, by simp [Check.isOpen, hline, hmark]⟩

def particlesIn (t : Text) (s : Span) : List Nat :=
  ((t.slice s).occurrences ['の']).map (· + s.start)

theorem mem_particlesIn : i ∈ particlesIn t s ↔ s.start ≤ i ∧ i < s.stop ∧ t[i]? = some 'の' := by
  simp only [particlesIn, List.mem_map, Text.mem_occurrences_singleton, Text.getElem?_slice]
  constructor
  · rintro ⟨k, hk, rfl⟩
    split at hk
    · exact ⟨by omega, by omega, by rwa [Nat.add_comm]⟩
    · contradiction
  · rintro ⟨hlow, hhigh, hi⟩
    refine ⟨i - s.start, ?_, by omega⟩
    rwa [Nat.add_sub_cancel' hlow, if_pos hhigh]

theorem pairwise_particlesIn (t : Text) (s : Span) : (particlesIn t s).Pairwise (· < ·) :=
  (Text.pairwise_occurrences _ _).map _ fun _ _ h => Nat.add_lt_add_right h _

theorem isChain_of_pairwise_lt {l : List Nat} (h : l.Pairwise (· < ·)) :
    l.IsChain fun i j => i < j ∧ ∀ k ∈ l, k ≤ i ∨ j ≤ k := by
  rw [List.isChain_iff_forall_rel_of_append_cons_cons]
  intro i j before after hsplit
  subst hsplit
  obtain ⟨_, htail, hbefore⟩ := List.pairwise_append.mp h
  obtain ⟨hi, htail⟩ := List.pairwise_cons.mp htail
  obtain ⟨hj, _⟩ := List.pairwise_cons.mp htail
  refine ⟨hi j List.mem_cons_self, fun k hk => ?_⟩
  rcases List.mem_append.mp hk with hk | hk
  · exact Or.inl (Nat.le_of_lt (hbefore k hk i List.mem_cons_self))
  · rcases List.mem_cons.mp hk with rfl | hk
    · exact Or.inl (Nat.le_refl _)
    · rcases List.mem_cons.mp hk with rfl | hk
      · exact Or.inr (Nat.le_refl _)
      · exact Or.inr (Nat.le_of_lt (hj k hk))

theorem mem_before_of_lt {u : Run Nat} {before after : List Nat}
    (h : (before ++ (u.elements ++ after)).Pairwise (· < ·))
    (hi : i ∈ before ++ (u.elements ++ after)) (hlt : i < u.first) : i ∈ before := by
  obtain ⟨_, h, _⟩ := List.pairwise_append.mp h
  have hrest : ∀ k ∈ u.rest ++ after, u.first < k := (List.pairwise_cons.mp h).1
  rcases List.mem_append.mp hi with hi | hi
  · exact hi
  · rcases List.mem_cons.mp hi with rfl | hi
    · omega
    · have := hrest i hi
      omega

theorem mem_after_of_lt {u : Run Nat} {before after : List Nat}
    (h : (before ++ (u.elements ++ after)).Pairwise (· < ·))
    (hi : i ∈ before ++ (u.elements ++ after)) (hlt : u.last < i) : i ∈ after := by
  obtain ⟨_, h, hbefore⟩ := List.pairwise_append.mp h
  obtain ⟨h, _⟩ := List.pairwise_append.mp h
  rcases List.mem_append.mp hi with hi | hi
  · have := hbefore i hi u.last (List.mem_append_left _ u.last_mem)
    omega
  · rcases List.mem_append.mp hi with hi | hi
    · obtain ⟨lead, hlead⟩ := List.getLast?_eq_some_iff.mp u.getLast?_elements
      rw [hlead] at h hi
      rcases List.mem_append.mp hi with hi | hi
      · have := (List.pairwise_append.mp h).2.2 i hi u.last List.mem_cons_self
        omega
      · have := List.mem_singleton.mp hi
        omega
    · exact hi

def isNear (i j : Nat) : Bool := j - i ≤ chainGap

theorem Linked.isNear (h : Linked t i j) : Check.isNear i j = true := decide_eq_true h.near

theorem linked_of_isNear (hs : s ∈ openStretches t) (hi : i ∈ particlesIn t s)
    (hj : j ∈ particlesIn t s) (hnext : i < j ∧ ∀ k ∈ particlesIn t s, k ≤ i ∨ j ≤ k)
    (hnear : isNear i j = true) : Linked t i j := by
  obtain ⟨hlow, _, hfirst⟩ := mem_particlesIn.mp hi
  obtain ⟨_, hhigh, hsecond⟩ := mem_particlesIn.mp hj
  refine ⟨hnext.1, of_decide_eq_true hnear, hfirst, hsecond, fun k c hik hkj hc => ⟨?_, ?_⟩⟩
  · rintro rfl
    have := hnext.2 k (mem_particlesIn.mpr ⟨by omega, by omega, hc⟩)
    omega
  · obtain ⟨d, hd, hopen⟩ := (Text.isRun_of_mem_scan hs).inside k (by omega) (by omega)
    obtain rfl : c = d := Option.some.inj (hc.symm.trans hd)
    simpa [and_comm] using hopen

theorem Linked.mem_left (h : Linked t i j) (hs : s ∈ openStretches t) (hj : j ∈ particlesIn t s) :
    i ∈ particlesIn t s := by
  obtain ⟨hlow, hhigh, _⟩ := mem_particlesIn.mp hj
  have hlt := h.lt
  exact mem_particlesIn.mpr
    ⟨(Text.isRun_of_mem_scan hs).start_le hlow h.isOpen, by omega, h.first⟩

theorem Linked.mem_right (h : Linked t i j) (hs : s ∈ openStretches t) (hi : i ∈ particlesIn t s) :
    j ∈ particlesIn t s := by
  obtain ⟨hlow, hhigh, _⟩ := mem_particlesIn.mp hi
  have hlt := h.lt
  exact mem_particlesIn.mpr
    ⟨by omega, (Text.isRun_of_mem_scan hs).lt_stop hhigh h.isOpen, h.second⟩

theorem Linked.not_between (h : Linked t i j) {k : Nat} (hk : k ∈ particlesIn t s) :
    k ≤ i ∨ j ≤ k := by
  by_contra hbetween
  exact (h.between k _ (by omega) (by omega) (mem_particlesIn.mp hk).2.2).1 rfl

/-- What is linked to the first particle of a part stands right before the part. -/
theorem Linked.getLast?_before {before after : List Nat} (h : Linked t i chain.first)
    (hs : s ∈ openStretches t) (hsplit : particlesIn t s = before ++ (chain.elements ++ after)) :
    before.getLast? = some i := by
  have hordered := pairwise_particlesIn t s
  have hi := h.mem_left hs (by simp [hsplit, chain.first_mem])
  rw [hsplit] at hordered hi
  have hbefore := mem_before_of_lt hordered hi h.lt
  obtain ⟨lead, k, rfl⟩ := (List.eq_nil_or_concat' before).resolve_left (List.ne_nil_of_mem hbefore)
  have hk : k ∈ particlesIn t s := by simp [hsplit]
  obtain ⟨hlead, _, hacross⟩ := List.pairwise_append.mp hordered
  have hfirst := hacross k (by simp) chain.first (by simp [chain.first_mem])
  have hle : i ≤ k := by
    rcases List.mem_append.mp hbefore with hi | hi
    · exact Nat.le_of_lt ((List.pairwise_append.mp hlead).2.2 i hi k List.mem_cons_self)
    · exact Nat.le_of_eq (List.mem_singleton.mp hi)
  have := h.not_between hk
  rw [List.getLast?_concat, Option.some.injEq]
  omega

/-- What the last particle of a part is linked to stands right behind the part. -/
theorem Linked.head?_after {before after : List Nat} (h : Linked t chain.last j)
    (hs : s ∈ openStretches t) (hsplit : particlesIn t s = before ++ (chain.elements ++ after)) :
    after.head? = some j := by
  have hordered := pairwise_particlesIn t s
  have hj := h.mem_right hs (by simp [hsplit, chain.last_mem])
  rw [hsplit] at hordered hj
  have hafter := mem_after_of_lt hordered hj h.lt
  obtain ⟨k, more, rfl⟩ := List.exists_cons_of_ne_nil (List.ne_nil_of_mem hafter)
  have hk : k ∈ particlesIn t s := by simp [hsplit]
  obtain ⟨_, hrest, _⟩ := List.pairwise_append.mp hordered
  obtain ⟨_, hmore, hacross⟩ := List.pairwise_append.mp hrest
  have hlast := hacross chain.last chain.last_mem k List.mem_cons_self
  have hle : k ≤ j := by
    rcases List.mem_cons.mp hafter with rfl | hj
    · exact Nat.le_refl _
    · exact Nat.le_of_lt (List.rel_of_pairwise_cons hmore hj)
  have := h.not_between hk
  rw [List.head?_cons, Option.some.injEq]
  omega

/-- The pieces between particles that are too far apart are maximal chains. -/
theorem isParticleChain_of_mem_splitBy (hs : s ∈ openStretches t)
    (h : chain.elements ∈ (particlesIn t s).splitBy isNear) : IsParticleChain t chain := by
  obtain ⟨before, after, hsplit, hbetween⟩ := Run.exists_between_of_mem_splitBy h
  have hmem : ∀ k ∈ chain.elements, k ∈ particlesIn t s := fun k hk => by simp [hsplit, hk]
  have hnext := isChain_of_pairwise_lt (pairwise_particlesIn t s)
  refine ⟨fun k hk => (mem_particlesIn.mp (hmem k hk)).2.2, ?_, fun x hx => ?_, fun x hx => ?_⟩
  · have hchain := hnext.infix ⟨before, after, by rw [hsplit, List.append_assoc]⟩
    rw [List.isChain_iff_forall_rel_of_append_cons_cons] at hchain ⊢
    intro i j a b hab
    have hnear := List.isChain_iff_forall_rel_of_append_cons_cons.mp hbetween.related hab
    exact linked_of_isNear hs (hmem i (by simp [hab])) (hmem j (by simp [hab])) (hchain hab) hnear
  · have hfar := hbetween.opens x (hx.getLast?_before hs hsplit)
    exact absurd hx.isNear (Bool.eq_false_iff.mp hfar)
  · have hfar := hbetween.closes x (hx.head?_after hs hsplit)
    exact absurd hx.isNear (Bool.eq_false_iff.mp hfar)

def chainsIn (t : Text) (s : Span) : List (Run Nat) :=
  ((particlesIn t s).splitBy isNear).filterMap Run.ofList?

def chainsOf (t : Text) : List (Run Nat) := (openStretches t).flatMap (chainsIn t)

theorem mem_chainsIn : chain ∈ chainsIn t s ↔ chain.elements ∈ (particlesIn t s).splitBy isNear :=
  Run.mem_filterMap_ofList?

theorem exists_mem_chainsIn (hi : i ∈ particlesIn t s) :
    ∃ chain ∈ chainsIn t s, i ∈ chain.elements := by
  rw [← List.flatten_splitBy isNear (particlesIn t s)] at hi
  obtain ⟨piece, hpiece, hmem⟩ := List.mem_flatten.mp hi
  obtain ⟨chain, rfl⟩ := Run.exists_elements_eq (List.ne_nil_of_mem hmem)
  exact ⟨chain, mem_chainsIn.mpr hpiece, hmem⟩

theorem mem_particlesIn_of_mem_chainsIn (h : chain ∈ chainsIn t s) (hi : i ∈ chain.elements) :
    i ∈ particlesIn t s := by
  rw [← List.flatten_splitBy isNear (particlesIn t s)]
  exact List.mem_flatten_of_mem (mem_chainsIn.mp h) hi

theorem mem_chainsOf : chain ∈ chainsOf t ↔ IsParticleChain t chain := by
  rw [chainsOf, List.mem_flatMap]
  constructor
  · rintro ⟨s, hs, hchain⟩
    exact isParticleChain_of_mem_splitBy hs (mem_chainsIn.mp hchain)
  · intro h
    have hfirst := h.particles _ chain.first_mem
    obtain ⟨s, hs, hlow, hhigh⟩ := Text.exists_mem_scan_run hfirst isOpen_particle
    obtain ⟨other, hother, hmem⟩ :=
      exists_mem_chainsIn (mem_particlesIn.mpr ⟨hlow, hhigh, hfirst⟩)
    have hmaximal := (isParticleChain_of_mem_splitBy hs (mem_chainsIn.mp hother)).maximal
    obtain rfl := h.maximal.eq (biUnique_linked t) hmaximal chain.first_mem hmem
    exact ⟨s, hs, hother⟩

theorem pairwise_chainsOf (t : Text) : (chainsOf t).Pairwise fun a b => a.last < b.first := by
  rw [chainsOf, List.pairwise_flatMap]
  constructor
  · intro s _
    have hflat : ((particlesIn t s).splitBy isNear).flatten.Pairwise (· < ·) := by
      rw [List.flatten_splitBy]
      exact pairwise_particlesIn t s
    refine (List.pairwise_flatten.mp hflat).2.filterMap _ fun a a' hlt b hb b' hb' => ?_
    obtain rfl := Run.ofList?_eq_some.mp hb
    obtain rfl := Run.ofList?_eq_some.mp hb'
    exact hlt _ b.last_mem _ b'.first_mem
  · refine (Text.pairwise_scan _ t).imp fun {s s'} hapart a ha b hb => ?_
    obtain ⟨_, hstop, _⟩ := mem_particlesIn.mp (mem_particlesIn_of_mem_chainsIn ha a.last_mem)
    obtain ⟨hstart, _⟩ := mem_particlesIn.mp (mem_particlesIn_of_mem_chainsIn hb b.first_mem)
    omega

/-! ## Reporting chains -/

/-- The finding on a chain, from its first particle to the end of its last. -/
def particleFinding (limit : Nat) (chain : Run Nat) : Finding :=
  ⟨chain.first, chain.last + 1,
    "助詞「の」が" ++ toString chain.length ++ "回連続しています（閾値: " ++ toString limit ++
      "回）。文の書き換えを検討してください。",
    ["文を分割して「の」の使用回数を減らす",
      "一部を別の表現に置き換える（例：「における」「に関する」）",
      "主語を明確にして文を書き換える"]⟩

theorem chainsFrom_eq_splitBy (first : Nat) (rest : List Nat) :
    chainsFrom first rest = (first :: rest).splitBy isNear := by
  induction rest generalizing first with
  | nil => rfl
  | cons next rest ih =>
      rw [chainsFrom, ih]
      split
      · next hnear =>
          cases hsplit : (next :: rest).splitBy isNear with
          | nil => simp at hsplit
          | cons chain more => exact (Run.splitBy_cons_of_rel (decide_eq_true hnear) hsplit).symm
      · next hfar => exact (Run.splitBy_cons_of_not_rel rest (decide_eq_false hfar)).symm

theorem chainFinding?_elements (limit : Nat) (chain : Run Nat) :
    chainFinding? limit chain.elements = some
      (if limit ≤ chain.length then some (particleFinding limit chain) else none) := by
  rw [chainFinding?, chain.getLast?_elements]
  by_cases hlong : limit ≤ chain.length
  · rw [if_pos hlong, if_neg (show ¬chain.elements.length < limit from Nat.not_lt.mpr hlong)]
    rfl
  · rw [if_neg hlong, if_pos (show chain.elements.length < limit from Nat.lt_of_not_le hlong)]

theorem length_le_of_mem_chainsIn (h : chain ∈ chainsIn t s) :
    chain.length ≤ (particlesIn t s).length := by
  have hflat := List.flatten_splitBy isNear (particlesIn t s)
  rw [← hflat]
  exact (List.sublist_flatten_of_mem (mem_chainsIn.mp h)).length_le

/-- A stretch with too few particles has no long chain, so it may be left out. -/
theorem stretchFindings?_eq {limit : Nat} (hlimit : 1 ≤ limit) (t : Text) (s : Span) :
    stretchFindings? limit t s = some
      (((chainsIn t s).filter (limit ≤ ·.length)).map (particleFinding limit)) := by
  obtain ⟨found, hfound, hreport⟩ := Run.exists_mapM_elements (chainFinding?_elements limit)
    (List.nil_notMem_splitBy isNear (particlesIn t s))
  have hall : (((chainsIn t s).filter (limit ≤ ·.length)).map (particleFinding limit)) =
      found.filterMap id := by
    rw [hreport, ← List.filterMap_eq_map, List.filterMap_filter, chainsIn]
    simp
  have hoffsets : ((t.slice s).occurrences ['の']).map (· + s.start) = particlesIn t s := rfl
  rw [stretchFindings?, hoffsets]
  split
  · next hfew =>
      have hnone : (chainsIn t s).filter (limit ≤ ·.length) = [] := by
        rw [List.filter_eq_nil_iff]
        intro chain hchain
        have := length_le_of_mem_chainsIn hchain
        simp only [decide_eq_true_eq]
        omega
      rw [hnone, List.map_nil]
  · next hmany =>
      rw [hall]
      cases hparticles : particlesIn t s with
      | nil =>
          rw [hparticles, List.length_nil] at hmany
          omega
      | cons first rest =>
          rw [hparticles, ← chainsFrom_eq_splitBy] at hfound
          simp [hfound]

/-- What the check finds: the chains that are long enough, in the order of the text. -/
structure ParticleReport (c : Context) (chains : List (Run Nat)) : Prop where
  found : noParticleChain.findings? c =
    some (chains.map (particleFinding (c.config.limits .noParticleChain)))
  ordered : chains.Pairwise fun a b => a.last < b.first
  mem_chains : ∀ chain, chain ∈ chains ↔
    IsParticleChain c.text chain ∧ c.config.limits .noParticleChain ≤ chain.length

/-- The check reports every maximal chain of particles that is long enough, once and in order. -/
theorem noParticleChain_exact {c : Context} (hlimit : 1 ≤ c.config.limits .noParticleChain) :
    ∃ chains, ParticleReport c chains := by
  obtain ⟨found, hfound⟩ : ∃ found, (openStretches c.text).mapM
      (stretchFindings? (c.config.limits .noParticleChain) c.text) = some found :=
    Option.isSome_iff_exists.mp (isSome_mapM fun s _ => by rw [stretchFindings?_eq hlimit]; rfl)
  refine ⟨(chainsOf c.text).filter (c.config.limits .noParticleChain ≤ ·.length), ?_,
    (pairwise_chainsOf c.text).filter _, fun chain => ?_⟩
  · show noParticleChains c = _
    rw [noParticleChains, hfound]
    simp only [Option.bind_eq_bind, Option.bind_some, Option.pure_def, Option.some.injEq]
    rw [flatten_of_mapM hfound, chainsOf, List.filter_flatMap, List.map_flatMap]
    simp only [stretchFindings?_eq hlimit, Option.getD_some]
  · rw [List.mem_filter, mem_chainsOf, decide_eq_true_eq]

/-- Three particles in links, a fourth one that is 21 characters from the third, and two in a second
line. -/
private def particles : Context :=
  .of "私の兄の友人の車に乗って、きょうは朝から駅前まで買い物の用事に行く\n花の色の話。".toList [] []
    { limits := fun _ => 2 }

theorem noParticleChain_exact_lines :
    1 ≤ particles.config.limits .noParticleChain ∧ ∃ chains, ParticleReport particles chains :=
  ⟨by decide, noParticleChain_exact (by decide)⟩

end Check

end Kouetsu
