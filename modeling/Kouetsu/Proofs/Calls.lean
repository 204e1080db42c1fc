import Kouetsu.Proofs.Digest
import Kouetsu.Proofs.File.Walk
import Kouetsu.Proofs.Paths
import Kouetsu.Proofs.Proofreading
/-!
# Calls

What a call plans, checks, records and answers.
-/

namespace Kouetsu

/-! ## Issues of a file -/

namespace Proofreader

variable {r : Proofreader} {m : Morphology} {enabled : Bool} {t : FileTree} {path : LooseText}
  {issues : List Issue}

theorem diagnostics_ordered (r : Proofreader) (p : Prepared) (tokens : List Token) :
    r.ordered.diagnostics p tokens = r.diagnostics p tokens := by
  have hchosen : Engine.isChosen (r.names.map sortedNames) = Engine.isChosen r.names := by
    funext rule
    cases r.names with
    | none => rfl
    | some ns =>
        show (sortedNames ns).contains rule.name = ns.contains rule.name
        rw [Bool.eq_iff_iff, List.contains_iff_mem, List.contains_iff_mem, mem_sortedNames]
  show Engine.check _ _ _ _ _ (r.names.map sortedNames) = Engine.check _ _ _ _ _ r.names
  rw [Engine.check, Engine.check, hchosen]
  rfl

theorem checkFile_ordered (r : Proofreader) (m : Morphology) (enabled : Bool) (t : FileTree) :
    r.ordered.checkFile m enabled t = r.checkFile m enabled t := by
  funext path
  simp only [checkFile, checkDocument, checkText, diagnostics_ordered]
  rfl

theorem checkFile_ok (h : r.checkFile m enabled t path = .ok issues) :
    (∀ i ∈ issues, i.file = .text path) ∧ issues.Pairwise fun i j => i.rank < j.rank := by
  rw [checkFile] at h
  split at h
  · rw [← Except.ok.inj h]
    exact ⟨by simp, .nil⟩
  · rw [checkDocument] at h
    split at h
    · obtain ⟨tokens, _, h⟩ := bind_eq_ok.mp h
      obtain ⟨ds, _, h⟩ := bind_eq_ok.mp h
      rw [← Except.ok.inj h]
      refine ⟨fun i hi => ?_, Prepared.pairwise_issuesOf _ _ _⟩
      obtain ⟨d, _, rfl⟩ := Prepared.mem_issuesOf.mp hi
      rfl
    · rw [← Except.ok.inj h]
      exact ⟨by simp, .nil⟩

/-- Without an analyser no check fails of rules that tell whether they are on. -/
theorem exists_checkFile_ok {r : Proofreader} (hr : r.engine.Standard) (m : Morphology)
    (t : FileTree) (path : LooseText) : ∃ issues, r.checkFile m false t path = .ok issues := by
  rw [checkFile]
  split
  · exact ⟨[], rfl⟩
  · rw [checkDocument]
    split
    · have hdone := Engine.check_of_harmless (fun x hx => hr.harmless hx)
      exact ⟨_, checkText_eq r _ _ _ [] (hdone _ _ _ _ _)⟩
    · exact ⟨[], rfl⟩

theorem BuiltIn.ordered {r : Proofreader} (h : r.BuiltIn) : r.ordered.BuiltIn :=
  ⟨h.engine, h.terms, h.patterns, h.dates, h.languages⟩

theorem BuiltIn.plainIssues {r : Proofreader} (h : r.BuiltIn) (m : Morphology) (enabled : Bool)
    (t : FileTree) : PlainIssues (r.checkFile m enabled t) := by
  intro path issues hissues i hi
  obtain ⟨settings, engine, names⟩ := r
  obtain ⟨base, rfl⟩ : ∃ base, engine = .builtIn base := h.engine
  rw [checkFile] at hissues
  split at hissues
  · rw [← Except.ok.inj hissues] at hi
    simp at hi
  · next text _ =>
      rw [checkDocument] at hissues
      split at hissues
      · rw [checkText] at hissues
        obtain ⟨tokens, _, hissues⟩ := bind_eq_ok.mp hissues
        rw [Engine.builtIn_eq_ofChecks, diagnostics_ofChecks] at hissues
        rw [← Except.ok.inj hissues] at hi
        obtain ⟨c, _, _, d, hd, rfl⟩ := mem_issuesOf_foundByChecks.mp hi
        have hshown := List.mem_of_find?_eq_some hd
        obtain ⟨f, range, hfound⟩ := Check.exists_finding_of_mem_shown hshown
        exact ⟨⟨⟨path, rfl⟩, f.suggestions, by rw [Prepared.issueOf, hfound]; rfl⟩, rfl⟩
      · rw [← Except.ok.inj hissues] at hi
        simp at hi

end Proofreader

/-! ## Records of checked files -/

namespace Cache

variable {c : Cache} {digest : String} {checked checked' : List Checked}

def Distinct (checked : List Checked) : Prop :=
  ∀ x ∈ checked, ∀ y ∈ checked, x.1.key = y.1.key → x = y

theorem Distinct.perm (h : Distinct checked) (hperm : checked.Perm checked') : Distinct checked' :=
  fun x hx y hy => h x (hperm.mem_iff.mpr hx) y (hperm.mem_iff.mpr hy)

theorem get?_recordAll (h : Distinct checked) {x : Checked} (hx : x ∈ checked) :
    Entries.get? (c.recordAll digest checked) x.1.key =
      some (record x.1.fingerprint digest (x.2.map Issue.toNode)) := by
  obtain ⟨y, hy, hkey, hrecord⟩ := exists_get?_recordAll c digest hx
  rw [hrecord, h y hy x hx hkey]

theorem get?_recordAll_perm (h : Distinct checked) (hperm : checked.Perm checked')
    (key : LooseText) :
    Entries.get? (c.recordAll digest checked) key =
      Entries.get? (c.recordAll digest checked') key := by
  by_cases hkey : ∃ x ∈ checked, x.1.key = key
  · obtain ⟨x, hx, rfl⟩ := hkey
    rw [get?_recordAll h hx, get?_recordAll (h.perm hperm) (hperm.mem_iff.mp hx)]
  · have hnone : ∀ x ∈ checked, x.1.key ≠ key := fun x hx hxk => hkey ⟨x, hx, hxk⟩
    rw [get?_recordAll_of_not_mem hnone,
      get?_recordAll_of_not_mem fun x hx => hnone x (hperm.mem_iff.mpr hx)]

theorem firstUnwritable?_record {fingerprint : String} {issues : List Json.Node} :
    Json.firstUnwritable? (record fingerprint digest issues).shown = none ↔
      ∀ n ∈ issues, Json.firstUnwritable? n.shown = none := by
  have htext (s : String) : Json.firstUnwritable? (Json.Node.str s).shown = none := rfl
  rw [record, Json.firstUnwritable?_shown_record]
  simp [htext, Json.firstUnwritable?_shown_list]

/-- A cache with new records can be written exactly if what is new can be. -/
theorem exists_text_recordAll (hc : c.Documented) (h : Distinct checked) :
    (∃ text, (c.recordAll digest checked).text = .ok text) ↔
      ∀ x ∈ checked, ∀ i ∈ x.2, Json.firstUnwritable? i.toNode.shown = none := by
  rw [exists_text_iff]
  constructor
  · intro hall x hx i hi
    have hrecord := hall _ (Entries.mem_of_get?_eq_some (get?_recordAll (c := c) h hx))
    exact firstUnwritable?_record.mp hrecord _ (List.mem_map_of_mem hi)
  · intro hnew x hx
    rcases mem_recordAll hx with hold | ⟨y, hy, rfl⟩
    · exact Json.firstUnwritable?_of_isDocument (hc.records x hold)
    · apply firstUnwritable?_record.mpr
      intro n hn
      obtain ⟨i, hi, rfl⟩ := List.mem_map.mp hn
      exact hnew y hy i hi

end Cache

namespace Proofreader

variable {r : Proofreader} {o : CheckOptions} {t t' : FileTree} {paths : List LooseText}
  {plan : Plan} {fs fs' : List PendingFile} {known : List Issue}

/-! ## Pending files -/

/-- What a file adds to a plan: the issues that the cache knows, or itself. -/
theorem add_eq_ok {cache : Cache} {digest : String} {plan plan' : Plan} {p : Path}
    (h : Plan.add cache digest t plan p = .ok plan') :
    ∃ s, t.fingerprint p = .ok s ∧
      ((∃ records issues, cache.lookup p.text s digest = some records ∧
          records.mapM Issue.ofNode = .ok issues ∧
          plan' = { plan with known := plan.known ++ issues }) ∨
        (cache.lookup p.text s digest = none ∧
          plan' = { plan with pending := plan.pending ++ [⟨p.text, s⟩] })) := by
  unfold Plan.add at h
  obtain ⟨s, hs, h⟩ := bind_eq_ok.mp h
  refine ⟨s, mapError_eq_ok.mp hs, ?_⟩
  split at h
  · next records hlookup =>
      obtain ⟨issues, hissues, h⟩ := bind_eq_ok.mp h
      exact Or.inl ⟨records, issues, hlookup, mapError_eq_ok.mp hissues, (Except.ok.inj h).symm⟩
  · next hlookup => exact Or.inr ⟨hlookup, (Except.ok.inj h).symm⟩

def planOf (r : Proofreader) (o : CheckOptions) (t : FileTree) (paths : List LooseText) :
    Except CheckError Plan :=
  (filesToCheck t paths).foldlM (Plan.add (cacheOf o t) (r.digestFor o) t) {}

theorem of_mem_pending (h : r.planOf o t paths = .ok plan) {f : PendingFile}
    (hf : f ∈ plan.pending) :
    ∃ p ∈ filesToCheck t paths, f.key = p.text ∧ t.fingerprint p = .ok f.fingerprint ∧
      (cacheOf o t).lookup f.key f.fingerprint (r.digestFor o) = none := by
  revert f
  apply foldlM_invariant_ok h (P := fun plan => ∀ {f}, f ∈ plan.pending →
    ∃ p ∈ filesToCheck t paths, f.key = p.text ∧ t.fingerprint p = .ok f.fingerprint ∧
      (cacheOf o t).lookup f.key f.fingerprint (r.digestFor o) = none)
  · intro f hf
    contradiction
  · intro plan p plan' ih hp hadd f hf
    obtain ⟨s, hs, ⟨_, _, _, _, rfl⟩ | ⟨hlookup, rfl⟩⟩ := add_eq_ok hadd
    · exact ih hf
    · rcases List.mem_append.mp hf with hf | hf
      · exact ih hf
      · rw [List.mem_singleton.mp hf]
        exact ⟨p, hp, rfl, hs, hlookup⟩

theorem exists_fingerprint (hnamed : t.root.WellNamed) {p : Path}
    (hp : p ∈ filesToCheck t paths) : ∃ s, t.fingerprint p = .ok s := by
  obtain ⟨f, hf⟩ := FileTree.exists_file?_of_mem_filesUnder hnamed (List.mem_filter.mp hp).1
  exact ⟨f.fingerprint, FileTree.fingerprint_eq_ok.mpr ⟨f, hf, rfl⟩⟩

theorem normal_of_mem_filesToCheck (ht : t.Proper) {p : Path} (hp : p ∈ filesToCheck t paths) :
    p.Normal :=
  ht.normal_of_mem_filesUnder (List.mem_filter.mp hp).1

theorem eq_of_text_eq (ht : t.Proper) {p q : Path} (hp : p ∈ filesToCheck t paths)
    (hq : q ∈ filesToCheck t paths) (h : p.text = q.text) : p = q := by
  rw [← Path.ofText_text (normal_of_mem_filesToCheck ht hp), h,
    Path.ofText_text (normal_of_mem_filesToCheck ht hq)]

theorem eq_of_key_eq (ht : t.Proper) (h : r.planOf o t paths = .ok plan) {f g : PendingFile}
    (hf : f ∈ plan.pending) (hg : g ∈ plan.pending) (hkey : f.key = g.key) : f = g := by
  obtain ⟨p, hp, hpkey, hps, _⟩ := of_mem_pending h hf
  obtain ⟨q, hq, hqkey, hqs, _⟩ := of_mem_pending h hg
  have hpath : p = q := eq_of_text_eq ht hp hq (hpkey.symm.trans (hkey.trans hqkey))
  have hsame := Except.ok.inj (hps.symm.trans (hpath ▸ hqs))
  obtain ⟨key, s⟩ := f
  obtain ⟨key', s'⟩ := g
  rw [show key = key' from hkey, show s = s' from hsame]

/-! ## Ends of calls -/

def found (r : Proofreader) (o : CheckOptions) (t : FileTree) (fs : List PendingFile) :
    List Checked :=
  fs.map fun f => (f, foundBy (r.checkOf o t) f)

def recorded (r : Proofreader) (o : CheckOptions) (t : FileTree) (fs : List PendingFile) : Cache :=
  (cacheOf o t).recordAll (r.digestFor o) (r.found o t fs)

def conclude (r : Proofreader) (o : CheckOptions) (t : FileTree) (known : List Issue)
    (fs : List PendingFile) : Except CheckError (List Issue × FileTree) := do
  let t' ← if o.useCache then saveCache t (r.recorded o t fs) else pure t
  finish (known ++ fs.flatMap (foundBy (r.checkOf o t))) t'

theorem carryOut_eq (h : failure? (r.checkOf o t) o.pool plan.pending = none) :
    ∃ order : List PendingFile, order.Perm (plan.pending.filter (succeeds (r.checkOf o t))) ∧
      r.carryOut o t plan = r.conclude o t plan.known order := by
  obtain ⟨order, horder, hchecked⟩ := exists_checkPending h
  refine ⟨order, horder, ?_⟩
  have hfound : (r.found o t order).flatMap (·.2) = order.flatMap (foundBy (r.checkOf o t)) := by
    rw [found, List.flatMap_map]
  rw [carryOut, hchecked, conclude, ← hfound]
  rfl

/-- Whether something that is found in files cannot be written to the cache. -/
def Unwritable (r : Proofreader) (o : CheckOptions) (t : FileTree) (fs : List PendingFile) : Prop :=
  o.useCache = true ∧ ∃ f ∈ fs, ∃ i ∈ foundBy (r.checkOf o t) f,
    Json.firstUnwritable? i.toNode.shown ≠ none

/-- Whether a half stands in the new cache and the file of the cache can be opened. -/
def Unencodable (r : Proofreader) (o : CheckOptions) (t : FileTree) (fs : List PendingFile) :
    Prop :=
  o.useCache = true ∧ t.Writable Cache.path ∧ ¬(r.recorded o t fs).Encodable

/-- A tree with the cache of a call that has checked files, if it uses the cache. -/
def Stores (r : Proofreader) (o : CheckOptions) (t : FileTree) (fs : List PendingFile)
    (t' : FileTree) : Prop :=
  if o.useCache then saveCache t (r.recorded o t fs) = .ok t' else t' = t

theorem documented_cacheOf (o : CheckOptions) (t : FileTree) : (cacheOf o t).Documented := by
  rw [cacheOf]
  split
  · exact Cache.documented_decode _
  · exact Cache.documented_nil

theorem exists_text_recorded (h : Cache.Distinct (r.found o t fs)) :
    (∃ text, (r.recorded o t fs).text = .ok text) ↔
      ∀ f ∈ fs, ∀ i ∈ foundBy (r.checkOf o t) f, Json.firstUnwritable? i.toNode.shown = none := by
  rw [recorded, Cache.exists_text_recordAll (documented_cacheOf o t) h]
  simp [found]

theorem file_of_mem_checkOf (key : LooseText) (issues : List Issue)
    (h : r.checkOf o t key = .ok issues) : ∀ i ∈ issues, i.file = .text key :=
  (checkFile_ok h).1

theorem encodable_recorded_iff :
    (r.recorded o t fs).Encodable ↔ (∀ f ∈ fs, ∃ s : String, f.key = s) ∧
      ∀ x ∈ cacheOf o t, (∀ f ∈ fs, f.key ≠ x.1) →
        (∃ s : String, x.1 = s) ∧ ∃ v, Json.Node.ofValue v = x.2 := by
  have hfile : ∀ x ∈ r.found o t fs, ∀ i ∈ x.2, i.file = .text x.1.key := by
    intro x hx i hi
    obtain ⟨f, _, rfl⟩ := List.mem_map.mp hx
    exact file_of_mem_foundBy file_of_mem_checkOf hi
  rw [recorded, Cache.encodable_recordAll_iff (documented_cacheOf o t).keys hfile]
  simp only [found, List.forall_mem_map]

theorem conclude_unwritable (hdistinct : Cache.Distinct (r.found o t fs))
    (h : r.Unwritable o t fs) (known : List Issue) :
    ∃ w, r.conclude o t known fs = .error (.cache w) := by
  obtain ⟨huse, f, hf, i, hi, hnot⟩ := h
  cases htext : (r.recorded o t fs).text with
  | ok text => exact absurd ((exists_text_recorded hdistinct).mp ⟨text, htext⟩ f hf i hi) hnot
  | error w =>
      refine ⟨w, ?_⟩
      rw [conclude, if_pos huse, saveCache_unwritable htext]
      rfl

theorem exists_text_of_writable (hdistinct : Cache.Distinct (r.found o t fs))
    (huse : o.useCache = true) (h : ¬r.Unwritable o t fs) :
    ∃ text, (r.recorded o t fs).text = .ok text := by
  refine (exists_text_recorded hdistinct).mpr fun f hf i hi => ?_
  by_contra hnot
  exact h ⟨huse, f, hf, i, hi, hnot⟩

theorem conclude_unencodable (hdistinct : Cache.Distinct (r.found o t fs))
    (hwritable : ¬r.Unwritable o t fs) (h : r.Unencodable o t fs) (known : List Issue) :
    ∃ e left, t.write Cache.path { content := "".toUTF8 } = .ok left ∧
      r.conclude o t known fs = .error (.encoding e left) := by
  obtain ⟨huse, hopen, hloose⟩ := h
  obtain ⟨text, htext⟩ := exists_text_of_writable hdistinct huse hwritable
  obtain ⟨e, left, hleft, hsave⟩ := saveCache_loose htext hloose hopen
  refine ⟨e, left, hleft, ?_⟩
  rw [conclude, if_pos huse, hsave]
  rfl

theorem conclude_saved (hdistinct : Cache.Distinct (r.found o t fs))
    (hwritable : ¬r.Unwritable o t fs) (h : ¬r.Unencodable o t fs) (known : List Issue) :
    ∃ t', r.Stores o t fs t' ∧
      r.conclude o t known fs = finish (known ++ fs.flatMap (foundBy (r.checkOf o t))) t' := by
  unfold Stores conclude
  by_cases huse : o.useCache = true
  · obtain ⟨text, htext⟩ := exists_text_of_writable hdistinct huse hwritable
    obtain ⟨t', hsave⟩ : ∃ t', saveCache t (r.recorded o t fs) = .ok t' := by
      by_cases hopen : t.Writable Cache.path
      · obtain ⟨t', _, hsave⟩ :=
          saveCache_encodable htext (not_not.mp fun hloose => h ⟨huse, hopen, hloose⟩) hopen
        exact ⟨t', hsave⟩
      · exact ⟨t, saveCache_closed htext hopen⟩
    refine ⟨t', by rwa [if_pos huse], ?_⟩
    rw [if_pos huse, hsave]
    rfl
  · exact ⟨t, by rw [if_neg huse], by rw [if_neg huse]; rfl⟩

theorem finish_eq (issues : List Issue) (t : FileTree) :
    (∃ v w, finish issues t = .error (.unorderable v w t)) ∧ ¬issues.Pairwise Issue.Comparable ∨
      finish issues t = .ok (Issue.sorted issues, t) ∧ issues.Pairwise Issue.Comparable := by
  rw [← Issue.firstUnorderable?_eq_none_iff, finish]
  cases Issue.firstUnorderable? issues with
  | none => exact Or.inr ⟨rfl, rfl⟩
  | some pair => exact Or.inl ⟨⟨pair.1, pair.2, rfl⟩, by simp⟩

theorem pairwise_known_append (known : List Issue) (fs : List PendingFile) :
    (known ++ fs.flatMap (foundBy (r.checkOf o t))).Pairwise Issue.Comparable ↔
      known.Pairwise Issue.Comparable ∧ (fs.flatMap (foundBy (r.checkOf o t)) ≠ [] →
        ∀ i ∈ known, i.HasFileName) := by
  apply Issue.pairwise_append_iff
  intro i hi
  obtain ⟨f, _, hi⟩ := List.mem_flatMap.mp hi
  exact Issue.hasFileName_of_file ⟨f.key, file_of_mem_foundBy file_of_mem_checkOf hi⟩

theorem distinct_found (ht : t.Proper) (h : r.planOf o t paths = .ok plan)
    (hfs : ∀ f ∈ fs, f ∈ plan.pending) : Cache.Distinct (r.found o t fs) := by
  intro x hx y hy hkey
  obtain ⟨f, hf, rfl⟩ := List.mem_map.mp hx
  obtain ⟨g, hg, rfl⟩ := List.mem_map.mp hy
  rw [eq_of_key_eq ht h (hfs f hf) (hfs g hg) hkey]

theorem checkOf_eq (r : Proofreader) (o : CheckOptions) (t : FileTree) :
    r.checkOf o t = r.checkFile o.morphology o.withMorphology t :=
  checkFile_ordered r _ _ t

theorem succeeds_checkOf_iff {f : PendingFile} : succeeds (r.checkOf o t) f = true ↔
    ∃ issues, r.checkFile o.morphology o.withMorphology t f.key = .ok issues := by
  rw [succeeds, checkOf_eq]
  cases r.checkFile o.morphology o.withMorphology t f.key <;> simp [Except.toOption]

theorem BuiltIn.exists_freshIssues (h : r.BuiltIn) (hnamed : t.root.WellNamed)
    (hmorphology : o.withMorphology = false) (paths : List LooseText) :
    ∃ issues, r.freshIssues o t paths = .ok issues := by
  have hchecks (f : PendingFile) : succeeds (r.checkOf o t) f = true := by
    obtain ⟨base, hengine⟩ := h.engine
    rw [succeeds_checkOf_iff, hmorphology]
    exact exists_checkFile_ok (hengine ▸ Engine.standard_builtIn base) _ _ _
  obtain ⟨fs, hfs⟩ : ∃ fs, fingerprints t (filesToCheck t paths) = .ok fs := by
    refine exists_mapM_ok fun p hp => ?_
    obtain ⟨s, hs⟩ := exists_fingerprint hnamed hp
    exact ⟨⟨p.text, s⟩, by rw [hs]; rfl⟩
  exact ⟨_, freshIssues_ok hfs (failure?_eq_none (fun f _ => hchecks f) o.pool)⟩

/-- The built-in checks end well without an analyser and without a cache from before, unless the
name of a file that goes into the cache holds a half. -/
theorem BuiltIn.exists_checkPaths (h : r.BuiltIn) (hnamed : t.root.WellNamed)
    (hcache : cacheOf o t = []) (hmorphology : o.withMorphology = false)
    (hfine : ¬r.Spoils o t paths) : ∃ issues t', r.checkPaths o t paths = .ok (issues, t') := by
  obtain ⟨issues, hfresh⟩ := h.exists_freshIssues hnamed hmorphology paths
  have hplain : PlainIssues (r.checkOf o t) := h.ordered.plainIssues _ _ _
  cases (trusts_of_cacheOf_eq_nil hcache r paths).endsAs hplain with
  | failed _ hfailed _ => cases hfresh.symm.trans hfailed
  | done hcall _ _ _ => exact ⟨_, _, hcall⟩
  | lost _ _ hspoils _ => exact absurd hspoils hfine

end Proofreader

end Kouetsu
