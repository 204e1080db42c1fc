import Kouetsu.Proofs.Calls
/-!
# Jobs

Neither the number of jobs nor the order in which a pool is done with its files shows in the issues
or in the records that are kept.
-/

namespace Kouetsu

namespace Issue

/-- Issues of one file that are in order stay so among those of other files. -/
theorem place_le_of_rank_lt {i j : Issue} (hfile : i.fileName = j.fileName)
    (h : i.rank < j.rank) : i.place ≤ j.place := by
  have hle := le_of_lt h
  revert hle
  rw [rank, rank, DiagnosticKey.rank, DiagnosticKey.rank, place, place, hfile]
  simp only [Diagnostic.key, Prod.Lex.toLex_le_toLex]
  grind

end Issue

namespace Proofreader

variable {r : Proofreader} {o : CheckOptions} {t t' : FileTree} {paths : List LooseText}
  {plan : Plan} {fs fs' : List PendingFile} {known : List Issue}

/-! ## Ends that are the same -/

/-- Trees that are left with the same cache: none is written, or both caches have the same record of
each file. -/
inductive SameCache (t : FileTree) : FileTree → FileTree → Prop
  | unwritten : SameCache t t t
  | written {c c' : Cache} {t₁ t₂ : FileTree}
      (hrecords : ∀ key, Entries.get? c key = Entries.get? c' key)
      (hfirst : saveCache t c = .ok t₁) (hsecond : saveCache t c' = .ok t₂) : SameCache t t₁ t₂

/-- Calls that end in the same way: with the same issues in the same order and the same cache, or
with a failure of the same kind. -/
inductive SameEnd (t : FileTree) : Except CheckError (List Issue × FileTree) →
    Except CheckError (List Issue × FileTree) → Prop
  | done {issues : List Issue} {t₁ t₂ : FileTree} (hcache : SameCache t t₁ t₂) :
      SameEnd t (.ok (issues, t₁)) (.ok (issues, t₂))
  | failed (e : CheckError) : SameEnd t (.error e) (.error e)
  | unwritable (w w' : Json.WriteError) : SameEnd t (.error (.cache w)) (.error (.cache w'))
  | encoding (e e' : EncodeError) (left : FileTree) :
      SameEnd t (.error (.encoding e left)) (.error (.encoding e' left))
  | unorderable (m n m' n' : Json.Node) {t₁ t₂ : FileTree} (hcache : SameCache t t₁ t₂) :
      SameEnd t (.error (.unorderable m n t₁)) (.error (.unorderable m' n' t₂))

theorem sameCache_of_perm (hdistinct : Cache.Distinct (r.found o t fs)) (hperm : fs.Perm fs')
    {t₁ t₂ : FileTree} (h₁ : r.Stores o t fs t₁) (h₂ : r.Stores o t fs' t₂) :
    SameCache t t₁ t₂ := by
  unfold Stores at h₁ h₂
  by_cases huse : o.useCache = true
  · rw [if_pos huse] at h₁ h₂
    exact .written (Cache.get?_recordAll_perm hdistinct (hperm.map _)) h₁ h₂
  · rw [if_neg huse] at h₁ h₂
    rw [h₁, h₂]
    exact .unwritten

/-- Whether issues can be ordered does not depend on the order in which files have been checked. -/
theorem pairwise_append_perm (hperm : fs.Perm fs') (known : List Issue) :
    (known ++ fs.flatMap (foundBy (r.checkOf o t))).Pairwise Issue.Comparable ↔
      (known ++ fs'.flatMap (foundBy (r.checkOf o t))).Pairwise Issue.Comparable := by
  have hnil : fs.flatMap (foundBy (r.checkOf o t)) ≠ [] ↔
      fs'.flatMap (foundBy (r.checkOf o t)) ≠ [] := by
    rw [← List.length_pos_iff, ← List.length_pos_iff, (hperm.flatMap_right _).length_eq]
  rw [pairwise_known_append, pairwise_known_append, hnil]

/-- The order in which files have been checked does not show in the end of a call. -/
theorem sameEnd_conclude (hdistinct : Cache.Distinct (r.found o t fs)) (hperm : fs.Perm fs')
    (known : List Issue) :
    SameEnd t (r.conclude o t known fs) (r.conclude o t known fs') := by
  have hdistinct' : Cache.Distinct (r.found o t fs') := hdistinct.perm (hperm.map _)
  have hsame : r.Unwritable o t fs ↔ r.Unwritable o t fs' := by
    simp only [Unwritable, hperm.mem_iff]
  have hhalves : r.Unencodable o t fs ↔ r.Unencodable o t fs' := by
    simp only [Unencodable, encodable_recorded_iff, hperm.mem_iff]
  by_cases hunwritable : r.Unwritable o t fs
  · obtain ⟨w, hw⟩ := conclude_unwritable hdistinct hunwritable known
    obtain ⟨w', hw'⟩ := conclude_unwritable hdistinct' (hsame.mp hunwritable) known
    rw [hw, hw']
    exact .unwritable w w'
  have hunwritable' : ¬r.Unwritable o t fs' := fun h => hunwritable (hsame.mpr h)
  by_cases hloose : r.Unencodable o t fs
  · obtain ⟨e, left, hleft, hend⟩ := conclude_unencodable hdistinct hunwritable hloose known
    obtain ⟨e', left', hleft', hend'⟩ :=
      conclude_unencodable hdistinct' hunwritable' (hhalves.mp hloose) known
    obtain rfl : left = left' := Except.ok.inj (hleft.symm.trans hleft')
    rw [hend, hend']
    exact .encoding e e' left
  · obtain ⟨t₁, hstores, hend⟩ := conclude_saved hdistinct hunwritable hloose known
    obtain ⟨t₂, hstores', hend'⟩ :=
      conclude_saved hdistinct' hunwritable' (fun h => hloose (hhalves.mpr h)) known
    have hordered := pairwise_append_perm (r := r) (o := o) (t := t) hperm known
    have hcache := sameCache_of_perm hdistinct hperm hstores hstores'
    rw [hend, hend']
    rcases finish_eq (known ++ fs.flatMap (foundBy (r.checkOf o t))) t₁ with
      ⟨⟨v, w, hfinish⟩, hnot⟩ | ⟨hfinish, hin⟩
    · obtain ⟨⟨v', w', hfinish'⟩, _⟩ := (finish_eq
        (known ++ fs'.flatMap (foundBy (r.checkOf o t))) t₂).resolve_right
          fun h => hnot (hordered.mpr h.2)
      rw [hfinish, hfinish']
      exact .unorderable v w v' w' hcache
    · obtain ⟨hfinish', _⟩ := (finish_eq
        (known ++ fs'.flatMap (foundBy (r.checkOf o t))) t₂).resolve_left
          fun h => h.2 (hordered.mp hin)
      rw [hfinish, hfinish',
        sorted_append_found file_of_mem_checkOf
          ((pairwise_known_append known fs).mp hin).2 hperm]
      exact .done hcache

/-! ## Calls that check every file -/

theorem carryOut_jobs (hchecks : ∀ f ∈ plan.pending, succeeds (r.checkOf o t) f = true) (jobs : Int)
    (completion : Completion) :
    ∃ order : List PendingFile, order.Perm plan.pending ∧
      r.carryOut { o with jobs := jobs, completion := completion } t plan =
        r.conclude o t plan.known order := by
  have hall : plan.pending.filter (succeeds (r.checkOf o t)) = plan.pending :=
    List.filter_eq_self.mpr hchecks
  obtain ⟨order, horder, hcarry⟩ := carryOut_eq (r := r) (t := t)
    (o := { o with jobs := jobs, completion := completion }) (failure?_eq_none hchecks _)
  exact ⟨order, hall ▸ horder, hcarry⟩

theorem succeeds_of_mem_pending
    (hchecks : ∀ p ∈ filesToCheck t paths, ∃ issues,
      r.checkFile o.morphology o.withMorphology t p.text = .ok issues)
    (h : r.planOf o t paths = .ok plan) (f : PendingFile) (hf : f ∈ plan.pending) :
    succeeds (r.checkOf o t) f = true := by
  obtain ⟨p, hp, hkey, _⟩ := of_mem_pending h hf
  rw [succeeds_checkOf_iff, hkey]
  exact hchecks p hp

theorem planOf_empty (paths : List LooseText) (hnamed : t.root.WellNamed)
    (hcache : cacheOf o t = []) :
    ∃ fs : List PendingFile, r.planOf o t paths = .ok { pending := fs } ∧
      fs.map (·.key) = (filesToCheck t paths).map (·.text) := by
  have hfiles : ∀ p ∈ filesToCheck t paths, ∃ s, t.fingerprint p = .ok s :=
    fun p hp => exists_fingerprint hnamed hp
  rw [planOf, hcache]
  generalize filesToCheck t paths = files at hfiles
  suffices h : ∀ plan : Plan, ∃ fs : List PendingFile,
      files.foldlM (Plan.add [] (r.digestFor o) t) plan =
        .ok { plan with pending := plan.pending ++ fs } ∧
      fs.map (·.key) = files.map (·.text) from h {}
  induction files with
  | nil => exact fun plan => ⟨[], by simp; rfl, rfl⟩
  | cons p files ih =>
      intro plan
      obtain ⟨s, hs⟩ := hfiles p List.mem_cons_self
      obtain ⟨fs, hfold, hkeys⟩ := ih (fun q hq => hfiles q (List.mem_cons_of_mem p hq))
        { plan with pending := plan.pending ++ [⟨p.text, s⟩] }
      refine ⟨⟨p.text, s⟩ :: fs, ?_, by rw [List.map_cons, List.map_cons, hkeys]⟩
      rw [List.foldlM_cons, add_missing hs rfl]
      refine hfold.trans ?_
      rw [List.append_assoc, List.singleton_append]

/-- The issues of several files, in order, hold those of each file in the order of the file. -/
theorem filter_sorted_found {fs order : List PendingFile} (hkeys : (fs.map (·.key)).Nodup)
    (horder : order.Perm fs) {f : PendingFile} (hf : f ∈ fs) :
    (Issue.sorted (order.flatMap (foundBy (r.checkOf o t)))).filter
      (fun i => decide (i.fileName = f.key)) = foundBy (r.checkOf o t) f := by
  have hfile (k : LooseText) (i : Issue) (hi : i ∈ (r.checkOf o t k).toOption.getD []) :
      i.file = .text k :=
    file_of_mem_foundBy file_of_mem_checkOf (f := ⟨k, ""⟩) hi
  have hblocks : (order.flatMap (foundBy (r.checkOf o t))).filter
      (fun i => decide (i.fileName = f.key)) = foundBy (r.checkOf o t) f := by
    have hnodup : (order.map (·.key)).Nodup := (horder.map _).nodup_iff.mpr hkeys
    have hmem : f.key ∈ order.map (·.key) := List.mem_map_of_mem (horder.mem_iff.mpr hf)
    have hblock := Issue.filter_flatMap hfile hnodup hmem
    rw [List.flatMap_map] at hblock
    exact hblock
  have hordered : (foundBy (r.checkOf o t) f).Pairwise fun i j => i.place ≤ j.place := by
    unfold foundBy
    cases hcheck : r.checkOf o t f.key with
    | error e => exact .nil
    | ok issues =>
        obtain ⟨hfiles, hpairs⟩ := checkFile_ok hcheck
        apply hpairs.imp_of_mem
        intro i j hi hj hij
        apply Issue.place_le_of_rank_lt _ hij
        rw [Issue.fileName_of_file (hfiles i hi), Issue.fileName_of_file (hfiles j hj)]
  have hnamed : ∀ i ∈ order.flatMap (foundBy (r.checkOf o t)), i.HasFileName := by
    intro i hi
    obtain ⟨g, _, hi⟩ := List.mem_flatMap.mp hi
    exact Issue.hasFileName_of_file ⟨g.key, file_of_mem_foundBy file_of_mem_checkOf hi⟩
  rw [Issue.filter_sorted hnamed (hblocks ▸ hordered), hblocks]

theorem nodup_texts (ht : t.Proper) (h : (filesToCheck t paths).Nodup) :
    ((filesToCheck t paths).map (·.text)).Nodup := by
  apply h.map_on
  intro p hp q hq htext
  rw [← Path.ofText_text (normal_of_mem_filesToCheck ht hp), htext,
    Path.ofText_text (normal_of_mem_filesToCheck ht hq)]

theorem conclude_nil (hdistinct : Cache.Distinct (r.found o t fs)) (hcache : cacheOf o t = []) :
    let issues := Issue.sorted (fs.flatMap (foundBy (r.checkOf o t)))
    (∃ t', r.conclude o t [] fs = .ok (issues, t')) ∨
      o.useCache = true ∧ (∃ i ∈ issues, Json.firstUnwritable? i.toNode.shown ≠ none) ∧
        (∃ w, r.conclude o t [] fs = .error (.cache w)) ∨
      o.useCache = true ∧ (∃ f ∈ fs, f.key.string? = none) ∧
        ∃ e left, r.conclude o t [] fs = .error (.encoding e left) := by
  intro issues
  by_cases hunwritable : r.Unwritable o t fs
  · obtain ⟨huse, f, hf, i, hi, hnot⟩ := hunwritable
    have hmem : i ∈ issues := List.mem_mergeSort.mpr (List.mem_flatMap_of_mem hf hi)
    exact Or.inr (Or.inl ⟨huse, ⟨i, hmem, hnot⟩,
      conclude_unwritable hdistinct ⟨huse, f, hf, i, hi, hnot⟩ []⟩)
  by_cases hloose : r.Unencodable o t fs
  · obtain ⟨e, left, _, hend⟩ := conclude_unencodable hdistinct hunwritable hloose []
    refine Or.inr (Or.inr ⟨hloose.1, ?_, e, left, hend⟩)
    by_contra! hnames
    refine hloose.2.2 (encodable_recorded_iff.mpr ⟨fun f hf => ?_, by simp [hcache]⟩)
    obtain ⟨s, hs⟩ := Option.ne_none_iff_exists'.mp (hnames f hf)
    exact ⟨s, LooseText.string?_eq_some.mp hs⟩
  · obtain ⟨t', _, hend⟩ := conclude_saved hdistinct hunwritable hloose []
    refine Or.inl ⟨t', hend.trans (finish_ok fun i hi => ?_)⟩
    obtain ⟨f, _, hi⟩ := List.mem_flatMap.mp hi
    exact Issue.hasFileName_of_file ⟨f.key, file_of_mem_foundBy file_of_mem_checkOf hi⟩

theorem checkPaths_withJobs (r : Proofreader) (o : CheckOptions) (t : FileTree)
    (paths : List LooseText) (jobs : Int) (completion : Completion) :
    r.checkPaths { o with jobs := jobs, completion := completion } t paths =
      (r.planOf o t paths).bind
        (r.carryOut { o with jobs := jobs, completion := completion } t) := rfl

section

variable (hchecks : ∀ p ∈ filesToCheck t paths, ∃ issues,
  r.checkFile o.morphology o.withMorphology t p.text = .ok issues)
include hchecks

theorem sameEnd_checkPaths (ht : t.Proper) (jobs jobs' : Int)
    (completion completion' : Completion) :
    SameEnd t (r.checkPaths { o with jobs := jobs, completion := completion } t paths)
      (r.checkPaths { o with jobs := jobs', completion := completion' } t paths) := by
  rw [checkPaths_withJobs, checkPaths_withJobs]
  cases hplan : r.planOf o t paths with
  | error e => exact .failed e
  | ok plan =>
      have hall := succeeds_of_mem_pending hchecks hplan
      obtain ⟨order, horder, hcarry⟩ := carryOut_jobs hall jobs completion
      obtain ⟨order', horder', hcarry'⟩ := carryOut_jobs hall jobs' completion'
      show SameEnd t (r.carryOut _ t plan) (r.carryOut _ t plan)
      rw [hcarry, hcarry']
      apply sameEnd_conclude _ (horder.trans horder'.symm)
      exact distinct_found ht hplan fun f hf => horder.mem_iff.mp hf

/-- Without a cache the issues of each file are those that checking the file finds. -/
theorem exists_sublists (ht : t.Proper) (hnamed : t.root.WellNamed) (hcache : cacheOf o t = [])
    (hdistinct : (filesToCheck t paths).Nodup) (jobs : Int) (completion : Completion) :
    ∃ issues : List Issue,
      (∀ p ∈ filesToCheck t paths, r.checkFile o.morphology o.withMorphology t p.text =
        .ok (issues.filter fun i => decide (i.fileName = p.text))) ∧
      ((∃ t', r.checkPaths { o with jobs := jobs, completion := completion } t paths =
          .ok (issues, t')) ∨
        o.useCache = true ∧ (∃ i ∈ issues, Json.firstUnwritable? i.toNode.shown ≠ none) ∧
          (∃ w, r.checkPaths { o with jobs := jobs, completion := completion } t paths =
            .error (.cache w)) ∨
        o.useCache = true ∧ (∃ p ∈ filesToCheck t paths, p.text.string? = none) ∧
          ∃ e left, r.checkPaths { o with jobs := jobs, completion := completion } t paths =
            .error (.encoding e left)) := by
  obtain ⟨fs, hplan, hkeys⟩ := planOf_empty (r := r) paths hnamed hcache
  have hall := succeeds_of_mem_pending hchecks hplan
  obtain ⟨order, horder, hcarry⟩ := carryOut_jobs hall jobs completion
  refine ⟨Issue.sorted (order.flatMap (foundBy (r.checkOf o t))), fun p hp => ?_, ?_⟩
  · obtain ⟨f, hf, hkey⟩ : ∃ f ∈ fs, f.key = p.text := by
      rw [← List.mem_map, hkeys]
      exact List.mem_map_of_mem hp
    have hnodup : (fs.map (·.key)).Nodup := hkeys ▸ nodup_texts ht hdistinct
    rw [← hkey, filter_sorted_found hnodup horder hf, ← checkOf_eq]
    exact check_eq_ok (hall f hf)
  · rw [checkPaths_withJobs, hplan]
    show (∃ t', r.carryOut _ t _ = _) ∨ _ ∧ _ ∧ (∃ w, r.carryOut _ t _ = _) ∨
      _ ∧ _ ∧ ∃ e left, r.carryOut _ t _ = _
    rw [hcarry]
    have hends := conclude_nil
      (distinct_found ht hplan fun f hf => horder.mem_iff.mp hf) hcache
    refine hends.imp_right (Or.imp_right (And.imp_right (And.imp_left ?_)))
    rintro ⟨f, hf, hhalf⟩
    obtain ⟨p, hp, hkey, _⟩ := of_mem_pending hplan (horder.mem_iff.mp hf)
    exact ⟨p, hp, hkey ▸ hhalf⟩

end

/-- Where no check fails, the number of jobs and the order in which a pool is done with its files do
not show in the end of a call.  If the cache was empty, the issues of each file are those that
checking the file finds, in the same order; only an issue that cannot be written to the cache or a
half in the name of a file keeps them back. -/
theorem checkPaths_jobs (ht : t.Proper) (hnamed : t.root.WellNamed)
    (hchecks : ∀ p ∈ filesToCheck t paths, ∃ issues,
      r.checkFile o.morphology o.withMorphology t p.text = .ok issues)
    (jobs jobs' : Int) (completion completion' : Completion) :
    SameEnd t (r.checkPaths { o with jobs := jobs, completion := completion } t paths)
        (r.checkPaths { o with jobs := jobs', completion := completion' } t paths) ∧
      (cacheOf o t = [] → (filesToCheck t paths).Nodup → ∃ issues : List Issue,
        (∀ p ∈ filesToCheck t paths, r.checkFile o.morphology o.withMorphology t p.text =
          .ok (issues.filter fun i => decide (i.fileName = p.text))) ∧
        ((∃ t', r.checkPaths { o with jobs := jobs, completion := completion } t paths =
            .ok (issues, t')) ∨
          o.useCache = true ∧ (∃ i ∈ issues, Json.firstUnwritable? i.toNode.shown ≠ none) ∧
            (∃ w, r.checkPaths { o with jobs := jobs, completion := completion } t paths =
              .error (.cache w)) ∨
          o.useCache = true ∧ (∃ p ∈ filesToCheck t paths, p.text.string? = none) ∧
            ∃ e left, r.checkPaths { o with jobs := jobs, completion := completion } t paths =
              .error (.encoding e left))) :=
  ⟨sameEnd_checkPaths hchecks ht jobs jobs' completion completion',
    fun hcache hdistinct => exists_sublists hchecks ht hnamed hcache hdistinct jobs completion⟩

/-- A pool that is done with the second of two files first ends as a single job does. -/
theorem checkPaths_jobs_backwards :
    let r : Proofreader := { engine := .builtIn {} }
    let t : FileTree :=
      ⟨.folder [("a.md", .file ⟨"ｱを".toUTF8, 1⟩), ("b.md", .file ⟨"ｲを".toUTF8, 1⟩)], []⟩
    let paths : List LooseText := ["b.md", "a.md"]
    let backwards : Completion := ⟨List.reverse, List.reverse_perm⟩
    SameEnd t (r.checkPaths { jobs := 2, completion := backwards } t paths)
        (r.checkPaths {} t paths) ∧
      ∃ issues : List Issue,
        (∀ p ∈ filesToCheck t paths, r.checkFile {} false t p.text =
          .ok (issues.filter fun i => decide (i.fileName = p.text))) ∧
        ((∃ t', r.checkPaths { jobs := 2, completion := backwards } t paths = .ok (issues, t')) ∨
          (∃ i ∈ issues, Json.firstUnwritable? i.toNode.shown ≠ none) ∧
            ∃ w, r.checkPaths { jobs := 2, completion := backwards } t paths =
              .error (.cache w)) := by
  intro r t paths backwards
  have hproper : t.Proper :=
    ⟨.folder (by decide) (by simp [FileNode.Proper.file]), by simp [t]⟩
  have hnamed : t.root.WellNamed :=
    .folder (by decide) (by decide) (by simp [FileNode.WellNamed.file])
  have hchecks : ∀ p ∈ filesToCheck t paths, ∃ issues, r.checkFile {} false t p.text = .ok issues :=
    fun p _ => exists_checkFile_ok (Engine.standard_builtIn {}) {} t p.text
  obtain ⟨hsame, hsublists⟩ :=
    checkPaths_jobs (o := {}) hproper hnamed hchecks 2 1 backwards .inTurn
  obtain ⟨issues, hissues, hend⟩ := hsublists rfl (by decide)
  have hnames : ¬∃ p ∈ filesToCheck t paths, p.text.string? = none := by decide
  refine ⟨hsame, issues, hissues, hend.imp_right ?_⟩
  rintro (⟨_, hissue⟩ | ⟨_, hhalf, _⟩)
  · exact hissue
  · exact absurd hhalf hnames

end Proofreader

end Kouetsu
