import Kouetsu.Proofs.Calls
/-!
# Files whose check fails

In a pool a file whose check fails costs only its own issues and its own record.  A single job ends
at the first such file, and what it has found in others is lost.
-/

namespace Kouetsu

/-! ## What a plan has of a file -/

/-- A plan has of a file the issues that the cache knows, or the file itself. -/
inductive Plan.Has (cache : Cache) (digest : String) (key : LooseText) (fingerprint : String)
    (plan : Plan) : Prop
  | known {records : List Json.Node} {issues : List Issue}
      (hlookup : cache.lookup key fingerprint digest = some records)
      (hrecords : records.mapM Issue.ofNode = .ok issues) (hknown : issues ⊆ plan.known)
  | pending (hlookup : cache.lookup key fingerprint digest = none)
      (hpending : ⟨key, fingerprint⟩ ∈ plan.pending)

namespace Plan

variable {cache : Cache} {digest fingerprint : String} {key : LooseText} {t : FileTree}
  {plan plan' : Plan} {p : Path}

theorem has_of_add (h : Plan.add cache digest t plan p = .ok plan') :
    ∃ s, t.fingerprint p = .ok s ∧ plan'.Has cache digest p.text s := by
  obtain ⟨s, hs, ⟨records, issues, hlookup, hissues, rfl⟩ | ⟨hlookup, rfl⟩⟩ :=
    Proofreader.add_eq_ok h
  · exact ⟨s, hs, .known hlookup hissues (List.subset_append_right _ _)⟩
  · exact ⟨s, hs, .pending hlookup (List.mem_append_right _ List.mem_cons_self)⟩

theorem Has.add (h : plan.Has cache digest key fingerprint)
    (hadd : Plan.add cache digest t plan p = .ok plan') :
    plan'.Has cache digest key fingerprint := by
  obtain ⟨s, _, ⟨_, issues, _, _, rfl⟩ | ⟨_, rfl⟩⟩ := Proofreader.add_eq_ok hadd
  · cases h with
    | known hlookup hrecords hknown =>
        exact .known hlookup hrecords fun i hi => List.mem_append_left _ (hknown hi)
    | pending hlookup hpending => exact .pending hlookup hpending
  · cases h with
    | known hlookup hrecords hknown => exact .known hlookup hrecords hknown
    | pending hlookup hpending => exact .pending hlookup (List.mem_append_left _ hpending)

theorem exists_has {files : List Path} (h : files.foldlM (Plan.add cache digest t) plan = .ok plan')
    (hp : p ∈ files) : ∃ s, t.fingerprint p = .ok s ∧ plan'.Has cache digest p.text s := by
  induction files generalizing plan with
  | nil => contradiction
  | cons q files ih =>
      rw [List.foldlM_cons] at h
      obtain ⟨next, hnext, hrest⟩ := bind_eq_ok.mp h
      rcases List.mem_cons.mp hp with rfl | hp
      · obtain ⟨s, hs, hhas⟩ := has_of_add hnext
        refine ⟨s, hs, foldlM_invariant_ok hrest hhas ?_⟩
        exact fun _ _ _ hhas _ hadd => hhas.add hadd
      · exact ih hrest hp

end Plan

namespace Proofreader

variable {r : Proofreader} {o : CheckOptions} {t : FileTree} {paths : List LooseText} {plan : Plan}
  {fs pending : List PendingFile}

/-! ## What failures cost -/

/-- A cache in which the pending files that do not fail have new records and all else is as it
was. -/
structure Renewed (r : Proofreader) (o : CheckOptions) (t : FileTree) (pending : List PendingFile)
    (c : Cache) : Prop where
  recorded : ∀ f ∈ pending, ∀ issues,
    r.checkFile o.morphology o.withMorphology t f.key = .ok issues →
      Entries.get? c f.key =
        some (Cache.record f.fingerprint (r.digestFor o) (issues.map Issue.toNode))
  kept : ∀ key, (∀ f ∈ pending, f.key = key →
      ∃ e, r.checkFile o.morphology o.withMorphology t f.key = .error e) →
    Entries.get? c key = Entries.get? (cacheOf o t) key

/-- Ends of a call in which a file that fails costs only its own issues and its own record.  What
else may fail is the writing of an issue, the encoding of a name or a foreign record that holds a
half, and an order of issues from a foreign cache. -/
inductive SparesOthers (r : Proofreader) (o : CheckOptions) (t : FileTree) (plan : Plan) :
    Except CheckError (List Issue × FileTree) → Prop
  | done {t' : FileTree}
      (hstored : o.useCache = true → ∃ c, saveCache t c = .ok t' ∧ r.Renewed o t plan.pending c)
      (hunused : o.useCache = false → t' = t) :
      SparesOthers r o t plan (.ok (Issue.sorted (plan.known ++ plan.pending.flatMap
        (foundBy (r.checkFile o.morphology o.withMorphology t))), t'))
  | unwritable (h : r.Unwritable o t plan.pending) (w : Json.WriteError) :
      SparesOthers r o t plan (.error (.cache w))
  | encoding {left : FileTree} (huse : o.useCache = true)
      (hhalf : (∃ f ∈ plan.pending, f.key.string? = none) ∨ ¬(cacheOf o t).Encodable)
      (e : EncodeError) (hleft : t.write Cache.path { content := "".toUTF8 } = .ok left) :
      SparesOthers r o t plan (.error (.encoding e left))
  | unorderable {left : FileTree}
      (hstored : o.useCache = true → ∃ c, saveCache t c = .ok left ∧ r.Renewed o t plan.pending c)
      (hunused : o.useCache = false → left = t) (h : ∃ i ∈ plan.known, ¬i.HasFileName)
      (m n : Json.Node) : SparesOthers r o t plan (.error (.unorderable m n left))

theorem renewed_recorded (hdistinct : Cache.Distinct (r.found o t fs))
    (hperm : fs.Perm (pending.filter (succeeds (r.checkOf o t)))) :
    r.Renewed o t pending (r.recorded o t fs) := by
  constructor
  · intro f hf issues hissues
    have hsucceeds := succeeds_checkOf_iff.mpr ⟨issues, hissues⟩
    rw [← checkOf_eq] at hissues
    have hchecked : (f, issues) ∈ r.found o t fs := by
      obtain rfl : foundBy (r.checkOf o t) f = issues :=
        Except.ok.inj ((check_eq_ok hsucceeds).symm.trans hissues)
      exact List.mem_map_of_mem (hperm.mem_iff.mpr (List.mem_filter.mpr ⟨hf, hsucceeds⟩))
    exact Cache.get?_recordAll hdistinct hchecked
  · intro key hfails
    apply Cache.get?_recordAll_of_not_mem
    intro x hx hkey
    obtain ⟨f, hf, rfl⟩ := List.mem_map.mp hx
    obtain ⟨hpending, hsucceeds⟩ := List.mem_filter.mp (hperm.mem_iff.mp hf)
    obtain ⟨e, he⟩ := hfails f hpending hkey
    rw [← checkOf_eq, check_eq_ok hsucceeds] at he
    contradiction

theorem sparesOthers_conclude (hdistinct : Cache.Distinct (r.found o t fs))
    (hperm : fs.Perm (plan.pending.filter (succeeds (r.checkOf o t)))) :
    r.SparesOthers o t plan (r.conclude o t plan.known fs) := by
  by_cases hunwritable : r.Unwritable o t fs
  · obtain ⟨w, hw⟩ := conclude_unwritable hdistinct hunwritable plan.known
    obtain ⟨huse, f, hf, hissue⟩ := hunwritable
    rw [hw]
    exact .unwritable ⟨huse, f, (List.mem_filter.mp (hperm.mem_iff.mp hf)).1, hissue⟩ w
  by_cases hloose : r.Unencodable o t fs
  · obtain ⟨e, left, hleft, hend⟩ := conclude_unencodable hdistinct hunwritable hloose plan.known
    rw [hend]
    refine .encoding hloose.1 ?_ e hleft
    by_contra! hall
    refine hloose.2.2 (encodable_recorded_iff.mpr ⟨fun f hf => ?_, fun x hx _ => hall.2 x hx⟩)
    obtain ⟨s, hs⟩ := Option.ne_none_iff_exists'.mp
      (hall.1 f (List.mem_filter.mp (hperm.mem_iff.mp hf)).1)
    exact ⟨s, LooseText.string?_eq_some.mp hs⟩
  · obtain ⟨t', hstores, hend⟩ := conclude_saved hdistinct hunwritable hloose plan.known
    have hstored (huse : o.useCache = true) :
        ∃ c, saveCache t c = .ok t' ∧ r.Renewed o t plan.pending c := by
      rw [Stores, if_pos huse] at hstores
      exact ⟨_, hstores, renewed_recorded hdistinct hperm⟩
    have hunused (huse : o.useCache = false) : t' = t := by
      rwa [Stores, huse, if_neg Bool.false_ne_true] at hstores
    rw [hend]
    rcases finish_eq (plan.known ++ fs.flatMap (foundBy (r.checkOf o t))) t' with
      ⟨⟨m, n, hfinish⟩, hnot⟩ | ⟨hfinish, hordered⟩
    · rw [hfinish]
      refine .unorderable hstored hunused ?_ m n
      by_contra! hnamed
      apply hnot
      rw [pairwise_known_append]
      exact ⟨Issue.pairwise_comparable hnamed, fun _ => hnamed⟩
    · have hfirst := ((pairwise_known_append plan.known fs).mp hordered).2
      rw [hfinish, sorted_append_found file_of_mem_checkOf hfirst hperm,
        flatMap_filter_succeeds, checkOf_eq]
      exact .done hstored hunused

theorem checkPaths_first_failure (hplan : r.planOf o t paths = .ok plan) (hjobs : o.jobs ≤ 1)
    (before : List PendingFile) {after : List PendingFile} {f : PendingFile} {e : FileCheckError}
    (hpending : plan.pending = before ++ f :: after)
    (hbefore : ∀ g ∈ before, ∃ issues,
      r.checkFile o.morphology o.withMorphology t g.key = .ok issues)
    (hf : r.checkFile o.morphology o.withMorphology t f.key = .error e) :
    r.checkPaths o t paths = .error (.check e) := by
  have hfailure : failure? (r.checkOf o t) o.pool plan.pending = some e := by
    have hfirst : before.findSome? (failureOf? (r.checkOf o t)) = none := by
      apply List.findSome?_eq_none_iff.mpr
      intro g hg
      obtain ⟨issues, hissues⟩ := hbefore g hg
      rw [failureOf?, checkOf_eq, hissues]
    rw [CheckOptions.pool, if_neg (by omega), hpending]
    show (before ++ f :: after).findSome? _ = some e
    rw [List.findSome?_append, hfirst, List.findSome?_cons, failureOf?, checkOf_eq, hf]
    rfl
  rw [checkPaths_eq]
  show (r.planOf o t paths).bind _ = _
  rw [hplan]
  exact carryOut_error hfailure

/-- In a pool, or where no check fails, a file that fails costs only its own issues and its own
record.  A single job ends at the first file that fails. -/
theorem checkPaths_failing (ht : t.Proper) (hplan : r.planOf o t paths = .ok plan) :
    (∀ p ∈ filesToCheck t paths, ∃ s, t.fingerprint p = .ok s ∧
      plan.Has (cacheOf o t) (r.digestFor o) p.text s) ∧
    ((1 < o.jobs ∨ ∀ f ∈ plan.pending, ∃ issues,
        r.checkFile o.morphology o.withMorphology t f.key = .ok issues) →
      r.SparesOthers o t plan (r.checkPaths o t paths)) ∧
    (o.jobs ≤ 1 → ∀ before f after e, plan.pending = before ++ f :: after →
      (∀ g ∈ before, ∃ issues, r.checkFile o.morphology o.withMorphology t g.key = .ok issues) →
      r.checkFile o.morphology o.withMorphology t f.key = .error e →
        r.checkPaths o t paths = .error (.check e)) := by
  refine ⟨fun p hp => Plan.exists_has hplan hp, fun hspares => ?_,
    fun hjobs before _ _ _ hpending hbefore hf =>
      checkPaths_first_failure hplan hjobs before hpending hbefore hf⟩
  have hnone : failure? (r.checkOf o t) o.pool plan.pending = none := by
    rcases hspares with hjobs | hall
    · rw [CheckOptions.pool, if_pos hjobs]
      rfl
    · exact failure?_eq_none (fun f hf => succeeds_checkOf_iff.mpr (hall f hf)) _
  obtain ⟨order, horder, hcarry⟩ := carryOut_eq hnone
  rw [checkPaths_eq]
  show r.SparesOthers o t plan ((r.planOf o t paths).bind _)
  rw [hplan]
  show r.SparesOthers o t plan (r.carryOut o t plan)
  rw [hcarry]
  refine sparesOthers_conclude (distinct_found ht hplan fun f hf => ?_) horder
  exact (List.mem_filter.mp (horder.mem_iff.mp hf)).1

/-- An analyser whose words have no surface fails on each text but the empty one. -/
theorem checkPaths_failing_surface :
    let r : Proofreader := { engine := .builtIn {} }
    let t : FileTree :=
      ⟨.folder [("a.md", .file ⟨"あ".toUTF8, 0⟩), ("b.md", .file ⟨"".toUTF8, 0⟩)], []⟩
    let m : Morphology := { janome := some fun _ => [⟨none, []⟩] }
    let o (jobs : Int) : CheckOptions := { morphology := m, withMorphology := true, jobs := jobs }
    let plan : Plan := { pending := [⟨"a.md", "0:3"⟩, ⟨"b.md", "0:0"⟩] }
    r.SparesOthers (o 2) t plan (r.checkPaths (o 2) t ["a.md", "b.md"]) ∧
      r.checkPaths (o 1) t ["a.md", "b.md"] = .error (.check (.tokens .noSurface)) := by
  intro r t m o plan
  have hproper : t.Proper :=
    ⟨.folder (by decide) (by simp [FileNode.Proper.file]), by simp [t]⟩
  have hplan (jobs : Int) : r.planOf (o jobs) t ["a.md", "b.md"] = .ok plan := rfl
  obtain ⟨_, hspares, _⟩ := checkPaths_failing hproper (hplan 2)
  obtain ⟨_, _, hends⟩ := checkPaths_failing hproper (hplan 1)
  exact ⟨hspares (Or.inl (by decide)), hends (by decide) [] _ _ _ rfl (by simp) rfl⟩

/-- With a single job a file that fails costs all that is found in others. -/
theorem checkPaths_loses_others :
    let r : Proofreader := { engine := .builtIn {} }
    let t : FileTree :=
      ⟨.folder [("a.md", .file ⟨"あ".toUTF8, 0⟩), ("b.md", .file ⟨"".toUTF8, 0⟩)], []⟩
    let m : Morphology := { janome := some fun _ => [⟨none, []⟩] }
    (∃ issues, r.checkFile m true t "b.md" = .ok issues) ∧
      r.checkPaths { morphology := m, withMorphology := true } t ["a.md", "b.md"] =
        .error (.check (.tokens .noSurface)) := by
  intro r t m
  have hplan : r.planOf { morphology := m, withMorphology := true } t ["a.md", "b.md"] =
      .ok { pending := [⟨"a.md", "0:3"⟩, ⟨"b.md", "0:0"⟩] } := rfl
  refine ⟨⟨_, rfl⟩, ?_⟩
  exact checkPaths_first_failure hplan (by decide) [] rfl (by simp) rfl

end Proofreader

end Kouetsu
