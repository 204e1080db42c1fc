import Kouetsu.Proofs.Calls
/-!
# Findings of several paths

A call tells of each file what its cache knows or what checking the file finds, once for each path
that leads to the file.
-/

namespace Kouetsu

/-! ## Findings -/

namespace Issue

/-- What an issue reports: its file, and the range, the code and the message there. -/
def finding (i : Issue) : LooseText × DiagnosticKey := (i.fileName, i.diagnostic.key)

structure Apart (file : LooseText) (issues : List Issue) : Prop where
  file : ∀ i ∈ issues, i.file = .text file
  keys : (issues.map (·.diagnostic.key)).Nodup

variable {file : LooseText} {issues : List Issue} {x : LooseText × DiagnosticKey}

theorem apart_nil : Apart file [] := ⟨by simp, List.nodup_nil⟩

theorem Apart.nodup_findings (h : Apart file issues) : (issues.map finding).Nodup := by
  refine List.Nodup.of_map Prod.snd ?_
  rw [List.map_map]
  exact h.keys

theorem Apart.fst_of_mem_findings (h : Apart file issues) (hx : x ∈ issues.map finding) :
    x.1 = file := by
  obtain ⟨i, hi, rfl⟩ := List.mem_map.mp hx
  exact fileName_of_file (h.file i hi)

end Issue

namespace Proofreader

variable {r : Proofreader} {o : CheckOptions} {t t' : FileTree} {paths : List LooseText}
  {issues : List Issue} {p : Path}

theorem apart_foundBy (f : PendingFile) : Issue.Apart f.key (foundBy (r.checkOf o t) f) := by
  rw [foundBy]
  cases hcheck : r.checkOf o t f.key with
  | error e => exact Issue.apart_nil
  | ok found =>
      obtain ⟨hfile, hranks⟩ := checkFile_ok hcheck
      refine ⟨hfile, List.pairwise_map.mpr (hranks.imp fun {i j} hlt hkey => ?_)⟩
      exact hlt.ne (congrArg DiagnosticKey.rank hkey)

/-! ## What is told of a file -/

/-- What a call tells of a file: what its cache knows, or else what checking the file finds. -/
def told (r : Proofreader) (o : CheckOptions) (t : FileTree) (p : Path) : List Issue :=
  match t.fingerprint p with
  | .error _ => []
  | .ok s =>
      match (cacheOf o t).lookup p.text s (r.digestFor o) with
      | some records => (records.mapM Issue.ofNode).toOption.getD []
      | none => foundBy (r.checkOf o t) ⟨p.text, s⟩

/-- A call whose cache knows of each file only issues of that file, no two of which report the
same. -/
def KnowsApart (r : Proofreader) (o : CheckOptions) (t : FileTree) (paths : List LooseText) :
    Prop :=
  ∀ p ∈ filesToCheck t paths, ∀ s records known, t.fingerprint p = .ok s →
    (cacheOf o t).lookup p.text s (r.digestFor o) = some records →
      records.mapM Issue.ofNode = .ok known → Issue.Apart p.text known

theorem apart_told (h : r.KnowsApart o t paths) (hp : p ∈ filesToCheck t paths) :
    Issue.Apart p.text (r.told o t p) := by
  rw [told]
  split
  · exact Issue.apart_nil
  · next s hs =>
      split
      · next records hlookup =>
          cases hknown : records.mapM Issue.ofNode with
          | error e => exact Issue.apart_nil
          | ok known => exact h p hp s records known hs hlookup hknown
      · exact apart_foundBy ⟨p.text, s⟩

/-! ## What a call answers -/

def answerOf (r : Proofreader) (o : CheckOptions) (t : FileTree) (plan : Plan) : List Issue :=
  plan.known ++ plan.pending.flatMap (foundBy (r.checkOf o t))

theorem perm_answerOf_add {plan plan' : Plan}
    (h : Plan.add (cacheOf o t) (r.digestFor o) t plan p = .ok plan') :
    (r.answerOf o t plan').Perm (r.answerOf o t plan ++ r.told o t p) := by
  obtain ⟨s, hs, ⟨records, known, hlookup, hknown, rfl⟩ | ⟨hlookup, rfl⟩⟩ := add_eq_ok h
  · have htold : r.told o t p = known := by
      simp only [told, hs, hlookup, hknown]
      rfl
    rw [htold, answerOf, answerOf, List.append_assoc, List.append_assoc]
    exact List.perm_append_comm.append_left _
  · have htold : r.told o t p = foundBy (r.checkOf o t) ⟨p.text, s⟩ := by
      simp only [told, hs, hlookup]
    rw [htold, answerOf, answerOf, List.flatMap_append, List.flatMap_singleton, List.append_assoc]

theorem perm_answerOf {files : List Path} {plan plan' : Plan}
    (h : files.foldlM (Plan.add (cacheOf o t) (r.digestFor o) t) plan = .ok plan') :
    (r.answerOf o t plan').Perm (r.answerOf o t plan ++ files.flatMap (r.told o t)) := by
  induction files generalizing plan with
  | nil =>
      obtain rfl : plan = plan' := Except.ok.inj h
      rw [List.flatMap_nil, List.append_nil]
  | cons p files ih =>
      rw [List.foldlM_cons] at h
      obtain ⟨next, hnext, h⟩ := bind_eq_ok.mp h
      rw [List.flatMap_cons, ← List.append_assoc]
      exact (ih h).trans ((perm_answerOf_add hnext).append_right _)

theorem issues_of_finish {found : List Issue} {u : FileTree}
    (h : finish found u = .ok (issues, t')) : issues = Issue.sorted found := by
  rcases finish_eq found u with ⟨⟨v, w, herror⟩, _⟩ | ⟨hok, _⟩
  · simp [herror] at h
  · exact (Prod.mk.inj (Except.ok.inj (h.symm.trans hok))).1

theorem issues_of_conclude {known : List Issue} {fs : List PendingFile}
    (h : r.conclude o t known fs = .ok (issues, t')) :
    issues = Issue.sorted (known ++ fs.flatMap (foundBy (r.checkOf o t))) := by
  rw [conclude] at h
  split at h
  · obtain ⟨u, _, h⟩ := bind_eq_ok.mp h
    exact issues_of_finish h
  · exact issues_of_finish h

theorem exists_sorted_told (h : r.checkPaths o t paths = .ok (issues, t')) :
    ∃ found : List Issue, found.Perm ((filesToCheck t paths).flatMap (r.told o t)) ∧
      issues = Issue.sorted found := by
  rw [checkPaths_eq] at h
  obtain ⟨plan, hplan, h⟩ := bind_eq_ok.mp h
  cases hfailure : failure? (r.checkOf o t) o.pool plan.pending with
  | some e => simp [carryOut_error hfailure] at h
  | none =>
      obtain ⟨order, horder, hcarry⟩ := carryOut_eq hfailure
      refine ⟨_, ?_, issues_of_conclude (hcarry.symm.trans h)⟩
      have hpending := horder.flatMap_right (foundBy (r.checkOf o t))
      rw [flatMap_filter_succeeds] at hpending
      exact (hpending.append_left _).trans (perm_answerOf hplan)

/-! ## How often a finding is answered -/

theorem count_filesToCheck (hnames : t.root.WellNamed) (hp : p ∈ filesToCheck t paths) :
    (filesToCheck t paths).count p = t.visits paths p := by
  rw [← FileTree.count_filesUnder hnames, filesToCheck]
  exact List.count_filter (List.mem_filter.mp hp).2

/-- A finding of a file is told once for each path that leads to the file. -/
theorem count_findings (ht : t.Proper) (hnames : t.root.WellNamed) (h : r.KnowsApart o t paths)
    (hp : p ∈ filesToCheck t paths) {i : Issue} (hi : i ∈ r.told o t p) :
    (((filesToCheck t paths).flatMap (r.told o t)).map Issue.finding).count i.finding =
      t.visits paths p := by
  rw [← count_filesToCheck hnames hp, List.map_flatMap]
  refine countP_flatMap_of_once fun q hq => ?_
  rw [← List.count, (apart_told h hq).nodup_findings.count]
  refine if_congr ?_ rfl rfl
  rw [beq_iff_eq]
  constructor
  · intro hmem
    have hname : i.finding.1 = p.text :=
      (apart_told h hp).fst_of_mem_findings (List.mem_map_of_mem hi)
    have hname' : i.finding.1 = q.text := (apart_told h hq).fst_of_mem_findings hmem
    exact eq_of_text_eq ht hq hp (hname'.symm.trans hname)
  · rintro rfl
    exact List.mem_map_of_mem hi

/-- A call answers in order what it tells of the files, each finding as often as paths lead to its
file: all findings once exactly if no file with issues is at two of the paths. -/
theorem checkPaths_findings (ht : t.Proper) (hnames : t.root.WellNamed)
    (hcache : r.KnowsApart o t paths) (h : r.checkPaths o t paths = .ok (issues, t')) :
    issues.Pairwise (fun i j => i.place ≤ j.place) ∧
      issues.Perm ((filesToCheck t paths).flatMap (r.told o t)) ∧
      (∀ p ∈ filesToCheck t paths, ∀ i ∈ r.told o t p,
        (issues.map Issue.finding).count i.finding = t.visits paths p) ∧
      ((issues.map Issue.finding).Nodup ↔
        ∀ p ∈ filesToCheck t paths, r.told o t p ≠ [] → t.visits paths p = 1) := by
  obtain ⟨found, hfound, rfl⟩ := exists_sorted_told h
  have hperm : (Issue.sorted found).Perm ((filesToCheck t paths).flatMap (r.told o t)) :=
    (List.mergeSort_perm found _).trans hfound
  have hcount : ∀ p ∈ filesToCheck t paths, ∀ i ∈ r.told o t p,
      ((Issue.sorted found).map Issue.finding).count i.finding = t.visits paths p := by
    intro p hp i hi
    rw [(hperm.map Issue.finding).count_eq, count_findings ht hnames hcache hp hi]
  have hnamed : ∀ i ∈ found, i.HasFileName := by
    intro i hi
    obtain ⟨p, hp, hi⟩ := List.mem_flatMap.mp (hfound.mem_iff.mp hi)
    exact Issue.hasFileName_of_file ⟨p.text, (apart_told hcache hp).file i hi⟩
  refine ⟨Issue.pairwise_sorted hnamed, hperm, hcount, ?_, ?_⟩
  · intro hnodup p hp htold
    obtain ⟨i, hi⟩ := List.exists_mem_of_ne_nil _ htold
    rw [← hcount p hp i hi]
    refine List.count_eq_one_of_mem hnodup (List.mem_map_of_mem (hperm.mem_iff.mpr ?_))
    exact List.mem_flatMap.mpr ⟨p, hp, hi⟩
  · intro honce
    refine List.nodup_iff_count_le_one.mpr fun x => ?_
    by_cases hx : x ∈ (Issue.sorted found).map Issue.finding
    · obtain ⟨i, hi, rfl⟩ := List.mem_map.mp hx
      obtain ⟨p, hp, hi⟩ := List.mem_flatMap.mp (hperm.mem_iff.mp hi)
      rw [hcount p hp i hi, honce p hp (List.ne_nil_of_mem hi)]
    · rw [List.count_eq_zero_of_not_mem hx]
      exact Nat.zero_le 1

/-- A file that is given with its folder answers its finding for both. -/
theorem checkPaths_findings_inside :
    let r : Proofreader := { engine := .builtIn {}, names := some ["tautology"] }
    let t : FileTree :=
      { root := .folder [("d", .folder [("a.md", .file ⟨"頭痛が痛い。".toUTF8, 1⟩)])] }
    t.Proper ∧ t.root.WellNamed ∧ r.KnowsApart {} t ["d", "d/a.md"] ∧
      ∃ issues t', r.checkPaths {} t ["d", "d/a.md"] = .ok (issues, t') ∧
        ∃ i ∈ r.told {} t ⟨"", ["d", "a.md"]⟩,
          (issues.map Issue.finding).count i.finding = 2 := by
  intro r t
  have hproper : t.Proper := by
    refine ⟨.folder (by decide) fun x hx => ?_, by simp [t]⟩
    rw [List.mem_singleton.mp hx]
    exact .folder (by decide) (by simp [FileNode.Proper.file])
  have hnamed : t.root.WellNamed := by
    refine .folder (by decide) (by decide) fun x hx => ?_
    rw [List.mem_singleton.mp hx]
    exact .folder (by decide) (by decide) (by simp [FileNode.WellNamed.file])
  have hcache : r.KnowsApart {} t ["d", "d/a.md"] := by
    intro p _ s records known _ hlookup
    have hempty : cacheOf {} t = [] := rfl
    rw [hempty] at hlookup
    cases hlookup
  have hbuiltIn : r.BuiltIn := builtIn_initial _
  have hnames : ∀ p ∈ filesToCheck t ["d", "d/a.md"], p.text.string? ≠ none := by decide +kernel
  obtain ⟨issues, t', hok⟩ : ∃ issues t', r.checkPaths {} t ["d", "d/a.md"] = .ok (issues, t') :=
    hbuiltIn.exists_checkPaths hnamed rfl rfl fun ⟨_, _, p, hp, hhalf, _⟩ => hnames p hp hhalf
  have htold : r.told {} t ⟨"", ["d", "a.md"]⟩ ≠ [] :=
    List.ne_nil_of_length_pos (by decide +kernel)
  obtain ⟨i, hi⟩ := List.exists_mem_of_ne_nil _ htold
  obtain ⟨_, _, hcount, _⟩ := checkPaths_findings hproper hnamed hcache hok
  refine ⟨hproper, hnamed, hcache, issues, t', hok, i, hi, ?_⟩
  exact (hcount _ (by decide +kernel) i hi).trans (by decide +kernel)

/-- A path that is given twice answers its findings twice. -/
theorem checkPaths_answers_twice :
    let r : Proofreader := { engine := .builtIn {}, names := some ["tautology"] }
    let t : FileTree := { root := .folder [("a.md", .file ⟨"頭痛が痛い。".toUTF8, 1⟩)] }
    ∃ issues t', r.checkPaths {} t ["a.md", "a.md"] = .ok (issues, t') ∧
      ¬(issues.map Issue.finding).Nodup := by
  intro r t
  have hnamed : t.root.WellNamed :=
    .folder (by decide) (by decide) (by simp [FileNode.WellNamed.file])
  have hbuiltIn : r.BuiltIn := builtIn_initial _
  have hnames : ∀ p ∈ filesToCheck t ["a.md", "a.md"], p.text.string? ≠ none := by decide +kernel
  obtain ⟨issues, t', hok⟩ : ∃ issues t', r.checkPaths {} t ["a.md", "a.md"] = .ok (issues, t') :=
    hbuiltIn.exists_checkPaths hnamed rfl rfl fun ⟨_, _, p, hp, hhalf, _⟩ => hnames p hp hhalf
  refine ⟨issues, t', hok, fun hnodup => ?_⟩
  obtain ⟨found, hfound, rfl⟩ := exists_sorted_told hok
  have hfiles : filesToCheck t ["a.md", "a.md"] = [⟨"", ["a.md"]⟩, ⟨"", ["a.md"]⟩] := rfl
  have hperm := (List.mergeSort_perm found Issue.le).trans hfound
  rw [hfiles, List.flatMap_cons, List.flatMap_singleton] at hperm
  have hlength : 0 < (r.told {} t ⟨"", ["a.md"]⟩).length := by decide +kernel
  obtain ⟨i, hi⟩ := List.exists_mem_of_length_pos hlength
  have hboth := (hperm.nodup_iff).mp (List.Nodup.of_map _ hnodup)
  exact List.disjoint_of_nodup_append hboth hi hi

end Proofreader

end Kouetsu
