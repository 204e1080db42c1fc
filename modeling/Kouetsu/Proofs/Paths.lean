import Kouetsu.Proofs.Saving
import Kouetsu.Proofs.Sorting
import Kouetsu.Proofs.Traverse
/-!
# Checking paths with a cache

A cache that knows of files only what checking them finds does not change the issues of paths,
whatever the order in which a pool is done with the files.
-/

namespace Kouetsu

section Plans

variable {cache : Cache} {digest : String} {t : FileTree}
  {check : LooseText → Except FileCheckError (List Issue)}

def foundBy (check : LooseText → Except FileCheckError (List Issue)) (f : PendingFile) :
    List Issue :=
  (check f.key).toOption.getD []

def Cache.Answers (cache : Cache) (digest : String)
    (check : LooseText → Except FileCheckError (List Issue)) (f : PendingFile) : Prop :=
  ∀ records, cache.lookup f.key f.fingerprint digest = some records →
    ∃ issues, check f.key = .ok issues ∧ records.mapM Issue.ofNode = .ok issues

def Cache.knows (cache : Cache) (digest : String) (f : PendingFile) : Bool :=
  (cache.lookup f.key f.fingerprint digest).isSome

def fingerprints (t : FileTree) (files : List Path) : Except CheckError (List PendingFile) :=
  files.mapM fun p => ((t.fingerprint p).mapError .file).map fun s => ⟨p.text, s⟩

/-! ## Plans -/

theorem fingerprints_cons {p : Path} {files : List Path} {s : String}
    (h : t.fingerprint p = .ok s) :
    fingerprints t (p :: files) = (fingerprints t files).map (⟨p.text, s⟩ :: ·) := by
  rw [fingerprints, List.mapM_cons, h]
  cases hrest : fingerprints t files <;> rw [fingerprints] at hrest <;> simp only [hrest] <;> rfl

theorem fingerprints_cons_error {p : Path} {files : List Path} {e : FileError}
    (h : t.fingerprint p = .error e) : fingerprints t (p :: files) = .error (.file e) := by
  rw [fingerprints, List.mapM_cons, h]
  rfl

theorem add_missing {plan : Plan} {p : Path} {s : String} (h : t.fingerprint p = .ok s)
    (hlookup : cache.lookup p.text s digest = none) :
    Plan.add cache digest t plan p =
      .ok { plan with pending := plan.pending ++ [⟨p.text, s⟩] } := by
  rw [Plan.add, h]
  simp only [Except.mapError, bind, Except.bind, hlookup]
  rfl

theorem add_known {plan : Plan} {p : Path} {s : String} {records : List Json.Node}
    {issues : List Issue} (h : t.fingerprint p = .ok s)
    (hlookup : cache.lookup p.text s digest = some records)
    (hrecords : records.mapM Issue.ofNode = .ok issues) :
    Plan.add cache digest t plan p = .ok { plan with known := plan.known ++ issues } := by
  rw [Plan.add, h]
  simp only [Except.mapError, bind, Except.bind, hlookup, hrecords]
  rfl

/-- A plan holds what the cache knows and the files that it does not know, in order. -/
theorem foldlM_add {files : List Path} (h : ∀ p ∈ files, ∀ s, t.fingerprint p = .ok s →
    cache.Answers digest check ⟨p.text, s⟩) (plan : Plan) :
    files.foldlM (Plan.add cache digest t) plan = (fingerprints t files).map fun fs =>
      ⟨plan.known ++ (fs.filter (cache.knows digest)).flatMap (foundBy check),
        plan.pending ++ fs.filter fun f => !cache.knows digest f⟩ := by
  induction files generalizing plan with
  | nil =>
      obtain ⟨known, pending⟩ := plan
      simp [fingerprints, Except.map, pure, Except.pure]
  | cons p files ih =>
      have ih := ih fun q hq => h q (List.mem_cons_of_mem p hq)
      rw [List.foldlM_cons]
      cases hs : t.fingerprint p with
      | error e =>
          rw [fingerprints_cons_error hs, Plan.add, hs]
          rfl
      | ok s =>
          rw [fingerprints_cons hs]
          cases hlookup : cache.lookup p.text s digest with
          | none =>
              have hknows : cache.knows digest ⟨p.text, s⟩ = false := by
                rw [Cache.knows, hlookup]
                rfl
              rw [add_missing hs hlookup]
              refine (ih _).trans ?_
              cases fingerprints t files with
              | error e => rfl
              | ok fs => simp [Except.map, hknows]
          | some records =>
              obtain ⟨issues, hcheck, hrecords⟩ :=
                h p List.mem_cons_self s hs records hlookup
              have hknows : cache.knows digest ⟨p.text, s⟩ = true := by
                rw [Cache.knows, hlookup]
                rfl
              have hfound : foundBy check ⟨p.text, s⟩ = issues := by
                rw [foundBy, hcheck]
                rfl
              rw [add_known hs hlookup hrecords]
              refine (ih _).trans ?_
              cases fingerprints t files with
              | error e => rfl
              | ok fs => simp [Except.map, hknows, hfound]

/-! ## Pending files -/

def failureOf? (check : LooseText → Except FileCheckError (List Issue)) (f : PendingFile) :
    Option FileCheckError :=
  match check f.key with
  | .error e => some e
  | .ok _ => none

/-- The failure that ends the check of files.  A pool leaves files that fail out. -/
def failure? (check : LooseText → Except FileCheckError (List Issue)) (pool : Option Completion)
    (fs : List PendingFile) : Option FileCheckError :=
  match pool with
  | some _ => none
  | none => fs.findSome? (failureOf? check)

theorem mapM_check_error {fs : List PendingFile} {e : FileCheckError}
    (h : fs.findSome? (failureOf? check) = some e) :
    (fs.mapM fun f => (check f.key).map fun issues => (f, issues)) = .error e := by
  induction fs with
  | nil => simp at h
  | cons f fs ih =>
      rw [List.findSome?_cons] at h
      rw [List.mapM_cons]
      cases hf : check f.key with
      | error e' =>
          rw [failureOf?, hf] at h
          rw [← Option.some.inj h]
          rfl
      | ok issues =>
          rw [failureOf?, hf] at h
          show Except.bind (fs.mapM _) _ = _
          rw [ih h]
          rfl

theorem mapM_check_ok {fs : List PendingFile} (h : fs.findSome? (failureOf? check) = none) :
    (fs.mapM fun f => (check f.key).map fun issues => (f, issues)) =
      .ok (fs.map fun f => (f, foundBy check f)) := by
  induction fs with
  | nil => rfl
  | cons f fs ih =>
      rw [List.findSome?_cons] at h
      rw [List.mapM_cons]
      cases hf : check f.key with
      | error e => simp [failureOf?, hf] at h
      | ok issues =>
          rw [failureOf?, hf] at h
          have hfound : foundBy check f = issues := by
            rw [foundBy, hf]
            rfl
          show Except.bind (fs.mapM _) _ = _
          rw [ih h, List.map_cons, hfound]
          rfl

theorem checkPending_error {pool : Option Completion} {fs : List PendingFile} {e : FileCheckError}
    (h : failure? check pool fs = some e) : checkPending check pool fs = .error e := by
  cases pool with
  | some c => simp [failure?] at h
  | none => exact mapM_check_error h

def succeeds (check : LooseText → Except FileCheckError (List Issue)) (f : PendingFile) : Bool :=
  (check f.key).toOption.isSome

theorem check_eq_ok {f : PendingFile} (h : succeeds check f = true) :
    check f.key = .ok (foundBy check f) := by
  unfold succeeds at h
  unfold foundBy
  cases hf : check f.key with
  | error e => simp [hf, Except.toOption] at h
  | ok issues => rfl

theorem foundBy_eq_nil {f : PendingFile} (h : succeeds check f = false) : foundBy check f = [] := by
  unfold succeeds at h
  unfold foundBy
  cases hf : check f.key with
  | error e => rfl
  | ok issues => simp [hf, Except.toOption] at h

theorem flatMap_filter_succeeds (fs : List PendingFile) :
    (fs.filter (succeeds check)).flatMap (foundBy check) = fs.flatMap (foundBy check) := by
  induction fs with
  | nil => rfl
  | cons f fs ih =>
      cases hf : succeeds check f with
      | true => rw [List.filter_cons_of_pos hf, List.flatMap_cons, List.flatMap_cons, ih]
      | false =>
          rw [List.filter_cons_of_neg (by simp [hf]), List.flatMap_cons, foundBy_eq_nil hf, ih]
          rfl

theorem succeeds_of_failureOf? {f : PendingFile} (h : failureOf? check f = none) :
    succeeds check f = true := by
  unfold failureOf? at h
  unfold succeeds
  cases hf : check f.key with
  | error e => simp [hf] at h
  | ok issues => rfl

theorem failure?_eq_none {fs : List PendingFile} (h : ∀ f ∈ fs, succeeds check f = true)
    (pool : Option Completion) : failure? check pool fs = none := by
  cases pool with
  | some c => rfl
  | none =>
      apply List.findSome?_eq_none_iff.mpr
      intro f hf
      rw [failureOf?, check_eq_ok (h f hf)]

theorem exists_checkPending {pool : Option Completion} {fs : List PendingFile}
    (h : failure? check pool fs = none) :
    ∃ order : List PendingFile, order.Perm (fs.filter (succeeds check)) ∧
      checkPending check pool fs = .ok (order.map fun f => (f, foundBy check f)) := by
  cases pool with
  | none =>
      have hall : fs.filter (succeeds check) = fs := by
        apply List.filter_eq_self.mpr
        exact fun f hf => succeeds_of_failureOf? (List.findSome?_eq_none_iff.mp h f hf)
      exact ⟨fs, .of_eq hall.symm, mapM_check_ok h⟩
  | some c =>
      refine ⟨(c.order fs).filter (succeeds check), (c.order_perm fs).filter _, ?_⟩
      show Except.ok _ = Except.ok _
      congr 1
      induction c.order fs with
      | nil => rfl
      | cons f order ih =>
          rw [List.filterMap_cons, ih]
          cases hf : succeeds check f with
          | true =>
              rw [List.filter_cons_of_pos hf, check_eq_ok hf]
              rfl
          | false =>
              rw [List.filter_cons_of_neg (by simp [hf])]
              unfold succeeds at hf
              rw [Option.isSome_eq_false_iff, Option.isNone_iff_eq_none] at hf
              rw [hf]
              rfl

/-- Files that are checked in some order, each with what is found there. -/
structure CheckedFiles (check : LooseText → Except FileCheckError (List Issue))
    (fs : List PendingFile) (checked : List Checked) : Prop where
  found : ∀ x ∈ checked, x.1 ∈ fs ∧ check x.1.key = .ok x.2
  complete : ∀ f ∈ fs, ∀ issues, check f.key = .ok issues → (f, issues) ∈ checked
  issues : ∃ order : List PendingFile, order.Perm fs ∧
    checked.flatMap (·.2) = order.flatMap (foundBy check)

theorem checkPending_ok {pool : Option Completion} {fs : List PendingFile}
    (h : failure? check pool fs = none) :
    ∃ checked, checkPending check pool fs = .ok checked ∧ CheckedFiles check fs checked := by
  obtain ⟨order, horder, hchecked⟩ := exists_checkPending h
  refine ⟨_, hchecked, fun x hx => ?_, fun f hf issues hissues => ?_,
    order ++ fs.filter fun f => !succeeds check f, ?_, ?_⟩
  · obtain ⟨f, hf, rfl⟩ := List.mem_map.mp hx
    obtain ⟨hmem, hsucceeds⟩ := List.mem_filter.mp (horder.mem_iff.mp hf)
    exact ⟨hmem, check_eq_ok hsucceeds⟩
  · have hsucceeds : succeeds check f = true := by
      rw [succeeds, hissues]
      rfl
    have hfound : foundBy check f = issues :=
      Except.ok.inj ((check_eq_ok hsucceeds).symm.trans hissues)
    exact List.mem_map.mpr
      ⟨f, horder.mem_iff.mpr (List.mem_filter.mpr ⟨hf, hsucceeds⟩), by rw [hfound]⟩
  · exact (horder.append_right _).trans (List.filter_append_perm _ fs)
  · have hnone : (fs.filter fun f => !succeeds check f).flatMap (foundBy check) = [] := by
      apply List.flatMap_eq_nil_iff.mpr
      intro f hf
      exact foundBy_eq_nil (by simpa using (List.mem_filter.mp hf).2)
    rw [List.flatMap_map, List.flatMap_append, hnone, List.append_nil]

theorem failure?_filter {fs : List PendingFile} (h : ∀ f ∈ fs, cache.Answers digest check f)
    (pool : Option Completion) :
    failure? check pool (fs.filter fun f => !cache.knows digest f) = failure? check pool fs := by
  cases pool with
  | some c => rfl
  | none =>
      rw [failure?, failure?]
      induction fs with
      | nil => rfl
      | cons f fs ih =>
          have ih := ih fun g hg => h g (List.mem_cons_of_mem f hg)
          rw [List.findSome?_cons]
          cases hlookup : cache.lookup f.key f.fingerprint digest with
          | none =>
              rw [List.filter_cons_of_pos (by simp [Cache.knows, hlookup]), List.findSome?_cons, ih]
          | some records =>
              obtain ⟨issues, hcheck, _⟩ := h f List.mem_cons_self records hlookup
              rw [List.filter_cons_of_neg (by simp [Cache.knows, hlookup]), ih, failureOf?, hcheck]

theorem file_of_mem_foundBy (hfile : ∀ key issues, check key = .ok issues →
    ∀ i ∈ issues, i.file = .text key) {f : PendingFile} {i : Issue} (hi : i ∈ foundBy check f) :
    i.file = .text f.key := by
  rw [foundBy] at hi
  cases hcheck : check f.key with
  | error e => simp [hcheck, Except.toOption] at hi
  | ok issues =>
      rw [hcheck] at hi
      exact hfile f.key issues hcheck i hi

theorem sorted_append_found (hfile : ∀ key issues, check key = .ok issues →
    ∀ i ∈ issues, i.file = .text key) {first : List Issue} {fs order : List PendingFile}
    (hfirst : order.flatMap (foundBy check) ≠ [] → ∀ i ∈ first, i.HasFileName)
    (horder : order.Perm fs) :
    Issue.sorted (first ++ order.flatMap (foundBy check)) =
      Issue.sorted (first ++ fs.flatMap (foundBy check)) := by
  by_cases hnil : order.flatMap (foundBy check) = []
  · have hnone : fs.flatMap (foundBy check) = [] :=
      List.perm_nil.mp (hnil ▸ (horder.flatMap_right _).symm)
    rw [hnil, hnone]
  · have hkeys (fs : List PendingFile) : fs.flatMap (foundBy check) =
        (fs.map (·.key)).flatMap fun k => (check k).toOption.getD [] := by
      rw [List.flatMap_map]
      rfl
    have hfirst := hfirst hnil
    rw [hkeys, hkeys]
    refine Issue.sorted_append_flatMap_perm (fun k i hi => ?_) hfirst (horder.map _)
    exact file_of_mem_foundBy hfile (f := ⟨k, ""⟩) hi

/-- What the cache knows and what is found in the other files, in order. -/
theorem sorted_known_append (hfile : ∀ key issues, check key = .ok issues →
    ∀ i ∈ issues, i.file = .text key) {fs order : List PendingFile}
    (horder : order.Perm (fs.filter fun f => !cache.knows digest f)) :
    Issue.sorted ((fs.filter (cache.knows digest)).flatMap (foundBy check) ++
      order.flatMap (foundBy check)) = Issue.sorted (fs.flatMap (foundBy check)) := by
  rw [← List.flatMap_append]
  have hperm := (horder.append_left _).trans (List.filter_append_perm (cache.knows digest) fs)
  have hfirst : ∀ i ∈ ([] : List Issue), i.HasFileName := by simp
  exact sorted_append_found hfile (fun _ => hfirst) hperm

end Plans

namespace Proofreader

variable {r : Proofreader} {o : CheckOptions} {t : FileTree} {paths : List LooseText}

def ordered (r : Proofreader) : Proofreader := { r with names := r.names.map sortedNames }

def checkOf (r : Proofreader) (o : CheckOptions) (t : FileTree) :
    LooseText → Except FileCheckError (List Issue) :=
  r.ordered.checkFile o.morphology o.withMorphology t

def digestFor (r : Proofreader) (o : CheckOptions) : String :=
  r.ordered.digest (if o.withMorphology then o.morphology.analyser? else none)

/-- The issues of the files that paths stand for, with every file checked. -/
def freshIssues (r : Proofreader) (o : CheckOptions) (t : FileTree) (paths : List LooseText) :
    Except CheckError (List Issue) :=
  (fingerprints t (filesToCheck t paths)).bind fun fs =>
    match failure? (r.checkOf o t) o.pool fs with
    | some e => .error (.check e)
    | none => .ok (Issue.sorted (fs.flatMap (foundBy (r.checkOf o t))))

/-- A call whose cache can be written again and knows of files only what checking them finds. -/
structure Trusts (r : Proofreader) (o : CheckOptions) (t : FileTree) (paths : List LooseText) :
    Prop where
  storable : (cacheOf o t).Storable
  encodable : (cacheOf o t).Encodable
  answers : ∀ p ∈ filesToCheck t paths, ∀ s, t.fingerprint p = .ok s →
    (cacheOf o t).Answers (r.digestFor o) (r.checkOf o t) ⟨p.text, s⟩

/-- A checker whose issues are kept in records under the name of their file. -/
def PlainIssues (check : LooseText → Except FileCheckError (List Issue)) : Prop :=
  ∀ key issues, check key = .ok issues → ∀ i ∈ issues, i.Plain ∧ i.file = .text key

def Fresh (r : Proofreader) (o : CheckOptions) (t : FileTree) (paths : List LooseText)
    (checked : List Checked) : Prop :=
  ∀ x ∈ checked, r.checkOf o t x.1.key = .ok x.2 ∧
    ∃ p ∈ filesToCheck t paths, x.1.key = p.text ∧ t.fingerprint p = .ok x.1.fingerprint

def Renews (r : Proofreader) (o : CheckOptions) (t : FileTree) (paths : List LooseText)
    (t' : FileTree) : Prop :=
  ∃ checked, r.Fresh o t paths checked ∧
    ((cacheOf o t).recordAll (r.digestFor o) checked).Encodable ∧
      t.write Cache.path
        { content := ((cacheOf o t).recordAll (r.digestFor o) checked).bytes } = .ok t'

/-- Whether a call would record a file whose name holds a half in a cache that it can write. -/
def Spoils (r : Proofreader) (o : CheckOptions) (t : FileTree) (paths : List LooseText) : Prop :=
  o.useCache = true ∧ t.Writable Cache.path ∧ ∃ p ∈ filesToCheck t paths,
    p.text.string? = none ∧ ∃ issues, r.checkOf o t p.text = .ok issues

def finish (issues : List Issue) (t : FileTree) : Except CheckError (List Issue × FileTree) :=
  match Issue.firstUnorderable? issues with
  | some (m, n) => throw (.unorderable m n t)
  | none => pure (Issue.sorted issues, t)

/-- A call after its plan: pending files are checked and what is found is kept. -/
def carryOut (r : Proofreader) (o : CheckOptions) (t : FileTree) (plan : Plan) :
    Except CheckError (List Issue × FileTree) := do
  let checked ← (checkPending (r.checkOf o t) o.pool plan.pending).mapError .check
  let t' ← if o.useCache then saveCache t ((cacheOf o t).recordAll (r.digestFor o) checked)
    else pure t
  finish (plan.known ++ checked.flatMap (·.2)) t'

theorem checkPaths_eq (r : Proofreader) (o : CheckOptions) (t : FileTree) (paths : List LooseText) :
    r.checkPaths o t paths =
      ((filesToCheck t paths).foldlM (Plan.add (cacheOf o t) (r.digestFor o) t) {}).bind
        (r.carryOut o t) := rfl

theorem carryOut_error {plan : Plan} {e : FileCheckError}
    (h : failure? (r.checkOf o t) o.pool plan.pending = some e) :
    r.carryOut o t plan = .error (.check e) := by
  rw [carryOut, checkPending_error h]
  rfl

theorem mem_fingerprints {files : List Path} {fs : List PendingFile}
    (h : fingerprints t files = .ok fs) {f : PendingFile} (hf : f ∈ fs) :
    ∃ p ∈ files, f.key = p.text ∧ t.fingerprint p = .ok f.fingerprint := by
  induction files generalizing fs with
  | nil =>
      obtain rfl : [] = fs := Except.ok.inj h
      simp at hf
  | cons p files ih =>
      cases hs : t.fingerprint p with
      | error e => simp [fingerprints_cons_error hs] at h
      | ok s =>
          rw [fingerprints_cons hs] at h
          cases hrest : fingerprints t files with
          | error e => simp [hrest, Except.map] at h
          | ok rest =>
              rw [hrest] at h
              obtain rfl : ⟨p.text, s⟩ :: rest = fs := Except.ok.inj h
              rcases List.mem_cons.mp hf with rfl | hf
              · exact ⟨p, List.mem_cons_self, rfl, hs⟩
              · obtain ⟨q, hq, hkey⟩ := ih hrest hf
                exact ⟨q, List.mem_cons_of_mem p hq, hkey⟩

/-- What is found in pending files is kept, where the cache can be written and no name of theirs
holds a half. -/
theorem carryOut_ok (plan : Plan) (hstorable : (cacheOf o t).Storable)
    (hencodable : (cacheOf o t).Encodable) (hplain : PlainIssues (r.checkOf o t))
    (h : failure? (r.checkOf o t) o.pool plan.pending = none) :
    ∃ checked, CheckedFiles (r.checkOf o t) plan.pending checked ∧
      (((o.useCache = true ∧ t.Writable Cache.path ∧ NamesHalf checked) ∧ ∃ e t',
        t.write Cache.path { content := "".toUTF8 } = .ok t' ∧
          r.carryOut o t plan = .error (.encoding e t')) ∨
      ¬(o.useCache = true ∧ t.Writable Cache.path ∧ NamesHalf checked) ∧ ∃ t',
        r.carryOut o t plan = finish (plan.known ++ checked.flatMap (·.2)) t' ∧
          (t' = t ∨ ((cacheOf o t).recordAll (r.digestFor o) checked).Encodable ∧
            t.write Cache.path { content :=
              ((cacheOf o t).recordAll (r.digestFor o) checked).bytes } = .ok t')) := by
  obtain ⟨checked, hchecked, hfiles⟩ := checkPending_ok h
  refine ⟨checked, hfiles, ?_⟩
  rw [carryOut, hchecked]
  cases huse : o.useCache with
  | false => exact Or.inr ⟨by simp, t, rfl, Or.inl rfl⟩
  | true =>
      have hsaved := saveCache_recordAll hstorable hencodable
        (fun x hx => hplain _ _ (hfiles.found x hx).2) (r.digestFor o) t
      show ((true = true ∧ _) ∧ ∃ e t', _ ∧ Except.bind (saveCache t _) _ = _) ∨
        ¬(true = true ∧ _) ∧ ∃ t', Except.bind (saveCache t _) _ = _ ∧ _
      rcases hsaved with ⟨hwritable, hhalf, e, t', hwrite, hsave⟩ | ⟨hnot, t', hsave, ht'⟩
      · exact Or.inl ⟨⟨rfl, hwritable, hhalf⟩, e, t', hwrite, by rw [hsave]; rfl⟩
      · exact Or.inr ⟨fun h => hnot h.2, t', by rw [hsave]; rfl, ht'⟩

theorem finish_ok {issues : List Issue} {t : FileTree} (h : ∀ i ∈ issues, i.HasFileName) :
    finish issues t = .ok (Issue.sorted issues, t) := by
  rw [finish, Issue.firstUnorderable?_eq_none h]
  rfl

theorem fingerprints_error {files : List Path} {e : CheckError}
    (h : fingerprints t files = .error e) : ∃ e', e = .file e' := by
  induction files with
  | nil => contradiction
  | cons p files ih =>
      cases hs : t.fingerprint p with
      | error e' =>
          rw [fingerprints_cons_error hs] at h
          exact ⟨e', (Except.error.inj h).symm⟩
      | ok s =>
          rw [fingerprints_cons hs] at h
          exact ih (map_eq_error.mp h)

theorem exists_mem_fingerprints {files : List Path} {fs : List PendingFile}
    (h : fingerprints t files = .ok fs) {p : Path} (hp : p ∈ files) : ∃ f ∈ fs, f.key = p.text := by
  induction files generalizing fs with
  | nil => contradiction
  | cons q files ih =>
      cases hs : t.fingerprint q with
      | error e => simp [fingerprints_cons_error hs] at h
      | ok s =>
          rw [fingerprints_cons hs] at h
          obtain ⟨rest, hrest, rfl⟩ := map_eq_ok.mp h
          rcases List.mem_cons.mp hp with rfl | hp
          · exact ⟨_, List.mem_cons_self, rfl⟩
          · obtain ⟨f, hf, hkey⟩ := ih hrest hp
            exact ⟨f, List.mem_cons_of_mem _ hf, hkey⟩

theorem freshIssues_ok {fs : List PendingFile}
    (hfs : fingerprints t (filesToCheck t paths) = .ok fs)
    (hfailure : failure? (r.checkOf o t) o.pool fs = none) :
    r.freshIssues o t paths = .ok (Issue.sorted (fs.flatMap (foundBy (r.checkOf o t)))) := by
  simp only [freshIssues, hfs, Except.bind, hfailure]

theorem freshIssues_failed {fs : List PendingFile} {e : FileCheckError}
    (hfs : fingerprints t (filesToCheck t paths) = .ok fs)
    (hfailure : failure? (r.checkOf o t) o.pool fs = some e) :
    r.freshIssues o t paths = .error (.check e) := by
  simp only [freshIssues, hfs, Except.bind, hfailure]

theorem freshIssues_error {e : CheckError}
    (hfs : fingerprints t (filesToCheck t paths) = .error e) :
    r.freshIssues o t paths = .error e := by
  simp only [freshIssues, hfs, Except.bind]

/-- A cache without halves does not know of files whose names hold one, so they are checked. -/
theorem namesHalf_iff {cache : Cache} (hcache : cache.Encodable) {digest : String}
    {fs : List PendingFile} (hfs : fingerprints t (filesToCheck t paths) = .ok fs)
    {checked : List Checked}
    (h : CheckedFiles (r.checkOf o t) (fs.filter fun f => !cache.knows digest f) checked) :
    NamesHalf checked ↔ ∃ p ∈ filesToCheck t paths,
      p.text.string? = none ∧ ∃ issues, r.checkOf o t p.text = .ok issues := by
  constructor
  · rintro ⟨x, hx, hhalf⟩
    obtain ⟨hpending, hcheck⟩ := h.found x hx
    obtain ⟨p, hp, hkey, _⟩ := mem_fingerprints hfs (List.mem_filter.mp hpending).1
    exact ⟨p, hp, hkey ▸ hhalf, x.2, hkey ▸ hcheck⟩
  · rintro ⟨p, hp, hhalf, issues, hissues⟩
    obtain ⟨f, hf, hkey⟩ := exists_mem_fingerprints hfs hp
    have hunknown : cache.knows digest f = false := by
      rw [Cache.knows, Option.isSome_eq_false_iff, Option.isNone_iff_eq_none]
      by_contra hknown
      obtain ⟨records, hlookup⟩ := Option.ne_none_iff_exists'.mp hknown
      obtain ⟨n, hn⟩ := Cache.exists_get?_of_lookup hlookup
      obtain ⟨s, hs⟩ := (hcache _ (Entries.mem_of_get?_eq_some hn)).1
      rw [← hkey, show f.key = s from hs, LooseText.string?_ofString] at hhalf
      contradiction
    refine ⟨_, h.complete f (List.mem_filter.mpr ⟨hf, by simp [hunknown]⟩) issues ?_, ?_⟩
    · rw [hkey, hissues]
    · rw [hkey, hhalf]

/-- What the cache knows and what is checked besides ends as if every file were checked. -/
theorem finish_known_append {cache : Cache} {digest : String}
    {check : LooseText → Except FileCheckError (List Issue)} {fs : List PendingFile}
    {checked : List Checked}
    (hfile : ∀ key issues, check key = .ok issues → ∀ i ∈ issues, i.file = .text key)
    (h : CheckedFiles check (fs.filter fun f => !cache.knows digest f) checked) (t : FileTree) :
    finish ((fs.filter (cache.knows digest)).flatMap (foundBy check) ++ checked.flatMap (·.2)) t =
      .ok (Issue.sorted (fs.flatMap (foundBy check)), t) := by
  obtain ⟨order, horder, hissues⟩ := h.issues
  rw [hissues, finish_ok, sorted_known_append hfile horder]
  rw [← List.flatMap_append]
  intro i hi
  obtain ⟨f, _, hi⟩ := List.mem_flatMap.mp hi
  exact Issue.hasFileName_of_file ⟨f.key, file_of_mem_foundBy hfile hi⟩

/-- How a call ends with a cache that it may trust.  It ends as if every file were checked, and
leaves the tree but for its cache, unless the name of a file that it checks holds a half: then what
it has found is lost and the file of the cache is left empty. -/
inductive EndsAs (r : Proofreader) (o : CheckOptions) (t : FileTree) (paths : List LooseText) :
    Prop
  | failed {e : CheckError} (hcall : r.checkPaths o t paths = .error e)
      (hfresh : r.freshIssues o t paths = .error e) (hkept : e.left? = none)
  | done {issues : List Issue} {t' : FileTree} (hcall : r.checkPaths o t paths = .ok (issues, t'))
      (hfresh : r.freshIssues o t paths = .ok issues) (hfine : ¬r.Spoils o t paths)
      (htree : t' = t ∨ r.Renews o t paths t')
  | lost {issues : List Issue} {e : EncodeError} {t' : FileTree}
      (hcall : r.checkPaths o t paths = .error (.encoding e t'))
      (hfresh : r.freshIssues o t paths = .ok issues) (hspoils : r.Spoils o t paths)
      (htree : t.write Cache.path { content := "".toUTF8 } = .ok t')

theorem Trusts.endsAs (h : r.Trusts o t paths) (hplain : PlainIssues (r.checkOf o t)) :
    r.EndsAs o t paths := by
  have hcall := checkPaths_eq r o t paths
  rw [foldlM_add h.answers] at hcall
  cases hfs : fingerprints t (filesToCheck t paths) with
  | error e =>
      rw [hfs] at hcall
      obtain ⟨e', rfl⟩ := fingerprints_error hfs
      exact .failed hcall (freshIssues_error hfs) rfl
  | ok fs =>
      rw [hfs] at hcall
      have hanswers : ∀ f ∈ fs, (cacheOf o t).Answers (r.digestFor o) (r.checkOf o t) f := by
        rintro ⟨key, s⟩ hf
        obtain ⟨p, hp, hkey, hs⟩ := mem_fingerprints hfs hf
        obtain rfl : key = p.text := hkey
        exact h.answers p hp s hs
      have hfile : ∀ key issues, r.checkOf o t key = .ok issues →
          ∀ i ∈ issues, i.file = .text key :=
        fun key issues hkey i hi => (hplain key issues hkey i hi).2
      -- what the cache knows has not failed, so the other files fail as all of them do
      have hfailure := failure?_filter hanswers o.pool
      simp only [Except.map, Except.bind, List.nil_append] at hcall
      cases hfail : failure? (r.checkOf o t) o.pool fs with
      | some e =>
          exact .failed (hcall.trans (carryOut_error (hfailure.trans hfail)))
            (freshIssues_failed hfs hfail) rfl
      | none =>
          have hfresh := freshIssues_ok hfs hfail
          obtain ⟨checked, hchecked, hends⟩ :=
            carryOut_ok ⟨_, _⟩ h.storable h.encodable hplain (hfailure.trans hfail)
          have hspoils : (o.useCache = true ∧ t.Writable Cache.path ∧ NamesHalf checked) ↔
              r.Spoils o t paths :=
            and_congr_right' (and_congr_right' (namesHalf_iff h.encodable hfs hchecked))
          rcases hends with ⟨hhalf, e, t', hwrite, hcarry⟩ | ⟨hnot, t', hcarry, ht'⟩
          · exact .lost (hcall.trans hcarry) hfresh (hspoils.mp hhalf) hwrite
          · have hfinish := hcarry.trans (finish_known_append hfile hchecked t')
            refine .done (hcall.trans hfinish) hfresh (fun h => hnot (hspoils.mpr h))
              (ht'.imp_right fun hwrite => ?_)
            refine ⟨checked, fun x hx => ⟨(hchecked.found x hx).2, ?_⟩, hwrite⟩
            exact mem_fingerprints hfs (List.mem_filter.mp (hchecked.found x hx).1).1

theorem write_of_saveCache {c : Cache} {left : FileTree}
    (h : saveCache t c = .ok left ∨ ∃ e, saveCache t c = .error e ∧ e.left? = some left) :
    left = t ∨ ∃ f, t.write Cache.path f = .ok left := by
  cases htext : c.text with
  | error w => simp [saveCache_unwritable htext, CheckError.left?] at h
  | ok text =>
      rw [saveCache_eq htext] at h
      split at h
      · obtain rfl : t = left := by simpa using h
        exact Or.inl rfl
      · next t' _ hwrite _ =>
          obtain rfl : t' = left := by simpa using h
          exact Or.inr ⟨_, hwrite⟩
      · next t' _ hwrite _ =>
          obtain rfl : t' = left := by simpa [CheckError.left?] using h
          exact Or.inr ⟨_, hwrite⟩

theorem left?_of_add {cache : Cache} {digest : String} {p : Path} {plan : Plan} {e : CheckError}
    (h : Plan.add cache digest t plan p = .error e) : e.left? = none := by
  rw [Plan.add] at h
  cases hs : t.fingerprint p with
  | error e' =>
      rw [hs] at h
      cases h
      rfl
  | ok s =>
      simp only [hs, Except.mapError, bind, Except.bind] at h
      split at h
      · next records _ =>
          cases hrecords : records.mapM Issue.ofNode with
          | error e' =>
              rw [hrecords] at h
              cases h
              rfl
          | ok issues =>
              rw [hrecords] at h
              cases h
      · cases h

theorem left?_of_foldlM_add {cache : Cache} {digest : String} {files : List Path} {plan : Plan}
    {e : CheckError} (h : files.foldlM (Plan.add cache digest t) plan = .error e) :
    e.left? = none := by
  obtain ⟨plan, p, _, hadd⟩ := exists_step_error h
  exact left?_of_add hadd

def leftBy : Except CheckError (List Issue × FileTree) → Option FileTree
  | .ok (_, left) => some left
  | .error e => e.left?

theorem leftBy_finish {issues : List Issue} {u left : FileTree}
    (h : leftBy (finish issues u) = some left) : left = u := by
  rw [finish] at h
  split at h
  · exact (Option.some.inj h).symm
  · exact (Option.some.inj h).symm

/-- A call leaves the files as they are or writes the file of the cache. -/
theorem write_of_checkPaths {left : FileTree} (h : leftBy (r.checkPaths o t paths) = some left) :
    left = t ∨ ∃ f, t.write Cache.path f = .ok left := by
  rw [checkPaths_eq] at h
  cases hplan : (filesToCheck t paths).foldlM (Plan.add (cacheOf o t) (r.digestFor o) t) {} with
  | error e =>
      rw [hplan] at h
      exact absurd h (by simp [Except.bind, leftBy, left?_of_foldlM_add hplan])
  | ok plan =>
      rw [hplan] at h
      cases hchecked : checkPending (r.checkOf o t) o.pool plan.pending with
      | error e =>
          simp [Except.bind, carryOut, hchecked, Except.mapError, bind, leftBy,
            CheckError.left?] at h
      | ok checked =>
          simp only [Except.bind, carryOut, hchecked, Except.mapError, bind] at h
          split at h
          · cases hsave : saveCache t ((cacheOf o t).recordAll (r.digestFor o) checked) with
            | ok u =>
                rw [hsave] at h
                obtain rfl : left = u := leftBy_finish h
                exact write_of_saveCache (Or.inl hsave)
            | error e =>
                rw [hsave] at h
                exact write_of_saveCache (Or.inr ⟨e, hsave, h⟩)
          · exact Or.inl (leftBy_finish h)

theorem trusts_of_cacheOf_eq_nil (h : cacheOf o t = []) (r : Proofreader) (paths : List LooseText) :
    r.Trusts o t paths := by
  refine ⟨?_, ?_, ?_⟩
  · rw [h]
    exact ⟨List.nodup_nil, by simp⟩
  · rw [h]
    exact fun x hx => absurd hx List.not_mem_nil
  · intro p _ s _ records hlookup
    rw [h] at hlookup
    cases hlookup

/-- Neither the cache nor the order in which a pool is done matters where every file is checked. -/
theorem freshIssues_uncached (r : Proofreader) (o : CheckOptions) (completion : Completion)
    (t : FileTree) (paths : List LooseText) :
    r.freshIssues { o with useCache := false, completion := completion } t paths =
      r.freshIssues o t paths := by
  have hfailure (fs : List PendingFile) : failure? (r.checkOf o t)
      { o with useCache := false, completion := completion }.pool fs =
        failure? (r.checkOf o t) o.pool fs := by
    rw [CheckOptions.pool, CheckOptions.pool]
    split <;> rfl
  have hcheck : r.checkOf { o with useCache := false, completion := completion } t =
      r.checkOf o t := rfl
  simp only [freshIssues, hcheck, hfailure]

end Proofreader

end Kouetsu
