import Kouetsu.Proofs.Calls
import Mathlib.Data.List.Induction
/-!
# Runs

A run writes files, deletes files and checks paths.  Every entry of the cache is what an earlier
call has found in a file, under the fingerprint of the file and the digest of the call; so a call
that uses the cache finds what it would find without.
-/

namespace Kouetsu

/-- Whether tokens are asked for shows in the analyser that is used. -/
theorem Morphology.tokens_congr {m : Morphology} {enabled enabled' : Bool}
    (h : (if enabled then m.analyser? else none) = if enabled' then m.analyser? else none) :
    m.tokens enabled = m.tokens enabled' := by
  funext t
  rw [tokens, tokens, isAvailable]
  cases enabled <;> cases enabled' <;> cases hanalyser : m.analyser? <;> simp_all

/-! ## Operations -/

structure Call where
  proofreader : Proofreader
  options : CheckOptions
  paths : List LooseText

namespace Call

def run (c : Call) (t : FileTree) : Except CheckError (List Issue × FileTree) :=
  c.proofreader.checkPaths c.options t c.paths

def uncached (c : Call) (completion : Completion) : Call :=
  { c with options := { c.options with useCache := false, completion := completion } }

def digestParts (c : Call) : List Value :=
  c.proofreader.ordered.digestParts
    (if c.options.withMorphology then c.options.morphology.analyser? else none)

def digest (c : Call) : String := c.proofreader.digestFor c.options

/-- Whether a call would put the name of a file that holds a half into the cache. -/
def Spoils (c : Call) (t : FileTree) : Prop := c.proofreader.Spoils c.options t c.paths

def check (c : Call) (t : FileTree) : LooseText → Except FileCheckError (List Issue) :=
  c.proofreader.checkOf c.options t

end Call

inductive Operation where
  | write (path : LooseText) (f : File)
  | delete (path : LooseText)
  | check (call : Call)

namespace Operation

/-- The files after an operation.  One that fails leaves them as they are, unless it is a call that
has come to its cache. -/
def apply (t : FileTree) : Operation → FileTree
  | .write path f => (t.write (.ofText path) f).toOption.getD t
  | .delete path => (t.delete (.ofText path)).toOption.getD t
  | .check call => (Proofreader.leftBy (call.run t)).getD t

def applyAll (t : FileTree) (ops : List Operation) : FileTree := ops.foldl apply t

theorem applyAll_concat (t : FileTree) (ops : List Operation) (op : Operation) :
    applyAll t (ops ++ [op]) = apply (applyAll t ops) op := by
  rw [applyAll, List.foldl_append]
  rfl

inductive Puts (t : FileTree) : Operation → List LooseText → File → Prop
  | write (path : LooseText) (f : File) : Puts t (.write path f) (t.placeOf (.ofText path)) f
  | check (call : Call) (f : File) : Puts t (.check call) (t.placeOf Cache.path) f

/-- A later tree with the files of the earlier one and those that were put there. -/
structure Grown (t u : FileTree) (puts : List LooseText → File → Prop) : Prop where
  working : u.working = t.working
  proper : u.Proper
  files : ∀ q f, u.root.at? q = some (.file f) → t.root.at? q = some (.file f) ∨ puts q f

variable {m : Morphology} {t u u' : FileTree} {ops before before' : List Operation}
  {call call' : Call} {op : Operation}

theorem normal_cachePath : Cache.path.Normal :=
  (by decide : Path.ofText Cache.fileName = Cache.path) ▸ Path.normal_ofText _

theorem placeOf_cachePath (t : FileTree) :
    t.placeOf Cache.path = t.working ++ [(Cache.fileName : LooseText)] :=
  FileTree.placeOf_name (by decide) t

theorem file?_cachePath {f : File} : t.file? Cache.path = some f ↔
    t.root.at? (t.working ++ [(Cache.fileName : LooseText)]) = some (.file f) :=
  FileTree.file?_name (by decide)

theorem Grown.refl (ht : t.Proper) (puts : List LooseText → File → Prop) : Grown t t puts :=
  ⟨rfl, ht, fun _ _ h => Or.inl h⟩

theorem Grown.of_write {p : Path} {f : File} (ht : t.Proper) (hp : p.Normal)
    (h : t.write p f = .ok u) {puts : List LooseText → File → Prop} (hputs : puts (t.placeOf p) f) :
    Grown t u puts := by
  obtain ⟨hworking, hproper, hfiles⟩ := FileTree.write_eq_ok h hp ht
  refine ⟨hworking, hproper, fun q g hq => (hfiles q g hq).imp_right ?_⟩
  rintro ⟨rfl, rfl⟩
  exact hputs

theorem apply_check (t : FileTree) (call : Call) : apply t (.check call) = t ∨
    ∃ f, t.write Cache.path f = .ok (apply t (.check call)) := by
  rw [apply]
  cases hleft : Proofreader.leftBy (call.run t) with
  | none => exact Or.inl rfl
  | some left => exact Proofreader.write_of_checkPaths hleft

theorem grown_apply (ht : t.Proper) (op : Operation) : Grown t (apply t op) (Puts t op) := by
  cases op with
  | write path f =>
      rw [apply]
      cases hwrite : t.write (.ofText path) f with
      | error e => exact .refl ht _
      | ok u => exact .of_write ht (Path.normal_ofText path) hwrite (.write path f)
  | delete path =>
      rw [apply]
      cases hdelete : t.delete (.ofText path) with
      | error e => exact .refl ht _
      | ok u =>
          have hkept := FileTree.kept_of_delete hdelete (Path.normal_ofText path)
          exact ⟨hkept.working, hkept.proper ht, fun q f hq => Or.inl (hkept.files q f hq)⟩
  | check call =>
      rcases apply_check t call with hsame | ⟨f, hwrite⟩
      · rw [hsame]
        exact .refl ht _
      · exact .of_write ht normal_cachePath hwrite (.check call f)

theorem grown_applyAll (ht : t.Proper) (ops : List Operation) :
    Grown t (applyAll t ops) fun q f => ∃ op ∈ ops, Puts t op q f := by
  induction ops using List.reverseRecOn with
  | nil => exact .refl ht _
  | append_singleton ops op ih =>
      have hstep := grown_apply ih.proper op
      rw [applyAll_concat]
      refine ⟨hstep.working.trans ih.working, hstep.proper, fun q f hq => ?_⟩
      rcases hstep.files q f hq with hold | hput
      · refine (ih.files q f hold).imp_right ?_
        rintro ⟨op', hop', hput⟩
        exact ⟨op', List.mem_append_left _ hop', hput⟩
      · refine Or.inr ⟨op, by simp, ?_⟩
        cases hput with
        | write path f => exact FileTree.placeOf_congr ih.working _ ▸ .write path f
        | check call f => exact FileTree.placeOf_congr ih.working _ ▸ .check call f

theorem exists_write_of_file? (ht : t.Proper) {p : Path} {f : File}
    (hname : p.name ≠ Cache.fileName) (h : (applyAll t ops).file? p = some f) :
    t.root.at? (t.placeOf p) = some (.file f) ∨
      ∃ path, .write path f ∈ ops ∧ t.placeOf (.ofText path) = t.placeOf p := by
  have hgrown := grown_applyAll ht ops
  have hplace := FileTree.placeOf_ne_name hname h
  have hfile := FileTree.at?_placeOf h
  rw [FileTree.placeOf_congr hgrown.working] at hplace hfile
  refine (hgrown.files _ f hfile).imp_right ?_
  rintro ⟨op, hop, hput⟩
  generalize t.placeOf p = place at hput hplace
  cases hput with
  | write path f => exact ⟨path, hop, rfl⟩
  | check call f =>
      rw [hgrown.working] at hplace
      exact absurd (placeOf_cachePath t) hplace

/-! ## Runs -/

/-- A run that starts without a cache and leaves the file of the cache to the calls.  A file that
changes gets another fingerprint, all calls have the built-in checks, one state of the analysers and
one set of characters with names, and their digests do not collide. -/
structure Lawful (m : Morphology) (t : FileTree) (ops : List Operation) : Prop where
  start : t.file? Cache.path = none
  proper : t.Proper
  writes : ∀ path f, .write path f ∈ ops → t.resolve (.ofText path) ≠ t.resolve Cache.path
  fingerprints : ∀ before before', before <+: ops → before' <+: ops → ∀ (p : Path) f g,
    p.name ≠ Cache.fileName → (applyAll t before).file? p = some f →
      (applyAll t before').file? p = some g → f.fingerprint = g.fingerprint →
        f.content = g.content
  calls : ∀ call, .check call ∈ ops → call.proofreader.BuiltIn ∧ call.options.morphology = m
  characters : ∀ call call', .check call ∈ ops → .check call' ∈ ops →
    call.proofreader.settings.filter.characters = call'.proofreader.settings.filter.characters
  digests : ∀ call call', .check call ∈ ops → .check call' ∈ ops → call.digest = call'.digest →
    digestText call.digestParts = digestText call'.digestParts

/-- Where there is one call and one content of files no two digests or fingerprints clash. -/
theorem Lawful.of_single {call : Call} {f : File} (hstart : t.file? Cache.path = none)
    (ht : t.Proper) (hfiles : ∀ place g, t.root.at? place = some (.file g) → g = f)
    (hwrites : ∀ path g, .write path g ∈ ops →
      g = f ∧ t.resolve (.ofText path) ≠ t.resolve Cache.path)
    (hcalls : ∀ c, .check c ∈ ops → c = call)
    (hcall : call.proofreader.BuiltIn ∧ call.options.morphology = m) : Lawful m t ops := by
  have hfile {before : List Operation} {p : Path} {g : File} (hbefore : before <+: ops)
      (hname : p.name ≠ Cache.fileName) (hg : (applyAll t before).file? p = some g) : g = f := by
    rcases exists_write_of_file? ht hname hg with hfirst | ⟨path, hwrite, _⟩
    · exact hfiles _ _ hfirst
    · exact (hwrites path g (hbefore.subset hwrite)).1
  refine ⟨hstart, ht, fun path g hg => (hwrites path g hg).2, ?_, ?_, ?_, ?_⟩
  · intro before before' hbefore hbefore' p g g' hname hg hg' _
    rw [hfile hbefore hname hg, hfile hbefore' hname hg']
  · intro c hc
    rwa [hcalls c hc]
  · intro c c' hc hc'
    rw [hcalls c hc, hcalls c' hc']
  · intro c c' hc hc' _
    rw [hcalls c hc, hcalls c' hc']

/-- Calls with one digest find the same in a file with one fingerprint. -/
theorem Lawful.check_eq (h : Lawful m t ops) (hbefore : before <+: ops) (hbefore' : before' <+: ops)
    (hcall : .check call ∈ ops) (hcall' : .check call' ∈ ops) (hdigest : call.digest = call'.digest)
    {path : LooseText} {s : String} (hname : (Path.ofText path).name ≠ Cache.fileName)
    (hs : (applyAll t before).fingerprint (.ofText path) = .ok s)
    (hs' : (applyAll t before').fingerprint (.ofText path) = .ok s) :
    call.check (applyAll t before) path = call'.check (applyAll t before') path := by
  obtain ⟨hbuiltIn, hm⟩ := h.calls call hcall
  obtain ⟨hbuiltIn', hm'⟩ := h.calls call' hcall'
  obtain ⟨f, hf, rfl⟩ := FileTree.fingerprint_eq_ok.mp hs
  obtain ⟨g, hg, hfg⟩ := FileTree.fingerprint_eq_ok.mp hs'
  have hcontent := h.fingerprints _ _ hbefore hbefore' _ f g hname hf hg hfg.symm
  obtain ⟨hagrees, hanalyser⟩ := Proofreader.agrees_of_digestText hbuiltIn.ordered
    hbuiltIn'.ordered (h.characters call call' hcall hcall')
    (h.digests call call' hcall hcall' hdigest)
  rw [hm, hm'] at hanalyser
  have htokens := Morphology.tokens_congr hanalyser
  rw [Call.check, Call.check, Proofreader.checkOf, Proofreader.checkOf, hm, hm']
  refine hagrees.checkFile hbuiltIn.ordered hbuiltIn'.ordered m htokens ?_
  rw [hf, hg, Option.map_some, Option.map_some, hcontent]

theorem Lawful.plainIssues (h : Lawful m t ops) (hcall : .check call ∈ ops) (u : FileTree) :
    Proofreader.PlainIssues (call.check u) :=
  (h.calls call hcall).1.ordered.plainIssues _ _ _

/-! ## What the cache knows -/

/-- An entry of the cache that holds what a call of a run finds in a file at some time. -/
structure Known (t : FileTree) (ops before : List Operation) (call : Call)
    (x : LooseText × Json.Node) (fingerprint : String) (issues : List Issue) : Prop where
  past : before <+: ops
  called : .check call ∈ ops
  entry : x.2 = Cache.record fingerprint call.digest (issues.map Issue.toNode)
  name : (Path.ofText x.1).name ≠ Cache.fileName
  file : (applyAll t before).fingerprint (.ofText x.1) = .ok fingerprint
  found : call.check (applyAll t before) x.1 = .ok issues

/-- A cache with one entry for each file, known from a run, that can be written. -/
structure KnownCache (t : FileTree) (ops : List Operation) (c : Cache) : Prop where
  storable : c.Storable
  encodable : c.Encodable
  known : ∀ x ∈ c, ∃ before call s issues, Known t ops before call x s issues

theorem knownCache_nil (t : FileTree) (ops : List Operation) : KnownCache t ops [] :=
  ⟨⟨List.nodup_nil, by simp⟩, fun _ hx => absurd hx List.not_mem_nil, by simp⟩

/-- Files among which the file of the cache, if a cache is read from it, holds one known from a
run. -/
def Sound (t : FileTree) (ops : List Operation) (u : FileTree) : Prop :=
  ∀ f, u.file? Cache.path = some f → KnownCache t ops (Cache.decode (some f.content))

theorem Sound.knownCache (h : Sound t ops u) (o : CheckOptions) :
    KnownCache t ops (Proofreader.cacheOf o u) := by
  rw [Proofreader.cacheOf]
  split
  · cases hfile : u.file? Cache.path with
    | none => exact knownCache_nil t ops
    | some f => exact h f hfile
  · exact knownCache_nil t ops

theorem Sound.of_grown {puts : List LooseText → File → Prop} (h : Sound t ops u)
    (hgrown : Grown u u' puts) (hputs : ∀ f, ¬puts (u.placeOf Cache.path) f) :
    Sound t ops u' := by
  intro f hf
  rw [file?_cachePath, hgrown.working] at hf
  rw [placeOf_cachePath] at hputs
  exact h f (file?_cachePath.mpr ((hgrown.files _ _ hf).resolve_right (hputs f)))

theorem Sound.of_write {f : File} (h : Sound t ops u) (hu : u.Proper)
    (hwrite : u.write Cache.path f = .ok u')
    (hf : KnownCache t ops (Cache.decode (some f.content))) : Sound t ops u' := by
  obtain ⟨hworking, _, hfiles⟩ := FileTree.write_eq_ok hwrite normal_cachePath hu
  intro g hg
  rw [file?_cachePath, hworking] at hg
  rcases hfiles _ _ hg with hold | ⟨_, rfl⟩
  · exact h g (file?_cachePath.mpr hold)
  · exact hf

theorem Lawful.trusts (h : Lawful m t ops) (hbefore : before <+: ops) (hcall : .check call ∈ ops)
    (hsound : Sound t ops (applyAll t before)) :
    call.proofreader.Trusts call.options (applyAll t before) call.paths := by
  have hcache := hsound.knownCache call.options
  refine ⟨hcache.storable, hcache.encodable, fun p hp s hs records hlookup => ?_⟩
  -- the entry that answers holds what an earlier call has found
  obtain ⟨v, hv⟩ := Cache.exists_get?_of_lookup hlookup
  obtain ⟨before', call', s', issues, hentry⟩ := hcache.known _ (Entries.mem_of_get?_eq_some hv)
  have hrecord : Entries.get? (Proofreader.cacheOf call.options (applyAll t before)) p.text =
      some (Cache.record s' call'.digest (issues.map Issue.toNode)) := by
    rw [hv, ← hentry.entry]
  obtain ⟨hfingerprint, hdigest, hrecords⟩ := Cache.lookup_record hrecord hlookup
  have hnormal := (grown_applyAll h.proper before).proper.normal_of_mem_filesUnder
    (List.mem_filter.mp hp).1
  have hfile : (applyAll t before).fingerprint (.ofText p.text) = .ok s' := by
    rw [Path.ofText_text hnormal, hs, hfingerprint]
  have hsame := h.check_eq hentry.past hbefore hentry.called hcall hdigest hentry.name
    hentry.file hfile
  refine ⟨issues, hsame.symm.trans hentry.found, ?_⟩
  rw [← hrecords]
  exact Issue.mapM_ofNode_toNode fun i hi =>
    (h.plainIssues hentry.called _ _ _ hentry.found i hi).1.suggestsTexts

theorem Lawful.sound_of_renews (h : Lawful m t ops) (hbefore : before <+: ops)
    (hcall : .check call ∈ ops) (hsound : Sound t ops (applyAll t before))
    (hrenews : call.proofreader.Renews call.options (applyAll t before) call.paths u') :
    Sound t ops u' := by
  have hproper := (grown_applyAll h.proper before).proper
  have hcache := hsound.knownCache call.options
  obtain ⟨checked, hfresh, hencodable, hwrite⟩ := hrenews
  refine hsound.of_write hproper hwrite ?_
  have hplain : ∀ x ∈ checked, ∀ i ∈ x.2, i.Plain := fun x hx i hi =>
    (h.plainIssues hcall _ _ _ (hfresh x hx).1 i hi).1
  have hstorable := hcache.storable.recordAll (call.proofreader.digestFor call.options) hplain
  rcases Cache.decode_bytes hstorable hencodable with hread | hnone
  · rw [hread]
    refine ⟨hstorable, hencodable, fun x hx => ?_⟩
    -- an entry of the new cache is an old one or records this call
    rcases Cache.mem_recordAll hx with hold | ⟨y, hy, rfl⟩
    · exact hcache.known x hold
    · obtain ⟨hfound, p, hp, hkey, hs⟩ := hfresh y hy
      have hpath : Path.ofText y.1.key = p := by
        rw [hkey, Path.ofText_text (hproper.normal_of_mem_filesUnder (List.mem_filter.mp hp).1)]
      refine ⟨before, call, y.1.fingerprint, y.2, hbefore, hcall, rfl, ?_, ?_, hfound⟩
      · rw [hpath]
        exact of_decide_eq_true (List.mem_filter.mp hp).2
      · rw [hpath]
        exact hs
  · rw [hnone]
    exact knownCache_nil t ops

theorem Lawful.endsAs (h : Lawful m t ops) (hbefore : before <+: ops) (hcall : .check call ∈ ops)
    (hsound : Sound t ops (applyAll t before)) :
    call.proofreader.EndsAs call.options (applyAll t before) call.paths :=
  (h.trusts hbefore hcall hsound).endsAs (h.plainIssues hcall _)

/-- Every operation of a run keeps the cache sound. -/
theorem Lawful.sound_apply (h : Lawful m t ops) (hbefore : before <+: ops) (hop : op ∈ ops)
    (hsound : Sound t ops (applyAll t before)) : Sound t ops (apply (applyAll t before) op) := by
  have hgrown := grown_applyAll h.proper before
  have hstep := grown_apply hgrown.proper op
  cases op with
  | write path f =>
      -- only a file written at the place of the cache could replace it
      refine hsound.of_grown hstep fun g hput => h.writes path f hop ?_
      generalize hplace : (applyAll t before).placeOf Cache.path = place at hput
      cases hput
      rw [FileTree.resolve_eq, FileTree.resolve_eq, ← FileTree.placeOf_congr hgrown.working,
        ← FileTree.placeOf_congr hgrown.working, hplace]
  | delete path =>
      refine hsound.of_grown hstep fun g hput => ?_
      cases hput
  | check call =>
      rw [apply, Call.run]
      cases h.endsAs hbefore hop hsound with
      | @failed e hcall _ hkept =>
          rw [hcall, Proofreader.leftBy, hkept]
          exact hsound
      | done hcall _ _ htree =>
          rw [hcall]
          rcases htree with rfl | hrenews
          · exact hsound
          · exact h.sound_of_renews hbefore hop hsound hrenews
      | lost hcall _ _ hwrite =>
          rw [hcall]
          refine hsound.of_write hgrown.proper hwrite ?_
          exact Cache.decode_empty ▸ knownCache_nil t ops

/-- The cache is sound after every part of a run. -/
theorem Lawful.sound_applyAll (h : Lawful m t ops) (hbefore : before <+: ops) :
    Sound t ops (applyAll t before) := by
  induction before using List.reverseRecOn with
  | nil =>
      intro f hf
      rw [show (applyAll t []).file? Cache.path = none from h.start] at hf
      cases hf
  | append_singleton before op ih =>
      have hprefix : before <+: ops := (List.prefix_append before [op]).trans hbefore
      rw [applyAll_concat]
      exact h.sound_apply hprefix (hbefore.subset (by simp)) (ih hprefix)

end Operation

open Operation

theorem Call.map_run_uncached {call : Call} {u : FileTree}
    (hplain : Proofreader.PlainIssues (call.check u)) (completion : Completion) :
    ((call.uncached completion).run u).map (·.1) =
      call.proofreader.freshIssues call.options u call.paths := by
  rw [← Proofreader.freshIssues_uncached _ _ completion]
  have hends := (Proofreader.trusts_of_cacheOf_eq_nil
    (show Proofreader.cacheOf (call.uncached completion).options u = [] from rfl)
      call.proofreader call.paths).endsAs hplain
  cases hends with
  | failed hcall hfresh _ =>
      rw [Call.run]
      exact (congrArg (Except.map _) hcall).trans hfresh.symm
  | done hcall hfresh _ _ =>
      rw [Call.run]
      exact (congrArg (Except.map _) hcall).trans hfresh.symm
  | lost _ _ hspoils _ => exact absurd hspoils.1 Bool.false_ne_true

/-- Every call of a run ends as the same call without the cache would, in whatever order a pool is
done with its files, unless it would put the name of a file that holds a half into the cache: then
the issues that it would find without the cache are lost. -/
theorem checkPaths_cached {m : Morphology} {t : FileTree} {ops : List Operation}
    (h : Lawful m t ops) {before after : List Operation} {call : Call}
    (hops : ops = before ++ .check call :: after) (completion : Completion) :
    let u := applyAll t before
    let uncached := ((call.uncached completion).run u).map (·.1)
    (¬call.Spoils u → (call.run u).map (·.1) = uncached) ∧
      (call.Spoils u → ∀ issues, uncached = .ok issues →
        ∃ e left, call.run u = .error (.encoding e left)) ∧
      ∀ e, uncached = .error e → call.run u = .error e := by
  intro u uncached
  have hbefore : before <+: ops := hops ▸ List.prefix_append before _
  have hcall : .check call ∈ ops := by simp [hops]
  have hfresh : uncached = call.proofreader.freshIssues call.options u call.paths :=
    Call.map_run_uncached (h.plainIssues hcall u) completion
  rw [hfresh, Call.run, Call.Spoils]
  cases h.endsAs hbefore hcall (h.sound_applyAll hbefore) with
  | failed hrun hfails _ =>
      rw [hrun, hfails]
      refine ⟨fun _ => rfl, fun _ issues hok => ?_, fun e he => ?_⟩
      · contradiction
      · rw [Except.error.inj he]
  | done hrun hok hfine _ =>
      rw [hrun, hok]
      exact ⟨fun _ => rfl, fun hspoils => absurd hspoils hfine, by simp⟩
  | lost hrun hok hspoils _ =>
      rw [hrun, hok]
      exact ⟨fun hfine => absurd hspoils hfine, fun _ _ _ => ⟨_, _, rfl⟩, by simp⟩

/-- In the second of two calls on one file the cache knows what the first has found. -/
theorem checkPaths_cached_again :
    let call : Call := ⟨{ engine := .builtIn {} }, {}, ["a.md"]⟩
    let before : List Operation := [.write "a.md" ⟨"ｱを".toUTF8, 1⟩, .check call]
    Lawful {} {} (before ++ [.check call]) ∧ ¬call.Spoils (applyAll {} before) ∧
      (call.run (applyAll {} before)).map (·.1) =
        ((call.uncached .inTurn).run (applyAll {} before)).map (·.1) := by
  intro call before
  have hbuiltIn : call.proofreader.BuiltIn := Proofreader.builtIn_initial _
  have hlawful : Lawful {} {} (before ++ [.check call]) := by
    refine .of_single (f := ⟨"ｱを".toUTF8, 1⟩) rfl ⟨.folder (by simp) (by simp), by simp⟩ ?_ ?_
      (by simp [before]) ⟨hbuiltIn, rfl⟩
    · intro place g hg
      cases place <;> simp [FileNode.at?, Entries.get?] at hg
    · intro path g hg
      obtain ⟨rfl, rfl⟩ : path = "a.md" ∧ g = ⟨"ｱを".toUTF8, 1⟩ := by simpa [before] using hg
      exact ⟨rfl, by decide⟩
  -- whatever the first call has written, the one file to check is where it was
  have hfiles : Proofreader.filesToCheck (applyAll {} before) ["a.md"] = [⟨"", ["a.md"]⟩] := by
    let first : List Operation := [.write "a.md" ⟨"ｱを".toUTF8, 1⟩]
    rw [show before = first ++ [.check call] from rfl, applyAll_concat]
    rcases apply_check (applyAll {} first) call with hsame | ⟨f, hwrite⟩
    · rw [hsame]
      decide
    · rw [← Except.ok.inj hwrite]
      rfl
  have hfine : ¬call.Spoils (applyAll {} before) := by
    rintro ⟨_, _, p, hp, hhalf, _⟩
    rw [show call.paths = [(LooseText.ofString "a.md")] from rfl, hfiles] at hp
    rw [List.mem_singleton.mp hp] at hhalf
    exact absurd hhalf (by decide)
  exact ⟨hlawful, hfine, (checkPaths_cached hlawful rfl .inTurn).1 hfine⟩

/-- A file whose name holds a half.  Without the cache its issues are found, with it they are
lost. -/
theorem checkPaths_cached_half :
    let path : LooseText := .half 0x4ff :: LooseText.ofString ".md"
    let t : FileTree := { root := .folder [(path, .file ⟨"頭痛が痛い。".toUTF8, 1⟩)] }
    let call : Call := ⟨{ engine := .builtIn {} }, {}, [path]⟩
    Lawful {} t [.check call] ∧
      (∃ issues t', (call.uncached .inTurn).run t = .ok (issues, t')) ∧
        ∃ e left, call.run t = .error (.encoding e left) := by
  intro path t call
  have hproper : t.Proper := ⟨.folder (by decide) (by simp [FileNode.Proper.file]), by simp [t]⟩
  have hnamed : t.root.WellNamed :=
    .folder (by decide) (by decide) (by simp [FileNode.WellNamed.file])
  have hbuiltIn : call.proofreader.BuiltIn := Proofreader.builtIn_initial _
  have honly (place : List LooseText) (f : File) (hf : t.root.at? place = some (.file f)) :
      f = ⟨"頭痛が痛い。".toUTF8, 1⟩ := by
    cases place with
    | nil => simp [t, FileNode.at?] at hf
    | cons name rest =>
        rw [FileNode.at?] at hf
        obtain ⟨n, hn, hf⟩ := Option.bind_eq_some_iff.mp hf
        obtain ⟨_, rfl⟩ := Prod.mk.inj (List.mem_singleton.mp (Entries.mem_of_get?_eq_some hn))
        cases rest with
        | nil => simpa [FileNode.at?] using hf.symm
        | cons _ _ => simp [FileNode.at?] at hf
  have hlawful : Lawful {} t [.check call] :=
    .of_single (by decide) hproper honly (by simp) (by simp) ⟨hbuiltIn, rfl⟩
  have hspoils : call.Spoils t := by
    refine ⟨rfl, ⟨_, rfl⟩, ⟨"", [path]⟩, by decide +kernel, by decide, ?_⟩
    rw [Proofreader.checkOf_eq]
    exact Proofreader.exists_checkFile_ok (Engine.standard_builtIn {}) {} t _
  obtain ⟨issues, hfresh⟩ := hbuiltIn.exists_freshIssues (o := {}) hnamed rfl [path]
  refine ⟨hlawful, hbuiltIn.exists_checkPaths hnamed rfl rfl
    fun h => Bool.false_ne_true h.1, ?_⟩
  cases hlawful.endsAs (List.nil_prefix) (List.mem_singleton.mpr rfl)
    (hlawful.sound_applyAll List.nil_prefix) with
  | failed _ hfails _ => cases hfresh.symm.trans hfails
  | done _ _ hfine _ => exact absurd hspoils hfine
  | lost hrun _ _ _ => exact ⟨_, _, hrun⟩

end Kouetsu
