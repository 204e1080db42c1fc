import Kouetsu.File.Tree
import Kouetsu.Proofs.Entries
import Kouetsu.Proofs.File.Path
import Kouetsu.Proofs.Traverse
/-!
# What changes in a file tree

Writing a file adds that file and nothing but folders besides; deleting one adds nothing.  In a
tree with proper names every path that is listed is in its normal form.
-/

namespace Kouetsu

namespace FileNode

inductive Proper : FileNode → Prop
  | file (f : File) : Proper (.file f)
  | folder {entries : Folder} (hnames : ∀ x ∈ entries, Path.IsPart x.1)
      (hnodes : ∀ x ∈ entries, Proper x.2) : Proper (.folder entries)

variable {n m new : FileNode}

theorem entries_folder (entries : Folder) : (folder entries).entries = entries := rfl

theorem at?_cons (n : FileNode) (name : LooseText) (rest : List LooseText) :
    n.at? (name :: rest) = (Entries.get? n.entries name).bind fun m => m.at? rest := by
  cases n <;> rfl

theorem at?_append (n : FileNode) (a b : List LooseText) :
    n.at? (a ++ b) = (n.at? a).bind fun m => m.at? b := by
  induction a generalizing n with
  | nil => rfl
  | cons name a ih =>
      rw [List.cons_append, at?_cons, at?_cons, Option.bind_assoc]
      congr 1
      funext m
      exact ih m

/-! ## Files after a change -/

/-- A file below a node that was put somewhere is an old one or below the new node. -/
theorem at?_put {place q : List LooseText} {f : File}
    (h : (n.put place new).at? q = some (.file f)) :
    n.at? q = some (.file f) ∨ ∃ rest, q = place ++ rest ∧ new.at? rest = some (.file f) := by
  induction place generalizing n q with
  | nil => exact Or.inr ⟨q, rfl, h⟩
  | cons name place ih =>
      cases q with
      | nil => simp [put, at?] at h
      | cons a q =>
          rw [put, at?_cons, entries_folder, Entries.get?_insert] at h
          split at h
          · next ha =>
              subst ha
              rcases ih h with hold | ⟨rest, rfl, hnew⟩
              · left
                rw [at?_cons]
                cases hget : Entries.get? n.entries name with
                | none =>
                    rw [hget] at hold
                    cases q <;> simp [at?, Entries.get?] at hold
                | some m => rwa [hget] at hold
              · exact Or.inr ⟨rest, rfl, hnew⟩
          · exact Or.inl (by rwa [at?_cons])

theorem at?_remove {place q : List LooseText} {f : File}
    (h : (n.remove place).at? q = some (.file f)) : n.at? q = some (.file f) := by
  induction place generalizing n q with
  | nil => exact h
  | cons name place ih =>
      cases place with
      | nil =>
          cases q with
          | nil => simp [remove, at?] at h
          | cons a q =>
              rw [remove, at?_cons, entries_folder,
                Entries.get?_erase] at h
              split at h
              · simp at h
              · rwa [at?_cons]
      | cons next place =>
          rw [remove] at h
          · split at h
            · exact h
            · next old hold =>
                cases q with
                | nil => simp [at?] at h
                | cons a q =>
                    rw [at?_cons, entries_folder,
                      Entries.get?_insert] at h
                    rw [at?_cons]
                    split at h
                    · next ha => rw [← ha, hold]; exact ih h
                    · exact h
          · simp

/-! ## Proper names -/

theorem Proper.entries (h : n.Proper) :
    (∀ x ∈ n.entries, Path.IsPart x.1) ∧ ∀ x ∈ n.entries, x.2.Proper := by
  cases h with
  | file f => simp [FileNode.entries]
  | folder hnames hnodes => exact ⟨hnames, hnodes⟩

theorem Proper.at? {q : List LooseText} (h : n.Proper) (hq : n.at? q = some m) : m.Proper := by
  induction q generalizing n with
  | nil => exact Option.some.inj hq ▸ h
  | cons name q ih =>
      rw [at?_cons] at hq
      obtain ⟨next, hnext, hq⟩ := Option.bind_eq_some_iff.mp hq
      exact ih (h.entries.2 _ (Entries.mem_of_get?_eq_some hnext)) hq

theorem Proper.insert {name : LooseText} (h : n.Proper) (hname : Path.IsPart name) (hm : m.Proper) :
    (FileNode.folder (Entries.insert name m n.entries)).Proper := by
  refine .folder (fun x hx => ?_) fun x hx => ?_
  · rcases Entries.mem_insert hx with rfl | hx
    · exact hname
    · exact h.entries.1 x hx
  · rcases Entries.mem_insert hx with rfl | hx
    · exact hm
    · exact h.entries.2 x hx

theorem Proper.put {place : List LooseText} (h : n.Proper) (hplace : ∀ s ∈ place, Path.IsPart s)
    (hnew : new.Proper) : (n.put place new).Proper := by
  induction place generalizing n with
  | nil => exact hnew
  | cons name place ih =>
      refine h.insert (hplace name List.mem_cons_self)
        (ih ?_ fun s hs => hplace s (List.mem_cons_of_mem name hs))
      cases hget : Entries.get? n.entries name with
      | none => exact .folder (by simp) (by simp)
      | some m => exact h.entries.2 _ (Entries.mem_of_get?_eq_some hget)

theorem Proper.remove {place : List LooseText} (h : n.Proper)
    (hplace : ∀ s ∈ place, Path.IsPart s) :
    (n.remove place).Proper := by
  induction place generalizing n with
  | nil => exact h
  | cons name place ih =>
      cases place with
      | nil =>
          refine .folder (fun x hx => ?_) fun x hx => ?_
          · exact h.entries.1 x (List.mem_filter.mp hx).1
          · exact h.entries.2 x (List.mem_filter.mp hx).1
      | cons next place =>
          rw [FileNode.remove]
          · split
            · exact h
            · next old hold =>
                refine h.insert (hplace name List.mem_cons_self)
                  (ih ?_ fun s hs => hplace s (List.mem_cons_of_mem name hs))
                exact h.entries.2 _ (Entries.mem_of_get?_eq_some hold)
          · simp

theorem mem_ownFiles {entries : Folder} {name : LooseText} :
    (name, ()) ∈ filesBelow.ownFiles entries ↔ ∃ f, (name, .file f) ∈ entries := by
  induction entries with
  | nil => simp [filesBelow.ownFiles]
  | cons y entries ih =>
      obtain ⟨name', node⟩ := y
      cases node with
      | file f => simp [filesBelow.ownFiles, ih, exists_or]
      | folder inner => simp [filesBelow.ownFiles, ih]

theorem mem_subfolders {entries : Folder} {x : LooseText × List (List LooseText)} :
    x ∈ filesBelow.subfolders entries ↔ x.1 ∉ skippedFolders ∧
      ∃ inner, (x.1, .folder inner) ∈ entries ∧ x.2 = filesBelow (.folder inner) := by
  induction entries with
  | nil => simp [filesBelow.subfolders]
  | cons y entries ih =>
      obtain ⟨name, node⟩ := y
      cases node with
      | file f => simp [filesBelow.subfolders, ih]
      | folder inner =>
          rw [filesBelow.subfolders]
          split
          · next hskip =>
              rw [List.contains_iff_mem] at hskip
              rw [ih]
              refine and_congr_right fun hx => exists_congr fun inner' => and_congr_left fun _ => ?_
              rw [List.mem_cons, or_iff_right]
              rintro h
              exact hx ((Prod.mk.inj h).1 ▸ hskip)
          · next hskip =>
              rw [List.contains_iff_mem] at hskip
              rw [List.mem_cons, ih]
              constructor
              · rintro (rfl | ⟨hx, inner', hmem, hbelow⟩)
                · exact ⟨hskip, inner, List.mem_cons_self, rfl⟩
                · exact ⟨hx, inner', List.mem_cons_of_mem _ hmem, hbelow⟩
              · rintro ⟨hx, inner', hmem, hbelow⟩
                rcases List.mem_cons.mp hmem with h | hmem
                · cases h
                  exact Or.inl (Prod.ext rfl hbelow)
                · exact Or.inr ⟨hx, inner', hmem, hbelow⟩

theorem Proper.isPart_of_mem_filesBelow (h : n.Proper) {parts : List LooseText}
    (hparts : parts ∈ n.filesBelow) {s : LooseText} (hs : s ∈ parts) : Path.IsPart s := by
  induction h generalizing parts with
  | file f => simp [filesBelow] at hparts
  | @folder entries hnames _ ih =>
      rw [filesBelow] at hparts
      rcases List.mem_append.mp hparts with hown | hsub
      · obtain ⟨x, hx, rfl⟩ := List.mem_map.mp hown
        obtain ⟨f, hnode⟩ := mem_ownFiles.mp (List.mem_mergeSort.mp hx)
        rw [List.mem_singleton.mp hs]
        exact hnames _ hnode
      · obtain ⟨x, hx, hparts⟩ := List.mem_flatMap.mp hsub
        obtain ⟨_, inner, hnode, hbelow⟩ := mem_subfolders.mp (List.mem_mergeSort.mp hx)
        obtain ⟨more, hmore, rfl⟩ := List.mem_map.mp hparts
        rcases List.mem_cons.mp hs with rfl | hs
        · exact hnames _ hnode
        · exact ih _ hnode (hbelow ▸ hmore) hs

end FileNode

namespace FileTree

variable {t t' : FileTree} {p : Path}

structure Proper (t : FileTree) : Prop where
  root : t.root.Proper
  working : ∀ s ∈ t.working, Path.IsPart s

/-- A later tree without files that the earlier one does not have. -/
structure Kept (t t' : FileTree) : Prop where
  working : t'.working = t.working
  files : ∀ q f, t'.root.at? q = some (.file f) → t.root.at? q = some (.file f)
  proper : t.Proper → t'.Proper

/-! ## Listed paths -/

theorem Proper.node {n : FileNode} (h : t.Proper) (hn : t.node p = .ok n) : n.Proper := by
  rw [FileTree.node] at hn
  obtain ⟨place, _, hn⟩ := bind_eq_ok.mp hn
  split at hn
  · next m hm =>
      cases hn
      exact h.root.at? hm
  · simp [throw, throwThe, MonadExceptOf.throw] at hn

theorem Proper.normal_of_mem_filesUnder (h : t.Proper) {paths : List LooseText}
    (hp : p ∈ t.filesUnder paths) : p.Normal := by
  obtain ⟨s, _, hp⟩ := List.mem_flatMap.mp hp
  rw [filesAt] at hp
  split at hp
  · simp at hp
  · rw [List.mem_singleton.mp hp]
    exact Path.normal_ofText s
  · next n _ hn =>
      obtain ⟨parts, hparts, rfl⟩ := List.mem_map.mp hp
      exact (Path.normal_ofText s).append fun part hpart =>
        (h.node hn).isPart_of_mem_filesBelow hparts hpart

/-! ## Writing and deleting -/

def stepTo (place : List LooseText) (part : LooseText) : List LooseText :=
  if part = ".." then place.dropLast else place ++ [part]

/-- The place that a path leads to if all folders on the way are there. -/
def placeOf (t : FileTree) (p : Path) : List LooseText := p.parts.foldl stepTo (t.start p)

theorem resolve_eq (t : FileTree) (p : Path) : t.resolve p = absolute (t.placeOf p) := rfl

theorem placeOf_congr (h : t'.working = t.working) (p : Path) : t'.placeOf p = t.placeOf p := by
  rw [placeOf, placeOf, start, start, h]

theorem placeOf_name {name : LooseText} (hname : name ≠ "..") (t : FileTree) :
    t.placeOf ⟨"", [name]⟩ = t.working ++ [name] := if_neg hname

theorem isPart_stepTo {part : LooseText} {place : List LooseText} (hpart : Path.IsPart part)
    (hplace : ∀ s ∈ place, Path.IsPart s) : ∀ s ∈ stepTo place part, Path.IsPart s := by
  intro s hs
  rw [stepTo] at hs
  split at hs
  · exact hplace s (List.dropLast_subset place hs)
  · rcases List.mem_append.mp hs with hs | hs
    · exact hplace s hs
    · exact List.mem_singleton.mp hs ▸ hpart

theorem Proper.isPart_of_mem_start (h : t.Proper) (p : Path) : ∀ s ∈ t.start p, Path.IsPart s := by
  intro s hs
  rw [start] at hs
  split at hs
  · exact h.working s hs
  · simp at hs

theorem enter_eq_ok {path part : LooseText} {last : Bool} {place place' : List LooseText}
    (h : enter path last (t, place) part = .ok (t', place'))
    (hpart : Path.IsPart part) (hplace : ∀ s ∈ place, Path.IsPart s) :
    t.Kept t' ∧ place' = stepTo place part ∧ ∀ s ∈ place', Path.IsPart s := by
  have hnext := isPart_stepTo hpart hplace
  have hsame : t.Kept t := ⟨rfl, fun _ _ h => h, fun h => h⟩
  rw [enter] at h
  simp only at h
  split at h
  · next hup =>
      cases h
      have hstep : place.dropLast = stepTo place part := by rw [stepTo, if_pos hup]
      exact ⟨hsame, hstep, hstep ▸ hnext⟩
  · next hdown =>
      have hstep : place ++ [part] = stepTo place part := by rw [stepTo, if_neg hdown]
      split at h
      · cases h
        refine ⟨⟨rfl, fun q f hq => ?_, fun ht => ⟨?_, ht.working⟩⟩, hstep, hstep ▸ hnext⟩
        · rcases FileNode.at?_put hq with hold | ⟨rest, rfl, hnew⟩
          · exact hold
          · cases rest <;> simp [FileNode.at?, Entries.get?] at hnew
        · exact ht.root.put (hstep ▸ hnext) (.folder (by simp) (by simp))
      · cases h
        exact ⟨hsame, hstep, hstep ▸ hnext⟩
      · simp at h

theorem Kept.trans {t'' : FileTree} (h : t.Kept t') (h' : t'.Kept t'') : t.Kept t'' where
  working := h'.working.trans h.working
  files q f hq := h.files q f (h'.files q f hq)
  proper ht := h'.proper (h.proper ht)

theorem enterAll_eq_ok {path : LooseText} {parts place place' : List LooseText}
    (h : enterAll path parts (t, place) = .ok (t', place')) (hparts : ∀ s ∈ parts, Path.IsPart s)
    (hplace : ∀ s ∈ place, Path.IsPart s) :
    t.Kept t' ∧ place' = parts.foldl stepTo place ∧ ∀ s ∈ place', Path.IsPart s := by
  induction parts generalizing t place with
  | nil =>
      cases h
      exact ⟨⟨rfl, fun _ _ h => h, fun h => h⟩, rfl, hplace⟩
  | cons part parts ih =>
      rw [enterAll] at h
      obtain ⟨⟨next, nextPlace⟩, hfirst, h⟩ := bind_eq_ok.mp h
      obtain ⟨hkept, hstep, hnext⟩ := enter_eq_ok hfirst (hparts part List.mem_cons_self) hplace
      obtain ⟨hkept', hplace', hproper⟩ :=
        ih h (fun s hs => hparts s (List.mem_cons_of_mem part hs)) hnext
      exact ⟨hkept.trans hkept', by rw [hplace', hstep]; rfl, hproper⟩

def Writable (t : FileTree) (p : Path) : Prop := ∃ t', t.write p { content := .empty } = .ok t'

/-- Whether a file can be written does not depend on what it holds. -/
theorem writable_iff (f : File) : t.Writable p ↔ ∃ t', t.write p f = .ok t' := by
  rw [Writable, write, write]
  cases enterAll { p with parts := p.parts.dropLast }.text p.parts.dropLast (t, t.start p) with
  | error e => exact iff_of_false (by simp [bind, Except.bind]) (by simp [bind, Except.bind])
  | ok s =>
      cases p.parts.getLast? with
      | none => exact iff_of_false (by simp [bind, Except.bind, throw, throwThe,
          MonadExceptOf.throw]) (by simp [bind, Except.bind, throw, throwThe, MonadExceptOf.throw])
      | some name =>
          simp only [bind, Except.bind]
          split <;> simp [pure, Except.pure, throw, throwThe, MonadExceptOf.throw]

theorem write_eq_ok {f : File} (h : t.write p f = .ok t') (hp : p.Normal) (ht : t.Proper) :
    t'.working = t.working ∧ t'.Proper ∧ ∀ q g, t'.root.at? q = some (.file g) →
      t.root.at? q = some (.file g) ∨ (q = t.placeOf p ∧ g = f) := by
  have hstart := ht.isPart_of_mem_start p
  rw [write] at h
  obtain ⟨⟨u, folder⟩, henter, h⟩ := bind_eq_ok.mp h
  obtain ⟨hkept, hfolder, hproper⟩ := enterAll_eq_ok henter
    (fun s hs => hp.parts s (List.dropLast_subset _ hs)) hstart
  simp only at h
  split at h
  · simp [throw, throwThe, MonadExceptOf.throw] at h
  · next name hname =>
      split at h
      · simp [throw, throwThe, MonadExceptOf.throw] at h
      · next hfile =>
          cases h
          rw [Bool.or_eq_true, not_or, decide_eq_true_eq] at hfile
          have hlast : p.parts = p.parts.dropLast ++ [name] :=
            (List.dropLast_append_getLast? name hname).symm
          have hnamePart : Path.IsPart name :=
            hp.parts name (hlast ▸ List.mem_append_right _ List.mem_cons_self)
          have hplace : t.placeOf p = folder ++ [name] := by
            rw [placeOf, hlast, List.foldl_append, hfolder]
            exact if_neg hfile.1
          refine ⟨hkept.working, ⟨(hkept.proper ht).root.put ?_ (.file f),
            (hkept.proper ht).working⟩, fun q g hq => ?_⟩
          · intro s hs
            rcases List.mem_append.mp hs with hs | hs
            · exact hproper s hs
            · exact List.mem_singleton.mp hs ▸ hnamePart
          · rcases FileNode.at?_put hq with hold | ⟨rest, rfl, hnew⟩
            · exact Or.inl (hkept.files q g hold)
            · cases rest with
              | nil =>
                  rw [List.append_nil, hplace]
                  simp only [FileNode.at?, Option.some.injEq, FileNode.file.injEq] at hnew
                  exact Or.inr ⟨rfl, hnew.symm⟩
              | cons a rest => simp [FileNode.at?] at hnew

theorem foldlM_follow_eq_ok {parts start place : List LooseText}
    (h : parts.foldlM (t.follow p) start = .ok place) : place = parts.foldl stepTo start := by
  induction parts generalizing start with
  | nil =>
      cases h
      rfl
  | cons part parts ih =>
      rw [List.foldlM_cons] at h
      obtain ⟨next, hnext, h⟩ := bind_eq_ok.mp h
      rw [follow] at hnext
      split at hnext
      · simp at hnext
      · simp at hnext
      · rw [ih h, List.foldl_cons, ← Except.ok.inj hnext]
        rfl

theorem place_eq_ok {place : List LooseText} (h : t.place p = .ok place) : place = t.placeOf p :=
  foldlM_follow_eq_ok h

theorem isPart_foldl_stepTo {parts start : List LooseText} (hparts : ∀ s ∈ parts, Path.IsPart s)
    (hstart : ∀ s ∈ start, Path.IsPart s) : ∀ s ∈ parts.foldl stepTo start, Path.IsPart s := by
  induction parts generalizing start with
  | nil => exact hstart
  | cons part parts ih =>
      exact ih (fun s hs => hparts s (List.mem_cons_of_mem part hs))
        (isPart_stepTo (hparts part List.mem_cons_self) hstart)

theorem Proper.isPart_of_mem_placeOf (ht : t.Proper) (hp : p.Normal) :
    ∀ s ∈ t.placeOf p, Path.IsPart s :=
  isPart_foldl_stepTo hp.parts (ht.isPart_of_mem_start p)

theorem kept_of_delete (h : t.delete p = .ok t') (hp : p.Normal) : t.Kept t' := by
  rw [delete] at h
  obtain ⟨n, _, h⟩ := bind_eq_ok.mp h
  cases n with
  | folder entries => simp [throw, throwThe, MonadExceptOf.throw] at h
  | file f =>
      obtain ⟨place, hplace, h⟩ := bind_eq_ok.mp h
      cases h
      obtain rfl := place_eq_ok hplace
      exact ⟨rfl, fun q g hq => FileNode.at?_remove hq, fun ht =>
        ⟨ht.root.remove (ht.isPart_of_mem_placeOf hp), ht.working⟩⟩

/-! ## Files at paths -/

theorem file?_eq_some {f : File} : t.file? p = some f ↔ t.node p = .ok (.file f) := by
  rw [file?]
  split
  · next g hg => rw [hg, Option.some.injEq, Except.ok.injEq, FileNode.file.injEq]
  · next hne =>
      refine iff_of_false (by simp) fun h => ?_
      exact hne f h

theorem fingerprint_eq_ok {s : String} :
    t.fingerprint p = .ok s ↔ ∃ f, t.file? p = some f ∧ f.fingerprint = s := by
  simp only [file?_eq_some, fingerprint]
  constructor
  · intro h
    obtain ⟨n, hn, h⟩ := bind_eq_ok.mp h
    cases n with
    | folder entries => simp [throw, throwThe, MonadExceptOf.throw] at h
    | file f => exact ⟨f, hn, Except.ok.inj h⟩
  · rintro ⟨f, hn, rfl⟩
    rw [hn]
    rfl

theorem file?_name {name : LooseText} (hname : name ≠ "..") {f : File} :
    t.file? ⟨"", [name]⟩ = some f ↔ t.root.at? (t.working ++ [name]) = some (.file f) := by
  have hplace {entries : Folder} (hfolder : t.nodeAt? t.working = some (.folder entries)) :
      t.place ⟨"", [name]⟩ = .ok (t.working ++ [name]) := by
    show (t.follow _ t.working name).bind _ = _
    rw [follow, hfolder]
    simp only [if_neg hname]
    rfl
  rw [file?_eq_some]
  constructor
  · intro h
    obtain ⟨place, hreached, h⟩ := bind_eq_ok.mp h
    have hat : place = t.working ++ [name] := by
      rw [place_eq_ok hreached]
      exact if_neg hname
    split at h
    · next n hn =>
        rw [← hat, ← Except.ok.inj h]
        exact hn
    · simp [throw, throwThe, MonadExceptOf.throw] at h
  · intro h
    have hfile := h
    rw [FileNode.at?_append] at h
    obtain ⟨n, hn, hname'⟩ := Option.bind_eq_some_iff.mp h
    cases n with
    | file g => simp [FileNode.at?] at hname'
    | folder entries =>
        rw [node, hplace hn]
        simp only [bind, Except.bind, nodeAt?, hfile]
        rfl

theorem exists_folder_dropLast {place : List LooseText} {entries : Folder}
    (h : t.nodeAt? place = some (.folder entries)) :
    ∃ above, t.nodeAt? place.dropLast = some (.folder above) := by
  rcases List.eq_nil_or_concat place with rfl | ⟨above, name, rfl⟩
  · exact ⟨entries, h⟩
  · rw [nodeAt?, List.concat_eq_append, FileNode.at?_append] at h
    obtain ⟨n, hn, hname⟩ := Option.bind_eq_some_iff.mp h
    cases n with
    | file g => simp [FileNode.at?] at hname
    | folder above' => exact ⟨above', by rwa [List.concat_eq_append, List.dropLast_concat]⟩

theorem at?_placeOf {f : File} (h : t.file? p = some f) :
    t.root.at? (t.placeOf p) = some (.file f) := by
  obtain ⟨place, hplace, hnode⟩ := bind_eq_ok.mp (file?_eq_some.mp h)
  rw [← place_eq_ok hplace]
  split at hnode
  · next n hn =>
      rw [← Except.ok.inj hnode]
      exact hn
  · simp [throw, throwThe, MonadExceptOf.throw] at hnode

theorem exists_placeOf_eq (hparts : p.parts ≠ []) {f : File} (h : t.file? p = some f) :
    ∃ above, t.placeOf p = above ++ [p.name] := by
  have hfile := at?_placeOf h
  obtain ⟨place, hplace, -⟩ := bind_eq_ok.mp (file?_eq_some.mp h)
  rw [← place_eq_ok hplace] at hfile ⊢
  have hsplit : p.parts = p.parts.dropLast ++ [p.name] := by
    rw [Path.name, List.getLast?_eq_getLast_of_ne_nil hparts, Option.getD_some,
      List.dropLast_append_getLast hparts]
  rw [FileTree.place, hsplit, List.foldlM_append] at hplace
  obtain ⟨above, _, hlast⟩ := bind_eq_ok.mp hplace
  obtain ⟨next, hnext, hdone⟩ := bind_eq_ok.mp hlast
  obtain rfl : next = place := Except.ok.inj hdone
  rw [follow] at hnext
  split at hnext
  · simp at hnext
  · simp at hnext
  · next entries hfolder =>
      have hstep := Except.ok.inj hnext
      split at hstep
      · -- a last step upwards ends at a folder
        obtain ⟨above', habove⟩ := exists_folder_dropLast hfolder
        rw [hstep, nodeAt?, hfile] at habove
        simp at habove
      · exact ⟨above, hstep.symm⟩

/-- A path to a file does not lead to another name in the working folder. -/
theorem placeOf_ne_name {name : LooseText} (hname : p.name ≠ name) {f : File}
    (h : t.file? p = some f) : t.placeOf p ≠ t.working ++ [name] := by
  intro hplace
  by_cases hparts : p.parts = []
  · rw [placeOf, hparts, List.foldl_nil, start] at hplace
    split at hplace <;> simp at hplace
  · obtain ⟨above, habove⟩ := exists_placeOf_eq hparts h
    rw [habove] at hplace
    exact hname (List.cons.inj (List.append_inj' hplace rfl).2).1

end FileTree

end Kouetsu
