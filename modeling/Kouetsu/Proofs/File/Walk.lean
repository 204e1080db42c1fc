import Kouetsu.Proofs.File.Tree
/-!
# Walked files are there

Where every folder has each name once and none that leads upwards, the paths that a walk lists lead
to files, each listed once.
-/

namespace Kouetsu

/-- How often something is in blocks that have it once or not at all. -/
theorem countP_flatMap_of_once {α β : Type} {g : α → List β} {P : β → Bool} {Q : α → Bool}
    {xs : List α} (h : ∀ x ∈ xs, (g x).countP P = if Q x then 1 else 0) :
    (xs.flatMap g).countP P = xs.countP Q := by
  induction xs with
  | nil => rfl
  | cons x xs ih =>
      rw [List.flatMap_cons, List.countP_append, h x List.mem_cons_self,
        ih fun y hy => h y (List.mem_cons_of_mem x hy), List.countP_cons, Nat.add_comm]

namespace FileNode

/-- A node whose folders have each name once, and none that leads to the folder above. -/
inductive WellNamed : FileNode → Prop
  | file (f : File) : WellNamed (.file f)
  | folder {entries : Folder} (hnames : entries.keys.Nodup)
      (hup : (".." : LooseText) ∉ entries.keys) (hnodes : ∀ x ∈ entries, WellNamed x.2) :
      WellNamed (.folder entries)

theorem WellNamed.at? {n m : FileNode} {q : List LooseText} (h : n.WellNamed)
    (hq : n.at? q = some m) : m.WellNamed := by
  induction q generalizing n with
  | nil => exact Option.some.inj hq ▸ h
  | cons name q ih =>
      rw [at?_cons] at hq
      obtain ⟨inner, hinner, hrest⟩ := Option.bind_eq_some_iff.mp hq
      cases h with
      | file f => simp [FileNode.entries, Entries.get?] at hinner
      | folder _ _ hnodes => exact ih (hnodes _ (Entries.mem_of_get?_eq_some hinner)) hrest

theorem WellNamed.up_not_mem {n m : FileNode} {q : List LooseText} (h : n.WellNamed)
    (hq : n.at? q = some m) : (".." : LooseText) ∉ q := by
  induction q generalizing n with
  | nil => exact List.not_mem_nil
  | cons name q ih =>
      rw [at?_cons] at hq
      obtain ⟨inner, hinner, hrest⟩ := Option.bind_eq_some_iff.mp hq
      cases h with
      | file f => simp [FileNode.entries, Entries.get?] at hinner
      | folder _ hup hnodes =>
          have hmem := Entries.mem_of_get?_eq_some hinner
          rw [List.mem_cons, not_or]
          exact ⟨fun hname => hup (hname ▸ List.mem_map_of_mem hmem), ih (hnodes _ hmem) hrest⟩

theorem ne_nil_of_mem_filesBelow {n : FileNode} {parts : List LooseText}
    (h : parts ∈ n.filesBelow) : parts ≠ [] := by
  rintro rfl
  cases n with
  | file f => simp [filesBelow] at h
  | folder entries => simp [filesBelow] at h

theorem singleton_mem_filesBelow {entries : Folder} {name : LooseText} :
    [name] ∈ filesBelow (.folder entries) ↔ ∃ f, (name, .file f) ∈ entries := by
  rw [filesBelow, List.mem_append, ← mem_ownFiles]
  constructor
  · rintro (hown | hsub)
    · obtain ⟨x, hx, hname⟩ := List.mem_map.mp hown
      obtain rfl := (List.cons.inj hname).1
      exact List.mem_mergeSort.mp hx
    · obtain ⟨x, hx, hparts⟩ := List.mem_flatMap.mp hsub
      obtain ⟨more, hmore, hname⟩ := List.mem_map.mp hparts
      obtain ⟨_, inner, _, hbelow⟩ := mem_subfolders.mp (List.mem_mergeSort.mp hx)
      exact absurd (List.cons.inj hname).2 (ne_nil_of_mem_filesBelow (hbelow ▸ hmore))
  · intro hown
    exact Or.inl (List.mem_map.mpr ⟨_, List.mem_mergeSort.mpr hown, rfl⟩)

theorem cons_mem_filesBelow {entries : Folder} {name next : LooseText} {more : List LooseText} :
    name :: next :: more ∈ filesBelow (.folder entries) ↔ name ∉ skippedFolders ∧
      ∃ inner, (name, .folder inner) ∈ entries ∧ next :: more ∈ filesBelow (.folder inner) := by
  rw [filesBelow, List.mem_append]
  constructor
  · rintro (hown | hsub)
    · obtain ⟨x, _, hname⟩ := List.mem_map.mp hown
      simp at hname
    · obtain ⟨x, hx, hparts⟩ := List.mem_flatMap.mp hsub
      obtain ⟨below, hmore, hname⟩ := List.mem_map.mp hparts
      obtain ⟨rfl, rfl⟩ := List.cons.inj hname
      obtain ⟨hskip, inner, hnode, hbelow⟩ := mem_subfolders.mp (List.mem_mergeSort.mp hx)
      exact ⟨hskip, inner, hnode, hbelow ▸ hmore⟩
  · rintro ⟨hskip, inner, hnode, hmore⟩
    exact Or.inr (List.mem_flatMap.mpr ⟨(name, filesBelow (.folder inner)), List.mem_mergeSort.mpr
      (mem_subfolders.mpr ⟨hskip, inner, hnode, rfl⟩), List.mem_map_of_mem hmore⟩)

theorem WellNamed.mem_filesBelow {entries : Folder} (h : (FileNode.folder entries).WellNamed)
    {parts : List LooseText} : parts ∈ filesBelow (.folder entries) ↔
      (∃ f, (FileNode.folder entries).at? parts = some (.file f)) ∧
        ∀ name ∈ parts.dropLast, name ∉ skippedFolders := by
  induction parts generalizing entries with
  | nil =>
      refine iff_of_false (fun hmem => ne_nil_of_mem_filesBelow hmem rfl) ?_
      simp [FileNode.at?]
  | cons name parts ih =>
      obtain ⟨hnames, _, hnodes⟩ : entries.keys.Nodup ∧ (".." : LooseText) ∉ entries.keys ∧
          ∀ x ∈ entries, x.2.WellNamed := by
        cases h with
        | folder hnames hup hnodes => exact ⟨hnames, hup, hnodes⟩
      rw [at?_cons, entries_folder]
      cases parts with
      | nil =>
          rw [singleton_mem_filesBelow]
          constructor
          · rintro ⟨f, hf⟩
            rw [Entries.get?_eq_some_of_mem hnames hf]
            exact ⟨⟨f, rfl⟩, by simp⟩
          · rintro ⟨⟨f, hf⟩, _⟩
            obtain ⟨m, hm, hfile⟩ := Option.bind_eq_some_iff.mp hf
            obtain rfl := Option.some.inj hfile
            exact ⟨f, Entries.mem_of_get?_eq_some hm⟩
      | cons next more =>
          rw [cons_mem_filesBelow, List.dropLast_cons_cons, List.forall_mem_cons]
          constructor
          · rintro ⟨hskip, inner, hinner, hmore⟩
            obtain ⟨hfile, hskips⟩ := (ih (hnodes _ hinner)).mp hmore
            rw [Entries.get?_eq_some_of_mem hnames hinner]
            exact ⟨hfile, hskip, hskips⟩
          · rintro ⟨⟨f, hf⟩, hskip, hskips⟩
            obtain ⟨m, hm, hfile⟩ := Option.bind_eq_some_iff.mp hf
            have hinner := Entries.mem_of_get?_eq_some hm
            cases m with
            | file g => simp [FileNode.at?] at hfile
            | folder inner =>
                exact ⟨hskip, inner, hinner, (ih (hnodes _ hinner)).mpr ⟨⟨f, hfile⟩, hskips⟩⟩

/-! ## Walks list each file once -/

theorem sublist_ownFiles (entries : Folder) :
    ((filesBelow.ownFiles entries).map (·.1)).Sublist entries.keys := by
  induction entries with
  | nil => exact .slnil
  | cons x entries ih =>
      obtain ⟨name, node⟩ := x
      cases node with
      | file f => exact ih.cons_cons name
      | folder inner => exact ih.cons name

theorem sublist_subfolders (entries : Folder) :
    ((filesBelow.subfolders entries).map (·.1)).Sublist entries.keys := by
  induction entries with
  | nil => exact .slnil
  | cons x entries ih =>
      obtain ⟨name, node⟩ := x
      cases node with
      | file f => exact ih.cons name
      | folder inner =>
          rw [filesBelow.subfolders]
          split
          · exact ih.cons name
          · exact ih.cons_cons name

theorem nodup_inOrder {α : Type} {xs : List (LooseText × α)} (h : (xs.map (·.1)).Nodup) :
    ((inOrder xs).map (·.1)).Nodup :=
  ((List.mergeSort_perm xs _).map (·.1)).nodup_iff.mpr h

theorem WellNamed.nodup_filesBelow {n : FileNode} (h : n.WellNamed) : n.filesBelow.Nodup := by
  induction h with
  | file f => simp [filesBelow]
  | @folder entries hnames _ _ ih =>
      have hown := nodup_inOrder (hnames.sublist (sublist_ownFiles entries))
      have hsub := nodup_inOrder (hnames.sublist (sublist_subfolders entries))
      rw [filesBelow]
      refine List.nodup_append'.mpr ⟨?_, List.nodup_flatMap.mpr ⟨fun x hx => ?_, ?_⟩, ?_⟩
      · refine List.pairwise_map.mpr ((List.pairwise_map.mp hown).imp fun hne h => ?_)
        exact hne (List.cons.inj h).1
      · obtain ⟨_, inner, hnode, hbelow⟩ := mem_subfolders.mp (List.mem_mergeSort.mp hx)
        rw [hbelow]
        exact (ih _ hnode).map fun _ _ h => (List.cons.inj h).2
      · -- the first parts tell two folders apart
        refine (List.pairwise_map.mp hsub).imp fun {x y} hne => ?_
        rw [Function.onFun_apply, List.disjoint_left]
        intro parts hx hy
        obtain ⟨_, _, rfl⟩ := List.mem_map.mp hx
        obtain ⟨_, _, hparts⟩ := List.mem_map.mp hy
        exact hne (List.cons.inj hparts).1.symm
      · -- a file of the folder itself has one part, all others have more
        rw [List.disjoint_left]
        intro parts hfile hlower
        obtain ⟨x, _, rfl⟩ := List.mem_map.mp hfile
        obtain ⟨y, hy, hparts⟩ := List.mem_flatMap.mp hlower
        obtain ⟨more, hmore, hparts⟩ := List.mem_map.mp hparts
        obtain ⟨_, inner, _, hbelow⟩ := mem_subfolders.mp (List.mem_mergeSort.mp hy)
        exact ne_nil_of_mem_filesBelow (hbelow ▸ hmore) (List.cons.inj hparts).2

end FileNode

namespace FileTree

variable {t : FileTree} {p q : Path}

/-- What a path has to do with a step is only the text of an error. -/
theorem foldlM_follow_congr {parts place place' : List LooseText}
    (h : parts.foldlM (t.follow p) place = .ok place') :
    parts.foldlM (t.follow q) place = .ok place' := by
  induction parts generalizing place with
  | nil => exact h
  | cons part parts ih =>
      rw [List.foldlM_cons] at h ⊢
      obtain ⟨next, hnext, h⟩ := bind_eq_ok.mp h
      apply bind_eq_ok.mpr
      refine ⟨next, ?_, ih h⟩
      rw [follow] at hnext ⊢
      split at hnext
      · contradiction
      · contradiction
      · exact hnext

theorem foldlM_follow_of_at? {parts place : List LooseText} {n : FileNode} {f : File}
    (hplace : t.nodeAt? place = some n) (hup : (".." : LooseText) ∉ parts)
    (hf : n.at? parts = some (.file f)) :
    parts.foldlM (t.follow p) place = .ok (place ++ parts) := by
  induction parts generalizing place n with
  | nil =>
      rw [List.append_nil]
      rfl
  | cons name parts ih =>
      rw [List.mem_cons, not_or] at hup
      rw [FileNode.at?_cons] at hf
      obtain ⟨m, hm, hfile⟩ := Option.bind_eq_some_iff.mp hf
      cases n with
      | file g => simp [FileNode.entries, Entries.get?] at hm
      | folder entries =>
          have hnext : t.nodeAt? (place ++ [name]) = some m := by
            rw [nodeAt?] at hplace ⊢
            rw [FileNode.at?_append, hplace, Option.bind_some, FileNode.at?_cons, hm]
            rfl
          have hstep : t.follow p place name = .ok (place ++ [name]) := by
            rw [follow, hplace]
            simp only [if_neg (Ne.symm hup.1)]
          rw [List.foldlM_cons, hstep]
          show parts.foldlM (t.follow p) (place ++ [name]) = _
          rw [ih hnext hup.2 hfile, List.append_assoc, List.singleton_append]

theorem file?_of_at? (ht : t.root.WellNamed) {n : FileNode} (hn : t.node p = .ok n)
    {parts : List LooseText} {f : File} (hf : n.at? parts = some (.file f)) :
    t.file? { p with parts := p.parts ++ parts } = some f := by
  obtain ⟨place, hplace, hnode⟩ := bind_eq_ok.mp hn
  split at hnode
  · next m hm =>
      obtain rfl := Except.ok.inj hnode
      have hreached : t.place { p with parts := p.parts ++ parts } = .ok (place ++ parts) := by
        rw [FileTree.place, List.foldlM_append]
        exact bind_eq_ok.mpr ⟨place, foldlM_follow_congr hplace,
          foldlM_follow_of_at? hm ((ht.at? hm).up_not_mem hf) hf⟩
      have hthere : t.nodeAt? (place ++ parts) = some (.file f) := by
        rw [nodeAt?] at hm ⊢
        rw [FileNode.at?_append, hm]
        exact hf
      refine file?_eq_some.mpr (bind_eq_ok.mpr ⟨_, hreached, ?_⟩)
      rw [hthere]
      rfl
  · contradiction

theorem wellNamed_of_node (ht : t.root.WellNamed) {n : FileNode} (hn : t.node p = .ok n) :
    n.WellNamed := by
  obtain ⟨place, _, hn⟩ := bind_eq_ok.mp hn
  split at hn
  · next m hm => exact Except.ok.inj hn ▸ ht.at? hm
  · contradiction

theorem exists_file?_of_mem_filesUnder (ht : t.root.WellNamed) {paths : List LooseText}
    (hp : p ∈ t.filesUnder paths) : ∃ f, t.file? p = some f := by
  obtain ⟨s, _, hp⟩ := List.mem_flatMap.mp hp
  rw [filesAt] at hp
  split at hp
  · contradiction
  · next f hf =>
      rw [List.mem_singleton.mp hp]
      exact ⟨f, file?_eq_some.mpr hf⟩
  · next n hne hn =>
      obtain ⟨parts, hparts, rfl⟩ := List.mem_map.mp hp
      cases n with
      | file f => exact absurd rfl (hne f)
      | folder entries =>
          obtain ⟨⟨f, hf⟩, _⟩ := (wellNamed_of_node ht hn).mem_filesBelow.mp hparts
          exact ⟨f, file?_of_at? ht hn hf⟩

/-! ## Files at several paths -/

theorem nodup_filesAt (ht : t.root.WellNamed) (p : Path) : (t.filesAt p).Nodup := by
  rw [filesAt]
  split
  · exact List.nodup_nil
  · exact List.nodup_singleton p
  · next n _ hn =>
      refine (wellNamed_of_node ht hn).nodup_filesBelow.map fun a b hab => ?_
      exact List.append_cancel_left (congrArg Path.parts hab)

def visits (t : FileTree) (paths : List LooseText) (p : Path) : Nat :=
  paths.countP fun s => decide (p ∈ t.filesAt (Path.ofText s))

theorem count_filesUnder (ht : t.root.WellNamed) (paths : List LooseText) (p : Path) :
    (t.filesUnder paths).count p = t.visits paths p := by
  rw [filesUnder, visits]
  refine countP_flatMap_of_once fun s _ => ?_
  rw [← List.count, (nodup_filesAt ht _).count]
  simp

end FileTree

end Kouetsu
