import Kouetsu.Proofs.File.Walk
import Kouetsu.Proofs.Sorting
/-!
# The order of a listing

The listing of a folder has the files below it that no passed-over folder holds, each once.  At
every depth the files of a folder come before those of its folders, and names are in order.
-/

namespace Kouetsu

/-- Whether a listing comes to a path below a folder before it comes to another one. -/
inductive ListedBefore : List LooseText → List LooseText → Prop
  | files {a b : LooseText} (h : a < b) : ListedBefore [a] [b]
  | fileFirst {a b : LooseText} {rest : List LooseText} (hrest : rest ≠ []) :
      ListedBefore [a] (b :: rest)
  | folders {a b : LooseText} {rest rest' : List LooseText} (h : a < b) (hrest : rest ≠ [])
      (hrest' : rest' ≠ []) : ListedBefore (a :: rest) (b :: rest')
  | inside {a : LooseText} {rest rest' : List LooseText} (h : ListedBefore rest rest') :
      ListedBefore (a :: rest) (a :: rest')

namespace ListedBefore

theorem ne_nil {a b : List LooseText} (h : ListedBefore a b) : a ≠ [] ∧ b ≠ [] := by
  cases h <;> exact ⟨List.cons_ne_nil _ _, List.cons_ne_nil _ _⟩

/-- No two paths come before each other, so that a listing in this order is the only one of its
paths. -/
theorem asymm {a b : List LooseText} (h : ListedBefore a b) : ¬ListedBefore b a := by
  induction h with
  | files h =>
      rintro (h' | _ | _ | h')
      · exact lt_asymm h h'
      · contradiction
      · contradiction
      · exact h'.ne_nil.1 rfl
  | fileFirst hrest =>
      rintro (_ | _ | ⟨_, _, hnil⟩ | h')
      · contradiction
      · contradiction
      · contradiction
      · exact h'.ne_nil.2 rfl
  | folders h hrest hrest' =>
      rintro (_ | _ | ⟨h', _, _⟩ | h')
      · contradiction
      · contradiction
      · exact lt_asymm h h'
      · exact lt_irrefl _ h
  | inside h ih =>
      rintro (_ | _ | ⟨h', _, _⟩ | h')
      · exact h.ne_nil.1 rfl
      · exact h.ne_nil.2 rfl
      · exact lt_irrefl _ h'
      · exact ih h'

end ListedBefore

namespace FileNode

theorem pairwise_inOrder {α : Type} {xs : List (LooseText × α)} (h : (xs.map (·.1)).Nodup) :
    (inOrder xs).Pairwise fun x y => x.1 < y.1 := by
  have hsorted : (inOrder xs).Pairwise fun x y => x.1 ≤ y.1 := by
    simp only [inOrder, LooseText.le_eq]
    exact pairwise_mergeSort_key xs
  refine (hsorted.and (List.pairwise_map.mp (nodup_inOrder h))).imp fun hxy => ?_
  exact lt_of_le_of_ne hxy.1 hxy.2

theorem WellNamed.pairwise_filesBelow {n : FileNode} (h : n.WellNamed) :
    n.filesBelow.Pairwise ListedBefore := by
  induction h with
  | file f => simp [filesBelow]
  | @folder entries hnames _ _ ih =>
      have hown := pairwise_inOrder (hnames.sublist (sublist_ownFiles entries))
      have hsub := pairwise_inOrder (hnames.sublist (sublist_subfolders entries))
      have hbelow {x : LooseText × List (List LooseText)}
          (hx : x ∈ inOrder (filesBelow.subfolders entries)) :
          ∃ inner, (x.1, .folder inner) ∈ entries ∧ x.2 = filesBelow (.folder inner) :=
        (mem_subfolders.mp (List.mem_mergeSort.mp hx)).2
      rw [filesBelow]
      refine List.pairwise_append.mpr ⟨?_, List.pairwise_flatMap.mpr ⟨fun x hx => ?_, ?_⟩, ?_⟩
      · exact List.pairwise_map.mpr (hown.imp .files)
      · obtain ⟨inner, hinner, heq⟩ := hbelow hx
        rw [heq]
        exact List.pairwise_map.mpr ((ih _ hinner).imp .inside)
      · refine hsub.imp_of_mem fun {x y} hx hy hlt parts hparts parts' hparts' => ?_
        obtain ⟨inner, _, heq⟩ := hbelow hx
        obtain ⟨inner', _, heq'⟩ := hbelow hy
        obtain ⟨more, hmore, rfl⟩ := List.mem_map.mp hparts
        obtain ⟨more', hmore', rfl⟩ := List.mem_map.mp hparts'
        exact .folders hlt (ne_nil_of_mem_filesBelow (heq ▸ hmore))
          (ne_nil_of_mem_filesBelow (heq' ▸ hmore'))
      · intro parts hparts parts' hparts'
        obtain ⟨x, _, rfl⟩ := List.mem_map.mp hparts
        obtain ⟨y, hy, hparts'⟩ := List.mem_flatMap.mp hparts'
        obtain ⟨more, hmore, rfl⟩ := List.mem_map.mp hparts'
        obtain ⟨inner, _, heq⟩ := hbelow hy
        exact .fileFirst (ne_nil_of_mem_filesBelow (heq ▸ hmore))

end FileNode

namespace FileTree

/-- What is listed for a path to a folder: the files below it, in order. -/
structure Listing (t : FileTree) (p : Path) (folder : FileNode) (listed : List (List LooseText)) :
    Prop where
  mem_iff : ∀ parts, parts ∈ listed ↔ (∃ f, folder.at? parts = some (.file f)) ∧
    ∀ name ∈ parts.dropLast, name ∉ skippedFolders
  once : listed.Nodup
  ordered : listed.Pairwise ListedBefore
  leads : ∀ parts f, folder.at? parts = some (.file f) →
    t.file? { p with parts := p.parts ++ parts } = some f

theorem Listing.eq {t : FileTree} {p : Path} {folder : FileNode}
    {listed listed' : List (List LooseText)} (h : t.Listing p folder listed)
    (h' : t.Listing p folder listed') : listed = listed' := by
  have hperm : listed.Perm listed' :=
    (List.perm_ext_iff_of_nodup h.once h'.once).mpr fun parts => by rw [h.mem_iff, h'.mem_iff]
  exact hperm.eq_of_pairwise (fun _ _ _ _ hab hba => absurd hba hab.asymm) h.ordered h'.ordered

/-- A path to a folder stands for the files below the folder, in order, and for nothing else. -/
theorem filesUnder_folder {t : FileTree} (ht : t.root.WellNamed) {s : LooseText} {entries : Folder}
    (hfolder : t.node (Path.ofText s) = .ok (.folder entries)) :
    ∃ listed, t.Listing (Path.ofText s) (.folder entries) listed ∧
      (∀ other, t.Listing (Path.ofText s) (.folder entries) other → other = listed) ∧
      t.filesUnder [s] = listed.map fun parts =>
        { Path.ofText s with parts := (Path.ofText s).parts ++ parts } := by
  have hnamed := wellNamed_of_node ht hfolder
  have hlisting : t.Listing (Path.ofText s) (.folder entries)
      (FileNode.filesBelow (.folder entries)) :=
    ⟨fun _ => hnamed.mem_filesBelow, hnamed.nodup_filesBelow, hnamed.pairwise_filesBelow,
      fun _ _ hf => file?_of_at? ht hfolder hf⟩
  refine ⟨_, hlisting, fun other hother => hother.eq hlisting, ?_⟩
  rw [filesUnder, List.flatMap_singleton, filesAt, hfolder]

/-- Of a folder with a passed-over one in it, the files outside are listed, its own file first. -/
theorem filesUnder_folder_packages :
    let f : File := ⟨"あ".toUTF8, 0⟩
    let inner : Folder := [("a", .folder [("b.md", .file f)]), ("z.md", .file f),
      ("node_modules", .folder [("c.md", .file f)])]
    let t : FileTree := ⟨.folder [("docs", .folder inner), ("d.md", .file f)], []⟩
    t.root.WellNamed ∧ t.node (Path.ofText "docs") = .ok (.folder inner) ∧
      t.filesUnder ["docs"] = [⟨"", ["docs", "z.md"]⟩, ⟨"", ["docs", "a", "b.md"]⟩] ∧
      t.Listing (Path.ofText "docs") (.folder inner) [["z.md"], ["a", "b.md"]] := by
  intro f inner t
  have hfile : FileNode.WellNamed (.file f) := .file f
  have hone (name : LooseText) (hup : ".." ≠ name) :
      FileNode.WellNamed (.folder [(name, .file f)]) :=
    .folder (List.nodup_singleton _) (by simpa [Entries.keys] using hup) (by simpa using hfile)
  have hinner : FileNode.WellNamed (.folder inner) :=
    .folder (by decide) (by decide) (by simp [inner, hfile, hone])
  have hnames : t.root.WellNamed := .folder (by decide) (by decide) (by simp [hinner, hfile])
  have hfolder : t.node (Path.ofText "docs") = .ok (.folder inner) := rfl
  have hwalk : t.filesUnder ["docs"] =
      [⟨"", ["docs", "z.md"]⟩, ⟨"", ["docs", "a", "b.md"]⟩] := by
    decide +kernel
  obtain ⟨listed, hlisting, -, hfiles⟩ := filesUnder_folder hnames hfolder
  have hlisted : listed = ([["z.md"], ["a", "b.md"]] : List (List LooseText)) := by
    have hinj : Function.Injective fun parts : List LooseText =>
        { Path.ofText "docs" with parts := (Path.ofText "docs").parts ++ parts } :=
      fun a b hab => List.append_cancel_left (Path.mk.inj hab).2
    exact List.map_injective_iff.mpr hinj (hfiles.symm.trans hwalk)
  exact ⟨hnames, hfolder, hwalk, hlisted ▸ hlisting⟩

end FileTree

end Kouetsu
