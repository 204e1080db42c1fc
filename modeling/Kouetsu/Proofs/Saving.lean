import Kouetsu.Proofreading.Paths
import Kouetsu.Proofs.Cache
import Kouetsu.Proofs.File.Tree
import Kouetsu.Proofs.Issue
/-!
# Saving the cache

What becomes of the file of the cache depends on three things: whether the records can be written,
whether the file can be, and whether a lone half stands in a name or a record.
-/

namespace Kouetsu

namespace Cache

variable {c : Cache} {digest : String} {checked : List Checked}

theorem mem_recordAll {x : LooseText × Json.Node} (hx : x ∈ c.recordAll digest checked) :
    x ∈ c ∨ ∃ y ∈ checked,
      x = (y.1.key, record y.1.fingerprint digest (y.2.map Issue.toNode)) := by
  induction checked generalizing c with
  | nil => exact Or.inl hx
  | cons y checked ih =>
      rcases ih hx with hstored | ⟨z, hz, hxz⟩
      · rcases Entries.mem_insert hstored with hnew | hold
        · exact Or.inr ⟨y, List.mem_cons_self, hnew⟩
        · exact Or.inl hold
      · exact Or.inr ⟨z, List.mem_cons_of_mem y hz, hxz⟩

theorem get?_recordAll_of_not_mem {key : LooseText} (h : ∀ x ∈ checked, x.1.key ≠ key) :
    Entries.get? (c.recordAll digest checked) key = Entries.get? c key := by
  induction checked generalizing c with
  | nil => rfl
  | cons x checked ih =>
      have hrest := ih (c := c.store x.1.key x.1.fingerprint digest (x.2.map Issue.toNode))
        fun y hy => h y (List.mem_cons_of_mem x hy)
      refine hrest.trans ?_
      rw [store, Entries.get?_insert, if_neg (h x List.mem_cons_self)]

/-- Each checked file has a record, that of the last check under its key. -/
theorem exists_get?_recordAll (c : Cache) (digest : String) {x : Checked} (hx : x ∈ checked) :
    ∃ y ∈ checked, y.1.key = x.1.key ∧ Entries.get? (c.recordAll digest checked) x.1.key =
      some (record y.1.fingerprint digest (y.2.map Issue.toNode)) := by
  induction checked generalizing c x with
  | nil => contradiction
  | cons y checked ih =>
      by_cases hlater : ∃ z ∈ checked, z.1.key = x.1.key
      · obtain ⟨z, hz, hkey⟩ := hlater
        obtain ⟨w, hw, hwkey, hrecord⟩ :=
          ih (c.store y.1.key y.1.fingerprint digest (y.2.map Issue.toNode)) hz
        exact ⟨w, List.mem_cons_of_mem y hw, hwkey.trans hkey, hkey ▸ hrecord⟩
      · have hnone : ∀ z ∈ checked, z.1.key ≠ x.1.key := fun z hz hkey => hlater ⟨z, hz, hkey⟩
        obtain rfl : x = y := (List.mem_cons.mp hx).resolve_right fun hx => hnone x hx rfl
        refine ⟨x, List.mem_cons_self, rfl, (get?_recordAll_of_not_mem hnone).trans ?_⟩
        show Entries.get? (Entries.insert _ _ c) _ = _
        rw [Entries.get?_insert, if_pos rfl]

theorem nodup_keys_recordAll (h : c.keys.Nodup) (digest : String) (checked : List Checked) :
    (c.recordAll digest checked).keys.Nodup := by
  induction checked generalizing c with
  | nil => exact h
  | cons x checked ih => exact ih (Entries.nodup_keys_insert h _ _)

theorem Storable.recordAll (hc : c.Storable) (digest : String)
    (hchecked : ∀ x ∈ checked, ∀ i ∈ x.2, i.Plain) : (c.recordAll digest checked).Storable := by
  induction checked generalizing c with
  | nil => exact hc
  | cons x checked ih =>
      refine ih (hc.store _ _ _ fun n hn => ?_) fun y hy =>
        hchecked y (List.mem_cons_of_mem x hy)
      obtain ⟨i, hi, rfl⟩ := List.mem_map.mp hn
      exact (hchecked x List.mem_cons_self i hi).storable_toNode

/-- A record of issues in one file holds a half only if the name of the file does. -/
theorem exists_ofValue_eq_record {key : LooseText} {issues : List Issue}
    (hfile : ∀ i ∈ issues, i.file = .text key) (hkey : ∃ s : String, key = s)
    (fingerprint digest : String) :
    ∃ v, .ofValue v = record fingerprint digest (issues.map Issue.toNode) := by
  rw [exists_ofValue_eq_record_iff, List.forall_mem_map]
  intro i hi
  rw [Issue.exists_ofValue_eq_toNode_iff, hfile i hi]
  exact Json.Node.exists_ofValue_eq_text_iff.mpr hkey

/-- The text of a cache with new records has an encoding exactly if no half stands in the names of
the new records or in what is kept of the old ones. -/
theorem encodable_recordAll_iff (hkeys : c.keys.Nodup)
    (hfile : ∀ x ∈ checked, ∀ i ∈ x.2, i.file = .text x.1.key) :
    (c.recordAll digest checked).Encodable ↔ (∀ x ∈ checked, ∃ s : String, x.1.key = s) ∧
      ∀ x ∈ c, (∀ y ∈ checked, y.1.key ≠ x.1) →
        (∃ s : String, x.1 = s) ∧ ∃ v, Json.Node.ofValue v = x.2 := by
  constructor
  · intro h
    constructor
    · intro x hx
      obtain ⟨y, _, _, hrecord⟩ := exists_get?_recordAll c digest hx
      exact (h _ (Entries.mem_of_get?_eq_some hrecord)).1
    · intro x hx hkept
      refine h x (Entries.mem_of_get?_eq_some ?_)
      rw [get?_recordAll_of_not_mem hkept, Entries.get?_eq_some_of_mem hkeys hx]
  · rintro ⟨hnew, hold⟩ x hx
    by_cases hkey : ∃ y ∈ checked, y.1.key = x.1
    · obtain ⟨y, hy, hkey⟩ := hkey
      obtain ⟨z, hz, hzkey, hrecord⟩ := exists_get?_recordAll c digest hy
      rw [hkey, Entries.get?_eq_some_of_mem (nodup_keys_recordAll hkeys _ _) hx] at hrecord
      rw [← hkey, Option.some.inj hrecord]
      exact ⟨hnew y hy, exists_ofValue_eq_record (hfile z hz) (hnew z hz) _ _⟩
    · have hkept : ∀ y ∈ checked, y.1.key ≠ x.1 := fun y hy hyx => hkey ⟨y, hy, hyx⟩
      refine hold x ((mem_recordAll hx).resolve_right ?_) hkept
      rintro ⟨y, hy, rfl⟩
      exact hkept y hy rfl

end Cache

namespace Proofreader

variable {t : FileTree} {c : Cache} {text : LooseText}

theorem saveCache_unwritable {w : Json.WriteError} (h : c.text = .error w) (t : FileTree) :
    saveCache t c = .error (.cache w) := by
  rw [saveCache, h]
  rfl

theorem saveCache_eq (h : c.text = .ok text) : saveCache t c =
    match t.write Cache.path { content := (text.encode.toOption.getD "").toUTF8 },
      text.encode with
    | .error _, _ => .ok t
    | .ok t', .ok _ => .ok t'
    | .ok t', .error e => .error (.encoding e t') := by
  rw [saveCache, h]
  rfl

/-- Where the file of the cache cannot be written it stays as it is. -/
theorem saveCache_closed (h : c.text = .ok text) (hclosed : ¬t.Writable Cache.path) :
    saveCache t c = .ok t := by
  rw [saveCache_eq h]
  split
  · rfl
  · next hwrite _ => exact absurd ((FileTree.writable_iff _).mpr ⟨_, hwrite⟩) hclosed
  · next hwrite _ => exact absurd ((FileTree.writable_iff _).mpr ⟨_, hwrite⟩) hclosed

theorem saveCache_encodable (h : c.text = .ok text) (hc : c.Encodable)
    (hwritable : t.Writable Cache.path) :
    ∃ t', t.write Cache.path { content := c.bytes } = .ok t' ∧ saveCache t c = .ok t' := by
  have hencode := (Cache.encode_text h).mpr ⟨hc, rfl⟩
  obtain ⟨t', ht'⟩ := (FileTree.writable_iff { content := c.bytes }).mp hwritable
  refine ⟨t', ht', ?_⟩
  rw [Cache.bytes] at ht'
  simp only [saveCache_eq h, hencode, Except.toOption, Option.getD_some, ht']

theorem saveCache_loose (h : c.text = .ok text) (hc : ¬c.Encodable)
    (hwritable : t.Writable Cache.path) :
    ∃ e t', t.write Cache.path { content := "".toUTF8 } = .ok t' ∧
      saveCache t c = .error (.encoding e t') := by
  obtain ⟨e, hencode⟩ : ∃ e, text.encode = .error e := by
    cases hencode : text.encode with
    | error e => exact ⟨e, rfl⟩
    | ok s => exact absurd ((Cache.encode_text h).mp hencode).1 hc
  obtain ⟨t', ht'⟩ := (FileTree.writable_iff { content := "".toUTF8 }).mp hwritable
  refine ⟨e, t', ht', ?_⟩
  simp only [saveCache_eq h, hencode, Except.toOption, Option.getD_none, ht']

def NamesHalf (checked : List Checked) : Prop := ∃ x ∈ checked, x.1.key.string? = none

theorem not_namesHalf_iff {checked : List Checked} :
    ¬NamesHalf checked ↔ ∀ x ∈ checked, ∃ s : String, x.1.key = s := by
  simp only [NamesHalf, not_exists, not_and, ← ne_eq, Option.ne_none_iff_exists',
    LooseText.string?_eq_some]

/-- How a cache without halves is saved with the records of checked files. -/
theorem saveCache_recordAll (hstorable : c.Storable) (hencodable : c.Encodable)
    {checked : List Checked} (hplain : ∀ x ∈ checked, ∀ i ∈ x.2, i.Plain ∧ i.file = .text x.1.key)
    (digest : String) (t : FileTree) :
    (t.Writable Cache.path ∧ NamesHalf checked ∧ ∃ e t',
      t.write Cache.path { content := "".toUTF8 } = .ok t' ∧
        saveCache t (c.recordAll digest checked) = .error (.encoding e t')) ∨
      ¬(t.Writable Cache.path ∧ NamesHalf checked) ∧ ∃ t',
        saveCache t (c.recordAll digest checked) = .ok t' ∧
          (t' = t ∨ (c.recordAll digest checked).Encodable ∧
            t.write Cache.path { content := (c.recordAll digest checked).bytes } = .ok t') := by
  have hrecorded := hstorable.recordAll digest fun x hx i hi => (hplain x hx i hi).1
  have hnames : (c.recordAll digest checked).Encodable ↔ ¬NamesHalf checked := by
    rw [Cache.encodable_recordAll_iff hstorable.keys fun x hx i hi => (hplain x hx i hi).2,
      not_namesHalf_iff]
    exact and_iff_left fun x hx _ => hencodable x hx
  obtain ⟨text, htext⟩ := Cache.exists_text_iff.mpr fun x hx =>
    Json.firstUnwritable?_eq_none (hrecorded.records x hx).shown
  by_cases hwritable : t.Writable Cache.path
  · by_cases hhalf : NamesHalf checked
    · exact Or.inl ⟨hwritable, hhalf, saveCache_loose htext (fun h => hnames.mp h hhalf) hwritable⟩
    · have henc := hnames.mpr hhalf
      obtain ⟨t', hwrite, hsave⟩ := saveCache_encodable htext henc hwritable
      exact Or.inr ⟨fun h => hhalf h.2, t', hsave, Or.inr ⟨henc, hwrite⟩⟩
  · exact Or.inr ⟨fun h => hwritable h.1, t, saveCache_closed htext hwritable, Or.inl rfl⟩

end Proofreader

end Kouetsu
