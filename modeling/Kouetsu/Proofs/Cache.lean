import Kouetsu.Cache
import Kouetsu.Proofs.Encoding.Reading
import Kouetsu.Proofs.Json.Document
import Kouetsu.Proofs.Json.Readable
/-!
# Caches that are written and read

A cache without lone halves comes back from its file as it was, or counts as empty.  A record is
found again under its fingerprint and digest only.
-/

namespace Kouetsu

theorem decodeUtf8?_toUTF8 (s : String) : decodeUtf8? s.toUTF8 = some s.toList := by
  rw [show s.toUTF8 = s.toList.utf8Encode from by simp]
  exact decodeUtf8?_utf8Encode s.toList

namespace Cache

variable {c : Cache}

/-! ## The text of a cache -/

/-- A cache whose text has an encoding: no name and no record holds a half. -/
def Encodable (c : Cache) : Prop :=
  ∀ x ∈ c, (∃ s : String, x.1 = s) ∧ ∃ v, Json.Node.ofValue v = x.2

theorem shown_toNode (c : Cache) : c.toNode.shown = .record [("version", .scalar version),
    ("files", .record (c.map fun x => (x.1.shown, x.2.shown)))] := by
  have hfiles : (Json.Node.map (c.map fun x => (.ofText x.1, x.2))).shown =
      .record (c.map fun x => (x.1.shown, x.2.shown)) := by
    rw [Json.Node.shown_map, Value.record, List.map_map, List.map_map]
    simp only [Function.comp_def, Json.Leaf.shown_ofText]
  rw [toNode, Json.Node.shown_record, List.map_cons, List.map_singleton]
  simp only [hfiles]
  rfl

theorem exists_ofValue_eq_toNode_iff : (∃ v, .ofValue v = c.toNode) ↔ c.Encodable := by
  rw [toNode, Json.Node.exists_ofValue_eq_record_iff, List.forall_mem_cons,
    and_iff_right ⟨.scalar version, rfl⟩, List.forall_mem_singleton,
    Json.Node.exists_ofValue_eq_map_iff, List.forall_mem_map]
  exact forall₂_congr fun x _ => and_congr_left' Json.Leaf.exists_plain_eq_ofText_iff

theorem exists_text_iff :
    (∃ t, c.text = .ok t) ↔ ∀ x ∈ c, Json.firstUnwritable? x.2.shown = none := by
  have hshown : Json.firstUnwritable? c.toNode.shown = none ↔
      ∀ x ∈ c, Json.firstUnwritable? x.2.shown = none := by
    rw [shown_toNode, Json.firstUnwritable?_record, List.forall_mem_cons,
      and_iff_right (show Json.firstUnwritable? (.scalar version) = none from rfl),
      List.forall_mem_singleton, Json.firstUnwritable?_record, List.forall_mem_map]
  rw [← hshown, text, Json.writeNodeStrict]
  cases Json.firstUnwritable? c.toNode.shown <;> simp

/-- The text of a cache has an encoding exactly if no half stands in it. -/
theorem encode_text {t : LooseText} (h : c.text = .ok t) {s : String} :
    t.encode = .ok s ↔ c.Encodable ∧ Json.write .indented c.toNode.shown = s := by
  have ht : Json.writeNode 0 c.toNode = t := by
    rw [text, Json.writeNodeStrict] at h
    split at h
    · contradiction
    · exact Except.ok.inj h
  rw [← ht, Json.encode_writeNode_eq_ok, ← exists_ofValue_eq_toNode_iff]
  constructor
  · rintro ⟨v, hv, rfl⟩
    rw [← hv, Json.Node.shown_ofValue]
    exact ⟨⟨v, rfl⟩, rfl⟩
  · rintro ⟨⟨v, hv⟩, rfl⟩
    rw [← hv, Json.Node.shown_ofValue]
    exact ⟨v, rfl, rfl⟩

theorem ofNode_toNode (c : Cache) : ofNode c.toNode = c := by
  have hversion : c.toNode.get? "version" = some (.leaf (.plain version)) := rfl
  have hfiles : c.toNode.get? "files" = some (.map (c.map fun x => (.ofText x.1, x.2))) := rfl
  simp only [ofNode, hversion, hfiles]
  rw [if_pos (show (Json.Leaf.plain version).shown.same version = true from rfl),
    List.filterMap_map]
  simp

def bytes (c : Cache) : ByteArray := (Json.write .indented c.toNode.shown).toUTF8

/-! ## Caches that come back -/

structure Storable (c : Cache) : Prop where
  keys : c.keys.Nodup
  records : ∀ x ∈ c, x.2.Storable

theorem Encodable.nodup_shown (h : c.Encodable) (hkeys : c.keys.Nodup) :
    (Entries.keys (c.map fun x => (x.1.shown, x.2.shown))).Nodup := by
  have hback : (Entries.keys (c.map fun x => (x.1.shown, x.2.shown))).map LooseText.ofString =
      c.keys := by
    rw [Entries.keys, Entries.keys, List.map_map, List.map_map]
    refine List.map_congr_left fun x hx => ?_
    obtain ⟨⟨s, hs⟩, _⟩ := h x hx
    simp [hs]
  exact List.Nodup.of_map LooseText.ofString (hback ▸ hkeys)

/-- A cache comes back from its file, unless the file cannot be read. -/
theorem decode_bytes (hc : c.Storable) (h : c.Encodable) :
    decode (some c.bytes) = c ∨ decode (some c.bytes) = [] := by
  have hstorable : c.toNode.shown.Storable := by
    rw [shown_toNode]
    refine .record (show ["version", "files"].Nodup by decide) fun x hx => ?_
    simp only [List.mem_cons, List.not_mem_nil, or_false] at hx
    rcases hx with rfl | rfl
    · exact .int 1
    · exact .record (h.nodup_shown hc.keys)
        (List.forall_mem_map.mpr fun x hx => (hc.records x hx).shown)
  obtain ⟨v, hv⟩ := exists_ofValue_eq_toNode_iff.mpr h
  rw [decode, Option.bind_some, bytes, decodeUtf8?_toUTF8]
  simp only
  split
  · next n hn =>
      have hback := Json.eq_of_readNode_write hstorable hn
      rw [← hv, Json.Node.shown_ofValue, hv] at hback
      rw [hback, ofNode_toNode]
      exact Or.inl rfl
  · exact Or.inr rfl

theorem decode_empty : decode (some "".toUTF8) = [] := by
  decide

theorem storable_record (fingerprint digest : String) {issues : List Json.Node}
    (h : ∀ n ∈ issues, n.Storable) : (record fingerprint digest issues).Storable := by
  refine .record (show ["fingerprint", "digest", "issues"].Nodup by decide) fun x hx => ?_
  simp only [List.mem_cons, List.not_mem_nil, or_false] at hx
  rcases hx with rfl | rfl | rfl
  · exact .str fingerprint
  · exact .str digest
  · exact .list h

theorem exists_ofValue_eq_record_iff {fingerprint digest : String} {issues : List Json.Node} :
    (∃ v, .ofValue v = record fingerprint digest issues) ↔ ∀ n ∈ issues, ∃ v, .ofValue v = n := by
  rw [record, Json.Node.exists_ofValue_eq_record_iff, List.forall_mem_cons,
    and_iff_right ⟨.str fingerprint, rfl⟩, List.forall_mem_cons, and_iff_right ⟨.str digest, rfl⟩,
    List.forall_mem_singleton, Json.Node.exists_ofValue_eq_list_iff]

theorem Storable.store (hc : c.Storable) (key : LooseText) (fingerprint digest : String)
    {issues : List Json.Node} (h : ∀ n ∈ issues, n.Storable) :
    (c.store key fingerprint digest issues).Storable where
  keys := Entries.nodup_keys_insert hc.keys _ _
  records x hx := by
    rcases Entries.mem_insert hx with rfl | hx
    · exact storable_record fingerprint digest h
    · exact hc.records x hx

/-- Issues are found under the fingerprint and the digest of their record. -/
theorem lookup_record {key : LooseText} {f d fingerprint digest : String}
    {is issues : List Json.Node} (hrecord : Entries.get? c key = some (record f d is))
    (h : c.lookup key fingerprint digest = some issues) :
    f = fingerprint ∧ d = digest ∧ is = issues := by
  rw [lookup, hrecord] at h
  have hfound : (if decide (fingerprint = f) && decide (digest = d) then some is else none) =
      some issues := h
  split at hfound
  · next heq =>
      rw [Bool.and_eq_true, decide_eq_true_eq, decide_eq_true_eq] at heq
      exact ⟨heq.1.symm, heq.2.symm, Option.some.inj hfound⟩
  · simp at hfound

theorem exists_get?_of_lookup {key : LooseText} {fingerprint digest : String}
    {issues : List Json.Node} (h : c.lookup key fingerprint digest = some issues) :
    ∃ n, Entries.get? c key = some n := by
  rw [lookup] at h
  obtain ⟨n, hn, _⟩ := Option.bind_eq_some_iff.mp h
  exact ⟨n, hn⟩

/-! ## Caches of any file -/

/-- A cache with one record for each file, as it may be read from a JSON text. -/
structure Documented (c : Cache) : Prop where
  keys : c.keys.Nodup
  records : ∀ x ∈ c, x.2.IsDocument

theorem documented_nil : Documented [] := ⟨List.nodup_nil, by simp⟩

theorem documented_ofNode {n : Json.Node} (hn : n.IsDocument) : (ofNode n).Documented := by
  unfold ofNode
  split
  · next found entries _ hfiles =>
      split
      · cases hn with
        | leaf _ => cases hfiles
        | list _ => cases hfiles
        | @map parts _ hparts =>
            have hmem := Entries.mem_of_get?_eq_some hfiles
            obtain ⟨y, hy, heq⟩ := List.mem_map.mp hmem
            have hdocument := hparts y hy
            rw [(Prod.mk.inj heq).2] at hdocument
            cases hdocument with
            | @map records hkeys hrecords =>
                have hsame : (records.map fun x => (Json.Leaf.ofText x.1, x.2)).filterMap
                    (fun x => x.1.text?.map fun key => (key, x.2)) = records := by
                  rw [List.filterMap_map]
                  simp
                exact hsame.symm ▸ ⟨hkeys, hrecords⟩
      · exact documented_nil
  · exact documented_nil

/-- Whatever a file holds, its cache has one record for each file, and they can be written again. -/
theorem documented_decode (content : Option ByteArray) : (decode content).Documented := by
  unfold decode
  split
  · exact documented_nil
  · split
    · next n hn => exact documented_ofNode (Json.isDocument_of_readNode hn)
    · exact documented_nil

end Cache

end Kouetsu
