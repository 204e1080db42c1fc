import Kouetsu.Proofs.Json.Read
/-!
# Documents that are read

A document is read back as it was if none of its integers has too many digits.
-/

namespace Kouetsu

/-- Values of texts, integers that are not too long, lists, and records whose keys are distinct. -/
inductive Value.Readable : Value → Prop
  | str (s : String) : Readable (.str s)
  | int {n : Int} (hn : (Nat.toDigits 10 n.natAbs).length ≤ maxIntegerDigits) : Readable (.int n)
  | list {items : List Value} (hitems : ∀ v ∈ items, Readable v) : Readable (.list items)
  | record {entries : Entries String Value} (hkeys : entries.keys.Nodup)
      (hvalues : ∀ x ∈ entries, Readable x.2) : Readable (.record entries)

theorem Value.Readable.storable {v : Value} (h : v.Readable) : v.Storable := by
  induction h with
  | str s => exact .str s
  | int _ => exact .int _
  | list _ ih => exact .list ih
  | record hkeys _ ih => exact .record hkeys ih

namespace Json

theorem magnitude_eq {negative : Bool} {n : Nat} {rest : Text} (hrest : EndsNumber rest)
    (hn : (Nat.toDigits 10 n).length ≤ maxIntegerDigits) :
    magnitude negative (Nat.toDigits 10 n ++ rest) =
      .ok (.int (if negative then -(n : Int) else n), rest) := by
  have hne : (Nat.toDigits 10 n).isEmpty = false := by simp
  rw [magnitude, wholePart_toDigits hrest]
  simp only [hne, Bool.false_eq_true, if_false, fractionPart_eq_none hrest, Option.map_none,
    Option.getD_none, exponentPart_eq_none hrest, digitsOf_toDigits, Nat.not_lt.mpr hn]

theorem value_int {fuel : Nat} {n : Int} {rest : Text} (hrest : EndsNumber rest)
    (hn : (Nat.toDigits 10 n.natAbs).length ≤ maxIntegerDigits) :
    value (fuel + 1) (n.repr.toList ++ rest) = .ok (.int n, rest) := by
  obtain ⟨d, ds, hds, hd⟩ := exists_cons_toDigits n.natAbs
  have hne (e : Char) (he : isAsciiDigit e = false) : d ≠ e := ne_of_isAsciiDigit hd he
  have hvalue : ∃ w, value (fuel + 1) (n.repr.toList ++ rest) = .ok (w, rest) := by
    rw [toList_repr]
    by_cases hneg : n < 0
    · rw [if_pos hneg, hds, List.append_assoc, List.singleton_append, List.cons_append,
        value_number (by decide) (by decide) (by decide) (word?_digit hd _).2, if_pos rfl,
        ← List.cons_append, ← hds]
      exact ⟨_, magnitude_eq hrest hn⟩
    · rw [if_neg hneg, hds, List.nil_append, List.cons_append,
        value_number (hne '"' rfl) (hne '[' rfl) (hne '\x7b' rfl) (word?_digit hd _).1,
        if_neg (hne '-' rfl), ← List.cons_append, ← hds]
      exact ⟨_, magnitude_eq hrest hn⟩
  obtain ⟨w, hw⟩ := hvalue
  rw [hw, (value_repr hrest hw).1]

/-- With fuel for twice the characters, what was written is read. -/
structure Reads (fuel : Nat) : Prop where
  value : ∀ {v : Value} {depth : Nat} {rest : Text}, v.Readable → Follows rest →
    2 * ((writeAt .indented depth v).toList ++ rest).length < fuel →
      Json.value fuel ((writeAt .indented depth v).toList ++ rest) = .ok (.ofValue v, rest)
  items : ∀ {acc : List Node} {vs : List Value} {v : Value} {depth : Nat} {rest : Text},
    v.Readable → (∀ v ∈ vs, v.Readable) →
      2 * ((writeAt .indented (depth + 1) v).toList ++ itemsTail depth vs rest).length + 1 < fuel →
        Json.items fuel acc ((writeAt .indented (depth + 1) v).toList ++
          itemsTail depth vs rest) = .ok (.list (acc.reverse ++ (v :: vs).map .ofValue), rest)
  members : ∀ {acc xs : Entries String Value} {x : String × Value} {depth : Nat} {rest : Text},
    (acc ++ x :: xs).keys.Nodup → x.2.Readable → (∀ x ∈ xs, x.2.Readable) →
      2 * ((writeEntry .indented (depth + 1) (.str x.1, x.2)).toList ++
        membersTail depth xs rest).length + 1 < fuel →
          Json.members fuel (entryNodes acc)
            ((writeEntry .indented (depth + 1) (.str x.1, x.2)).toList ++
              membersTail depth xs rest) = .ok (.ofValue (.record (acc ++ x :: xs)), rest)

namespace Reads

variable {fuel : Nat}

theorem value_succ (ih : Reads fuel) {v : Value} {depth : Nat} {rest : Text} (hv : v.Readable)
    (hrest : Follows rest)
    (hfuel : 2 * ((writeAt .indented depth v).toList ++ rest).length < fuel + 1) :
    Json.value (fuel + 1) ((writeAt .indented depth v).toList ++ rest) =
      .ok (.ofValue v, rest) := by
  cases hv with
  | str s => exact value_str s
  | int hn => exact value_int hrest.endsNumber hn
  | @list vs hvs =>
      cases vs with
      | nil => exact value_list_nil
      | cons v vs =>
          have hv := hvs v List.mem_cons_self
          rw [value_list_cons hv.storable, Node.ofValue_list]
          refine ih.items hv (fun u hu => hvs u (List.mem_cons_of_mem v hu)) ?_
          rw [toList_writeAt_list, List.length_cons, List.length_append] at hfuel
          omega
  | @record entries hkeys hvalues =>
      cases entries with
      | nil => exact value_record_nil
      | cons x xs =>
          rw [value_record_cons]
          refine ih.members (show ([] ++ x :: xs : Entries String Value).keys.Nodup from hkeys)
            (hvalues x List.mem_cons_self) (fun y hy => hvalues y (List.mem_cons_of_mem x hy)) ?_
          rw [toList_writeAt_record, List.length_cons, List.length_append] at hfuel
          omega

theorem items_succ (ih : Reads fuel) {acc : List Node} {vs : List Value} {v : Value} {depth : Nat}
    {rest : Text} (hv : v.Readable) (hvs : ∀ v ∈ vs, v.Readable)
    (hfuel : 2 * ((writeAt .indented (depth + 1) v).toList ++
      itemsTail depth vs rest).length + 1 < fuel + 1) :
    Json.items (fuel + 1) acc ((writeAt .indented (depth + 1) v).toList ++
      itemsTail depth vs rest) = .ok (.list (acc.reverse ++ (v :: vs).map .ofValue), rest) := by
  rw [items_of_value (fun u hu => (hvs u hu).storable)
    (ih.value hv (follows_itemsTail depth vs rest) (by omega))]
  cases vs with
  | nil => rw [List.reverse_cons, List.map_singleton]
  | cons v' vs =>
      show Json.items fuel (.ofValue v :: acc) _ = _
      rw [ih.items (hvs v' List.mem_cons_self) fun y hy => hvs y (List.mem_cons_of_mem v' hy)]
      · rw [List.reverse_cons, List.append_assoc, List.singleton_append, ← List.map_cons]
      · rw [itemsTail_cons, List.length_append, List.length_cons, List.length_append] at hfuel
        omega

theorem members_succ (ih : Reads fuel) {acc xs : Entries String Value} {x : String × Value}
    {depth : Nat} {rest : Text} (hkeys : (acc ++ x :: xs).keys.Nodup) (hx : x.2.Readable)
    (hxs : ∀ x ∈ xs, x.2.Readable)
    (hfuel : 2 * ((writeEntry .indented (depth + 1) (.str x.1, x.2)).toList ++
      membersTail depth xs rest).length + 1 < fuel + 1) :
    Json.members (fuel + 1) (entryNodes acc)
      ((writeEntry .indented (depth + 1) (.str x.1, x.2)).toList ++ membersTail depth xs rest) =
        .ok (.ofValue (.record (acc ++ x :: xs)), rest) := by
  have hvalue : Json.value fuel ((writeAt .indented (depth + 1) x.2).toList ++
      membersTail depth xs rest) = .ok (.ofValue x.2, membersTail depth xs rest) := by
    apply ih.value hx (follows_membersTail depth xs rest)
    rw [toList_writeEntry] at hfuel
    simp only [List.length_append, List.length_cons] at hfuel ⊢
    omega
  rw [members_of_value hkeys hx.storable hvalue]
  cases xs with
  | nil => rfl
  | cons x' xs =>
      have hkeys' : ((acc ++ [x]) ++ x' :: xs).keys.Nodup := by
        rwa [List.append_assoc, List.singleton_append]
      show Json.members fuel (entryNodes (acc ++ [x])) _ = _
      rw [ih.members hkeys' (hxs x' List.mem_cons_self)
        fun y hy => hxs y (List.mem_cons_of_mem x' hy)]
      · rw [List.append_assoc, List.singleton_append]
      · rw [membersTail_cons, List.length_append, List.length_cons, List.length_append] at hfuel
        omega

end Reads

end Json

end Kouetsu
