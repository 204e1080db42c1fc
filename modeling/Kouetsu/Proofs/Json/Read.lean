import Kouetsu.Json.Parser
import Kouetsu.Proofs.Entries
import Kouetsu.Proofs.Json.Node
import Kouetsu.Proofs.Traverse
import Mathlib.Tactic.IntervalCases
/-!
# Reading what was written

A document that holds texts, integers, lists and records in the indented layout is read back as it
was, if it is read at all: integers may be too long.
-/

namespace Kouetsu

namespace Json

/-! ## Strings -/

theorem unicodeEscape?_hexPadded {n : Nat} (h : n < 0x20) (rest : Text) :
    unicodeEscape? (hexPadded 4 n ++ rest) = some (.char (Char.ofNat n), rest) := by
  interval_cases n <;> rfl

theorem stringBody_escapeChar (fuel : Nat) (acc : LooseText) (c : Char) (rest : Text) :
    stringBody (fuel + 1) acc (escapeChar c ++ rest) = stringBody fuel (.char c :: acc) rest := by
  have hescaped := escaped_escapeChar c
  generalize escapeChar c = t at hescaped ⊢
  cases hescaped with
  | mark h =>
      simp only [List.mem_cons, Prod.mk.injEq, List.not_mem_nil, or_false] at h
      rcases h with ⟨rfl, rfl⟩ | ⟨rfl, rfl⟩ | ⟨rfl, rfl⟩ | ⟨rfl, rfl⟩ | ⟨rfl, rfl⟩ | ⟨rfl, rfl⟩ |
        ⟨rfl, rfl⟩ <;> rfl
  | control h =>
      simp only [stringBody, List.cons_append, if_false, if_true, Char.reduceEq,
        unicodeEscape?_hexPadded h, Char.ofNat_toNat]
  | plain h hquote hslash =>
      simp only [stringBody, List.singleton_append, hquote, hslash, if_false, Nat.not_lt.mpr h]

theorem stringBody_flatMap (s : Text) (fuel : Nat) (acc : LooseText) (rest : Text)
    (h : s.length < fuel) :
    stringBody fuel acc (s.flatMap escapeChar ++ '"' :: rest) =
      some (acc.reverse ++ LooseText.ofText s, rest) := by
  induction s generalizing fuel acc with
  | nil =>
      obtain ⟨fuel, rfl⟩ : ∃ n, fuel = n + 1 := ⟨fuel - 1, by simp at h; omega⟩
      simp [stringBody, LooseText.ofText]
  | cons c s ih =>
      obtain ⟨fuel, rfl⟩ : ∃ n, fuel = n + 1 := ⟨fuel - 1, by simp at h; omega⟩
      rw [List.flatMap_cons, List.append_assoc, stringBody_escapeChar,
        ih fuel _ (by simpa using h), List.reverse_cons, List.append_assoc]
      rfl

theorem toList_writeString (s : String) :
    (writeString s).toList = '"' :: (s.toList.flatMap escapeChar ++ ['"']) := by
  rw [writeString, String.toList_ofList, List.cons_append]

theorem string?_flatMap (s : String) (rest : Text) :
    string? (s.toList.flatMap escapeChar ++ '"' :: rest) = some (.ofString s, rest) := by
  have hlen (t : Text) : t.length ≤ (t.flatMap escapeChar).length := by
    induction t with
    | nil => exact Nat.le_refl _
    | cons c t ih =>
        have hpos : 0 < (escapeChar c).length := by
          have hescaped := escaped_escapeChar c
          generalize escapeChar c = u at hescaped ⊢
          cases hescaped <;> exact Nat.succ_pos _
        rw [List.flatMap_cons, List.length_append, List.length_cons]
        omega
  have hfuel := hlen s.toList
  rw [string?, stringBody_flatMap _ _ _ _ (by rw [List.length_append]; omega), List.reverse_nil,
    List.nil_append]
  rfl

theorem eq_of_writeString {s s' : String} {rest rest' : Text}
    (h : (writeString s).toList ++ rest = (writeString s').toList ++ rest') :
    s = s' ∧ rest = rest' := by
  rw [toList_writeString, toList_writeString, List.cons_append, List.cons_append,
    List.append_assoc, List.append_assoc, List.cons.injEq] at h
  have hread := string?_flatMap s rest
  rw [show s.toList.flatMap escapeChar ++ '"' :: rest = _ from h.2] at hread
  simpa [eq_comm] using (string?_flatMap s' rest').symm.trans hread

/-! ## Integers -/

theorem digitsOf_toDigits (n : Nat) : digitsOf (Nat.toDigits 10 n) = n := by
  have h := Nat.ofDigitChars_ten_toDigits (n := n)
  rw [Nat.ofDigitChars_eq_foldl] at h
  rw [digitsOf, ofDigits, List.foldl_map]
  exact h

theorem head?_toDigits {n : Nat} (hn : 0 < n) : (Nat.toDigits 10 n).head? ≠ some '0' := by
  induction n using Nat.strongRecOn with
  | _ n ih =>
      rw [Nat.toDigits_eq_if (by decide)]
      split
      · next hlt =>
          have hdigit : ∀ d < 10, 0 < d → d.digitChar ≠ '0' := by decide
          simpa using hdigit n hlt hn
      · have hrest := ih (n / 10) (by omega) (by omega)
        cases hq : Nat.toDigits 10 (n / 10) with
        | nil => exact absurd hq Nat.toDigits_ne_nil
        | cons c cs => rwa [hq] at hrest

def EndsNumber (t : Text) : Prop :=
  ∀ c ∈ t.head?, isAsciiDigit c = false ∧ c ≠ '.' ∧ c ≠ 'e' ∧ c ≠ 'E'

theorem takeWhile_digits {ds rest : Text} (hds : ∀ c ∈ ds, isAsciiDigit c = true)
    (hrest : EndsNumber rest) : (ds ++ rest).takeWhile isAsciiDigit = ds := by
  rw [List.takeWhile_append_of_pos hds]
  cases rest with
  | nil => simp
  | cons c rest => simp [(hrest c rfl).1]

theorem wholePart_toDigits {n : Nat} {rest : Text} (hrest : EndsNumber rest) :
    wholePart (Nat.toDigits 10 n ++ rest) = (Nat.toDigits 10 n, rest) := by
  have hds : ∀ c ∈ Nat.toDigits 10 n, isAsciiDigit c = true := fun c hc =>
    Nat.isDigit_of_mem_toDigits (by decide) (by decide) hc
  rw [wholePart, takeWhile_digits hds hrest]
  rcases Nat.eq_zero_or_pos n with rfl | hn
  · rfl
  · split
    · next heq => exact absurd (by rw [heq]; rfl) (head?_toDigits hn)
    · rw [List.drop_left]

theorem fractionPart_eq_none {rest : Text} (hrest : EndsNumber rest) :
    fractionPart rest = none := by
  unfold fractionPart
  split
  · exact absurd rfl (hrest '.' rfl).2.1
  · rfl

theorem exponentPart_eq_none {rest : Text} (hrest : EndsNumber rest) :
    exponentPart rest = none := by
  cases rest with
  | nil => rfl
  | cons c rest =>
      obtain ⟨_, _, he, hE⟩ := hrest c rfl
      simp [exponentPart, he, hE]

theorem magnitude_toDigits {negative : Bool} {n : Nat} {rest : Text} {w : Node} {rest' : Text}
    (hrest : EndsNumber rest)
    (h : magnitude negative (Nat.toDigits 10 n ++ rest) = .ok (w, rest')) :
    w = .int (if negative then -(n : Int) else n) ∧ rest' = rest := by
  rw [magnitude, wholePart_toDigits hrest] at h
  simp only [fractionPart_eq_none hrest, Option.map_none, Option.getD_none,
    exponentPart_eq_none hrest, digitsOf_toDigits] at h
  split at h
  · simp at h
  · split at h
    · simp at h
    · simpa [eq_comm] using h

theorem toList_repr (n : Int) :
    n.repr.toList = (if n < 0 then ['-'] else []) ++ Nat.toDigits 10 n.natAbs := by
  rw [Int.repr_eq_if]
  split
  · next h =>
      have hnat : n.toNat = n.natAbs := by omega
      rw [if_neg (by omega), Nat.repr_eq_ofList_toDigits, String.toList_ofList, hnat,
        List.nil_append]
  · next h =>
      have hnat : (-n).toNat = n.natAbs := by omega
      rw [if_pos (by omega), String.toList_append, Nat.repr_eq_ofList_toDigits, hnat]
      exact congrArg (['-'] ++ ·) String.toList_ofList

theorem ne_of_isAsciiDigit {d e : Char} (hd : isAsciiDigit d = true)
    (he : isAsciiDigit e = false) : d ≠ e := by
  rintro rfl
  exact Bool.false_ne_true (he.symm.trans hd)

theorem exists_cons_toDigits (n : Nat) :
    ∃ d ds, Nat.toDigits 10 n = d :: ds ∧ isAsciiDigit d = true := by
  obtain ⟨d, ds, hds⟩ := List.exists_cons_of_ne_nil (Nat.toDigits_ne_nil (n := n) (b := 10))
  refine ⟨d, ds, hds, Nat.isDigit_of_mem_toDigits (b := 10) (n := n) (by decide) (by decide) ?_⟩
  exact hds ▸ List.mem_cons_self

theorem word?_digit {d : Char} (hd : isAsciiDigit d = true) (rest : Text) :
    word? (d :: rest) = none ∧ word? ('-' :: d :: rest) = none := by
  have hne (e : Char) (he : isAsciiDigit e = false) : e ≠ d := (ne_of_isAsciiDigit hd he).symm
  constructor <;>
    simp [word?, Text.startsWith, hne 'n' rfl, hne 't' rfl, hne 'f' rfl, hne 'N' rfl, hne 'I' rfl,
      hne '-' rfl]

theorem value_number {fuel : Nat} {c : Char} {rest : Text} (hquote : c ≠ '"') (hlist : c ≠ '[')
    (hmap : c ≠ '\x7b') (hword : word? (c :: rest) = none) :
    value (fuel + 1) (c :: rest) =
      if c = '-' then magnitude true rest else magnitude false (c :: rest) := by
  rw [value.eq_def]
  split
  · next h => cases h
  · next h =>
      cases h
      split
      · next h => exact absurd (List.cons.inj h).1 hquote
      · next h => exact absurd (List.cons.inj h).1 hlist
      · next h => exact absurd (List.cons.inj h).1 hmap
      · rw [hword]
        simp only
        split
        · next h => rw [if_pos (List.cons.inj h).1, (List.cons.inj h).2]
        · next h =>
            have hminus : c ≠ '-' := fun hc => h rest (hc ▸ rfl)
            rw [if_neg hminus]

theorem value_repr {fuel : Nat} {n : Int} {rest rest' : Text} {w : Node} (hrest : EndsNumber rest)
    (h : value (fuel + 1) (n.repr.toList ++ rest) = .ok (w, rest')) :
    w = .int n ∧ rest' = rest := by
  obtain ⟨d, ds, hds, hd⟩ := exists_cons_toDigits n.natAbs
  have hne (e : Char) (he : isAsciiDigit e = false) : d ≠ e := ne_of_isAsciiDigit hd he
  rw [toList_repr] at h
  by_cases hn : n < 0
  · rw [if_pos hn, hds, List.append_assoc, List.singleton_append, List.cons_append,
      value_number (by decide) (by decide) (by decide) (word?_digit hd _).2, if_pos rfl,
      ← List.cons_append, ← hds] at h
    obtain ⟨rfl, rfl⟩ := magnitude_toDigits hrest h
    rw [if_pos rfl]
    exact ⟨by congr 2; omega, rfl⟩
  · rw [if_neg hn, hds, List.nil_append, List.cons_append,
      value_number (hne '"' rfl) (hne '[' rfl) (hne '\x7b' rfl) (word?_digit hd _).1,
      if_neg (hne '-' rfl), ← List.cons_append, ← hds] at h
    obtain ⟨rfl, rfl⟩ := magnitude_toDigits hrest h
    rw [if_neg Bool.false_ne_true]
    exact ⟨by congr 2; omega, rfl⟩

end Json

/-! ## Values -/

/-- Values of texts, integers, lists, and records whose keys are distinct. -/
inductive Value.Storable : Value → Prop
  | str (s : String) : Storable (.str s)
  | int (n : Int) : Storable (.int n)
  | list {items : List Value} (hitems : ∀ v ∈ items, Storable v) : Storable (.list items)
  | record {entries : Entries String Value} (hkeys : entries.keys.Nodup)
      (hvalues : ∀ x ∈ entries, Storable x.2) : Storable (.record entries)

namespace Json

/-- A text that is over or goes on after a value in the indented layout. -/
def Follows (t : Text) : Prop := ∀ c ∈ t.head?, c = ',' ∨ c = '\n'

theorem Follows.endsNumber {t : Text} (h : Follows t) : EndsNumber t := by
  intro c hc
  rcases h c hc with rfl | rfl <;> decide

theorem skipSpace_newline (depth : Nat) (t : Text) :
    skipSpace ((newline depth).toList ++ t) = skipSpace t := by
  rw [newline, String.toList_ofList, skipSpace, List.dropWhile_append_of_pos]
  · rfl
  · intro c hc
    rcases List.mem_cons.mp hc with rfl | hc
    · rfl
    · rw [List.eq_of_mem_replicate hc]
      rfl

theorem skipSpace_cons {c : Char} {t : Text} (hc : isSpace c = false) :
    skipSpace (c :: t) = c :: t := by
  rw [skipSpace, List.dropWhile_cons_of_neg (by simp [hc])]

/-- The first character of a written value: no white space and no closing bracket. -/
theorem exists_cons_writeAt {v : Value} (hv : v.Storable) (l : Layout) (depth : Nat) :
    ∃ c t, (writeAt l depth v).toList = c :: t ∧ isSpace c = false ∧ c ≠ ']' := by
  cases hv with
  | str s => exact ⟨'"', _, toList_writeString s, rfl, by decide⟩
  | int n =>
      obtain ⟨d, ds, hds, hd⟩ := exists_cons_toDigits n.natAbs
      rw [show (writeAt l depth (.int n)).toList = n.repr.toList from rfl, toList_repr, hds]
      by_cases hn : n < 0
      · exact ⟨'-', d :: ds, by rw [if_pos hn]; rfl, rfl, by decide⟩
      · refine ⟨d, ds, by rw [if_neg hn]; rfl, ?_, ne_of_isAsciiDigit hd rfl⟩
        simp [isSpace, ne_of_isAsciiDigit hd (e := ' ') rfl, ne_of_isAsciiDigit hd (e := '\t') rfl,
          ne_of_isAsciiDigit hd (e := '\n') rfl, ne_of_isAsciiDigit hd (e := '\r') rfl]
  | list _ =>
      obtain ⟨t, ht⟩ := exists_toList_enclose l depth "[" "]" _
      exact ⟨'[', t, by rw [writeAt_list, ht]; rfl, rfl, by decide⟩
  | record _ _ =>
      obtain ⟨t, ht⟩ := exists_toList_enclose l depth "\x7b" "\x7d" _
      exact ⟨'\x7b', t, by rw [Value.record, writeAt_map, ht]; rfl, rfl, by decide⟩

theorem skipSpace_writeAt {v : Value} (hv : v.Storable) (l : Layout) (depth : Nat) (rest : Text) :
    skipSpace ((writeAt l depth v).toList ++ rest) = (writeAt l depth v).toList ++ rest := by
  obtain ⟨c, t, ht, hc, _⟩ := exists_cons_writeAt hv l depth
  rw [ht, List.cons_append, skipSpace_cons hc]

def itemsTail (depth : Nat) (vs : List Value) (rest : Text) : Text :=
  (vs.flatMap fun v => ',' :: ((newline (depth + 1)).toList ++
    (writeAt .indented (depth + 1) v).toList)) ++ ((newline depth).toList ++ ']' :: rest)

def membersTail (depth : Nat) (xs : Entries String Value) (rest : Text) : Text :=
  (xs.flatMap fun x => ',' :: ((newline (depth + 1)).toList ++
    (writeEntry .indented (depth + 1) (.str x.1, x.2)).toList)) ++
      ((newline depth).toList ++ '\x7d' :: rest)

theorem skipSpace_itemsTail_nil (depth : Nat) (rest : Text) :
    skipSpace (itemsTail depth [] rest) = ']' :: rest := by
  rw [itemsTail, List.flatMap_nil, List.nil_append, skipSpace_newline, skipSpace_cons rfl]

theorem itemsTail_cons (depth : Nat) (v : Value) (vs : List Value) (rest : Text) :
    itemsTail depth (v :: vs) rest = ',' :: ((newline (depth + 1)).toList ++
      ((writeAt .indented (depth + 1) v).toList ++ itemsTail depth vs rest)) := by
  simp only [itemsTail, List.flatMap_cons, List.cons_append, List.append_assoc]

theorem follows_itemsTail (depth : Nat) (vs : List Value) (rest : Text) :
    Follows (itemsTail depth vs rest) := by
  cases vs with
  | nil =>
      rw [itemsTail, List.flatMap_nil, List.nil_append, newline, String.toList_ofList]
      exact fun c hc => Or.inr (Option.some.inj hc).symm
  | cons v vs =>
      rw [itemsTail_cons]
      exact fun c hc => Or.inl (Option.some.inj hc).symm

theorem skipSpace_membersTail_nil (depth : Nat) (rest : Text) :
    skipSpace (membersTail depth [] rest) = '\x7d' :: rest := by
  rw [membersTail, List.flatMap_nil, List.nil_append, skipSpace_newline, skipSpace_cons rfl]

theorem membersTail_cons (depth : Nat) (x : String × Value) (xs : Entries String Value)
    (rest : Text) :
    membersTail depth (x :: xs) rest = ',' :: ((newline (depth + 1)).toList ++
      ((writeEntry .indented (depth + 1) (.str x.1, x.2)).toList ++
        membersTail depth xs rest)) := by
  simp only [membersTail, List.flatMap_cons, List.cons_append, List.append_assoc]

theorem follows_membersTail (depth : Nat) (xs : Entries String Value) (rest : Text) :
    Follows (membersTail depth xs rest) := by
  cases xs with
  | nil =>
      rw [membersTail, List.flatMap_nil, List.nil_append, newline, String.toList_ofList]
      exact fun c hc => Or.inr (Option.some.inj hc).symm
  | cons v vs =>
      rw [membersTail_cons]
      exact fun c hc => Or.inl (Option.some.inj hc).symm

theorem toList_writeAt_list (depth : Nat) (v : Value) (vs : List Value) (rest : Text) :
    (writeAt .indented depth (.list (v :: vs))).toList ++ rest =
      '[' :: ((newline (depth + 1)).toList ++
        ((writeAt .indented (depth + 1) v).toList ++ itemsTail depth vs rest)) := by
  rw [writeAt_list, List.map_cons, toList_enclose, itemsTail, List.flatMap_map]
  simp [Layout.opened, Layout.between, Layout.closed]

theorem toList_writeAt_record (depth : Nat) (x : String × Value) (xs : Entries String Value)
    (rest : Text) :
    (writeAt .indented depth (.record (x :: xs))).toList ++ rest =
      '\x7b' :: ((newline (depth + 1)).toList ++
        ((writeEntry .indented (depth + 1) (.str x.1, x.2)).toList ++
          membersTail depth xs rest)) := by
  rw [Value.record, writeAt_map, List.map_cons, List.map_cons, toList_enclose, membersTail,
    List.map_map, List.flatMap_map]
  simp [Layout.opened, Layout.between, Layout.closed]

theorem toList_writeEntry (depth : Nat) (x : String × Value) :
    (writeEntry .indented depth (.str x.1, x.2)).toList =
      '"' :: (x.1.toList.flatMap escapeChar ++
        '"' :: ':' :: ' ' :: (writeAt .indented depth x.2).toList) := by
  rw [writeEntry, String.toList_append, String.toList_append,
    show (writeKey (.str x.1)).toList = _ from toList_writeString x.1]
  simp [Layout.colon]

theorem value_items {fuel : Nat} {t more : Text} {c : Char} (ht : skipSpace t = c :: more)
    (hc : c ≠ ']') : value (fuel + 1) ('[' :: t) = items fuel [] (c :: more) := by
  simp only [Json.value, ht]
  split
  · next h => exact absurd (List.cons.inj h).1 hc
  · rfl

theorem value_members {fuel : Nat} {t more : Text} {c : Char} (ht : skipSpace t = c :: more)
    (hc : c ≠ '\x7d') : value (fuel + 1) ('\x7b' :: t) = members fuel [] (c :: more) := by
  simp only [Json.value, ht]
  split
  · next h => exact absurd (List.cons.inj h).1 hc
  · rfl

def entryNodes (entries : Entries String Value) : Entries Leaf Node :=
  entries.map fun (k, v) => (.plain (.str k), .ofValue v)

theorem ofValue_record_eq (entries : Entries String Value) :
    Node.ofValue (.record entries) = .map (entryNodes entries) := by
  rw [Node.ofValue_record, Node.record, List.map_map]
  rfl

theorem insert_entryNodes {entries : Entries String Value} {x : String × Value}
    (h : x.1 ∉ entries.keys) :
    Entries.insert (.plain (.str x.1)) (.ofValue x.2) (entryNodes entries) =
      entryNodes (entries ++ [x]) := by
  have hinjective : Function.Injective fun k : String => Leaf.plain (.str k) := fun k k' hk =>
    Scalar.str.inj (Leaf.plain.inj hk)
  rw [entryNodes, Entries.insert_map_injective hinjective, Entries.insert_of_not_mem h]
  rfl

section Steps

variable {fuel depth : Nat} {rest : Text}

theorem value_str (s : String) :
    value (fuel + 1) ((writeAt .indented depth (.str s)).toList ++ rest) = .ok (.str s, rest) := by
  rw [show (writeAt .indented depth (.str s)).toList = _ from toList_writeString s,
    List.cons_append, List.append_assoc]
  simp only [Json.value, List.singleton_append, string?_flatMap, Node.text_ofString]

theorem value_list_nil :
    value (fuel + 1) ((writeAt .indented depth (.list [])).toList ++ rest) =
      .ok (.list [], rest) := by
  rw [writeAt_list, List.map_nil, toList_enclose_nil]
  rfl

theorem value_list_cons {v : Value} (hv : v.Storable) (vs : List Value) :
    value (fuel + 1) ((writeAt .indented depth (.list (v :: vs))).toList ++ rest) =
      items fuel [] ((writeAt .indented (depth + 1) v).toList ++ itemsTail depth vs rest) := by
  obtain ⟨c, t, ht, hc, hbracket⟩ := exists_cons_writeAt hv .indented (depth + 1)
  have hskip : skipSpace ((newline (depth + 1)).toList ++
      ((writeAt .indented (depth + 1) v).toList ++ itemsTail depth vs rest)) =
        c :: (t ++ itemsTail depth vs rest) := by
    rw [skipSpace_newline, ht, List.cons_append, skipSpace_cons hc]
  rw [toList_writeAt_list, value_items hskip hbracket, ← List.cons_append, ← ht]

theorem value_record_nil :
    value (fuel + 1) ((writeAt .indented depth (.record [])).toList ++ rest) =
      .ok (.record [], rest) := by
  rw [Value.record, writeAt_map, List.map_nil, List.map_nil, toList_enclose_nil]
  rfl

theorem exists_cons_writeEntry (depth : Nat) (x : String × Value) (t : Text) :
    ∃ more, (writeEntry .indented depth (.str x.1, x.2)).toList ++ t = '"' :: more :=
  ⟨_, by rw [toList_writeEntry]; rfl⟩

theorem value_record_cons (x : String × Value) (xs : Entries String Value) :
    value (fuel + 1) ((writeAt .indented depth (.record (x :: xs))).toList ++ rest) =
      members fuel [] ((writeEntry .indented (depth + 1) (.str x.1, x.2)).toList ++
        membersTail depth xs rest) := by
  obtain ⟨more, hmore⟩ := exists_cons_writeEntry (depth + 1) x (membersTail depth xs rest)
  have hskip : skipSpace ((newline (depth + 1)).toList ++ '"' :: more) = '"' :: more := by
    rw [skipSpace_newline, skipSpace_cons rfl]
  rw [toList_writeAt_record, hmore, value_members hskip (by decide)]

/-- An item is followed by the next one, or by the end of the list. -/
theorem items_of_value {acc : List Node} {vs : List Value} {v : Value} (hvs : ∀ v ∈ vs, v.Storable)
    (hvalue : value fuel ((writeAt .indented (depth + 1) v).toList ++ itemsTail depth vs rest) =
      .ok (.ofValue v, itemsTail depth vs rest)) :
    items (fuel + 1) acc ((writeAt .indented (depth + 1) v).toList ++ itemsTail depth vs rest) =
      match vs with
      | [] => .ok (.list (.ofValue v :: acc).reverse, rest)
      | v' :: vs => items fuel (.ofValue v :: acc)
          ((writeAt .indented (depth + 1) v').toList ++ itemsTail depth vs rest) := by
  rw [items, hvalue]
  simp only [bind, Except.bind]
  cases vs with
  | nil => simp only [skipSpace_itemsTail_nil]
  | cons v' vs =>
      simp only [itemsTail_cons, skipSpace_cons (show isSpace ',' = false from rfl),
        skipSpace_newline, skipSpace_writeAt (hvs v' List.mem_cons_self)]

theorem members_eq_bind {acc : Entries Leaf Node} {x : String × Value}
    {xs : Entries String Value} (hx : x.2.Storable) :
    members (fuel + 1) acc ((writeEntry .indented (depth + 1) (.str x.1, x.2)).toList ++
        membersTail depth xs rest) = (do
      let (v, rest) ← value fuel ((writeAt .indented (depth + 1) x.2).toList ++
        membersTail depth xs rest)
      let acc := Entries.insert (.plain (.str x.1)) v acc
      match skipSpace rest with
      | ',' :: rest => members fuel acc (skipSpace rest)
      | '\x7d' :: rest => .ok (.map acc, rest)
      | _ => .error .malformed) := by
  have hskip : skipSpace (' ' :: ((writeAt .indented (depth + 1) x.2).toList ++
      membersTail depth xs rest)) = (writeAt .indented (depth + 1) x.2).toList ++
        membersTail depth xs rest := skipSpace_writeAt hx .indented (depth + 1) _
  rw [toList_writeEntry, List.cons_append, List.append_assoc]
  have hmembers := members.eq_def (fuel + 1) acc ('"' :: (x.1.toList.flatMap escapeChar ++
    ('"' :: ':' :: ' ' :: (writeAt .indented (depth + 1) x.2).toList ++
      membersTail depth xs rest)))
  simp only [List.cons_append, string?_flatMap, Leaf.ofText_ofString,
    skipSpace_cons (show isSpace ':' = false from rfl), hskip] at hmembers
  exact hmembers

/-- An entry is followed by the next one, or by the end of the record. -/
theorem members_of_value {acc xs : Entries String Value} {x : String × Value}
    (hkeys : (acc ++ x :: xs).keys.Nodup) (hx : x.2.Storable)
    (hvalue : value fuel ((writeAt .indented (depth + 1) x.2).toList ++
      membersTail depth xs rest) = .ok (.ofValue x.2, membersTail depth xs rest)) :
    members (fuel + 1) (entryNodes acc)
        ((writeEntry .indented (depth + 1) (.str x.1, x.2)).toList ++ membersTail depth xs rest) =
      match xs with
      | [] => .ok (.ofValue (.record (acc ++ [x])), rest)
      | x' :: xs => members fuel (entryNodes (acc ++ [x]))
          ((writeEntry .indented (depth + 1) (.str x'.1, x'.2)).toList ++
            membersTail depth xs rest) := by
  have hkey : x.1 ∉ acc.keys := by
    rw [Entries.keys, List.map_append, List.map_cons] at hkeys
    exact fun hmem => (List.nodup_append.mp hkeys).2.2 _ hmem _ List.mem_cons_self rfl
  rw [members_eq_bind hx, hvalue]
  simp only [bind, Except.bind, insert_entryNodes hkey]
  cases xs with
  | nil => simp only [skipSpace_membersTail_nil, ofValue_record_eq]
  | cons x' xs =>
      obtain ⟨next, hnext⟩ := exists_cons_writeEntry (depth + 1) x' (membersTail depth xs rest)
      simp only [membersTail_cons, skipSpace_cons (show isSpace ',' = false from rfl),
        skipSpace_newline, hnext, skipSpace_cons (show isSpace '"' = false from rfl)]

end Steps

/-- What is read with some fuel is what was written. -/
structure ReadsBack (fuel : Nat) : Prop where
  value : ∀ {v : Value} {w : Node} {depth : Nat} {rest rest' : Text}, v.Storable → Follows rest →
    Json.value fuel ((writeAt .indented depth v).toList ++ rest) = .ok (w, rest') →
      w = .ofValue v ∧ rest' = rest
  items : ∀ {acc : List Node} {vs : List Value} {v : Value} {w : Node} {depth : Nat}
    {rest rest' : Text}, v.Storable → (∀ v ∈ vs, v.Storable) →
      Json.items fuel acc ((writeAt .indented (depth + 1) v).toList ++
        itemsTail depth vs rest) = .ok (w, rest') →
          w = .list (acc.reverse ++ (v :: vs).map .ofValue) ∧ rest' = rest
  members : ∀ {acc xs : Entries String Value} {x : String × Value} {w : Node} {depth : Nat}
    {rest rest' : Text}, (acc ++ x :: xs).keys.Nodup → x.2.Storable → (∀ x ∈ xs, x.2.Storable) →
      Json.members fuel (entryNodes acc)
        ((writeEntry .indented (depth + 1) (.str x.1, x.2)).toList ++
          membersTail depth xs rest) = .ok (w, rest') →
            w = .ofValue (.record (acc ++ x :: xs)) ∧ rest' = rest

namespace ReadsBack

variable {fuel : Nat}

theorem value_succ (ih : ReadsBack fuel) {v : Value} {w : Node} {depth : Nat}
    {rest rest' : Text} (hv : v.Storable) (hrest : Follows rest)
    (h : Json.value (fuel + 1) ((writeAt .indented depth v).toList ++ rest) = .ok (w, rest')) :
    w = .ofValue v ∧ rest' = rest := by
  cases hv with
  | str s =>
      rw [value_str] at h
      simpa [eq_comm, Node.ofValue] using h
  | int n => exact value_repr hrest.endsNumber h
  | @list vs hvs =>
      cases vs with
      | nil =>
          rw [value_list_nil] at h
          simpa [eq_comm] using h
      | cons v vs =>
          have hv := hvs v List.mem_cons_self
          rw [value_list_cons hv] at h
          rw [Node.ofValue_list]
          exact ih.items hv (fun u hu => hvs u (List.mem_cons_of_mem v hu)) h
  | @record entries hkeys hvalues =>
      cases entries with
      | nil =>
          rw [value_record_nil] at h
          simpa [eq_comm] using h
      | cons x xs =>
          rw [value_record_cons] at h
          exact ih.members (show ([] ++ x :: xs : Entries String Value).keys.Nodup from hkeys)
            (hvalues x List.mem_cons_self) (fun y hy => hvalues y (List.mem_cons_of_mem x hy)) h

theorem items_succ (ih : ReadsBack fuel) {acc : List Node} {vs : List Value} {v : Value} {w : Node}
    {depth : Nat} {rest rest' : Text} (hv : v.Storable) (hvs : ∀ v ∈ vs, v.Storable)
    (h : Json.items (fuel + 1) acc ((writeAt .indented (depth + 1) v).toList ++
      itemsTail depth vs rest) = .ok (w, rest')) :
    w = .list (acc.reverse ++ (v :: vs).map .ofValue) ∧ rest' = rest := by
  have hitems := h
  rw [Json.items] at hitems
  obtain ⟨⟨u, more⟩, hvalue, _⟩ := bind_eq_ok.mp hitems
  obtain ⟨rfl, rfl⟩ := ih.value hv (follows_itemsTail depth vs rest) hvalue
  rw [items_of_value hvs hvalue] at h
  cases vs with
  | nil => simpa [eq_comm] using h
  | cons v' vs =>
      obtain ⟨rfl, rfl⟩ := ih.items (hvs v' List.mem_cons_self)
        (fun y hy => hvs y (List.mem_cons_of_mem v' hy)) h
      simp

theorem members_succ (ih : ReadsBack fuel) {acc xs : Entries String Value} {x : String × Value}
    {w : Node} {depth : Nat} {rest rest' : Text} (hkeys : (acc ++ x :: xs).keys.Nodup)
    (hx : x.2.Storable) (hxs : ∀ x ∈ xs, x.2.Storable)
    (h : Json.members (fuel + 1) (entryNodes acc)
      ((writeEntry .indented (depth + 1) (.str x.1, x.2)).toList ++ membersTail depth xs rest) =
        .ok (w, rest')) :
    w = .ofValue (.record (acc ++ x :: xs)) ∧ rest' = rest := by
  have hmembers := h
  rw [members_eq_bind hx] at hmembers
  obtain ⟨⟨u, more⟩, hvalue, _⟩ := bind_eq_ok.mp hmembers
  obtain ⟨rfl, rfl⟩ := ih.value hx (follows_membersTail depth xs rest) hvalue
  rw [members_of_value hkeys hx hvalue] at h
  cases xs with
  | nil => simpa [eq_comm] using h
  | cons x' xs =>
      have hkeys' : ((acc ++ [x]) ++ x' :: xs).keys.Nodup := by
        rwa [List.append_assoc, List.singleton_append]
      obtain ⟨rfl, rfl⟩ := ih.members hkeys' (hxs x' List.mem_cons_self)
        (fun y hy => hxs y (List.mem_cons_of_mem x' hy)) h
      rw [List.append_assoc, List.singleton_append]
      exact ⟨rfl, rfl⟩

end ReadsBack

theorem readsBack (fuel : Nat) : ReadsBack fuel := by
  induction fuel with
  | zero => exact ⟨by simp [Json.value], by simp [Json.items], by simp [Json.members]⟩
  | succ fuel ih => exact ⟨ih.value_succ, ih.items_succ, ih.members_succ⟩

/-- A document that is read back is the one that was written. -/
theorem eq_of_readNode_write {v : Value} {w : Node} (hv : v.Storable)
    (h : readNode (write .indented v).toList = .ok w) : w = .ofValue v := by
  rw [readNode, write] at h
  obtain ⟨⟨u, rest⟩, hvalue, h⟩ := bind_eq_ok.mp h
  rw [← List.append_nil (writeAt .indented 0 v).toList, skipSpace_writeAt hv] at hvalue
  obtain ⟨rfl, rfl⟩ := (readsBack _).value hv (fun c hc => by simp at hc) hvalue
  simpa [skipSpace, eq_comm] using h

theorem inItems_eq_none_iff {items : List Value} :
    firstUnwritable?.inItems items = none ↔ ∀ v ∈ items, firstUnwritable? v = none := by
  induction items with
  | nil => simp [firstUnwritable?.inItems]
  | cons v items ih => simp [firstUnwritable?.inItems, ih]

theorem inEntries_eq_none_iff {entries : Entries String Value} :
    firstUnwritable?.inEntries (entries.map fun (k, v) => (.str k, v)) = none ↔
      ∀ x ∈ entries, firstUnwritable? x.2 = none := by
  induction entries with
  | nil => simp [firstUnwritable?.inEntries]
  | cons x entries ih => simp [firstUnwritable?.inEntries, unwritableKind?, ih]

theorem firstUnwritable?_record {entries : Entries String Value} :
    firstUnwritable? (.record entries) = none ↔ ∀ x ∈ entries, firstUnwritable? x.2 = none := by
  rw [Value.record, firstUnwritable?, inEntries_eq_none_iff]

theorem firstUnwritable?_list {items : List Value} :
    firstUnwritable? (.list items) = none ↔ ∀ v ∈ items, firstUnwritable? v = none := by
  rw [firstUnwritable?, inItems_eq_none_iff]

theorem firstUnwritable?_eq_none {v : Value} (hv : v.Storable) : firstUnwritable? v = none := by
  induction hv with
  | str s => rfl
  | int n => rfl
  | list _ ih => exact firstUnwritable?_list.mpr ih
  | record _ _ ih => exact firstUnwritable?_record.mpr ih

/-! ## Nodes -/

namespace Node

/-- Nodes of texts, integers, lists, and records whose keys are distinct. -/
inductive Storable : Node → Prop
  | text (t : LooseText) : Storable (.text t)
  | int (n : Int) : Storable (.int n)
  | list {items : List Node} (hitems : ∀ n ∈ items, Storable n) : Storable (.list items)
  | record {entries : Entries String Node} (hkeys : entries.keys.Nodup)
      (hnodes : ∀ x ∈ entries, Storable x.2) : Storable (.record entries)

theorem Storable.str (s : String) : Storable (.str s) := text_ofString s ▸ .text s

theorem Storable.shown {n : Node} (h : n.Storable) : n.shown.Storable := by
  induction h with
  | text t =>
      rw [Node.text, Node.shown, Leaf.shown_ofText]
      exact .str t.shown
  | int n => exact .int n
  | list _ ih =>
      rw [shown_list]
      exact .list (List.forall_mem_map.mpr ih)
  | @record entries hkeys _ ih =>
      rw [shown_record]
      refine .record ?_ (List.forall_mem_map.mpr ih)
      rwa [Entries.keys, List.map_map]

theorem storable_ofValue {v : Value} (h : v.Storable) : (ofValue v).Storable := by
  induction h with
  | str s => exact .str s
  | int n => exact .int n
  | list _ ih =>
      rw [ofValue_list]
      exact .list (List.forall_mem_map.mpr ih)
  | @record entries hkeys _ ih =>
      rw [ofValue_record]
      refine .record ?_ (List.forall_mem_map.mpr ih)
      rwa [Entries.keys, List.map_map]

end Node

end Json

end Kouetsu
