import Kouetsu.Text.Digit
import Kouetsu.Value.Text
import Mathlib.Data.Nat.Digits.Defs
/-!
# Quoted strings

Each character of a quoted string can be read back, so the string can.  The mark that encloses it
stands inside only after a backslash.
-/

namespace Kouetsu

/-! ## Hexadecimal digits -/

def hexNumber (ds : Text) : Nat := ds.foldl (fun n c => 16 * n + (hexValue? c).getD 0) 0

theorem hexValue?_digitChar : ∀ d < 16, hexValue? d.digitChar = some d := by decide

theorem hexNumber_toDigits (n : Nat) : hexNumber (Nat.toDigits 16 n) = n := by
  induction n using Nat.strongRecOn with
  | _ n ih =>
      rw [Nat.toDigits_eq_if (by decide)]
      split
      · next hlt => simp [hexNumber, hexValue?_digitChar n hlt]
      · next hle =>
          have hquotient := ih (n / 16) (by omega)
          have hdigit := hexValue?_digitChar (n % 16) (Nat.mod_lt n (by decide))
          rw [hexNumber] at hquotient
          rw [hexNumber, List.foldl_append, hquotient, List.foldl_cons, List.foldl_nil, hdigit,
            Option.getD_some]
          omega

theorem hexNumber_hexPadded (width n : Nat) : hexNumber (hexPadded width n) = n := by
  have hzeros (k : Nat) : (List.replicate k '0').foldl
      (fun n c => 16 * n + (hexValue? c).getD 0) 0 = 0 := by
    induction k with
    | zero => rfl
    | succ k ih => exact ih
  rw [hexNumber, hexPadded, List.foldl_append, hzeros]
  exact hexNumber_toDigits n

theorem length_hexPadded {width n : Nat} (hwidth : 0 < width) (h : n < 16 ^ width) :
    (hexPadded width n).length = width := by
  have hlen := (Nat.length_toDigits_le_iff (by decide) hwidth).mpr h
  rw [hexPadded, List.length_append, List.length_replicate]
  omega

theorem isSome_hexValue?_of_mem_toDigits {n : Nat} {c : Char} (hc : c ∈ Nat.toDigits 16 n) :
    (hexValue? c).isSome := by
  induction n using Nat.strongRecOn with
  | _ n ih =>
      have hdigit {d : Nat} (hd : d < 16) (hc : c = d.digitChar) : (hexValue? c).isSome := by
        rw [hc, hexValue?_digitChar d hd]
        rfl
      rw [Nat.toDigits_eq_if (by decide)] at hc
      split at hc
      · next hlt => exact hdigit hlt (List.mem_singleton.mp hc)
      · next hle =>
          rcases List.mem_append.mp hc with hc | hc
          · exact ih (n / 16) (by omega) hc
          · exact hdigit (Nat.mod_lt n (by decide)) (List.mem_singleton.mp hc)

theorem isSome_hexValue?_of_mem_hexPadded {width n : Nat} {c : Char}
    (hc : c ∈ hexPadded width n) : (hexValue? c).isSome := by
  rcases List.mem_append.mp hc with hc | hc
  · rw [(List.mem_replicate.mp hc).2]
    decide
  · exact isSome_hexValue?_of_mem_toDigits hc

/-! ## Characters -/

def escapeLetters : List (Char × Char) := [('n', '\n'), ('r', '\r'), ('t', '\t')]

def numberLetters : List (Char × Nat) := [('x', 2), ('u', 4), ('U', 8)]

inductive Quoted (mark c : Char) : Text → Prop where
  | plain (hmark : c ≠ mark) (hslash : c ≠ '\\') : Quoted mark c [c]
  | mark (h : c = mark ∨ c = '\\') : Quoted mark c ['\\', c]
  | letter {k : Char} (h : (k, c) ∈ escapeLetters) : Quoted mark c ['\\', k]
  | number {k : Char} {width : Nat} (h : (k, width) ∈ numberLetters) (hlt : c.toNat < 16 ^ width) :
      Quoted mark c ('\\' :: k :: hexPadded width c.toNat)

theorem char_toNat_lt (c : Char) : c.toNat < 0x110000 := by
  have hvalid := c.valid
  simp only [UInt32.isValidChar, Nat.isValidChar] at hvalid
  show c.val.toNat < 0x110000
  omega

theorem quoted_quoteChar (mark c : Char) : Quoted mark c (quoteChar mark c) := by
  rw [quoteChar]
  split
  · next h =>
      rw [Bool.or_eq_true, decide_eq_true_eq, decide_eq_true_eq] at h
      exact .mark h
  · next hmark =>
      rw [Bool.or_eq_true, decide_eq_true_eq, decide_eq_true_eq, not_or] at hmark
      split
      · next h => exact .letter (by simp [h, escapeLetters])
      · split
        · next h => exact .letter (by simp [h, escapeLetters])
        · split
          · next h => exact .letter (by simp [h, escapeLetters])
          · split
            · exact .plain hmark.1 hmark.2
            · split
              · next h => exact .number (by simp [numberLetters]) h
              · split
                · next h => exact .number (by simp [numberLetters]) h
                · have hlt := char_toNat_lt c
                  exact .number (by simp [numberLetters]) (by omega)

def quoteMarks : List Char := ['\x27', '"']

theorem mem_quoteMarks {c : Char} : c ∈ quoteMarks ↔ c = '\x27' ∨ c = '"' := by
  simp [quoteMarks]

def isUnmarked (t : Text) : Bool := t.all fun c => !quoteMarks.contains c

@[simp] theorem isUnmarked_append (s t : Text) :
    isUnmarked (s ++ t) = (isUnmarked s && isUnmarked t) :=
  List.all_append

theorem not_mem_quoteMarks {t : Text} (h : isUnmarked t = true) : ∀ c ∈ t, c ∉ quoteMarks := by
  intro c hc
  have hall := List.all_eq_true.mp h c hc
  simpa using hall

def unquoteChar? : Text → Option (Char × Text)
  | [] => none
  | c :: rest =>
      if c = '\\' then
        match rest with
        | [] => none
        | k :: rest =>
            match numberLetters.lookup k with
            | some width => some (Char.ofNat (hexNumber (rest.take width)), rest.drop width)
            | none => some ((escapeLetters.lookup k).getD k, rest)
      else some (c, rest)

theorem Quoted.unquoteChar?_append {mark c : Char} {t : Text} (h : Quoted mark c t)
    (hmark : mark ∈ quoteMarks) (rest : Text) : unquoteChar? (t ++ rest) = some (c, rest) := by
  cases h with
  | plain _ hslash => simp [unquoteChar?, hslash]
  | mark h =>
      have hlookup : numberLetters.lookup c = none ∧ escapeLetters.lookup c = none := by
        rcases h with rfl | rfl
        · rcases mem_quoteMarks.mp hmark with rfl | rfl <;> decide
        · decide
      simp [unquoteChar?, hlookup]
  | letter h =>
      simp only [escapeLetters, List.mem_cons, Prod.mk.injEq, List.not_mem_nil, or_false] at h
      rcases h with ⟨rfl, rfl⟩ | ⟨rfl, rfl⟩ | ⟨rfl, rfl⟩ <;> rfl
  | @number k width h hlt =>
      have hwidth : 0 < width ∧ numberLetters.lookup k = some width := by
        simp only [numberLetters, List.mem_cons, Prod.mk.injEq, List.not_mem_nil, or_false] at h
        rcases h with ⟨rfl, rfl⟩ | ⟨rfl, rfl⟩ | ⟨rfl, rfl⟩ <;> decide
      have hlen := length_hexPadded hwidth.1 hlt
      simp [unquoteChar?, hwidth.2, hlen, hexNumber_hexPadded, Char.ofNat_toNat]

/-! ## Strings -/

theorem eq_of_flatMap_quoteChar {mark : Char} (hmark : mark ∈ quoteMarks) {cs cs' : Text}
    (h : cs.flatMap (quoteChar mark) = cs'.flatMap (quoteChar mark)) : cs = cs' := by
  have hread (c : Char) (cs : Text) : unquoteChar? ((c :: cs).flatMap (quoteChar mark)) =
      some (c, cs.flatMap (quoteChar mark)) := by
    rw [List.flatMap_cons]
    exact (quoted_quoteChar mark c).unquoteChar?_append hmark _
  induction cs generalizing cs' with
  | nil =>
      cases cs' with
      | nil => rfl
      | cons c' cs' =>
          have hread' := hread c' cs'
          rw [← h] at hread'
          simp [unquoteChar?] at hread'
  | cons c cs ih =>
      have hread' := hread c cs
      rw [h] at hread'
      cases cs' with
      | nil => simp [unquoteChar?] at hread'
      | cons c' cs' =>
          rw [hread c', Option.some.injEq, Prod.mk.injEq] at hread'
          rw [hread'.1, ih hread'.2.symm]

inductive Escaped (mark : Char) : Text → Prop where
  | nil : Escaped mark []
  | plain {c : Char} {rest : Text} (hc : c ≠ mark) (hrest : Escaped mark rest) :
      Escaped mark (c :: rest)
  | pair (c : Char) {rest : Text} (hrest : Escaped mark rest) : Escaped mark ('\\' :: c :: rest)

namespace Escaped

variable {mark : Char} {before after rest : Text}

theorem append_of_not_mem (hrest : Escaped mark rest) {t : Text} (ht : mark ∉ t) :
    Escaped mark (t ++ rest) := by
  induction t with
  | nil => exact hrest
  | cons c t ih =>
      rw [List.mem_cons, not_or] at ht
      exact .plain (Ne.symm ht.1) (ih ht.2)

theorem getLast?_before (hmark : mark ∈ quoteMarks) (h : Escaped mark (before ++ mark :: after)) :
    before.getLast? = some '\\' := by
  generalize ht : before ++ mark :: after = t at h
  induction h generalizing before with
  | nil => simp at ht
  | plain hc _ ih =>
      cases before with
      | nil => exact absurd (List.cons.inj ht).1.symm hc
      | cons d before =>
          have hlast := ih (List.cons.inj ht).2
          rw [List.getLast?_cons, hlast, Option.getD_some]
  | pair c _ ih =>
      match before with
      | [] =>
          obtain rfl : mark = '\\' := (List.cons.inj ht).1
          exact absurd hmark (by decide)
      | [d] =>
          obtain rfl : d = '\\' := (List.cons.inj ht).1
          rfl
      | d :: e :: before =>
          have hlast := ih (List.cons.inj (List.cons.inj ht).2).2
          rw [List.getLast?_cons_cons, List.getLast?_cons, hlast, Option.getD_some]

end Escaped

theorem Quoted.escaped {mark c : Char} {t rest : Text} (h : Quoted mark c t)
    (hmark : mark ∈ quoteMarks) (hrest : Escaped mark rest) : Escaped mark (t ++ rest) := by
  cases h with
  | plain hc _ => exact .plain hc hrest
  | mark _ => exact .pair c hrest
  | letter _ => exact .pair _ hrest
  | number _ _ =>
      refine .pair _ (hrest.append_of_not_mem fun hmem => ?_)
      have hdigit := isSome_hexValue?_of_mem_hexPadded hmem
      rcases mem_quoteMarks.mp hmark with rfl | rfl
      · exact absurd hdigit (by decide)
      · exact absurd hdigit (by decide)

theorem escaped_flatMap {mark : Char} (hmark : mark ∈ quoteMarks) (cs : Text) :
    Escaped mark (cs.flatMap (quoteChar mark)) := by
  induction cs with
  | nil => exact .nil
  | cons c cs ih =>
      rw [List.flatMap_cons]
      exact (quoted_quoteChar mark c).escaped hmark ih

theorem exists_toList_quoteString (s : String) : ∃ mark ∈ quoteMarks,
    (quoteString s).toList = mark :: (s.toList.flatMap (quoteChar mark) ++ [mark]) := by
  have hquote (mark : Char) : (String.ofList (mark :: s.toList.flatMap (quoteChar mark) ++
      [mark])).toList = mark :: (s.toList.flatMap (quoteChar mark) ++ [mark]) := by
    rw [String.toList_ofList, List.cons_append]
  unfold quoteString
  simp only
  split
  · exact ⟨'"', by decide, hquote _⟩
  · exact ⟨'\x27', by decide, hquote _⟩

/-- Texts that are the same up to their last characters of a class. -/
theorem eq_of_append_last {p : Char → Prop} {before before' after after' : Text} {c c' : Char}
    (hc : p c) (hc' : p c') (hafter : ∀ d ∈ after, ¬p d) (hafter' : ∀ d ∈ after', ¬p d)
    (h : before ++ c :: after = before' ++ c' :: after') :
    before = before' ∧ c = c' ∧ after = after' := by
  rcases List.append_eq_append_iff.mp h with ⟨more, rfl, hmore⟩ | ⟨more, rfl, hmore⟩
  · cases more with
    | nil => simpa using hmore
    | cons d more =>
        rw [List.cons_append, List.cons.injEq] at hmore
        exact absurd hc' (hafter c' (by simp [hmore.2]))
  · cases more with
    | nil => simpa [eq_comm] using hmore
    | cons d more =>
        rw [List.cons_append, List.cons.injEq] at hmore
        exact absurd hc (hafter' c (by simp [hmore.2]))

/-- A quoted string with no backslash right before it and no mark after it can be told from what
stands around it. -/
theorem eq_of_quoteString {before before' after after' : Text} {s s' : String}
    (hbefore : before.getLast? ≠ some '\\') (hbefore' : before'.getLast? ≠ some '\\')
    (hafter : isUnmarked after = true) (hafter' : isUnmarked after' = true)
    (h : before ++ ((quoteString s).toList ++ after) =
      before' ++ ((quoteString s').toList ++ after')) :
    before = before' ∧ s = s' ∧ after = after' := by
  obtain ⟨mark, hmark, hquote⟩ := exists_toList_quoteString s
  obtain ⟨mark', hmark', hquote'⟩ := exists_toList_quoteString s'
  have hsplit (before body after : Text) (mark : Char) :
      before ++ (mark :: (body ++ [mark]) ++ after) =
        (before ++ mark :: body) ++ mark :: after := by
    simp
  rw [hquote, hquote', hsplit, hsplit] at h
  obtain ⟨hopen, rfl, rfl⟩ :=
    eq_of_append_last (p := (· ∈ quoteMarks)) hmark hmark' (not_mem_quoteMarks hafter)
      (not_mem_quoteMarks hafter') h
  -- the text that is longer up to its opening mark has that mark inside the other string
  have hinside {before before' more : Text} {cs cs' : Text} (hmore : before' = before ++ more)
      (hbefore' : before'.getLast? ≠ some '\\')
      (heq : mark :: cs.flatMap (quoteChar mark) = more ++ mark :: cs') : more = [] := by
    cases more with
    | nil => rfl
    | cons d more =>
        rw [List.cons_append, List.cons.injEq] at heq
        have hlast := (heq.2 ▸ escaped_flatMap hmark cs).getLast?_before hmark
        refine absurd ?_ hbefore'
        rw [hmore, List.getLast?_append, List.getLast?_cons, hlast]
        rfl
  rcases List.append_eq_append_iff.mp hopen with ⟨more, hmore, heq⟩ | ⟨more, hmore, heq⟩
  · obtain rfl := hinside hmore hbefore' heq
    rw [List.nil_append, List.cons.injEq] at heq
    rw [List.append_nil] at hmore
    exact ⟨hmore.symm, String.toList_inj.mp (eq_of_flatMap_quoteChar hmark heq.2), rfl⟩
  · obtain rfl := hinside hmore hbefore heq
    rw [List.nil_append, List.cons.injEq] at heq
    rw [List.append_nil] at hmore
    exact ⟨hmore, String.toList_inj.mp (eq_of_flatMap_quoteChar hmark heq.2.symm), rfl⟩

end Kouetsu
