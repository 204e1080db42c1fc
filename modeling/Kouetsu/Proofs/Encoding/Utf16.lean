import Kouetsu.Encoding.Utf16
/-!
# Writing UTF-16

A text is written unit by unit, each in two bytes.  What is written in one byte order is read in it
again.
-/

namespace Kouetsu

namespace Utf16

/-- The units of a character: itself, or beyond the basic plane a pair of surrogates. -/
def unitsOf (c : Char) : List Nat :=
  if c.toNat < 0x10000 then [c.toNat]
  else [0xd800 + (c.toNat - 0x10000) / 0x400, 0xdc00 + (c.toNat - 0x10000) % 0x400]

def halves (u : Nat) : List Nat := [u / 256, u % 256]

def bytesOf (o : ByteOrder) (u : Nat) : List UInt8 :=
  match o with
  | .little => (halves u).reverse.map UInt8.ofNat
  | .big => (halves u).map UInt8.ofNat

def unitsOfText (t : Text) : List Nat := t.flatMap unitsOf

/-- The bytes of a text in one byte order, behind the mark that shows it. -/
def write (o : ByteOrder) (t : Text) : List UInt8 := mark o ++ (unitsOfText t).flatMap (bytesOf o)

/-! ## Units -/

theorem toNat_ranges (c : Char) :
    c.toNat < 0xd800 ∨ (0xe000 ≤ c.toNat ∧ c.toNat < 0x10000) ∨
      (0x10000 ≤ c.toNat ∧ c.toNat < 0x110000) := by
  have hvalid : c.toNat < 0xd800 ∨ (0xdfff < c.toNat ∧ c.toNat < 0x110000) := c.valid
  omega

theorem lt_of_mem_unitsOf {c : Char} {u : Nat} (hu : u ∈ unitsOf c) : u < 0x10000 := by
  rw [unitsOf] at hu
  split at hu
  · next hbasic => rwa [List.mem_singleton.mp hu]
  · have hrange := toNat_ranges c
    rcases List.mem_cons.mp hu with rfl | hu
    · omega
    · rw [List.mem_singleton.mp hu]
      omega

theorem lt_of_mem_unitsOfText {t : Text} {u : Nat} (hu : u ∈ unitsOfText t) : u < 0x10000 := by
  obtain ⟨c, _, hu⟩ := List.mem_flatMap.mp hu
  exact lt_of_mem_unitsOf hu

theorem ofUnits?_unitsOf_append (c : Char) (us : List Nat) :
    ofUnits? (unitsOf c ++ us) = (ofUnits? us).map (c :: ·) := by
  rw [unitsOf]
  split
  · next hbasic =>
      -- no character is a surrogate, so the unit stands alone
      have hhigh : isHighSurrogate c.toNat = false := by
        have hrange := toNat_ranges c
        simp only [isHighSurrogate, Bool.and_eq_false_iff, decide_eq_false_iff_not]
        omega
      have hlow : isLowSurrogate c.toNat = false := by
        have hrange := toNat_ranges c
        simp only [isLowSurrogate, Bool.and_eq_false_iff, decide_eq_false_iff_not]
        omega
      rw [List.singleton_append, ofUnits?.eq_def]
      simp only [hhigh, hlow, Bool.false_eq_true, if_false, Char.ofNat_toNat]
  · next hbeyond =>
      have hrange := toNat_ranges c
      -- each surrogate holds ten bits of the distance from the basic plane
      generalize hn : c.toNat - 0x10000 = n
      have hhigh : isHighSurrogate (0xd800 + n / 0x400) = true := by
        simp only [isHighSurrogate, Bool.and_eq_true, decide_eq_true_eq]
        omega
      have hlow : isLowSurrogate (0xdc00 + n % 0x400) = true := by
        simp only [isLowSurrogate, Bool.and_eq_true, decide_eq_true_eq]
        omega
      have hjoined : 0x10000 + 0x400 * (0xd800 + n / 0x400 - 0xd800) +
          (0xdc00 + n % 0x400 - 0xdc00) = c.toNat := by omega
      rw [List.cons_append, List.singleton_append, ofUnits?.eq_def]
      simp only [hhigh, hlow, if_true, hjoined, Char.ofNat_toNat]

theorem ofUnits?_unitsOfText (t : Text) : ofUnits? (unitsOfText t) = some t := by
  induction t with
  | nil => rfl
  | cons c t ih =>
      rw [unitsOfText, List.flatMap_cons, ofUnits?_unitsOf_append]
      rw [unitsOfText] at ih
      rw [ih, Option.map_some]

/-! ## Bytes -/

theorem units?_bytesOf_append (o : ByteOrder) {u : Nat} (hu : u < 0x10000) (bytes : List UInt8) :
    units? o (bytesOf o u ++ bytes) = (units? o bytes).map (u :: ·) := by
  have hhigh : (UInt8.ofNat (u / 256)).toNat = u / 256 :=
    UInt8.toNat_ofNat_of_lt' (Nat.div_lt_of_lt_mul hu)
  have hlow : (UInt8.ofNat (u % 256)).toNat = u % 256 :=
    UInt8.toNat_ofNat_of_lt' (Nat.mod_lt u (by decide))
  cases o with
  | little =>
      show (units? .little bytes).map (unit .little (.ofNat (u % 256)) (.ofNat (u / 256)) :: ·) = _
      rw [unit, hhigh, hlow, Nat.mod_add_div]
  | big =>
      show (units? .big bytes).map (unit .big (.ofNat (u / 256)) (.ofNat (u % 256)) :: ·) = _
      rw [unit, hhigh, hlow, Nat.div_add_mod]

theorem units?_flatMap_bytesOf (o : ByteOrder) {us : List Nat} (hus : ∀ u ∈ us, u < 0x10000) :
    units? o (us.flatMap (bytesOf o)) = some us := by
  induction us with
  | nil => rfl
  | cons u us ih =>
      obtain ⟨hu, hus⟩ := List.forall_mem_cons.mp hus
      rw [List.flatMap_cons, units?_bytesOf_append o hu, ih hus, Option.map_some]

theorem order?_mark_append (o : ByteOrder) (bytes : List UInt8) :
    order? (mark o ++ bytes) = some o := by
  cases o <;> rfl

theorem decode?_write (o : ByteOrder) (t : Text) : decode? o ((write o t).drop 2) = some t := by
  have hdrop : (write o t).drop 2 = (unitsOfText t).flatMap (bytesOf o) := by cases o <;> rfl
  rw [decode?, hdrop, units?_flatMap_bytesOf o fun _ => lt_of_mem_unitsOfText]
  exact ofUnits?_unitsOfText t

end Utf16

end Kouetsu
