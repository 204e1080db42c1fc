import Kouetsu.Encoding.Basic
import Kouetsu.Proofs.Encoding.Utf16
/-!
# Files that are read back

A text with few control characters is read back from a file that holds it in UTF-8, since the bytes
of other characters are no control bytes.  In UTF-16 they may be: of the two bytes of an ASCII
character one always is.  So a file in UTF-16 is decoded, but not always read.
-/

namespace Kouetsu

def isControlCode (n : Nat) : Bool := n ≤ 8 || n = 11 || n = 12 || (14 ≤ n && n ≤ 31)

/-- Texts of which fewer than three tenths are control characters. -/
def FewControls (t : Text) : Prop :=
  t = [] ∨ 10 * t.countP (isControlCode ·.toNat) < 3 * t.length

theorem isControlByte_eq (b : UInt8) : isControlByte b = isControlCode b.toNat := by
  have heq (n : UInt8) : decide (b = n) = decide (b.toNat = n.toNat) :=
    decide_eq_decide.mpr UInt8.toNat_inj.symm
  rw [isControlByte, heq, heq]
  rfl

theorem looksLikeText_toByteArray (bytes : List UInt8) : looksLikeText bytes.toByteArray = true ↔
    bytes = [] ∨ 10 * bytes.countP isControlByte < 3 * bytes.length := by
  rw [looksLikeText, ByteArray.isEmpty, List.toList_data_toByteArray, List.size_toByteArray,
    Bool.or_eq_true, decide_eq_true_eq, beq_iff_eq, List.length_eq_zero_iff]

/-! ## UTF-8 -/

def utf8Mark : List UInt8 := [0xef, 0xbb, 0xbf]

theorem utf8Encode_cons_mark (t : Text) :
    ('\ufeff' :: t).utf8Encode = utf8Mark.toByteArray ++ t.utf8Encode := by
  rw [List.utf8Encode_cons, List.utf8Encode_singleton]
  rfl

/-- A character is its own byte, or none of its bytes is a character of its own. -/
theorem utf8EncodeChar_cases (c : Char) :
    (c.toNat < 128 ∧ String.utf8EncodeChar c = [UInt8.ofNat c.toNat]) ∨
      (128 ≤ c.toNat ∧ ∀ b ∈ String.utf8EncodeChar c, 128 ≤ b.toNat ∧ b.toNat < 248) := by
  have hval : c.val.toNat = c.toNat := rfl
  unfold String.utf8EncodeChar
  rw [hval]
  dsimp only
  split
  · exact Or.inl ⟨by omega, rfl⟩
  · refine Or.inr ⟨by omega, ?_⟩
    split
    · simp
      omega
    · split
      · simp
        omega
      · simp
        omega

theorem toNat_lt_of_mem_utf8EncodeChar {c : Char} {b : UInt8} (hb : b ∈ String.utf8EncodeChar c) :
    b.toNat < 248 := by
  rcases utf8EncodeChar_cases c with ⟨hc, hbyte⟩ | ⟨_, hbytes⟩
  · rw [hbyte, List.mem_singleton] at hb
    rw [hb, UInt8.toNat_ofNat_of_lt' (show c.toNat < 256 by omega)]
    omega
  · exact (hbytes b hb).2

theorem countP_utf8EncodeChar (c : Char) : (String.utf8EncodeChar c).countP isControlByte =
    if isControlCode c.toNat then 1 else 0 := by
  rcases utf8EncodeChar_cases c with ⟨hc, hbyte⟩ | ⟨hc, hbytes⟩
  · rw [hbyte, List.countP_singleton, isControlByte_eq,
      UInt8.toNat_ofNat_of_lt' (show c.toNat < 256 by omega)]
  · have hcontrol {n : Nat} (hn : 128 ≤ n) : ¬isControlCode n = true := by
      simp only [isControlCode, Bool.or_eq_true, Bool.and_eq_true, decide_eq_true_eq]
      omega
    rw [if_neg (hcontrol hc), List.countP_eq_zero]
    intro b hb
    rw [isControlByte_eq]
    exact hcontrol (hbytes b hb).1

theorem countP_flatMap_utf8EncodeChar (t : Text) :
    (t.flatMap String.utf8EncodeChar).countP isControlByte =
      t.countP (isControlCode ·.toNat) := by
  induction t with
  | nil => rfl
  | cons c t ih =>
      rw [List.flatMap_cons, List.countP_append, ih, countP_utf8EncodeChar, List.countP_cons,
        Nat.add_comm]

theorem length_le_flatMap_utf8EncodeChar (t : Text) :
    t.length ≤ (t.flatMap String.utf8EncodeChar).length := by
  induction t with
  | nil => exact Nat.le_refl 0
  | cons c t ih =>
      have hpos : 0 < (String.utf8EncodeChar c).length :=
        List.length_pos_iff.mpr String.utf8EncodeChar_ne_nil
      rw [List.flatMap_cons, List.length_append, List.length_cons]
      omega

theorem decodeUtf8?_utf8Encode (t : Text) : decodeUtf8? t.utf8Encode = some t := by
  rw [decodeUtf8?, List.utf8Decode?_utf8Encode]
  rfl

theorem eq_utf8Encode_of_decodeUtf8? {bytes : ByteArray} {t : Text}
    (h : decodeUtf8? bytes = some t) : bytes = t.utf8Encode := by
  obtain ⟨read, hread, rfl⟩ := Option.map_eq_some_iff.mp h
  have hvalid : bytes.utf8Decode?.isSome := by simp [hread]
  have hbytes := ByteArray.utf8Encode_get_utf8Decode? (b := bytes) (h := hvalid)
  simp only [hread, Option.get_some] at hbytes
  exact hbytes.symm

theorem looksLikeText_utf8Encode {t : Text} (h : FewControls t) :
    looksLikeText t.utf8Encode = true := by
  rw [List.utf8Encode, looksLikeText_toByteArray, countP_flatMap_utf8EncodeChar]
  have hlong := length_le_flatMap_utf8EncodeChar t
  rcases h with rfl | h
  · exact Or.inl rfl
  · exact Or.inr (by omega)

theorem decodeBytes?_utf8Encode (t : Text) :
    decodeBytes? t.utf8Encode = some (t.dropWhile (· = '\ufeff')) := by
  rw [decodeBytes?, decodeUtf8?_utf8Encode]
  rfl

/-! ## UTF-16 -/

namespace Utf16

/-- The numbers that the bytes of a text in UTF-16 stand for, by unit, the higher half first. -/
def halvesOfText (t : Text) : List Nat := (unitsOfText t).flatMap halves

theorem countP_bytesOf (o : ByteOrder) {u : Nat} (hu : u < 0x10000) :
    (bytesOf o u).countP isControlByte = (halves u).countP isControlCode := by
  have hhigh : (UInt8.ofNat (u / 256)).toNat = u / 256 :=
    UInt8.toNat_ofNat_of_lt' (Nat.div_lt_of_lt_mul hu)
  have hlow : (UInt8.ofNat (u % 256)).toNat = u % 256 :=
    UInt8.toNat_ofNat_of_lt' (Nat.mod_lt u (by decide))
  have hbytes : ((halves u).map UInt8.ofNat).countP isControlByte =
      (halves u).countP isControlCode := by
    simp only [halves, List.map_cons, List.map_nil, List.countP_cons, List.countP_nil,
      isControlByte_eq, hhigh, hlow]
  cases o with
  | little => rw [bytesOf, List.map_reverse, List.countP_reverse, hbytes]
  | big => rw [bytesOf, hbytes]

theorem countP_write (o : ByteOrder) (t : Text) :
    (write o t).countP isControlByte = (halvesOfText t).countP isControlCode := by
  have hbody {us : List Nat} (hus : ∀ u ∈ us, u < 0x10000) :
      (us.flatMap (bytesOf o)).countP isControlByte =
        (us.flatMap halves).countP isControlCode := by
    induction us with
    | nil => rfl
    | cons u us ih =>
        obtain ⟨hu, hus⟩ := List.forall_mem_cons.mp hus
        rw [List.flatMap_cons, List.flatMap_cons, List.countP_append, List.countP_append,
          countP_bytesOf o hu, ih hus]
  have hmark : (mark o).countP isControlByte = 0 := by cases o <;> rfl
  rw [write, List.countP_append, hmark, Nat.zero_add, halvesOfText]
  exact hbody fun _ => lt_of_mem_unitsOfText

theorem length_write (o : ByteOrder) (t : Text) :
    (write o t).length = 2 + (halvesOfText t).length := by
  have hbody (us : List Nat) :
      (us.flatMap (bytesOf o)).length = (us.flatMap halves).length := by
    induction us with
    | nil => rfl
    | cons u us ih =>
        rw [List.flatMap_cons, List.flatMap_cons, List.length_append, List.length_append, ih]
        cases o <;> rfl
  have hmark : (mark o).length = 2 := by cases o <;> rfl
  rw [write, List.length_append, hmark, hbody, halvesOfText]

theorem decodeUtf8?_write (o : ByteOrder) (t : Text) :
    decodeUtf8? (write o t).toByteArray = none := by
  cases h : decodeUtf8? (write o t).toByteArray with
  | none => rfl
  | some t' =>
      -- a byte of the mark is above all that UTF-8 consists of
      have hbytes : write o t = t'.flatMap String.utf8EncodeChar :=
        List.toByteArray_inj.mp (eq_utf8Encode_of_decodeUtf8? h)
      have hff : (0xff : UInt8) ∈ write o t := by cases o <;> simp [write, mark]
      rw [hbytes] at hff
      obtain ⟨c, _, hc⟩ := List.mem_flatMap.mp hff
      exact absurd (toNat_lt_of_mem_utf8EncodeChar hc) (by decide)

theorem decodeBytes?_write (o : ByteOrder) (t : Text) :
    decodeBytes? (write o t).toByteArray = some (t.dropWhile (· = '\ufeff')) := by
  have horder : order? (write o t) = some o := order?_mark_append o _
  rw [decodeBytes?, decodeUtf8?_write, List.toList_data_toByteArray, decodeUtf16?, horder]
  simp only [Option.bind_eq_bind, Option.bind_some, decode?_write]
  rfl

end Utf16

/-! ## Reading -/

theorem dropWhile_mark {t : Text} (h : t.head? ≠ some '\ufeff') :
    t.dropWhile (· = '\ufeff') = t := by
  cases t with
  | nil => rfl
  | cons c t =>
      have hc : c ≠ '\ufeff' := fun hc => h (congrArg some hc)
      rw [List.dropWhile_cons_of_neg (by simpa using hc)]

/-- How a text comes back from a file that holds it. -/
structure ComesBack (t : Text) : Prop where
  /-- In UTF-8 it is read. -/
  utf8 : FewControls t → readableText? t.utf8Encode = some t
  /-- It is read behind a mark, too. -/
  marked : FewControls t → readableText? (utf8Mark.toByteArray ++ t.utf8Encode) = some t
  /-- In UTF-16 it is decoded, in either byte order. -/
  decoded : ∀ o, decodeBytes? (Utf16.write o t).toByteArray = some t
  /-- But it is read only where few of the bytes are control bytes, and else nothing is. -/
  utf16 : ∀ o, readableText? (Utf16.write o t).toByteArray =
    if 10 * (Utf16.halvesOfText t).countP isControlCode < 3 * (2 + (Utf16.halvesOfText t).length)
      then some t else none

/-- A text that does not start with a byte order mark comes back from UTF-8 if it has few control
characters, and from UTF-16 if it has few control bytes. -/
theorem readableText?_comesBack {t : Text} (hmark : t.head? ≠ some '\ufeff') : ComesBack t where
  utf8 h := by
    rw [readableText?, if_pos (looksLikeText_utf8Encode h), decodeBytes?_utf8Encode,
      dropWhile_mark hmark]
  marked h := by
    -- the mark is one more character and no control character
    have hmarked : FewControls ('\ufeff' :: t) := by
      refine Or.inr ?_
      rw [List.countP_cons_of_neg (by decide), List.length_cons]
      rcases h with rfl | h
      · decide
      · omega
    rw [← utf8Encode_cons_mark, readableText?, if_pos (looksLikeText_utf8Encode hmarked),
      decodeBytes?_utf8Encode, List.dropWhile_cons_of_pos (by decide), dropWhile_mark hmark]
  decoded o := by rw [Utf16.decodeBytes?_write, dropWhile_mark hmark]
  utf16 o := by
    have hne : Utf16.write o t ≠ [] := by cases o <;> simp [Utf16.write, Utf16.mark]
    have hlooks := looksLikeText_toByteArray (Utf16.write o t)
    rw [or_iff_right hne, Utf16.countP_write, Utf16.length_write] at hlooks
    simp only [readableText?, hlooks, Utf16.decodeBytes?_write, dropWhile_mark hmark]

/-- A text with a control character, in a character of two units and in none. -/
theorem readableText?_comesBack_mixed :
    "あ\x07𠮟る".toList.head? ≠ some '\ufeff' ∧ ComesBack "あ\x07𠮟る".toList :=
  ⟨by decide, readableText?_comesBack (by decide)⟩

theorem Utf16.halvesOfText_ascii {t : Text} (hascii : ∀ c ∈ t, c.toNat < 128) :
    (halvesOfText t).length = 2 * t.length ∧ t.length ≤ (halvesOfText t).countP isControlCode := by
  induction t with
  | nil => exact ⟨rfl, Nat.le_refl 0⟩
  | cons c t ih =>
      obtain ⟨hc, hascii⟩ := List.forall_mem_cons.mp hascii
      obtain ⟨hlength, hcount⟩ := ih hascii
      have hunits : unitsOf c = [c.toNat] := if_pos (by omega)
      have hcons : halvesOfText (c :: t) = 0 :: c.toNat :: halvesOfText t := by
        rw [halvesOfText, unitsOfText, List.flatMap_cons, hunits, List.singleton_append,
          List.flatMap_cons, halves, Nat.div_eq_of_lt (by omega), Nat.mod_eq_of_lt (by omega)]
        rfl
      rw [hcons, List.countP_cons_of_pos (by decide)]
      refine ⟨by simp only [List.length_cons]; omega, ?_⟩
      have hmore : (halvesOfText t).countP isControlCode ≤
          (c.toNat :: halvesOfText t).countP isControlCode :=
        (List.sublist_cons_self c.toNat _).countP_le
      rw [List.length_cons]
      omega

/-- No ASCII text of two characters or more is read from a file in UTF-16. -/
theorem readableText?_utf16_ascii {t : Text} (hascii : ∀ c ∈ t, c.toNat < 128)
    (hlong : 2 ≤ t.length) (o : ByteOrder) :
    readableText? (Utf16.write o t).toByteArray = none := by
  obtain ⟨hlength, hcount⟩ := Utf16.halvesOfText_ascii hascii
  rw [readableText?, if_neg]
  rw [looksLikeText_toByteArray, Utf16.countP_write, Utf16.length_write]
  rintro (hnil | hfew)
  · cases o <;> simp [Utf16.write, Utf16.mark] at hnil
  · omega

/-- Two letters have no control characters, but are not read from a file in UTF-16. -/
theorem readableText?_utf16_letters :
    "ab".toList.head? ≠ some '\ufeff' ∧ FewControls "ab".toList ∧
      Utf16.write .little "ab".toList = [0xff, 0xfe, 0x61, 0x00, 0x62, 0x00] ∧
        readableText? (Utf16.write .little "ab".toList).toByteArray = none :=
  ⟨by decide, Or.inr (by decide), rfl, readableText?_utf16_ascii (by simp) (by decide) .little⟩

end Kouetsu
