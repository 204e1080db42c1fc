import Kouetsu.Config.Key
import Kouetsu.Proofs.Json.Write
/-!
# Spellings of option names

The name of an option is a row of words.  A capital, a hyphen or an underscore tells a word from
the one before it, and whichever does, even a different one each time, the name comes down to its
words with underscores between them.
-/

namespace Kouetsu

/-! ## Small letters and digits -/

def IsSmall (c : Char) : Prop := c.isLower = true ∨ c.isDigit = true

instance (c : Char) : Decidable (IsSmall c) := inferInstanceAs (Decidable (_ ∨ _))

variable {b c : Char} {t u r : Text}

theorem isLower_iff : c.isLower = true ↔ 97 ≤ c.toNat ∧ c.toNat ≤ 122 :=
  (Bool.and_eq_true _ _).to_iff.trans (and_congr decide_eq_true_iff decide_eq_true_iff)

theorem isUpper_iff : c.isUpper = true ↔ 65 ≤ c.toNat ∧ c.toNat ≤ 90 := decide_eq_true_iff

theorem isSmall_iff : IsSmall c ↔ 97 ≤ c.toNat ∧ c.toNat ≤ 122 ∨ 48 ≤ c.toNat ∧ c.toNat ≤ 57 :=
  or_congr isLower_iff Char.isDigit_iff_toNat

theorem toNat_toUpper (h : c.isLower = true) : c.toUpper.toNat = c.toNat - 32 := by
  have hrange := isLower_iff.mp h
  have hletter : 'a'.val ≤ c.val ∧ c.val ≤ 'z'.val := hrange
  have hval : c.toUpper.val = c.val + ('A'.val - 'a'.val) := by
    delta Char.toUpper
    rw [dif_pos hletter]
  have hshift : ('A'.val - 'a'.val).toNat = 2 ^ 32 - 32 := rfl
  rw [← Char.toNat_val, hval, UInt32.toNat_add, Char.toNat_val]
  omega

theorem isUpper_toUpper (h : c.isLower = true) : c.toUpper.isUpper = true := by
  have hcapital := toNat_toUpper h
  have hrange := isLower_iff.mp h
  rw [isUpper_iff]
  omega

theorem lowerChar_of_isSmall (h : IsSmall c) : lowerChar c = c := by
  rw [isSmall_iff] at h
  rw [lowerChar, lowerCode_of_lt (by omega), if_neg (by omega), Char.ofNat_toNat]

theorem lowerChar_toUpper (h : c.isLower = true) : lowerChar c.toUpper = c := by
  have hcapital := toNat_toUpper h
  rw [isLower_iff] at h
  rw [lowerChar, lowerCode_of_lt (by omega), if_pos (by omega), hcapital,
    show c.toNat - 32 + 32 = c.toNat by omega, Char.ofNat_toNat]

/-! ## Starts of words -/

theorem startsWord_some (b c : Char) (after : Option Char) :
    startsWord (some b) c after =
      (c.isUpper && (b.isLower || b.isDigit || b.isUpper && after.any Char.isLower)) := by
  have hupper : Char.isUpper = fun c => decide ('A' ≤ c) && decide (c ≤ 'Z') :=
    funext fun _ => Bool.decide_and _ _
  rw [hupper]
  rfl

theorem startsWord_of_not_isUpper (h : c.isUpper = false) (before after : Option Char) :
    startsWord before c after = false := by
  cases before with
  | none => rfl
  | some b => rw [startsWord_some, h, Bool.false_and]

theorem startsWord_of_isSmall (hb : IsSmall b) (hc : c.isUpper = true) (after : Option Char) :
    startsWord (some b) c after = true := by
  have hsmall : (b.isLower || b.isDigit) = true := Bool.or_eq_true _ _ ▸ hb
  rw [startsWord_some, hc, hsmall]
  rfl

theorem separateWords_of_not_isUpper (h : c.isUpper = false) (before : Option Char) (t : Text) :
    separateWords before (c :: t) = c :: separateWords (some c) t := by
  rw [separateWords, startsWord_of_not_isUpper h, if_neg Bool.false_ne_true]

theorem separateWords_of_isUpper (hb : IsSmall b) (h : c.isUpper = true) (t : Text) :
    separateWords (some b) (c :: t) = '_' :: c :: separateWords (some c) t := by
  rw [separateWords, startsWord_of_isSmall hb h, if_pos rfl]

theorem IsSmall.isUpper_eq_false (h : IsSmall c) : c.isUpper = false := by
  rw [Bool.eq_false_iff, Ne, isUpper_iff]
  rw [isSmall_iff] at h
  omega

/-- No word starts inside small letters and digits, so what follows them is separated as it is
after any of them. -/
theorem separateWords_append (hne : t ≠ []) (ht : ∀ c ∈ t, IsSmall c)
    (hu : ∀ b, IsSmall b → separateWords (some b) u = r) (before : Option Char) :
    separateWords before (t ++ u) = t ++ r := by
  induction t generalizing before with
  | nil => contradiction
  | cons c t ih =>
      obtain ⟨hc, ht⟩ := List.forall_mem_cons.mp ht
      rw [List.cons_append, separateWords_of_not_isUpper hc.isUpper_eq_false, List.cons_append]
      cases t with
      | nil => rw [List.nil_append, List.nil_append, hu c hc]
      | cons d t => rw [ih (List.cons_ne_nil d t) ht]

theorem mem_separateWords {before : Option Char} (h : c ∈ separateWords before t) :
    c = '_' ∨ c ∈ t := by
  induction t generalizing before with
  | nil => exact Or.inr h
  | cons d t ih =>
      have htail (h : c ∈ separateWords (some d) t) : c = '_' ∨ c ∈ d :: t :=
        (ih h).imp_right (List.mem_cons_of_mem d)
      rw [separateWords] at h
      split at h
      · rcases List.mem_cons.mp h with rfl | h
        · exact Or.inl rfl
        · rcases List.mem_cons.mp h with rfl | h
          · exact Or.inr List.mem_cons_self
          · exact htail h
      · rcases List.mem_cons.mp h with rfl | h
        · exact Or.inr List.mem_cons_self
        · exact htail h

/-! ## Characters of a name -/

def respelled (c : Char) : Char := lowerChar (if c = '-' then '_' else c)

theorem respelled_of_isSmall (h : IsSmall c) : respelled c = c := by
  have hne : c ≠ '-' := by
    rintro rfl
    exact absurd h (by decide)
  rw [respelled, if_neg hne, lowerChar_of_isSmall h]

theorem respelled_toUpper (h : c.isLower = true) : respelled c.toUpper = c := by
  have hne : c.toUpper ≠ '-' := by
    intro heq
    have hcapital := toNat_toUpper h
    have hrange := isLower_iff.mp h
    have hhyphen : c.toUpper.toNat = 45 := congrArg Char.toNat heq
    omega
  rw [respelled, if_neg hne, lowerChar_toUpper h]

theorem snakeCase_ofList (h : ∀ c ∈ t, c.toNat < 128) :
    snakeCase (String.ofList t) = String.ofList ((separateWords none t).map respelled) := by
  rw [snakeCase, String.toList_ofList, Text.lower_eq_map, List.map_map]
  · rfl
  · intro c hc
    obtain ⟨d, hd, rfl⟩ := List.mem_map.mp hc
    have hascii : d.toNat < 128 := by
      rcases mem_separateWords hd with rfl | hd
      · decide
      · exact h d hd
    split
    · decide
    · omega

/-! ## Words -/

/-- A word of an option name: a small letter, then small letters and digits. -/
structure KeyWord where
  initial : Char
  tail : Text
  initial_isLower : initial.isLower = true
  tail_ne_nil : tail ≠ []
  tail_isSmall : ∀ c ∈ tail, IsSmall c

inductive Joint where
  | capital
  | hyphen
  | underscore
deriving DecidableEq, Repr

namespace KeyWord

def letters (w : KeyWord) : Text := w.initial :: w.tail

def capitalised (w : KeyWord) : Text := w.initial.toUpper :: w.tail

def name (w : KeyWord) : String := String.ofList w.letters

def camelCase : List KeyWord → String
  | [] => ""
  | first :: rest => String.ofList (first.letters ++ rest.flatMap capitalised)

def joined (w : KeyWord) : Joint → Text
  | .capital => w.capitalised
  | .hyphen => '-' :: w.letters
  | .underscore => '_' :: w.letters

def separated (w : KeyWord) : Joint → Text
  | .capital => '_' :: w.capitalised
  | .hyphen => '-' :: w.letters
  | .underscore => '_' :: w.letters

def spelling (first : KeyWord) (rest : List (KeyWord × Joint)) : Text :=
  first.letters ++ rest.flatMap fun x => x.1.joined x.2

variable (w first : KeyWord) (rest : List (KeyWord × Joint))

theorem initial_isSmall : IsSmall w.initial := Or.inl w.initial_isLower

theorem letters_isSmall : ∀ c ∈ w.letters, IsSmall c :=
  List.forall_mem_cons.mpr ⟨w.initial_isSmall, w.tail_isSmall⟩

theorem letters_ne_nil : w.letters ≠ [] := List.cons_ne_nil _ _

/-! ## Separated words -/

theorem separateWords_joined (j : Joint) (hb : IsSmall b)
    (hu : ∀ b, IsSmall b → separateWords (some b) u = r) :
    separateWords (some b) (w.joined j ++ u) = w.separated j ++ r := by
  have hletters (c : Char) : separateWords (some c) (w.letters ++ u) = w.letters ++ r :=
    separateWords_append w.letters_ne_nil w.letters_isSmall hu _
  cases j with
  | capital =>
      -- a small letter or digit follows the capital, so no capital is the next one's neighbour
      have hcapital : w.initial.toUpper.isUpper = true := isUpper_toUpper w.initial_isLower
      show separateWords (some b) (w.initial.toUpper :: (w.tail ++ u)) = _
      rw [separateWords_of_isUpper hb hcapital,
        separateWords_append w.tail_ne_nil w.tail_isSmall hu]
      rfl
  | hyphen =>
      rw [joined, List.cons_append, separateWords_of_not_isUpper (by decide), hletters]
      rfl
  | underscore =>
      rw [joined, List.cons_append, separateWords_of_not_isUpper (by decide), hletters]
      rfl

theorem separateWords_rest (hb : IsSmall b) :
    separateWords (some b) (rest.flatMap fun x => x.1.joined x.2) =
      rest.flatMap fun x => x.1.separated x.2 := by
  induction rest generalizing b with
  | nil => rfl
  | cons x rest ih =>
      rw [List.flatMap_cons, List.flatMap_cons]
      exact x.1.separateWords_joined x.2 hb fun _ hc => ih hc

theorem separateWords_spelling :
    separateWords none (spelling first rest) =
      first.letters ++ rest.flatMap fun x => x.1.separated x.2 :=
  separateWords_append first.letters_ne_nil first.letters_isSmall
    (fun _ hb => separateWords_rest rest hb) none

/-! ## Respelled words -/

theorem map_respelled_of_isSmall (h : ∀ c ∈ t, IsSmall c) : t.map respelled = t :=
  (List.map_congr_left fun c hc => respelled_of_isSmall (h c hc)).trans (List.map_id t)

/-- Whatever tells a word from the one before it, an underscore and small letters are left. -/
theorem map_respelled_separated (j : Joint) :
    (w.separated j).map respelled = '_' :: w.letters := by
  have hunderscore : respelled '_' = '_' := by decide
  have hhyphen : respelled '-' = '_' := by decide
  have hletters : w.letters.map respelled = w.letters := map_respelled_of_isSmall w.letters_isSmall
  have hcapitalised : w.capitalised.map respelled = w.letters := by
    rw [capitalised, List.map_cons, respelled_toUpper w.initial_isLower,
      map_respelled_of_isSmall w.tail_isSmall, letters]
  cases j with
  | capital => rw [separated, List.map_cons, hunderscore, hcapitalised]
  | hyphen => rw [separated, List.map_cons, hhyphen, hletters]
  | underscore => rw [separated, List.map_cons, hunderscore, hletters]

theorem lt_of_mem_letters (hc : c ∈ w.letters) : c.toNat < 128 := by
  have hsmall := isSmall_iff.mp (w.letters_isSmall c hc)
  omega

theorem lt_of_mem_joined {j : Joint} (hc : c ∈ w.joined j) : c.toNat < 128 := by
  cases j with
  | capital =>
      rcases List.mem_cons.mp hc with rfl | hc
      · have hcapital := toNat_toUpper w.initial_isLower
        have hrange := isLower_iff.mp w.initial_isLower
        omega
      · exact w.lt_of_mem_letters (List.mem_cons_of_mem _ hc)
  | hyphen =>
      rcases List.mem_cons.mp hc with rfl | hc
      · decide
      · exact w.lt_of_mem_letters hc
  | underscore =>
      rcases List.mem_cons.mp hc with rfl | hc
      · decide
      · exact w.lt_of_mem_letters hc

/-- A name comes down to its words, whatever tells each of them from the one before it. -/
theorem snakeCase_spelling :
    snakeCase (String.ofList (spelling first rest)) =
      String.ofList (first.letters ++ rest.flatMap fun x => '_' :: x.1.letters) := by
  have hascii : ∀ c ∈ spelling first rest, c.toNat < 128 := by
    refine List.forall_mem_append.mpr ⟨fun c hc => first.lt_of_mem_letters hc, fun c hc => ?_⟩
    obtain ⟨x, -, hc⟩ := List.mem_flatMap.mp hc
    exact x.1.lt_of_mem_joined hc
  rw [snakeCase_ofList hascii, separateWords_spelling, List.map_append, List.map_flatMap,
    map_respelled_of_isSmall first.letters_isSmall]
  simp only [map_respelled_separated]

/-! ## Uniform spellings -/

theorem intercalate_eq (sep : Char) (rest : List KeyWord) :
    (String.singleton sep).intercalate ((first :: rest).map name) =
      String.ofList (first.letters ++ rest.flatMap fun w => sep :: w.letters) := by
  rw [← String.toList_inj, List.map_cons, Json.toList_intercalate, String.toList_ofList,
    List.flatMap_map]
  simp only [name, String.toList_ofList, String.toList_singleton, List.singleton_append]

/-- Camel case, hyphens and underscores are spellings of the same name, the last one its own. -/
theorem snakeCase_spellings (words : List KeyWord) :
    snakeCase (camelCase words) = "_".intercalate (words.map name) ∧
      snakeCase ("-".intercalate (words.map name)) = "_".intercalate (words.map name) ∧
      snakeCase ("_".intercalate (words.map name)) = "_".intercalate (words.map name) := by
  cases words with
  | nil => decide
  | cons first rest =>
      have hspelling (j : Joint) : snakeCase (String.ofList
          (first.letters ++ rest.flatMap fun w => w.joined j)) =
            "_".intercalate ((first :: rest).map name) := by
        have hname := snakeCase_spelling first (rest.map fun w => (w, j))
        rw [spelling, List.flatMap_map, List.flatMap_map] at hname
        exact hname.trans (intercalate_eq first '_' rest).symm
      refine ⟨hspelling .capital, ?_, ?_⟩
      · exact (congrArg snakeCase (intercalate_eq first '-' rest)).trans (hspelling .hyphen)
      · exact (congrArg snakeCase (intercalate_eq first '_' rest)).trans (hspelling .underscore)

/-- A digit at the end of a word leaves the start of the next one where it is. -/
theorem snakeCase_spellings_digits :
    let utf8 : KeyWord := ⟨'u', ['t', 'f', '8'], by decide, by decide, by simp [IsSmall]⟩
    let mark : KeyWord := ⟨'m', ['a', 'r', 'k'], by decide, by decide, by simp [IsSmall]⟩
    let x2 : KeyWord := ⟨'x', ['2'], by decide, by decide, by simp [IsSmall]⟩
    camelCase [utf8, mark, x2] = "utf8MarkX2" ∧ snakeCase "utf8MarkX2" = "utf8_mark_x2" ∧
      snakeCase "utf8-mark-x2" = "utf8_mark_x2" ∧ snakeCase "utf8_mark_x2" = "utf8_mark_x2" := by
  intro utf8 mark x2
  have hcamel : camelCase [utf8, mark, x2] = "utf8MarkX2" := by decide
  have hname : "_".intercalate ([utf8, mark, x2].map name) = "utf8_mark_x2" := by decide
  have hkebab : "-".intercalate ([utf8, mark, x2].map name) = "utf8-mark-x2" := by decide
  have hspellings := snakeCase_spellings [utf8, mark, x2]
  rw [hcamel, hname, hkebab] at hspellings
  exact ⟨hcamel, hspellings⟩

end KeyWord

end Kouetsu
