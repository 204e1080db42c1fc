import Kouetsu.Text.Loose
import Mathlib.Data.List.Lex
/-!
# Texts without lone halves

A text has an encoding exactly if it is one of characters.  Texts are in the order of the numbers
of their code points.
-/

namespace Kouetsu

namespace CodePoint

theorem toNat_injective : Function.Injective toNat := by
  intro c d h
  match c, d with
  | .char c, .char d => exact congrArg _ (Char.toNat_inj.mp h)
  | .half m, .half n =>
      rw [toNat, toNat] at h
      exact congrArg _ (Fin.ext (by omega))
  | .char c, .half n | .half n, .char c =>
      -- the numbers of halves are no characters
      have := c.valid
      simp only [toNat, Char.toNat] at h
      rw [UInt32.isValidChar, Nat.isValidChar] at this
      omega

instance : LinearOrder CodePoint := LinearOrder.lift' toNat toNat_injective

end CodePoint

namespace LooseText

@[simp] theorem ofString_empty : ofString "" = [] := rfl

@[simp] theorem ofString_append (s t : String) : ofString (s ++ t) = ofString s ++ ofString t := by
  rw [ofString, ofText, String.toList_append, List.map_append]
  rfl

@[simp] theorem string?_ofText (t : Text) : (ofText t).string? = some (String.ofList t) := by
  have hchars : (ofText t).mapM CodePoint.char? = some t := by
    induction t with
    | nil => rfl
    | cons c t ih =>
        rw [ofText] at ih ⊢
        rw [List.map_cons, List.mapM_cons, ih]
        rfl
  rw [string?, hchars, Option.map_some]

@[simp] theorem string?_ofString (s : String) : (ofString s).string? = some s := by
  rw [ofString, string?_ofText, String.ofList_toList]

theorem string?_eq_some {t : LooseText} {s : String} : t.string? = some s ↔ t = ofString s := by
  refine ⟨fun h => ?_, fun h => h ▸ string?_ofString s⟩
  obtain ⟨chars, hchars, rfl⟩ := Option.map_eq_some_iff.mp h
  rw [ofString, String.toList_ofList]
  clear h
  induction t generalizing chars with
  | nil =>
      obtain rfl : [] = chars := Option.some.inj hchars
      rfl
  | cons c t ih =>
      rw [List.mapM_cons] at hchars
      obtain ⟨a, ha, htail⟩ := Option.bind_eq_some_iff.mp hchars
      obtain ⟨rest, hrest, hdone⟩ := Option.bind_eq_some_iff.mp htail
      obtain rfl := Option.some.inj hdone
      cases c with
      | char c =>
          obtain rfl : c = a := Option.some.inj ha
          rw [ih rest hrest]
          rfl
      | half n => contradiction

theorem exists_eq_ofString_iff {t : LooseText} :
    (∃ s, t = ofString s) ↔ ∀ n, CodePoint.half n ∉ t := by
  constructor
  · rintro ⟨s, rfl⟩ n hn
    obtain ⟨c, _, hc⟩ := List.mem_map.mp hn
    contradiction
  · intro h
    induction t with
    | nil => exact ⟨"", rfl⟩
    | cons c t ih =>
        obtain ⟨s, rfl⟩ := ih fun n hn => h n (List.mem_cons_of_mem c hn)
        cases c with
        | char c => exact ⟨String.singleton c ++ s, by simp [ofString, ofText]⟩
        | half n => exact absurd List.mem_cons_self (h n)

theorem string?_eq_none_iff {t : LooseText} : t.string? = none ↔ ∃ n, CodePoint.half n ∈ t := by
  rw [← not_iff_not, ← ne_eq, Option.ne_none_iff_exists', not_exists, ← exists_eq_ofString_iff]
  exact exists_congr fun s => string?_eq_some

theorem ofString_injective : Function.Injective ofString := fun s s' h =>
  Option.some.inj (by rw [← string?_ofString s, h, string?_ofString])

@[simp] theorem ofString_inj {s s' : String} : ofString s = ofString s' ↔ s = s' :=
  ofString_injective.eq_iff

@[simp] theorem shown_ofString (s : String) : (ofString s).shown = s := by
  rw [shown, ofString, ofText, List.map_map]
  exact (congrArg String.ofList (List.map_id s.toList)).trans String.ofList_toList

@[simp] theorem encode_ofString (s : String) : (ofString s).encode = .ok s := by
  rw [encode, string?_ofString]

theorem encode_eq_ok {t : LooseText} {s : String} : t.encode = .ok s ↔ t = ofString s := by
  refine ⟨fun h => ?_, fun h => h ▸ encode_ofString s⟩
  rw [encode] at h
  split at h
  · next hs => exact string?_eq_some.mp (Except.ok.inj h ▸ hs)
  · contradiction

theorem le_eq (s t : LooseText) : s.le t = decide (s ≤ t) := by
  rw [Bool.eq_iff_iff, decide_eq_true_eq, ← not_lt]
  induction s generalizing t with
  | nil => simp [le]
  | cons c s ih =>
      cases t with
      | nil => simp [le]
      | cons d t =>
          have hlt : c < d ↔ c.toNat < d.toNat := Iff.rfl
          simp only [le, Bool.or_eq_true, Bool.and_eq_true, decide_eq_true_eq, ih,
            List.cons_lt_cons_iff, ← hlt]
          grind

end LooseText

end Kouetsu
