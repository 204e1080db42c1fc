import Kouetsu.Morphology
import Kouetsu.Proofs.Text.Scan
import Kouetsu.Proofs.Token.Tiles
/-!
# Placing words in a text

Whatever words an analyser gives, its tokens tile the text, and each has the characters at its
offsets as its surface.  Where the words stand in the text with nothing but white space around
them, the tokens other than white space are the words at their own offsets.
-/

namespace Kouetsu

/-! ## Finding surfaces -/

namespace Text

theorem bounds_of_findFrom? {t needle : Text} {offset i : Nat}
    (h : t.findFrom? needle offset = some i) :
    offset ≤ i ∧ i + needle.length ≤ t.length ∧ needle <+: t.drop i := by
  unfold findFrom? at h
  split at h
  · next hoffset =>
      obtain ⟨j, hj, rfl⟩ := Option.map_eq_some_iff.mp h
      have hlength := add_length_le_of_find? hj
      have hlead := find?_eq_some hj
      rw [List.length_drop] at hlength
      rw [List.drop_drop, Nat.add_comm] at hlead
      exact ⟨Nat.le_add_left _ _, by omega, hlead⟩
  · contradiction

/-- A phrase that starts with a visible character is not found in white space. -/
theorem find?_blank_append {blank needle : Text} (hblank : ∀ c ∈ blank, isBlank c = true)
    (hneedle : needle.VisibleAt 0) (rest : Text) :
    find? needle (blank ++ (needle ++ rest)) = some blank.length := by
  obtain ⟨first, hfirst, hvisible⟩ := hneedle
  cases needle with
  | nil => contradiction
  | cons c needle =>
      obtain rfl : c = first := Option.some.inj hfirst
      induction blank with
      | nil =>
          have hlead : startsWith (c :: (needle ++ rest)) (c :: needle) = true :=
            startsWith_iff.mpr (List.prefix_append (c :: needle) rest)
          rw [List.nil_append, List.cons_append, find?, if_pos hlead]
          rfl
      | cons b blank ih =>
          obtain ⟨hb, hblank⟩ := List.forall_mem_cons.mp hblank
          have hlead : ¬startsWith (b :: (blank ++ (c :: needle ++ rest))) (c :: needle) = true := by
            rw [startsWith_iff, List.cons_prefix_cons]
            rintro ⟨rfl, _⟩
            simp [hb] at hvisible
          rw [List.cons_append, find?, if_neg hlead, ih hblank]
          rfl

end Text

/-! ## Any words -/

def Token.StandsIn (k : Token) (t : Text) : Prop :=
  k.surface.toList = t.slice ⟨k.start.toNat, k.stop.toNat⟩

namespace Morphology

variable {t : Text} {offset start stop : Nat} {k : Token}

theorem tiles_gapTokens (h : start ≤ stop) : Tiles start stop (gapTokens t start stop) := by
  unfold gapTokens
  split
  · next hlt => exact .cons rfl (Int.ofNat_lt.mpr hlt) (.nil _)
  · next hnot =>
      obtain rfl : start = stop := by omega
      exact .nil _

theorem standsIn_gapTokens (hk : k ∈ gapTokens t start stop) : k.StandsIn t := by
  unfold gapTokens at hk
  split at hk
  · rw [List.mem_singleton.mp hk]
    exact String.toList_ofList
  · contradiction

theorem standsIn_ofFeatures {surface : String} (features : List String)
    (h : surface.toList <+: t.drop start) :
    (Token.ofFeatures surface features start).StandsIn t := by
  have hstop : ((start : Int) + (surface.length : Int)).toNat = start + surface.toList.length := by
    rw [String.length_toList]
    omega
  show surface.toList = t.slice ⟨(start : Int).toNat, ((start : Int) + surface.length).toNat⟩
  rw [hstop, Int.toNat_natCast, Text.slice, List.drop_take, Nat.add_sub_cancel_left]
  exact List.prefix_iff_eq_take.mp h

theorem tiles_place (h : offset ≤ t.length) (words : List (String × List String)) :
    Tiles offset t.length (place t offset words) := by
  fun_induction place t offset words with
  | case1 offset => exact tiles_gapTokens h
  | case2 offset surface features rest hempty ih => exact ih h
  | case3 offset surface features rest hne hnone ih => exact ih h
  | case4 offset surface features rest hne start hfound ih =>
      obtain ⟨hle, hbound, _⟩ := Text.bounds_of_findFrom? hfound
      have hlength : 0 < surface.length := by
        rw [← String.length_toList]
        exact List.length_pos_of_ne_nil fun hnil => hne (by simpa using hnil)
      rw [String.length_toList] at hbound
      refine (tiles_gapTokens hle).append (.cons rfl ?_ ?_)
      · show (start : Int) < start + surface.length
        omega
      · exact ih hbound

theorem standsIn_of_mem_place {words : List (String × List String)}
    (hk : k ∈ place t offset words) : k.StandsIn t := by
  fun_induction place t offset words with
  | case1 offset => exact standsIn_gapTokens hk
  | case2 offset surface features rest hempty ih => exact ih hk
  | case3 offset surface features rest hne hnone ih => exact ih hk
  | case4 offset surface features rest hne start hfound ih =>
      rcases List.mem_append.mp hk with hk | hk
      · exact standsIn_gapTokens hk
      · rcases List.mem_cons.mp hk with rfl | hk
        · exact standsIn_ofFeatures features (Text.bounds_of_findFrom? hfound).2.2
        · exact ih hk

end Morphology

/-! ## Words with white space between them -/

structure SpacedWord where
  before : Text
  surface : String
  features : List String

namespace SpacedWord

def text (w : SpacedWord) : Text := w.before ++ w.surface.toList

def word (w : SpacedWord) : Word := ⟨some w.surface, w.features⟩

structure Proper (w : SpacedWord) : Prop where
  before : ∀ c ∈ w.before, isBlank c = true
  surface : Text.VisibleAt w.surface.toList 0

/-- The words at their own offsets, where their text starts at an offset. -/
def tokens (offset : Nat) : List SpacedWord → List Token
  | [] => []
  | w :: ws =>
      Token.ofFeatures w.surface w.features ((offset + w.before.length : Nat) : Int) ::
        tokens (offset + w.text.length) ws

end SpacedWord

def Token.isWhite (k : Token) : Bool := k.surface.toList.all isBlank

namespace Morphology

variable {t blank : Text} {k : Token}

theorem isWhite_gapTokens {before rest : Text} (ht : t = before ++ (blank ++ rest))
    (hblank : ∀ c ∈ blank, isBlank c = true)
    (hk : k ∈ gapTokens t before.length (before.length + blank.length)) : k.isWhite = true := by
  unfold gapTokens at hk
  split at hk
  · rw [List.mem_singleton.mp hk, Token.isWhite, gapToken, String.toList_ofList, ht, Text.slice,
      List.drop_take, List.drop_left, Nat.add_sub_cancel_left, List.take_left]
    exact List.all_eq_true.mpr hblank
  · contradiction

theorem filter_gapTokens {before rest : Text} (ht : t = before ++ (blank ++ rest))
    (hblank : ∀ c ∈ blank, isBlank c = true) :
    (gapTokens t before.length (before.length + blank.length)).filter (!·.isWhite) = [] := by
  apply List.filter_eq_nil_iff.mpr
  intro k hk
  simp [isWhite_gapTokens ht hblank hk]

/-- The earliest occurrence of each surface is its own one, since none stands in white space. -/
theorem filter_place {ws : List SpacedWord} {before after : Text}
    (ht : t = before ++ (ws.flatMap (·.text) ++ after)) (hws : ∀ w ∈ ws, w.Proper)
    (hafter : ∀ c ∈ after, isBlank c = true) {words : List (String × List String)}
    (hwords : words.filter (!·.1.isEmpty) = ws.map fun w => (w.surface, w.features)) :
    (place t before.length words).filter (!·.isWhite) = SpacedWord.tokens before.length ws := by
  induction words generalizing ws before with
  | nil =>
      obtain rfl : ws = [] := List.map_eq_nil_iff.mp hwords.symm
      have hlength : t.length = before.length + after.length := by simp [ht]
      have htext : t = before ++ (after ++ []) := by simpa using ht
      rw [place, hlength]
      exact filter_gapTokens htext hafter
  | cons x words ih =>
      obtain ⟨surface, features⟩ := x
      rw [place]
      split
      · next hempty =>
          rw [List.filter_cons_of_neg (by simp [hempty])] at hwords
          exact ih ht hws hwords
      · next hne =>
          rw [List.filter_cons_of_pos (by simpa using hne)] at hwords
          cases ws with
          | nil => contradiction
          | cons w ws =>
              obtain ⟨hw, hws'⟩ := List.forall_mem_cons.mp hws
              obtain ⟨hword, hwords'⟩ := List.cons.inj hwords
              obtain ⟨rfl, rfl⟩ := Prod.mk.inj hword
              have htext : t = before ++
                  (w.before ++ (w.surface.toList ++ (ws.flatMap (·.text) ++ after))) := by
                simpa [SpacedWord.text, List.append_assoc] using ht
              have hfound : t.findFrom? w.surface.toList before.length =
                  some (before.length + w.before.length) := by
                rw [Text.findFrom?, if_pos (by simp [htext]), htext, List.drop_left,
                  Text.find?_blank_append hw.before hw.surface, Option.map_some, Nat.add_comm]
              have hnext : before.length + w.before.length + w.surface.length =
                  (before ++ w.text).length := by
                rw [SpacedWord.text, List.length_append, List.length_append, String.length_toList,
                  Nat.add_assoc]
              have hvisible : (Token.ofFeatures w.surface w.features
                  ((before.length + w.before.length : Nat) : Int)).isWhite = false := by
                obtain ⟨c, hc, hc'⟩ := hw.surface
                exact List.all_eq_false.mpr ⟨c, List.mem_of_getElem? hc, by simp [hc']⟩
              have hrest : t = before ++ w.text ++ (ws.flatMap (·.text) ++ after) := by
                simpa [List.append_assoc] using ht
              simp only [hfound]
              rw [List.filter_append, filter_gapTokens htext hw.before, List.nil_append,
                List.filter_cons_of_pos (by rw [hvisible]; rfl), hnext,
                ih hrest hws' hwords', SpacedWord.tokens, List.length_append]

/-! ## Tokens of an analyser -/

theorem exists_placed {words : List Word} (h : ∀ w ∈ words, ∃ s, w.surface = some s) :
    ∃ placed : List (String × List String),
      words.mapM (fun w => w.surface.map fun s => (s, w.features)) = some placed ∧
        words = placed.map fun x => ⟨some x.1, x.2⟩ := by
  induction words with
  | nil => exact ⟨[], rfl, rfl⟩
  | cons w words ih =>
      obtain ⟨⟨s, hs⟩, hwords⟩ := List.forall_mem_cons.mp h
      obtain ⟨placed, hplaced, rfl⟩ := ih hwords
      obtain ⟨surface, features⟩ := w
      obtain rfl : surface = some s := hs
      exact ⟨(s, features) :: placed, by rw [List.mapM_cons, hplaced]; rfl, rfl⟩

theorem analyse_eq_place {m : Morphology} {a : Analyser} {words : Text → List Word}
    (hinUse : m.inUse? = some (a, words)) {placed : List (String × List String)}
    (hplaced : (words t).mapM (fun w => w.surface.map fun s => (s, w.features)) = some placed) :
    m.analyse t = .ok (place t 0 placed) := by
  rw [analyse, hinUse]
  cases t with
  | nil =>
      have htiles := tiles_place (t := []) (Nat.le_refl 0) placed
      cases hplace : place [] 0 placed with
      | nil => rfl
      | cons k rest =>
          rw [hplace] at htiles
          have := htiles.within List.mem_cons_self
          simp only [List.length_nil] at this
          omega
  | cons c t =>
      simp only [List.isEmpty_cons, Bool.false_eq_true, if_false, hplaced]

/-- The tokens of an analyser tile the text and have their surfaces from it, whatever surfaces the
words have.  If the text consists of the words that have a character, none of which starts with
white space, and of white space around them, then all tokens but the words at their own offsets
are white space. -/
theorem analyse_tiles {m : Morphology} {a : Analyser} {words : Text → List Word}
    (hinUse : m.inUse? = some (a, words)) (t : Text)
    (hsurfaces : ∀ w ∈ words t, ∃ s, w.surface = some s) :
    ∃ tokens, m.analyse t = .ok tokens ∧ Tiles 0 t.length tokens ∧
      (∀ k ∈ tokens, k.surface.toList = t.slice ⟨k.start.toNat, k.stop.toNat⟩) ∧
      ∀ (ws : List SpacedWord) (after : Text),
        (words t).filter (fun w => w.surface ≠ some "") = ws.map (·.word) →
          t = ws.flatMap (·.text) ++ after → (∀ w ∈ ws, w.Proper) →
            (∀ c ∈ after, isBlank c = true) →
              tokens.filter (!·.isWhite) = SpacedWord.tokens 0 ws := by
  obtain ⟨placed, hplaced, hwords⟩ := exists_placed hsurfaces
  refine ⟨place t 0 placed, analyse_eq_place hinUse hplaced, tiles_place (Nat.zero_le _) placed,
    fun k hk => standsIn_of_mem_place hk, fun ws after hspaced ht hws hafter => ?_⟩
  have htext : t = [] ++ (ws.flatMap (·.text) ++ after) := ht
  refine filter_place htext hws hafter ?_
  have hsame : (fun w : Word => decide (w.surface ≠ some "")) ∘
      (fun x : String × List String => ⟨some x.1, x.2⟩) = fun x => !x.1.isEmpty := by
    funext x
    rw [Bool.eq_iff_iff]
    simp
  rw [hwords, List.filter_map, hsame] at hspaced
  have hpairs := congrArg (List.map fun w : Word => (w.surface.getD "", w.features)) hspaced
  simpa [List.map_map, Function.comp_def, SpacedWord.word] using hpairs

/-- Two words and one without a character, in a text with white space of two kinds. -/
theorem analyse_tiles_spaced :
    let words : List Word := [⟨some "東京", ["名詞"]⟩, ⟨some "", []⟩, ⟨some "へ", ["助詞"]⟩]
    let m : Morphology := { janome := some fun _ => words }
    let t := " 東京　へ".toList
    (∀ w ∈ words, ∃ s, w.surface = some s) ∧
      ∃ tokens, m.analyse t = .ok tokens ∧ Tiles 0 5 tokens ∧
        tokens.filter (!·.isWhite) =
          [Token.ofFeatures "東京" ["名詞"] 1, Token.ofFeatures "へ" ["助詞"] 4] := by
  intro words m t
  have hsurfaces : ∀ w ∈ words, ∃ s, w.surface = some s := by simp [words]
  have hinUse : m.inUse? = some (.janome, fun _ => words) := rfl
  obtain ⟨tokens, htokens, htiles, _, hspaced⟩ := analyse_tiles hinUse t hsurfaces
  refine ⟨hsurfaces, tokens, htokens, htiles, ?_⟩
  refine hspaced [⟨[' '], "東京", ["名詞"]⟩, ⟨['　'], "へ", ["助詞"]⟩] [] (by decide) (by decide)
    (fun w hw => ?_) (by simp)
  rcases List.mem_pair.mp hw with rfl | rfl
  · exact ⟨List.forall_mem_singleton.mpr rfl, '東', rfl, by decide⟩
  · exact ⟨List.forall_mem_singleton.mpr rfl, 'へ', rfl, by decide⟩

end Morphology

end Kouetsu
