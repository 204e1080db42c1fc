import Kouetsu.Json.Printer
import Mathlib.Data.List.Basic
/-!
# Written values

A written value closes every bracket and string that it opens, so a text that starts with one
shows where it ends: at the first comma or closing bracket outside.  Hence the text of a list or
mapping determines the texts of its parts.
-/

namespace Kouetsu

theorem Value.inductionOn {motive : Value → Prop} (v : Value)
    (scalar : ∀ s, motive (.scalar s))
    (list : ∀ items, (∀ v ∈ items, motive v) → motive (.list items))
    (map : ∀ entries, (∀ x ∈ entries, motive x.2) → motive (.map entries)) : motive v :=
  match v with
  | .scalar s => scalar s
  | .list items => list items fun v _ => v.inductionOn scalar list map
  | .map entries => map entries fun x _ => x.2.inductionOn scalar list map
termination_by v
decreasing_by
  · have := List.sizeOf_lt_of_mem ‹v ∈ items›
    simp only [Value.list.sizeOf_spec]
    omega
  · have := List.sizeOf_lt_of_mem ‹x ∈ entries›
    have : sizeOf x = 1 + sizeOf x.1 + sizeOf x.2 := rfl
    simp only [Value.map.sizeOf_spec]
    omega

namespace Json

/-! ## Layouts -/

namespace Layout

def opened (l : Layout) (depth : Nat) : Text :=
  match l with
  | .indented => (newline (depth + 1)).toList
  | _ => []

def between (l : Layout) (depth : Nat) : Text :=
  match l with
  | .compact => []
  | .spaced => [' ']
  | .indented => (newline (depth + 1)).toList

def closed (l : Layout) (depth : Nat) : Text :=
  match l with
  | .indented => (newline depth).toList
  | _ => []

def colon (l : Layout) : String := if l = .compact then ":" else ": "

end Layout

theorem toList_intercalate (sep p : String) (ps : List String) :
    (String.intercalate sep (p :: ps)).toList =
      p.toList ++ ps.flatMap fun q => sep.toList ++ q.toList := by
  induction ps generalizing p with
  | nil => simp
  | cons q ps ih =>
      rw [String.intercalate_cons_cons, String.toList_append, ih, List.flatMap_cons,
        String.toList_append, List.append_assoc, List.append_assoc]

theorem toList_enclose_nil (l : Layout) (depth : Nat) (opening closing : String) :
    (enclose l depth opening closing []).toList = opening.toList ++ closing.toList :=
  String.toList_append

theorem toList_enclose (l : Layout) (depth : Nat) (opening closing p : String)
    (ps : List String) :
    (enclose l depth opening closing (p :: ps)).toList =
      opening.toList ++ (l.opened depth ++ (p.toList ++
        ((ps.flatMap fun q => ',' :: (l.between depth ++ q.toList)) ++
          (l.closed depth ++ closing.toList)))) := by
  cases l <;>
    simp only [enclose, List.isEmpty_cons, Bool.false_eq_true, if_false, String.toList_append,
      toList_intercalate, Layout.opened, Layout.between, Layout.closed, List.append_assoc,
      List.nil_append] <;> rfl

theorem exists_toList_enclose (l : Layout) (depth : Nat) (opening closing : String)
    (ps : List String) :
    ∃ t, (enclose l depth opening closing ps).toList = opening.toList ++ t := by
  cases ps with
  | nil => exact ⟨_, toList_enclose_nil l depth opening closing⟩
  | cons p ps => exact ⟨_, toList_enclose l depth opening closing p ps⟩

theorem writeItems_eq_map (l : Layout) (depth : Nat) (items : List Value) :
    writeAt.writeItems l depth items = items.map (writeAt l (depth + 1)) := by
  induction items with
  | nil => rfl
  | cons v rest ih => rw [writeAt.writeItems, ih, List.map_cons]

def writeEntry (l : Layout) (depth : Nat) (x : Scalar × Value) : String :=
  writeKey x.1 ++ l.colon ++ writeAt l depth x.2

theorem writeEntries_eq_map (l : Layout) (depth : Nat) (entries : List (Scalar × Value)) :
    writeAt.writeEntries l depth entries = entries.map (writeEntry l (depth + 1)) := by
  induction entries with
  | nil => rfl
  | cons x rest ih =>
      rw [writeAt.writeEntries, ih, List.map_cons]
      rfl

theorem writeAt_list (l : Layout) (depth : Nat) (items : List Value) :
    writeAt l depth (.list items) =
      enclose l depth "[" "]" (items.map (writeAt l (depth + 1))) := by
  rw [writeAt, writeItems_eq_map]

theorem writeAt_map (l : Layout) (depth : Nat) (entries : List (Scalar × Value)) :
    writeAt l depth (.map entries) =
      enclose l depth "\x7b" "\x7d" (entries.map (writeEntry l (depth + 1))) := by
  rw [writeAt, writeEntries_eq_map]

/-! ## Where a value ends -/

/-- Whether a text is read inside a string, and there after a backslash. -/
inductive Mode where
  | plain
  | quoted
  | escaped
deriving DecidableEq, Repr

/-- Reads a character with the number of open brackets; none where the value that is read ends. -/
def step (s : Nat × Mode) (c : Char) : Option (Nat × Mode) :=
  match s.2 with
  | .escaped => some (s.1, .quoted)
  | .quoted => some (s.1, if c = '\\' then .escaped else if c = '"' then .plain else .quoted)
  | .plain =>
      if c = '"' then some (s.1, .quoted)
      else if c = '[' || c = '\x7b' then some (s.1 + 1, .plain)
      else if c = ']' || c = '\x7d' then
        if s.1 = 0 then none else some (s.1 - 1, .plain)
      else if c = ',' then if s.1 = 0 then none else some s
      else some s

/-- Reading a text leads from one state to another. -/
def Passes (t : Text) (s s' : Nat × Mode) : Prop := t.foldlM step s = some s'

namespace Passes

variable {t u : Text} {s s' s'' : Nat × Mode} {c : Char} {depth : Nat}

theorem nil (s : Nat × Mode) : Passes [] s s := rfl

theorem cons (h : step s c = some s') (h' : Passes t s' s'') : Passes (c :: t) s s'' := by
  rw [Passes, List.foldlM_cons, h]
  exact h'

theorem append (h : Passes t s s') (h' : Passes u s' s'') : Passes (t ++ u) s s'' := by
  rw [Passes, List.foldlM_append, h]
  exact h'

theorem of_step (h : step s c = some s') : Passes [c] s s' := cons h (nil s')

theorem of_forall (h : ∀ c ∈ t, step s c = some s) : Passes t s s := by
  induction t with
  | nil => exact nil s
  | cons c t ih =>
      exact cons (h c List.mem_cons_self) (ih fun d hd => h d (List.mem_cons_of_mem c hd))

end Passes

theorem step_blank (depth : Nat) {c : Char} (hc : c = ' ' ∨ c = '\n') :
    step (depth, .plain) c = some (depth, .plain) := by
  rcases hc with rfl | rfl <;> rfl

theorem step_quoted (depth : Nat) {c : Char} (hquote : c ≠ '"') (hslash : c ≠ '\\') :
    step (depth, .quoted) c = some (depth, .quoted) := by
  simp [step, hquote, hslash]

inductive Escaped (c : Char) : Text → Prop
  | mark {e : Char} (h : (c, e) ∈ [('"', '"'), ('\\', '\\'), ('\n', 'n'), ('\r', 'r'),
      ('\t', 't'), ('\x0c', 'f'), ('\x08', 'b')]) : Escaped c ['\\', e]
  | control (h : c.toNat < 0x20) : Escaped c ('\\' :: 'u' :: hexPadded 4 c.toNat)
  | plain (h : 0x20 ≤ c.toNat) (hquote : c ≠ '"') (hslash : c ≠ '\\') : Escaped c [c]

theorem escaped_escapeChar (c : Char) : Escaped c (escapeChar c) := by
  unfold escapeChar
  split
  · next h => subst h; exact .mark (by decide)
  split
  · next h => subst h; exact .mark (by decide)
  split
  · next h => subst h; exact .mark (by decide)
  split
  · next h => subst h; exact .mark (by decide)
  split
  · next h => subst h; exact .mark (by decide)
  split
  · next h => subst h; exact .mark (by decide)
  split
  · next h => subst h; exact .mark (by decide)
  split
  · next h => exact .control h
  · next hquote hslash _ _ _ _ _ h => exact .plain (by omega) hquote hslash

theorem passes_escapeChar (depth : Nat) (c : Char) :
    Passes (escapeChar c) (depth, .quoted) (depth, .quoted) := by
  have hescaped := escaped_escapeChar c
  generalize escapeChar c = t at hescaped ⊢
  cases hescaped with
  | mark _ => exact .cons rfl (.of_step rfl)
  | control h =>
      have hdigits : ∀ n < 0x20,
          (hexPadded 4 n).all (fun d => d != '"' && d != '\\') = true := by decide
      refine .cons rfl (.cons rfl (.of_forall fun d hd => ?_))
      have hplain := List.all_eq_true.mp (hdigits _ h) d hd
      rw [Bool.and_eq_true, bne_iff_ne, bne_iff_ne] at hplain
      exact step_quoted depth hplain.1 hplain.2
  | plain _ hquote hslash => exact .of_step (step_quoted depth hquote hslash)

theorem passes_writeString (depth : Nat) (s : String) :
    Passes (writeString s).toList (depth, .plain) (depth, .plain) := by
  rw [writeString, String.toList_ofList, List.cons_append]
  have hbody : Passes (s.toList.flatMap escapeChar) (depth, .quoted) (depth, .quoted) := by
    induction s.toList with
    | nil => exact .nil _
    | cons c cs ih =>
        rw [List.flatMap_cons]
        exact (passes_escapeChar depth c).append ih
  exact .cons rfl (hbody.append (.of_step rfl))

def isInert (c : Char) : Bool := !"\"[]\x7b\x7d,".toList.contains c

theorem step_inert (depth : Nat) {c : Char} (hc : isInert c = true) :
    step (depth, .plain) c = some (depth, .plain) := by
  simp only [isInert, Bool.not_eq_true', List.contains_eq_mem, decide_eq_false_iff_not] at hc
  have hne (d : Char) (hd : d ∈ "\"[]\x7b\x7d,".toList) : c ≠ d := fun h => hc (h ▸ hd)
  simp [step, hne '"' (by decide), hne '[' (by decide), hne ']' (by decide),
    hne '\x7b' (by decide), hne '\x7d' (by decide), hne ',' (by decide)]

theorem isInert_of_isTextChar {c : Char} (hc : Double.isTextChar c = true) : isInert c = true := by
  simp only [isInert, Bool.not_eq_true', List.contains_eq_mem, decide_eq_false_iff_not]
  intro hmark
  have hnone : "\"[]\x7b\x7d,".toList.all (fun d => !Double.isTextChar d) = true := by decide
  have hchar := List.all_eq_true.mp hnone c hmark
  rw [hc] at hchar
  exact Bool.false_ne_true hchar

theorem all_isInert_repr (n : Int) : n.repr.toList.all isInert = true := by
  have hdigits (m : Nat) : m.repr.toList.all isInert = true := by
    rw [Nat.repr_eq_ofList_toDigits, String.toList_ofList, List.all_eq_true]
    intro c hc
    refine isInert_of_isTextChar ?_
    simp [Double.isTextChar, Nat.isDigit_of_mem_toDigits (by decide) (by decide) hc]
  rw [Int.repr_eq_if]
  split
  · exact hdigits _
  · rw [String.toList_append, List.all_append, hdigits]
    rfl

inductive WrittenAs : Scalar → String → Prop
  | str (s : String) : WrittenAs (.str s) s
  | moment (plain quoted : String) : WrittenAs (.moment plain quoted) plain
  | pattern (p : Pattern) : WrittenAs (.pattern p) p.shown

theorem string_or_inert_writeScalar (s : Scalar) :
    (∃ t, writeScalar s = writeString t ∧ WrittenAs s t) ∨
      (writeScalar s).toList.all isInert = true := by
  cases s with
  | null => exact Or.inr (by decide)
  | bool b => cases b <;> exact Or.inr (by decide)
  | int n => exact Or.inr (all_isInert_repr n)
  | float x =>
      refine Or.inr ?_
      rw [writeScalar, writeDouble]
      split
      · decide
      · split
        · split <;> decide
        · rw [List.all_eq_true]
          exact fun c hc => isInert_of_isTextChar (List.all_eq_true.mp x.all_text c hc)
  | str s => exact Or.inl ⟨s, rfl, .str s⟩
  | moment plain quoted => exact Or.inl ⟨plain, rfl, .moment plain quoted⟩
  | pattern p => exact Or.inl ⟨p.shown, rfl, .pattern p⟩

theorem passes_writeScalar (depth : Nat) (s : Scalar) :
    Passes (writeScalar s).toList (depth, .plain) (depth, .plain) := by
  rcases string_or_inert_writeScalar s with ⟨t, ht, _⟩ | hinert
  · exact ht ▸ passes_writeString depth t
  · exact .of_forall fun c hc => step_inert depth (List.all_eq_true.mp hinert c hc)

theorem passes_writeKey (depth : Nat) (s : Scalar) :
    Passes (writeKey s).toList (depth, .plain) (depth, .plain) := by
  cases s <;> exact passes_writeString depth _

theorem passes_newline (nesting depth : Nat) :
    Passes (newline nesting).toList (depth, .plain) (depth, .plain) := by
  rw [newline, String.toList_ofList]
  refine .of_forall fun c hc => step_blank depth ?_
  rcases List.mem_cons.mp hc with rfl | hc
  · exact Or.inr rfl
  · exact Or.inl (List.eq_of_mem_replicate hc)

theorem Layout.passes_opened (l : Layout) (nesting depth : Nat) :
    Passes (l.opened nesting) (depth, .plain) (depth, .plain) := by
  cases l with
  | indented => exact passes_newline _ _
  | _ => exact .nil _

theorem Layout.passes_between (l : Layout) (nesting depth : Nat) :
    Passes (l.between nesting) (depth, .plain) (depth, .plain) := by
  cases l with
  | compact => exact .nil _
  | spaced => exact .of_step rfl
  | indented => exact passes_newline _ _

theorem Layout.passes_closed (l : Layout) (nesting depth : Nat) :
    Passes (l.closed nesting) (depth, .plain) (depth, .plain) := by
  cases l with
  | indented => exact passes_newline _ _
  | _ => exact .nil _

/-- Parts that keep the state, between brackets that open and close one level. -/
theorem passes_enclose (l : Layout) (nesting depth : Nat) {opening closing : String}
    {ps : List String} (hopening : Passes opening.toList (depth, .plain) (depth + 1, .plain))
    (hclosing : Passes closing.toList (depth + 1, .plain) (depth, .plain))
    (hps : ∀ p ∈ ps, Passes p.toList (depth + 1, .plain) (depth + 1, .plain)) :
    Passes (enclose l nesting opening closing ps).toList (depth, .plain) (depth, .plain) := by
  cases ps with
  | nil =>
      rw [toList_enclose_nil]
      exact hopening.append hclosing
  | cons p ps =>
      have hrest : Passes (ps.flatMap fun q => ',' :: (l.between nesting ++ q.toList))
          (depth + 1, .plain) (depth + 1, .plain) := by
        have hps' := fun q hq => hps q (List.mem_cons_of_mem p hq)
        clear hps
        induction ps with
        | nil => exact .nil _
        | cons q ps ih =>
            rw [List.flatMap_cons, List.cons_append]
            refine .cons rfl (.append ?_ (ih fun x hx => hps' x (List.mem_cons_of_mem q hx)))
            exact (l.passes_between nesting _).append (hps' q List.mem_cons_self)
      rw [toList_enclose]
      exact hopening.append ((l.passes_opened nesting _).append
        ((hps p List.mem_cons_self).append
          (hrest.append ((l.passes_closed nesting _).append hclosing))))

theorem passes_writeAt (l : Layout) (v : Value) (nesting depth : Nat) :
    Passes (writeAt l nesting v).toList (depth, .plain) (depth, .plain) := by
  induction v using Value.inductionOn generalizing nesting depth with
  | scalar s => exact passes_writeScalar depth s
  | list items ih =>
      rw [writeAt_list]
      refine passes_enclose l nesting depth (.of_step rfl) (.of_step rfl) fun p hp => ?_
      obtain ⟨v, hv, rfl⟩ := List.mem_map.mp hp
      exact ih v hv _ _
  | map entries ih =>
      rw [writeAt_map]
      refine passes_enclose l nesting depth (.of_step rfl) (.of_step rfl) fun p hp => ?_
      obtain ⟨x, hx, rfl⟩ := List.mem_map.mp hp
      have hcolon : Passes l.colon.toList (depth + 1, .plain) (depth + 1, .plain) := by
        cases l with
        | compact => exact .of_step rfl
        | _ => exact .cons rfl (.of_step rfl)
      rw [writeEntry, String.toList_append, String.toList_append]
      exact ((passes_writeKey _ x.1).append hcolon).append (ih x hx _ _)

/-! ## Parts of a written value -/

def Ends (t : Text) : Prop := ∀ c ∈ t.head?, step (0, .plain) c = none

theorem Ends.left {t u : Text} (h : Ends (t ++ u)) : Ends t := by
  cases t with
  | nil => exact fun c hc => by simp at hc
  | cons c t => exact h

theorem eq_nil_of_passes {t more : Text} (ht : Passes t (0, .plain) (0, .plain))
    (hmore : Passes (t ++ more) (0, .plain) (0, .plain)) (hends : Ends more) : more = [] := by
  cases more with
  | nil => rfl
  | cons c more =>
      have hstop : step (0, .plain) c = none := hends c rfl
      rw [Passes, List.foldlM_append, show t.foldlM step (0, .plain) = _ from ht] at hmore
      simp [List.foldlM_cons, hstop] at hmore

theorem eq_of_passes {t u rest rest' : Text} (ht : Passes t (0, .plain) (0, .plain))
    (hu : Passes u (0, .plain) (0, .plain)) (hrest : Ends rest) (hrest' : Ends rest')
    (h : t ++ rest = u ++ rest') : t = u ∧ rest = rest' := by
  rcases List.append_eq_append_iff.mp h with ⟨more, rfl, rfl⟩ | ⟨more, rfl, rfl⟩
  · rw [eq_nil_of_passes ht hu hrest.left, List.append_nil]
    exact ⟨rfl, rfl⟩
  · rw [eq_nil_of_passes hu ht hrest'.left, List.append_nil]
    exact ⟨rfl, rfl⟩

theorem ends_tail {ps : List String} {closing : Text} (hclosing : Ends closing) :
    Ends ((ps.flatMap fun q => ',' :: ' ' :: q.toList) ++ closing) := by
  cases ps with
  | nil => exact hclosing
  | cons p ps =>
      intro c hc
      rw [List.flatMap_cons, List.cons_append, List.cons_append, List.head?_cons] at hc
      rw [← Option.some.inj hc]
      rfl

theorem eq_of_tail {ps qs : List String} {closing : Text}
    (hps : ∀ p ∈ ps, Passes p.toList (0, .plain) (0, .plain))
    (hqs : ∀ q ∈ qs, Passes q.toList (0, .plain) (0, .plain)) (hclosing : Ends closing)
    (h : (ps.flatMap fun q => ',' :: ' ' :: q.toList) ++ closing =
      (qs.flatMap fun q => ',' :: ' ' :: q.toList) ++ closing) : ps = qs := by
  induction ps generalizing qs with
  | nil =>
      cases qs with
      | nil => rfl
      | cons q qs =>
          have hlength := congrArg List.length h
          simp at hlength
          omega
  | cons p ps ih =>
      cases qs with
      | nil =>
          have hlength := congrArg List.length h
          simp at hlength
          omega
      | cons q qs =>
          simp only [List.flatMap_cons, List.cons_append, List.append_assoc, List.cons.injEq,
            true_and] at h
          obtain ⟨hfirst, hrest⟩ := eq_of_passes (hps p List.mem_cons_self)
            (hqs q List.mem_cons_self) (ends_tail hclosing) (ends_tail hclosing) h
          rw [String.toList_inj.mp hfirst, ih (fun x hx => hps x (List.mem_cons_of_mem p hx))
            (fun x hx => hqs x (List.mem_cons_of_mem q hx)) hrest]

theorem eq_of_enclose {ps qs : List String} {opening closing : String} {depth : Nat}
    (hps : ∀ p ∈ ps, p ≠ "" ∧ Passes p.toList (0, .plain) (0, .plain))
    (hqs : ∀ q ∈ qs, q ≠ "" ∧ Passes q.toList (0, .plain) (0, .plain))
    (hclosing : Ends closing.toList)
    (h : enclose .spaced depth opening closing ps = enclose .spaced depth opening closing qs) :
    ps = qs := by
  have htexts := congrArg String.toList h
  have hempty {q : String} {qs : List String} (hq : q ≠ "") :
      (enclose .spaced depth opening closing []).toList ≠
        (enclose .spaced depth opening closing (q :: qs)).toList := by
    intro hnil
    have hlength := congrArg List.length hnil
    rw [toList_enclose_nil, toList_enclose] at hlength
    have hpos : q.toList ≠ [] := fun hq' => hq (String.toList_eq_nil_iff.mp hq')
    have := List.length_pos_iff.mpr hpos
    simp only [List.length_append] at hlength
    omega
  match ps, qs with
  | [], [] => rfl
  | [], q :: qs => exact absurd htexts (hempty (hqs q List.mem_cons_self).1)
  | p :: ps, [] => exact absurd htexts.symm (hempty (hps p List.mem_cons_self).1)
  | p :: ps, q :: qs =>
      rw [toList_enclose, toList_enclose] at htexts
      have hrest := List.append_cancel_left htexts
      simp only [Layout.opened, Layout.between, Layout.closed, List.nil_append,
        List.singleton_append] at hrest
      obtain ⟨hfirst, hrest⟩ := eq_of_passes (hps p List.mem_cons_self).2
        (hqs q List.mem_cons_self).2 (ends_tail hclosing) (ends_tail hclosing) hrest
      rw [String.toList_inj.mp hfirst, eq_of_tail
        (fun x hx => (hps x (List.mem_cons_of_mem p hx)).2)
        (fun x hx => (hqs x (List.mem_cons_of_mem q hx)).2) hclosing hrest]

end Json

end Kouetsu
