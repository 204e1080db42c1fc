import Kouetsu.Proofs.Text.Run
/-!
# Rewriting at spans

A text is rewritten by words in place of some of its spans.  Rewriting commutes with putting a text
in front, so it follows the parts of a scan for runs; when each run of a class is rewritten
character by character, the whole text is.
-/

namespace Kouetsu

namespace Text

/-- A text from an offset on, with words in place of spans that are ordered. -/
def rewriteFrom (t : Text) (offset : Nat) : List (Span × Text) → Text
  | [] => t.drop offset
  | (s, word) :: more => t.slice ⟨offset, s.start⟩ ++ (word ++ rewriteFrom t s.stop more)

def shiftEdits (n : Nat) (edits : List (Span × Text)) : List (Span × Text) :=
  edits.map fun e => (e.1.shift n, e.2)

theorem slice_append_shift (lead t : Text) (s : Span) :
    (lead ++ t).slice (s.shift lead.length) = t.slice s := by
  rw [slice, slice, Span.shift, List.take_append, List.drop_append,
    List.take_of_length_le (by simp)]
  simp

theorem rewriteFrom_shift (lead t : Text) (offset : Nat) (edits : List (Span × Text)) :
    rewriteFrom (lead ++ t) (offset + lead.length) (shiftEdits lead.length edits) =
      rewriteFrom t offset edits := by
  induction edits generalizing offset with
  | nil =>
      show (lead ++ t).drop (offset + lead.length) = t.drop offset
      rw [Nat.add_comm, List.drop_append, ← List.drop_drop]
      simp
  | cons e edits ih =>
      obtain ⟨s, word⟩ := e
      have hkept : (lead ++ t).slice ⟨offset + lead.length, s.start + lead.length⟩ =
          t.slice ⟨offset, s.start⟩ := slice_append_shift lead t ⟨offset, s.start⟩
      show (lead ++ t).slice ⟨offset + lead.length, s.start + lead.length⟩ ++
        (word ++ rewriteFrom (lead ++ t) (s.stop + lead.length) (shiftEdits lead.length edits)) = _
      rw [hkept, ih]
      rfl

theorem rewriteFrom_append (lead t : Text) (edits : List (Span × Text)) :
    rewriteFrom (lead ++ t) 0 (shiftEdits lead.length edits) = lead ++ rewriteFrom t 0 edits := by
  cases edits with
  | nil => rfl
  | cons e edits =>
      obtain ⟨s, word⟩ := e
      have hkept : (lead ++ t).slice ⟨0, s.start + lead.length⟩ = lead ++ t.slice ⟨0, s.start⟩ := by
        simp [slice, List.take_append, List.take_of_length_le]
      show (lead ++ t).slice ⟨0, s.start + lead.length⟩ ++
        (word ++ rewriteFrom (lead ++ t) (s.stop + lead.length) (shiftEdits lead.length edits)) = _
      rw [hkept, rewriteFrom_shift, List.append_assoc]
      rfl

def editsAt (g : Char → Char) (t : Text) (spans : List Span) : List (Span × Text) :=
  spans.map fun s => (s, (t.slice s).map g)

theorem editsAt_shift (g : Char → Char) (lead t : Text) (spans : List Span) :
    editsAt g (lead ++ t) (spans.map (·.shift lead.length)) =
      shiftEdits lead.length (editsAt g t spans) := by
  simp only [editsAt, shiftEdits, List.map_map, Function.comp_def, slice_append_shift]

/-- Rewriting each run of a class changes the characters of the class. -/
theorem rewriteFrom_scan_run (p : Char → Bool) (g : Char → Char) (t : Text) :
    rewriteFrom t 0 (editsAt g t (t.scan (run p))) = t.map fun c => if p c then g c else c := by
  induction t using run_induction p with
  | nil => rfl
  | skip c rest hc ih =>
      have hedits := editsAt_shift g [c] rest (rest.scan (run p))
      rw [scan_run_skip hc]
      refine (congrArg _ hedits).trans ?_
      refine (rewriteFrom_append [c] rest _).trans ?_
      rw [ih, List.map_cons, hc]
      rfl
  | word w rest hw hp hrest ih =>
      have hword : slice (w ++ rest) ⟨0, w.length⟩ = w := by simp [slice]
      have hclass : w.map (fun c => if p c then g c else c) = w.map g :=
        List.map_congr_left fun c hc => if_pos (hp c hc)
      have hbehind := rewriteFrom_shift w rest 0 (editsAt g rest (rest.scan (run p)))
      rw [Nat.zero_add] at hbehind
      rw [scan_run_word hw hp hrest, editsAt, List.map_cons, ← editsAt, editsAt_shift, hword,
        List.map_append, hclass, ← ih, ← hbehind]
      rfl

end Text

end Kouetsu
