import Kouetsu.Pattern.Parser
import Kouetsu.Text.Case
/-!
# Matching patterns

A backtracking matcher in continuation style.  It tries alternatives from left to right
and repeats as its greed says; a repetition whose last round matched nothing is not tried
again.
-/

namespace Kouetsu

namespace Pattern

/-- Lower-case letters that share an upper-case letter. -/
def caseClasses : List (List Nat) :=
  [[0x69, 0x131], [0x73, 0x17f], [0xb5, 0x3bc], [0x345, 0x3b9, 0x1fbe], [0x390, 0x1fd3],
    [0x3b0, 0x1fe3], [0x3b2, 0x3d0], [0x3b5, 0x3f5], [0x3b8, 0x3d1], [0x3ba, 0x3f0],
    [0x3c0, 0x3d6], [0x3c1, 0x3f1], [0x3c2, 0x3c3], [0x3c6, 0x3d5], [0x432, 0x1c80],
    [0x434, 0x1c81], [0x43e, 0x1c82], [0x441, 0x1c83], [0x442, 0x1c84, 0x1c85],
    [0x44a, 0x1c86], [0x463, 0x1c87], [0x1c88, 0xa64b], [0x1e61, 0x1e9b], [0xfb05, 0xfb06]]

namespace Flags

def foldCode (f : Flags) (n : Nat) : Nat :=
  if f.ascii then (if 65 ≤ n && n ≤ 90 then n + 32 else n) else lowerCode n

def variants (f : Flags) (n : Nat) : List Nat :=
  if f.ascii then [n] else (caseClasses.find? (·.contains n)).getD [n]

def unfolded (f : Flags) (n : Nat) : List Nat :=
  (f.variants n).flatMap fun v =>
    if f.ascii then (if 97 ≤ v && v ≤ 122 then [v, v - 32] else [v])
    else
      v :: (if v = 0x69 then [0x130] else []) ++
        lowerRuns.filterMap fun r =>
          let n := ((v : Int) - r.shift).toNat
          if r.covers n then some n else none

def inCategory (f : Flags) (c : Category) (n : Nat) : Bool :=
  let ch := Char.ofNat n
  match c with
  | .digit => if f.ascii then isAsciiDigit ch else isDecimal ch
  | .blank =>
      if f.ascii then (9 ≤ n && n ≤ 13) || n = 32 else isBlank ch
  | .word => if f.ascii then isAsciiWordChar ch else isWordChar ch

def itemHolds (f : Flags) (item : SetItem) (n : Nat) : Bool :=
  let n' := if f.ignoreCase then f.foldCode n else n
  match item with
  | .char code => if f.ignoreCase then (f.variants (f.foldCode code)).contains n' else code = n
  | .range low high =>
      if f.ignoreCase then (f.unfolded n').any fun m => low ≤ m && m ≤ high
      else low ≤ n && n ≤ high
  | .category c negated => f.inCategory c n' != negated

def charEquals (f : Flags) (code n : Nat) : Bool :=
  if f.ignoreCase then (f.variants (f.foldCode code)).contains (f.foldCode n) else code = n

end Flags

/-- Where matching stands: the offset and the spans of the groups, the latest first. -/
structure Progress where
  offset : Nat
  groups : List (Nat × Span) := []

/-- Matching one expression: from a progress, what the continuation makes of the first way
to match that it accepts. -/
abbrev Matching := Progress → (Progress → Option Progress) → Option Progress

def oneChar (text : Array Char) (p : Nat → Bool) : Matching := fun s k =>
  match text[s.offset]? with
  | some c => if p c.toNat then k { s with offset := s.offset + 1 } else none
  | none => none

def rounds (one : Matching) (lazy : Bool) (least : Nat) (greatest : Option Nat)
    (k : Progress → Option Progress) : Nat → Nat → Option Nat → Progress → Option Progress
  | 0, _, _, s => k s
  | fuel + 1, count, last, s =>
      let again := one s
      let next := rounds one lazy least greatest k fuel (count + 1)
      if count < least then again (next last)
      else
        let mayRepeat := (greatest.all (count < ·)) && last ≠ some s.offset
        if lazy then
          match k s with
          | some r => some r
          | none => if mayRepeat then again (next (some s.offset)) else none
        else if mayRepeat then
          match again (next (some s.offset)) with
          | some r => some r
          | none => k s
        else k s

/-- Matches without letting the continuation ask for another way. -/
def atomically (one : Matching) : Matching := fun s k =>
  match one s some with
  | some s' => k s'
  | none => none

def holdsAt (text : Array Char) (f : Flags) (p : Place) (offset : Nat) : Bool :=
  let word (i : Nat) : Bool :=
    match text[i]? with
    | some c => f.inCategory .word c.toNat
    | none => false
  let atLineFeed (i : Nat) : Bool := text[i]? = some '\n'
  match p with
  | .textStart => offset = 0
  | .textEnd => offset = text.size
  | .caret => offset = 0 || (f.multiline && atLineFeed (offset - 1))
  | .dollar =>
      offset = text.size || (if f.multiline then atLineFeed offset
        else offset + 1 = text.size && atLineFeed offset)
  | .wordBoundary negated =>
      (text.size > 0 && (((offset > 0 && word (offset - 1)) != word offset) != negated))

def sameAgain (text : Array Char) (f : Flags) (s : Span) : Matching := fun p k =>
  let size := s.length
  let equal := (List.range size).all fun i =>
    match text[s.start + i]?, text[p.offset + i]? with
    | some a, some b =>
        if f.ignoreCase then f.foldCode a.toNat = f.foldCode b.toNat else a = b
    | _, _ => false
  if equal then k { p with offset := p.offset + size } else none

def Progress.groupSpan? (s : Progress) (index : Nat) : Option Span :=
  (s.groups.find? (·.1 = index)).map (·.2)

def Expr.matching (text : Array Char) (f : Flags) : Expr → Matching
  | .empty => fun s k => k s
  | .char code => oneChar text (f.charEquals code)
  | .any => oneChar text fun n => f.dotAll || n ≠ 10
  | .set negated items => oneChar text fun n => (items.any (f.itemHolds · n)) != negated
  | .place p => fun s k => if holdsAt text f p s.offset then k s else none
  | .cat a b => fun s k => a.matching text f s fun s' => b.matching text f s' k
  | .alt a b => fun s k =>
      match a.matching text f s k with
      | some r => some r
      | none => b.matching text f s k
  | .many greed least greatest body =>
      let one := body.matching text f
      match greed with
      | .greedy => fun s k =>
          rounds one false least greatest k (least + text.size + 2) 0 none s
      | .lazy => fun s k =>
          rounds one true least greatest k (least + text.size + 2) 0 none s
      | .possessive =>
          atomically fun s k =>
            rounds (atomically one) false least greatest k (least + text.size + 2) 0 none s
  | .group index body => fun s k =>
      body.matching text f s fun s' =>
        k { s' with groups := (index, ⟨s.offset, s'.offset⟩) :: s'.groups }
  | .scoped added removed body => body.matching text (f.within added removed)
  | .atomic body => atomically (body.matching text f)
  | .look behind negated body => fun s k =>
      let back := if behind then body.width.least else 0
      if s.offset < back then (if negated then k s else none)
      else
        match body.matching text f { s with offset := s.offset - back } some, negated with
        | some s', false => k { s' with offset := s.offset }
        | none, true => k s
        | _, _ => none
  | .reference index _ => fun s k =>
      match s.groupSpan? index with
      | some span => sameAgain text f span s k
      | none => none
  | .conditional index present absent => fun s k =>
      match s.groupSpan? index with
      | some _ => present.matching text f s k
      | none => absent.matching text f s k

def compile (characters : CharacterNames) (source : String) : Except CompileError Pattern := do
  let (expr, flags) ← parse characters source
  pure ⟨source, expr, flags⟩

/-- The end of the match that starts at an offset; where `fresh` does not hold it must not
be empty. -/
def matchAt (p : Pattern) (text : Array Char) (offset : Nat) (fresh : Bool) : Option Nat :=
  (p.expr.matching text p.flags { offset := offset } fun s =>
    if !fresh && s.offset = offset then none else some s).map (·.offset)

/-- The matches from an offset on, each the leftmost after the one before it. -/
def matchesFrom (p : Pattern) (text : Array Char) : Nat → Nat → Bool → List Span
  | 0, _, _ => []
  | fuel + 1, offset, fresh =>
      if offset > text.size then []
      else
        match p.matchAt text offset fresh with
        | some stop =>
            let stop := max offset (min stop text.size)
            ⟨offset, stop⟩ :: p.matchesFrom text fuel stop (offset < stop)
        | none => p.matchesFrom text fuel (offset + 1) true

/-- The matches of a pattern in a text, from left to right.  Right after an empty match no
second one starts. -/
def spans (p : Pattern) (t : Text) : List Span :=
  p.matchesFrom t.toArray (3 * t.length + 3) 0 true

end Pattern

end Kouetsu
