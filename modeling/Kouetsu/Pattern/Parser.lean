import Kouetsu.Entries
import Kouetsu.Pattern.Basic
import Kouetsu.Text.Letter
/-!
# Reading patterns

The grammar of patterns over the tokens of the written form; a backslash and the character
after it are one token.  Reading looks one token ahead.
-/

namespace Kouetsu

namespace Pattern

/-- The state of reading: the token ahead and the text behind it, and what is known of the
groups so far. -/
private structure Cursor where
  characters : CharacterNames
  source : Text
  ahead : Text := []
  rest : Text
  groups : Array (Option Width) := #[none]
  names : Entries String Nat := []
  lookbehind : Option Nat := none
  references : List (Nat × Nat) := []
  flags : Flags := {}

private abbrev Parse := StateT Cursor (Except CompileError)

private def failAt (f : Fault) (offset : Nat) : Parse α := throw (.fault f (some offset))

private def tell : Parse Nat := do
  let s ← get
  pure (s.source.length - s.rest.length - s.ahead.length)

private def fail (f : Fault) (back : Nat := 0) : Parse α := do failAt f ((← tell) - back)

private def advance : Parse Unit := do
  let s ← get
  match s.rest with
  | [] => set { s with ahead := [] }
  | ['\\'] => failAt .danglingEscape (s.source.length - 1)
  | '\\' :: c :: rest => set { s with ahead := ['\\', c], rest := rest }
  | c :: rest => set { s with ahead := [c], rest := rest }

private def seek (offset : Nat) : Parse Unit := do
  modify fun s => { s with rest := s.source.drop offset }
  advance

/-- Takes the token ahead; at the end it is empty. -/
private def take : Parse Text := do
  let this := (← get).ahead
  advance
  pure this

private def accept (c : Char) : Parse Bool := do
  if (← get).ahead = [c] then
    advance
    pure true
  else pure false

private def takeWhileUpTo (p : Char → Bool) : Nat → Parse Text
  | 0 => pure []
  | n + 1 => do
      match (← get).ahead with
      | [c] =>
          if p c then
            advance
            pure (c :: (← takeWhileUpTo p n))
          else pure []
      | _ => pure []

private def takeDigits : Parse Text := do takeWhileUpTo isAsciiDigit (← get).source.length

private def takeUntil (terminator : Char) (kind : String) : Nat → Text → Parse Text
  | 0, acc => pure acc
  | fuel + 1, acc => do
      let this ← take
      if this.isEmpty then
        if acc.isEmpty then fail (.missingName kind)
        else fail (.unterminatedName terminator) acc.length
      else if this = [terminator] then
        if acc.isEmpty then fail (.missingName kind) 1 else pure acc
      else takeUntil terminator kind fuel (acc ++ this)

private def takeName (terminator : Char) (kind : String := "group name") : Parse Text := do
  takeUntil terminator kind ((← get).source.length + 1) []

private def isName : Text → Bool
  | [] => false
  | c :: rest => (isLetter c || c = '_') && rest.all isWordChar

private def checkName (name : Text) : Parse Unit := do
  if !isName name then fail (.badName (String.ofList name)) (name.length + 1)

private def isClosed (index : Nat) : Parse Bool := do
  match (← get).groups[index]? with
  | some (some _) => pure true
  | _ => pure false

private def checkLookbehind (index : Nat) : Parse Unit := do
  if let some limit := (← get).lookbehind then
    if !(← isClosed index) then fail .openReference
    if index ≥ limit then fail .lookbehindReference

private def referenceTo (index : Nat) : Parse Expr := do
  match (← get).groups[index]? with
  | some (some w) => pure (.reference index w)
  | _ => pure (.reference index .zero)

private def isOctal (c : Char) : Bool := '0' ≤ c && c ≤ '7'

private def isHex (c : Char) : Bool :=
  isAsciiDigit c || ('a' ≤ c && c ≤ 'f') || ('A' ≤ c && c ≤ 'F')

private def hexValue (t : Text) : Nat :=
  t.foldl (fun n c =>
    n * 16 + (if isAsciiDigit c then c.toNat - 48
      else if 'a' ≤ c then c.toNat - 87 else c.toNat - 55)) 0

private def octalValue (t : Text) : Nat := t.foldl (fun n c => n * 8 + (c.toNat - 48)) 0

private def categoryOf? : Char → Option (Category × Bool)
  | 'd' => some (.digit, false)
  | 'D' => some (.digit, true)
  | 's' => some (.blank, false)
  | 'S' => some (.blank, true)
  | 'w' => some (.word, false)
  | 'W' => some (.word, true)
  | _ => none

private def controlOf? : Char → Option Nat
  | 'a' => some 7
  | 'f' => some 12
  | 'n' => some 10
  | 'r' => some 13
  | 't' => some 9
  | 'v' => some 11
  | '\\' => some 92
  | _ => none

private def placeOf? : Char → Option Place
  | 'A' => some .textStart
  | 'Z' => some .textEnd
  | 'b' => some (.wordBoundary false)
  | 'B' => some (.wordBoundary true)
  | _ => none

private def hexEscape (letter : Char) (count : Nat) : Parse Nat := do
  let ds ← takeWhileUpTo isHex count
  let escape := '\\' :: letter :: ds
  if ds.length < count then
    fail (.incompleteEscape (String.ofList escape)) escape.length
  else
    let n := hexValue ds
    if n > 0x10ffff then fail (.badEscape (String.ofList escape)) escape.length
    else pure n

private def numericEscape? (letter : Char) : Parse (Option Nat) := do
  if letter = 'x' then some <$> hexEscape letter 2
  else if letter = 'u' then some <$> hexEscape letter 4
  else if letter = 'U' then some <$> hexEscape letter 8
  else if letter = 'N' then
    if !(← accept '\x7b') then fail .missingBrace
    let name ← takeName '\x7d' "character name"
    match (← get).characters name with
    | some c => pure (some c.toNat)
    | none => fail (.unknownCharacterName (String.ofList name)) (name.length + 4)
  else pure none

private def octalEscape (ds : Text) : Parse Nat := do
  let n := octalValue ds
  if n > 0o377 then
    fail (.octalTooLarge (String.ofList ('\\' :: ds))) (ds.length + 1)
  else pure n

private def plainEscape (c : Char) : Parse Nat := do
  if isAsciiLetter c || isAsciiDigit c then fail (.badEscape (String.ofList ['\\', c])) 2
  else pure c.toNat

private def setEscape (c : Char) : Parse SetItem := do
  if c = 'b' then pure (.char 8)
  else if let some n := controlOf? c then pure (.char n)
  else if let some (k, negated) := categoryOf? c then pure (.category k negated)
  else if let some n ← numericEscape? c then pure (.char n)
  else if isOctal c then
    let ds ← takeWhileUpTo isOctal 2
    .char <$> octalEscape (c :: ds)
  else .char <$> plainEscape c

/-- Reads the rest of a group reference or octal escape that starts with a digit other
than zero. -/
private def digitEscape (c : Char) : Parse Expr := do
  let second ← takeWhileUpTo isAsciiDigit 1
  let third ←
    match second with
    | [d] => if isOctal c && isOctal d then takeWhileUpTo isOctal 1 else pure []
    | _ => pure []
  let ds := c :: second ++ third
  if ds.length = 3 then .char <$> octalEscape ds
  else
    let index := ofDigits (ds.map fun d => d.toNat - 48)
    if index < (← get).groups.size then
      if !(← isClosed index) then fail .openReference (ds.length + 1)
      checkLookbehind index
      referenceTo index
    else fail (.unknownReference index) ds.length

private def escape (c : Char) : Parse Expr := do
  if let some p := placeOf? c then pure (.place p)
  else if let some (k, negated) := categoryOf? c then pure (.set false [.category k negated])
  else if let some n := controlOf? c then pure (.char n)
  else if let some n ← numericEscape? c then pure (.char n)
  else if c = '0' then
    let ds ← takeWhileUpTo isOctal 2
    pure (.char (octalValue ds))
  else if isAsciiDigit c then digitEscape c
  else .char <$> plainEscape c

private def setItem (token : Text) : Parse SetItem := do
  match token with
  | ['\\', c] => setEscape c
  | c :: _ => pure (.char c.toNat)
  | [] => pure (.char 0)

/-- Reads the items of a set that was opened at an offset, up to its closing bracket. -/
private def setItems (opened : Nat) : Nat → List SetItem → Parse (List SetItem)
  | 0, acc => pure acc.reverse
  | fuel + 1, acc => do
      let this ← take
      if this.isEmpty then failAt .unterminatedSet opened
      if this = [']'] && !acc.isEmpty then return acc.reverse
      let low ← setItem this
      if ← accept '-' then
        let that ← take
        if that.isEmpty then failAt .unterminatedSet opened
        if that = [']'] then return (SetItem.char '-'.toNat :: low :: acc).reverse
        let high ← setItem that
        let bad := Fault.badRange (String.ofList this) (String.ofList that)
        match low, high with
        | .char a, .char b =>
            if b < a then fail bad (this.length + 1 + that.length)
            else setItems opened fuel (.range a b :: acc)
        | _, _ => fail bad (this.length + 1 + that.length)
      else setItems opened fuel (low :: acc)

private def openSet : Parse Expr := do
  let opened := (← tell) - 1
  let negated ← accept '^'
  let items ← setItems opened ((← get).source.length + 1) []
  pure (.set negated items)

private def maxRepeat : Nat := 4294967295

/-- Reads a count after an opening brace; none where the brace stands for itself. -/
private def repeatBounds (here : Nat) : Parse (Option (Nat × Option Nat)) := do
  if (← get).ahead = ['\x7d'] then return none
  let low ← takeDigits
  let comma ← accept ','
  let high ← if comma then takeDigits else pure low
  if !(← accept '\x7d') then
    seek here
    return none
  let value (ds : Text) : Nat := ofDigits (ds.map fun d => d.toNat - 48)
  let least := value low
  if !low.isEmpty && least ≥ maxRepeat then throw .repeatTooLarge
  if high.isEmpty then return some (least, none)
  let greatest := value high
  if greatest ≥ maxRepeat then throw .repeatTooLarge
  if greatest < least then failAt .leastAboveGreatest here
  return some (least, some greatest)

private def isPlace : Expr → Bool
  | .place _ => true
  | _ => false

private def isMany : Expr → Bool
  | .many .. => true
  | _ => false

private def greedMark : Parse Greed := do
  if ← accept '?' then return .lazy
  if ← accept '+' then return .possessive
  return .greedy

/-- Repeats the last expression read; `acc` holds the expressions so far in reverse. -/
private def repeatLast (here size : Nat) (least : Nat) (greatest : Option Nat)
    (acc : List Expr) : Parse (List Expr) := do
  match acc with
  | [] => failAt .nothingToRepeat (here - size)
  | item :: before =>
      if isPlace item then failAt .nothingToRepeat (here - size)
      if isMany item then failAt .multipleRepeat (here - size)
      pure (.many (← greedMark) least greatest item :: before)

private def isFlagLetter (t : Text) : Bool :=
  match t with
  | [c] => c = 'L' || (Flags.ofLetter? c).isSome
  | _ => false

private def isLetterToken (t : Text) : Bool :=
  match t with
  | [c] => isLetter c
  | _ => false

/-- Reads the letters of switches to turn on, the first of which is `this`; answers with
the token that ends them. -/
private def flagsOn : Nat → Flags → Text → Parse (Flags × Text)
  | 0, acc, this => pure (acc, this)
  | fuel + 1, acc, this => do
      if this = ['L'] then fail .localeFlag
      let flag := (this.head?.bind Flags.ofLetter?).getD {}
      let acc := acc.union flag
      if (flag.ascii || flag.unicode) && acc.ascii && acc.unicode then fail .incompatibleFlags
      let next ← take
      if next.isEmpty then fail .missingFlagEnd
      if next = [')'] || next = ['-'] || next = [':'] then return (acc, next)
      if !isFlagLetter next then
        fail (if isLetterToken next then .unknownFlag else .missingFlagEnd) next.length
      flagsOn fuel acc next

private def flagsOff : Nat → Flags → Text → Parse Flags
  | 0, acc, _ => pure acc
  | fuel + 1, acc, this => do
      let flag := (this.head?.bind Flags.ofLetter?).getD {}
      if this = ['L'] || flag.ascii || flag.unicode then fail .alphabetTurnedOff
      let acc := acc.union flag
      let next ← take
      if next.isEmpty then fail .missingColon
      if next = [':'] then return acc
      if !isFlagLetter next then
        fail (if isLetterToken next then .unknownFlag else .missingColon) next.length
      flagsOff fuel acc next

/-- Reads switches; none where they are set for the whole pattern. -/
private def readFlags (this : Text) : Parse (Option (Flags × Flags)) := do
  let fuel := (← get).source.length + 1
  let (added, last) ← if this = ['-'] then pure ({}, this) else flagsOn fuel {} this
  if last = [')'] then
    modify fun s => { s with flags := s.flags.union added }
    return none
  if added.template then fail .globalTurnedOn 1
  let removed ←
    if last = ['-'] then
      let next ← take
      if next.isEmpty then fail .missingFlag
      if !isFlagLetter next then
        fail (if isLetterToken next then .unknownFlag else .missingFlag) next.length
      flagsOff fuel {} next
    else pure {}
  if removed.template then fail .globalTurnedOff 1
  if added.meets removed then fail .turnedOnAndOff 1
  return some (added, removed)

private def openGroup (name : Option Text) : Parse Nat := do
  let s ← get
  let index := s.groups.size
  if let some name := name then
    let key := String.ofList name
    if let some previous := s.names.get? key then
      fail (.redefinedName key index previous) (name.length + 1)
    modify fun s => { s with names := s.names.insert key index }
  modify fun s => { s with groups := s.groups.push none }
  pure index

private def closeGroup (index : Nat) (body : Expr) : Parse Unit :=
  modify fun s => { s with groups := s.groups.setIfInBounds index (some body.width) }

private def expectClose (opened : Nat) : Parse Unit := do
  if !(← accept ')') then failAt .unterminatedGroup opened

private def skipComment (opened : Nat) : Nat → Parse Unit
  | 0 => pure ()
  | fuel + 1 => do
      let this ← take
      if this.isEmpty then failAt .unterminatedComment opened
      if this = [')'] then pure () else skipComment opened fuel

private def skipLine : Nat → Parse Unit
  | 0 => pure ()
  | fuel + 1 => do
      let this ← take
      if this.isEmpty || this = ['\n'] then pure () else skipLine fuel

private def conditionIndex : Parse Nat := do
  let name ← takeName ')'
  let back := name.length + 1
  if isName name then
    match (← get).names.get? (String.ofList name) with
    | some index => pure index
    | none => fail (.unknownName (String.ofList name)) back
  else
    match parseInteger name with
    | .ok n =>
        if n < 0 then fail (.badName (String.ofList name)) back
        if n = 0 then fail .badGroupNumber back
        let index := n.toNat
        if index ≥ 1073741823 then fail (.unknownReference index) back
        let offset := (← tell) - back
        modify fun s =>
          if s.references.any (·.1 = index) then s
          else { s with references := s.references ++ [(index, offset)] }
        pure index
    | .error _ => fail (.badName (String.ofList name)) back

private def sequenceOf (acc : List Expr) : Expr :=
  match acc with
  | [] => .empty
  | last :: before => before.foldl (fun tail e => .cat e tail) last

private def isVerboseSpace (t : Text) : Bool :=
  [[' '], ['\t'], ['\n'], ['\r'], ['\x0b'], ['\x0c']].contains t

mutual

private def alternatives : Nat → Bool → Bool → Parse Expr
  | 0, _, _ => pure .empty
  | fuel + 1, verbose, outermost => do
      let first ← items fuel verbose outermost []
      moreAlternatives fuel verbose outermost first

private def moreAlternatives : Nat → Bool → Bool → Expr → Parse Expr
  | 0, _, _, first => pure first
  | fuel + 1, verbose, outermost, first => do
      if ← accept '|' then
        let s ← get
        let verbose := if outermost then s.flags.verbose else verbose
        let second ← items fuel verbose false []
        let rest ← moreAlternatives fuel verbose outermost second
        pure (.alt first rest)
      else pure first

private def items : Nat → Bool → Bool → List Expr → Parse Expr
  | 0, _, _, acc => pure (sequenceOf acc)
  | fuel + 1, verbose, leading, acc => do
      let this := (← get).ahead
      if this.isEmpty || this = ['|'] || this = [')'] then return sequenceOf acc
      advance
      if verbose && isVerboseSpace this then items fuel verbose leading acc
      else if verbose && this = ['#'] then
        skipLine ((← get).source.length + 1)
        items fuel verbose leading acc
      else
        match this with
        | ['\\', c] => do items fuel verbose leading ((← escape c) :: acc)
        | ['['] => do items fuel verbose leading ((← openSet) :: acc)
        | ['.'] => items fuel verbose leading (.any :: acc)
        | ['^'] => items fuel verbose leading (.place .caret :: acc)
        | ['$'] => items fuel verbose leading (.place .dollar :: acc)
        | ['?'] => do items fuel verbose leading (← repeatLast (← tell) 1 0 (some 1) acc)
        | ['*'] => do items fuel verbose leading (← repeatLast (← tell) 1 0 none acc)
        | ['+'] => do items fuel verbose leading (← repeatLast (← tell) 1 1 none acc)
        | ['\x7b'] => do
            let here ← tell
            match ← repeatBounds here with
            | none => items fuel verbose leading (.char '\x7b'.toNat :: acc)
            | some (least, greatest) =>
                items fuel verbose leading (← repeatLast here 1 least greatest acc)
        | ['('] => do
            let opened := (← tell) - 1
            match ← parenthesis fuel verbose opened (leading && acc.isEmpty) with
            | (some e, _) => items fuel verbose leading (e :: acc)
            | (none, some verbose) => items fuel verbose leading acc
            | (none, none) => items fuel verbose leading acc
        | c :: _ => items fuel verbose leading (.char c.toNat :: acc)
        | [] => pure (sequenceOf acc)

/-- Reads what follows an opening parenthesis.  Comments give no expression, nor do
switches for the whole pattern, which may change how white space is read. -/
private def parenthesis : Nat → Bool → Nat → Bool → Parse (Option Expr × Option Bool)
  | 0, _, _, _ => pure (none, none)
  | fuel + 1, verbose, opened, leading => do
      if !(← accept '?') then
        let e ← capture fuel verbose opened none
        return (some e, none)
      let this ← take
      match this with
      | [] => fail .unexpectedEnd
      | ['P'] =>
          if ← accept '<' then
            let name ← takeName '>'
            checkName name
            let e ← capture fuel verbose opened (some name)
            return (some e, none)
          else if ← accept '=' then
            let name ← takeName ')'
            checkName name
            match (← get).names.get? (String.ofList name) with
            | none => fail (.unknownName (String.ofList name)) (name.length + 1)
            | some index =>
                if !(← isClosed index) then fail .openReference (name.length + 1)
                checkLookbehind index
                return (some (← referenceTo index), none)
          else
            let next ← take
            if next.isEmpty then fail .unexpectedEnd
            fail (.unknownExtension (String.ofList ('P' :: next))) (next.length + 2)
      | [':'] =>
          let body ← alternatives fuel verbose false
          expectClose opened
          return (some (.scoped {} {} body), none)
      | ['#'] =>
          skipComment opened ((← get).source.length + 1)
          return (none, none)
      | ['='] => return (some (← look fuel verbose opened false false), none)
      | ['!'] => return (some (← look fuel verbose opened false true), none)
      | ['<'] =>
          let next ← take
          if next.isEmpty then fail .unexpectedEnd
          if next = ['='] then return (some (← look fuel verbose opened true false), none)
          if next = ['!'] then return (some (← look fuel verbose opened true true), none)
          fail (.unknownExtension (String.ofList ('<' :: next))) (next.length + 2)
      | ['('] =>
          let index ← conditionIndex
          checkLookbehind index
          let present ← items fuel verbose false []
          let absent ←
            if ← accept '|' then
              let e ← items fuel verbose false []
              if (← get).ahead = ['|'] then fail .tooManyBranches
              pure e
            else pure .empty
          expectClose opened
          return (some (.conditional index present absent), none)
      | ['>'] =>
          let body ← alternatives fuel verbose false
          expectClose opened
          return (some (.atomic body), none)
      | _ =>
          if isFlagLetter this || this = ['-'] then
            match ← readFlags this with
            | none =>
                if !leading then failAt .flagsNotAtStart opened
                let s ← get
                return (none, some s.flags.verbose)
            | some (added, removed) =>
                let verbose := (verbose || added.verbose) && !removed.verbose
                let body ← alternatives fuel verbose false
                expectClose opened
                return (some (.scoped added removed body), none)
          else fail (.unknownExtension (String.ofList this)) (this.length + 1)

private def capture : Nat → Bool → Nat → Option Text → Parse Expr
  | 0, _, _, _ => pure .empty
  | fuel + 1, verbose, opened, name => do
      let index ← openGroup name
      let body ← alternatives fuel verbose false
      expectClose opened
      closeGroup index body
      pure (.group index body)

private def look : Nat → Bool → Nat → Bool → Bool → Parse Expr
  | 0, _, _, _, _ => pure .empty
  | fuel + 1, verbose, opened, behind, negated => do
      let outer := (← get).lookbehind
      if behind && outer.isNone then
        modify fun s => { s with lookbehind := some s.groups.size }
      let body ← alternatives fuel verbose false
      if behind && outer.isNone then modify fun s => { s with lookbehind := none }
      expectClose opened
      pure (.look behind negated body)

end

private def wholePattern : Parse Expr := do
  advance
  let e ← alternatives (6 * (← get).source.length + 12) false true
  let s ← get
  if s.flags.ascii && s.flags.unicode then throw .alphabetConflict
  if !s.ahead.isEmpty then fail .unbalancedParenthesis
  for (index, offset) in s.references do
    if index ≥ s.groups.size then failAt (.unknownReference index) offset
  pure e

/-- What a pattern must not hold even if it is well formed. -/
def Expr.fault? (template : Bool) : Expr → Option Fault
  | .cat a b => (a.fault? template).or (b.fault? template)
  | .alt a b => (a.fault? template).or (b.fault? template)
  | .many _ _ _ body => if template then some .repeatInTemplate else body.fault? template
  | .group _ body => body.fault? template
  | .scoped _ _ body => body.fault? template
  | .atomic body => body.fault? template
  | .look behind _ body =>
      let w := body.width
      if behind && w.least > 4294967295 then some .lookbehindTooWide
      else if behind && w.greatest ≠ some w.least then some .variableLookbehind
      else body.fault? template
  | .conditional _ a b => (a.fault? template).or (b.fault? template)
  | _ => none

/-- Reads a pattern and the switches that it sets for the whole of itself. -/
def parse (characters : CharacterNames) (source : String) :
    Except CompileError (Expr × Flags) := do
  let (e, s) ← wholePattern.run
    { characters := characters, source := source.toList, rest := source.toList }
  match e.fault? s.flags.template with
  | some f => throw (.fault f none)
  | none => pure (e, s.flags)

end Pattern

end Kouetsu
