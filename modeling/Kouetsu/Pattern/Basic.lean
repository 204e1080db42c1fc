import Kouetsu.Text.Quoted
/-!
# Search patterns

The expressions of the pattern language of exclusion lists and rule files, and the causes
for which a written pattern is refused.
-/

namespace Kouetsu

/-- The characters that a pattern may name. -/
abbrev CharacterNames := Text → Option Char

namespace Pattern

/-- Switches of a pattern, set for the whole of it or for one group. -/
structure Flags where
  ignoreCase : Bool := false
  multiline : Bool := false
  dotAll : Bool := false
  verbose : Bool := false
  ascii : Bool := false
  unicode : Bool := false
  template : Bool := false
deriving DecidableEq, Repr

namespace Flags

def union (f g : Flags) : Flags where
  ignoreCase := f.ignoreCase || g.ignoreCase
  multiline := f.multiline || g.multiline
  dotAll := f.dotAll || g.dotAll
  verbose := f.verbose || g.verbose
  ascii := f.ascii || g.ascii
  unicode := f.unicode || g.unicode
  template := f.template || g.template

def minus (f g : Flags) : Flags where
  ignoreCase := f.ignoreCase && !g.ignoreCase
  multiline := f.multiline && !g.multiline
  dotAll := f.dotAll && !g.dotAll
  verbose := f.verbose && !g.verbose
  ascii := f.ascii && !g.ascii
  unicode := f.unicode && !g.unicode
  template := f.template && !g.template

def isEmpty (f : Flags) : Bool := f = {}

def meets (f g : Flags) : Bool :=
  (f.ignoreCase && g.ignoreCase) || (f.multiline && g.multiline) || (f.dotAll && g.dotAll) ||
    (f.verbose && g.verbose) || (f.ascii && g.ascii) || (f.unicode && g.unicode) ||
    (f.template && g.template)

def ofLetter? : Char → Option Flags
  | 'i' => some { ignoreCase := true }
  | 'm' => some { multiline := true }
  | 's' => some { dotAll := true }
  | 'x' => some { verbose := true }
  | 'a' => some { ascii := true }
  | 't' => some { template := true }
  | 'u' => some { unicode := true }
  | _ => none

/-- The switches in force inside a group that adds some and removes others.  A group that
names its alphabet leaves that of its surroundings. -/
def within (outer added removed : Flags) : Flags :=
  let outer :=
    if added.ascii || added.unicode then { outer with ascii := false, unicode := false } else outer
  (outer.union added).minus removed

end Flags

inductive Category where
  | digit
  | blank
  | word
deriving DecidableEq, Repr

/-- What a bracketed set lists.  Characters are given by number, as a range may end at a
number that is no character. -/
inductive SetItem where
  | char (code : Nat)
  | range (low high : Nat)
  | category (c : Category) (negated : Bool)
deriving DecidableEq, Repr

inductive Place where
  | caret
  | dollar
  | textStart
  | textEnd
  | wordBoundary (negated : Bool)
deriving DecidableEq, Repr

inductive Greed where
  | greedy
  | lazy
  | possessive
deriving DecidableEq, Repr

/-- The least and the greatest length of a match; no greatest length where it has no
bound. -/
structure Width where
  least : Nat
  greatest : Option Nat
deriving DecidableEq, Repr

/-- A pattern expression.  A reference to a group knows the width of the group. -/
inductive Expr where
  | empty
  | char (code : Nat)
  | any
  | set (negated : Bool) (items : List SetItem)
  | place (p : Place)
  | cat (first second : Expr)
  | alt (first second : Expr)
  | many (greed : Greed) (least : Nat) (greatest : Option Nat) (body : Expr)
  | group (index : Nat) (body : Expr)
  | scoped (added removed : Flags) (body : Expr)
  | atomic (body : Expr)
  | look (behind negated : Bool) (body : Expr)
  | reference (index : Nat) (width : Width)
  | conditional (index : Nat) (present absent : Expr)
deriving DecidableEq, Repr, Inhabited

namespace Width

def zero : Width := ⟨0, some 0⟩

def one : Width := ⟨1, some 1⟩

def add (v w : Width) : Width :=
  ⟨v.least + w.least, do pure ((← v.greatest) + (← w.greatest))⟩

def join (v w : Width) : Width :=
  ⟨min v.least w.least, do pure (max (← v.greatest) (← w.greatest))⟩

def times (w : Width) (least : Nat) (greatest : Option Nat) : Width :=
  ⟨w.least * least,
    match w.greatest, greatest with
    | some 0, _ => some 0
    | some n, some m => some (n * m)
    | _, _ => none⟩

end Width

def Expr.width : Expr → Width
  | .empty => .zero
  | .char _ => .one
  | .any => .one
  | .set _ _ => .one
  | .place _ => .zero
  | .cat a b => a.width.add b.width
  | .alt a b => a.width.join b.width
  | .many _ least greatest body => body.width.times least greatest
  | .group _ body => body.width
  | .scoped _ _ body => body.width
  | .atomic body => body.width
  | .look _ _ _ => .zero
  | .reference _ w => w
  | .conditional _ present absent => present.width.join absent.width

inductive Fault where
  | unterminatedSet
  | unterminatedGroup
  | unterminatedComment
  | unbalancedParenthesis
  | nothingToRepeat
  | multipleRepeat
  | leastAboveGreatest
  | danglingEscape
  | badEscape (escape : String)
  | incompleteEscape (escape : String)
  | octalTooLarge (escape : String)
  | badRange (low high : String)
  | unknownReference (index : Nat)
  | openReference
  | lookbehindReference
  | missingName (kind : String)
  | unterminatedName (terminator : Char)
  | badName (name : String)
  | unknownName (name : String)
  | redefinedName (name : String) (index previous : Nat)
  | unexpectedEnd
  | unknownExtension (letters : String)
  | badGroupNumber
  | tooManyBranches
  | flagsNotAtStart
  | unknownFlag
  | missingFlagEnd
  | missingFlag
  | missingColon
  | localeFlag
  | incompatibleFlags
  | alphabetTurnedOff
  | globalTurnedOn
  | globalTurnedOff
  | turnedOnAndOff
  | missingBrace
  | unknownCharacterName (name : String)
  | variableLookbehind
  | lookbehindTooWide
  | repeatInTemplate
deriving DecidableEq, Repr

def Fault.message : Fault → String
  | .unterminatedSet => "unterminated character set"
  | .unterminatedGroup => "missing ), unterminated subpattern"
  | .unterminatedComment => "missing ), unterminated comment"
  | .unbalancedParenthesis => "unbalanced parenthesis"
  | .nothingToRepeat => "nothing to repeat"
  | .multipleRepeat => "multiple repeat"
  | .leastAboveGreatest => "min repeat greater than max repeat"
  | .danglingEscape => "bad escape (end of pattern)"
  | .badEscape e => "bad escape " ++ e
  | .incompleteEscape e => "incomplete escape " ++ e
  | .octalTooLarge e => "octal escape value " ++ e ++ " outside of range 0-0o377"
  | .badRange low high => "bad character range " ++ low ++ "-" ++ high
  | .unknownReference n => "invalid group reference " ++ toString n
  | .openReference => "cannot refer to an open group"
  | .lookbehindReference => "cannot refer to group defined in the same lookbehind subpattern"
  | .missingName kind => "missing " ++ kind
  | .unterminatedName c => "missing " ++ String.singleton c ++ ", unterminated name"
  | .badName name => "bad character in group name " ++ quoteString name
  | .unknownName name => "unknown group name " ++ quoteString name
  | .redefinedName name n previous =>
      "redefinition of group name " ++ quoteString name ++ " as group " ++ toString n ++
        "; was group " ++ toString previous
  | .unexpectedEnd => "unexpected end of pattern"
  | .unknownExtension letters => "unknown extension ?" ++ letters
  | .badGroupNumber => "bad group number"
  | .tooManyBranches => "conditional backref with more than two branches"
  | .flagsNotAtStart => "global flags not at the start of the expression"
  | .unknownFlag => "unknown flag"
  | .missingFlagEnd => "missing -, : or )"
  | .missingFlag => "missing flag"
  | .missingColon => "missing :"
  | .localeFlag => "bad inline flags: cannot use 'L' flag with a str pattern"
  | .incompatibleFlags => "bad inline flags: flags 'a', 'u' and 'L' are incompatible"
  | .alphabetTurnedOff => "bad inline flags: cannot turn off flags 'a', 'u' and 'L'"
  | .globalTurnedOn => "bad inline flags: cannot turn on global flag"
  | .globalTurnedOff => "bad inline flags: cannot turn off global flag"
  | .turnedOnAndOff => "bad inline flags: flag turned on and off"
  | .missingBrace => "missing \x7b"
  | .unknownCharacterName name => "undefined character name " ++ quoteString name
  | .variableLookbehind => "look-behind requires fixed-width pattern"
  | .lookbehindTooWide => "looks too much behind"
  | .repeatInTemplate => "internal: unsupported template operator MAX_REPEAT"

inductive CompileError where
  | fault (f : Fault) (offset : Option Nat)
  | repeatTooLarge
  | alphabetConflict
deriving DecidableEq, Repr

/-- The text of an error.  The offset comes with its line and column where the pattern has
more than one line. -/
def CompileError.message (pattern : String) : CompileError → String
  | .fault f none => f.message
  | .fault f (some offset) =>
      let before := pattern.toList.take offset
      let line := before.count '\n' + 1
      let column := (before.reverse.takeWhile (· ≠ '\n')).length + 1
      f.message ++ " at position " ++ toString offset ++
        (if pattern.toList.contains '\n' then
          " (line " ++ toString line ++ ", column " ++ toString column ++ ")"
        else "")
  | .repeatTooLarge => "the repetition number is too large"
  | .alphabetConflict => "ASCII and UNICODE flags are incompatible"

end Pattern

/-- A pattern that has been read, with the switches it sets for the whole of itself. -/
structure Pattern where
  source : String
  expr : Pattern.Expr
  flags : Pattern.Flags
deriving DecidableEq, Repr

namespace Pattern

def flagNames (f : Flags) : List String :=
  let named (b : Bool) (name : String) : List String := if b then [name] else []
  named f.template "re.TEMPLATE" ++ named f.ignoreCase "re.IGNORECASE" ++
    named f.multiline "re.MULTILINE" ++ named f.dotAll "re.DOTALL" ++
    named f.verbose "re.VERBOSE" ++ named f.ascii "re.ASCII"

/-- How a pattern is shown: its quoted source, cut to two hundred characters, and its
switches. -/
def shown (p : Pattern) : String :=
  let quoted := (quoteString p.source).toList.take 200
  let flags := flagNames p.flags
  "re.compile(" ++ String.ofList quoted ++
    (if flags.isEmpty then "" else ", " ++ String.intercalate "|" flags) ++ ")"

end Pattern

end Kouetsu
