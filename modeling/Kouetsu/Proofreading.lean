import Kouetsu.Comment.Prose
import Kouetsu.Config.Settings
import Kouetsu.Document
import Kouetsu.Engine
import Kouetsu.Exclusion.Filter
import Kouetsu.Issue
import Kouetsu.Morphology
import Kouetsu.Position.Mapper
import Kouetsu.Token.Filter
/-!
# Proofreading

From a text to its issues.  Of source code only the comments are read.  Excluded ranges are
blanked, the rest is cut into sentences and given to the rules, and what they find outside
tables is mapped back to the text.
-/

namespace Kouetsu

/-- A text made ready: its prose, the prose without excluded ranges, and for source code the
way back. -/
structure Prepared where
  document : Text
  filtered : Filtered
  map : Option OffsetMap

def prepare (t : Text) (language : String) (cfg : FilterConfig) : Prepared :=
  if isCodeLanguage language then
    let view := proseView t language
    ⟨t, filterText view.text cfg, some (.ofRanges t view.text view.ranges)⟩
  else ⟨t, filterText t cfg, none⟩

def inTable (offset : Int) (ranges : List ExcludedRange) : Bool :=
  ranges.any fun r => r.kind = .table && r.covers offset

/-- The document range of a range of the prose.  Its last character is mapped and stepped
over, without leaving the line. -/
def documentRange? (prose : LineIndex) (m : OffsetMap) (r : Range) : Option Range := do
  let start := prose.offsetAt r.start
  let stop := prose.offsetAt r.stop
  let s ← m.toDocument? start
  if stop > start then
    let last ← m.toDocument? (stop - 1)
    pure ⟨s, ⟨last.line, min (last.character + 1) (m.index.lineLength last.line)⟩⟩
  else pure ⟨s, s⟩

def snippetAt (index : LineIndex) (r : Range) : Text :=
  (index.text.sliceBetween (index.offsetAt r.start) (index.offsetAt r.stop)).takeWhile (· ≠ '\n')

/-- What tells two diagnostics of one file apart. -/
structure DiagnosticKey where
  range : Range
  code : String
  message : String
deriving DecidableEq, Repr

namespace DiagnosticKey

def le (k l : DiagnosticKey) : Bool :=
  k.range.before l.range ||
    (k.range = l.range && (k.code < l.code || (k.code = l.code && k.message ≤ l.message)))

end DiagnosticKey

def Diagnostic.key (d : Diagnostic) : DiagnosticKey := ⟨d.range, d.code, d.message⟩

def firstOfEach : List Diagnostic → List Diagnostic
  | [] => []
  | d :: rest => d :: (firstOfEach rest).filter fun e => e.key ≠ d.key

/-- A diagnostic of the prose as one of the document; none inside a table and none at a place
that the document does not have. -/
def Prepared.locate? (p : Prepared) (prose : LineIndex) (d : Diagnostic) : Option Diagnostic :=
  if inTable (prose.offsetAt d.range.start) p.filtered.ranges then none
  else
    match p.map with
    | none => some d
    | some m => (documentRange? prose m d.range).map fun r => { d with range := r }

structure Proofreader where
  settings : Settings := {}
  engine : Engine
  names : Option (List String) := none

def Prepared.issuesOf (p : Prepared) (found : List Diagnostic) (file : Json.Node) : List Issue :=
  let prose := LineIndex.ofText p.filtered.text
  let document := LineIndex.ofText p.document
  let first := firstOfEach (found.filterMap (p.locate? prose))
  (first.mergeSort fun d e => d.key.le e.key).map fun d =>
    ⟨file, d, String.ofList (snippetAt document d.range)⟩

inductive TextError (ε : Type) where
  | tokens (e : ε)
  | enabling (e : EnablingError)

namespace Proofreader

def diagnostics (r : Proofreader) (p : Prepared) (tokens : List Token) :
    Except EnablingError (List Diagnostic) :=
  let kept := keepTokens tokens p.filtered.ranges
  let sentences := segment p.filtered.text kept (some p.filtered.ranges)
  r.engine.check p.filtered.text kept sentences r.settings.rules r.names

/-- The issues of a text, its tokens given by a function of the filtered text. -/
def checkText (r : Proofreader) (t : Text) (language : String) (file : Json.Node)
    (tokensOf : Text → Except ε (List Token)) : Except (TextError ε) (List Issue) := do
  let p := prepare t language r.settings.filter
  let tokens ← (tokensOf p.filtered.text).mapError .tokens
  let found ← (r.diagnostics p tokens).mapError .enabling
  pure (p.issuesOf found file)

def checkDocument (r : Proofreader) (uri language : String) (t : Text) (file : Json.Node)
    (tokensOf : Text → Except ε (List Token)) : Except (TextError ε) (List Issue) :=
  if shouldAnalyse uri language t r.settings.rules then r.checkText t language file tokensOf
  else .ok []

end Proofreader

/-- The tokens of an analyser, where one is asked for and installed. -/
def Morphology.tokens (m : Morphology) (enabled : Bool) (t : Text) :
    Except MorphologyError (List Token) :=
  if enabled && m.isAvailable then m.analyse t else .ok []

end Kouetsu
