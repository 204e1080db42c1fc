import Kouetsu.Config.Filter
import Kouetsu.Exclusion.Recogniser
import Kouetsu.Pattern.Matcher
/-!
# Detecting excluded ranges

Eight passes over a text offer candidates in order of priority.  A candidate is accepted
unless it overlaps a range of its pool: the ranges accepted so far, for a table the code
blocks, and for a mark at the start of a line all earlier ranges but tables.
-/

namespace Kouetsu

structure Candidate where
  span : Span
  kind : RangeKind
  reason : String
deriving DecidableEq, Repr

/-- The ranges accepted so far and a line of text per decision, both in order. -/
structure Detection where
  accepted : List ExcludedRange := []
  trace : List String := []
deriving Repr

namespace Candidate

def range (c : Candidate) (t : Text) : ExcludedRange where
  start := c.span.start
  stop := c.span.stop
  kind := c.kind
  content := t.slice c.span
  reason := c.reason

private def place (c : Candidate) : String :=
  c.kind.name ++ " [" ++ toString c.span.start ++ "," ++ toString c.span.stop ++ ")"

def overlaps (c : Candidate) (pool : List ExcludedRange) : Bool :=
  overlapsAny c.span.start c.span.stop pool

end Candidate

namespace Detection

/-- Accepts a candidate unless it is empty or overlaps a range of the pool. -/
def offer (t : Text) (pool : List ExcludedRange) (d : Detection) (c : Candidate) : Detection :=
  if c.span.start ≥ c.span.stop then d
  else if c.overlaps pool then
    { d with trace := d.trace ++ ["skip " ++ c.place ++ ": 既存の除外範囲と重複"] }
  else
    { accepted := d.accepted ++ [c.range t]
      trace := d.trace ++ [c.place ++ ": " ++ c.reason] }

/-- Offers candidates one after the other, each against its pool among the ranges accepted so
far. -/
def offerEach (t : Text) (pool : List ExcludedRange → Candidate → List ExcludedRange)
    (cs : List Candidate) (d : Detection) : Detection :=
  cs.foldl (fun d c => d.offer t (pool d.accepted c) c) d

def offerAll (t : Text) (cs : List Candidate) (d : Detection) : Detection :=
  d.offerEach t (fun accepted _ => accepted) cs

def candidates (kind : RangeKind) (reason : String) (spans : List Span) : List Candidate :=
  spans.map fun s => ⟨s, kind, reason⟩

def codeBlockCandidates (t : Text) : List Candidate :=
  candidates .codeBlock "コードブロック検出" (t.scan Markup.codeBlock)

def inlineCodeCandidates (t : Text) : List Candidate :=
  candidates .inlineCode "インラインコード検出" (t.scan Markup.inlineCode)

/-- Addresses in the text, the targets of links, and addresses in angle brackets. -/
def urlCandidates (t : Text) : List Candidate :=
  candidates .url "URL検出" (t.scan Markup.plainUrl) ++
    candidates .url "マークダウンリンクURL検出"
      ((t.scan Markup.link).map (Markup.linkTarget t)) ++
    candidates .url "自動リンク検出"
      ((t.scan Markup.autoLink).map fun s => ⟨s.start + 1, s.stop - 1⟩)

def configKeyCandidates (t : Text) : List Candidate :=
  candidates .configKey "設定キー名検出" (t.scan Markup.configKey)

def patternCandidates (t : Text) (p : Pattern) : List Candidate :=
  candidates .custom ("カスタムパターン検出: " ++ p.source) (p.spans t)

/-- The matches of a pattern, which may be given as text.  A text that is no pattern has none; what
cannot be taken for a pattern at all fails. -/
def customCandidates? (characters : CharacterNames) (t : Text) :
    Value → Option (List Candidate)
  | .scalar (.pattern p) => some (patternCandidates t p)
  | .str source =>
      match Pattern.compile characters source with
      | .ok p => some (patternCandidates t p)
      | .error (.fault _ _) => some []
      | .error _ => none
  | _ => none

def separatorCandidate (offset : Nat) (line : Text) : Candidate :=
  ⟨⟨offset, offset + line.length⟩, .tableSeparator, "マークダウンテーブルセパレーター行検出"⟩

def delimiterCandidates (offset : Nat) : Text → List Candidate
  | [] => []
  | c :: rest =>
      if c = '|' then
        ⟨⟨offset, offset + 1⟩, .tableDelimiter, "マークダウンテーブル区切り文字検出"⟩ ::
          delimiterCandidates (offset + 1) rest
      else delimiterCandidates (offset + 1) rest

/-- The table that started at an offset, if any, and stops at another. -/
def closedTable (stop : Nat) : Option Nat → List Candidate
  | some start => [⟨⟨start, stop⟩, .table, "マークダウンテーブル検出"⟩]
  | none => []

/-- The separators, bars and tables of lines; `opened` is the start of the table that the line
before belongs to, and `stop` the end of the text. -/
def tableCandidatesFrom (stop : Nat) (opened : Option Nat) : List (Nat × Text) → List Candidate
  | [] => closedTable stop opened
  | (offset, line) :: rest =>
      match Markup.tableLine line with
      | .separator =>
          separatorCandidate offset line ::
            tableCandidatesFrom stop (some (opened.getD offset)) rest
      | .row =>
          delimiterCandidates offset line ++
            tableCandidatesFrom stop (some (opened.getD offset)) rest
      | .outside => closedTable offset opened ++ tableCandidatesFrom stop none rest

def tableCandidates (t : Text) : List Candidate :=
  tableCandidatesFrom t.length none t.numberedLines

/-- Offers what belongs to tables: a table against the code blocks, its parts against all
ranges accepted so far. -/
def tablePass (t : Text) (cs : List Candidate) (d : Detection) : Detection :=
  let codeBlocks := d.accepted.filter (·.kind = .codeBlock)
  d.offerEach t (fun accepted c => if c.kind = .table then codeBlocks else accepted) cs

def markCandidates (mark? : Text → Option Nat) (kind : RangeKind) (reason : String) (t : Text) :
    List Candidate :=
  t.numberedLines.filterMap fun (offset, line) =>
    (mark? line).map fun n => ⟨⟨offset, offset + n⟩, kind, reason⟩

/-- Offers marks against the ranges accepted before, tables left aside; a mark that
overlaps one of them leaves no trace. -/
def markPass (t : Text) (cs : List Candidate) (d : Detection) : Detection :=
  let blocks := d.accepted.filter (·.kind ≠ .table)
  d.offerEach t (fun _ _ => blocks) (cs.filter fun c => !c.overlaps blocks)

def headingCandidates (t : Text) : List Candidate :=
  markCandidates Markup.headingMark? .heading "マークダウン見出しマーカー検出" t

def listMarkCandidates (t : Text) : List Candidate :=
  markCandidates Markup.listMark? .listMarker "リストマーカー検出" t

def ifOn (b : Bool) (cs : List Candidate) : List Candidate := if b then cs else []

/-- The candidates of the passes before tables and line marks, given those of the custom
patterns. -/
def inlineCandidates (t : Text) (on : FilterSwitch → Bool) (custom : List Candidate) :
    List Candidate :=
  ifOn (on .codeBlocks) (codeBlockCandidates t) ++
    ifOn (on .inlineCode) (inlineCodeCandidates t) ++
    ifOn (on .urls) (urlCandidates t) ++
    ifOn (on .configKeys) (configKeyCandidates t) ++ custom

def runWith (t : Text) (on : FilterSwitch → Bool) (custom : List Candidate) : Detection :=
  let d := offerAll t (inlineCandidates t on custom) {}
  let d := d.tablePass t (ifOn (on .tables) (tableCandidates t))
  let d := d.markPass t (ifOn (on .headings) (headingCandidates t))
  d.markPass t (ifOn (on .listMarkers) (listMarkCandidates t))

def run? (t : Text) (cfg : FilterConfig) : Option Detection :=
  (cfg.custom.mapM (customCandidates? cfg.characters t)).map fun custom =>
    runWith t cfg.switches custom.flatten

def startsBefore (a b : ExcludedRange) : Bool :=
  a.start < b.start || (a.start = b.start && a.stop ≤ b.stop)

def ranges (d : Detection) : List ExcludedRange := d.accepted.mergeSort startsBefore

end Detection

/-- The excluded ranges of a text from left to right, unless a custom pattern fails. -/
def detect? (t : Text) (cfg : FilterConfig) : Option (List ExcludedRange) :=
  (Detection.run? t cfg).map (·.ranges)

end Kouetsu
