import Kouetsu.Yaml.Cursor
/-!
# Dates and times of YAML

A date, or a date with a time: the day and the month have one or two digits, and the time
may tell its distance from universal time.
-/

namespace Kouetsu

namespace Yaml

/-- A date as written, with whether month and day have two digits each, and the time. -/
structure DateText where
  date : Date
  isPadded : Bool
  time : Option (Clock × Option Int)

private def boundedDigits? (least most : Nat) (t : Text) : Option (Text × Text) :=
  let ds := t.takeWhile isAsciiDigit
  if least ≤ ds.length && ds.length ≤ most then some (ds, t.drop ds.length) else none

private def mark? (c : Char) : Text → Option Text
  | d :: rest => if c = d then some rest else none
  | [] => none

private def decimal (ds : Text) : Nat := (numberIn? 10 ds).getD 0

private def isBlankOrTab (c : Char) : Bool := c = ' ' || c = '\t'

/-- Reads the minutes ahead of universal time up to the end. -/
private def ahead? (t : Text) : Option (Option Int) :=
  match t.dropWhile isBlankOrTab with
  | [] => if t.isEmpty then some none else none
  | ['Z'] => some (some 0)
  | sign :: rest =>
      if sign = '+' || sign = '-' then do
        let (hours, rest) ← boundedDigits? 1 2 rest
        let (minutes, rest) ←
          match rest with
          | ':' :: more => boundedDigits? 2 2 more
          | rest => some ([], rest)
        let n : Int := 60 * decimal hours + decimal minutes
        if rest.isEmpty then some (some (if sign = '-' then -n else n)) else none
      else none

private def time? (t : Text) : Option (Clock × Option Int) := do
  let (hour, rest) ← boundedDigits? 1 2 t
  let (minute, rest) ← boundedDigits? 2 2 (← mark? ':' rest)
  let (second, rest) ← boundedDigits? 2 2 (← mark? ':' rest)
  let (decimals, rest) :=
    match rest with
    | '.' :: more => (more.takeWhile isAsciiDigit, more.dropWhile isAsciiDigit)
    | rest => ([], rest)
  let ahead ← ahead? rest
  some (⟨decimal hour, decimal minute, decimal second, microOf decimals⟩, ahead)

/-- Reads the letter or the blanks between a date and its time. -/
private def timeAfterDate? : Text → Option (Clock × Option Int)
  | c :: rest =>
      if c = 'T' || c = 't' then time? rest
      else if isBlankOrTab c then time? (rest.dropWhile isBlankOrTab)
      else none
  | [] => none

/-- Reads a text that is written as a date, perhaps with a time. -/
def DateText.read? (t : Text) : Option DateText := do
  let (year, rest) ← boundedDigits? 4 4 t
  let (month, rest) ← boundedDigits? 1 2 (← mark? '-' rest)
  let (day, rest) ← boundedDigits? 1 2 (← mark? '-' rest)
  let date : Date := ⟨decimal year, decimal month, decimal day⟩
  let isPadded := month.length = 2 && day.length = 2
  if rest.isEmpty then some ⟨date, isPadded, none⟩
  else (timeAfterDate? rest).map fun time => ⟨date, isPadded, some time⟩

def isMoment (t : Text) : Bool :=
  (DateText.read? t).any fun d => d.isPadded || d.time.isSome

def momentOf (t : Text) : Except Fault Moment :=
  match DateText.read? t with
  | none => .error .noMoment
  | some d =>
      let found : Except MomentError Moment := do
        match d.time with
        | none => pure (.date (← d.date.check))
        | some (c, ahead) => do
            let ahead ← ahead.mapM checkAhead
            pure (.both (← d.date.check) (← c.check) ahead)
      found.mapError .moment

end Yaml

end Kouetsu
