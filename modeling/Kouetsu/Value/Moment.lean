import Kouetsu.Text.Digit
import Kouetsu.Value.Basic
/-!
# Dates and times

Dates of the calendar and times of the day, as settings files write them, with the two texts
under which messages show them.
-/

namespace Kouetsu

structure Date where
  year : Nat
  month : Nat
  day : Nat
deriving DecidableEq, Repr

structure Clock where
  hour : Nat
  minute : Nat
  second : Nat
  micro : Nat := 0
deriving DecidableEq, Repr

/-- A date, a time, or both; with both there may be minutes ahead of universal time. -/
inductive Moment where
  | date (d : Date)
  | clock (c : Clock)
  | both (d : Date) (c : Clock) (ahead : Option Int)
deriving DecidableEq, Repr

inductive MomentError where
  | year (n : Nat)
  | month
  | day
  | hour
  | minute
  | second
  | offset (minutes : Int)
deriving DecidableEq, Repr

/-- A span of time in minutes as whole days and the seconds of one day more. -/
def durationText (minutes : Int) : String :=
  let days := minutes.fdiv 1440
  let seconds := minutes.fmod 1440 * 60
  let part (name : String) (n : Int) : List String := if n = 0 then [] else [name ++ toString n]
  "datetime.timedelta(" ++
    String.intercalate ", " (part "days=" days ++ part "seconds=" seconds) ++ ")"

def MomentError.message : MomentError → String
  | .year n => "year " ++ toString n ++ " is out of range"
  | .month => "month must be in 1..12"
  | .day => "day is out of range for month"
  | .hour => "hour must be in 0..23"
  | .minute => "minute must be in 0..59"
  | .second => "second must be in 0..59"
  | .offset minutes =>
      "offset must be a timedelta strictly between -timedelta(hours=24) and " ++
        "timedelta(hours=24), not " ++ durationText minutes ++ "."

def isLeapYear (year : Nat) : Bool := year % 4 = 0 && (year % 100 ≠ 0 || year % 400 = 0)

def daysInMonth (year month : Nat) : Nat :=
  if month = 2 then (if isLeapYear year then 29 else 28)
  else if month = 4 || month = 6 || month = 9 || month = 11 then 30
  else 31

def Date.check (d : Date) : Except MomentError Date :=
  if d.year = 0 then .error (.year d.year)
  else if d.month = 0 || 12 < d.month then .error .month
  else if d.day = 0 || daysInMonth d.year d.month < d.day then .error .day
  else .ok d

def Clock.check (c : Clock) : Except MomentError Clock :=
  if 23 < c.hour then .error .hour
  else if 59 < c.minute then .error .minute
  else if 59 < c.second then .error .second
  else .ok c

def checkAhead (minutes : Int) : Except MomentError Int :=
  if minutes.natAbs < 1440 then .ok minutes else .error (.offset minutes)

/-- The millionths that digits after a point stand for; more than six do not count. -/
def microOf (ds : Text) : Nat :=
  ofDigits (((ds ++ List.replicate 6 '0').take 6).map fun c => c.toNat - 48)

def paddedNat (width n : Nat) : String :=
  let ds := (toString n).toList
  String.ofList (List.replicate (width - ds.length) '0' ++ ds)

namespace Date

def text (d : Date) : String :=
  paddedNat 4 d.year ++ "-" ++ paddedNat 2 d.month ++ "-" ++ paddedNat 2 d.day

def fields (d : Date) : List Nat := [d.year, d.month, d.day]

end Date

namespace Clock

def text (c : Clock) : String :=
  paddedNat 2 c.hour ++ ":" ++ paddedNat 2 c.minute ++ ":" ++ paddedNat 2 c.second ++
    (if c.micro = 0 then "" else "." ++ paddedNat 6 c.micro)

/-- The numbers of a time, without the seconds and their parts where they are zero. -/
def fields (c : Clock) : List Nat :=
  [c.hour, c.minute] ++
    (if c.micro ≠ 0 then [c.second, c.micro] else if c.second ≠ 0 then [c.second] else [])

end Clock

private def aheadText (ahead : Int) : String :=
  let n := ahead.natAbs
  (if ahead < 0 then "-" else "+") ++ paddedNat 2 (n / 60) ++ ":" ++ paddedNat 2 (n % 60)

private def listed (ns : List Nat) : String := String.intercalate ", " (ns.map toString)

private def aheadQuoted (ahead : Int) : String :=
  if ahead = 0 then "datetime.timezone.utc"
  else "datetime.timezone(" ++ durationText ahead ++ ")"

namespace Moment

def text : Moment → String
  | .date d => d.text
  | .clock c => c.text
  | .both d c ahead => d.text ++ " " ++ c.text ++ ((ahead.map aheadText).getD "")

def quoted : Moment → String
  | .date d => "datetime.date(" ++ listed d.fields ++ ")"
  | .clock c => "datetime.time(" ++ listed c.fields ++ ")"
  | .both d c ahead =>
      "datetime.datetime(" ++ listed (d.fields ++ c.fields) ++
        ((ahead.map fun a => ", tzinfo=" ++ aheadQuoted a).getD "") ++ ")"

def toValue (m : Moment) : Value := .scalar (.moment m.text m.quoted)

end Moment

end Kouetsu
