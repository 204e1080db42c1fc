import Kouetsu.Text.Digit
import Kouetsu.Value.Moment
/-!
# Scalars of TOML

Numbers, dates and texts of a TOML document.  Each reader takes the text from its first
character on and gives the value with the rest.
-/

namespace Kouetsu

namespace Toml

/-- Control characters, none of which but the tab may stand in a document. -/
def isControl (c : Char) : Bool := (c.toNat < 32 && c ≠ '\t') || c.toNat = 127

def expect? (word t : Text) : Option Text :=
  if Text.startsWith t word then some (t.drop word.length) else none

def digitRun (p : Char → Bool) : Text → Text × Text
  | c :: '_' :: d :: rest =>
      if p c then
        if p d then
          let (ds, rest) := digitRun p (d :: rest)
          (c :: ds, rest)
        else ([c], '_' :: d :: rest)
      else ([], c :: '_' :: d :: rest)
  | c :: rest =>
      if p c then
        let (ds, rest) := digitRun p rest
        (c :: ds, rest)
      else ([], c :: rest)
  | [] => ([], [])

private def valueIn (base : Nat) (ds : Text) : Nat :=
  ds.foldl (fun n c => base * n + (hexValue? c).getD 0) 0

private def isHexDigit (c : Char) : Bool := (hexValue? c).isSome

private def basedInteger? (mark : Char) (base : Nat) (p : Char → Bool) (t : Text) :
    Option (Value × Text) := do
  let rest ← expect? ['0', mark] t
  let (ds, rest) := digitRun p rest
  if ds.isEmpty then none else some (.int (valueIn base ds), rest)

/-- Reads the digits before a point: a zero, or digits that do not start with one. -/
private def wholePart? (t : Text) : Option (Text × Text) :=
  match t with
  | '0' :: rest => some (['0'], rest)
  | t =>
      let (ds, rest) := digitRun isAsciiDigit t
      if ds.isEmpty then none else some (ds, rest)

private def fraction (t : Text) : Text × Text :=
  match t with
  | '.' :: rest =>
      let (ds, more) := digitRun isAsciiDigit rest
      if ds.isEmpty then ([], t) else (ds, more)
  | _ => ([], t)

private def exponent? (t : Text) : Option (Int × Text) :=
  match t with
  | c :: rest =>
      if c = 'e' || c = 'E' then
        let (negative, body) := signOf rest
        let (ds, more) := digitRun isAsciiDigit body
        let n : Int := valueIn 10 ds
        if ds.isEmpty then none else some (if negative then -n else n, more)
      else none
  | [] => none

private def decimal? (t : Text) : Option (Value × Text) := do
  let (negative, body) := signOf t
  let (whole, rest) ← wholePart? body
  let (decimals, rest) := fraction rest
  match exponent? rest with
  | none =>
      if decimals.isEmpty then
        let n : Int := valueIn 10 whole
        some (.int (if negative then -n else n), rest)
      else
        let x := Double.ofDecimal (valueIn 10 (whole ++ decimals)) (-decimals.length)
        some (.float (if negative then x.neg else x), rest)
  | some (e, rest) =>
      let x := Double.ofDecimal (valueIn 10 (whole ++ decimals)) (e - decimals.length)
      some (.float (if negative then x.neg else x), rest)

private def specialFloat? (t : Text) : Option (Value × Text) :=
  let (negative, body) := signOf t
  let signed (x : Double) : Value := .float (if negative then x.neg else x)
  match expect? "inf".toList body with
  | some rest => some (signed .infinity, rest)
  | none => (expect? "nan".toList body).map fun rest => (signed .nan, rest)

def number? (t : Text) : Option (Value × Text) :=
  basedInteger? 'x' 16 isHexDigit t <|>
    basedInteger? 'b' 2 (fun c => c = '0' || c = '1') t <|>
    basedInteger? 'o' 8 (fun c => '0' ≤ c && c ≤ '7') t <|> decimal? t <|> specialFloat? t

private def fixedDigits? : Nat → Nat → Text → Option (Nat × Text)
  | 0, n, t => some (n, t)
  | width + 1, n, c :: rest =>
      if isAsciiDigit c then fixedDigits? width (10 * n + (c.toNat - 48)) rest else none
  | _ + 1, _, [] => none

private def two? (t : Text) : Option (Nat × Text) := fixedDigits? 2 0 t

private def clock? (t : Text) : Option (Clock × Text) := do
  let (hour, rest) ← two? t
  let (minute, rest) ← two? (← expect? [':'] rest)
  let (second, rest) ← two? (← expect? [':'] rest)
  if 23 < hour || 59 < minute || 59 < second then none
  else
    match rest with
    | '.' :: more =>
        let ds := more.takeWhile isAsciiDigit
        if ds.isEmpty then some (⟨hour, minute, second, 0⟩, rest)
        else some (⟨hour, minute, second, microOf ds⟩, more.drop ds.length)
    | rest => some (⟨hour, minute, second, 0⟩, rest)

/-- Reads how many minutes a time is ahead of universal time. -/
private def ahead? (t : Text) : Option (Int × Text) :=
  match t with
  | c :: rest =>
      if c = 'Z' || c = 'z' then some (0, rest)
      else if c = '+' || c = '-' then do
        let (hours, rest) ← two? rest
        let (minutes, rest) ← two? (← expect? [':'] rest)
        let n : Int := 60 * hours + minutes
        if 23 < hours || 59 < minutes then none
        else some (if c = '-' then -n else n, rest)
      else none
  | [] => none

/-- Reads a date whose month and day may occur in some year. -/
private def date? (t : Text) : Option (Date × Text) := do
  let (year, rest) ← fixedDigits? 4 0 t
  let (month, rest) ← two? (← expect? ['-'] rest)
  let (day, rest) ← two? (← expect? ['-'] rest)
  if month = 0 || 12 < month || day = 0 || 31 < day then none else some (⟨year, month, day⟩, rest)

/-- Reads a time after the letter or blank that sets it apart from a date. -/
private def clockAfterDate? (t : Text) : Option (Clock × Text) :=
  match t with
  | c :: rest => if c = 'T' || c = 't' || c = ' ' then clock? rest else none
  | [] => none

/-- Reads a date, perhaps with a time.  A date that no year has is refused, so the answer
is `some none`. -/
def dated? (t : Text) : Option (Option (Value × Text)) := do
  let (d, rest) ← date? t
  let valid := d.check.isOk
  match clockAfterDate? rest with
  | none => some (if valid then some ((Moment.date d).toValue, rest) else none)
  | some (c, rest) =>
      let (offset, rest) :=
        match ahead? rest with
        | some (n, rest) => (some n, rest)
        | none => (none, rest)
      some (if valid then some ((Moment.both d c offset).toValue, rest) else none)

def time? (t : Text) : Option (Value × Text) :=
  (clock? t).map fun (c, rest) => ((Moment.clock c).toValue, rest)

end Toml

end Kouetsu
