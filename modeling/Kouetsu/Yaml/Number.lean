import Kouetsu.Yaml.Cursor
/-!
# Numbers of YAML

Which plain texts are numbers, and which number a text is.  Underscores between digits do not
count; a zero in front means base eight, and parts between colons are digits of base sixty.
-/

namespace Kouetsu

namespace Yaml

private def isDigitOrBar (c : Char) : Bool := isAsciiDigit c || c = '_'

private def startsWithDigit (t : Text) : Bool := t.head?.any isAsciiDigit

private def isSixtieth : Text → Bool
  | [d] => isAsciiDigit d
  | [a, b] => isAsciiDigit a && a ≤ '5' && isAsciiDigit b
  | _ => false

private def isPlainInteger (t : Text) : Bool :=
  match Text.splitOn ':' t with
  | [] => false
  | first :: more =>
      first.all isDigitOrBar && startsWithDigit first && first.head? ≠ some '0' &&
        more.all isSixtieth

def isInteger (t : Text) : Bool :=
  let body := (signOf t).2
  match body with
  | ['0'] => true
  | '0' :: 'b' :: ds => !ds.isEmpty && ds.all fun c => c = '0' || c = '1' || c = '_'
  | '0' :: 'x' :: ds => !ds.isEmpty && ds.all fun c => (hexValue? c).isSome || c = '_'
  | '0' :: ds => ds.all fun c => ('0' ≤ c && c ≤ '7') || c = '_'
  | body => isPlainInteger body

private def isExponent : Text → Bool
  | [] => true
  | e :: sign :: ds =>
      (e = 'e' || e = 'E') && (sign = '+' || sign = '-') && !ds.isEmpty && ds.all isAsciiDigit
  | _ => false

private def isPointed : Text → Bool
  | '.' :: rest => isExponent (rest.dropWhile isDigitOrBar)
  | _ => false

private def isPointedSixtieths (t : Text) : Bool :=
  match (Text.splitOn ':' t).reverse with
  | last :: before =>
      let (whole, decimals) := Text.cut '.' last
      !before.isEmpty && last.any (· = '.') && isSixtieth whole && decimals.all isDigitOrBar &&
        before.dropLast.all isSixtieth &&
        (before.getLast?.any fun first => startsWithDigit first && first.all isDigitOrBar)
  | [] => false

private def isInfinityWord (t : Text) : Bool :=
  t = ".inf".toList || t = ".Inf".toList || t = ".INF".toList

private def isNanWord (t : Text) : Bool :=
  t = ".nan".toList || t = ".NaN".toList || t = ".NAN".toList

def isFloat (t : Text) : Bool :=
  let body := (signOf t).2
  (startsWithDigit body && (isPointed (body.dropWhile isDigitOrBar) || isPointedSixtieths body)) ||
    (isPointed t && startsWithDigit (t.drop 1)) || isInfinityWord body || isNanWord t

private def withoutBars (t : Text) : Text := t.filter (· ≠ '_')

private def negateIf (negative : Bool) (n : Int) : Int := if negative then -n else n

private def readBased (base : Nat) (t : Text) : Except Fault Int :=
  match if t.isEmpty then none else numberIn? base t with
  | some n => .ok n
  | none => .error (.based base (String.ofList t))

private def readDecimal (t : Text) : Except Fault Int :=
  (readInteger (String.ofList t)).mapError .numeral

def integerOf (t : Text) : Except Fault Int := do
  let (negative, body) := signOf (withoutBars t)
  let n ←
    match body with
    | [] => throw .noDigits
    | ['0'] => pure 0
    | '0' :: 'b' :: ds => readBased 2 ds
    | '0' :: 'x' :: ds => readBased 16 ds
    | '0' :: ds => readBased 8 ('0' :: ds)
    | body =>
        if body.any (· = ':') then do
          let ds ← (Text.splitOn ':' body).mapM readDecimal
          pure (ds.foldl (fun n d => 60 * n + d) 0)
        else readDecimal body
  pure (negateIf negative n)

/-- The number of a text with digits, perhaps a point, and perhaps an exponent. -/
private def decimalFloat? (t : Text) : Option Double := do
  let whole := t.takeWhile isAsciiDigit
  let rest := t.drop whole.length
  let decimals :=
    match rest with
    | '.' :: more => more.takeWhile isAsciiDigit
    | _ => []
  let rest := if rest.head? = some '.' then rest.drop (decimals.length + 1) else rest
  let mantissa ← numberIn? 10 (whole ++ decimals)
  let exponent : Int ←
    match rest with
    | [] => some 0
    | e :: more =>
        let (negative, ds) := signOf more
        if (e = 'e' || e = 'E') && !ds.isEmpty then
          (numberIn? 10 ds).map fun n => negateIf negative n
        else none
  if whole.isEmpty && decimals.isEmpty then none
  else some (Double.ofDecimal mantissa (exponent - decimals.length))

private def readFloat (t : Text) : Except Fault Double :=
  let t' := Text.trim t
  let body := (signOf t').2
  let found :=
    if body = "inf".toList || body = "infinity".toList then some Double.infinity
    else if body = "nan".toList then some Double.nan
    else decimalFloat? body
  match found with
  | some x => .ok (if (signOf t').1 then x.neg else x)
  | none => .error (.noFloat (String.ofList t))

/-- Digits of base sixty as one number, rounded at each step. -/
private def sumSixtieths : Nat → Double → List Double → Double
  | _, sum, [] => sum
  | base, sum, x :: more => sumSixtieths (60 * base) (sum.plus (x.times base)) more

def floatOf (t : Text) : Except Fault Double := do
  let (negative, body) := signOf ((withoutBars t).map Char.toLower)
  let x ←
    if body.isEmpty && (withoutBars t).isEmpty then throw .noDigits
    else if body = ".inf".toList then pure Double.infinity
    else if body = ".nan".toList then return Double.nan
    else if body.any (· = ':') then do
      let ds ← (Text.splitOn ':' body).mapM readFloat
      pure (sumSixtieths 1 (Double.ofRatio 0 1) ds.reverse)
    else readFloat body
  pure (if negative then x.neg else x)

end Yaml

end Kouetsu
