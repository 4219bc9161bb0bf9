import NandLang.Number.Numeral

/-! Numbers of the 64-bit binary format, exactly: a decimal numeral is rounded to the nearest one,
a half to the even neighbour, and a number is written with the fewest digits that read back. -/
namespace NandLang.Number

/-- A finite number is `significand * 2 ^ exponent`; zero keeps its sign. -/
inductive Binary64
  | nan
  | infinite (negative : Bool)
  | finite (negative : Bool) (significand : Nat) (exponent : Int)
  deriving DecidableEq, Repr

def roundDiv (num den : Nat) : Nat :=
  let quotient := num / den
  let twice := 2 * (num % den)
  if twice < den || (twice = den && quotient % 2 = 0) then quotient else quotient + 1

def leastExponent : Int := -1074

def greatestExponent : Int := 971

def scale (num den : Nat) (power : Int) : Nat × Nat :=
  if 0 ≤ power then (num * Nat.pow 2 power.toNat, den) else (num, den * Nat.pow 2 (-power).toNat)

/-- Rounds a positive quotient to 53 significant bits, fewer among the smallest numbers. -/
def Binary64.ofQuotient (negative : Bool) (num den : Nat) : Binary64 :=
  let guess : Int := (num.log2 : Int) - den.log2
  let (n, d) := scale num den (-guess)
  let lead := if d ≤ n then guess else guess - 1
  let exponent := max (lead - 52) leastExponent
  let (n, d) := scale num den (-exponent)
  let significand := roundDiv n d
  let (significand, exponent) :=
    if significand = Nat.pow 2 53 then (Nat.pow 2 52, exponent + 1) else (significand, exponent)
  if greatestExponent < exponent then .infinite negative
  else .finite negative significand exponent

def digitCount (n : Nat) : Nat := (Nat.toDigits 10 n).length

/-- The number nearest to `n * 10 ^ power`. Powers that leave no doubt are not raised. -/
def Binary64.ofDecimal (negative : Bool) (n : Nat) (power : Int) : Binary64 :=
  let size := power + digitCount n
  if n = 0 || size < -330 then .finite negative 0 leastExponent
  else if 310 < size then .infinite negative
  else if 0 ≤ power then .ofQuotient negative (n * Nat.pow 10 power.toNat) 1
  else .ofQuotient negative n (Nat.pow 10 (-power).toNat)

/-- A positive number and the ends of the interval that rounds to it, over one denominator. The
gap below a power of two is half the gap above it. -/
structure Interval where
  low : Nat
  value : Nat
  high : Nat
  den : Nat
  closed : Bool

def Interval.of (significand : Nat) (exponent : Int) : Interval :=
  let below := if significand = Nat.pow 2 52 && leastExponent < exponent then 1 else 2
  let (unit, den) := scale 1 1 (exponent - 2)
  { low := (4 * significand - below) * unit
    value := 4 * significand * unit
    high := (4 * significand + 2) * unit
    den := den
    closed := significand % 2 = 0 }

def Interval.holds (i : Interval) (n : Nat) (power : Int) : Bool :=
  let (n, den) :=
    if 0 ≤ power then (n * Nat.pow 10 power.toNat * i.den, 1)
    else (n * i.den, Nat.pow 10 (-power).toNat)
  if i.closed then i.low * den ≤ n && n ≤ i.high * den
  else i.low * den < n && n < i.high * den

def leadingPower (num den : Nat) : Int :=
  let guess : Int := (digitCount num : Int) - digitCount den
  let reached :=
    if 0 ≤ guess then den * Nat.pow 10 guess.toNat ≤ num else den ≤ num * Nat.pow 10 (-guess).toNat
  if reached then guess else guess - 1

def Interval.digits? (i : Interval) (count : Nat) : Option (Nat × Int) :=
  let power := leadingPower i.value i.den - count + 1
  let (num, den) :=
    if 0 ≤ power then (i.value, i.den * Nat.pow 10 power.toNat)
    else (i.value * Nat.pow 10 (-power).toNat, i.den)
  let below := num / den
  let nearest := roundDiv num den
  let other := if nearest = below then below + 1 else below
  if i.holds nearest power then some (nearest, power)
  else if i.holds other power then some (other, power)
  else none

/-- Seventeen digits always read back. -/
def Interval.shortest (i : Interval) : Nat × Int :=
  ((List.range 17).findSome? fun count => i.digits? (count + 1)).getD (0, 0)

def leadingForm (n : Nat) (power : Int) : List Char × Int :=
  let digits := Nat.toDigits 10 n
  let trimmed := (digits.reverse.dropWhile (· = '0')).reverse
  (trimmed, power + digits.length - 1)

def positional (lead : Int) : Bool := -4 ≤ lead && lead < 16

def exponentText (lead : Int) : List Char :=
  let digits := Nat.toDigits 10 lead.natAbs
  'e' :: (if lead < 0 then '-' else '+') :: List.replicate (2 - digits.length) '0' ++ digits

def decimalText (digits : List Char) (lead : Int) : List Char :=
  if !positional lead then
    match digits with
    | [] => exponentText lead
    | [d] => d :: exponentText lead
    | d :: rest => d :: '.' :: rest ++ exponentText lead
  else if lead < 0 then
    '0' :: '.' :: List.replicate ((-lead).toNat - 1) '0' ++ digits
  else
    let whole := lead.toNat + 1
    let padded := digits ++ List.replicate (whole - digits.length) '0'
    let fraction := padded.drop whole
    padded.take whole ++ '.' :: if fraction.isEmpty then ['0'] else fraction

def signText (negative : Bool) (body : List Char) : List Char :=
  if negative then '-' :: body else body

def Binary64.text : Binary64 → List Char
  | .nan => ['n', 'a', 'n']
  | .infinite negative => signText negative ['i', 'n', 'f']
  | .finite negative significand exponent =>
    signText negative <|
      if significand = 0 then ['0', '.', '0']
      else
        let (n, power) := (Interval.of significand exponent).shortest
        let (digits, lead) := leadingForm n power
        decimalText digits lead

def spanDigits (cs : List Char) : List Char × List Char :=
  (cs.takeWhile Char.isDigit, cs.dropWhile Char.isDigit)

def exponent? : List Char → Option Int
  | [] => some 0
  | mark :: rest =>
    let (negative, digits) := splitSign rest
    if mark.toLower = 'e' && digits ≠ [] && digits.all Char.isDigit then
      some (if negative then -(ofDigits digits : Int) else ofDigits digits)
    else none

/-- An unsigned numeral with a fraction or an exponent: its digits as a whole number, and the
power of ten that they count. -/
def decimal? (cs : List Char) : Option (Nat × Int) :=
  let (whole, rest) := spanDigits cs
  let (fraction, rest) :=
    match rest with
    | '.' :: rest => spanDigits rest
    | rest => ([], rest)
  if whole ++ fraction = [] then none
  else (exponent? rest).map fun power =>
    (ofDigits (whole ++ fraction), power - fraction.length)

def Binary64.ofWord? (negative : Bool) (cs : List Char) : Option Binary64 :=
  match String.ofList (cs.map Char.toLower) with
  | "inf" => some (.infinite negative)
  | "infinity" => some (.infinite negative)
  | "nan" => some .nan
  | _ => none

def Binary64.ofNumeral? (cs : List Char) : Option Binary64 :=
  (plain? cs).bind fun body =>
    let (negative, rest) := splitSign body
    match ofWord? negative rest with
    | some number => some number
    | none => (decimal? rest).map fun (n, power) => ofDecimal negative n power

end NandLang.Number
