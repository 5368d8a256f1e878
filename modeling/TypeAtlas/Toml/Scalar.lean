/-
Numbers, truth values, dates and times.

Such a value is one run of letters, digits, signs, points and colons, so the run
is taken first and then has to be one of them as a whole.  A date may be joined
to a time by a blank.
-/
import TypeAtlas.Toml.Value

namespace TypeAtlas
namespace Toml

/-- Digits of a class, single underscores between them allowed. -/
def isDigits (digit : Char → Bool) : List Char → Bool
  | [] => false
  | [c] => digit c
  | c :: '_' :: rest => digit c && isDigits digit rest
  | c :: rest => digit c && isDigits digit rest

def isHexDigit (c : Char) : Bool :=
  c.isDigit || ('a' ≤ c && c ≤ 'f') || ('A' ≤ c && c ≤ 'F')

/-- The value of a digit up to base 16. -/
def digitValue (c : Char) : Nat :=
  if c.isDigit then c.toNat - '0'.toNat
  else if 'a' ≤ c then c.toNat - 'a'.toNat + 10
  else c.toNat - 'A'.toNat + 10

/-- The number that digits stand for, underscores left out. -/
def numberOf (base : Nat) (cs : List Char) : Nat :=
  (cs.filter (· != '_')).foldl (fun n c => n * base + digitValue c) 0

def splitSign : List Char → Bool × List Char
  | '-' :: rest => (true, rest)
  | '+' :: rest => (false, rest)
  | s => (false, s)

/-- A decimal number without sign starts with zero only if it is zero. -/
def isDecimal : List Char → Bool
  | ['0'] => true
  | '0' :: _ => false
  | s => isDigits Char.isDigit s

/-- Integers have to fit in 64 bits with sign. -/
def inRange (n : Int) : Option Value :=
  if Int64.minValue.toInt ≤ n && n ≤ Int64.maxValue.toInt then some (.integer n) else none

def integer? (s : List Char) : Option Value :=
  match s with
  | '0' :: 'x' :: ds => if isDigits isHexDigit ds then inRange (numberOf 16 ds) else none
  | '0' :: 'o' :: ds =>
    if isDigits (fun c => '0' ≤ c && c ≤ '7') ds then inRange (numberOf 8 ds) else none
  | '0' :: 'b' :: ds =>
    if isDigits (fun c => c == '0' || c == '1') ds then inRange (numberOf 2 ds) else none
  | s =>
    let (negative, ds) := splitSign s
    if isDecimal ds then
      inRange (if negative then -(numberOf 10 ds : Int) else numberOf 10 ds)
    else none

/-- Whether a decimal number is too large for a 64-bit float: at least the
midpoint between the largest one and the next power of two. -/
def overflowsFloat (digits : Nat) (exponent : Int) : Bool :=
  let bound := Nat.pow 2 1024 - Nat.pow 2 970
  let places := (Nat.toDigits 10 digits).length
  if digits == 0 || places + exponent < 300 then false
  else if 400 < places + exponent then true
  else if 0 ≤ exponent then bound ≤ digits * Nat.pow 10 exponent.toNat
  else bound * Nat.pow 10 (-exponent).toNat ≤ digits

/-- A float has a fraction, an exponent or both.  One that is too large is
refused, unless it is negative. -/
def float? (s : List Char) : Option Value :=
  let (negative, unsigned) := splitSign s
  if unsigned == "inf".toList || unsigned == "nan".toList then some .float
  else
    let isExponent (c : Char) : Bool := c == 'e' || c == 'E'
    let mantissa := unsigned.takeWhile fun c => !isExponent c
    let exponent := unsigned.drop mantissa.length
    let whole := mantissa.takeWhile (· != '.')
    let fraction := mantissa.drop whole.length
    let (downward, exponentDigits) := splitSign (exponent.drop 1)
    let ok := isDecimal whole
      && (fraction.isEmpty || isDigits Char.isDigit (fraction.drop 1))
      && (exponent.isEmpty || isDigits Char.isDigit exponentDigits)
      && !(fraction.isEmpty && exponent.isEmpty)
    let scale : Int := (fraction.drop 1).countP (· != '_')
    let power : Int := if downward then -numberOf 10 exponentDigits else numberOf 10 exponentDigits
    let digits := numberOf 10 (whole ++ fraction.drop 1)
    if ok && (negative || !overflowsFloat digits (power - scale)) then some .float else none

/-! ## Dates and times -/

/-- A number of exactly `n` digits within bounds, off the front. -/
def field (n low high : Nat) (s : List Char) : Option (Nat × List Char) :=
  let ds := s.take n
  if ds.length == n && ds.all Char.isDigit && low ≤ numberOf 10 ds && numberOf 10 ds ≤ high then
    some (numberOf 10 ds, s.drop n)
  else none

def daysIn (year month : Nat) : Nat :=
  if month == 2 then
    if year % 4 == 0 && (year % 100 != 0 || year % 400 == 0) then 29 else 28
  else if [4, 6, 9, 11].contains month then 30
  else 31

def date : Parser Unit := fun s => do
  let (year, s) ← field 4 0 9999 s
  let ((), s) ← char '-' s
  let (month, s) ← field 2 1 12 s
  let ((), s) ← char '-' s
  let (day, s) ← field 2 1 31 s
  if day ≤ daysIn year month then some ((), s) else none

def time : Parser Unit := fun s => do
  let (_, s) ← field 2 0 23 s
  let ((), s) ← char ':' s
  let (_, s) ← field 2 0 59 s
  let ((), s) ← char ':' s
  let (_, s) ← field 2 0 60 s
  match s with
  | '.' :: rest =>
    let digits := rest.takeWhile Char.isDigit
    if digits.isEmpty then none else some ((), rest.drop digits.length)
  | s => some ((), s)

/-- The distance of a time from universal time. -/
def offset : Parser Unit := fun s =>
  match s with
  | 'Z' :: rest | 'z' :: rest => some ((), rest)
  | '+' :: rest | '-' :: rest => do
    let (_, s) ← field 2 0 23 rest
    let ((), s) ← char ':' s
    let (_, s) ← field 2 0 59 s
    some ((), s)
  | _ => none

/-- A date, a time, or a date with a time and maybe an offset. -/
def isDatetime (s : List Char) : Bool :=
  match date s with
  | none => time s == some ((), [])
  | some ((), []) => true
  | some ((), separator :: rest) =>
    ['T', 't', ' '].contains separator
      && match time rest with
        | none => false
        | some ((), []) => true
        | some ((), rest) => offset rest == some ((), [])

def isScalarChar (c : Char) : Bool := c.isAlphanum || ['_', '+', '-', '.', ':'].contains c

def scalar? (s : List Char) : Option Value :=
  if s == "true".toList then some (.boolean true)
  else if s == "false".toList then some (.boolean false)
  else
    match integer? s with
    | some v => some v
    | none =>
      match float? s with
      | some v => some v
      | none => if isDatetime s then some .datetime else none

def scalar : Parser Value := fun s =>
  let run := s.takeWhile isScalarChar
  let rest := s.drop run.length
  match date run, rest with
  | some ((), []), ' ' :: after =>
    let second := after.takeWhile isScalarChar
    if (second.headD ' ').isDigit then do
      let v ← scalar? (run ++ ' ' :: second)
      some (v, after.drop second.length)
    else some (.datetime, rest)
  | _, _ => do
    let v ← scalar? run
    some (v, rest)

end Toml
end TypeAtlas
