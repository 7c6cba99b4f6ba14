import Chronos.Decimal

/-!
# Decimal numerals

`parseDecimal` reads blanks, a sign, an integer part and up to ten fraction
digits, and ignores what follows. It never fails: a text without digits is
zero. The integer part is gathered in 64 bits.
-/

set_option autoImplicit false

namespace Chronos.ParseDecimal

def isBlank (c : Char) : Bool := c = ' ' || c = '\t'

def isDigit (c : Char) : Bool := '0' ≤ c && c ≤ '9'

def digit (c : Char) : ℕ := c.toNat - '0'.toNat

def integerPart : List Char → ℤ → ℤ × List Char
  | [], mantissa => (mantissa,[])
  | c::cs, mantissa =>
    if isDigit c then integerPart cs ((mantissa*10+digit c).bmod (2^64)) else (mantissa,c::cs)

def fractionDigits : List Char → ℕ → ℕ → ℕ × ℕ
  | [], part, digits => (part,digits)
  | c::cs, part, digits =>
    if isDigit c && digits < 10 then fractionDigits cs (part*10+digit c) (digits+1) else (part,digits)

def fractionPart : List Char → ℕ × ℕ
  | '.'::cs => fractionDigits cs 0 0
  | _ => (0,0)

def magnitudeOf (cs : List Char) : ℤ :=
  let (mantissa,rest) := integerPart cs 0
  let (part,digits) := fractionPart rest
  mantissa*2^32+(part*2^32/10^digits : ℕ)

def parseDecimal (text : String) : Decimal :=
  match text.toList.dropWhile isBlank with
  | [] => 0
  | '-'::cs => Decimal.wrap (-magnitudeOf cs)
  | '+'::cs => Decimal.wrap (magnitudeOf cs)
  | cs => Decimal.wrap (magnitudeOf cs)

example : parseDecimal " -12.5x" = Decimal.wrap (-25*2^31) := by decide +kernel

end Chronos.ParseDecimal
