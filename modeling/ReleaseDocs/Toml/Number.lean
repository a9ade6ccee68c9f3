import ReleaseDocs.Text.Digits
import ReleaseDocs.Toml.Reader

namespace ReleaseDocs.Toml

open Reader

/-- A number with a fraction or an exponent, kept as it is written. -/
inductive Fraction where
  /-- The number `coefficient * 10 ^ exponent`, or its negation. -/
  | finite (negative : Bool) (coefficient : Nat) (exponent : Int)
  | infinite (negative : Bool)
  | undefined
deriving DecidableEq, Repr

/-- The least number that a double rounds to infinity. -/
def doubleBound : Nat :=
  Nat.pow 2 1024 - Nat.pow 2 970

/-- Whether the number is positive and a double rounds it to infinity. The count of its digits
decides unless it is that of the bound. -/
def Fraction.overflows : Fraction → Bool
  | finite false coefficient exponent =>
      let digits : Int := (Nat.toDigits 10 coefficient).length + exponent
      if coefficient = 0 ∨ digits < 309 then false
      else if digits > 309 then true
      else if exponent < 0 then decide (doubleBound * Nat.pow 10 (-exponent).toNat ≤ coefficient)
      else decide (doubleBound ≤ coefficient * Nat.pow 10 exponent.toNat)
  | _ => false

/-- Digits of a base, with single underscores between them, which are dropped. -/
def digitsOf (base : Nat) : Reader (List Char) := do
  let first ← charOf (isDigitOf base)
  let others ← repeated (do let _ ← maybe (literal "_"); charOf (isDigitOf base))
  return first :: others

/-- Decimal digits; a zero stands alone. -/
def wholeDigits : Reader (List Char) := do
  if (← peek?) == some '0' then return [← charOf (· == '0')] else digitsOf 10

def sign : Reader Bool :=
  (do literal "-"; return true) <|> (do literal "+"; return false) <|> pure false

def number (base : Nat) (digits : List Char) : Reader Nat :=
  StateT.lift (numberOf? base digits)

/-- The least number that is too large for a signed word of 64 bits. -/
def integerBound : Nat :=
  Nat.pow 2 63

def markedInteger (mark : String) (base : Nat) : Reader Int := do
  literal mark
  let value ← number base (← digitsOf base)
  if value < integerBound then return value else failure

def integer : Reader Int :=
  markedInteger "0x" 16 <|> markedInteger "0o" 8 <|> markedInteger "0b" 2 <|> do
    let negative ← sign
    let value ← number 10 (← wholeDigits)
    if negative then
      if value ≤ integerBound then return -value else failure
    else if value < integerBound then return value
    else failure

def exponent : Reader Int := do
  literal "e" <|> literal "E"
  let negative ← sign
  let value ← number 10 (← digitsOf 10)
  return if negative then -value else value

def finiteFraction : Reader Fraction := do
  let negative ← sign
  let whole ← wholeDigits
  let places ← maybe (do literal "."; digitsOf 10)
  let power ← maybe exponent
  if places.isNone && power.isNone then failure
  let coefficient ← number 10 (whole ++ places.getD [])
  return .finite negative coefficient (power.getD 0 - (places.getD []).length)

def fraction : Reader Fraction :=
  (do
    let value ← finiteFraction
    if value.overflows then failure else return value) <|>
  (do
    let negative ← sign
    (do literal "inf"; return .infinite negative) <|> (do literal "nan"; return .undefined))

end ReleaseDocs.Toml
