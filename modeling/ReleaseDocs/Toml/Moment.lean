import ReleaseDocs.Toml.Reader

namespace ReleaseDocs.Toml

open Reader

structure Date where
  year : Nat
  month : Nat
  day : Nat
deriving DecidableEq, Repr

namespace Date

def isLeapYear (year : Nat) : Bool :=
  year % 4 == 0 && (year % 100 != 0 || year % 400 == 0)

def monthLength (year month : Nat) : Nat :=
  if month = 2 then if isLeapYear year then 29 else 28
  else if month = 4 ∨ month = 6 ∨ month = 9 ∨ month = 11 then 30
  else 31

end Date

structure Time where
  hour : Nat
  minute : Nat
  second : Nat
  /-- The digits of the fraction of the second. -/
  fraction : List Char
deriving DecidableEq, Repr

/-- A date, a time of day, or both; with both there may be an offset to universal time, in
minutes. -/
inductive Moment where
  | date (date : Date)
  | time (time : Time)
  | dateTime (date : Date) (time : Time) (offset : Option Int)
deriving DecidableEq, Repr

/-- A number of so many digits between two bounds. -/
def numberWithin (count low high : Nat) : Reader Nat := fun cs =>
  let digits := cs.take count
  let value := Nat.ofDigitChars 10 digits 0
  if digits.length = count ∧ digits.all Char.isDigit ∧ low ≤ value ∧ value ≤ high then
    some (value, cs.drop count)
  else none

def date : Reader Date := do
  let year ← numberWithin 4 0 9999
  literal "-"
  let month ← numberWithin 2 1 12
  literal "-"
  let day ← numberWithin 2 1 (Date.monthLength year month)
  return ⟨year, month, day⟩

/-- A time of day; a minute may have a leap second. -/
def time : Reader Time := do
  let hour ← numberWithin 2 0 23
  literal ":"
  let minute ← numberWithin 2 0 59
  literal ":"
  let second ← numberWithin 2 0 60
  let fraction ← maybe (do literal "."; spanNonempty Char.isDigit)
  return ⟨hour, minute, second, fraction.getD []⟩

def offset : Reader Int :=
  (do literal "Z" <|> literal "z"; return 0) <|> do
    let west ← (do literal "-"; return true) <|> (do literal "+"; return false)
    let hours ← numberWithin 2 0 23
    literal ":"
    let minutes ← numberWithin 2 0 59
    let distance : Int := 60 * hours + minutes
    return if west then -distance else distance

def moment : Reader Moment :=
  (do
    let date ← date
    let rest ← maybe (do
      literal "T" <|> literal "t" <|> literal " "
      let time ← time
      return Moment.dateTime date time (← maybe offset))
    return rest.getD (.date date)) <|>
  .time <$> time

end ReleaseDocs.Toml
