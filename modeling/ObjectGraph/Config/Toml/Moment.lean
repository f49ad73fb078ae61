/-!
# Dates and times in TOML

A moment is a date, a time of day, or both with a `T` or a blank between them and
perhaps an offset behind them. A date has to be in the calendar, and a time has
seconds, perhaps with a fraction. No field holds a moment, so only the form is read.
-/

namespace ObjectGraph.Toml

/-- The number of two digits. -/
def pair? (a b : Char) : Option Nat :=
  if a.isDigit && b.isDigit then
    some ((a.toNat - '0'.toNat) * 10 + (b.toNat - '0'.toNat))
  else none

def isLeapYear (year : Nat) : Bool :=
  year % 4 == 0 && (year % 100 != 0 || year % 400 == 0)

/-- The number of days of a month. -/
def daysOf (year month : Nat) : Nat :=
  if month = 2 then if isLeapYear year then 29 else 28
  else if month = 4 ∨ month = 6 ∨ month = 9 ∨ month = 11 then 30
  else 31

/-- Whether there is such a day. -/
def isDay (year month day : Nat) : Bool :=
  1 ≤ month && month ≤ 12 && 1 ≤ day && day ≤ daysOf year month

/-- What follows a date. -/
def afterDate? : List Char → Option (List Char)
  | a :: b :: c :: d :: '-' :: e :: f :: '-' :: g :: h :: rest => do
    let year := (← pair? a b) * 100 + (← pair? c d)
    if isDay year (← pair? e f) (← pair? g h) then some rest else none
  | _ => none

/-- What follows an hour and a minute. -/
def afterMinute? : List Char → Option (List Char)
  | a :: b :: ':' :: c :: d :: rest => do
    if (← pair? a b) ≤ 23 ∧ (← pair? c d) ≤ 59 then some rest else none
  | _ => none

/-- What follows a fraction of a second, which need not be there. -/
def afterFraction : List Char → List Char
  | '.' :: c :: rest => if c.isDigit then rest.dropWhile Char.isDigit else '.' :: c :: rest
  | rest => rest

/-- What follows a time of day. There may be a leap second. -/
def afterTime? (cs : List Char) : Option (List Char) := do
  match ← afterMinute? cs with
  | ':' :: a :: b :: rest => if (← pair? a b) ≤ 60 then some (afterFraction rest) else none
  | _ => none

/-- Whether the text is an offset, which may be left out. -/
def isOffset : List Char → Bool
  | [] => true
  | ['Z'] | ['z'] => true
  | '+' :: rest | '-' :: rest => afterMinute? rest == some []
  | _ => false

/-- Whether the text is a time of day that may have an offset. -/
def isTimeWithOffset (cs : List Char) : Bool :=
  (afterTime? cs).any isOffset

def isDate (cs : List Char) : Bool :=
  afterDate? cs == some []

/-- Whether the text is a moment. -/
def isMoment (cs : List Char) : Bool :=
  match afterDate? cs with
  | some [] => true
  | some (c :: rest) => (c == 'T' || c == 't') && isTimeWithOffset rest
  | none => afterTime? cs == some []

end ObjectGraph.Toml
