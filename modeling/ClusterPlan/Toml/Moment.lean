/-!
# Dates and times

A moment is a date, a time of day or both; both together may have an offset from universal time. `Moment.parse?` reads one,
and `Moment.toText` writes it with seconds and with a `T` between date and time.
-/

namespace ClusterPlan

structure Date where
  year : Nat
  month : Nat
  day : Nat
deriving DecidableEq

structure TimeOfDay where
  hour : Nat
  minute : Nat
  second : Nat := 0
  nanosecond : Nat := 0
deriving DecidableEq

/-- How far a clock is from universal time. -/
inductive ClockOffset where
  | universal
  /-- The minutes that the clock is ahead. -/
  | ahead (minutes : Int)
deriving DecidableEq

structure Moment where
  date : Option Date := none
  time : Option TimeOfDay := none
  offset : Option ClockOffset := none
deriving DecidableEq

namespace Moment

/-! ## Reading -/

/-- The value of a digit. -/
def digit? (c : Char) : Option Nat := if c.isDigit then some (c.toNat - '0'.toNat) else none

/-- Reads a number of two digits. -/
def pair? : List Char → Option (Nat × List Char)
  | a :: b :: rest => do return (10 * (← digit? a) + (← digit? b), rest)
  | _ => none

/-- Leaves out one character. -/
def skip? (c : Char) : List Char → Option (List Char)
  | d :: rest => if d = c then some rest else none
  | [] => none

/-- The number of days of a month; no month but those from one to twelve has any. -/
def daysOf (year month : Nat) : Nat :=
  let isLeap := year % 4 == 0 && (year % 100 != 0 || year % 400 == 0)
  if month = 2 then if isLeap then 29 else 28
  else if month = 4 ∨ month = 6 ∨ month = 9 ∨ month = 11 then 30
  else if 1 ≤ month ∧ month ≤ 12 then 31
  else 0

/-- Reads a date, its year with four digits. -/
def date? (cs : List Char) : Option (Date × List Char) := do
  let (century, rest) ← pair? cs
  let (year, rest) ← pair? rest
  let year := 100 * century + year
  let (month, rest) ← pair? (← skip? '-' rest)
  let (day, rest) ← pair? (← skip? '-' rest)
  if 1 ≤ day ∧ day ≤ daysOf year month then some (⟨year, month, day⟩, rest) else none

/-- The nanoseconds of the digits behind the point. Digits behind the ninth make no difference. -/
def nanoseconds (digits : List Char) : Nat :=
  (digits ++ List.replicate 9 '0').take 9 |>.foldl (fun n c => 10 * n + (digit? c).getD 0) 0

/-- Reads the seconds of a time, which may be missing, with or without a fraction. -/
def seconds? : List Char → Option ((Nat × Nat) × List Char)
  | ':' :: rest => do
    let (second, rest) ← pair? rest
    match rest with
    | '.' :: rest =>
      let digits := rest.takeWhile Char.isDigit
      if digits = [] then none else some ((second, nanoseconds digits), rest.dropWhile Char.isDigit)
    | rest => some ((second, 0), rest)
  | rest => some ((0, 0), rest)

/-- Reads a time of day. A minute may have a leap second. -/
def time? (cs : List Char) : Option (TimeOfDay × List Char) := do
  let (hour, rest) ← pair? cs
  let (minute, rest) ← pair? (← skip? ':' rest)
  let ((second, nanosecond), rest) ← seconds? rest
  if hour ≤ 23 ∧ minute ≤ 59 ∧ second ≤ 60 then some (⟨hour, minute, second, nanosecond⟩, rest) else none

/-- Reads what stands behind the time of a date: nothing or an offset. -/
def offset? : List Char → Option (Option ClockOffset)
  | [] => some none
  | ['Z'] | ['z'] => some (some .universal)
  | sign :: rest => do
    let (hours, rest) ← pair? rest
    let (minutes, rest) ← pair? (← skip? ':' rest)
    let total : Int := 60 * hours + minutes
    if rest = [] ∧ hours ≤ 23 ∧ minutes ≤ 59 then
      if sign = '+' then some (some (.ahead total))
      else if sign = '-' then some (some (.ahead (-total)))
      else none
    else none

/-- Reads a whole text as a moment. -/
def parse? (cs : List Char) : Option Moment :=
  match date? cs with
  | some (date, []) => some { date := some date }
  | some (date, separator :: rest) =>
    if separator = 'T' ∨ separator = 't' ∨ separator = ' ' then do
      let (time, rest) ← time? rest
      let offset ← offset? rest
      return { date := some date, time := some time, offset }
    else none
  | none =>
    match time? cs with
    | some (time, []) => some { time := some time }
    | _ => none

/-! ## Writing -/

/-- A number with zeros in front, `width` digits wide. -/
def padded (width n : Nat) : String :=
  let digits := Nat.toDigits 10 n
  String.ofList (List.replicate (width - digits.length) '0' ++ digits)

/-- The fraction of a second behind its point, without zeros at the end. -/
def fractionText (nanosecond : Nat) : String :=
  if nanosecond = 0 then ""
  else "." ++ String.ofList ((padded 9 nanosecond).toList.reverse.dropWhile (· == '0')).reverse

def dateText (d : Date) : String := padded 4 d.year ++ "-" ++ padded 2 d.month ++ "-" ++ padded 2 d.day

def timeText (t : TimeOfDay) : String :=
  padded 2 t.hour ++ ":" ++ padded 2 t.minute ++ ":" ++ padded 2 t.second ++ fractionText t.nanosecond

def offsetText : ClockOffset → String
  | .universal => "Z"
  | .ahead minutes =>
    let size := minutes.natAbs
    (if minutes < 0 then "-" else "+") ++ padded 2 (size / 60) ++ ":" ++ padded 2 (size % 60)

def toText (m : Moment) : String :=
  let separator := if m.date.isSome && m.time.isSome then "T" else ""
  (m.date.map dateText).getD "" ++ separator ++ (m.time.map timeText).getD "" ++ (m.offset.map offsetText).getD ""

end Moment

end ClusterPlan
