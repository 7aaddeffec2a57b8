import Leasehold.Text.Blank
import Leasehold.Text.Numeral
import Leasehold.Time.Duration

/-!
# Durations spelled out

The text of a duration in settings: a series of groups, each a number and a unit, such as
`1h 30m` or `2days 500ms`.

Writing gives each part of the duration its own group, the largest unit first, and leaves out the
parts that are zero.  A year has 31557600 seconds, a month 2630016 and a day 86400.  The empty
duration is `0s`.

Reading takes more.  Groups need no order and may repeat; blanks may stand before and between them,
and among the digits of a number; a number may have a fraction.  The fraction has to come out in
whole nanoseconds, and from an hour up in whole seconds.  The text `0` alone needs no unit.  All
sums and products on the way have to fit 64-bit words.

The reader is a machine with four states that takes one character at a time.
-/

namespace Leasehold.Duration

/-! ## Writing -/

/-- The group of `n` units, with the unit in the plural if it has one. -/
def spelledGroup (n : Nat) (unit plural : String) : List String :=
  if n = 0 then []
  else [String.ofList (Numeral.decimal n) ++ unit ++ if n = 1 then "" else plural]

/-- A duration spelled out. -/
def spelled (d : Duration) : String :=
  if d.nanos = 0 then "0s"
  else
    let day := d.seconds % 31557600 % 2630016
    let clock := day % 86400
    " ".intercalate <|
      spelledGroup (d.seconds / 31557600) "year" "s" ++
      spelledGroup (d.seconds % 31557600 / 2630016) "month" "s" ++
      spelledGroup (day / 86400) "day" "s" ++
      spelledGroup (clock / 3600) "h" "" ++
      spelledGroup (clock % 3600 / 60) "m" "" ++
      spelledGroup (clock % 60) "s" "" ++
      spelledGroup (d.subsecond / 1000000) "ms" "" ++
      spelledGroup (d.subsecond / 1000 % 1000) "us" "" ++
      spelledGroup (d.subsecond % 1000) "ns" ""

/-! ## Units -/

/-- The units of a duration. -/
inductive TimeUnit where
  | nanosecond
  | microsecond
  | millisecond
  | second
  | minute
  | hour
  | day
  | week
  | month
  | year
deriving DecidableEq, Repr

/-- The names of the units. -/
def TimeUnit.ofName? : String → Option TimeUnit
  | "nanos" | "nsec" | "ns" => some .nanosecond
  | "usec" | "us" | "µs" => some .microsecond
  | "millis" | "msec" | "ms" => some .millisecond
  | "seconds" | "second" | "secs" | "sec" | "s" => some .second
  | "minutes" | "minute" | "min" | "mins" | "m" => some .minute
  | "hours" | "hour" | "hr" | "hrs" | "h" => some .hour
  | "days" | "day" | "d" => some .day
  | "weeks" | "week" | "wk" | "wks" | "w" => some .week
  | "months" | "month" | "M" => some .month
  | "years" | "year" | "yr" | "yrs" | "y" => some .year
  | _ => none

/-- The least span a unit is counted in. -/
inductive Grain where
  /-- Seconds. -/
  | seconds
  /-- Nanoseconds. -/
  | nanoseconds
deriving DecidableEq, Repr

/-- What one unit is worth when whole units are counted. -/
def TimeUnit.worth : TimeUnit → Nat × Grain
  | .nanosecond => (1, .nanoseconds)
  | .microsecond => (1000, .nanoseconds)
  | .millisecond => (1000000, .nanoseconds)
  | .second => (1, .seconds)
  | .minute => (60, .seconds)
  | .hour => (3600, .seconds)
  | .day => (86400, .seconds)
  | .week => (604800, .seconds)
  | .month => (2630016, .seconds)
  | .year => (31557600, .seconds)

/-- What one unit is worth when parts of it are counted.  A nanosecond has no parts. -/
def TimeUnit.partWorth? : TimeUnit → Option (Nat × Grain)
  | .nanosecond => none
  | .microsecond => some (1000, .nanoseconds)
  | .millisecond => some (1000000, .nanoseconds)
  | .second => some (1000000000, .nanoseconds)
  | .minute => some (60000000000, .nanoseconds)
  | unit => some unit.worth

/-! ## Sums in 64-bit words -/

/-- The number `n`, if a 64-bit word can hold it. -/
def word? (n : Nat) : Option Nat := if n < 18446744073709551616 then some n else none

/-- The duration and `n` grains more, if no sum on the way leaves the 64-bit words. -/
def plus? (d : Duration) (n : Nat) : Grain → Option Duration
  | .seconds => do
      let seconds ← word? (d.seconds + n)
      ofNanos? (seconds * 1000000000 + d.subsecond)
  | .nanoseconds => do
      let nanos ← word? (d.subsecond + n)
      ofNanos? (d.seconds * 1000000000 + nanos)

/-- The duration and `whole` units more, and `part / scale` of a unit if a fraction is given. -/
def plusGroup? (d : Duration) (whole : Nat) (fraction? : Option (Nat × Nat)) (name : List Char) :
    Option Duration := do
  let unit ← TimeUnit.ofName? (String.ofList name)
  let (worth, grain) := unit.worth
  let d ← d.plus? (← word? (whole * worth)) grain
  match fraction? with
  | none => some d
  | some (part, scale) =>
      let (worth, grain) ← unit.partWorth?
      let n ← word? (part * worth)
      if n % scale = 0 then d.plus? (n / scale) grain else none

/-! ## Reading -/

/-- How far the reader has come in a series of groups. -/
inductive Spelling where
  /-- Between two groups, or before the first one. -/
  | between (first : Bool)
  /-- In the number of a group. -/
  | number (whole : Nat)
  /-- In the fraction of a number: its digits so far and the power of ten below them. -/
  | fraction (whole part scale : Nat)
  /-- In the unit of a group, whose letters come last first. -/
  | unit (whole : Nat) (fraction? : Option (Nat × Nat)) (letters : List Char)
deriving DecidableEq, Repr

/-- Whether a character can stand in the name of a unit. -/
def isUnitLetter (c : Char) : Bool := c.isAlpha || c == 'µ'

/-- The number after one more digit. -/
def appendDigit? (n : Nat) (c : Char) : Option Nat := word? (10 * n + Numeral.digitValue c)

/-- One character of a series of groups.  The duration is the sum of the groups before. -/
def readChar? (d : Duration) (state : Spelling) (c : Char) : Option (Duration × Spelling) :=
  match state with
  | .between first =>
      if Numeral.isDigit c then some (d, .number (Numeral.digitValue c))
      else if Text.isBlank c then some (d, .between first)
      else none
  | .number whole =>
      if Numeral.isDigit c then (appendDigit? whole c).map fun n => (d, .number n)
      else if Text.isBlank c then some (d, .number whole)
      else if isUnitLetter c then some (d, .unit whole none [c])
      else if c = '.' then some (d, .fraction whole 0 1)
      else none
  | .fraction whole part scale =>
      if Numeral.isDigit c then do
        let part ← appendDigit? part c
        let scale ← word? (10 * scale)
        some (d, .fraction whole part scale)
      else if Text.isBlank c then some (d, .fraction whole part scale)
      else if isUnitLetter c ∧ scale ≠ 1 then some (d, .unit whole (some (part, scale)) [c])
      else none
  | .unit whole fraction? letters =>
      if Numeral.isDigit c then
        (d.plusGroup? whole fraction? letters.reverse).map fun d =>
          (d, .number (Numeral.digitValue c))
      else if Text.isBlank c then
        (d.plusGroup? whole fraction? letters.reverse).map fun d => (d, .between false)
      else if isUnitLetter c then some (d, .unit whole fraction? (c :: letters))
      else none

/-- The sum of a series of groups, from a state of the reader on. -/
def readGroups? (d : Duration) (state : Spelling) : List Char → Option Duration
  | [] =>
      match state with
      | .between first => if first then none else some d
      | .unit whole fraction? letters => d.plusGroup? whole fraction? letters.reverse
      | .number _ | .fraction .. => none
  | c :: rest =>
      match readChar? d state c with
      | some (d, state) => readGroups? d state rest
      | none => none

/-- Reads a duration that is spelled out. -/
def ofSpelled? (s : String) : Option Duration :=
  if s = "0" then some zero else readGroups? zero (.between true) s.toList

end Leasehold.Duration
