import NullGuard.Toml.Item
import NullGuard.Toml.Scan

/-!
# Dates and times of a settings file

A date, a time, or a date with a time, which may have an offset. No setting has
a value of this kind, so a moment is only checked: the parts have to be in
range, and a month has only its days.
-/

namespace NullGuard.Toml

open Scan

/-- A number of exactly so many digits. -/
def fixedDigits (count : Nat) : Scan Nat := fun s =>
  let ds := s.take count
  if ds.length = count ∧ ds.all Char.isDigit then
    some (ds.foldl (fun n c => 10 * n + (c.toNat - '0'.toNat)) 0, s.drop count)
  else none

/-- A number of two digits in a range. -/
def part (low high : Nat) : Scan Nat := do
  let n ← fixedDigits 2
  if low ≤ n ∧ n ≤ high then return n else fail

/-- The number of days that a month has. -/
def daysOf (year month : Nat) : Nat :=
  if month = 2 then
    if year % 4 = 0 ∧ (year % 100 ≠ 0 ∨ year % 400 = 0) then 29 else 28
  else if month = 4 ∨ month = 6 ∨ month = 9 ∨ month = 11 then 30
  else 31

/-- A date. -/
def date : Scan Unit := do
  let year ← fixedDigits 4
  sign '-'
  let month ← part 1 12
  sign '-'
  let day ← part 1 31
  unless day ≤ daysOf year month do fail

/-- A time of day; a minute may have a second more. -/
def time : Scan Unit := do
  let _ ← part 0 23
  sign ':'
  let _ ← part 0 59
  sign ':'
  let _ ← part 0 60
  if ← eat '.' then
    let ds ← run Char.isDigit
    if ds.isEmpty then fail

/-- How far a time is from that of the prime meridian, if it says so. -/
def offset : Scan Unit := do
  match ← peek? with
  | some 'Z' | some 'z' => skip 1
  | some '+' | some '-' => do
    skip 1
    let _ ← part 0 23
    sign ':'
    let _ ← part 0 59
  | _ => pure ()

/-- Whether a date comes next, by its year and the sign behind it. -/
def seesDate : Scan Bool := fun s =>
  some ((s.take 4).all Char.isDigit && (s.drop 4).head? == some '-' &&
    (s.take 4).length == 4, s)

/-- Whether a time comes next behind one character, by its hour and the sign
behind it. -/
def seesTime (before : Nat) : Scan Bool := fun s =>
  let s' := s.drop before
  some ((s'.take 2).all Char.isDigit && (s'.drop 2).head? == some ':', s)

/-- A date, a time, or both. -/
def moment : Scan Item := do
  if ← seesDate then
    date
    let isTimed := match ← peek? with
      | some 'T' | some 't' | some ' ' => true
      | _ => false
    if isTimed && (← seesTime 1) then
      skip 1
      time
      offset
  else time
  return .moment

end NullGuard.Toml
