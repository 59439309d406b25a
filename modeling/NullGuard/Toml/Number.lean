import NullGuard.Text.Escape
import NullGuard.Toml.Item
import NullGuard.Toml.Scan

/-!
# Numbers of a settings file

Single underscores may stand between digits. A whole number has 64 bits with a
sign; it may be written in base 16, 8 or 2. A number with a fraction or an
exponent is only checked: it must not lie above all numbers that 64 bits with a
floating point can hold.
-/

namespace NullGuard.Toml

open NullGuard.Text (hexValue?)
open Scan

/-- Whether underscores stand only between digits. -/
def isSpaced (written : List Char) : Bool :=
  !written.isEmpty && written.head? != some '_' && written.getLast? !=
    some '_' && !(written.zip written.tail).contains ('_', '_')

/-- Digits of a base, without the underscores between them. -/
def digits (base : Nat) : Scan (List Nat) := do
  let written ← run fun c => c == '_' || (hexValue? c).any (· < base)
  unless isSpaced written do fail
  return written.filterMap hexValue?

/-- The number that digits write. -/
def numberOf (base : Nat) (ds : List Nat) : Nat :=
  ds.foldl (fun n d => base * n + d) 0

/-- The whole number of 64 bits, if it is one. -/
def whole? (n : Int) : Option Item :=
  if -0x8000000000000000 ≤ n ∧ n < 0x8000000000000000
    then some (.integer n) else none

/-- Digits of base ten behind a sign; only zero starts with a zero. -/
def wholePart : Scan (List Nat) := do
  let ds ← digits 10
  if ds.head? == some 0 && ds.length != 1 then fail
  return ds

/-- The sign of a number: whether it is a minus; nothing if there is none. -/
def numberSign : Scan (Option Bool) := do
  if ← eat '-' then return some true
  else if ← eat '+' then return some false
  else return none

/-- The first number that rounds to infinity: half a step above the largest one
of 64 bits. -/
def firstInfinite : Nat :=
  Nat.pow 2 1024 - Nat.pow 2 970

/-- Whether `ds` as a number, times ten to the power `exponent`, rounds to
infinity. -/
def isInfinite (ds : List Nat) (exponent : Int) : Bool :=
  let m := numberOf 10 ds
  let places := (ds.dropWhile (· == 0)).length
  let size := places + exponent
  if m = 0 || size < 309 then false
  else if 309 < size then true
  else if exponent ≥ 0 then firstInfinite ≤ m * Nat.pow 10 exponent.toNat
  else firstInfinite * Nat.pow 10 (-exponent).toNat ≤ m

/-- The fraction of a number: its digits, if there is one. -/
def fractionPart : Scan (Option (List Nat)) := do
  if ← eat '.' then some <$> digits 10 else return none

/-- The exponent of a number, if there is one. -/
def exponentPart : Scan (Option Int) := do
  match ← peek? with
  | some 'e' | some 'E' => do
    skip 1
    let isMinus := (← numberSign) == some true
    let n := numberOf 10 (← digits 10)
    return some (if isMinus then -n else n)
  | _ => return none

/-- A number of base ten behind its sign. -/
def decimal (isMinus : Bool) : Scan Item := do
  let ds ← wholePart
  let fraction ← fractionPart
  let exponent ← exponentPart
  if fraction.isNone && exponent.isNone then
    let n : Int := numberOf 10 ds
    match whole? (if isMinus then -n else n) with
    | some i => return i
    | none => fail
  else
    let behind := fraction.getD []
    if !isMinus && isInfinite (ds ++ behind) (exponent.getD 0 - behind.length)
      then fail
    return .fraction

/-- A word that comes next. -/
def word (text : String) : Scan Unit := do
  unless ← sees text.toList do fail
  skip text.length

/-- Infinity or what is no number, behind its sign. -/
def nonFinite : Scan Item := do
  if (← peek?) == some 'i' then word "inf" else word "nan"
  return .fraction

/-- A whole number in a base that its first two characters name. -/
def based (base : Nat) : Scan Item := do
  skip 2
  let n : Int := numberOf base (← digits base)
  match whole? n with
  | some i => return i
  | none => fail

/-- A number. -/
def number : Scan Item := do
  if ← sees ['0', 'x'] then based 16
  else if ← sees ['0', 'o'] then based 8
  else if ← sees ['0', 'b'] then based 2
  else
    let isMinus := (← numberSign) == some true
    match ← peek? with
    | some 'i' | some 'n' => nonFinite
    | _ => decimal isMinus

end NullGuard.Toml
