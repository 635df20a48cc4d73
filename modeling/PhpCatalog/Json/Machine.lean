/-
# Limits of reading and writing JSON

JSON allows integers of any size and values nested to any depth.  What reads or writes it does not:
it bounds the digits of an integer that it converts, and how deep it follows arrays and objects into
each other.  Neither does it keep every number and every character: a decimal becomes the nearest
number that it has, and an escape for one half of a surrogate pair stands for no character.

A `Machine` says all of this.  The bounds of nesting depend on how deep the program is already when
it reads or writes, so they are given and not fixed.
-/
import PhpCatalog.Json.Basic

namespace PhpCatalog.Json

/-- What a machine has not enough of. -/
inductive Limit where
  /-- An integer has too many digits. -/
  | digits
  /-- A value is nested too deep. -/
  | nesting
  deriving Repr, DecidableEq

/-- What a machine can read and write.  A bound that is not there bounds nothing. -/
structure Machine where
  /-- The most digits of an integer. -/
  digits : Option Nat := some 4300
  /-- The most arrays and objects inside each other in a text that is read. -/
  reading : Option Nat := some 992
  /-- The most arrays and objects inside each other in a value that is written. -/
  writing : Option Nat := some 992
  /-- The number that is kept for a decimal; none, if it is beyond all of them. -/
  keep : Decimal → Option Decimal := some
  /-- What stands for one half of a surrogate pair. -/
  half : Nat → Char := fun n => Char.ofNat (0x10F800 + (n - 0xD800))

/-- A machine without bounds. -/
def Machine.unbounded : Machine where
  digits := none
  reading := none
  writing := none

/-- Whether a number is within a bound, if there is one. -/
def within (bound : Option Nat) (n : Nat) : Bool :=
  bound.all (n ≤ ·)

@[simp] theorem within_none (n : Nat) : within none n = true := rfl

@[simp] theorem within_some (bound n : Nat) : within (some bound) n = decide (n ≤ bound) := rfl

namespace Machine

variable (m : Machine)

/-- The value of a decimal as it is kept. -/
def number (d : Decimal) : Json :=
  match m.keep d with
  | some kept => .decimal kept
  | none => .infinity d.negative

/-- The character of a unit of sixteen bits. -/
def unit (n : Nat) : Char :=
  if 0xD800 ≤ n && n < 0xE000 then m.half n else Char.ofNat n

end Machine

end PhpCatalog.Json
