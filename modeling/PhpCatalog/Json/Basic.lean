/-
# JSON values

A value is what a JSON text denotes.  Numbers are exact: an integer of any size, or a decimal kept
by its digits, and the three special numbers that some writers emit.  An object is a list of
members in the order of their first appearance; `Object.insert` keeps every name unique by
replacing the value in place.
-/

namespace PhpCatalog

/-- A decimal number by its digits: sign, whole part, the digits behind the point, and the power of
ten it is scaled by. -/
structure Decimal where
  negative : Bool
  whole : Nat
  fraction : List (Fin 10)
  exponent : Option Int
  deriving Repr, DecidableEq

/-- Whether a decimal is zero. -/
def Decimal.isZero (d : Decimal) : Bool :=
  d.whole == 0 && d.fraction.all (· == 0)

/-- A JSON value. -/
inductive Json where
  | null
  | bool (b : Bool)
  | int (n : Int)
  | decimal (d : Decimal)
  /-- The special number that is no number. -/
  | nan
  /-- An infinite number. -/
  | infinity (negative : Bool)
  | str (s : String)
  | arr (items : List Json)
  | obj (members : List (String × Json))
  deriving Repr, Inhabited

namespace Json

/-- The value of a member. -/
def lookup (name : String) : List (String × Json) → Option Json
  | [] => none
  | (k, v) :: rest => if k = name then some v else lookup name rest

/-- Sets a member: in place if the name is present, at the end if it is new. -/
def insert (name : String) (value : Json) : List (String × Json) → List (String × Json)
  | [] => [(name, value)]
  | (k, v) :: rest => if k = name then (k, value) :: rest else (k, v) :: insert name value rest

/-- Members in order, each set on top of those before it. -/
def insertAll (members new : List (String × Json)) : List (String × Json) :=
  new.foldl (fun acc m => insert m.1 m.2 acc) members

/-- A member of an object; `none` for any other value. -/
def get? (j : Json) (name : String) : Option Json :=
  match j with
  | .obj members => lookup name members
  | _ => none

/-- Whether a value counts as given: null, false, zero, and empty texts, arrays and objects do
not. -/
def isTruthy : Json → Bool
  | .null => false
  | .bool b => b
  | .int n => n != 0
  | .decimal d => !d.isZero
  | .nan => true
  | .infinity _ => true
  | .str s => s != ""
  | .arr items => !items.isEmpty
  | .obj members => !members.isEmpty

/-- The string a value is, if it is one. -/
def str? : Json → Option String
  | .str s => some s
  | _ => none

mutual

/-- The same value with the members of every object in the order of their names. -/
def sortKeys : Json → Json
  | .arr items => .arr (sortKeysItems items)
  | .obj members =>
    .obj ((sortKeysMembers members).mergeSort fun a b => !decide (b.1 < a.1))
  | j => j

/-- `sortKeys` on every item. -/
def sortKeysItems : List Json → List Json
  | [] => []
  | j :: rest => sortKeys j :: sortKeysItems rest

/-- `sortKeys` on every member's value. -/
def sortKeysMembers : List (String × Json) → List (String × Json)
  | [] => []
  | (k, v) :: rest => (k, sortKeys v) :: sortKeysMembers rest

end

end Json

end PhpCatalog
