/-
# The reader from mark to mark

A quote, a bracket or a brace decides how a value is read, and the mark behind an item or a member
whether another one follows.  The reader is split here at these marks, with one equation for each.
-/
import Mathlib.Tactic.Lemma
import PhpCatalog.Json.Reader

namespace PhpCatalog.Json

/-- An array inside others, behind its opening bracket. -/
def arrayFrom (m : Machine) (n depth : Nat) (c : Cursor) : Read Json :=
  match c.rest with
  | ']' :: _ => .ok (.arr [], c.skip 1)
  | _ => (items m n depth [] c).map fun r => (.arr r.1, r.2)

/-- An object inside others, behind its opening brace. -/
def objectFrom (m : Machine) (n depth : Nat) (c : Cursor) : Read Json :=
  match c.rest with
  | '}' :: _ => .ok (.obj [], c.skip 1)
  | _ => (members m n depth [] c).map fun r => (.obj r.1, r.2)

/-- The items of an array behind one of them; `acc` holds those that were read, last first. -/
def itemsBehind (m : Machine) (n depth : Nat) (acc : List Json) (c : Cursor) : Read (List Json) :=
  match c.rest with
  | ']' :: _ => .ok (acc.reverse, c.skip 1)
  | ',' :: _ => items m n depth acc (c.skip 1).skipSpace
  | _ => .error (.fault ⟨.comma, c.pos⟩)

/-- The members of an object behind one of them. -/
def membersBehind (m : Machine) (n depth : Nat) (acc : List (String × Json)) (c : Cursor) :
    Read (List (String × Json)) :=
  match c.rest with
  | '}' :: _ => .ok (acc, c.skip 1)
  | ',' :: _ => members m n depth acc (c.skip 1).skipSpace
  | _ => .error (.fault ⟨.comma, c.pos⟩)

/-- The members of an object behind the name of one of them. -/
def membersFrom (m : Machine) (n depth : Nat) (name : String) (acc : List (String × Json))
    (c : Cursor) : Read (List (String × Json)) :=
  match c.rest with
  | ':' :: _ =>
    match value m n depth (c.skip 1).skipSpace with
    | .error stop => .error stop
    | .ok (x, c) => membersBehind m n depth (insert name x acc) c.skipSpace
  | _ => .error (.fault ⟨.colon, c.pos⟩)

section Steps

variable {m : Machine} (n depth pos : Nat) (rest : List Char)

lemma value_quote :
    value m (n + 1) depth ⟨pos, '"' :: rest⟩ =
      (string m ⟨pos + 1, rest⟩).map fun r => (.str r.1, r.2) := rfl

lemma value_bracket :
    value m (n + 1) depth ⟨pos, '[' :: rest⟩ =
      if within m.reading (depth + 1) then
        arrayFrom m n (depth + 1) (Cursor.mk (pos + 1) rest).skipSpace
      else .error (.limit .nesting) := rfl

lemma value_brace :
    value m (n + 1) depth ⟨pos, '\x7b' :: rest⟩ =
      if within m.reading (depth + 1) then
        objectFrom m n (depth + 1) (Cursor.mk (pos + 1) rest).skipSpace
      else .error (.limit .nesting) := rfl

/-- A text that starts with no quote and no opening bracket is read as a scalar. -/
lemma value_scalar {c : Char} (hquote : c ≠ '"') (harray : c ≠ '[') (hobject : c ≠ '{')
    (more : List Char) :
    value m (n + 1) depth ⟨pos, c :: more⟩ = scalar m ⟨pos, c :: more⟩ := by
  rw [value]
  split <;> rename_i heq
  · simp at heq
  · simp [hquote] at heq
  · simp [harray] at heq
  · simp [hobject] at heq
  · rfl

lemma items_succ (acc : List Json) (c : Cursor) :
    items m (n + 1) depth acc c = match value m n depth c with
      | .error stop => .error stop
      | .ok (x, c) => itemsBehind m n depth (x :: acc) c.skipSpace := by
  rw [items]
  rfl

lemma members_quote (acc : List (String × Json)) :
    members m (n + 1) depth acc ⟨pos, '"' :: rest⟩ = match string m ⟨pos + 1, rest⟩ with
      | .error stop => .error stop
      | .ok (name, c) => membersFrom m n depth name acc c.skipSpace := by
  rw [members]
  rfl

end Steps

end PhpCatalog.Json
