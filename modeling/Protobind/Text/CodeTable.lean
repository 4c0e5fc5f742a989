import Protobind.Text.Split

/-!
# Tables of code points

An entry is written in hexadecimal with a blank between its parts: the distance from the end of the
entry before, left out where it is one; for a range of several code points a hyphen and the distance
to its own end; and the numbers. Semicolons separate entries. A table without numbers is a set.
-/

namespace Protobind.Text

/-- A range of code points, and its numbers. -/
structure CodeEntry where
  first : Nat
  last : Nat
  values : List Nat
  deriving DecidableEq

namespace CodeEntry

def digit (c : Char) : Nat := if c.isDigit then c.toNat - 48 else c.toNat - 87

def number (cs : List Char) : Nat := cs.foldl (fun n c => 16 * n + digit c) 0

def read (before : Nat) (cs : List Char) : CodeEntry :=
  match splitOn ' ' cs with
  | [] => ⟨before, before, []⟩
  | head :: values =>
    let (gap, more) := (cutAt? '-' head).getD (head, [])
    let first := before + if gap.isEmpty then 1 else number gap
    ⟨first, first + number more, values.map number⟩

def readAll : Nat → List (List Char) → List CodeEntry
  | _, [] => []
  | before, cs :: rest =>
    let e := read before cs
    e :: readAll e.last rest

end CodeEntry

/-- A table of code points. -/
structure CodeTable where
  entries : List CodeEntry

namespace CodeTable

def ofRows (rows : List String) : CodeTable where
  entries := CodeEntry.readAll 0 (rows.flatMap fun row => splitOn ';' row.toList)

def find? (t : CodeTable) (n : Nat) : Option CodeEntry :=
  t.entries.find? fun e => e.first ≤ n && n ≤ e.last

def contains (t : CodeTable) (c : Char) : Bool := (t.find? c.toNat).isSome

end CodeTable

end Protobind.Text
