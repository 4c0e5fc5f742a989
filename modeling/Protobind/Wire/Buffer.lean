import Protobind.Wire.Record

/-!
# Buffers

A buffer is written at its end and read from a cursor. A failed read leaves the cursor where the
fault was noticed.
-/

namespace Protobind

/-- A buffer. -/
structure Buffer where
  data : Bytes := []
  cursor : Nat := 0
  deriving DecidableEq

namespace Buffer

def unread (b : Buffer) : Bytes := b.data.drop b.cursor

def atEnd (b : Buffer) : Bool := b.data.length ≤ b.cursor

def append (b : Buffer) (more : Bytes) : Buffer := { b with data := b.data ++ more }

/-- Runs a reader at the cursor and moves the cursor past what it consumed, also on failure. -/
def read {α : Type} (b : Buffer) (reader : Reader α) : Except DecodeError α × Buffer :=
  match reader b.unread with
  | .ok a rest => (.ok a, { b with cursor := b.data.length - rest.length })
  | .error e rest => (.error e, { b with cursor := b.data.length - rest.length })

end Buffer

end Protobind
