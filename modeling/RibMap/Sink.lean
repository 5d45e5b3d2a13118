/-! # Sinks

A sink takes bytes until it is full. A text that does not fit is cut off, and the sink says so.
-/

namespace RibMap

def utf8 (text : String) : List UInt8 :=
  text.toUTF8.data.toList

/-- A sink: how many more bytes it takes, if it is bounded, and those it has received. -/
structure Sink where
  room : Option Nat
  received : List UInt8
  deriving DecidableEq, Repr

namespace Sink

/-- An empty sink with room for a number of bytes, or for any. -/
def ofRoom (room : Option Nat) : Sink :=
  ⟨room, []⟩

def fullMessage : String := "failed to write whole buffer"

/-- Write a text as far as there is room; `false` if some of it did not fit. -/
def write (sink : Sink) (text : String) : Sink × Bool :=
  let bytes := utf8 text
  match sink.room with
  | none => (⟨none, sink.received ++ bytes⟩, true)
  | some room =>
    (⟨some (room - bytes.length), sink.received ++ bytes.take room⟩, bytes.length ≤ room)

end Sink

end RibMap
