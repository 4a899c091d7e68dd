import FlowAudit.Text.Cut
import FlowAudit.Text.Numeral

set_option autoImplicit false

/-!
Flow keys. A key names a TCP connection by its two ports, the port that opened it first, and is
written as the two ports with a hyphen between them.
-/
namespace FlowAudit.Flow

open FlowAudit.Text

/-- The port that sent the opening SYN, and the port that it was addressed to. -/
structure Key where
  first : UInt16
  second : UInt16
  deriving DecidableEq, Repr, Inhabited

namespace Key

/-- The flow of a packet that travels in the direction of the opening SYN. -/
def ofSend (source destination : UInt16) : Key :=
  ⟨source, destination⟩

/-- The flow of a packet that travels back to the side that opened it. -/
def ofReceive (source destination : UInt16) : Key :=
  ⟨destination, source⟩

def spelling (key : Key) : List Char :=
  decimal key.first.toNat ++ '-' :: decimal key.second.toNat

def text (key : Key) : String :=
  String.ofList key.spelling

instance : ToString Key := ⟨text⟩

/-- Reads two port numerals on either side of the first hyphen. -/
def read? (text : List Char) : Option Key := do
  let (first, second) ← cut ['-'] text
  return ⟨← uint16? first, ← uint16? second⟩

def parse? (text : String) : Option Key :=
  read? text.toList

end Key

end FlowAudit.Flow
