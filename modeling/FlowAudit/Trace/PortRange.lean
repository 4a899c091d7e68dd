set_option autoImplicit false

/-!
Ranges of ports. A range holds both of its ends, and no port when the first is above the last.
-/
namespace FlowAudit.Trace

structure PortRange where
  first : UInt16
  last : UInt16
  deriving DecidableEq, Repr

namespace PortRange

/-- The ports that carry coordination traffic unless a profile says otherwise. -/
def control : PortRange := ⟨20000, 21000⟩

def contains (range : PortRange) (port : UInt16) : Bool :=
  range.first ≤ port && port ≤ range.last

def isEmpty (range : PortRange) : Bool :=
  range.last < range.first

theorem contains_eq_false_of_isEmpty {range : PortRange} (none : range.isEmpty = true)
    (port : UInt16) : range.contains port = false := by
  simp only [isEmpty, decide_eq_true_eq, contains, UInt16.lt_iff_toNat_lt] at none ⊢
  simp only [UInt16.le_iff_toNat_le, Bool.and_eq_false_iff, decide_eq_false_iff_not]
  omega

end PortRange

/-- A control range without ports would let control traffic through. -/
structure EmptyControlRange where
  range : PortRange
  deriving DecidableEq, Repr

def EmptyControlRange.message (error : EmptyControlRange) : String :=
  let first := error.range.first.toNat
  let last := error.range.last.toNat
  s!"control port range {first}-{last} is empty (start > end)"

def PortRange.check (range : PortRange) : Except EmptyControlRange Unit :=
  if range.isEmpty then .error ⟨range⟩ else .ok ()

end FlowAudit.Trace
