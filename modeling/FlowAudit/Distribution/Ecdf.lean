import FlowAudit.Decimal.Shortest

set_option autoImplicit false

/-!
Empirical distribution functions. The curve of a list of samples starts at its least value with
probability zero and has one step for each value, where zeros of either sign are one value.
-/
namespace FlowAudit.Distribution

open FlowAudit.Decimal

structure Step where
  value : Float
  probability : Float

/-- The place of a double in the total order of doubles, in which the negative zero comes just
before the positive one. -/
def rank (value : Float) : Int :=
  let bits := value.toBits.toNat
  if bits < signBit then bits else signBit - 1 - (bits : Int)

def sorted (samples : List Float) : List Float :=
  samples.mergeSort fun first second => rank first ≤ rank second

/-- How a list of samples fails to have a distribution. -/
inductive SampleError where
  | empty
  | nan (index : Nat)
  deriving DecidableEq, Repr

def SampleError.message : SampleError → String
  | empty => "cannot build a distribution from an empty sample set"
  | nan index => s!"sample {index} is NaN"

structure Ecdf where
  /-- The first step stands at the least value and has probability zero. -/
  steps : List Step

namespace Ecdf

/-- The steps of ascending samples of which `seen` came before. A run of equal samples makes one
step, at the last of them. -/
def stepsFrom (total : Float) (seen : Nat) : List Float → List Step
  | [] => []
  | [last] => [⟨last, Float.ofNat (seen + 1) / total⟩]
  | value :: next :: rest =>
      if next == value then stepsFrom total (seen + 1) (next :: rest)
      else ⟨value, Float.ofNat (seen + 1) / total⟩ :: stepsFrom total (seen + 1) (next :: rest)

def ofSorted (samples : List Float) : Ecdf where
  steps := (samples.head?.map fun least => ⟨least, 0⟩).toList ++
    stepsFrom (Float.ofNat samples.length) 0 samples

def ofSamples (samples : List Float) : Except SampleError Ecdf :=
  if samples.isEmpty then .error .empty
  else
    match samples.findIdx? Float.isNaN with
    | some index => .error (.nan index)
    | none => .ok (ofSorted (sorted samples))

/-- The share of samples that are not above a value. -/
def shareUpTo (ecdf : Ecdf) (value : Float) : Float :=
  ((ecdf.steps.tail.takeWhile fun step => step.value ≤ value).getLast?.map
    Step.probability).getD 0

end Ecdf

end FlowAudit.Distribution
