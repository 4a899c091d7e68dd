import FlowAudit.Decimal.Literal
import FlowAudit.Flow.Key
import FlowAudit.Text.Blank

set_option autoImplicit false

/-!
Lines of an ASCII trace. A line that mentions a TCP header is decoded into its direction, time,
ports, flags and ack number; each part that can be missing or misspelled has an error of its own,
and the first such part decides. Other lines say nothing about flows.
-/
namespace FlowAudit.Trace

open FlowAudit.Text FlowAudit.Flow

/-- What happened to the packet, from the mark at the start of the line. -/
inductive Direction where
  /-- Taken from a queue for transmission. -/
  | send
  | receive
  /-- Put into a queue, dropped, or anything else. -/
  | other
  deriving DecidableEq, Repr

def Direction.ofMark : Option Char → Direction
  | some '-' => send
  | some 'r' => receive
  | _ => other

/-- Why a line with a TCP header cannot be decoded. -/
inductive DecodeError where
  | missingTimestamp
  | badTimestamp (token : String)
  | missingHeaderOpen
  | missingPortSeparator
  | badPort (text : String)
  | missingFlags
  | badAck (text : String)
  | missingWindow
  deriving DecidableEq, Repr

def DecodeError.message : DecodeError → String
  | missingTimestamp => "missing timestamp token"
  | badTimestamp token => s!"timestamp '{token}' is not a decimal number"
  | missingHeaderOpen => "TCP header is not followed by '('"
  | missingPortSeparator => "TCP header has no ' > ' between ports"
  | badPort text => s!"port '{text}' is not a valid port number"
  | missingFlags => "TCP header has no bracketed flags segment"
  | badAck text => s!"ack value '{text}' is not a valid sequence number"
  | missingWindow => "'Ack=' is not followed by ' Win='"

structure Line where
  direction : Direction
  timestamp : String
  source : UInt16
  destination : UInt16
  /-- What stands between the brackets. -/
  flags : String
  ack : Option UInt32
  deriving DecidableEq, Repr

namespace Line

/-- Only a SYN without other flags opens a flow. -/
def isSyn (line : Line) : Bool :=
  line.flags == "SYN"

def sendKey (line : Line) : Key :=
  Key.ofSend line.source line.destination

def receiveKey (line : Line) : Key :=
  Key.ofReceive line.source line.destination

def headerName : List Char := "ns3::TcpHeader".toList

def flagsOpen : List Char := [' ', '[']

def flagsClose : List Char := [']']

def portSeparator : List Char := [' ', '>', ' ']

def ackMark : List Char := " Ack=".toList

def windowMark : List Char := " Win=".toList

/-- The second word of the line, which has to spell a finite double. -/
def readTimestamp (line : List Char) : Except DecodeError (List Char) :=
  match (words line)[1]? with
  | none => .error .missingTimestamp
  | some token =>
      if (Decimal.float? token).any Float.isFinite then .ok token
      else .error (.badTimestamp (String.ofList token))

/-- The text inside the parenthesis that follows the header's name. -/
def readOpen (afterName : List Char) : Except DecodeError (List Char) :=
  match trimStart afterName with
  | '(' :: body => .ok body
  | _ => .error .missingHeaderOpen

def readPort (text : List Char) : Except DecodeError UInt16 :=
  match uint16? (trim text) with
  | some port => .ok port
  | none => .error (.badPort (String.ofList (trim text)))

def readPorts (segment : List Char) : Except DecodeError (UInt16 × UInt16) := do
  match cut portSeparator segment with
  | none => throw .missingPortSeparator
  | some (source, destination) => return (← readPort source, ← readPort destination)

/-- The ack number of the text after the flags, if it has one. -/
def readAck (tail : List Char) : Except DecodeError (Option UInt32) :=
  match cut ackMark tail with
  | none => .ok none
  | some (_, rest) =>
      match cut windowMark rest with
      | none => .error .missingWindow
      | some (text, _) =>
          match uint32? text with
          | some ack => .ok (some ack)
          | none => .error (.badAck (String.ofList text))

def cutFlags (mark text : List Char) : Except DecodeError (List Char × List Char) :=
  match cut mark text with
  | some parts => .ok parts
  | none => .error .missingFlags

/-- Decodes a line from the text after the first name of a TCP header in it. -/
def decodeHeader (line afterName : List Char) : Except DecodeError Line := do
  let timestamp ← readTimestamp line
  let body ← readOpen afterName
  let (segment, afterOpen) ← cutFlags flagsOpen body
  let (source, destination) ← readPorts segment
  let (flags, tail) ← cutFlags flagsClose afterOpen
  let ack ← readAck tail
  return {
    direction := Direction.ofMark line.head?
    timestamp := String.ofList timestamp
    source, destination
    flags := String.ofList flags
    ack }

/-- Decodes a line; one without a TCP header has nothing to decode. -/
def decode (line : List Char) : Except DecodeError (Option Line) :=
  match cut headerName line with
  | none => .ok none
  | some (_, afterName) => (decodeHeader line afterName).map some

end Line

end FlowAudit.Trace
