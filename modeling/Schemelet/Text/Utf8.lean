import Schemelet.Text.Basic
import Schemelet.Text.Quoted

/-! Reading bytes as UTF-8 text. The first octet that no valid text can have at its place is a
fault, reported with the octets of the broken character before it. -/

namespace Schemelet.Utf8

inductive Reason where
  | invalidStart
  | invalidContinuation
  | unexpectedEnd
  deriving DecidableEq, Repr

/-- Why decoding stopped: the first octet of the broken character, its position, and the position
after its last octet. -/
structure Fault where
  reason : Reason
  lead : UInt8
  start : Nat
  stop : Nat
  deriving DecidableEq, Repr

def Reason.message : Reason → String
  | .invalidStart => "invalid start byte"
  | .invalidContinuation => "invalid continuation byte"
  | .unexpectedEnd => "unexpected end of data"

def Fault.place (f : Fault) : String :=
  if f.start + 1 = f.stop then
    "byte 0x" ++ String.ofList (Text.hex 2 f.lead.toNat) ++ " in position " ++ Numeral.text f.start
  else
    "bytes in position " ++ Numeral.text f.start ++ "-" ++ Numeral.text (f.stop - 1)

def Fault.message (f : Fault) : String :=
  "\x27utf-8\x27 codec can\x27t decode " ++ f.place ++ ": " ++ f.reason.message

/-- A character of which some octets were read: the bits so far, how many octets are owed, and
the range of the next one. -/
structure Pending where
  lead : UInt8
  start : Nat
  code : Nat
  owed : Nat
  low : UInt8
  high : UInt8

def Pending.ofLead? (start : Nat) (b : UInt8) : Option Pending :=
  if 0xC2 ≤ b && b ≤ 0xDF then some ⟨b, start, b.toNat - 0xC0, 1, 0x80, 0xBF⟩
  else if b = 0xE0 then some ⟨b, start, 0, 2, 0xA0, 0xBF⟩
  else if b = 0xED then some ⟨b, start, 0xD, 2, 0x80, 0x9F⟩
  else if 0xE1 ≤ b && b ≤ 0xEF then some ⟨b, start, b.toNat - 0xE0, 2, 0x80, 0xBF⟩
  else if b = 0xF0 then some ⟨b, start, 0, 3, 0x90, 0xBF⟩
  else if 0xF1 ≤ b && b ≤ 0xF3 then some ⟨b, start, b.toNat - 0xF0, 3, 0x80, 0xBF⟩
  else if b = 0xF4 then some ⟨b, start, 4, 3, 0x80, 0x8F⟩
  else none

def Pending.next (p : Pending) (b : UInt8) : Pending :=
  { p with code := p.code * 64 + (b.toNat - 0x80), owed := p.owed - 1, low := 0x80, high := 0xBF }

/-- Decodes from a position, given the character that is under way there. -/
def decodeFrom (pos : Nat) : Option Pending → List UInt8 → Except Fault (List Char)
  | none, [] => .ok []
  | some p, [] => .error ⟨.unexpectedEnd, p.lead, p.start, pos⟩
  | none, b :: rest =>
    if b < 0x80 then (Char.ofNat b.toNat :: ·) <$> decodeFrom (pos + 1) none rest
    else match Pending.ofLead? pos b with
      | some p => decodeFrom (pos + 1) (some p) rest
      | none => .error ⟨.invalidStart, b, pos, pos + 1⟩
  | some p, b :: rest =>
    if p.low ≤ b && b ≤ p.high then
      if p.owed = 1 then (Char.ofNat (p.next b).code :: ·) <$> decodeFrom (pos + 1) none rest
      else decodeFrom (pos + 1) (some (p.next b)) rest
    else .error ⟨.invalidContinuation, p.lead, p.start, pos⟩

def decode (bytes : List UInt8) : Except Fault (List Char) := decodeFrom 0 none bytes

def unifyNewlines : List Char → List Char
  | [] => []
  | '\r' :: '\n' :: rest => '\n' :: unifyNewlines rest
  | c :: rest => (if c = '\r' then '\n' else c) :: unifyNewlines rest

end Schemelet.Utf8
