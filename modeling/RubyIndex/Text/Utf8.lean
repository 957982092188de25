/-!
UTF-8, read strictly. A text that is not UTF-8 is refused with the bytes that are at fault: they
begin at the first byte of the character that cannot be read, and end before the byte that rules
it out or at the end of the data.
-/

namespace RubyIndex.Text.Utf8

inductive Reason where
  | invalidStart
  | invalidContinuation
  | unexpectedEnd
  deriving DecidableEq, Repr

/-- The bytes from `start` up to `stop`, of which `byte` is the first, are no character. -/
structure Fault where
  start : Nat
  stop : Nat
  byte : UInt8
  reason : Reason
  deriving DecidableEq, Repr

/-- A character of which only the first bytes have been read: where it began and with which byte,
the bits read so far, how many bytes are owed, and the range of the next one. -/
structure Pending where
  start : Nat
  byte : UInt8
  bits : Nat
  owed : Nat
  low : UInt8
  high : UInt8
  deriving DecidableEq, Repr

/-- What a first byte of several announces: of the second byte, the ranges keep out overlong
forms, surrogates and code points beyond the last. -/
def Pending.open? (start : Nat) (b : UInt8) : Option Pending :=
  if b < 0xC2 then none
  else if b < 0xE0 then some ⟨start, b, b.toNat - 0xC0, 1, 0x80, 0xBF⟩
  else if b < 0xF0 then
    some ⟨start, b, b.toNat - 0xE0, 2, if b = 0xE0 then 0xA0 else 0x80,
      if b = 0xED then 0x9F else 0xBF⟩
  else if b < 0xF5 then
    some ⟨start, b, b.toNat - 0xF0, 3, if b = 0xF0 then 0x90 else 0x80,
      if b = 0xF4 then 0x8F else 0xBF⟩
  else none

def decodeFrom (pending : Option Pending) (pos : Nat) (done : List Char) :
    List UInt8 → Except Fault (List Char)
  | [] =>
    match pending with
    | none => .ok done.reverse
    | some p => .error ⟨p.start, pos, p.byte, .unexpectedEnd⟩
  | b :: rest =>
    match pending with
    | none =>
      if b < 0x80 then decodeFrom none (pos + 1) (Char.ofNat b.toNat :: done) rest
      else
        match Pending.open? pos b with
        | none => .error ⟨pos, pos + 1, b, .invalidStart⟩
        | some p => decodeFrom (some p) (pos + 1) done rest
    | some p =>
      if p.low ≤ b && b ≤ p.high then
        let bits := 64 * p.bits + (b.toNat - 0x80)
        if p.owed ≤ 1 then decodeFrom none (pos + 1) (Char.ofNat bits :: done) rest
        else
          decodeFrom (some { p with bits := bits, owed := p.owed - 1, low := 0x80, high := 0xBF })
            (pos + 1) done rest
      else .error ⟨p.start, pos, p.byte, .invalidContinuation⟩

def decode (bytes : List UInt8) : Except Fault (List Char) := decodeFrom none 0 [] bytes

def Reason.message : Reason → String
  | .invalidStart => "invalid start byte"
  | .invalidContinuation => "invalid continuation byte"
  | .unexpectedEnd => "unexpected end of data"

def hexByte (b : UInt8) : String :=
  String.ofList [Nat.digitChar (b.toNat / 16), Nat.digitChar (b.toNat % 16)]

def Fault.message (f : Fault) : String :=
  let place :=
    if f.stop = f.start + 1 then s!"byte 0x{hexByte f.byte} in position {f.start}"
    else s!"bytes in position {f.start}-{f.stop - 1}"
  s!"'utf-8' codec can't decode {place}: {f.reason.message}"

end RubyIndex.Text.Utf8
