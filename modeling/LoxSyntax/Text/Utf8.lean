import LoxSyntax.Number.Decimal
import LoxSyntax.Text.Quoted

/-!
# Strict UTF-8

A file is read as UTF-8 in its strict form: overlong forms, surrogates and codes
past the last code point are refused at the first byte that rules them out. A
byte order mark is text like any other.

The decoder takes one byte at a time. Inside a sequence it knows the code built
so far and the range that each continuation byte still to come must lie in, so
that every refusal is a byte outside its range or the end of the file.
`Utf8.decode` gives the text or the first malformed sequence.
-/

namespace LoxSyntax.Text.Utf8

/-- Why a sequence of bytes is malformed. -/
inductive Cause
  /-- No sequence starts with this byte. -/
  | invalidStart
  /-- The byte that follows cannot continue the sequence. -/
  | invalidContinuation
  /-- The file ends inside the sequence. -/
  | unexpectedEnd
deriving DecidableEq, Repr

/-- The words for a cause. -/
def Cause.description : Cause → String
  | .invalidStart => "invalid start byte"
  | .invalidContinuation => "invalid continuation byte"
  | .unexpectedEnd => "unexpected end of data"

/-- A malformed sequence: its first byte, its offset in the file, and the number
of its bytes that could still have been well formed. -/
structure Malformed where
  lead : UInt8
  offset : Nat
  length : Nat
  cause : Cause
deriving DecidableEq, Repr

/-- The report of a malformed sequence. One byte is shown, several are only
located, by the offsets of the first and the last. -/
def Malformed.message (m : Malformed) : String :=
  let location :=
    if m.length = 1 then
      "byte 0x" ++ String.ofList (Quoted.hexDigits 2 m.lead.toNat) ++
        " in position " ++ integerText m.offset
    else
      "bytes in position " ++ integerText m.offset ++ "-" ++
        integerText (m.offset + m.length - 1 : Nat)
  "'utf-8' codec can't decode " ++ location ++ ": " ++ m.cause.description

/-- The least and the greatest byte allowed at a place. -/
abbrev ByteRange := Nat × Nat

/-- The range of a continuation byte without further condition. -/
def continuation : ByteRange :=
  (0x80, 0xBF)

/-- An unfinished sequence: its first byte, the number of its bytes read, the code
built so far, the range of the next byte and the ranges of those after it. -/
structure Pending where
  lead : UInt8
  length : Nat
  code : Nat
  next : ByteRange
  later : List ByteRange

/-- What a byte between sequences does. -/
inductive Start
  | character (c : Char)
  | sequence (pending : Pending)
  | malformed

/-- The sequence that a byte between sequences starts. The range of the second
byte excludes overlong forms, surrogates and codes past the last code point. -/
def start (byte : UInt8) : Start :=
  let b := byte.toNat
  let sequence (code : Nat) (next : ByteRange) (later : List ByteRange) : Start :=
    .sequence ⟨byte, 1, code, next, later⟩
  if b < 0x80 then .character (Char.ofNat b)
  else if b < 0xC2 then .malformed
  else if b < 0xE0 then sequence (b - 0xC0) continuation []
  else if b = 0xE0 then sequence (b - 0xE0) (0xA0, 0xBF) [continuation]
  else if b = 0xED then sequence (b - 0xE0) (0x80, 0x9F) [continuation]
  else if b < 0xF0 then sequence (b - 0xE0) continuation [continuation]
  else if b = 0xF0 then sequence (b - 0xF0) (0x90, 0xBF) [continuation, continuation]
  else if b < 0xF4 then sequence (b - 0xF0) continuation [continuation, continuation]
  else if b = 0xF4 then sequence (b - 0xF0) (0x80, 0x8F) [continuation, continuation]
  else .malformed

/-- Decodes the bytes from an offset on. `decoded` holds the characters before
them, the last one first, and `pending` the sequence that reaches up to them. -/
def decodeFrom (offset : Nat) (decoded : List Char) (pending : Option Pending) :
    List UInt8 → Except Malformed (List Char)
  | [] =>
    match pending with
    | none => .ok decoded.reverse
    | some p => .error ⟨p.lead, offset - p.length, p.length, .unexpectedEnd⟩
  | byte :: bytes =>
    match pending with
    | none =>
      match start byte with
      | .character c => decodeFrom (offset + 1) (c :: decoded) none bytes
      | .sequence p => decodeFrom (offset + 1) decoded (some p) bytes
      | .malformed => .error ⟨byte, offset, 1, .invalidStart⟩
    | some p =>
      if p.next.1 ≤ byte.toNat ∧ byte.toNat ≤ p.next.2 then
        let code := p.code * 64 + (byte.toNat - 0x80)
        match p.later with
        | [] => decodeFrom (offset + 1) (Char.ofNat code :: decoded) none bytes
        | next :: later =>
          decodeFrom (offset + 1) decoded (some ⟨p.lead, p.length + 1, code, next, later⟩) bytes
      else .error ⟨p.lead, offset - p.length, p.length, .invalidContinuation⟩

/-- The text of a file, or its first malformed sequence. -/
def decode (bytes : List UInt8) : Except Malformed (List Char) :=
  decodeFrom 0 [] none bytes

end LoxSyntax.Text.Utf8
