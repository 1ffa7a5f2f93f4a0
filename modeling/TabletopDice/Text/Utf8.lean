import TabletopDice.Text.Basic

/-!
# UTF-8

Decoding of a file.  A fault is reported at the first byte that cannot be read, together with the
bytes after it that would have been right in that place.
-/

namespace TabletopDice

abbrev Bytes := List UInt8

namespace Utf8

inductive Reason where
  | invalidStart
  | invalidContinuation
  | endOfData
  deriving DecidableEq

structure Fault where
  reason : Reason
  /-- The first byte of the faulty sequence and its place in the file. -/
  byte : UInt8
  start : Nat
  /-- How many bytes belong to the faulty sequence. -/
  length : Nat
  deriving DecidableEq

/-- What the first byte of a character says about the rest of it. -/
structure Lead where
  /-- The bits of the code point in the first byte. -/
  bits : Nat
  /-- How many bytes follow. -/
  following : Nat
  /-- The bounds of the next byte. -/
  lowest : Nat
  highest : Nat

/-- Bounds that rule out overlong forms, surrogates and code points beyond the last one. -/
def lead? (byte : UInt8) : Option Lead :=
  let b := byte.toNat
  if b < 0x80 then some ⟨b, 0, 0x80, 0xBF⟩
  else if b < 0xC2 then none
  else if b < 0xE0 then some ⟨b - 0xC0, 1, 0x80, 0xBF⟩
  else if b = 0xE0 then some ⟨0, 2, 0xA0, 0xBF⟩
  else if b = 0xED then some ⟨0xD, 2, 0x80, 0x9F⟩
  else if b < 0xF0 then some ⟨b - 0xE0, 2, 0x80, 0xBF⟩
  else if b = 0xF0 then some ⟨0, 3, 0x90, 0xBF⟩
  else if b < 0xF4 then some ⟨b - 0xF0, 3, 0x80, 0xBF⟩
  else if b = 0xF4 then some ⟨4, 3, 0x80, 0x8F⟩
  else none

/-- The code point, or why the bytes do not continue it and how many of them do. -/
def continued (lead : Lead) (taken : Nat) : Bytes → Except (Reason × Nat) Nat
  | [] => if lead.following = 0 then .ok lead.bits else .error (.endOfData, taken)
  | byte :: rest =>
      if lead.following = 0 then .ok lead.bits
      else if lead.lowest ≤ byte.toNat ∧ byte.toNat ≤ lead.highest then
        let bits := 64 * lead.bits + byte.toNat % 64
        continued ⟨bits, lead.following - 1, 0x80, 0xBF⟩ (taken + 1) rest
      else .error (.invalidContinuation, taken)

def decodeFrom (start : Nat) : Bytes → Except Fault Text
  | [] => .ok []
  | byte :: rest =>
      match lead? byte with
      | none => .error ⟨.invalidStart, byte, start, 1⟩
      | some lead =>
          match continued lead 1 rest with
          | .error (reason, taken) => .error ⟨reason, byte, start, taken⟩
          | .ok point => do
              let others ← decodeFrom (start + 1 + lead.following) (rest.drop lead.following)
              return Char.ofNat point :: others
termination_by bytes => bytes.length
decreasing_by
  rw [List.length_drop, List.length_cons]
  omega

def decode (bytes : Bytes) : Except Fault Text := decodeFrom 0 bytes

def encode (text : Text) : Bytes := text.flatMap String.utf8EncodeChar

def Reason.text : Reason → Text
  | invalidStart => "invalid start byte".toList
  | invalidContinuation => "invalid continuation byte".toList
  | endOfData => "unexpected end of data".toList

/-- A single faulty byte is quoted; of several, the first and last place are given. -/
def Fault.message (f : Fault) : Text :=
  let decimal (n : Nat) : Text := Nat.toDigits 10 n
  let place : Text :=
    if f.length = 1 then
      "byte 0x".toList ++ Nat.toDigits 16 f.byte.toNat ++ " in position ".toList ++ decimal f.start
    else "bytes in position ".toList ++ decimal f.start ++ '-' :: decimal (f.start + f.length - 1)
  "'utf-8' codec can't decode ".toList ++ place ++ ": ".toList ++ f.reason.text

end Utf8

/-- Every line break as a single line feed. -/
def unifiedBreaks : Text → Text
  | '\r' :: '\n' :: rest => '\n' :: unifiedBreaks rest
  | '\r' :: rest => '\n' :: unifiedBreaks rest
  | c :: rest => c :: unifiedBreaks rest
  | [] => []

end TabletopDice
