/-!
# Text as bytes

## Where bytes stop being text

Bytes that are no text are named by the first place where the encoding is broken: a
byte that starts nothing, a byte that goes on wrongly, or an end that comes too soon.
-/

namespace Joinery
namespace Utf8

/-- What is wrong at a place in some bytes. -/
inductive FaultKind where
  | invalidStart
  | invalidContinuation
  | unexpectedEnd
deriving DecidableEq, Repr

namespace FaultKind

def text : FaultKind -> String
  | .invalidStart => "invalid start byte"
  | .invalidContinuation => "invalid continuation byte"
  | .unexpectedEnd => "unexpected end of data"

end FaultKind

structure Fault where
  kind : FaultKind
  /-- the byte at the place -/
  byte : UInt8
  position : Nat
  /-- the number of bytes that are spoilt -/
  length : Nat
deriving DecidableEq, Repr

namespace Fault

def message (f : Fault) : String :=
  let place :=
    if f.length = 1 then
      "byte 0x" ++ String.ofList
          [Nat.digitChar (f.byte.toNat / 16), Nat.digitChar (f.byte.toNat % 16)] ++
        " in position " ++ toString f.position
    else "bytes in position " ++ toString f.position ++ "-" ++ toString (f.position + f.length - 1)
  "'utf-8' codec can't decode " ++ place ++ ": " ++ f.kind.text

end Fault

def continuations? (first : UInt8) : Option (List (UInt8 × UInt8)) :=
  let any : UInt8 × UInt8 := (0x80, 0xbf)
  if first < 0x80 then some []
  else if first < 0xc2 then none
  else if first < 0xe0 then some [any]
  else if first = 0xe0 then some [(0xa0, 0xbf), any]
  else if first = 0xed then some [(0x80, 0x9f), any]
  else if first < 0xf0 then some [any, any]
  else if first = 0xf0 then some [(0x90, 0xbf), any, any]
  else if first < 0xf4 then some [any, any, any]
  else if first = 0xf4 then some [(0x80, 0x8f), any, any]
  else none

/-- The number of bytes in front that lie in the given ranges, and what breaks off, if
anything does. -/
def matching : List (UInt8 × UInt8) -> List UInt8 -> Nat × Option FaultKind
  | [], _ => (0, none)
  | _ :: _, [] => (0, some .unexpectedEnd)
  | (low, high) :: ranges, byte :: rest =>
      if low ≤ byte && byte ≤ high then
        let (count, fault) := matching ranges rest
        (count + 1, fault)
      else (0, some .invalidContinuation)

def faultFrom (position skip : Nat) : List UInt8 -> Option Fault
  | [] => none
  | byte :: rest =>
      match skip with
      | skip + 1 => faultFrom (position + 1) skip rest
      | 0 =>
          match continuations? byte with
          | none => some { kind := .invalidStart, byte := byte, position := position, length := 1 }
          | some ranges =>
              match matching ranges rest with
              | (count, none) => faultFrom (position + 1) count rest
              | (count, some kind) =>
                  some { kind := kind, byte := byte, position := position, length := count + 1 }

def decode (bytes : ByteArray) : Except Fault String :=
  match String.fromUTF8? bytes with
  | some text => .ok text
  | none =>
      .error ((faultFrom 0 0 bytes.data.toList).getD
        { kind := .unexpectedEnd, byte := 0, position := bytes.size, length := 1 })

/-!
## Blocks

A text file is read block by block.  What a block leaves unfinished is carried over to
the next one, and a fault is named by its place in what is then at hand.
-/

def blockSize : Nat :=
  8192

def goesOn (byte : UInt8) : Bool :=
  0x80 ≤ byte && byte < 0xc0

def characterStart (bytes : ByteArray) : Nat -> Nat -> Nat
  | 0, place => place
  | back + 1, place =>
      if 0 < place && (bytes.data[place]?).any goesOn then characterStart bytes back (place - 1)
      else place

def beginsHalf (bytes : ByteArray) (place : Nat) : Bool :=
  bytes.data[place]? == some 0xed && (bytes.data[place + 1]?).any fun b => 0xa0 ≤ b && b < 0xc0

def foundAt? (bytes : ByteArray) (f : Fault) : Option Nat :=
  match f.kind with
  | .invalidStart => some f.position
  | .invalidContinuation =>
      let place := f.position + (if beginsHalf bytes f.position then 2 else f.length)
      if place < bytes.size then some place else none
  | .unexpectedEnd => none

def atHand (bytes : ByteArray) (f : Fault) : Nat :=
  let found := (foundAt? bytes f).getD (bytes.size + blockSize)
  let block := blockSize * (found / blockSize)
  if f.position ≤ block then f.position else characterStart bytes 3 block

/-- What a file holds as text: all of it, or what stands before the block in which it is found to
be no text. -/
structure FileText where
  text : String
  /-- the place where it stops being text, seen from what is at hand there -/
  fault : Option Fault
deriving DecidableEq, Repr

def readFile (bytes : ByteArray) : FileText :=
  match decode bytes with
  | .ok text => { text := text, fault := none }
  | .error f =>
      let start := atHand bytes f
      { text := (decode (bytes.extract 0 start)).toOption.getD ""
        fault := some { f with position := f.position - start } }

def encode (text : String) : ByteArray :=
  text.toUTF8

theorem decode_encode (text : String) : decode (encode text) = .ok text := by
  have h : String.fromUTF8? text.toUTF8 = some text := by
    simp [String.fromUTF8?, String.toUTF8, text.isValidUTF8]
    rfl
  unfold decode encode
  rw [h]

end Utf8
end Joinery
