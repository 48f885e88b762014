import Astock.Lib.Stream

/-!
# Frames

`crates/protocol/src/lib.rs`: a message is sent as the length of its JSON text, in four
little-endian bytes, and then the text. Encoding and decoding JSON are parameters.
-/

namespace Astock

open Stream

def maxFrameBytes : ℕ := 8 * 1024 * 1024

inductive FrameError
  /-- An I/O error; a body that ends too early is the one that a stream of bytes can give. -/
  | unexpectedEof
  | empty
  | oversized (actual maximum : ℕ)
  | json (message : String)
  deriving DecidableEq, Repr

variable {V : Type}

def readFrame (decode : List UInt8 → Except String V) (reader : Source UInt8) :
    Except FrameError (Option V) × Source UInt8 :=
  match readExact 4 reader with
  | (none, reader) => (.ok none, reader)
  | (some header, reader) =>
    let length := ofLeBytes header
    if length = 0 then (.error .empty, reader)
    else if maxFrameBytes < length then (.error (.oversized length maxFrameBytes), reader)
    else
      match readExact length reader with
      | (none, reader) => (.error .unexpectedEof, reader)
      | (some body, reader) =>
        match decode body with
        | .error message => (.error (.json message), reader)
        | .ok value => (.ok (some value), reader)

/-- What `write_frame` writes. -/
def writeFrame (encode : V → List UInt8) (value : V) : Except FrameError (List UInt8) :=
  let body := encode value
  if body.isEmpty then .error .empty
  else if maxFrameBytes < body.length then .error (.oversized body.length maxFrameBytes)
  else .ok (leBytes 4 body.length ++ body)

/-- The results of reading `n` times. -/
def readFrames (decode : List UInt8 → Except String V) :
    ℕ → Source UInt8 → List (Except FrameError (Option V))
  | 0, _ => []
  | n + 1, reader =>
    let (result, reader) := readFrame decode reader
    result :: readFrames decode n reader

end Astock
