import SwapCalldata.Bytes
import SwapCalldata.Error

/-!
A growing buffer of primitives in network order: unsigned integers padded to their width, addresses
of twenty bytes, one byte for a Boolean, and raw bytes as they are. An append that is refused leaves
the buffer as it was.
-/
namespace SwapCalldata

/-- The widths of unsigned integers. -/
inductive Width where
  | w8 | w16 | w24 | w32 | w64 | w128 | w256
deriving DecidableEq

namespace Width

def all : List Width := [w8, w16, w24, w32, w64, w128, w256]

def bytes : Width → Nat
  | w8 => 1
  | w16 => 2
  | w24 => 3
  | w32 => 4
  | w64 => 8
  | w128 => 16
  | w256 => 32

def bits (width : Width) : Nat := 8 * width.bytes

end Width

/-- A primitive to append. -/
inductive Primitive where
  | uint (width : Width) (value : Nat)
  | address (bytes : List UInt8)
  | addressText (text : String)
  | bool (value : Bool)
  | raw (bytes : List UInt8)
deriving DecidableEq

namespace Primitive

/-- Reads an address after at most one marker, blank characters around it ignored. -/
def readAddress? (text : String) : Option Address :=
  Address.ofDigits? (Address.dropMarker (Text.trim text.toList))

end Primitive

structure Buffer where
  bytes : List UInt8
deriving DecidableEq

namespace Buffer

def empty : Buffer := ⟨[]⟩

/-- What writes to a buffer in place. It can be refused, and then leaves what it wrote before. -/
abbrev Operation := ExceptT EncodingError (StateM Buffer) Unit

/-- Appends bytes as they are. -/
def extend (bytes : List UInt8) : Operation := modify fun buffer => ⟨buffer.bytes ++ bytes⟩

/-- Appends a natural that fits its width, with zeros in front of its bytes. -/
def writeUint (width : Width) (value : Nat) : Operation := do
  if width.bits < Bytes.bitLength value then
    throw (.range width.bits value)
  let bytes := Bytes.minimal value
  extend (List.replicate (width.bytes - bytes.length) 0)
  extend bytes

/-- Appends twenty bytes. -/
def writeAddress (bytes : List UInt8) : Operation := do
  if bytes.length ≠ 20 then
    throw (.invalidAddress (Hex.marked bytes))
  extend bytes

def write : Primitive → Operation
  | .uint width value => writeUint width value
  | .address bytes => writeAddress bytes
  | .addressText text =>
    match Primitive.readAddress? text with
    | some address => writeAddress address.bytes
    | none => throw (.invalidAddress text)
  | .bool value => extend [if value then 1 else 0]
  | .raw bytes => extend bytes

/-- The outcome of an append: the buffer with the primitive in it, or why it is refused. -/
def append (buffer : Buffer) (primitive : Primitive) : Except EncodingError Buffer :=
  match (write primitive).run.run buffer with
  | (.ok _, after) => .ok after
  | (.error error, _) => .error error

/-- The buffer that an append leaves, refused or not. -/
def step (buffer : Buffer) (primitive : Primitive) : Buffer := ((write primitive).run.run buffer).2

/-- The buffer after a run of appends, which goes on after a refused one. -/
def run (buffer : Buffer) (primitives : List Primitive) : Buffer := primitives.foldl step buffer

/-- The canonical text: lowercase hexadecimal digits after `0x`. -/
def text (buffer : Buffer) : String := Hex.marked buffer.bytes

end Buffer

end SwapCalldata
