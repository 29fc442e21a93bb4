/-!
# Hashing

Keys are hashed by way of their bytes. A scheme first makes a 64-bit number of the bytes, then
keeps the bits that its mask allows, and then shifts them up; by choice of mask and shift the keys
of a table can be made to collide in its low bits, in its high bits, or everywhere.

## Main definitions

* `KeyBytes` — the class of keys with bytes to be hashed
* `HashBase`, `HashScheme` — how bytes become a number
* `HashScheme.fnv1a` — a scheme for runs
* `TaggedKey` — keys whose equality and whose hash look at different parts
-/

namespace BulkLookup

universe u

/-- Keys with bytes to be hashed. -/
class KeyBytes (κ : Type u) where
  bytes : κ → List UInt8

/-- The eight bytes of a 64-bit number, the least significant first. -/
def littleEndian (n : UInt64) : List UInt8 :=
  (List.range 8).map fun i => (n >>> UInt64.ofNat (8 * i)).toUInt8

/-- The number that up to eight bytes spell, the least significant first. -/
def ofLittleEndian (bytes : List UInt8) : UInt64 :=
  bytes.foldr (fun b n => n <<< 8 ||| b.toUInt64) 0

instance : KeyBytes UInt64 := ⟨littleEndian⟩

instance : KeyBytes Int64 := ⟨fun i => littleEndian i.toUInt64⟩

/-- A string is hashed with a byte behind it that no string contains. -/
instance : KeyBytes String := ⟨fun s => s.toUTF8.toList ++ [0xff]⟩

/-- How bytes become a 64-bit number. -/
inductive HashBase where
  /-- The number that the bytes spell. -/
  | identity
  /-- The same number for all. -/
  | constant (value : UInt64)
  /-- How many bytes there are. -/
  | length
  /-- FNV-1a, in 64 bits. -/
  | fnv1a
deriving DecidableEq, Repr

/-- The number that a base makes of bytes. -/
def HashBase.apply : HashBase → List UInt8 → UInt64
  | .identity, bytes => ofLittleEndian bytes
  | .constant value, _ => value
  | .length, bytes => UInt64.ofNat bytes.length
  | .fnv1a, bytes =>
    bytes.foldl (fun hash b => (hash ^^^ b.toUInt64) * 0x100000001b3) 0xcbf29ce484222325

/-- How keys are hashed: a base, the bits kept of it, and how far they are shifted up. -/
structure HashScheme where
  base : HashBase
  mask : UInt64
  shift : UInt64
deriving DecidableEq, Repr

namespace HashScheme

/-- A scheme for runs: FNV-1a, of which every bit is kept. No theorem is about this scheme. -/
def fnv1a : HashScheme := ⟨.fnv1a, 0xffffffffffffffff, 0⟩

/-- The hash of a key. -/
def hash {κ : Type u} [KeyBytes κ] (s : HashScheme) (key : κ) : UInt64 :=
  (s.base.apply (KeyBytes.bytes key) &&& s.mask) <<< s.shift

end HashScheme

/-- A key that is known by its name and hashed by its digest alone; its tag counts for neither, so
that it tells which of several equal keys is stored. -/
structure TaggedKey where
  digest : UInt64
  name : String
  tag : String
deriving Repr

instance : BEq TaggedKey := ⟨fun a b => a.name == b.name⟩

instance : KeyBytes TaggedKey := ⟨fun key => littleEndian key.digest⟩

end BulkLookup
