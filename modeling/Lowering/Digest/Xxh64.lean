/-! # The 64-bit xxHash of a byte sequence

Input of 32 bytes and more goes through four lanes in stripes of 32 bytes; what remains is mixed in
by words of eight and four bytes and then byte by byte. All arithmetic wraps. -/

namespace Lowering.Xxh64

private def prime1 : UInt64 := 0x9E3779B185EBCA87
private def prime2 : UInt64 := 0xC2B2AE3D27D4EB4F
private def prime3 : UInt64 := 0x165667B19E3779F9
private def prime4 : UInt64 := 0x85EBCA77C2B2AE63
private def prime5 : UInt64 := 0x27D4EB2F165667C5

private def rotate (x r : UInt64) : UInt64 :=
  (x <<< r) ||| (x >>> (64 - r))

/-- The little-endian number that some bytes spell. -/
def littleEndian : List UInt8 → UInt64
  | [] => 0
  | b :: bs => b.toUInt64 + 256 * littleEndian bs

private def round (acc word : UInt64) : UInt64 :=
  rotate (acc + word * prime2) 31 * prime1

/-- The four accumulators that long inputs pass through. -/
structure Lanes where
  a : UInt64
  b : UInt64
  c : UInt64
  d : UInt64

namespace Lanes

private def start (seed : UInt64) : Lanes :=
  ⟨seed + prime1 + prime2, seed + prime2, seed, seed - prime1⟩

private def absorb (lanes : Lanes) (bytes : List UInt8) : Lanes where
  a := round lanes.a (littleEndian (bytes.take 8))
  b := round lanes.b (littleEndian ((bytes.drop 8).take 8))
  c := round lanes.c (littleEndian ((bytes.drop 16).take 8))
  d := round lanes.d (littleEndian ((bytes.drop 24).take 8))

private def absorbStripes : Nat → List UInt8 → Lanes → Lanes
  | 0, _, lanes => lanes
  | n + 1, bytes, lanes => absorbStripes n (bytes.drop 32) (lanes.absorb bytes)

private def mergeLane (acc lane : UInt64) : UInt64 :=
  (acc ^^^ round 0 lane) * prime1 + prime4

private def converge (lanes : Lanes) : UInt64 :=
  let sum := rotate lanes.a 1 + rotate lanes.b 7 + rotate lanes.c 12 + rotate lanes.d 18
  mergeLane (mergeLane (mergeLane (mergeLane sum lanes.a) lanes.b) lanes.c) lanes.d

end Lanes

private def mixWords : Nat → List UInt8 → UInt64 → UInt64
  | 0, _, acc => acc
  | n + 1, bytes, acc =>
    mixWords n (bytes.drop 8)
      (rotate (acc ^^^ round 0 (littleEndian (bytes.take 8))) 27 * prime1 + prime4)

private def mixHalfWord (acc word : UInt64) : UInt64 :=
  rotate (acc ^^^ (word * prime1)) 23 * prime2 + prime3

private def mixByte (acc : UInt64) (byte : UInt8) : UInt64 :=
  rotate (acc ^^^ (byte.toUInt64 * prime5)) 11 * prime1

private def avalanche (acc : UInt64) : UInt64 :=
  let acc := (acc ^^^ (acc >>> 33)) * prime2
  let acc := (acc ^^^ (acc >>> 29)) * prime3
  acc ^^^ (acc >>> 32)

/-- The hash of `bytes` under `seed`. -/
def hash (seed : UInt64) (bytes : List UInt8) : UInt64 :=
  let size := bytes.length
  let stripes := size / 32
  let acc := if stripes = 0 then seed + prime5
    else (Lanes.absorbStripes stripes bytes (Lanes.start seed)).converge
  let rest := bytes.drop (32 * stripes)
  let acc := mixWords (rest.length / 8) rest (acc + size.toUInt64)
  let rest := rest.drop (8 * (rest.length / 8))
  let (acc, rest) :=
    if 4 ≤ rest.length then (mixHalfWord acc (littleEndian (rest.take 4)), rest.drop 4)
    else (acc, rest)
  avalanche (rest.foldl mixByte acc)

end Lowering.Xxh64
