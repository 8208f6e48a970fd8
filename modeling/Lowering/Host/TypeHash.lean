import Lowering.Digest.Xxh64
import Lowering.Host.HostType

/-! # Hashes of erased names

Two types with one erased name have one hash, whatever their type arguments. -/

namespace Lowering

structure TypeHash where
  value : UInt64
deriving DecidableEq, Repr, Inhabited

namespace TypeHash

/-- The xxHash of the UTF-8 bytes of a name, masked by a fixed word. -/
def ofName (name : String) : TypeHash :=
  ⟨0x2fac10b63a6cc57c ^^^ Xxh64.hash 0 name.toUTF8.toList⟩

/-- Sixteen hexadecimal digits. -/
def hex (h : TypeHash) : String :=
  let digits := Nat.toDigits 16 h.value.toNat
  String.ofList (List.replicate (16 - digits.length) '0' ++ digits)

def describe (h : TypeHash) : String :=
  "TypeHash(0x" ++ h.hex ++ ")"

end TypeHash

def HostType.hash (t : HostType) : TypeHash :=
  .ofName t.qualifiedName

end Lowering
