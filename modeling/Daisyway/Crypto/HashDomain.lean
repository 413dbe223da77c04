import Daisyway.Util.Bytes

/-! # Hash domains over SHAKE256

SHAKE256 is not computed here. It is a parameter: any function that reads
`n` output bytes for an input, so every fact proved over it holds whatever the
hash computes. `HashDomain` keeps a 32-byte key, and mixing data reads the XOF
over the key followed by the data.
-/

set_option autoImplicit false

namespace Daisyway

/-- An extendable-output function: `read input n` is the first `n` bytes of
output for `input`. -/
structure Xof where
  read : List UInt8 → (n : ℕ) → Bytes n

structure HashDomain where
  key : Key

namespace HashDomain
variable (shake : Xof)

def zero : HashDomain := ⟨Bytes.zeroed keyLength⟩

/-- `mix_read_into` into an output of `n` bytes: `SHAKE256(key ‖ data)`. -/
def mixRead (d : HashDomain) (data : List UInt8) (n : ℕ) : Bytes n :=
  shake.read (d.key.toList ++ data) n

def mix (d : HashDomain) (data : List UInt8) : HashDomain := ⟨d.mixRead shake data keyLength⟩

def intoKey (d : HashDomain) : Key := d.key

end HashDomain

def protocolDomain : List UInt8 :=
  byteString "Daisyway v1 by Paul Spooren & Karolin Varner, Feb-2025 with Shake256"

/-- The domain string is 68 bytes long. -/
theorem protocolDomain_length : protocolDomain.length = 68 := by decide

namespace ProtocolDomains
variable (shake : Xof)

def root : HashDomain := HashDomain.zero.mix shake protocolDomain

def deriveKey : HashDomain := (root shake).mix shake (byteString "derive key")

end ProtocolDomains

end Daisyway
