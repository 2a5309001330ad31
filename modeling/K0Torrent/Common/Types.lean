import Mathlib.Algebra.Ring.Int.Defs
import Mathlib.Algebra.Ring.Nat

/-! Types shared by every layer.

Unsigned machine integers are natural numbers, reduced explicitly wherever the
source can wrap; `int64_t` fields are integers and are cast where the source
casts them.
-/

set_option autoImplicit false

namespace K0Torrent

abbrev Bytes := List UInt8

/-- The bytes of an ASCII literal of the source. -/
def ascii (s : String) : Bytes := s.toList.map fun c => UInt8.ofNat c.toNat

/-- `std::array<uint8_t, 20>`. -/
abbrev Digest := Vector UInt8 20

structure PeerAddress where
  ip : Nat
  port : Nat
  deriving DecidableEq

/-- What leaves a call: something derived from `std::exception`, with its text, or
anything else. -/
inductive Thrown where
  | standard (what : Bytes)
  | other
  deriving DecidableEq

/-- `static_cast<uint32_t>` of a signed value. -/
def castU32 (z : Int) : Nat := (z % 2 ^ 32).toNat

/-- `static_cast<uint64_t>` of a signed value. -/
def castU64 (z : Int) : Nat := (z % 2 ^ 64).toNat

theorem castU32_lt (z : Int) : castU32 z < 2 ^ 32 := by
  unfold castU32
  omega

theorem castU64_lt (z : Int) : castU64 z < 2 ^ 64 := by
  unfold castU64
  omega

theorem castU32_of_range (z : Int) (lower : 0 ≤ z) (upper : z < 2 ^ 32) : (castU32 z : Int) = z := by
  unfold castU32
  omega

theorem castU64_of_range (z : Int) (lower : 0 ≤ z) (upper : z < 2 ^ 64) : (castU64 z : Int) = z := by
  unfold castU64
  omega

end K0Torrent
