import Mathlib.Algebra.Group.Int.Defs
import Mathlib.Algebra.Ring.Nat

/-
  `Jxta_status` (jxta_errno.h), bytes, the moduli of the unsigned types, and the heap.
  A `Heap` is the C allocator seen from outside: it serves every request up to its limit and
  returns NULL above it; no allocator serves more than `PTRDIFF_MAX` bytes.
-/

namespace JxtaC

/-- `Jxta_status`: the codes of jxta_errno.h. -/
inductive Status where
  | success
  | notimp
  | invalidArgument
  | itemNotfound
  | nomem
  | timeout
  | busy
  | violation
  | failed
  | configNotfound
  | ioerr
  | itemExists
  | notConfigured
  | unreachableDest
  | ttlExpired
  deriving Repr, DecidableEq

/-- `unsigned char`. -/
abbrev Byte := UInt8

/-- The bytes of a string literal. -/
def text (s : String) : List Byte := s.toList.map fun c => UInt8.ofNat c.toNat

/-- `SIZE_MAX + 1`. -/
def sizeMod : Nat := 2 ^ 64

/-- `UINT_MAX + 1`. -/
def uintMod : Nat := 2 ^ 32

/-- The allocator: `limit` is the largest block that `malloc`, `calloc` and `realloc` return. -/
structure Heap where
  limit : Nat
  limit_lt : limit < 2 ^ 63

end JxtaC
