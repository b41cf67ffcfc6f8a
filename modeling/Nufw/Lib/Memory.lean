import Mathlib.Tactic.Common
import Mathlib.Algebra.Order.Ring.Int

/-!
# Byte memory

Memory seen from a pointer, for parsers that read C structures in place. A pointer into a
buffer is the function giving the byte at each offset; the length the parser checks against is
carried separately, as it is in C, so that a read past the announced length is an ordinary
read of whatever lies there rather than a failure of the model.

Fields of a wire format are read in network order (`be16`, `be32`) or in the order of the host
(`host16`, `host32`). `swap16` is the rewriting of a 16-bit field in place from network order to
host order: on a big-endian host it does nothing.
-/

/-- Byte order of the host. -/
inductive ByteOrder where
  | little
  | big
  deriving DecidableEq, Repr

/-- Memory seen from a pointer: the byte at each offset. -/
abbrev Memory := ℕ → UInt8

namespace Memory

/-- The memory that holds some bytes, and zeros behind them. -/
def ofBytes (bs : List UInt8) : Memory := fun i ↦ bs.getD i 0

/-- The same memory seen from `k` bytes further. -/
def drop (m : Memory) (k : ℕ) : Memory := fun i ↦ m (k + i)

/-- The 16-bit field at `o`, in network order. -/
def be16 (m : Memory) (o : ℕ) : UInt16 :=
  (m o).toUInt16 * 256 + (m (o + 1)).toUInt16

/-- The 32-bit field at `o`, in network order. -/
def be32 (m : Memory) (o : ℕ) : UInt32 :=
  (m.be16 o).toUInt32 * 65536 + (m.be16 (o + 2)).toUInt32

/-- The 16-bit field at `o`, in the order of the host. -/
def host16 (e : ByteOrder) (m : Memory) (o : ℕ) : UInt16 :=
  match e with
  | .big => m.be16 o
  | .little => (m (o + 1)).toUInt16 * 256 + (m o).toUInt16

/-- The 32-bit field at `o`, in the order of the host. -/
def host32 (e : ByteOrder) (m : Memory) (o : ℕ) : UInt32 :=
  match e with
  | .big => m.be32 o
  | .little => be32 (fun i ↦ m (o + 3 - i)) 0

/-- The `n` bytes starting at `o`. -/
def bytes (m : Memory) (o n : ℕ) : Vector UInt8 n := Vector.ofFn fun i ↦ m (o + i)

/-- `memcpy` of some bytes to `o`. -/
def write (m : Memory) (o : ℕ) (bs : List UInt8) : Memory :=
  fun i ↦ if o ≤ i then bs.getD (i - o) (m i) else m i

/-- Rewrite the 16-bit field at `o` in place from network order to host order. -/
def swap16 (e : ByteOrder) (m : Memory) (o : ℕ) : Memory :=
  match e with
  | .big => m
  | .little => fun i ↦ if i = o then m (o + 1) else if i = o + 1 then m o else m i

end Memory
