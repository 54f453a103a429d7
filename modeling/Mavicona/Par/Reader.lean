import Mavicona.Par.Header
import Mavicona.Par.Names

/-!
# Reading a package

Reference: `par/block.c`, `par/decode.c`, `par/extract.c`, `par/libpar.h`.

`th_read` reads the next header into `th_buf`, whatever stands there: the block is an image of the
struct, its two pointers included. The call before it frees the pointers it finds in `th_buf`. A
header of type `K` or `L` announces a long name in the blocks behind it. It is read to a new buffer
and the pointer is stored in `th_buf`, and then the header of the file itself is read over it.
-/

namespace Mavicona.Par

open Bytes

/-! ## The handle -/

/-- What the calls of `par_block_read` give. One that gives less than a block is a short read,
and there is nothing after the end. -/
abbrev Stream := List Bytes

/-- `PAR`, opened for reading, and the buffers that `malloc` has given out. -/
structure PAR where
  stream : Stream
  thBuf : Bytes
  heap : List ℕ
deriving DecidableEq

/-- A handle on a package, cleared by `calloc`. -/
def parOpen (stream : Stream) : PAR := ⟨stream, List.replicate blockSize 0, []⟩

/-- `free` of a pointer that may be null; it fails on one that `malloc` has not given out. -/
def free (p : ℕ) (heap : List ℕ) : Option (List ℕ) :=
  if p = 0 then some heap else if p ∈ heap then some (heap.erase p) else none

/-! ## Headers -/

/-- `th_read_internal`, from `num_zero_blocks` on: the value it returns, the rest of the package and
`th_buf`. -/
def thReadInternal (ignoreEot : Bool) : ℕ → Stream → Bytes → ℤ × Stream × Bytes
  | _, [], buf => (0, [], buf)
  | zeros, block :: stream, buf =>
    if block.length ≠ blockSize then (block.length, stream, block ++ buf.drop block.length)
    else if (name block).head? = some 0 then
      if !ignoreEot && zeros + 1 ≥ 2 then (0, stream, block)
      else thReadInternal ignoreEot (zeros + 1) stream block
    else if headerOk block then (blockSize, stream, block)
    else (-2, stream, block)

/-- The number of blocks of a text or file of this size. -/
def blockCount (sz : ℕ) : ℕ := sz / blockSize + if sz % blockSize ≠ 0 then 1 else 0

/-- Read a number of blocks to a buffer of `malloc`. -/
def readBlocks : ℕ → Stream → Option Stream
  | 0, stream => some stream
  | _ + 1, [] => none
  | n + 1, block :: stream => if block.length = blockSize then readBlocks n stream else none

section Read

variable (malloc : List ℕ → ℕ → Option ℕ) (ignoreEot : Bool)

/-- The check for a long name, or for a long name of a link. The pointer to the text is stored by
`setPointer`, into the header that is read over. `none` stands for the value -1. -/
def thReadLong (isLong : Bytes → Bool) (setPointer : ℕ → Bytes → Bytes) (t : PAR) : Option PAR :=
  let blocks := blockCount (thGetSize t.thBuf)
  if !isLong t.thBuf then some t
  else if blocks > (2 ^ 64 - 1) / blockSize then none
  else do
    let p ← malloc t.heap (blocks * blockSize)
    let stream ← readBlocks blocks t.stream
    let (i, stream, buf) := thReadInternal ignoreEot 0 stream (setPointer p t.thBuf)
    if i = blockSize then some ⟨stream, buf, p :: t.heap⟩ else none

/-- Store an address at `gnu_longlink`. -/
def setLonglink (p : ℕ) (b : Bytes) : Bytes := b.take 504 ++ le 8 p

/-- Store an address at `gnu_longname`. -/
def setLongname (p : ℕ) (b : Bytes) : Bytes := b.take 496 ++ (le 8 p ++ b.drop 504)

/-- `th_read`, behind the calls of `free`. The handle is left out after a failure, it is not used
again. -/
def thReadHeader (t : PAR) : ℤ × Option PAR :=
  let (i, stream, buf) := thReadInternal ignoreEot 0 t.stream (List.replicate blockSize 0)
  if i = 0 then (1, none)
  else if i ≠ blockSize then (-1, none)
  else
    match (thReadLong malloc ignoreEot isLonglink setLonglink { t with stream := stream, thBuf := buf }).bind
      (thReadLong malloc ignoreEot isLongname setLongname) with
    | none => (-1, none)
    | some t => (0, some t)

/-- `th_read`; `none` if it frees something that is no buffer. -/
def thRead (t : PAR) : Option (ℤ × Option PAR) := do
  let heap ← free (gnuLongname t.thBuf) t.heap
  let heap ← free (gnuLonglink t.thBuf) heap
  some (thReadHeader malloc ignoreEot { t with heap := heap })

end Read

/-! ## Names -/

section Names

variable (memory : ℕ → Bytes)

/-- `th_get_pathname`, where `memory` has the text at an address. -/
def thGetPathname (b : Bytes) : Bytes :=
  if gnuLongname b ≠ 0 then saferNameSuffix (memory (gnuLongname b))
  else if (magic b).take 5 ≠ tmagic.take 5 ∨ (namePrefix b).head? = some 0 then
    saferNameSuffix (cstr (name b))
  else saferNameSuffix (cstr (namePrefix b) ++ 47 :: cstr (name b))

/-- `th_get_linkname`; the text ends at a zero, which may stand behind the field. -/
def thGetLinkname (b : Bytes) : Bytes :=
  if gnuLonglink b ≠ 0 then memory (gnuLonglink b) else cstr (linkname b)

end Names

/-! ## Content -/

/-- A `size_t` as a `ssize_t`. -/
def toSSize (n : ℕ) : ℤ := if n < 2 ^ 63 then n else n - 2 ^ 64

/-- The loop of `par_extract_regfile` and `par_skip_regfile`: `i` bytes are read block by block
and given to `write`. The result is whether it succeeds, the rest of the package and what `write`
has made. -/
def readContent {σ : Type} (write : Bytes → σ → Bool × σ) : Stream → ℤ → σ → Bool × Stream × σ
  | [], i, s => (decide (i ≤ 0), [], s)
  | block :: stream, i, s =>
    if i ≤ 0 then (true, block :: stream, s)
    else if block.length ≠ blockSize then (false, stream, s)
    else
      let (ok, s) := write (block.take (if i > blockSize then blockSize else i.toNat)) s
      if ok then readContent write stream (i - blockSize) s else (false, stream, s)

/-- `par_skip_regfile`: whether it succeeds, and the handle. -/
def parSkipRegfile (t : PAR) : Bool × PAR :=
  if !isReg t.thBuf then (false, t)
  else
    let r := readContent (fun _ s => (true, s)) t.stream (toSSize (thGetSize t.thBuf)) ()
    (r.1, { t with stream := r.2.1 })

end Mavicona.Par
