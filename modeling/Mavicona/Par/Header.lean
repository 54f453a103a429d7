import Mavicona.Common.Numeral

/-!
# The header blocks of a package

Reference: `par/libpar.h`, `par/util.c`, `par/decode.c`, `par/encode.c`.

A package is a sequence of blocks of 512 bytes: for every file a header, and for a regular file its
content behind it. A header is the image of `struct par_file_header`. On a machine with pointers of
eight bytes the struct is as large as a block, and the pointers `gnu_longname` and `gnu_longlink`
are its last 16 bytes: what is read from a package there is taken for addresses.
-/

namespace Mavicona.Par

open Bytes Numeral

/-! ## The struct -/

/-- `T_BLOCKSIZE`. -/
def blockSize : ℕ := 512

/-- `t->th_buf.name`. -/
def name (b : Bytes) : Bytes := field b 0 100

/-- The text that starts with `t->th_buf.mode`. -/
def mode (b : Bytes) : Bytes := b.drop 100

/-- The text that starts with `t->th_buf.size`. -/
def size (b : Bytes) : Bytes := b.drop 124

/-- The text that starts with `t->th_buf.mtime`. -/
def mtime (b : Bytes) : Bytes := b.drop 136

/-- The text that starts with `t->th_buf.chksum`. -/
def chksum (b : Bytes) : Bytes := b.drop 148

/-- `t->th_buf.typeflag`. -/
def typeflag (b : Bytes) : UInt8 := b.getD 156 0

/-- The text that starts with `t->th_buf.linkname`. -/
def linkname (b : Bytes) : Bytes := b.drop 157

/-- `t->th_buf.magic`. -/
def magic (b : Bytes) : Bytes := field b 257 6

/-- `t->th_buf.version`. -/
def version (b : Bytes) : Bytes := field b 263 2

/-- `t->th_buf.prefix`. -/
def namePrefix (b : Bytes) : Bytes := field b 329 155

/-- `t->th_buf.gnu_longname`, an address. -/
def gnuLongname (b : Bytes) : ℕ := ofLe (field b 496 8)

/-- `t->th_buf.gnu_longlink`, an address. -/
def gnuLonglink (b : Bytes) : ℕ := ofLe (field b 504 8)

/-- `TMAGIC`. -/
def tmagic : Bytes := ascii "^*TAd&"

/-- `TVERSION`. -/
def tversion : Bytes := ascii "MY"

/-- `SYMTYPE`. -/
def symtype : UInt8 := 0x1

/-- `REGTYPE`. -/
def regtype : UInt8 := 0x2

/-- `DIRTYPE`. -/
def dirtype : UInt8 := 0x4

/-- `LNKTYPE`. -/
def lnktype : UInt8 := 0x8

/-! ## Octal numbers -/

/-- An `unsigned int` as an `int`. -/
def toInt (n : ℕ) : ℤ := if n < 2 ^ 31 then n else n - 2 ^ 32

/-- An `int` as an `unsigned long`. -/
def ofInt (i : ℤ) : ℕ := (i % 2 ^ 64).toNat

/-- `sscanf(oct, "%o")` or `"%zo"`; 0 if there is no number. The number may end outside the field. -/
def octal (s : Bytes) : ℕ := ((number 8 s.length s).map (·.1)).getD 0

/-- The `unsigned int` of `oct_to_int`. -/
def octToUInt (s : Bytes) : ℕ := octal s % 2 ^ 32

/-- `oct_to_int`. -/
def octToInt (s : Bytes) : ℤ := toInt (octToUInt s)

/-- `oct_to_size`. -/
def octToSize (s : Bytes) : ℕ := octal s

/-- `snprintf` to an array of `n` bytes. -/
def snprintf (n : ℕ) (text : Bytes) : Bytes := text.take (n - 1) ++ [0]

/-- The conversion `%*lo`. -/
def padOctal (width n : ℕ) : Bytes := List.replicate (width - (print 8 n).length) 32 ++ print 8 n

/-- `int_to_oct`. -/
def intToOct (n octlen : ℕ) : Bytes := snprintf octlen (padOctal (octlen - 2) n ++ [32])

/-- `int_to_oct_nonull`; the blank takes the place of the terminator. -/
def intToOctNonull (i : ℤ) (octlen : ℕ) : Bytes :=
  (padOctal (octlen - 1) (ofInt i)).take (octlen - 1) ++ [32]

/-! ## What a header says -/

/-- `th_get_mode` before the type is filled in. -/
def modeBits (b : Bytes) : ℕ := octToUInt (mode b)

/-- The type of a mode, `S_IFMT`. -/
def fmt (m : ℕ) : ℕ := m &&& 0o170000

/-- `S_IFREG`. -/
def ifreg : ℕ := 0o100000

/-- `S_IFDIR`. -/
def ifdir : ℕ := 0o40000

/-- `S_IFLNK`. -/
def iflnk : ℕ := 0o120000

/-- `TH_ISREG`. -/
def isReg (b : Bytes) : Bool :=
  typeflag b = regtype || (fmt (modeBits b) = ifreg && typeflag b ≠ lnktype)

/-- `TH_ISLNK`. -/
def isLnk (b : Bytes) : Bool := typeflag b = lnktype

/-- `TH_ISSYM`. -/
def isSym (b : Bytes) : Bool := typeflag b = symtype || fmt (modeBits b) = iflnk

/-- `TH_ISDIR`. -/
def isDir (b : Bytes) : Bool := typeflag b = dirtype || fmt (modeBits b) = ifdir

/-- `TH_ISLONGNAME`. -/
def isLongname (b : Bytes) : Bool := typeflag b = 76

/-- `TH_ISLONGLINK`. -/
def isLonglink (b : Bytes) : Bool := typeflag b = 75

/-- `th_get_crc`. -/
def thGetCrc (b : Bytes) : ℤ := octToInt (chksum b)

/-- `th_get_size`. -/
def thGetSize (b : Bytes) : ℕ := octToSize (size b)

/-- `th_get_mtime`. -/
def thGetMtime (b : Bytes) : ℤ := octToInt (mtime b)

/-- `th_get_mode`. -/
def thGetMode (b : Bytes) : ℕ :=
  if fmt (modeBits b) ≠ 0 then modeBits b
  else if typeflag b = symtype then modeBits b ||| iflnk
  else if typeflag b = dirtype then modeBits b ||| ifdir
  else modeBits b ||| ifreg

/-- A `signed char`. -/
def schar (b : UInt8) : ℤ := if b.toNat < 128 then b.toNat else b.toNat - 256

/-- The sum of `th_crc_calc` and `th_signed_crc_calc`, for the way a byte is read. -/
def crcSum (read : UInt8 → ℤ) (b : Bytes) : ℤ :=
  (b.map read).sum + ((field b 148 8).map fun c => 32 - read c).sum

/-- `th_crc_calc`. -/
def thCrcCalc (b : Bytes) : ℤ := crcSum (fun c => c.toNat) b

/-- `th_signed_crc_calc`. -/
def thSignedCrcCalc (b : Bytes) : ℤ := crcSum schar b

/-- `th_crc_ok`. -/
def thCrcOk (b : Bytes) : Bool := thGetCrc b = thCrcCalc b || thGetCrc b = thSignedCrcCalc b

/-- The checks of `th_read_internal` on a block whose name is not empty. -/
def headerOk (b : Bytes) : Bool :=
  (magic b).take 5 = tmagic.take 5 && version b = tversion && thCrcOk b

end Mavicona.Par
