import Mathlib.Data.List.Range
import Mathlib.Data.List.GetD
import Mavicona.Common.Bytes

/-!
# Files as byte sequences with holes, and streams on them

A `ByteFile` is the content of a regular file: a size and the byte at every offset, zero from the
size on. Writing behind the end leaves a hole of zeros, as `lseek` and `write` do. A `FileStream` adds
the file position and has the `stdio` operations: `fseek` from the start, from the current position
or from the end, `fwrite`, and `fread` with its short read at the end of the file.

The frame rules are stated for `slice`, the zero-extended read of a byte range: a write is read back
where it was made (`slice_write_self`) and is invisible on a disjoint range (`slice_write_of_apart`).
`writeAll` is a sequence of writes, so that an operation that writes several places is one term with
one frame rule (`slice_writeAll_of_apart`).
-/

/-- The content of a regular file. -/
structure ByteFile where
  size : ℕ
  byte : ℕ → UInt8
  /-- Nothing is stored from the end on, so growing the file exposes zeros. -/
  byte_of_size_le : ∀ i, size ≤ i → byte i = 0

namespace ByteFile

/-- Two byte ranges, given by start and length, do not meet. -/
def Apart (a m b n : ℕ) : Prop := a + m ≤ b ∨ b + n ≤ a

instance (a m b n : ℕ) : Decidable (Apart a m b n) := inferInstanceAs (Decidable (_ ∨ _))

/-- The empty file. -/
def empty : ByteFile where
  size := 0
  byte _ := 0
  byte_of_size_le _ _ := rfl

instance : Inhabited ByteFile := ⟨empty⟩

@[ext] theorem ext {f g : ByteFile} (hsize : f.size = g.size) (hbyte : ∀ i, f.byte i = g.byte i) :
    f = g := by
  obtain ⟨s, b, hs⟩ := f
  obtain ⟨t, c, ht⟩ := g
  obtain rfl : s = t := hsize
  obtain rfl : b = c := funext hbyte
  rfl

/-- Write `bs` at offset `off`, growing the file when the write ends behind its end. -/
def write (f : ByteFile) (off : ℕ) (bs : Bytes) : ByteFile where
  size := if bs = [] then f.size else max f.size (off + bs.length)
  byte i := if off ≤ i ∧ i < off + bs.length then bs.getD (i - off) 0 else f.byte i
  byte_of_size_le i hi := by
    have hf := f.byte_of_size_le i
    by_cases hbs : bs = []
    · rw [if_pos hbs] at hi
      rw [if_neg (by simp [hbs]), hf hi]
    · rw [if_neg hbs] at hi
      rw [if_neg (by omega), hf (by omega)]

theorem byte_write (f : ByteFile) (off : ℕ) (bs : Bytes) (i : ℕ) :
    (f.write off bs).byte i
      = if off ≤ i ∧ i < off + bs.length then bs.getD (i - off) 0 else f.byte i := rfl

theorem size_write (f : ByteFile) (off : ℕ) (bs : Bytes) :
    (f.write off bs).size = if bs = [] then f.size else max f.size (off + bs.length) := rfl

theorem size_le_size_write (f : ByteFile) (off : ℕ) (bs : Bytes) :
    f.size ≤ (f.write off bs).size := by
  rw [size_write]
  split <;> omega

theorem le_size_write (f : ByteFile) (off : ℕ) {bs : Bytes} (h : bs ≠ []) :
    off + bs.length ≤ (f.write off bs).size := by
  rw [size_write, if_neg h]
  omega

@[simp] theorem write_nil (f : ByteFile) (off : ℕ) : f.write off [] = f := by
  refine ext rfl fun i => ?_
  rw [byte_write, if_neg (by simp)]

/-- Two writes in a row are one. -/
theorem write_write_append (f : ByteFile) (off : ℕ) (bs cs : Bytes) :
    (f.write off bs).write (off + bs.length) cs = f.write off (bs ++ cs) := by
  refine ext ?_ fun i => ?_
  · simp only [size_write, List.append_eq_nil_iff, List.length_append]
    cases bs with
    | nil => simp
    | cons b bs =>
      cases cs with
      | nil => simp
      | cons c cs => simp; omega
  · simp only [byte_write, List.length_append]
    by_cases hc : off + bs.length ≤ i ∧ i < off + bs.length + cs.length
    · rw [if_pos hc, if_pos (by omega), List.getD_append_right _ _ _ _ (by omega)]
      congr 1
      omega
    · rw [if_neg hc]
      by_cases hb : off ≤ i ∧ i < off + bs.length
      · rw [if_pos hb, if_pos (by omega), List.getD_append _ _ _ _ (by omega)]
      · rw [if_neg hb, if_neg (by omega)]

/-! ## Slices -/

/-- The `n` bytes from offset `off`, zero where the file has none. -/
def slice (f : ByteFile) (off n : ℕ) : Bytes := (List.range n).map fun i => f.byte (off + i)

@[simp] theorem length_slice (f : ByteFile) (off n : ℕ) : (f.slice off n).length = n := by
  simp [slice]

/-- A range that was just written holds what was written. -/
theorem slice_write_self (f : ByteFile) (off : ℕ) (bs : Bytes) {n : ℕ} (hn : bs.length = n) :
    (f.write off bs).slice off n = bs := by
  subst hn
  refine List.ext_getElem (by simp) fun i h₁ h₂ => ?_
  simp only [slice, List.getElem_map, List.getElem_range, byte_write]
  rw [if_pos (by omega), Nat.add_sub_cancel_left, List.getD_eq_getElem _ _ h₂]

/-- A write is invisible on a disjoint range. -/
theorem slice_write_of_apart (f : ByteFile) {off a n : ℕ} {bs : Bytes}
    (h : Apart a n off bs.length) : (f.write off bs).slice a n = f.slice a n := by
  apply List.map_congr_left
  intro i hi
  rw [List.mem_range] at hi
  rw [byte_write, if_neg]
  rcases h with h | h <;> omega

/-- A slice is cut out of any slice that contains it. -/
theorem slice_slice (f : ByteFile) {off n k m : ℕ} (h : k + m ≤ n) :
    Bytes.field (f.slice off n) k m = f.slice (off + k) m := by
  refine List.ext_getElem ?_ fun i h₁ h₂ => ?_
  · simp [Bytes.field]
    omega
  · simp [Bytes.field, slice, Nat.add_assoc]

/-- Overwriting a range by what it already holds changes nothing. -/
theorem write_slice_self (f : ByteFile) {off : ℕ} {bs : Bytes} (hin : off + bs.length ≤ f.size)
    (h : f.slice off bs.length = bs) : f.write off bs = f := by
  refine ext ?_ fun i => ?_
  · rw [size_write]
    split <;> omega
  · rw [byte_write]
    split
    · rename_i hi
      have hlt : i - off < bs.length := by omega
      have hget : (f.slice off bs.length).getD (i - off) 0 = f.byte i := by
        rw [List.getD_eq_getElem _ _ (by simpa using hlt)]
        simp only [slice, List.getElem_map, List.getElem_range]
        rw [Nat.add_sub_cancel' hi.1]
      rw [← hget, h]
    · rfl

/-! ## Sequences of writes -/

/-- Several writes, first to last. -/
def writeAll (f : ByteFile) (ws : List (ℕ × Bytes)) : ByteFile :=
  ws.foldl (fun f w => f.write w.1 w.2) f

@[simp] theorem writeAll_nil (f : ByteFile) : f.writeAll [] = f := rfl

@[simp] theorem writeAll_cons (f : ByteFile) (w : ℕ × Bytes) (ws : List (ℕ × Bytes)) :
    f.writeAll (w :: ws) = (f.write w.1 w.2).writeAll ws := rfl

theorem writeAll_append (f : ByteFile) (ws vs : List (ℕ × Bytes)) :
    f.writeAll (ws ++ vs) = (f.writeAll ws).writeAll vs := List.foldl_append

/-- Writes that all miss a range leave it alone. -/
theorem slice_writeAll_of_apart (f : ByteFile) {a n : ℕ} {ws : List (ℕ × Bytes)}
    (h : ∀ w ∈ ws, Apart a n w.1 w.2.length) : (f.writeAll ws).slice a n = f.slice a n := by
  induction ws generalizing f with
  | nil => rfl
  | cons w ws ih =>
    rw [writeAll_cons, ih _ fun v hv => h v (List.mem_cons_of_mem _ hv),
      slice_write_of_apart _ (h w List.mem_cons_self)]

/-- A write that no later write meets is read back at the end. -/
theorem slice_writeAll_of_mem (f : ByteFile) (ws : List (ℕ × Bytes)) {vs : List (ℕ × Bytes)}
    {off n : ℕ} {bs : Bytes} (hn : bs.length = n) (h : ∀ v ∈ vs, Apart off n v.1 v.2.length) :
    (f.writeAll (ws ++ (off, bs) :: vs)).slice off n = bs := by
  rw [writeAll_append, writeAll_cons, slice_writeAll_of_apart _ h, slice_write_self _ _ _ hn]

theorem size_le_size_writeAll (f : ByteFile) (ws : List (ℕ × Bytes)) :
    f.size ≤ (f.writeAll ws).size := by
  induction ws generalizing f with
  | nil => exact le_rfl
  | cons w ws ih => exact (size_le_size_write f w.1 w.2).trans (ih _)

/-- After a sequence of writes the file reaches behind each of them. -/
theorem le_size_writeAll (f : ByteFile) {ws : List (ℕ × Bytes)} {w : ℕ × Bytes} (hw : w ∈ ws)
    (hne : w.2 ≠ []) : w.1 + w.2.length ≤ (f.writeAll ws).size := by
  induction ws generalizing f with
  | nil => exact absurd hw List.not_mem_nil
  | cons v ws ih =>
    rcases List.mem_cons.mp hw with rfl | hw
    · exact (le_size_write f w.1 hne).trans (size_le_size_writeAll _ ws)
    · exact ih _ hw

end ByteFile

/-! ## Streams -/

/-- An open `FILE *`: the file and the position of the next read or write. -/
structure FileStream where
  file : ByteFile
  pos : ℕ

namespace FileStream

/-- A stream at the start of `f`. -/
def ofFile (f : ByteFile) : FileStream := ⟨f, 0⟩

/-- `fseek(f, off, SEEK_SET)`. -/
def seekSet (s : FileStream) (off : ℕ) : FileStream := ⟨s.file, off⟩

/-- `fseek(f, off, SEEK_CUR)`. -/
def seekCur (s : FileStream) (off : ℕ) : FileStream := ⟨s.file, s.pos + off⟩

/-- `fseek(f, -off, SEEK_CUR)`, which fails and moves nothing in front of the start. -/
def seekBack (s : FileStream) (off : ℕ) : FileStream :=
  if off ≤ s.pos then ⟨s.file, s.pos - off⟩ else s

/-- `fseek(f, off, SEEK_END)`. -/
def seekEnd (s : FileStream) (off : ℕ) : FileStream := ⟨s.file, s.file.size + off⟩

/-- `fwrite` of the bytes `bs`. -/
def fwrite (s : FileStream) (bs : Bytes) : FileStream := ⟨s.file.write s.pos bs, s.pos + bs.length⟩

/-- How many of `n` requested bytes `fread` delivers. -/
def available (s : FileStream) (n : ℕ) : ℕ := min n (s.file.size - s.pos)

/-- `fread` into the buffer `buf`: the bytes read replace the front of the buffer, the rest of it
keeps what it had. -/
def fread (s : FileStream) (buf : Bytes) : Bytes × FileStream :=
  let k := s.available buf.length
  (s.file.slice s.pos k ++ buf.drop k, ⟨s.file, s.pos + k⟩)

@[simp] theorem ofFile_file (f : ByteFile) : (ofFile f).file = f := rfl

@[simp] theorem ofFile_pos (f : ByteFile) : (ofFile f).pos = 0 := rfl

@[simp] theorem seekSet_file (s : FileStream) (off : ℕ) : (s.seekSet off).file = s.file := rfl

@[simp] theorem seekSet_pos (s : FileStream) (off : ℕ) : (s.seekSet off).pos = off := rfl

@[simp] theorem seekCur_file (s : FileStream) (off : ℕ) : (s.seekCur off).file = s.file := rfl

@[simp] theorem seekCur_pos (s : FileStream) (off : ℕ) : (s.seekCur off).pos = s.pos + off := rfl

@[simp] theorem seekEnd_file (s : FileStream) (off : ℕ) : (s.seekEnd off).file = s.file := rfl

@[simp] theorem seekEnd_pos (s : FileStream) (off : ℕ) :
    (s.seekEnd off).pos = s.file.size + off := rfl

@[simp] theorem fwrite_file (s : FileStream) (bs : Bytes) :
    (s.fwrite bs).file = s.file.write s.pos bs := rfl

@[simp] theorem fwrite_pos (s : FileStream) (bs : Bytes) :
    (s.fwrite bs).pos = s.pos + bs.length := rfl

@[simp] theorem fread_file (s : FileStream) (buf : Bytes) : (s.fread buf).2.file = s.file := rfl

/-- Reading into a zeroed buffer gives the zero-extended slice, also across the end of the file. -/
theorem fread_zeros (s : FileStream) (n : ℕ) :
    (s.fread (List.replicate n 0)).1 = s.file.slice s.pos n := by
  simp only [fread, available, List.length_replicate, List.drop_replicate]
  refine List.ext_getElem (by simp) fun i h₁ h₂ => ?_
  rw [List.getElem_append]
  split
  · simp [ByteFile.slice]
  · rename_i hi
    simp only [ByteFile.length_slice] at hi h₂
    simp only [List.getElem_replicate, ByteFile.slice, List.getElem_map, List.getElem_range]
    exact (s.file.byte_of_size_le _ (by omega)).symm

/-- A read that stays inside the file fills the buffer and advances by its length. -/
theorem fread_eq {s : FileStream} {buf : Bytes} (h : s.pos + buf.length ≤ s.file.size) :
    s.fread buf = (s.file.slice s.pos buf.length, ⟨s.file, s.pos + buf.length⟩) := by
  have hk : s.available buf.length = buf.length := by
    unfold available
    omega
  simp [fread, hk]

end FileStream
