import Mathlib.Logic.Function.Iterate
import Mavicona.Common.ByteFile

/-!
# Large-file pages

Reference: `cynder/filepage.h`, `cynder/filepage.cpp`.

A page is one file: a 28-byte header, a first index block of `grow_items` 48-byte entries with a
4-byte pointer to the next block behind it, and then data. Further index blocks are allocated in the
data area, one every `grow_items` items, and chained through the pointers. All structs have their
x86-64 layout; padding bytes, which no function reads, are zero.

Every member function that touches the open file starts with an `fseek` from the start of the file,
so the file position is not part of the state kept between calls. `fopen` is assumed to succeed, so
`isOpen()` holds for every page.
-/

namespace Mavicona.Cynder

open Bytes

/-- A file name. -/
abbrev Path := List Char

/-! ## Structs on disk -/

/-- `PAGE_MAGIC` with its terminator, as `strcpy` stores it. -/
def pageMagic : Bytes := ascii "LFBX01E" ++ [0]

def pageFlagNil : ℕ := 0x0
def pageFlagFull : ℕ := 0x10
def indexFlagNil : ℕ := 0x0
def indexFlagDel : ℕ := 0x1
def indexNextEmpty : ℕ := 0x11

/-- `sizeof(pageHeader)`. -/
def sizeofPageHeader : ℕ := 28

/-- `sizeof(pageIndexItem)`. -/
def sizeofPageIndexItem : ℕ := 48

/-- `sizeof(unsigned int)`. -/
def sizeofUInt : ℕ := 4

/-- `struct pageHeader`. -/
structure PageHeader where
  magic : Bytes
  elements : ℕ
  firstFree : ℕ
  growItems : ℕ
  itemSize : ℕ
  flags : ℕ

/-- The memory image of a header: two padding bytes follow the 16-bit `elements`. -/
def PageHeader.encode (h : PageHeader) : Bytes :=
  padTo 8 h.magic ++ (le 2 h.elements ++ (le 2 0 ++ (le 4 h.firstFree ++ (le 4 h.growItems ++
    (le 4 h.itemSize ++ le 4 h.flags)))))

def PageHeader.decode (bs : Bytes) : PageHeader where
  magic := field bs 0 8
  elements := ofLe (field bs 8 2)
  firstFree := ofLe (field bs 12 4)
  growItems := ofLe (field bs 16 4)
  itemSize := ofLe (field bs 20 4)
  flags := ofLe (field bs 24 4)

/-- `struct pageIndexItem`. -/
structure PageIndexItem where
  name : Bytes
  size : ℕ
  item : ℕ
  flags : ℕ

/-- The memory image of an index item: three padding bytes follow the 8-bit `flags`. -/
def PageIndexItem.encode (i : PageIndexItem) : Bytes :=
  padTo 36 i.name ++ (le 4 i.size ++ (le 4 i.item ++ (le 1 i.flags ++ le 3 0)))

def PageIndexItem.decode (bs : Bytes) : PageIndexItem where
  name := field bs 0 36
  size := ofLe (field bs 36 4)
  item := ofLe (field bs 40 4)
  flags := ofLe (field bs 44 1)

/-! ## The page object -/

/-- `ITEM_SIZE`. -/
def defaultItemSize : ℕ := 8 * 1024 * 1024

/-- `DEFAULT_PAGE_ALLOC`: the capacity of an index block in items. -/
def defaultPageAlloc : ℕ := 16

/-- The members of a page the constructor leaves uninitialised. -/
structure Uninit where
  elements : ℕ
  firstFree : ℕ
  grow : ℕ
  lastIndex : ℕ
  itemSize : ℕ

/-- A page object. `file` is the content of the file behind `m_pFile`, `path` is `m_File`, and
`contents` maps a name to the offset and the size of its data. -/
structure Filepage where
  path : Path
  file : ByteFile
  elements : ℕ
  firstFree : ℕ
  grow : ℕ
  lastIndex : ℕ
  itemSize : ℕ
  contents : Bytes → Option (ℕ × ℕ)
  pageFull : Bool

namespace Filepage

/-- `Filepage::create`. -/
def create (path : Path) (alloc size : ℕ) : Filepage :=
  let header : PageHeader :=
    { magic := pageMagic
      elements := 0
      firstFree := u32 (sizeofPageHeader + sizeofPageIndexItem * alloc + sizeofUInt)
      growItems := alloc
      itemSize := size
      flags := pageFlagNil }
  let s := (FileStream.ofFile ByteFile.empty).fwrite header.encode
  -- the pointer to the next index
  let s := (s.seekCur (sizeofPageIndexItem * alloc)).fwrite (le 4 indexNextEmpty)
  -- allocate the page on disk
  let s := (s.seekEnd (u32 (size * alloc))).fwrite [0]
  { path := path
    file := s.file
    elements := header.elements
    firstFree := header.firstFree
    grow := header.growItems
    lastIndex := sizeofPageHeader
    itemSize := header.itemSize
    contents := fun _ => none
    pageFull := false }

/-- `Filepage::create` with the default parameters. -/
def createDefault (path : Path) : Filepage := create path defaultPageAlloc defaultItemSize

/-- The header `Filepage::writeHeader` puts together. -/
def header (p : Filepage) : PageHeader where
  magic := pageMagic
  elements := p.elements
  firstFree := p.firstFree
  growItems := p.grow
  itemSize := p.itemSize
  flags := if p.pageFull then pageFlagFull else pageFlagNil

/-- `Filepage::writeHeader`. -/
def writeHeader (p : Filepage) : Filepage :=
  { p with file := (((FileStream.ofFile p.file).seekSet 0).fwrite p.header.encode).file }

/-- `Filepage::growPage`. The last seek is relative to the position behind the previous block's
pointer, and its offset is computed in 32 bits. -/
def growPage (p : Filepage) : Filepage :=
  let newIndex := p.firstFree
  let firstFree := u32 (p.firstFree + sizeofPageIndexItem * p.grow)
  -- the pointer to the next index
  let s := ((FileStream.ofFile p.file).seekSet firstFree).fwrite (le 4 indexNextEmpty)
  let firstFree := u32 (firstFree + sizeofUInt)
  -- set the previous pointer to this index
  let s := (s.seekSet (p.lastIndex + sizeofPageIndexItem * p.grow)).fwrite (le 4 newIndex)
  -- allocate the page on disk
  let s := (s.seekCur (u32 (firstFree + p.itemSize * p.grow))).fwrite [0]
  writeHeader { p with file := s.file, firstFree := firstFree, lastIndex := newIndex }

/-- `UINT_MAX`. -/
def uintMax : ℕ := 2 ^ 32 - 1

/-- `Filepage::shouldClose`: the sum is an `unsigned int`. -/
def shouldClose (p : Filepage) : Filepage :=
  if u32 (p.firstFree + p.itemSize) > uintMax then { p with pageFull := true } else p

/-- The grow test of `Filepage::storeItem`. -/
def lastIndexFull (p : Filepage) : Bool := p.elements % p.grow == 0 && p.elements > 1

/-- The index item `Filepage::storeItem` fills in. `strcpy` stops at the first NUL, and what it puts
behind the 36 bytes of the name is overwritten by the members that follow. -/
def newItem (p : Filepage) (name data : Bytes) : PageIndexItem where
  name := cstr name
  size := u32 data.length
  item := p.firstFree
  flags := indexFlagNil

/-- The part of `Filepage::storeItem` behind the grow test. -/
def appendItem (p : Filepage) (name data : Bytes) : Filepage :=
  let item := p.newItem name data
  -- write metadata to index
  let namepos := p.lastIndex + sizeofPageIndexItem * (p.elements % p.grow)
  let s := ((FileStream.ofFile p.file).seekSet namepos).fwrite item.encode
  -- write data
  let s := (s.seekSet p.firstFree).fwrite data
  writeHeader (shouldClose
    { p with
      file := s.file
      firstFree := u32 (p.firstFree + data.length)
      contents := Function.update p.contents name (some (item.item, item.size))
      elements := u16 (p.elements + 1) })

/-- `Filepage::storeItem`. -/
def storeItem (p : Filepage) (name data : Bytes) : Filepage :=
  if name.length > 40 then p
  else (if p.lastIndexFull then p.growPage else p).appendItem name data

/-- `Filepage::retrieveItem`: `none` is the null pointer. -/
def retrieveItem (p : Filepage) (name : Bytes) : Option Bytes :=
  match p.contents name with
  | none => none
  | some (offset, size) =>
    some (((FileStream.ofFile p.file).seekSet offset).fread (List.replicate size 0)).1

/-- `Filepage::~Filepage`: the file left on disk. -/
def close (p : Filepage) : ByteFile := p.writeHeader.file

/-! ## Opening a page -/

/-- The state of the loop of `Filepage::open`. -/
structure OpenState where
  stream : FileStream
  lastIndex : ℕ
  contents : Bytes → Option (ℕ × ℕ)

/-- The block change at the start of an iteration: at the end of an index block the pointer behind it
is read and followed. -/
def OpenState.nextIndex (st : OpenState) (grow : ℕ) : OpenState :=
  if st.lastIndex + sizeofPageIndexItem * grow = u32 st.stream.pos then
    let (buf, s) := st.stream.fread (le 4 st.lastIndex)
    { st with stream := s.seekSet (ofLe buf), lastIndex := ofLe buf }
  else st

/-- The rest of an iteration: read one index item and enter it unless it is deleted. -/
def OpenState.readItem (st : OpenState) : OpenState :=
  let (buf, s) := st.stream.fread (List.replicate sizeofPageIndexItem 0)
  let item := PageIndexItem.decode buf
  if item.flags &&& indexFlagDel ≠ 0 then { st with stream := s }
  else
    { st with
      stream := s
      contents := Function.update st.contents item.name (some (item.item, item.size)) }

/-- One iteration of the loop of `Filepage::open`. -/
def OpenState.next (grow : ℕ) (st : OpenState) : OpenState := (st.nextIndex grow).readItem

/-- `Filepage::open` on an existing file. On a magic error the members stay uninitialised. -/
def openPage (raw : Uninit) (path : Path) (f : ByteFile) : Filepage :=
  let (buf, s) := (FileStream.ofFile f).fread (List.replicate sizeofPageHeader 0)
  let header := PageHeader.decode buf
  if header.magic ≠ pageMagic then
    { path := path
      file := f
      elements := raw.elements
      firstFree := raw.firstFree
      grow := raw.grow
      lastIndex := raw.lastIndex
      itemSize := raw.itemSize
      contents := fun _ => none
      pageFull := false }
  else
    let st := (OpenState.next header.growItems)^[header.elements]
      { stream := s, lastIndex := sizeofPageHeader, contents := fun _ => none }
    { path := path
      file := f
      elements := header.elements
      firstFree := header.firstFree
      grow := header.growItems
      lastIndex := st.lastIndex
      itemSize := header.itemSize
      contents := st.contents
      pageFull := header.flags &&& pageFlagFull ≠ 0 }

/-! ## Removing an item -/

/-- The comparison of one iteration of `Filepage::removeItem`, and the item written back with its
remove bit. `strcmp` reads the whole struct: the 36 bytes of a name need not hold a terminator, and it
goes on into the members behind them. It never gets behind the struct, because a name that is found in
`contents` ends before. -/
def OpenState.flagItem (name : Bytes) (st : OpenState) : OpenState :=
  let (buf, s) := st.stream.fread (List.replicate sizeofPageIndexItem 0)
  if cstr buf = cstr name then
    { st with
      stream := (s.seekBack sizeofPageIndexItem).fwrite
        (buf.modify 44 (· ||| UInt8.ofNat indexFlagDel)) }
  else { st with stream := s }

/-- `Filepage::removeItem`: the index is walked as in `open`. The entry in `contents` stays. -/
def removeItem (p : Filepage) (name : Bytes) : Filepage :=
  match p.contents name with
  | none => p
  | some _ =>
    let st := (fun st => (OpenState.nextIndex st p.grow).flagItem name)^[p.elements]
      { stream := (FileStream.ofFile p.file).seekSet sizeofPageHeader
        lastIndex := sizeofPageHeader
        contents := p.contents }
    { p with file := st.stream.file }

end Filepage

end Mavicona.Cynder
