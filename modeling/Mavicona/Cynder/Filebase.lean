import Mathlib.Data.Nat.Digits.Defs
import Mavicona.Common.OrderedMap
import Mavicona.Cynder.Filepage

/-!
# The large-file base

Reference: `cynder/filebase.h`.

A file base holds the pages opened in this process, keyed by the number taken from their file name.
The files themselves live on `disk`. Every write of a page ends with `fflush`, so the file on disk
always is the file of the page. `Filebase::~Filebase` releases nothing.
-/

namespace Mavicona.Cynder

open Bytes

/-! ## File names -/

/-- The decimal digits of `n`, most significant first, filled up to four with zeros
(`std::setw(4) << std::setfill('0')`). -/
def fourDigits (n : ℕ) : List ℕ :=
  List.replicate (4 - (Nat.digits 10 n).length) 0 ++ (Nat.digits 10 n).reverse

/-- `Filebase::dbname` in the default directory. -/
def dbname (counter : ℕ) : Path :=
  "data/lfb".toList ++ ((fourDigits counter).map fun d => Char.ofNat (48 + d)) ++ "dxdb".toList

/-- `atoi` of a string of decimal digits. -/
def atoi (s : List Char) : ℕ := s.foldl (fun n c => 10 * n + (c.toNat - 48)) 0

/-- `path.substr(path.find_last_of("/") + 1)`. -/
def basename (path : Path) : Path := (path.reverse.takeWhile (· ≠ '/')).reverse

/-- `Filebase::pagecounter`. -/
def pagecounter (path : Path) : ℕ := atoi (((basename path).drop 3).take 4)

/-! ## The file base -/

/-- A file base. `heap` is what the members of a new page object hold before they are set. -/
structure Filebase where
  counter : ℕ
  filepages : List (ℕ × Filepage)
  disk : Path → Option ByteFile
  heap : Uninit

namespace Filebase

/-- `new Filepage(file)`: open the file if it exists, create it otherwise. -/
def newPage (fb : Filebase) (file : Path) : Filepage :=
  match fb.disk file with
  | none => Filepage.createDefault file
  | some f => Filepage.openPage fb.heap file f

/-- Enter a page under a number; its file is on disk. -/
def enter (fb : Filebase) (pageNum : ℕ) (page : Filepage) : Filebase :=
  { fb with
    filepages := OrderedMap.insert pageNum page fb.filepages
    disk := Function.update fb.disk page.path (some page.file) }

/-- `acquirePage(dbname(dir))`. -/
def acquirePage (fb : Filebase) : ℕ × Filebase :=
  let file := dbname fb.counter
  let pageNum := pagecounter file
  (pageNum, { fb with counter := u32 (fb.counter + 1) }.enter pageNum (fb.newPage file))

/-- `Filebase::applicablePage`: the first page that is not full, else a new one. -/
def applicablePage (fb : Filebase) : ℕ × Filebase :=
  match fb.filepages.find? (fun v => !v.2.pageFull) with
  | some v => (v.1, fb)
  | none => fb.acquirePage

/-- `Filebase::Filebase` on a directory. -/
def construct (heap : Uninit) (cnt : ℕ) (disk : Path → Option ByteFile) : Filebase :=
  (fun fb => fb.acquirePage.2)^[1 + (cnt - 1)]
    { counter := 0, filepages := [], disk := disk, heap := heap }

/-- `Filebase::put`. -/
def put (fb : Filebase) (name data : Bytes) : ℕ × Filebase :=
  let (pageNum, fb) := fb.applicablePage
  match OrderedMap.find pageNum fb.filepages with
  | none => (pageNum, fb)
  | some page => (pageNum, fb.enter pageNum (page.storeItem name data))

/-- `Filebase::get`: `none` when the page is not open, where the code follows a null pointer, or when
the page does not have the name, where it returns one. -/
def get (fb : Filebase) (pageNum : ℕ) (name : Bytes) : Option Bytes :=
  match OrderedMap.find pageNum fb.filepages with
  | none => none
  | some page => page.retrieveItem name

end Filebase

end Mavicona.Cynder
