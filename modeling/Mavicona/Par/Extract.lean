import Mavicona.Common.ChainedHash
import Mavicona.Par.Reader

/-!
# Unpacking a package

Reference: `par/extract.c`, `par/wrapper.c`, `par/util.c`, `compat/mkdirhier.c`, `compat/cdirname.c`.

The files of a package are made by calls to the system, which is a parameter: a state of any type,
and the result of every call. The names that were extracted are kept in a hash table, for the hard
links behind them. `dirname` of the C library may cut the name it is given, and
`par_extract_hardlink`, `par_extract_symlink` and `par_extract_dir` go on with what is left of the
name.
-/

namespace Mavicona.Par

open Bytes Path ChainedHash

/-! ## The system -/

/-- The values of `errno` that are told apart. -/
inductive Errno
  | eexist
  | enoent
  | other
  deriving DecidableEq

/-- The system calls. A call that fails gives the value of `errno`. -/
structure System (σ : Type) where
  /-- `geteuid() == 0`. -/
  superuser : Bool
  getpwnam : Bytes → Option ℕ
  getgrnam : Bytes → Option ℕ
  mkdir : Bytes → ℕ → σ → Option Errno × σ
  chown : Bytes → ℕ → ℕ → σ → Option Errno × σ
  utime : Bytes → ℤ → σ → Option Errno × σ
  chmod : Bytes → ℕ → σ → Option Errno × σ
  /-- `open` with `O_WRONLY | O_CREAT | O_TRUNC`. -/
  create : Bytes → σ → Option ℕ × σ
  write : ℕ → Bytes → σ → Option Errno × σ
  close : ℕ → σ → Option Errno × σ
  link : Bytes → Bytes → σ → Option Errno × σ
  symlink : Bytes → Bytes → σ → Option Errno × σ
  unlink : Bytes → σ → Option Errno × σ

/-- An unpacking: the package, the names that were extracted with the names they were extracted
to, and the state of the system. -/
structure Unpacking (σ : Type) where
  par : PAR
  names : Table (Bytes × Bytes)
  fs : σ

/-- `path_hashfunc`: the first byte of the base name. -/
def pathHashfunc (key : Bytes) : ℕ :=
  (((components (trim key)).getLastD []).headD (if key = [] then 46 else 47)).toNat % 256

/-! ## Owners -/

/-- The text at `t->th_buf.uname`. -/
def uname (b : Bytes) : Bytes := cstr (b.drop 265)

/-- The text at `t->th_buf.gname`. -/
def gname (b : Bytes) : Bytes := cstr (b.drop 297)

section Calls

variable {σ : Type} (sys : System σ) (cuts : Bool)

/-- `th_get_uid`. -/
def thGetUid (b : Bytes) : ℕ := (sys.getpwnam (uname b)).getD (octToUInt (b.drop 108))

/-- `th_get_gid`. -/
def thGetGid (b : Bytes) : ℕ := (sys.getgrnam (gname b)).getD (octToUInt (b.drop 116))

/-- A call that follows another one, if that has succeeded. -/
def andThen (r : Bool × σ) (f : σ → Bool × σ) : Bool × σ := if r.1 then f r.2 else r

/-- Whether a call has succeeded. -/
def succeeded (r : Option Errno × σ) : Bool × σ := (r.1.isNone, r.2)

/-- `par_set_file_perms`. -/
def parSetFilePerms (b filename : Bytes) (s : σ) : Bool × σ :=
  if isSym b then (true, s)
  else
    andThen
      (if sys.superuser then succeeded (sys.chown filename (thGetUid sys b) (thGetGid sys b) s)
        else (true, s))
      fun s => andThen (succeeded (sys.utime filename (thGetMtime b) s))
      fun s => succeeded (sys.chmod filename (thGetMode b) s)

/-! ## Directories -/

/-- The loop of `mkdirhier` over the parts of the path that `strsep` gives. -/
def mkdirParts : List Bytes → Bytes → σ → Bool × σ
  | [], _, s => (true, s)
  | dirp :: parts, dst, s =>
    if dirp = [] then mkdirParts parts dst s
    else
      let dst := if dst = [] then dirp else dst ++ 47 :: dirp
      let (e, s) := sys.mkdir dst 0o777 s
      if e = none ∨ e = some .eexist then mkdirParts parts dst s else (false, s)

/-- The size of the buffers of `mkdirhier`, `MAXPATHLEN` as `compat.h` defines it. -/
def hierLen : ℕ := 255

/-- `mkdirhier`; it refuses a path that is longer than the buffer, and cuts one that just fills it. -/
def mkdirhier (path : Bytes) (s : σ) : Bool × σ :=
  if path.length > hierLen then (false, s)
  else
    mkdirParts sys (components (path.take (hierLen - 1))) (if path.head? = some 47 then [47] else [])
      s

/-- What is left of a name after `dirname` was called on it. -/
def afterDirname (filename : Bytes) : Bytes :=
  if cuts ∧ 47 ∈ trim filename then dirname filename else filename

/-- `par_extract_dir`; the result 1 counts as a success. -/
def parExtractDir (b filename : Bytes) (s : σ) : Bool × σ :=
  if !isDir b then (false, s)
  else andThen (mkdirhier sys (dirname filename) s) fun s =>
    let filename := afterDirname cuts filename
    let (e, s) := sys.mkdir filename (thGetMode b) s
    if e = some .eexist then succeeded (sys.chmod filename (thGetMode b) s) else (e.isNone, s)

/-! ## Links -/

variable (memory : ℕ → Bytes)

/-- `par_extract_hardlink`. -/
def parExtractHardlink (b filename : Bytes) (names : Table (Bytes × Bytes)) (s : σ) : Bool × σ :=
  if !isLnk b then (false, s)
  else andThen (mkdirhier sys (dirname filename) s) fun s =>
    let key := saferNameSuffix (thGetLinkname memory b)
    let linktgt := ((getkey pathHashfunc Prod.fst key names).map Prod.snd).getD key
    succeeded (sys.link linktgt (afterDirname cuts filename) s)

/-- `par_extract_symlink`. -/
def parExtractSymlink (b filename : Bytes) (s : σ) : Bool × σ :=
  if !isSym b then (false, s)
  else andThen (mkdirhier sys (dirname filename) s) fun s =>
    let filename := afterDirname cuts filename
    let (e, s) := sys.unlink filename s
    if e = none ∨ e = some .enoent then
      succeeded (sys.symlink (saferNameSuffix (thGetLinkname memory b)) filename s)
    else (false, s)

/-! ## Files -/

/-- `par_extract_regfile`. -/
def parExtractRegfile (t : PAR) (filename : Bytes) (s : σ) : Bool × PAR × σ :=
  if !isReg t.thBuf then (false, t, s)
  else
    let (made, s) := mkdirhier sys (dirname filename) s
    if !made then (false, t, s)
    else
      match sys.create filename s with
      | (none, s) => (false, t, s)
      | (some fdout, s) =>
        let (ok, stream, s) := readContent (fun buf s => succeeded (sys.write fdout buf s)) t.stream
          (toSSize (thGetSize t.thBuf)) s
        let (e, s) := sys.close fdout s
        (ok && e.isNone, { t with stream := stream }, s)

/-- The kinds of entries `par_extract_file` tells apart: what is left of the name, and the result. -/
def parExtractEntry (u : Unpacking σ) (realname : Bytes) : Bytes × Bool × Unpacking σ :=
  let b := u.par.thBuf
  if isDir b then
    let (ok, s) := parExtractDir sys cuts b realname u.fs
    (afterDirname cuts realname, ok, { u with fs := s })
  else if isLnk b then
    let (ok, s) := parExtractHardlink sys cuts memory b realname u.names u.fs
    (afterDirname cuts realname, ok, { u with fs := s })
  else if isSym b then
    let (ok, s) := parExtractSymlink sys cuts memory b realname u.fs
    (afterDirname cuts realname, ok, { u with fs := s })
  else
    let (ok, t, s) := parExtractRegfile sys u.par realname u.fs
    (realname, ok, { u with par := t, fs := s })

/-- `par_extract_file`. -/
def parExtractFile (u : Unpacking σ) (realname : Bytes) : Bool × Unpacking σ :=
  let (realname, ok, u) := parExtractEntry sys cuts memory u realname
  if !ok then (false, u)
  else
    let (ok, s) := parSetFilePerms sys u.par.thBuf realname u.fs
    if !ok then (false, { u with fs := s })
    else (true, { u with
      names := add pathHashfunc Prod.fst (thGetPathname memory u.par.thBuf, realname) u.names
      fs := s })

/-- `MAXPATHLEN` of `sys/param.h`. -/
def maxpathlen : ℕ := 4096

/-- The name of an entry, behind the directory if there is one. -/
def wholeName (dir : Option Bytes) (filename : Bytes) : Bytes :=
  match dir with
  | some dir => dir ++ 47 :: filename
  | none => filename

/-- The name an entry is extracted to, in a buffer of `par_extract_all`. -/
def extractName (dir : Option Bytes) (filename : Bytes) : Bytes :=
  (wholeName dir filename).take (maxpathlen - 1)

variable (malloc : List ℕ → ℕ → Option ℕ) (dir : Option Bytes)

/-- The loop of `par_extract_all`, at most `n` times round, with no options set. -/
def extractLoop : ℕ → Unpacking σ → Bool × Unpacking σ
  | 0, u => (false, u)
  | n + 1, u =>
    match thRead malloc false u.par with
    | none => (false, u)
    | some (i, none) => (i = 1, u)
    | some (_, some t) =>
      let (ok, u) := parExtractFile sys cuts memory { u with par := t }
        (extractName dir (thGetPathname memory t.thBuf))
      if ok then extractLoop n u else (false, u)

/-- The headers that the loop reads. -/
def headersRead : ℕ → Unpacking σ → List Bytes
  | 0, _ => []
  | n + 1, u =>
    match thRead malloc false u.par with
    | none => []
    | some (_, none) => []
    | some (_, some t) =>
      let (ok, u) := parExtractFile sys cuts memory { u with par := t }
        (extractName dir (thGetPathname memory t.thBuf))
      t.thBuf :: if ok then headersRead n u else []

/-- `par_extract_all`; every round takes a block of the package. -/
def parExtractAll (u : Unpacking σ) : Bool × Unpacking σ :=
  extractLoop sys cuts memory malloc dir (u.par.stream.length + 1) u

end Calls

end Mavicona.Par
