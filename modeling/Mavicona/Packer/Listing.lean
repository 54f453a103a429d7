import Mathlib.Data.List.TakeDrop
import Mavicona.Packer.Package

/-!
# The package of a list of files

Reference: `packer/package.c`, `par/append.c`.

A list of regular files is always packed. The first file of an inode is written with its content,
and every other one as a link to the first.
-/

namespace Mavicona.Packer

open Bytes Path Par Disk

variable {T : Tree}

namespace Listed

variable (f g : Listed T)

theorem isLeaf : IsLeaf f.name := by
  have h := f.inode_eq
  rw [Tree.inode] at h
  split at h
  · by_contra hleaf
    rw [if_neg hleaf] at h
    exact Option.some_ne_none _ h.symm
  · exact absurd h.symm (Option.some_ne_none _)

theorem ne_nil : f.name ≠ [] := by
  intro h
  apply f.isLeaf.1
  rw [h]
  rfl

theorem place_name : place f.name = walk f.name := if_neg f.safe.1

theorem node_eq : T.disk.node (walk f.name) = some (.file f.ino) := by
  have h := f.inode_eq
  rw [Tree.inode, f.place_name] at h
  split at h
  · rename_i i hnode
    rw [if_pos f.isLeaf] at h
    rw [hnode, Option.some.inj h]
  · exact absurd h.symm (Option.some_ne_none _)

/-- A place leads to one inode. -/
theorem ino_eq_of_walk_eq {f g : Listed T} (h : walk f.name = walk g.name) : f.ino = g.ino := by
  have hnode := f.node_eq
  rw [h, g.node_eq] at hnode
  exact (Node.file.inj (Option.some.inj hnode)).symm

/-- The file as it is packed from the directory `.`. -/
def item : Item := ⟨46 :: 47 :: f.name, f.name, T.stat f.ino, T.disk.data f.ino⟩

theorem realName_eq : realName (some [46]) f.name = f.item.realname := by
  have hlen := f.length_le
  rw [realName, if_pos f.safe.1]
  refine List.take_of_length_le ?_
  rw [List.length_append, List.length_cons, bufLen]
  exact (Nat.add_le_add_left (Nat.succ_le_succ hlen) _).trans (by decide)

theorem inode_realname : T.inode f.item.realname = some f.ino := by
  have hplace : place f.item.realname = walk f.name := walk_append [46] f.name
  have hleaf : leaf f.item.realname = leaf f.name := leaf_append [46] f.name
  rw [Tree.inode, hplace, f.node_eq]
  refine if_pos ?_
  rw [IsLeaf, hleaf]
  exact f.isLeaf

theorem item_exists (host : Host) : f.item.Exists (T.source host) := by
  refine ⟨?_, .inl (T.type_eq f.ino), fun _ => ⟨?_, (T.size_eq f.ino).symm⟩⟩
  · exact congrArg (Option.map T.stat) f.inode_realname
  · exact congrArg (Option.map T.disk.data) f.inode_realname

theorem item_named : f.item.Named :=
  ⟨f.ne_nil, f.zero_notMem, f.length_le, f.safe, fun h => nomatch (T.type_eq f.ino).symm.trans h⟩

/-- What is packed of the content. -/
def packed : Bytes := (T.disk.data f.ino).take (entrySize (T.stat f.ino))

theorem packed_eq_iff : f.packed = T.disk.data f.ino ↔ (T.disk.data f.ino).length < 2 ^ 31 := by
  have hsize : entrySize (T.stat f.ino) = written ((T.disk.data f.ino).length : ℤ) := by
    rw [entrySize, if_pos (T.type_eq f.ino), T.size_eq]
  rw [packed, List.take_eq_self_iff, hsize]
  constructor
  · intro h
    exact h.trans_lt (written_lt _)
  · intro h
    have hwritten := written_of_lt (i := (T.disk.data f.ino).length) (by omega) (by omega)
    omega

end Listed

/-! ## Links -/

/-- The first name of the inode of a file among the files that are packed already. -/
def firstListed (done : List (Listed T)) (f : Listed T) : Option Bytes :=
  (done.find? fun g => g.ino = f.ino).map Listed.name

section Links

variable {done : List (Listed T)} {f g : Listed T}

theorem firstListed_congr (h : f.ino = g.ino) : firstListed done f = firstListed done g := by
  rw [firstListed, firstListed, h]

theorem firstListed_concat (done : List (Listed T)) (f g : Listed T) :
    firstListed (done ++ [g]) f =
      (firstListed done f).or (if g.ino = f.ino then some g.name else none) := by
  rw [firstListed, firstListed, List.find?_append, Option.map_or]
  congr 1
  by_cases h : g.ino = f.ino
  · rw [if_pos h, List.find?_cons_of_pos (by simpa using h), Option.map_some]
  · rw [if_neg h, List.find?_cons_of_neg (by simpa using h), List.find?_nil, Option.map_none]

theorem firstListed_eq_none : firstListed done f = none ↔ ∀ g ∈ done, g.ino ≠ f.ino := by
  rw [firstListed, Option.map_eq_none_iff, List.find?_eq_none]
  simp

theorem exists_of_firstListed {target : Bytes} (h : firstListed done f = some target) :
    ∃ g ∈ done, g.name = target ∧ g.ino = f.ino := by
  obtain ⟨g, hg, hname⟩ := Option.map_eq_some_iff.mp h
  have hino := List.find?_some hg
  exact ⟨g, List.mem_of_find?_eq_some hg, hname, of_decide_eq_true hino⟩

end Links

/-! ## What is written -/

section Written

variable (host : Host)

/-- The header of a file behind others. -/
def entryHeader (done : List (Listed T)) (f : Listed T) : FileHeader :=
  match firstListed done f with
  | none => f.item.header (T.source host)
  | some target => f.item.linkHeader (T.source host) target

/-- The blocks behind the header. -/
def entryData (done : List (Listed T)) (f : Listed T) : Stream :=
  match firstListed done f with
  | none => f.item.data (T.source host)
  | some _ => []

/-- The blocks of the files behind others. -/
def listBlocks : List (Listed T) → List (Listed T) → Stream
  | _, [] => []
  | done, f :: fs =>
    (thFinish (entryHeader host done f)).image ::
      (entryData host done f ++ listBlocks (done ++ [f]) fs)

/-- The tables have the first name of every inode. -/
def Knows (done : List (Listed T)) (devices : ChainedHash.Table TarDev) : Prop :=
  ∀ f : Listed T, firstName (T.stat f.ino).dev (T.stat f.ino).ino devices = firstListed done f

/-- **One file is packed, behind others.** -/
theorem parAppendFile_listed {done : List (Listed T)} {t : Packing} (h : Knows done t.devices)
    (f : Listed T) :
    ∃ devices, Knows (done ++ [f]) devices ∧
      parAppendFile (T.source host) t f.item.realname (some f.name) = some
        ⟨t.blocks ++ (thFinish (entryHeader host done f)).image :: entryData host done f,
          devices⟩ := by
  have hs := f.item_exists host
  have hn := f.item_named
  rw [entryHeader, entryData]
  cases hfirst : firstListed done f with
  | none =>
    have hnew : firstName f.item.stat.dev f.item.stat.ino t.devices = none := (h f).trans hfirst
    refine ⟨_, fun g => ?_, Item.parAppendFile_new hs hn hnew⟩
    rw [firstName_addName _ hnew, firstListed_concat, h g]
    by_cases hino : f.ino = g.ino
    · have hsame : (T.stat g.ino).dev = f.item.stat.dev ∧ (T.stat g.ino).ino = f.item.stat.ino := by
        rw [← hino]
        exact ⟨rfl, rfl⟩
      rw [if_pos hsame, if_pos hino, ← firstListed_congr hino, hfirst]
      rfl
    · have hother : ¬ ((T.stat g.ino).dev = f.item.stat.dev ∧ (T.stat g.ino).ino = f.item.stat.ino) :=
        fun hsame => hino (T.injective _ _ hsame.1 hsame.2).symm
      rw [if_neg hother, if_neg hino, Option.or_none]
  | some target =>
    have hold : firstName f.item.stat.dev f.item.stat.ino t.devices = some target :=
      (h f).trans hfirst
    refine ⟨_, fun g => ?_, Item.parAppendFile_link hs hn hold⟩
    rw [firstName_deviceTable, firstListed_concat, h g]
    by_cases hino : f.ino = g.ino
    · rw [← firstListed_congr hino, hfirst]
      rfl
    · rw [if_neg hino, Option.or_none]

theorem appendList_listed (n : ℕ) {done : List (Listed T)} (fs : List (Listed T)) {t : Packing}
    (h : Knows done t.devices) :
    ∃ devices, appendList (T.source host) (n + 1) (some [46]) (fs.map Listed.name) t = some
      ⟨t.blocks ++ listBlocks host done fs, devices⟩ := by
  induction fs generalizing done t with
  | nil => exact ⟨t.devices, by rw [List.map_nil, appendList, listBlocks, List.append_nil]⟩
  | cons f fs ih =>
    obtain ⟨devices, hknows, happend⟩ := parAppendFile_listed host h f
    -- A file is no directory, so there is nothing below it.
    have htree : parAppendTree (T.source host) (n + 1) t f.item.realname (some f.name) = some
        ⟨t.blocks ++ (thFinish (entryHeader host done f)).image :: entryData host done f,
          devices⟩ := by
      rw [parAppendTree, happend]
      rfl
    obtain ⟨devices', hrest⟩ := ih (t := ⟨_, devices⟩) hknows
    refine ⟨devices', ?_⟩
    rw [List.map_cons, appendList, f.realName_eq, htree, Option.bind_some, hrest, listBlocks,
      List.append_assoc, List.cons_append]

/-- **Every list of regular files is packed.** -/
theorem packageCreate_listed (n : ℕ) (fs : List (Listed T)) :
    packageCreate (T.source host) (n + 1) (some [46]) (fs.map Listed.name) =
      some ⟨packageMagic,
        listBlocks host [] fs ++ List.replicate 2 (List.replicate blockSize 0)⟩ := by
  have hnone : Knows ([] : List (Listed T)) parCreate.devices := fun f => rfl
  obtain ⟨devices, happend⟩ := appendList_listed host n fs hnone
  rw [packageCreate, happend]
  rfl

end Written

/-! ## The headers -/

section Headers

variable (host : Host) (done : List (Listed T)) (f : Listed T)

theorem describes_entry : Describes (entryHeader host done f) f.name (T.stat f.ino).mode
    (written (T.stat f.ino).mtime) (entrySize (T.stat f.ino)) := by
  have hname : entryName f.item.stat f.item.savename = f.name := by
    refine if_neg fun h => ?_
    exact absurd ((T.type_eq f.ino).symm.trans h) (by decide)
  have hnew := Item.describes (f.item_exists host) f.item_named
  have hlink := Item.describes_link (f.item_exists host) f.item_named
  rw [entryHeader]
  split
  · exact hname ▸ hnew
  · exact hname ▸ hlink _

theorem typeflag_entry : (entryHeader host done f).typeflag =
    if firstListed done f = none then regtype else lnktype := by
  rw [entryHeader]
  cases firstListed done f with
  | none =>
    rw [if_pos rfl]
    exact (Item.typeflag_header (f.item_exists host) f.item_named).trans (if_pos (T.type_eq f.ino))
  | some target =>
    rw [if_neg (Option.some_ne_none target)]
    rfl

theorem modeBits_entry : modeBits (thFinish (entryHeader host done f)).image = (T.stat f.ino).mode :=
  (describes_entry host done f).thFinish.modeBits_eq

theorem typeflag_finished : typeflag (thFinish (entryHeader host done f)).image =
    if firstListed done f = none then regtype else lnktype :=
  (typeflag_image _).trans (typeflag_entry host done f)

/-- The kind of an entry. -/
theorem kind_entry : isDir (thFinish (entryHeader host done f)).image = false ∧
    isLnk (thFinish (entryHeader host done f)).image = decide (firstListed done f ≠ none) ∧
    isSym (thFinish (entryHeader host done f)).image = false ∧
    isReg (thFinish (entryHeader host done f)).image = decide (firstListed done f = none) := by
  -- The mode is one of a regular file, and only the type tells a link.
  have hmode : fmt (T.stat f.ino).mode = ifreg := (fmt_mode _).trans (by rw [T.type_eq]; rfl)
  rw [isDir, isLnk, isSym, isReg, modeBits_entry, typeflag_finished, hmode]
  by_cases h : firstListed done f = none
  · rw [if_pos h, decide_eq_true h, decide_eq_false (not_not.mpr h)]
    decide
  · rw [if_neg h, decide_eq_false h, decide_eq_true h]
    decide

theorem pathname_entry (memory : ℕ → Bytes) :
    thGetPathname memory (thFinish (entryHeader host done f)).image = f.name := by
  rw [(describes_entry host done f).thFinish.thGetPathname_eq, saferNameSuffix_self f.ne_nil f.safe]

theorem linkname_entry (memory : ℕ → Bytes) {target : Bytes} (h : firstListed done f = some target) :
    saferNameSuffix (thGetLinkname memory (thFinish (entryHeader host done f)).image) = target := by
  obtain ⟨g, -, rfl, -⟩ := exists_of_firstListed h
  have hnull := (describes_entry host done f).thFinish.nullPointers
  have hheader : entryHeader host done f =
    f.item.linkHeader (T.source host) g.name := by rw [entryHeader, h]
  have hlen : g.name.length < 100 := g.length_le.trans_lt (by decide)
  rw [thGetLinkname, if_neg fun hne => hne hnull.2, hheader,
    Item.cstr_linkname _ _ g.zero_notMem hlen, saferNameSuffix_self g.ne_nil g.safe]

end Headers

end Mavicona.Packer
