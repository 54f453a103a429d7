import Mavicona.Cynder.PageAliases

/-!
# When the counters of a page wrap

Reference: `cynder/filepage.cpp` (`shouldClose`, `storeItem`), `cynder/filebase.h`.

`shouldClose` compares a 32-bit sum with `UINT_MAX`, so no page is ever declared full and every item
of a directory goes to page 0, through all restarts. The counters of page 0 are therefore exact as long
as the items of all sessions together stay within 65535 items and 4 GiB, index blocks included, and
wrap with the first item beyond.
-/

namespace Mavicona.Cynder

open Bytes Layout ByteFile Trace

/-! ## Sessions -/

/-- What happens to a directory: an item is put, or the worker is started again. -/
inductive DirectoryOp
  | put (name data : Bytes)
  | restart (heap : Uninit) (cnt : ℕ)

namespace Filebase

/-- One operation on the directory. -/
def directoryStep (fb : Filebase) : DirectoryOp → Filebase
  | .put name data => (fb.put name data).2
  | .restart heap cnt => construct heap cnt fb.disk

/-- The write of an item that is stored does not wrap a counter of the page it goes to. The sums are
exact numbers. -/
def WriteFits (fb : Filebase) : DirectoryOp → Prop
  | .put name data => name.length ≤ 40 →
      ∃ page, fb.chosenPage = some page ∧
        page.dataStart + data.length ≤ 2 ^ 32 - 1 ∧ page.elements + 1 ≤ 65535
  | .restart _ _ => True

end Filebase

/-- The item an operation stores, if its name is not refused. -/
def DirectoryOp.item? : DirectoryOp → Option (Bytes × Bytes)
  | .put name data => if name.length ≤ 40 then some (name, data) else none
  | .restart _ _ => none

/-- The items stored by a sequence of operations. -/
def storedItems (ops : List DirectoryOp) : History := ops.filterMap DirectoryOp.item?

/-- The items stored together have 16-bit counts and end at a 32-bit offset. -/
def ItemsFit (ops : List DirectoryOp) : Prop :=
  (storedItems ops).length ≤ 65535 ∧ endOffset (storedItems ops) ≤ 2 ^ 32 - 1

theorem storedItems_append_some {ops : List DirectoryOp} {op : DirectoryOp} {item : Bytes × Bytes}
    (h : op.item? = some item) : storedItems (ops ++ [op]) = storedItems ops ++ [item] := by
  simp [storedItems, List.filterMap_append, h]

theorem storedItems_append_none {ops : List DirectoryOp} {op : DirectoryOp}
    (h : op.item? = none) : storedItems (ops ++ [op]) = storedItems ops := by
  simp [storedItems, List.filterMap_append, h]

/-- Another item never ends before the ones stored already. -/
theorem endOffset_le_append (h : History) (item : Bytes × Bytes) :
    endOffset h ≤ endOffset (h ++ [item]) := by
  rw [endOffset, endOffset, freeOffset_append]
  simp only [freeOffset, List.length_append, List.length_singleton]
  omega

theorem ItemsFit.init {ops : List DirectoryOp} {op : DirectoryOp} (h : ItemsFit (ops ++ [op])) :
    ItemsFit ops := by
  obtain ⟨hcount, hend⟩ := h
  rcases hitem : op.item? with _ | item
  · rw [storedItems_append_none hitem] at hcount hend
    exact ⟨hcount, hend⟩
  · rw [storedItems_append_some hitem] at hcount hend
    rw [List.length_append, List.length_singleton] at hcount
    exact ⟨by omega, (endOffset_le_append _ item).trans hend⟩

/-! ## Opening a page again -/

/-- Opening the file finds the counters of its page, whatever the index looks like. -/
theorem Counted.openPage {h : History} {p : Filepage} (hc : Counted h p) (raw : Uninit)
    (path : Path) : Counted h (Filepage.openPage raw path p.file) := by
  have hread : (FileStream.ofFile p.file).fread (List.replicate sizeofPageHeader 0)
      = (p.header.encode, ⟨p.file, 28⟩) := by
    rw [FileStream.fread_eq (by simpa [sizeofPageHeader] using hc.size)]
    simp [sizeofPageHeader, hc.header]
  have hpage : ({ p with pageFull := false } : Filepage) = p := by rw [← hc.pageFull]
  have hdecode := hc.decode_header false
  rw [hpage] at hdecode
  have hfull : decide (p.header.flags &&& pageFlagFull ≠ 0) = false := by
    simp [Filepage.header, hc.pageFull, pageFlagNil]
  have hmagic : ¬ p.header.magic ≠ pageMagic := by simp [Filepage.header]
  have hopen := hc.header
  simp only [Filepage.openPage, hread, hdecode]
  rw [if_neg hmagic]
  refine ⟨hc.grow, hc.itemSize, hfull, hc.elements, hc.firstFree, ?_, hc.size, hc.count, hc.free_lt⟩
  simpa [Filepage.header, hc.pageFull, pageFlagNil] using hopen

/-! ## Page 0 takes everything -/

/-- The directory holds the items `h` in page 0. -/
def OnDisk (h : History) (disk : Path → Option ByteFile) : Prop :=
  (h = [] ∧ disk (dbname 0) = none) ∨ ∃ p, disk (dbname 0) = some p.file ∧ Counted h p

/-- Page 0 comes first, counts the items `h`, and is on disk. -/
structure FirstPage (h : History) (fb : Filebase) (page : Filepage) : Prop where
  filepages : ∃ rest, fb.filepages = (0, page) :: rest
  path : page.path = dbname 0
  disk : fb.disk (dbname 0) = some page.file
  counted : Counted h page

namespace FirstPage

variable {h : History} {fb : Filebase} {page : Filepage}

theorem onDisk (hf : FirstPage h fb page) : OnDisk h fb.disk := .inr ⟨page, hf.disk, hf.counted⟩

theorem applicablePage (hf : FirstPage h fb page) : fb.applicablePage = (0, fb) := by
  obtain ⟨rest, hrest⟩ := hf.filepages
  simp [Filebase.applicablePage, hrest, hf.counted.pageFull]

theorem chosenPage (hf : FirstPage h fb page) : fb.chosenPage = some page := by
  obtain ⟨rest, hrest⟩ := hf.filepages
  simp [Filebase.chosenPage, hf.applicablePage, hrest, OrderedMap.find]

/-- Entering another object for page 0. -/
theorem enter (hf : FirstPage h fb page) {h' : History} {page' : Filepage}
    (hpath : page'.path = dbname 0) (hcounted : Counted h' page') :
    FirstPage h' (fb.enter 0 page') page' := by
  obtain ⟨rest, hrest⟩ := hf.filepages
  refine ⟨⟨rest, by simp [Filebase.enter, hrest, OrderedMap.insert]⟩, hpath, ?_, hcounted⟩
  simp [Filebase.enter, hpath]

/-- Entering a page with another number. -/
theorem enter_of_ne (hf : FirstPage h fb page) {pageNum : ℕ} {page' : Filepage}
    (hnum : pageNum ≠ 0) (hpath : page'.path ≠ dbname 0) :
    FirstPage h (fb.enter pageNum page') page := by
  obtain ⟨rest, hrest⟩ := hf.filepages
  refine ⟨⟨OrderedMap.insert pageNum page' rest, ?_⟩, hf.path, ?_, hf.counted⟩
  · simp [Filebase.enter, hrest, OrderedMap.insert, hnum]
  · simp [Filebase.enter, Function.update_of_ne hpath.symm, hf.disk]

end FirstPage

/-- The page object for page 0 counts what the directory holds. -/
theorem OnDisk.newPage {h : History} {fb : Filebase} (hd : OnDisk h fb.disk) :
    Counted h (fb.newPage (dbname 0)) := by
  rcases hd with ⟨rfl, hnone⟩ | ⟨p, hsome, hc⟩
  · simp only [Filebase.newPage, hnone]
    exact (Stored.createDefault _).counted
  · simp only [Filebase.newPage, hsome]
    exact hc.openPage fb.heap (dbname 0)

namespace FirstPage

variable {h : History} {fb : Filebase} {page : Filepage}

/-- Acquiring a page, which is page 0 again only if the counter has wrapped. -/
theorem acquirePage (hf : FirstPage h fb page) :
    ∃ page', FirstPage h fb.acquirePage.2 page' := by
  have hf' : FirstPage h { fb with counter := u32 (fb.counter + 1) } page := ⟨hf.1, hf.2, hf.3, hf.4⟩
  by_cases hzero : fb.counter = 0
  · refine ⟨fb.newPage (dbname 0), ?_⟩
    simp only [Filebase.acquirePage, hzero, pagecounter_dbname_zero]
    rw [hzero] at hf'
    exact hf'.enter (fb.newPage_path _) hf.onDisk.newPage
  · have hnum : pagecounter (dbname fb.counter) ≠ 0 := mt pagecounter_dbname_eq_zero_iff.mp hzero
    refine ⟨page, hf'.enter_of_ne hnum ?_⟩
    rw [fb.newPage_path]
    intro hname
    rw [hname] at hnum
    exact hnum pagecounter_dbname_zero

/-- A start on a directory. -/
theorem construct {disk : Path → Option ByteFile} (hd : OnDisk h disk) (heap : Uninit) (cnt : ℕ) :
    ∃ page, FirstPage h (Filebase.construct heap cnt disk) page := by
  have hstart : ∃ page, FirstPage h (Filebase.acquirePages heap disk 1) page := by
    let fb : Filebase := { counter := 0, filepages := [], disk := disk, heap := heap }
    refine ⟨fb.newPage (dbname 0), ⟨[], ?_⟩, fb.newPage_path _, ?_, @OnDisk.newPage h fb hd⟩
    · simp [Filebase.acquirePages, Filebase.acquirePage, Filebase.enter, pagecounter_dbname_zero,
        OrderedMap.insert, fb]
    · simp [Filebase.acquirePages, Filebase.acquirePage, Filebase.enter, Filebase.newPage_path, fb]
  have hpages : ∀ n, ∃ page, FirstPage h (Filebase.acquirePages heap disk (n + 1)) page := by
    intro n
    induction n with
    | zero => exact hstart
    | succ n ih =>
      obtain ⟨page, hf⟩ := ih
      rw [Filebase.acquirePages_succ]
      exact hf.acquirePage
  have hcount : 1 + (cnt - 1) = cnt - 1 + 1 := Nat.add_comm _ _
  rw [Filebase.construct, hcount]
  exact hpages (cnt - 1)

end FirstPage

/-! ## The limit -/

/-- The directory after the operations `ops`: page 0 comes first and counts the items stored. -/
def CountsItems (ops : List DirectoryOp) (fb : Filebase) : Prop :=
  ∃ page, FirstPage (storedItems ops) fb page

namespace CountsItems

variable {ops : List DirectoryOp} {fb : Filebase}

theorem itemsFit (hc : CountsItems ops fb) : ItemsFit ops := by
  obtain ⟨page, hf⟩ := hc
  have hcount := hf.counted.count
  have hend := hf.counted.free_lt
  exact ⟨by omega, by omega⟩

/-- The counters of page 0 tell whether the next item fits. -/
theorem writeFits_iff (hc : CountsItems ops fb) (op : DirectoryOp) :
    fb.WriteFits op ↔ ItemsFit (ops ++ [op]) := by
  have hbefore := hc.itemsFit
  obtain ⟨page, hf⟩ := hc
  cases op with
  | restart heap cnt =>
    have hitems := @storedItems_append_none ops (.restart heap cnt) rfl
    rw [ItemsFit, hitems]
    exact iff_of_true trivial hbefore
  | put name data =>
    by_cases hname : name.length ≤ 40
    · have hitem : (DirectoryOp.put name data).item? = some (name, data) := if_pos hname
      rw [ItemsFit, storedItems_append_some hitem, hf.counted.endOffset_append,
        List.length_append, List.length_singleton, ← hf.counted.elements]
      constructor
      · intro hfits
        obtain ⟨page', hpage, hend, hcount⟩ := hfits hname
        obtain rfl := Option.some.inj (hf.chosenPage.symm.trans hpage)
        exact ⟨hcount, hend⟩
      · rintro ⟨hcount, hend⟩ -
        exact ⟨page, hf.chosenPage, hend, hcount⟩
    · have hitem : (DirectoryOp.put name data).item? = none := if_neg hname
      rw [ItemsFit, storedItems_append_none hitem]
      exact iff_of_true (fun h => absurd h hname) hbefore

/-- An operation whose item fits is counted. -/
theorem directoryStep (hc : CountsItems ops fb) (op : DirectoryOp)
    (hfits : ItemsFit (ops ++ [op])) : CountsItems (ops ++ [op]) (fb.directoryStep op) := by
  obtain ⟨page, hf⟩ := hc
  cases op with
  | restart heap cnt =>
    rw [CountsItems, storedItems_append_none rfl]
    exact FirstPage.construct hf.onDisk heap cnt
  | put name data =>
    have hput := Filebase.put_eq hf.chosenPage name data
    rw [hf.applicablePage] at hput
    by_cases hname : name.length ≤ 40
    · have hitem : (DirectoryOp.put name data).item? = some (name, data) := if_pos hname
      rw [ItemsFit, storedItems_append_some hitem, hf.counted.endOffset_append,
        List.length_append, List.length_singleton] at hfits
      obtain ⟨hcount, hend⟩ := hfits
      have hstored := hf.counted.storeItem hname (by omega)
        (show page.dataStart + data.length < 2 ^ 32 from Nat.lt_of_le_pred (by decide) hend)
      rw [CountsItems, storedItems_append_some hitem, Filebase.directoryStep, hput]
      exact ⟨_, hf.enter (by rw [Filepage.storeItem_path, hf.path]) hstored⟩
    · have hitem : (DirectoryOp.put name data).item? = none := if_neg hname
      have hrefused : page.storeItem name data = page := if_pos (by omega)
      rw [CountsItems, storedItems_append_none hitem, Filebase.directoryStep, hput, hrefused]
      exact ⟨page, hf.enter hf.path hf.counted⟩

end CountsItems

/-- On a directory that starts empty, every write of every session fits the counters of its page
exactly if all items stored together do. -/
theorem writes_fit_iff (heap : Uninit) (cnt : ℕ) (ops : List DirectoryOp) :
    Throughout Filebase.directoryStep Filebase.WriteFits
        (Filebase.construct heap cnt fun _ => none) ops
      ↔ (storedItems ops).length ≤ 65535 ∧ endOffset (storedItems ops) ≤ 2 ^ 32 - 1 := by
  have hstart : CountsItems [] (Filebase.construct heap cnt fun _ => none) :=
    FirstPage.construct (.inl ⟨rfl, rfl⟩) heap cnt
  change _ ↔ ItemsFit ops
  exact throughout_iff hstart hstart.itemsFit (fun _ _ h => h.init)
    (fun _ _ op hc hfits => hc.directoryStep op hfits) fun _ _ op hc => hc.writeFits_iff op

/-- An item of 4 GiB goes to an empty page all the same. -/
theorem not_writes_fit_one :
    ¬ Throughout Filebase.directoryStep Filebase.WriteFits
        (Filebase.construct ⟨0, 0, 0, 0, 0⟩ 0 fun _ => none)
        [.put (List.replicate 36 97) (List.replicate (2 ^ 32) 0)] := by
  intro h
  obtain ⟨page, -, hend, -⟩ := h 0 _ rfl (by decide)
  rw [List.length_replicate] at hend
  omega

end Mavicona.Cynder
