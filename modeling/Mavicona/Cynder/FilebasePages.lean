import Mavicona.Cynder.PageNumbers
import Mavicona.Cynder.PageRuns

/-!
# The pages of a file base

A page that is not full never becomes full, because `shouldClose` never declares one so. A file base
started without large files therefore keeps all of them in page 0 (`OnePage`).
-/

namespace Mavicona.Cynder

open Bytes

/-! ## Storing never fills a page -/

namespace Filepage

@[simp] theorem storeItem_pageFull (p : Filepage) (name data : Bytes) :
    (p.storeItem name data).pageFull = p.pageFull := by
  unfold storeItem
  split_ifs <;> simp [appendItem, shouldClose_eq, writeHeader, growPage]

@[simp] theorem storeItem_path (p : Filepage) (name data : Bytes) :
    (p.storeItem name data).path = p.path := by
  unfold storeItem
  split_ifs <;> simp [appendItem, shouldClose_eq, writeHeader, growPage]

theorem storeItem_contents (p : Filepage) {name : Bytes} (data : Bytes) (h : name.length ≤ 40) :
    ∃ entry, (p.storeItem name data).contents = Function.update p.contents name (some entry) := by
  refine ⟨((if p.lastIndexFull then p.growPage else p).newItem name data |>.item, u32 data.length), ?_⟩
  rw [storeItem, if_neg (by omega)]
  split_ifs <;> simp [appendItem, shouldClose_eq, writeHeader, growPage, newItem]

end Filepage

/-! ## A single page -/

/-- The file base has page 0 only, and it is not full. -/
structure OnePage (fb : Filebase) (page : Filepage) : Prop where
  filepages : fb.filepages = [(0, page)]
  pageFull : page.pageFull = false

namespace OnePage

variable {fb : Filebase} {page : Filepage}

theorem find? (h : OnePage fb page) :
    fb.filepages.find? (fun v => !v.2.pageFull) = some (0, page) := by
  simp [h.filepages, h.pageFull]

theorem put (h : OnePage fb page) (name data : Bytes) :
    fb.put name data = (0, fb.enter 0 (page.storeItem name data)) := by
  have hfind : OrderedMap.find 0 fb.filepages = some page := by
    simp [h.filepages, OrderedMap.find]
  simp only [Filebase.put, Filebase.applicablePage, h.find?, hfind]

theorem get (h : OnePage fb page) (name : Bytes) : fb.get 0 name = page.retrieveItem name := by
  have hfind : OrderedMap.find 0 fb.filepages = some page := by
    simp [h.filepages, OrderedMap.find]
  simp only [Filebase.get, hfind]

theorem enter (h : OnePage fb page) {page' : Filepage} (hfull : page'.pageFull = false) :
    OnePage (fb.enter 0 page') page' where
  filepages := by simp [Filebase.enter, h.filepages, OrderedMap.insert]
  pageFull := hfull

/-- A file base on an empty directory. -/
theorem construct (heap : Uninit) :
    OnePage (Filebase.construct heap 0 fun _ => none) (Filepage.createDefault (dbname 0)) where
  filepages := by
    simp [Filebase.construct, Filebase.acquirePage, Filebase.enter, Filebase.newPage,
      pagecounter_dbname_zero, OrderedMap.insert]
  pageFull := rfl

end OnePage

end Mavicona.Cynder
