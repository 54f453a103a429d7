import Mavicona.Cynder.PageInvariant

/-!
# Removed items and files that are no pages

Reference: `cynder/filepage.cpp` (`open`, `removeItem`, `writeHeader`), `cynder/filepage.h`.

Two things a page object does not do. `removeItem` flags the index item in the file and leaves
`contents` alone, so the item is found as before. `open` returns on a wrong magic but keeps the file
open, and `isOpen` is all the later calls and the destructor ask for: the destructor writes a header,
with a right magic, over the first 28 bytes.
-/

namespace Mavicona.Cynder

open Bytes ByteFile

namespace Filepage

variable {p : Filepage} {name : Bytes}

/-! ## Removing an item -/

theorem removeItem_contents (p : Filepage) (name : Bytes) :
    (p.removeItem name).contents = p.contents := by
  unfold removeItem
  split <;> rfl

theorem retrieveItem_eq_none_iff : p.retrieveItem name = none ↔ p.contents name = none := by
  unfold retrieveItem
  split
  next h => exact iff_of_true rfl h
  next h => simp [h]

/-- Removing a name removes it and nothing else, in the page and in its file. -/
structure RemovesExactly (raw : Uninit) (p : Filepage) (name : Bytes) : Prop where
  running : (p.removeItem name).retrieveItem name = none
  reopened : (openPage raw p.path (p.removeItem name).close).retrieveItem name = none
  others : ∀ other, other ≠ name → (p.removeItem name).retrieveItem other = p.retrieveItem other ∧
    (openPage raw p.path (p.removeItem name).close).retrieveItem other = p.retrieveItem other

/-- A name that is found before `removeItem` is found after it, so nothing stored is ever removed from
a running page. -/
theorem retrieveItem_removeItem (hstored : p.retrieveItem name ≠ none) (other : Bytes) :
    (p.removeItem other).retrieveItem name ≠ none := by
  intro hgone
  have hcontents := retrieveItem_eq_none_iff.mp hgone
  rw [removeItem_contents] at hcontents
  exact hstored (retrieveItem_eq_none_iff.mpr hcontents)

/-- No stored name is removed, whatever the page has been through. -/
theorem not_removesExactly (raw : Uninit) (hstored : p.retrieveItem name ≠ none) :
    ¬ p.RemovesExactly raw name :=
  fun h => retrieveItem_removeItem hstored name h.running

/-- A page that was just created, with one item. -/
def onePage : Filepage := (createDefault []).storeItem (List.replicate 36 97) [1, 2, 3]

theorem retrieveItem_onePage : onePage.retrieveItem (List.replicate 36 97) ≠ none := by
  rw [Ne, retrieveItem_eq_none_iff]
  decide

theorem not_removesExactly_onePage :
    onePage.retrieveItem (List.replicate 36 97) ≠ none ∧
      ¬ onePage.RemovesExactly ⟨0, 0, 0, 0, 0⟩ (List.replicate 36 97) :=
  ⟨retrieveItem_onePage, not_removesExactly ⟨0, 0, 0, 0, 0⟩ retrieveItem_onePage⟩

/-- The item of a fresh page is still there after it was removed. -/
theorem onePage_keeps_removed :
    ¬ onePage.RemovesExactly ⟨0, 0, 0, 0, 0⟩ (List.replicate 36 97) :=
  fun h => retrieveItem_removeItem retrieveItem_onePage _ h.running

/-! ## Files that are no pages -/

/-- A call on a page object. -/
inductive Call
  | store (name data : Bytes)
  | retrieve (name : Bytes)
  | remove (name : Bytes)

/-- One call, with what `retrieveItem` returns. There is no state after it when the process ends:
`storeItem` divides by `m_Grow`, which is whatever the heap held if `open` returned early. -/
def call (p : Filepage) : Call → Option (Option Bytes × Filepage)
  | .store name data =>
    if name.length ≤ 40 ∧ p.grow = 0 then none else some (none, p.storeItem name data)
  | .retrieve name => some (p.retrieveItem name, p)
  | .remove name => some (none, p.removeItem name)

/-- A sequence of calls, with everything `retrieveItem` returned. -/
def calls : List Call → Filepage → Option (List (Option Bytes) × Filepage)
  | [], p => some ([], p)
  | c :: cs, p => do
    let (answer, p) ← p.call c
    let (answers, p) ← p.calls cs
    some (answer :: answers, p)

/-- A page object on the file `f` survives the calls, never returns an item, and leaves the file as it
was when it is destroyed. -/
def LeavesAlone (raw : Uninit) (path : Path) (f : ByteFile) (cs : List Call) : Prop :=
  ∃ answers p, (openPage raw path f).calls cs = some (answers, p) ∧ p.close = f ∧
    ∀ answer ∈ answers, answer = none

/-- The file starts with the magic of a page. -/
def HasMagic (f : ByteFile) : Prop := 8 ≤ f.size ∧ f.slice 0 8 = pageMagic

/-- A closed file is a page, to judge by its magic. -/
theorem hasMagic_close (p : Filepage) : HasMagic p.close := by
  have hsize : 28 ≤ p.close.size := by
    have hne : p.header.encode ≠ [] := by simp [PageHeader.encode, padTo]
    have := le_size_write p.file 0 hne
    simpa [close, writeHeader] using this
  have hheader : p.close.slice 0 28 = p.header.encode :=
    slice_write_self p.file 0 _ (length_encode_header _)
  refine ⟨by omega, ?_⟩
  have hfield : field (p.close.slice 0 28) 0 8 = p.close.slice 0 8 := slice_slice _ (by decide)
  rw [← hfield, hheader, PageHeader.encode, field_zero_append (by simp)]
  exact padTo_eq_self (show pageMagic.length = 8 by decide)

/-- A file without the magic is never left alone, not even by an object that is never called. -/
theorem not_leavesAlone (raw : Uninit) (path : Path) {f : ByteFile} (hf : ¬ HasMagic f)
    (cs : List Call) : ¬ LeavesAlone raw path f cs := by
  rintro ⟨answers, p, -, hclose, -⟩
  exact hf (hclose ▸ hasMagic_close p)

theorem not_hasMagic_text : ¬ HasMagic (ByteFile.empty.write 0 (ascii "Hello, world")) := by
  rintro ⟨-, hmagic⟩
  revert hmagic
  decide

theorem not_leavesAlone_text :
    ¬ HasMagic (ByteFile.empty.write 0 (ascii "Hello, world")) ∧
      ¬ LeavesAlone ⟨0, 0, 0, 0, 0⟩ [] (ByteFile.empty.write 0 (ascii "Hello, world"))
        [.retrieve [97], .remove [97]] :=
  ⟨not_hasMagic_text, not_leavesAlone _ _ not_hasMagic_text _⟩

/-- Opening a text file as a page and closing it turns its first bytes into a header. -/
theorem text_becomes_page :
    ¬ LeavesAlone ⟨0, 0, 0, 0, 0⟩ [] (ByteFile.empty.write 0 (ascii "Hello, world")) [] := by
  rintro ⟨answers, p, -, hclose, -⟩
  exact not_hasMagic_text (hclose ▸ hasMagic_close p)

end Filepage

end Mavicona.Cynder
