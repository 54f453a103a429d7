import Mavicona.Cynder.FilebasePages
import Mavicona.Cynder.PageReopen

/-!
# Restarting a worker

Reference: `cynder/cynder.cpp` (`initSlave`), `cynder/filebase.h`.

`initSlave` builds `Filebase lfb` without a count, so a start opens page 0 and no other. The number of
pages is saved in the catalogue at shutdown and never read back. A content is therefore readable after
a restart exactly if it is in page 0; contents leave page 0 as soon as its file is flagged full.
-/

namespace Mavicona.Cynder

open Bytes Layout ByteFile Trace

/-! ## A start -/

namespace Filebase

/-- The first page of a start. -/
def firstPage (heap : Uninit) (disk : Path → Option ByteFile) : Filepage :=
  match disk (dbname 0) with
  | none => Filepage.createDefault (dbname 0)
  | some f => Filepage.openPage heap (dbname 0) f

theorem construct_eq (heap : Uninit) (disk : Path → Option ByteFile) :
    construct heap 0 disk =
      { counter := 1
        filepages := [(0, firstPage heap disk)]
        disk := Function.update disk (firstPage heap disk).path (some (firstPage heap disk).file)
        heap := heap } := by
  simp only [construct, acquirePage, enter, newPage, firstPage, pagecounter_dbname_zero,
    OrderedMap.insert, Nat.zero_sub, Nat.add_zero, Function.iterate_one]
  rfl

/-- After a start only page 0 can be read. -/
theorem construct_get (heap : Uninit) (disk : Path → Option ByteFile) (pageNum : ℕ) (name : Bytes) :
    (construct heap 0 disk).get pageNum name
      = if pageNum = 0 then (firstPage heap disk).retrieveItem name else none := by
  rw [construct_eq]
  by_cases hzero : pageNum = 0
  · simp [get, OrderedMap.find, hzero]
  · simp [get, OrderedMap.find, hzero]

/-- If page 0 is full, the first content of a session goes to page 1. -/
theorem construct_put_of_full (heap : Uninit) (disk : Path → Option ByteFile) (name data : Bytes)
    (hfull : (firstPage heap disk).pageFull = true) :
    ((construct heap 0 disk).put name data).1 = 1 := by
  have hnum : (construct heap 0 disk).applicablePage.1 = 1 := by
    rw [construct_eq]
    simp [applicablePage, hfull, acquirePage, pagecounter_dbname_one]
  rw [put]
  simp only
  split <;> exact hnum

end Filebase

/-! ## Page files -/

/-- A page with its index, its data and names that survive being read back. -/
structure Intact (h : History) (p : Filepage) : Prop where
  stored : Stored h p
  data : Data h ((h.length - 1) / 16) p
  names : QuidNames h

namespace Intact

variable {h : History} {p : Filepage}

theorem createDefault (path : Path) : Intact [] (Filepage.createDefault path) where
  stored := Stored.createDefault path
  data := Data.createDefault path
  names := fun j hj => absurd hj (by simp)

theorem storeItem (hp : Intact h p) {name data : Bytes} (hlen : name.length = 36)
    (hnul : 0 ∉ name) (hop : DataGuard p (name, data)) :
    Intact (h ++ [(name, data)]) (p.storeItem name data) where
  stored := hp.stored.storeItem hop.1.1 (hp.stored.index.elements ▸ hop.1.2.1) hop.1.2.2
  data := hp.data.storeItem hp.stored hop.1.1 hop.1.2.2 hop.2
  names := hp.names.append hlen hnul

/-- A page that has the contents map of an intact one, and a file that carries it, can be read. -/
theorem retrieveItem (hp : Intact h p) {q : Filepage} (hcontents : q.contents = p.contents)
    (hfile : Carries q.file p) (name : Bytes) : q.retrieveItem name = lastStored h name := by
  rw [← hp.data.retrieveItem hp.stored, Filepage.retrieveItem, Filepage.retrieveItem, hcontents,
    hp.stored.index.contents]
  rcases contentsOf_cases h name with ⟨hnone, -⟩ | ⟨j, hj, -, hsome⟩
  · rw [hnone]
  · have hoffset : 28 ≤ itemOffset h j := by simp only [itemOffset]; omega
    rw [hsome]
    simp only [FileStream.fread_zeros, FileStream.seekSet_file, FileStream.seekSet_pos,
      FileStream.ofFile_file, hfile.slice _ _ hoffset]

end Intact

/-- The file of a page with history `h`, flagged full or not. -/
def FileOf (h : History) (full : Bool) (f : ByteFile) : Prop :=
  ∃ p, Intact h p ∧ Carries f p ∧
    f.slice 0 28 = ({ p with pageFull := full } : Filepage).header.encode ∧
    (full = false → f = p.file)

namespace FileOf

variable {h : History} {p : Filepage} {full : Bool} {f : ByteFile}

/-- The file of an intact page. -/
theorem of_intact (hp : Intact h p) : FileOf h false p.file := by
  have hpage : ({ p with pageFull := false } : Filepage) = p := by rw [← hp.stored.index.pageFull]
  exact ⟨p, hp, ⟨le_rfl, fun _ _ _ => rfl⟩, by rw [hpage]; exact hp.stored.header, fun _ => rfl⟩

/-- Closing an intact page, with the full flag set or not. -/
theorem close (hp : Intact h p) (full : Bool) :
    FileOf h full ({ p with pageFull := full } : Filepage).close := by
  cases full with
  | false =>
    have hpage : ({ p with pageFull := false } : Filepage) = p := by rw [← hp.stored.index.pageFull]
    rw [hpage, hp.stored.close_eq]
    exact of_intact hp
  | true =>
    have hlen := Filepage.length_encode_header ({ p with pageFull := true } : Filepage).header
    refine ⟨p, hp, ⟨size_le_size_write _ _ _, fun a n ha => ?_⟩, slice_write_self _ _ _ hlen, nofun⟩
    exact slice_write_of_apart _ (by rw [Apart, hlen]; simp; omega)

/-- Opening the file gives back the page, with the flag. -/
theorem openPage (hf : FileOf h full f) (raw : Uninit) (path : Path) :
    (Filepage.openPage raw path f).pageFull = full ∧
    (Filepage.openPage raw path f).path = path ∧
    (Filepage.openPage raw path f).file = f ∧
    (∀ name, (Filepage.openPage raw path f).retrieveItem name = lastStored h name) ∧
    (full = false → Intact h (Filepage.openPage raw path f)) := by
  obtain ⟨p, hp, hcarries, hheader, hfile⟩ := hf
  have hread := hp.retrieveItem (q := { p with path := path, file := f, pageFull := full }) rfl hcarries
  rw [hp.stored.openPage_eq hp.names raw path hcarries full hheader]
  refine ⟨rfl, rfl, rfl, hread, ?_⟩
  rintro rfl
  obtain rfl := hfile rfl
  have hindex := hp.stored.index
  exact
    { stored :=
        { index := { hindex with pageFull := rfl }
          header := hheader
          count := hp.stored.count
          free_lt := hp.stored.free_lt }
      data := ⟨hp.data.data, hp.data.tail⟩
      names := hp.names }

end FileOf

/-- A call the page of a session takes: a 36-byte NUL-free name, fewer than 65536 items, and offsets
below `2 ^ 32`. -/
def Filepage.SessionGuard (p : Filepage) (op : Bytes × Bytes) : Prop :=
  op.1.length = 36 ∧ 0 ∉ op.1 ∧ DataGuard p op

/-- The file of page 0 before a session: there is none, or it is that of a page which was filled in
earlier sessions and may be flagged full. -/
inductive PageZero (disk : Path → Option ByteFile) : History → Bool → Prop
  | absent : disk (dbname 0) = none → PageZero disk [] false
  | closed {path : Path} {h : History} {p : Filepage} (full : Bool) :
      Run Filepage.store Filepage.SessionGuard (Filepage.createDefault path) h p →
      disk (dbname 0) = some ({ p with pageFull := full } : Filepage).close → PageZero disk h full

/-- A start opens page 0 from a file of its history. -/
theorem PageZero.firstPage {disk : Path → Option ByteFile} {h : History} {full : Bool}
    (hz : PageZero disk h full) (heap : Uninit) :
    ∃ f, FileOf h full f ∧ Filebase.firstPage heap disk = Filepage.openPage heap (dbname 0) f := by
  cases hz with
  | absent hnone =>
    have hfresh := Intact.createDefault (dbname 0)
    have hfile := FileOf.of_intact hfresh
    have hopen := hfresh.stored.openPage_eq hfresh.names heap (dbname 0)
      ⟨le_rfl, fun _ _ _ => rfl⟩ false hfresh.stored.header
    exact ⟨_, hfile, by rw [Filebase.firstPage, hnone, hopen]; rfl⟩
  | closed full hr hsome =>
    have hp := hr.invariant (P := Intact) (Intact.createDefault _)
      fun h p op ih hop => ih.storeItem hop.1 hop.2.1 hop.2.2
    exact ⟨_, FileOf.close hp full, by rw [Filebase.firstPage, hsome]⟩

/-! ## A session -/

/-- What the data index has recorded: the content of each name in a page. -/
abbrev Records := ℕ × Bytes → Option Bytes

/-- `Filebase::put`, and the record `DataIndex::put` makes of the page it returns. -/
def sessionPut (s : Filebase × Records) (op : Bytes × Bytes) : Filebase × Records :=
  ((s.1.put op.1 op.2).2, Function.update s.2 (u16 (s.1.put op.1 op.2).1, op.1) (some op.2))

/-- The page a content goes to takes it. -/
def SessionFits (s : Filebase × Records) (op : Bytes × Bytes) : Prop :=
  ∀ v, s.1.filepages.find? (fun v => !v.2.pageFull) = some v → v.2.SessionGuard op

/-- Every recorded content is read back by a worker that is started on the files of `fb`. -/
def ReadableAfterRestart (heap : Uninit) (s : Filebase × Records) : Prop :=
  ∀ pageNum name data, s.2 (pageNum, name) = some data →
    (Filebase.construct heap 0 s.1.disk).get pageNum name = some data

/-- Nothing is ever taken out of the records. -/
theorem recorded_mono {s₀ s : Filebase × Records} {puts : List (Bytes × Bytes)}
    (hr : Run sessionPut SessionFits s₀ puts s) {key : ℕ × Bytes} (hkey : s₀.2 key ≠ none) :
    s.2 key ≠ none := by
  refine hr.invariant (P := fun _ s => s.2 key ≠ none) hkey fun _ s op ih _ => ?_
  by_cases heq : key = (u16 (s.1.put op.1 op.2).1, op.1)
  · simp [sessionPut, heq]
  · simpa [sessionPut, Function.update_of_ne heq] using ih

/-- A session on a page 0 that is not full: the page is the only one, on disk as it is in memory, and
its history is what the records of page 0 come from. -/
structure OnPageZero (old : Records) (h : History) (s : Filebase × Records) (p : Filepage) : Prop where
  page : OnePage s.1 p
  intact : Intact h p
  path : p.path = dbname 0
  disk : s.1.disk (dbname 0) = some p.file
  records : ∀ name data, s.2 (0, name) = some data → lastStored h name = some data
  others : ∀ pageNum name, s.2 (pageNum, name) ≠ none → pageNum = 0 ∨ old (pageNum, name) ≠ none

namespace OnPageZero

variable {old : Records} {h : History} {s : Filebase × Records} {p : Filepage}

theorem start {disk : Path → Option ByteFile} (hz : PageZero disk h false) (heap : Uninit)
    (hold : ∀ name data, old (0, name) = some data → lastStored h name = some data) :
    ∃ p, OnPageZero old h (Filebase.construct heap 0 disk, old) p := by
  obtain ⟨f, hf, hfirst⟩ := hz.firstPage heap
  obtain ⟨hfull, hpath, -, -, hintact⟩ := hf.openPage heap (dbname 0)
  rw [← hfirst] at hfull hpath hintact
  refine ⟨Filebase.firstPage heap disk, ?_⟩
  exact
    { page := by rw [Filebase.construct_eq]; exact ⟨rfl, hfull⟩
      intact := hintact rfl
      path := hpath
      disk := by rw [Filebase.construct_eq]; simp [hpath]
      records := hold
      others := fun _ _ hne => .inr hne }

/-- A put enters the page again and records its content under page 0. -/
theorem sessionPut_eq (hs : OnPageZero old h s p) (op : Bytes × Bytes) :
    sessionPut s op = (s.1.enter 0 (p.storeItem op.1 op.2),
      Function.update s.2 (0, op.1) (some op.2)) := by
  have hput : s.1.put op.1 op.2 = (0, s.1.enter 0 (p.storeItem op.1 op.2)) := hs.page.put op.1 op.2
  simp [sessionPut, hput, u16]

theorem put (hs : OnPageZero old h s p) {op : Bytes × Bytes} (hop : SessionFits s op) :
    OnPageZero old (h ++ [op]) (sessionPut s op) (p.storeItem op.1 op.2) := by
  obtain ⟨hlen, hnul, hguard⟩ := hop (0, p) hs.page.find?
  rw [hs.sessionPut_eq op]
  refine ⟨?_, hs.intact.storeItem hlen hnul hguard, ?_, ?_, ?_, ?_⟩
  · exact hs.page.enter (by simp [hs.page.pageFull])
  · rw [Filepage.storeItem_path, hs.path]
  · simp [Filebase.enter, hs.path]
  · intro name data (hdata : Function.update s.2 (0, op.1) (some op.2) (0, name) = some data)
    rw [lastStored_append]
    by_cases hname : op.1 = name
    · subst hname
      simpa using hdata
    · rw [Function.update_of_ne (by simpa using Ne.symm hname)] at hdata
      rw [if_neg hname]
      exact hs.records name data hdata
  · intro pageNum name (hne : Function.update s.2 (0, op.1) (some op.2) (pageNum, name) ≠ none)
    by_cases heq : (pageNum, name) = (0, op.1)
    · exact .inl (Prod.mk.inj heq).1
    · rw [Function.update_of_ne heq] at hne
      exact hs.others pageNum name hne

/-- Puts that fit page 0 together with what it holds already make a session. -/
theorem run_of_fitsPage (hs : OnPageZero old h s p) {puts : List (Bytes × Bytes)}
    (hfits : FitsPage (h ++ puts)) :
    ∃ s' p', Run sessionPut SessionFits s puts s' ∧ OnPageZero old (h ++ puts) s' p' ∧
      s'.2 = puts.foldl (fun r op => Function.update r (0, op.1) (some op.2)) s.2 := by
  induction puts using List.reverseRecOn with
  | nil => exact ⟨s, p, .nil, by simpa using hs, rfl⟩
  | append_singleton puts op ih =>
    rw [← List.append_assoc] at hfits ⊢
    obtain ⟨s', p', hrun, hs', hrecords⟩ := ih hfits.of_append
    obtain ⟨hname, hnul, hcount, hfree⟩ := hfits.last hs'.intact.stored.counted
    have hop : SessionFits s' op := by
      intro v hv
      obtain rfl : (0, p') = v := Option.some.inj (hs'.page.find?.symm.trans hv)
      refine ⟨hname, hnul, ⟨by omega, hcount, ?_⟩, fun _ => ?_⟩
      · show p'.dataStart + op.2.length < 2 ^ 32
        omega
      · show p'.dataStart + p'.itemSize * p'.grow < 2 ^ 32
        omega
    refine ⟨_, _, .snoc hrun hop, hs'.put hop, ?_⟩
    rw [hs'.sessionPut_eq, hrecords, List.foldl_append]
    rfl

/-- What is recorded of page 0 is read back after a restart. -/
theorem readable (hs : OnPageZero old h s p) (heap : Uninit)
    (hzero : ∀ pageNum name, old (pageNum, name) ≠ none → pageNum = 0) :
    ReadableAfterRestart heap s := by
  intro pageNum name data hdata
  obtain rfl : pageNum = 0 := by
    rcases hs.others pageNum name (by simp [hdata]) with hnum | hold
    · exact hnum
    · exact hzero pageNum name hold
  obtain ⟨-, -, -, hread, -⟩ := (FileOf.of_intact hs.intact).openPage heap (dbname 0)
  rw [Filebase.construct_get, if_pos rfl, Filebase.firstPage, hs.disk, hread]
  exact hs.records name data hdata

end OnPageZero

/-- A start alone changes nothing, also on a page that is full. -/
theorem readable_of_no_put {disk : Path → Option ByteFile} {h : History} {full : Bool} {old : Records}
    (hz : PageZero disk h full) (heap heap' : Uninit)
    (hold : ∀ name data, old (0, name) = some data → lastStored h name = some data)
    (hzero : ∀ pageNum name, old (pageNum, name) ≠ none → pageNum = 0) :
    ReadableAfterRestart heap' (Filebase.construct heap 0 disk, old) := by
  obtain ⟨f, hf, hfirst⟩ := hz.firstPage heap
  obtain ⟨-, hpath, hfile, -, -⟩ := hf.openPage heap (dbname 0)
  obtain ⟨-, -, -, hread, -⟩ := hf.openPage heap' (dbname 0)
  have hdisk : (Filebase.construct heap 0 disk).disk (dbname 0) = some f := by
    rw [Filebase.construct_eq, hfirst, hpath, hfile]
    exact Function.update_self (dbname 0) (some f) disk
  intro pageNum name data hdata
  obtain rfl := hzero pageNum name (by rw [show old (pageNum, name) = some data from hdata]; simp)
  rw [Filebase.construct_get, if_pos rfl, Filebase.firstPage, hdisk, hread]
  exact hold name data hdata

/-- A recorded page other than 0 cannot be read after a restart. -/
theorem not_readable_of_ne_zero {heap : Uninit} {s : Filebase × Records} {pageNum : ℕ} {name : Bytes}
    (hrecord : s.2 (pageNum, name) ≠ none) (hne : pageNum ≠ 0) : ¬ ReadableAfterRestart heap s := by
  intro hreadable
  obtain ⟨data, hdata⟩ := Option.ne_none_iff_exists'.mp hrecord
  have hget := hreadable pageNum name data hdata
  rw [Filebase.construct_get, if_neg hne] at hget
  exact nomatch hget

/-- If page 0 is full, the first content of a session is recorded in page 1. -/
theorem recorded_of_full {disk : Path → Option ByteFile} {heap : Uninit} {h : History}
    {old : Records} {puts : List (Bytes × Bytes)} {s : Filebase × Records}
    (hz : PageZero disk h true)
    (hr : Run sessionPut SessionFits (Filebase.construct heap 0 disk, old) puts s)
    (hputs : puts ≠ []) : ∃ name, s.2 (1, name) ≠ none := by
  obtain ⟨f, hf, hfirst⟩ := hz.firstPage heap
  obtain ⟨hfull, -, -, -, -⟩ := hf.openPage heap (dbname 0)
  rw [← hfirst] at hfull
  have hinv := hr.invariant (P := fun puts s =>
    (puts = [] → s = (Filebase.construct heap 0 disk, old)) ∧
    (puts ≠ [] → ∃ name, s.2 (1, name) ≠ none)) ⟨fun _ => rfl, fun hne => absurd rfl hne⟩ ?_
  · exact hinv.2 hputs
  · rintro puts s op ⟨hfirstPut, hlater⟩ hop
    refine ⟨fun hnil => absurd hnil (by simp), fun _ => ?_⟩
    by_cases hnil : puts = []
    · obtain rfl := hfirstPut hnil
      have hone := Filebase.construct_put_of_full heap disk op.1 op.2 hfull
      exact ⟨op.1, by simp [sessionPut, hone, u16]⟩
    · obtain ⟨name, hname⟩ := hlater hnil
      exact ⟨name, recorded_mono (Run.single hop) hname⟩

/-- **When large contents survive a restart.** Let page 0 be absent or the file of a page filled in
earlier sessions, flagged full or not, and let the data index have recorded contents of it and of any
other pages. After a session of puts, with 36-byte NUL-free names and offsets below `2 ^ 32`, and a new
start, every recorded content is read back if and only if no earlier session has recorded a page other
than 0, and the session has put nothing or page 0 is not flagged full. -/
theorem readable_after_restart_iff {disk : Path → Option ByteFile} {heap heap' : Uninit} {h : History}
    {full : Bool} {old : Records} {puts : List (Bytes × Bytes)} {s : Filebase × Records}
    (hz : PageZero disk h full)
    (hold : ∀ name data, old (0, name) = some data → lastStored h name = some data)
    (hr : Run sessionPut SessionFits (Filebase.construct heap 0 disk, old) puts s) :
    ReadableAfterRestart heap' s ↔
      (∀ pageNum name, old (pageNum, name) ≠ none → pageNum = 0) ∧ (puts = [] ∨ full = false) := by
  constructor
  · intro hreadable
    refine ⟨fun pageNum name hne => ?_, ?_⟩
    · by_contra hpage
      exact not_readable_of_ne_zero (recorded_mono hr hne) hpage hreadable
    · by_contra hcond
      obtain ⟨hputs, hfull⟩ := not_or.mp hcond
      rw [Bool.not_eq_false] at hfull
      subst hfull
      obtain ⟨name, hname⟩ := recorded_of_full hz hr hputs
      exact not_readable_of_ne_zero hname one_ne_zero hreadable
  · rintro ⟨hzero, hcond⟩
    cases full with
    | false =>
      obtain ⟨p₀, hs₀⟩ := OnPageZero.start hz heap hold
      obtain ⟨p, hs⟩ := hr.invariant (P := fun puts s => ∃ p, OnPageZero old (h ++ puts) s p)
        ⟨p₀, by simpa using hs₀⟩ fun puts s op ih hop => by
          obtain ⟨p, hs⟩ := ih
          exact ⟨_, by simpa [List.append_assoc] using hs.put hop⟩
      exact hs.readable heap' hzero
    | true =>
      obtain rfl : puts = [] := by simpa using hcond
      rw [show s = (Filebase.construct heap 0 disk, old) from hr.eq_foldl]
      exact readable_of_no_put hz heap heap' hold hzero

/-- A session on a page 0 with eighteen items from an earlier one: a new content, and a new content of
a name that was recorded before. -/
theorem readable_after_restart_twoBlocks :
    ∃ (disk : Path → Option ByteFile) (s : Filebase × Records),
      PageZero disk twoBlocks false ∧ ReadableAfterRestart ⟨7, 7, 7, 7, 7⟩ s ∧
      s.2 (0, quidName 1) = some [5] ∧ s.2 (0, quidName 17) = some [17, 17, 17] ∧
      s.2 (0, quidName 18) = some [1, 2] := by
  obtain ⟨p, hrun, -⟩ := (fitsPage_twoBlocks.run fun p op hlen hnul hcount hfree =>
    (⟨hlen, hnul, ⟨by omega, hcount, by unfold Filepage.OffsetFits; omega⟩, fun _ => by omega⟩ :
      Filepage.SessionGuard p op) : ∃ p, Run Filepage.store Filepage.SessionGuard
        (Filepage.createDefault []) twoBlocks p ∧ Counted twoBlocks p)
  have hz : PageZero (Function.update (fun _ => none) (dbname 0)
      (some ({ p with pageFull := false } : Filepage).close)) twoBlocks false :=
    .closed false hrun (Function.update_self ..)
  let old : Records := fun key =>
    if key = (0, quidName 1) then some [0, 255]
    else if key = (0, quidName 17) then some [17, 17, 17] else none
  have hold : ∀ name data, old (0, name) = some data → lastStored twoBlocks name = some data := by
    intro name data hdata
    simp only [old, Prod.mk.injEq, true_and] at hdata
    split_ifs at hdata with hfirst hlast
    · rw [hfirst, ← hdata]
      decide
    · rw [hlast, ← hdata]
      decide
  have hzero : ∀ pageNum name, old (pageNum, name) ≠ none → pageNum = 0 := by
    intro pageNum name hne
    by_contra hpage
    exact hne (by simp [old, hpage])
  have hfits : FitsPage (twoBlocks ++ [(quidName 18, [1, 2]), (quidName 1, [5])]) := by
    refine ⟨fun op hop => ?_, by decide, by decide⟩
    rcases List.mem_append.mp hop with hop | hop
    · exact fitsPage_twoBlocks.names op hop
    · simp only [List.mem_cons, List.not_mem_nil, or_false] at hop
      rcases hop with rfl | rfl
      · simp [quidName]
      · simp [quidName]
  obtain ⟨q, hs⟩ := OnPageZero.start hz ⟨0, 0, 0, 0, 0⟩ hold
  obtain ⟨s, -, hsession, -, hrecords⟩ := hs.run_of_fitsPage hfits
  refine ⟨_, s, hz, (readable_after_restart_iff hz hold hsession).mpr ⟨hzero, .inr rfl⟩, ?_⟩
  rw [hrecords]
  simp [old, quidName]

/-- A page 0 that was flagged full sends the next content to page 1, which the next start does not
open. -/
theorem not_readable_after_restart :
    let disk : Path → Option ByteFile := Function.update (fun _ => none) (dbname 0)
      (some ({ Filepage.createDefault (dbname 0) with pageFull := true } : Filepage).close)
    let s := sessionPut (Filebase.construct ⟨0, 0, 0, 0, 0⟩ 0 disk, fun _ => none)
      (List.replicate 36 97, [1, 2, 3])
    PageZero disk [] true ∧ ¬ ReadableAfterRestart ⟨0, 0, 0, 0, 0⟩ s := by
  intro disk s
  have hz : PageZero disk [] true := .closed true .nil (Function.update_self ..)
  refine ⟨hz, ?_⟩
  obtain ⟨f, hf, hfirst⟩ := hz.firstPage ⟨0, 0, 0, 0, 0⟩
  obtain ⟨hfull, -, -, -, -⟩ := hf.openPage ⟨0, 0, 0, 0, 0⟩ (dbname 0)
  have hfits : SessionFits (Filebase.construct ⟨0, 0, 0, 0, 0⟩ 0 disk, fun _ => none)
      (List.replicate 36 97, [1, 2, 3]) := by
    intro v hv
    rw [Filebase.construct_eq, hfirst, List.find?_cons_of_neg (by simp [hfull])] at hv
    exact nomatch hv
  obtain ⟨name, hname⟩ := recorded_of_full hz (Run.single hfits) (List.cons_ne_nil _ _)
  exact not_readable_of_ne_zero hname one_ne_zero

end Mavicona.Cynder
