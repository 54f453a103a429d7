import Mavicona.Cynder.FilebasePages
import Mavicona.Cynder.WorkerFacts

/-!
# The pages of a file base and their numbers

Reference: `cynder/filebase.h`, `cynder/data_index.cpp`.

A page is printed into a file name, found again under the number read from that name, and recorded in
the data index as an `unsigned short`. The last step never loses anything, because a number has at most
four digits; the first two agree up to page 9999. Page 10000 takes the place of page 1000.
-/

namespace Mavicona.Cynder

open Bytes Trace

namespace Filebase

/-- A file base for which `acquirePage` was called `n` times, with the counters from 0 on. -/
def acquirePages (heap : Uninit) (disk : Path → Option ByteFile) (n : ℕ) : Filebase :=
  (fun fb => fb.acquirePage.2)^[n] { counter := 0, filepages := [], disk := disk, heap := heap }

/-- The page `Filebase::put` stores to. -/
def chosenPage (fb : Filebase) : Option Filepage :=
  OrderedMap.find fb.applicablePage.1 fb.applicablePage.2.filepages

/-- One call of `Filebase::put`. -/
def putStep (fb : Filebase) (op : Bytes × Bytes) : Filebase := (fb.put op.1 op.2).2

/-- Some page is not full, so that `put` does not acquire another one. -/
def Roomy (fb : Filebase) : Prop := ∃ e ∈ fb.filepages, e.2.pageFull = false

/-- The file of the page under a number. -/
def pathOf (fb : Filebase) (pageNum : ℕ) : Option Path :=
  (OrderedMap.find pageNum fb.filepages).map Filepage.path

section

variable {fb fb' : Filebase} {page : Filepage}

theorem put_eq (h : fb.chosenPage = some page) (name data : Bytes) :
    fb.put name data
      = (fb.applicablePage.1,
          fb.applicablePage.2.enter fb.applicablePage.1 (page.storeItem name data)) := by
  have h' : OrderedMap.find fb.applicablePage.1 fb.applicablePage.2.filepages = some page := h
  simp only [put, h']

/-- With a page that is not full, `applicablePage` finds one. -/
theorem Roomy.applicablePage (h : fb.Roomy) :
    ∃ e ∈ fb.filepages, e.2.pageFull = false ∧ fb.applicablePage = (e.1, fb) := by
  obtain ⟨e, he, hfull⟩ := h
  have hsome : (fb.filepages.find? fun v => !v.2.pageFull).isSome :=
    List.find?_isSome.mpr ⟨e, he, by simp [hfull]⟩
  obtain ⟨v, hv⟩ := Option.isSome_iff_exists.mp hsome
  refine ⟨v, List.mem_of_find?_eq_some hv, ?_, ?_⟩
  · simpa using List.find?_some hv
  · simp only [Filebase.applicablePage, hv]

/-- `put` always has a page to store to. -/
theorem exists_chosenPage (fb : Filebase) : ∃ page, fb.chosenPage = some page := by
  unfold chosenPage applicablePage
  split
  next v hv =>
    exact Option.ne_none_iff_exists'.mp (OrderedMap.find_ne_none (List.mem_of_find?_eq_some hv))
  next => exact ⟨fb.newPage (dbname fb.counter), OrderedMap.find_insert_self⟩

@[simp] theorem pathOf_enter_self (pageNum : ℕ) :
    (fb.enter pageNum page).pathOf pageNum = some page.path := by
  simp [pathOf, enter]

theorem pathOf_enter_of_ne {k pageNum : ℕ} (h : k ≠ pageNum) :
    (fb.enter pageNum page).pathOf k = fb.pathOf k := by
  simp only [pathOf, enter, OrderedMap.find_insert_of_ne h]

/-- A call that acquires no page leaves every number with its file. -/
theorem pathOf_putStep (h : fb.Roomy) (op : Bytes × Bytes) (k : ℕ) :
    (fb.putStep op).pathOf k = fb.pathOf k := by
  obtain ⟨page, hpage⟩ := fb.exists_chosenPage
  obtain ⟨e, -, -, happ⟩ := h.applicablePage
  have hfind : OrderedMap.find e.1 fb.filepages = some page := by
    simpa only [Filebase.chosenPage, happ] using hpage
  rw [putStep, put_eq hpage, happ]
  by_cases hk : k = e.1
  · rw [hk, pathOf_enter_self, Filepage.storeItem_path, pathOf, hfind, Option.map_some]
  · rw [pathOf_enter_of_ne hk]

theorem pathOf_run {puts : List (Bytes × Bytes)}
    (h : Run putStep (fun fb _ => fb.Roomy) fb puts fb') (k : ℕ) : fb'.pathOf k = fb.pathOf k := by
  refine h.invariant (P := fun _ fb' => fb'.pathOf k = fb.pathOf k) rfl ?_
  intro _ fb₁ op ih hroomy
  rw [pathOf_putStep hroomy, ih]

/-! ## Numbers have four digits -/

/-- Every page has a number of at most four digits. -/
def FourDigits (fb : Filebase) : Prop := ∀ e ∈ fb.filepages, e.1 < 10000

theorem FourDigits.enter (h : fb.FourDigits) {pageNum : ℕ} (hnum : pageNum < 10000) :
    (fb.enter pageNum page).FourDigits := by
  intro e he
  rcases OrderedMap.mem_of_mem_insert he with rfl | he
  · exact hnum
  · exact h e he

theorem FourDigits.acquirePage (h : fb.FourDigits) : fb.acquirePage.2.FourDigits :=
  have hcounted : { fb with counter := u32 (fb.counter + 1) }.FourDigits := h
  hcounted.enter (pagecounter_dbname_lt fb.counter)

theorem FourDigits.applicablePage (h : fb.FourDigits) :
    fb.applicablePage.1 < 10000 ∧ fb.applicablePage.2.FourDigits := by
  unfold Filebase.applicablePage
  split
  next v hv => exact ⟨h v (List.mem_of_find?_eq_some hv), h⟩
  next => exact ⟨pagecounter_dbname_lt fb.counter, h.acquirePage⟩

theorem FourDigits.put (h : fb.FourDigits) (name data : Bytes) :
    (fb.put name data).1 < 10000 ∧ (fb.put name data).2.FourDigits := by
  obtain ⟨hnum, hpages⟩ := h.applicablePage
  unfold Filebase.put
  dsimp only
  split
  · exact ⟨hnum, hpages⟩
  · exact ⟨hnum, hpages.enter hnum⟩

end

/-! ## The pages acquired so far -/

section

variable {heap : Uninit} {disk : Path → Option ByteFile}

theorem newPage_path (fb : Filebase) (file : Path) : (fb.newPage file).path = file := by
  unfold newPage
  split
  · rfl
  · unfold Filepage.openPage
    dsimp only
    split_ifs <;> rfl

theorem acquirePages_succ (n : ℕ) :
    acquirePages heap disk (n + 1) = (acquirePages heap disk n).acquirePage.2 :=
  Function.iterate_succ_apply' _ _ _

theorem fourDigits_acquirePages (n : ℕ) : (acquirePages heap disk n).FourDigits := by
  induction n with
  | zero => exact fun e he => absurd he (by simp [acquirePages])
  | succ n ih =>
    rw [acquirePages_succ]
    exact ih.acquirePage

/-- Up to 10000 pages each has the number of its counter and the file named after it. -/
theorem acquirePages_spec {n : ℕ} (hn : n ≤ 10000) :
    (acquirePages heap disk n).counter = n ∧
    (acquirePages heap disk n).filepages.map Prod.fst = List.range n ∧
    ∀ k < n, (acquirePages heap disk n).pathOf k = some (dbname k) := by
  induction n with
  | zero => exact ⟨rfl, rfl, fun k hk => absurd hk (Nat.not_lt_zero k)⟩
  | succ n ih =>
    obtain ⟨hcounter, hkeys, hpaths⟩ := ih (by omega)
    have hnum : pagecounter (dbname n) = n := pagecounter_dbname_of_lt (by omega)
    have hlast : ∀ e ∈ (acquirePages heap disk n).filepages, e.1 < n := by
      intro e he
      have hmem : e.1 ∈ (acquirePages heap disk n).filepages.map Prod.fst :=
        List.mem_map_of_mem he
      rwa [hkeys, List.mem_range] at hmem
    rw [acquirePages_succ]
    refine ⟨?_, ?_, fun k hk => ?_⟩
    · simp only [acquirePage, enter, hcounter]
      exact u32_of_lt (by omega)
    · simp only [acquirePage, enter, hcounter, hnum, OrderedMap.insert_of_lt hlast,
        List.map_append, hkeys, List.range_succ, List.map_cons, List.map_nil]
    · simp only [acquirePage, hcounter, hnum]
      rcases Nat.lt_succ_iff_lt_or_eq.mp hk with hk | rfl
      · rw [pathOf_enter_of_ne hk.ne]
        exact hpaths k hk
      · rw [pathOf_enter_self, newPage_path]

end

end Filebase

/-! ## Records of the data index -/

/-- Whatever large content is put, the record names the page `Filebase::put` returned, `get` reads that
page, and as long as no page is acquired the number leads to the file the content was written to. -/
def ConsultsWritten (w : Worker) : Prop :=
  ∀ quid key value override, cropQuid quid = some key → isLarge value = true →
    (w.dataPut quid value override).1 = .ok () →
    ∃ record page, (w.dataPut quid value override).2.adi.get key = .ok record ∧
      (StorageType.decode record).page = (w.lfb.put key value).1 ∧
      w.lfb.chosenPage = some page ∧
      (w.dataPut quid value override).2.dataGet quid
        = (match (page.storeItem key value).retrieveItem key with
          | none => .error .crash
          | some content => .ok content) ∧
      ∀ puts fb, Run Filebase.putStep (fun fb _ => fb.Roomy)
          (w.dataPut quid value override).2.lfb puts fb →
        fb.pathOf (StorageType.decode record).page = some page.path

/-- The record of large content leads to the page it was stored in. A page number fits the
`unsigned short` of the record because it has at most four digits. -/
theorem consultsWritten {w : Worker} (h : w.lfb.FourDigits) : ConsultsWritten w := by
  intro quid key value override hcrop hlarge hok
  obtain ⟨page, hpage⟩ := w.lfb.exists_chosenPage
  have hkey : key.length = 36 := length_of_cropQuid hcrop
  have hnum : (w.lfb.put key value).1 < 2 ^ 16 := (h.put key value).1.trans (by decide)
  have hput := Filebase.put_eq hpage key value
  have hworker : (w.dataPut quid value override).2
      = { w with
          adi := Function.update w.adi key (some (lfbValue (w.lfb.put key value).1))
          lfb := (w.lfb.put key value).2 } := by
    simp only [Worker.dataPut, hcrop, hlarge, if_true] at hok ⊢
    cases hadi : w.adi.put key (lfbValue (w.lfb.put key value).1) override with
    | error e => simp [hadi] at hok
    | ok adi =>
      rw [Db.put, upsKey_of_length hkey] at hadi
      split_ifs at hadi
      rw [← Except.ok.inj hadi]
  have hget : (w.dataPut quid value override).2.adi.get key
      = .ok (lfbValue (w.lfb.put key value).1) := by
    rw [hworker]
    exact Db.get_some hkey (Function.update_self ..)
  have hrecord : (StorageType.decode (lfbValue (w.lfb.put key value).1)).page
      = (w.lfb.put key value).1 := by
    rw [Worker.decode_lfbValue hnum]
  refine ⟨lfbValue (w.lfb.put key value).1, page, hget, hrecord, hpage, ?_, ?_⟩
  · have hentry : (w.dataPut quid value override).2.lfb.get (w.lfb.put key value).1 key
        = (page.storeItem key value).retrieveItem key := by
      rw [hworker, hput]
      simp [Filebase.get, Filebase.enter]
    have hread := @Worker.readRecord_lfbValue (w.dataPut quid value override).2 key _ hnum
    rw [hentry] at hread
    simp only [Worker.dataGet, hcrop, hget]
    exact hread
  · intro puts fb hrun
    rw [hrecord, Filebase.pathOf_run hrun, hworker, hput, Filebase.pathOf_enter_self,
      Filepage.storeItem_path]

/-- Large-file pages do not alias after `acquirePage` was called `n` times. -/
structure PagesApart (heap : Uninit) (disk : Path → Option ByteFile) (n : ℕ) : Prop where
  number : ∀ k < n, pagecounter (dbname k) = k
  entries : (Filebase.acquirePages heap disk n).filepages.map Prod.fst = List.range n
  files : ∀ k < n, (Filebase.acquirePages heap disk n).pathOf k = some (dbname k)
  records : ∀ (w : Worker) puts, Run Filebase.putStep (fun fb _ => fb.Roomy)
    (Filebase.acquirePages heap disk n) puts w.lfb → ConsultsWritten w

theorem Filebase.FourDigits.of_run {fb fb' : Filebase} {puts : List (Bytes × Bytes)}
    (h : fb.FourDigits) (hrun : Run Filebase.putStep (fun fb _ => fb.Roomy) fb puts fb') :
    fb'.FourDigits :=
  hrun.invariant (P := fun _ fb' => fb'.FourDigits) h fun _ _ op ih _ => (ih.put op.1 op.2).2

/-- The pages are told apart exactly up to the last number of four digits. -/
theorem pagesApart_iff (heap : Uninit) (disk : Path → Option ByteFile) (n : ℕ) :
    PagesApart heap disk n ↔ n ≤ 10000 := by
  constructor
  · intro h
    by_contra hn
    have hnumber := h.number 10000 (by omega)
    have hlt := pagecounter_dbname_lt 10000
    omega
  · intro hn
    obtain ⟨-, hkeys, hpaths⟩ := @Filebase.acquirePages_spec heap disk n hn
    refine ⟨fun k hk => pagecounter_dbname_of_lt (by omega), hkeys, hpaths, ?_⟩
    intro w puts hrun
    exact consultsWritten ((Filebase.fourDigits_acquirePages n).of_run hrun)

/-- Page 10000 is read back as another number. -/
theorem not_pagesApart_10001 :
    ¬ PagesApart ⟨0, 0, 0, 0, 0⟩ (fun _ => none) 10001 := by
  intro h
  have hnumber := h.number 10000 (by decide)
  have hlt := pagecounter_dbname_lt 10000
  omega

end Mavicona.Cynder
