import Mavicona.Scrape.Ini

/-!
# What the handler of a configuration is called for

Reference: `scrape/ini.c`.

Whatever a file is, a handler gets names and values that are well formed: the loop keeps such names, as
a line is stripped before it is taken apart and a part of it ends where a separator or a comment starts.
-/

namespace Mavicona.Scrape

open Bytes Numeral

/-- A name of a section. -/
structure SectOk (sect : Bytes) : Prop where
  length : sect.length ≤ 49
  chars : 93 ∉ sect
  quiet : quiet false sect = true
  onLine : OnLine sect

/-- A name of a value. -/
structure NameOk (name : Bytes) : Prop where
  chars : ∀ b ∈ name, b ≠ 61 ∧ b ≠ 58
  quiet : Scrape.quiet false name = true
  head : ∀ b ∈ name.head?, isSpace b = false ∧ b ≠ 59 ∧ b ≠ 35 ∧ b ≠ 91
  onLine : OnLine name

/-- What a handler can rely on. -/
structure WellFormed (sect name value : Bytes) : Prop where
  sect : SectOk sect
  name : NameOk name
  value_stripped : Stripped value
  value_onLine : OnLine value

section Calls

variable {σ : Type} {handler : IniHandler σ} {st : IniState σ} {n : ℕ} {indented : Bool}
  {s t chars : Bytes} {w : Bool}

theorem quiet_of_isPrefix (hst : s <+: t) (h : quiet w t = true) : quiet w s = true := by
  induction s generalizing w t with
  | nil => rfl
  | cons c s ih =>
    obtain ⟨r, rfl⟩ := hst
    rw [List.cons_append, quiet, Bool.and_eq_true] at h
    rw [quiet, h.1, ih (List.prefix_append s r) h.2]
    rfl

theorem OnLine.of_subset (ht : OnLine t) (h : s ⊆ t) : OnLine s := fun b hb => ht b (h hb)

theorem head?_of_isPrefix (hst : s <+: t) {P : UInt8 → Prop} (h : ∀ b ∈ t.head?, P b) :
    ∀ b ∈ s.head?, P b := by
  obtain ⟨r, rfl⟩ := hst
  cases s with
  | nil => exact fun b hb => absurd hb (Option.not_mem_none b)
  | cons c s => exact h

theorem rstrip_isPrefix (s : Bytes) : rstrip s <+: s := List.rdropWhile_prefix _ s

theorem getLast?_rstrip (s : Bytes) : ∀ b ∈ (rstrip s).getLast?, isSpace b = false := by
  intro b hb
  have hne : rstrip s ≠ [] := by rintro h; rw [h] at hb; exact absurd hb (Option.not_mem_none b)
  rw [List.getLast?_eq_some_getLast hne] at hb
  have hlast : ¬ isSpace ((rstrip s).getLast hne) = true := List.rdropWhile_last_not isSpace s hne
  rw [← Option.some.inj hb]
  exact Bool.eq_false_of_not_eq_true hlast

theorem stripped_rstrip (hs : ∀ b ∈ s.head?, isSpace b = false) : Stripped (rstrip s) :=
  ⟨head?_of_isPrefix (rstrip_isPrefix s) hs, getLast?_rstrip s⟩

theorem head?_lskip (s : Bytes) : ∀ b ∈ (lskip s).head?, isSpace b = false := by
  intro b hb
  have := List.head?_dropWhile_not isSpace s
  rw [lskip] at hb
  rw [hb] at this
  simpa using this

theorem nameOk_nil : NameOk [] where
  chars := fun _ hb => absurd hb List.not_mem_nil
  quiet := rfl
  head := fun b hb => absurd hb (Option.not_mem_none b)
  onLine := fun _ hb => absurd hb List.not_mem_nil

theorem NameOk.of_isPrefix (ht : NameOk t) (hst : s <+: t) : NameOk s where
  chars b hb := ht.chars b (hst.subset hb)
  quiet := quiet_of_isPrefix hst ht.quiet
  head := head?_of_isPrefix hst ht.head
  onLine := ht.onLine.of_subset hst.subset

/-- What the loop keeps: names that are well formed, and what the handler keeps for such names. -/
structure LoopOk (P : σ → Prop) (st : IniState σ) : Prop where
  sect : SectOk st.sect
  name : NameOk st.prevName
  user : P st.user

variable {P : σ → Prop}

theorem LoopOk.fail (h : LoopOk P st) : LoopOk P (st.fail n) := ⟨h.sect, h.name, h.user⟩

theorem LoopOk.call (h : LoopOk P st)
    (hP : ∀ u sect name value, P u → WellFormed sect name value → P (handler u sect name value).2)
    {name value : Bytes} (hcall : WellFormed st.sect name value) :
    LoopOk P (st.call handler n name value) := by
  have huser := hP st.user st.sect name value h.user hcall
  simp only [IniState.call]
  split_ifs
  · exact ⟨h.sect, h.name, huser⟩
  · exact ⟨h.sect, h.name, huser⟩

/-- A stripped line keeps it. -/
theorem LoopOk.text (h : LoopOk P st)
    (hP : ∀ u sect name value, P u → WellFormed sect name value → P (handler u sect name value).2)
    (hs : Stripped s) (honLine : OnLine s) : LoopOk P (iniText handler n indented s st) := by
  cases s with
  | nil => exact h
  | cons c rest =>
    simp only [iniText]
    split_ifs with hcomment hmore hsect hclosed hsep
    · exact h
    · exact h.call hP ⟨h.sect, h.name, hs, honLine⟩
    · obtain ⟨hsplit, hchars, hquiet⟩ := findCharsOrComment_spec [93] false rest
      set name := (findCharsOrComment [93] false rest).1
      have hstart : strncpy0 name <+: name := List.take_prefix _ _
      have hsub : name ⊆ rest := hsplit ▸ List.subset_append_left name _
      refine ⟨⟨List.length_take_le 49 name, fun hmem => ?_, quiet_of_isPrefix hstart hquiet, ?_⟩,
        nameOk_nil, h.user⟩
      · exact hchars 93 (hstart.subset hmem) List.mem_cons_self
      · exact honLine.of_subset fun b hb => List.mem_cons_of_mem c (hsub (hstart.subset hb))
    · exact h.fail
    · obtain ⟨hsplit, hchars, hquiet⟩ := findCharsOrComment_spec [61, 58] false (c :: rest)
      set name := (findCharsOrComment [61, 58] false (c :: rest)).1
      set stop := (findCharsOrComment [61, 58] false (c :: rest)).2
      have hname : NameOk name := by
        refine ⟨fun b hb => ?_, hquiet, ?_, ?_⟩
        · have := hchars b hb
          simpa using this
        · refine head?_of_isPrefix ⟨stop, hsplit⟩ fun b hb => ?_
          obtain rfl := Option.some.inj hb
          exact ⟨hs.1 c rfl, (not_or.mp hcomment).1, (not_or.mp hcomment).2, hsect⟩
        · exact honLine.of_subset (hsplit ▸ List.subset_append_left name stop)
      have hvalue := findCharsOrComment_spec [] false (lskip stop.tail)
      set value := (findCharsOrComment [] false (lskip stop.tail)).1
      have hstart : value <+: lskip stop.tail := ⟨_, hvalue.1⟩
      have hrstrip := hname.of_isPrefix (rstrip_isPrefix name)
      have hst : LoopOk P { st with prevName := strncpy0 (rstrip name) } :=
        ⟨h.sect, hrstrip.of_isPrefix (List.take_prefix _ _), h.user⟩
      refine hst.call hP ⟨h.sect, hrstrip, ?_, ?_⟩
      · exact stripped_rstrip (head?_of_isPrefix hstart (head?_lskip _))
      · refine honLine.of_subset fun b hb => ?_
        rw [← hsplit]
        refine List.mem_append_right _ (List.mem_of_mem_tail ?_)
        exact (List.dropWhile_suffix _).subset (hstart.subset ((rstrip_isPrefix _).subset hb))
    · exact h.fail

/-- A part of a file with no end of a line before its last byte. -/
def OneLine (s : Bytes) : Prop := 10 ∉ s.dropLast ∧ 0 ∉ s

theorem OneLine.onLine_rstrip (h : OneLine s) : OnLine (rstrip s) := by
  intro b hb
  refine ⟨?_, fun h0 => h.2 (h0 ▸ (rstrip_isPrefix s).subset hb)⟩
  rintro rfl
  rcases List.eq_nil_or_concat s with rfl | ⟨s, c, rfl⟩
  · exact List.not_mem_nil hb
  rw [List.concat_eq_append] at *
  rw [OneLine, List.dropLast_concat] at h
  rcases List.mem_append.mp ((rstrip_isPrefix _).subset hb) with hmem | hmem
  · exact h.1 hmem
  · obtain rfl := List.mem_singleton.mp hmem
    rw [rstrip, List.rdropWhile_concat_pos _ _ _ rfl] at hb
    exact h.1 ((rstrip_isPrefix s).subset hb)

/-- A line keeps it. -/
theorem LoopOk.line (h : LoopOk P st)
    (hP : ∀ u sect name value, P u → WellFormed sect name value → P (handler u sect name value).2)
    (hs : OneLine s) : LoopOk P (iniLine handler n s st) := by
  have hstart : ∀ start, start = s ∨ start = s.drop 3 → OneLine start := by
    rintro start (rfl | rfl)
    · exact hs
    · refine ⟨fun hmem => hs.1 ?_, fun hmem => hs.2 (List.mem_of_mem_drop hmem)⟩
      rw [List.dropLast_drop_eq_drop_dropLast] at hmem
      exact List.mem_of_mem_drop hmem
  simp only [iniLine]
  set start := if n = 1 ∧ bom <+: s then s.drop 3 else s with hdef
  have hone : OneLine start := hstart start (by rw [hdef]; split_ifs <;> simp)
  refine h.text hP ⟨head?_lskip _, fun b hb => ?_⟩
    (hone.onLine_rstrip.of_subset (List.dropWhile_suffix _).subset)
  obtain ⟨pre, hpre⟩ : lskip (rstrip start) <:+ rstrip start := List.dropWhile_suffix _
  refine getLast?_rstrip start b ?_
  rw [← hpre, List.getLast?_append_of_ne_nil]
  · exact hb
  · rintro hnil
    rw [hnil] at hb
    exact absurd hb (Option.not_mem_none b)

/-- `fgets` stops at an end of a line. -/
theorem notMem_dropLast_fgets (k : ℕ) (s : Bytes) : 10 ∉ (fgets k s).1.dropLast := by
  induction k generalizing s with
  | zero => exact List.not_mem_nil
  | succ k ih =>
    cases s with
    | nil => exact List.not_mem_nil
    | cons b s =>
      rw [fgets]
      split_ifs with hb
      · exact List.not_mem_nil
      · cases hrest : (fgets k s).1 with
        | nil => exact List.not_mem_nil
        | cons c rest =>
          rw [List.dropLast_cons_cons, ← hrest]
          exact fun hmem => (List.mem_cons.mp hmem).elim (fun h => hb h.symm) (ih s)

theorem OneLine.cstr (h : 10 ∉ s.dropLast) : OneLine (cstr s) := by
  refine ⟨fun hmem => h ?_, fun hmem => by simpa using List.mem_takeWhile_imp hmem⟩
  obtain ⟨rest, hrest⟩ : Bytes.cstr s <+: s := List.takeWhile_prefix _
  rcases eq_or_ne rest [] with rfl | hne
  · rw [List.append_nil] at hrest
    rwa [hrest] at hmem
  · rw [← hrest, List.dropLast_append_of_ne_nil hne]
    exact List.mem_append_left _ ((List.dropLast_prefix _).subset hmem)

theorem oneLine_of_mem_fgetsLines {fuel : ℕ} (h : t ∈ (fgetsLines fuel s).map Bytes.cstr) :
    OneLine t := by
  obtain ⟨chunk, hchunk, rfl⟩ := List.mem_map.mp h
  refine OneLine.cstr ?_
  induction fuel generalizing s with
  | zero => exact absurd hchunk List.not_mem_nil
  | succ fuel ih =>
    cases s with
    | nil => exact absurd hchunk List.not_mem_nil
    | cons b s =>
      rcases List.mem_cons.mp hchunk with rfl | hchunk
      · exact notMem_dropLast_fgets 199 (b :: s)
      · exact ih hchunk (List.mem_map_of_mem hchunk)

theorem LoopOk.lines (hP : ∀ u sect name value, P u → WellFormed sect name value →
    P (handler u sect name value).2) {lines : List Bytes} (hlines : ∀ l ∈ lines, OneLine l) :
    ∀ n st, LoopOk P st → LoopOk P (iniLines handler n lines st) := by
  induction lines with
  | nil => exact fun _ _ h => h
  | cons l lines ih =>
    obtain ⟨hl, hlines⟩ := List.forall_mem_cons.mp hlines
    exact fun n st h => ih hlines _ _ (h.line hP hl)

/-- What a handler keeps for well formed calls holds at the end of every file. -/
theorem iniParse_keeps (hP : ∀ u sect name value, P u → WellFormed sect name value →
    P (handler u sect name value).2) (file : Option Bytes) {user : σ} (huser : P user) :
    P (iniParse handler file user).2 := by
  cases file with
  | none => exact huser
  | some bytes =>
    refine (LoopOk.lines hP (fun l hl => oneLine_of_mem_fgetsLines hl) 0 _ ⟨?_, ?_, huser⟩).user
    · exact ⟨Nat.zero_le _, List.not_mem_nil, rfl, nameOk_nil.onLine⟩
    · exact nameOk_nil

/-- **A handler is called for well formed data only.** Whatever the file is and whatever the handler
answers, a section has at most 49 bytes and no `]`, a name has no separator and starts no comment or
section, a value is stripped, and neither has an end of a line. -/
theorem wellFormed_of_mem_iniParse (answer : List IniCall → Bool) (file : Option Bytes) :
    ∀ call ∈ (iniParse (fun calls sect name value =>
        (answer (calls ++ [(sect, name, value)]), calls ++ [(sect, name, value)])) file []).2,
      WellFormed call.1 call.2.1 call.2.2 := by
  refine iniParse_keeps
    (P := fun calls : List IniCall =>
      ∀ call ∈ calls, WellFormed call.1 call.2.1 call.2.2)
    (fun calls sect name value hcalls hcall call hmem => ?_) file (by simp)
  rcases List.mem_append.mp hmem with hmem | hmem
  · exact hcalls call hmem
  · rw [List.mem_singleton.mp hmem]
    exact hcall

/-- A file with a section and a comment behind it, a pair with a comment, and a line that goes on. -/
def sectionText : Bytes := ascii "[u v] ;s\ny : a b\t; c\n  d;e \n"

/-- The handler is called for the pair and for the line that goes on. -/
theorem wellFormed_of_mem_iniParse_section :
    (iniParse (fun calls sect name value => (true, calls ++ [(sect, name, value)]))
        (some sectionText) ([] : List IniCall)).2
      = [(ascii "u v", ascii "y", ascii "a b"), (ascii "u v", ascii "y", ascii "d;e")] ∧
    WellFormed (ascii "u v") (ascii "y") (ascii "a b") ∧
    WellFormed (ascii "u v") (ascii "y") (ascii "d;e") := by
  have hcalls : (iniParse (fun calls sect name value => (true, calls ++ [(sect, name, value)]))
        (some sectionText) ([] : List IniCall)).2
      = [(ascii "u v", ascii "y", ascii "a b"), (ascii "u v", ascii "y", ascii "d;e")] := by
    decide +kernel
  refine ⟨hcalls, ?_, ?_⟩
  · exact wellFormed_of_mem_iniParse (fun _ => true) (some sectionText)
      (ascii "u v", ascii "y", ascii "a b") (by rw [hcalls]; simp)
  · exact wellFormed_of_mem_iniParse (fun _ => true) (some sectionText)
      (ascii "u v", ascii "y", ascii "d;e") (by rw [hcalls]; simp)

end Calls

end Mavicona.Scrape
