import Mathlib.Data.Bool.AllAny
import Mathlib.Data.List.Induction
import Mathlib.Logic.Function.Basic
import Mavicona.Common.Lines

/-!
# The environment of a job

Reference: `chella/localenv.cpp` (`LocalEnv::setupEnv`), `packer/mock.py` (`main`).

The worker and the mocker read the variables of a job from `.env`. The worker takes a line without `=`
for a name and its value at once; the mocker skips it. The mocker cuts off the last character of every
line for its newline, also that of a last line that has none.
-/

namespace Mavicona.Chella

open Bytes

/-- The variables and their values. -/
abbrev Env : Type := Bytes → Option Bytes

/-- No variables. -/
def Env.empty : Env := fun _ => none

/-- A variable is given a value. -/
def Env.set (env : Env) (name value : Bytes) : Env := Function.update env name (some value)

theorem Env.set_self (env : Env) (name value : Bytes) : env.set name value name = some value :=
  Function.update_self ..

theorem Env.set_of_ne (env : Env) {name name' : Bytes} (value : Bytes) (h : name ≠ name') :
    env.set name value name' = env name' :=
  Function.update_of_ne h.symm ..

/-- `line.substr(0, pos)`. -/
def nameOf (line : Bytes) : Bytes := line.takeWhile (· ≠ 61)

/-- `line.substr(pos + 1)`: the whole line if there is no `=`. -/
def valueOf (line : Bytes) : Bytes :=
  if 61 ∈ line then (line.dropWhile (· ≠ 61)).drop 1 else line

/-! ## The worker -/

/-- `setenv`, which fails for an empty name. -/
def setenv (env : Env) (name value : Bytes) : Env := if name = [] then env else env.set name value

/-- A line in the loop of `LocalEnv::setupEnv`. -/
def setLine (env : Env) (line : Bytes) : Env := setenv env (nameOf line) (valueOf line)

/-- `LocalEnv::setupEnv`: the variables that are set from the file. -/
def setupEnv (file : Bytes) : Env := (getlines file).foldl setLine .empty

/-! ## The mocker -/

/-- What an assignment to `os.environ['']` does: where it comes to `setenv` it raises an exception,
where it comes to `putenv` it does not. -/
inductive EmptyName
  | raises
  | sets
deriving DecidableEq, Repr

/-- `os.environ[name] = value`; `none` if it raises an exception. -/
def environSet (mode : EmptyName) (env : Env) (name value : Bytes) : Option Env :=
  if name = [] ∧ mode = .raises then none else some (env.set name value)

/-- A line without its last character, in the loop of `main`. -/
def mockLine (mode : EmptyName) (env : Option Env) (line : Bytes) : Option Env :=
  env.bind fun env =>
    if 61 ∈ line then environSet mode env (nameOf line) (valueOf line) else some env

/-- `main`: the variables that are set from the file. -/
def mockEnv (mode : EmptyName) (file : Bytes) : Option Env :=
  ((readlines file).map List.dropLast).foldl (mockLine mode) (some .empty)

/-! ## Files -/

/-- A file of printable lines. -/
structure EnvFile where
  text : Bytes
  printable : ∀ b ∈ text, b = 10 ∨ 32 ≤ b ∧ b ≤ 126

/-- The mocker and the worker set the same variables. -/
def SameVariables (mode : EmptyName) (file : EnvFile) : Prop :=
  mockEnv mode file.text = some (setupEnv file.text)

/-- The last line that names a variable, with a value or without. -/
def lastNaming (name : Bytes) (lines : List Bytes) : Option Bytes :=
  lines.reverse.find? fun l => nameOf l = name

/-- The last value that a line gives a variable. -/
def lastValue (name : Bytes) (lines : List Bytes) : Option Bytes :=
  (lines.reverse.find? fun l => 61 ∈ l ∧ nameOf l = name).map valueOf

/-- A name that stands alone. -/
def Bare (name : Bytes) : Prop := name ≠ [] ∧ 61 ∉ name

/-- When a file is read alike: `lines` are ended by a newline, and `rest` follows the last one. -/
structure ReadAlike (lines : List Bytes) (rest : Bytes) : Prop where
  /-- No line starts with its `=`. -/
  named : ∀ l ∈ lines, l.head? ≠ some 61
  /-- A name stands alone only in front of a line that gives it a value, or if its value is itself. -/
  bare : ∀ name, Bare name → lastNaming name (lines ++ [rest]) = some name →
    lastValue name lines = some name
  /-- A line without a newline gives no value but an empty one that is there already. -/
  tail : 61 ∈ rest →
    valueOf rest = [] ∧ (nameOf rest = [] ∨ lastValue (nameOf rest) lines = some [])

/-! ## Lines -/

section Lines

variable {name l : Bytes} {lines : List Bytes} {mode : EmptyName}

theorem nameOf_of_not_mem (h : 61 ∉ l) : nameOf l = l :=
  List.takeWhile_eq_self_iff.mpr fun b hb => decide_eq_true fun hb61 : b = 61 => h (hb61 ▸ hb)

theorem fields_append {value : Bytes} (h : 61 ∉ name) :
    nameOf (name ++ 61 :: value) = name ∧ valueOf (name ++ 61 :: value) = value := by
  have hcut := @cut_append (fun b => decide (b ≠ 61)) name (61 :: value)
    (fun b hb => decide_eq_true fun hb61 : b = 61 => h (hb61 ▸ hb))
    (fun b hb => by rw [← Option.some.inj hb]; rfl)
  rw [nameOf, valueOf, if_pos (List.mem_append_right _ List.mem_cons_self), hcut.1, hcut.2]
  exact ⟨rfl, rfl⟩

/-- A line with an `=` is its name and its value. -/
theorem eq_of_mem (h : 61 ∈ l) : l = nameOf l ++ 61 :: valueOf l ∧ 61 ∉ nameOf l := by
  obtain ⟨name, value, rfl, hname⟩ := List.eq_append_cons_of_mem h
  obtain ⟨hn, hv⟩ := @fields_append name value hname
  rw [hn, hv]
  exact ⟨rfl, hname⟩

theorem nameOf_eq_nil_iff (h : 61 ∈ l) : nameOf l = [] ↔ l.head? = some 61 := by
  obtain ⟨heq, hnot⟩ := eq_of_mem h
  constructor
  · intro hname
    rw [heq, hname]
    rfl
  · intro hhead
    rcases hname : nameOf l with _ | ⟨b, name⟩
    · rfl
    · rw [heq, hname] at hhead
      obtain rfl := Option.some.inj hhead
      exact absurd (hname ▸ List.mem_cons_self) hnot

theorem lastNaming_concat (name l : Bytes) (lines : List Bytes) :
    lastNaming name (lines ++ [l]) = if nameOf l = name then some l else lastNaming name lines := by
  rw [lastNaming, List.reverse_append, List.reverse_singleton, List.singleton_append,
    List.find?_cons]
  by_cases h : nameOf l = name <;> simp [h, lastNaming]

theorem lastValue_concat (name l : Bytes) (lines : List Bytes) :
    lastValue name (lines ++ [l]) =
      if 61 ∈ l ∧ nameOf l = name then some (valueOf l) else lastValue name lines := by
  rw [lastValue, List.reverse_append, List.reverse_singleton, List.singleton_append,
    List.find?_cons]
  by_cases h : 61 ∈ l ∧ nameOf l = name
  · rw [decide_eq_true h, if_pos h]
    rfl
  · rw [decide_eq_false h, if_neg h]
    rfl

/-- A line that names a variable last and gives it a value gives it its last value. -/
theorem lastValue_of_lastNaming (h : lastNaming name lines = some l) (hsep : 61 ∈ l) :
    lastValue name lines = some (valueOf l) := by
  induction lines using List.reverseRecOn with
  | nil => exact absurd h nofun
  | append_singleton lines m ih =>
    rw [lastNaming_concat] at h
    rw [lastValue_concat]
    by_cases hname : nameOf m = name
    · rw [if_pos hname] at h
      obtain rfl := Option.some.inj h
      rw [if_pos ⟨hsep, hname⟩]
    · rw [if_neg hname] at h
      rw [if_neg fun hm => hname hm.2, ih h]

theorem lastValue_eq_none (h : lastNaming name lines = none) : lastValue name lines = none := by
  rw [lastNaming, List.find?_eq_none] at h
  rw [lastValue, Option.map_eq_none_iff, List.find?_eq_none]
  exact fun l hl hm => h l hl (decide_eq_true (of_decide_eq_true hm).2)

/-- What the worker sets. -/
theorem foldl_setLine (lines : List Bytes) (name : Bytes) : lines.foldl setLine .empty name =
    if name = [] then none else (lastNaming name lines).map valueOf := by
  induction lines using List.reverseRecOn with
  | nil =>
    split_ifs <;> rfl
  | append_singleton lines l ih =>
    rw [List.foldl_append, List.foldl_cons, List.foldl_nil, setLine, setenv, lastNaming_concat]
    by_cases hname : name = []
    · rw [if_pos hname] at ih ⊢
      by_cases hl : nameOf l = []
      · rw [if_pos hl, ih]
      · rw [if_neg hl, Env.set_of_ne _ _ (hname ▸ hl), ih]
    · rw [if_neg hname] at ih ⊢
      by_cases hl : nameOf l = name
      · rw [if_pos hl, if_neg (hl ▸ hname), hl, Env.set_self]
        rfl
      · rw [if_neg hl, ← ih]
        split_ifs
        · rfl
        · rw [Env.set_of_ne _ _ hl]

/-- What the mocker sets, if every value has a name. -/
theorem foldl_mockLine (h : ∀ l ∈ lines, l.head? ≠ some 61) :
    lines.foldl (mockLine mode) (some .empty) = some fun name => lastValue name lines := by
  induction lines using List.reverseRecOn with
  | nil => rfl
  | append_singleton lines l ih =>
    have hl : l.head? ≠ some 61 := h l (List.mem_append_right _ List.mem_cons_self)
    rw [List.foldl_append, ih fun m hm => h m (List.mem_append_left _ hm), List.foldl_cons,
      List.foldl_nil, mockLine, Option.bind_some]
    by_cases hsep : 61 ∈ l
    · have hname : nameOf l ≠ [] := fun hname => hl ((nameOf_eq_nil_iff hsep).mp hname)
      rw [if_pos hsep, environSet, if_neg fun hempty => hname hempty.1]
      congr 1
      funext name
      rw [lastValue_concat]
      by_cases heq : nameOf l = name
      · rw [if_pos ⟨hsep, heq⟩, heq, Env.set_self]
      · rw [if_neg fun h => heq h.2, Env.set_of_ne _ _ heq]
    · rw [if_neg hsep]
      congr 1
      funext name
      rw [lastValue_concat, if_neg fun h => hsep h.1]

theorem mockLine_eq_some {env env' : Env} (h : mockLine mode (some env) l = some env') :
    env' = env ∧ 61 ∉ l ∨ 61 ∈ l ∧ env' = env.set (nameOf l) (valueOf l) := by
  rw [mockLine, Option.bind_some, environSet] at h
  split_ifs at h with hsep
  · exact .inr ⟨hsep, (Option.some.inj h).symm⟩
  · exact .inl ⟨(Option.some.inj h).symm, hsep⟩

/-- A value without a name is kept, if it is no error. -/
theorem foldl_mockLine_nil {env : Env} (h : lines.foldl (mockLine mode) (some .empty) = some env)
    (hl : ∃ l ∈ lines, l.head? = some 61) : env [] ≠ none := by
  induction lines using List.reverseRecOn generalizing env with
  | nil => exact absurd hl (by simp)
  | append_singleton lines l ih =>
    rw [List.foldl_append, List.foldl_cons, List.foldl_nil] at h
    cases hfront : lines.foldl (mockLine mode) (some .empty) with
    | none =>
      rw [hfront] at h
      exact absurd h nofun
    | some env₀ =>
      rw [hfront] at h
      have hkeep (name value : Bytes) (hset : env₀ [] ≠ none) : env₀.set name value [] ≠ none := by
        by_cases hname : name = []
        · rw [hname, Env.set_self]
          exact nofun
        · rwa [Env.set_of_ne _ _ hname]
      by_cases hhead : l.head? = some 61
      · have hsep : 61 ∈ l := List.mem_of_mem_head? hhead
        rcases mockLine_eq_some h with ⟨-, hnot⟩ | ⟨-, rfl⟩
        · exact absurd hsep hnot
        · rw [(nameOf_eq_nil_iff hsep).mpr hhead, Env.set_self]
          exact nofun
      · have hset : env₀ [] ≠ none := by
          obtain ⟨m, hm, hmhead⟩ := hl
          rcases List.mem_append.mp hm with hm | hm
          · exact ih hfront ⟨m, hm, hmhead⟩
          · exact absurd (List.mem_singleton.mp hm ▸ hmhead) hhead
        rcases mockLine_eq_some h with ⟨rfl, -⟩ | ⟨-, rfl⟩
        · exact hset
        · exact hkeep _ _ hset

end Lines

/-! ## The file -/

section File

variable {lines : List Bytes} {l rest : Bytes} {mode : EmptyName}

/-- The worker sees the text behind the last newline, if there is any, as a line. -/
theorem setupEnv_eq (file : Bytes) : setupEnv file =
    ((splitLines file).1 ++ [(splitLines file).2]).foldl setLine .empty := by
  rw [setupEnv, getlines, lastLine]
  split_ifs with hrest
  · rw [hrest, List.append_nil, List.foldl_append]
    rfl
  · rfl

/-- The mocker sees it without its last character. -/
theorem mockEnv_eq (file : Bytes) : mockEnv mode file =
    ((splitLines file).1 ++ [(splitLines file).2.dropLast]).foldl (mockLine mode) (some .empty) := by
  have hchop : ((splitLines file).1.map (· ++ [10])).map List.dropLast = (splitLines file).1 := by
    rw [List.map_map]
    exact (List.map_congr_left fun l _ => List.dropLast_concat).trans (List.map_id _)
  rw [mockEnv, readlines, List.map_append, hchop, lastLine]
  split_ifs with hrest
  · rw [hrest, List.map_nil, List.append_nil, List.dropLast_nil, List.foldl_append]
    cases (splitLines file).1.foldl (mockLine mode) (some .empty) with
    | none => rfl
    | some env => rfl
  · rfl

/-- The value that is cut off the last line is empty if nothing is left of its `=`. -/
theorem not_mem_dropLast_iff (h : 61 ∈ rest) : 61 ∉ rest.dropLast ↔ valueOf rest = [] := by
  obtain ⟨heq, hnot⟩ := eq_of_mem h
  rcases List.eq_nil_or_concat (valueOf rest) with hvalue | ⟨value, b, hvalue⟩
  · rw [hvalue] at heq ⊢
    rw [heq, List.dropLast_concat]
    exact iff_of_true hnot rfl
  · rw [hvalue] at heq ⊢
    rw [heq, List.concat_eq_append, ← List.cons_append, ← List.append_assoc, List.dropLast_concat]
    refine iff_of_false (fun h => h ?_) (by simp)
    exact List.mem_append_right _ List.mem_cons_self

/-- The name of the last line is kept if its `=` is, and its value is not. -/
theorem eq_of_mem_dropLast (h : 61 ∈ rest.dropLast) :
    nameOf rest.dropLast = nameOf rest ∧ valueOf rest.dropLast ≠ valueOf rest := by
  have hne : rest ≠ [] := fun hnil => by
    rw [hnil] at h
    exact absurd h List.not_mem_nil
  obtain ⟨heq, hname⟩ := eq_of_mem h
  have hrest : rest = nameOf rest.dropLast ++ 61 :: (valueOf rest.dropLast ++ [rest.getLast hne]) := by
    conv_lhs => rw [← List.dropLast_concat_getLast hne, heq]
    rw [List.append_assoc]
    rfl
  obtain ⟨hn, hv⟩ := @fields_append _ (valueOf rest.dropLast ++ [rest.getLast hne]) hname
  rw [← hrest] at hn hv
  refine ⟨hn.symm, fun hvalue => ?_⟩
  have hlen := congrArg List.length (hvalue.trans hv)
  rw [List.length_append, List.length_singleton] at hlen
  omega

theorem nameOf_ne_nil (h : l.head? ≠ some 61) (hsep : 61 ∈ l) : nameOf l ≠ [] :=
  fun hname => h ((nameOf_eq_nil_iff hsep).mp hname)

/-- If all variables agree, a file is read alike. -/
theorem readAlike_of_agree (hheads : ∀ l ∈ lines ++ [rest.dropLast], l.head? ≠ some 61)
    (hagree : ∀ name, lastValue name (lines ++ [rest.dropLast]) =
      if name = [] then none else (lastNaming name (lines ++ [rest])).map valueOf) :
    ReadAlike lines rest := by
  have hchopped := hheads rest.dropLast (List.mem_append_right _ List.mem_cons_self)
  have hcut : 61 ∉ rest.dropLast := by
    intro hsep
    obtain ⟨hname, hvalue⟩ := eq_of_mem_dropLast hsep
    have hne : nameOf rest ≠ [] := hname ▸ nameOf_ne_nil hchopped hsep
    have h := hagree (nameOf rest)
    rw [lastValue_concat, if_pos ⟨hsep, hname⟩, if_neg hne, lastNaming_concat, if_pos rfl] at h
    exact hvalue (Option.some.inj h)
  have hlast (name : Bytes) (hname : name ≠ []) :
      lastValue name lines = (lastNaming name (lines ++ [rest])).map valueOf := by
    have h := hagree name
    rwa [lastValue_concat, if_neg fun h => hcut h.1, if_neg hname] at h
  refine ⟨fun l hl => hheads l (List.mem_append_left _ hl), fun name hbare hnaming => ?_,
    fun hsep => ?_⟩
  · rw [hlast name hbare.1, hnaming, Option.map_some, valueOf, if_neg hbare.2]
  · have hempty := (not_mem_dropLast_iff hsep).mp hcut
    refine ⟨hempty, or_iff_not_imp_left.mpr fun hname => ?_⟩
    rw [hlast _ hname, lastNaming_concat, if_pos rfl, Option.map_some, hempty]

/-- In a file that is read alike all variables agree. -/
theorem ReadAlike.agree (h : ReadAlike lines rest) (name : Bytes) : lastValue name lines =
    if name = [] then none else (lastNaming name (lines ++ [rest])).map valueOf := by
  by_cases hname : name = []
  · rw [if_pos hname, hname, lastValue, Option.map_eq_none_iff, List.find?_eq_none]
    intro l hl hfound
    obtain ⟨hsep, hempty⟩ := of_decide_eq_true hfound
    exact nameOf_ne_nil (h.named l (List.mem_reverse.mp hl)) hsep hempty
  · rw [if_neg hname]
    cases hnaming : lastNaming name (lines ++ [rest]) with
    | none =>
      rw [lastNaming_concat] at hnaming
      split_ifs at hnaming
      exact lastValue_eq_none hnaming
    | some l =>
      have hfound := List.find?_some hnaming
      have hl : nameOf l = name := of_decide_eq_true hfound
      by_cases hsep : 61 ∈ l
      · rw [lastNaming_concat] at hnaming
        by_cases hrest : nameOf rest = name
        · -- the line without a newline gives an empty value
          rw [if_pos hrest] at hnaming
          obtain rfl := Option.some.inj hnaming
          obtain ⟨hempty, hthere⟩ := h.tail hsep
          rw [Option.map_some, hempty, ← hrest]
          exact hthere.resolve_left (hrest ▸ hname)
        · rw [if_neg hrest] at hnaming
          exact lastValue_of_lastNaming hnaming hsep
      · -- a name stands alone
        rw [nameOf_of_not_mem hsep] at hl
        rw [hl] at hsep hnaming
        rw [h.bare name ⟨hname, hsep⟩ hnaming, hl, Option.map_some, valueOf, if_neg hsep]

/-- **When the mocker and the worker set the same variables.** A name without a value, which only the
worker sets, has to be given one by a later line, or to have itself for its value before. A line starts
with its `=` only if it is the last one, without a newline and without a value. And a last line without
a newline gives no value but an empty one that is there already. -/
theorem sameVariables_iff (mode : EmptyName) (file : EnvFile) : SameVariables mode file ↔
    ReadAlike (splitLines file.text).1 (splitLines file.text).2 := by
  rw [SameVariables, mockEnv_eq, setupEnv_eq]
  generalize (splitLines file.text).1 = lines, (splitLines file.text).2 = rest
  constructor
  · intro h
    have hheads : ∀ l ∈ lines ++ [rest.dropLast], l.head? ≠ some 61 := by
      by_contra hall
      have hex : ∃ l ∈ lines ++ [rest.dropLast], l.head? = some 61 := by simpa using hall
      refine foldl_mockLine_nil h hex ?_
      rw [foldl_setLine, if_pos rfl]
    refine readAlike_of_agree hheads fun name => ?_
    rw [← foldl_setLine]
    exact congrFun (Option.some.inj ((foldl_mockLine hheads).symm.trans h)) name
  · intro h
    have hcut : 61 ∉ rest.dropLast := fun hsep =>
      (not_mem_dropLast_iff (List.dropLast_subset _ hsep)).mpr
        (h.tail (List.dropLast_subset _ hsep)).1 hsep
    have hheads : ∀ l ∈ lines ++ [rest.dropLast], l.head? ≠ some 61 := by
      intro l hl
      rcases List.mem_append.mp hl with hl | hl
      · exact h.named l hl
      · rw [List.mem_singleton.mp hl]
        exact fun hhead => hcut (List.mem_of_mem_head? hhead)
    rw [foldl_mockLine hheads]
    congr 1
    funext name
    rw [foldl_setLine, ← h.agree name, lastValue_concat, if_neg fun h => hcut h.1]

/-- `DEBUG` alone on a line. -/
def bareName : EnvFile := ⟨ascii "DEBUG" ++ [10], List.all_iff_forall_prop.mp (by decide)⟩

/-- `A=1` without a newline. -/
def unended : EnvFile := ⟨ascii "A=1", List.all_iff_forall_prop.mp (by decide)⟩

/-- The worker sets a variable that the mocker does not, or to another value. -/
theorem not_sameVariables :
    (¬ SameVariables .raises bareName ∧ ¬ SameVariables .sets bareName) ∧
      ¬ SameVariables .raises unended ∧ ¬ SameVariables .sets unended := by
  have hbare (mode : EmptyName) : ¬ SameVariables mode bareName := by
    intro h
    have hmock : mockEnv mode bareName.text = some .empty := by cases mode <;> rfl
    have hset : setupEnv bareName.text (ascii "DEBUG") = some (ascii "DEBUG") := by decide
    rw [← Option.some.inj (hmock.symm.trans h)] at hset
    exact absurd hset nofun
  have hunended (mode : EmptyName) : ¬ SameVariables mode unended := by
    intro h
    have hmock : (mockEnv mode unended.text).bind (· (ascii "A")) = some [] := by
      cases mode <;> decide
    have hset : setupEnv unended.text (ascii "A") = some (ascii "1") := by decide
    rw [h, Option.bind_some, hset] at hmock
    exact absurd hmock (by decide)
  exact ⟨⟨hbare _, hbare _⟩, hunended _, hunended _⟩

end File

end Mavicona.Chella
