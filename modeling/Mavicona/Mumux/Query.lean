import Mathlib.Data.Bool.AllAny
import Mavicona.Mumux.Request

/-!
# Query variables

Reference: `mumux/url.c` (`wby_find_query_var`, `wby_url_decode`).

A variable is looked up by its name, at the start of the query and behind every `&`, and its value is
decoded. What stands behind a value is an `&` or the end of the string, so that the decoder, which
looks two bytes ahead, takes nothing from there.
-/

namespace Mavicona.Mumux

open Bytes Numeral

/-- The loop of `wby_find_query_var`: the value, as it stands in the query. A name may only stand at
the start or behind an `&`. -/
def findQueryValue (name : Bytes) : Bool → Bytes → Option Bytes
  | _, [] => none
  | start, b :: p =>
    if name.length < (b :: p).length ∧ start ∧ (b :: p)[name.length]? = some 61 ∧
        caseEq name ((b :: p).take name.length) then
      some (((b :: p).drop (name.length + 1)).takeWhile (· ≠ 38))
    else findQueryValue name (b = 38) p

/-- `wby_find_query_var`: what it returns, and what it stores. -/
def wbyFindQueryVar (buf name : Bytes) (dstLen : ℕ) : ℤ × Bytes :=
  match findQueryValue name true (cstr buf) with
  | none => (-1, [])
  | some value =>
    if value.length < dstLen then
      let dst := wbyUrlDecode true (dstLen - 1) value
      (toInt dst.length, dst)
    else (-1, [])

/-! ## Queries -/

/-- A byte that stands for itself in a name. -/
def isUnreserved (b : UInt8) : Bool :=
  (48 ≤ b && b ≤ 57) || (65 ≤ b && b ≤ 90) || (97 ≤ b && b ≤ 122) ||
    b = 45 || b = 46 || b = 95 || b = 126

/-- A text that stands for a value. -/
inductive Renders : Bytes → Bytes → Prop
  | nil : Renders [] []
  | hex {b hi lo : UInt8} {value text : Bytes} : digitVal hi = b.toNat / 16 →
      digitVal lo = b.toNat % 16 → Renders value text →
      Renders (b :: value) (37 :: hi :: lo :: text)
  | plus {value text : Bytes} : Renders value text → Renders (32 :: value) (43 :: text)
  | literal {b : UInt8} {value text : Bytes} : b ≠ 37 → b ≠ 43 → b ≠ 38 → b ≠ 0 →
      Renders value text → Renders (b :: value) (b :: text)

/-- A variable, with a text for its value. -/
structure QueryVar where
  name : Bytes
  value : Bytes
  text : Bytes
  name_ne_nil : name ≠ []
  unreserved : ∀ b ∈ name, isUnreserved b = true
  renders : Renders value text

/-- A query. -/
def queryText : List QueryVar → Bytes
  | [] => []
  | [v] => v.name ++ 61 :: v.text
  | v :: vs => v.name ++ 61 :: v.text ++ 38 :: queryText vs

/-- What is to be found: the value of the first variable of that name. -/
def lookUp (vars : List QueryVar) (name : Bytes) : ℤ × Bytes :=
  match vars.find? fun v => caseEq v.name name with
  | some v => (toInt v.value.length, v.value)
  | none => (-1, [])

/-! ## Values -/

section Values

variable {value text : Bytes}

/-- Enough room for a value is enough to decode it. -/
theorem wbyUrlDecode_of_renders (h : Renders value text) {room : ℕ} (hroom : value.length ≤ room) :
    wbyUrlDecode true room text = value := by
  induction h generalizing room with
  | nil => cases room <;> rfl
  | @hex b hi lo value text hhi hlo _ ih =>
    obtain ⟨room, rfl⟩ : ∃ r, room = r + 1 := ⟨room - 1, by rw [List.length_cons] at hroom; omega⟩
    have hb := b.toNat_lt
    have hdigits : isXDigit hi = true ∧ isXDigit lo = true := by
      rw [isXDigit, isXDigit, hhi, hlo]
      exact ⟨decide_eq_true (by omega), decide_eq_true (by omega)⟩
    have hbyte : UInt8.ofNat (digitVal hi * 16 + digitVal lo) = b := by
      rw [hhi, hlo, Nat.div_add_mod', UInt8.ofNat_toNat]
    rw [wbyUrlDecode, if_pos ⟨rfl, hdigits⟩, hbyte, ih (by rw [List.length_cons] at hroom; omega)]
  | @plus value text _ ih =>
    obtain ⟨room, rfl⟩ : ∃ r, room = r + 1 := ⟨room - 1, by rw [List.length_cons] at hroom; omega⟩
    have hrest := @ih room (by rw [List.length_cons] at hroom; omega)
    rcases text with _ | ⟨c, _ | ⟨d, text⟩⟩
    · rw [wbyUrlDecode, hrest]
      rfl
    · rw [wbyUrlDecode, hrest]
      rfl
    · rw [wbyUrlDecode, if_neg fun h => absurd h.1 (by decide), hrest]
      rfl
  | @literal b value text hpercent hplus _ _ _ ih =>
    obtain ⟨room, rfl⟩ : ∃ r, room = r + 1 := ⟨room - 1, by rw [List.length_cons] at hroom; omega⟩
    have hrest := @ih room (by rw [List.length_cons] at hroom; omega)
    have hself : (if true = true ∧ b = 43 then 32 else b) = b := if_neg fun h => hplus h.2
    rcases text with _ | ⟨c, _ | ⟨d, text⟩⟩
    · rw [wbyUrlDecode, hrest, hself]
    · rw [wbyUrlDecode, hrest, hself]
    · rw [wbyUrlDecode, if_neg fun h => hpercent h.1, hrest, hself]

/-- A hexadecimal digit is neither an `&` nor the end of a string. -/
theorem digit_ne_amp {b : UInt8} (h : digitVal b < 16) : b ≠ 38 ∧ b ≠ 0 := by
  constructor
  · rintro rfl
    exact absurd h (by decide)
  · rintro rfl
    exact absurd h (by decide)

theorem Renders.length_le (h : Renders value text) : value.length ≤ text.length := by
  induction h with
  | nil => exact le_rfl
  | hex _ _ _ ih => simp only [List.length_cons]; omega
  | plus _ ih => simp only [List.length_cons]; omega
  | literal _ _ _ _ _ ih => simp only [List.length_cons]; omega

/-- A value that needs no other text is its own. -/
theorem Renders.self (h : ∀ b ∈ value, b ≠ 37 ∧ b ≠ 43 ∧ b ≠ 38 ∧ b ≠ 0) : Renders value value := by
  induction value with
  | nil => exact .nil
  | cons b value ih =>
    obtain ⟨hpercent, hplus, hamp, hzero⟩ := h b List.mem_cons_self
    exact .literal hpercent hplus hamp hzero (ih fun c hc => h c (List.mem_cons_of_mem _ hc))

/-- No value ends before its end. -/
theorem Renders.not_mem (h : Renders value text) : 38 ∉ text ∧ 0 ∉ text := by
  induction h with
  | nil => exact ⟨List.not_mem_nil, List.not_mem_nil⟩
  | @hex b hi lo value text hhi hlo _ ih =>
    have hb := b.toNat_lt
    have hhi' := digit_ne_amp (b := hi) (by omega)
    have hlo' := digit_ne_amp (b := lo) (by omega)
    simp only [List.mem_cons, not_or]
    exact ⟨⟨by decide, hhi'.1.symm, hlo'.1.symm, ih.1⟩, ⟨by decide, hhi'.2.symm, hlo'.2.symm, ih.2⟩⟩
  | plus _ ih =>
    simp only [List.mem_cons, not_or]
    exact ⟨⟨by decide, ih.1⟩, ⟨by decide, ih.2⟩⟩
  | literal _ _ hamp hzero _ ih =>
    simp only [List.mem_cons, not_or]
    exact ⟨⟨hamp.symm, ih.1⟩, ⟨hzero.symm, ih.2⟩⟩

end Values

/-! ## The scan -/

section Scan

variable {name s rest : Bytes} {b : UInt8}

/-- No other byte than `=` turns into one. -/
theorem eq_of_lower_eq (h : lower b = 61) : b = 61 := by
  rw [lower] at h
  split_ifs at h with hupper
  · have hval := congrArg UInt8.toNat h
    rw [UInt8.toNat_add] at hval
    change (b.toNat + 32) % 256 = 61 at hval
    omega
  · exact h

/-- What stands before the next `&` is passed over. -/
theorem findQueryValue_skip (hs : 38 ∉ s) :
    findQueryValue name false (s ++ rest) = findQueryValue name false rest := by
  induction s with
  | nil => rfl
  | cons b s ih =>
    rw [List.mem_cons, not_or] at hs
    rw [List.cons_append, findQueryValue, if_neg fun h => absurd h.2.1 Bool.false_ne_true,
      decide_eq_false (Ne.symm hs.1), ih hs.2]

/-- Only the name itself is taken for it, unless the name has an `=` in it. -/
theorem matches_iff {key : Bytes} (hkey : 61 ∉ key) (hname : 61 ∉ name) :
    (name.length < (key ++ 61 :: rest).length ∧ (key ++ 61 :: rest)[name.length]? = some 61 ∧
      caseEq name ((key ++ 61 :: rest).take name.length) = true) ↔ caseEq key name = true := by
  constructor
  · rintro ⟨-, hsep, heq⟩
    rcases lt_trichotomy name.length key.length with hlt | hlen | hgt
    · rw [List.getElem?_append_left hlt] at hsep
      exact absurd (List.mem_of_getElem? hsep) hkey
    · rw [hlen, List.take_left] at heq
      exact decide_eq_true (of_decide_eq_true heq).symm
    · -- the `=` behind the key would have to be in the name
      have hmap := congrArg (fun l => l[key.length]?) (of_decide_eq_true heq)
      have hright : ((key ++ 61 :: rest).take name.length)[key.length]? = some 61 := by
        rw [List.getElem?_take_of_lt hgt, List.getElem?_append_right le_rfl, Nat.sub_self]
        rfl
      simp only [List.getElem?_map, hright, List.getElem?_eq_getElem hgt, Option.map_some] at hmap
      have h61 := eq_of_lower_eq (Option.some.inj hmap)
      exact absurd (h61 ▸ List.getElem_mem hgt) hname
  · intro heq
    have hlen := length_eq_of_caseEq heq
    refine ⟨?_, ?_, ?_⟩
    · rw [← hlen, List.length_append, List.length_cons]
      omega
    · rw [← hlen, List.getElem?_append_right le_rfl, Nat.sub_self]
      rfl
    · rw [← hlen, List.take_left]
      exact decide_eq_true (of_decide_eq_true heq).symm

end Scan

section Query

variable {vars : List QueryVar} {name : Bytes} {dstLen : ℕ}

theorem QueryVar.not_mem_name (v : QueryVar) : 61 ∉ v.name ∧ 38 ∉ v.name ∧ 0 ∉ v.name :=
  ⟨fun h => absurd (v.unreserved _ h) (by decide), fun h => absurd (v.unreserved _ h) (by decide),
    fun h => absurd (v.unreserved _ h) (by decide)⟩

/-- A variable at the head of a query, with an end behind it. -/
theorem findQueryValue_var (v : QueryVar) (hname : 61 ∉ name) {rest : Bytes}
    (hrest : rest = [] ∨ ∃ t, rest = 38 :: t) :
    findQueryValue name true (v.name ++ 61 :: v.text ++ rest) =
      if caseEq v.name name then some v.text else findQueryValue name false rest := by
  have hmatch := @matches_iff name (v.text ++ rest) v.name v.not_mem_name.1 hname
  have htext := v.renders.not_mem.1
  rcases hkey : v.name with _ | ⟨b, key⟩
  · exact absurd hkey v.name_ne_nil
  · have hb : 38 ∉ b :: key := hkey ▸ v.not_mem_name.2.1
    rw [hkey] at hmatch
    rw [List.append_assoc, List.cons_append, List.cons_append, findQueryValue]
    rw [List.cons_append] at hmatch
    by_cases heq : caseEq (b :: key) name = true
    · obtain ⟨hlt, hsep, hcase⟩ := hmatch.mpr heq
      have hdrop : (b :: (key ++ 61 :: (v.text ++ rest))).drop (name.length + 1) = v.text ++ rest := by
        rw [← length_eq_of_caseEq heq, ← List.cons_append, List.drop_append, Nat.add_sub_cancel_left,
          List.drop_of_length_le (Nat.le_succ _)]
        rfl
      rw [if_pos ⟨hlt, rfl, hsep, hcase⟩, if_pos heq, hdrop, List.takeWhile_append_of_pos]
      · rcases hrest with rfl | ⟨t, rfl⟩
        · rw [List.takeWhile_nil, List.append_nil]
        · rw [List.takeWhile_cons_of_neg (by decide), List.append_nil]
      · exact fun c hc => decide_eq_true fun h => htext (h ▸ hc)
    · rw [if_neg fun h => heq (hmatch.mp ⟨h.1, h.2.2.1, h.2.2.2⟩), if_neg heq]
      rw [List.mem_cons, not_or] at hb
      have hskip : 38 ∉ key ++ 61 :: v.text := by
        rw [List.mem_append, List.mem_cons, not_or, not_or]
        exact ⟨hb.2, by decide, htext⟩
      rw [decide_eq_false (Ne.symm hb.1), ← List.cons_append, ← List.append_assoc,
        findQueryValue_skip hskip]

/-- The scan finds the first variable of the name. -/
theorem findQueryValue_queryText (hname : 61 ∉ name) :
    findQueryValue name true (queryText vars) =
      (vars.find? fun v => caseEq v.name name).map QueryVar.text := by
  induction vars with
  | nil => rfl
  | cons v vars ih =>
    have hfind : ((v :: vars).find? fun v => caseEq v.name name).map QueryVar.text =
        if caseEq v.name name then some v.text
        else (vars.find? fun v => caseEq v.name name).map QueryVar.text := by
      rw [List.find?_cons]
      cases caseEq v.name name <;> rfl
    rw [hfind]
    rcases vars with _ | ⟨w, vars⟩
    · have hvar := findQueryValue_var v hname (.inl rfl)
      rwa [List.append_nil] at hvar
    · have hvar := findQueryValue_var v hname (.inr ⟨queryText (w :: vars), rfl⟩)
      -- the `&` is passed over, and behind it a name may stand
      have hamp : findQueryValue name false (38 :: queryText (w :: vars)) =
          findQueryValue name true (queryText (w :: vars)) := by
        rw [findQueryValue, if_neg fun h => absurd h.2.1 Bool.false_ne_true]
        rfl
      rw [hamp, ih] at hvar
      exact hvar

/-- No query of variables ends before its end. -/
theorem zero_not_mem_queryText : 0 ∉ queryText vars := by
  have hvar (v : QueryVar) : 0 ∉ v.name ++ 61 :: v.text := by
    rw [List.mem_append, List.mem_cons, not_or, not_or]
    exact ⟨v.not_mem_name.2.2, by decide, v.renders.not_mem.2⟩
  induction vars with
  | nil => exact List.not_mem_nil
  | cons v vars ih =>
    rcases vars with _ | ⟨w, vars⟩
    · exact hvar v
    · rw [queryText, List.mem_append, List.mem_cons, not_or, not_or]
      · exact ⟨hvar v, by decide, ih⟩
      · exact List.cons_ne_nil _ _

/-- **A variable is found and decoded.** What is found is the first variable of the name, in either
case, and its value is stored as it was before it was written into the query; the length is returned
as an `int`. A name with an `=` in it is none that a query has, but it may be taken for the name of a
variable and the start of its value. -/
theorem wbyFindQueryVar_queryText (hname : 61 ∉ name)
    (hroom : ∀ v ∈ vars, v.text.length < dstLen) :
    wbyFindQueryVar (queryText vars) name dstLen = lookUp vars name := by
  rw [wbyFindQueryVar, cstr_eq_self zero_not_mem_queryText, findQueryValue_queryText hname, lookUp]
  cases hfind : vars.find? fun v => caseEq v.name name with
  | none => rfl
  | some v =>
    have hlt := hroom v (List.mem_of_find?_eq_some hfind)
    have hle := v.renders.length_le
    have hvalue := @wbyUrlDecode_of_renders v.value v.text v.renders (dstLen - 1) (by omega)
    simp only [Option.map_some, if_pos hlt, hvalue]

/-- `q=1&Name=a%2Bb` has a `name`. -/
theorem wbyFindQueryVar_name : ∃ v w : QueryVar, v.name = ascii "q" ∧ w.name = ascii "Name" ∧
    queryText [v, w] = ascii "q=1&Name=a%2Bb" ∧
    wbyFindQueryVar (queryText [v, w]) (ascii "name") 16 = (3, ascii "a+b") := by
  have hv : Renders (ascii "1") (ascii "1") := Renders.self (List.all_iff_forall_prop.mp (by decide))
  have hw : Renders (ascii "a+b") (ascii "a%2Bb") :=
    .literal (by decide) (by decide) (by decide) (by decide)
      (.hex (by decide) (by decide) (Renders.self (List.all_iff_forall_prop.mp (by decide))))
  let v : QueryVar := ⟨ascii "q", ascii "1", ascii "1", by decide, List.all_eq_true.mp rfl, hv⟩
  let w : QueryVar :=
    ⟨ascii "Name", ascii "a+b", ascii "a%2Bb", by decide, List.all_eq_true.mp rfl, hw⟩
  have hroom : ∀ u ∈ [v, w], u.text.length < 16 :=
    List.forall_mem_cons.mpr ⟨show 1 < 16 by decide,
      List.forall_mem_cons.mpr ⟨show 5 < 16 by decide, List.forall_mem_nil _⟩⟩
  refine ⟨v, w, rfl, rfl, rfl, ?_⟩
  rw [wbyFindQueryVar_queryText (by decide) hroom]
  rfl

/-- A name with an `=` in it is found where the name of a variable and the start of its value look
like it. The length of a value of two gigabytes is returned as a negative one. -/
theorem wbyFindQueryVar_equals :
    (∃ v : QueryVar, v.name = ascii "a" ∧ v.value = ascii "b=c" ∧
      wbyFindQueryVar (queryText [v]) (ascii "a=b") 16 = (1, ascii "c") ∧
      lookUp [v] (ascii "a=b") = (-1, [])) ∧
    ∃ v : QueryVar, v.name = ascii "a" ∧ v.value.length = 2 ^ 31 ∧
      (wbyFindQueryVar (queryText [v]) (ascii "a") (2 ^ 31 + 1)).1 = -2 ^ 31 := by
  constructor
  · exact ⟨⟨ascii "a", ascii "b=c", ascii "b=c", by decide, List.all_eq_true.mp rfl,
      Renders.self (List.all_iff_forall_prop.mp (by decide))⟩, rfl, rfl, by decide, rfl⟩
  · have htext : Renders (List.replicate (2 ^ 31) 65) (List.replicate (2 ^ 31) 65) :=
      Renders.self fun b hb => List.eq_of_mem_replicate hb ▸ by decide
    let v : QueryVar := ⟨ascii "a", _, _, by decide, List.all_eq_true.mp rfl, htext⟩
    have hlen : v.text.length = 2 ^ 31 := List.length_replicate
    have hfind : findQueryValue (ascii "a") true (queryText [v]) = some v.text :=
      findQueryValue_queryText (by decide)
    have hvalue := @wbyUrlDecode_of_renders v.value v.text v.renders (2 ^ 31) hlen.le
    refine ⟨v, rfl, hlen, ?_⟩
    rw [wbyFindQueryVar, cstr_eq_self zero_not_mem_queryText, hfind]
    simp only [hlen, Nat.lt_succ_self, if_true, Nat.add_sub_cancel, hvalue]
    rw [show v.value.length = 2 ^ 31 from hlen]
    decide

end Query

end Mavicona.Mumux
