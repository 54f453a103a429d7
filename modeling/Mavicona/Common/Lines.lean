import Mavicona.Common.Bytes

/-!
# Lines and fields of a text

A text is its lines, each ended by a newline, and what stands behind the last newline. `getline`
reads what is left there as a line if there is any, and Python's `readlines` does too, but keeps the
newlines. Within a line, fields are cut off in front of a delimiter.
-/

namespace Bytes

/-- The lines of a text that are ended, and what is left. -/
def splitLines : Bytes → List Bytes × Bytes
  | [] => ([], [])
  | b :: s =>
    if b = 10 then ([] :: (splitLines s).1, (splitLines s).2)
    else match splitLines s with
      | ([], rest) => ([], b :: rest)
      | (l :: ls, rest) => ((b :: l) :: ls, rest)

/-- A text of lines. -/
def joinLines (ls : List Bytes) (rest : Bytes) : Bytes := (ls.map (· ++ [10])).flatten ++ rest

/-- The last line, if it is there without a newline. -/
def lastLine (rest : Bytes) : List Bytes := if rest = [] then [] else [rest]

/-- The lines that `std::getline` reads. -/
def getlines (s : Bytes) : List Bytes := (splitLines s).1 ++ lastLine (splitLines s).2

/-- The lines of Python's `readlines`. -/
def readlines (s : Bytes) : List Bytes :=
  (splitLines s).1.map (· ++ [10]) ++ lastLine (splitLines s).2

section Lines

variable {ls : List Bytes} {l rest s : Bytes}

theorem splitLines_append (hl : 10 ∉ l) :
    splitLines (l ++ 10 :: s) = (l :: (splitLines s).1, (splitLines s).2) := by
  induction l with
  | nil => rfl
  | cons b l ih =>
    rw [List.mem_cons, not_or] at hl
    rw [List.cons_append, splitLines, if_neg (Ne.symm hl.1), ih hl.2]

theorem splitLines_of_not_mem (h : 10 ∉ rest) : splitLines rest = ([], rest) := by
  induction rest with
  | nil => rfl
  | cons b rest ih =>
    rw [List.mem_cons, not_or] at h
    rw [splitLines, if_neg (Ne.symm h.1), ih h.2]

theorem splitLines_joinLines (hls : ∀ l ∈ ls, 10 ∉ l) (hrest : 10 ∉ rest) :
    splitLines (joinLines ls rest) = (ls, rest) := by
  induction ls with
  | nil => exact splitLines_of_not_mem hrest
  | cons l ls ih =>
    obtain ⟨hl, hls⟩ := List.forall_mem_cons.mp hls
    have hcons : joinLines (l :: ls) rest = l ++ 10 :: joinLines ls rest := by
      rw [joinLines, joinLines, List.map_cons, List.flatten_cons, List.append_assoc,
        List.append_assoc]
      rfl
    rw [hcons, splitLines_append hl, ih hls]

/-- The lines of a text whose last line is ended, and of one whose last line is not. -/
theorem getlines_joinLines (hls : ∀ l ∈ ls, 10 ∉ l) (hrest : 10 ∉ rest) :
    getlines (joinLines ls rest) = ls ++ lastLine rest := by
  rw [getlines, splitLines_joinLines hls hrest]

theorem dropLast_joinLines (ls : List Bytes) (l : Bytes) :
    (joinLines (ls ++ [l]) []).dropLast = joinLines ls l := by
  rw [joinLines, joinLines, List.append_nil, List.map_append, List.flatten_append, List.map_singleton,
    List.flatten_singleton, ← List.append_assoc, List.dropLast_concat]

end Lines

/-! ## Fields -/

/-- What is cut off in front of a delimiter, and what is left. -/
theorem cut_append {p : UInt8 → Bool} {s rest : Bytes} (hs : ∀ b ∈ s, p b = true)
    (hrest : ∀ b ∈ rest.head?, p b = false) :
    (s ++ rest).takeWhile p = s ∧ (s ++ rest).dropWhile p = rest := by
  rw [List.takeWhile_append_of_pos hs, List.dropWhile_append_of_pos hs]
  rcases rest with _ | ⟨b, rest⟩
  · exact ⟨List.append_nil s, rfl⟩
  · have hb := Bool.eq_false_iff.mp (hrest b rfl)
    rw [List.takeWhile_cons_of_neg hb, List.dropWhile_cons_of_neg hb, List.append_nil]
    exact ⟨rfl, rfl⟩

end Bytes
