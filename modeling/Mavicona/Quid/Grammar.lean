import Mavicona.Quid.Parse

/-!
# The format check and the grammar of quids

Reference: `quid/quid.c` (`strquid_format`, `strtoquid`).

`strquid_format` checks the length, the characters and the hyphens separately. Without braces that is
the grammar. With braces the characters it allows include the braces, and nothing asks where they
stand, so a brace in the place of a digit is accepted as well (`BraceInside`); on such a text most
conversions of `strtoquid` fail.
-/

namespace Mavicona.Quid

open Bytes Numeral

/-! ## Conversions -/

/-- What `sscanf` returns: the number of conversions that were made. -/
def sscanfCount : List Directive → Bytes → ℕ
  | [], _ => 0
  | .char b :: format, s =>
    match s with
    | [] => 0
    | b' :: s => if b = b' then sscanfCount format s else 0
  | .hex width _ _ :: format, s =>
    match number 16 width s with
    | none => 0
    | some (_, s) => sscanfCount format s + 1

/-- The number of conversions `strtoquid` makes. -/
def strtoquidCount (s : Bytes) : ℕ :=
  if s.length = 38 then sscanfCount (.char 123 :: quidFormat ++ [.char 125]) s
  else if s.length = 36 then sscanfCount quidFormat s
  else 0

section Count

variable {width size off : ℕ} {format : List Directive} {d rest : Bytes}

theorem sscanfCount_char {b : UInt8} :
    sscanfCount (.char b :: format) (b :: rest) = sscanfCount format rest :=
  if_pos rfl

theorem sscanfCount_hex (hd : IsHex width d) (hpos : 0 < width) (hwidth : width ≤ 16) :
    sscanfCount (.hex width size off :: format) (d ++ rest) = sscanfCount format rest + 1 := by
  rw [sscanfCount, hd.number_eq hpos hwidth]

end Count

namespace Spelling

variable (t : Spelling)

/-- All eleven conversions of a text are made. -/
theorem sscanfCount_quidFormat (format : List Directive) (rest : Bytes) :
    sscanfCount (quidFormat ++ format) (t.bare ++ rest) = sscanfCount format rest + 11 := by
  have hseq : t.seq = t.seq.take 2 ++ t.seq.drop 2 := (List.take_append_drop 2 t.seq).symm
  have hpart : ∀ k, k + 2 ≤ 12 → IsHex 2 ((t.node.drop k).take 2) := fun k hk => t.isHex_node.part hk
  unfold bare quidFormat
  rw [hseq, t.node_eq]
  simp only [List.append_assoc, List.cons_append, List.nil_append]
  rw [sscanfCount_hex t.isHex_low (by decide) (by decide), sscanfCount_char,
    sscanfCount_hex t.isHex_mid (by decide) (by decide), sscanfCount_char,
    sscanfCount_hex t.isHex_hi (by decide) (by decide), sscanfCount_char,
    sscanfCount_hex t.isHex_seqHi (by decide) (by decide),
    sscanfCount_hex t.isHex_seqLow (by decide) (by decide), sscanfCount_char,
    sscanfCount_hex (hpart 0 (by decide)) (by decide) (by decide),
    sscanfCount_hex (hpart 2 (by decide)) (by decide) (by decide),
    sscanfCount_hex (hpart 4 (by decide)) (by decide) (by decide),
    sscanfCount_hex (hpart 6 (by decide)) (by decide) (by decide),
    sscanfCount_hex (hpart 8 (by decide)) (by decide) (by decide),
    sscanfCount_hex (hpart 10 (by decide)) (by decide) (by decide)]

theorem strtoquidCount_bare : strtoquidCount t.bare = 11 := by
  have hcount := t.sscanfCount_quidFormat [] []
  rw [List.append_nil, List.append_nil] at hcount
  rw [strtoquidCount, t.length_bare, if_neg (by decide), if_pos rfl, hcount]
  rfl

theorem strtoquidCount_braced : strtoquidCount t.braced = 11 := by
  have hlen : t.braced.length = 38 := by simp [braced, t.length_bare]
  rw [strtoquidCount, if_pos hlen, braced, List.cons_append, sscanfCount_char,
    t.sscanfCount_quidFormat, sscanfCount_char]
  rfl

end Spelling

/-! ## Groups between hyphens -/

/-- Groups of 8-4-4-4-12 characters of a kind. -/
structure Groups (ok : UInt8 → Prop) where
  low : Bytes
  mid : Bytes
  hi : Bytes
  seq : Bytes
  node : Bytes
  length_low : low.length = 8
  length_mid : mid.length = 4
  length_hi : hi.length = 4
  length_seq : seq.length = 4
  length_node : node.length = 12
  ok_of_mem : ∀ b ∈ low ++ (mid ++ (hi ++ (seq ++ node))), ok b

/-- The groups with hyphens between them. -/
def Groups.text {ok : UInt8 → Prop} (g : Groups ok) : Bytes :=
  g.low ++ 45 :: (g.mid ++ 45 :: (g.hi ++ 45 :: (g.seq ++ 45 :: g.node)))

/-- The first hyphen cuts a text. -/
theorem hyphens_eq_cons {i j : ℕ} {s : Bytes} {js : List ℕ} (h : hyphens i s = j :: js) :
    ∃ d rest, s = d ++ 45 :: rest ∧ i + d.length = j ∧ 45 ∉ d ∧ hyphens (j + 1) rest = js := by
  induction s generalizing i with
  | nil => exact absurd h (by simp [hyphens])
  | cons b s ih =>
    rw [hyphens] at h
    split_ifs at h with hb
    · obtain ⟨rfl, hrest⟩ := List.cons_eq_cons.mp h
      exact ⟨[], s, by rw [hb]; rfl, by simp, by simp, hrest⟩
    · obtain ⟨d, rest, rfl, hj, hd, hrest⟩ := ih h
      refine ⟨b :: d, rest, rfl, ?_, ?_, hrest⟩
      · rw [List.length_cons]
        omega
      · rw [List.mem_cons, not_or]
        exact ⟨Ne.symm hb, hd⟩

theorem notMem_of_hyphens_eq_nil {i : ℕ} {s : Bytes} (h : hyphens i s = []) : 45 ∉ s := by
  induction s generalizing i with
  | nil => simp
  | cons b s ih =>
    rw [hyphens] at h
    split_ifs at h with hb
    rw [List.mem_cons, not_or]
    exact ⟨Ne.symm hb, ih h⟩

/-- The hyphens are found from left to right. -/
theorem hyphens_pairwise (i : ℕ) (s : Bytes) :
    (hyphens i s).Pairwise (· < ·) ∧ ∀ j ∈ hyphens i s, i ≤ j := by
  induction s generalizing i with
  | nil => exact ⟨List.Pairwise.nil, by simp [hyphens]⟩
  | cons b s ih =>
    obtain ⟨hsorted, hle⟩ := ih (i + 1)
    rw [hyphens]
    split_ifs
    · refine ⟨List.pairwise_cons.mpr ⟨fun j hj => hle j hj, hsorted⟩, fun j hj => ?_⟩
      rcases List.mem_cons.mp hj with rfl | hj
      · exact le_rfl
      · exact (Nat.le_succ i).trans (hle j hj)
    · exact ⟨hsorted, fun j hj => (Nat.le_succ i).trans (hle j hj)⟩

/-- Four hyphens at four places are one at each. -/
theorem hyphens_eq_places {i : ℕ} {s : Bytes} {a b c d : ℕ} (hab : a < b) (hbc : b < c)
    (hcd : c < d) (hplaces : ∀ j ∈ hyphens i s, j ∈ [a, b, c, d])
    (hcount : (hyphens i s).length = 4) : hyphens i s = [a, b, c, d] := by
  obtain ⟨hsorted, -⟩ := hyphens_pairwise i s
  obtain ⟨w, x, y, z, heq⟩ : ∃ w x y z, hyphens i s = [w, x, y, z] := by
    rcases heq : hyphens i s with _ | ⟨w, _ | ⟨x, _ | ⟨y, _ | ⟨z, _ | ⟨v, l⟩⟩⟩⟩⟩ <;>
      simp [heq] at hcount
    exact ⟨w, x, y, z, rfl⟩
  rw [heq] at hsorted hplaces ⊢
  simp only [List.pairwise_cons, List.mem_cons, List.not_mem_nil, or_false, forall_eq_or_imp,
    forall_eq] at hsorted hplaces
  have hw : w = a := by omega
  have hx : x = b := by omega
  have hy : y = c := by omega
  have hz : z = d := by omega
  rw [hw, hx, hy, hz]

section Groups

variable {ok : UInt8 → Prop}

/-- A text with its hyphens in the right places is made of groups. -/
theorem exists_groups {i : ℕ} {s : Bytes} (hlen : s.length = 36)
    (hhyphens : hyphens i s = [i + 8, i + 13, i + 18, i + 23])
    (hok : ∀ b ∈ s, b ≠ 45 → ok b) : ∃ g : Groups ok, s = g.text := by
  obtain ⟨low, s₁, rfl, hlow, hlow', hs₁⟩ := hyphens_eq_cons hhyphens
  obtain ⟨mid, s₂, rfl, hmid, hmid', hs₂⟩ := hyphens_eq_cons hs₁
  obtain ⟨hi, s₃, rfl, hhi, hhi', hs₃⟩ := hyphens_eq_cons hs₂
  obtain ⟨seq, node, rfl, hseq, hseq', hnode⟩ := hyphens_eq_cons hs₃
  have hnode' := notMem_of_hyphens_eq_nil hnode
  simp only [List.length_append, List.length_cons] at hlen
  refine ⟨⟨low, mid, hi, seq, node, by omega, by omega, by omega, by omega, by omega, ?_⟩, rfl⟩
  intro b hb
  refine hok b ?_ ?_
  · simp only [List.mem_append, List.mem_cons] at hb ⊢
    tauto
  · rintro rfl
    simp only [List.mem_append] at hb
    tauto

theorem Groups.hyphens_text (g : Groups ok) (h : ¬ ok 45) (i : ℕ) (s : Bytes) :
    hyphens i (g.text ++ s) = [i + 8, i + 13, i + 18, i + 23] ++ hyphens (i + 36) s := by
  have hstep : ∀ {n : ℕ} {d : Bytes}, 45 ∉ d → d.length = n → ∀ (i : ℕ) (s : Bytes),
      hyphens i (d ++ 45 :: s) = (i + n) :: hyphens (i + n + 1) s := by
    intro n d hd hlen i s
    rw [hyphens_append, hyphens_eq_nil hd, List.nil_append, hlen, hyphens, if_pos rfl]
  have hmem : 45 ∉ g.low ++ (g.mid ++ (g.hi ++ (g.seq ++ g.node))) := fun hb => h (g.ok_of_mem 45 hb)
  simp only [List.mem_append, not_or] at hmem
  obtain ⟨hlow, hmid, hhi, hseq, hnode⟩ := hmem
  simp only [Groups.text, List.append_assoc, List.cons_append]
  rw [hstep hlow g.length_low, hstep hmid g.length_mid, hstep hhi g.length_hi,
    hstep hseq g.length_seq, hyphens_append, hyphens_eq_nil hnode, g.length_node]

theorem Groups.length_text (g : Groups ok) : g.text.length = 36 := by
  simp [Groups.text, g.length_low, g.length_mid, g.length_hi, g.length_seq, g.length_node]

theorem Groups.mem_text (g : Groups ok) {b : UInt8} (hb : b ∈ g.text) : b = 45 ∨ ok b := by
  by_cases hhyphen : b = 45
  · exact .inl hhyphen
  · refine .inr (g.ok_of_mem b ?_)
    simp only [Groups.text, List.mem_append, List.mem_cons, hhyphen, false_or] at hb
    simpa only [List.mem_append] using hb

end Groups

/-- Groups of digits are a text. -/
def Groups.spelling (g : Groups fun b => digitVal b < 16) : Spelling where
  low := g.low
  mid := g.mid
  hi := g.hi
  seq := g.seq
  node := g.node
  isHex_low := ⟨g.length_low, fun b hb => g.ok_of_mem b (by simp [hb])⟩
  isHex_mid := ⟨g.length_mid, fun b hb => g.ok_of_mem b (by simp [hb])⟩
  isHex_hi := ⟨g.length_hi, fun b hb => g.ok_of_mem b (by simp [hb])⟩
  isHex_seq := ⟨g.length_seq, fun b hb => g.ok_of_mem b (by simp [hb])⟩
  isHex_node := ⟨g.length_node, fun b hb => g.ok_of_mem b (by simp [hb])⟩

/-! ## What the check accepts -/

/-- A digit or a brace. -/
def DigitOrBrace (b : UInt8) : Prop := digitVal b < 16 ∨ b = 123 ∨ b = 125

instance (b : UInt8) : Decidable (DigitOrBrace b) := inferInstanceAs (Decidable (_ ∨ _))

theorem checkFormat_cases (allowed : UInt8 → Bool) (places : List ℕ) (result : ℕ) (s : Bytes) :
    (checkFormat allowed places result s = result ∧ (∀ b ∈ s, allowed b = true) ∧
      (∀ j ∈ hyphens 0 s, j ∈ places) ∧ (hyphens 0 s).length = 4) ∨
    (checkFormat allowed places result s = 0 ∧
      ¬ ((∀ b ∈ s, allowed b = true) ∧ (∀ j ∈ hyphens 0 s, j ∈ places) ∧
        (hyphens 0 s).length = 4)) := by
  have hall : (s.all allowed = true) ↔ ∀ b ∈ s, allowed b = true := List.all_eq_true
  have hplaces : ((hyphens 0 s).all (places.contains ·) = true) ↔ ∀ j ∈ hyphens 0 s, j ∈ places := by
    simp
  unfold checkFormat
  split_ifs with h₁ h₂ h₃
  · exact .inr ⟨rfl, fun h => absurd (hall.mpr h.1) (by simpa using h₁)⟩
  · exact .inr ⟨rfl, fun h => absurd (hplaces.mpr h.2.1) (by simpa using h₂)⟩
  · exact .inr ⟨rfl, fun h => h₃ h.2.2⟩
  · exact .inl ⟨rfl, hall.mp (by simpa using h₁), hplaces.mp (by simpa using h₂), by simpa using h₃⟩

theorem strquidFormat_of_length (s : Bytes) :
    strquidFormat s = 0 ∨ (strquidFormat s = 1 ∧ s.length = 38) ∨
      (strquidFormat s = 2 ∧ s.length = 36) := by
  unfold strquidFormat
  split_ifs with hbraced hends hbare
  · exact .inl rfl
  · rcases checkFormat_cases _ [9, 14, 19, 24] 1 s with h | h
    · exact .inr (.inl ⟨h.1, hbraced⟩)
    · exact .inl h.1
  · rcases checkFormat_cases digitOrHyphen [8, 13, 18, 23] 2 s with h | h
    · exact .inr (.inr ⟨h.1, hbare⟩)
    · exact .inl h.1
  · exact .inl rfl

/-- Without braces the check is the grammar. -/
theorem strquidFormat_eq_two_iff {s : Bytes} : strquidFormat s = 2 ↔ ∃ t : Spelling, s = t.bare := by
  constructor
  · intro h
    rcases strquidFormat_of_length s with h' | ⟨h', -⟩ | ⟨-, hlen⟩
    · omega
    · omega
    rw [strquidFormat, if_neg (by omega), if_pos hlen] at h
    rcases checkFormat_cases digitOrHyphen [8, 13, 18, 23] 2 s with ⟨-, hall, hplaces, hcount⟩ | h'
    · have hhyphens := hyphens_eq_places (by decide) (by decide) (by decide) hplaces hcount
      have hdigit : ∀ b ∈ s, b ≠ 45 → digitVal b < 16 := by
        intro b hb hne
        simpa [digitOrHyphen, hne] using hall b hb
      obtain ⟨g, rfl⟩ := exists_groups hlen hhyphens hdigit
      exact ⟨g.spelling, rfl⟩
    · omega
  · rintro ⟨t, rfl⟩
    exact t.strquidFormat_bare

/-- A text of 38 characters that starts with one character and ends with another. -/
theorem eq_cons_append_of_length {s : Bytes} {n : ℕ} {a b : UInt8} (hlen : s.length = n + 2)
    (hfirst : s.getD 0 0 = a) (hlast : s.getD (n + 1) 0 = b) :
    ∃ body, body.length = n ∧ s = a :: (body ++ [b]) := by
  obtain ⟨c, s, rfl⟩ : ∃ c s', s = c :: s' := List.exists_cons_of_length_pos (by omega)
  rcases List.eq_nil_or_concat s with rfl | ⟨body, d, rfl⟩
  · simp at hlen
  · have hbody : body.length = n := by simpa using hlen
    subst hbody
    simp only [List.getD_cons_zero] at hfirst
    have hlast' : d = b := by simpa using hlast
    exact ⟨body, rfl, by rw [hfirst, hlast']; simp⟩

/-- With braces the check accepts braces in the place of digits. -/
theorem strquidFormat_eq_one_iff {s : Bytes} :
    strquidFormat s = 1 ↔ ∃ g : Groups DigitOrBrace, s = 123 :: (g.text ++ [125]) := by
  constructor
  · intro h
    rcases strquidFormat_of_length s with h' | ⟨-, hlen⟩ | ⟨h', -⟩
    · omega
    · rw [strquidFormat, if_pos hlen] at h
      split_ifs at h with hends
      rw [not_or, not_not, not_not] at hends
      obtain ⟨body, hbody, rfl⟩ := eq_cons_append_of_length (n := 36) hlen hends.1 hends.2
      rcases checkFormat_cases (fun b => b = 123 || b = 125 || digitOrHyphen b) [9, 14, 19, 24] 1
        (123 :: (body ++ [125])) with ⟨-, hall, hplaces, hcount⟩ | h'
      · have hhyphens := hyphens_eq_places (by decide) (by decide) (by decide) hplaces hcount
        have hinner : hyphens 0 (123 :: (body ++ [125])) = hyphens 1 body := by
          rw [hyphens, if_neg (by decide), hyphens_append]
          simp [hyphens]
        have hok : ∀ b ∈ body, b ≠ 45 → DigitOrBrace b := by
          intro b hb hne
          have := hall b (by simp [hb])
          simp only [digitOrHyphen, Bool.or_eq_true, decide_eq_true_eq, hne, false_or] at this
          unfold DigitOrBrace
          tauto
        obtain ⟨g, rfl⟩ := exists_groups (i := 1) hbody (hinner ▸ hhyphens) hok
        exact ⟨g, rfl⟩
      · omega
    · omega
  · rintro ⟨g, rfl⟩
    have hlen : (123 :: (g.text ++ [125])).length = 38 := by simp [g.length_text]
    have hclose : (123 :: (g.text ++ [125])).getD 37 0 = 125 := by simp [g.length_text]
    have hhyphens : hyphens 0 (123 :: (g.text ++ [125])) = [9, 14, 19, 24] :=
      g.hyphens_text (by decide) 1 [125]
    have hallowed : ∀ b ∈ 123 :: (g.text ++ [125]),
        (b = 123 || b = 125 || digitOrHyphen b) = true := by
      intro b hb
      rw [List.mem_cons, List.mem_append, List.mem_singleton] at hb
      simp only [digitOrHyphen, Bool.or_eq_true, decide_eq_true_eq]
      rcases hb with rfl | hb | rfl
      · exact .inl (.inl rfl)
      · rcases g.mem_text hb with rfl | hdigit | hbrace | hbrace
        · exact .inr (.inl rfl)
        · exact .inr (.inr hdigit)
        · exact .inl (.inl hbrace)
        · exact .inl (.inr hbrace)
      · exact .inl (.inr rfl)
    rw [strquidFormat, if_pos hlen, hclose, if_neg (by simp)]
    rcases checkFormat_cases (fun b => b = 123 || b = 125 || digitOrHyphen b) [9, 14, 19, 24] 1
      (123 :: (g.text ++ [125])) with h | ⟨-, h⟩
    · exact h.1
    · exact absurd ⟨hallowed, by simp [hhyphens], by simp [hhyphens]⟩ h

/-! ## The grammar -/

/-- The text looks like a quid in braces, but a brace stands where a digit belongs. -/
def BraceInside (s : Bytes) : Prop :=
  ∃ g : Groups DigitOrBrace, (123 ∈ g.text ∨ 125 ∈ g.text) ∧ s = 123 :: (g.text ++ [125])

/-- The check tells the three cases of the grammar apart, and a text it accepts is parsed completely:
all eleven conversions are made and no byte of the quid is left as it was. -/
structure FormatExact (s : Bytes) : Prop where
  braced : strquidFormat s = 1 ↔ ∃ t : Spelling, s = t.braced
  bare : strquidFormat s = 2 ↔ ∃ t : Spelling, s = t.bare
  refused : strquidFormat s = 0 ↔ ¬ (∃ t : Spelling, s = t.braced) ∧ ¬ ∃ t : Spelling, s = t.bare
  parsed : strquidFormat s ≠ 0 → strtoquidCount s = 11 ∧
    ∀ mem mem' : Bytes, 20 ≤ mem.length → 20 ≤ mem'.length →
      (strtoquid s mem).take 20 = (strtoquid s mem').take 20

/-- A text with a brace inside is accepted. -/
theorem BraceInside.strquidFormat_eq {s : Bytes} (h : BraceInside s) : strquidFormat s = 1 := by
  obtain ⟨g, -, hs⟩ := h
  exact strquidFormat_eq_one_iff.mpr ⟨g, hs⟩

/-- It is not in the grammar. -/
theorem BraceInside.ne_braced {s : Bytes} (h : BraceInside s) (t : Spelling) : s ≠ t.braced := by
  obtain ⟨g, hbrace, rfl⟩ := h
  intro heq
  rw [Spelling.braced, List.cons_inj_right, List.append_left_inj] at heq
  rw [heq] at hbrace
  rcases hbrace with hmem | hmem
  · exact absurd (t.digitOrHyphen_bare _ hmem) (by decide)
  · exact absurd (t.digitOrHyphen_bare _ hmem) (by decide)

/-- Groups without a brace are digits. -/
theorem exists_spelling_of_not_brace {g : Groups DigitOrBrace}
    (h : ¬ (123 ∈ g.text ∨ 125 ∈ g.text)) : ∃ t : Spelling, g.text = t.bare := by
  have hdigit : ∀ b ∈ g.text, b ≠ 45 → digitVal b < 16 := by
    intro b hb hne
    rw [not_or] at h
    rcases g.mem_text hb with rfl | hdigit | rfl | rfl
    · exact absurd rfl hne
    · exact hdigit
    · exact absurd hb h.1
    · exact absurd hb h.2
  have hhyphens := g.hyphens_text (by decide) 0 []
  rw [List.append_nil, hyphens, List.append_nil] at hhyphens
  obtain ⟨g', hg'⟩ := exists_groups g.length_text hhyphens hdigit
  exact ⟨g'.spelling, hg'⟩

/-- Where no brace stands inside, the check with braces is the grammar too. -/
theorem strquidFormat_eq_one_iff_of_not_braceInside {s : Bytes} (h : ¬ BraceInside s) :
    strquidFormat s = 1 ↔ ∃ t : Spelling, s = t.braced := by
  constructor
  · intro hone
    obtain ⟨g, hs⟩ := strquidFormat_eq_one_iff.mp hone
    obtain ⟨t, ht⟩ := exists_spelling_of_not_brace fun hbrace => h ⟨g, hbrace, hs⟩
    exact ⟨t, by rw [hs, ht, Spelling.braced]⟩
  · rintro ⟨t, rfl⟩
    exact t.strquidFormat_braced

/-- **The format check is the grammar exactly where no brace stands in the place of a digit.** -/
theorem formatExact_iff (s : Bytes) : FormatExact s ↔ ¬ BraceInside s := by
  constructor
  · intro hexact hbrace
    obtain ⟨t, ht⟩ := hexact.braced.mp hbrace.strquidFormat_eq
    exact hbrace.ne_braced t ht
  · intro hbrace
    have hone := strquidFormat_eq_one_iff_of_not_braceInside hbrace
    refine ⟨hone, strquidFormat_eq_two_iff, ?_, ?_⟩
    · rw [← hone, ← strquidFormat_eq_two_iff]
      rcases strquidFormat_of_length s with h | ⟨h, -⟩ | ⟨h, -⟩ <;> omega
    · intro haccepted
      have htext : ∃ t : Spelling, s = t.bare ∨ s = t.braced := by
        rcases strquidFormat_of_length s with h | ⟨h, -⟩ | ⟨h, -⟩
        · exact absurd h haccepted
        · obtain ⟨t, ht⟩ := hone.mp h
          exact ⟨t, .inr ht⟩
        · obtain ⟨t, ht⟩ := strquidFormat_eq_two_iff.mp h
          exact ⟨t, .inl ht⟩
      obtain ⟨t, ht⟩ := htext
      have hstores : ∀ mem, strtoquid s mem = t.stores mem := by
        intro mem
        rcases ht with rfl | rfl
        · exact t.strtoquid_bare mem
        · exact t.strtoquid_braced mem
      refine ⟨?_, fun mem mem' hmem hmem' => ?_⟩
      · rcases ht with rfl | rfl
        · exact t.strtoquidCount_bare
        · exact t.strtoquidCount_braced
      · rw [hstores, hstores, t.take_stores hmem, t.take_stores hmem']

/-- A second opening brace is accepted, and no conversion of the text is made. -/
theorem not_formatExact_double_brace :
    ¬ FormatExact (ascii "\x7b\x7b2345678-1234-1234-1234-123456789012\x7d") := by
  intro h
  have hzero := (h.parsed (by decide)).1
  exact absurd hzero (by decide)

end Mavicona.Quid
