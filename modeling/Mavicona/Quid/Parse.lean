import Mavicona.Common.Numeral
import Mavicona.Cynder.HashRing

/-!
# Reading quids

Reference: `quid/quid.c` (`strtoquid`, `strquid_format`), `quid/quid.h`, `quid/quidpp.h`.

`strtoquid` lets `sscanf` store the fields of a quid. The clock sequence and the node are single
bytes but are stored as values of two and of four bytes, so every store runs over the bytes behind
it; as the stores go up through the struct, the byte that is meant is the one that stays. The last
one runs three bytes over the end of the struct.
-/

namespace Mavicona.Quid

open Bytes Numeral

/-! ## The image of a quid -/

namespace QuidT

/-- The 20 bytes of the packed struct. -/
def toBytes (u : QuidT) : Bytes :=
  le 8 u.timeLow.toNat ++ le 2 u.timeMid.toNat ++ le 2 u.timeHiAndVersion.toNat ++
    [u.clockSeqHiAndReserved, u.clockSeqLow] ++ u.node.toList

/-- The struct of 20 bytes. -/
def ofBytes (bs : Bytes) : QuidT where
  timeLow := UInt64.ofNat (ofLe (field bs 0 8))
  timeMid := UInt16.ofNat (ofLe (field bs 8 2))
  timeHiAndVersion := UInt16.ofNat (ofLe (field bs 10 2))
  clockSeqHiAndReserved := bs.getD 12 0
  clockSeqLow := bs.getD 13 0
  node := Vector.ofFn fun i => bs.getD (14 + i) 0

/-- The struct of the fields of an image. -/
theorem ofBytes_image {a b c : ℕ} (d e n₀ n₁ n₂ n₃ n₄ n₅ : UInt8) (ha : a < 256 ^ 8)
    (hb : b < 256 ^ 2)
    (hc : c < 256 ^ 2) :
    ofBytes (le 8 a ++ le 2 b ++ le 2 c ++ [d, e] ++ [n₀, n₁, n₂, n₃, n₄, n₅]) =
      ⟨UInt64.ofNat a, UInt16.ofNat b, UInt16.ofNat c, d, e, #v[n₀, n₁, n₂, n₃, n₄, n₅]⟩ := by
  have hlow : field (le 8 a ++ le 2 b ++ le 2 c ++ [d, e] ++ [n₀, n₁, n₂, n₃, n₄, n₅]) 0 8 =
    le 8 a := rfl
  have hmid : field (le 8 a ++ le 2 b ++ le 2 c ++ [d, e] ++ [n₀, n₁, n₂, n₃, n₄, n₅]) 8 2 =
    le 2 b := rfl
  have hhi : field (le 8 a ++ le 2 b ++ le 2 c ++ [d, e] ++ [n₀, n₁, n₂, n₃, n₄, n₅]) 10 2 =
    le 2 c := rfl
  rw [ofBytes, hlow, hmid, hhi, ofLe_le_of_lt ha, ofLe_le_of_lt hb, ofLe_le_of_lt hc]
  rfl

end QuidT

/-! ## `sscanf` -/

/-- A value of `w` bytes is stored at an offset. -/
def poke (off w n : ℕ) (mem : Bytes) : Bytes := mem.take off ++ le w n ++ mem.drop (off + w)

/-- A directive of a format: a character, or a number in base 16 of at most `width` characters that is
stored as a value of `size` bytes. -/
inductive Directive
  | char (b : UInt8)
  | hex (width size off : ℕ)

/-- `sscanf` on a text, with the memory it stores to. -/
def sscanf : List Directive → Bytes → Bytes → Bytes
  | [], _, mem => mem
  | .char b :: format, s, mem =>
    match s with
    | [] => mem
    | b' :: s => if b = b' then sscanf format s mem else mem
  | .hex width size off :: format, s, mem =>
    match number 16 width s with
    | none => mem
    | some (n, s) => sscanf format s (poke off size n mem)

/-- The format of `strtoquid` without braces: `%8lx-%4hx-%4hx-%2hx%2hx-%2x%2x%2x%2x%2x%2x`, with the
addresses of the fields in the packed struct. -/
def quidFormat : List Directive :=
  [.hex 8 8 0, .char 45, .hex 4 2 8, .char 45, .hex 4 2 10, .char 45, .hex 2 2 12, .hex 2 2 13,
  .char 45,
    .hex 2 4 14, .hex 2 4 15, .hex 2 4 16, .hex 2 4 17, .hex 2 4 18, .hex 2 4 19]

/-- `strtoquid` on a C string; the memory starts with the struct. -/
def strtoquid (s mem : Bytes) : Bytes :=
  if s.length = 38 then sscanf (.char 123 :: quidFormat ++ [.char 125]) s mem
  else if s.length = 36 then sscanf quidFormat s mem
  else mem

/-! ## The format check -/

/-- The positions of the hyphens, which the check finds one after another. -/
def hyphens (i : ℕ) : Bytes → List ℕ
  | [] => []
  | b :: s => if b = 45 then i :: hyphens (i + 1) s else hyphens (i + 1) s

/-- A branch of `strquid_format`: the characters that are allowed and the places of the hyphens. -/
def checkFormat (allowed : UInt8 → Bool) (places : List ℕ) (result : ℕ) (s : Bytes) : ℕ :=
  if !s.all allowed then 0
  else if !(hyphens 0 s).all (places.contains ·) then 0
  else if (hyphens 0 s).length ≠ 4 then 0
  else result

/-- A hyphen or a digit in base 16. -/
def digitOrHyphen (b : UInt8) : Bool := b = 45 || digitVal b < 16

/-- `strquid_format` on a C string: 1 with braces, 2 without. -/
def strquidFormat (s : Bytes) : ℕ :=
  if s.length = 38 then
    if s.getD 0 0 ≠ 123 ∨ s.getD 37 0 ≠ 125 then 0
    else checkFormat (fun b => b = 123 || b = 125 || digitOrHyphen b) [9, 14, 19, 24] 1 s
  else if s.length = 36 then checkFormat digitOrHyphen [8, 13, 18, 23] 2 s
  else 0

/-- The constructor `Quid(const std::string&)`, in memory that was not set before; `none` is the
exception `InvalidQuid`. -/
def QuidT.ofString? (mem s : Bytes) : Option QuidT :=
  if strquidFormat (cstr s) = 0 then none else some (.ofBytes ((strtoquid (cstr s) mem).take 20))

/-! ## Overlapping stores -/

section Stores

variable {off w n e : ℕ} {mem : Bytes}

theorem le_length_poke (h : e ≤ mem.length) : e ≤ (poke off w n mem).length := by
  simp only [poke, List.length_append, List.length_take, length_le, List.length_drop]
  omega

/-- Up to a point inside a store, the memory is what was before it and the first bytes of the
value. -/
theorem take_poke (hoff : off ≤ mem.length) (he : off ≤ e) (he' : e ≤ off + w) :
    (poke off w n mem).take e = mem.take off ++ (le w n).take (e - off) := by
  have hlen : (mem.take off).length = off := List.length_take_of_le hoff
  rw [poke, List.append_assoc, List.take_append, List.take_append, hlen, length_le,
    List.take_of_length_le (hlen.le.trans he), Nat.sub_eq_zero_of_le (by omega : e - off ≤ w),
    List.take_zero, List.append_nil]

end Stores

/-! ## The texts of a quid -/

/-- A string of `n` digits in base 16, in any case. -/
structure IsHex (n : ℕ) (d : Bytes) : Prop where
  length_eq : d.length = n
  digit : ∀ b ∈ d, digitVal b < 16

/-- The text of 8-4-4-4-12 digits in base 16. -/
structure Spelling where
  low : Bytes
  mid : Bytes
  hi : Bytes
  seq : Bytes
  node : Bytes
  isHex_low : IsHex 8 low
  isHex_mid : IsHex 4 mid
  isHex_hi : IsHex 4 hi
  isHex_seq : IsHex 4 seq
  isHex_node : IsHex 12 node

namespace Spelling

/-- The text without braces. -/
def bare (t : Spelling) : Bytes :=
  t.low ++ 45 :: (t.mid ++ 45 :: (t.hi ++ 45 :: (t.seq ++ 45 :: t.node)))

/-- The text in braces. -/
def braced (t : Spelling) : Bytes := 123 :: (t.bare ++ [125])

/-- The quid of the text. -/
def quid (t : Spelling) : QuidT where
  timeLow := UInt64.ofNat (value 16 t.low)
  timeMid := UInt16.ofNat (value 16 t.mid)
  timeHiAndVersion := UInt16.ofNat (value 16 t.hi)
  clockSeqHiAndReserved := UInt8.ofNat (value 16 (t.seq.take 2))
  clockSeqLow := UInt8.ofNat (value 16 (t.seq.drop 2))
  node := Vector.ofFn fun i => UInt8.ofNat (value 16 ((t.node.drop (2 * i)).take 2))

end Spelling

/-- A part of the digits. -/
theorem IsHex.part {n k m : ℕ} {d : Bytes} (h : IsHex n d) (hk : k + m ≤ n) :
    IsHex m ((d.drop k).take m) := by
  refine ⟨?_, fun b hb => h.digit b (List.mem_of_mem_drop (List.mem_of_mem_take hb))⟩
  rw [List.length_take, List.length_drop, h.length_eq]
  omega

/-- Two digits and the digits behind them. -/
theorem drop_eq_pair_append (d : Bytes) (k : ℕ) : d.drop k = (d.drop k).take 2 ++ d.drop (k + 2) := by
  rw [← List.drop_drop, List.take_append_drop]

theorem IsHex.value_lt {n : ℕ} {d : Bytes} (h : IsHex n d) : value 16 d < 16 ^ n := by
  have := Numeral.value_lt h.digit
  rwa [h.length_eq] at this

/-- The conversion `%.{w}x` writes all the digits. -/
theorem hexPrec_eq_fixed {w n : ℕ} (hw : 0 < w) (hn : n < 16 ^ w) : hexPrec w n = fixed 16 w n :=
  replicate_append_print (by decide) hw hn

theorem hexPrec_value {w : ℕ} {d : Bytes} (hd : IsHex w d) (hw : 0 < w) :
    hexPrec w (value 16 d) = d.map lower := by
  rw [hexPrec_eq_fixed hw hd.value_lt, ← fixed_value (by decide) (by decide) hd.digit, hd.length_eq]

theorem isHex_hexPrec {w n : ℕ} (hw : 0 < w) (hn : n < 16 ^ w) : IsHex w (hexPrec w n) := by
  rw [hexPrec_eq_fixed hw hn]
  exact ⟨length_fixed 16 w n, fun b hb => mem_fixed (by decide) (by decide) hb⟩

theorem value_hexPrec {w n : ℕ} (hw : 0 < w) (hn : n < 16 ^ w) : value 16 (hexPrec w n) = n := by
  rw [hexPrec_eq_fixed hw hn, value_fixed (by decide) (by decide), Nat.mod_eq_of_lt hn]

section Scan

variable {width size off : ℕ} {format : List Directive} {d rest mem : Bytes}

theorem sscanf_char {b : UInt8} :
    sscanf (.char b :: format) (b :: rest) mem = sscanf format rest mem :=
  if_pos rfl

/-- A conversion of `width` characters takes the digits of its width. -/
theorem IsHex.number_eq (hd : IsHex width d) (hpos : 0 < width) (hwidth : width ≤ 16) :
    number 16 width (d ++ rest) = some (value 16 d, rest) := by
  have hne : d ≠ [] := by
    rintro rfl
    exact absurd hd.length_eq hpos.ne
  have hval : value 16 d < 2 ^ 64 :=
    hd.value_lt.trans_le (Nat.pow_le_pow_right (by decide) hwidth : 16 ^ width ≤ 16 ^ 16)
  exact number_digits le_rfl hne hd.digit hval (Or.inl hd.length_eq) 0

theorem sscanf_hex (hd : IsHex width d) (hpos : 0 < width) (hwidth : width ≤ 16) :
    sscanf (.hex width size off :: format) (d ++ rest) mem =
      sscanf format rest (poke off size (value 16 d) mem) := by
  rw [sscanf, hd.number_eq hpos hwidth]

end Scan

namespace Spelling

variable (t : Spelling) {mem : Bytes}

/-- The value of the `i`th byte of the node. -/
def nodeValue (i : ℕ) : ℕ := value 16 ((t.node.drop (2 * i)).take 2)

/-- The stores of the clock sequence and of what comes before it. -/
def headStores (mem : Bytes) : Bytes :=
  poke 13 2 (value 16 (t.seq.drop 2)) (poke 12 2 (value 16 (t.seq.take 2))
    (poke 10 2 (value 16 t.hi) (poke 8 2 (value 16 t.mid) (poke 0 8 (value 16 t.low) mem))))

/-- All the stores. -/
def stores (mem : Bytes) : Bytes :=
  poke 19 4 (t.nodeValue 5) (poke 18 4 (t.nodeValue 4) (poke 17 4 (t.nodeValue 3)
    (poke 16 4 (t.nodeValue 2)
      (poke 15 4 (t.nodeValue 1) (poke 14 4 (t.nodeValue 0) (t.headStores mem))))))

theorem node_eq : t.node = (t.node.drop 0).take 2 ++
    ((t.node.drop 2).take 2 ++ ((t.node.drop 4).take 2 ++
    ((t.node.drop 6).take 2 ++ ((t.node.drop 8).take 2 ++ (t.node.drop 10).take 2)))) := by
  have hlast : (t.node.drop 10).take 2 = t.node.drop 10 :=
    List.take_of_length_le (by rw [List.length_drop, t.isHex_node.length_eq])
  rw [hlast, ← drop_eq_pair_append t.node 8, ← drop_eq_pair_append t.node 6,
    ← drop_eq_pair_append t.node 4,
    ← drop_eq_pair_append t.node 2, ← drop_eq_pair_append t.node 0, List.drop_zero]

theorem isHex_seqHi : IsHex 2 (t.seq.take 2) := t.isHex_seq.part (k := 0) (by decide)

theorem isHex_seqLow : IsHex 2 (t.seq.drop 2) := by
  have := t.isHex_seq.part (k := 2) (m := 2) (by decide)
  rwa [List.take_of_length_le (by rw [List.length_drop, t.isHex_seq.length_eq])] at this

/-- **The stores of a text**, whatever the format and the text go on with. -/
theorem sscanf_quidFormat (format : List Directive) (rest mem : Bytes) :
    sscanf (quidFormat ++ format) (t.bare ++ rest) mem = sscanf format rest (t.stores mem) := by
  have hseq : t.seq = t.seq.take 2 ++ t.seq.drop 2 := (List.take_append_drop 2 t.seq).symm
  have hpart : ∀ k, k + 2 ≤ 12 → IsHex 2 ((t.node.drop k).take 2) := fun k hk => t.isHex_node.part hk
  unfold bare quidFormat
  rw [hseq, t.node_eq]
  simp only [List.append_assoc, List.cons_append, List.nil_append]
  rw [sscanf_hex t.isHex_low (by decide) (by decide), sscanf_char,
    sscanf_hex t.isHex_mid (by decide) (by decide), sscanf_char,
    sscanf_hex t.isHex_hi (by decide) (by decide), sscanf_char,
    sscanf_hex t.isHex_seqHi (by decide) (by decide),
    sscanf_hex t.isHex_seqLow (by decide) (by decide), sscanf_char,
    sscanf_hex (hpart 0 (by decide)) (by decide) (by decide),
    sscanf_hex (hpart 2 (by decide)) (by decide) (by decide),
    sscanf_hex (hpart 4 (by decide)) (by decide) (by decide),
    sscanf_hex (hpart 6 (by decide)) (by decide) (by decide),
    sscanf_hex (hpart 8 (by decide)) (by decide) (by decide),
    sscanf_hex (hpart 10 (by decide)) (by decide) (by decide)]
  rfl

/-- The bytes that stay. -/
theorem take_stores (hmem : 20 ≤ mem.length) :
    (t.stores mem).take 20 = le 8 (value 16 t.low) ++ le 2 (value 16 t.mid) ++ le 2 (value 16 t.hi) ++
      [UInt8.ofNat (value 16 (t.seq.take 2)), UInt8.ofNat (value 16 (t.seq.drop 2))] ++
      [UInt8.ofNat (t.nodeValue 0), UInt8.ofNat (t.nodeValue 1), UInt8.ofNat (t.nodeValue 2),
        UInt8.ofNat (t.nodeValue 3), UInt8.ofNat (t.nodeValue 4), UInt8.ofNat (t.nodeValue 5)] := by
  have hstep : ∀ (off w n e : ℕ) {m : Bytes}, 20 ≤ m.length → off ≤ 20 → off ≤ e → e ≤ off + w →
      20 ≤ (poke off w n m).length ∧ (poke off w n m).take e = m.take off ++
        (le w n).take (e - off) :=
    fun off w n e m hm hoff he he' => ⟨le_length_poke hm, take_poke (hoff.trans hm) he he'⟩
  -- Each store leaves the bytes before it and its own up to the next one.
  obtain ⟨hm, hlow⟩ := hstep 0 8 (value 16 t.low) 8 hmem (by decide) (by decide) (by decide)
  obtain ⟨hm, hmid⟩ := hstep 8 2 (value 16 t.mid) 10 hm (by decide) (by decide) (by decide)
  obtain ⟨hm, hhi⟩ := hstep 10 2 (value 16 t.hi) 12 hm (by decide) (by decide) (by decide)
  obtain ⟨hm, hseqHi⟩ := hstep 12 2 (value 16 (t.seq.take 2)) 13 hm (by decide) (by decide)
    (by decide)
  obtain ⟨hm, hseqLow⟩ := hstep 13 2 (value 16 (t.seq.drop 2)) 14 hm (by decide) (by decide)
    (by decide)
  obtain ⟨hm, hnode0⟩ := hstep 14 4 (t.nodeValue 0) 15 hm (by decide) (by decide) (by decide)
  obtain ⟨hm, hnode1⟩ := hstep 15 4 (t.nodeValue 1) 16 hm (by decide) (by decide) (by decide)
  obtain ⟨hm, hnode2⟩ := hstep 16 4 (t.nodeValue 2) 17 hm (by decide) (by decide) (by decide)
  obtain ⟨hm, hnode3⟩ := hstep 17 4 (t.nodeValue 3) 18 hm (by decide) (by decide) (by decide)
  obtain ⟨hm, hnode4⟩ := hstep 18 4 (t.nodeValue 4) 19 hm (by decide) (by decide) (by decide)
  obtain ⟨-, hnode5⟩ := hstep 19 4 (t.nodeValue 5) 20 hm (by decide) (by decide) (by decide)
  rw [stores, headStores, hnode5, hnode4, hnode3, hnode2, hnode1, hnode0, hseqLow, hseqHi, hhi,
    hmid, hlow]
  rfl

/-- What the struct holds after the stores. -/
theorem ofBytes_stores (hmem : 20 ≤ mem.length) :
    QuidT.ofBytes ((t.stores mem).take 20) = t.quid := by
  rw [t.take_stores hmem]
  have hlow : value 16 t.low < 256 ^ 8 := t.isHex_low.value_lt.trans (by decide)
  have hmid : value 16 t.mid < 256 ^ 2 := t.isHex_mid.value_lt
  have hhi : value 16 t.hi < 256 ^ 2 := t.isHex_hi.value_lt
  rw [QuidT.ofBytes_image _ _ _ _ _ _ _ _ hlow hmid hhi]
  rfl

/-- The bytes that stay are those of the quid. -/
theorem take_stores_eq_toBytes (hmem : 20 ≤ mem.length) :
    (t.stores mem).take 20 = t.quid.toBytes := by
  have hlow : (UInt64.ofNat (value 16 t.low)).toNat = value 16 t.low :=
    UInt64.toNat_ofNat_of_lt' (t.isHex_low.value_lt.trans (by decide))
  have hmid : (UInt16.ofNat (value 16 t.mid)).toNat = value 16 t.mid :=
    UInt16.toNat_ofNat_of_lt' t.isHex_mid.value_lt
  have hhi : (UInt16.ofNat (value 16 t.hi)).toNat = value 16 t.hi :=
    UInt16.toNat_ofNat_of_lt' t.isHex_hi.value_lt
  rw [t.take_stores hmem, QuidT.toBytes, quid, hlow, hmid, hhi]
  rfl

/-- Neither a digit nor a hyphen ends a C string. -/
theorem zero_notMem_bare : 0 ∉ t.bare := by
  have hdigit : ∀ {n : ℕ} {d : Bytes}, IsHex n d → (0 : UInt8) ∉ d :=
    fun h hmem => absurd (h.digit 0 hmem) (by decide)
  simp [bare, hdigit t.isHex_low, hdigit t.isHex_mid, hdigit t.isHex_hi, hdigit t.isHex_seq,
    hdigit t.isHex_node]

theorem length_bare : t.bare.length = 36 := by
  simp [bare, t.isHex_low.length_eq, t.isHex_mid.length_eq, t.isHex_hi.length_eq,
    t.isHex_seq.length_eq, t.isHex_node.length_eq]

theorem strtoquid_bare (mem : Bytes) : strtoquid t.bare mem = t.stores mem := by
  have hscan := t.sscanf_quidFormat [] [] mem
  rw [List.append_nil, List.append_nil] at hscan
  rw [strtoquid, t.length_bare, if_neg (by decide), if_pos rfl, hscan]
  rfl

theorem strtoquid_braced (mem : Bytes) : strtoquid t.braced mem = t.stores mem := by
  have hlen : t.braced.length = 38 := by simp [braced, t.length_bare]
  rw [strtoquid, if_pos hlen, braced, List.cons_append, sscanf_char, t.sscanf_quidFormat, sscanf_char]
  rfl

/-- The text of the quid of a text. -/
theorem digits_quid : t.quid.digits = t.bare.map lower := by
  have hlow : t.quid.timeLow.toNat % 2 ^ 32 = value 16 t.low := by
    have hlt : value 16 t.low < 2 ^ 32 := t.isHex_low.value_lt
    rw [quid, UInt64.toNat_ofNat_of_lt' (hlt.trans (by decide)), Nat.mod_eq_of_lt hlt]
  have hbyte : ∀ {d : Bytes}, IsHex 2 d → hexPrec 2 (UInt8.ofNat (value 16 d)).toNat =
    d.map lower := by
    intro d hd
    rw [UInt8.toNat_ofNat_of_lt' hd.value_lt, hexPrec_value hd (by decide)]
  have hnodeByte : ∀ i, 2 * i + 2 ≤ 12 → hexPrec 2 (UInt8.ofNat (t.nodeValue i)).toNat =
      ((t.node.drop (2 * i)).take 2).map lower := fun i hi => hbyte (t.isHex_node.part hi)
  have hnode : (t.quid.node.toList.flatMap fun b => hexPrec 2 b.toNat) = t.node.map lower := by
    have hlist : t.quid.node.toList = [UInt8.ofNat (t.nodeValue 0), UInt8.ofNat (t.nodeValue 1),
        UInt8.ofNat (t.nodeValue 2), UInt8.ofNat (t.nodeValue 3), UInt8.ofNat (t.nodeValue 4),
        UInt8.ofNat (t.nodeValue 5)] := rfl
    rw [hlist, t.node_eq]
    simp only [List.flatMap_cons, List.flatMap_nil, List.append_nil, List.map_append,
      hnodeByte 0 (by decide), hnodeByte 1 (by decide), hnodeByte 2 (by decide),
      hnodeByte 3 (by decide), hnodeByte 4 (by decide), hnodeByte 5 (by decide)]
  rw [QuidT.digits, hlow, hnode, hexPrec_value t.isHex_low (by decide)]
  rw [quid]
  dsimp only
  rw [UInt16.toNat_ofNat_of_lt' t.isHex_mid.value_lt, UInt16.toNat_ofNat_of_lt' t.isHex_hi.value_lt,
    hexPrec_value t.isHex_mid (by decide), hexPrec_value t.isHex_hi (by decide), hbyte t.isHex_seqHi,
    hbyte t.isHex_seqLow, ← List.map_append, List.take_append_drop]
  simp [bare]
  decide

end Spelling

namespace QuidT

/-- The text that is written, by its groups. -/
def spelling (u : QuidT) : Spelling where
  low := hexPrec 8 (u.timeLow.toNat % 2 ^ 32)
  mid := hexPrec 4 u.timeMid.toNat
  hi := hexPrec 4 u.timeHiAndVersion.toNat
  seq := hexPrec 2 u.clockSeqHiAndReserved.toNat ++ hexPrec 2 u.clockSeqLow.toNat
  node := u.node.toList.flatMap fun b => hexPrec 2 b.toNat
  isHex_low := isHex_hexPrec (by decide) (Nat.mod_lt _ (by decide))
  isHex_mid := isHex_hexPrec (by decide) u.timeMid.toNat_lt
  isHex_hi := isHex_hexPrec (by decide) u.timeHiAndVersion.toNat_lt
  isHex_seq := by
    have hhi := isHex_hexPrec (w := 2) (by decide) u.clockSeqHiAndReserved.toNat_lt
    have hlow := isHex_hexPrec (w := 2) (by decide) u.clockSeqLow.toNat_lt
    refine ⟨by rw [List.length_append, hhi.length_eq, hlow.length_eq], fun b hb => ?_⟩
    exact (List.mem_append.mp hb).elim (hhi.digit b) (hlow.digit b)
  isHex_node := by
    refine ⟨?_, fun b hb => ?_⟩
    · rw [length_flatMap_hexPrec (by decide) UInt8.toNat_lt, Vector.length_toList]
    · obtain ⟨c, -, hb⟩ := List.mem_flatMap.mp hb
      exact (isHex_hexPrec (w := 2) (by decide) c.toNat_lt).digit b hb

theorem bare_spelling (u : QuidT) : u.spelling.bare = u.digits := rfl

theorem braced_spelling (u : QuidT) : u.spelling.braced = u.quidtostr := u.quidtostr_eq.symm

/-- The two digits of a byte of the node. -/
theorem part_flatMap_hexPrec (l : List UInt8) (i : ℕ) (hi : i < l.length) :
    ((l.flatMap fun b => hexPrec 2 b.toNat).drop (2 * i)).take 2 =
      hexPrec 2 (l.get ⟨i, hi⟩).toNat := by
  induction l generalizing i with
  | nil => exact absurd hi (Nat.not_lt_zero i)
  | cons b l ih =>
    have hb : (hexPrec 2 b.toNat).length = 2 := length_hexPrec (by decide) b.toNat_lt
    cases i with
    | zero => exact List.take_left' hb
    | succ i =>
      rw [List.flatMap_cons, Nat.mul_succ, Nat.add_comm, ← List.drop_drop, List.drop_left' hb]
      exact ih i (Nat.lt_of_succ_lt_succ hi)

/-- A quid is the quid of its text, if the text has all of it. -/
theorem quid_spelling {u : QuidT} (hlow : u.timeLow.toNat < 2 ^ 32) : u.spelling.quid = u := by
  have hseq : (hexPrec 2 u.clockSeqHiAndReserved.toNat).length = 2 :=
    length_hexPrec (by decide) u.clockSeqHiAndReserved.toNat_lt
  have hvalue : ∀ b : UInt8, UInt8.ofNat (value 16 (hexPrec 2 b.toNat)) = b := fun b => by
    rw [value_hexPrec (by decide) b.toNat_lt, UInt8.ofNat_toNat]
  have hlowValue : value 16 (hexPrec 8 (u.timeLow.toNat % 2 ^ 32)) = u.timeLow.toNat := by
    rw [Nat.mod_eq_of_lt hlow]
    exact value_hexPrec (by decide) hlow
  have hshort : ∀ n : UInt16, value 16 (hexPrec 4 n.toNat) = n.toNat := fun n =>
    value_hexPrec (by decide) n.toNat_lt
  rw [Spelling.quid, spelling]
  dsimp only
  rw [hlowValue, hshort, hshort, UInt64.ofNat_toNat, UInt16.ofNat_toNat, UInt16.ofNat_toNat,
    List.take_left' hseq, List.drop_left' hseq, hvalue, hvalue]
  have hnode : (Vector.ofFn fun i : Fin 6 => UInt8.ofNat (value 16
      (((u.node.toList.flatMap fun b => hexPrec 2 b.toNat).drop (2 * i)).take 2))) = u.node := by
    refine Vector.ext fun i hi => ?_
    rw [Vector.getElem_ofFn, part_flatMap_hexPrec _ _ (by rwa [Vector.length_toList]), hvalue]
    simp
  rw [hnode]

end QuidT

/-! ## The format check of a text -/

/-- The hyphens of a string follow those of the string before it. -/
theorem hyphens_append (i : ℕ) (s s' : Bytes) :
    hyphens i (s ++ s') = hyphens i s ++ hyphens (i + s.length) s' := by
  induction s generalizing i with
  | nil => rfl
  | cons b s ih =>
    have hnext : i + 1 + s.length = i + (b :: s).length := by rw [List.length_cons]; omega
    rw [List.cons_append, hyphens, hyphens, ih, hnext]
    split_ifs <;> rfl

theorem hyphens_eq_nil {d : Bytes} (h : 45 ∉ d) (i : ℕ) : hyphens i d = [] := by
  induction d generalizing i with
  | nil => rfl
  | cons b d ih =>
    rw [List.mem_cons, not_or] at h
    rw [hyphens, if_neg (Ne.symm h.1)]
    exact ih h.2 _

theorem IsHex.hyphens_eq {n : ℕ} {d : Bytes} (h : IsHex n d) (i : ℕ) : hyphens i d = [] :=
  hyphens_eq_nil (fun hmem => (digit_ne (h.digit 45 hmem)).2.1 rfl) i

namespace Spelling

variable (t : Spelling)

theorem hyphens_bare (i : ℕ) (s : Bytes) :
    hyphens i (t.bare ++ s) = [i + 8, i + 13, i + 18, i + 23] ++ hyphens (i + 36) s := by
  have hstep : ∀ {n : ℕ} {d : Bytes} (h : IsHex n d) (i : ℕ) (s : Bytes),
      hyphens i (d ++ 45 :: s) = (i + n) :: hyphens (i + n + 1) s := by
    intro n d h i s
    rw [hyphens_append, h.hyphens_eq, List.nil_append, h.length_eq, hyphens, if_pos rfl]
  simp only [bare, List.append_assoc, List.cons_append]
  rw [hstep t.isHex_low, hstep t.isHex_mid, hstep t.isHex_hi, hstep t.isHex_seq, hyphens_append,
    t.isHex_node.hyphens_eq, t.isHex_node.length_eq]

theorem digitOrHyphen_bare : ∀ b ∈ t.bare, digitOrHyphen b = true := by
  have hdigit : ∀ {n : ℕ} {d : Bytes}, IsHex n d → ∀ b ∈ d, digitOrHyphen b = true := by
    intro n d h b hb
    simp [digitOrHyphen, h.digit b hb]
  have hhyphen : digitOrHyphen 45 = true := rfl
  intro b hb
  simp only [bare, List.mem_append, List.mem_cons] at hb
  rcases hb with hb | rfl | hb | rfl | hb | rfl | hb | rfl | hb
  · exact hdigit t.isHex_low b hb
  · exact hhyphen
  · exact hdigit t.isHex_mid b hb
  · exact hhyphen
  · exact hdigit t.isHex_hi b hb
  · exact hhyphen
  · exact hdigit t.isHex_seq b hb
  · exact hhyphen
  · exact hdigit t.isHex_node b hb

theorem strquidFormat_bare : strquidFormat t.bare = 2 := by
  have hhyphens : hyphens 0 t.bare = [8, 13, 18, 23] := by
    have := t.hyphens_bare 0 []
    rwa [List.append_nil] at this
  rw [strquidFormat, t.length_bare, if_neg (by decide), if_pos rfl, checkFormat,
    List.all_eq_true.mpr t.digitOrHyphen_bare, hhyphens]
  rfl

theorem strquidFormat_braced : strquidFormat t.braced = 1 := by
  have hlen : t.braced.length = 38 := by simp [braced, t.length_bare]
  have hclose : t.braced.getD 37 0 = 125 := by simp [braced, t.length_bare]
  have hhyphens : hyphens 0 t.braced = [9, 14, 19, 24] := t.hyphens_bare 1 [125]
  have hallowed : t.braced.all (fun b => b = 123 || b = 125 || digitOrHyphen b) = true := by
    refine List.all_eq_true.mpr fun b hb => ?_
    rw [braced, List.mem_cons, List.mem_append, List.mem_singleton] at hb
    rcases hb with rfl | hb | rfl
    · rfl
    · rw [t.digitOrHyphen_bare b hb, Bool.or_true]
    · rfl
  have hopen : t.braced.getD 0 0 = 123 := rfl
  rw [strquidFormat, if_pos hlen, hopen, hclose, if_neg (by decide), checkFormat, hallowed, hhyphens]
  rfl

/-- A text is accepted, in braces or not, and gives its quid. -/
theorem ofString?_eq {s mem : Bytes} (hs : s = t.bare ∨ s = t.braced) (hmem : 20 ≤ mem.length) :
    QuidT.ofString? mem s = some t.quid := by
  rcases hs with rfl | rfl
  · rw [QuidT.ofString?, cstr_eq_self t.zero_notMem_bare, t.strquidFormat_bare, if_neg (by decide),
      t.strtoquid_bare, t.ofBytes_stores hmem]
  · have hzero : 0 ∉ t.braced := by simp [braced, t.zero_notMem_bare]
    rw [QuidT.ofString?, cstr_eq_self hzero, t.strquidFormat_braced, if_neg (by decide),
      t.strtoquid_braced, t.ofBytes_stores hmem]

end Spelling

/-! ## The codec -/

/-- **The text codec of a quid.** A quid whose low time fits its text is read back from the text,
in braces or not, in all its 20 bytes. A text of 8-4-4-4-12 digits is written back in braces and
in lower case. So whatever the spelling of an id, its record is routed to the same node. -/
theorem quid_text_codec :
    (∀ (u : QuidT) (mem : Bytes), u.timeLow.toNat < 2 ^ 32 → 20 ≤ mem.length →
      (strtoquid u.quidtostr mem).take 20 = u.toBytes ∧ (strtoquid u.digits mem).take 20 =
        u.toBytes) ∧
    (∀ (t : Spelling) (s mem : Bytes), s = t.bare ∨ s = t.braced → 20 ≤ mem.length →
      (QuidT.ofBytes ((strtoquid s mem).take 20)).quidtostr = 123 :: (t.bare.map lower ++ [125])) ∧
    (∀ (Node : Type) (R : Cynder.HashRing Node) (t t' : Spelling) (s s' mem mem' : Bytes),
      s = t.bare ∨ s = t.braced → s' = t'.bare ∨ s' = t'.braced → 20 ≤ mem.length → 20 ≤ mem'.length →
      t.bare.map lower = t'.bare.map lower →
      ∃ u u', QuidT.ofString? mem s = some u ∧ QuidT.ofString? mem' s' = some u' ∧
        R.getNode u = R.getNode u') := by
  have hstores : ∀ (t : Spelling) (s mem : Bytes), s = t.bare ∨ s = t.braced →
      strtoquid s mem = t.stores mem := by
    rintro t s mem (rfl | rfl)
    · exact t.strtoquid_bare mem
    · exact t.strtoquid_braced mem
  refine ⟨fun u mem hlow hmem => ?_, fun t s mem hs hmem => ?_, ?_⟩
  · have hbytes := u.spelling.take_stores_eq_toBytes hmem
    rw [QuidT.quid_spelling hlow] at hbytes
    rw [hstores u.spelling _ mem (Or.inr u.braced_spelling.symm),
      hstores u.spelling _ mem (Or.inl u.bare_spelling.symm)]
    exact ⟨hbytes, hbytes⟩
  · rw [hstores t s mem hs, t.ofBytes_stores hmem, QuidT.quidtostr_eq, t.digits_quid]
  · intro Node R t t' s s' mem mem' hs hs' hmem hmem' hsame
    refine ⟨t.quid, t'.quid, t.ofString?_eq hs hmem, t'.ofString?_eq hs' hmem', ?_⟩
    -- A key is hashed by the text it is written as.
    have htext : t.quid.quidtostr = t'.quid.quidtostr := by
      rw [QuidT.quidtostr_eq, QuidT.quidtostr_eq, t.digits_quid, t'.digits_quid, hsame]
    have hhash : R.keyHash t.quid = R.keyHash t'.quid := congrArg (fun s => R.hash (cstr s)) htext
    rw [Cynder.HashRing.getNode, Cynder.HashRing.getNode, hhash]

end Mavicona.Quid
