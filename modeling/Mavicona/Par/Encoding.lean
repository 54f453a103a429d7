import Mavicona.Par.Writer

/-!
# What a written header says

Reference: `par/encode.c`, `par/decode.c`, `par/util.c`.

The numbers of a header are octal digits, filled up with blanks in front and closed by a blank, and
are read back with `sscanf`. The checksum counts its own field as blanks, so it does not depend on
what stands there.
-/

namespace Mavicona.Par

open Bytes Numeral Path

/-! ## Numbers -/

section Numbers

variable {n w : ℕ}

theorem length_padOctal (hw : 0 < w) (h : n < 8 ^ w) : (padOctal w n).length = w := by
  have hle := length_print_le (by decide : 1 < 8) hw h
  rw [padOctal, List.length_append, List.length_replicate]
  omega

/-- **A number is read back**, whatever follows its blank. -/
theorem octal_padOctal (h : n < 2 ^ 64) (rest : Bytes) : octal (padOctal w n ++ 32 :: rest) = n := by
  have hvalue := value_print (by decide : 1 < 8) (by decide) n
  have hdigits : ∀ c ∈ print 8 n, digitVal c < 8 := fun c hc => mem_print (by decide) (by decide) hc
  have hsplit : padOctal w n ++ 32 :: rest =
      List.replicate (w - (print 8 n).length) 32 ++ (print 8 n ++ 32 :: rest) := by
    rw [padOctal, List.append_assoc]
  have hlen : (print 8 n).length ≤ (padOctal w n ++ 32 :: rest).length := by
    rw [hsplit]
    simp only [List.length_append]
    omega
  have hstop : ∀ c ∈ (32 :: rest).head?, 8 ≤ digitVal c := by
    intro c hc
    obtain rfl : 32 = c := Option.some.inj hc
    decide
  have hread := number_digits (by decide) print_ne_nil hdigits (hvalue.symm ▸ h)
    (.inr ⟨hlen, by decide, hstop⟩) (w - (print 8 n).length)
  rw [← hsplit, hvalue] at hread
  rw [octal, hread]
  rfl

theorem intToOct_eq (h : n < 8 ^ 6) : intToOct n 8 = padOctal 6 n ++ [32, 0] := by
  have hlen := length_padOctal (by decide) h
  change (padOctal 6 n ++ [32]).take 7 ++ [0] = _
  rw [List.take_of_length_le (by rw [List.length_append, hlen]; rfl), List.append_assoc]
  rfl

theorem ofInt_natCast (h : n < 2 ^ 64) : ofInt n = n := by
  rw [ofInt]
  omega

theorem intToOctNonull_natCast (h : n < 8 ^ 11) : intToOctNonull n 12 = padOctal 11 n ++ [32] := by
  have hn : n < 2 ^ 64 := h.trans (by decide)
  have hlen := length_padOctal (by decide) h
  change (padOctal 11 (ofInt n)).take 11 ++ [32] = _
  rw [ofInt_natCast hn, List.take_of_length_le hlen.le]

/-- A number and its last digits. -/
theorem print_eq_append (base : ℕ) (hbase : 1 < base) (h : base ^ w ≤ n) :
    print base n = print base (n / base ^ w) ++ fixed base w n := by
  induction w generalizing n with
  | zero => rw [pow_zero, Nat.div_one, fixed, List.append_nil]
  | succ w ih =>
    have hpos : 0 < base := by omega
    have hle : base ≤ n := (Nat.le_self_pow (Nat.succ_ne_zero w) base).trans h
    have hdiv : base ^ w ≤ n / base := (Nat.le_div_iff_mul_le hpos).mpr (by rwa [← pow_succ])
    rw [print_of_le hbase hle, ih hdiv, fixed, List.append_assoc, Nat.div_div_eq_div_mul, ← pow_succ']

/-- A negative `int` is printed as an `unsigned long`, and only its first eleven digits fit. -/
theorem intToOctNonull_neg {i : ℤ} (hneg : i < 0) (hge : -2 ^ 31 ≤ i) :
    intToOctNonull i 12 = padOctal 11 (2 ^ 31 - 1) ++ [32] := by
  have hlow : 2 ^ 64 - 2 ^ 31 ≤ ofInt i := by
    rw [ofInt]
    omega
  have hhigh : ofInt i < 2 ^ 64 := by
    rw [ofInt]
    omega
  have hquot : ofInt i / 8 ^ 11 = 2 ^ 31 - 1 := by omega
  have hprint := print_eq_append (w := 11) (n := ofInt i) 8 (by decide) (by omega)
  rw [hquot] at hprint
  have hlen : (print 8 (2 ^ 31 - 1)).length = 11 := by decide +kernel
  have hnum : (padOctal 11 (ofInt i)).take 11 = print 8 (2 ^ 31 - 1) := by
    have hnone : 11 - (print 8 (ofInt i)).length = 0 := by
      rw [hprint, List.length_append, hlen]
      omega
    rw [padOctal, hnone, List.replicate_zero, List.nil_append, hprint, List.take_left' hlen]
  have hpad : padOctal 11 (2 ^ 31 - 1) = print 8 (2 ^ 31 - 1) := by
    rw [padOctal, hlen]
    rfl
  rw [hpad, ← hnum]
  rfl

/-- The number that is written for an `int`. -/
def written (i : ℤ) : ℕ := if asInt i < 0 then 2 ^ 31 - 1 else (asInt i).toNat

theorem asInt_bounds (i : ℤ) : -2 ^ 31 ≤ asInt i ∧ asInt i < 2 ^ 31 := by
  rw [asInt, toInt]
  split_ifs <;> omega

theorem asInt_of_lt {i : ℤ} (h0 : 0 ≤ i) (h : i < 2 ^ 31) : asInt i = i := by
  rw [asInt, toInt, if_pos (by omega)]
  omega

theorem written_lt (i : ℤ) : written i < 2 ^ 31 := by
  have := (asInt_bounds i).2
  rw [written]
  split_ifs <;> omega

theorem written_of_lt {i : ℤ} (h0 : 0 ≤ i) (h : i < 2 ^ 31) : (written i : ℤ) = i := by
  rw [written, asInt_of_lt h0 h, if_neg (by omega), Int.toNat_of_nonneg h0]

theorem intToOctNonull_eq (i : ℤ) :
    intToOctNonull (asInt i) 12 = padOctal 11 (written i) ++ [32] := by
  obtain ⟨hge, hlt⟩ := asInt_bounds i
  rw [written]
  split_ifs with hneg
  · exact intToOctNonull_neg hneg hge
  · rw [← intToOctNonull_natCast (by omega), Int.toNat_of_nonneg (not_lt.mp hneg)]

end Numbers

/-! ## The image -/

section Image

variable (h : FileHeader)

theorem length_front : h.front.length = 148 := by
  simp [FileHeader.front, Chars.length_eq]

theorem length_back : h.back.length = 356 := by
  simp [FileHeader.back, Chars.length_eq]

theorem length_image : h.image.length = blockSize := by
  simp [FileHeader.image, length_front, length_back, Chars.length_eq, blockSize]

theorem drop_image_front :
    h.image.drop 148 = h.chksum.bytes ++ h.back := List.drop_left' (length_front h)

theorem drop_image_back : h.image.drop 156 = h.back := by
  rw [show 156 = 148 + 8 from rfl, ← List.drop_drop, drop_image_front,
    List.drop_left' h.chksum.length_eq]

theorem image_eq : h.image = h.name.bytes ++ (h.mode.bytes ++ (h.uid.bytes ++ (h.gid.bytes ++
    (h.size.bytes ++ (h.mtime.bytes ++ (h.chksum.bytes ++ h.back)))))) := by
  simp [FileHeader.image, FileHeader.front]

theorem name_image : name h.image = h.name.bytes := by
  rw [image_eq]
  exact field_zero_append h.name.length_eq

theorem mode_image : mode h.image = h.mode.bytes ++ (h.uid.bytes ++ (h.gid.bytes ++
    (h.size.bytes ++ (h.mtime.bytes ++ (h.chksum.bytes ++ h.back))))) := by
  rw [image_eq]
  exact List.drop_left' h.name.length_eq

theorem size_image : size h.image = h.size.bytes ++
    (h.mtime.bytes ++ (h.chksum.bytes ++ h.back)) := by
  have hdrop : size h.image = (((mode h.image).drop 8).drop 8).drop 8 := by
    rw [mode, size, List.drop_drop, List.drop_drop, List.drop_drop]
  rw [hdrop, mode_image, List.drop_left' h.mode.length_eq, List.drop_left' h.uid.length_eq,
    List.drop_left' h.gid.length_eq]

theorem mtime_image : mtime h.image = h.mtime.bytes ++ (h.chksum.bytes ++ h.back) := by
  have hdrop : mtime h.image = (size h.image).drop 12 := by rw [mtime, size, List.drop_drop]
  rw [hdrop, size_image, List.drop_left' h.size.length_eq]

theorem typeflag_image : typeflag h.image = h.typeflag := by
  rw [typeflag, List.getD_eq_getElem?_getD, ← List.head?_drop, drop_image_back]
  rfl

/-- A field behind the type. -/
theorem field_image (off n : ℕ) :
    field h.image (157 + off) n = field (h.linkname.bytes ++ (h.magic.bytes ++
    (h.version.bytes ++ (h.uname.bytes ++ (h.gname.bytes ++ (h.namePrefix.bytes ++
      (h.padding.bytes ++ h.pointers.bytes))))))) off n := by
  rw [field, field, show 157 + off = 156 + (1 + off) by omega, ← List.drop_drop, drop_image_back,
    FileHeader.back, Nat.add_comm 1 off, List.drop_succ_cons]

theorem magic_image : magic h.image = h.magic.bytes := by
  have hl := h.linkname.length_eq
  rw [magic, show 257 = 157 + 100 from rfl, field_image, field_append hl.le, hl, Nat.sub_self,
    field_zero_append h.magic.length_eq]

theorem version_image : version h.image = h.version.bytes := by
  have hl := h.linkname.length_eq
  have hm := h.magic.length_eq
  rw [version, show 263 = 157 + 106 from rfl, field_image, field_append (by omega), hl,
    field_append (by omega), hm, field_zero_append h.version.length_eq]

theorem linkname_image : linkname h.image = h.linkname.bytes ++ (h.magic.bytes ++ (h.version.bytes ++
    (h.uname.bytes ++ (h.gname.bytes ++
      (h.namePrefix.bytes ++ (h.padding.bytes ++ h.pointers.bytes)))))) := by
  rw [linkname, show 157 = 156 + 1 from rfl, ← List.drop_drop, drop_image_back]
  rfl

theorem namePrefix_image : namePrefix h.image = h.namePrefix.bytes := by
  have hl := h.linkname.length_eq
  have hm := h.magic.length_eq
  have hv := h.version.length_eq
  have hu := h.uname.length_eq
  have hg := h.gname.length_eq
  rw [namePrefix, show 329 = 157 + 172 from rfl, field_image, field_append (by omega), hl,
    field_append (by omega), hm, field_append (by omega), hv, field_append (by omega), hu,
    field_append (by omega), hg, field_zero_append h.namePrefix.length_eq]

theorem pointers_image : field h.image 496 16 = h.pointers.bytes := by
  have hl := h.linkname.length_eq
  have hm := h.magic.length_eq
  have hv := h.version.length_eq
  have hu := h.uname.length_eq
  have hg := h.gname.length_eq
  have hp := h.namePrefix.length_eq
  have hd := h.padding.length_eq
  rw [show 496 = 157 + 339 from rfl, field_image, field_append (by omega), hl,
    field_append (by omega), hm, field_append (by omega), hv, field_append (by omega), hu,
    field_append (by omega), hg, field_append (by omega), hp, field_append (by omega), hd,
    field_self h.pointers.length_eq]

end Image

/-! ## The checksum -/

section Checksum

variable (h : FileHeader)

/-- The checksum counts its own field as blanks. -/
theorem crcSum_image (read : UInt8 → ℤ) :
    crcSum read h.image = (h.front.map read).sum + (h.back.map read).sum + 256 := by
  have hfield : field h.image 148 8 = h.chksum.bytes := by
    rw [field, drop_image_front, List.take_left' h.chksum.length_eq]
  have hblank : (h.chksum.bytes.map fun c => 32 - read c).sum =
    256 - (h.chksum.bytes.map read).sum := by
    have hall : ∀ bs : Bytes, (bs.map fun c => 32 - read c).sum =
      32 * bs.length - (bs.map read).sum := by
      intro bs
      induction bs with
      | nil => rfl
      | cons b bs ih =>
        rw [List.map_cons, List.sum_cons, ih, List.map_cons, List.sum_cons, List.length_cons]
        push_cast
        ring
    rw [hall, h.chksum.length_eq]
    rfl
  rw [crcSum, hfield, hblank, FileHeader.image, List.map_append, List.map_append, List.sum_append,
    List.sum_append]
  ring

theorem sum_bounds (bs : Bytes) : 0 ≤ (bs.map fun c => (c.toNat : ℤ)).sum ∧
    (bs.map fun c => (c.toNat : ℤ)).sum ≤ 255 * bs.length := by
  induction bs with
  | nil => exact ⟨le_rfl, le_rfl⟩
  | cons b bs ih =>
    have hb := b.toNat_lt
    rw [List.map_cons, List.sum_cons, List.length_cons]
    push_cast
    omega

theorem thCrcCalc_bounds : 0 ≤ thCrcCalc h.image ∧ thCrcCalc h.image < 8 ^ 6 := by
  have hfront := sum_bounds h.front
  have hback := sum_bounds h.back
  rw [length_front] at hfront
  rw [length_back] at hback
  rw [thCrcCalc, crcSum_image]
  norm_num at hfront hback ⊢
  omega

theorem thCrcCalc_congr {h h' : FileHeader} (hfront : h.front = h'.front) (hback : h.back = h'.back) :
    thCrcCalc h.image = thCrcCalc h'.image := by
  rw [thCrcCalc, thCrcCalc, crcSum_image, crcSum_image, hfront, hback]

/-- **Every header that is written passes the checks of `th_read_internal`.** -/
theorem headerOk_thFinish : headerOk (thFinish h).image = true := by
  set g : FileHeader := { h with version := h.version.copy tversion, magic := h.magic.copy tmagic } with hg
  obtain ⟨hpos, hlt⟩ := thCrcCalc_bounds g
  have hnat : (ofInt (thCrcCalc g.image) : ℤ) = thCrcCalc g.image := by
    rw [ofInt]
    omega
  have hlt' : ofInt (thCrcCalc g.image) < 8 ^ 6 := by omega
  have hchksum : (thFinish h).chksum.bytes = padOctal 6 (ofInt (thCrcCalc g.image)) ++ [32, 0] := by
    change (h.chksum.copy (intToOct (ofInt (thCrcCalc g.image)) 8)).bytes = _
    rw [intToOct_eq hlt']
    refine Chars.copy_of_length _ ?_
    rw [List.length_append, length_padOctal (by decide) hlt']
    rfl
  have hcrc : thGetCrc (thFinish h).image = thCrcCalc (thFinish h).image := by
    have hsame : thCrcCalc (thFinish h).image = thCrcCalc g.image := thCrcCalc_congr rfl rfl
    have hdrop : chksum (thFinish h).image = padOctal 6 (ofInt (thCrcCalc g.image)) ++
        32 :: 0 :: (thFinish h).back := by
      rw [chksum, drop_image_front, hchksum, List.append_assoc]
      rfl
    have hread := octal_padOctal (w := 6) (hlt'.trans (by decide)) (0 :: (thFinish h).back)
    rw [hsame, thGetCrc, octToInt, octToUInt, hdrop, hread, toInt]
    omega
  have hmagic : magic (thFinish h).image = tmagic :=
    (magic_image _).trans (Chars.copy_of_length _ rfl)
  have hversion : version (thFinish h).image = tversion :=
    (version_image _).trans (Chars.copy_of_length _ rfl)
  have hok : thCrcOk (thFinish h).image = true := by
    rw [thCrcOk, hcrc]
    simp
  rw [headerOk, hmagic, hversion, hok]
  rfl

end Checksum

/-! ## What it says -/

/-- The texts of a header: its name, mode, time and size, with no prefix and no pointers. -/
structure Describes (h : FileHeader) (text : Bytes) (m k n : ℕ) : Prop where
  text_ne_nil : text ≠ []
  zero_notMem : 0 ∉ text
  length_lt : text.length < 100
  name : h.name.bytes = text ++ List.replicate (100 - text.length) 0
  mode : h.mode.bytes = padOctal 6 m ++ [32, 0]
  mode_lt : m < 8 ^ 6
  mtime : h.mtime.bytes = padOctal 11 k ++ [32]
  mtime_lt : k < 2 ^ 31
  size : h.size.bytes = padOctal 11 n ++ [32]
  size_lt : n < 2 ^ 31
  namePrefix : h.namePrefix = .zero 155
  pointers : h.pointers = .zero 16

theorem nullPointers_of_zero {h : FileHeader} (hpointers : h.pointers = .zero 16) :
    gnuLongname h.image = 0 ∧ gnuLonglink h.image = 0 := by
  have hzero : field h.image 496 16 = List.replicate 16 0 :=
    (pointers_image h).trans (congrArg _ hpointers)
  have hname : field h.image 496 8 = field (field h.image 496 16) 0 8 :=
    (field_field (by decide : 0 + 8 ≤ 16)).symm
  have hlink : field h.image 504 8 = field (field h.image 496 16) 8 8 :=
    (field_field (by decide : 8 + 8 ≤ 16)).symm
  rw [gnuLongname, gnuLonglink, hname, hlink, hzero]
  exact ⟨by decide, by decide⟩

theorem cstr_append_zero {text : Bytes} (h : 0 ∉ text) (rest : Bytes) :
    cstr (text ++ 0 :: rest) = text := by
  rw [cstr, List.takeWhile_append_of_pos, List.takeWhile_cons_of_neg (by simp), List.append_nil]
  intro c hc
  simpa using fun hzero : c = 0 => h (hzero ▸ hc)

theorem modeBits_image {h : FileHeader} {m : ℕ} (hmode : h.mode.bytes = padOctal 6 m ++ [32, 0])
    (hlt : m < 8 ^ 6) : modeBits h.image = m := by
  rw [modeBits, octToUInt, mode_image, hmode, List.append_assoc]
  change octal (padOctal 6 m ++ 32 :: 0 :: _) % 2 ^ 32 = m
  rw [octal_padOctal (hlt.trans (by decide))]
  exact Nat.mod_eq_of_lt (hlt.trans (by decide))

namespace Describes

variable {h : FileHeader} {text : Bytes} {m k n : ℕ}

theorem thFinish (hd : Describes h text m k n) : Describes (thFinish h) text m k n :=
  ⟨hd.text_ne_nil, hd.zero_notMem, hd.length_lt, hd.name, hd.mode, hd.mode_lt, hd.mtime, hd.mtime_lt,
    hd.size, hd.size_lt, hd.namePrefix, hd.pointers⟩

theorem cstr_name (hd : Describes h text m k n) : cstr (Par.name h.image) = text := by
  obtain ⟨j, hj⟩ := Nat.exists_eq_add_of_lt hd.length_lt
  rw [name_image, hd.name, show 100 - text.length = j + 1 by omega, List.replicate_succ,
    cstr_append_zero hd.zero_notMem]

theorem head?_name (hd : Describes h text m k n) : (Par.name h.image).head? ≠ some 0 := by
  obtain ⟨b, r, hbr⟩ := List.exists_cons_of_ne_nil hd.text_ne_nil
  rw [name_image, hd.name, hbr]
  intro hzero
  exact hd.zero_notMem (hbr ▸ Option.some.inj hzero ▸ List.mem_cons_self)

theorem modeBits_eq (hd : Describes h text m k n) :
    modeBits h.image = m := modeBits_image hd.mode hd.mode_lt

theorem thGetSize_eq (hd : Describes h text m k n) : thGetSize h.image = n := by
  rw [thGetSize, octToSize, size_image, hd.size, List.append_assoc]
  exact octal_padOctal (hd.size_lt.trans (by decide)) _

theorem thGetMtime_eq (hd : Describes h text m k n) : thGetMtime h.image = k := by
  have hk := hd.mtime_lt
  rw [thGetMtime, octToInt, octToUInt, mtime_image, hd.mtime, List.append_assoc]
  change toInt (octal (padOctal 11 k ++ 32 :: _) % 2 ^ 32) = k
  rw [octal_padOctal (hk.trans (by decide)), toInt]
  omega

theorem nullPointers (hd : Describes h text m k n) :
    gnuLongname h.image = 0 ∧ gnuLonglink h.image = 0 := nullPointers_of_zero hd.pointers

theorem thGetPathname_eq (hd : Describes h text m k n) (memory : ℕ → Bytes) :
    thGetPathname memory h.image = saferNameSuffix text := by
  have hpre : (Par.namePrefix h.image).head? = some 0 := by
    rw [namePrefix_image, hd.namePrefix]
    rfl
  rw [thGetPathname, if_neg fun hne => hne hd.nullPointers.1, if_pos (.inr hpre), hd.cstr_name]

end Describes

/-! ## The header of a file -/

section Stat

variable (src : Source) (s : Stat)

/-- The permissions have no bit of a type. -/
theorem fmt_perm {p : ℕ} (hp : p < 2 ^ 12) : fmt p = 0 := by
  have hlt : fmt p < 2 ^ 12 := (Nat.and_le_left).trans_lt hp
  have hmod : fmt p % 2 ^ 12 = 0 := by
    rw [fmt, Nat.and_mod_two_pow]
    exact Nat.and_zero _
  rwa [Nat.mod_eq_of_lt hlt] at hmod

theorem fmt_mode : fmt s.mode = s.type.bits := by
  have hbits : ∃ q, s.type.bits = q <<< 12 ∧ (q <<< 12) &&& 0o170000 = q <<< 12 := by
    cases s.type
    · exact ⟨0o10, by decide, by decide⟩
    · exact ⟨0o4, by decide, by decide⟩
    · exact ⟨0o12, by decide, by decide⟩
    · exact ⟨0o2, by decide, by decide⟩
    · exact ⟨0o6, by decide, by decide⟩
    · exact ⟨0o1, by decide, by decide⟩
    · exact ⟨0o14, by decide, by decide⟩
  obtain ⟨q, hq, hmask⟩ := hbits
  have hperm := fmt_perm s.perm.isLt
  rw [fmt] at hperm
  rw [Stat.mode, hq, Nat.shiftLeft_add_eq_or_of_lt s.perm.isLt, fmt, Nat.and_or_distrib_right,
    hmask, hperm, Nat.or_zero]

theorem mode_lt : s.mode < 8 ^ 6 := by
  have hperm := s.perm.isLt
  have hbits : s.type.bits ≤ 0o140000 := by cases s.type <;> decide
  rw [Stat.mode]
  omega

/-- The header of a regular file or a directory, before its name is set. -/
def statHeader : FileHeader :=
  thSetSize (if s.type = .reg then s.size else 0)
    (thSetMtime s.mtime (thSetMode s.mode
      (thSetGroup src s.gid (thSetUser src s.uid (thSetType s.type .zero)))))

/-- A regular file or a directory. -/
def Stat.IsFile : Prop := s.type = .reg ∨ s.type = .dir

variable {s}

theorem thSetFromStat_eq (hs : s.IsFile) : thSetFromStat src s .zero = some (statHeader src s) := by
  rcases hs with htype | htype
  · rw [thSetFromStat, statHeader, htype]
    rfl
  · rw [thSetFromStat, statHeader, htype]
    rfl

theorem thSetType_eq (type : FileType) (h : FileHeader) :
    thSetType type h = { h with typeflag := (thSetType type h).typeflag } := by
  cases type <;> rfl

/-- The fields that stay empty. -/
theorem statHeader_empty :
    (statHeader src s).name = .zero 100 ∧ (statHeader src s).namePrefix = .zero 155 ∧
    (statHeader src s).pointers = .zero 16 := by
  rw [statHeader, thSetType_eq]
  exact ⟨rfl, rfl, rfl⟩

theorem statHeader_mode : (statHeader src s).mode.bytes = padOctal 6 s.mode ++ [32, 0] := by
  dsimp only [statHeader, thSetSize, thSetMtime, thSetMode]
  rw [intToOct_eq (mode_lt s)]
  refine Chars.copy_of_length _ ?_
  rw [List.length_append, length_padOctal (by decide) (mode_lt s)]
  rfl

theorem nonull_copy (a : Chars 12) (i : ℤ) :
    (a.copy (intToOctNonull (asInt i) 12)).bytes = padOctal 11 (written i) ++ [32] := by
  have hlt : written i < 8 ^ 11 := (written_lt i).trans (by decide)
  rw [intToOctNonull_eq]
  refine Chars.copy_of_length _ ?_
  rw [List.length_append, length_padOctal (by decide) hlt]
  rfl

theorem statHeader_mtime :
    (statHeader src s).mtime.bytes = padOctal 11 (written s.mtime) ++ [32] := by
  dsimp only [statHeader, thSetSize, thSetMtime]
  exact nonull_copy _ _

theorem statHeader_size : (statHeader src s).size.bytes =
    padOctal 11 (written (if s.type = .reg then s.size else 0)) ++ [32] := by
  dsimp only [statHeader, thSetSize]
  exact nonull_copy _ _

theorem statHeader_typeflag (hs : s.IsFile) :
    (statHeader src s).typeflag = if s.type = .reg then regtype else dirtype := by
  dsimp only [statHeader, thSetSize, thSetMtime, thSetMode, thSetGroup, thSetUser]
  rcases hs with htype | htype
  · rw [htype]; rfl
  · rw [htype]; rfl

theorem isDir_image {h : FileHeader} (hs : s.IsFile) (hmode : modeBits h.image = s.mode)
    (htype : h.typeflag = if s.type = .reg then regtype else dirtype) :
    isDir h.image = decide (s.type = .dir) := by
  rw [isDir, typeflag_image, hmode, fmt_mode, htype]
  rcases hs with hs | hs
  · rw [hs]; rfl
  · rw [hs]; rfl

theorem isReg_image {h : FileHeader} (hs : s.IsFile) (hmode : modeBits h.image = s.mode)
    (htype : h.typeflag = if s.type = .reg then regtype else dirtype) :
    isReg h.image = decide (s.type = .reg) := by
  rw [isReg, typeflag_image, hmode, fmt_mode, htype]
  rcases hs with hs | hs
  · rw [hs]; rfl
  · rw [hs]; rfl

theorem isSym_image {h : FileHeader} (hs : s.IsFile) (hmode : modeBits h.image = s.mode)
    (htype : h.typeflag ≠ symtype) : isSym h.image = false := by
  rw [isSym, typeflag_image, hmode, fmt_mode, decide_eq_false htype]
  rcases hs with hs | hs
  · rw [hs]; rfl
  · rw [hs]; rfl

/-- A name as it is written, with a slash behind the name of a directory. -/
def entryName (s : Stat) (name : Bytes) : Bytes := if s.type = .dir then name ++ [47] else name

/-- The number of bytes that are written of a file. -/
def entrySize (s : Stat) : ℕ := if s.type = .reg then written s.size else 0

/-- The header of a file. -/
def fileHeader (name : Bytes) (s : Stat) : FileHeader := thSetPath name (statHeader src s)

theorem fileHeader_eq {name : Bytes} (hs : s.IsFile) (hlen : name.length ≤ 100)
    (hlast : s.type = .dir → name.getLast? ≠ some 47) :
    fileHeader src name s =
      { statHeader src s with name := (statHeader src s).name.copy (snprintf 100 (entryName s name)) } := by
  have hmode := modeBits_image (statHeader_mode src) (mode_lt s)
  have hsuffix :
      name ++ (if name.getLast? ≠ some 47 ∧ isDir (statHeader src s).image then [47] else []) =
      entryName s name := by
    rw [isDir_image hs hmode (statHeader_typeflag src hs), entryName]
    by_cases htype : s.type = .dir
    · rw [if_pos ⟨hlast htype, decide_eq_true htype⟩, if_pos htype]
    · rw [if_neg fun h => htype (of_decide_eq_true h.2), if_neg htype, List.append_nil]
  rw [fileHeader, thSetPath, if_neg (not_lt.mpr hlen), hsuffix]

/-- **The header of a file says what `lstat` says**, but for the size of a directory. -/
theorem describes_fileHeader {name : Bytes} (hs : s.IsFile) (hne : name ≠ []) (hzero : 0 ∉ name)
    (hlen : name.length ≤ 98) (hlast : s.type = .dir → name.getLast? ≠ some 47) :
    Describes (fileHeader src name s) (entryName s name) s.mode (written s.mtime) (entrySize s) := by
  have hnameLen : (entryName s name).length ≤ 99 := by
    rw [entryName]
    split_ifs
    · rw [List.length_append]
      exact Nat.succ_le_succ hlen
    · omega
  have hname : ((Chars.zero 100).copy (snprintf 100 (entryName s name))).bytes =
      entryName s name ++ List.replicate (100 - (entryName s name).length) 0 := by
    have hprint : snprintf 100 (entryName s name) = entryName s name ++ [0] := by
      rw [snprintf, List.take_of_length_le hnameLen]
    rw [hprint, Chars.zero_copy, List.append_assoc, List.length_append, List.length_singleton,
      List.singleton_append, ← List.replicate_succ]
    · congr 2
      omega
    · rw [List.length_append]
      exact Nat.succ_le_succ hnameLen
  obtain ⟨hempty, hpre, hpointers⟩ := statHeader_empty (s := s) src
  have hmode := statHeader_mode (s := s) src
  have hmtime := statHeader_mtime (s := s) src
  have hsize := statHeader_size (s := s) src
  have hn : written (if s.type = .reg then s.size else 0) = entrySize s := by
    rw [entrySize]
    split_ifs <;> rfl
  have hn' : entrySize s < 2 ^ 31 := hn ▸ written_lt _
  rw [← hempty] at hname
  rw [hn] at hsize
  rw [fileHeader_eq src hs (by omega) hlast]
  generalize statHeader src s = h at *
  refine ⟨?_, ?_, by omega, hname, hmode, mode_lt s, hmtime, written_lt _, hsize, hn', hpre,
    hpointers⟩
  · rw [entryName]
    split_ifs <;> simp [hne]
  · rw [entryName]
    split_ifs <;> simp [hzero]

end Stat

end Mavicona.Par
