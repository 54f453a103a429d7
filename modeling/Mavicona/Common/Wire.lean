import Mavicona.Common.Bytes

/-!
# Tagged fields on the wire

A message on the wire is a sequence of fields. A field is a tag, its number and wire type packed in a
base-128 varint, followed by a varint or by a length and that many bytes. A reader takes the last
occurrence of a singular field and all occurrences of a repeated one.
-/

namespace Wire

/-! ## Varints -/

/-- The base-128 varint of `n`: seven bits a byte, least significant first, the top bit set on all
bytes but the last. -/
def varint (n : ℕ) : Bytes :=
  if n < 128 then [UInt8.ofNat n] else UInt8.ofNat (128 + n % 128) :: varint (n / 128)
termination_by n

/-- Read a varint. -/
def readVarint : Bytes → Option (ℕ × Bytes)
  | [] => none
  | b :: bs =>
    if b.toNat < 128 then some (b.toNat, bs)
    else (readVarint bs).map fun r => (b.toNat - 128 + 128 * r.1, r.2)

theorem readVarint_varint (n : ℕ) (rest : Bytes) :
    readVarint (varint n ++ rest) = some (n, rest) := by
  fun_induction varint n with
  | case1 n hn =>
    have hbyte : (UInt8.ofNat n).toNat = n := by simp; omega
    simp [readVarint, hbyte, hn]
  | case2 n hn ih =>
    have hbyte : (UInt8.ofNat (128 + n % 128)).toNat = 128 + n % 128 := by simp; omega
    have hvalue : 128 + n % 128 - 128 + 128 * (n / 128) = n := by omega
    rw [List.cons_append, readVarint, hbyte, if_neg (by omega), ih, Option.map_some, hvalue]

theorem length_varint_pos (n : ℕ) : 0 < (varint n).length := by
  unfold varint
  split_ifs <;> simp

/-! ## Fields -/

/-- What a field carries. -/
inductive Payload
  | varint (n : ℕ)
  | bytes (bs : Bytes)

/-- A field of a message. -/
structure Field where
  number : ℕ
  payload : Payload

/-- The bytes of a field. -/
def Field.encode : Field → Bytes
  | ⟨number, .varint n⟩ => Wire.varint (8 * number) ++ Wire.varint n
  | ⟨number, .bytes bs⟩ => Wire.varint (8 * number + 2) ++ (Wire.varint bs.length ++ bs)

/-- Read a field. -/
def readField (bs : Bytes) : Option (Field × Bytes) :=
  match readVarint bs with
  | none => none
  | some (tag, bs) =>
    match tag % 8, readVarint bs with
    | 0, some (n, bs) => some (⟨tag / 8, .varint n⟩, bs)
    | 2, some (len, bs) =>
      if len ≤ bs.length then some (⟨tag / 8, .bytes (bs.take len)⟩, bs.drop len) else none
    | _, _ => none

theorem readField_encode (f : Field) (rest : Bytes) :
    readField (f.encode ++ rest) = some (f, rest) := by
  obtain ⟨number, payload⟩ := f
  cases payload with
  | varint n =>
    have htype : 8 * number % 8 = 0 := by omega
    have hnumber : 8 * number / 8 = number := by omega
    simp only [Field.encode, List.append_assoc, readField, readVarint_varint, htype, hnumber]
  | bytes bs =>
    have htype : (8 * number + 2) % 8 = 2 := by omega
    have hnumber : (8 * number + 2) / 8 = number := by omega
    simp only [Field.encode, List.append_assoc, readField, readVarint_varint, htype, hnumber]
    simp

theorem length_encode_field_pos (f : Field) : 0 < f.encode.length := by
  obtain ⟨number, payload⟩ := f
  cases payload with
  | varint n =>
    have := length_varint_pos n
    simp only [Field.encode, List.length_append]
    omega
  | bytes bs =>
    have := length_varint_pos bs.length
    simp only [Field.encode, List.length_append]
    omega

/-- What a field of bytes carries is shorter than the field. -/
theorem length_lt_encode_bytes (number : ℕ) (bs : Bytes) :
    bs.length < (Field.encode ⟨number, .bytes bs⟩).length := by
  have := length_varint_pos bs.length
  simp only [Field.encode, List.length_append]
  omega

/-! ## Messages -/

/-- The bytes of a message. -/
def encode (fs : List Field) : Bytes := fs.flatMap Field.encode

/-- Read at most `fuel` fields, up to the end of the message. -/
def readFields : ℕ → Bytes → Option (List Field)
  | _, [] => some []
  | 0, _ :: _ => none
  | fuel + 1, b :: bs =>
    match readField (b :: bs) with
    | none => none
    | some (f, rest) => (readFields fuel rest).map (f :: ·)

/-- Read a message. A field takes at least one byte. -/
def decode (bs : Bytes) : Option (List Field) := readFields bs.length bs

theorem length_le_length_encode (fs : List Field) : fs.length ≤ (encode fs).length := by
  induction fs with
  | nil => simp
  | cons f fs ih =>
    have := length_encode_field_pos f
    simp only [encode, List.flatMap_cons, List.length_append, List.length_cons] at ih ⊢
    omega

theorem readFields_encode (fs : List Field) {fuel : ℕ} (hfuel : fs.length ≤ fuel) :
    readFields fuel (encode fs) = some fs := by
  induction fs generalizing fuel with
  | nil => cases fuel <;> rfl
  | cons f fs ih =>
    obtain ⟨fuel, rfl⟩ : ∃ k, fuel = k + 1 := ⟨fuel - 1, by simp at hfuel; omega⟩
    have hread := readField_encode f (encode fs)
    have hsplit : encode (f :: fs) = f.encode ++ encode fs := rfl
    rw [hsplit]
    cases hbytes : f.encode ++ encode fs with
    | nil =>
      have := length_encode_field_pos f
      simp [List.append_eq_nil_iff] at hbytes
      simp [hbytes.1] at this
    | cons b bs =>
      rw [hbytes] at hread
      simp only [readFields, hread, ih (Nat.le_of_succ_le_succ hfuel), Option.map_some]

/-- What was written is what is read. -/
theorem decode_encode (fs : List Field) : decode (encode fs) = some fs :=
  readFields_encode fs (length_le_length_encode fs)

/-! ## Access by number -/

/-- All byte fields of a number, in order. -/
def bytesOf (number : ℕ) (fs : List Field) : List Bytes :=
  fs.filterMap fun
    | ⟨n, .bytes bs⟩ => if n = number then some bs else none
    | ⟨_, .varint _⟩ => none

/-- All varint fields of a number, in order. -/
def varintsOf (number : ℕ) (fs : List Field) : List ℕ :=
  fs.filterMap fun
    | ⟨n, .varint v⟩ => if n = number then some v else none
    | ⟨_, .bytes _⟩ => none

section Access

variable {number : ℕ} {fs gs : List Field}

@[simp] theorem bytesOf_nil : bytesOf number [] = [] := rfl

@[simp] theorem varintsOf_nil : varintsOf number [] = [] := rfl

@[simp] theorem bytesOf_append : bytesOf number (fs ++ gs) = bytesOf number fs ++ bytesOf number gs :=
  List.filterMap_append

@[simp] theorem varintsOf_append :
    varintsOf number (fs ++ gs) = varintsOf number fs ++ varintsOf number gs :=
  List.filterMap_append

@[simp] theorem bytesOf_cons_bytes (n : ℕ) (bs : Bytes) :
    bytesOf number (⟨n, .bytes bs⟩ :: fs)
      = if n = number then bs :: bytesOf number fs else bytesOf number fs := by
  unfold bytesOf
  split_ifs with h <;> simp [h]

@[simp] theorem bytesOf_cons_varint (n v : ℕ) :
    bytesOf number (⟨n, .varint v⟩ :: fs) = bytesOf number fs := rfl

@[simp] theorem varintsOf_cons_varint (n v : ℕ) :
    varintsOf number (⟨n, .varint v⟩ :: fs)
      = if n = number then v :: varintsOf number fs else varintsOf number fs := by
  unfold varintsOf
  split_ifs with h <;> simp [h]

@[simp] theorem varintsOf_cons_bytes (n : ℕ) (bs : Bytes) :
    varintsOf number (⟨n, .bytes bs⟩ :: fs) = varintsOf number fs := rfl

/-- A byte field of a message is shorter than the message. -/
theorem length_lt_length_encode_of_mem {n : ℕ} {bs : Bytes} (h : ⟨n, .bytes bs⟩ ∈ fs) :
    bs.length < (encode fs).length := by
  obtain ⟨before, after, rfl⟩ := List.append_of_mem h
  have := length_lt_encode_bytes n bs
  simp only [encode, List.flatMap_append, List.flatMap_cons, List.length_append]
  omega

end Access

end Wire
