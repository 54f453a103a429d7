import Mavicona.Common.Wire
import Mavicona.Cynder.Worker

/-!
# The wire format of a storage query

Reference: `protoc/storagequery.proto`.

The fields in the order of their numbers, an `int32` as the varint of its 64-bit sign extension, an
enumeration as the varint of its value, a nested message as a field of bytes. `protobuf` is this format
as the library the worker uses.
-/

namespace Mavicona.Cynder

open Wire

/-! ## Scalars -/

/-- The varint of an `int32`. -/
def int32ToVarint (i : Int32) : ℕ := (i.toBitVec.signExtend 64).toNat

def int32OfVarint (n : ℕ) : Int32 := .ofBitVec (.ofNat 32 n)

theorem int32OfVarint_int32ToVarint (i : Int32) : int32OfVarint (int32ToVarint i) = i := by
  have htruncate : BitVec.ofNat 32 (i.toBitVec.signExtend 64).toNat = i.toBitVec := by
    rw [BitVec.ofNat_toNat]
    ext k hk
    have hk' : k < 64 := by omega
    simp [BitVec.getElem_signExtend, hk, hk']
  rw [int32OfVarint, int32ToVarint, htruncate, Int32.ofBitVec_toBitVec]

/-- The value of `StorageQuery.Action`. -/
def Action.toVarint : Action → ℕ
  | .select => 0
  | .insert => 1
  | .update => 2
  | .delete => 3
  | .search => 4

def Action.ofVarint : ℕ → Action
  | 1 => .insert
  | 2 => .update
  | 3 => .delete
  | 4 => .search
  | _ => .select

theorem Action.ofVarint_toVarint (a : Action) : ofVarint a.toVarint = a := by cases a <;> rfl

/-- The value of `StorageQuery.Result`. -/
def Result.toVarint : Result → ℕ
  | .success => 0
  | .notfound => 1
  | .duplicate => 2
  | .unknown => 3

def Result.ofVarint : ℕ → Result
  | 1 => .notfound
  | 2 => .duplicate
  | 3 => .unknown
  | _ => .success

theorem Result.ofVarint_toVarint (r : Result) : ofVarint r.toVarint = r := by cases r <;> rfl

/-! ## Metadata -/

/-- An optional field of bytes. -/
def optional (number : ℕ) (value : Option Bytes) : List Field :=
  (value.map fun v => (⟨number, .bytes v⟩ : Field)).toList

mutual

/-- The fields of a `MetaEntry`. -/
def MetaEntry.fields : MetaEntry → List Field
  | ⟨key, value, metas⟩ => ⟨1, .bytes key⟩ :: (optional 2 value ++ metaFields 3 metas)

/-- A repeated field of `MetaEntry` messages. -/
def metaFields (number : ℕ) : List MetaEntry → List Field
  | [] => []
  | m :: ms => ⟨number, .bytes (encode m.fields)⟩ :: metaFields number ms

end

/-- Read a `MetaEntry`, to a nesting of `fuel`. -/
def readMeta : ℕ → Bytes → MetaEntry
  | 0, _ => ⟨[], none, []⟩
  | fuel + 1, bs =>
    let fs := (decode bs).getD []
    { key := (bytesOf 1 fs).getLast?.getD []
      value := (bytesOf 2 fs).getLast?
      metas := (bytesOf 3 fs).map (readMeta fuel) }

/-! ## Queries -/

mutual

/-- The fields of a `StorageQuery`. -/
def StorageQuery.fields : StorageQuery → List Field
  | ⟨name, id, quid, content, queryaction, queryresult, metas, next⟩ =>
    [⟨1, .bytes name⟩, ⟨2, .varint (int32ToVarint id)⟩, ⟨3, .bytes quid⟩] ++
      (optional 4 content ++
        ([⟨5, .varint queryaction.toVarint⟩, ⟨6, .varint queryresult.toVarint⟩] ++
          (metaFields 7 metas ++ queryFields 8 next)))

/-- A repeated field of `StorageQuery` messages. -/
def queryFields (number : ℕ) : List StorageQuery → List Field
  | [] => []
  | q :: qs => ⟨number, .bytes (encode q.fields)⟩ :: queryFields number qs

end

/-- Read a `StorageQuery`, to a nesting of `fuel`. -/
def readQuery : ℕ → Bytes → StorageQuery
  | 0, _ => ⟨[], 0, [], none, .select, .success, [], []⟩
  | fuel + 1, bs =>
    let fs := (decode bs).getD []
    { name := (bytesOf 1 fs).getLast?.getD []
      id := int32OfVarint ((varintsOf 2 fs).getLast?.getD 0)
      quid := (bytesOf 3 fs).getLast?.getD []
      content := (bytesOf 4 fs).getLast?
      queryaction := .ofVarint ((varintsOf 5 fs).getLast?.getD 0)
      queryresult := .ofVarint ((varintsOf 6 fs).getLast?.getD 0)
      metas := (bytesOf 7 fs).map (readMeta fuel)
      next := (bytesOf 8 fs).map (readQuery fuel) }

/-! ## The round trip -/

section RoundTrip

variable {number other : ℕ} {value : Option Bytes}

@[simp] theorem bytesOf_optional :
    bytesOf number (optional other value) = if other = number then value.toList else [] := by
  cases value <;> simp [optional]

@[simp] theorem varintsOf_optional : varintsOf number (optional other value) = [] := by
  cases value <;> simp [optional]

@[simp] theorem bytesOf_metaFields (ms : List MetaEntry) :
    bytesOf number (metaFields other ms)
      = if other = number then ms.map fun m => encode m.fields else [] := by
  induction ms with
  | nil => simp [metaFields]
  | cons m ms ih => by_cases h : other = number <;> simp_all [metaFields]

@[simp] theorem varintsOf_metaFields (ms : List MetaEntry) :
    varintsOf number (metaFields other ms) = [] := by
  induction ms with
  | nil => simp [metaFields]
  | cons m ms ih => simpa [metaFields] using ih

@[simp] theorem bytesOf_queryFields (qs : List StorageQuery) :
    bytesOf number (queryFields other qs)
      = if other = number then qs.map fun q => encode q.fields else [] := by
  induction qs with
  | nil => simp [queryFields]
  | cons q qs ih => by_cases h : other = number <;> simp_all [queryFields]

@[simp] theorem varintsOf_queryFields (qs : List StorageQuery) :
    varintsOf number (queryFields other qs) = [] := by
  induction qs with
  | nil => simp [queryFields]
  | cons q qs ih => simpa [queryFields] using ih

theorem mem_metaFields {m : MetaEntry} {ms : List MetaEntry} (h : m ∈ ms) :
    ⟨number, .bytes (encode m.fields)⟩ ∈ metaFields number ms := by
  induction ms with
  | nil => exact absurd h List.not_mem_nil
  | cons m' ms ih =>
    rw [metaFields]
    rcases List.mem_cons.mp h with rfl | h
    · exact List.mem_cons_self
    · exact List.mem_cons_of_mem _ (ih h)

theorem mem_queryFields {q : StorageQuery} {qs : List StorageQuery} (h : q ∈ qs) :
    ⟨number, .bytes (encode q.fields)⟩ ∈ queryFields number qs := by
  induction qs with
  | nil => exact absurd h List.not_mem_nil
  | cons q' qs ih =>
    rw [queryFields]
    rcases List.mem_cons.mp h with rfl | h
    · exact List.mem_cons_self
    · exact List.mem_cons_of_mem _ (ih h)

mutual

/-- A tree of metadata is read back, given fuel for its nesting. -/
theorem readMeta_encode : (m : MetaEntry) → {fuel : ℕ} → (encode m.fields).length < fuel →
    readMeta fuel (encode m.fields) = m
  | ⟨key, value, metas⟩, fuel, hfuel => by
    obtain ⟨fuel, rfl⟩ : ∃ k, fuel = k + 1 := ⟨fuel - 1, by omega⟩
    -- Every child is shorter than the message it is in, so the fuel that is left is enough.
    have hchild : ∀ m ∈ metas, (encode m.fields).length < fuel := by
      intro m hm
      have hmem : (⟨3, .bytes (encode m.fields)⟩ : Field) ∈ (MetaEntry.mk key value metas).fields := by
        simp [MetaEntry.fields, mem_metaFields hm]
      have := length_lt_length_encode_of_mem hmem
      omega
    have hmetas := map_readMeta_encode metas hchild
    simp only [readMeta, decode_encode, Option.getD_some, MetaEntry.fields]
    cases value <;> simpa using hmetas

/-- A forest of metadata is read back, given fuel for the nesting of every tree. -/
theorem map_readMeta_encode : (ms : List MetaEntry) → {fuel : ℕ} →
    (∀ m ∈ ms, (encode m.fields).length < fuel) →
    (ms.map fun m => encode m.fields).map (readMeta fuel) = ms
  | [], _, _ => rfl
  | m :: ms, fuel, hfuel => by
    rw [List.map_cons, List.map_cons, readMeta_encode m (hfuel m List.mem_cons_self),
      map_readMeta_encode ms fun m' hm' => hfuel m' (List.mem_cons_of_mem m hm')]

end

mutual

/-- A query is read back, given fuel for its nesting. -/
theorem readQuery_encode : (q : StorageQuery) → {fuel : ℕ} → (encode q.fields).length < fuel →
    readQuery fuel (encode q.fields) = q
  | ⟨name, id, quid, content, queryaction, queryresult, metas, next⟩, fuel, hfuel => by
    obtain ⟨fuel, rfl⟩ : ∃ k, fuel = k + 1 := ⟨fuel - 1, by omega⟩
    have hmeta : ∀ m ∈ metas, (encode m.fields).length < fuel := by
      intro m hm
      have hmem : (⟨7, .bytes (encode m.fields)⟩ : Field) ∈
          (StorageQuery.mk name id quid content queryaction queryresult metas next).fields := by
        simp [StorageQuery.fields, mem_metaFields hm]
      have := length_lt_length_encode_of_mem hmem
      omega
    have hnext : ∀ q ∈ next, (encode q.fields).length < fuel := by
      intro q hq
      have hmem : (⟨8, .bytes (encode q.fields)⟩ : Field) ∈
          (StorageQuery.mk name id quid content queryaction queryresult metas next).fields := by
        simp [StorageQuery.fields, mem_queryFields hq]
      have := length_lt_length_encode_of_mem hmem
      omega
    have hmetas := map_readMeta_encode metas hmeta
    have hqueries := map_readQuery_encode next hnext
    simp only [readQuery, decode_encode, Option.getD_some, StorageQuery.fields]
    cases content <;>
      simpa [int32OfVarint_int32ToVarint, Action.ofVarint_toVarint, Result.ofVarint_toVarint]
        using And.intro hmetas hqueries

/-- A list of queries is read back, given fuel for the nesting of each. -/
theorem map_readQuery_encode : (qs : List StorageQuery) → {fuel : ℕ} →
    (∀ q ∈ qs, (encode q.fields).length < fuel) →
    (qs.map fun q => encode q.fields).map (readQuery fuel) = qs
  | [], _, _ => rfl
  | q :: qs, fuel, hfuel => by
    rw [List.map_cons, List.map_cons, readQuery_encode q (hfuel q List.mem_cons_self),
      map_readQuery_encode qs fun q' hq' => hfuel q' (List.mem_cons_of_mem q hq')]

end

end RoundTrip

/-- The wire format as the library of the worker. -/
def protobuf : Protobuf where
  serializeToString := fun q => encode q.fields
  parseFromArray := fun bs => readQuery (bs.length + 1) bs
  parse_serialize := fun q => readQuery_encode q (Nat.lt_succ_self _)

end Mavicona.Cynder
