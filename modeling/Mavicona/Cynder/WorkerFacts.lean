import Mavicona.Cynder.FilebasePages
import Mavicona.Cynder.Worker

/-!
# What the operations of a worker do

One lemma per operation, so that the results about whole runs never unfold the operations.
-/

namespace Mavicona.Cynder

open Bytes Layout

/-! ## Keys -/

theorem upsKey_of_length {quid : Bytes} (h : quid.length = 36) : upsKey quid = quid :=
  upsKey_of_lt (by omega)

theorem cropQuid_of_length {quid : Bytes} (h : quid.length = 36) : cropQuid quid = some quid := by
  simp [cropQuid, unpackedSize, h]

/-- What `cropQuid` accepts is a key of 36 bytes. -/
theorem length_of_cropQuid {quid key : Bytes} (h : cropQuid quid = some key) :
    key.length = 36 := by
  simp only [cropQuid] at h
  split_ifs at h with hlen hcrop
  · obtain rfl := Option.some.inj h
    simp only [crop] at hcrop ⊢
    split_ifs at hcrop ⊢ with hbraced
    · simp [hbraced.1, unpackedSize]
    · exact absurd rfl hcrop
  · obtain rfl := Option.some.inj h
    simpa [unpackedSize] using hlen

/-! ## Databases -/

namespace Db

variable {db : Db} {key value : Bytes}

theorem put_ok {override : Bool} (hkey : key.length = 36) (h : override = true ∨ db key = none) :
    db.put key value override = .ok (Function.update db key (some value)) := by
  rw [put, upsKey_of_length hkey, if_pos h]

theorem put_duplicate (hkey : key.length = 36) (h : db key ≠ none) :
    db.put key value false = .error .duplicateKey := by
  rw [put, upsKey_of_length hkey, if_neg (by simpa using h)]

theorem get_some (hkey : key.length = 36) (h : db key = some value) : db.get key = .ok value := by
  rw [get, upsKey_of_length hkey, h]

theorem get_none (h : db (upsKey key) = none) : db.get key = .error .keyNotFound := by
  rw [get, h]

theorem remove_some (h : db (upsKey key) = some value) :
    db.remove key = .ok (Function.update db (upsKey key) none) := by
  rw [remove, h]

theorem remove_none (h : db (upsKey key) = none) : db.remove key = .error .keyNotFound := by
  rw [remove, h]

end Db

/-! ## Records of the data index -/

namespace Worker

variable {w : Worker} {quid content : Bytes}

theorem decode_encode_storageType {t : StorageType} (hpage : t.page < 2 ^ 16)
    (hpointer : t.pointer < 2 ^ 32) (hmagic : t.magic < 2 ^ 8) (hflags : t.flags < 2 ^ 8) :
    StorageType.decode t.encode = t := by
  have h₁ : ofLe (le 2 t.page) = t.page := ofLe_le_of_lt (by omega)
  have h₂ : ofLe (le 4 t.pointer) = t.pointer := ofLe_le_of_lt (by omega)
  have h₃ : ofLe (le 1 t.magic) = t.magic := ofLe_le_of_lt (by omega)
  have h₄ : ofLe (le 1 t.flags) = t.flags := ofLe_le_of_lt (by omega)
  simp [StorageType.decode, StorageType.encode, field_append, field_zero_append, h₁, h₂, h₃, h₄]

@[simp] theorem length_encode_storageType (t : StorageType) : t.encode.length = 12 := by
  simp [StorageType.encode]

/-- Content kept in the index is read back without its trailer. -/
theorem readRecord_inlineValue : w.readRecord quid (inlineValue content) = .ok content := by
  have hlen : (inlineValue content).length = content.length + 12 := by simp [inlineValue]
  have htrailer : field (inlineValue content) content.length 12
      = StorageType.encode ⟨0, 0, dataMagic, dataFlagAdi⟩ := by
    rw [inlineValue, field_append le_rfl, Nat.sub_self, field_self (length_encode_storageType _)]
  have hdecode := decode_encode_storageType (t := ⟨0, 0, dataMagic, dataFlagAdi⟩)
    (by decide) (by decide) (by decide) (by decide)
  have hend : (inlineValue content).length - 12 = content.length := by omega
  rw [readRecord, if_neg (by simp only [sizeofStorageType]; omega)]
  simp only [sizeofStorageType, hend, htrailer, hdecode]
  rw [if_neg (by decide), if_neg (by decide)]
  simp [inlineValue]

/-- The record of a page number that fits its 16 bits is read back as written. -/
theorem decode_lfbValue {page : ℕ} (hpage : page < 2 ^ 16) :
    StorageType.decode (lfbValue page) = ⟨page, 0, dataMagic, dataFlagLfb⟩ := by
  rw [lfbValue, u16_of_lt hpage]
  exact decode_encode_storageType hpage (Nat.two_pow_pos 32) (by show dataMagic < _; decide)
    (by show dataFlagLfb < _; decide)

/-- Content kept in the large-file base is fetched from the page the trailer names. -/
theorem readRecord_lfbValue (page : ℕ) (hpage : page < 2 ^ 16) :
    w.readRecord quid (lfbValue page) = match w.lfb.get page quid with
      | none => .error .crash
      | some value => .ok value := by
  have hlen : (lfbValue page).length = 12 := by simp [lfbValue]
  rw [readRecord, if_neg (by simp only [sizeofStorageType]; omega)]
  simp only [sizeofStorageType, hlen, Nat.sub_self, field_self hlen, decode_lfbValue hpage]
  rw [if_neg (by decide)]
  exact if_pos trivial

/-! ## Metadata -/

end Worker

mutual

/-- The leaves of a metadata tree, key and value, left to right. -/
def MetaEntry.leaves : MetaEntry → List (Bytes × Bytes)
  | ⟨key, value, []⟩ => [(key, value.getD [])]
  | ⟨_, _, m :: ms⟩ => leavesForest (m :: ms)

/-- The leaves of a metadata forest. -/
def leavesForest : List MetaEntry → List (Bytes × Bytes)
  | [] => []
  | m :: ms => m.leaves ++ leavesForest ms

end

namespace Worker

variable {w : Worker} {quid : Bytes}

mutual

/-- `traverseMeta` enters the leaves of a tree one by one. -/
theorem traverseMeta_eq_foldl (quid : Bytes) : (m : MetaEntry) → (w : Worker) →
    traverseMeta quid m w = m.leaves.foldl (fun w l => w.putLeaf quid l.1 l.2) w
  | ⟨_, _, []⟩, _ => rfl
  | ⟨_, _, m :: ms⟩, w => by
    rw [traverseMeta, MetaEntry.leaves, traverseForest_eq_foldl quid (m :: ms) w]

/-- `traverseForest` enters the leaves of a forest one by one. -/
theorem traverseForest_eq_foldl (quid : Bytes) : (ms : List MetaEntry) → (w : Worker) →
    traverseForest quid ms w = (leavesForest ms).foldl (fun w l => w.putLeaf quid l.1 l.2) w
  | [], _ => rfl
  | m :: ms, w => by
    rw [traverseForest, leavesForest, List.foldl_append, traverseMeta_eq_foldl quid m w,
      traverseForest_eq_foldl quid ms]

end

/-- Entering metadata changes the additional indexes only, one leaf after the other. -/
theorem traverseForest_eq (quid : Bytes) (ms : List MetaEntry) (w : Worker) :
    traverseForest quid ms w =
      { w with
        uki := (leavesForest ms).foldl (fun uki l => keyPut uki quid l.1 l.2) w.uki
        fti := (leavesForest ms).foldl (fun fti l => textPut fti quid l.2 l.1) w.fti } := by
  rw [traverseForest_eq_foldl]
  induction leavesForest ms generalizing w with
  | nil => rfl
  | cons l ls ih => rw [List.foldl_cons, ih]; rfl

/-- Without a valid quid nothing is entered. -/
theorem traverseForest_invalid (hquid : cropQuid quid = none) (ms : List MetaEntry) (w : Worker) :
    traverseForest quid ms w = w := by
  have hkey : (leavesForest ms).foldl (fun uki l => keyPut uki quid l.1 l.2) w.uki = w.uki := by
    simp only [keyPut, hquid, List.foldl_const, Function.iterate_fixed]
  have htext : (leavesForest ms).foldl (fun fti l => textPut fti quid l.2 l.1) w.fti = w.fti := by
    simp only [textPut, hquid, List.foldl_const, Function.iterate_fixed]
  rw [traverseForest_eq, hkey, htext]

end Worker

end Mavicona.Cynder
