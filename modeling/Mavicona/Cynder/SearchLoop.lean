import Mavicona.Cynder.SearchIndex

/-!
# The quids under a key

Reference: `cynder/engine.cpp` (`AbstractEngine::getMulti`).

`getMulti` visits the duplicates of a key with a cursor and adds every quid that is not in the list
yet. At a quid that is in the list it goes on without moving the cursor, so it stays there for the
rest of its rounds. And it moves the cursor once more behind the last duplicate, which fails if that
is the last entry of the database.
-/

namespace Mavicona.Cynder.DupDb

open Bytes

variable {db dups after : DupDb} {key : Bytes} {list qs : List Bytes}

/-! ## The entries of a key -/

/-- The quids of the records under a key, in order. -/
def quids (db : DupDb) (key : Bytes) : List Bytes :=
  (db.filter fun e => e.1 = upsKey key).map fun e => e.2.take 36

/-- A database that starts at a key or behind it has the entries of the key first. -/
theorem Sorted.eq_append (h : Sorted db) (hge : ∀ e ∈ db, ¬ e.1 < key) :
    db = (db.filter fun e => e.1 = key) ++ db.filter fun e => key < e.1 := by
  induction db with
  | nil => rfl
  | cons a db ih =>
    obtain ⟨hhead, htail⟩ := List.pairwise_cons.mp h
    obtain ⟨ha, hdb⟩ := List.forall_mem_cons.mp hge
    by_cases hkey : a.1 = key
    · have hself : ¬ key < a.1 := fun hlt => List.lt_irrefl _ (hkey ▸ hlt)
      rw [List.filter_cons_of_pos (by simpa using hkey), List.filter_cons_of_neg (by simpa using hself),
        List.cons_append, ← ih htail hdb]
    · -- An entry behind the key: all that follow are behind it, too.
      have hlt : key < a.1 := by
        by_contra hnot
        exact hkey (List.le_antisymm hnot ha)
      have hbehind : ∀ e ∈ a :: db, key < e.1 := by
        refine List.forall_mem_cons.mpr ⟨hlt, fun e he => ?_⟩
        by_contra hnot
        exact hhead e he (List.lt_of_le_of_lt hnot hlt)
      rw [List.filter_eq_nil_iff.mpr fun e he => by
          simpa using fun heq => List.lt_irrefl _ (heq ▸ hbehind e he),
        List.filter_eq_self.mpr fun e he => by simpa using hbehind e he, List.nil_append]

/-- The cursor on the first entry of a key. -/
theorem Sorted.dropWhile_eq (h : Sorted db) (hmem : ∃ e ∈ db, e.1 = key) :
    (db.dropWhile fun e => e.1 ≠ key) =
      (db.filter fun e => e.1 = key) ++ db.filter fun e => key < e.1 := by
  induction db with
  | nil => simp at hmem
  | cons a db ih =>
    obtain ⟨hhead, htail⟩ := List.pairwise_cons.mp h
    by_cases hkey : a.1 = key
    · rw [List.dropWhile_cons_of_neg (by simpa using hkey)]
      refine h.eq_append (List.forall_mem_cons.mpr ⟨?_, fun e he => hkey ▸ hhead e he⟩)
      rw [hkey]
      exact List.lt_irrefl key
    · obtain ⟨e, he, rfl⟩ := hmem
      have hedb : e ∈ db := (List.mem_cons.mp he).resolve_left fun heq => hkey (congrArg _ heq.symm)
      have hbefore : ¬ e.1 < a.1 := hhead e hedb
      rw [List.dropWhile_cons_of_pos (by simpa using hkey), ih htail ⟨e, hedb, rfl⟩,
        List.filter_cons_of_neg (by simpa using hkey), List.filter_cons_of_neg (by simpa using hbefore)]

/-! ## The loop -/

/-- The quids up to the first one that is in the list, or came before. -/
def fresh (list : List Bytes) : List Bytes → List Bytes
  | [] => []
  | q :: qs => if q ∈ list then [] else q :: fresh (list ++ [q]) qs

theorem fresh_nil (list : List Bytes) : fresh list [] = [] := rfl

theorem fresh_cons (list : List Bytes) (q : Bytes) (qs : List Bytes) :
    fresh list (q :: qs) = if q ∈ list then [] else q :: fresh (list ++ [q]) qs := rfl

/-- The cursor stays on a quid that is in the list. -/
theorem getMultiLoop_of_mem {e : Bytes × Bytes} (h : e.2.take 36 ∈ list) (n : ℕ) (cursor : DupDb) :
    getMultiLoop n (e :: cursor) list = .ok list := by
  induction n with
  | zero => rfl
  | succ n ih => rw [getMultiLoop, if_pos h, ih]

theorem getMultiLoop_eq (dups after : DupDb) (list : List Bytes) :
    getMultiLoop dups.length (dups ++ after) list =
      if dups ≠ [] ∧ after = [] ∧ fresh list (dups.map fun e => e.2.take 36) =
          dups.map fun e => e.2.take 36
      then .error .keyNotFound
      else .ok (list ++ fresh list (dups.map fun e => e.2.take 36)) := by
  induction dups generalizing list with
  | nil => simp [getMultiLoop, fresh_nil]
  | cons e dups ih =>
    rw [List.length_cons, List.cons_append, List.map_cons, fresh_cons]
    by_cases hmem : e.2.take 36 ∈ list
    · rw [getMultiLoop_of_mem hmem, if_pos hmem, List.append_nil, if_neg (by simp)]
    · rw [getMultiLoop, if_neg hmem, if_neg hmem]
      by_cases hlast : dups ++ after = []
      · -- The last duplicate is the last entry.
        obtain ⟨rfl, rfl⟩ := List.append_eq_nil_iff.mp hlast
        simp [fresh_nil]
      · have hiff : (dups ≠ [] ∧ after = [] ∧ fresh (list ++ [e.2.take 36])
            (dups.map fun e => e.2.take 36) = dups.map fun e => e.2.take 36) ↔
            e :: dups ≠ [] ∧ after = [] ∧ e.2.take 36 :: fresh (list ++ [e.2.take 36])
              (dups.map fun e => e.2.take 36) = e.2.take 36 :: dups.map fun e => e.2.take 36 := by
          rw [List.cons_inj_right]
          refine ⟨fun h => ⟨by simp, h.2⟩, fun h => ⟨fun hnil => hlast ?_, h.2⟩⟩
          rw [hnil, h.2.1]
          rfl
        rw [if_neg hlast, ih, if_congr hiff rfl rfl, List.append_assoc]
        rfl

/-- What `fresh` stops at is in the list, or came before. -/
theorem fresh_spec (list qs : List Bytes) :
    ∃ old, qs = fresh list qs ++ old ∧ (fresh list qs).Nodup ∧ (∀ q ∈ fresh list qs, q ∉ list) ∧
      ∀ q ∈ old.head?, q ∈ list ++ fresh list qs := by
  induction qs generalizing list with
  | nil => exact ⟨[], rfl, List.nodup_nil, by simp [fresh_nil], by simp⟩
  | cons q qs ih =>
    rw [fresh_cons]
    split_ifs with hq
    · exact ⟨q :: qs, rfl, List.nodup_nil, by simp, by simpa using hq⟩
    · obtain ⟨old, hqs, hnodup, hnew, hold⟩ := ih (list ++ [q])
      refine ⟨old, by rw [List.cons_append, ← hqs], List.nodup_cons.mpr ⟨fun h => ?_, hnodup⟩, ?_, ?_⟩
      · exact hnew q h (by simp)
      · exact List.forall_mem_cons.mpr ⟨hq, fun p hp hlist => hnew p hp (List.mem_append_left _ hlist)⟩
      · intro p hp
        have := hold p hp
        rwa [List.append_assoc] at this

/-- New quids, up to one that is not. -/
theorem fresh_eq {new old : List Bytes} (hnodup : new.Nodup) (hnew : ∀ q ∈ new, q ∉ list)
    (hold : ∀ q ∈ old.head?, q ∈ list ++ new) : fresh list (new ++ old) = new := by
  induction new generalizing list with
  | nil =>
    cases old with
    | nil => rfl
    | cons q old =>
      have hq : q ∈ list := by simpa using hold
      rw [List.nil_append, fresh_cons, if_pos hq]
  | cons q new ih =>
    obtain ⟨hq, hnodup⟩ := List.nodup_cons.mp hnodup
    obtain ⟨hqlist, hnew⟩ := List.forall_mem_cons.mp hnew
    rw [List.cons_append, fresh_cons, if_neg hqlist, ih hnodup ?_ ?_]
    · intro p hp hmem
      rcases List.mem_append.mp hmem with hmem | hmem
      · exact hnew p hp hmem
      · exact hq (List.mem_singleton.mp hmem ▸ hp)
    · simpa using hold

/-! ## What is appended -/

/-- `getMulti` returns, and has appended every quid under the key that was not in the list, once. -/
def AppendsNew (db : DupDb) (key : Bytes) (list : List Bytes) : Prop :=
  ∃ new, getMulti db key list = .ok (list ++ new) ∧ new.Nodup ∧
    ∀ q, q ∈ new ↔ q ∈ quids db key ∧ q ∉ list

/-- The quids under the key are new ones, and behind them only such that are known by then. If all
are new, an entry follows. -/
def NewFirst (db : DupDb) (key : Bytes) (list : List Bytes) : Prop :=
  ∃ new old, quids db key = new ++ old ∧ new.Nodup ∧ (∀ q ∈ new, q ∉ list) ∧
    (∀ q ∈ old, q ∈ list ++ new) ∧ (old = [] → new = [] ∨ ∃ e ∈ db, upsKey key < e.1)

theorem Sorted.getMulti_eq (h : Sorted db) (key : Bytes) (list : List Bytes) :
    getMulti db key list =
      if quids db key ≠ [] ∧ (¬ ∃ e ∈ db, upsKey key < e.1) ∧
          fresh list (quids db key) = quids db key
      then .error .keyNotFound
      else .ok (list ++ fresh list (quids db key)) := by
  rw [getMulti]
  by_cases hmem : ∃ e ∈ db, e.1 = upsKey key
  · have hcursor := h.dropWhile_eq hmem
    have hdups : (db.filter fun e => e.1 = upsKey key) ≠ [] := by
      obtain ⟨e, he, hkey⟩ := hmem
      exact List.ne_nil_of_mem (List.mem_filter.mpr ⟨he, decide_eq_true hkey⟩)
    have hafter : (db.filter fun e => upsKey key < e.1) = [] ↔ ¬ ∃ e ∈ db, upsKey key < e.1 := by
      simp [List.filter_eq_nil_iff]
    have hquids : quids db key ≠ [] := fun hnil => hdups (List.map_eq_nil_iff.mp hnil)
    rw [if_neg (by rw [hcursor]; simp [hdups]), hcursor, List.countP_eq_length_filter, getMultiLoop_eq]
    refine if_congr ?_ rfl rfl
    rw [hafter, ← quids, iff_true_intro hdups, iff_true_intro hquids]
  · have hquids : quids db key = [] := by
      rw [quids, List.map_eq_nil_iff, List.filter_eq_nil_iff]
      intro e he
      simpa using fun hkey => hmem ⟨e, he, hkey⟩
    have hcursor : (db.dropWhile fun e => e.1 ≠ upsKey key) = [] := by
      rw [List.dropWhile_eq_nil_iff]
      intro e he
      simpa using fun hkey => hmem ⟨e, he, hkey⟩
    rw [if_pos hcursor, hquids]
    simp [fresh_nil]

/-- **`getMulti` loses and repeats nothing exactly if the quids under the key that are new come
first**, and if none of the others follows, an entry of another key does. -/
theorem appendsNew_iff (h : Sorted db) (key : Bytes) (list : List Bytes) :
    AppendsNew db key list ↔ NewFirst db key list := by
  rw [AppendsNew, h.getMulti_eq]
  constructor
  · rintro ⟨new, hresult, -, hmem⟩
    split_ifs at hresult with herror
    obtain rfl : fresh list (quids db key) = new := List.append_cancel_left (Except.ok.inj hresult)
    obtain ⟨old, hquids, hnodup, hnew, -⟩ := fresh_spec list (quids db key)
    refine ⟨fresh list (quids db key), old, hquids, hnodup, hnew, fun q hq => ?_, fun hold => ?_⟩
    · have hqmem : q ∈ quids db key := by
        rw [hquids]
        exact List.mem_append_right _ hq
      by_cases hlist : q ∈ list
      · exact List.mem_append_left _ hlist
      · exact List.mem_append_right _ ((hmem q).mpr ⟨hqmem, hlist⟩)
    · rw [hold, List.append_nil] at hquids
      by_contra hnot
      rw [not_or] at hnot
      exact herror ⟨by rw [hquids]; exact hnot.1, hnot.2, hquids.symm⟩
  · rintro ⟨new, old, hquids, hnodup, hnew, hold, hlast⟩
    have hfresh : fresh list (quids db key) = new := by
      rw [hquids]
      exact fresh_eq hnodup hnew fun q hq => hold q (List.mem_of_mem_head? hq)
    have hreturns : ¬ (quids db key ≠ [] ∧ (¬ ∃ e ∈ db, upsKey key < e.1) ∧
        fresh list (quids db key) = quids db key) := by
      rintro ⟨hne, hnone, hall⟩
      rw [hfresh, hquids] at hall
      have hnil : old = [] := List.self_eq_append_right.mp hall
      rcases hlast hnil with hnew | hnext
      · exact hne (by rw [hquids, hnil, hnew]; rfl)
      · exact hnone hnext
    rw [if_neg hreturns, hfresh]
    refine ⟨new, rfl, hnodup, fun q => ⟨fun hq => ⟨?_, hnew q hq⟩, fun hq => ?_⟩⟩
    · rw [hquids]
      exact List.mem_append_left _ hq
    · rw [hquids] at hq
      rcases List.mem_append.mp hq.1 with hmem | hmem
      · exact hmem
      · exact (List.mem_append.mp (hold q hmem)).resolve_left hq.2

/-- An entry under a term, for the quid with this digit. -/
def numbered (term : String) (digit : UInt8) : Bytes × Bytes :=
  (ascii term, List.replicate 36 digit ++ ascii "author")

/-- Two records under a term, and one under a later term. -/
theorem appendsNew_two :
    AppendsNew [numbered "alice" 48, numbered "alice" 49, numbered "bob" 48] (ascii "alice") [] :=
  (appendsNew_iff (by unfold Sorted; decide +kernel) _ _).mpr
    ⟨[List.replicate 36 48, List.replicate 36 49], [], by decide +kernel, by decide +kernel, by simp,
      by simp, fun _ => Or.inr ⟨numbered "bob" 48, by simp, by decide +kernel⟩⟩

/-- The cursor stays on a quid that comes twice, and the quid behind it is lost. Under the last term
of the database there is no result at all. -/
theorem not_appendsNew_repeated :
    ¬ AppendsNew [numbered "alice" 48, numbered "alice" 48, numbered "alice" 49, numbered "bob" 48]
        (ascii "alice") [] ∧
      ¬ AppendsNew [numbered "alice" 48, numbered "bob" 48] (ascii "bob") [] := by
  constructor
  · rintro ⟨new, hresult, -, hmem⟩
    have hfound : getMulti [numbered "alice" 48, numbered "alice" 48, numbered "alice" 49,
        numbered "bob" 48] (ascii "alice") [] = .ok [List.replicate 36 48] := by rfl
    obtain rfl : [List.replicate 36 48] = new := Except.ok.inj (hfound.symm.trans hresult)
    exact absurd ((hmem (List.replicate 36 49)).mpr ⟨by decide +kernel, by simp⟩) (by decide +kernel)
  · rintro ⟨new, hresult, -⟩
    have herror : getMulti [numbered "alice" 48, numbered "bob" 48] (ascii "bob") [] =
        .error .keyNotFound := by rfl
    rw [herror] at hresult
    cases hresult

end Mavicona.Cynder.DupDb
