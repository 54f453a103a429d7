import Mavicona.Cynder.WorkerRefinement

/-!
# What a search finds

Reference: `cynder/key_index.cpp`, `cynder/text_index.cpp`, `cynder/engine.cpp` (`getMulti`).

The additional indexes only grow: every accepted INSERT and UPDATE enters the leaves of its metadata,
and nothing is ever taken out. `Indexed` is the invariant that every entry goes back to such a write. A
search follows the entries under its term and returns the records that are stored under their quids
now.
-/

namespace Mavicona.Cynder

open Bytes Trace

/-! ## Databases with duplicate keys -/

namespace DupDb

variable {db : DupDb} {key value : Bytes}

/-- The entries are in key order. -/
def Sorted (db : DupDb) : Prop := db.Pairwise fun a b => ¬ b.1 < a.1

theorem mem_insertLast {e : Bytes × Bytes} :
    e ∈ insertLast key value db ↔ e = (key, value) ∨ e ∈ db := by
  induction db with
  | nil => simp [insertLast]
  | cons a db ih =>
    rw [insertLast]
    split_ifs
    · simp
    · simp only [List.mem_cons, ih]
      tauto

theorem Sorted.insertLast (h : Sorted db) : Sorted (insertLast key value db) := by
  induction db with
  | nil => simp [Sorted, DupDb.insertLast]
  | cons a db ih =>
    obtain ⟨hhead, htail⟩ := List.pairwise_cons.mp h
    rw [DupDb.insertLast]
    split_ifs with hlt
    · refine List.pairwise_cons.mpr ⟨fun b hb => ?_, h⟩
      rcases List.mem_cons.mp hb with rfl | hb
      · exact List.lt_asymm hlt
      · exact fun hkey => hhead b hb (List.lt_trans hkey hlt)
    · refine List.pairwise_cons.mpr ⟨fun b hb => ?_, ih htail⟩
      rcases mem_insertLast.mp hb with rfl | hb
      · exact hlt
      · exact hhead b hb

/-- In a database that starts at a key or behind it, the entries of the key come first. -/
theorem Sorted.take_countP (h : Sorted db) (hge : ∀ e ∈ db, ¬ e.1 < key) :
    ∀ e ∈ db.take (db.countP fun e => e.1 = key), e.1 = key := by
  induction db with
  | nil => simp
  | cons a db ih =>
    obtain ⟨hhead, htail⟩ := List.pairwise_cons.mp h
    by_cases ha : a.1 = key
    · have hcount : (a :: db).countP (fun e => e.1 = key) = db.countP (fun e => e.1 = key) + 1 := by
        simp [ha]
      rw [hcount, List.take_succ_cons]
      intro e he
      rcases List.mem_cons.mp he with rfl | he
      · exact ha
      · exact ih htail (fun e he => hge e (List.mem_cons_of_mem _ he)) e he
    · have hcount : (a :: db).countP (fun e => e.1 = key) = 0 := by
        apply List.countP_eq_zero.mpr
        intro e he
        simp only [decide_eq_true_eq]
        rcases List.mem_cons.mp he with rfl | he
        · exact ha
        · -- An entry of the key behind `a` would put `a` before and behind the key.
          rintro rfl
          exact ha (List.le_antisymm (hhead e he) (hge a List.mem_cons_self))
      rw [hcount]
      simp

/-- The entries a cursor visits, from the first of a key on and as many as the key has, are those of
the key. -/
theorem Sorted.take_dropWhile (h : Sorted db) :
    ∀ e ∈ (db.dropWhile fun e => e.1 ≠ key).take (db.countP fun e => e.1 = key),
      e ∈ db ∧ e.1 = key := by
  induction db with
  | nil => simp
  | cons a db ih =>
    obtain ⟨hhead, htail⟩ := List.pairwise_cons.mp h
    intro e he
    by_cases ha : a.1 = key
    · rw [List.dropWhile_cons_of_neg (by simpa using ha)] at he
      refine ⟨List.mem_of_mem_take he, h.take_countP (fun b hb => ?_) e he⟩
      rcases List.mem_cons.mp hb with rfl | hb
      · exact ha ▸ fun hlt => List.lt_asymm hlt hlt
      · exact ha ▸ hhead b hb
    · have hcount : (a :: db).countP (fun e => e.1 = key) = db.countP (fun e => e.1 = key) := by
        simp [ha]
      rw [List.dropWhile_cons_of_pos (by simpa using ha), hcount] at he
      obtain ⟨hmem, hkey⟩ := ih htail e he
      exact ⟨List.mem_cons_of_mem _ hmem, hkey⟩

/-- The loop adds the quids of entries it visits. -/
theorem getMultiLoop_mem {n : ℕ} {cursor : DupDb} {list out : List Bytes}
    (h : getMultiLoop n cursor list = .ok out) {quid : Bytes} (hquid : quid ∈ out) :
    quid ∈ list ∨ ∃ e ∈ cursor.take n, quid = e.2.take 36 := by
  induction n generalizing cursor list with
  | zero =>
    obtain rfl : list = out := by simpa [getMultiLoop] using h
    exact .inl hquid
  | succ n ih =>
    cases cursor with
    | nil =>
      obtain rfl : list = out := by simpa [getMultiLoop] using h
      exact .inl hquid
    | cons e cursor =>
      simp only [getMultiLoop] at h
      split_ifs at h with hfound hlast
      · rcases ih h with hlist | ⟨e', he', heq⟩
        · exact .inl hlist
        · have hmono : List.take n (e :: cursor) ⊆ List.take (n + 1) (e :: cursor) :=
            fun x hx => (List.take_sublist_take_left (Nat.le_succ n)).subset hx
          exact .inr ⟨e', hmono he', heq⟩
      · rcases ih h with hlist | ⟨e', he', heq⟩
        · rcases List.mem_append.mp hlist with hlist | hnew
          · exact .inl hlist
          · exact .inr ⟨e, by simp, List.mem_singleton.mp hnew⟩
        · exact .inr ⟨e', by simp [he'], heq⟩

/-- `getMulti` adds quids found under the key. -/
theorem Sorted.getMulti_mem (hdb : Sorted db) {list out : List Bytes}
    (h : getMulti db key list = .ok out) {quid : Bytes} (hquid : quid ∈ out) :
    quid ∈ list ∨ ∃ e ∈ db, e.1 = upsKey key ∧ quid = e.2.take 36 := by
  simp only [getMulti] at h
  split_ifs at h with hnone
  · obtain rfl : list = out := by simpa using h
    exact .inl hquid
  · rcases getMultiLoop_mem h hquid with hlist | ⟨e, he, heq⟩
    · exact .inl hlist
    · obtain ⟨hmem, hkey⟩ := hdb.take_dropWhile e he
      exact .inr ⟨e, hmem, hkey, heq⟩

end DupDb

/-! ## Entering the leaves of a request -/

namespace DupDb

variable {db : DupDb}

/-- Entering a list of leaves keeps the order, and adds an entry for each leaf that qualifies. -/
theorem Sorted.foldl_put (p : Bytes × Bytes → Bool) (f : Bytes × Bytes → Bytes × Bytes)
    (ls : List (Bytes × Bytes)) (h : Sorted db) :
    Sorted (ls.foldl (fun db l => if p l then db.put (f l).1 (f l).2 else db) db) ∧
    ∀ e ∈ ls.foldl (fun db l => if p l then db.put (f l).1 (f l).2 else db) db,
      e ∈ db ∨ ∃ l ∈ ls, p l = true ∧ e = (upsKey (f l).1, (f l).2) := by
  induction ls generalizing db with
  | nil => exact ⟨h, fun e he => .inl he⟩
  | cons l ls ih =>
    rw [List.foldl_cons]
    split_ifs with hp
    · have hput : Sorted (db.put (f l).1 (f l).2) := h.insertLast
      obtain ⟨hsorted, hmem⟩ := ih hput
      refine ⟨hsorted, fun e he => ?_⟩
      rcases hmem e he with hold | ⟨l', hl', hp', heq⟩
      · rcases mem_insertLast.mp hold with hnew | hold
        · exact .inr ⟨l, List.mem_cons_self, hp, hnew⟩
        · exact .inl hold
      · exact .inr ⟨l', List.mem_cons_of_mem l hl', hp', heq⟩
    · obtain ⟨hsorted, hmem⟩ := ih h
      refine ⟨hsorted, fun e he => ?_⟩
      rcases hmem e he with hold | ⟨l', hl', hp', heq⟩
      · exact .inl hold
      · exact .inr ⟨l', List.mem_cons_of_mem l hl', hp', heq⟩

end DupDb

/-- A keyword is short. -/
theorem upsKey_of_matchKeyword {keyword : Bytes} (h : matchKeyword keyword = true) :
    upsKey keyword = keyword := by
  have hshort : ∀ k ∈ commonIndexKeywords, k.length < 2 ^ 16 := by decide
  exact upsKey_of_lt (hshort keyword (by simpa [matchKeyword] using h))

/-- The additional indexes change with accepted writes only, which enter their leaves. -/
theorem Represents.next_indexes {proto : Protobuf} {m : Store} {page : Filepage} {w : Worker}
    (h : Represents proto m page w) (request : StorageQuery) :
    ((w.next proto request).uki = w.uki ∧ (w.next proto request).fti = w.fti) ∨
    ∃ quid, (request.queryaction = .insert ∨ request.queryaction = .update) ∧
      cropQuid request.quid = some quid ∧
      (∃ r, w.reply proto request = some r ∧ r.queryresult = .success) ∧
      (w.next proto request).uki = (leavesForest request.metas).foldl
        (fun uki l => if matchKeyword (normalize l.1) then uki.put (normalize l.1) (quid ++ l.2)
          else uki) w.uki ∧
      (w.next proto request).fti = (leavesForest request.metas).foldl
        (fun fti l => if matchKeyword (normalize l.1) then fti.put l.2 (quid ++ normalize l.1)
          else fti) w.fti := by
  simp only [Worker.next, Worker.reply]
  cases haction : request.queryaction with
  | select =>
    left
    cases hm : m (upsKey request.quid) with
    | none => simp only [h.handle_absent (.inl haction) hm, and_self]
    | some e => simp only [h.handle_select haction hm, and_self]
  | delete =>
    left
    cases hm : m (upsKey request.quid) with
    | none => simp only [h.handle_absent (.inr haction) hm, and_self]
    | some e => simp only [h.handle_delete haction hm, and_self]
  | search => exact .inl (by simp only [handle_search w proto haction, and_self])
  | insert =>
    cases hquid : cropQuid request.quid with
    | none => exact .inl (by simp only [handle_invalid proto w (.inl haction) hquid, and_self])
    | some quid =>
      cases hm : m quid with
      | none =>
        refine .inr ⟨quid, .inl rfl, rfl, ?_⟩
        simp only [h.handle_accepted hquid (.inr ⟨haction, hm⟩), Worker.keyPut, Worker.textPut, hquid,
          and_true]
        exact ⟨_, rfl, rfl⟩
      | some e => exact .inl (by simp only [h.handle_refused hquid haction (by simp [hm]), and_self])
  | update =>
    cases hquid : cropQuid request.quid with
    | none => exact .inl (by simp only [handle_invalid proto w (.inr haction) hquid, and_self])
    | some quid =>
      refine .inr ⟨quid, .inr rfl, rfl, ?_⟩
      simp only [h.handle_accepted hquid (.inl haction), Worker.keyPut, Worker.textPut, hquid, and_true]
      exact ⟨_, rfl, rfl⟩

/-! ## The history behind the indexes -/

/-- Among the requests is an INSERT or UPDATE of the quid that was answered with SUCCESS and whose
metadata has the leaf, with a key that is an index keyword. -/
def Wrote (proto : Protobuf) (w₀ : Worker) (reqs : List StorageQuery) (quid : Bytes)
    (leaf : Bytes × Bytes) : Prop :=
  ∃ before r after, reqs = before ++ r :: after ∧
    (r.queryaction = .insert ∨ r.queryaction = .update) ∧ cropQuid r.quid = some quid ∧
    leaf ∈ leavesForest r.metas ∧ matchKeyword (normalize leaf.1) = true ∧
    ∃ reply, (before.foldl (Worker.next proto) w₀).reply proto r = some reply ∧
      reply.queryresult = .success

theorem Wrote.append {proto : Protobuf} {w₀ : Worker} {reqs : List StorageQuery} {quid : Bytes}
    {leaf : Bytes × Bytes} (h : Wrote proto w₀ reqs quid leaf) (request : StorageQuery) :
    Wrote proto w₀ (reqs ++ [request]) quid leaf := by
  obtain ⟨before, r, after, rfl, hrest⟩ := h
  exact ⟨before, r, after ++ [request], by simp, hrest⟩

theorem Wrote.matchKeyword {proto : Protobuf} {w₀ : Worker} {reqs : List StorageQuery} {quid : Bytes}
    {leaf : Bytes × Bytes} (h : Wrote proto w₀ reqs quid leaf) :
    matchKeyword (normalize leaf.1) = true := by
  obtain ⟨before, r, after, -, -, -, -, hkey, -⟩ := h
  exact hkey

/-- Every entry of the additional indexes goes back to a write. -/
structure Indexed (proto : Protobuf) (w₀ : Worker) (reqs : List StorageQuery) (w : Worker) :
    Prop where
  reached : w = reqs.foldl (Worker.next proto) w₀
  sorted_uki : w.uki.Sorted
  sorted_fti : w.fti.Sorted
  uki : ∀ e ∈ w.uki, ∃ quid leaf, Wrote proto w₀ reqs quid leaf ∧
    e = (normalize leaf.1, quid ++ leaf.2)
  fti : ∀ e ∈ w.fti, ∃ quid leaf, Wrote proto w₀ reqs quid leaf ∧
    e = (upsKey leaf.2, quid ++ normalize leaf.1)

namespace Indexed

variable {proto : Protobuf} {w₀ w : Worker} {reqs : List StorageQuery} {m : Store} {page : Filepage}

theorem start (proto : Protobuf) (heap : Uninit) :
    Indexed proto (Worker.start heap) [] (Worker.start heap) where
  reached := rfl
  sorted_uki := List.Pairwise.nil
  sorted_fti := List.Pairwise.nil
  uki := fun _ he => absurd he List.not_mem_nil
  fti := fun _ he => absurd he List.not_mem_nil

theorem next (hi : Indexed proto w₀ reqs w) (h : Represents proto m page w)
    (request : StorageQuery) : Indexed proto w₀ (reqs ++ [request]) (w.next proto request) := by
  have hreached : w.next proto request = (reqs ++ [request]).foldl (Worker.next proto) w₀ := by
    rw [List.foldl_append, ← hi.reached]
    rfl
  have hold_uki : ∀ e ∈ w.uki, ∃ quid leaf, Wrote proto w₀ (reqs ++ [request]) quid leaf ∧
      e = (normalize leaf.1, quid ++ leaf.2) := by
    intro e he
    obtain ⟨quid, leaf, hwrote, heq⟩ := hi.uki e he
    exact ⟨quid, leaf, hwrote.append request, heq⟩
  have hold_fti : ∀ e ∈ w.fti, ∃ quid leaf, Wrote proto w₀ (reqs ++ [request]) quid leaf ∧
      e = (upsKey leaf.2, quid ++ normalize leaf.1) := by
    intro e he
    obtain ⟨quid, leaf, hwrote, heq⟩ := hi.fti e he
    exact ⟨quid, leaf, hwrote.append request, heq⟩
  rcases h.next_indexes request with ⟨huki, hfti⟩ | ⟨quid, haction, hquid, hreply, huki, hfti⟩
  · refine ⟨hreached, ?_, ?_, ?_, ?_⟩
    · rw [huki]; exact hi.sorted_uki
    · rw [hfti]; exact hi.sorted_fti
    · rw [huki]; exact hold_uki
    · rw [hfti]; exact hold_fti
  · -- The write is the last request, answered in the state the others lead to.
    have hwrote : ∀ leaf ∈ leavesForest request.metas, matchKeyword (normalize leaf.1) = true →
        Wrote proto w₀ (reqs ++ [request]) quid leaf := fun leaf hleaf hkey =>
      ⟨reqs, request, [], rfl, haction, hquid, hleaf, hkey, by rw [← hi.reached]; exact hreply⟩
    obtain ⟨hsorted_uki, hmem_uki⟩ := hi.sorted_uki.foldl_put
      (fun l => matchKeyword (normalize l.1)) (fun l => (normalize l.1, quid ++ l.2))
      (leavesForest request.metas)
    obtain ⟨hsorted_fti, hmem_fti⟩ := hi.sorted_fti.foldl_put
      (fun l => matchKeyword (normalize l.1)) (fun l => (l.2, quid ++ normalize l.1))
      (leavesForest request.metas)
    refine ⟨hreached, huki ▸ hsorted_uki, hfti ▸ hsorted_fti, ?_, ?_⟩
    · intro e he
      rw [huki] at he
      rcases hmem_uki e he with hold | ⟨leaf, hleaf, hkey, heq⟩
      · exact hold_uki e hold
      · exact ⟨quid, leaf, hwrote leaf hleaf hkey, by rw [heq, upsKey_of_matchKeyword hkey]⟩
    · intro e he
      rw [hfti] at he
      rcases hmem_fti e he with hold | ⟨leaf, hleaf, hkey, heq⟩
      · exact hold_fti e hold
      · exact ⟨quid, leaf, hwrote leaf hleaf hkey, heq⟩

/-- Every reachable worker has its indexes from its history. -/
theorem of_run {heap : Uninit} {ok : Worker → StorageQuery → Prop}
    (hr : Run (Worker.next proto) ok (Worker.start heap) reqs w) :
    Indexed proto (Worker.start heap) reqs w := by
  have hboth := hr.invariant
    (P := fun reqs w => Indexed proto (Worker.start heap) reqs w ∧ ∃ m page, Represents proto m page w)
    ⟨start proto heap, _, _, Represents.start proto heap⟩ ?_
  · exact hboth.1
  · rintro reqs w request ⟨hi, m, page, hrep⟩ _
    exact ⟨hi.next hrep request, _, _, hrep.next request⟩

/-- A quid found under a term goes back to a write with a matching leaf. The term and the values of
leaves are compared as database keys. -/
theorem getMulti_mem (hi : Indexed proto w₀ reqs w) {term : Bytes} {list₁ list₂ : List Bytes}
    (h₁ : w.uki.getMulti term [] = .ok list₁) (h₂ : w.fti.getMulti term list₁ = .ok list₂)
    {quid : Bytes} (hquid : quid ∈ list₂) :
    quid.length = 36 ∧ ∃ leaf, Wrote proto w₀ reqs quid leaf ∧
      (upsKey term = normalize leaf.1 ∨ upsKey term = upsKey leaf.2) := by
  have hfront : ∀ {q rest : Bytes}, q.length = 36 → (q ++ rest).take 36 = q :=
    fun hq => List.take_left' hq
  have hlen : ∀ {q leaf}, Wrote proto w₀ reqs q leaf → q.length = 36 := by
    rintro q leaf ⟨before, r, after, -, -, hq, -⟩
    exact length_of_cropQuid hq
  rcases hi.sorted_fti.getMulti_mem h₂ hquid with hlist | ⟨e, he, hkey, heq⟩
  · rcases hi.sorted_uki.getMulti_mem h₁ hlist with hnil | ⟨e, he, hkey, heq⟩
    · exact absurd hnil List.not_mem_nil
    · obtain ⟨q, leaf, hwrote, rfl⟩ := hi.uki e he
      obtain rfl : quid = q := heq.trans (hfront (hlen hwrote))
      exact ⟨hlen hwrote, leaf, hwrote, .inl hkey.symm⟩
  · obtain ⟨q, leaf, hwrote, rfl⟩ := hi.fti e he
    obtain rfl : quid = q := heq.trans (hfront (hlen hwrote))
    exact ⟨hlen hwrote, leaf, hwrote, .inr hkey.symm⟩

end Indexed

end Mavicona.Cynder
