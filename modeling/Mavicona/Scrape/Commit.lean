import Mathlib.Data.List.Nodup
import Mavicona.Common.Run
import Mavicona.Scrape.Dispatch

/-!
# Deliveries of a scraper

Reference: `scrape/scrape.cpp` (`datastack`, `dispatch_commit`, `py_mav_push`, `py_mav_commit`).

A script pushes items on the stack and commits them, in any order and as often as it likes. A commit
sends the items one by one, and each of them is stored by the extractor that answers `DONE`. The
stack is cleared as a whole or not at all: after a commit that was answered `DONE` in part, all items
stay, and the next commit sends them again.

To tell the items of a run from each other, an item carries the number of the push that made it.
-/

namespace Mavicona.Scrape

open Trace Mavicona.Quid

/-! ## Sessions -/

/-- An item of the stack, with the number of its push. -/
structure Item where
  serial : ℕ
  name : Bytes
  data : Bytes
deriving DecidableEq

/-- The entry of `datastack`. -/
def Item.entry (x : Item) : Bytes × Bytes := (x.name, x.data)

/-- A scraper with its history: the items that were pushed, and the messages with their answers. -/
structure Session where
  stack : List Item
  itemCount : Int32
  pushed : List Item
  log : List (Item × Answer)

/-- A scraper that starts. -/
def Session.start : Session := ⟨[], 0, [], []⟩

/-- The calls of a script; `env` gives the quid and the answer for each message of a commit. -/
inductive Call
  | push (name data : Bytes)
  | commit (env : ℕ → QuidT × Answer)

/-- `insert` of the multimap: behind the items whose names are not greater. -/
def insertItem (x : Item) (stack : List Item) : List Item :=
  stack.takeWhile (fun y => !decide (x.name < y.name)) ++
    x :: stack.dropWhile fun y => !decide (x.name < y.name)

/-- The messages of a commit from the `n`-th one on, with their answers. -/
def sent (env : ℕ → QuidT × Answer) : ℕ → List Item → List (Item × Answer)
  | _, [] => []
  | n, x :: stack =>
    if (env n).2 = .error then [(x, .error)] else (x, (env n).2) :: sent env (n + 1) stack

namespace Session

/-- The scraper of a session. -/
def scraper (s : Session) : Scraper := ⟨s.stack.map Item.entry, s.itemCount⟩

/-- `py_mav_push`. -/
def push (s : Session) (name data : Bytes) : Session :=
  let x : Item := ⟨s.pushed.length, name, data⟩
  { s with stack := insertItem x s.stack, pushed := s.pushed ++ [x] }

/-- `py_mav_commit`, that is `dispatch_commit`. -/
def commit (s : Session) (env : ℕ → QuidT × Answer) : Session :=
  let c := s.scraper.commit env
  { s with
    stack := if !c.interrupted && c.complete == s.stack.length then [] else s.stack
    itemCount := c.itemCount
    log := s.log ++ sent env 0 s.stack }

/-- A call of the script. -/
def step (s : Session) : Call → Session
  | .push name data => s.push name data
  | .commit env => s.commit env

/-- The scraper of a session commits. -/
theorem scraper_commit (s : Session) (env : ℕ → QuidT × Answer) :
    (s.commit env).scraper = s.scraper.dispatchCommit env := by
  have hlen : s.scraper.datastack.length = s.stack.length := List.length_map ..
  unfold commit Scraper.dispatchCommit
  rw [hlen]
  dsimp only [scraper]
  split_ifs <;> rfl

end Session

/-! ## The loop and its messages -/

section Loop

variable {env : ℕ → QuidT × Answer} {stack : List Item} {n : ℕ}

/-- The items of the messages, as the extractor reads them. -/
def ScrapeData.item (d : ScrapeData) : Bytes × Bytes :=
  (d.getName, ((d.content.bind (·.payload)).getD []))

/-- The loop sends the messages of `sent`, counts the answers `DONE` among them, and is left on an
error. -/
theorem commitLoop_eq (env : ℕ → QuidT × Answer) (stack : List Item) (c : Commit) (hc : c.interrupted = false) :
    let d := commitLoop env (stack.map Item.entry) c
    let es := sent env c.messages.length stack
    d.messages.map ScrapeData.item = c.messages.map ScrapeData.item ++ es.map (·.1.entry) ∧
      d.complete = c.complete + es.countP (·.2 = .done) ∧ d.interrupted = es.any (·.2 = .error) := by
  induction stack generalizing c with
  | nil => exact ⟨(List.append_nil _).symm, rfl, hc⟩
  | cons x stack ih =>
    dsimp only at ih ⊢
    have hitem : (commitData c.itemCount (env c.messages.length).1 x.entry).item = x.entry := rfl
    rw [List.map_cons, commitLoop, sent]
    rcases henv : env c.messages.length with ⟨quid, answer⟩
    rw [henv] at hitem
    cases answer with
    | error => simp [hitem]
    | done =>
      obtain ⟨hmessages, hcomplete, hinterrupted⟩ :=
        ih ⟨c.messages ++ [commitData c.itemCount quid x.entry], c.complete + 1, c.itemCount + 1, false⟩
          rfl
      simp only [List.length_append, List.length_singleton] at hmessages hcomplete hinterrupted
      refine ⟨by simp [hmessages, hitem], ?_, by simp [hinterrupted]⟩
      rw [hcomplete]
      simp
      omega
    | fail =>
      obtain ⟨hmessages, hcomplete, hinterrupted⟩ :=
        ih ⟨c.messages ++ [commitData c.itemCount quid x.entry], c.complete, c.itemCount + 1, false⟩
          rfl
      simp only [List.length_append, List.length_singleton] at hmessages hcomplete hinterrupted
      refine ⟨by simp [hmessages, hitem], by simp [hcomplete], by simp [hinterrupted]⟩

/-- The items that are sent are the first ones of the stack, in order. -/
theorem sent_isPrefix (env : ℕ → QuidT × Answer) (n : ℕ) (stack : List Item) :
    (sent env n stack).map (·.1) <+: stack := by
  induction stack generalizing n with
  | nil => exact List.prefix_rfl
  | cons x stack ih =>
    rw [sent]
    split_ifs
    · exact List.prefix_append [x] stack
    · exact (List.prefix_cons_inj x).mpr (ih (n + 1))

theorem mem_stack_of_mem_sent {e : Item × Answer} (h : e ∈ sent env n stack) : e.1 ∈ stack :=
  (sent_isPrefix env n stack).subset (List.mem_map_of_mem h)

/-- All messages are answered `DONE` exactly if the loop comes to the end and has counted them all. -/
theorem all_done_iff (n : ℕ) (stack : List Item) :
    ((sent env n stack).any (·.2 = .error) = false ∧
        (sent env n stack).countP (·.2 = .done) = stack.length) ↔
      sent env n stack = stack.map (·, .done) := by
  constructor
  · rintro ⟨-, hcount⟩
    have hlen : (sent env n stack).length ≤ stack.length := by
      have := (sent_isPrefix env n stack).length_le
      rwa [List.length_map] at this
    have hle := List.countP_le_length (p := fun e : Item × Answer => decide (e.2 = .done))
      (l := sent env n stack)
    have hall := List.countP_eq_length.mp (Nat.le_antisymm hle (hcount ▸ hlen))
    have hfst := (sent_isPrefix env n stack).eq_of_length (by
      rw [List.length_map]
      omega)
    conv_rhs => rw [← hfst, List.map_map]
    conv_lhs => rw [← List.map_id (sent env n stack)]
    refine List.map_congr_left fun e he => ?_
    exact Prod.ext rfl (by simpa using hall e he)
  · intro h
    rw [h]
    simp [List.countP_map, Function.comp_def]

end Loop

/-! ## Exactly once -/

/-- An item that was not acknowledged is on the stack. -/
def Session.Kept (s : Session) : Prop := ∀ x ∈ s.pushed, (x, .done) ∉ s.log → x ∈ s.stack

/-- Every item is acknowledged at most once, it is not sent after that, and before that it is on
the stack. -/
structure Session.ExactlyOnce (s : Session) : Prop where
  acked_once : ∀ x, s.log.count (x, .done) ≤ 1
  not_resent : s.log.Pairwise fun e e' => e.2 = .done → e'.1 ≠ e.1
  kept : s.Kept

/-- The extractor answers `DONE` to all of `n` messages, or to none of those that are sent. -/
def AllOrNone (env : ℕ → QuidT × Answer) (n : ℕ) : Prop :=
  (∀ i < n, (env i).2 = .done) ∨ ∀ i < n, (∀ j < i, (env j).2 ≠ .error) → (env i).2 ≠ .done

/-- The commits that are answered `DONE` as a whole, or not at all. -/
def Whole (s : Session) : Call → Prop
  | .push _ _ => True
  | .commit env => AllOrNone env s.stack.length

section Answers

variable {env : ℕ → QuidT × Answer}

theorem sent_of_all_done {stack : List Item} {n : ℕ}
    (h : ∀ i < stack.length, (env (n + i)).2 = .done) : sent env n stack = stack.map (·, .done) := by
  induction stack generalizing n with
  | nil => rfl
  | cons x stack ih =>
    have hfirst : (env n).2 = .done := h 0 (Nat.succ_pos _)
    have hrest : sent env (n + 1) stack = stack.map (·, .done) := by
      refine ih fun i hi => ?_
      rw [Nat.add_assoc, Nat.add_comm 1 i]
      exact h (i + 1) (Nat.succ_lt_succ hi)
    rw [sent, hfirst, if_neg (by decide), hrest]
    rfl

theorem sent_of_none_done {stack : List Item} {n : ℕ}
    (h : ∀ i < stack.length, (∀ j < i, (env (n + j)).2 ≠ .error) → (env (n + i)).2 ≠ .done) :
    ∀ e ∈ sent env n stack, e.2 ≠ .done := by
  induction stack generalizing n with
  | nil => simp [sent]
  | cons x stack ih =>
    rw [sent]
    split_ifs with herror
    · simp
    · refine List.forall_mem_cons.mpr ⟨h 0 (Nat.succ_pos _) (by simp), ih fun i hi hj => ?_⟩
      rw [Nat.add_assoc, Nat.add_comm 1 i]
      refine h (i + 1) (Nat.succ_lt_succ hi) fun j hj' => ?_
      cases j with
      | zero => exact herror
      | succ j =>
        have := hj j (Nat.lt_of_succ_lt_succ hj')
        rwa [Nat.add_assoc, Nat.add_comm 1 j] at this

end Answers

namespace Session

variable {s : Session} {env : ℕ → QuidT × Answer}

/-- The stack after a commit. -/
theorem stack_commit (s : Session) (env : ℕ → QuidT × Answer) :
    (s.commit env).stack =
      if sent env 0 s.stack = s.stack.map (·, .done) then [] else s.stack := by
  have hloop := commitLoop_eq env s.stack ⟨[], 0, s.itemCount, false⟩ rfl
  have hcomplete : (s.scraper.commit env).complete =
      (sent env 0 s.stack).countP (·.2 = .done) := hloop.2.1.trans (Nat.zero_add _)
  have hinterrupted : (s.scraper.commit env).interrupted =
      (sent env 0 s.stack).any (·.2 = .error) := hloop.2.2
  refine if_congr ?_ rfl rfl
  rw [← all_done_iff, hcomplete, hinterrupted, Bool.and_eq_true, Bool.not_eq_true', beq_iff_eq]

theorem mem_insertItem {x y : Item} {stack : List Item} :
    y ∈ insertItem x stack ↔ y = x ∨ y ∈ stack := by
  rw [insertItem, List.mem_append, List.mem_cons, or_left_comm, ← List.mem_append,
    List.takeWhile_append_dropWhile]

theorem Kept.push (hs : s.Kept) (name data : Bytes) : (s.push name data).Kept := by
  intro x hx hopen
  rcases List.mem_append.mp hx with hx | hx
  · exact mem_insertItem.mpr (Or.inr (hs x hx hopen))
  · exact mem_insertItem.mpr (Or.inl (List.mem_singleton.mp hx))

/-- The stack is cleared only if all its items were acknowledged. -/
theorem Kept.commit (hs : s.Kept) (env : ℕ → QuidT × Answer) : (s.commit env).Kept := by
  intro x hx hopen
  rw [Session.commit, List.mem_append, not_or] at hopen
  have hstack := hs x hx hopen.1
  rw [stack_commit]
  split_ifs with hdone
  · rw [hdone] at hopen
    exact absurd (List.mem_map_of_mem hstack) hopen.2
  · exact hstack

/-- **Nothing is lost**, whatever is answered. -/
theorem kept_foldl (calls : List Call) : (calls.foldl step start).Kept := by
  induction calls using List.reverseRecOn with
  | nil => exact fun x hx => absurd hx List.not_mem_nil
  | append_singleton calls call ih =>
    rw [List.foldl_append]
    cases call with
    | push name data => exact ih.push name data
    | commit env => exact ih.commit env

/-- The items of a session whose commits were answered as a whole. -/
structure Orderly (s : Session) : Prop where
  once : s.ExactlyOnce
  sent_pushed : ∀ e ∈ s.log, e.1 ∈ s.pushed
  stack_pushed : ∀ x ∈ s.stack, x ∈ s.pushed
  stack_open : ∀ x ∈ s.stack, (x, .done) ∉ s.log
  nodup : s.stack.Nodup
  serial_lt : ∀ x ∈ s.pushed, x.serial < s.pushed.length

theorem Orderly.start : Orderly Session.start where
  once := ⟨by simp [Session.start], List.Pairwise.nil, kept_foldl []⟩
  sent_pushed := by simp [Session.start]
  stack_pushed := by simp [Session.start]
  stack_open := by simp [Session.start]
  nodup := List.nodup_nil
  serial_lt := by simp [Session.start]

theorem Orderly.push (hs : Orderly s) (name data : Bytes) : Orderly (s.push name data) := by
  -- The item is new, because all others have smaller numbers.
  have hnew : (⟨s.pushed.length, name, data⟩ : Item) ∉ s.pushed :=
    fun h => absurd (hs.serial_lt _ h) (lt_irrefl _)
  have hlog : ∀ answer, ((⟨s.pushed.length, name, data⟩ : Item), answer) ∉ s.log :=
    fun answer h => hnew (hs.sent_pushed _ h)
  refine ⟨⟨hs.once.acked_once, hs.once.not_resent, hs.once.kept.push name data⟩, ?_, ?_, ?_, ?_, ?_⟩
  · exact fun e he => List.mem_append_left _ (hs.sent_pushed e he)
  · intro x hx
    rcases mem_insertItem.mp hx with rfl | hx
    · exact List.mem_append_right _ (List.mem_singleton_self _)
    · exact List.mem_append_left _ (hs.stack_pushed x hx)
  · intro x hx
    rcases mem_insertItem.mp hx with rfl | hx
    · exact hlog _
    · exact hs.stack_open x hx
  · have hperm : (insertItem ⟨s.pushed.length, name, data⟩ s.stack).Perm
        (⟨s.pushed.length, name, data⟩ :: s.stack) := by
      rw [insertItem]
      refine List.perm_middle.trans ?_
      rw [List.takeWhile_append_dropWhile]
    refine hperm.nodup_iff.mpr (List.nodup_cons.mpr ⟨fun h => hnew (hs.stack_pushed _ h), hs.nodup⟩)
  · intro x hx
    rw [Session.push, List.length_append]
    rcases List.mem_append.mp hx with hx | hx
    · exact (hs.serial_lt x hx).trans (Nat.lt_succ_self _)
    · rw [List.mem_singleton.mp hx]
      exact Nat.lt_succ_self _

/-- A commit that all messages of were answered `DONE`. -/
theorem Orderly.commit_done (hs : Orderly s) (hdone : sent env 0 s.stack = s.stack.map (·, .done)) :
    Orderly (s.commit env) := by
  have hlog : (s.commit env).log = s.log ++ s.stack.map (·, .done) := by rw [← hdone]; rfl
  have hstack : (s.commit env).stack = [] := by rw [stack_commit, if_pos hdone]
  have hmem : ∀ x, (x, Answer.done) ∈ s.stack.map (·, Answer.done) ↔ x ∈ s.stack := by simp
  have hinj : Function.Injective fun x : Item => (x, Answer.done) := fun _ _ h => congrArg Prod.fst h
  refine ⟨⟨fun x => ?_, ?_, hs.once.kept.commit env⟩, fun e he => ?_, ?_, ?_, ?_, hs.serial_lt⟩
  · rw [hlog, List.count_append]
    by_cases hx : x ∈ s.stack
    · rw [List.count_eq_zero.mpr (hs.stack_open x hx), Nat.zero_add]
      exact List.nodup_iff_count_le_one.mp (hs.nodup.map hinj) _
    · rw [List.count_eq_zero.mpr (mt (hmem x).mp hx)]
      exact hs.once.acked_once x
  · rw [hlog, List.pairwise_append]
    refine ⟨hs.once.not_resent, ?_, ?_⟩
    · rw [List.pairwise_map]
      exact hs.nodup.imp fun hne _ => hne.symm
    · -- An item that was acknowledged is not on the stack.
      intro e he e' he' hack heq
      obtain ⟨x, hx, rfl⟩ := List.mem_map.mp he'
      refine hs.stack_open x hx ?_
      obtain ⟨y, answer⟩ := e
      obtain rfl : answer = .done := hack
      obtain rfl : x = y := heq
      exact he
  · rw [hlog] at he
    rcases List.mem_append.mp he with he | he
    · exact hs.sent_pushed e he
    · obtain ⟨x, hx, rfl⟩ := List.mem_map.mp he
      exact hs.stack_pushed x hx
  · simp [hstack]
  · simp [hstack]
  · simp [hstack]

/-- A commit that no message of was answered `DONE`. -/
theorem Orderly.commit_none (hs : Orderly s) (hnone : ∀ e ∈ sent env 0 s.stack, e.2 ≠ .done) :
    Orderly (s.commit env) := by
  have hstack : (s.commit env).stack = s.stack := by
    rw [stack_commit]
    split_ifs with hdone
    · cases hcases : s.stack with
      | nil => rfl
      | cons x stack =>
        refine absurd rfl (hnone (x, .done) ?_)
        rw [hdone, hcases]
        exact List.mem_cons_self ..
    · rfl
  have hacked : ∀ x, (x, Answer.done) ∉ sent env 0 s.stack := fun x hx => hnone _ hx rfl
  have hlog : ∀ x, (x, Answer.done) ∈ (s.commit env).log ↔ (x, Answer.done) ∈ s.log := by
    intro x
    rw [commit, List.mem_append, or_iff_left (hacked x)]
  refine ⟨⟨fun x => ?_, ?_, hs.once.kept.commit env⟩, fun e he => ?_, ?_, ?_, ?_, hs.serial_lt⟩
  · rw [commit, List.count_append, List.count_eq_zero.mpr (hacked x)]
    exact hs.once.acked_once x
  · rw [commit, List.pairwise_append]
    refine ⟨hs.once.not_resent, ?_, ?_⟩
    · exact List.pairwise_of_forall_mem_list fun e he _ _ hack => absurd hack (hnone e he)
    · intro e he e' he' hack heq
      refine hs.stack_open e'.1 (mem_stack_of_mem_sent he') ?_
      obtain ⟨y, answer⟩ := e
      obtain rfl : answer = .done := hack
      rw [heq]
      exact he
  · rcases List.mem_append.mp he with he | he
    · exact hs.sent_pushed e he
    · exact hs.stack_pushed _ (mem_stack_of_mem_sent he)
  · rw [hstack]
    exact hs.stack_pushed
  · intro x hx
    rw [hstack] at hx
    exact fun h => hs.stack_open x hx ((hlog x).mp h)
  · rw [hstack]
    exact hs.nodup

theorem Orderly.step (hs : Orderly s) {call : Call} (hcall : Whole s call) :
    Orderly (s.step call) := by
  cases call with
  | push name data => exact hs.push name data
  | commit env =>
    rcases hcall with hdone | hnone
    · exact hs.commit_done (sent_of_all_done (by simpa using hdone))
    · exact hs.commit_none (sent_of_none_done (by simpa using hnone))

end Session

/-- **A scraper delivers each item exactly once if every commit is answered `DONE` as a whole or
not at all.** -/
theorem exactlyOnce_of_whole {calls : List Call} {s : Session}
    (h : Run Session.step Whole Session.start calls s) : s.ExactlyOnce := by
  have hs : s.Orderly := by
    refine h.invariant (P := fun _ s => s.Orderly) Session.Orderly.start ?_
    intro _ s call hs hcall
    exact hs.step hcall
  exact hs.once

/-- The extractor that answers with these. -/
def answering (answers : List Answer) (n : ℕ) : QuidT × Answer :=
  (⟨0, 0, 0, 0, 0, Vector.replicate 6 0⟩, answers.getD n .fail)

/-- Two items, and a commit that fails as a whole before one that succeeds. -/
theorem exactlyOnce_retry :
    (((((Session.start.step (.push [97] [])).step (.push [98] [])).step
      (.commit (answering [.fail, .error]))).step (.commit (answering [.done, .done])))).ExactlyOnce := by
  have hpushed : Run Session.step Whole Session.start
      [.push [97] [], .push [98] []] _ := .snoc (.snoc .nil trivial) trivial
  have hnone : Whole ((Session.start.step (.push [97] [])).step (.push [98] []))
      (.commit (answering [.fail, .error])) := Or.inr (by decide +kernel)
  have hall : Whole (((Session.start.step (.push [97] [])).step (.push [98] [])).step
      (.commit (answering [.fail, .error]))) (.commit (answering [.done, .done])) :=
    Or.inl (by decide +kernel)
  exact exactlyOnce_of_whole ((hpushed.snoc hnone).snoc hall)

/-- The second item fails, and both are sent again: the first one is acknowledged twice. -/
theorem not_exactlyOnce_resent :
    ¬ (([.push [97] [], .push [98] [], .commit (answering [.done, .fail]),
      .commit (answering [.done, .done])] : List Call).foldl Session.step
        Session.start).ExactlyOnce := by
  intro h
  exact absurd (h.acked_once ⟨0, [97], []⟩) (by decide +kernel)

end Mavicona.Scrape
