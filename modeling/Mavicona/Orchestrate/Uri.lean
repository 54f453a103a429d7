import Mavicona.Par.Names

/-!
# The files the orchestrator serves

Reference: `orchestrate/client.cpp` (`CClient::ParseUri`, `CClient::SendFile`),
`orchestrate/server.cpp` (`CServer::Handler`, `CServer::Start`), `orchestrate/file.cpp`.

The orchestrator changes to `wwwroot` when it starts, and opens the files that are asked for by names
relative to that. A name is what follows `/core::webledge::` in the path of a request, with every
`::` rewritten to a slash. Nothing else is done to it: it may start with a slash, and lead out of the
directory with `..`.
-/

namespace Mavicona.Orchestrate

open Bytes Path Par

/-! ## Rewriting -/

/-- What stands before and behind the first `::`. -/
def cutColons : Bytes → Option (Bytes × Bytes)
  | c :: d :: s =>
    if c = 58 ∧ d = 58 then some ([], s)
    else (cutColons (d :: s)).map fun (before, after) => (c :: before, after)
  | _ => none

/-- The loop of `CClient::ParseUri`, at most `n` times round; `none` if it goes on. -/
def rewrite : ℕ → Bytes → Option Bytes
  | 0, _ => none
  | n + 1, dir =>
    match cutColons dir with
    | none => some dir
    | some (before, after) => rewrite n (before ++ 47 :: after)

/-! ## Requests -/

/-- The prefix of the calls to the service. -/
def service : Bytes := ascii "/core::foundation::rpc::service"

/-- The prefix of the files. -/
def webledge : Bytes := ascii "/core::webledge::"

/-- What a request comes to: a redirection, a call to the service, a file, or an error. -/
inductive Reply
  | redirect (location : Bytes)
  | call
  | file (name : Bytes)
  | error (reply : ℕ)
deriving DecidableEq

/-- `CClient::ParseUri`; the inner option is `none` if it returns false, the outer one if the loop
does not end. -/
def parseUri (filepath : Bytes) : Option (Option Reply) :=
  if service.isPrefixOf filepath then some (some .call)
  else if webledge.isPrefixOf filepath then
    let dir := cstr (filepath.drop webledge.length)
    if dir ≠ [] then (rewrite (dir.length + 1) dir).map fun dir => some (.file dir)
    else some (some (.file (ascii "index.html")))
  else if filepath = ascii "/favicon.ico" ∨ filepath = ascii "/sitemap.xml" then
    some (some (.error 404))
  else some none

/-- The types of requests that `CServer::Handler` answers. -/
def Answered (type : Bytes) : Prop :=
  type = ascii "GET" ∨ type = ascii "POST" ∨ type = ascii "PUT" ∨ type = ascii "DELETE"

instance (type : Bytes) : Decidable (Answered type) := inferInstanceAs (Decidable (_ ∨ _))

/-- A request in `CServer::Handler`. -/
def handle (type path : Bytes) : Option Reply :=
  if Answered type then
    if path = ascii "/" then some (.redirect (ascii "/core::webledge::"))
    else (parseUri path).map fun reply => reply.getD (.error 400)
  else some (.error 400)

/-! ## The names -/

/-- A text with every `::` rewritten. -/
def slashed : Bytes → Bytes
  | c :: d :: s => if c = 58 ∧ d = 58 then 47 :: slashed s else c :: slashed (d :: s)
  | s => s

/-- A text cut at its slashes and at every `::`. -/
def parts : Bytes → List Bytes
  | [] => [[]]
  | [c] => if c = 47 then [[], []] else [[c]]
  | c :: d :: s =>
    if c = 58 ∧ d = 58 then [] :: parts s
    else if c = 47 then [] :: parts (d :: s)
    else (parts (d :: s)).modifyHead (c :: ·)

/-- What follows the prefix does not start with a separator, and no part of it is `..`. -/
def Contained (dir : Bytes) : Prop :=
  dir.head? ≠ some 47 ∧ ¬ [58, 58] <+: dir ∧ dotDot ∉ parts dir

section Rewrite

variable {dir before after : Bytes}

theorem slashed_cons {c : UInt8} (hc : c ≠ 58) (s : Bytes) : slashed (c :: s) = c :: slashed s := by
  cases s with
  | nil => rfl
  | cons d s => rw [slashed, if_neg fun h => hc h.1]

theorem slashed_of_cutColons_eq_none (h : cutColons dir = none) : slashed dir = dir := by
  induction dir using List.twoStepInduction with
  | nil => rfl
  | singleton c => rfl
  | cons_cons c d s _ ih =>
    by_cases hcd : c = 58 ∧ d = 58
    · rw [cutColons, if_pos hcd] at h
      exact absurd h (by simp)
    · rw [cutColons, if_neg hcd, Option.map_eq_none_iff] at h
      rw [slashed, if_neg hcd, ih d h]

/-- The first character stays, or becomes a slash. -/
theorem cutColons_cons {d : UInt8} {s : Bytes} (h : cutColons (d :: s) = some (before, after)) :
    ∃ c t, before ++ 47 :: after = c :: t ∧ (c = d ∨ c = 47) := by
  cases s with
  | nil => exact absurd h (by simp [cutColons])
  | cons e s =>
    rw [cutColons] at h
    split_ifs at h
    · obtain ⟨rfl, rfl⟩ := Prod.mk.inj (Option.some_inj.mp h)
      exact ⟨47, s, rfl, Or.inr rfl⟩
    · obtain ⟨⟨b, a⟩, -, heq⟩ := Option.map_eq_some_iff.mp h
      obtain ⟨rfl, rfl⟩ := Prod.mk.inj heq
      exact ⟨d, b ++ 47 :: a, rfl, Or.inl rfl⟩

/-- Rewriting the first `::` leaves the other ones as they are. -/
theorem slashed_of_cutColons (h : cutColons dir = some (before, after)) :
    slashed (before ++ 47 :: after) = slashed dir ∧
      (before ++ 47 :: after).length < dir.length := by
  induction dir using List.twoStepInduction generalizing before with
  | nil => exact absurd h (by simp [cutColons])
  | singleton c => exact absurd h (by simp [cutColons])
  | cons_cons c d s _ ih =>
    by_cases hcd : c = 58 ∧ d = 58
    · rw [cutColons, if_pos hcd] at h
      obtain ⟨rfl, rfl⟩ := Prod.mk.inj (Option.some_inj.mp h)
      rw [List.nil_append, slashed_cons (by decide), slashed, if_pos hcd]
      exact ⟨rfl, Nat.lt_succ_self _⟩
    · rw [cutColons, if_neg hcd] at h
      obtain ⟨⟨b, a⟩, hcut, heq⟩ := Option.map_eq_some_iff.mp h
      obtain ⟨rfl, rfl⟩ := Prod.mk.inj heq
      obtain ⟨hslashed, hlen⟩ := ih d hcut
      obtain ⟨e, t, ht, he⟩ := cutColons_cons hcut
      -- The character before it does not become part of another pair.
      have hce : ¬ (c = 58 ∧ e = 58) := by
        rintro ⟨hc, hcolon⟩
        rcases he with rfl | rfl
        · exact hcd ⟨hc, hcolon⟩
        · exact absurd hcolon (by decide)
      rw [List.cons_append, ht, slashed, if_neg hce, ← ht, hslashed, slashed, if_neg hcd]
      exact ⟨rfl, Nat.succ_lt_succ hlen⟩

/-- **The loop ends, with every `::` rewritten.** -/
theorem rewrite_eq {n : ℕ} (hn : dir.length < n) : rewrite n dir = some (slashed dir) := by
  induction n generalizing dir with
  | zero => exact absurd hn (Nat.not_lt_zero _)
  | succ n ih =>
    rw [rewrite]
    cases hcut : cutColons dir with
    | none => rw [slashed_of_cutColons_eq_none hcut]
    | some p =>
      obtain ⟨before, after⟩ := p
      obtain ⟨heq, hlt⟩ := slashed_of_cutColons hcut
      rw [← heq]
      exact ih (by omega)

theorem components_cons {c : UInt8} (hc : c ≠ 47) (s : Bytes) :
    components (c :: s) = (components s).modifyHead (c :: ·) := by
  rw [components, List.splitOn, List.splitOnP_cons_eq_if_modifyHead, if_neg (by simpa using hc)]
  rfl

theorem components_slashed (dir : Bytes) : components (slashed dir) = parts dir := by
  fun_induction parts dir with
  | case1 => rfl
  | case2 => rfl
  | case3 c hc => exact components_last (by simpa [slashed] using Ne.symm hc)
  | case4 c d s hcd ih => rw [slashed, if_pos hcd, components_slash, ih]
  | case5 d s hcd ih => rw [slashed, if_neg hcd, components_slash, ih]
  | case6 c d s hcd hc ih => rw [slashed, if_neg hcd, components_cons hc, ih]

theorem head?_slashed (dir : Bytes) :
    (slashed dir).head? = some 47 ↔ dir.head? = some 47 ∨ [58, 58] <+: dir := by
  match dir with
  | [] => simp [slashed]
  | [c] => simp [slashed]
  | c :: d :: s =>
    rw [slashed]
    by_cases hcd : c = 58 ∧ d = 58
    · rw [if_pos hcd, hcd.1, hcd.2]
      exact iff_of_true rfl (Or.inr ⟨s, rfl⟩)
    · have hpre : ¬ [58, 58] <+: c :: d :: s := by
        rintro ⟨t, ht⟩
        simp only [List.cons_append, List.nil_append, List.cons.injEq] at ht
        exact hcd ⟨ht.1.symm, ht.2.1.symm⟩
      rw [if_neg hcd, or_iff_left hpre]
      rfl

theorem safe_slashed_iff (dir : Bytes) : Safe (slashed dir) ↔ Contained dir := by
  rw [Safe, Contained, components_slashed, Ne, head?_slashed, not_or, and_assoc]

end Rewrite

/-! ## The files below the directory -/

section Handle

variable {type path : Bytes}

/-- A request for a file. -/
theorem handle_webledge (htype : Answered type) (rest : Bytes) :
    handle type (webledge ++ rest) =
      some (.file (if cstr rest = [] then ascii "index.html" else slashed (cstr rest))) := by
  have hroot : webledge ++ rest ≠ ascii "/" := by
    intro h
    have hlen : webledge.length + rest.length = (ascii "/").length := by
      rw [← h, List.length_append]
    have hwebledge : webledge.length = 17 := by decide
    have hslash : (ascii "/").length = 1 := by decide
    omega
  have hservice : service.isPrefixOf (webledge ++ rest) = false := rfl
  have hwebledge : webledge.isPrefixOf (webledge ++ rest) = true :=
    List.isPrefixOf_iff_prefix.mpr (List.prefix_append _ _)
  rw [handle, if_pos htype, if_neg hroot, parseUri, hservice, if_neg Bool.false_ne_true,
    if_pos hwebledge, List.drop_left]
  by_cases hdir : cstr rest = []
  · rw [if_neg (not_not.mpr hdir), if_pos hdir]
    rfl
  · rw [if_pos hdir, if_neg hdir, rewrite_eq (Nat.lt_succ_self _)]
    rfl

/-- No other request is for a file. -/
theorem handle_of_not_webledge (h : Answered type → ¬ webledge <+: path) :
    ∃ reply, handle type path = some reply ∧ ∀ name, reply ≠ .file name := by
  rw [handle]
  split_ifs with htype hroot
  · exact ⟨_, rfl, by simp⟩
  · have hwebledge : ¬ webledge.isPrefixOf path = true :=
      fun hpre => h htype (List.isPrefixOf_iff_prefix.mp hpre)
    rw [parseUri, if_neg hwebledge]
    split_ifs
    · exact ⟨_, rfl, by simp⟩
    · exact ⟨_, rfl, by simp⟩
    · exact ⟨_, rfl, by simp⟩
  · exact ⟨_, rfl, by simp⟩

theorem safe_index : Safe (ascii "index.html") := by
  refine ⟨by decide, ?_⟩
  rw [components_last (by decide)]
  decide

theorem contained_nil : Contained [] := ⟨by decide, by decide, by decide⟩

end Handle

/-- **A request is served from below the directory exactly if what it asks for does not start
with a separator and has no part `..`.** The loop ends for every request. -/
theorem handle_safe_iff (type path : Bytes) :
    (∃ reply, handle type path = some reply ∧ ∀ name, reply = .file name → Safe name) ↔
      ∀ rest, Answered type → path = webledge ++ rest → Contained (cstr rest) := by
  by_cases h : Answered type ∧ webledge <+: path
  · obtain ⟨htype, rest, rfl⟩ := h
    have hrest : (∀ rest', Answered type → webledge ++ rest = webledge ++ rest' →
        Contained (cstr rest')) ↔ Contained (cstr rest) := by
      refine ⟨fun h => h rest htype rfl, ?_⟩
      rintro h rest' - heq
      rwa [← List.append_cancel_left heq]
    rw [handle_webledge htype, hrest]
    simp only [Option.some.injEq, exists_eq_left', Reply.file.injEq, forall_eq']
    split_ifs with hdir
    · rw [hdir]
      exact iff_of_true safe_index contained_nil
    · exact safe_slashed_iff _
  · rw [not_and] at h
    obtain ⟨reply, hreply, hother⟩ := handle_of_not_webledge h
    refine iff_of_true ⟨reply, hreply, fun name hname => absurd hname (hother name)⟩ ?_
    rintro rest htype rfl
    exact absurd (List.prefix_append _ _) (h htype)

/-- A request for the password file: two directories up from `wwwroot`, or by its full name. -/
theorem handle_passwd :
    handle (ascii "GET") (ascii "/core::webledge::..::..::etc::passwd") =
        some (.file (ascii "../../etc/passwd")) ∧
      handle (ascii "GET") (ascii "/core::webledge::/etc/passwd") =
        some (.file (ascii "/etc/passwd")) ∧
      ¬ Safe (ascii "../../etc/passwd") ∧ ¬ Safe (ascii "/etc/passwd") := by
  refine ⟨by decide +kernel, by decide +kernel, fun h => h.2 (by decide +kernel), fun h => h.1 ?_⟩
  decide +kernel

end Mavicona.Orchestrate
