import Mavicona.Common.Lines
import Mavicona.Common.Numeral

/-!
# URLs

Reference: `common/url.h`, `common/url.cpp` (`url::parse`).

A URL is cut at the first `://`, the host ends at the next slash, and the path at the next question
mark behind that. No question mark is looked for in front of the slash.
-/

namespace Mavicona.Extract

open Bytes Numeral

/-- `std::search`: what stands before the first occurrence, and what follows from there. -/
def search (sep : Bytes) : Bytes → Bytes × Bytes
  | [] => ([], [])
  | b :: s =>
    if sep.isPrefixOf (b :: s) then ([], b :: s)
    else ((b :: (search sep s).1), (search sep s).2)

/-- `url`. -/
structure Url where
  protocol : Bytes
  host : Bytes
  path : Bytes
  query : Bytes
deriving DecidableEq

/-- `url::parse`. -/
def Url.parse (s : Bytes) : Url :=
  let (protocol, rest) := search (ascii "://") s
  if rest = [] then ⟨protocol.map lower, [], [], []⟩
  else
    let rest := rest.drop 3
    let host := rest.takeWhile (· ≠ 47)
    let rest := rest.dropWhile (· ≠ 47)
    ⟨protocol.map lower, host.map lower, rest.takeWhile (· ≠ 63), (rest.dropWhile (· ≠ 63)).drop 1⟩

/-! ## Composition -/

/-- What a URL is composed of. -/
structure UrlParts where
  protocol : Bytes
  host : Bytes
  path : Bytes
  query : Option Bytes
  protocol_unmarked : ¬ ascii "://" <:+: protocol
  host_ne_nil : host ≠ []
  host_unbroken : 47 ∉ host ∧ 63 ∉ host
  path_rooted : ∀ b ∈ path.head?, b = 47
  path_unbroken : 63 ∉ path

namespace UrlParts

variable (u : UrlParts)

def queryText : Bytes := u.query.elim [] (63 :: ·)

/-- The URL. -/
def text : Bytes := u.protocol ++ (ascii "://" ++ (u.host ++ (u.path ++ u.queryText)))

/-- What is to be read of the URL. -/
def url : Url := ⟨u.protocol.map lower, u.host.map lower, u.path, u.query.getD []⟩

end UrlParts

section Parse

variable {p s rest : Bytes} {c : UInt8}

/-- The mark does not overlap with itself. -/
theorem search_append (h : ¬ ascii "://" <:+: p) :
    search (ascii "://") (p ++ (ascii "://" ++ rest)) = (p, ascii "://" ++ rest) := by
  induction p with
  | nil => rfl
  | cons b p ih =>
    have htail : ¬ ascii "://" <:+: p := fun hin => h (hin.trans (List.suffix_cons b p).isInfix)
    have hprefix : (ascii "://").isPrefixOf (b :: (p ++ (ascii "://" ++ rest))) = false := by
      refine Bool.eq_false_iff.mpr fun hpre => h ?_
      have hpre := List.isPrefixOf_iff_prefix.mp hpre
      rcases p with _ | ⟨c, _ | ⟨d, p⟩⟩
      · exact absurd (List.cons_prefix_cons.mp (List.cons_prefix_cons.mp hpre).2).1 (by decide)
      · have hcd := (List.cons_prefix_cons.mp (List.cons_prefix_cons.mp hpre).2).2
        exact absurd (List.cons_prefix_cons.mp hcd).1 (by decide)
      · have hlen : (ascii "://").length ≤ (b :: c :: d :: p).length := by
          simp only [List.length_cons]
          exact Nat.le_add_left 3 p.length
        exact (List.prefix_of_prefix_length_le hpre (List.prefix_append _ _) hlen).isInfix
    rw [List.cons_append, search, hprefix, if_neg Bool.false_ne_true, ih htail]

/-- A component that ends where its delimiter stands. -/
theorem cut_component (h : c ∉ s) (hrest : ∀ b ∈ rest.head?, b = c) :
    (s ++ rest).takeWhile (· ≠ c) = s ∧ (s ++ rest).dropWhile (· ≠ c) = rest :=
  cut_append (fun b hb => decide_eq_true fun hbc : b = c => h (hbc ▸ hb))
    fun b hb => decide_eq_false (not_not.mpr (hrest b hb))

/-- The host takes in what stands before the first slash behind it. -/
theorem UrlParts.parse_text (u : UrlParts) : Url.parse u.text =
    if u.path = [] ∧ u.query.isSome then
      ⟨u.protocol.map lower, (u.host ++ u.queryText.takeWhile (· ≠ 47)).map lower,
        (u.queryText.dropWhile (· ≠ 47)).takeWhile (· ≠ 63),
        ((u.queryText.dropWhile (· ≠ 47)).dropWhile (· ≠ 63)).drop 1⟩
    else u.url := by
  have hparse : Url.parse u.text =
      ⟨u.protocol.map lower, ((u.host ++ (u.path ++ u.queryText)).takeWhile (· ≠ 47)).map lower,
        ((u.host ++ (u.path ++ u.queryText)).dropWhile (· ≠ 47)).takeWhile (· ≠ 63),
        (((u.host ++ (u.path ++ u.queryText)).dropWhile (· ≠ 47)).dropWhile (· ≠ 63)).drop 1⟩ := by
    rw [Url.parse, text, search_append u.protocol_unmarked]
    rfl
  have hhost : ∀ b ∈ u.host, decide (b ≠ 47) = true := fun b hb =>
    decide_eq_true fun h => u.host_unbroken.1 (h ▸ hb)
  rw [hparse]
  split_ifs with hquery
  · rw [hquery.1, List.nil_append, List.takeWhile_append_of_pos hhost,
      List.dropWhile_append_of_pos hhost]
  · have hstop : ∀ b ∈ (u.path ++ u.queryText).head?, b = 47 := by
      intro b hb
      rcases hpath : u.path with _ | ⟨c, path⟩
      · have hnone : u.query = none := Option.not_isSome_iff_eq_none.mp fun h => hquery ⟨hpath, h⟩
        rw [hpath, queryText, hnone] at hb
        exact absurd hb nofun
      · rw [hpath] at hb
        exact u.path_rooted b (hpath ▸ hb)
    have hmark : ∀ b ∈ u.queryText.head?, b = 63 := by
      intro b hb
      rw [queryText] at hb
      cases hq : u.query with
      | none => rw [hq] at hb; exact absurd hb nofun
      | some query => rw [hq] at hb; exact (Option.some.inj hb).symm
    have hdrop : u.queryText.drop 1 = u.query.getD [] := by
      rw [queryText]
      cases u.query <;> rfl
    have hauthority := cut_component u.host_unbroken.1 hstop
    have hpath := cut_component u.path_unbroken hmark
    rw [hauthority.1, hauthority.2, hpath.1, hpath.2, hdrop, url]

/-- A URL is parsed into what it is composed of, unless its query follows the host. -/
theorem UrlParts.parse_text_eq_iff (u : UrlParts) :
    Url.parse u.text = u.url ↔ ¬ (u.path = [] ∧ u.query.isSome = true) := by
  rw [u.parse_text]
  split_ifs with hquery
  · refine iff_of_false (fun h => ?_) (fun h => h hquery)
    obtain ⟨query, hq⟩ := Option.isSome_iff_exists.mp hquery.2
    have hmark : u.queryText.takeWhile (· ≠ 47) = 63 :: query.takeWhile (· ≠ 47) := by
      rw [queryText, hq]
      rfl
    have hlen := congrArg (fun v : Url => v.host.length) h
    simp only [url, List.length_map, List.length_append, hmark, List.length_cons] at hlen
    omega
  · exact iff_of_true rfl hquery

end Parse

end Mavicona.Extract
