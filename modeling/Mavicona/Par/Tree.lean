import Mavicona.Common.NamedTree
import Mavicona.Par.Extract
import Mavicona.Par.Writer

/-!
# Appending a tree

Reference: `par/wrapper.c` (`par_append_tree`).

The walk over a directory tree, with `par_append_file` as a parameter: all that matters is which calls
are made, in which order, and what happens when one of them fails. `appendTree_eq` says that the walk
makes the calls of a preorder listing of the tree until one fails. `parAppendTree_eq` puts the writer
of packages in the place of the parameter.
-/

namespace Mavicona.Par

open Path NamedTree

/-! ## Files and directories -/

/-- Why `opendir` fails. -/
inductive OpendirError
  | enotdir
  | other
deriving DecidableEq

/-- What the walk asks the file system: the type of a file and the names of a directory, as `readdir`
lists them. -/
structure FileSystem where
  lstat : Bytes → Option FileType
  opendir : Bytes → Except OpendirError (List Bytes)

/-- A node that is no directory. -/
inductive Leaf
  | reg
  | lnk
deriving DecidableEq

/-- A directory tree, with the children of a directory as `readdir` lists them. -/
abbrev FileTree := Tree Bytes Leaf

/-- The name of a node below a directory. -/
def below (dir : Bytes) (p : List Bytes) : Bytes := dir ++ p.flatMap fun name => 47 :: name

/-- The arguments of `par_append_file`: the real name, and the name in the archive unless it is the
same. -/
abbrev Call := Bytes × Option Bytes

/-- The call for a node. -/
def visit (realdir : Bytes) (savedir : Option Bytes) (p : List Bytes) : Call :=
  (below realdir p, savedir.map (below · p))

/-- An entry that `par_append_tree` skips. -/
def IsDots (dent : Bytes) : Prop := dent = [46] ∨ dent = dotDot

instance (dent : Bytes) : Decidable (IsDots dent) := inferInstanceAs (Decidable (_ ∨ _))

mutual

/-- The file system holds the tree under a name. A listing of a directory also has the entries of the
directory itself and of the one above, anywhere. -/
def Holds (fs : FileSystem) (real : Bytes) : FileTree → Prop
  | .leaf .reg => fs.lstat real = some .reg ∧ fs.opendir real = .error .enotdir
  | .leaf .lnk => fs.lstat real = some .lnk
  | .node children => fs.lstat real = some .dir ∧
      (∃ listing, fs.opendir real = .ok listing ∧
        listing.filter (fun dent => ¬ IsDots dent) = children.names) ∧
      HoldsForest fs real children

def HoldsForest (fs : FileSystem) (real : Bytes) : Forest Bytes Leaf → Prop
  | .nil => True
  | .cons name child rest => Holds fs (real ++ 47 :: name) child ∧ HoldsForest fs real rest

end

/-! ## The walk -/

section Walk

variable {σ : Type} (fs : FileSystem) (append : σ → Bytes → Option Bytes → Bool × σ)

/-- `MAXPATHLEN`. -/
def maxPathLen : ℕ := 4096

/-- The loop of `par_append_tree`; `tree` is the call for a directory. -/
def treeEntries (tree : σ → Bytes → Option Bytes → Bool × σ) (realdir : Bytes)
    (savedir : Option Bytes) : List Bytes → σ → Bool × σ
  | [], s => (true, s)
  | dent :: listing, s =>
    if IsDots dent then treeEntries tree realdir savedir listing s
    else
      let realpath := (realdir ++ 47 :: dent).take (maxPathLen - 1)
      let savepath := savedir.map fun savedir => (savedir ++ 47 :: dent).take (maxPathLen - 1)
      match fs.lstat realpath with
      | none => (false, s)
      | some type =>
        andThen (if type = .dir then tree s realpath savepath else append s realpath savepath)
          (treeEntries tree realdir savedir listing)

/-- `par_append_tree`, down to a depth of `n`: whether it returns 0, and the state after it. -/
def appendTree : ℕ → σ → Bytes → Option Bytes → Bool × σ
  | 0, s, _, _ => (false, s)
  | n + 1, s, realdir, savedir =>
    andThen (append s realdir savedir) fun s =>
      match fs.opendir realdir with
      | .error .enotdir => (true, s)
      | .error .other => (false, s)
      | .ok listing => treeEntries fs append (appendTree n) realdir savedir listing s

/-- Calls one after another, up to the first that fails. -/
def runCalls : List Call → σ → Bool × σ
  | [], s => (true, s)
  | c :: cs, s => andThen (append s c.1 c.2) (runCalls cs)

/-- The calls are kept. -/
def recorded (s : σ × List Call) (realname : Bytes) (savename : Option Bytes) :
    Bool × (σ × List Call) :=
  let r := append s.1 realname savename
  (r.1, (r.2, s.2 ++ [(realname, savename)]))

end Walk

/-! ## The names of the nodes -/

section Names

theorem below_nil (dir : Bytes) : below dir [] = dir := List.append_nil dir

theorem below_cons (dir name : Bytes) (p : List Bytes) :
    below dir (name :: p) = below (dir ++ 47 :: name) p := by
  simp [below]

theorem visit_nil (realdir : Bytes) (savedir : Option Bytes) :
    visit realdir savedir [] = (realdir, savedir) := by
  cases savedir <;> simp [visit, below_nil]

theorem visit_cons (realdir name : Bytes) (savedir : Option Bytes) (p : List Bytes) :
    visit realdir savedir (name :: p)
      = visit (realdir ++ 47 :: name) (savedir.map (· ++ 47 :: name)) p := by
  cases savedir <;> simp [visit, below_cons]

/-- The names of a path are found again. -/
theorem flatMap_slash_injective {p q : List Bytes} (hp : ∀ name ∈ p, 47 ∉ name)
    (hq : ∀ name ∈ q, 47 ∉ name)
    (h : (p.flatMap fun name => 47 :: name) = q.flatMap fun name => 47 :: name) : p = q := by
  have htake : ∀ (name : Bytes) (r : List Bytes), 47 ∉ name →
      (name ++ r.flatMap fun name => 47 :: name).takeWhile (· ≠ 47) = name := by
    intro name r hname
    rw [List.takeWhile_append_of_pos]
    · cases r <;> simp
    · intro b hb
      simpa using fun hslash : b = 47 => hname (hslash ▸ hb)
  induction p generalizing q with
  | nil =>
    cases q with
    | nil => rfl
    | cons name q => simp at h
  | cons name p ih =>
    cases q with
    | nil => simp at h
    | cons name' q =>
      have htail : name ++ (p.flatMap fun name => 47 :: name)
          = name' ++ q.flatMap fun name => 47 :: name := by simpa using h
      have hname := htake name p (hp name (by simp))
      rw [htail, htake name' q (hq name' (by simp))] at hname
      subst hname
      rw [ih (fun n hn => hp n (List.mem_cons_of_mem _ hn))
        (fun n hn => hq n (List.mem_cons_of_mem _ hn)) (List.append_cancel_left htail)]

theorem below_injective {dir : Bytes} {p q : List Bytes} (hp : ∀ name ∈ p, 47 ∉ name)
    (hq : ∀ name ∈ q, 47 ∉ name) (h : below dir p = below dir q) : p = q :=
  flatMap_slash_injective hp hq (List.append_cancel_left h)

end Names

/-! ## The walk makes the calls of the listing -/

section Walk

variable {σ : Type} {fs : FileSystem} {append : σ → Bytes → Option Bytes → Bool × σ}

theorem andThen_assoc (r : Bool × σ) (f g : σ → Bool × σ) :
    andThen (andThen r f) g = andThen r fun s => andThen (f s) g := by
  unfold andThen
  by_cases hr : r.1 = true
  · rw [if_pos hr, if_pos hr]
  · rw [if_neg hr, if_neg hr, if_neg hr]

theorem runCalls_append (cs ds : List Call) (s : σ) :
    runCalls append (cs ++ ds) s = andThen (runCalls append cs s) (runCalls append ds) := by
  induction cs generalizing s with
  | nil => rfl
  | cons c cs ih =>
    rw [List.cons_append, runCalls, runCalls, andThen_assoc]
    exact congrArg (andThen _) (funext ih)

/-- The entries of a directory that are skipped might as well not be listed. -/
theorem treeEntries_filter (tree : σ → Bytes → Option Bytes → Bool × σ) (realdir : Bytes)
    (savedir : Option Bytes) (listing : List Bytes) (s : σ) :
    treeEntries fs append tree realdir savedir listing s
      = treeEntries fs append tree realdir savedir
          (listing.filter fun dent => ¬ IsDots dent) s := by
  induction listing generalizing s with
  | nil => rfl
  | cons dent listing ih =>
    by_cases hdots : IsDots dent
    · rw [treeEntries, if_pos hdots, ih, List.filter_cons_of_neg (by simpa using hdots)]
    · rw [List.filter_cons_of_pos (by simpa using hdots), treeEntries, treeEntries, if_neg hdots,
        if_neg hdots, funext ih]

/-- All names of the calls are short enough for the buffers. -/
def Fits (realdir : Bytes) (savedir : Option Bytes) (paths : List (List Bytes)) : Prop :=
  ∀ p ∈ paths, (below realdir p).length < maxPathLen ∧
    ∀ dir, savedir = some dir → (below dir p).length < maxPathLen

theorem Fits.cons {realdir name : Bytes} {savedir : Option Bytes} {paths rest : List (List Bytes)}
    (h : Fits realdir savedir (paths.map (name :: ·) ++ rest)) :
    Fits (realdir ++ 47 :: name) (savedir.map (· ++ 47 :: name)) paths ∧
      Fits realdir savedir rest := by
  refine ⟨fun p hp => ?_, fun p hp => h p (List.mem_append_right _ hp)⟩
  obtain ⟨hreal, hsave⟩ := h (name :: p) (List.mem_append_left _ (List.mem_map_of_mem hp))
  rw [below_cons] at hreal
  refine ⟨hreal, fun dir hdir => ?_⟩
  obtain ⟨dir', hdir', rfl⟩ := Option.map_eq_some_iff.mp hdir
  have := hsave dir' hdir'
  rwa [below_cons] at this

/-- A node has a name that is not cut off. -/
theorem Fits.root {realdir : Bytes} {savedir : Option Bytes} {paths : List (List Bytes)}
    (h : Fits realdir savedir paths) (hroot : [] ∈ paths) :
    realdir.take (maxPathLen - 1) = realdir ∧
      (savedir.map fun dir => dir.take (maxPathLen - 1)) = savedir := by
  obtain ⟨hreal, hsave⟩ := h [] hroot
  rw [below_nil] at hreal
  refine ⟨List.take_of_length_le (by omega), ?_⟩
  cases savedir with
  | none => rfl
  | some dir =>
    have := hsave dir rfl
    rw [below_nil] at this
    rw [Option.map_some, List.take_of_length_le (by omega)]

theorem nil_mem_paths (t : FileTree) : [] ∈ t.paths := by
  cases t <;> simp [Tree.paths]

/-- The type the file system says. -/
theorem Holds.lstat {real : Bytes} {t : FileTree} (h : Holds fs real t) :
    ∃ type, fs.lstat real = some type ∧ (type = .dir ↔ ∃ children, t = .node children) := by
  cases t with
  | leaf label =>
    cases label with
    | reg => exact ⟨.reg, h.1, by simp⟩
    | lnk => exact ⟨.lnk, h, by simp⟩
  | node children => exact ⟨.dir, h.1, by simp⟩

mutual

/-- **The walk over a tree makes the calls for its nodes, in preorder, until one fails.** -/
theorem appendTree_eq : (t : FileTree) → {n : ℕ} → {realdir : Bytes} → {savedir : Option Bytes} →
    t ≠ .leaf .lnk → Holds fs realdir t → Fits realdir savedir t.paths → t.height ≤ n → (s : σ) →
    appendTree fs append n s realdir savedir
      = runCalls append (t.paths.map (visit realdir savedir)) s
  | .leaf .lnk, _, _, _, hroot, _, _, _, _ => absurd rfl hroot
  | .leaf .reg, n, realdir, savedir, _, hholds, _, hn, s => by
    obtain ⟨n, rfl⟩ : ∃ m, n = m + 1 := Nat.exists_eq_add_of_le' hn
    rw [appendTree, Tree.paths, List.map_singleton, visit_nil, runCalls, hholds.2]
    rfl
  | .node children, n, realdir, savedir, _, hholds, hfits, hn, s => by
    obtain ⟨n, rfl⟩ : ∃ m, n = m + 1 :=
      Nat.exists_eq_add_of_le' ((Nat.le_add_left 1 _).trans hn)
    obtain ⟨-, ⟨listing, hopen, hlisting⟩, hforest⟩ := hholds
    rw [appendTree, Tree.paths, List.map_cons, visit_nil, runCalls, hopen]
    refine congrArg (andThen _) (funext fun s => ?_)
    dsimp only
    rw [treeEntries_filter, hlisting]
    refine treeEntries_eq children hforest (fun p hp => hfits p (List.mem_cons_of_mem _ hp))
      (Nat.le_of_succ_le_succ hn) (fun name hname => ?_) s
    rw [← hlisting] at hname
    simpa using (List.mem_filter.mp hname).2

theorem treeEntries_eq : (ts : Forest Bytes Leaf) → {n : ℕ} → {realdir : Bytes} →
    {savedir : Option Bytes} → HoldsForest fs realdir ts → Fits realdir savedir ts.paths →
    ts.height ≤ n → (∀ name ∈ ts.names, ¬ IsDots name) → (s : σ) →
    treeEntries fs append (appendTree fs append n) realdir savedir ts.names s
      = runCalls append (ts.paths.map (visit realdir savedir)) s
  | .nil, _, _, _, _, _, _, _, _ => rfl
  | .cons name child rest, n, realdir, savedir, hholds, hfits, hn, hdots, s => by
    obtain ⟨hchild, hrest⟩ := hholds
    obtain ⟨hfitsChild, hfitsRest⟩ := Fits.cons hfits
    obtain ⟨hreal, hsave⟩ := hfitsChild.root (nil_mem_paths child)
    rw [Option.map_map] at hsave
    obtain ⟨hnChild, hnRest⟩ := max_le_iff.mp hn
    obtain ⟨type, hlstat, htype⟩ := hchild.lstat
    have hnames : (Forest.cons name child rest).names = name :: rest.names := rfl
    -- the child is appended by a walk of its own or by one call
    have hcalls : (if type = .dir then
          appendTree fs append n s (realdir ++ 47 :: name) (savedir.map (· ++ 47 :: name))
        else append s (realdir ++ 47 :: name) (savedir.map (· ++ 47 :: name)))
        = runCalls append (child.paths.map (visit (realdir ++ 47 :: name)
            (savedir.map (· ++ 47 :: name)))) s := by
      split_ifs with hdir
      · obtain ⟨children, hnode⟩ := htype.mp hdir
        exact appendTree_eq child (by rw [hnode]; simp) hchild hfitsChild hnChild s
      · cases child with
        | leaf label =>
          rw [Tree.paths, List.map_singleton, visit_nil, runCalls, andThen]
          split_ifs with hok
          · exact Prod.ext hok rfl
          · rfl
        | node children => exact absurd (htype.mpr ⟨children, rfl⟩) hdir
    have hvisits : (child.paths.map (name :: ·)).map (visit realdir savedir)
        = child.paths.map (visit (realdir ++ 47 :: name) (savedir.map (· ++ 47 :: name))) := by
      rw [List.map_map]
      exact List.map_congr_left fun p _ => visit_cons realdir name savedir p
    rw [Forest.paths, List.map_append, runCalls_append, hvisits, ← hcalls, hnames, treeEntries,
      if_neg (hdots name (by rw [hnames]; exact List.mem_cons_self))]
    dsimp only
    rw [hreal]
    simp only [hlstat]
    have hrestEq : treeEntries fs append (appendTree fs append n) realdir savedir rest.names
        = runCalls append (rest.paths.map (visit realdir savedir)) :=
      funext fun s => treeEntries_eq rest hrest hfitsRest hnRest
        (fun m hm => hdots m (by rw [hnames]; exact List.mem_cons_of_mem _ hm)) s
    have hsave' : (savedir.map fun savedir => (savedir ++ 47 :: name).take (maxPathLen - 1))
        = savedir.map (· ++ 47 :: name) := hsave
    rw [hrestEq, hsave']

end

/-! ## The calls that are made -/

/-- Calls that all succeed are all made. -/
theorem runCalls_recorded_of_true {cs : List Call} {s : σ} (log : List Call)
    (h : (runCalls append cs s).1 = true) :
    (runCalls (recorded append) cs (s, log)).1 = true ∧
      (runCalls (recorded append) cs (s, log)).2.2 = log ++ cs := by
  induction cs generalizing s log with
  | nil => exact ⟨rfl, by simp [runCalls]⟩
  | cons c cs ih =>
    rw [runCalls, andThen] at h
    split_ifs at h with hc
    · obtain ⟨hok, hlog⟩ := ih (log ++ [c]) h
      have hstep : runCalls (recorded append) (c :: cs) (s, log)
          = runCalls (recorded append) cs ((append s c.1 c.2).2, log ++ [c]) := if_pos hc
      rw [hstep, hlog]
      exact ⟨hok, by simp⟩
    · exact absurd h hc

/-- A call that fails is the last one. -/
theorem runCalls_recorded_of_false {cs : List Call} {s : σ} (log : List Call)
    (h : (runCalls append cs s).1 = false) :
    (runCalls (recorded append) cs (s, log)).1 = false ∧
    ∃ before c after, cs = before ++ c :: after ∧
      (runCalls (recorded append) cs (s, log)).2.2 = log ++ (before ++ [c]) ∧
      (runCalls append before s).1 = true ∧
      (append (runCalls append before s).2 c.1 c.2).1 = false := by
  induction cs generalizing s log with
  | nil => exact absurd h (by simp [runCalls])
  | cons c cs ih =>
    rw [runCalls, andThen] at h
    split_ifs at h with hc
    · obtain ⟨hok, before, c', after, rfl, hlog, hbefore, hfail⟩ := ih (log ++ [c]) h
      have hstep : runCalls (recorded append) (c :: (before ++ c' :: after)) (s, log)
          = runCalls (recorded append) (before ++ c' :: after) ((append s c.1 c.2).2, log ++ [c]) :=
        if_pos hc
      have hfirst : runCalls append (c :: before) s = runCalls append before (append s c.1 c.2).2 :=
        if_pos hc
      refine ⟨by rw [hstep]; exact hok, c :: before, c', after, rfl, ?_, ?_, ?_⟩
      · rw [hstep, hlog]
        simp
      · rw [hfirst]
        exact hbefore
      · rw [hfirst]
        exact hfail
    · have hfail : (append s c.1 c.2).1 = false := by simpa using hc
      have hstep : runCalls (recorded append) (c :: cs) (s, log) = recorded append (s, log) c.1 c.2 :=
        if_neg hc
      refine ⟨?_, [], c, cs, rfl, ?_, rfl, hfail⟩
      · rw [hstep]
        exact hfail
      · rw [hstep]
        rfl

/-- The names of a tree are names of files: those of siblings differ, and none has a slash. -/
def WellNamed (t : FileTree) : Prop := t.Distinct ∧ ∀ p ∈ t.paths, ∀ name ∈ p, 47 ∉ name

/-- The calls for the nodes of a tree: one for each node, with its names, and the one for a directory
before those for everything below it. -/
structure Complete (t : FileTree) (realdir : Bytes) (savedir : Option Bytes)
    (calls : List Call) : Prop where
  nodes : ∀ c, c ∈ calls ↔ ∃ p u, At t p u ∧ c = visit realdir savedir p
  once : calls.Nodup
  order : ∀ p q u v, At t p u → At t q v → p <+: q → p ≠ q →
    ∃ before after, calls = before ++ visit realdir savedir q :: after ∧
      visit realdir savedir p ∈ before

theorem complete_visits {t : FileTree} (h : WellNamed t) (realdir : Bytes)
    (savedir : Option Bytes) : Complete t realdir savedir (t.paths.map (visit realdir savedir)) := by
  have hinj : ∀ p ∈ t.paths, ∀ q ∈ t.paths, visit realdir savedir p = visit realdir savedir q →
      p = q := fun p hp q hq heq =>
    below_injective (h.2 p hp) (h.2 q hq) (congrArg Prod.fst heq)
  refine ⟨fun c => ?_, List.Nodup.map_on hinj (t.nodup_paths h.1), ?_⟩
  · rw [List.mem_map]
    constructor
    · rintro ⟨p, hp, rfl⟩
      obtain ⟨u, hu⟩ := t.mem_paths_iff.mp hp
      exact ⟨p, u, hu, rfl⟩
    · rintro ⟨p, u, hu, rfl⟩
      exact ⟨p, t.mem_paths_iff.mpr ⟨u, hu⟩, rfl⟩
  · intro p q u v hp hq hle hne
    obtain ⟨before, after, hpaths, hmem⟩ := Tree.listed_before h.1 (t.mem_paths_iff.mpr ⟨u, hp⟩)
      (t.mem_paths_iff.mpr ⟨v, hq⟩) hle hne
    refine ⟨before.map (visit realdir savedir), after.map (visit realdir savedir), ?_,
      List.mem_map_of_mem hmem⟩
    rw [hpaths, List.map_append, List.map_cons]

/-- **A tree is appended completely and once.** The calls for the nodes of the tree are all made if
they all succeed, and otherwise those up to the first that fails. -/
theorem appendTree_archives (fs : FileSystem) (t : FileTree) (realdir : Bytes)
    (savedir : Option Bytes) (hroot : t ≠ .leaf .lnk) (hnamed : WellNamed t)
    (hholds : Holds fs realdir t) (hfits : Fits realdir savedir t.paths) :
    ∃ calls, Complete t realdir savedir calls ∧
      ∀ {σ : Type} (append : σ → Bytes → Option Bytes → Bool × σ) (s : σ) (n : ℕ), t.height ≤ n →
        ((runCalls append calls s).1 = true →
          (appendTree fs (recorded append) n (s, []) realdir savedir).1 = true ∧
          (appendTree fs (recorded append) n (s, []) realdir savedir).2.2 = calls) ∧
        ((runCalls append calls s).1 = false →
          (appendTree fs (recorded append) n (s, []) realdir savedir).1 = false ∧
          ∃ before c after, calls = before ++ c :: after ∧
            (appendTree fs (recorded append) n (s, []) realdir savedir).2.2 = before ++ [c] ∧
            (runCalls append before s).1 = true ∧
            (append (runCalls append before s).2 c.1 c.2).1 = false) := by
  refine ⟨_, complete_visits hnamed realdir savedir, ?_⟩
  intro σ append s n hn
  rw [appendTree_eq t hroot hholds hfits hn]
  exact ⟨runCalls_recorded_of_true [], runCalls_recorded_of_false []⟩

/-- A directory `d` with a file `a`, a link `l` and a directory `e`. -/
def sampleTree : FileTree :=
  .node (.cons [97] (.leaf .reg) (.cons [108] (.leaf .lnk) (.cons [101] (.node .nil) .nil)))

/-- A file system that holds the tree under the name `d`. -/
def sampleFileSystem : FileSystem where
  lstat name :=
    if name = [100] ∨ name = [100, 47, 101] then some .dir
    else if name = [100, 47, 97] then some .reg
    else if name = [100, 47, 108] then some .lnk
    else none
  opendir name :=
    if name = [100] then .ok [[46], [97], [108], dotDot, [101]]
    else if name = [100, 47, 101] then .ok [[46], dotDot]
    else .error .enotdir

theorem appendTree_archives_sample :
    ∃ calls, Complete sampleTree [100] (some [115]) calls ∧
      ((runCalls (fun (s : ℕ) _ _ => (true, s)) calls 0).1 = true →
        (appendTree sampleFileSystem (recorded fun (s : ℕ) _ _ => (true, s)) 2 (0, []) [100]
          (some [115])).2.2 = calls) := by
  have hnamed : WellNamed sampleTree := by
    refine ⟨⟨by decide, trivial, trivial, ⟨List.nodup_nil, trivial⟩, trivial⟩, ?_⟩
    decide
  have hholds : Holds sampleFileSystem [100] sampleTree := by
    refine ⟨rfl, ⟨_, rfl, by decide⟩, ⟨rfl, rfl⟩, rfl, ⟨rfl, ⟨_, rfl, by decide⟩, trivial⟩, trivial⟩
  have hfits : Fits [100] (some [115]) sampleTree.paths := by
    have hshort : ∀ p ∈ sampleTree.paths, (below [100] p).length < maxPathLen ∧
        (below [115] p).length < maxPathLen := by decide
    intro p hp
    refine ⟨(hshort p hp).1, fun dir hdir => ?_⟩
    obtain rfl := Option.some.inj hdir
    exact (hshort p hp).2
  obtain ⟨calls, hcalls, hruns⟩ := appendTree_archives sampleFileSystem sampleTree [100] (some [115])
    (by simp [sampleTree]) hnamed hholds hfits
  exact ⟨calls, hcalls, fun h => ((hruns _ 0 2 (by decide)).1 h).2⟩

end Walk

/-! ## The writer of packages -/

section Writer

/-- The file system of a source. What has no names to list is no directory. -/
def Source.fileSystem (src : Source) : FileSystem where
  lstat name := (src.lstat name).map Stat.type
  opendir name :=
    match src.readdir name with
    | some listing => .ok listing
    | none => .error .enotdir

/-- The result of a call, if it is successful. -/
def result {σ : Type} (r : Bool × σ) : Option σ := if r.1 then some r.2 else none

/-- A call that fails leaves the package of the calls before it. -/
def orKeep (f : Packing → Bytes → Option Bytes → Option Packing) (t : Packing) (realname : Bytes)
    (savename : Option Bytes) : Bool × Packing :=
  match f t realname savename with
  | some t' => (true, t')
  | none => (false, t)

theorem result_andThen {σ : Type} (r : Bool × σ) (f : σ → Bool × σ) :
    result (andThen r f) = (result r).bind fun s => result (f s) := by
  by_cases hr : r.1 = true
  · rw [andThen, if_pos hr, result, result, if_pos hr]
    rfl
  · rw [andThen, if_neg hr, result, if_neg hr]
    rfl

theorem result_orKeep (f : Packing → Bytes → Option Bytes → Option Packing) (t : Packing)
    (realname : Bytes) (savename : Option Bytes) :
    result (orKeep f t realname savename) = f t realname savename := by
  unfold orKeep
  cases f t realname savename <;> rfl

/-- The loop over the entries of a directory. -/
theorem result_treeEntries (src : Source) (tree : Packing → Bytes → Option Bytes → Bool × Packing)
    (realdir : Bytes) (savedir : Option Bytes) (listing : List Bytes) (t : Packing) :
    result (treeEntries src.fileSystem (orKeep (parAppendFile src)) tree realdir savedir listing t)
      = listing.foldlM (fun t dent =>
          if dent = [46] ∨ dent = dotDot then some t
          else do
            let realpath := (realdir ++ 47 :: dent).take (4096 - 1)
            let savepath := savedir.map fun savedir => (savedir ++ 47 :: dent).take (4096 - 1)
            let s ← src.lstat realpath
            if s.type = .dir then result (tree t realpath savepath)
            else parAppendFile src t realpath savepath) t := by
  induction listing generalizing t with
  | nil => rfl
  | cons dent listing ih =>
    rw [List.foldlM_cons, treeEntries]
    by_cases hdots : IsDots dent
    · rw [if_pos hdots, if_pos (show dent = [46] ∨ dent = dotDot from hdots)]
      exact ih t
    · rw [if_neg hdots, if_neg (show ¬ (dent = [46] ∨ dent = dotDot) from hdots)]
      have hlstat : ∀ name, src.fileSystem.lstat name = (src.lstat name).map Stat.type :=
        fun _ => rfl
      dsimp only [maxPathLen]
      rw [hlstat]
      cases src.lstat ((realdir ++ 47 :: dent).take (4096 - 1)) with
      | none => rfl
      | some s =>
        dsimp only [Option.map_some]
        rw [result_andThen, funext ih]
        refine congrArg (Option.bind · _) ?_
        rw [apply_ite result, result_orKeep]
        rfl

/-- **The writer of packages appends a tree by the walk.** -/
theorem parAppendTree_eq (src : Source) (n : ℕ) (t : Packing) (realdir : Bytes)
    (savedir : Option Bytes) :
    parAppendTree src n t realdir savedir
      = result (appendTree src.fileSystem (orKeep (parAppendFile src)) n t realdir savedir) := by
  induction n generalizing t realdir savedir with
  | zero => rfl
  | succ n ih =>
    rw [parAppendTree, appendTree, result_andThen, result_orKeep]
    refine congrArg (Option.bind _) (funext fun t => ?_)
    cases hread : src.readdir realdir with
    | none =>
      have hopen : src.fileSystem.opendir realdir = .error .enotdir := by
        simp [Source.fileSystem, hread]
      rw [hopen]
      rfl
    | some listing =>
      have hopen : src.fileSystem.opendir realdir = .ok listing := by
        simp [Source.fileSystem, hread]
      have hcall : parAppendTree src n = fun t realdir savedir =>
          result (appendTree src.fileSystem (orKeep (parAppendFile src)) n t realdir savedir) :=
        funext fun t => funext fun realdir => funext fun savedir => ih t realdir savedir
      rw [hopen, hcall]
      exact (result_treeEntries src _ realdir savedir listing t).symm

end Writer

end Mavicona.Par
