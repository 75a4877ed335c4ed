import DtCore.Foundation.DirTree
import DtCore.Utils.Paths

/-!
# Creating directories

`create_dir` of `dtFileHelper` walks along a path and makes the directories that are
missing.  Paths are without null characters, without `.` and `..` components and without
symbolic links.  `stat` of a regular file fails when its path ends in a slash, and `mkdir`
succeeds when the parent is a directory and nothing is at the path.

Main definitions:

- `FileSystem.stat`, `FileSystem.mkdir`: the system calls.
- `createDir`: `create_dir`.
- `Delivers`: `create_dir` delivers a directory or finds a regular file in its way.

Main results:

- Theorem `createDirLoop_outcome`: what the loop does.
- Theorem `delivers_iff`: `create_dir` delivers unless the path leads to a regular file.
-/

namespace DtCore
namespace Utils

open Foundation

/-! ## The file system -/

/-- Directories and files, and a working directory. -/
structure FileSystem where
  tree : DirTree Name
  cwd : List Name
  inDirectory : tree.kind cwd = some .directory

/-- The values of `errno`. -/
inductive Errno where
  | enoent
  | eexist
  | enotdir
deriving DecidableEq

/-- The names between the slashes. -/
def components (path : Name) : List Name :=
  (path.splitOnP (fun c => c = '/')).filter (fun name => name ≠ [])

namespace FileSystem

/-- The position that a path leads to. -/
def resolve (fs : FileSystem) (path : Name) : List Name :=
  (if path.head? = some '/' then [] else fs.cwd) ++ components path

/-- `stat`. -/
def stat (fs : FileSystem) (path : Name) : Option Kind :=
  if path = [] then none
  else if fs.tree.kind (fs.resolve path) = some .regular ∧ path.getLast? = some '/' then none
  else fs.tree.kind (fs.resolve path)

/-- A directory at a position of the tree. -/
def addDirectory (fs : FileSystem) (q : List Name)
    (hparent : fs.tree.kind q.dropLast = some .directory) : FileSystem where
  tree := fs.tree.addDirectory q hparent
  cwd := fs.cwd
  inDirectory := by
    show Function.update fs.tree.kind q (some .directory) fs.cwd = some .directory
    by_cases heq : fs.cwd = q
    · rw [heq, Function.update_self]
    · rw [Function.update_of_ne heq]
      exact fs.inDirectory

/-- `mkdir`. -/
def mkdir (fs : FileSystem) (path : Name) : Except Errno FileSystem :=
  if path = [] then .error .enoent
  else if (fs.tree.kind (fs.resolve path)).isSome then .error .eexist
  else if hparent : fs.tree.kind (fs.resolve path).dropLast = some .directory then
    .ok (fs.addDirectory (fs.resolve path) hparent)
  else if ∃ q ∈ (fs.resolve path).inits, fs.tree.kind q = some .regular then .error .enotdir
  else .error .enoent

end FileSystem

/-! ## The functions -/

/-- `path_exists`. -/
def pathExists (fs : FileSystem) (filename : Name) : Bool :=
  (fs.stat filename).isSome

/-- `find_first_of` of the separator. -/
def findFirstOf (path : Name) (offset : Nat) : Option Nat :=
  ((path.drop offset).findIdx? (fun c => c = '/')).map (fun i => offset + i)

/-- The next separator, or the end of the path. -/
def tokenPos (path : Name) (searchOffset : Nat) : Nat :=
  (findFirstOf path searchOffset).getD path.length

theorem le_tokenPos {path : Name} {searchOffset : Nat}
    (h : tokenPos path searchOffset < path.length) : searchOffset ≤ tokenPos path searchOffset := by
  unfold tokenPos findFirstOf at h ⊢
  cases hfind : (path.drop searchOffset).findIdx? (fun c => decide (c = '/')) with
  | none =>
      rw [hfind] at h
      exact absurd h (Nat.lt_irrefl _)
  | some i => exact Nat.le_add_right _ _

/-- One pass of the loop: the directory up to the next separator. -/
def createSubdir (fs : FileSystem) (subdir : Name) : Except Errno FileSystem :=
  if subdir ≠ [] ∧ pathExists fs subdir = false then fs.mkdir subdir else .ok fs

/-- The loop of `create_dir`. -/
def createDirLoop (path : Name) (searchOffset : Nat) (fs : FileSystem) : Bool × FileSystem :=
  match createSubdir fs (path.take (tokenPos path searchOffset)) with
  | .error _ => (false, fs)
  | .ok fs' =>
      if tokenPos path searchOffset + 1 < path.length then
        createDirLoop path (tokenPos path searchOffset + 1) fs'
      else (true, fs')
termination_by path.length - searchOffset
decreasing_by
  have hle := @le_tokenPos path searchOffset (by omega)
  omega

/-- `create_dir`. -/
def createDir (path : Name) (fs : FileSystem) : Bool × FileSystem :=
  if pathExists fs path then (true, fs)
  else if path = [] then (false, fs)
  else createDirLoop path 0 fs

/-- The path leads to a regular file, also when one slash behind it is ignored. -/
def LeadsToFile (fs : FileSystem) (path : Name) : Prop :=
  fs.stat path = some .regular ∨
    path.getLast? = some '/' ∧ fs.stat path.dropLast = some .regular

/-- `create_dir` delivers a directory or finds a regular file in its way, and all that
changes are new directories on the way. -/
structure Delivers (fs : FileSystem) (path : Name) : Prop where
  directory : (createDir path fs).1 = true →
    (createDir path fs).2.stat path = some .directory
  inTheWay : (createDir path fs).1 = false →
    path = [] ∨ ∃ q, q <+: fs.resolve path ∧ fs.tree.kind q = some .regular
  changes : fs.tree.Grows (createDir path fs).2.tree (fs.resolve path)

/-! ## Components -/

theorem components_slash (front rest : Name) :
    components (front ++ '/' :: rest) = components front ++ components rest := by
  unfold components
  rw [List.splitOnP_append_cons _ _ (by simp), List.filter_append]

theorem components_nil : components [] = [] := rfl

theorem components_of_notMem {token : Name} (h : '/' ∉ token) :
    components token = if token = [] then [] else [token] := by
  unfold components
  rw [List.splitOnP_eq_singleton]
  · by_cases hnil : token = []
    · rw [if_pos hnil, hnil]
      rfl
    · rw [if_neg hnil]
      simpa using hnil
  · intro c hc
    rw [decide_eq_false_iff_not]
    rintro rfl
    exact h hc

/-- Behind a slash there is a component, unless the path ends in a slash. -/
theorem components_ne_nil {rest : Name} (hrest : rest ≠ []) (hlast : rest.getLast? ≠ some '/') :
    components rest ≠ [] := by
  rcases exists_last '/' rest with h | ⟨front, token, htoken, rfl⟩
  · rw [components_of_notMem h, if_neg hrest]
    exact List.cons_ne_nil _ _
  · have hne : token ≠ [] := by
      rintro rfl
      exact hlast List.getLast?_concat
    rw [components_slash, components_of_notMem htoken, if_neg hne]
    exact List.append_ne_nil_of_right_ne_nil _ (List.cons_ne_nil _ _)

namespace FileSystem

variable {fs fs' : FileSystem}

theorem resolve_slash {front : Name} (hfront : front ≠ []) (rest : Name) :
    fs.resolve (front ++ '/' :: rest) = fs.resolve front ++ components rest := by
  unfold resolve
  rw [components_slash, List.head?_append_of_ne_nil _ hfront, List.append_assoc]

/-- One slash at the end does not matter. -/
theorem resolve_concat {front : Name} (hfront : front ≠ []) :
    fs.resolve (front ++ ['/']) = fs.resolve front := by
  rw [resolve_slash hfront, components_nil, List.append_nil]

/-- The next name of a path. -/
theorem resolve_token {done token : Name} (hdone : done = [] ∨ done.getLast? = some '/')
    (htoken : '/' ∉ token) :
    fs.resolve (done ++ token) = fs.resolve done ++ components token := by
  rcases hdone with rfl | hlast
  · have hhead : token.head? ≠ some '/' := fun h => htoken (List.mem_of_mem_head? h)
    unfold resolve
    rw [List.nil_append, if_neg hhead, if_neg (by simp), components_nil, List.append_nil]
  · rcases List.getLast?_eq_some_iff.mp hlast with ⟨front, rfl⟩
    by_cases hfront : front = []
    · subst hfront
      unfold resolve
      rfl
    · rw [List.append_assoc, List.singleton_append, resolve_slash hfront, resolve_concat hfront]

theorem kind_root (fs : FileSystem) : fs.tree.kind (fs.resolve ['/']) = some .directory :=
  fs.tree.root

theorem kind_start (fs : FileSystem) : fs.tree.kind (fs.resolve []) = some .directory := by
  have hresolve : fs.resolve [] = fs.cwd := List.append_nil _
  rw [hresolve]
  exact fs.inDirectory

theorem resolve_congr (h : fs'.cwd = fs.cwd) (path : Name) :
    fs'.resolve path = fs.resolve path := by
  unfold resolve
  rw [h]

theorem stat_of_directory {path : Name} (hpath : path ≠ [])
    (h : fs.tree.kind (fs.resolve path) = some .directory) : fs.stat path = some .directory := by
  unfold stat
  rw [if_neg hpath, h, if_neg (by simp)]

theorem stat_of_getLast {path : Name} (hpath : path ≠ []) (hlast : path.getLast? ≠ some '/') :
    fs.stat path = fs.tree.kind (fs.resolve path) := by
  unfold stat
  rw [if_neg hpath, if_neg (fun h => hlast h.2)]

theorem stat_of_none {path : Name} (h : fs.tree.kind (fs.resolve path) = none) :
    fs.stat path = none := by
  unfold stat
  rw [h]
  split
  · rfl
  · split
    · rfl
    · rfl

/-- A regular file is not found under a name that ends in a slash. -/
theorem stat_of_slash {path : Name} (hlast : path.getLast? = some '/')
    (h : fs.tree.kind (fs.resolve path) = some .regular) : fs.stat path = none := by
  unfold stat
  rw [h]
  split
  · rfl
  · exact if_pos ⟨rfl, hlast⟩

/-- What `stat` finds. -/
theorem kind_of_stat {path : Name} {k : Kind} (h : fs.stat path = some k) :
    path ≠ [] ∧ fs.tree.kind (fs.resolve path) = some k ∧
      (k = .regular → path.getLast? ≠ some '/') := by
  unfold stat at h
  split at h
  · contradiction
  · rename_i hpath
    split at h
    · contradiction
    · rename_i hslash
      refine ⟨hpath, h, ?_⟩
      rintro rfl hlast
      exact hslash ⟨h, hlast⟩

/-- `mkdir` makes a directory when there is nothing in a directory. -/
theorem mkdir_of_parent {path : Name} (hpath : path ≠ [])
    (hnone : fs.tree.kind (fs.resolve path) = none)
    (hparent : fs.tree.kind (fs.resolve path).dropLast = some .directory) :
    fs.mkdir path = .ok (fs.addDirectory (fs.resolve path) hparent) := by
  unfold mkdir
  rw [if_neg hpath, hnone, if_neg (by simp), dif_pos hparent]

/-- `mkdir` fails when there is something or no directory to put it in. -/
theorem mkdir_error {path : Name}
    (h : fs.tree.kind (fs.resolve path) ≠ none ∨
      fs.tree.kind (fs.resolve path).dropLast ≠ some .directory) :
    ∃ e, fs.mkdir path = .error e := by
  unfold mkdir
  split
  · exact ⟨_, rfl⟩
  · split
    · exact ⟨_, rfl⟩
    · rename_i hnone
      have hparent : fs.tree.kind (fs.resolve path).dropLast ≠ some .directory := by
        rcases h with hsome | hparent
        · exact absurd (Option.isSome_iff_ne_none.mpr hsome) hnone
        · exact hparent
      rw [dif_neg hparent]
      split
      · exact ⟨_, rfl⟩
      · exact ⟨_, rfl⟩

end FileSystem

/-! ## One pass -/

variable {fs fs' : FileSystem} {path : Name}

/-- The path up to the next separator. -/
theorem take_tokenPos {o : Nat} (ho : o ≤ path.length) :
    ∃ token, '/' ∉ token ∧ path.take (tokenPos path o) = path.take o ++ token ∧
      (path.take (tokenPos path o) = path ∧ path.length ≤ tokenPos path o ∨
        ∃ rest, path = path.take (tokenPos path o) ++ '/' :: rest ∧
          tokenPos path o = (path.take (tokenPos path o)).length) := by
  have hpath := List.take_append_drop o path
  have htake : (path.take o).length = o := List.length_take_of_le ho
  unfold tokenPos findFirstOf
  cases hfind : (path.drop o).findIdx? (fun c => decide (c = '/')) with
  | none =>
      rw [List.findIdx?_eq_none_iff] at hfind
      refine ⟨path.drop o, ?_, ?_, ?_⟩
      · intro hmem
        have hno := hfind '/' hmem
        simp at hno
      · show path.take path.length = _
        rw [List.take_length, hpath]
      · left
        exact ⟨List.take_length, Nat.le_refl _⟩
  | some i =>
      rw [List.findIdx?_eq_some_iff_getElem] at hfind
      rcases hfind with ⟨hi, hslash, hfirst⟩
      have hslash' : (path.drop o)[i] = '/' := by simpa using hslash
      have hdrop : path.drop o = (path.drop o).take i ++ '/' :: (path.drop o).drop (i + 1) := by
        rw [← hslash', List.getElem_cons_drop, List.take_append_drop]
      have hlen : (path.take o ++ (path.drop o).take i).length = o + i := by
        rw [List.length_append, htake, List.length_take_of_le (Nat.le_of_lt hi)]
      have hall : path = (path.take o ++ (path.drop o).take i) ++
          '/' :: (path.drop o).drop (i + 1) := by
        rw [List.append_assoc, ← hdrop, hpath]
      have hsub : path.take (o + i) = path.take o ++ (path.drop o).take i := List.take_add
      refine ⟨(path.drop o).take i, ?_, ?_, ?_⟩
      · intro hmem
        rcases List.mem_take_iff_getElem.mp hmem with ⟨j, hj, hget⟩
        have hno := hfirst j (by omega)
        rw [hget] at hno
        simp at hno
      · exact hsub
      · right
        rw [Option.map_some, Option.getD_some, hsub]
        exact ⟨_, hall, hlen.symm⟩

/-- Behind a directory a pass makes the next directory, if there is nothing. -/
theorem createSubdir_ok {done token : Name} (hdone : done = [] ∨ done.getLast? = some '/')
    (htoken : '/' ∉ token) (hdir : fs.tree.kind (fs.resolve done) = some .directory) :
    ∃ fs', createSubdir fs (done ++ token) = .ok fs' ∧ fs'.cwd = fs.cwd ∧
      fs.tree.Grows fs'.tree (fs.resolve (done ++ token)) ∧
      (fs'.tree.kind (fs.resolve (done ++ token)) = some .directory ∨
        fs.stat (done ++ token) = some .regular) := by
  have hresolve := @FileSystem.resolve_token fs _ _ hdone htoken
  by_cases hnil : token = []
  · rw [hnil, List.append_nil]
    have hsame : createSubdir fs done = .ok fs := by
      unfold createSubdir
      rw [if_neg]
      rintro ⟨hne, hexists⟩
      unfold pathExists at hexists
      rw [FileSystem.stat_of_directory hne hdir] at hexists
      contradiction
    exact ⟨fs, hsame, rfl, DirTree.Grows.refl _ _, Or.inl hdir⟩
  · have hne : done ++ token ≠ [] := List.append_ne_nil_of_right_ne_nil _ hnil
    have hlast : (done ++ token).getLast? ≠ some '/' := by
      rw [List.getLast?_append_of_ne_nil _ hnil]
      exact fun h => htoken (List.mem_of_getLast? h)
    have hstat := @FileSystem.stat_of_getLast fs _ hne hlast
    rw [components_of_notMem htoken, if_neg hnil] at hresolve
    cases hkind : fs.tree.kind (fs.resolve (done ++ token)) with
    | none =>
        have hparent : fs.tree.kind (fs.resolve (done ++ token)).dropLast = some .directory := by
          rw [hresolve, List.dropLast_concat, hdir]
        refine ⟨fs.addDirectory (fs.resolve (done ++ token)) hparent, ?_, rfl,
          DirTree.grows_addDirectory hkind hparent, ?_⟩
        · unfold createSubdir pathExists
          rw [hstat, hkind, if_pos ⟨hne, rfl⟩]
          exact FileSystem.mkdir_of_parent hne hkind hparent
        · left
          exact Function.update_self _ _ _
    | some k =>
        have hsame : createSubdir fs (done ++ token) = .ok fs := by
          unfold createSubdir pathExists
          rw [hstat, hkind, if_neg (by simp)]
        refine ⟨fs, hsame, rfl, DirTree.Grows.refl _ _, ?_⟩
        cases k with
        | directory => exact Or.inl hkind
        | regular => exact Or.inr (hstat.trans hkind)

/-- Behind a regular file a pass fails. -/
theorem createSubdir_error {done token : Name} (hdone : done.getLast? = some '/')
    (htoken : '/' ∉ token) (hregular : fs.tree.kind (fs.resolve done) = some .regular) :
    ∃ e, createSubdir fs (done ++ token) = .error e := by
  have hresolve := @FileSystem.resolve_token fs _ _ (Or.inr hdone) htoken
  have hne : done ++ token ≠ [] := by
    intro hnil
    rw [(List.append_eq_nil_iff.mp hnil).1] at hdone
    contradiction
  have hfails : fs.stat (done ++ token) = none ∧
      (fs.tree.kind (fs.resolve (done ++ token)) ≠ none ∨
        fs.tree.kind (fs.resolve (done ++ token)).dropLast ≠ some .directory) := by
    by_cases hnil : token = []
    · rw [hnil, List.append_nil]
      refine ⟨FileSystem.stat_of_slash hdone hregular, Or.inl ?_⟩
      rw [hregular]
      simp
    · rw [components_of_notMem htoken, if_neg hnil] at hresolve
      constructor
      · apply FileSystem.stat_of_none
        rw [hresolve]
        exact DirTree.none_of_regular (List.prefix_append _ _) (by simp) hregular
      · right
        rw [hresolve, List.dropLast_concat, hregular]
        simp
  unfold createSubdir pathExists
  rw [hfails.1, if_pos ⟨hne, rfl⟩]
  exact FileSystem.mkdir_error hfails.2

/-! ## The loop -/

/-- What the loop does: it gets to the end, or it finds a regular file with more than one
slash behind it. -/
structure Outcome (path : Name) (fs : FileSystem) (r : Bool × FileSystem) : Prop where
  cwd : r.2.cwd = fs.cwd
  grows : fs.tree.Grows r.2.tree (fs.resolve path)
  delivered : r.1 = true →
    r.2.tree.kind (fs.resolve path) = some .directory ∨ LeadsToFile fs path
  failed : r.1 = false → ∃ front rest, path = front ++ '/' :: rest ∧ front ≠ [] ∧ rest ≠ [] ∧
    fs.tree.kind (fs.resolve front) = some .regular

/-- One pass and the rest of the loop. -/
theorem createDirLoop_ok {o : Nat} (h : createSubdir fs (path.take (tokenPos path o)) = .ok fs') :
    createDirLoop path o fs =
      if tokenPos path o + 1 < path.length then createDirLoop path (tokenPos path o + 1) fs'
      else (true, fs') := by
  rw [createDirLoop, h]

theorem createDirLoop_error {o : Nat} {e : Errno}
    (h : createSubdir fs (path.take (tokenPos path o)) = .error e) :
    createDirLoop path o fs = (false, fs) := by
  rw [createDirLoop, h]

/-- The outcome of the rest of the loop is one of the whole loop. -/
theorem Outcome.of_grows {r : Bool × FileSystem} (hcwd : fs'.cwd = fs.cwd)
    (hgrows : fs.tree.Grows fs'.tree (fs.resolve path)) (h : Outcome path fs' r) :
    Outcome path fs r := by
  have hsame : ∀ p, fs'.resolve p = fs.resolve p := FileSystem.resolve_congr hcwd
  have hregular : ∀ p, fs'.tree.kind (fs'.resolve p) = some .regular →
      fs.tree.kind (fs.resolve p) = some .regular := by
    intro p hp
    rw [hsame] at hp
    exact hgrows.regular hp
  have hstat : ∀ p, fs'.stat p = some .regular → fs.stat p = some .regular := by
    intro p hp
    rcases FileSystem.kind_of_stat hp with ⟨hne, hkind, hlast⟩
    rw [FileSystem.stat_of_getLast hne (hlast rfl)]
    exact hregular p hkind
  have hrest := h.grows
  rw [hsame] at hrest
  constructor
  · exact h.cwd.trans hcwd
  · exact hgrows.trans hrest
  · intro hr
    have hdelivered := h.delivered hr
    rw [hsame] at hdelivered
    apply hdelivered.imp_right
    rintro (hfile | ⟨hlast, hfile⟩)
    · exact Or.inl (hstat _ hfile)
    · exact Or.inr ⟨hlast, hstat _ hfile⟩
  · intro hr
    rcases h.failed hr with ⟨front, rest, hpath, hfront, hne, hfile⟩
    exact ⟨front, rest, hpath, hfront, hne, hregular front hfile⟩

section Pass

variable {front rest : Name}

/-- The beginning of a path with the separator behind it. -/
theorem take_slash (hpath : path = front ++ '/' :: rest) :
    path.take (front.length + 1) = front ++ ['/'] := by
  have hsplit : path = (front ++ ['/']) ++ rest := by
    rw [List.append_assoc]
    exact hpath
  have hlen : front.length + 1 = (front ++ ['/']).length := by
    rw [List.length_append]
    rfl
  rw [hlen, hsplit, List.take_left]

/-- What a pass makes is on the way to the path. -/
theorem grows_path (hpath : path = front ++ '/' :: rest) (hok : createSubdir fs front = .ok fs')
    (hgrows : fs.tree.Grows fs'.tree (fs.resolve front)) :
    fs.tree.Grows fs'.tree (fs.resolve path) := by
  by_cases hnil : front = []
  · have hsame : fs' = fs := by
      rw [hnil] at hok
      exact (Except.ok.inj hok).symm
    rw [hsame]
    exact DirTree.Grows.refl _ _
  · apply hgrows.mono
    rw [hpath, FileSystem.resolve_slash hnil]
    exact List.prefix_append _ _

/-- A directory is one with a separator behind its name, too. -/
theorem kind_slash (hcwd : fs'.cwd = fs.cwd)
    (hkind : fs'.tree.kind (fs.resolve front) = some .directory) :
    fs'.tree.kind (fs'.resolve (front ++ ['/'])) = some .directory := by
  by_cases hnil : front = []
  · rw [hnil]
    exact fs'.kind_root
  · rw [FileSystem.resolve_concat hnil, FileSystem.resolve_congr hcwd]
    exact hkind

/-- The pass behind a regular file fails. -/
theorem createDirLoop_behindFile (hpath : path = front ++ '/' :: rest) (hcwd : fs'.cwd = fs.cwd)
    (hgrows : fs.tree.Grows fs'.tree (fs.resolve front)) (hfile : fs.stat front = some .regular) :
    createDirLoop path (front.length + 1) fs' = (false, fs') := by
  rcases FileSystem.kind_of_stat hfile with ⟨hnil, hregular, -⟩
  have hle : front.length + 1 ≤ path.length := by
    rw [hpath, List.length_append, List.length_cons]
    omega
  rcases take_tokenPos hle with ⟨token, htoken, htake, -⟩
  rw [take_slash hpath] at htake
  have hbehind : fs'.tree.kind (fs'.resolve (front ++ ['/'])) = some .regular := by
    rw [FileSystem.resolve_concat hnil, FileSystem.resolve_congr hcwd]
    exact hgrows.keeps hregular
  rcases createSubdir_error List.getLast?_concat htoken hbehind with ⟨e, he⟩
  rw [← htake] at he
  exact createDirLoop_error he

end Pass

/-- The loop from behind a directory. -/
theorem createDirLoop_outcome {o : Nat} (ho : o ≤ path.length)
    (hdone : path.take o = [] ∨ (path.take o).getLast? = some '/')
    (hdir : fs.tree.kind (fs.resolve (path.take o)) = some .directory) :
    Outcome path fs (createDirLoop path o fs) := by
  induction hn : path.length - o using Nat.strongRecOn generalizing o fs with
  | ind n ih =>
      rcases take_tokenPos ho with ⟨token, htoken, htake, hend⟩
      rcases createSubdir_ok hdone htoken hdir with ⟨fs', hok, hcwd, hgrows, hkind⟩
      rw [← htake] at hok hgrows hkind
      rw [createDirLoop_ok hok]
      rcases hend with ⟨hall, hlen⟩ | ⟨rest, hpath, hlen⟩
      · -- the last name
        rw [hall] at hgrows hkind
        rw [if_neg (by omega)]
        exact {
          cwd := hcwd
          grows := hgrows
          delivered := fun _ => hkind.imp_right Or.inl
          failed := fun h => absurd h (by simp) }
      · generalize path.take (tokenPos path o) = front at *
        have hgrows' := grows_path hpath hok hgrows
        have hlength : path.length = front.length + 1 + rest.length := by
          rw [hpath, List.length_append, List.length_cons]
          omega
        by_cases hmore : tokenPos path o + 1 < path.length
        · rw [if_pos hmore]
          rcases hkind with hkind | hfile
          · have hle := @le_tokenPos path o (by omega)
            have hnext : path.take (tokenPos path o + 1) = front ++ ['/'] := by
              rw [hlen, take_slash hpath]
            apply Outcome.of_grows hcwd hgrows'
            apply ih _ _ (Nat.le_of_lt hmore) _ _ rfl
            · omega
            · rw [hnext]
              exact Or.inr List.getLast?_concat
            · rw [hnext]
              exact kind_slash hcwd hkind
          · rcases FileSystem.kind_of_stat hfile with ⟨hnil, hregular, -⟩
            have hne : rest ≠ [] := by
              rintro rfl
              rw [List.length_nil] at hlength
              omega
            rw [hlen, createDirLoop_behindFile hpath hcwd hgrows hfile]
            exact {
              cwd := hcwd
              grows := hgrows'
              delivered := fun h => absurd h (by simp)
              failed := fun _ => ⟨front, rest, hpath, hnil, hne, hregular⟩ }
        · have hnil : rest = [] := List.eq_nil_of_length_eq_zero (by omega)
          rw [if_neg hmore]
          subst hnil
          exact {
            cwd := hcwd
            grows := hgrows'
            delivered := by
              intro _
              rw [hpath]
              rcases hkind with hkind | hfile
              · left
                rw [← FileSystem.resolve_congr hcwd]
                exact kind_slash hcwd hkind
              · right
                right
                rw [List.dropLast_concat]
                exact ⟨List.getLast?_concat, hfile⟩
            failed := fun h => absurd h (by simp) }

/-- What `create_dir` does with a path. -/
theorem createDir_outcome (fs : FileSystem) (hpath : path ≠ []) :
    Outcome path fs (createDir path fs) := by
  unfold createDir pathExists
  cases hstat : fs.stat path with
  | some k =>
      rcases FileSystem.kind_of_stat hstat with ⟨-, hkind, -⟩
      rw [Option.isSome_some, if_pos rfl]
      exact {
        cwd := rfl
        grows := DirTree.Grows.refl _ _
        delivered := by
          intro _
          cases k with
          | directory => exact Or.inl hkind
          | regular => exact Or.inr (Or.inl hstat)
        failed := fun h => absurd h (by simp) }
  | none =>
      rw [if_neg (by simp), if_neg hpath]
      exact createDirLoop_outcome (Nat.zero_le _) (Or.inl List.take_zero) fs.kind_start

/-! ## Which paths are delivered -/

/-- A path to a regular file with one slash behind it is not told apart from a directory. -/
theorem createDir_of_slash (hlast : path.getLast? = some '/')
    (hfile : fs.stat path.dropLast = some .regular) :
    (createDir path fs).1 = true ∧ (createDir path fs).2.stat path = none := by
  rcases List.getLast?_eq_some_iff.mp hlast with ⟨file, rfl⟩
  rw [List.dropLast_concat] at hfile
  rcases FileSystem.kind_of_stat hfile with ⟨hne, hkind, hopen⟩
  have hresolve := @FileSystem.resolve_concat fs _ hne
  have hregular : fs.tree.kind (fs.resolve (file ++ ['/'])) = some .regular := by
    rw [hresolve, hkind]
  have hout := @createDir_outcome (file ++ ['/']) fs (by simp)
  constructor
  · by_contra hfailed
    rcases hout.failed (by simpa using hfailed) with ⟨front, rest, hpath, hfront, hrest, hwall⟩
    -- the file would be behind another one, or have a slash behind it
    rcases List.eq_nil_or_concat' rest with rfl | ⟨rest, c, rfl⟩
    · exact hrest rfl
    · have hfileEq : file = front ++ '/' :: rest := by
        have hsplit : front ++ '/' :: (rest ++ [c]) = (front ++ '/' :: rest) ++ [c] := by simp
        rw [hsplit] at hpath
        exact (List.append_inj' hpath rfl).1
      by_cases hnil : rest = []
      · apply hopen rfl
        rw [hfileEq, hnil]
        exact List.getLast?_concat
      · have hlast' : rest.getLast? ≠ some '/' := by
          intro h
          apply hopen rfl
          rw [hfileEq, List.getLast?_append_of_ne_nil _ (List.cons_ne_nil _ _),
            ← List.singleton_append, List.getLast?_append_of_ne_nil _ hnil]
          exact h
        rw [hfileEq, FileSystem.resolve_slash hfront] at hkind
        rw [DirTree.none_of_regular (List.prefix_append _ _)
          (by simpa using components_ne_nil hnil hlast') hwall] at hkind
        contradiction
  · apply FileSystem.stat_of_slash hlast
    rw [FileSystem.resolve_congr hout.cwd]
    exact hout.grows.keeps hregular

/-- `create_dir` delivers a directory exactly when the path does not lead to a regular
file. -/
theorem delivers_iff (fs : FileSystem) (path : Name) :
    Delivers fs path ↔ ¬ LeadsToFile fs path := by
  constructor
  · rintro h (hfile | ⟨hlast, hfile⟩)
    · have hexists : createDir path fs = (true, fs) := by
        unfold createDir pathExists
        rw [hfile]
        rfl
      have hdir := h.directory (by rw [hexists])
      rw [hexists, hfile] at hdir
      contradiction
    · have hslash := createDir_of_slash hlast hfile
      have hdir := h.directory hslash.1
      rw [hslash.2] at hdir
      contradiction
  · intro hno
    by_cases hnil : path = []
    · subst hnil
      constructor
      · intro h
        contradiction
      · exact fun _ => Or.inl rfl
      · exact DirTree.Grows.refl _ _
    · have hout := createDir_outcome fs hnil
      constructor
      · intro h
        apply FileSystem.stat_of_directory hnil
        rw [FileSystem.resolve_congr hout.cwd]
        exact (hout.delivered h).resolve_right hno
      · intro h
        rcases hout.failed h with ⟨front, rest, hpath, hfront, -, hfile⟩
        right
        refine ⟨fs.resolve front, ?_, hfile⟩
        rw [hpath, FileSystem.resolve_slash hfront]
        exact List.prefix_append _ _
      · exact hout.grows

/-- A file system with one file. -/
def oneFile : FileSystem where
  tree :=
    { kind := fun p =>
        if p = [] then some .directory else if p = [['f']] then some .regular else none
      root := rfl
      parent := by
        intro p c h
        have hnil : p = [] := by
          by_contra hne
          apply h
          have hlong : p ++ [c] ≠ [['f']] := by
            intro heq
            rw [← List.nil_append [['f']]] at heq
            exact hne (List.append_inj' heq rfl).1
          rw [if_neg (by simp), if_neg hlong]
        rw [if_pos hnil] }
  cwd := []
  inDirectory := rfl

/-- A regular file is taken for the directory. -/
theorem file_not_delivered :
    createDir ['f'] oneFile = (true, oneFile) ∧ oneFile.stat ['f'] = some .regular ∧
      ¬ Delivers oneFile ['f'] := by
  have hfile : oneFile.stat ['f'] = some .regular := by decide
  have hexists : createDir ['f'] oneFile = (true, oneFile) := by
    unfold createDir pathExists
    rw [hfile]
    rfl
  refine ⟨hexists, hfile, ?_⟩
  intro h
  have hdir := h.directory (by rw [hexists])
  rw [hexists, hfile] at hdir
  contradiction

end Utils
end DtCore
