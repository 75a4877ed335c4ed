import DtCore.Utils.Directories

/-!
# Directories of log files

Before a log file is opened its directory is created with a single `mkdir`, unlike by
`create_dir`, which also makes the directories that lead to it.

Main definitions:

- `prepareDirectory`: the directory of a log file.
- `PreparedLikeCreateDir`: it is there whenever `create_dir` would deliver it.

Main results:

- Theorem `prepared_iff`: this is so when at most the last directory is missing.
-/

namespace DtCore
namespace Log
namespace RtLog

open Foundation Utils

/-- `SplitByDirectory`, the same code as `split_by_directory`. -/
def splitByDirectory (fname : Name) : Name × Name :=
  Utils.splitByDirectory fname

/-- `EnsureDirectoryExistes`, with the error code. -/
def ensureDirectoryExistes (dname : Name) (fs : FileSystem) : Except Errno Unit × FileSystem :=
  if dname = [] then (.ok (), fs)
  else
    match fs.stat dname with
    | some .directory => (.ok (), fs)
    | some .regular => (.error .enotdir, fs)
    | none =>
        match fs.mkdir dname with
        | .ok fs' => (.ok (), fs')
        | .error e => (.error e, fs)

/-- The directory preparation for a log file. -/
def prepareDirectory (fname : Name) (fs : FileSystem) : Except Errno Unit × FileSystem :=
  ensureDirectoryExistes (splitByDirectory fname).1 fs

/-- The preparation succeeds and leaves the directory existing whenever `create_dir`
would. -/
def PreparedLikeCreateDir (fs : FileSystem) (fname : Name) : Prop :=
  (createDir (splitByDirectory fname).1 fs).1 = true →
    (createDir (splitByDirectory fname).1 fs).2.stat (splitByDirectory fname).1 =
      some .directory →
    (prepareDirectory fname fs).1 = .ok () ∧
      (prepareDirectory fname fs).2.stat (splitByDirectory fname).1 = some .directory

variable {fs : FileSystem} {dname : Name}

/-- When there is nothing at the path, success is up to `mkdir`. -/
theorem ensureDirectoryExistes_of_none (hne : dname ≠ []) (hstat : fs.stat dname = none) :
    (∃ fs', fs.mkdir dname = .ok fs' ∧ ensureDirectoryExistes dname fs = (.ok (), fs')) ∨
      ∃ e, fs.mkdir dname = .error e ∧ ensureDirectoryExistes dname fs = (.error e, fs) := by
  unfold ensureDirectoryExistes
  rw [if_neg hne, hstat]
  cases hmkdir : fs.mkdir dname with
  | ok fs' => exact Or.inl ⟨fs', rfl, rfl⟩
  | error e => exact Or.inr ⟨e, rfl, rfl⟩

/-- A directory is there after `mkdir` when its parent was there. -/
theorem ensureDirectoryExistes_of_parent (hne : dname ≠ [])
    (hregular : fs.tree.kind (fs.resolve dname) ≠ some .regular)
    (hparent : fs.tree.kind (fs.resolve dname).dropLast = some .directory) :
    (ensureDirectoryExistes dname fs).1 = .ok () ∧
      (ensureDirectoryExistes dname fs).2.stat dname = some .directory := by
  cases hkind : fs.tree.kind (fs.resolve dname) with
  | none =>
      have hstat := FileSystem.stat_of_none hkind
      have hmkdir := FileSystem.mkdir_of_parent hne hkind hparent
      unfold ensureDirectoryExistes
      rw [if_neg hne, hstat]
      dsimp only
      rw [hmkdir]
      refine ⟨rfl, FileSystem.stat_of_directory hne ?_⟩
      exact Function.update_self _ _ _
  | some k =>
      cases k with
      | directory =>
          have hstat := FileSystem.stat_of_directory hne hkind
          unfold ensureDirectoryExistes
          rw [if_neg hne, hstat]
          exact ⟨rfl, hstat⟩
      | regular => exact absurd hkind hregular

/-- What `create_dir` delivers has no regular file in its way. -/
theorem notRegular_of_delivered (hne : dname ≠ [])
    (hdelivered : (createDir dname fs).2.stat dname = some .directory) {q : List Name}
    (hq : q <+: fs.resolve dname) : fs.tree.kind q ≠ some .regular := by
  intro hregular
  have hout := createDir_outcome fs hne
  have hkept := hout.grows.keeps hregular
  rcases FileSystem.kind_of_stat hdelivered with ⟨-, hkind, -⟩
  rw [FileSystem.resolve_congr hout.cwd] at hkind
  by_cases heq : q = fs.resolve dname
  · rw [heq, hkind] at hkept
    contradiction
  · rw [DirTree.none_of_regular hq heq hkept] at hkind
    contradiction

/-- `create_dir` makes all directories of a path without regular files. -/
theorem createDir_of_notRegular (hne : dname ≠ [])
    (h : ∀ q, q <+: fs.resolve dname → fs.tree.kind q ≠ some .regular) :
    (createDir dname fs).1 = true ∧ (createDir dname fs).2.stat dname = some .directory := by
  have hout := createDir_outcome fs hne
  have htrue : (createDir dname fs).1 = true := by
    by_contra hfalse
    rcases hout.failed (by simpa using hfalse) with ⟨front, rest, hpath, hfront, -, hfile⟩
    apply h _ _ hfile
    rw [hpath, FileSystem.resolve_slash hfront]
    exact List.prefix_append _ _
  refine ⟨htrue, ?_⟩
  apply FileSystem.stat_of_directory hne
  rw [FileSystem.resolve_congr hout.cwd]
  rcases hout.delivered htrue with hdir | hfile | ⟨hlast, hfile⟩
  · exact hdir
  · exact absurd (FileSystem.kind_of_stat hfile).2.1 (h _ (List.prefix_refl _))
  · rcases FileSystem.kind_of_stat hfile with ⟨hfront, hkind, -⟩
    have hpath : dname.dropLast ++ ['/'] = dname := by
      rcases List.getLast?_eq_some_iff.mp hlast with ⟨front, rfl⟩
      rw [List.dropLast_concat]
    have hresolve := @FileSystem.resolve_concat fs _ hfront
    rw [hpath] at hresolve
    rw [← hresolve] at hkind
    exact absurd hkind (h _ (List.prefix_refl _))

/-- The directory of a log file is there like one from `create_dir` exactly when its parent
is there, or a regular file is in the way of both. -/
theorem prepared_iff (fs : FileSystem) (fname : Name) :
    PreparedLikeCreateDir fs fname ↔
      fs.tree.kind (fs.resolve (splitByDirectory fname).1).dropLast ≠ none ∨
        ∃ q, q <+: fs.resolve (splitByDirectory fname).1 ∧ fs.tree.kind q = some .regular := by
  unfold PreparedLikeCreateDir prepareDirectory
  generalize (splitByDirectory fname).1 = dname
  have hstart : dname = [] → fs.tree.kind (fs.resolve dname).dropLast ≠ none := by
    rintro rfl
    rw [DirTree.kind_dropLast (by rw [fs.kind_start]; simp)]
    simp
  constructor
  · intro hprepared
    by_contra hnot
    rw [not_or, not_exists, not_not] at hnot
    rcases hnot with ⟨hparent, hfree⟩
    have hne : dname ≠ [] := fun hnil => hstart hnil hparent
    have hcreated := createDir_of_notRegular hne (fun q hq hregular => hfree q ⟨hq, hregular⟩)
    have hsuccess := (hprepared hcreated.1 hcreated.2).1
    -- there is nothing to put the directory in
    have hnone := DirTree.none_of_extended (List.dropLast_prefix _) hparent
    have hfails := @FileSystem.mkdir_error fs dname
      (Or.inr (by rw [hparent]; simp))
    rcases ensureDirectoryExistes_of_none hne (FileSystem.stat_of_none hnone) with
      ⟨fs', hok, -⟩ | ⟨e, -, hensure⟩
    · rcases hfails with ⟨e, he⟩
      rw [hok] at he
      contradiction
    · rw [hensure] at hsuccess
      contradiction
  · intro hcond _ hdelivered
    have hne : dname ≠ [] := by
      rintro rfl
      contradiction
    have hfree : ∀ q, q <+: fs.resolve dname → fs.tree.kind q ≠ some .regular :=
      fun q hq => notRegular_of_delivered hne hdelivered hq
    have hparent : fs.tree.kind (fs.resolve dname).dropLast = some .directory := by
      rcases hcond with hsome | ⟨q, hq, hregular⟩
      · cases hkind : fs.tree.kind (fs.resolve dname).dropLast with
        | none => exact absurd hkind hsome
        | some k =>
            cases k with
            | directory => rfl
            | regular => exact absurd hkind (hfree _ (List.dropLast_prefix _))
      · exact absurd hregular (hfree q hq)
    exact ensureDirectoryExistes_of_parent hne (hfree _ (List.prefix_refl _)) hparent

/-- A file system with nothing but its root. -/
def emptyDisk : FileSystem where
  tree :=
    { kind := fun p => if p = [] then some .directory else none
      root := rfl
      parent := by
        intro p c h
        rw [if_neg (by simp)] at h
        contradiction }
  cwd := []
  inDirectory := rfl

/-- The directory of the log file `a/b/c` is not created. -/
theorem nested_not_prepared :
    (prepareDirectory ['a', '/', 'b', '/', 'c'] emptyDisk).1 = .error .enoent ∧
      ¬ PreparedLikeCreateDir emptyDisk ['a', '/', 'b', '/', 'c'] := by
  have hfails : (prepareDirectory ['a', '/', 'b', '/', 'c'] emptyDisk).1 = .error .enoent := by
    rfl
  refine ⟨hfails, ?_⟩
  intro hprepared
  have hfree : ∀ q, emptyDisk.tree.kind q ≠ some .regular := by
    intro q hq
    unfold emptyDisk at hq
    dsimp only at hq
    split at hq
    · contradiction
    · contradiction
  have hcreated := @createDir_of_notRegular emptyDisk
    (splitByDirectory ['a', '/', 'b', '/', 'c']).1 (by decide) (fun q _ => hfree q)
  have hsuccess := (hprepared hcreated.1 hcreated.2).1
  rw [hfails] at hsuccess
  contradiction

end RtLog
end Log
end DtCore
