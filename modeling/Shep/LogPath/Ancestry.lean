import Mathlib.Data.List.Infix
import Shep.LogPath.Resolved

/-!
# LogPath — ancestry of a log path

`runner/log_path_security.rs`: the check a shepherd makes of the directories
above a log path, and the open it makes behind it. The check reads the path's
own text; the open goes where the path leads.
-/

namespace Shep

namespace LogPath

open FileTree

variable {ι δ : Type*}

/-! ## The check -/

/-- `WORLD_WRITABLE` -/
def WORLD_WRITABLE : Nat := 0o002

/-- `LooseReason` -/
inductive LooseReason where
  | ForeignOwner (uid : Nat)
  | WorldWritable
  deriving Repr, DecidableEq

/-- `LooseAncestor` -/
structure LooseAncestor where
  path : List Name
  reason : LooseReason
  deriving Repr, DecidableEq

/-- `Path::ancestors` of an absolute path's parent, nearest first, each by
its names below the root. -/
def ancestors (path : Name) : List (List Name) :=
  match parent path with
  | none => []
  | some parent => (parent.drop 1).inits.reverse

/-- Why an inode is loose. -/
def looseReason (tree : Tree ι δ) (daemon_uid : Nat) (i : ι) : Option LooseReason :=
  if !is_trusted_owner (tree.inode i).owner daemon_uid then
    some (.ForeignOwner (tree.inode i).owner)
  else if (tree.dir? i).isSome && (tree.inode i).mode &&& WORLD_WRITABLE != 0 then
    some .WorldWritable
  else none

/-- `loose_ancestor`: an ancestor that cannot be read is skipped. -/
def loose_ancestor (tree : Tree ι δ) (path : Name) (daemon_uid : Nat) : Option LooseAncestor :=
  (ancestors path).findSome? fun ancestor =>
    match tree.lstat ancestor with
    | .error _ => none
    | .ok found => (looseReason tree daemon_uid found).map fun reason => ⟨ancestor, reason⟩

/-- `check_log_ancestry_as`: root refuses, and everyone else is warned. -/
def check_log_ancestry_as (tree : Tree ι δ) (path : Name) (daemon_uid : Nat) :
    Except LooseAncestor Unit :=
  match loose_ancestor tree path daemon_uid with
  | none => .ok ()
  | some loose => if daemon_uid = ROOT_UID then .error loose else .ok ()

/-! ## The open -/

/-- `LogOpen` -/
inductive LogOpen where
  | AppendCreating
  | TruncateExisting
  deriving Repr, DecidableEq

/-- Why an open failed. -/
inductive OpenError where
  | refused (refusal : Refusal)
  | os (halt : Halt)
  | isDirectory
  deriving Repr, DecidableEq

/-- An opened log: the directory it lies in, and the file, if there was one. -/
structure Opened (ι : Type*) where
  dir : ι
  file : Option ι
  deriving Repr, DecidableEq

/-- An open for writing of a name in a directory, with `O_NOFOLLOW`. -/
def openIn (tree : Tree ι δ) (how : LogOpen) (dir : ι) (name : Name) :
    Except OpenError (Opened ι) :=
  match tree.step false ⟨dir, dir⟩ name with
  | .error .missing => if how = .AppendCreating then .ok ⟨dir, none⟩ else .error (.os .missing)
  | .error halt => .error (.os halt)
  | .ok found =>
    if (tree.target? found.place).isSome then .error (.os .loop)
    else if (tree.dir? found.place).isSome then .error .isDirectory
    else .ok ⟨dir, some found.place⟩

/-- `open_resolving_no_symlinks`: `openat2` with `RESOLVE_NO_SYMLINKS`. -/
def open_resolving_no_symlinks (tree : Tree ι δ) (how : LogOpen) (path : Name) :
    Except OpenError (Opened ι) :=
  match (parts path).getLast? with
  | none => .error .isDirectory
  | some last =>
    match tree.resolve (parts path).dropLast with
    | ⟨[], .ok dir⟩ => openIn tree how dir last
    | ⟨[], .error halt⟩ => .error (.os halt)
    | ⟨_ :: _, _⟩ => .error (.os .loop)

/-- `open_resolving` -/
def open_resolving (tree : Tree ι δ) (how : LogOpen) (path : Name) (daemon_uid : Nat) :
    Except OpenError (Opened ι) :=
  match (resolve_parent tree path daemon_uid).answer with
  | .error refusal => .error (.refused refusal)
  | .ok resolved => open_resolving_no_symlinks tree how resolved

/-! ## What is guarded -/

/-- Root's, and not every user's to write. -/
def Safe (tree : Tree ι δ) (dir : ι) : Prop :=
  (tree.inode dir).owner = ROOT_UID ∧ (tree.inode dir).mode &&& WORLD_WRITABLE = 0

instance (tree : Tree ι δ) (dir : ι) : Decidable (Safe tree dir) :=
  inferInstanceAs (Decidable (_ ∧ _))

/-- Every directory from the root to the one a log was opened in is safe, and
every link followed there is root's. -/
def Guarded (tree : Tree ι δ) (log : Name) (opened : Opened ι) : Prop :=
  (∀ dir, tree.Within dir opened.dir → Safe tree dir) ∧
    ∀ link ∈ (resolve_parent tree log ROOT_UID).followed, (tree.inode link).owner = ROOT_UID

/-- Every directory from the root to where the path's parent leads is safe,
if none of the path's own ancestors is that directory. -/
def Covered (tree : Tree ι δ) (log : Name) : Prop :=
  ∀ place dir, (lexically tree log).outcome = .ok place → tree.Within dir place →
    (∀ ancestor ∈ ancestors log, tree.lstat ancestor ≠ .ok dir) → Safe tree dir

variable {tree : Tree ι δ} {log resolved : Name} {how : LogOpen} {dir : ι}

theorem not_loose_of_accepted (h : check_log_ancestry_as tree log ROOT_UID = .ok ())
    {ancestor : List Name} (hancestor : ancestor ∈ ancestors log)
    (hdir : tree.lstat ancestor = .ok dir) : looseReason tree ROOT_UID dir = none := by
  have hnone : loose_ancestor tree log ROOT_UID = none := by
    rw [check_log_ancestry_as] at h
    cases hloose : loose_ancestor tree log ROOT_UID with
    | none => rfl
    | some loose => rw [hloose] at h; simp at h
  have hfound := List.findSome?_eq_none_iff.1 hnone ancestor hancestor
  rw [hdir] at hfound
  simpa using hfound

theorem trusted_root {owner : ℕ} (h : is_trusted_owner owner ROOT_UID = true) :
    owner = ROOT_UID := by
  simpa [is_trusted_owner] using h

theorem safe_of_not_loose (hdir : (tree.dir? dir).isSome)
    (h : looseReason tree ROOT_UID dir = none) : Safe tree dir := by
  unfold looseReason at h
  split_ifs at h with howner hmode
  · exact ⟨trusted_root (by simpa using howner), by simpa [hdir] using hmode⟩

/-- A file opens in the directory it is asked of, by a name. -/
theorem dir_of_openIn {name : Name} {path : List Name} {opened : Opened ι}
    (hstraight : tree.Straight path dir) (h : openIn tree how dir name = .ok opened) :
    opened.dir = dir ∧ (tree.dir? dir).isSome ∧ name ≠ dot ∧ name ≠ dotdot := by
  unfold openIn at h
  cases hdir : tree.dir? dir with
  | none => rw [Tree.step_file (by exact hdir)] at h; cases h
  | some up =>
    have hstep : tree.step false ⟨dir, dir⟩ name = _ := Tree.step_dir hdir
    have hself : (tree.dir? dir).isSome := by simp [hdir]
    obtain ⟨habove, hparent⟩ := hstraight.dropLast hdir
    split_ifs at hstep with hdot hup
    · rw [hstep] at h
      simp [hstraight.not_link, hself] at h
    · rw [hstep] at h
      simp [habove.not_link, hparent] at h
    · refine ⟨?_, rfl, hdot, hup⟩
      split at h
      · split_ifs at h
        exact (Except.ok.inj h) ▸ rfl
      · cases h
      · split_ifs at h
        exact (Except.ok.inj h) ▸ rfl

/-- An open that succeeds walks straight to a directory, above a last name. -/
theorem walked_of_opened {opened : Opened ι}
    (h : open_resolving_no_symlinks tree how resolved = .ok opened) :
    (tree.resolve (above resolved)).outcome = .ok opened.dir ∧
      (∃ path, tree.Straight path opened.dir) ∧ (tree.dir? opened.dir).isSome ∧
      ∃ name, last? resolved = some name ∧ name ≠ dotdot := by
  unfold open_resolving_no_symlinks at h
  split at h
  · cases h
  · next last hlast =>
    split at h
    · next dir hwalked =>
      obtain ⟨path, hstraight⟩ := Tree.straight_of_walkWith (.root) hwalked
      obtain ⟨heq, hdir, hdot, hup⟩ := dir_of_openIn hstraight h
      have hnamed : named resolved = parts resolved := by
        obtain ⟨front, hfront⟩ := List.getLast?_eq_some_iff.1 hlast
        rw [named, hfront, List.rdropWhile_concat_neg _ _ _ (by simpa using hdot)]
      refine ⟨?_, ⟨path, heq ▸ hstraight⟩, heq ▸ hdir, last, ?_, hup⟩
      · rw [above, hnamed, hwalked, heq]
      · rw [last?, hnamed, hlast]
    · cases h
    · cases h

/-- A log opens in the directory its parent leads to. -/
theorem dir_of_opened {opened : Opened ι}
    (h : open_resolving tree how log ROOT_UID = .ok opened) :
    (lexically tree log).outcome = .ok opened.dir ∧
      (∃ path, tree.Straight path opened.dir) ∧ (tree.dir? opened.dir).isSome := by
  unfold open_resolving at h
  split at h
  · cases h
  · next resolved hanswer =>
    obtain ⟨hreached, hstraight, hdir, name, hname, hup⟩ := walked_of_opened h
    refine ⟨?_, hstraight, hdir⟩
    cases hlast : last? log with
    | none =>
      rw [resolve_parent_bare _ _ (.inl hlast)] at hanswer
      obtain rfl := Except.ok.inj hanswer
      rw [(above_absolute log).2, hlast] at hname
      cases hname
    | some last =>
      by_cases hbare : last = dotdot
      · rw [resolve_parent_bare _ _ (.inr (hbare ▸ hlast))] at hanswer
        obtain rfl := Except.ok.inj hanswer
        rw [(above_absolute log).2, hlast] at hname
        exact absurd (Option.some.inj hname ▸ hbare) hup
      · obtain ⟨-, path, dir, hout, hpath, habove, -⟩ := answer_named hlast hbare hanswer
        rw [habove, hpath.resolve] at hreached
        rw [hout, Except.ok.inj hreached]

theorem root_of_followed :
    ∀ link ∈ (resolve_parent tree log ROOT_UID).followed, (tree.inode link).owner = ROOT_UID := by
  intro link hlink
  cases hlast : last? log with
  | none => simp [resolve_parent_bare _ _ (.inl hlast)] at hlink
  | some name =>
    by_cases hup : name = dotdot
    · rw [resolve_parent_bare _ _ (.inr (hup ▸ hlast))] at hlink
      cases hlink
    · obtain ⟨_, -, hresolve⟩ := resolve_parent_named tree ROOT_UID hlast hup
      rw [hresolve] at hlink
      exact trusted_root ((followed_resolveLoop MAX_LINKS _ _).2 link hlink)

/-- **Root writes below safe directories alone**, of a path that is accepted
and opens, if and only if the directories its own text does not name are
safe: those are not looked at. -/
theorem guarded_iff (tree : Tree ι δ) (log : Name) (how : LogOpen) (opened : Opened ι)
    (haccepted : check_log_ancestry_as tree log ROOT_UID = .ok ())
    (hopened : open_resolving tree how log ROOT_UID = .ok opened) :
    Guarded tree log opened ↔ Covered tree log := by
  obtain ⟨hplace, ⟨path, hstraight⟩, hdir⟩ := dir_of_opened hopened
  constructor
  · intro h place dir hout hwithin _
    obtain rfl := Except.ok.inj (hplace.symm.trans hout)
    exact h.1 dir hwithin
  · refine fun h => ⟨fun dir hwithin => ?_, root_of_followed⟩
    by_cases hnamed : ∃ ancestor ∈ ancestors log, tree.lstat ancestor = .ok dir
    · obtain ⟨ancestor, hmem, hlstat⟩ := hnamed
      exact safe_of_not_loose (hwithin.isDir hstraight hdir)
        (not_loose_of_accepted haccepted hmem hlstat)
    · exact h opened.dir dir hplace hwithin fun ancestor hmem hlstat =>
        hnamed ⟨ancestor, hmem, hlstat⟩

/-- Root's link `/v` into uid 1000's directory below a `/t` that every user
may write, and root's link `/l` to root's `/s`. -/
def linkedTree : Tree ℕ Unit := .ofList
  [⟨0, 0o755, .dir 0 [([0x76], 1), ([0x74], 2), ([0x6C], 4), ([0x73], 5)]⟩,
    ⟨0, 0o777, .link [slash, 0x74, slash, 0x78]⟩, ⟨0, 0o777, .dir 0 [([0x78], 3)]⟩,
    ⟨1000, 0o755, .dir 2 []⟩, ⟨0, 0o777, .link [0x73]⟩, ⟨0, 0o755, .dir 0 []⟩] (by decide)

theorem guarded_iff_linked :
    check_log_ancestry_as linkedTree [slash, 0x6C, slash, 0x61] ROOT_UID = .ok () ∧
      open_resolving linkedTree .AppendCreating [slash, 0x6C, slash, 0x61] ROOT_UID =
        .ok ⟨5, none⟩ ∧
      (Guarded linkedTree [slash, 0x6C, slash, 0x61] ⟨5, none⟩ ↔
        Covered linkedTree [slash, 0x6C, slash, 0x61]) :=
  ⟨by decide, by decide, guarded_iff linkedTree [slash, 0x6C, slash, 0x61] .AppendCreating
    ⟨5, none⟩ (by decide) (by decide)⟩

/-- A log below `/v` is accepted and opens in `/t/x`, which is uid 1000's. -/
theorem unguarded_link :
    check_log_ancestry_as linkedTree [slash, 0x76, slash, 0x61] ROOT_UID = .ok () ∧
      open_resolving linkedTree .AppendCreating [slash, 0x76, slash, 0x61] ROOT_UID =
        .ok ⟨3, none⟩ ∧
      ¬ Guarded linkedTree [slash, 0x76, slash, 0x61] ⟨3, none⟩ :=
  ⟨by decide, by decide, fun h => absurd (h.1 3 (.self 3)) (by decide)⟩

end LogPath

end Shep
