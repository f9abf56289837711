import Mathlib.Data.List.DropRight
import Mathlib.Logic.Basic

/-!
# File trees and path resolution

Directories, files and symbolic links by inode, and the walk a kernel takes
over the components of a path. A walk counts the links it follows and keeps
the ones it met. A name is its bytes.
-/

namespace Shep

namespace FileTree

/-- A name or a path, as bytes. -/
abbrev Name := List UInt8

def slash : UInt8 := 0x2F

/-- `.` -/
def dot : Name := [0x2E]

/-- `..` -/
def dotdot : Name := [0x2E, 0x2E]

/-- The components of a path text. A trailing slash asks for a directory, as
`.` does. -/
def parts (text : Name) : List Name :=
  (text.splitOn slash).filter (· ≠ []) ++ if text.getLast? = some slash then [dot] else []

/-- The components of a path that name something, `..` among them. -/
def names (path : Name) : List Name :=
  (path.splitOn slash).filter fun part => part ≠ [] ∧ part ≠ dot

/-- The components `Path::components` of `std` reads: a root is the slash alone, and a dot is one only
where it leads a relative path. -/
def components (path : Name) : List Name :=
  (if path.head? = some slash then [[slash]]
    else if (path.splitOn slash).head? = some dot then [dot] else []) ++ names path

/-! ## Trees -/

/-- What an inode is. -/
inductive Kind (ι δ : Type*) where
  | dir (parent : ι) (entries : List (Name × ι))
  | file (data : δ)
  | link (target : Name)
  | special
  deriving Repr

/-- An inode. -/
structure Inode (ι δ : Type*) where
  owner : Nat
  mode : Nat
  kind : Kind ι δ
  deriving Repr

/-- What `.` and the names of a directory lead to: its parent and entries. -/
def Kind.dir? {ι δ : Type*} : Kind ι δ → Option (ι × List (Name × ι))
  | .dir parent entries => some (parent, entries)
  | _ => none

/-- Where a symbolic link leads. -/
def Kind.target? {ι δ : Type*} : Kind ι δ → Option Name
  | .link target => some target
  | _ => none

/-- A file tree: its root is its own parent, and a directory's parent is the
one directory that names it. -/
structure Tree (ι δ : Type*) where
  root : ι
  inode : ι → Inode ι δ
  rootDir : ∃ entries, (inode root).kind.dir? = some (root, entries)
  parents : ∀ dir up entries name child above below, (inode dir).kind.dir? = some (up, entries) →
    entries.lookup name = some child → (inode child).kind.dir? = some (above, below) → above = dir

variable {ι δ : Type*} (tree : Tree ι δ)

namespace Tree

/-- The parent and entries of a directory. -/
def dir? (i : ι) : Option (ι × List (Name × ι)) := (tree.inode i).kind.dir?

/-- The target of a link. -/
def target? (i : ι) : Option Name := (tree.inode i).kind.target?

end Tree

/-! ## Walks -/

/-- Why a walk stopped. -/
inductive Halt where
  | missing
  | notDirectory
  | loop
  deriving Repr, DecidableEq

/-- A walk: the links it met, in order, and what it came to. -/
structure Walked (ι : Type*) where
  met : List ι
  outcome : Except Halt ι
  deriving Repr

/-- A walk that met a link first. -/
def Walked.behind {ι : Type*} (link : ι) (w : Walked ι) : Walked ι := ⟨link :: w.met, w.outcome⟩

/-- Where a walk stands, and the directory it found that place in. -/
structure Spot (ι : Type*) where
  place : ι
  holder : ι

namespace Tree

/-- One component of a path. Asked of a file, `.` and `..` stop a walk as any
name does; a lexical walk has them of the directory that holds the file. -/
def step (lexical : Bool) (spot : Spot ι) (part : Name) : Except Halt (Spot ι) :=
  match tree.dir? spot.place with
  | some (parent, entries) =>
    if part = dot then .ok spot
    else if part = dotdot then .ok ⟨parent, parent⟩
    else match entries.lookup part with
      | some found => .ok ⟨found, spot.place⟩
      | none => .error .missing
  | none =>
    if lexical = true ∧ part = dot then .ok spot
    else if lexical = true ∧ part = dotdot then .ok ⟨spot.holder, spot.holder⟩
    else .error .notDirectory

/-- The directory a link's target is read from. -/
def start (target : Name) (spot : Spot ι) : ι :=
  if target.head? = some slash then tree.root else spot.holder

/-- The walk up to the first link, and what is done of the rest behind it. -/
def walkWith (lexical : Bool) (follow : ι → List Name → Walked ι) :
    Spot ι → List Name → Walked ι
  | spot, [] => ⟨[], .ok spot.place⟩
  | spot, part :: rest =>
    match tree.step lexical spot part with
    | .error halt => ⟨[], .error halt⟩
    | .ok next =>
      match tree.target? next.place with
      | some target => (follow (tree.start target next) (parts target ++ rest)).behind next.place
      | none => walkWith lexical follow next rest

/-- The walk from a directory, with so many links left to follow. -/
def walk (lexical : Bool) : Nat → ι → List Name → Walked ι
  | 0, dir => tree.walkWith lexical (fun _ _ => ⟨[], .error .loop⟩) ⟨dir, dir⟩
  | left + 1, dir => tree.walkWith lexical (walk lexical left) ⟨dir, dir⟩

/-- The most links one resolution follows. -/
def maxSymlinks : Nat := 40

/-- The kernel's resolution of an absolute path. -/
def resolve (path : List Name) : Walked ι := tree.walk false maxSymlinks tree.root path

/-- `lstat`: the last component is not followed. -/
def lstat (path : List Name) : Except Halt ι :=
  match path.getLast? with
  | none => .ok tree.root
  | some last =>
    match (tree.resolve path.dropLast).outcome with
    | .error halt => .error halt
    | .ok dir => (tree.step false ⟨dir, dir⟩ last).map Spot.place

end Tree

/-! ## Rules -/

namespace Tree

variable {tree} {lexical : Bool} {follow : ι → List Name → Walked ι} {spot next : Spot ι}
variable {part : Name} {path rest : List Name} {i : ι}

/-- A directory is not a link. -/
theorem target?_of_dir? {up : ι × List (Name × ι)} (h : tree.dir? i = some up) :
    tree.target? i = none := by
  unfold dir? Kind.dir? at h
  unfold target? Kind.target?
  cases hkind : (tree.inode i).kind <;> simp_all

/-- The root is a directory, its own parent. -/
theorem dir?_root : ∃ entries, tree.dir? tree.root = some (tree.root, entries) := tree.rootDir

/-- What a step out of a directory comes to. -/
theorem step_dir {parent : ι} {entries : List (Name × ι)}
    (h : tree.dir? spot.place = some (parent, entries)) :
    tree.step lexical spot part =
      if part = dot then .ok spot
      else if part = dotdot then .ok ⟨parent, parent⟩
      else match entries.lookup part with
        | some found => .ok ⟨found, spot.place⟩
        | none => .error .missing := by
  rw [step, h]

/-- The kernel finds nothing below a file. -/
theorem step_file (h : tree.dir? spot.place = none) :
    tree.step false spot part = .error .notDirectory := by
  rw [step, h]
  simp

/-- Either walk looks a name up in the same way. -/
theorem step_name (hdot : part ≠ dot) (hup : part ≠ dotdot) :
    tree.step lexical spot part = tree.step false spot part := by
  cases hdir : tree.dir? spot.place <;> simp [step, hdir, hdot, hup]

/-- A name is found in a directory. -/
theorem dir_of_step (hdot : part ≠ dot) (hup : part ≠ dotdot)
    (h : tree.step lexical spot part = .ok next) :
    ∃ above entries, tree.dir? spot.place = some (above, entries) ∧
      entries.lookup part = some next.place ∧ next.holder = spot.place := by
  rw [step_name hdot hup] at h
  cases hdir : tree.dir? spot.place with
  | none => rw [step_file hdir] at h; cases h
  | some up =>
    refine ⟨up.1, up.2, rfl, ?_⟩
    rw [step_dir hdir, if_neg hdot, if_neg hup] at h
    cases hfound : up.2.lookup part with
    | none => rw [hfound] at h; cases h
    | some found =>
      rw [hfound] at h
      obtain rfl := Except.ok.inj h
      exact ⟨rfl, rfl⟩

theorem walkWith_error {halt : Halt} (h : tree.step lexical spot part = .error halt) :
    tree.walkWith lexical follow spot (part :: rest) = ⟨[], .error halt⟩ := by
  rw [walkWith, h]

theorem walkWith_link {target : Name} (h : tree.step lexical spot part = .ok next)
    (hlink : tree.target? next.place = some target) :
    tree.walkWith lexical follow spot (part :: rest) =
      (follow (tree.start target next) (parts target ++ rest)).behind next.place := by
  rw [walkWith, h]
  simp only [hlink]

theorem walkWith_ok (h : tree.step lexical spot part = .ok next)
    (hlink : tree.target? next.place = none) :
    tree.walkWith lexical follow spot (part :: rest) =
      tree.walkWith lexical follow next rest := by
  rw [walkWith, h]
  simp only [hlink]

/-! ### Links met -/

/-! ### Straight paths -/

/-- A path of names through directories alone, and what it names. -/
inductive Straight (tree : Tree ι δ) : List Name → ι → Prop
  | root : Straight tree [] tree.root
  | down {path : List Name} {dir parent found : ι} {entries : List (Name × ι)} {part : Name} :
      Straight tree path dir → tree.dir? dir = some (parent, entries) → part ≠ dot →
      part ≠ dotdot → entries.lookup part = some found → tree.target? found = none →
      Straight tree (path ++ [part]) found

/-- A walk down a straight path meets no link and stands where it leads. -/
theorem Straight.walkWith (h : Straight tree path i) (holder : ι) (rest : List Name) :
    ∃ holder', tree.walkWith lexical follow ⟨tree.root, holder⟩ (path ++ rest) =
      tree.walkWith lexical follow ⟨i, holder'⟩ rest := by
  induction h generalizing rest with
  | root => exact ⟨holder, rfl⟩
  | @down path dir parent found entries part _ hdir hdot hup hfound hlink ih =>
    obtain ⟨above, hwalk⟩ := ih ([part] ++ rest)
    refine ⟨dir, ?_⟩
    rw [List.append_assoc, hwalk]
    refine walkWith_ok ?_ hlink
    rw [step_dir hdir, if_neg hdot, if_neg hup, hfound]

/-- The kernel reaches what a straight path names. -/
theorem Straight.resolve (h : Straight tree path i) : tree.resolve path = ⟨[], .ok i⟩ := by
  obtain ⟨holder, hwalk⟩ : ∃ holder, tree.resolve (path ++ []) =
      tree.walkWith false (tree.walk false 39) ⟨i, holder⟩ [] := h.walkWith tree.root []
  rw [List.append_nil] at hwalk
  exact hwalk

/-- `lstat` below a straight path looks the name up where that leads. -/
theorem Straight.lstat (h : Straight tree path i) (holder : ι) (part : Name) :
    tree.lstat (path ++ [part]) = (tree.step false ⟨i, holder⟩ part).map Spot.place := by
  rw [Tree.lstat, List.getLast?_concat, List.dropLast_concat, h.resolve]
  show (tree.step false ⟨i, i⟩ part).map Spot.place = _
  cases hdir : tree.dir? i with
  | none => rw [step_file hdir, step_file hdir]
  | some up => rw [step_dir hdir, step_dir hdir]; split_ifs <;> rfl

/-- A straight path does not end at a link. -/
theorem Straight.not_link (h : Straight tree path i) : tree.target? i = none := by
  cases h with
  | root =>
    obtain ⟨_, hroot⟩ := tree.dir?_root
    exact target?_of_dir? hroot
  | down _ _ _ _ _ hlink => exact hlink

/-- `lstat` of a straight path finds what it names. -/
theorem Straight.lstat_self (h : Straight tree path i) : tree.lstat path = .ok i := by
  cases h with
  | root => rfl
  | @down path dir parent found entries part hpath hdir hdot hup hfound hlink =>
    rw [hpath.lstat dir, step_dir hdir, if_neg hdot, if_neg hup, hfound]
    rfl

/-- A name `lstat` finds below a straight path goes on it, unless it is a link. -/
theorem Straight.child {dir : ι} (h : Straight tree path dir) (hdot : part ≠ dot)
    (hup : part ≠ dotdot) (hfound : tree.lstat (path ++ [part]) = .ok i)
    (hlink : tree.target? i = none) :
    Straight tree (path ++ [part]) i ∧ (tree.dir? dir).isSome := by
  rw [h.lstat dir] at hfound
  cases hstep : tree.step false ⟨dir, dir⟩ part with
  | error halt => rw [hstep] at hfound; cases hfound
  | ok next =>
    rw [hstep] at hfound
    obtain rfl : next.place = i := Except.ok.inj hfound
    obtain ⟨up, entries, hdir, hlookup, -⟩ := dir_of_step hdot hup hstep
    have hdir : tree.dir? dir = some (up, entries) := hdir
    exact ⟨.down h hdir hdot hup hlookup hlink, by simp [hdir]⟩

/-- What stands above the last name of a straight path is straight. -/
theorem Straight.above (h : Straight tree path i) : ∃ dir, Straight tree path.dropLast dir := by
  cases h with
  | root => exact ⟨_, .root⟩
  | down hpath => exact ⟨_, by rwa [List.dropLast_concat]⟩

/-- Dropping the last name of a straight path leads to the parent of the
directory it named. -/
theorem Straight.dropLast {parent : ι} {entries : List (Name × ι)} (h : Straight tree path i)
    (hdir : tree.dir? i = some (parent, entries)) :
    Straight tree path.dropLast parent ∧ (tree.dir? parent).isSome := by
  cases h with
  | root =>
    obtain ⟨own, hroot⟩ := tree.dir?_root
    obtain ⟨rfl, rfl⟩ := Prod.mk.inj (Option.some.inj (hroot.symm.trans hdir))
    exact ⟨.root, by simp [hroot]⟩
  | @down path dir above found listed part hpath hup _ _ hfound _ =>
    rw [List.dropLast_concat, tree.parents dir above listed part i parent entries hup hfound hdir]
    exact ⟨hpath, by simp [hup]⟩

/-- A kernel's walk that meets no link ends where a straight path leads. -/
theorem straight_of_walkWith {from' : List Name} (hfrom : Straight tree from' spot.place)
    (h : tree.walkWith false follow spot path = ⟨[], .ok i⟩) : ∃ path', Straight tree path' i := by
  induction path generalizing spot from' with
  | nil =>
    obtain rfl : spot.place = i := Except.ok.inj (congrArg Walked.outcome h)
    exact ⟨from', hfrom⟩
  | cons part rest ih =>
    cases hdir : tree.dir? spot.place with
    | none => rw [walkWith_error (step_file hdir)] at h; cases congrArg Walked.outcome h
    | some up =>
      have hstep : tree.step false spot part = _ := step_dir hdir
      split_ifs at hstep with hdot hup
      · rw [walkWith_ok hstep hfrom.not_link] at h
        exact ih hfrom h
      · have habove := (hfrom.dropLast hdir).1
        rw [walkWith_ok hstep habove.not_link] at h
        exact ih habove h
      · cases hfound : up.2.lookup part with
        | none =>
          rw [hfound] at hstep
          rw [walkWith_error hstep] at h
          cases congrArg Walked.outcome h
        | some found =>
          rw [hfound] at hstep
          cases hlink : tree.target? found with
          | some target =>
            rw [walkWith_link hstep hlink] at h
            cases congrArg Walked.met h
          | none =>
            rw [walkWith_ok hstep hlink] at h
            exact ih (.down hfrom hdir hdot hup hfound hlink) h

/-! ### Ancestors -/

/-- A directory, or one above it. -/
inductive Within (tree : Tree ι δ) : ι → ι → Prop
  | self (dir : ι) : Within tree dir dir
  | up {dir top parent : ι} {entries : List (Name × ι)} :
      tree.dir? dir = some (parent, entries) → Within tree top parent → Within tree top dir

/-- What stands above a directory a straight path leads to is a directory. -/
theorem Within.isDir {top : ι} (h : Within tree top i) (hstraight : Straight tree path i)
    (hdir : (tree.dir? i).isSome) : (tree.dir? top).isSome := by
  induction h generalizing path with
  | self => exact hdir
  | up hup _ ih =>
    obtain ⟨habove, hparent⟩ := hstraight.dropLast hup
    exact ih habove hparent

/-! ### Lexical walks -/

/-- Two walks agree, or the first stopped below a file and the second met the
same links until there. -/
def StaysWith (k l : Walked ι) : Prop :=
  k = l ∨ k.outcome = .error .notDirectory ∧ k.met <+: l.met

theorem StaysWith.behind {k l : Walked ι} (h : StaysWith k l) (link : ι) :
    StaysWith (k.behind link) (l.behind link) := by
  obtain rfl | ⟨hout, hmet⟩ := h
  · exact .inl rfl
  · exact .inr ⟨hout, (List.prefix_cons_inj link).2 hmet⟩

/-- The kernel and a lexical walk take the same step, except where the kernel
stops below a file. -/
theorem step_lexical (spot : Spot ι) (part : Name) :
    tree.step false spot part = tree.step true spot part ∨
      tree.step false spot part = .error .notDirectory := by
  cases hdir : tree.dir? spot.place with
  | none => exact .inr (step_file hdir)
  | some up => exact .inl (by rw [step_dir hdir, step_dir hdir])

theorem staysWith_walkWith {follow' : ι → List Name → Walked ι}
    (hfollow : ∀ dir path, StaysWith (follow dir path) (follow' dir path)) :
    StaysWith (tree.walkWith false follow spot path) (tree.walkWith true follow' spot path) := by
  induction path generalizing spot with
  | nil => exact .inl rfl
  | cons part rest ih =>
    obtain heq | hstop := tree.step_lexical spot part
    · cases hstep : tree.step true spot part with
      | error halt =>
        exact .inl (by rw [walkWith_error hstep, walkWith_error (heq.trans hstep)])
      | ok next =>
        cases hlink : tree.target? next.place with
        | some target =>
          rw [walkWith_link hstep hlink, walkWith_link (heq.trans hstep) hlink]
          exact (hfollow _ _).behind _
        | none =>
          rw [walkWith_ok hstep hlink, walkWith_ok (heq.trans hstep) hlink]
          exact ih
    · rw [walkWith_error hstop]
      exact .inr ⟨rfl, List.nil_prefix⟩

/-- A lexical walk goes on where the kernel stops below a file, and nowhere
else goes another way. -/
theorem staysWith_walk (left : ℕ) (dir : ι) (path : List Name) :
    StaysWith (tree.walk false left dir path) (tree.walk true left dir path) := by
  induction left generalizing dir path with
  | zero => exact staysWith_walkWith fun _ _ => .inl rfl
  | succ left ih => exact staysWith_walkWith ih

/-! ### Dots -/

/-- The components that name something. -/
def undotted (path : List Name) : List Name := path.filter (· ≠ dot)

/-- Two walks met the same links, and come to a directory alike. -/
def Alike (tree : Tree ι δ) (a b : Walked ι) : Prop :=
  a.met = b.met ∧
    ∀ dir up, tree.dir? dir = some up → (a.outcome = .ok dir ↔ b.outcome = .ok dir)

theorem Alike.refl (a : Walked ι) : tree.Alike a a := ⟨rfl, fun _ _ _ => .rfl⟩

theorem Alike.symm {a b : Walked ι} (h : tree.Alike a b) : tree.Alike b a :=
  ⟨h.1.symm, fun dir up hdir => (h.2 dir up hdir).symm⟩

theorem Alike.trans {a b c : Walked ι} (h : tree.Alike a b) (h' : tree.Alike b c) :
    tree.Alike a c :=
  ⟨h.1.trans h'.1, fun dir up hdir => (h.2 dir up hdir).trans (h'.2 dir up hdir)⟩

theorem Alike.behind {a b : Walked ι} (h : tree.Alike a b) (link : ι) :
    tree.Alike (a.behind link) (b.behind link) :=
  ⟨congrArg (link :: ·) h.1, h.2⟩

@[simp] theorem undotted_append (path rest : List Name) :
    undotted (path ++ rest) = undotted path ++ undotted rest :=
  List.filter_append ..

@[simp] theorem undotted_undotted (path : List Name) :
    undotted (undotted path) = undotted path := by
  simp [undotted]

/-- A dot below a file stops the kernel, where the file would have been all. -/
theorem alike_dot (hdir : tree.dir? spot.place = none) (rest : List Name) :
    tree.Alike ⟨[], .error .notDirectory⟩ (tree.walkWith false follow spot (undotted rest)) := by
  cases hrest : undotted rest with
  | nil =>
    refine ⟨rfl, fun dir up hup => ⟨fun h => (by cases h), fun h => ?_⟩⟩
    obtain rfl : spot.place = dir := Except.ok.inj h
    rw [hdir] at hup
    cases hup
  | cons part more => rw [walkWith_error (step_file hdir)]; exact .refl _

theorem alike_undotted
    (hfollow : ∀ dir path path', undotted path = undotted path' →
      tree.Alike (follow dir path) (follow dir path')) :
    tree.Alike (tree.walkWith false follow spot path)
      (tree.walkWith false follow spot (undotted path)) := by
  induction path generalizing spot with
  | nil => exact .refl _
  | cons part rest ih =>
    by_cases hdot : part = dot
    · have hrest : undotted (part :: rest) = undotted rest := by simp [undotted, hdot]
      rw [hrest]
      cases hdir : tree.dir? spot.place with
      | none => rw [walkWith_error (step_file hdir)]; exact alike_dot hdir rest
      | some up =>
        have hstep : tree.step false spot part = .ok spot := by rw [step_dir hdir, if_pos hdot]
        rw [walkWith_ok hstep (target?_of_dir? hdir)]
        exact ih
    · have hrest : undotted (part :: rest) = part :: undotted rest := by simp [undotted, hdot]
      rw [hrest]
      cases hstep : tree.step false spot part with
      | error halt => rw [walkWith_error hstep, walkWith_error hstep]; exact .refl _
      | ok next =>
        cases hlink : tree.target? next.place with
        | some target =>
          rw [walkWith_link hstep hlink, walkWith_link hstep hlink]
          exact (hfollow _ _ _ (by simp)).behind _
        | none =>
          rw [walkWith_ok hstep hlink, walkWith_ok hstep hlink]
          exact ih

theorem alike_walkWith
    (hfollow : ∀ dir path path', undotted path = undotted path' →
      tree.Alike (follow dir path) (follow dir path'))
    {path' : List Name} (h : undotted path = undotted path') :
    tree.Alike (tree.walkWith false follow spot path)
      (tree.walkWith false follow spot path') := by
  have hright : tree.Alike (tree.walkWith false follow spot path')
      (tree.walkWith false follow spot (undotted path)) := by
    rw [h]
    exact alike_undotted hfollow
  exact (alike_undotted hfollow).trans hright.symm

/-- The kernel reads a path as it reads the path without its dots, as far as
links and directories go. -/
theorem alike_walk (left : ℕ) (dir : ι) {path path' : List Name}
    (h : undotted path = undotted path') :
    tree.Alike (tree.walk false left dir path) (tree.walk false left dir path') := by
  induction left generalizing dir path path' with
  | zero => exact alike_walkWith (fun _ _ _ _ => .refl _) h
  | succ left ih => exact alike_walkWith (fun dir _ _ h => ih dir h) h

end Tree

/-! ## Real paths -/

namespace Tree

/-- The real path of where a path leads, up to the first link. -/
def realWith (follow : List Name → ι → List Name → Except Halt (List Name × ι)) :
    List Name → ι → List Name → Except Halt (List Name × ι)
  | real, place, [] => .ok (real, place)
  | real, place, part :: rest =>
    match tree.step false ⟨place, place⟩ part with
    | .error halt => .error halt
    | .ok next =>
      match tree.target? next.place with
      | some target =>
        if target.head? = some slash then follow [] tree.root (parts target ++ rest)
        else follow real place (parts target ++ rest)
      | none =>
        realWith follow
          (if part = dot then real else if part = dotdot then real.dropLast else real ++ [part])
          next.place rest

/-- The real path from a directory, with so many links left to follow. -/
def real : Nat → List Name → ι → List Name → Except Halt (List Name × ι)
  | 0 => tree.realWith fun _ _ _ => .error .loop
  | left + 1 => tree.realWith (real left)

/-- `realpath`: the path without links or dots of what a path leads to. -/
def realpath (path : List Name) : Except Halt (List Name × ι) :=
  tree.real maxSymlinks [] tree.root path

variable {tree} {follow : ι → List Name → Walked ι}
variable {followReal : List Name → ι → List Name → Except Halt (List Name × ι)}
variable {path real : List Name} {place : ι}

/-- A real path for what a walk came to. -/
def Realises (tree : Tree ι δ) (walked : Walked ι) (real : Except Halt (List Name × ι)) : Prop :=
  match real with
  | .ok (path, place) => tree.Straight path place ∧ walked.outcome = .ok place
  | .error halt => walked.outcome = .error halt

theorem realises_realWith
    (hfollow : ∀ real dir path, tree.Straight real dir →
      Realises tree (follow dir path) (followReal real dir path))
    {spot : Spot ι} (hstraight : tree.Straight real spot.place) :
    Realises tree (tree.walkWith false follow spot path)
      (tree.realWith followReal real spot.place path) := by
  induction path generalizing spot real with
  | nil => exact ⟨hstraight, rfl⟩
  | cons part rest ih =>
    cases hdir : tree.dir? spot.place with
    | none =>
      rw [walkWith_error (step_file hdir), realWith, step_file (by exact hdir)]
      rfl
    | some up =>
      have hstep : tree.step false spot part = _ := step_dir hdir
      have hstep' : tree.step false ⟨spot.place, spot.place⟩ part = _ := step_dir hdir
      split_ifs at hstep hstep' with hdot hup
      · rw [walkWith_ok hstep hstraight.not_link, realWith, hstep']
        simp only [hstraight.not_link, if_pos hdot]
        exact ih hstraight
      · have habove := (hstraight.dropLast hdir).1
        rw [walkWith_ok hstep habove.not_link, realWith, hstep']
        simp only [habove.not_link, if_neg hdot, if_pos hup]
        exact ih habove
      · cases hfound : up.2.lookup part with
        | none =>
          simp only [hfound] at hstep hstep'
          rw [walkWith_error hstep, realWith, hstep']
          rfl
        | some found =>
          simp only [hfound] at hstep hstep'
          cases hlink : tree.target? found with
          | some target =>
            rw [walkWith_link hstep hlink, realWith, hstep']
            simp only [hlink, start]
            split_ifs with habs
            · exact hfollow [] tree.root _ .root
            · exact hfollow real spot.place _ hstraight
          | none =>
            rw [walkWith_ok hstep hlink, realWith, hstep']
            simp only [hlink, if_neg hdot, if_neg hup]
            exact ih (.down hstraight hdir hdot hup hfound hlink)

/-- **A real path is straight**, and leads where the kernel's walk does. -/
theorem realises_real (left : ℕ) (hstraight : tree.Straight real place) (path : List Name) :
    Realises tree (tree.walk false left place path) (tree.real left real place path) := by
  induction left generalizing real place path with
  | zero =>
    refine realises_realWith (fun _ _ _ _ => ?_) hstraight
    exact (rfl : (Except.error Halt.loop : Except Halt ι) = .error .loop)
  | succ left ih => exact realises_realWith (fun _ _ path h => ih h path) hstraight

theorem straight_of_realpath (h : tree.realpath path = .ok (real, place)) :
    tree.Straight real place ∧ (tree.resolve path).outcome = .ok place := by
  have hreal : Realises tree (tree.resolve path) (tree.realpath path) :=
    realises_real maxSymlinks .root path
  rw [h] at hreal
  exact hreal

end Tree

/-! ## Texts -/

/-- The text of an absolute path. -/
def text (names : List Name) : Name := slash :: [slash].intercalate names

/-- What may stand between two slashes and name something. -/
def IsName (name : Name) : Prop := name ≠ [] ∧ slash ∉ name

theorem isName_dot : IsName dot := ⟨by decide, by decide⟩

/-- No piece of a split holds what it was split on. -/
theorem not_mem_of_mem_splitOn {sep : UInt8} {line piece : List UInt8}
    (h : piece ∈ line.splitOn sep) : sep ∉ piece := by
  induction line generalizing piece with
  | nil =>
    rw [List.splitOn_nil, List.mem_singleton] at h
    simp [h]
  | cons byte rest ih =>
    obtain ⟨first, others, hsplit⟩ := List.exists_cons_of_ne_nil (List.splitOn_ne_nil sep rest)
    rw [List.splitOn_cons_eq_if_modifyHead, hsplit] at h
    rw [hsplit] at ih
    split_ifs at h with hbyte
    · rcases List.mem_cons.1 h with rfl | hpiece
      · exact List.not_mem_nil
      · exact ih hpiece
    · rcases List.mem_cons.1 h with rfl | hpiece
      · have hne : sep ≠ byte := fun heq => hbyte (by simp [heq])
        simpa [hne] using ih List.mem_cons_self
      · exact ih (List.mem_cons_of_mem _ hpiece)

/-- Every component of a path is a name. -/
theorem isName_of_mem_parts {line part : Name} (h : part ∈ parts line) : IsName part := by
  rcases List.mem_append.1 h with h | h
  · obtain ⟨hmem, hne⟩ := List.mem_filter.1 h
    exact ⟨by simpa using hne, not_mem_of_mem_splitOn hmem⟩
  · split_ifs at h
    · obtain rfl := List.mem_singleton.1 h
      exact isName_dot
    · exact absurd h List.not_mem_nil

theorem filter_isName {names : List Name} (h : ∀ name ∈ names, IsName name) :
    names.filter (· ≠ []) = names :=
  List.filter_eq_self.2 fun name hname => by simpa using (h name hname).1

theorem splitOn_text {names : List Name} (h : ∀ name ∈ names, IsName name) (hne : names ≠ []) :
    (text names).splitOn slash = [] :: names := by
  rw [text, ← List.nil_append (slash :: _), List.splitOn_append_cons_self,
    List.splitOn_intercalate slash (fun name hname => (h name hname).2) hne]
  rfl

/-- The last byte of a path's text is its last name's. -/
theorem getLast?_text {names : List Name} {name : Name} (h : IsName name) :
    (text (names ++ [name])).getLast? = name.getLast? := by
  have hlast : ∀ front : List Name, ∃ before, [slash].intercalate (front ++ [name]) =
      before ++ name := by
    intro front
    induction front with
    | nil => exact ⟨[], by simp [List.intercalate]⟩
    | cons first others ih =>
      obtain ⟨before, hbefore⟩ := ih
      refine ⟨first ++ slash :: before, ?_⟩
      rw [List.cons_append, List.intercalate_cons_of_ne_nil (by simp), hbefore]
      simp
  obtain ⟨before, hbefore⟩ := hlast names
  rw [text, hbefore, ← List.cons_append, List.getLast?_append_of_ne_nil _ h.1]

/-- The text of a path of names has these components. -/
theorem parts_text {names : List Name} (h : ∀ name ∈ names, IsName name) (hne : names ≠ []) :
    parts (text names) = names := by
  obtain ⟨front, last, rfl⟩ : ∃ front last, names = front ++ [last] :=
    ⟨_, _, (List.dropLast_append_getLast hne).symm⟩
  have hlast : IsName last := h last (by simp)
  rw [parts, splitOn_text h hne, getLast?_text hlast, if_neg]
  · rw [List.filter_cons_of_neg (by simp), filter_isName h, List.append_nil]
  · exact fun hslash => hlast.2 (List.mem_of_getLast? hslash)

/-- With a slash behind it, the text of a path asks for a directory. -/
theorem parts_text_slash {names : List Name} (h : ∀ name ∈ names, IsName name)
    (hne : names ≠ []) : parts (text names ++ [slash]) = names ++ [dot] := by
  rw [parts, List.getLast?_concat, if_pos rfl, List.splitOn_append_cons_self, splitOn_text h hne,
    List.splitOn_nil, List.filter_append, List.filter_cons_of_neg (by simp), filter_isName h]
  simp

/-! ## Trees by number -/

section Numbered

variable {inodes : List (Inode ℕ δ)}

/-- The inode of a number. -/
def inodeAt (inodes : List (Inode ℕ δ)) (i : ℕ) : Inode ℕ δ := inodes.getD i ⟨0, 0, .special⟩

/-- Whether a directory's entries have it for their parent. -/
def holds (inodes : List (Inode ℕ δ)) (dir : ℕ) : Bool :=
  match (inodeAt inodes dir).kind.dir? with
  | none => true
  | some (_, entries) => entries.all fun entry =>
    match (inodeAt inodes entry.2).kind.dir? with
    | none => true
    | some (up, _) => up == dir

/-- Whether inodes listed from the root are a tree. -/
def isTree (inodes : List (Inode ℕ δ)) : Bool :=
  ((inodeAt inodes 0).kind.dir?.map Prod.fst == some 0) &&
    (List.range inodes.length).all (holds inodes)

/-- The tree of a list of inodes. -/
def Tree.ofList (inodes : List (Inode ℕ δ)) (h : isTree inodes = true) : Tree ℕ δ where
  root := 0
  inode := inodeAt inodes
  rootDir := by
    have hroot : (inodeAt inodes 0).kind.dir?.map Prod.fst = some 0 := by
      simpa using (Bool.and_eq_true_iff.1 h).1
    obtain ⟨⟨up, entries⟩, hdir, rfl⟩ := Option.map_eq_some_iff.1 hroot
    exact ⟨entries, hdir⟩
  parents := by
    intro dir up entries name child above below hdir hchild habove
    have hlt : dir < inodes.length := by
      by_contra hge
      rw [inodeAt, List.getD_eq_getElem?_getD, List.getElem?_eq_none (by omega)] at hdir
      cases hdir
    have hholds : holds inodes dir = true :=
      List.all_eq_true.1 (Bool.and_eq_true_iff.1 h).2 dir (List.mem_range.2 hlt)
    obtain ⟨before, after, hsplit, -⟩ := List.lookup_eq_some_iff.1 hchild
    rw [holds, hdir] at hholds
    have hentry := List.all_eq_true.1 hholds (name, child) (by rw [hsplit]; simp)
    simpa [habove] using hentry

end Numbered

end FileTree

end Shep
