import Shep.Common.FileTree

/-!
# LogPath — trusted links

`runner/trusted_links.rs`: a log path's parent resolved link by link ahead
of the open, and the readings of a `Path` it uses. A path without the dots
and doubled slashes that `Path` drops is held as its components.
-/

namespace Shep

namespace LogPath

open FileTree

/-! ## Paths -/

/-- `Path::parent`, as its components. -/
def parent (path : Name) : Option (List Name) :=
  match (components path).getLast? with
  | none => none
  | some last => if last = [slash] then none else some (components path).dropLast

/-- `Path::file_name` -/
def file_name (path : Name) : Option Name :=
  (components path).getLast?.filter fun last => last ≠ [slash] ∧ last ≠ dot ∧ last ≠ dotdot

/-- `std::path::absolute` of a path that is absolute: two leading slashes
stay, and so does a trailing one. -/
def absolute (path : Name) : Name :=
  (if path.take 2 = [slash, slash] ∧ path.take 3 ≠ [slash, slash, slash] then [slash] else []) ++
    text (names path) ++
    if path.getLast? = some slash ∧ names path ≠ [] then [slash] else []

/-! ## The resolution -/

/-- `ROOT_UID` -/
def ROOT_UID : Nat := 0

/-- `is_trusted_owner` -/
def is_trusted_owner (owner daemon_uid : Nat) : Bool := owner == daemon_uid || owner == ROOT_UID

/-- `MAX_LINKS` -/
def MAX_LINKS : Nat := 40

/-- Why a resolution failed: an `lstat` that did, with `ELOOP` past the last
link among its errors, or `PermissionDenied` for a link and its owner. -/
inductive Refusal where
  | os (halt : Halt)
  | permissionDenied (candidate : List Name) (owner : Nat)
  deriving Repr, DecidableEq

/-- A resolution: the links it read, in order, and its answer. -/
structure Resolution (ι α : Type*) where
  followed : List ι
  answer : Except Refusal α
  deriving Repr

variable {ι δ : Type*}

/-- A resolution that read a link first. -/
def Resolution.behind {α : Type*} (link : ι) (r : Resolution ι α) : Resolution ι α :=
  ⟨link :: r.followed, r.answer⟩

/-- The loop of `resolve_parent` up to the next link it may follow; `again`
takes the link, the directory resolved so far and what is pending then. -/
def untilLink (tree : Tree ι δ) (daemon_uid : Nat)
    (again : ι → List Name → List Name → Resolution ι (List Name)) :
    List Name → List Name → Resolution ι (List Name)
  | resolved, [] => ⟨[], .ok resolved⟩
  | resolved, part :: pending =>
    if part = [slash] then untilLink tree daemon_uid again [] pending
    else if part = dot then untilLink tree daemon_uid again resolved pending
    else if part = dotdot then untilLink tree daemon_uid again resolved.dropLast pending
    else
      let candidate := resolved ++ [part]
      match tree.lstat candidate with
      | .error halt => ⟨[], .error (.os halt)⟩
      | .ok found =>
        match tree.target? found with
        | none => untilLink tree daemon_uid again candidate pending
        | some target =>
          if is_trusted_owner (tree.inode found).owner daemon_uid then
            again found resolved (components target ++ pending)
          else ⟨[], .error (.permissionDenied candidate (tree.inode found).owner)⟩

/-- The loop of `resolve_parent`, with so many links left before `ELOOP`. -/
def resolveLoop (tree : Tree ι δ) (daemon_uid : Nat) :
    Nat → List Name → List Name → Resolution ι (List Name)
  | 0 => untilLink tree daemon_uid fun _ _ _ => ⟨[], .error (.os .loop)⟩
  | left + 1 => untilLink tree daemon_uid fun link resolved pending =>
      (resolveLoop tree daemon_uid left resolved pending).behind link

/-- `resolve_parent` of an absolute path. -/
def resolve_parent (tree : Tree ι δ) (path : Name) (daemon_uid : Nat) : Resolution ι Name :=
  let absolute := absolute path
  match parent absolute, file_name absolute with
  | some parent, some name =>
    let r := resolveLoop tree daemon_uid MAX_LINKS [] parent
    ⟨r.followed, r.answer.map fun resolved =>
      text (resolved ++ [name]) ++ if absolute.getLast? = some slash then [slash] else []⟩
  | _, _ => ⟨[], .ok absolute⟩

end LogPath

end Shep

/-!
## The resolution mirrors a lexical walk

The loop of `resolve_parent` beside the kernel's walk over the same
components. What it has resolved is a straight path to where the walk
stands; where the kernel stops below a file the loop goes on, as a lexical
walk does.
-/

namespace Shep

namespace LogPath

open FileTree

variable {ι δ : Type*} {tree : Tree ι δ} {uid : ℕ} {lexical : Bool}
variable {spot next : Spot ι} {link i : ι} {part target : Name} {path pending resolved : List Name}

/-! ## Where the loop stands -/

/-- The resolved path leads straight to where the walk stands, and without
its last name to the directory that holds it. -/
structure Stands (tree : Tree ι δ) (resolved : List Name) (spot : Spot ι) : Prop where
  straight : tree.Straight resolved spot.place
  held : tree.dir? spot.place = none →
    tree.Straight resolved.dropLast spot.holder ∧ (tree.dir? spot.holder).isSome
  named : ∀ name ∈ resolved, IsName name

theorem stands_dir (h : tree.Straight resolved i) (hdir : (tree.dir? i).isSome)
    (hnames : ∀ name ∈ resolved, IsName name) (holder : ι) : Stands tree resolved ⟨i, holder⟩ where
  straight := h
  held hnone := by
    rw [show tree.dir? i = none from hnone] at hdir
    cases hdir
  named := hnames

/-- Dropping the last name is `..`, of a directory and of a file. -/
theorem Stands.dotdot (h : Stands tree resolved spot) :
    ∃ next, tree.step true spot dotdot = .ok next ∧ tree.target? next.place = none ∧
      Stands tree resolved.dropLast next := by
  have hnames : ∀ name ∈ resolved.dropLast, IsName name := fun name hname =>
    h.named name (List.dropLast_subset _ hname)
  cases hdir : tree.dir? spot.place with
  | none =>
    obtain ⟨hstraight, hholder⟩ := h.held hdir
    refine ⟨⟨spot.holder, spot.holder⟩, ?_, hstraight.not_link,
      stands_dir hstraight hholder hnames _⟩
    simp [Tree.step, hdir, FileTree.dotdot, dot]
  | some up =>
    obtain ⟨hstraight, habove⟩ := h.straight.dropLast hdir
    refine ⟨⟨up.1, up.1⟩, ?_, hstraight.not_link, stands_dir hstraight habove hnames _⟩
    rw [Tree.step_dir hdir]
    simp [FileTree.dotdot, dot]

theorem step_dot (spot : Spot ι) : tree.step true spot dot = .ok spot := by
  cases hdir : tree.dir? spot.place <;> simp [Tree.step, hdir]

theorem Stands.name (h : Stands tree resolved spot) (hname : IsName part) (hdot : part ≠ dot)
    (hup : part ≠ FileTree.dotdot) (hstep : tree.step true spot part = .ok next)
    (hlink : tree.target? next.place = none) : Stands tree (resolved ++ [part]) next := by
  obtain ⟨above, entries, hdir, hfound, hholder⟩ := Tree.dir_of_step hdot hup hstep
  refine ⟨.down h.straight hdir hdot hup hfound hlink, fun _ => ?_, ?_⟩
  · rw [List.dropLast_concat, hholder]
    exact ⟨h.straight, by simp [hdir]⟩
  · intro name hmem
    rcases List.mem_append.1 hmem with hmem | hmem
    · exact h.named name hmem
    · exact List.mem_singleton.1 hmem ▸ hname

theorem Stands.lstat (h : Stands tree resolved spot) (hdot : part ≠ dot)
    (hup : part ≠ FileTree.dotdot) :
    tree.lstat (resolved ++ [part]) = (tree.step true spot part).map Spot.place := by
  rw [h.straight.lstat spot.holder]
  exact congrArg (Except.map Spot.place) (Tree.step_name hdot hup).symm

/-! ## Mirrors -/

/-- A link owned by the daemon's user or by root. -/
def Trusted (tree : Tree ι δ) (uid : ℕ) (link : ι) : Prop :=
  is_trusted_owner (tree.inode link).owner uid = true

instance (tree : Tree ι δ) (uid : ℕ) (link : ι) : Decidable (Trusted tree uid link) :=
  inferInstanceAs (Decidable (_ = true))

/-- An answer of the loop for what a walk came to. -/
def Answers (tree : Tree ι δ) : Except Halt ι → Except Refusal (List Name) → Prop
  | .ok place, .ok resolved => tree.Straight resolved place ∧ ∀ name ∈ resolved, IsName name
  | .error halt, .error (.os halt') => halt = halt'
  | _, _ => False

/-- The loop answers for a walk that met trusted links alone, and refuses the
first link of another owner, having read those before it. -/
structure Mirrors (tree : Tree ι δ) (uid : ℕ) (k : Walked ι) (c : Resolution ι (List Name)) :
    Prop where
  answers : (∀ link ∈ k.met, Trusted tree uid link) → Answers tree k.outcome c.answer
  refuses : ∀ before link after, k.met = before ++ link :: after →
    (∀ link ∈ before, Trusted tree uid link) → ¬ Trusted tree uid link →
    c.followed = before ∧ ∃ candidate, tree.lstat candidate = .ok link ∧
      c.answer = .error (.permissionDenied candidate (tree.inode link).owner)

theorem Mirrors.behind {k : Walked ι} {c : Resolution ι (List Name)} (h : Mirrors tree uid k c)
    (hlink : Trusted tree uid link) : Mirrors tree uid (k.behind link) (c.behind link) where
  answers hall := h.answers fun other hmem => hall other (List.mem_cons_of_mem _ hmem)
  refuses before first after hmet hbefore hfirst := by
    cases before with
    | nil =>
      obtain ⟨rfl, -⟩ := List.cons.inj hmet
      exact absurd hlink hfirst
    | cons head before =>
      obtain ⟨rfl, hrest⟩ := List.cons.inj hmet
      obtain ⟨hfollowed, hanswer⟩ := h.refuses before first after hrest
        (fun other hmem => hbefore other (List.mem_cons_of_mem _ hmem)) hfirst
      exact ⟨congrArg (link :: ·) hfollowed, hanswer⟩

theorem mirrors_unmet {outcome : Except Halt ι} {answer : Except Refusal (List Name)}
    {followed : List ι} (h : Answers tree outcome answer) :
    Mirrors tree uid ⟨[], outcome⟩ ⟨followed, answer⟩ where
  answers _ := h
  refuses before _ _ hmet := by simp at hmet

theorem mirrors_foreign {k : Walked ι} {candidate : List Name} (h : ¬ Trusted tree uid link)
    (hcandidate : tree.lstat candidate = .ok link) :
    Mirrors tree uid (k.behind link)
      ⟨[], .error (.permissionDenied candidate (tree.inode link).owner)⟩ where
  answers hall := absurd (hall link List.mem_cons_self) h
  refuses before first after hmet hbefore hfirst := by
    cases before with
    | nil =>
      obtain ⟨rfl, -⟩ := List.cons.inj hmet
      exact ⟨rfl, candidate, hcandidate, rfl⟩
    | cons head before =>
      obtain ⟨rfl, -⟩ := List.cons.inj hmet
      exact absurd (hbefore link List.mem_cons_self) h

/-! ## The loop -/

variable {follow : ι → List Name → Walked ι}
variable {again : ι → List Name → List Name → Resolution ι (List Name)}

/-- What is done behind a link is alike on both sides, from any directory. -/
def Follows (tree : Tree ι δ) (uid : ℕ) (follow : ι → List Name → Walked ι)
    (again : ι → List Name → List Name → Resolution ι (List Name)) : Prop :=
  ∀ link dir resolved path, Trusted tree uid link → tree.Straight resolved dir →
    (tree.dir? dir).isSome → (∀ name ∈ resolved, IsName name) → (∀ name ∈ path, IsName name) →
    Mirrors tree uid ((follow dir path).behind link) (again link resolved (Tree.undotted path))

/-- What is done behind a link starts over at a leading slash, and reads over
a leading dot. -/
def Leads (again : ι → List Name → List Name → Resolution ι (List Name)) : Prop :=
  ∀ link resolved pending, again link resolved ([slash] :: pending) = again link [] pending ∧
    again link resolved (dot :: pending) = again link resolved pending

theorem undotted_parts (path : Name) : Tree.undotted (parts path) = names path := by
  rw [Tree.undotted, parts, List.filter_append, List.filter_filter, names]
  have htail : List.filter (· ≠ dot) (if path.getLast? = some slash then [dot] else []) = [] := by
    split_ifs <;> simp
  rw [htail, List.append_nil]
  exact List.filter_congr fun part _ => by simp [and_comm]

/-- A link's target is read from the same directory on both sides. -/
theorem again_target (h : Follows tree uid follow again) (hleads : Leads again)
    (htrusted : Trusted tree uid link) (hstands : Stands tree resolved spot)
    (hdir : (tree.dir? spot.place).isSome) (hpath : ∀ name ∈ path, IsName name) :
    Mirrors tree uid
      ((follow (tree.start target ⟨link, spot.place⟩) (parts target ++ path)).behind link)
      (again link resolved (components target ++ Tree.undotted path)) := by
  have hall : ∀ name ∈ parts target ++ path, IsName name := fun name hmem =>
    (List.mem_append.1 hmem).elim isName_of_mem_parts (hpath name)
  have hpending : Tree.undotted (parts target ++ path) = names target ++ Tree.undotted path := by
    rw [Tree.undotted_append, undotted_parts]
  unfold Tree.start components
  split_ifs with habs hdot
  · rw [List.append_assoc, List.singleton_append, (hleads _ _ _).1, ← hpending]
    obtain ⟨_, hroot⟩ := tree.dir?_root
    exact h link _ [] _ htrusted .root (by simp [hroot]) (by simp) hall
  · rw [List.append_assoc, List.singleton_append, (hleads _ _ _).2, ← hpending]
    exact h link _ _ _ htrusted hstands.straight hdir hstands.named hall
  · rw [List.nil_append, ← hpending]
    exact h link _ _ _ htrusted hstands.straight hdir hstands.named hall

theorem untilLink_error {halt : Halt} (hname : IsName part) (hdot : part ≠ dot)
    (hup : part ≠ dotdot) (h : tree.lstat (resolved ++ [part]) = .error halt) :
    untilLink tree uid again resolved (part :: pending) = ⟨[], .error (.os halt)⟩ := by
  have hslash : part ≠ [slash] := fun heq => hname.2 (by simp [heq])
  rw [untilLink, if_neg hslash, if_neg hdot, if_neg hup]
  simp only [h]

theorem untilLink_ok (hname : IsName part) (hdot : part ≠ dot) (hup : part ≠ dotdot)
    (h : tree.lstat (resolved ++ [part]) = .ok i) (hlink : tree.target? i = none) :
    untilLink tree uid again resolved (part :: pending) =
      untilLink tree uid again (resolved ++ [part]) pending := by
  have hslash : part ≠ [slash] := fun heq => hname.2 (by simp [heq])
  rw [untilLink, if_neg hslash, if_neg hdot, if_neg hup]
  simp only [h, hlink]

theorem untilLink_link (hname : IsName part) (hdot : part ≠ dot) (hup : part ≠ dotdot)
    (h : tree.lstat (resolved ++ [part]) = .ok i) (hlink : tree.target? i = some target) :
    untilLink tree uid again resolved (part :: pending) =
      if Trusted tree uid i then again i resolved (components target ++ pending)
      else ⟨[], .error (.permissionDenied (resolved ++ [part]) (tree.inode i).owner)⟩ := by
  have hslash : part ≠ [slash] := fun heq => hname.2 (by simp [heq])
  rw [untilLink, if_neg hslash, if_neg hdot, if_neg hup]
  simp only [h, hlink]
  rfl

theorem mirrors_untilLink (hfollow : Follows tree uid follow again) (hleads : Leads again)
    (hstands : Stands tree resolved spot) (hpath : ∀ name ∈ path, IsName name) :
    Mirrors tree uid (tree.walkWith true follow spot path)
      (untilLink tree uid again resolved (Tree.undotted path)) := by
  induction path generalizing spot resolved with
  | nil => exact mirrors_unmet ⟨hstands.straight, hstands.named⟩
  | cons part rest ih =>
    have hrest : ∀ name ∈ rest, IsName name := fun name hmem => hpath name (by simp [hmem])
    have hname : IsName part := hpath part (by simp)
    by_cases hdot : part = dot
    · subst hdot
      rw [Tree.walkWith_ok (step_dot spot) hstands.straight.not_link]
      exact ih hstands hrest
    have hpending : Tree.undotted (part :: rest) = part :: Tree.undotted rest := by
      simp [Tree.undotted, hdot]
    rw [hpending]
    by_cases hup : part = dotdot
    · subst hup
      obtain ⟨next, hstep, hlink, hnext⟩ := hstands.dotdot
      rw [Tree.walkWith_ok hstep hlink, untilLink, if_neg (by decide), if_neg (by decide),
        if_pos rfl]
      exact ih hnext hrest
    have hlstat := hstands.lstat hdot hup
    cases hstep : tree.step true spot part with
    | error halt =>
      rw [hstep] at hlstat
      rw [Tree.walkWith_error hstep, untilLink_error hname hdot hup hlstat]
      exact mirrors_unmet rfl
    | ok next =>
      obtain ⟨found, holder⟩ := next
      rw [hstep] at hlstat
      cases hlink : tree.target? found with
      | none =>
        rw [Tree.walkWith_ok hstep hlink, untilLink_ok hname hdot hup hlstat hlink]
        exact ih (hstands.name hname hdot hup hstep hlink) hrest
      | some target =>
        rw [Tree.walkWith_link hstep hlink, untilLink_link hname hdot hup hlstat hlink]
        obtain ⟨above, entries, hdir, -, hholder⟩ := Tree.dir_of_step hdot hup hstep
        obtain rfl : holder = spot.place := hholder
        split_ifs with htrusted
        · exact again_target hfollow hleads htrusted hstands (by simp [hdir]) hrest
        · exact mirrors_foreign htrusted hlstat

theorem resolveLoop_slash (left : ℕ) :
    resolveLoop tree uid left resolved ([slash] :: pending) =
      resolveLoop tree uid left [] pending := by
  cases left <;> rw [resolveLoop, untilLink, if_pos rfl]

theorem resolveLoop_dot (left : ℕ) :
    resolveLoop tree uid left resolved (dot :: pending) =
      resolveLoop tree uid left resolved pending := by
  cases left <;> rw [resolveLoop, untilLink, if_neg (by decide), if_pos rfl]

theorem leads_resolveLoop (left : ℕ) :
    Leads fun link resolved pending =>
      (resolveLoop tree uid left resolved pending).behind link :=
  fun link _ _ => ⟨congrArg (Resolution.behind link) (resolveLoop_slash left),
    congrArg (Resolution.behind link) (resolveLoop_dot left)⟩

/-! ### Links read -/

theorem followed_untilLink {n : ℕ}
    (h : ∀ link resolved pending, (again link resolved pending).followed.length ≤ n ∧
      ((Trusted tree uid link) → ∀ read ∈ (again link resolved pending).followed,
        Trusted tree uid read)) :
    (untilLink tree uid again resolved pending).followed.length ≤ n ∧
      ∀ read ∈ (untilLink tree uid again resolved pending).followed, Trusted tree uid read := by
  fun_induction untilLink tree uid again resolved pending with
  | case1 => simp
  | case2 _ _ ih => exact ih
  | case3 _ _ _ ih => exact ih
  | case4 _ _ _ _ ih => exact ih
  | case5 => simp
  | case6 _ _ _ _ _ _ _ _ _ _ ih => exact ih
  | case7 _ _ _ _ _ _ _ _ _ _ _ htrusted => exact ⟨(h _ _ _).1, (h _ _ _).2 htrusted⟩
  | case8 => simp

theorem followed_resolveLoop (left : ℕ) (resolved pending : List Name) :
    (resolveLoop tree uid left resolved pending).followed.length ≤ left ∧
      ∀ read ∈ (resolveLoop tree uid left resolved pending).followed, Trusted tree uid read := by
  induction left generalizing resolved pending with
  | zero => exact followed_untilLink fun _ _ _ => by simp
  | succ left ih =>
    refine followed_untilLink fun link resolved pending => ⟨?_, fun htrusted read hread => ?_⟩
    · exact Nat.succ_le_succ (ih resolved pending).1
    · rcases List.mem_cons.1 hread with rfl | hread
      · exact htrusted
      · exact (ih resolved pending).2 read hread

/-- **The resolution mirrors a lexical walk.** From where a straight path
leads, with the same number of links left, the loop answers as the walk. -/
theorem mirrors_resolveLoop (left : ℕ) {dir : ι} (hstraight : tree.Straight resolved dir)
    (hdir : (tree.dir? dir).isSome) (hnames : ∀ name ∈ resolved, IsName name)
    (hpath : ∀ name ∈ path, IsName name) :
    Mirrors tree uid (tree.walk true left dir path)
      (resolveLoop tree uid left resolved (Tree.undotted path)) := by
  induction left generalizing dir resolved path with
  | zero =>
    refine mirrors_untilLink ?_ (fun _ _ _ => ⟨rfl, rfl⟩)
      (stands_dir hstraight hdir hnames _) hpath
    intro link _ _ _ htrusted _ _ _ _
    refine ⟨fun _ => rfl, fun before first after hmet _ hfirst => ?_⟩
    have hmem : first ∈ [link] := by
      rw [show [link] = before ++ first :: after from hmet]
      simp
    exact absurd (List.mem_singleton.1 hmem ▸ htrusted) hfirst
  | succ left ih =>
    refine mirrors_untilLink ?_ (leads_resolveLoop left)
      (stands_dir hstraight hdir hnames _) hpath
    intro link dir resolved path htrusted hstraight hdir hnames hpath
    exact (ih hstraight hdir hnames hpath).behind htrusted

end LogPath

end Shep
