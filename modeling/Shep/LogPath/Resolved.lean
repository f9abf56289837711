import Shep.LogPath.Mirrored

/-!
# LogPath — resolution against the kernel's

What `resolve_parent` answers beside the kernel's own resolution of a log
path's parent, and where the two part: a path that ends in `..`, and a `..`
behind a file.
-/

namespace Shep

namespace LogPath

open FileTree

variable {ι δ : Type*} {tree : Tree ι δ} {uid : ℕ} {path pending resolved : List Name}
variable {log answer name : Name}

/-! ## Texts -/

theorem isName_of_mem_names {part : Name} (h : part ∈ names log) :
    IsName part ∧ part ≠ dot := by
  obtain ⟨hmem, hne⟩ := List.mem_filter.1 h
  have hne : part ≠ [] ∧ part ≠ dot := by simpa using hne
  exact ⟨⟨hne.1, not_mem_of_mem_splitOn hmem⟩, hne.2⟩

theorem names_slash (path : Name) : names (slash :: path) = names path := by
  rw [names, ← List.nil_append (slash :: path), List.splitOn_append_cons_self, List.splitOn_nil]
  rfl

theorem names_append_slash (path : Name) : names (path ++ [slash]) = names path := by
  rw [names, List.splitOn_append_cons_self, List.splitOn_nil, List.filter_append, names]
  simp

theorem names_text (h : ∀ name ∈ path, IsName name ∧ name ≠ dot) : names (text path) = path := by
  cases path with
  | nil => rfl
  | cons first others =>
    rw [names, splitOn_text (fun name hname => (h name hname).1) (by simp),
      List.filter_cons_of_neg (by simp)]
    exact List.filter_eq_self.2 fun name hname => by
      simpa using ⟨(h name hname).1.1, (h name hname).2⟩

theorem names_absolute (log : Name) : names (absolute log) = names log := by
  have htext : names (text (names log)) = names log :=
    names_text fun name hname => isName_of_mem_names hname
  unfold absolute
  split_ifs <;>
    simp only [List.nil_append, List.append_nil, names_append_slash, List.cons_append,
      names_slash, htext]

theorem head?_absolute (log : Name) : (absolute log).head? = some slash := by
  unfold absolute text
  split_ifs <;> rfl

theorem components_absolute (log : Name) : components (absolute log) = [slash] :: names log := by
  rw [components, if_pos (head?_absolute log), names_absolute]
  rfl

/-! ## What the kernel is asked -/

/-- The components of a path up to the last that is not a dot. -/
def named (path : Name) : List Name := (parts path).rdropWhile (· = dot)

/-- The components above the last of a path. -/
def above (path : Name) : List Name := (named path).dropLast

/-- The last component of a path. -/
def last? (path : Name) : Option Name := (named path).getLast?

/-- The directory and the name of the entry a path names, as the kernel
resolves its parent. -/
def Names (tree : Tree ι δ) (path : Name) (dir : ι) (name : Name) : Prop :=
  (tree.resolve (above path)).outcome = .ok dir ∧ (tree.dir? dir).isSome ∧ last? path = some name

theorem undotted_rdropWhile (path : List Name) :
    Tree.undotted (path.rdropWhile (· = dot)) = Tree.undotted path := by
  induction path using List.reverseRecOn with
  | nil => rfl
  | append_singleton front part ih =>
    by_cases hdot : part = dot
    · rw [List.rdropWhile_concat_pos _ _ _ (by simp [hdot]), ih]
      simp [Tree.undotted, hdot]
    · rw [List.rdropWhile_concat_neg _ _ _ (by simp [hdot])]

theorem named_eq (log : Name) :
    named log = [] ∧ names log = [] ∨
      ∃ front last, named log = front ++ [last] ∧ last ≠ dot ∧
        names log = Tree.undotted front ++ [last] := by
  have hundotted : Tree.undotted (named log) = names log := by
    rw [named, undotted_rdropWhile, undotted_parts]
  cases hnamed : named log using List.reverseRecOn with
  | nil => exact .inl ⟨rfl, by rw [← hundotted, hnamed]; rfl⟩
  | append_singleton front last =>
    have hdot : last ≠ dot := by
      have hne : named log ≠ [] := by simp [hnamed]
      have hlast := List.rdropWhile_last_not (· = dot) (parts log) hne
      simpa [show (parts log).rdropWhile (· = dot) = front ++ [last] from hnamed] using hlast
    refine .inr ⟨front, last, rfl, hdot, ?_⟩
    rw [← hundotted, hnamed, Tree.undotted_append]
    simp [Tree.undotted, hdot]

theorem last?_eq (log : Name) : last? log = (names log).getLast? := by
  rw [last?]
  obtain ⟨hnamed, hnames⟩ | ⟨front, last, hnamed, -, hnames⟩ := named_eq log
  · rw [hnamed, hnames]
  · rw [hnamed, hnames, List.getLast?_concat, List.getLast?_concat]

theorem undotted_above (log : Name) : Tree.undotted (above log) = (names log).dropLast := by
  rw [above]
  obtain ⟨hnamed, hnames⟩ | ⟨front, last, hnamed, -, hnames⟩ := named_eq log
  · rw [hnamed, hnames]; rfl
  · rw [hnamed, hnames, List.dropLast_concat, List.dropLast_concat]

theorem isName_of_mem_above {part : Name} (h : part ∈ above log) : IsName part :=
  isName_of_mem_parts ((List.rdropWhile_prefix _ _).subset (List.dropLast_subset _ h))

/-! ## What an answer names -/

theorem parts_slash {text : Name} (htext : text ≠ []) :
    parts (slash :: text) = parts text := by
  have hlast : (slash :: text).getLast? = text.getLast? := by
    rw [← List.singleton_append, List.getLast?_append_of_ne_nil _ htext]
  rw [parts, hlast, ← List.nil_append (slash :: text), List.splitOn_append_cons_self,
    List.splitOn_nil, parts]
  rfl

/-- The named components of a path's text are the path, with slashes before
and behind it too. -/
theorem named_text (h : ∀ name ∈ resolved, IsName name) (hname : IsName name) (hdot : name ≠ dot)
    (front back : Name) (hfront : front = [] ∨ front = [slash]) (hback : back = [] ∨ back = [slash]) :
    named (front ++ text (resolved ++ [name]) ++ back) = resolved ++ [name] := by
  have hall : ∀ part ∈ resolved ++ [name], IsName part := by
    intro part hpart
    rcases List.mem_append.1 hpart with hpart | hpart
    · exact h part hpart
    · exact List.mem_singleton.1 hpart ▸ hname
  have hparts : parts (text (resolved ++ [name]) ++ back) = resolved ++ [name] ∨
      parts (text (resolved ++ [name]) ++ back) = resolved ++ [name] ++ [dot] := by
    rcases hback with rfl | rfl
    · exact .inl (by rw [List.append_nil, parts_text hall (by simp)])
    · exact .inr (parts_text_slash hall (by simp))
  have hfront' : parts (front ++ text (resolved ++ [name]) ++ back) =
      parts (text (resolved ++ [name]) ++ back) := by
    rcases hfront with rfl | rfl
    · rfl
    · exact parts_slash (by simp [text])
  have hkeep : (resolved ++ [name]).rdropWhile (· = dot) = resolved ++ [name] :=
    List.rdropWhile_concat_neg _ _ _ (by simp [hdot])
  rw [named, hfront']
  rcases hparts with hparts | hparts
  · rw [hparts, hkeep]
  · rw [hparts, List.rdropWhile_concat_pos _ _ _ (by simp), hkeep]

theorem above_absolute (log : Name) :
    above (absolute log) = (names log).dropLast ∧ last? (absolute log) = last? log := by
  rw [last?_eq, last?_eq, names_absolute]
  refine ⟨?_, rfl⟩
  cases hnames : names log using List.reverseRecOn with
  | nil =>
    have hempty : names (absolute log) = [] := by rw [names_absolute, hnames]
    obtain ⟨hnamed, -⟩ | ⟨front, last, -, -, hnone⟩ := named_eq (absolute log)
    · rw [above, hnamed, List.dropLast_nil]
    · simp [hempty] at hnone
  | append_singleton front name =>
    have hmem : ∀ part ∈ front ++ [name], IsName part ∧ part ≠ dot := fun part hpart =>
      isName_of_mem_names (hnames ▸ hpart)
    rw [above, absolute, hnames, named_text (fun part hpart => (hmem part (by simp [hpart])).1)
      (hmem name (by simp)).1 (hmem name (by simp)).2]
    · split_ifs <;> simp
    · split_ifs <;> simp

/-! ## The resolution by last component -/

/-- A path that ends in `..`, or names nothing, is answered as it is. -/
theorem resolve_parent_bare (tree : Tree ι δ) (uid : ℕ)
    (h : last? log = none ∨ last? log = some dotdot) :
    resolve_parent tree log uid = ⟨[], .ok (absolute log)⟩ := by
  have hnone : file_name (absolute log) = none := by
    rw [last?_eq] at h
    rw [file_name, components_absolute]
    cases hnames : names log using List.reverseRecOn with
    | nil => simp
    | append_singleton front name =>
      rw [hnames, List.getLast?_concat] at h
      have hname : name = dotdot := by simpa using h
      rw [← List.cons_append, List.getLast?_concat, hname]
      simp
  rw [resolve_parent]
  simp only [hnone]
  cases parent (absolute log) <;> rfl

/-- Otherwise the names above the last are resolved from the root. -/
theorem resolve_parent_named (tree : Tree ι δ) (uid : ℕ) (h : last? log = some name) (hup : name ≠ dotdot) :
    ∃ back, (back = [] ∨ back = [slash]) ∧
      resolve_parent tree log uid =
        ⟨(resolveLoop tree uid MAX_LINKS [] (names log).dropLast).followed,
          (resolveLoop tree uid MAX_LINKS [] (names log).dropLast).answer.map fun resolved =>
            text (resolved ++ [name]) ++ back⟩ := by
  rw [last?_eq] at h
  obtain ⟨hname, hdot⟩ := isName_of_mem_names (List.mem_of_getLast? h)
  have hne : names log ≠ [] := fun heq => by simp [heq] at h
  have hlast : (components (absolute log)).getLast? = some name := by
    rw [components_absolute, List.getLast?_cons_of_ne_nil hne, h]
  have hslash : name ≠ [slash] := fun heq => hname.2 (by simp [heq])
  have hparent : parent (absolute log) = some ([slash] :: (names log).dropLast) := by
    rw [parent, hlast]
    simp only [if_neg hslash, components_absolute]
    rw [List.dropLast_cons_of_ne_nil hne]
  have hfile : file_name (absolute log) = some name := by
    rw [file_name, hlast]
    simp [hslash, hdot, hup]
  refine ⟨if (absolute log).getLast? = some slash then [slash] else [], by split_ifs <;> simp, ?_⟩
  rw [resolve_parent]
  simp only [hparent, hfile]
  rw [resolveLoop_slash]

/-! ## Agreement -/

/-- `resolve_parent` resolves as the kernel does: no more links than it may
are read; an answer meets no link above its last component and names the
entry the path does; and a path is refused if and only if the kernel meets a
link of another owner, the first of which is named and not read. -/
structure Agrees (tree : Tree ι δ) (uid : ℕ) (log : Name) : Prop where
  bounded : (resolve_parent tree log uid).followed.length ≤ MAX_LINKS
  clear : ∀ answer, (resolve_parent tree log uid).answer = .ok answer →
    (tree.resolve (above answer)).met = []
  entry : ∀ answer, (resolve_parent tree log uid).answer = .ok answer →
    ∀ dir name, Names tree log dir name → Names tree answer dir name
  refused : (∃ candidate owner,
      (resolve_parent tree log uid).answer = .error (.permissionDenied candidate owner)) ↔
    ∃ link ∈ (tree.resolve (above log)).met, ¬ Trusted tree uid link
  unread : ∀ candidate owner,
    (resolve_parent tree log uid).answer = .error (.permissionDenied candidate owner) →
    ∃ link after, tree.lstat candidate = .ok link ∧ owner = (tree.inode link).owner ∧
      ¬ Trusted tree uid link ∧ (tree.resolve (above log)).met =
        (resolve_parent tree log uid).followed ++ link :: after ∧
      ∀ read ∈ (resolve_parent tree log uid).followed, Trusted tree uid read

/-- The lexical walk over what stands above the last component. -/
def lexically (tree : Tree ι δ) (log : Name) : Walked ι :=
  tree.walk true Tree.maxSymlinks tree.root (above log)

/-- Where the two agree: a path that ends in `..` meets no link before, and
behind a file no other path reaches a link of another owner by `..`. -/
structure Fits (tree : Tree ι δ) (uid : ℕ) (log : Name) : Prop where
  last : last? log = some dotdot → (tree.resolve (above log)).met = []
  files : last? log ≠ some dotdot → (∃ link ∈ (lexically tree log).met, ¬ Trusted tree uid link) →
    ∃ link ∈ (tree.resolve (above log)).met, ¬ Trusted tree uid link

theorem staysWith_lexically (tree : Tree ι δ) (log : Name) :
    Tree.StaysWith (tree.resolve (above log)) (lexically tree log) :=
  Tree.staysWith_walk _ _ _

theorem alike_above (tree : Tree ι δ) {path : List Name} (h : path = (names log).dropLast) :
    tree.Alike (tree.resolve (above log)) (tree.resolve path) := by
  refine Tree.alike_walk _ _ ?_
  rw [undotted_above, h]
  exact (List.filter_eq_self.2 fun part hpart => by
    simpa using (isName_of_mem_names (List.dropLast_subset _ hpart)).2).symm

/-- A path answered as it is agrees if and only if no link is met above its
last component. -/
theorem agrees_bare (h : last? log = none ∨ last? log = some dotdot) :
    Agrees tree uid log ↔ (tree.resolve (above log)).met = [] := by
  have hbare := resolve_parent_bare tree uid h
  obtain ⟨habove, hlast⟩ := above_absolute log
  have halike := alike_above tree habove
  constructor
  · intro hagrees
    have hclear := hagrees.clear (absolute log) (by rw [hbare])
    rw [halike.1, hclear]
  · intro hmet
    refine ⟨by simp [hbare], fun answer hanswer => ?_, fun answer hanswer dir name hnames => ?_, ?_,
      fun candidate owner hrefused => ?_⟩
    · rw [hbare] at hanswer
      obtain rfl := Except.ok.inj hanswer
      rw [← halike.1, hmet]
    · rw [hbare] at hanswer
      obtain rfl := Except.ok.inj hanswer
      obtain ⟨hout, hdir, hname⟩ := hnames
      obtain ⟨up, hup⟩ := Option.isSome_iff_exists.1 hdir
      exact ⟨(halike.2 dir up hup).1 hout, hdir, hlast.trans hname⟩
    · simp [hbare, hmet]
    · rw [hbare] at hrefused
      cases hrefused

/-! ## Paths with a last name -/

theorem exists_first_foreign {links : List ι} (h : ∃ link ∈ links, ¬ Trusted tree uid link) :
    ∃ before link after, links = before ++ link :: after ∧
      (∀ read ∈ before, Trusted tree uid read) ∧ ¬ Trusted tree uid link := by
  obtain ⟨link, hmem, hlink⟩ := h
  cases hfind : links.find? fun link => decide (¬ Trusted tree uid link) with
  | none => exact absurd (by simpa using List.find?_eq_none.1 hfind link hmem) hlink
  | some first =>
    obtain ⟨hfirst, before, after, hsplit, hbefore⟩ := List.find?_eq_some_iff_append.1 hfind
    exact ⟨before, first, after, hsplit, fun read hread => by simpa using hbefore read hread,
      by simpa using hfirst⟩

/-- There is one first link of another owner. -/
theorem first_foreign_unique {before before' after after' : List ι} {link link' : ι}
    (heq : before ++ link :: after = before' ++ link' :: after')
    (hbefore : ∀ read ∈ before, Trusted tree uid read) (hlink : ¬ Trusted tree uid link)
    (hbefore' : ∀ read ∈ before', Trusted tree uid read) (hlink' : ¬ Trusted tree uid link') :
    before = before' ∧ link = link' := by
  induction before generalizing before' with
  | nil =>
    cases before' with
    | nil => exact ⟨rfl, (List.cons.inj heq).1⟩
    | cons head rest =>
      obtain ⟨rfl, -⟩ := List.cons.inj heq
      exact absurd (hbefore' link List.mem_cons_self) hlink
  | cons first rest ih =>
    cases before' with
    | nil =>
      obtain ⟨rfl, -⟩ := List.cons.inj heq
      exact absurd (hbefore first List.mem_cons_self) hlink'
    | cons head rest' =>
      obtain ⟨rfl, htail⟩ := List.cons.inj heq
      obtain ⟨rfl, hlinks⟩ := ih htail (fun read hread => hbefore read (by simp [hread]))
        (fun read hread => hbefore' read (by simp [hread]))
      exact ⟨rfl, hlinks⟩

theorem mirrors_lexically (tree : Tree ι δ) (uid : ℕ) (log : Name) :
    Mirrors tree uid (lexically tree log)
      (resolveLoop tree uid MAX_LINKS [] (names log).dropLast) := by
  obtain ⟨_, hroot⟩ := tree.dir?_root
  rw [← undotted_above]
  exact mirrors_resolveLoop MAX_LINKS .root (by simp [hroot]) (by simp)
    fun part hpart => isName_of_mem_above hpart

variable (h : last? log = some name) (hup : name ≠ dotdot)

include h hup

/-- What an answer is: the text of a straight path to where the lexical walk
ends, with the last name behind it. -/
theorem answer_named (hanswer : (resolve_parent tree log uid).answer = .ok answer) :
    (∀ link ∈ (lexically tree log).met, Trusted tree uid link) ∧
      ∃ resolved dir, (lexically tree log).outcome = .ok dir ∧ tree.Straight resolved dir ∧
        above answer = resolved ∧ last? answer = some name := by
  obtain ⟨back, hback, hresolve⟩ := resolve_parent_named tree uid h hup
  have hmirrors := mirrors_lexically tree uid log
  rw [hresolve] at hanswer
  by_cases hall : ∀ link ∈ (lexically tree log).met, Trusted tree uid link
  · refine ⟨hall, ?_⟩
    have hanswers := hmirrors.answers hall
    cases hloop : (resolveLoop tree uid MAX_LINKS [] (names log).dropLast).answer with
    | error refusal => rw [hloop] at hanswer; cases hanswer
    | ok resolved =>
      rw [hloop] at hanswer hanswers
      obtain rfl : text (resolved ++ [name]) ++ back = answer := Except.ok.inj hanswer
      cases hout : (lexically tree log).outcome with
      | error halt => rw [hout] at hanswers; exact hanswers.elim
      | ok dir =>
        rw [hout] at hanswers
        obtain ⟨hstraight, hnames⟩ : tree.Straight resolved dir ∧ _ := hanswers
        obtain ⟨hname, hdot⟩ := isName_of_mem_names (List.mem_of_getLast? (last?_eq log ▸ h))
        have hnamed := named_text hnames hname hdot [] back (.inl rfl) hback
        rw [List.nil_append] at hnamed
        exact ⟨resolved, dir, rfl, hstraight, by rw [above, hnamed, List.dropLast_concat],
          by rw [last?, hnamed, List.getLast?_concat]⟩
  · obtain ⟨before, link, after, hmet, hbefore, hlink⟩ :=
      exists_first_foreign (show ∃ link ∈ (lexically tree log).met, ¬ Trusted tree uid link by
        simpa using hall)
    obtain ⟨-, candidate, -, hrefused⟩ := hmirrors.refuses before link after hmet hbefore hlink
    rw [hrefused] at hanswer
    cases hanswer

/-- What a refusal is: the first link of another owner the lexical walk
meets, named and not read. -/
theorem refused_named {candidate : List Name} {owner : ℕ}
    (hrefused : (resolve_parent tree log uid).answer = .error (.permissionDenied candidate owner)) :
    ∃ link after, tree.lstat candidate = .ok link ∧ owner = (tree.inode link).owner ∧
      ¬ Trusted tree uid link ∧ (lexically tree log).met =
        (resolve_parent tree log uid).followed ++ link :: after ∧
      ∀ read ∈ (resolve_parent tree log uid).followed, Trusted tree uid read := by
  obtain ⟨back, -, hresolve⟩ := resolve_parent_named tree uid h hup
  have hmirrors := mirrors_lexically tree uid log
  rw [hresolve] at hrefused ⊢
  have hloop : (resolveLoop tree uid MAX_LINKS [] (names log).dropLast).answer =
      .error (.permissionDenied candidate owner) := by
    cases hloop : (resolveLoop tree uid MAX_LINKS [] (names log).dropLast).answer with
    | error refusal => rw [hloop] at hrefused; exact congrArg _ (Except.error.inj hrefused)
    | ok resolved => rw [hloop] at hrefused; cases hrefused
  have hforeign : ∃ link ∈ (lexically tree log).met, ¬ Trusted tree uid link := by
    by_contra hall
    have hanswers := hmirrors.answers (by simpa using hall)
    rw [hloop] at hanswers
    cases hout : (lexically tree log).outcome <;> rw [hout] at hanswers <;> exact hanswers
  obtain ⟨before, link, after, hmet, hbefore, hlink⟩ := exists_first_foreign hforeign
  obtain ⟨hfollowed, found, hfound, hanswer⟩ := hmirrors.refuses before link after hmet hbefore hlink
  obtain ⟨rfl, rfl⟩ := Refusal.permissionDenied.inj (Except.error.inj (hloop.symm.trans hanswer))
  exact ⟨link, after, hfound, rfl, hlink, by rw [hfollowed, hmet], by rwa [hfollowed]⟩

theorem refuses_named (hforeign : ∃ link ∈ (lexically tree log).met, ¬ Trusted tree uid link) :
    ∃ candidate owner,
      (resolve_parent tree log uid).answer = .error (.permissionDenied candidate owner) := by
  obtain ⟨back, -, hresolve⟩ := resolve_parent_named tree uid h hup
  obtain ⟨before, link, after, hmet, hbefore, hlink⟩ := exists_first_foreign hforeign
  obtain ⟨-, candidate, -, hanswer⟩ :=
    (mirrors_lexically tree uid log).refuses before link after hmet hbefore hlink
  exact ⟨candidate, _, by rw [hresolve, hanswer]; rfl⟩

omit h hup

theorem bounded_resolve_parent (tree : Tree ι δ) (uid : ℕ) (log : Name) :
    (resolve_parent tree log uid).followed.length ≤ MAX_LINKS := by
  cases hlast : last? log with
  | none => simp [resolve_parent_bare _ _ (.inl hlast)]
  | some name =>
    by_cases hup : name = dotdot
    · simp [resolve_parent_bare tree uid (.inr (hup ▸ hlast))]
    · obtain ⟨_, -, hresolve⟩ := resolve_parent_named tree uid hlast hup
      rw [hresolve]
      exact (followed_resolveLoop MAX_LINKS _ _).1

/-- A path with a last name agrees if and only if going on behind a file
reaches no link of another owner that the kernel does not. -/
theorem agrees_named (h : last? log = some name) (hup : name ≠ dotdot) :
    Agrees tree uid log ↔
      ((∃ link ∈ (lexically tree log).met, ¬ Trusted tree uid link) →
        ∃ link ∈ (tree.resolve (above log)).met, ¬ Trusted tree uid link) := by
  constructor
  · exact fun hagrees hforeign => hagrees.refused.1 (refuses_named h hup hforeign)
  · intro hfits
    have hstays := staysWith_lexically tree log
    have hmet : ∃ more, (lexically tree log).met = (tree.resolve (above log)).met ++ more := by
      obtain heq | ⟨-, more, hmore⟩ := hstays
      · exact ⟨[], by rw [heq, List.append_nil]⟩
      · exact ⟨more, hmore.symm⟩
    obtain ⟨more, hmore⟩ := hmet
    have hsub : (∃ link ∈ (tree.resolve (above log)).met, ¬ Trusted tree uid link) →
        ∃ link ∈ (lexically tree log).met, ¬ Trusted tree uid link := by
      rintro ⟨link, hmem, hlink⟩
      exact ⟨link, by rw [hmore]; exact List.mem_append_left _ hmem, hlink⟩
    refine ⟨bounded_resolve_parent tree uid log, fun answer hanswer => ?_,
      fun answer hanswer dir found hnames => ?_, ⟨fun hrefused => ?_, fun hforeign => ?_⟩,
      fun candidate owner hrefused => ?_⟩
    · obtain ⟨-, resolved, dir, -, hstraight, habove, -⟩ := answer_named h hup hanswer
      rw [habove, hstraight.resolve]
    · obtain ⟨-, resolved, place, hout, hstraight, habove, hlast⟩ := answer_named h hup hanswer
      obtain ⟨hreached, hdir, hfound⟩ := hnames
      -- The kernel reached a directory, so the lexical walk is its own.
      have heq : tree.resolve (above log) = lexically tree log :=
        hstays.resolve_right fun hstop => by rw [hstop.1] at hreached; cases hreached
      rw [heq, hout] at hreached
      obtain rfl := Except.ok.inj hreached
      exact ⟨by rw [habove, hstraight.resolve], hdir, by rw [hlast, ← h, hfound]⟩
    · obtain ⟨candidate, owner, hrefused⟩ := hrefused
      obtain ⟨link, after, -, -, hlink, hsplit, -⟩ := refused_named h hup hrefused
      exact hfits ⟨link, by rw [hsplit]; simp, hlink⟩
    · exact refuses_named h hup (hsub hforeign)
    · obtain ⟨link, after, hlstat, howner, hlink, hsplit, hread⟩ := refused_named h hup hrefused
      -- The kernel's own first such link is this one: both lists start alike.
      obtain ⟨before, first, behind, hmet, hbefore, hfirst⟩ :=
        exists_first_foreign (hfits ⟨link, by rw [hsplit]; simp, hlink⟩)
      have hboth : (resolve_parent tree log uid).followed ++ link :: after =
          before ++ first :: (behind ++ more) := by
        rw [← hsplit, hmore, hmet, List.append_assoc, List.cons_append]
      obtain ⟨hbefore', rfl⟩ := first_foreign_unique hboth hread hlink hbefore hfirst
      exact ⟨link, behind, hlstat, howner, hlink, by rw [hbefore', hmet], hread⟩

/-- **Trusted links resolve as the kernel resolves them**, for every tree
and path, if and only if the path does not end in `..` behind a link, and no
`..` or name behind a file leads on to a link of another owner. -/
theorem agrees_iff (tree : Tree ι δ) (uid : ℕ) (log : Name) :
    Agrees tree uid log ↔ Fits tree uid log := by
  cases hlast : last? log with
  | none =>
    have hmet : (tree.resolve (above log)).met = [] := by
      rw [above, List.getLast?_eq_none_iff.1 hlast]
      rfl
    refine ⟨fun _ => ⟨fun _ => hmet, fun _ hforeign => ?_⟩,
      fun _ => (agrees_bare (.inl hlast)).2 hmet⟩
    obtain ⟨link, hmem, -⟩ := hforeign
    rw [lexically, above, List.getLast?_eq_none_iff.1 hlast] at hmem
    cases hmem
  | some name =>
    by_cases hup : name = dotdot
    · subst hup
      rw [agrees_bare (.inr hlast)]
      exact ⟨fun hmet => ⟨fun _ => hmet, fun hne => absurd hlast hne⟩, fun h => h.last hlast⟩
    · have hne : last? log ≠ some dotdot := by simp [hlast, hup]
      rw [agrees_named hlast hup]
      exact ⟨fun h => ⟨fun heq => absurd heq hne, fun _ => h⟩, fun h => h.files hne⟩

/-! ## A path that ends in `..`, and a `..` behind a file -/

/-- A root with a directory `d`, a file `f`, and uid 1000's link `l` to the
directory. -/
def sharedTree : Tree ℕ Unit := .ofList
  [⟨0, 0o755, .dir 0 [([0x64], 1), ([0x66], 2), ([0x6C], 3)]⟩, ⟨0, 0o755, .dir 0 []⟩,
    ⟨0, 0o644, .file ()⟩, ⟨1000, 0o777, .link [slash, 0x64]⟩] (by decide)

/-- `/l/..` is answered as it is, through a link of another owner; `/f/../l/x`
is refused for a link the kernel never meets. -/
theorem parted_from_kernel :
    ¬ Agrees sharedTree 0 [slash, 0x6C, slash, 0x2E, 0x2E] ∧
      ¬ Agrees sharedTree 0
        [slash, 0x66, slash, 0x2E, 0x2E, slash, 0x6C, slash, 0x78] := by
  constructor
  · intro h
    obtain ⟨candidate, owner, hrefused⟩ := h.refused.2 ⟨3, by decide, by decide⟩
    rw [resolve_parent_bare _ _ (.inr (by decide))] at hrefused
    cases hrefused
  · intro h
    obtain ⟨link, hmem, -⟩ := h.refused.1 ⟨[[0x6C]], 1000, by decide⟩
    have hnone : (sharedTree.resolve (above
        [slash, 0x66, slash, 0x2E, 0x2E, slash, 0x6C, slash, 0x78])).met = [] := by decide
    rw [hnone] at hmem
    cases hmem

end LogPath

end Shep
