import Mathlib.Data.List.Infix
import Shep.Serve.Replies

/-!
# Serve — what a request can reach

Every file an answer is of lies inside the root, by a path that goes through
no link. The names a request asks for have no leading dot unless that is
allowed; the names a followed link leads to may.
-/

namespace Shep

namespace Serve

open FileTree (Tree Name)

variable {ι : Type} {tree : Tree ι File} {chrono : Chrono} {cfg : ServeConfig}
variable {request : HttpRequest} {segments : List Text} {resolved joined : List Name} {dir : ι}

/-! ## Names -/

theorem Plain.no_slash {segment : Text} (h : Plain segment) : slash ∉ segment := by
  intro hmem
  have hclean := h.clean
  rw [← Bool.not_eq_true, List.any_eq_true] at hclean
  exact hclean ⟨slash, hmem, by decide⟩

theorem parts_plain {segment : Text} (h : Plain segment) : FileTree.parts segment = [segment] := by
  have hslash : FileTree.slash ∉ segment := h.no_slash
  rw [FileTree.parts, List.splitOn_eq_singleton hslash, if_neg]
  · simp [h.nonempty]
  · exact fun hlast => hslash (List.mem_of_getLast? hlast)

theorem index_name : index ≠ FileTree.dot ∧ index ≠ FileTree.dotdot := ⟨by decide, by decide⟩

/-- A name below the root begins with a dot. -/
def Dotted (root path : List Name) : Prop :=
  ∃ name ∈ path.drop root.length, name.head? = some dot

theorem dotted_append {root path : List Name} (h : root <+: path) (name : Name) :
    Dotted root (path ++ [name]) ↔ Dotted root path ∨ name.head? = some dot := by
  obtain ⟨rest, rfl⟩ := h
  simp only [Dotted, List.append_assoc, List.drop_left, List.mem_append, List.mem_singleton]
  constructor
  · rintro ⟨part, hmem | rfl, hdot⟩
    · exact .inl ⟨part, hmem, hdot⟩
    · exact .inr hdot
  · rintro (⟨part, hmem, hdot⟩ | hdot)
    · exact ⟨part, .inl hmem, hdot⟩
    · exact ⟨name, .inr rfl, hdot⟩

theorem not_dotted_self (root : List Name) : ¬ Dotted root root := by
  simp [Dotted]

theorem not_dotted_index {root path : List Name} (h : root <+: path) (hpath : ¬ Dotted root path) :
    ¬ Dotted root (path ++ [index]) := by
  rw [dotted_append h]
  exact not_or_intro hpath (by decide)

theorem not_dotted_segments (root : List Name) (h : ¬ isHidden segments = true) :
    ¬ Dotted root (root ++ segments) := by
  rintro ⟨name, hmem, hdot⟩
  rw [List.drop_left] at hmem
  exact h (List.any_eq_true.2 ⟨name, hmem, by simp [hdot]⟩)

theorem not_dotted_visible {entries : List (Name × ι)} {entry : Name × ι}
    (h : entry ∈ visible false entries) : entry.1.head? ≠ some dot := by
  intro hdot
  obtain ⟨-, hshown⟩ := List.mem_filter.1 h
  obtain ⟨rest, hname⟩ := List.head?_eq_some_iff.1 hdot
  have hlow : ∀ x ∈ [dot], x < 0x80 := by
    intro x hx
    rw [List.mem_singleton.1 hx]
    decide
  have hlossy : Utf8.lossy entry.1 = dot :: Utf8.lossy rest := by
    rw [hname, show dot :: rest = [dot] ++ rest from rfl, Utf8.lossy_low hlow]
    rfl
  rw [hlossy] at hshown
  simp [isHidden] at hshown

/-! ## The file system -/

theorem open_regular_child {name : Name} {inode : ι} {file : File}
    (h : tree.Straight resolved dir) (hname : name ≠ FileTree.dot ∧ name ≠ FileTree.dotdot)
    (hopen : (open_regular tree (resolved ++ [name])).value = some (inode, file)) :
    tree.Straight (resolved ++ [name]) inode ∧ (tree.inode inode).kind = .file file ∧
      (tree.dir? dir).isSome := by
  unfold open_regular at hopen
  cases hlstat : tree.lstat (resolved ++ [name]) with
  | error halt => simp [hlstat, Except.toOption] at hopen
  | ok found =>
    simp only [hlstat, Except.toOption, Option.bind_some] at hopen
    split at hopen
    · next file' hkind =>
      obtain ⟨rfl, rfl⟩ := Prod.mk.inj (Option.some.inj hopen)
      have hlink : tree.target? found = none := by simp [Tree.target?, hkind, FileTree.Kind.target?]
      obtain ⟨hstraight, hdir⟩ := h.child hname.1 hname.2 hlstat hlink
      exact ⟨hstraight, hkind, hdir⟩
    · cases hopen

theorem open_regular_self {inode : ι} {file : File} (h : tree.Straight resolved dir)
    (hopen : (open_regular tree resolved).value = some (inode, file)) :
    inode = dir ∧ (tree.inode inode).kind = .file file := by
  unfold open_regular at hopen
  simp only [h.lstat_self, Except.toOption, Option.bind_some] at hopen
  split at hopen
  · next file' hkind =>
    obtain ⟨rfl, rfl⟩ := Prod.mk.inj (Option.some.inj hopen)
    exact ⟨rfl, hkind⟩
  · cases hopen

theorem links_open_regular (h : tree.Straight resolved dir) (name : Name) :
    (open_regular tree (resolved ++ [name])).links = [] := by
  rw [open_regular, List.dropLast_concat, h.resolve]

theorem links_open_self (h : tree.Straight resolved dir) :
    (open_regular tree resolved).links = [] := by
  obtain ⟨above, habove⟩ := h.above
  rw [open_regular, habove.resolve]

/-- Without following links, the walk of `contain` meets none, and joins the
segments as they are. -/
theorem joinSegments_straight (hplain : ∀ s ∈ segments, Plain s)
    (h : tree.Straight joined dir) :
    (joinSegments tree false joined segments).links = [] ∧
      ∀ out, (joinSegments tree false joined segments).value = some out →
        out = joined ++ segments ∧ ∃ place, tree.Straight out place := by
  induction segments generalizing joined dir with
  | nil =>
    refine ⟨rfl, fun out hout => ?_⟩
    obtain rfl : joined = out := Option.some.inj hout
    exact ⟨(List.append_nil _).symm, dir, h⟩
  | cons segment segments ih =>
    have hsegment := hplain segment List.mem_cons_self
    by_cases hnormal : isNormal segment = true
    · rw [joinSegments, if_pos hnormal, parts_plain hsegment]
      dsimp only
      rw [if_neg Bool.false_ne_true]
      have hmet : (symlink_metadata tree (joined ++ [segment])).links = [] := by
        rw [symlink_metadata, List.dropLast_concat, h.resolve]
      rw [Seen.links_bind, Seen.value_bind, hmet, List.nil_append]
      cases hmeta : (symlink_metadata tree (joined ++ [segment])).value with
      | none => exact ⟨rfl, fun out hout => by cases hout⟩
      | some found =>
        dsimp only
        split_ifs with hlink
        · exact ⟨rfl, fun out hout => by cases hout⟩
        · have hlstat : tree.lstat (joined ++ [segment]) = .ok found := by
            rw [symlink_metadata] at hmeta
            cases hlstat : tree.lstat (joined ++ [segment]) with
            | error halt => rw [hlstat] at hmeta; cases hmeta
            | ok other => rw [hlstat] at hmeta; exact congrArg Except.ok (Option.some.inj hmeta)
          obtain ⟨hnext, -⟩ := h.child hsegment.notDot hsegment.notDots hlstat
            (Option.not_isSome_iff_eq_none.1 hlink)
          obtain ⟨hlinks, hvalue⟩ := ih (fun s hs => hplain s (List.mem_cons_of_mem _ hs)) hnext
          refine ⟨hlinks, fun out hout => ?_⟩
          obtain ⟨hjoined, hplace⟩ := hvalue out hout
          exact ⟨by rw [hjoined, List.append_assoc, List.singleton_append], hplace⟩
    · rw [joinSegments, if_neg hnormal]
      exact ⟨rfl, fun out hout => by cases hout⟩

/-- What `contain` answers is straight and below the root: the segments
themselves, or the real path of where they lead. -/
theorem contain_straight {root : List Name} {follow : Bool} (hplain : ∀ s ∈ segments, Plain s)
    (hroot : tree.Straight root dir)
    (h : (contain tree root segments follow).value = some resolved) :
    root <+: resolved ∧ (∃ place, tree.Straight resolved place) ∧
      (follow = false → resolved = root ++ segments) := by
  rw [contain, Seen.value_bind] at h
  cases hjoin : (joinSegments tree follow root segments).value with
  | none => rw [hjoin] at h; cases h
  | some joined =>
    rw [hjoin] at h
    dsimp only at h
    cases follow with
    | false =>
      obtain ⟨-, hvalue⟩ := joinSegments_straight hplain hroot
      obtain ⟨hjoined, hplace⟩ := hvalue joined hjoin
      rw [if_neg Bool.false_ne_true, Seen.value_pure] at h
      split_ifs at h
      obtain rfl := Option.some.inj h
      exact ⟨⟨segments, hjoined.symm⟩, hplace, fun _ => hjoined⟩
    | true =>
      rw [if_pos rfl, Seen.value_bind] at h
      cases hreal : (canonicalize tree joined).value with
      | none => rw [hreal] at h; cases h
      | some canonical =>
        rw [hreal] at h
        dsimp only at h
        rw [Seen.value_pure] at h
        split_ifs at h with hprefix
        obtain rfl := Option.some.inj h
        refine ⟨List.isPrefixOf_iff_prefix.1 hprefix, ?_, fun hfalse => by cases hfalse⟩
        rw [canonicalize] at hreal
        cases hpath : tree.realpath joined with
        | error halt => rw [hpath] at hreal; cases hreal
        | ok found =>
          obtain ⟨real, place⟩ := found
          rw [hpath] at hreal
          obtain rfl : real = canonical := Option.some.inj hreal
          exact ⟨place, (Tree.straight_of_realpath hpath).1⟩

theorem links_contain {root : List Name} (hplain : ∀ s ∈ segments, Plain s)
    (hroot : tree.Straight root dir) : (contain tree root segments false).links = [] := by
  obtain ⟨hlinks, -⟩ := joinSegments_straight hplain hroot
  rw [contain, Seen.links_bind, hlinks, List.nil_append]
  cases (joinSegments tree false root segments).value <;> rfl

/-! ## Requests that are let through -/

/-- A canonical root: a directory, by its real path. -/
def Rooted (tree : Tree ι File) (cfg : ServeConfig) : Prop :=
  ∃ dir, tree.Straight cfg.root dir ∧ (tree.dir? dir).isSome

theorem Reached.straight (h : Reached tree cfg request segments resolved)
    (hroot : Rooted tree cfg) : cfg.root <+: resolved ∧ (∃ place, tree.Straight resolved place) ∧
      (cfg.follow_symlinks = false → resolved = cfg.root ++ segments) := by
  obtain ⟨dir, hstraight, -⟩ := hroot
  exact contain_straight (resolve_plain h.resolves) hstraight h.contained

/-- The answer to a request that reached a path. -/
theorem Reached.answer (chrono : Chrono) (h : Reached tree cfg request segments resolved)
    (hstraight : tree.Straight resolved dir) :
    (answer tree chrono cfg request).value.2 =
      if (tree.dir? dir).isSome then
        (answerDirectory tree chrono cfg request segments resolved).value
      else
        match (open_regular tree resolved).value with
        | none => (send_not_found tree chrono cfg request).value
        | some (inode, file) => serve_file chrono request
            (content_type (slash :: Serve.joined segments)) resolved inode file := by
  have hmethod : ¬ (request.method ≠ ascii "GET" ∧ request.method ≠ ascii "HEAD") := by
    rcases h.method with hmethod | hmethod <;> simp [hmethod]
  have hmeta : (metadata tree resolved).value = some dir := by
    rw [metadata, hstraight.resolve]
    rfl
  rw [Serve.answer, if_neg (by simp [h.authorised]), if_neg hmethod, if_neg (by simp [h.bodiless])]
  simp only [h.resolves, Seen.value_bind, Seen.value_pure]
  rw [answerSegments, if_neg h.shown, Seen.value_bind, h.contained]
  dsimp only
  rw [Seen.value_bind, hmeta]
  dsimp only
  split_ifs
  · rfl
  · rw [Seen.value_bind]
    cases (open_regular tree resolved).value <;> rfl

/-! ## The property -/

/-- An answer is of a regular file inside the root, by its real path, or of no
file; and where hidden names are off, nothing it is of or lists has one. -/
structure Keeps (tree : Tree ι File) (cfg : ServeConfig) (answered : Answered ι) : Prop where
  inside : ∀ path inode, answered.source = .file path inode →
    cfg.root <+: path ∧ tree.Straight path inode ∧
      ∃ file, (tree.inode inode).kind = .file file ∧ answered.body <:+: file.content
  unhidden : cfg.hidden = false → ∀ path inode, answered.source = .file path inode →
    ¬ Dotted cfg.root path
  unlisted : cfg.hidden = false → ∀ path entries, answered.source = .listing path entries →
    ∀ entry ∈ entries, ¬ Dotted cfg.root (path ++ [entry.1])

/-- The answer to a request keeps to the root and to what is shown, and goes
through no link where links are not followed. -/
structure Contained (tree : Tree ι File) (chrono : Chrono) (cfg : ServeConfig)
    (request : HttpRequest) : Prop where
  keeps : Keeps tree cfg (answer tree chrono cfg request).value.2
  unlinked : cfg.follow_symlinks = false → (answer tree chrono cfg request).links = []

/-- A path has something to show for a request: a regular file, or, asked for
as a directory, an index or a listing of something. -/
def Shows (tree : Tree ι File) (cfg : ServeConfig) (request : HttpRequest)
    (resolved : List Name) : Prop :=
  (open_regular tree resolved).value.isSome ∨
    (pathOf request.target).getLast? = some slash ∧
      ((open_regular tree (resolved ++ [index])).value.isSome ∨
        cfg.listing = true ∧ (read_listing tree resolved cfg.hidden).value ≠ [])

/-- Where hidden names are off and links are followed, no link leads to a
hidden path that has something to show. -/
def Clear (tree : Tree ι File) (cfg : ServeConfig) (request : HttpRequest) : Prop :=
  cfg.hidden = false → cfg.follow_symlinks = true → ∀ segments resolved,
    Reached tree cfg request segments resolved → Shows tree cfg request resolved →
      ¬ Dotted cfg.root resolved

/-! ## The bytes of a file -/

theorem sent_infix (outcome : Outcome) (content : Text) :
    outcome.sent request content <:+: content := by
  unfold Outcome.sent
  split_ifs
  · cases outcome.slice content.length with
    | none => exact List.nil_infix
    | some bounds => exact (List.take_prefix _ _).isInfix.trans (List.drop_suffix _ _).isInfix
  · exact List.nil_infix

theorem source_serve_file (hchrono : chrono.Prints) (request : HttpRequest) (type : Text)
    (path : List Name) (inode : ι) (file : File) :
    (serve_file chrono request type path inode file).source = .file path inode ∧
      (serve_file chrono request type path inode file).body <:+: file.content := by
  obtain ⟨outcome, -, heq⟩ := serve_file_eq hchrono request type path inode file
  rw [heq]
  exact ⟨rfl, sent_infix outcome file.content⟩

theorem source_reply (status : ℕ) (type body : Text) (headers : List Header) (source : Source ι) :
    (reply status type body headers source).source = source := by
  rw [reply]
  cases respond _ <;> rfl

/-! ## Clear requests are contained -/

theorem Clear.not_dotted (h : Clear tree cfg request) (hroot : Rooted tree cfg)
    (hhidden : cfg.hidden = false) (hreached : Reached tree cfg request segments resolved)
    (hshows : Shows tree cfg request resolved) : ¬ Dotted cfg.root resolved := by
  cases hfollow : cfg.follow_symlinks with
  | true => exact h hhidden hfollow segments resolved hreached hshows
  | false =>
    obtain ⟨-, -, heq⟩ := hreached.straight hroot
    rw [heq hfollow]
    exact not_dotted_segments _ fun hdot => hreached.shown ⟨hdot, hhidden⟩

/-- What a served path is: below the root, straight to a regular file, and
not hidden unless that is allowed. -/
structure Served (tree : Tree ι File) (cfg : ServeConfig) (path : List Name) (inode : ι)
    (file : File) : Prop where
  below : cfg.root <+: path
  straight : tree.Straight path inode
  regular : (tree.inode inode).kind = .file file
  unhidden : cfg.hidden = false → ¬ Dotted cfg.root path

theorem served_fallback {inode : ι} {file : File} (hroot : Rooted tree cfg)
    (hopen : (open_regular tree (cfg.root ++ [index])).value = some (inode, file)) :
    Served tree cfg (cfg.root ++ [index]) inode file := by
  obtain ⟨dir, hstraight, -⟩ := hroot
  obtain ⟨hpath, hkind, -⟩ := open_regular_child hstraight index_name hopen
  exact ⟨List.prefix_append _ _, hpath, hkind, fun _ =>
    not_dotted_index (List.prefix_refl _) (not_dotted_self _)⟩

theorem served_index {inode : ι} {file : File} (h : Clear tree cfg request)
    (hroot : Rooted tree cfg) (hreached : Reached tree cfg request segments resolved)
    (hslash : (pathOf request.target).getLast? = some slash)
    (hopen : (open_regular tree (resolved ++ [index])).value = some (inode, file)) :
    Served tree cfg (resolved ++ [index]) inode file := by
  obtain ⟨hbelow, ⟨place, hstraight⟩, -⟩ := hreached.straight hroot
  obtain ⟨hpath, hkind, -⟩ := open_regular_child hstraight index_name hopen
  exact ⟨hbelow.trans (List.prefix_append _ _), hpath, hkind, fun hhidden =>
    not_dotted_index hbelow (h.not_dotted hroot hhidden hreached
      (.inr ⟨hslash, .inl (by simp [hopen])⟩))⟩

theorem served_file {inode : ι} {file : File} (h : Clear tree cfg request)
    (hroot : Rooted tree cfg) (hreached : Reached tree cfg request segments resolved)
    (hopen : (open_regular tree resolved).value = some (inode, file)) :
    Served tree cfg resolved inode file := by
  obtain ⟨hbelow, ⟨place, hstraight⟩, -⟩ := hreached.straight hroot
  obtain ⟨rfl, hkind⟩ := open_regular_self hstraight hopen
  exact ⟨hbelow, hstraight, hkind, fun hhidden =>
    h.not_dotted hroot hhidden hreached (.inl (by simp [hopen]))⟩

/-! ## Links -/

theorem links_send_not_found (hroot : Rooted tree cfg) :
    (send_not_found tree chrono cfg request).links = [] := by
  obtain ⟨dir, hstraight, -⟩ := hroot
  unfold send_not_found
  split_ifs
  · rw [Seen.links_bind, links_open_regular hstraight]
    cases (open_regular tree (cfg.root ++ [index])).value <;> rfl
  · rfl

theorem links_answerDirectory (hroot : Rooted tree cfg) (h : tree.Straight resolved dir) :
    (answerDirectory tree chrono cfg request segments resolved).links = [] := by
  unfold answerDirectory
  by_cases hslash : (pathOf request.target).getLast? = some slash
  · rw [if_neg (not_not_intro hslash), Seen.links_bind, links_open_regular h, List.nil_append]
    cases (open_regular tree (resolved ++ [index])).value with
    | some found => rfl
    | none =>
      dsimp only
      split_ifs
      · rw [Seen.links_bind, read_listing, Seen.links_bind, read_dir, h.resolve]
        rfl
      · exact links_send_not_found hroot
  · rw [if_pos hslash]
    rfl

/-- Where links are not followed, none is gone through. -/
theorem links_answer (hroot : Rooted tree cfg) (hfollow : cfg.follow_symlinks = false) :
    (answer tree chrono cfg request).links = [] := by
  unfold answer
  split_ifs
  · rfl
  · rfl
  · rfl
  · cases hresolve : resolve request.target with
    | error refusal => rfl
    | ok segments =>
      have hplain := resolve_plain hresolve
      obtain ⟨top, htop, -⟩ := id hroot
      dsimp only
      rw [Seen.links_bind, Seen.links_pure, List.append_nil]
      by_cases hhidden : isHidden segments = true ∧ cfg.hidden = false
      · rw [answerSegments, if_pos hhidden]
        exact links_send_not_found hroot
      · rw [answerSegments, if_neg hhidden, Seen.links_bind, hfollow, links_contain hplain htop,
          List.nil_append]
        cases hcontain : (contain tree cfg.root segments false).value with
        | none => exact links_send_not_found hroot
        | some resolved =>
          obtain ⟨-, ⟨place, hplace⟩, -⟩ := contain_straight hplain htop hcontain
          dsimp only
          rw [Seen.links_bind, metadata, hplace.resolve, List.nil_append]
          dsimp only [Except.toOption]
          split_ifs
          · exact links_answerDirectory hroot hplace
          · rw [Seen.links_bind, links_open_self hplace, List.nil_append]
            cases (open_regular tree resolved).value with
            | none => exact links_send_not_found hroot
            | some found => rfl

/-! ## Both ways -/

theorem Served.keeps {path : List Name} {inode : ι} {file : File}
    (h : Served tree cfg path inode file) (hchrono : chrono.Prints) (type : Text) :
    Keeps tree cfg (serve_file chrono request type path inode file) := by
  obtain ⟨hsource, hbody⟩ := source_serve_file hchrono request type path inode file
  refine ⟨fun other found heq => ?_, fun hhidden other found heq => ?_,
    fun _ other entries heq => ?_⟩
  · rw [hsource] at heq
    obtain ⟨rfl, rfl⟩ := Source.file.inj heq
    exact ⟨h.below, h.straight, file, h.regular, hbody⟩
  · rw [hsource] at heq
    obtain ⟨rfl, rfl⟩ := Source.file.inj heq
    exact h.unhidden hhidden
  · rw [hsource] at heq
    cases heq

theorem keeps_unsourced {answered : Answered ι}
    (hfile : ∀ path inode, answered.source ≠ .file path inode)
    (hlisting : ∀ path entries, answered.source ≠ .listing path entries) :
    Keeps tree cfg answered :=
  ⟨fun path inode heq => absurd heq (hfile path inode),
    fun _ path inode heq => absurd heq (hfile path inode),
    fun _ path entries heq => absurd heq (hlisting path entries)⟩

theorem keeps_of_clear (hchrono : chrono.Prints) (hroot : Rooted tree cfg)
    (h : Clear tree cfg request) {place : Located ι} (hcases : Locates tree cfg request place) :
    Keeps tree cfg (respondTo tree chrono cfg request place) := by
  unfold respondTo
  cases hcases with
  | text => exact keeps_unsourced (by simp [source_reply]) (by simp [source_reply])
  | redirect segments => exact keeps_unsourced (by simp [redirect_eq]) (by simp [redirect_eq])
  | fallback hopen => exact (served_fallback hroot hopen).keeps hchrono _
  | index hreached hslash hopen => exact (served_index h hroot hreached hslash hopen).keeps hchrono _
  | file hreached hopen => exact (served_file h hroot hreached hopen).keeps hchrono _
  | @listing segments resolved hreached hslash hlisting =>
    refine ⟨fun path inode heq => ?_, fun _ path inode heq => ?_, fun hhidden path entries heq => ?_⟩
    · rw [source_reply] at heq
      cases heq
    · rw [source_reply] at heq
      cases heq
    · rw [source_reply] at heq
      obtain ⟨rfl, rfl⟩ := Source.listing.inj heq
      intro entry hentry
      obtain ⟨hbelow, -, -⟩ := hreached.straight hroot
      rw [dotted_append hbelow]
      refine not_or_intro (h.not_dotted hroot hhidden hreached (.inr ⟨hslash, .inr ⟨hlisting, ?_⟩⟩)) ?_
      · exact List.ne_nil_of_mem hentry
      · rw [read_listing, hhidden] at hentry
        exact not_dotted_visible hentry

theorem dir?_of_regular {inode : ι} {file : File} (h : (tree.inode inode).kind = .file file) :
    tree.dir? inode = none := by
  simp [Tree.dir?, h, FileTree.Kind.dir?]

theorem clear_of_keeps (hchrono : chrono.Prints) (hroot : Rooted tree cfg)
    (h : Keeps tree cfg (answer tree chrono cfg request).value.2) : Clear tree cfg request := by
  intro hhidden _ segments resolved hreached hshows hdotted
  obtain ⟨hbelow, ⟨place, hstraight⟩, -⟩ := hreached.straight hroot
  have hanswer := hreached.answer chrono hstraight
  -- Asked for as a directory, what is below a hidden one is hidden.
  have hdirectory (hslash : (pathOf request.target).getLast? = some slash)
      (hdir : (tree.dir? place).isSome)
      (hsome : (open_regular tree (resolved ++ [index])).value.isSome ∨
        cfg.listing = true ∧ (read_listing tree resolved cfg.hidden).value ≠ []) : False := by
    rw [hanswer, if_pos hdir, answerDirectory, if_neg (not_not_intro hslash),
      Seen.value_bind] at h
    cases hindex : (open_regular tree (resolved ++ [index])).value with
    | some found =>
      rw [hindex] at h
      refine h.unhidden hhidden _ _ (source_serve_file hchrono _ _ _ _ _).1 ?_
      exact (dotted_append hbelow index).2 (.inl hdotted)
    | none =>
      obtain ⟨hlisting, hne⟩ := hsome.resolve_left (by simp [hindex])
      rw [hindex] at h
      dsimp only at h
      rw [if_pos hlisting, Seen.value_bind, Seen.value_pure] at h
      obtain ⟨entry, hentry⟩ := List.exists_mem_of_ne_nil _ hne
      refine h.unlisted hhidden _ _ (source_reply _ _ _ _ _) entry hentry ?_
      exact (dotted_append hbelow entry.1).2 (.inl hdotted)
  rcases hshows with hfile | ⟨hslash, hindex | ⟨hlisting, hne⟩⟩
  · obtain ⟨⟨inode, file⟩, hopen⟩ := Option.isSome_iff_exists.1 hfile
    obtain ⟨rfl, hkind⟩ := open_regular_self hstraight hopen
    rw [hanswer, if_neg (by simp [dir?_of_regular hkind]), hopen] at h
    exact h.unhidden hhidden _ _ (source_serve_file hchrono _ _ _ _ _).1 hdotted
  · obtain ⟨⟨inode, file⟩, hopen⟩ := Option.isSome_iff_exists.1 hindex
    exact hdirectory hslash (open_regular_child hstraight index_name hopen).2.2 (.inl hindex)
  · refine hdirectory hslash ?_ (.inr ⟨hlisting, hne⟩)
    by_contra hdir
    refine hne ?_
    rw [read_listing, Seen.value_bind, read_dir, hstraight.resolve]
    simp [Except.toOption, Option.not_isSome_iff_eq_none.1 hdir, visible]

/-- What goes out of an answer. -/
def Answered.written (answered : Answered ι) : Text :=
  (answered.head.elim [] Head.text) ++ answered.body

/-- **A request stays inside the root and sees nothing hidden**, from every
canonical root and for every tree, if and only if, with links followed and
hidden names off, no link leads it to a hidden path that has something to
show; and without the credentials there is one response, whatever is asked
of whatever tree. -/
theorem contained_iff {κ : Type} (tree : Tree ι File) (other : Tree κ File) (chrono : Chrono)
    (cfg : ServeConfig) (hchrono : chrono.Prints) (hroot : Rooted tree cfg) :
    (∀ request, Contained tree chrono cfg request ↔ Clear tree cfg request) ∧
      ∀ request request', unauthorised cfg request = true → unauthorised cfg request' = true →
        (answer tree chrono cfg request).value.2.written =
          (answer other chrono cfg request').value.2.written := by
  refine ⟨fun request => ⟨fun h => clear_of_keeps hchrono hroot h.keeps, fun h => ?_⟩,
    fun request request' h h' => ?_⟩
  · refine ⟨?_, links_answer hroot⟩
    rw [answer_eq]
    exact keeps_of_clear hchrono hroot h (located_cases tree cfg request)
  · rw [answer, if_pos h, answer, if_pos h']
    rfl

/-! ## A link into a hidden directory -/

/-- A root with a directory `w` that is served: a hidden directory `.s` with a
file `f`, and a link `p` to it. -/
def linkedTree : Tree ℕ File := .ofList
  [⟨0, 0o755, .dir 0 [([0x77], 1)]⟩, ⟨0, 0o755, .dir 0 [([0x2E, 0x73], 2), ([0x70], 3)]⟩,
    ⟨0, 0o755, .dir 1 [([0x66], 4)]⟩, ⟨0, 0o777, .link [0x2E, 0x73]⟩,
    ⟨0, 0o644, .file ⟨[0x78], none, by decide⟩⟩] (by decide)

/-- No dates. -/
def undated : Chrono := ⟨fun _ _ => none, fun _ => none⟩

theorem undated_prints : undated.Prints := fun _ _ h => by cases h

/-- `w` is served with links followed. -/
def linkedConfig : ServeConfig := ⟨[[0x77]], false, false, false, none, true⟩

theorem rooted_linkedConfig : Rooted linkedTree linkedConfig := by
  have hstraight : linkedTree.Straight ([] ++ [[0x77]]) 1 :=
    .down .root rfl (by decide) (by decide) rfl rfl
  exact ⟨1, hstraight, rfl⟩

/-- A request for `/p/f`. -/
def linkedRequest : HttpRequest := ⟨ascii "GET", [slash, 0x70, slash, 0x66], []⟩

theorem contained_iff_linked :
    undated.Prints ∧ Rooted linkedTree linkedConfig ∧
      (Contained linkedTree undated linkedConfig ⟨ascii "GET", [slash], []⟩ ↔
        Clear linkedTree linkedConfig ⟨ascii "GET", [slash], []⟩) :=
  ⟨undated_prints, rooted_linkedConfig, (contained_iff linkedTree linkedTree undated linkedConfig undated_prints
    rooted_linkedConfig).1 _⟩

theorem reached_linkedRequest :
    Reached linkedTree linkedConfig linkedRequest [[0x70], [0x66]] [[0x77], [0x2E, 0x73], [0x66]] :=
  ⟨by decide, .inl rfl, by decide, by decide +kernel, by decide, by decide +kernel⟩

/-- Asked for `/p/f`, the server answers with the file `.s/f`. -/
theorem hidden_through_link : ¬ Contained linkedTree undated linkedConfig linkedRequest := by
  intro h
  refine clear_of_keeps undated_prints rooted_linkedConfig h.keeps rfl rfl _ _
    reached_linkedRequest (.inl (by decide)) ?_
  exact ⟨[0x2E, 0x73], by decide, by decide⟩

end Serve

end Shep
