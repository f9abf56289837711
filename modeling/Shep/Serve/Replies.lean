import Shep.Serve.Links
import Shep.Serve.Answer

/-!
# Serve — what an answer can be

Every head an answer asks for is printable, so every answer goes out; and an
answer is a text in memory, a redirect, a listing or a file.
-/

namespace Shep

namespace Serve

open FileTree (Tree Name)

variable {ι : Type} {tree : Tree ι File} {chrono : Chrono} {cfg : ServeConfig}
variable {request : HttpRequest} {type body text : Text} {headers : List Header} {status : ℕ}

/-! ## Printable text -/

/-- Printable ASCII, all of it. -/
def Printable (text : Text) : Prop := text.all isPrintable = true

instance (text : Text) : Decidable (Printable text) := inferInstanceAs (Decidable (_ = true))

theorem Printable.append {front behind : Text} (h : Printable front) (h' : Printable behind) :
    Printable (front ++ behind) := by
  rw [Printable, List.all_append, h, h']
  rfl

theorem printable_append {front behind : Text} :
    Printable (front ++ behind) ↔ Printable front ∧ Printable behind := by
  rw [Printable, List.all_append, Bool.and_eq_true_iff]
  rfl

theorem printable_flatMap {α : Type} {f : α → Text} {xs : List α} (h : ∀ x ∈ xs, Printable (f x)) :
    Printable (xs.flatMap f) := by
  rw [Printable, List.all_flatMap, List.all_eq_true]
  exact h

theorem not_control {text : Text} : has_control_byte text = false ↔ Printable text := by
  rw [has_control_byte, Printable, ← Bool.not_eq_true, List.any_eq_true, List.all_eq_true]
  simp

theorem printable_digit {c : Char} (h : c.isDigit = true) :
    isPrintable c.toNat.toUInt8 = true := by
  have hle : 48 ≤ c.toNat ∧ c.toNat ≤ 57 := by
    simpa [Char.isDigit, UInt32.le_iff_toNat_le] using h
  have hall : ∀ n : Fin 58, 48 ≤ n.val → isPrintable n.val.toUInt8 = true := by decide
  exact hall ⟨c.toNat, by omega⟩ hle.1

theorem printable_decimal (n : ℕ) : Printable (decimal n) := by
  rw [Printable, decimal, ascii, Nat.repr_eq_ofList_toDigits, String.toList_ofList, List.all_map,
    List.all_eq_true]
  intro c hc
  exact printable_digit (Nat.isDigit_of_mem_toDigits (by decide) le_rfl hc)

theorem printable_signed (n : ℤ) : Printable (signed n) := by
  unfold signed
  split_ifs
  · exact Printable.append (by decide) (printable_decimal _)
  · exact printable_decimal _

theorem printable_escape_for_log (text : Text) : Printable (escape_for_log text) := by
  have hall : ∀ n : Fin 256, Printable (escapeByte (UInt8.ofFin n)) := by decide +kernel
  exact printable_flatMap fun byte _ => hall byte.toFin

theorem printable_encodeSegment (name : Text) : Printable (encodeSegment name) := by
  have hall : ∀ n : Fin 256, Printable (encodeByte (UInt8.ofFin n)) := by decide +kernel
  exact printable_flatMap fun byte _ => hall byte.toFin

theorem printable_location (segments : List Text) : Printable (location segments) := by
  have hjoined : Printable (joined (segments.map encodeSegment)) := by
    unfold joined
    induction segments with
    | nil => rfl
    | cons first others ih =>
      cases others with
      | nil => simpa using printable_encodeSegment first
      | cons second rest =>
        rw [List.map_cons, List.map_cons, List.intercalate_cons_cons]
        refine Printable.append (Printable.append (printable_encodeSegment first) (by decide)) ?_
        rw [← List.map_cons]
        exact ih
  rw [location, ← List.singleton_append]
  exact Printable.append (by decide) (Printable.append hjoined (by decide))

theorem printable_content_type (path : Text) : Printable (content_type path) := by
  have htypes : ∀ type ∈ TYPES, Printable type.2 := List.all_iff_forall_prop.1 (by decide +kernel)
  unfold content_type
  split_ifs
  · dsimp only
    cases hfind : TYPES.find? _ with
    | none => exact (by decide : Printable FALLBACK)
    | some type => exact htypes type (List.mem_of_find?_eq_some hfind)
  · decide

theorem ascii_ne_nil {s : String} (h : s ≠ "") : ascii s ≠ [] := by
  simpa [ascii] using h

/-! ## Heads go out -/

/-- The dates `chrono` writes are printable. -/
def Chrono.Prints (chrono : Chrono) : Prop :=
  ∀ secs text, chrono.format secs = some text → Printable text

/-- A header that may be written. -/
def Header.Clean (header : Header) : Prop := Printable header.name ∧ Printable header.value

instance (header : Header) : Decidable header.Clean := inferInstanceAs (Decidable (_ ∧ _))

theorem Header.Clean.fault {header : Header} (h : header.Clean) : header.fault = none := by
  rw [Header.fault, not_control.2 h.1, not_control.2 h.2]
  rfl

theorem respond_clean {head : Head} (h : ∀ header ∈ head.headers, header.Clean) :
    respond head = .ok { head with headers := head.headers ++ [nosniff] } := by
  have hnone : (head.headers ++ [nosniff]).findSome? Header.fault = none := by
    rw [List.findSome?_eq_none_iff]
    intro header hmem
    rcases List.mem_append.1 hmem with hmem | hmem
    · exact (h header hmem).fault
    · exact Header.Clean.fault (by rw [List.mem_singleton.1 hmem]; decide)
  rw [respond, write_head]
  simp only [hnone]

theorem reply_clean (h : ∀ header ∈ headers, header.Clean) (source : Source ι) :
    reply status type body headers source =
      ⟨status, body.length, some ⟨status, type, body.length, headers ++ [nosniff]⟩, body, source⟩ := by
  rw [reply, respond_clean h]

/-- The headers of a file's reply are clean. -/
theorem clean_fileHeaders (hchrono : chrono.Prints) (len : ℕ) (modified : Option ℤ)
    (outcome : Outcome) :
    ∀ header ∈ fileHeaders chrono (Validators.new len modified) len outcome, header.Clean := by
  have hetag : Printable (Validators.new len modified).etag := by
    cases modified with
    | none => exact ((show Printable _ by decide).append (printable_decimal _)).append (by decide)
    | some secs =>
      exact ((((show Printable _ by decide).append (printable_decimal _)).append
        (by decide)).append (printable_signed _)).append (by decide)
  have hrange : ∀ text ∈ (outcome.content_range len).toList, Printable text := by
    intro text htext
    cases outcome with
    | Whole | NotModified => simp [Outcome.content_range] at htext
    | Partial start stop =>
      obtain rfl : text = _ := by simpa [Outcome.content_range] using htext
      simp only [printable_append, printable_decimal, true_and, and_true]
      decide
    | Unsatisfiable =>
      obtain rfl : text = _ := by simpa [Outcome.content_range] using htext
      exact Printable.append (by decide) (printable_decimal _)
  intro header hmem
  rcases List.mem_append.1 hmem with hmem | hmem
  · rcases List.mem_append.1 hmem with hmem | hmem
    · rcases List.mem_pair.1 hmem with rfl | rfl
      · decide
      · exact ⟨(by decide : Printable (ascii "ETag")), hetag⟩
    · obtain ⟨text, htext, rfl⟩ := List.mem_map.1 hmem
      obtain ⟨secs, -, hformat⟩ := Option.bind_eq_some_iff.1 (Option.mem_toList.1 htext)
      exact ⟨(by decide : Printable (ascii "Last-Modified")), hchrono secs text hformat⟩
  · obtain ⟨text, htext, rfl⟩ := List.mem_map.1 hmem
    exact ⟨(by decide : Printable (ascii "Content-Range")), hrange text htext⟩

/-- The bytes an outcome sends of a file. -/
def Outcome.sent (request : HttpRequest) (content : Text) (outcome : Outcome) : Text :=
  if request.method = ascii "GET" then
    (outcome.slice content.length).elim [] fun bounds =>
      (content.drop bounds.1).take (wrappingSub bounds.2 bounds.1)
  else []

/-- The number of bytes an outcome declares. -/
def Outcome.length (len : ℕ) (outcome : Outcome) : ℕ :=
  (outcome.slice len).elim 0 fun bounds => wrappingSub bounds.2 bounds.1

theorem serve_file_eq (hchrono : chrono.Prints) (request : HttpRequest) (type : Text)
    (path : List Name) (inode : ι) (file : File) :
    ∃ outcome, outcome = decideOutcome chrono request file.content.length
        (Validators.new file.content.length file.modified) ∧
      serve_file chrono request type path inode file =
        ⟨outcome.status, outcome.length file.content.length,
          some ⟨outcome.status, type, outcome.length file.content.length,
            fileHeaders chrono (Validators.new file.content.length file.modified)
              file.content.length outcome ++ [nosniff]⟩,
          outcome.sent request file.content, .file path inode⟩ := by
  refine ⟨_, rfl, ?_⟩
  rw [serve_file]
  dsimp only
  rw [respond_clean]
  · rfl
  · exact clean_fileHeaders hchrono _ _ _

theorem redirect_eq (segments : List Text) :
    redirect (ι := ι) segments = ⟨301, 0, some ⟨301, ascii "text/plain", 0,
      [⟨ascii "Location", location segments⟩, nosniff]⟩, [], .nothing⟩ := by
  rw [redirect, respond_clean]
  · rfl
  · intro header hmem
    obtain rfl := List.mem_singleton.1 hmem
    exact ⟨(by decide : Printable (ascii "Location")), printable_location segments⟩

/-! ## What is found -/

section Seen

variable {α β : Type}

@[simp] theorem Seen.value_pure (a : α) : (pure a : Seen ι α).value = a := rfl

@[simp] theorem Seen.links_pure (a : α) : (pure a : Seen ι α).links = [] := rfl

@[simp] theorem Seen.value_bind (a : Seen ι α) (f : α → Seen ι β) :
    (a >>= f).value = (f a.value).value := rfl

@[simp] theorem Seen.links_bind (a : Seen ι α) (f : α → Seen ι β) :
    (a >>= f).links = a.links ++ (f a.value).links := rfl

end Seen

/-! ## Cases -/

/-- A request that is let through as far as a path of the tree. -/
structure Reached (tree : Tree ι File) (cfg : ServeConfig) (request : HttpRequest)
    (segments : List Text) (resolved : List Name) : Prop where
  authorised : unauthorised cfg request = false
  method : request.method = ascii "GET" ∨ request.method = ascii "HEAD"
  bodiless : hasDeclaredBody request = false
  resolves : resolve request.target = .ok segments
  shown : ¬ (isHidden segments = true ∧ cfg.hidden = false)
  contained : (contain tree cfg.root segments cfg.follow_symlinks).value = some resolved

/-- What a request leads to: a text held in memory, a redirect, the listing of
a directory, or a file with its content type. -/
inductive Located (ι : Type) where
  | text (status : ℕ) (body : Text) (headers : List Header)
  | redirect (segments : List Text)
  | listing (segments : List Text) (resolved : List Name)
  | file (type : Text) (path : List Name) (inode : ι) (file : File)

/-- Where a request leads that finds nothing. -/
def absent (tree : Tree ι File) (cfg : ServeConfig) (request : HttpRequest) : Located ι :=
  if cfg.spa ∧ (request.method = ascii "GET" ∨ request.method = ascii "HEAD") ∧
      (request.header "accept").any (holds (ascii "text/html")) then
    match (open_regular tree (cfg.root ++ [index])).value with
    | some (inode, file) => .file (content_type index) (cfg.root ++ [index]) inode file
    | none => .text 404 (ascii "not found\n") []
  else .text 404 (ascii "not found\n") []

/-- Where a request for a directory leads. -/
def locatedDirectory (tree : Tree ι File) (cfg : ServeConfig) (request : HttpRequest)
    (segments : List Text) (resolved : List Name) : Located ι :=
  if (pathOf request.target).getLast? = some slash then
    match (open_regular tree (resolved ++ [index])).value with
    | some (inode, file) => .file (content_type index) (resolved ++ [index]) inode file
    | none => if cfg.listing then .listing segments resolved else absent tree cfg request
  else .redirect segments

/-- Where a request leads whose target resolves. -/
def locatedSegments (tree : Tree ι File) (cfg : ServeConfig) (request : HttpRequest)
    (segments : List Text) : Located ι :=
  if isHidden segments ∧ cfg.hidden = false then absent tree cfg request
  else
    match (contain tree cfg.root segments cfg.follow_symlinks).value with
    | none => absent tree cfg request
    | some resolved =>
      match (metadata tree resolved).value with
      | none => absent tree cfg request
      | some found =>
        if (tree.dir? found).isSome then locatedDirectory tree cfg request segments resolved
        else
          match (open_regular tree resolved).value with
          | none => absent tree cfg request
          | some (inode, file) => .file (content_type (slash :: joined segments)) resolved inode file

/-- Where a request leads. -/
def located (tree : Tree ι File) (cfg : ServeConfig) (request : HttpRequest) : Located ι :=
  if unauthorised cfg request then .text 401 (ascii "unauthorized\n") [WWW_AUTHENTICATE]
  else if request.method ≠ ascii "GET" ∧ request.method ≠ ascii "HEAD" then
    .text 405 (ascii "method not allowed; this server answers GET and HEAD\n") [ALLOW]
  else if hasDeclaredBody request then
    .text 400 (ascii "this server does not accept a request body\n") []
  else match resolve request.target with
    | .error refusal => .text 400 (ascii refusal.display) []
    | .ok segments => locatedSegments tree cfg request segments

/-- The answer to a request that leads somewhere. -/
def respondTo (tree : Tree ι File) (chrono : Chrono) (cfg : ServeConfig) (request : HttpRequest) :
    Located ι → Answered ι
  | .text status body headers => reply status (ascii "text/plain") body headers .memory
  | .redirect segments => redirect segments
  | .listing segments resolved =>
    let entries := (read_listing tree resolved cfg.hidden).value
    reply 200 (ascii "text/html; charset=utf-8")
      (render (listingPath segments) (rows tree entries)) [] (.listing resolved entries)
  | .file type path inode file => serve_file chrono request type path inode file

/-! ### Answers by where requests lead -/

theorem send_not_found_eq : (send_not_found tree chrono cfg request).value =
    respondTo tree chrono cfg request (absent tree cfg request) := by
  unfold send_not_found absent
  split_ifs
  · rw [Seen.value_bind]
    cases (open_regular tree (cfg.root ++ [index])).value <;> rfl
  · rfl

theorem answerDirectory_eq (segments : List Text) (resolved : List Name) :
    (answerDirectory tree chrono cfg request segments resolved).value =
      respondTo tree chrono cfg request (locatedDirectory tree cfg request segments resolved) := by
  by_cases hslash : (pathOf request.target).getLast? = some slash
  · rw [answerDirectory, if_neg (not_not_intro hslash), Seen.value_bind, locatedDirectory,
      if_pos hslash]
    cases (open_regular tree (resolved ++ [index])).value with
    | some found => rfl
    | none =>
      dsimp only
      split_ifs
      · rfl
      · exact send_not_found_eq
  · rw [answerDirectory, if_pos hslash, locatedDirectory, if_neg hslash]
    rfl

theorem answerSegments_eq (segments : List Text) :
    (answerSegments tree chrono cfg request segments).value =
      respondTo tree chrono cfg request (locatedSegments tree cfg request segments) := by
  by_cases hhidden : isHidden segments = true ∧ cfg.hidden = false
  · rw [answerSegments, if_pos hhidden, locatedSegments, if_pos hhidden]
    exact send_not_found_eq
  · rw [answerSegments, if_neg hhidden, Seen.value_bind, locatedSegments, if_neg hhidden]
    cases (contain tree cfg.root segments cfg.follow_symlinks).value with
    | none => exact send_not_found_eq
    | some resolved =>
      dsimp only
      rw [Seen.value_bind]
      cases (metadata tree resolved).value with
      | none => exact send_not_found_eq
      | some found =>
        dsimp only
        split_ifs
        · exact answerDirectory_eq segments resolved
        · rw [Seen.value_bind]
          cases (open_regular tree resolved).value with
          | none => exact send_not_found_eq
          | some found => rfl

/-- **An answer is the response to where its request leads.** -/
theorem answer_eq (tree : Tree ι File) (chrono : Chrono) (cfg : ServeConfig)
    (request : HttpRequest) : (answer tree chrono cfg request).value.2 =
      respondTo tree chrono cfg request (located tree cfg request) := by
  unfold answer located
  split_ifs
  · rfl
  · rfl
  · rfl
  · cases resolve request.target with
    | error refusal => rfl
    | ok segments => exact answerSegments_eq segments

/-! ### Cases -/

/-- What a request can lead to. -/
inductive Locates (tree : Tree ι File) (cfg : ServeConfig) (request : HttpRequest) :
    Located ι → Prop
  | text {status : ℕ} {body : Text} {headers : List Header} :
      body ≠ [] → (∀ header ∈ headers, header.Clean) → status ∉ [206, 304, 416] →
      Locates tree cfg request (.text status body headers)
  | fallback {inode : ι} {file : File} :
      (open_regular tree (cfg.root ++ [index])).value = some (inode, file) →
      Locates tree cfg request (.file (content_type index) (cfg.root ++ [index]) inode file)
  | redirect (segments : List Text) : Locates tree cfg request (.redirect segments)
  | index {segments : List Text} {resolved : List Name} {inode : ι} {file : File} :
      Reached tree cfg request segments resolved →
      (pathOf request.target).getLast? = some slash →
      (open_regular tree (resolved ++ [Serve.index])).value = some (inode, file) →
      Locates tree cfg request
        (.file (content_type Serve.index) (resolved ++ [Serve.index]) inode file)
  | listing {segments : List Text} {resolved : List Name} :
      Reached tree cfg request segments resolved →
      (pathOf request.target).getLast? = some slash → cfg.listing = true →
      Locates tree cfg request (.listing segments resolved)
  | file {segments : List Text} {resolved : List Name} {inode : ι} {file : File} :
      Reached tree cfg request segments resolved →
      (open_regular tree resolved).value = some (inode, file) →
      Locates tree cfg request
        (.file (content_type (slash :: joined segments)) resolved inode file)

theorem absent_cases : Locates tree cfg request (absent tree cfg request) := by
  have hnone : Locates tree cfg request (.text 404 (ascii "not found\n") []) :=
    .text (ascii_ne_nil (by simp)) (by simp) (by decide)
  unfold absent
  split_ifs
  · cases hopen : (open_regular tree (cfg.root ++ [index])).value with
    | none => exact hnone
    | some found => exact .fallback hopen
  · exact hnone

theorem locatedDirectory_cases {segments : List Text} {resolved : List Name}
    (h : Reached tree cfg request segments resolved) :
    Locates tree cfg request (locatedDirectory tree cfg request segments resolved) := by
  by_cases hslash : (pathOf request.target).getLast? = some slash
  · rw [locatedDirectory, if_pos hslash]
    cases hopen : (open_regular tree (resolved ++ [index])).value with
    | some found => exact .index h hslash hopen
    | none =>
      dsimp only
      split_ifs with hlisting
      · exact .listing h hslash hlisting
      · exact absent_cases
  · rw [locatedDirectory, if_neg hslash]
    exact .redirect segments

theorem locatedSegments_cases {segments : List Text} (hauth : unauthorised cfg request = false)
    (hmethod : request.method = ascii "GET" ∨ request.method = ascii "HEAD")
    (hbody : hasDeclaredBody request = false) (hresolve : resolve request.target = .ok segments) :
    Locates tree cfg request (locatedSegments tree cfg request segments) := by
  by_cases hhidden : isHidden segments = true ∧ cfg.hidden = false
  · rw [locatedSegments, if_pos hhidden]
    exact absent_cases
  · rw [locatedSegments, if_neg hhidden]
    cases hcontain : (contain tree cfg.root segments cfg.follow_symlinks).value with
    | none => exact absent_cases
    | some resolved =>
      have hreached : Reached tree cfg request segments resolved :=
        ⟨hauth, hmethod, hbody, hresolve, hhidden, hcontain⟩
      dsimp only
      cases (metadata tree resolved).value with
      | none => exact absent_cases
      | some found =>
        dsimp only
        split_ifs
        · exact locatedDirectory_cases hreached
        · cases hopen : (open_regular tree resolved).value with
          | none => exact absent_cases
          | some found => exact .file hreached hopen

theorem clean_authenticate : ∀ header ∈ [WWW_AUTHENTICATE], header.Clean :=
  List.forall_mem_singleton.2 (by decide)

theorem clean_allow : ∀ header ∈ [ALLOW], header.Clean := List.forall_mem_singleton.2 (by decide)

theorem display_ne (refusal : Refusal) : refusal.display ≠ "" := by
  cases refusal <;> decide

/-- **What a request leads to**: a text, a redirect, a listing or a file. -/
theorem located_cases (tree : Tree ι File) (cfg : ServeConfig) (request : HttpRequest) :
    Locates tree cfg request (located tree cfg request) := by
  unfold located
  split_ifs with hauth hmethod hbody
  · exact .text (ascii_ne_nil (by simp)) clean_authenticate (by decide)
  · exact .text (ascii_ne_nil (by simp)) clean_allow (by decide)
  · exact .text (ascii_ne_nil (by simp)) (by simp) (by decide)
  · cases hresolve : resolve request.target with
    | error refusal => exact .text (ascii_ne_nil (display_ne refusal)) (by simp) (by decide)
    | ok segments =>
      refine locatedSegments_cases (by simpa using hauth) ?_ (by simpa using hbody) hresolve
      tauto

end Serve

end Shep
