import Shep.Serve.Contained

/-!
# Serve — one well-formed message a request

The head, the body and the log line of an answer. A reply in memory is
written in full whatever the method, and the method is logged as it came.
-/

namespace Shep

namespace Serve

open FileTree (Tree Name)

variable {ι : Type} {tree : Tree ι File} {chrono : Chrono} {cfg : ServeConfig}
variable {request : HttpRequest} {len start stop : ℕ} {value : Text}

/-! ## Byte ranges -/

/-- A single byte range, as a header names one. -/
inductive ByteRange where
  | span (first last : ℕ)
  | onward (first : ℕ)
  | suffix (n : ℕ)

/-- The bytes of a file a range selects. -/
def ByteRange.Selects (len : ℕ) : ByteRange → ℕ → Prop
  | .span first last, i => first ≤ i ∧ i ≤ last ∧ i < len
  | .onward first, i => first ≤ i ∧ i < len
  | .suffix n, i => len ≤ i + n ∧ i < len

/-- Digits that spell a `u64`. -/
def IsPosition (token : Text) : Prop :=
  token ≠ [] ∧ token.all isDigit = true ∧ valueOf token < u64

/-- A header's value names a range. -/
inductive Reads : Text → ByteRange → Prop
  | span {first last : Text} : IsPosition first → IsPosition last →
      Reads (ascii "bytes=" ++ (first ++ 0x2D :: last)) (.span (valueOf first) (valueOf last))
  | onward {first : Text} : IsPosition first →
      Reads (ascii "bytes=" ++ (first ++ [0x2D])) (.onward (valueOf first))
  | suffix {n : Text} : IsPosition n → Reads (ascii "bytes=" ++ (0x2D :: n)) (.suffix (valueOf n))

/-- A range, as `spec_of` reads one. -/
def ByteRange.spec : ByteRange → Spec
  | .span first last => .Span first last
  | .onward first => .From first
  | .suffix n => .Suffix n

theorem digits_eq_some {token : Text} {n : ℕ} :
    digits token = some n ↔ IsPosition token ∧ valueOf token = n := by
  unfold digits IsPosition
  split_ifs with hempty hlt
  · constructor
    · intro h
      cases h
    · rintro ⟨⟨hne, hdigits, -⟩, -⟩
      rcases hempty with hempty | hdigit
      · exact absurd hempty hne
      · rw [hdigits] at hdigit
        cases hdigit
  · rw [not_or, Bool.not_eq_false] at hempty
    exact ⟨fun h => ⟨⟨hempty.1, hempty.2, hlt⟩, Option.some.inj h⟩, fun h => by rw [h.2]⟩
  · constructor
    · intro h
      cases h
    · rintro ⟨⟨-, -, hbound⟩, -⟩
      exact absurd hbound hlt

theorem splitOnce_append {sep : UInt8} {before : Text} (h : sep ∉ before) (behind : Text) :
    splitOnce sep (before ++ sep :: behind) = some (before, behind) := by
  have hkeep : ∀ byte ∈ before, (byte != sep) = true := fun byte hbyte =>
    bne_iff_ne.2 fun heq => h (heq ▸ hbyte)
  rw [splitOnce, List.span_eq_takeWhile_dropWhile, List.takeWhile_append_of_pos hkeep,
    List.dropWhile_append_of_pos hkeep]
  simp

theorem splitOnce_eq_some {sep : UInt8} {text before behind : Text}
    (h : splitOnce sep text = some (before, behind)) : text = before ++ sep :: behind := by
  rw [splitOnce, List.span_eq_takeWhile_dropWhile] at h
  cases hdrop : text.dropWhile (· != sep) with
  | nil => rw [hdrop] at h; cases h
  | cons byte rest =>
    rw [hdrop] at h
    obtain ⟨rfl, rfl⟩ := Prod.mk.inj (Option.some.inj h)
    have hbyte : byte = sep := by
      have hhead := List.head?_dropWhile_not (· != sep) text
      rw [hdrop] at hhead
      simpa using hhead
    subst hbyte
    rw [← hdrop, List.takeWhile_append_dropWhile]

theorem stripPrefix_append (lead rest : Text) : stripPrefix lead (lead ++ rest) = some rest := by
  rw [stripPrefix, if_pos (List.isPrefixOf_iff_prefix.2 (List.prefix_append _ _)),
    List.drop_left]

theorem stripPrefix_eq_some {lead text rest : Text} (h : stripPrefix lead text = some rest) :
    text = lead ++ rest := by
  unfold stripPrefix at h
  split_ifs at h with hlead
  obtain ⟨rest', rfl⟩ := List.isPrefixOf_iff_prefix.1 hlead
  rw [List.drop_left] at h
  rw [Option.some.inj h]

theorem IsPosition.no_dash {token : Text} (h : IsPosition token) : 0x2D ∉ token := by
  intro hmem
  have hdigit := List.all_eq_true.1 h.2.1 _ hmem
  revert hdigit
  decide

/-- A range in the grammar is read as itself. -/
theorem spec_of_reads {range : ByteRange} (h : Reads value range) : spec_of value = range.spec := by
  cases h with
  | @span first last hfirst hlast =>
    rw [spec_of, stripPrefix_append]
    dsimp only
    rw [splitOnce_append hfirst.no_dash]
    obtain ⟨f, fs, rfl⟩ := List.exists_cons_of_ne_nil hfirst.1
    obtain ⟨l, ls, rfl⟩ := List.exists_cons_of_ne_nil hlast.1
    simp only [digits_eq_some.2 ⟨hfirst, rfl⟩, digits_eq_some.2 ⟨hlast, rfl⟩]
    rfl
  | @onward first hfirst =>
    rw [spec_of, stripPrefix_append]
    dsimp only
    rw [splitOnce_append hfirst.no_dash]
    obtain ⟨f, fs, rfl⟩ := List.exists_cons_of_ne_nil hfirst.1
    simp only [digits_eq_some.2 ⟨hfirst, rfl⟩]
    rfl
  | @suffix n hn =>
    rw [spec_of, stripPrefix_append]
    dsimp only
    rw [show (0x2D : UInt8) :: n = [] ++ 0x2D :: n from rfl, splitOnce_append List.not_mem_nil]
    obtain ⟨l, ls, rfl⟩ := List.exists_cons_of_ne_nil hn.1
    simp only [digits_eq_some.2 ⟨hn, rfl⟩]
    rfl

/-- What is read as a range is one in the grammar. -/
theorem reads_of_spec (value : Text) :
    spec_of value = .Ignored ∨ ∃ range, Reads value range ∧ spec_of value = range.spec := by
  cases hprefix : stripPrefix (ascii "bytes=") value with
  | none => exact .inl (by rw [spec_of, hprefix])
  | some spec =>
    cases hsplit : splitOnce 0x2D spec with
    | none => exact .inl (by rw [spec_of, hprefix]; simp only [hsplit])
    | some pair =>
      obtain ⟨first, last⟩ := pair
      have hvalue : value = ascii "bytes=" ++ (first ++ 0x2D :: last) := by
        rw [stripPrefix_eq_some hprefix, splitOnce_eq_some hsplit]
      cases first with
      | nil =>
        cases last with
        | nil => exact .inl (by rw [spec_of, hprefix]; simp only [hsplit])
        | cons l ls =>
          have hspec : spec_of value = (digits (l :: ls)).elim .Ignored .Suffix := by
            rw [spec_of, hprefix]
            simp only [hsplit]
          cases hdigits : digits (l :: ls) with
          | none => exact .inl (by rw [hspec, hdigits]; rfl)
          | some n =>
            obtain ⟨hn, rfl⟩ := digits_eq_some.1 hdigits
            have hreads : Reads value (.suffix (valueOf (l :: ls))) := by
              rw [hvalue]
              exact .suffix hn
            exact .inr ⟨_, hreads, spec_of_reads hreads⟩
      | cons f fs =>
        cases last with
        | nil =>
          have hspec : spec_of value = (digits (f :: fs)).elim .Ignored .From := by
            rw [spec_of, hprefix]
            simp only [hsplit]
          cases hdigits : digits (f :: fs) with
          | none => exact .inl (by rw [hspec, hdigits]; rfl)
          | some n =>
            obtain ⟨hn, rfl⟩ := digits_eq_some.1 hdigits
            have hreads : Reads value (.onward (valueOf (f :: fs))) := by
              rw [hvalue]
              exact .onward hn
            exact .inr ⟨_, hreads, spec_of_reads hreads⟩
        | cons l ls =>
          cases hfirst : digits (f :: fs) with
          | none => exact .inl (by rw [spec_of, hprefix]; simp only [hsplit, hfirst])
          | some n =>
            cases hlast : digits (l :: ls) with
            | none => exact .inl (by rw [spec_of, hprefix]; simp only [hsplit, hfirst, hlast])
            | some m =>
              obtain ⟨hn, rfl⟩ := digits_eq_some.1 hfirst
              obtain ⟨hm, rfl⟩ := digits_eq_some.1 hlast
              have hreads : Reads value (.span (valueOf (f :: fs)) (valueOf (l :: ls))) := by
                rw [hvalue]
                exact .span hn hm
              exact .inr ⟨_, hreads, spec_of_reads hreads⟩

/-! ## Arithmetic -/

theorem wrappingSub_eq {a b : ℕ} (h : b ≤ a) (ha : a < u64) : wrappingSub a b = a - b := by
  unfold wrappingSub
  rw [show a + (u64 - b) = (a - b) + u64 by omega, Nat.add_mod_right]
  exact Nat.mod_eq_of_lt (by omega)

theorem wrappingAdd_eq {a b : ℕ} (h : a + b < u64) : wrappingAdd a b = a + b :=
  Nat.mod_eq_of_lt h

/-- `a - b`, where it does not wrap. -/
def checkedSub (a b : ℕ) : Option ℕ := if b ≤ a then some (a - b) else none

/-- `a + b`, where it does not wrap. -/
def checkedAdd (a b : ℕ) : Option ℕ := if a + b < u64 then some (a + b) else none

/-- `range_of`, where nothing wraps. -/
def range_checked (header : Option Text) (len : ℕ) : Option Range :=
  match header with
  | none => some .Whole
  | some value =>
    match spec_of value with
    | .Ignored => some .Whole
    | .Suffix n =>
      if len = 0 then some .Unsatisfiable
      else if n = 0 then some .Unsatisfiable
      else do some (.Slice (← checkedSub len (min n len)) (← checkedSub len 1))
    | .From first =>
      if len = 0 then some .Unsatisfiable
      else if len ≤ first then some .Unsatisfiable
      else do some (.Slice first (← checkedSub len 1))
    | .Span first last =>
      if len = 0 then some .Unsatisfiable
      else if len ≤ first ∨ last < first then some .Unsatisfiable
      else do some (.Slice first (min last (← checkedSub len 1)))

/-- The slice of an outcome and its length, where nothing wraps. -/
def Outcome.length_checked (len : ℕ) : Outcome → Option ℕ
  | .Whole => checkedSub len 0
  | .Partial start stop => do checkedSub (← checkedAdd stop 1) start
  | .Unsatisfiable | .NotModified => some 0

theorem checkedSub_eq {a b : ℕ} (h : b ≤ a) (ha : a < u64) :
    checkedSub a b = some (wrappingSub a b) := by
  rw [checkedSub, if_pos h, wrappingSub_eq h ha]

/-- Nothing wraps where a range is read. -/
theorem range_checked_eq (header : Option Text) (hlen : len < u64) :
    range_checked header len = some (range_of header len) := by
  cases header with
  | none => rfl
  | some value =>
    cases hspec : spec_of value with
    | Ignored => simp only [range_checked, range_of, hspec]
    | Suffix n =>
      simp only [range_checked, range_of, hspec]
      split_ifs with hzero
      · rfl
      · rfl
      · rw [checkedSub_eq (Nat.min_le_right _ _) hlen, checkedSub_eq (by omega) hlen]
        rfl
    | From first | Span first last =>
      simp only [range_checked, range_of, hspec]
      split_ifs with hzero
      · rfl
      · rfl
      · rw [checkedSub_eq (by omega) hlen]
        rfl

/-! ## What a range gets -/

/-- A slice lies inside the file. -/
theorem range_of_slice {header : Option Text} (hlen : len < u64)
    (h : range_of header len = .Slice start stop) : start ≤ stop ∧ stop < len := by
  cases header with
  | none => cases h
  | some value =>
    cases hspec : spec_of value with
    | Ignored => simp [range_of, hspec] at h
    | Suffix n =>
      simp only [range_of, hspec] at h
      split_ifs at h with hzero hnone
      obtain ⟨rfl, rfl⟩ := Range.Slice.inj h
      rw [wrappingSub_eq (Nat.min_le_right _ _) hlen, wrappingSub_eq (by omega) hlen]
      omega
    | From first | Span first last =>
      simp only [range_of, hspec] at h
      split_ifs at h with hzero hpast
      obtain ⟨rfl, rfl⟩ := Range.Slice.inj h
      rw [wrappingSub_eq (by omega) hlen]
      omega

/-- A range of the grammar is not satisfiable if and only if it selects no
byte. -/
theorem unsatisfiable_of_reads {range : ByteRange} (h : Reads value range) :
    range_of (some value) len = .Unsatisfiable ↔ ∀ i, ¬ range.Selects len i := by
  have hspec := spec_of_reads h
  cases range with
  | span first last | onward first =>
    simp only [range_of, hspec, ByteRange.spec, ByteRange.Selects]
    split_ifs with hzero hpast
    · exact ⟨fun _ i => by omega, fun _ => rfl⟩
    · exact ⟨fun _ i => by omega, fun _ => rfl⟩
    · exact ⟨fun heq => (by cases heq), fun hnone => absurd (hnone first) (by omega)⟩
  | suffix n =>
    simp only [range_of, hspec, ByteRange.spec, ByteRange.Selects]
    split_ifs with hzero hnone
    · exact ⟨fun _ i => by omega, fun _ => rfl⟩
    · exact ⟨fun _ i => by omega, fun _ => rfl⟩
    · exact ⟨fun heq => (by cases heq), fun hnone => absurd (hnone (len - 1)) (by omega)⟩

/-- A header asks for no byte: it names one range, which selects none. -/
def AsksNothing (request : HttpRequest) (len : ℕ) : Prop :=
  ∃ value range, request.header "range" = some value ∧ Reads value range ∧
    ∀ i, ¬ range.Selects len i

theorem unsatisfiable_iff : range_of (request.header "range") len = .Unsatisfiable ↔
    AsksNothing request len := by
  constructor
  · intro h
    cases hheader : request.header "range" with
    | none => rw [hheader] at h; cases h
    | some value =>
      rw [hheader] at h
      obtain hspec | ⟨range, hreads, -⟩ := reads_of_spec value
      · simp [range_of, hspec] at h
      · exact ⟨value, range, hheader, hreads, (unsatisfiable_of_reads hreads).1 h⟩
  · rintro ⟨value, range, hheader, hreads, hnone⟩
    rw [hheader]
    exact (unsatisfiable_of_reads hreads).2 hnone

/-! ## Outcomes -/

theorem decideOutcome_cases (chrono : Chrono) (request : HttpRequest) (len : ℕ)
    (validators : Validators) :
    (decideOutcome chrono request len validators = .Unsatisfiable ↔
      AsksNothing request len ∧ notModified chrono request validators = false ∧
        rangeIgnored chrono request validators = false) ∧
      ∀ start stop, decideOutcome chrono request len validators = .Partial start stop →
        range_of (request.header "range") len = .Slice start stop := by
  unfold decideOutcome
  rw [← unsatisfiable_iff]
  cases notModified chrono request validators with
  | true => simp
  | false =>
    cases rangeIgnored chrono request validators with
    | true => simp
    | false => cases hrange : range_of (request.header "range") len <;> simp

theorem partial_bounds {validators : Validators} (hlen : len < u64)
    (h : decideOutcome chrono request len validators = .Partial start stop) :
    start ≤ stop ∧ stop < len :=
  range_of_slice hlen ((decideOutcome_cases chrono request len validators).2 start stop h)

/-- An outcome that stays inside the file. -/
def Outcome.Bounded (len : ℕ) : Outcome → Prop
  | .Partial start stop => start ≤ stop ∧ stop < len
  | _ => True

theorem bounded_decideOutcome (hlen : len < u64) (validators : Validators) :
    (decideOutcome chrono request len validators).Bounded len := by
  cases houtcome : decideOutcome chrono request len validators with
  | Partial start stop => exact partial_bounds hlen houtcome
  | Whole => trivial
  | Unsatisfiable => trivial
  | NotModified => trivial

theorem Outcome.partial_of_status {outcome : Outcome} (h : outcome.status = 206) :
    ∃ start stop, outcome = .Partial start stop := by
  cases outcome with
  | Partial start stop => exact ⟨start, stop, rfl⟩
  | Whole => cases h
  | Unsatisfiable => cases h
  | NotModified => cases h

theorem Outcome.status_eq_416 {outcome : Outcome} :
    outcome.status = 416 ↔ outcome = .Unsatisfiable := by
  cases outcome <;> simp [Outcome.status]

theorem Outcome.status_eq_304 {outcome : Outcome} :
    outcome.status = 304 ↔ outcome = .NotModified := by
  cases outcome <;> simp [Outcome.status]

theorem Outcome.length_whole (len : ℕ) : Outcome.Whole.length len = wrappingSub len 0 := by
  rw [Outcome.length, Outcome.slice, Option.elim_some]

theorem Outcome.length_partial (len start stop : ℕ) :
    (Outcome.Partial start stop).length len = wrappingSub (wrappingAdd stop 1) start := by
  rw [Outcome.length, Outcome.slice, Option.elim_some]

theorem Outcome.length_checked_eq {outcome : Outcome} (hlen : len < u64)
    (h : outcome.Bounded len) : outcome.length_checked len = some (outcome.length len) := by
  cases outcome with
  | Whole => rw [Outcome.length_checked, Outcome.length_whole, checkedSub_eq (Nat.zero_le _) hlen]
  | Partial start stop =>
    obtain ⟨hle, hlt⟩ : start ≤ stop ∧ stop < len := h
    have hbound : stop + 1 < u64 := by omega
    have hadd : checkedAdd stop 1 = some (wrappingAdd stop 1) := by
      rw [checkedAdd, if_pos hbound, wrappingAdd_eq hbound]
    have hsub : checkedSub (wrappingAdd stop 1) start =
        some (wrappingSub (wrappingAdd stop 1) start) := by
      rw [wrappingAdd_eq hbound, checkedSub_eq (Nat.le_succ_of_le hle) hbound]
    rw [Outcome.length_checked, hadd, Outcome.length_partial, ← hsub, Option.bind_eq_bind,
      Option.bind_some]
  | Unsatisfiable => rfl
  | NotModified => rfl

/-- A GET is sent as many bytes as an outcome declares. -/
theorem Outcome.length_sent {outcome : Outcome} {content : Text} (hlen : content.length < u64)
    (h : outcome.Bounded content.length) (hget : request.method = ascii "GET") :
    (outcome.sent request content).length = outcome.length content.length := by
  rw [Outcome.sent, if_pos hget]
  cases outcome with
  | Whole =>
    rw [Outcome.length_whole, Outcome.slice, Option.elim_some]
    dsimp only
    rw [wrappingSub_eq (Nat.zero_le _) hlen]
    simp
  | Partial start stop =>
    obtain ⟨hle, hlt⟩ : start ≤ stop ∧ stop < content.length := h
    have hbound : stop + 1 < u64 := by omega
    rw [Outcome.length_partial, Outcome.slice, Option.elim_some]
    dsimp only
    rw [wrappingAdd_eq hbound, wrappingSub_eq (Nat.le_succ_of_le hle) hbound, List.length_take,
      List.length_drop]
    omega
  | Unsatisfiable => rfl
  | NotModified => rfl

/-! ## The property -/

/-- One head of printable lines, and behind it as many bytes as it declares;
a 304 declares none and has none. -/
def Framed (answered : Answered ι) : Prop :=
  ∃ head, answered.head = some head ∧ (∀ line ∈ head.lines, Printable line) ∧
    if head.status = 304 then answered.body = []
    else answered.body.length = head.content_length

/-- A file's answer is of the bytes its range names; a 416 is of a single range
that selects none, where nothing overrides it; and nothing wraps. -/
structure Ranged (chrono : Chrono) (request : HttpRequest) (file : File) (answered : Answered ι) :
    Prop where
  slice : answered.status = 206 → ∃ head start stop, answered.head = some head ∧
    start ≤ stop ∧ stop < file.content.length ∧
    ⟨ascii "Content-Range", ascii "bytes " ++ decimal start ++ ascii "-" ++ decimal stop ++
      ascii "/" ++ decimal file.content.length⟩ ∈ head.headers ∧
    (request.method = ascii "GET" →
      answered.body = (file.content.drop start).take (stop + 1 - start))
  unsatisfiable : answered.status = 416 ↔
    AsksNothing request file.content.length ∧
      notModified chrono request (.new file.content.length file.modified) = false ∧
      rangeIgnored chrono request (.new file.content.length file.modified) = false
  exact : range_checked (request.header "range") file.content.length =
      some (range_of (request.header "range") file.content.length) ∧
    (decideOutcome chrono request file.content.length
      (.new file.content.length file.modified)).length_checked file.content.length =
      some answered.bytes

/-- The same request, as a GET. -/
def HttpRequest.asGet (request : HttpRequest) : HttpRequest :=
  { request with method := ascii "GET" }

/-- The response to a request is one well-formed message, and its log line one
line of printable ASCII. -/
structure WellFormed (tree : Tree ι File) (chrono : Chrono) (cfg : ServeConfig)
    (request : HttpRequest) : Prop where
  framed : request.method = ascii "GET" → Framed (answer tree chrono cfg request).value.2
  ranged : ∀ path inode file,
    (answer tree chrono cfg request).value.2.source = .file path inode →
    (tree.inode inode).kind = .file file →
    Ranged chrono request file (answer tree chrono cfg request).value.2
  otherwise : (∀ path inode, (answer tree chrono cfg request).value.2.source ≠ .file path inode) →
    (answer tree chrono cfg request).value.2.status ≠ 206 ∧
      (answer tree chrono cfg request).value.2.status ≠ 416
  headless : request.method = ascii "HEAD" →
    (answer tree chrono cfg request).value.2.status =
        (answer tree chrono cfg request.asGet).value.2.status ∧
      (answer tree chrono cfg request).value.2.head =
        (answer tree chrono cfg request.asGet).value.2.head ∧
      (answer tree chrono cfg request).value.2.body = []
  logged : ∀ peer : Option Text, (∀ address ∈ peer, Printable address) →
    Printable (log_access peer request.method (answer tree chrono cfg request).value.1
      (answer tree chrono cfg request).value.2.status
      (answer tree chrono cfg request).value.2.bytes)

/-- A reply held in memory: a refusal, a 404 or a listing. -/
def Located.inMemory : Located ι → Prop
  | .text _ _ _ | .listing _ _ => True
  | .redirect _ | .file _ _ _ _ => False

/-- A HEAD leads to a file or a redirect, and the method is printable. -/
def Sound (tree : Tree ι File) (cfg : ServeConfig) (request : HttpRequest) : Prop :=
  (request.method = ascii "HEAD" → ¬ (located tree cfg request).inMemory) ∧
    Printable request.method

/-! ## Heads -/

/-- A head of clean headers has printable lines. -/
theorem printable_lines {head : Head} (htype : Printable head.content_type)
    (hclean : ∀ header ∈ head.headers, header.Clean) : ∀ line ∈ head.lines, Printable line := by
  have hstart : Printable (ascii "HTTP/1.1 " ++ decimal head.status ++ ascii " ") :=
    (Printable.append (by decide) (printable_decimal _)).append (by decide)
  have hkind : Printable (ascii "Content-Type: " ++ head.content_type) :=
    Printable.append (by decide) htype
  have hlength : Printable (ascii "Content-Length: " ++ decimal head.content_length) :=
    Printable.append (by decide) (printable_decimal _)
  intro line hline
  simp only [Head.lines, List.mem_append, List.mem_cons, List.not_mem_nil, or_false,
    List.mem_map] at hline
  rcases hline with (((rfl | rfl) | hline) | ⟨header, hmem, rfl⟩) | rfl
  · exact hstart
  · exact hkind
  · split_ifs at hline
    · rw [List.mem_singleton.1 hline]
      exact hlength
    · cases hline
  · exact ((hclean header hmem).1.append (by decide)).append (hclean header hmem).2
  · decide

theorem clean_nosniff : nosniff.Clean := by decide

theorem clean_concat {headers : List Header} (h : ∀ header ∈ headers, header.Clean) :
    ∀ header ∈ headers ++ [nosniff], header.Clean := by
  intro header hmem
  rcases List.mem_append.1 hmem with hmem | hmem
  · exact h header hmem
  · rw [List.mem_singleton.1 hmem]
    exact clean_nosniff

theorem framed_reply {status : ℕ} {type body : Text} {headers : List Header} {source : Source ι}
    (htype : Printable type) (hclean : ∀ header ∈ headers, header.Clean) (hstatus : status ≠ 304) :
    Framed (reply status type body headers source) := by
  rw [reply_clean hclean]
  refine ⟨_, rfl, printable_lines htype (clean_concat hclean), ?_⟩
  dsimp only
  rw [if_neg hstatus]

theorem framed_redirect (segments : List Text) : Framed (redirect (ι := ι) segments) := by
  rw [redirect_eq]
  refine ⟨_, rfl, printable_lines (by decide : Printable (ascii "text/plain")) ?_, ?_⟩
  · exact clean_concat (List.forall_mem_singleton.2
      ⟨(by decide : Printable (ascii "Location")), printable_location segments⟩)
  · dsimp only
    rw [if_neg (by decide)]
    rfl

theorem framed_serve_file (hchrono : chrono.Prints) (hget : request.method = ascii "GET")
    {type : Text} (htype : Printable type) (path : List Name) (inode : ι) (file : File) :
    Framed (serve_file chrono request type path inode file) := by
  obtain ⟨outcome, houtcome, heq⟩ := serve_file_eq hchrono request type path inode file
  rw [heq]
  refine ⟨_, rfl, printable_lines htype (clean_concat (clean_fileHeaders hchrono _ _ _)), ?_⟩
  dsimp only
  have hbounded : outcome.Bounded file.content.length :=
    houtcome ▸ bounded_decideOutcome file.bounded _
  split_ifs with hstatus
  · rw [Outcome.status_eq_304.1 hstatus, Outcome.sent, if_pos hget]
    rfl
  · exact Outcome.length_sent file.bounded hbounded hget

/-! ## What a request gets -/

theorem regular_of_open {path : List Name} {inode : ι} {file : File}
    (h : (open_regular tree path).value = some (inode, file)) :
    (tree.inode inode).kind = .file file := by
  unfold open_regular at h
  cases hlstat : tree.lstat path with
  | error halt => simp [hlstat, Except.toOption] at h
  | ok found =>
    simp only [hlstat, Except.toOption, Option.bind_some] at h
    split at h
    · next file' hkind =>
      obtain ⟨rfl, rfl⟩ := Prod.mk.inj (Option.some.inj h)
      exact hkind
    · cases h

theorem Locates.regular {type : Text} {path : List Name} {inode : ι} {file : File}
    (h : Locates tree cfg request (.file type path inode file)) :
    (tree.inode inode).kind = .file file ∧ Printable type := by
  cases h with
  | fallback hopen | index _ _ hopen | file _ hopen =>
    exact ⟨regular_of_open hopen, printable_content_type _⟩

theorem framed_respondTo (hchrono : chrono.Prints) (hget : request.method = ascii "GET")
    {place : Located ι} (h : Locates tree cfg request place) :
    Framed (respondTo tree chrono cfg request place) := by
  cases place with
  | text status body headers =>
    cases h with
    | text _ hclean hstatus =>
      refine framed_reply (by decide) hclean fun heq => hstatus ?_
      simp [heq]
  | redirect segments => exact framed_redirect segments
  | listing segments resolved => exact framed_reply (by decide) (by simp) (by decide)
  | file type path inode file => exact framed_serve_file hchrono hget h.regular.2 path inode file

/-- A file's answer has the bytes its range names. -/
theorem ranged_serve_file (hchrono : chrono.Prints) (request : HttpRequest) (type : Text)
    (path : List Name) (inode : ι) (file : File) :
    Ranged chrono request file (serve_file chrono request type path inode file) := by
  obtain ⟨outcome, houtcome, heq⟩ := serve_file_eq hchrono request type path inode file
  have hbounded : outcome.Bounded file.content.length :=
    houtcome ▸ bounded_decideOutcome file.bounded _
  rw [heq]
  refine ⟨fun hstatus => ?_, ?_, range_checked_eq _ file.bounded, ?_⟩
  · obtain ⟨start, stop, rfl⟩ := Outcome.partial_of_status hstatus
    obtain ⟨hle, hlt⟩ : start ≤ stop ∧ stop < file.content.length := hbounded
    have hbound : stop + 1 < u64 := by
      have := file.bounded
      omega
    refine ⟨_, start, stop, rfl, hle, hlt, ?_, fun hget => ?_⟩
    · simp [fileHeaders, Outcome.content_range]
    · dsimp only
      rw [Outcome.sent, if_pos hget, Outcome.slice, Option.elim_some]
      dsimp only
      rw [wrappingAdd_eq hbound, wrappingSub_eq (Nat.le_succ_of_le hle) hbound]
  · rw [← (decideOutcome_cases chrono request _ _).1, ← houtcome]
    exact Outcome.status_eq_416
  · rw [← houtcome]
    exact Outcome.length_checked_eq file.bounded hbounded

theorem ranged_respondTo (hchrono : chrono.Prints) {place : Located ι} {path : List Name}
    {inode : ι} {file : File} (h : Locates tree cfg request place)
    (hsource : (respondTo tree chrono cfg request place).source = .file path inode)
    (hkind : (tree.inode inode).kind = .file file) :
    Ranged chrono request file (respondTo tree chrono cfg request place) := by
  cases place with
  | text status body headers | listing segments resolved =>
    simp [respondTo, source_reply] at hsource
  | redirect segments => simp [respondTo, redirect_eq] at hsource
  | file type path' inode' file' =>
    rw [respondTo, (source_serve_file hchrono request type path' inode' file').1] at hsource
    obtain ⟨rfl, rfl⟩ := Source.file.inj hsource
    obtain rfl : file' = file := by
      have hregular := h.regular.1
      rw [hkind] at hregular
      exact (FileTree.Kind.file.inj hregular).symm
    exact ranged_serve_file hchrono request type path' inode' file'

/-- Of what is no file, no part is sent. -/
theorem otherwise_respondTo (hchrono : chrono.Prints) {place : Located ι}
    (h : Locates tree cfg request place)
    (hsource : ∀ path inode, (respondTo tree chrono cfg request place).source ≠ .file path inode) :
    (respondTo tree chrono cfg request place).status ≠ 206 ∧
      (respondTo tree chrono cfg request place).status ≠ 416 := by
  cases place with
  | text status body headers =>
    cases h with
    | text _ hclean hstatus =>
      rw [respondTo, reply_clean hclean]
      simp only [List.mem_cons, List.not_mem_nil, or_false, not_or] at hstatus
      exact ⟨hstatus.1, hstatus.2.2⟩
  | redirect segments =>
    rw [respondTo, redirect_eq]
    exact ⟨(by decide : (301 : ℕ) ≠ 206), (by decide : (301 : ℕ) ≠ 416)⟩
  | listing segments resolved =>
    rw [respondTo, reply_clean (by simp)]
    exact ⟨(by decide : (200 : ℕ) ≠ 206), (by decide : (200 : ℕ) ≠ 416)⟩
  | file type path inode file =>
    exact absurd (source_serve_file hchrono request type path inode file).1 (hsource path inode)

/-! ## HEAD and GET -/

theorem located_asGet (h : request.method = ascii "HEAD") :
    located tree cfg request.asGet = located tree cfg request := by
  have hget : request.asGet.method = ascii "GET" := rfl
  have habsent : absent tree cfg request.asGet = absent tree cfg request := by
    unfold absent
    simp only [h, hget, true_or, or_true]
    rfl
  unfold located
  simp only [h, hget, ne_eq, not_true_eq_false, false_and, and_false, if_false]
  unfold locatedSegments locatedDirectory
  simp only [habsent]
  rfl

theorem body_ne_nil {place : Located ι} (h : Locates tree cfg request place)
    (hmemory : place.inMemory) : (respondTo tree chrono cfg request place).body ≠ [] := by
  cases place with
  | text status body headers =>
    cases h with
    | text hbody hclean _ =>
      rw [respondTo, reply_clean hclean]
      exact hbody
  | listing segments resolved =>
    rw [respondTo, reply_clean (by simp)]
    simp [render, ascii]
  | redirect segments => exact absurd hmemory id
  | file type path inode file => exact absurd hmemory id

/-- Of a file or a redirect, a HEAD gets the head alone. -/
theorem head_respondTo (hchrono : chrono.Prints) (hhead : request.method = ascii "HEAD")
    {place : Located ι} (hplace : ¬ place.inMemory) :
    (respondTo tree chrono cfg request place).status =
        (respondTo tree chrono cfg request.asGet place).status ∧
      (respondTo tree chrono cfg request place).head =
        (respondTo tree chrono cfg request.asGet place).head ∧
      (respondTo tree chrono cfg request place).body = [] := by
  cases place with
  | text status body headers => exact absurd trivial hplace
  | listing segments resolved => exact absurd trivial hplace
  | redirect segments =>
    rw [respondTo, redirect_eq]
    exact ⟨by rw [respondTo, redirect_eq], by rw [respondTo, redirect_eq], rfl⟩
  | file type path inode file =>
    obtain ⟨outcome, houtcome, heq⟩ := serve_file_eq hchrono request type path inode file
    obtain ⟨outcome', houtcome', heq'⟩ := serve_file_eq hchrono request.asGet type path inode file
    obtain rfl : outcome = outcome' := houtcome.trans houtcome'.symm
    rw [respondTo, respondTo, heq, heq']
    refine ⟨rfl, rfl, ?_⟩
    dsimp only
    rw [Outcome.sent, if_neg (by rw [hhead]; decide)]

/-! ## The log -/

theorem printable_log_access {peer : Option Text} {method path : Text} {status bytes : ℕ}
    (hpeer : ∀ address ∈ peer, Printable address) :
    Printable (log_access peer method path status bytes) ↔ Printable method := by
  have hfrom : Printable (peer.getD (ascii "-")) := by
    cases peer with
    | none => decide
    | some address => exact hpeer address rfl
  have hquote : Printable (ascii " \"") := by decide
  have hblank : Printable (ascii " ") := by decide
  have hclose : Printable (ascii "\" ") := by decide
  simp only [log_access, printable_append, printable_escape_for_log, printable_decimal, hfrom,
    hquote, hblank, hclose, true_and, and_true]

/-- **Every response is one well-formed message and every log line one line of
printable ASCII**, for every tree, configuration and request, if and only if
the method is printable and a HEAD leads to a file or a redirect. -/
theorem messages_iff (tree : Tree ι File) (chrono : Chrono) (cfg : ServeConfig)
    (request : HttpRequest) (hchrono : chrono.Prints) :
    WellFormed tree chrono cfg request ↔ Sound tree cfg request := by
  have hcases := located_cases tree cfg request
  constructor
  · intro h
    refine ⟨fun hhead hmemory => ?_, ?_⟩
    · have hbody := (h.headless hhead).2.2
      rw [answer_eq] at hbody
      exact body_ne_nil hcases hmemory hbody
    · exact (printable_log_access (by simp)).1 (h.logged none (by simp))
  · rintro ⟨hplace, hmethod⟩
    refine ⟨fun hget => ?_, fun path inode file hsource hkind => ?_, fun hsource => ?_,
      fun hhead => ?_, fun peer hpeer => (printable_log_access hpeer).2 hmethod⟩
    · rw [answer_eq]
      exact framed_respondTo hchrono hget hcases
    · rw [answer_eq] at hsource ⊢
      exact ranged_respondTo hchrono hcases hsource hkind
    · rw [answer_eq] at hsource ⊢
      exact otherwise_respondTo hchrono hcases hsource
    · rw [answer_eq, answer_eq, located_asGet hhead]
      exact head_respondTo hchrono hhead (hplace hhead)

/-! ## Two requests -/

/-- A root that is empty. -/
def emptyTree : Tree ℕ File := .ofList [⟨0, 0o755, .dir 0 []⟩] (by decide)

/-- The root is served, with no listings. -/
def bareConfig : ServeConfig := ⟨[], false, false, false, none, false⟩

theorem messages_iff_bare : undated.Prints ∧
    (WellFormed emptyTree undated bareConfig ⟨ascii "GET", ascii "/", []⟩ ↔
      Sound emptyTree bareConfig ⟨ascii "GET", ascii "/", []⟩) :=
  ⟨undated_prints, messages_iff emptyTree undated bareConfig _ undated_prints⟩

/-- A HEAD that finds nothing gets the body of its 404, and a method with an
escape in it is logged as it is. -/
theorem head_gets_body : ∃ absent escaped,
    parse_head id (ascii "HEAD /a HTTP/1.1\r\n\r\n") = .ok absent ∧
      parse_head id (ascii "\x1b[2J / HTTP/1.1\r\n\r\n") = .ok escaped ∧
      ¬ WellFormed emptyTree undated bareConfig absent ∧
      ¬ WellFormed emptyTree undated bareConfig escaped := by
  refine ⟨⟨ascii "HEAD", ascii "/a", []⟩, ⟨ascii "\x1b[2J", ascii "/", []⟩, by decide, by decide,
    fun h => ?_, fun h => ?_⟩
  · have hbody := (h.headless rfl).2.2
    revert hbody
    decide
  · have hlogged := h.logged none (by simp)
    revert hlogged
    decide

end Serve

end Shep
