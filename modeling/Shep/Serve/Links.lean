import Mathlib.Data.Bool.AllAny
import Shep.Serve.Path

/-!
# Serve — targets are canonical, and links lead back

A target is read one segment at a time, so a path with one more segment is
read by reading one more (`resolve_snoc`); and a segment that was encoded is
read as itself (`onSegment_encode`).
-/

namespace Shep

namespace Serve

open Utf8 (Valid)

variable {target name segment : Text} {segments stack : List Text} {byte : UInt8}

/-- What a segment of a resolved target is. -/
structure Plain (segment : Text) : Prop where
  nonempty : segment ≠ []
  notDot : segment ≠ [dot]
  notDots : segment ≠ [dot, dot]
  clean : segment.any isForbiddenByte = false
  utf8 : Valid segment

theorem valid_of_fromUtf8 {bytes : Text} (h : Utf8.fromUtf8 bytes = none) : Valid bytes := by
  have hcases := Utf8.fromUtf8_cases bytes
  rw [h] at hcases
  have hdecode : Utf8.decode {} bytes = (bytes, {}) := hcases
  have hsound := (Utf8.decode_sound Utf8.Held.sound_empty bytes).1
  rw [hdecode] at hsound
  exact hsound

/-! ## What is accepted -/

theorem onSegment_plain (h : onSegment stack segment = .ok segments)
    (hstack : ∀ s ∈ stack, Plain s) : ∀ s ∈ segments, Plain s := by
  unfold onSegment at h
  split at h
  · cases h
  · next decoded _ =>
    split_ifs at h with hclean hutf8 hempty hdots hnone
    · obtain rfl := Except.ok.inj h
      exact hstack
    · obtain rfl := Except.ok.inj h
      exact fun s hs => hstack s (List.dropLast_subset _ hs)
    · obtain rfl := Except.ok.inj h
      intro s hs
      rcases List.mem_append.1 hs with hs | hs
      · exact hstack s hs
      · obtain rfl := List.mem_singleton.1 hs
        rw [not_or] at hempty
        exact ⟨hempty.1, hempty.2, hdots, Bool.eq_false_iff.2 hclean,
          valid_of_fromUtf8 (Option.not_isSome_iff_eq_none.1 hutf8)⟩

theorem foldlM_plain {raws : List Text} (h : raws.foldlM onSegment stack = .ok segments)
    (hstack : ∀ s ∈ stack, Plain s) : ∀ s ∈ segments, Plain s := by
  induction raws generalizing stack with
  | nil =>
    obtain rfl := Except.ok.inj h
    exact hstack
  | cons raw raws ih =>
    rw [List.foldlM_cons] at h
    cases hraw : onSegment stack raw with
    | error refusal =>
      rw [hraw] at h
      cases h
    | ok stack' =>
      rw [hraw] at h
      exact ih h (onSegment_plain hraw hstack)

/-- **What a target resolves to is plain.** -/
theorem resolve_plain (h : resolve target = .ok segments) : ∀ s ∈ segments, Plain s := by
  unfold resolve at h
  split_ifs at h
  exact foldlM_plain h (by simp)

/-! ## One segment -/

theorem hexValue_hexUpper (byte : UInt8) :
    hexValue (hexUpper (byte >>> 4)) = some (byte >>> 4) ∧
      hexValue (hexUpper (byte &&& 0xF)) = some (byte &&& 0xF) ∧
      byte >>> 4 <<< 4 ||| byte &&& 0xF = byte := by
  have hall : ∀ n : Fin 256, hexValue (hexUpper (UInt8.ofFin n >>> 4)) = some (UInt8.ofFin n >>> 4) ∧
      hexValue (hexUpper (UInt8.ofFin n &&& 0xF)) = some (UInt8.ofFin n &&& 0xF) ∧
      UInt8.ofFin n >>> 4 <<< 4 ||| UInt8.ofFin n &&& 0xF = UInt8.ofFin n := by decide +kernel
  exact hall byte.toFin

/-- The bytes of a segment in a URL are safe, or of an escape: none is a
slash, a question mark, a hash or a quote. -/
theorem mem_encodeByte {b : UInt8} (h : b ∈ encodeByte byte) :
    b ≠ slash ∧ b ≠ 0x3F ∧ b ≠ 0x23 ∧ b ≠ 0x22 ∧ b ≠ 0x3C := by
  have hall : ∀ n : Fin 256, ((encodeByte (UInt8.ofFin n)).all fun b =>
      b ≠ slash ∧ b ≠ 0x3F ∧ b ≠ 0x23 ∧ b ≠ 0x22 ∧ b ≠ 0x3C) = true := by decide +kernel
  have hbyte := List.all_eq_true.1 (hall byte.toFin) b h
  exact of_decide_eq_true hbyte

theorem safe_ne_percent (h : isSafeSegmentByte byte = true) : byte ≠ percent := by
  rintro rfl
  revert h
  decide

theorem decodeSegment_encodeByte (byte : UInt8) (rest : Text) :
    decodeSegment (encodeByte byte ++ rest) = (decodeSegment rest).map (byte :: ·) := by
  unfold encodeByte
  split_ifs with hsafe
  · rw [List.singleton_append, decodeSegment.eq_def]
    simp only [if_neg (safe_ne_percent hsafe)]
  · obtain ⟨hhigh, hlow, hbyte⟩ := hexValue_hexUpper byte
    rw [List.cons_append, List.cons_append, List.singleton_append, decodeSegment.eq_def]
    simp only [if_true, hhigh, hlow, hbyte]

/-- **The decoder inverts the encoder**, for every sequence of bytes. -/
theorem decodeSegment_encodeSegment (name : Text) : decodeSegment (encodeSegment name) = .ok name := by
  induction name with
  | nil => rfl
  | cons byte name ih =>
    rw [encodeSegment, List.flatMap_cons, decodeSegment_encodeByte]
    rw [encodeSegment] at ih
    rw [ih]
    rfl

/-- A name that is in its directory. -/
structure IsName (name : Text) : Prop where
  nonempty : name ≠ []
  notDot : name ≠ [dot]
  notDots : name ≠ [dot, dot]
  utf8 : Valid name

theorem Plain.isName (h : Plain segment) : IsName segment :=
  ⟨h.nonempty, h.notDot, h.notDots, h.utf8⟩

/-- **A name that was encoded is read as itself**, or refused for a byte. -/
theorem onSegment_encode (h : IsName name) (stack : List Text) :
    onSegment stack (encodeSegment name) =
      if name.any isForbiddenByte then .error .forbiddenByte else .ok (stack ++ [name]) := by
  rw [onSegment, decodeSegment_encodeSegment]
  simp only [h.utf8.fromUtf8, h.nonempty, h.notDot, h.notDots, Option.isSome_none,
    Bool.false_eq_true, if_false, or_self]

theorem foldlM_encoded (h : ∀ s ∈ segments, Plain s) (stack : List Text) :
    (segments.map encodeSegment).foldlM onSegment stack = .ok (stack ++ segments) := by
  induction segments generalizing stack with
  | nil => rw [List.append_nil]; rfl
  | cons s segments ih =>
    have hs := h s List.mem_cons_self
    rw [List.map_cons, List.foldlM_cons, onSegment_encode hs.isName, hs.clean]
    have hrest := ih (fun t ht => h t (List.mem_cons_of_mem _ ht)) (stack ++ [s])
    rw [List.append_assoc] at hrest
    exact hrest

/-! ## A whole path -/

theorem mem_encodeSegment {b : UInt8} (h : b ∈ encodeSegment name) :
    b ≠ slash ∧ b ≠ 0x3F ∧ b ≠ 0x23 ∧ b ≠ 0x22 ∧ b ≠ 0x3C := by
  obtain ⟨byte, -, hb⟩ := List.mem_flatMap.1 h
  exact mem_encodeByte hb

theorem slash_not_mem (name : Text) : slash ∉ encodeSegment name :=
  fun h => (mem_encodeSegment h).1 rfl

/-- A byte that ends no path. -/
def Inner (text : Text) : Prop := ∀ b ∈ text, b ≠ 0x3F ∧ b ≠ 0x23

theorem inner_encodeSegment (name : Text) : Inner (encodeSegment name) :=
  fun _ hb => ⟨(mem_encodeSegment hb).2.1, (mem_encodeSegment hb).2.2.1⟩

theorem Inner.append {xs ys : Text} (hx : Inner xs) (hy : Inner ys) : Inner (xs ++ ys) := by
  intro b hb
  rcases List.mem_append.1 hb with hb | hb
  · exact hx b hb
  · exact hy b hb

theorem inner_slash : Inner [slash] := by
  intro b hb
  rw [List.mem_singleton.1 hb]
  decide

theorem inner_joined (segments : List Text) : Inner (joined (segments.map encodeSegment)) := by
  induction segments with
  | nil => exact fun b hb => nomatch hb
  | cons s segments ih =>
    cases segments with
    | nil => simpa [joined] using inner_encodeSegment s
    | cons t segments =>
      have hsplit : joined ((s :: t :: segments).map encodeSegment) =
          encodeSegment s ++ ([slash] ++ joined ((t :: segments).map encodeSegment)) := by
        simp [joined, List.intercalate]
      rw [hsplit]
      exact (inner_encodeSegment s).append (inner_slash.append ih)

theorem pathOf_append {xs : Text} (h : Inner xs) (ys : Text) : pathOf (xs ++ ys) = xs ++ pathOf ys := by
  unfold pathOf
  refine List.takeWhile_append_of_pos fun b hb => ?_
  obtain ⟨hquery, hfragment⟩ := h b hb
  simp [hquery, hfragment]

theorem foldlM_nil (stack : List Text) : [[]].foldlM onSegment stack = .ok stack := rfl

theorem foldlM_joined (h : ∀ s ∈ segments, Plain s) (stack : List Text) :
    ((joined (segments.map encodeSegment)).splitOn slash).foldlM onSegment stack =
      .ok (stack ++ segments) := by
  cases segments with
  | nil =>
    rw [List.append_nil]
    exact foldlM_nil stack
  | cons s segments =>
    rw [joined, List.splitOn_intercalate]
    · exact foldlM_encoded h stack
    · intro raw hraw
      obtain ⟨s, -, rfl⟩ := List.mem_map.1 hraw
      exact slash_not_mem s
    · exact List.cons_ne_nil _ _

/-- The path to some segments, each encoded. -/
def pathTo (segments : List Text) : Text := slash :: joined (segments.map encodeSegment)

theorem inner_pathTo (segments : List Text) : Inner (pathTo segments) :=
  inner_slash.append (inner_joined segments)

/-- **An encoded path resolves to its segments**, with a slash behind it or
not, and with a query or a fragment or not. -/
theorem resolve_pathTo (h : ∀ s ∈ segments, Plain s) {tail : Text} (htail : pathOf tail = []) :
    resolve (pathTo segments ++ tail) = .ok segments ∧
      resolve (pathTo segments ++ ([slash] ++ tail)) = .ok segments := by
  have hhead : ∀ rest, (pathTo segments ++ rest).head? = some slash := fun _ => rfl
  constructor
  · rw [resolve, if_pos (hhead _), pathOf_append (inner_pathTo _), htail, List.append_nil, pathTo,
      List.drop_one, List.tail_cons]
    exact foldlM_joined h []
  · rw [resolve, if_pos (hhead _), pathOf_append (inner_pathTo _), pathOf_append inner_slash, htail,
      List.append_nil, pathTo, List.cons_append, List.drop_one, List.tail_cons,
      List.splitOn_append_cons_self, List.foldlM_append, foldlM_joined h []]
    rfl

/-! ## The redirect -/

/-- One slash, and then something else. -/
def OneSlash (text : Text) : Prop := text.head? = some slash ∧ text.tail.head? ≠ some slash

instance (text : Text) : Decidable (OneSlash text) := inferInstanceAs (Decidable (_ ∧ _))

theorem resolve_location (h : ∀ s ∈ segments, Plain s) :
    resolve (location segments) = .ok segments := by
  have hpath : resolve (pathTo segments ++ ([slash] ++ [])) = .ok segments :=
    (resolve_pathTo h rfl).2
  rw [List.append_nil] at hpath
  exact hpath

theorem encodeSegment_ne_nil (h : name ≠ []) : encodeSegment name ≠ [] := by
  obtain ⟨byte, rest, rfl⟩ := List.exists_cons_of_ne_nil h
  rw [encodeSegment, List.flatMap_cons, encodeByte]
  split_ifs <;> simp

/-- **A redirect begins with one slash, unless it is to the root.** -/
theorem oneSlash_location (h : ∀ s ∈ segments, Plain s) :
    OneSlash (location segments) ↔ segments ≠ [] := by
  cases segments with
  | nil =>
    constructor
    · rintro ⟨-, hsecond⟩
      exact absurd rfl hsecond
    · exact fun hne => absurd rfl hne
  | cons s segments =>
    refine ⟨fun _ => List.cons_ne_nil _ _, fun _ => ⟨rfl, ?_⟩⟩
    obtain ⟨byte, rest, hs⟩ := List.exists_cons_of_ne_nil
      (encodeSegment_ne_nil (h s List.mem_cons_self).nonempty)
    have hhead : (location (s :: segments)).tail.head? = some byte := by
      cases segments <;>
        simp [location, joined, List.intercalate, hs]
    rw [hhead]
    have hbyte : byte ≠ slash := (mem_encodeSegment (hs ▸ List.mem_cons_self)).1
    simpa using hbyte

/-! ## The links of a listing -/

theorem splitOn_behind {path : Text} (h : path = [] ∨ path.getLast? = some slash) :
    ∃ raws, path.splitOn slash = raws ++ [[]] ∧
      ∀ rest, (path ++ rest).splitOn slash = raws ++ rest.splitOn slash := by
  rcases h with rfl | h
  · exact ⟨[], rfl, fun rest => rfl⟩
  · obtain ⟨front, rfl⟩ := List.getLast?_eq_some_iff.1 h
    refine ⟨front.splitOn slash, ?_, fun rest => ?_⟩
    · rw [List.splitOn_append_cons_self]
      rfl
    · rw [List.append_assoc, List.singleton_append, List.splitOn_append_cons_self]

theorem foldlM_href (entry : Entry) (h : IsName entry.name) (stack : List Text) :
    (entry.href.splitOn slash).foldlM onSegment stack =
      if entry.name.any isForbiddenByte then .error .forbiddenByte
      else .ok (stack ++ [entry.name]) := by
  have hone : (encodeSegment entry.name).splitOn slash = [encodeSegment entry.name] :=
    List.splitOn_eq_singleton (slash_not_mem _)
  have hsplit : entry.href.splitOn slash =
      encodeSegment entry.name :: if entry.isDir then [[]] else [] := by
    rw [Entry.href, Entry.suffix]
    split_ifs
    · rw [List.splitOn_append_cons_self, hone]
      rfl
    · rw [List.append_nil, hone]
  rw [hsplit, List.foldlM_cons, onSegment_encode h]
  split_ifs <;> rfl

theorem inner_href (entry : Entry) : Inner entry.href := by
  refine (inner_encodeSegment _).append ?_
  rw [Entry.suffix]
  split_ifs
  · exact inner_slash
  · exact fun b hb => nomatch hb

/-- **A link followed from the listing's own path** leads to its row, unless
the row's name has a byte that no segment may have. -/
theorem resolve_href (h : resolve target = .ok segments)
    (hdir : (pathOf target).getLast? = some slash) (entry : Entry) (hname : IsName entry.name) :
    resolve (pathOf target ++ entry.href) =
      if entry.name.any isForbiddenByte then .error .forbiddenByte
      else .ok (segments ++ [entry.name]) := by
  unfold resolve at h
  split_ifs at h with hhead
  obtain ⟨rest, rfl⟩ := List.head?_eq_some_iff.1 hhead
  have hpath : pathOf (slash :: rest) = slash :: pathOf rest := pathOf_append inner_slash rest
  rw [hpath] at h hdir ⊢
  rw [List.drop_one, List.tail_cons] at h
  have hends : pathOf rest = [] ∨ (pathOf rest).getLast? = some slash := by
    by_cases hnil : pathOf rest = []
    · exact Or.inl hnil
    · refine Or.inr ?_
      rwa [List.getLast?_cons_of_ne_nil hnil] at hdir
  have hinner : Inner (pathOf rest) := by
    intro b hb
    have hkept := List.all_eq_true.1 List.all_takeWhile b hb
    simpa using hkept
  obtain ⟨raws, hraws, hgo⟩ := splitOn_behind hends
  rw [hraws, List.foldlM_append] at h
  have hfull : pathOf (slash :: pathOf rest ++ entry.href) = slash :: (pathOf rest ++ entry.href) := by
    rw [← List.append_nil (slash :: pathOf rest ++ entry.href), pathOf_append]
    · exact List.append_nil _
    · exact (inner_slash.append hinner).append (inner_href entry)
  rw [resolve, if_pos (by rfl), hfull, List.drop_one, List.tail_cons, hgo, List.foldlM_append]
  cases hraw : raws.foldlM onSegment [] with
  | error refusal =>
    rw [hraw] at h
    cases h
  | ok stack =>
    rw [hraw] at h
    obtain rfl := Except.ok.inj h
    exact foldlM_href entry hname stack

/-! ## The page -/

/-- What a link begins with. -/
def anchorOpen : Text := ascii "<a href=\""

/-- The links of a page: what stands in quotes behind each `<a href=`. -/
def anchors : Text → List Text
  | [] => []
  | byte :: rest =>
    if anchorOpen.isPrefixOf (byte :: rest) then
      ((byte :: rest).drop anchorOpen.length).takeWhile (· ≠ 0x22) :: anchors rest
    else anchors rest

/-- No tag of a text is a link, whatever follows. -/
def quiet : Text → Bool
  | [] => true
  | [byte] => byte ≠ 0x3C
  | byte :: next :: rest => (byte ≠ 0x3C || next ≠ 0x61) && quiet (next :: rest)

theorem anchors_cons {rest : Text} (h : byte ≠ 0x3C ∨ ∃ next more, rest = next :: more ∧ next ≠ 0x61) :
    anchors (byte :: rest) = anchors rest := by
  have hno : anchorOpen.isPrefixOf (byte :: rest) = false := by
    have hopen : anchorOpen = 0x3C :: 0x61 :: ascii " href=\"" := by decide
    rw [hopen, List.isPrefixOf]
    rcases h with h | ⟨next, more, rfl, h⟩
    · rw [beq_false_of_ne h.symm, Bool.false_and]
    · rw [List.isPrefixOf, beq_false_of_ne h.symm, Bool.false_and, Bool.and_false]
  rw [anchors, hno]
  rfl

theorem anchors_quiet {text : Text} (h : quiet text = true) (rest : Text) :
    anchors (text ++ rest) = anchors rest := by
  fun_induction quiet text with
  | case1 => rfl
  | case2 byte => exact anchors_cons (Or.inl (by simpa using h))
  | case3 byte next more ih =>
    rw [Bool.and_eq_true] at h
    have hone : byte ≠ 0x3C ∨ next ≠ 0x61 := by simpa using h.1
    rw [List.cons_append, anchors_cons, ih h.2]
    rcases hone with hbyte | hnext
    · exact Or.inl hbyte
    · exact Or.inr ⟨next, more ++ rest, rfl, hnext⟩

theorem quiet_of_not_mem {text : Text} (h : (0x3C : UInt8) ∉ text) : quiet text = true := by
  fun_induction quiet text with
  | case1 => rfl
  | case2 byte =>
    have hne : byte ≠ 0x3C := fun hb => h (hb ▸ List.mem_singleton_self byte)
    exact decide_eq_true hne
  | case3 byte next more ih =>
    have hne : byte ≠ 0x3C := fun hb => h (hb ▸ List.mem_cons_self)
    rw [ih fun hin => h (List.mem_cons_of_mem _ hin), Bool.and_true, decide_eq_true hne,
      Bool.true_or]

theorem quiet_escapeHtml (text : Text) : quiet (escapeHtml text) = true := by
  refine quiet_of_not_mem fun hin => ?_
  obtain ⟨byte, -, hbyte⟩ := List.mem_flatMap.1 hin
  have hall : ∀ n : Fin 256, (0x3C : UInt8) ∉ escapedByte (UInt8.ofFin n) := by decide +kernel
  exact hall byte.toFin hbyte

/-- A link that is opened and closed. -/
theorem anchors_link {link : Text} (hquote : (0x22 : UInt8) ∉ link) (htag : (0x3C : UInt8) ∉ link)
    (rest : Text) :
    anchors (anchorOpen ++ (link ++ 0x22 :: rest)) = link :: anchors rest := by
  have hopen : anchorOpen = 0x3C :: ascii "a href=\"" := by decide
  have hquiet : quiet (ascii "a href=\"" ++ (link ++ [0x22])) = true := by
    refine quiet_of_not_mem fun hin => ?_
    rcases List.mem_append.1 hin with hin | hin
    · revert hin
      decide
    · rcases List.mem_append.1 hin with hin | hin
      · exact htag hin
      · exact absurd (List.mem_singleton.1 hin) (by decide)
  have hstart : anchorOpen.isPrefixOf (anchorOpen ++ (link ++ 0x22 :: rest)) = true :=
    List.isPrefixOf_iff_prefix.2 (List.prefix_append _ _)
  have hrest : ascii "a href=\"" ++ (link ++ 0x22 :: rest) =
      ascii "a href=\"" ++ (link ++ [0x22]) ++ rest := by simp
  have htake : (link ++ 0x22 :: rest).takeWhile (· ≠ 0x22) = link := by
    rw [List.takeWhile_append_of_pos]
    · rw [List.takeWhile_cons_of_neg (by decide), List.append_nil]
    · intro b hb
      have hne : b ≠ 0x22 := fun h => hquote (h ▸ hb)
      simpa using hne
  have hcons : anchorOpen ++ (link ++ 0x22 :: rest) =
      0x3C :: (ascii "a href=\"" ++ (link ++ 0x22 :: rest)) := by rw [hopen]; rfl
  have hdrop : (anchorOpen ++ (link ++ 0x22 :: rest)).drop anchorOpen.length =
      link ++ 0x22 :: rest := List.drop_left
  rw [hcons] at hstart hdrop ⊢
  rw [anchors, if_pos hstart, hdrop, htake, hrest, anchors_quiet hquiet]

theorem not_mem_href (entry : Entry) : (0x22 : UInt8) ∉ entry.href ∧ (0x3C : UInt8) ∉ entry.href := by
  have hsuffix : (0x22 : UInt8) ∉ entry.suffix ∧ (0x3C : UInt8) ∉ entry.suffix := by
    rw [Entry.suffix]
    split_ifs <;> decide
  constructor
  · intro hin
    rcases List.mem_append.1 hin with hin | hin
    · exact (mem_encodeSegment hin).2.2.2.1 rfl
    · exact hsuffix.1 hin
  · intro hin
    rcases List.mem_append.1 hin with hin | hin
    · exact (mem_encodeSegment hin).2.2.2.2 rfl
    · exact hsuffix.2 hin

theorem anchors_row (entry : Entry) (rest : Text) :
    anchors (entry.row ++ rest) = entry.href :: anchors rest := by
  have hsuffix : quiet entry.suffix = true := by
    rw [Entry.suffix]
    split_ifs <;> decide
  have hrow : entry.row ++ rest = ascii "<li>" ++ (anchorOpen ++ (entry.href ++ 0x22 ::
      (ascii ">" ++ (escapeHtml entry.name ++ (entry.suffix ++ (ascii "</a></li>" ++ rest)))))) := by
    have hopen : ascii "<li><a href=\"" = ascii "<li>" ++ anchorOpen := by decide
    have hclose : ascii "\">" = 0x22 :: ascii ">" := by decide
    rw [Entry.row, hopen, hclose]
    simp only [List.append_assoc, List.cons_append]
  rw [hrow, anchors_quiet (by decide), anchors_link (not_mem_href entry).1 (not_mem_href entry).2,
    anchors_quiet (by decide), anchors_quiet (quiet_escapeHtml _), anchors_quiet hsuffix,
    anchors_quiet (by decide)]

theorem anchors_rows (entries : List Entry) (rest : Text) :
    anchors (entries.flatMap Entry.row ++ rest) = entries.map Entry.href ++ anchors rest := by
  induction entries with
  | nil => rfl
  | cons entry entries ih =>
    rw [List.flatMap_cons, List.append_assoc, anchors_row, ih]
    rfl

/-- **The links of a listing**: one up, where it is not the root's, and one
a row. -/
theorem anchors_render (page : Text) (entries : List Entry) :
    anchors (render page entries) =
      (if page = [slash] then [] else [ascii "../"]) ++ entries.map Entry.href := by
  have hback : ∀ rest, anchors ((if page = [slash] then []
      else ascii "<li><a href=\"../\">../</a></li>") ++ rest) =
        (if page = [slash] then [] else [ascii "../"]) ++ anchors rest := by
    intro rest
    split_ifs
    · rfl
    · have hup : ascii "<li><a href=\"../\">../</a></li>" = ascii "<li>" ++ (anchorOpen ++
          (ascii "../" ++ 0x22 :: ascii ">../</a></li>")) := by decide
      rw [hup, List.append_assoc, anchors_quiet (by decide), List.append_assoc, List.append_assoc,
        List.cons_append, anchors_link (by decide) (by decide), anchors_quiet (by decide)]
      rfl
  rw [render]
  simp only [List.append_assoc]
  rw [anchors_quiet (by decide +kernel), anchors_quiet (by decide), anchors_quiet (quiet_escapeHtml _),
    anchors_quiet (by decide +kernel), anchors_quiet (quiet_escapeHtml _), anchors_quiet (by decide),
    hback, anchors_rows]
  have hend : anchors (ascii "</ul></body></html>") = [] := by decide
  rw [hend, List.append_nil]

/-! ## Both together -/

/-- **Targets are canonical, and links lead back.** What is resolved is
plain; a path of encoded segments resolves to them; the location of a
redirect does, and begins with one slash where it is not to the root; and
the links of a listing, followed from its own path, resolve to their rows
where the rows' names have no forbidden byte. -/
theorem targets_canonical (target : Text) (segments : List Text) :
    (resolve target = .ok segments → ∀ s ∈ segments, Plain s) ∧
    ((∀ s ∈ segments, Plain s) → ∀ tail, pathOf tail = [] →
      resolve (pathTo segments ++ tail) = .ok segments ∧
        resolve (pathTo segments ++ ([slash] ++ tail)) = .ok segments) ∧
    (resolve target = .ok segments →
      (OneSlash (location segments) ∧ resolve (location segments) = .ok segments ↔
        segments ≠ [])) ∧
    ∀ entries, resolve target = .ok segments →
      (pathOf target).getLast? = some slash →
        anchors (render (listingPath segments) entries) =
            (if listingPath segments = [slash] then [] else [ascii "../"]) ++
              entries.map Entry.href ∧
          ∀ entry ∈ entries, IsName entry.name →
            (resolve (pathOf target ++ entry.href) = .ok (segments ++ [entry.name]) ↔
              entry.name.any isForbiddenByte = false) := by
  refine ⟨fun h => resolve_plain h, fun h tail htail => resolve_pathTo h htail, fun h => ?_,
    fun entries h hdir => ⟨anchors_render _ _, fun entry _ hname => ?_⟩⟩
  · rw [oneSlash_location (resolve_plain h)]
    exact ⟨fun hone => hone.1, fun hne => ⟨hne, resolve_location (resolve_plain h)⟩⟩
  · rw [resolve_href h hdir entry hname]
    cases hbad : entry.name.any isForbiddenByte with
    | true => exact ⟨fun h => (by cases h), fun h => (by cases h)⟩
    | false => exact ⟨fun _ => rfl, fun _ => rfl⟩

/-- A target with an escape and a query, and a row below it. -/
theorem targets_canonical_docs :
    resolve (ascii "/docs/%61%2Eb/?x") = .ok [ascii "docs", ascii "a.b"] ∧
      OneSlash (location [ascii "docs", ascii "a.b"]) ∧
      resolve (ascii "/docs/%61%2Eb/" ++ Entry.href ⟨ascii "c d", true⟩) =
        .ok [ascii "docs", ascii "a.b", ascii "c d"] := by
  have hresolve : resolve (ascii "/docs/%61%2Eb/?x") = .ok [ascii "docs", ascii "a.b"] := by
    decide +kernel
  obtain ⟨-, -, hredirect, hlinks⟩ :=
    targets_canonical (ascii "/docs/%61%2Eb/?x") [ascii "docs", ascii "a.b"]
  have hentry : IsName (ascii "c d") :=
    ⟨by decide, by decide, by decide, valid_of_fromUtf8 (by decide)⟩
  have hdir : (pathOf (ascii "/docs/%61%2Eb/?x")).getLast? = some slash := by decide +kernel
  refine ⟨hresolve, ((hredirect hresolve).2 (by decide)).1, ?_⟩
  exact ((hlinks [⟨ascii "c d", true⟩] hresolve hdir).2 _ List.mem_cons_self hentry).2 (by decide)

/-- The redirect of a target that is the root names no path of this server,
and a file whose name has a colon is listed under a link that is refused. -/
theorem root_redirect :
    resolve (ascii "/a/..") = .ok [] ∧ location [] = ascii "//" ∧ ¬ OneSlash (location []) ∧
      resolve (ascii "/") = .ok [] ∧ IsName (ascii "a:b") ∧
      resolve (ascii "/" ++ Entry.href ⟨ascii "a:b", false⟩) = .error .forbiddenByte := by
  refine ⟨by decide +kernel, by decide, by decide, by decide +kernel,
    ⟨by decide, by decide, by decide, valid_of_fromUtf8 (by decide)⟩, by decide +kernel⟩

end Serve

end Shep
