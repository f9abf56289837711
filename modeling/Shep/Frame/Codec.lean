import Shep.Frame.Model

/-!
# Frame — when a map is a frame

Each derived decoder is settled by the values its own keys have in the map
(`reply_deserialize_iff`, `event_deserialize_iff`), in whatever order and
among whatever else they stand. `visitMap_reply` and `visitMap_event` say
which maps are which frame, and **`frames_exact`** that what is written is
read back, that no map with a reply's key is an event and no event's map a
reply.
-/

namespace Shep

namespace Frame

variable {V Outcome Info Message Json α : Type} {keys keys' : Keys V} {entry : String × V}
  {m : List (String × V)} {key : String} {value v : V}
  {layer : Layer V Outcome Info Message Json}

/-! ## What is in a map -/

/-- The values that stand under a key, in their order. -/
def values (key : String) (m : List (String × V)) : List V :=
  (m.filter fun entry => entry.1 = key).map Prod.snd

theorem values_cons_self : values key ((key, value) :: m) = value :: values key m := by
  unfold values
  rw [List.filter_cons_of_pos (by simp)]
  rfl

theorem values_cons_ne (h : entry.1 ≠ key) : values key (entry :: m) = values key m := by
  unfold values
  rw [List.filter_cons_of_neg (by simpa using h)]

/-- One of the entries has a key of a reply. -/
def hasReplyKey (m : List (String × V)) : Bool := m.any fun entry => Kind.of entry.1 == some .reply

/-- What is still to be read. -/
def Keys.entries (keys : Keys V) : List (String × V) :=
  match keys.first, keys.rest with
  | some key, (_, value) :: rest => (key, value) :: rest
  | _, rest => rest

/-- What the flag will be once all of it is read. -/
def Keys.noted (keys : Keys V) : Bool :=
  keys.replyKeySeen || hasReplyKey (if keys.first.isSome then keys.rest.tail else keys.rest)

theorem Keys.next_eq_none (h : keys.next = none) :
    keys.entries = [] ∧ keys.noted = keys.replyKeySeen := by
  unfold Keys.next at h
  split at h
  · next hrest =>
    unfold Keys.entries Keys.noted
    rw [hrest]
    cases keys.first <;> exact ⟨rfl, Bool.or_false _⟩
  · split at h <;> cases h

theorem Keys.next_eq_some (h : keys.next = some (entry, keys')) :
    keys.entries = entry :: keys'.entries ∧ keys'.noted = keys.noted := by
  unfold Keys.next at h
  split at h
  · cases h
  · next name value rest hrest =>
    split at h
    · next key hfirst =>
      obtain ⟨rfl, rfl⟩ := Prod.mk.inj (Option.some.inj h)
      unfold Keys.entries Keys.noted
      rw [hrest, hfirst]
      exact ⟨rfl, rfl⟩
    · next hfirst =>
      obtain ⟨rfl, rfl⟩ := Prod.mk.inj (Option.some.inj h)
      unfold Keys.entries Keys.noted
      rw [hrest, hfirst]
      exact ⟨rfl, Bool.or_assoc _ _ _⟩

/-! ## A reply -/

/-- What a field that has `acc` holds after the values of its key. -/
def Took (read : V → Except String α) : Option α → List V → Option α → Prop
  | acc, [], out => out = acc
  | acc, value :: rest, out =>
    acc = none ∧ ∃ found, read value = .ok found ∧ Took read (some found) rest out

theorem took_once {read : V → Except String α} {vs : List V} {found : α} :
    Took read none vs (some found) ↔ ∃ value, vs = [value] ∧ read value = .ok found := by
  cases vs with
  | nil => simp [Took]
  | cons value rest =>
    cases rest with
    | nil => simp [Took]
    | cons second rest => simp [Took]

theorem fields_eq_ok {id i : Option UInt64} {result r : Option Outcome} :
    Reply.fields layer id result keys = .ok (i, r) ↔
      Took layer.asId id (values "id" keys.entries) i ∧
        Took layer.asResult result (values "result" keys.entries) r := by
  fun_induction Reply.fields layer id result keys with
  | case1 id result keys hnext =>
    rw [(Keys.next_eq_none hnext).1]
    simp [Took, values, eq_comm]
  | case2 id result keys value rest hid hnext =>
    rw [(Keys.next_eq_some hnext).1, values_cons_self]
    obtain ⟨held, rfl⟩ := Option.isSome_iff_exists.1 hid
    simp [Took]
  | case3 id result keys value rest hid err herr hnext =>
    rw [(Keys.next_eq_some hnext).1, values_cons_self]
    simp [Took, herr]
  | case4 id result keys value rest hid found hfound hnext ih =>
    rw [ih, (Keys.next_eq_some hnext).1, values_cons_self, values_cons_ne (by simp)]
    obtain rfl := Option.not_isSome_iff_eq_none.1 hid
    simp [Took, hfound]
  | case5 id result keys value rest hresult hnext hne =>
    rw [(Keys.next_eq_some hnext).1, values_cons_self]
    obtain ⟨held, rfl⟩ := Option.isSome_iff_exists.1 hresult
    simp [Took]
  | case6 id result keys value rest hresult err herr hnext hne =>
    rw [(Keys.next_eq_some hnext).1, values_cons_self]
    simp [Took, herr]
  | case7 id result keys value rest hresult found hfound hnext hne ih =>
    rw [ih, (Keys.next_eq_some hnext).1, values_cons_self, values_cons_ne (by simp)]
    obtain rfl := Option.not_isSome_iff_eq_none.1 hresult
    simp [Took, hfound]
  | case8 id result keys key value rest hnext hid hresult ih =>
    rw [ih, (Keys.next_eq_some hnext).1, values_cons_ne hid, values_cons_ne hresult]

/-- **A reply is read from one `id` and one `result`**, and from nothing
else that is there. -/
theorem reply_deserialize_iff {reply : Reply Outcome} :
    Reply.deserialize layer keys = .ok reply ↔
      (∃ id, values "id" keys.entries = [id] ∧ layer.asId id = .ok reply.id) ∧
      ∃ result, values "result" keys.entries = [result] ∧
        layer.asResult result = .ok reply.result := by
  rw [← took_once, ← took_once, ← fields_eq_ok]
  unfold Reply.deserialize
  cases h : Reply.fields layer none none keys with
  | error err => simp
  | ok taken =>
    obtain ⟨i, r⟩ := taken
    cases i with
    | none => simp
    | some i =>
      cases r with
      | none => simp
      | some r => cases reply; simp

/-! ## An event -/

/-- What `next_relevant_key` finds, and what it leaves. -/
inductive Finds (keys : Keys V) : Option (TagOrContent × V) × Keys V → Prop
  | nothing {rest : Keys V} : values "event" keys.entries = [] → values "data" keys.entries = [] →
      rest.replyKeySeen = keys.noted → Finds keys (none, rest)
  | tag {value : V} {rest : Keys V} :
      values "event" keys.entries = value :: values "event" rest.entries →
      values "data" keys.entries = values "data" rest.entries →
      rest.noted = keys.noted → Finds keys (some (.tag, value), rest)
  | content {value : V} {rest : Keys V} :
      values "event" keys.entries = values "event" rest.entries →
      values "data" keys.entries = value :: values "data" rest.entries →
      rest.noted = keys.noted → Finds keys (some (.content, value), rest)

theorem Finds.skip {rest : Keys V} {found : Option (TagOrContent × V) × Keys V}
    (h : Finds rest found) (hentries : keys.entries = (key, value) :: rest.entries)
    (hnoted : rest.noted = keys.noted) (htag : key ≠ "event") (hcontent : key ≠ "data") :
    Finds keys found := by
  have ht : values "event" keys.entries = values "event" rest.entries := by
    rw [hentries, values_cons_ne htag]
  have hc : values "data" keys.entries = values "data" rest.entries := by
    rw [hentries, values_cons_ne hcontent]
  cases h with
  | nothing h1 h2 h3 => exact .nothing (ht.trans h1) (hc.trans h2) (h3.trans hnoted)
  | tag h1 h2 h3 => exact .tag (ht.trans h1) (hc.trans h2) (h3.trans hnoted)
  | content h1 h2 h3 => exact .content (ht.trans h1) (hc.trans h2) (h3.trans hnoted)

theorem nextRelevant_finds (keys : Keys V) : Finds keys (nextRelevant keys) := by
  fun_induction nextRelevant keys with
  | case1 keys hnext =>
    obtain ⟨hentries, hnoted⟩ := Keys.next_eq_none hnext
    refine .nothing ?_ ?_ hnoted.symm <;> rw [hentries] <;> rfl
  | case2 keys value rest hnext =>
    obtain ⟨hentries, hnoted⟩ := Keys.next_eq_some hnext
    refine .tag ?_ ?_ hnoted <;> rw [hentries]
    · exact values_cons_self
    · exact values_cons_ne (by simp)
  | case3 keys value rest hnext hne =>
    obtain ⟨hentries, hnoted⟩ := Keys.next_eq_some hnext
    refine .content ?_ ?_ hnoted <;> rw [hentries]
    · exact values_cons_ne (by simp)
    · exact values_cons_self
  | case4 keys key value rest hnext htag hcontent ih =>
    obtain ⟨hentries, hnoted⟩ := Keys.next_eq_some hnext
    exact ih.skip hentries hnoted htag hcontent

variable {event read : BusEvent Info Message Json} {seen : Bool} {variant : Variant}

/-- An event was read, and the flag is as it is said to be. -/
def Ends (res : Except String (BusEvent Info Message Json × Keys V))
    (event : BusEvent Info Message Json) (seen : Bool) : Prop :=
  ∃ keys, res = .ok (event, keys) ∧ keys.replyKeySeen = seen

@[simp] theorem ends_error {err : String} : ¬ Ends (.error err : Except String
    (BusEvent Info Message Json × Keys V)) event seen := by
  rintro ⟨keys, h, -⟩
  cases h

@[simp] theorem ends_ok :
    Ends (.ok (read, keys)) event seen ↔ read = event ∧ keys.replyKeySeen = seen := by
  simp [Ends]

theorem visitRemaining_iff : Ends (visitRemaining read keys) event seen ↔
    values "event" keys.entries = [] ∧ values "data" keys.entries = [] ∧ read = event ∧
      keys.noted = seen := by
  unfold visitRemaining
  have hfinds := nextRelevant_finds keys
  generalize nextRelevant keys = found at hfinds ⊢
  cases hfinds with
  | nothing htag hcontent hseen => simp [htag, hcontent, hseen]
  | tag htag hcontent hnoted => simp [htag]
  | content htag hcontent hnoted => simp [hcontent]

theorem readData_iff {data : V} : Ends (readData layer variant data keys) event seen ↔
    values "event" keys.entries = [] ∧ values "data" keys.entries = [] ∧
      layer.asData variant data = .ok event ∧ keys.noted = seen := by
  unfold readData
  cases layer.asData variant data with
  | error err => simp
  | ok read => simp [visitRemaining_iff]

/-- What the values of the two keys come to. -/
def EventFrom (layer : Layer V Outcome Info Message Json) (m : List (String × V))
    (event : BusEvent Info Message Json) : Prop :=
  ∃ tag variant, values "event" m = [tag] ∧ readVariant layer tag = .ok variant ∧
    ((∃ data, values "data" m = [data] ∧ layer.asData variant data = .ok event) ∨
      values "data" m = [] ∧ variant = .daemonShutdown ∧ .daemonShutdown = event)

/-- **An event is read from one `event`**, and from one `data` unless its
variant has no fields, and the flag tells whether a reply's key went by. -/
theorem event_deserialize_iff : Ends (BusEvent.deserialize layer keys) event seen ↔
    EventFrom layer keys.entries event ∧ keys.noted = seen := by
  unfold BusEvent.deserialize EventFrom
  have hfinds := nextRelevant_finds keys
  generalize nextRelevant keys = found at hfinds ⊢
  cases hfinds with
  | nothing htag hcontent hseen => simp [htag]
  | @tag tag rest htag hcontent hnoted =>
    rw [htag, hcontent, ← hnoted]
    dsimp only
    cases hvariant : readVariant layer tag with
    | error err => simp [hvariant]
    | ok variant =>
      have hfinds := nextRelevant_finds rest
      generalize nextRelevant rest = found at hfinds ⊢
      cases hfinds with
      | nothing htag hcontent hseen =>
        by_cases hv : variant = .daemonShutdown <;> simp [hv, hvariant, htag, hcontent, hseen]
      | tag htag hcontent hnoted => simp [htag]
      | content htag hcontent hnoted =>
        dsimp only
        rw [readData_iff, htag, hcontent, ← hnoted]
        simp [hvariant, and_assoc]
  | @content data rest htag hcontent hnoted =>
    rw [htag, hcontent, ← hnoted]
    dsimp only
    have hfinds := nextRelevant_finds rest
    generalize nextRelevant rest = found at hfinds ⊢
    cases hfinds with
    | nothing htag hcontent hseen => simp [htag]
    | @tag tag rest htag hcontent hnoted =>
      dsimp only
      rw [htag, hcontent, ← hnoted]
      cases hvariant : readVariant layer tag with
      | error err => simp [hvariant]
      | ok variant =>
        rw [readData_iff]
        simp [hvariant, and_assoc]
    | content htag hcontent hnoted => simp [hcontent]

/-! ## A frame -/

/-- The kind of the first key that has one. -/
def firstKind (m : List (String × V)) : Option Kind := m.findSome? fun entry => Kind.of entry.1

theorem values_unknown {k : Kind} (hkey : Kind.of key = some k) (h : Kind.of entry.1 = none) :
    values key (entry :: m) = values key m := by
  refine values_cons_ne fun heq => ?_
  rw [heq, hkey] at h
  cases h

theorem kind_id : Kind.of "id" = some .reply := rfl

theorem kind_result : Kind.of "result" = some .reply := rfl

theorem kind_event : Kind.of "event" = some .event := rfl

theorem kind_data : Kind.of "data" = some .event := rfl

/-- **Which maps are a reply**: a reply's key is the first of the four, and
each of the two is there once. -/
theorem visitMap_reply {reply : Reply Outcome} : visitMap layer m = .ok (.reply reply) ↔
    firstKind m = some .reply ∧
      (∃ id, values "id" m = [id] ∧ layer.asId id = .ok reply.id) ∧
      ∃ result, values "result" m = [result] ∧ layer.asResult result = .ok reply.result := by
  induction m with
  | nil => simp [visitMap, firstKind]
  | cons entry m ih =>
    obtain ⟨name, value⟩ := entry
    unfold visitMap firstKind
    rw [List.findSome?_cons]
    cases hkind : Kind.of name with
    | none =>
      rw [values_unknown kind_id hkind, values_unknown kind_result hkind]
      exact ih
    | some kind =>
      cases kind with
      | reply =>
        have hread : Reply.deserialize layer ⟨some name, (name, value) :: m, false⟩ = .ok reply ↔
          _ := reply_deserialize_iff
        refine Iff.trans ?_ (hread.trans (and_iff_right rfl).symm)
        dsimp only
        cases Reply.deserialize layer ⟨some name, (name, value) :: m, false⟩ <;> simp
      | event =>
        dsimp only
        cases BusEvent.deserialize layer ⟨some name, (name, value) :: m, false⟩ with
        | error err => simp
        | ok read =>
          obtain ⟨event, keys⟩ := read
          by_cases hs : keys.replyKeySeen = true <;> simp [hs]

/-- **Which maps are an event**: no key of a reply is among them. -/
theorem visitMap_event : visitMap layer m = .ok (.event event) ↔
    hasReplyKey m = false ∧ EventFrom layer m event := by
  induction m with
  | nil => simp [visitMap, EventFrom, values]
  | cons entry m ih =>
    obtain ⟨name, value⟩ := entry
    unfold visitMap hasReplyKey
    rw [List.any_cons]
    cases hkind : Kind.of name with
    | none =>
      unfold EventFrom
      rw [values_unknown kind_event hkind, values_unknown kind_data hkind]
      exact ih
    | some kind =>
      cases kind with
      | reply =>
        dsimp only
        cases Reply.deserialize layer ⟨some name, (name, value) :: m, false⟩ <;> simp
      | event =>
        have hread : Ends (BusEvent.deserialize layer ⟨some name, (name, value) :: m, false⟩) event
          false ↔ _ := event_deserialize_iff
        have hnoted : (Keys.mk (some name) ((name, value) :: m) false).noted = hasReplyKey m := rfl
        rw [hnoted, and_comm] at hread
        refine Iff.trans ?_ hread
        dsimp only
        cases BusEvent.deserialize layer ⟨some name, (name, value) :: m, false⟩ with
        | error err => simp
        | ok read =>
          obtain ⟨event, keys⟩ := read
          rw [ends_ok]
          by_cases hs : keys.replyKeySeen = true <;> simp [hs]

/-! ## What is written is read back -/

theorem values_append {m' : List (String × V)} :
    values key (m ++ m') = values key m ++ values key m' := by
  unfold values
  rw [List.filter_append, List.map_append]

theorem values_perm {m' : List (String × V)} (key : String) (h : m.Perm m') :
    (values key m).Perm (values key m') := (h.filter _).map _

theorem values_of_unknown {k : Kind} (hkey : Kind.of key = some k)
    (h : ∀ entry ∈ m, Kind.of entry.1 = none) : values key m = [] := by
  induction m with
  | nil => rfl
  | cons entry m ih =>
    rw [values_unknown hkey (h entry List.mem_cons_self)]
    exact ih fun entry he => h entry (List.mem_cons_of_mem _ he)

theorem values_shuffled {k : Kind} {extra written : List (String × V)} {vs : List V}
    (hkey : Kind.of key = some k) (hextra : ∀ entry ∈ extra, Kind.of entry.1 = none)
    (hm : m.Perm (written ++ extra)) (hvs : values key written = vs) (hone : vs.length ≤ 1) :
    values key m = vs := by
  have hperm := values_perm key hm
  rw [values_append, values_of_unknown hkey hextra, List.append_nil, hvs] at hperm
  match vs, hone with
  | [], _ => exact hperm.eq_nil
  | [v], _ => exact List.perm_singleton.1 hperm

theorem readVariant_name (hl : layer.Faithful) (variant : Variant) :
    readVariant layer (layer.ofText variant.name) = .ok variant := by
  unfold readVariant
  rw [hl.text]
  cases variant <;> rfl

/-- The kind of a frame. -/
def ServerFrame.kind : ServerFrame Outcome Info Message Json → Kind
  | .reply _ => .reply
  | .event _ => .event

theorem kind_serialize (frame : ServerFrame Outcome Info Message Json) :
    ∀ entry ∈ frame.serialize layer, Kind.of entry.1 = some frame.kind := by
  cases frame with
  | reply answer =>
    refine List.forall_mem_cons.2 ⟨rfl, List.forall_mem_cons.2 ⟨rfl, ?_⟩⟩
    exact List.forall_mem_nil _
  | event told =>
    cases told <;> refine List.forall_mem_cons.2 ⟨rfl, ?_⟩ <;>
      first
        | exact List.forall_mem_nil _
        | exact List.forall_mem_cons.2 ⟨rfl, List.forall_mem_nil _⟩

theorem firstKind_eq {k : Kind} (hone : ∀ entry ∈ m, Kind.of entry.1 = some k ∨
    Kind.of entry.1 = none) (hsome : ∃ entry ∈ m, Kind.of entry.1 = some k) :
    firstKind m = some k := by
  unfold firstKind
  cases hfirst : m.findSome? fun entry => Kind.of entry.1 with
  | none =>
    obtain ⟨entry, he, hkind⟩ := hsome
    rw [List.findSome?_eq_none_iff.1 hfirst entry he] at hkind
    cases hkind
  | some found =>
    obtain ⟨entry, he, hkind⟩ := List.exists_of_findSome?_eq_some hfirst
    rcases hone entry he with h | h
    · exact hkind ▸ h
    · rw [h] at hkind
      cases hkind

theorem hasReplyKey_eq_true : hasReplyKey m = true ↔
    ∃ entry ∈ m, Kind.of entry.1 = some .reply := by
  unfold hasReplyKey
  simp [List.any_eq_true]

/-- **What is written is read back**, in any order and among any keys no
frame has. -/
theorem visitMap_serialize (hl : layer.Faithful) {extra : List (String × V)}
    (frame : ServerFrame Outcome Info Message Json)
    (hextra : ∀ entry ∈ extra, Kind.of entry.1 = none)
    (hm : m.Perm (frame.serialize layer ++ extra)) : visitMap layer m = .ok frame := by
  have hvalues : ∀ {key k vs}, Kind.of key = some k → values key (frame.serialize layer) = vs →
      vs.length ≤ 1 → values key m = vs := fun hkey hvs => values_shuffled hkey hextra hm hvs
  have hkinds : ∀ entry ∈ m, Kind.of entry.1 = some frame.kind ∨ Kind.of entry.1 = none := by
    intro entry he
    rcases List.mem_append.1 (hm.mem_iff.1 he) with h | h
    · exact Or.inl (kind_serialize frame entry h)
    · exact Or.inr (hextra entry h)
  cases frame with
  | reply answer =>
    have hfirst : firstKind m = some .reply :=
      firstKind_eq hkinds
        ⟨("id", layer.ofId answer.id), hm.mem_iff.2 List.mem_cons_self, kind_id⟩
    exact visitMap_reply.2 ⟨hfirst,
      ⟨_, hvalues kind_id rfl (Nat.le_refl 1), hl.id _⟩,
      ⟨_, hvalues kind_result rfl (Nat.le_refl 1), hl.result _⟩⟩
  | event told =>
    have hquiet : hasReplyKey m = false := by
      by_contra h
      obtain ⟨entry, he, hreply⟩ := hasReplyKey_eq_true.1 (Bool.not_eq_false _ ▸ h)
      rcases hkinds entry he with hk | hk <;> rw [hk] at hreply <;> cases hreply
    have hread := readVariant_name hl told.variant
    refine visitMap_event.2 ⟨hquiet, ?_⟩
    by_cases hunit : told.variant = .daemonShutdown
    · -- the one variant without fields
      have htold : told = .daemonShutdown := by
        cases told <;> first | rfl | cases hunit
      subst htold
      exact ⟨_, _, hvalues kind_event rfl (Nat.le_refl 1), hread,
        Or.inr ⟨hvalues kind_data rfl (Nat.zero_le 1), rfl, rfl⟩⟩
    · have hwritten : (ServerFrame.event told : ServerFrame Outcome Info Message Json).serialize
          layer = [("event", layer.ofText told.variant.name), ("data", layer.ofData told)] := by
        cases told <;> first | rfl | exact absurd rfl hunit
      rw [hwritten] at hvalues
      exact ⟨_, _, hvalues kind_event rfl (Nat.le_refl 1), hread,
        Or.inl ⟨_, hvalues kind_data rfl (Nat.le_refl 1), hl.data told hunit⟩⟩

/-- **Frames are exact.** A frame is read back from its own entries in any
order and among any keys no frame has; no map with a reply's key is read as
an event, and none without one, or with an event's key before it, as a
reply. -/
theorem frames_exact (hl : layer.Faithful) :
    (∀ (frame : ServerFrame Outcome Info Message Json) (m extra : List (String × V)),
      (∀ entry ∈ extra, Kind.of entry.1 = none) → m.Perm (frame.serialize layer ++ extra) →
      visitMap layer m = .ok frame) ∧
    (∀ m : List (String × V), (∃ entry ∈ m, Kind.of entry.1 = some .reply) →
      ∀ event, visitMap layer m ≠ .ok (.event event)) ∧
    ∀ m : List (String × V),
      (∀ entry ∈ m, Kind.of entry.1 ≠ some .reply) ∨ firstKind m = some .event →
      ∀ reply, visitMap layer m ≠ .ok (.reply reply) := by
  refine ⟨fun frame m extra => visitMap_serialize hl frame, fun m hreply event h => ?_,
    fun m hevent reply h => ?_⟩
  · have := (visitMap_event.1 h).1
    rw [hasReplyKey_eq_true.2 hreply] at this
    cases this
  · have hfirst := (visitMap_reply.1 h).1
    rcases hevent with hnone | hevent
    · obtain ⟨entry, he, hkind⟩ := List.exists_of_findSome?_eq_some hfirst
      exact hnone entry he hkind
    · rw [hevent] at hfirst
      cases hfirst

/-- A layer whose values are what was written. -/
def plainLayer : Layer (String ⊕ UInt64 ⊕ Bool ⊕ BusEvent Unit Unit Unit) Bool Unit Unit Unit where
  ofText text := .inl text
  asText
    | .inl text => .ok text
    | _ => .error "invalid type: expected a string"
  ofId id := .inr (.inl id)
  asId
    | .inr (.inl id) => .ok id
    | _ => .error "invalid type: expected u64"
  ofResult result := .inr (.inr (.inl result))
  asResult
    | .inr (.inr (.inl result)) => .ok result
    | _ => .error "invalid type: expected a result"
  ofData event := .inr (.inr (.inr event))
  asData variant
    | .inr (.inr (.inr event)) =>
      if event.variant = variant then .ok event else .error "invalid type: expected other fields"
    | _ => .error "invalid type: expected a map"

theorem plainLayer_faithful : plainLayer.Faithful where
  text _ := rfl
  id _ := rfl
  result _ := rfl
  data _ _ := if_pos rfl

/-- An event with its fields before its tag and a key of no kind between. -/
theorem frames_exact_shuffled : visitMap plainLayer
    [("data", plainLayer.ofData (.logOut 3 "ready")), ("vendor", plainLayer.ofText "x"),
      ("event", plainLayer.ofText "log_out")] = .ok (.event (.logOut 3 "ready")) :=
  (frames_exact plainLayer_faithful).1 (.event (.logOut 3 "ready")) _
    [("vendor", plainLayer.ofText "x")] (by simp [Kind.of])
    (List.perm_append_comm : ([_, _] ++ [_]).Perm ([_] ++ [_, _]))

end Frame

end Shep
