import Mathlib.Data.List.Basic

/-!
# Frame — what the daemon writes to a client

`protocol/frame.rs`: one decoder for two shapes without a tag, and the
decoders `serde` derives for the two (`Reply`, a struct; `BusEvent`, an
adjacently tagged enum). A map is the list of its entries, in the order
they are read in. JSON itself and the payloads' own codecs are a parameter,
`Layer`, and what their faithfulness is, `Layer.Faithful`.
-/

namespace Shep

namespace Frame

/-! ## The two shapes -/

/-- `ProcessEventKind`. -/
inductive ProcessEventKind where
  | start | online | exit | restart | reload | reloaded | reloadAbandoned | stop | delete
  | errored | sandboxRefused | unrecognized
  deriving Repr, DecidableEq

/-- `BusEvent`, of what a sheep's snapshot, a message on fd 3 and a dog's
JSON are. -/
inductive BusEvent (Info Message Json : Type) where
  | process (event : ProcessEventKind) (info : Info) (manually : Bool) (atMs : UInt64)
  | logOut (id : UInt32) (text : String)
  | logErr (id : UInt32) (text : String)
  | channel (id : UInt32) (message : Message)
  | dropped (count : UInt64)
  | daemonShutdown
  | dogConfigChanged (dog : String)
  | dog (dog kind : String) (payload : Json)
  | dogSheepSettingsChanged (dog sheep : String)
  | ptyOut (name : String) (data : List UInt8)
  | ptyEnd (name : String)

/-- `Reply`. The outcome is a `Result<Response, RpcError>`. -/
structure Reply (Outcome : Type) where
  id : UInt64
  result : Outcome
  deriving Repr, DecidableEq

/-- `ServerFrame`. -/
inductive ServerFrame (Outcome Info Message Json : Type) where
  | reply (reply : Reply Outcome)
  | event (event : BusEvent Info Message Json)

/-- The variants of `BusEvent`. -/
inductive Variant where
  | process | logOut | logErr | channel | dropped | daemonShutdown | dogConfigChanged | dog
  | dogSheepSettingsChanged | ptyOut | ptyEnd
  deriving Repr, DecidableEq

/-- All of them, in their order. -/
def Variant.all : List Variant :=
  [.process, .logOut, .logErr, .channel, .dropped, .daemonShutdown, .dogConfigChanged, .dog,
    .dogSheepSettingsChanged, .ptyOut, .ptyEnd]

/-- The name on the wire, which `rename_all` makes. -/
def Variant.name : Variant → String
  | .process => "process"
  | .logOut => "log_out"
  | .logErr => "log_err"
  | .channel => "channel"
  | .dropped => "dropped"
  | .daemonShutdown => "daemon_shutdown"
  | .dogConfigChanged => "dog_config_changed"
  | .dog => "dog"
  | .dogSheepSettingsChanged => "dog_sheep_settings_changed"
  | .ptyOut => "pty_out"
  | .ptyEnd => "pty_end"

variable {V Outcome Info Message Json : Type}

/-- Which one an event is. -/
def BusEvent.variant : BusEvent Info Message Json → Variant
  | .process _ _ _ _ => .process
  | .logOut _ _ => .logOut
  | .logErr _ _ => .logErr
  | .channel _ _ => .channel
  | .dropped _ => .dropped
  | .daemonShutdown => .daemonShutdown
  | .dogConfigChanged _ => .dogConfigChanged
  | .dog _ _ _ => .dog
  | .dogSheepSettingsChanged _ _ => .dogSheepSettingsChanged
  | .ptyOut _ _ => .ptyOut
  | .ptyEnd _ => .ptyEnd

/-! ## The layer below -/

/-- The JSON layer and the codecs of what a frame carries: a value is what
is written for it, and what is read where it stands. -/
structure Layer (V Outcome Info Message Json : Type) where
  ofText : String → V
  asText : V → Except String String
  ofId : UInt64 → V
  asId : V → Except String UInt64
  ofResult : Outcome → V
  asResult : V → Except String Outcome
  -- the fields of an event, which its variant's decoder reads
  ofData : BusEvent Info Message Json → V
  asData : Variant → V → Except String (BusEvent Info Message Json)

/-- What the layer writes it reads back. -/
structure Layer.Faithful (layer : Layer V Outcome Info Message Json) : Prop where
  text : ∀ text, layer.asText (layer.ofText text) = .ok text
  id : ∀ id, layer.asId (layer.ofId id) = .ok id
  result : ∀ result, layer.asResult (layer.ofResult result) = .ok result
  data : ∀ event, event.variant ≠ .daemonShutdown →
    layer.asData event.variant (layer.ofData event) = .ok event

/-! ## Writing -/

/-- `Serialize`, derived: the untagged frame is its payload, and a variant
without fields has no content. -/
def ServerFrame.serialize (layer : Layer V Outcome Info Message Json) :
    ServerFrame Outcome Info Message Json → List (String × V)
  | .reply answer => [("id", layer.ofId answer.id), ("result", layer.ofResult answer.result)]
  | .event .daemonShutdown => [("event", layer.ofText Variant.daemonShutdown.name)]
  | .event told => [("event", layer.ofText told.variant.name), ("data", layer.ofData told)]

/-! ## Keys -/

/-- `Kind`. -/
inductive Kind where
  | reply
  | event
  deriving Repr, DecidableEq

/-- `Kind::of`. -/
def Kind.of (key : String) : Option Kind :=
  if key = "id" then some .reply
  else if key = "result" then some .reply
  else if key = "event" then some .event
  else if key = "data" then some .event
  else none

/-- `Keys`. Where `first` is there, the key of the first entry of the rest
has been read and its value has not. -/
structure Keys (V : Type) where
  first : Option String
  rest : List (String × V)
  replyKeySeen : Bool

/-- `next_key_seed`, and the `next_value_seed` that follows it. -/
def Keys.next (keys : Keys V) : Option ((String × V) × Keys V) :=
  match keys.rest with
  | [] => none
  | (name, value) :: rest =>
    match keys.first with
    | some key => some ((key, value), { keys with first := none, rest })
    | none => some ((name, value),
        { keys with rest, replyKeySeen := keys.replyKeySeen || Kind.of name == some .reply })

theorem Keys.next_lt {keys keys' : Keys V} {entry : String × V}
    (h : keys.next = some (entry, keys')) : keys'.rest.length < keys.rest.length := by
  unfold Keys.next at h
  split at h
  · cases h
  · next name value rest hrest =>
    rw [hrest]
    split at h <;> obtain ⟨-, rfl⟩ := Prod.mk.inj (Option.some.inj h) <;>
      exact Nat.lt_succ_self _

/-! ## Reading -/

/-- The loop of `Reply`'s derived decoder over the keys. -/
def Reply.fields (layer : Layer V Outcome Info Message Json) (id : Option UInt64)
    (result : Option Outcome) (keys : Keys V) : Except String (Option UInt64 × Option Outcome) :=
  match _h : keys.next with
  | none => .ok (id, result)
  | some ((key, value), rest) =>
    if key = "id" then
      if id.isSome then .error "duplicate field `id`"
      else
        match layer.asId value with
        | .error err => .error err
        | .ok found => Reply.fields layer (some found) result rest
    else if key = "result" then
      if result.isSome then .error "duplicate field `result`"
      else
        match layer.asResult value with
        | .error err => .error err
        | .ok found => Reply.fields layer id (some found) rest
    else Reply.fields layer id result rest
termination_by keys.rest.length
decreasing_by all_goals exact Keys.next_lt _h

/-- `Reply::deserialize`, derived. -/
def Reply.deserialize (layer : Layer V Outcome Info Message Json) (keys : Keys V) :
    Except String (Reply Outcome) :=
  match Reply.fields layer none none keys with
  | .error err => .error err
  | .ok (none, _) => .error "missing field `id`"
  | .ok (some _, none) => .error "missing field `result`"
  | .ok (some id, some result) => .ok ⟨id, result⟩

/-- `TagOrContentField`. -/
inductive TagOrContent where
  | tag
  | content
  deriving Repr, DecidableEq

/-- `next_relevant_key` of the derived decoder, with the value. -/
def nextRelevant (keys : Keys V) : Option (TagOrContent × V) × Keys V :=
  match _h : keys.next with
  | none => (none, keys)
  | some ((key, value), rest) =>
    if key = "event" then (some (.tag, value), rest)
    else if key = "data" then (some (.content, value), rest)
    else nextRelevant rest
termination_by keys.rest.length
decreasing_by exact Keys.next_lt _h

/-- The derived reading of the tag. -/
def readVariant (layer : Layer V Outcome Info Message Json) (tag : V) : Except String Variant :=
  match layer.asText tag with
  | .error err => .error err
  | .ok text =>
    match Variant.all.find? fun variant => variant.name = text with
    | some variant => .ok variant
    | none => .error ("unknown variant `" ++ text ++ "`, expected one of " ++
        ", ".intercalate (Variant.all.map fun variant => "`" ++ variant.name ++ "`"))

/-- `visit_remaining_keys`. -/
def visitRemaining (event : BusEvent Info Message Json) (keys : Keys V) :
    Except String (BusEvent Info Message Json × Keys V) :=
  match nextRelevant keys with
  | (some (.tag, _), _) => .error "duplicate field `event`"
  | (some (.content, _), _) => .error "duplicate field `data`"
  | (none, keys) => .ok (event, keys)

/-- The fields of a variant, and then the rest of the keys. -/
def readData (layer : Layer V Outcome Info Message Json) (variant : Variant) (data : V)
    (keys : Keys V) : Except String (BusEvent Info Message Json × Keys V) :=
  match layer.asData variant data with
  | .error err => .error err
  | .ok event => visitRemaining event keys

/-- `BusEvent::deserialize`, derived. Content that stands before the tag is
buffered. -/
def BusEvent.deserialize (layer : Layer V Outcome Info Message Json) (keys : Keys V) :
    Except String (BusEvent Info Message Json × Keys V) :=
  match nextRelevant keys with
  | (none, _) => .error "missing field `event`"
  | (some (.tag, tag), keys) =>
    match readVariant layer tag with
    | .error err => .error err
    | .ok variant =>
      match nextRelevant keys with
      | (some (.tag, _), _) => .error "duplicate field `event`"
      | (some (.content, data), keys) => readData layer variant data keys
      | (none, keys) =>
        if variant = .daemonShutdown then .ok (.daemonShutdown, keys)
        else .error "missing field `data`"
  | (some (.content, data), keys) =>
    match nextRelevant keys with
    | (none, _) => .error "missing field `event`"
    | (some (.content, _), _) => .error "duplicate field `data`"
    | (some (.tag, tag), keys) =>
      match readVariant layer tag with
      | .error err => .error err
      | .ok variant => readData layer variant data keys

/-- `FrameVisitor::visit_map`. -/
def visitMap (layer : Layer V Outcome Info Message Json) :
    List (String × V) → Except String (ServerFrame Outcome Info Message Json)
  | [] => .error "missing `id`/`result` or `event`/`data`"
  | (name, value) :: rest =>
    match Kind.of name with
    | none => visitMap layer rest
    | some kind =>
      let keys : Keys V := ⟨some name, (name, value) :: rest, false⟩
      match kind with
      | .reply =>
        match Reply.deserialize layer keys with
        | .error err => .error err
        | .ok reply => .ok (.reply reply)
      | .event =>
        match BusEvent.deserialize layer keys with
        | .error err => .error err
        | .ok (event, keys) =>
          if keys.replyKeySeen then .error "an event frame carries `id` or `result`"
          else .ok (.event event)

end Frame

end Shep
