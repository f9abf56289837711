import Shep.Common.Table

/-!
# Adoption — a flock's descriptors across the exec

The two ends of a handover: `dryRun` and `handOver` in the predecessor,
`claim` and `adopt` in the successor. A process is its descriptor table and
the handles that own a number in it; a number is closed when its handle is
dropped. Of a blob, its version and the descriptors it names are modelled,
of an error what it names. What the reactor takes, how an address parses,
and the numbers the kernel hands out are a `Kernel`.
-/

namespace Shep

namespace Adoption

/-! ## Descriptors -/

inductive IpAddr where
  | v4 (bits : ℕ)
  | v6 (bits : ℕ)
  deriving Repr, DecidableEq

structure SocketAddr where
  ip : IpAddr
  port : ℕ
  deriving Repr, DecidableEq

inductive Family where
  | unix
  | inet
  deriving Repr, DecidableEq

/-- What an open number is. A listening socket has an address where it is of
the internet family. -/
inductive FdKind where
  | pipeRead
  | pipeWrite
  | connected (family : Family)
  | listening (bound : Option SocketAddr)
  | terminal
  | file
  deriving Repr, DecidableEq

/-- `SheepFd`. -/
inductive SheepFd where
  | outPipe
  | errPipe
  | outLog
  | errLog
  | stdin
  | channel
  | dogLink
  | pty
  deriving Repr, DecidableEq

/-- The handle a number is owned by. -/
inductive Owner where
  /-- A descriptor of the process's own. -/
  | own (handle : ℕ)
  | controlListener
  | pidfile
  /-- A slot of the sheep at `i`. -/
  | slot (i : ℕ) (slot : SheepFd)
  /-- The `listen` socket at `i`. -/
  | listen (i : ℕ)
  deriving Repr, DecidableEq

structure Process where
  table : Std.ExtTreeMap ℤ FdKind
  owners : List (ℤ × Owner)

namespace Process

/-- A handle is built around a number. -/
def own (fd : ℤ) (owner : Owner) (p : Process) : Process :=
  { p with owners := (fd, owner) :: p.owners }

/-- A handle is dropped. -/
def drop (fd : ℤ) (owner : Owner) (p : Process) : Process where
  table := p.table.erase fd
  owners := p.owners.erase (fd, owner)

/-- A number no handle is recorded for is closed. -/
def close (fd : ℤ) (p : Process) : Process := { p with table := p.table.erase fd }

/-- A number is opened. -/
def opened (fd : ℤ) (kind : FdKind) (p : Process) : Process :=
  { p with table := p.table.insert fd kind }

/-- The handles of a number. -/
def ownersOf (p : Process) (fd : ℤ) : List Owner :=
  (p.owners.filter fun e => e.1 == fd).map Prod.snd

/-- No number has two owners, and none is owned and closed. -/
structure Sound (p : Process) : Prop where
  once : ∀ fd, (p.ownersOf fd).length ≤ 1
  closed : ∀ fd : ℤ, p.table[fd]? = none → p.ownersOf fd = []

end Process

/-- What the code rests on. A duplicate and a bound socket get a number
that was free, a duplicate none of the standard streams'. -/
structure Kernel where
  /-- Whether the reactor takes a descriptor. -/
  registers : FdKind → Bool
  /-- `str::parse` of an address. -/
  parse : String → Option SocketAddr
  /-- `None` at the descriptor limit. -/
  duplicate : Process → ℤ → Option ℤ
  /-- `TcpListener::bind`: the number, and the address it is bound to. -/
  bind : Process → SocketAddr → Option (ℤ × SocketAddr)
  duplicate_free : ∀ p fd dup, duplicate p fd = some dup → 3 ≤ dup ∧ p.table[dup]? = none
  bind_free : ∀ p address fd bound, bind p address = some (fd, bound) → p.table[fd]? = none

/-! ## The blob -/

/-- `CarriedFds`. -/
structure CarriedFds where
  outPipe : Option ℤ := none
  errPipe : Option ℤ := none
  outLog : Option ℤ := none
  errLog : Option ℤ := none
  stdin : Option ℤ := none
  channel : Option ℤ := none
  dogLink : Option ℤ := none
  pty : Option ℤ := none
  deriving Repr, DecidableEq

/-- `all_kinded`. -/
def CarriedFds.allKinded (fds : CarriedFds) : List (Option ℤ × SheepFd) :=
  [(fds.outPipe, .outPipe), (fds.errPipe, .errPipe), (fds.outLog, .outLog), (fds.errLog, .errLog),
    (fds.stdin, .stdin), (fds.channel, .channel), (fds.dogLink, .dogLink), (fds.pty, .pty)]

/-- `all`. -/
def CarriedFds.all (fds : CarriedFds) : List (Option ℤ) :=
  [fds.outPipe, fds.errPipe, fds.outLog, fds.errLog, fds.stdin, fds.channel, fds.dogLink, fds.pty]

structure CarriedSheep where
  name : String
  fds : CarriedFds
  deriving Repr, DecidableEq

/-- A `listen` socket. `unclaimed` is never written. -/
structure CarriedListener where
  sheep : String
  name : String
  address : String
  fd : ℤ
  unclaimed : Bool := false
  deriving Repr, DecidableEq

/-- `Handover`. An absent `listeners` is empty. -/
structure Handover where
  version : ℕ
  sheep : List CarriedSheep
  listenerFd : ℤ
  pidfileFd : ℤ
  listeners : List CarriedListener := []
  deriving Repr, DecidableEq

def VERSION : ℕ := 2

def OLDEST_READABLE : ℕ := 1

/-- `reads_version`. -/
def readsVersion (version : ℕ) : Bool := OLDEST_READABLE ≤ version && version ≤ VERSION

namespace Handover

/-- `named_fds`. -/
def namedFds (blob : Handover) : List ℤ :=
  [blob.listenerFd, blob.pidfileFd] ++ blob.sheep.flatMap fun sheep => sheep.fds.all.reduceOption

/-- `carried_fds`. -/
def carriedFds (blob : Handover) : List ℤ :=
  blob.namedFds ++ blob.listeners.map CarriedListener.fd

/-- The blob as it is written and read back. -/
def written (blob : Handover) : Handover :=
  { blob with listeners := blob.listeners.map fun socket => { socket with unclaimed := false } }

end Handover

/-! ## Errors -/

inductive SysError where
  | reservedFd (fd : ℤ)
  | badFd (fd : ℤ)
  deriving Repr, DecidableEq

/-- Why a blob is refused. A descriptor is named by what it is for. -/
inductive Refusal where
  /-- A successor could not have read the blob back. -/
  | unreadable (version : ℕ)
  /-- The blob names a number more than once. -/
  | repeated (fd : ℤ)
  /-- The rehearsal's own look at a number. -/
  | unadoptable (what : String) (error : SysError)
  | duplicate (fd : ℤ)
  /-- A descriptor did not survive the handover. -/
  | lost (what : String) (error : SysError)
  | notReadablePipe (what : String)
  | notWritablePipe (what : String)
  | notConnected (what : String)
  | notTerminal (what : String)
  | unregistered (what : String)
  deriving Repr, DecidableEq

/-- The first of a list that was seen before. -/
def firstRepeat {α : Type} [DecidableEq α] (seen : List α) : List α → Option α
  | [] => none
  | a :: as => if a ∈ seen then some a else firstRepeat (a :: seen) as

/-- `refuse_repeated_fds`. -/
def refuseRepeatedFds (blob : Handover) : Except Refusal Unit :=
  match firstRepeat [] blob.carriedFds with
  | some fd => .error (.repeated fd)
  | none => .ok ()

/-! ## Adopting one number -/

def RESERVED_FD_FLOOR : ℤ := 3

/-- `adoptable_fd`, with what the number is. -/
def adoptableFd (fd : ℤ) (p : Process) : Except SysError FdKind :=
  if fd < RESERVED_FD_FLOOR then .error (.reservedFd fd)
  else match p.table[fd]? with
    | some kind => .ok kind
    | none => .error (.badFd fd)

/-- `adopt_fd`: the handle's kind, and the process that has it. -/
def adoptFd (what : String) (owner : Owner) (fd : ℤ) (p : Process) :
    Except Refusal (FdKind × Process) :=
  match adoptableFd fd p with
  | .error error => .error (.lost what error)
  | .ok kind => .ok (kind, p.own fd owner)

/-- An adoption that builds a handle of a kind around a number. -/
def adoptAs (check : FdKind → Except Refusal Unit) (what : String) (owner : Owner) (fd : ℤ)
    (p : Process) : Except Refusal Process := do
  let (kind, p) ← adoptFd what owner fd p
  check kind
  return p

/-- The refusal of a descriptor that is not `ok`. -/
def require (ok : Bool) (refusal : Refusal) : Except Refusal Unit :=
  if ok then .ok () else .error refusal

/-- `from_std`: the reactor takes the descriptor. -/
def register (k : Kernel) (what : String) (kind : FdKind) : Except Refusal Unit :=
  require (k.registers kind) (.unregistered what)

/-- `adopt_listener`. -/
def adoptListener (k : Kernel) (fd : ℤ) (p : Process) : Except Refusal Process :=
  let what := "the control listener"
  adoptAs (register k what) what .controlListener fd p

/-- The pidfile's `adopt_fd`. -/
def adoptPidfile (fd : ℤ) (p : Process) : Except Refusal Process :=
  adoptAs (fun _ => .ok ()) "the pidfile lock" .pidfile fd p

/-- An adoption of a number a blob may leave out. -/
def ifNamed (adoptOne : ℤ → Process → Except Refusal Process) (fd : Option ℤ) (p : Process) :
    Except Refusal Process :=
  match fd with
  | some fd => adoptOne fd p
  | none => .ok p

/-- `adopt_pipe`. -/
def adoptPipe (k : Kernel) (owner : Owner) (fd : Option ℤ) (sheep stream : String) (p : Process) :
    Except Refusal Process :=
  let what := s!"sheep '{sheep}' {stream} pipe"
  ifNamed (adoptAs (fun kind => do
    require (kind == .pipeRead) (.notReadablePipe what)
    register k what kind) what owner) fd p

/-- `adopt_stdin`. -/
def adoptStdin (k : Kernel) (owner : Owner) (fd : Option ℤ) (sheep : String) (p : Process) :
    Except Refusal Process :=
  let what := s!"sheep '{sheep}' stdin pipe"
  ifNamed (adoptAs (fun kind => do
    require (kind == .pipeWrite) (.notWritablePipe what)
    register k what kind) what owner) fd p

/-- `adopt_log`: whatever is open. -/
def adoptLog (owner : Owner) (fd : Option ℤ) (sheep stream : String) (p : Process) :
    Except Refusal Process :=
  ifNamed (adoptAs (fun _ => .ok ()) s!"sheep '{sheep}' {stream} log" owner) fd p

/-- `adopt_connected`. -/
def adoptConnected (k : Kernel) (owner : Owner) (fd : Option ℤ) (what : String) (p : Process) :
    Except Refusal Process :=
  ifNamed (adoptAs (fun kind => do
    -- `peer_addr`, of a unix socket
    require (kind == .connected .unix) (.notConnected what)
    register k what kind) what owner) fd p

/-- `adopt_channel`. -/
def adoptChannel (k : Kernel) (owner : Owner) (fd : Option ℤ) (sheep : String) (p : Process) :
    Except Refusal Process :=
  adoptConnected k owner fd s!"sheep '{sheep}' shepherd channel" p

/-- `adopt_dog_link`. -/
def adoptDogLink (k : Kernel) (owner : Owner) (fd : Option ℤ) (sheep : String) (p : Process) :
    Except Refusal Process :=
  adoptConnected k owner fd s!"sheep '{sheep}' dog connection" p

/-- `adopt_pty`. -/
def adoptPty (owner : Owner) (fd : Option ℤ) (sheep : String) (p : Process) :
    Except Refusal Process :=
  let what := s!"sheep '{sheep}' pty master"
  ifNamed (adoptAs (fun kind => require (kind == .terminal) (.notTerminal what)) what owner) fd p

/-- `adopt_sheep`, of the sheep at `i`. -/
def adoptSheep (k : Kernel) (i : ℕ) (carried : CarriedSheep) (p : Process) :
    Except Refusal Process := do
  let fds := carried.fds
  let p ← adoptPipe k (.slot i .outPipe) fds.outPipe carried.name "stdout" p
  let p ← adoptPipe k (.slot i .errPipe) fds.errPipe carried.name "stderr" p
  let p ← adoptLog (.slot i .outLog) fds.outLog carried.name "stdout" p
  let p ← adoptLog (.slot i .errLog) fds.errLog carried.name "stderr" p
  let p ← adoptStdin k (.slot i .stdin) fds.stdin carried.name p
  let p ← adoptChannel k (.slot i .channel) fds.channel carried.name p
  let p ← adoptDogLink k (.slot i .dogLink) fds.dogLink carried.name p
  adoptPty (.slot i .pty) fds.pty carried.name p

/-! ## The rehearsal -/

/-- What the rehearsal runs for a slot. -/
def adoptSlot (k : Kernel) (i : ℕ) (name : String) (slot : SheepFd) (fd : Option ℤ) (p : Process) :
    Except Refusal Process :=
  match slot with
  | .outPipe => adoptPipe k (.slot i slot) fd name "stdout" p
  | .errPipe => adoptPipe k (.slot i slot) fd name "stderr" p
  | .outLog => adoptLog (.slot i slot) fd name "stdout" p
  | .errLog => adoptLog (.slot i slot) fd name "stderr" p
  | .stdin => adoptStdin k (.slot i slot) fd name p
  | .channel => adoptChannel k (.slot i slot) fd name p
  | .dogLink => adoptDogLink k (.slot i slot) fd name p
  | .pty => adoptPty (.slot i slot) fd name p

/-- `describe`. -/
def SheepFd.describe : SheepFd → String
  | .outPipe => "stdout pipe"
  | .errPipe => "stderr pipe"
  | .outLog => "stdout log"
  | .errLog => "stderr log"
  | .stdin => "stdin pipe"
  | .channel => "shepherd channel"
  | .dogLink => "dog connection"
  | .pty => "pty master"

/-- A look that leaves a process as it is, or as the handles it drops
leave it. -/
abbrev Look := Process → Except Refusal Unit × Process

/-- `rehearse`: an adoption of a duplicate, dropped on both arms. -/
def rehearse (k : Kernel) (fd : ℤ) (what : String) (owner : Owner)
    (adoptOne : ℤ → Process → Except Refusal Process) : Look := fun p =>
  match adoptableFd fd p with
  | .error error => (.error (.unadoptable what error), p)
  | .ok kind => match k.duplicate p fd with
    | none => (.error (.duplicate fd), p)
    | some dup => match adoptOne dup (p.opened dup kind) with
      | .error refusal => (.error refusal, (p.opened dup kind).close dup)
      | .ok p => (.ok (), p.drop dup owner)

/-- The rehearsal of a slot of the sheep at `i`. -/
def rehearseSlot (k : Kernel) (i : ℕ) (name : String) (slot : Option ℤ × SheepFd) : Look :=
  match slot.1 with
  | none => fun p => (.ok (), p)
  | some fd => rehearse k fd ("sheep '" ++ name ++ "' " ++ slot.2.describe) (.slot i slot.2)
      fun dup => adoptSlot k i name slot.2 (some dup)

/-- Looks in turn, up to the first refusal. -/
def inTurn : List Look → Look
  | [] => fun p => (.ok (), p)
  | look :: looks => fun p => match look p with
    | (.error refusal, p) => (.error refusal, p)
    | (.ok (), p) => inTurn looks p

/-- `load_value` of a blob as it is written. -/
def reread (blob : Handover) : Except Refusal Handover :=
  if readsVersion blob.version then .ok blob.written else .error (.unreadable blob.version)

/-- The looks of a rehearsal, in `adopt`'s own order. -/
def looks (k : Kernel) (blob : Handover) : List Look :=
  [rehearse k blob.listenerFd "the control listener" .controlListener (adoptListener k)] ++
    (blob.sheep.zipIdx.flatMap fun carried =>
      carried.1.fds.allKinded.map (rehearseSlot k carried.2 carried.1.name)) ++
    [rehearse k blob.pidfileFd "the pidfile lock" .pidfile adoptPidfile]

/-- `dry_run`. -/
def dryRun (k : Kernel) (blob : Handover) : Look := fun p =>
  match reread blob with
  | .error refusal => (.error refusal, p)
  | .ok blob => match refuseRepeatedFds blob with
    | .error refusal => (.error refusal, p)
    | .ok () => inTurn (looks k blob) p

/-! ## The exec -/

inductive HandOverError where
  | descriptor (key : String) (source : SysError)
  | duplicateKey (key : String)
  deriving Repr, DecidableEq

/-- What a predecessor leaves: the state, and the carried numbers by key. -/
structure Arrival where
  state : Handover
  fds : Std.ExtTreeMap String ℤ

/-- `hand_over_tuned`, up to the exec: each number is carried under its own
decimal. -/
def handOver (blob : Handover) (p : Process) : Except HandOverError Arrival := do
  let carried ← blob.carriedFds.mapM fun number => match adoptableFd number p with
    | .error source => .error (.descriptor number.repr source)
    | .ok _ => .ok (number.repr, number)
  match firstRepeat [] (carried.map Prod.fst) with
  | some key => .error (.duplicateKey key)
  | none => .ok { state := blob.written, fds := .ofList carried }

/-- A successor just past its exec: it has the carried numbers as they
were, and otherwise what it has opened itself. The arrival is the owner of
those carried. -/
structure Inherits (p : Process) (arrival : Arrival) (s : Process) : Prop where
  carried : ∀ (key : String) (fd : ℤ), arrival.fds[key]? = some fd → s.table[fd]? = p.table[fd]?
  unowned : ∀ (key : String) (fd : ℤ), arrival.fds[key]? = some fd → s.ownersOf fd = []
  sound : s.Sound

/-! ## The claim -/

inductive ClaimError where
  | version (found : ℕ)
  | arrivedAs (number arrived : ℤ)
  | notCarried (number : ℤ)
  deriving Repr, DecidableEq

/-- One number the blob names. The first problem is the one reported. -/
def claimNamed (claimed : Std.ExtTreeMap String ℤ × Option ClaimError) (number : ℤ) :
    Std.ExtTreeMap String ℤ × Option ClaimError :=
  match claimed.1[number.repr]? with
  | some arrived => (claimed.1.erase number.repr,
      claimed.2.or (if arrived = number then none else some (.arrivedAs number arrived)))
  | none => (claimed.1, claimed.2.or (some (.notCarried number)))

/-- The `listen` sockets: one that did not arrive under its number is
flagged, and closed. -/
def claimListeners : List CarriedListener → Std.ExtTreeMap String ℤ → Process →
    List CarriedListener × Std.ExtTreeMap String ℤ × Process
  | [], fds, p => ([], fds, p)
  | socket :: sockets, fds, p =>
    match fds[socket.fd.repr]? with
    | some arrived =>
      let (claimed, rest) := claimListeners sockets (fds.erase socket.fd.repr)
        (if arrived = socket.fd then p else p.close arrived)
      ({ socket with unclaimed := arrived != socket.fd } :: claimed, rest)
    | none =>
      let (claimed, rest) := claimListeners sockets fds p
      ({ socket with unclaimed := true } :: claimed, rest)

/-- `claim`. What nothing claims is closed with the arrival. -/
def claim (arrival : Arrival) (p : Process) : Except ClaimError Handover × Process :=
  let blob := arrival.state
  let problem := if readsVersion blob.version then none else some (.version blob.version)
  let (fds, problem) := blob.namedFds.foldl claimNamed (arrival.fds, problem)
  let (listeners, fds, p) := claimListeners blob.listeners fds p
  (match problem with
    | some error => .error error
    | none => .ok { blob with listeners := listeners },
   fds.values.foldl (fun p fd => p.close fd) p)

/-! ## The adoption -/

/-- `serves`. -/
def serves (bound configured : SocketAddr) : Bool :=
  bound.ip == configured.ip && (configured.port == 0 || bound.port == configured.port)

/-- Whether a descriptor is a `listen` socket bound where the blob says. -/
def usable (k : Kernel) (socket : CarriedListener) : FdKind → Bool
  | .listening (some bound) => (k.parse socket.address).any (serves bound)
  | _ => false

/-- `take`, of the socket at `i`, and whether it was taken. One that is
refused is closed. -/
def take (k : Kernel) (i : ℕ) (socket : CarriedListener) (p : Process) : Process × Bool :=
  let what := "the listen socket '" ++ socket.name ++ "' of sheep '" ++ socket.sheep ++ "'"
  if socket.unclaimed then (p, false)
  else match adoptFd what (.listen i) socket.fd p with
    | .error _ => (p, false)
    | .ok (kind, p) =>
      if usable k socket kind then (p, true) else (p.drop socket.fd (.listen i), false)

/-- `take_listeners`. -/
def takeListeners (k : Kernel) : List (CarriedListener × ℕ) → Process →
    Process × List ((CarriedListener × ℕ) × Bool)
  | [], p => (p, [])
  | socket :: sockets, p =>
    let (p, taken) := take k socket.2 socket.1 p
    let (p, rest) := takeListeners k sockets p
    (p, (socket, taken) :: rest)

/-- One socket of `rebind`: one not taken is bound afresh, or left out. -/
def rebindOne (k : Kernel) (p : Process) (entry : (CarriedListener × ℕ) × Bool) : Process :=
  if entry.2 then p
  else match (k.parse entry.1.1.address).bind (k.bind p) with
    | some (fd, bound) => (p.opened fd (.listening (some bound))).own fd (.listen entry.1.2)
    | none => p

/-- `adopt`. -/
def adopt (k : Kernel) (blob : Handover) (p : Process) : Except Refusal Process := do
  refuseRepeatedFds blob
  let p ← adoptListener k blob.listenerFd p
  let p ← blob.sheep.zipIdx.foldlM (fun p carried => adoptSheep k carried.2 carried.1 p) p
  let (p, taken) := takeListeners k blob.listeners.zipIdx p
  let p ← adoptPidfile blob.pidfileFd p
  -- a bind is the first to open a number, when every number of the blob is adopted
  return taken.foldl (rebindOne k) p

end Adoption

end Shep
