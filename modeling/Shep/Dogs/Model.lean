import Mathlib.Data.Finset.Erase
import Mathlib.Data.Finset.Insert
import Mathlib.Data.List.Dedup
import Shep.Bark.Model

/-!
# Dogs — the silent-dog ladder

`refusals.rs`, `contacts.rs` and `silent.rs`: which dogs were refused and
which got in, what arrived on the socket, and the look that restarts a dog
that stays silent and then gives it up. A look is a tick, its listing, and a
turn for each dog whose silence is due; what else happens while it awaits
stands between them. Instants are nanoseconds.
-/

namespace Shep

namespace Dogs

open Bark (ProcStatus)

/-! ## Refusals -/

/-- `Refusal`. -/
inductive Refusal where
  | restart
  | stale
  | alreadyStale
  deriving Repr, DecidableEq

/-- `DogRefusals`. -/
structure DogRefusals where
  refusals : Std.ExtTreeMap String ℕ
  handshook : Finset String

/-- What the count of its refusals costs a dog. -/
def verdict : ℕ → Refusal
  | 1 => .restart
  | 2 => .stale
  | _ => .alreadyStale

/-- `u32::saturating_add` of one. -/
def countUp (count : ℕ) : ℕ := min (count + 1) (2 ^ 32 - 1)

namespace DogRefusals

/-- `refused`. -/
def refused (r : DogRefusals) (name : String) : DogRefusals × Refusal :=
  let count := countUp (r.refusals[name]?.getD 0)
  (⟨r.refusals.insert name count, r.handshook.erase name⟩, verdict count)

/-- `handshook`. -/
def shake (r : DogRefusals) (name : String) : DogRefusals :=
  ⟨r.refusals.erase name, insert name r.handshook⟩

/-- Whether `stale` lists the name. -/
def isStale (r : DogRefusals) (name : String) : Bool := r.refusals[name]?.any fun count => 2 ≤ count

end DogRefusals

/-! ## Contacts -/

def PEER_CONTACT_CAPACITY : ℕ := 1024

/-- `DOG_SILENCE_BUDGET`: five seconds. -/
def DOG_SILENCE_BUDGET : ℕ := 5000000000

def PEER_CONTACT_WARMUP : ℕ := DOG_SILENCE_BUDGET

/-- `Seen`. -/
structure Seen where
  namedADog : Bool
  touched : ℕ
  deriving Repr, DecidableEq

/-- `Contacts`. -/
structure Contacts where
  watchingSince : ℕ
  byPid : Std.ExtTreeMap ℕ Seen
  clock : ℕ

/-- `Contact`. -/
inductive Contact where
  | none
  | anonymous
  | named
  | unknown
  deriving Repr, DecidableEq

namespace Contacts

/-- The entry touched the longest ago; the first of several. -/
def oldest : List (ℕ × Seen) → Option ℕ
  | [] => Option.none
  | e :: rest =>
    some (rest.foldl (fun best other =>
      if other.2.touched < best.2.touched then other else best) e).1

/-- `evict_oldest`. -/
def evictOldest (c : Contacts) : Contacts :=
  if c.byPid.size ≤ PEER_CONTACT_CAPACITY then c
  else (oldest c.byPid.toList).elim c fun pid => { c with byPid := c.byPid.erase pid }

/-- The clock, one tick on. -/
def ticked (c : Contacts) : ℕ := min (c.clock + 1) (2 ^ 64 - 1)

/-- `connected`. -/
def connected (c : Contacts) (pid : ℕ) : Contacts :=
  match c.byPid[pid]? with
  | some entry =>
    { c with byPid := c.byPid.insert pid { entry with touched := c.ticked }, clock := c.ticked }
  | Option.none =>
    evictOldest { c with byPid := c.byPid.insert pid ⟨false, c.ticked⟩, clock := c.ticked }

/-- `named_a_dog`. -/
def namedADog (c : Contacts) (pid : ℕ) : Contacts :=
  evictOldest { c with byPid := c.byPid.insert pid ⟨true, c.ticked⟩, clock := c.ticked }

/-- `is_warming`. -/
def isWarming (c : Contacts) (time : ℕ) : Bool := time - c.watchingSince < PEER_CONTACT_WARMUP

/-- `from_pid`. -/
def fromPid (c : Contacts) (time : ℕ) : Option ℕ → Contact
  | Option.none => .unknown
  | some pid =>
    match c.byPid[pid]? with
    | Option.none => if time - c.watchingSince < PEER_CONTACT_WARMUP then .unknown else .none
    | some seen => if seen.namedADog then .named else .anonymous

end Contacts

/-- `Silence`. -/
inductive Silence where
  | unreachable (pid : ℕ)
  | anonymous (pid : ℕ)
  | unattributed
  deriving Repr, DecidableEq

/-- `Silence::of`. -/
def Silence.of (pid : Option ℕ) (c : Contacts) (time : ℕ) : Silence :=
  match pid, c.fromPid time pid with
  | some pid, .none => .unreachable pid
  | some pid, .anonymous => .anonymous pid
  | _, _ => .unattributed

/-! ## Silence -/

/-- A row of the listing, with when the process it lists began to run. -/
structure ProcessInfo where
  name : String
  dog : Bool
  status : ProcStatus
  pid : Option ℕ
  started : ℕ
  deriving Repr, DecidableEq

/-- A dog with a process. -/
def ProcessInfo.runs (info : ProcessInfo) : Bool :=
  info.dog ∧ (info.status = .starting ∨ info.status = .online)

/-- `silent_dogs`: sorted, so that equal names are neighbours. -/
def silentDogs (infos : List ProcessInfo) (refusals : DogRefusals) : List String :=
  let names := (infos.filter fun info =>
    info.runs ∧ info.name ∉ refusals.handshook ∧ ¬ refusals.isStale info.name).map
      ProcessInfo.name
  (names.insertionSort (· ≤ ·)).dedup

/-- `SilentDogs`. -/
abbrev SilentDogs := Std.ExtTreeMap String ℕ

/-- One name of the loop of `due`. -/
def dueOne (now : ℕ) (s : SilentDogs × List String) (name : String) : SilentDogs × List String :=
  let since := s.1[name]?.getD now
  if DOG_SILENCE_BUDGET ≤ now - since then (s.1.insert name now, s.2 ++ [name])
  else (s.1.insert name since, s.2)

/-- `SilentDogs::due`. -/
def due (seen : SilentDogs) (silent : List String) (now : ℕ) : SilentDogs × List String :=
  silent.foldl (dueOne now) (seen.filter fun name _ => silent.contains name, [])

/-! ## Looks -/

/-- Where a look stands: nowhere, at its listing, or at the dogs that are
due and have not had their turn. -/
inductive Phase where
  | idle
  | listing (now : ℕ)
  | acting (now : ℕ) (infos : List ProcessInfo) (left : List String)
  deriving Repr, DecidableEq

/-- The watch, with what it reads. -/
structure Watch where
  refusals : DogRefusals
  contacts : Contacts
  seen : SilentDogs
  phase : Phase

/-- What happens: handshakes, refusals by name and connections, the tick of
a look and its instant, the answer to its listing, and the turn of the next dog that is due. -/
inductive Act where
  | handshook (name : String)
  | refused (name : String)
  | connected (pid : ℕ)
  | namedADog (pid : ℕ)
  | tick (now : ℕ)
  | listed (infos : Option (List ProcessInfo))
  | turn
  deriving Repr, DecidableEq

/-- What is on record: who got in and when, who was refused by name, who
connected, and which rung a look gave, with the listing it was judged from
and what it found of the pid listed. -/
inductive Mark where
  | handshook (name : String) (time : ℕ)
  | refused (name : String) (verdict : Refusal)
  | connected (pid : ℕ)
  | rung (name : String) (verdict : Refusal) (now : ℕ) (infos : List ProcessInfo)
      (evidence : Silence)
  deriving Repr, DecidableEq

namespace Watch

/-- A watch that begins to watch. -/
def new (time : ℕ) : Watch := ⟨⟨∅, ∅⟩, ⟨time, ∅, 0⟩, ∅, .idle⟩

/-- `check_silent_dogs` and `record_silent_dog`, up to where they await,
and what the connections do: each at its time. A tick that finds a look at
work waits, and does nothing here. -/
def act (w : Watch) (e : Act × ℕ) : Watch × List Mark :=
  match e.1 with
  | .handshook name => ({ w with refusals := w.refusals.shake name }, [.handshook name e.2])
  | .refused name =>
    let (refusals, verdict) := w.refusals.refused name
    ({ w with refusals := refusals }, [.refused name verdict])
  | .connected pid => ({ w with contacts := w.contacts.connected pid }, [.connected pid])
  | .namedADog pid => ({ w with contacts := w.contacts.namedADog pid }, [.connected pid])
  | .tick now =>
    match w.phase with
    | .idle => if w.contacts.isWarming e.2 then (w, []) else ({ w with phase := .listing now }, [])
    | _ => (w, [])
  | .listed infos =>
    match w.phase, infos with
    | .listing now, some infos =>
      let (seen, left) := due w.seen (silentDogs infos w.refusals) now
      ({ w with seen := seen, phase := .acting now infos left }, [])
    | .listing _, Option.none => ({ w with phase := .idle }, [])
    | _, _ => (w, [])
  | .turn =>
    match w.phase with
    | .acting now infos (name :: left) =>
      let info := infos.find? fun info => info.name = name
      let evidence := Silence.of (info.bind ProcessInfo.pid) w.contacts e.2
      let (refusals, verdict) := w.refusals.refused name
      ({ w with refusals := refusals, phase := .acting now infos left },
        [.rung name verdict now infos evidence])
    | .acting _ _ [] => ({ w with phase := .idle }, [])
    | _ => (w, [])

end Watch

end Dogs

end Shep
