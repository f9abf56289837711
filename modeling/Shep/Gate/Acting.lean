import Shep.Gate.Model
import Shep.Supervisor.Helpers.Play

/-!
# Gate — what a dog's request reaches when it acts

A `Trigger` or a `Delete` on a dog's connection is checked against a listing
of the flock, and carried out later, against the flock as it then is:
`check` of `rpc/gate.rs` and `matching_rows` on one side, the supervisor's
`matching_ids` on the other, with every other client and the supervisor's
own reports in between. The two matching rules agree. **`acts_within`** is
when the dog's grants cover what the request reaches: a sweep reaches sheep
alone, so only an exact selector can come to reach something the gate did
not ask about, and only a change of the books can take a grant away.
-/

namespace Shep

namespace Gate

open Supervisor

/-! ## The check -/

/-- What of a listing's row the gate reads. -/
structure Row where
  id : ℕ
  name : String
  fold : Option String
  inst : ℕ
  dog : Option DogSource
  deriving Repr, DecidableEq

/-- The rows of a flock. -/
def rows (a : Actor) : List Row :=
  a.sheep.toList.map fun entry =>
    ⟨entry.1, entry.2.name, entry.2.entry.spec.fold, entry.2.entry.inst, entry.2.entry.dog⟩

/-- `matching_rows`. -/
def matchingRows (infos : List Row) (selector : ProcessSelector) : List Row :=
  (infos.filter fun row => selector.isExact || row.dog.isNone).filter fun row =>
    selector.hits row.name row.id row.fold row.inst

/-- The requests `need` answers with a selector. -/
inductive Verb where
  | trigger
  | delete
  deriving Repr, DecidableEq

namespace Verb

/-- What a sheep takes. -/
def sheep : Verb → Permission
  | trigger => .flockControl
  | delete => .flockEdit

/-- What a dog takes. -/
def dog : Verb → String → Permission
  | trigger, name => .dogsTrigger name
  | delete, _ => .dogsControl

/-- What a row takes. -/
def needs (verb : Verb) (row : Row) : Permission :=
  if row.dog.isSome then verb.dog row.name else verb.sheep

/-- The command the supervisor is sent. A trigger leaves the flock as it
is. -/
def command : Verb → ProcessSelector → Command
  | trigger, _ => .inspect
  | delete, selector => .delete selector

end Verb

/-- Where a request stands. -/
inductive Stand where
  /-- `check` is to read the dog's grants. -/
  | arrived
  /-- The grants are read, the listing is to come. -/
  | graded (grants : Grants)
  /-- The gate has let it through, for what it asked. -/
  | passed (asked : List Permission)
  /-- An undeclared dog's, which nothing is asked of. -/
  | waved
  deriving DecidableEq

structure Errand where
  dog : String
  verb : Verb
  selector : ProcessSelector
  stand : Stand := .arrived

/-- What the rows a request reaches take. -/
def Errand.reached (errand : Errand) (a : Actor) : List Permission :=
  (matchingRows (rows a) errand.selector).map errand.verb.needs

/-- What the gate asks for: reaching nothing takes the sheep permission. -/
def Errand.asked (errand : Errand) (a : Actor) : List Permission :=
  if (errand.reached a).isEmpty then [errand.verb.sheep] else errand.reached a

/-- The flock, the books, and the requests on their way to the
supervisor. -/
structure Yard where
  actor : Actor
  known : KnownDogs
  errands : Std.ExtTreeMap ℕ Errand := ∅
  /-- The next request has this number. -/
  numbers : ℕ := 0

inductive Deed where
  | send (dog : String) (verb : Verb) (selector : ProcessSelector)
  /-- The gate reads the dog's grants. -/
  | grade (n : ℕ)
  /-- The gate has its listing, and rules. -/
  | rule (n : ℕ)
  /-- The supervisor reads the request. -/
  | act (n : ℕ) (w : World)
  /-- It reads any other message. -/
  | turn (w : World) (m : Msg)
  /-- The books are written. -/
  | book (known : KnownDogs)
  /-- A request is given up. -/
  | expire (n : ℕ)

namespace Yard

variable (y : Yard)

def place (n : ℕ) (errand : Errand) : Yard := { y with errands := y.errands.insert n errand }

def clear (n : ℕ) : Yard := { y with errands := y.errands.erase n }

def grade (n : ℕ) (errand : Errand) : Yard :=
  match y.known.grants errand.dog with
  | some grants => y.place n { errand with stand := .graded grants }
  | none => y.place n { errand with stand := .waved }

/-- `check`, with the listing in hand. -/
def rule (n : ℕ) (errand : Errand) (grants : Grants) : Yard :=
  if (errand.asked y.actor).all grants.allows then
    y.place n { errand with stand := .passed (errand.asked y.actor) }
  else y.clear n

def act (n : ℕ) (w : World) (errand : Errand) : Yard :=
  { y.clear n with actor := y.actor.turn w (.command (errand.verb.command errand.selector)) }

/-- One deed, if it can be done. -/
def step (e : Deed) : Option Yard :=
  match e with
  | .send dog verb selector =>
    some { y.place y.numbers ⟨dog, verb, selector, .arrived⟩ with numbers := y.numbers + 1 }
  | .grade n =>
    match y.errands[n]? with
    | some ⟨dog, verb, selector, .arrived⟩ => some (y.grade n ⟨dog, verb, selector, .arrived⟩)
    | _ => none
  | .rule n =>
    match y.errands[n]? with
    | some ⟨dog, verb, selector, .graded grants⟩ =>
      some (y.rule n ⟨dog, verb, selector, .graded grants⟩ grants)
    | _ => none
  | .act n w =>
    match y.errands[n]? with
    | some ⟨dog, verb, selector, .passed asked⟩ =>
      if y.actor.running then some (y.act n w ⟨dog, verb, selector, .passed asked⟩) else none
    | some ⟨dog, verb, selector, .waved⟩ =>
      if y.actor.running then some (y.act n w ⟨dog, verb, selector, .waved⟩) else none
    | _ => none
  | .turn w m =>
    if y.actor.running ∧ y.actor.admits m then some { y with actor := y.actor.turn w m } else none
  | .book known => some { y with known }
  | .expire n => some (y.clear n)

/-- One deed. -/
def Step (y : Yard) (e : Deed) (y' : Yard) : Prop := y.step e = some y'

/-- **A request acts within its dog's grants**: each process it is about to
act on takes a permission that is on record for the dog. -/
def ActsWithin (errand : Errand) : Prop :=
  ∀ id ∈ y.actor.matchingIds errand.selector, ∀ s, y.actor.sheep[id]? = some s →
    ∀ grants, y.known.grants errand.dog = some grants →
      grants.allows (if s.entry.dog.isSome then errand.verb.dog s.name else errand.verb.sheep) = true

end Yard

/-! ## The two matching rules -/

variable {errand : Errand} {a : Actor} {p : Permission}

theorem needs_mem_reached {id : ℕ} {s : SheepSlot} (hid : id ∈ a.matchingIds errand.selector)
    (hs : a.sheep[id]? = some s) :
    (if s.entry.dog.isSome then errand.verb.dog s.name else errand.verb.sheep) ∈
      errand.reached a := by
  obtain ⟨s', hs', hp⟩ := Actor.mem_reachedIds.1 hid
  obtain rfl : s = s' := Option.some.inj (hs.symm.trans hs')
  simp only [Bool.and_eq_true, Bool.or_eq_true] at hp
  refine List.mem_map.2
    ⟨⟨id, s.name, s.entry.spec.fold, s.entry.inst, s.entry.dog⟩, List.mem_filter.2
      ⟨List.mem_filter.2 ⟨?_, ?_⟩, hp.2⟩, rfl⟩
  · exact List.mem_map.2 ⟨(id, s), Table.mem_toList.2 hs, rfl⟩
  · rcases hp.1 with hexact | ⟨hsheep, -⟩
    · simp [hexact]
    · simp [hsheep]

theorem eq_sheep_of_sweep (hsweep : errand.selector.isExact = false)
    (hp : p ∈ errand.reached a) : p = errand.verb.sheep := by
  obtain ⟨row, hrow, rfl⟩ := List.mem_map.1 hp
  have hnone := (List.mem_filter.1 (List.mem_filter.1 hrow).1).2
  rw [hsweep, Bool.false_or, Option.isNone_iff_eq_none] at hnone
  simp [Verb.needs, hnone]

theorem reached_subset_asked (hp : p ∈ errand.reached a) : p ∈ errand.asked a := by
  unfold Errand.asked
  split
  · next hempty =>
    rw [List.isEmpty_iff.1 hempty] at hp
    cases hp
  · exact hp

theorem sheep_mem_asked (hsweep : errand.selector.isExact = false) :
    errand.verb.sheep ∈ errand.asked a := by
  unfold Errand.asked
  split
  · exact List.mem_singleton_self _
  · next hsome =>
    cases hreached : errand.reached a with
    | nil => simp [hreached] at hsome
    | cons p ps =>
      have hp := eq_sheep_of_sweep (a := a) (p := p) hsweep (by simp [hreached])
      simp [hp]

/-! ## What carries a request through -/

/-- Nothing is taken away. -/
def Wider : Option Grants → Option Grants → Prop
  | _, none => True
  | some grants, some grants' => grants ⊆ grants'
  | none, some _ => False

theorem Wider.allows {grants grants' : Option Grants} (h : Wider grants grants')
    (hp : ∀ g, grants = some g → g.allows p = true) : ∀ g, grants' = some g → g.allows p = true := by
  rintro g rfl
  cases grants with
  | none => cases h
  | some g' =>
    have hg := of_decide_eq_true (hp g' rfl)
    exact decide_eq_true (h hg)

theorem Wider.trans {g g' g'' : Option Grants} (h : Wider g g') (h' : Wider g' g'') :
    Wider g g'' := by
  cases g'' with
  | none => cases g <;> trivial
  | some _ =>
    cases g' with
    | none => cases h'
    | some _ =>
      cases g with
      | none => cases h
      | some _ => exact Finset.Subset.trans h h'

namespace Errand

/-- The flock a request now finds holds nothing its exact selector reaches
that the gate did not ask about. -/
def Covers (errand : Errand) (a : Actor) : Prop :=
  match errand.stand with
  | .passed asked => errand.selector.isExact = true → ∀ p ∈ errand.reached a, p ∈ asked
  | _ => True

/-- The books it now finds have taken nothing from its dog. -/
def Heeds (errand : Errand) (known known' : KnownDogs) : Prop :=
  match errand.stand with
  | .graded _ | .passed _ => Wider (known.grants errand.dog) (known'.grants errand.dog)
  | _ => True

/-- What is true of a request on its way. -/
def Fits (errand : Errand) (y : Yard) : Prop :=
  match errand.stand with
  | .graded grants => Wider (some grants) (y.known.grants errand.dog)
  | .passed asked =>
    (∀ p ∈ asked, ∀ g, y.known.grants errand.dog = some g → g.allows p = true) ∧
      (∀ p ∈ errand.reached y.actor, p ∈ asked) ∧
      (errand.selector.isExact = false → errand.verb.sheep ∈ asked)
  | _ => True

theorem Fits.actsWithin {y : Yard} {asked : List Permission} (h : errand.Fits y)
    (hstand : errand.stand = .passed asked) : y.ActsWithin errand := by
  intro id hid s hs grants hgrants
  rw [Fits, hstand] at h
  exact h.1 _ (h.2.1 _ (needs_mem_reached hid hs)) grants hgrants

theorem Fits.same {y y' : Yard} (h : errand.Fits y) (hactor : y'.actor = y.actor)
    (hknown : y'.known = y.known) : errand.Fits y' := by
  unfold Fits at h ⊢
  rw [hactor, hknown]
  exact h

theorem Fits.turn {y y' : Yard} (h : errand.Fits y) (hknown : y'.known = y.known)
    (hcovers : errand.Covers y'.actor) : errand.Fits y' := by
  unfold Fits at h ⊢
  unfold Covers at hcovers
  cases hstand : errand.stand with
  | graded grants =>
    rw [hstand] at h
    rw [hknown]
    exact h
  | passed asked =>
    rw [hstand] at h hcovers
    refine ⟨fun p hp g hg => h.1 p hp g (hknown ▸ hg), fun p hp => ?_, h.2.2⟩
    cases hexact : errand.selector.isExact with
    | true => exact hcovers hexact p hp
    | false =>
      rw [eq_sheep_of_sweep hexact hp]
      exact h.2.2 hexact
  | _ => trivial

theorem Fits.book {y y' : Yard} (h : errand.Fits y) (hactor : y'.actor = y.actor)
    (hheeds : errand.Heeds y.known y'.known) : errand.Fits y' := by
  unfold Fits at h ⊢
  unfold Heeds at hheeds
  cases hstand : errand.stand with
  | graded grants =>
    rw [hstand] at h hheeds
    exact h.trans hheeds
  | passed asked =>
    rw [hstand] at h hheeds
    rw [hactor]
    exact ⟨fun p hp => hheeds.allows (h.1 p hp), h.2.1, h.2.2⟩
  | _ => trivial

end Errand

/-- The request a deed ends. -/
def Deed.ends : Deed → Option ℕ
  | .act n _ => some n
  | _ => none

namespace Yard

/-- The flock a deed leaves, where it is the supervisor's. -/
def flockAfter (y : Yard) : Deed → Option Actor
  | .act n w => (y.errands[n]?).map fun errand =>
      y.actor.turn w (.command (errand.verb.command errand.selector))
  | .turn w m => some (y.actor.turn w m)
  | _ => none

/-- **Nothing comes between a ruling and its act**: no turn of the supervisor
brings under the exact selector of a request that waits a process the gate
did not ask about, and no change of the books takes a grant from its dog. -/
def Calm (y : Yard) (e : Deed) : Prop :=
  (∀ a' ∈ y.flockAfter e, ∀ x ∈ y.errands.toList, e.ends ≠ some x.1 → x.2.Covers a') ∧
    match e with
    | .book known => ∀ x ∈ y.errands.toList, x.2.Heeds y.known known
    | _ => True

/-- Every request on its way fits the flock and the books. -/
def Orderly (y : Yard) : Prop := Table.Each (fun _ errand => errand.Fits y) y.errands

variable {y y' : Yard} {n : ℕ} {errand : Errand} {e : Deed}

namespace Orderly

theorem place (h : y.Orderly) (hfits : errand.Fits y) : (y.place n errand).Orderly :=
  Table.Each.insert (fun m other hm => (h m other hm).same rfl rfl) (hfits.same rfl rfl)

theorem clear (h : y.Orderly) : (y.clear n).Orderly :=
  Table.Each.erase (fun m other hm => (h m other hm).same rfl rfl) n

theorem grade (h : y.Orderly) : (y.grade n errand).Orderly := by
  unfold Yard.grade
  split
  · next grants hgrants =>
    refine h.place ?_
    show Wider (some grants) (y.known.grants errand.dog)
    rw [hgrants]
    exact Finset.Subset.refl grants
  · exact h.place trivial

theorem rule (h : y.Orderly) {grants : Grants} (hfits : errand.Fits y)
    (hstand : errand.stand = .graded grants) : (y.rule n errand grants).Orderly := by
  rw [Errand.Fits, hstand] at hfits
  unfold Yard.rule
  split
  · next hall =>
    refine h.place ⟨fun p hp => ?_, fun p hp => ?_, fun hsweep => ?_⟩
    · refine hfits.allows fun g hg => ?_
      obtain rfl : grants = g := Option.some.inj hg
      exact List.all_eq_true.1 hall p hp
    · exact reached_subset_asked hp
    · exact sheep_mem_asked hsweep
  · exact h.clear

theorem act (h : y.Orderly) {w : World} (hn : y.errands[n]? = some errand)
    (hcalm : y.Calm (.act n w)) : (y.act n w errand).Orderly := by
  intro m other hm
  simp only [Yard.act, Yard.clear, Table.get_erase] at hm
  split at hm
  · cases hm
  · next hne =>
    refine (h m other hm).turn rfl (hcalm.1 _ ?_ (m, other) (Table.mem_toList.2 hm) ?_)
    · simp [flockAfter, hn, Yard.act]
    · intro he
      exact hne (Option.some.inj he).symm

/-- **One deed** that comes between no ruling and its act. -/
theorem step (h : y.Orderly) (hcalm : y.Calm e) (hstep : y.Step e y') : y'.Orderly := by
  cases e with
  | send dog verb selector =>
    cases hstep
    intro m other hm
    have hplaced : (y.place y.numbers ⟨dog, verb, selector, .arrived⟩).Orderly := h.place trivial
    exact (hplaced m other hm).same rfl rfl
  | grade n =>
    simp only [Step, Yard.step] at hstep
    split at hstep
    · cases hstep
      exact h.grade
    · cases hstep
  | rule n =>
    simp only [Step, Yard.step] at hstep
    split at hstep
    · next hn =>
      cases hstep
      exact h.rule (h n _ hn) rfl
    · cases hstep
  | act n w =>
    simp only [Step, Yard.step] at hstep
    split at hstep
    · next hn =>
      split at hstep
      · cases hstep
        exact h.act hn hcalm
      · cases hstep
    · next hn =>
      split at hstep
      · cases hstep
        exact h.act hn hcalm
      · cases hstep
    · cases hstep
  | turn w m =>
    simp only [Step, Yard.step] at hstep
    split at hstep
    · cases hstep
      intro k other hk
      exact (h k other hk).turn rfl
        (hcalm.1 _ rfl (k, other) (Table.mem_toList.2 hk) (by simp [Deed.ends]))
    · cases hstep
  | book known =>
    cases hstep
    intro k other hk
    exact (h k other hk).book rfl (hcalm.2 (k, other) (Table.mem_toList.2 hk))
  | expire n =>
    cases hstep
    exact h.clear

end Orderly

end Yard

/-- **A dog acts within its grants**: in every run from any flock and books
in which nothing comes between a ruling and its act, what a request the gate
has let through reaches takes permissions its dog has. -/
theorem acts_within {a : Actor} {known : KnownDogs} {h : List (Yard × Deed)} {y : Yard}
    (hr : Run Yard.Step { actor := a, known := known } h y) (hC : Meets Yard.Calm h) (n : ℕ)
    (errand : Errand) (hn : y.errands[n]? = some errand) (asked : List Permission)
    (hstand : errand.stand = .passed asked) : y.ActsWithin errand := by
  have horderly : y.Orderly := by
    refine hr.invariant hC ?_ fun _ _ _ h hcalm hstep => Yard.Orderly.step h hcalm hstep
    intro n errand hn
    cases hn
  exact (horderly n errand hn).actsWithin hstand

/-! ## Yards written out -/

namespace Yard

/-- The state a deed leaves, where it can be done. -/
def next (y : Yard) (e : Deed) : Yard := (y.step e).getD y

/-- A deed that can be done. -/
def Ready (y : Yard) (e : Deed) : Prop := (y.step e).isSome = true

instance (y : Yard) (e : Deed) : Decidable (y.Ready e) := inferInstanceAs (Decidable (_ = true))

theorem Ready.step {y : Yard} {e : Deed} (h : y.Ready e) : y.Step e (y.next e) := by
  obtain ⟨y', hy'⟩ := Option.isSome_iff_exists.1 h
  rw [next, Step, hy']
  rfl

end Yard

/-- A shepherd with an empty flock, and a dog that may edit sheep. -/
def fieldYard : Yard :=
  { actor := Actor.init []
    known := (∅ : KnownDogs).insert "pilot" ⟨some {"flock.edit"}, []⟩ }

/-- The operator starts a dog. -/
def startsDog (name : String) : Deed :=
  .turn plain (.command (.startDog ⟨{ name }, rfl, rfl, rfl⟩ (.adopted "/opt/dog")))

/-- The dog asks to delete what has that name, and the gate rules. -/
def deletes (name : String) : List Deed :=
  [.send "pilot" .delete (.name name), .grade 0, .rule 0]

/-- A dog is started first, and a sheep is asked for. -/
def dogBefore : List Deed :=
  [startsDog "otel", .turn plain (.command (.start [{ name := "web" }] .allOrNothing []))] ++
    deletes "web"

/-- The flock stays as it is from the ruling on. -/
theorem acts_within_dogBefore : ∃ errand : Errand,
    (drive Yard.next fieldYard dogBefore).errands[0]? = some errand ∧
      errand.stand = .passed [.flockEdit] ∧
      (drive Yard.next fieldYard dogBefore).ActsWithin errand := by
  have hready : Drives Yard.next Yard.Ready fieldYard dogBefore := by decide +kernel
  have hpassed : ((drive Yard.next fieldYard dogBefore).errands[0]?).any
      (fun errand => decide (errand.stand = .passed [.flockEdit])) = true := by decide +kernel
  obtain ⟨errand, hn, hstand⟩ := (Option.any_eq_true _ _).1 hpassed
  have hmeets : Meets Yard.Calm (logged Yard.next fieldYard dogBefore) := by
    intro x hx
    simp only [dogBefore, deletes, startsDog, List.cons_append, List.nil_append, logged,
      List.mem_cons, List.not_mem_nil, or_false] at hx
    -- nothing is on its way while the supervisor takes a turn
    rcases hx with rfl | rfl | rfl | rfl | rfl
    · exact ⟨fun _ _ _ hx => (by cases hx), trivial⟩
    · exact ⟨fun _ _ _ hx => (by cases hx), trivial⟩
    · exact ⟨fun _ ha => (by cases ha), trivial⟩
    · exact ⟨fun _ ha => (by cases ha), trivial⟩
    · exact ⟨fun _ ha => (by cases ha), trivial⟩
  exact ⟨errand, hn, of_decide_eq_true hstand,
    acts_within (hready.run fun _ _ h => h.step) hmeets 0 errand hn _ (of_decide_eq_true hstand)⟩

/-- The dog of that name is started between the ruling and the act. -/
def dogBetween : List Deed := deletes "otel" ++ [startsDog "otel"]

/-- A delete is about to reach a dog, and its sender holds no
`dogs.control`. -/
theorem acts_beyond : ∃ (h : List (Yard × Deed)) (y : Yard) (errand : Errand) (s : SheepSlot),
    Run Yard.Step fieldYard h y ∧ y.errands[0]? = some errand ∧
      errand.stand = .passed [.flockEdit] ∧ y.actor.sheep[0]? = some s ∧
      0 ∈ y.actor.matchingIds errand.selector ∧ s.entry.dog = some (.adopted "/opt/dog") ∧
      ¬ y.ActsWithin errand := by
  have hready : Drives Yard.next Yard.Ready fieldYard dogBetween := by decide +kernel
  have hpassed : ((drive Yard.next fieldYard dogBetween).errands[0]?).any (fun errand =>
      decide (errand.dog = "pilot" ∧ errand.verb = .delete ∧ errand.stand = .passed [.flockEdit] ∧
        0 ∈ (drive Yard.next fieldYard dogBetween).actor.matchingIds errand.selector)) = true := by
    decide +kernel
  have hdog : ((drive Yard.next fieldYard dogBetween).actor.sheep[0]?).any (fun s =>
      decide (s.entry.dog = some (.adopted "/opt/dog"))) = true := by decide +kernel
  have hgrants : (drive Yard.next fieldYard dogBetween).known.grants "pilot" =
      some {"flock.edit"} := by decide +kernel
  obtain ⟨errand, hn, herrand⟩ := (Option.any_eq_true _ _).1 hpassed
  obtain ⟨s, hs, hs'⟩ := (Option.any_eq_true _ _).1 hdog
  obtain ⟨hpilot, hdelete, hstand, hreaches⟩ := of_decide_eq_true herrand
  have hdog := of_decide_eq_true hs'
  refine ⟨_, _, errand, s, hready.run fun _ _ h => h.step, hn, hstand, hs, hreaches, hdog, ?_⟩
  intro hwithin
  have hallows := hwithin 0 hreaches s hs _ (hpilot ▸ hgrants)
  rw [hdog, hdelete] at hallows
  have hneeds : Grants.allows {"flock.edit"} .dogsControl = true := hallows
  revert hneeds
  decide

end Gate

end Shep
