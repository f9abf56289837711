import Shep.Gate.Model

/-!
# Gate — whose word the grants on record are

A dog's grants are the operator's to give. `due` is what the requests
recorded so far, and not refused since, leave due to each name: the
operator's latest word, or the boot seed, or nothing at all for a name only
dogs have asked for. **`grants_due`** is when the books say just that. The
grants a dog's request is pinned to are read under one lock and written back
under another, and a refused start puts back what it found: the two stretches
that another request for the name must stay out of.
-/

namespace Shep

namespace Gate

/-! ## What is due -/

/-- A request that has been recorded. The operator's gives grants, a dog's
gives none of its own. -/
structure Order where
  number : ℕ
  name : String
  given : Option (Option Grants)
  deriving DecidableEq

def Asked.order (asked : Asked) (n : ℕ) : Order :=
  { number := n
    name := asked.enable.name
    given := match asked.caller with
      | .operator => some asked.enable.grants
      | .dog _ => none }

/-- The orders standing after an event: a refused one stands no more. -/
def Desk.stand (d : Desk) (e : Event) (orders : List Order) : List Order :=
  match e with
  | .record n => orders ++ ((d.requests[n]?).map fun asked => asked.order n).toList
  | .answer n started => if started.refused then orders.filter (·.number ≠ n) else orders
  | _ => orders

/-- The orders standing after a history. -/
def standing (h : List (Desk × Event)) : List Order :=
  h.foldl (fun orders x => x.1.stand x.2 orders) []

/-- The grants the operator's orders for a name give, oldest first. -/
def given (orders : List Order) (name : String) : List (Option Grants) :=
  orders.filterMap fun o => if o.name = name then o.given else none

/-- **What is due to a name**: the operator's latest word, else the boot
seed, else no grants for a name a dog has asked for. -/
def due (seed : KnownDogs) (orders : List Order) (name : String) : Option (Option Grants) :=
  match (given orders name).getLast? with
  | some grants => some grants
  | none =>
    match seed.recorded name with
    | some grants => some grants
    | none => if orders.any fun o => o.name = name then some (some ∅) else none

variable {seed : KnownDogs} {orders : List Order} {name : String} {o : Order}

theorem standing_snoc (h : List (Desk × Event)) (d : Desk) (e : Event) :
    standing (h ++ [(d, e)]) = d.stand e (standing h) := by
  simp [standing]

theorem due_congr {orders' : List Order} (h : orders'.filter (·.name = name) =
    orders.filter (·.name = name)) : due seed orders' name = due seed orders name := by
  have hgiven (os : List Order) : given os name =
      (os.filter (·.name = name)).filterMap Order.given := by
    rw [given, List.filterMap_filter]
    refine List.filterMap_congr fun o _ => ?_
    by_cases ho : o.name = name <;> simp [ho]
  have hany (os : List Order) : (os.any fun o => o.name = name) =
      !(os.filter (·.name = name)).isEmpty := by
    rw [Bool.eq_iff_iff]
    simp [List.filter_eq_nil_iff]
  rw [due, due, hgiven, hgiven, hany, hany, h]

theorem due_append_operator {grants : Option Grants} (ho : o.name = name)
    (hgiven : o.given = some grants) : due seed (orders ++ [o]) name = some grants := by
  simp [due, given, ho, hgiven]

theorem due_append_dog (ho : o.name = name) (hgiven : o.given = none) :
    due seed (orders ++ [o]) name = some ((due seed orders name).getD (some ∅)) := by
  have hsame : given (orders ++ [o]) name = given orders name := by
    simp [given, ho, hgiven]
  rw [due, due, hsame]
  cases (given orders name).getLast? with
  | some grants => rfl
  | none =>
    cases seed.recorded name with
    | some grants => rfl
    | none => by_cases hany : orders.any (fun o => o.name = name) <;> simp [hany, ho]

/-! ## What the books keep -/

/-- The revision of its name's entry a request last saw. -/
def Point.revision : Point → Option ℕ
  | .ready revision | .waiting _ revision => some revision
  | .arrived | .checked => none

namespace Desk

/-- Nothing has been written for a request's name since it looked. -/
def UpToDate (d : Desk) (asked : Asked) : Prop :=
  ∀ c ∈ asked.point.revision, d.revision asked.enable.name = c

instance (d : Desk) (asked : Asked) : Decidable (d.UpToDate asked) :=
  inferInstanceAs (Decidable (∀ _ ∈ _, _))

/-- **Nobody comes in between**: not between a dog's pin and its record, and
not between a request's record and its refusal. -/
def Undisturbed (d : Desk) (e : Event) : Prop :=
  match e with
  | .record n => ∀ asked ∈ d.requests[n]?, asked.caller ≠ .operator → d.UpToDate asked
  | .answer n started => started.refused = true → ∀ asked ∈ d.requests[n]?, d.UpToDate asked
  | _ => True

/-- What is true of a request with the books as they are. -/
structure Fits (seed : KnownDogs) (orders : List Order) (d : Desk) (n : ℕ) (asked : Asked) : Prop where
  lt : n < d.numbers
  seen : ∀ c ∈ asked.point.revision, c ≤ d.revision asked.enable.name
  /-- A pinned request carries what is on record. -/
  pinned : ∀ c, asked.point = .ready c → asked.caller ≠ .operator →
    d.revision asked.enable.name = c →
    asked.enable.grants = (d.known.recorded asked.enable.name).getD (some ∅)
  /-- A recorded one would put back what is due without it. -/
  held : ∀ held c, asked.point = .waiting held c → d.revision asked.enable.name = c →
    due seed (orders.filter (·.number ≠ n)) asked.enable.name = held.map Entry.grants
  /-- Only a recorded one has an order, under its own name. -/
  ordered : ∀ o ∈ orders, o.number = n →
    o.name = asked.enable.name ∧ ∃ held c, asked.point = .waiting held c

/-- **The books say what is due**, and every request fits them. -/
structure Books (seed : KnownDogs) (orders : List Order) (d : Desk) : Prop where
  recorded : ∀ name, d.known.recorded name = due seed orders name
  numbered : ∀ o ∈ orders, o.number < d.numbers
  fits : ∀ n asked, d.requests[n]? = some asked → d.Fits seed orders n asked

variable {seed : KnownDogs} {orders : List Order} {d d' : Desk} {e : Event} {n : ℕ}
  {asked asked' : Asked} {name : String}

namespace Books

theorem goTo (h : d.Books seed orders) (hfits : d.Fits seed orders n asked) :
    (d.goTo n asked).Books seed orders where
  recorded := h.recorded
  numbered := h.numbered
  fits m other hm := by
    rw [Desk.goTo, Table.get_insert] at hm
    split at hm
    · next he =>
      obtain rfl := Option.some.inj hm
      subst he
      exact ⟨hfits.lt, hfits.seen, hfits.pinned, hfits.held, hfits.ordered⟩
    · have hother := h.fits m other hm
      exact ⟨hother.lt, hother.seen, hother.pinned, hother.held, hother.ordered⟩

theorem forget (h : d.Books seed orders) : (d.forget n).Books seed orders where
  recorded := h.recorded
  numbered := h.numbered
  fits m other hm := by
    rw [Desk.forget, Table.get_erase] at hm
    split at hm
    · cases hm
    · have hother := h.fits m other hm
      exact ⟨hother.lt, hother.seen, hother.pinned, hother.held, hother.ordered⟩

end Books

/-- Orders that differ for one name only. -/
def SameBut (name : String) (orders orders' : List Order) : Prop :=
  ∀ k, k ≠ name → orders'.filter (·.name = k) = orders.filter (·.name = k)

theorem SameBut.due_eq {orders' : List Order} (h : SameBut name orders orders') {k : String}
    (hk : k ≠ name) : due seed orders' k = due seed orders k :=
  due_congr (h k hk)

theorem SameBut.without {orders' : List Order} (h : SameBut name orders orders') (m : ℕ) :
    SameBut name (orders.filter (·.number ≠ m)) (orders'.filter (·.number ≠ m)) := by
  intro k hk
  rw [List.filter_comm, h k hk, List.filter_comm]

/-- A request beside one that writes its own name's entry. -/
theorem Fits.aside {known : KnownDogs} {orders' : List Order} {m : ℕ}
    (h : d.Fits seed orders m asked) (hm : m ≠ n)
    (hknown : ∀ k, k ≠ name → known.recorded k = d.known.recorded k)
    (horders : SameBut name orders orders')
    (hmem : ∀ o ∈ orders', o.number ≠ n → o ∈ orders) :
    (d.write name known).Fits seed orders' m asked := by
  have hrevision : asked.enable.name = name →
      ∀ c ∈ asked.point.revision, (d.write name known).revision asked.enable.name ≠ c := by
    intro hname c hc heq
    have hle := h.seen c hc
    subst hname
    simp only [write, Function.update_self] at heq
    omega
  have hother : asked.enable.name ≠ name →
      (d.write name known).revision asked.enable.name = d.revision asked.enable.name := by
    intro hname
    simp [write, hname]
  refine ⟨h.lt, fun c hc => ?_, fun c hready hcaller hc => ?_, fun held c hwaiting hc => ?_,
    fun o ho hnumber => h.ordered o (hmem o ho (hnumber ▸ hm)) hnumber⟩
  · have hle := h.seen c hc
    by_cases hname : asked.enable.name = name
    · subst hname
      simp only [write, Function.update_self]
      omega
    · rwa [hother hname]
  · by_cases hname : asked.enable.name = name
    · exact absurd hc (hrevision hname c (by rw [hready]; rfl))
    · rw [hother hname] at hc
      show _ = (known.recorded asked.enable.name).getD (some ∅)
      rw [hknown _ hname]
      exact h.pinned c hready hcaller hc
  · by_cases hname : asked.enable.name = name
    · exact absurd hc (hrevision hname c (by rw [hwaiting]; rfl))
    · rw [hother hname] at hc
      rw [(horders.without m).due_eq hname]
      exact h.held held c hwaiting hc

theorem recorded_insert (known : KnownDogs) (entry : Entry) (k : String) :
    KnownDogs.recorded (known.insert name entry) k =
      if k = name then some entry.grants else known.recorded k := by
  rw [KnownDogs.recorded, Table.get_insert]
  split <;> rfl

theorem recorded_restore (known : KnownDogs) (held : Option Entry) (k : String) :
    (known.restore name held).recorded k =
      if k = name then held.map Entry.grants else known.recorded k := by
  cases held with
  | some entry => rw [KnownDogs.restore, recorded_insert]; rfl
  | none =>
    rw [KnownDogs.restore, KnownDogs.recorded, Table.get_erase]
    split <;> rfl

namespace Books

/-- A request is recorded. -/
theorem record (h : d.Books seed orders) (hn : d.requests[n]? = some asked) {c : ℕ}
    (hready : asked.point = .ready c) (hcalm : asked.caller ≠ .operator → d.UpToDate asked) :
    (d.record n asked).Books seed (orders ++ [asked.order n]) := by
  have hfits := h.fits n asked hn
  have hfresh : ∀ o ∈ orders, o.number ≠ n := by
    intro o ho hnumber
    obtain ⟨-, held, c', hwaiting⟩ := hfits.ordered o ho hnumber
    rw [hready] at hwaiting
    cases hwaiting
  have hsame : SameBut asked.enable.name orders (orders ++ [asked.order n]) := by
    intro k hk
    have hne : (asked.order n).name ≠ k := fun he => hk he.symm
    simp [hne]
  have hdue : due seed (orders ++ [asked.order n]) asked.enable.name = some asked.enable.grants := by
    cases hcaller : asked.caller with
    | operator => exact due_append_operator rfl (by simp [Asked.order, hcaller])
    | dog dog =>
      have hdog : asked.caller ≠ .operator := by simp [hcaller]
      have hc := hcalm hdog c (by rw [hready]; rfl)
      have hnone : (asked.order n).given = none := by simp [Asked.order, hcaller]
      have hdue : due seed (orders ++ [asked.order n]) asked.enable.name =
          some ((due seed orders asked.enable.name).getD (some ∅)) := due_append_dog rfl hnone
      rw [hdue, ← h.recorded, ← hfits.pinned c hready hdog hc]
  refine ⟨fun k => ?_, fun o ho => ?_, fun m other hm => ?_⟩
  · show KnownDogs.recorded (d.known.insert asked.enable.name asked.enable.entry) k = _
    rw [recorded_insert]
    split
    · next he => rw [he, hdue]; rfl
    · next he => rw [hsame.due_eq he, h.recorded]
  · rcases List.mem_append.1 ho with ho | ho
    · exact h.numbered o ho
    · obtain rfl := List.mem_singleton.1 ho
      exact hfits.lt
  · rw [Desk.record, Desk.goTo, Table.get_insert] at hm
    split at hm
    · next he =>
      subst he
      obtain rfl := Option.some.inj hm
      refine ⟨hfits.lt, ?_, by simp, ?_, ?_⟩
      · intro c' hc'
        obtain rfl : d.revision asked.enable.name + 1 = c' := Option.some.inj hc'
        simp [Desk.record, Desk.goTo, Desk.write]
      · rintro held c' ⟨⟩ -
        have hwithout : (orders ++ [asked.order m]).filter (·.number ≠ m) = orders := by
          have hself : orders.filter (·.number ≠ m) = orders :=
            List.filter_eq_self.2 fun o ho => by simpa using hfresh o ho
          rw [List.filter_append, hself]
          simp [Asked.order]
        rw [hwithout, ← h.recorded]
        rfl
      · intro o ho hnumber
        rcases List.mem_append.1 ho with ho | ho
        · exact absurd hnumber (hfresh o ho)
        · obtain rfl := List.mem_singleton.1 ho
          exact ⟨rfl, _, _, rfl⟩
    · next he =>
      have hknown : ∀ k, k ≠ asked.enable.name →
          (d.known.replace asked.enable.name asked.enable.entry).recorded k =
            d.known.recorded k := by
        intro k hk
        rw [KnownDogs.replace, recorded_insert, if_neg hk]
      have haside := (h.fits m other hm).aside he hknown hsame fun o ho hne => by
        rcases List.mem_append.1 ho with ho | ho
        · exact ho
        · obtain rfl := List.mem_singleton.1 ho
          exact absurd rfl hne
      exact ⟨haside.lt, haside.seen, haside.pinned, haside.held, haside.ordered⟩

/-- A refused request puts back what it found. -/
theorem restore (h : d.Books seed orders) (hn : d.requests[n]? = some asked) {held : Option Entry}
    {c : ℕ} (hwaiting : asked.point = .waiting held c) (hcalm : d.UpToDate asked) :
    ((d.write asked.enable.name (d.known.restore asked.enable.name held)).forget n).Books seed
      (orders.filter (·.number ≠ n)) := by
  have hfits := h.fits n asked hn
  have hc : d.revision asked.enable.name = c := hcalm c (by rw [hwaiting]; rfl)
  have hsame : SameBut asked.enable.name orders (orders.filter (·.number ≠ n)) := by
    intro k hk
    rw [List.filter_filter]
    refine List.filter_congr fun o ho => ?_
    by_cases hnumber : o.number = n
    · have hname := (hfits.ordered o ho hnumber).1
      have hne : o.name ≠ k := fun he => hk (he ▸ hname)
      simp [hne]
    · simp [hnumber]
  have hknown : ∀ k, k ≠ asked.enable.name →
      (d.known.restore asked.enable.name held).recorded k = d.known.recorded k := by
    intro k hk
    rw [recorded_restore, if_neg hk]
  refine ⟨fun k => ?_, fun o ho => h.numbered o (List.mem_filter.1 ho).1, fun m other hm => ?_⟩
  · show (d.known.restore asked.enable.name held).recorded k = _
    by_cases hk : k = asked.enable.name
    · rw [hk, recorded_restore, if_pos rfl, hfits.held held c hwaiting hc]
    · rw [hknown k hk, hsame.due_eq hk, h.recorded]
  · rw [Desk.forget, Table.get_erase] at hm
    split at hm
    · cases hm
    · next he =>
      have haside := (h.fits m other hm).aside he hknown hsame fun o ho _ =>
        (List.mem_filter.1 ho).1
      exact ⟨haside.lt, haside.seen, haside.pinned, haside.held, haside.ordered⟩

theorem arrive (h : d.Books seed orders) (caller : Caller) (enable : EnableDog) :
    (d.arrive caller enable).Books seed orders where
  recorded := h.recorded
  numbered o ho := Nat.lt_succ_of_lt (h.numbered o ho)
  fits m other hm := by
    simp only [Desk.arrive, Desk.goTo, Table.get_insert] at hm
    split at hm
    · next he =>
      obtain rfl := Option.some.inj hm
      subst he
      refine ⟨Nat.lt_succ_self _, ?_, ?_, ?_, ?_⟩
      · cases caller <;> simp [Point.revision, Desk.arrive, Desk.goTo]
      · cases caller <;> simp
      · cases caller <;> simp
      · intro o ho hnumber
        exact absurd hnumber (Nat.ne_of_lt (h.numbered o ho))
    · have hother := h.fits m other hm
      exact ⟨Nat.lt_succ_of_lt hother.lt, hother.seen, hother.pinned, hother.held, hother.ordered⟩

/-- A request whose point has no revision yet moves on before it is
recorded. -/
theorem unrecorded (h : d.Books seed orders) (hn : d.requests[n]? = some asked)
    (hpoint : asked.point.revision = none) (o : Order) (ho : o ∈ orders) : o.number ≠ n := by
  intro hnumber
  obtain ⟨-, held, c, hwaiting⟩ := (h.fits n asked hn).ordered o ho hnumber
  rw [hwaiting] at hpoint
  cases hpoint

/-- **One step** that nobody came in between keeps the books. -/
theorem step (h : d.Books seed orders) (hcalm : d.Undisturbed e) (hstep : d.Step e d') :
    d'.Books seed (d.stand e orders) := by
  cases e with
  | arrive caller enable =>
    cases hstep
    exact h.arrive caller enable
  | check n =>
    simp only [Step, Desk.step] at hstep
    split at hstep
    · next dog enable hn =>
      cases hstep
      split
      · have hfits := h.fits _ _ hn
        refine h.goTo ⟨hfits.lt, by simp [Point.revision], by simp, by simp, fun o ho hnumber => ?_⟩
        exact absurd hnumber (h.unrecorded hn rfl o ho)
      · exact h.forget
    · cases hstep
  | pin n =>
    simp only [Step, Desk.step] at hstep
    split at hstep
    · next caller enable hn =>
      cases hstep
      have hfits := h.fits _ _ hn
      refine h.goTo ⟨hfits.lt, ?_, fun c _ _ _ => rfl, by simp, fun o ho hnumber => ?_⟩
      · intro c hc
        obtain rfl : d.revision enable.name = c := Option.some.inj hc
        exact Nat.le_refl _
      · exact absurd hnumber (h.unrecorded hn rfl o ho)
    · cases hstep
  | invalid n | expire n =>
    simp only [Step, Desk.step] at hstep
    split at hstep
    · cases hstep
      exact h.forget
    · cases hstep
  | record n =>
    simp only [Step, Desk.step] at hstep
    split at hstep
    · next caller enable revision hn =>
      cases hstep
      have hkept := h.record hn rfl (hcalm _ hn)
      rw [stand, hn]
      exact hkept
    · cases hstep
  | answer n started =>
    simp only [Step, Desk.step] at hstep
    split at hstep
    · next caller enable held revision hn =>
      cases hstep
      simp only [Desk.answer, stand]
      by_cases hrefused : started.refused = true
      · rw [if_pos hrefused, if_pos hrefused]
        exact h.restore hn rfl (hcalm hrefused _ hn)
      · rw [if_neg hrefused, if_neg hrefused]
        exact h.forget
    · cases hstep

end Books

end Desk

/-- **The grants on record are the operator's word**, in every run in which
nobody writes a dog's name between another request's pin and its record, or
between its record and its refusal. -/
theorem grants_due {seed : KnownDogs} {h : List (Desk × Event)} {d : Desk}
    (hr : Run Desk.Step { known := seed } h d) (hC : Meets Desk.Undisturbed h) (name : String) :
    d.known.recorded name = due seed (standing h) name := by
  have hbooks : d.Books seed (standing h) := by
    induction hr with
    | nil =>
      refine ⟨fun k => ?_, by simp [standing], by simp⟩
      cases hk : seed.recorded k <;> simp [due, given, standing, hk]
    | snoc _ hstep ih =>
      rw [standing_snoc]
      exact (ih hC.init).step hC.last hstep
  exact hbooks.recorded name

/-! ## Books written out -/

namespace Desk

/-- The state a step leaves, where it can be taken. -/
def next (d : Desk) (e : Event) : Desk := (d.step e).getD d

/-- A step that can be taken. -/
def Ready (d : Desk) (e : Event) : Prop := (d.step e).isSome = true

instance (d : Desk) (e : Event) : Decidable (d.Ready e) := inferInstanceAs (Decidable (_ = true))

instance (d : Desk) : (e : Event) → Decidable (d.Undisturbed e)
  | .record _ => inferInstanceAs (Decidable (∀ _ ∈ _, _ → _))
  | .answer _ _ => inferInstanceAs (Decidable (_ → ∀ _ ∈ _, _))
  | .arrive _ _ | .check _ | .pin _ | .invalid _ | .expire _ => isTrue trivial

theorem Ready.step {d : Desk} {e : Event} (h : d.Ready e) : d.Step e (d.next e) := by
  obtain ⟨d', hd'⟩ := Option.isSome_iff_exists.1 h
  rw [next, Step, hd']
  rfl

end Desk

/-- Two dogs: one that may enable others, and one with much granted. -/
def kennel : Desk :=
  { known := (∅ : KnownDogs).insert "pilot" ⟨some {"dogs.control"}, []⟩
      |>.insert "otel" ⟨some {"flock.read", "flock.edit"}, []⟩ }

/-- The operator narrows a dog's grants. -/
def narrowed : EnableDog := ⟨"otel", some {"flock.read"}, []⟩

/-- Another dog enables it, and asks for more. -/
def widened : EnableDog := ⟨"otel", some {"flock.read", "shepherd.control"}, []⟩

/-- The two in a row, the dog's refused. -/
def inTurn : List Event :=
  [.arrive .operator narrowed, .record 0, .answer 0 .dog,
    .arrive (.dog "pilot") widened, .check 1, .pin 1, .record 1, .answer 1 .failed]

theorem grants_due_inTurn :
    (drive Desk.next kennel inTurn).known.recorded "otel" = some (some {"flock.read"}) := by
  have hready : Drives Desk.next (fun d e => d.Ready e ∧ d.Undisturbed e) kennel inTurn := by
    decide +kernel
  have hdue : due kennel.known (standing (logged Desk.next kennel inTurn)) "otel" =
      some (some {"flock.read"}) := by decide +kernel
  rw [← hdue]
  exact grants_due (hready.run fun _ _ h => h.1.step) (hready.meets fun _ _ h => h.2) "otel"

/-- The operator's comes between the dog's pin and its record. -/
def pinnedBefore : List Event :=
  [.arrive (.dog "pilot") widened, .check 0, .pin 0, .arrive .operator narrowed, .record 1,
    .answer 1 .dog, .record 0, .answer 0 .dog]

/-- The operator's comes between the dog's record and its refusal. -/
def heldBefore : List Event :=
  [.arrive (.dog "pilot") widened, .check 0, .pin 0, .record 0, .arrive .operator narrowed,
    .record 1, .answer 1 .dog, .answer 0 .failed]

/-- The operator's latest word is the narrower one, and the wider is back on
record: written by the dog's request, and put back by its refusal. -/
theorem grants_widened :
    ∃ (h h' : List (Desk × Event)) (d d' : Desk),
      Run Desk.Step kennel h d ∧ due kennel.known (standing h) "otel" = some (some {"flock.read"}) ∧
      d.known.recorded "otel" = some (some {"flock.read", "flock.edit"}) ∧
      Run Desk.Step kennel h' d' ∧
      due kennel.known (standing h') "otel" = some (some {"flock.read"}) ∧
      d'.known.recorded "otel" = some (some {"flock.read", "flock.edit"}) := by
  have hpinned : Drives Desk.next Desk.Ready kennel pinnedBefore := by decide +kernel
  have hheld : Drives Desk.next Desk.Ready kennel heldBefore := by decide +kernel
  refine ⟨_, _, _, _, hpinned.run fun _ _ h => h.step, ?_, ?_, hheld.run fun _ _ h => h.step, ?_, ?_⟩
  all_goals decide +kernel

end Gate

end Shep
