import Shep.Supervisor.Handover
import Shep.Supervisor.Helpers.Places

/-!
# Supervisor — ids and numbers

An id is handed out once: a slot found under an old id is the one that was
there, and only a dog's start takes an id back, its own resting row's. A
number belongs to one instance of an app that is there to stay; an instance
that shares it is on its way out. **`instances_identified`** says so of
every reachable state, of every step from one, and of the flock a successor
takes over.
-/

namespace Shep

namespace Supervisor

open Shep.Table

/-- **Ids and numbers identify the instances.** -/
structure Actor.Identifies (a : Actor) : Prop where
  counted : ∀ (id : ℕ) (s : SheepSlot), a.sheep[id]? = some s → id < a.nextId
  apart : ∀ (i j : ℕ) (s t : SheepSlot), a.sheep[i]? = some s → a.sheep[j]? = some t →
    s.place = t.place → i ≠ j → s.Leaves ∨ t.Leaves

theorem Actor.reachable_identifies {dogBinaries : List (String × String)}
    {h : List (Actor × World × Msg)} {a : Actor} (hr : Run Actor.Step (.init dogBinaries) h a) :
    a.Identifies where
  counted := fun _ _ hs => (Actor.reachable_inv hr).lt_nextId hs
  apart := by
    intro i j s t hs ht hplace hij
    by_contra hstay
    rw [not_or] at hstay
    have c : Turn := ⟨a, plain, .command .shutdown⟩
    exact hij ((placed_run hr c).apart i j s t hs ht hplace (s.stays_of_not_leaves hstay.1 c i)
      (t.stays_of_not_leaves hstay.2 c j))

/-! ## Adopted flocks -/

/-- The slot has the place and the marks its row carries. -/
structure CarriedSheep.SeatedAs (row : CarriedSheep) (s : SheepSlot) : Prop where
  place : s.place = (row.app.name, row.inst)
  reload : s.entry.reload = row.reload.getD .none
  pendingDelete : s.pendingDelete = row.pendingDelete.getD false

namespace Shepherd

variable {heir : Heir} {row : CarriedSheep} {d d' : Shepherd}

/-- A row installed is one slot, in its place. -/
theorem installAdopted_seats (h : d.installAdopted heir row = .ok d') :
    d'.actor.nextId = d.actor.nextId ∧
      ∃ s, d'.actor.sheep = d.actor.sheep.insert row.id s ∧ row.SeatedAs s := by
  unfold installAdopted at h
  cases happ : heir.normalize row.app with
  | error source => simp [happ] at h
  | ok app =>
    have hname : app.name = row.app.name := heir.normalize_name happ
    have hmark : ∀ b : Actor, b = (if row.disabled = some true then
        { d.actor with disabled := [app.name] ∪ d.actor.disabled } else d.actor) →
        b.sheep = d.actor.sheep ∧ b.nextId = d.actor.nextId := by
      rintro b rfl
      split <;> exact ⟨rfl, rfl⟩
    simp only [happ] at h
    generalize hb : (if row.disabled = some true then
        { d.actor with disabled := [app.name] ∪ d.actor.disabled } else d.actor) = b at h
    obtain ⟨hsheep, hnext⟩ := hmark b hb.symm
    cases hpid : row.pid with
    | none =>
      simp only [hpid, Except.ok.injEq] at h
      subst h
      simp only [Actor.installIdle]
      rw [← hsheep, ← hnext]
      split <;> exact ⟨rfl, _, rfl, ⟨Prod.ext hname rfl, rfl, rfl⟩⟩
    | some pid =>
      cases hadopt : heir.adopt row.name pid with
      | error source => simp [hpid, hadopt] at h
      | ok pid' =>
        simp only [hpid, hadopt, Except.ok.injEq] at h
        subst h
        rw [← hsheep, ← hnext]
        simp only [Actor.installLive]
        generalize hwait : (if row.status = .starting ∧ row.readyFailed.getD false = false then
          b.armReady row.id row.epoch (row.reload.getD .none == .replacement) else b) = b'
        have hb' : b'.sheep = b.sheep ∧ b'.nextId = b.nextId := by
          rw [← hwait]
          split <;> exact ⟨rfl, rfl⟩
        rw [← hb'.1, ← hb'.2]
        cases hm : row.manual with
        | none => exact ⟨rfl, _, rfl, ⟨Prod.ext hname rfl, rfl, rfl⟩⟩
        | some m =>
          -- the marker is put on the slot just entered
          simp only [Actor.claimManual, Actor.get_setSlot, Actor.mark, Actor.sendKill]
          refine ⟨rfl, ?slot, ?sheep, ?seated⟩
          case sheep =>
            simp only [Actor.setSlot, Actor.adoptTask, insert_insert]
            rfl
          case seated => exact ⟨Prod.ext hname rfl, rfl, rfl⟩

/-- The rows of a blob are all installed, each under its own id, and
nothing else is written. -/
theorem installRows_seats {heir : Heir} (rows : List CarriedSheep) :
    ∀ (d d' : Shepherd), installRows heir rows d = .ok d' →
      (rows.map CarriedSheep.id).Nodup →
      d'.actor.nextId = d.actor.nextId ∧
        (∀ id, id ∉ rows.map CarriedSheep.id → d'.actor.sheep[id]? = d.actor.sheep[id]?) ∧
        ∀ row ∈ rows, ∃ s, d'.actor.sheep[row.id]? = some s ∧ row.SeatedAs s := by
  induction rows with
  | nil =>
    intro d d' h _
    obtain rfl := Except.ok.inj h
    exact ⟨rfl, fun _ _ => rfl, by simp⟩
  | cons row rows ih =>
    intro d d' h hnodup
    rw [installRows] at h
    cases hrow : d.installAdopted heir row with
    | error err => simp [hrow] at h
    | ok d₁ =>
      simp only [hrow] at h
      obtain ⟨hnew, hrest⟩ := List.nodup_cons.1 hnodup
      obtain ⟨hnext₁, s, hsheep₁, hseat⟩ := installAdopted_seats hrow
      obtain ⟨hnext, hframe, hseats⟩ := ih d₁ d' h hrest
      refine ⟨hnext.trans hnext₁, fun id hid => ?_, fun r hr => ?_⟩
      · rw [List.map_cons, List.mem_cons, not_or] at hid
        rw [hframe id hid.2, hsheep₁, get_insert, if_neg hid.1]
      · rcases List.mem_cons.1 hr with rfl | hr
        · exact ⟨s, by rw [hframe _ hnew, hsheep₁]; simp, hseat⟩
        · exact hseats r hr

theorem foldl_installCarriedReload (carried : List CarriedReload) :
    ∀ a : Actor, (carried.foldl Actor.installCarriedReload a).sheep = a.sheep ∧
      (carried.foldl Actor.installCarriedReload a).nextId = a.nextId := by
  induction carried with
  | nil => exact fun a => ⟨rfl, rfl⟩
  | cons c carried ih =>
    intro a
    have hone : (a.installCarriedReload c).sheep = a.sheep ∧
        (a.installCarriedReload c).nextId = a.nextId := by
      rcases a.installCarriedReload_cases c with ⟨-, e⟩ | ⟨-, verifies, e, -⟩
      · rw [e]
        exact ⟨rfl, rfl⟩
      · rw [e]
        exact ⟨rfl, rfl⟩
    exact ⟨(ih _).1.trans hone.1, (ih _).2.trans hone.2⟩

/-- **A successor's flock is the one carried**: the ids, the places and the
marks, under the counter they were handed out by. -/
theorem spawnAdopted_seats {dogBinaries : List (String × String)}
    (h : spawnAdopted heir dogBinaries d.handleHandoverSnapshot = .ok d') :
    d'.actor.nextId = d.actor.nextId ∧
      (∀ id s, d.actor.Carries id s → ∃ s', d'.actor.sheep[id]? = some s' ∧
        s'.place = s.place ∧ (s.Leaves → s'.Leaves)) ∧
      ∀ (id : ℕ) (s' : SheepSlot), d'.actor.sheep[id]? = some s' → ∃ s, d.actor.Carries id s := by
  unfold spawnAdopted at h
  cases hrows : installRows heir d.handleHandoverSnapshot.sheep
      (inherit dogBinaries d.handleHandoverSnapshot.counters) with
  | error err => simp [hrows] at h
  | ok d₁ =>
    simp only [hrows, Except.ok.injEq] at h
    subst h
    obtain ⟨hnext, hframe, hseats⟩ := installRows_seats _ _ _ hrows d.snapshot_nodup
    obtain ⟨hsheep, hnext'⟩ := foldl_installCarriedReload d.handleHandoverSnapshot.reloads d₁.actor
    refine ⟨hnext'.trans hnext, fun id s hs => ?_, fun id s' hs' => ?_⟩
    · obtain ⟨s', hs', hseat⟩ := hseats (d.describe id s) (mem_snapshot.2 ⟨id, s, hs, rfl⟩)
      refine ⟨s', by rw [hsheep]; exact hs', hseat.place, fun hl => ?_⟩
      refine hl.imp (fun ⟨q, hq⟩ => ⟨q, ?_⟩) fun hd => ?_
      · rw [hseat.pendingDelete]
        exact hd
      · rw [hseat.reload]
        exact hq
    · rw [hsheep] at hs'
      by_cases hid : id ∈ d.handleHandoverSnapshot.sheep.map CarriedSheep.id
      · obtain ⟨row, hrow, rfl⟩ := List.mem_map.1 hid
        obtain ⟨id, s, hs, rfl⟩ := mem_snapshot.1 hrow
        exact ⟨s, hs⟩
      · rw [hframe id hid] at hs'
        simp [inherit, Actor.init] at hs'

end Shepherd

/-! ## The results -/

/-- **An id is handed out once, and a number is one instance's.** In every
reachable state ids are below the counter and instances that share a number
are leaving. A step enters slots above the counter only: what it leaves
under an older id is that id's own instance, or the dog its start puts in
the place of its resting row. A successor takes over ids, numbers and the
counter as they are. -/
theorem instances_identified {dogBinaries : List (String × String)}
    {h : List (Actor × World × Msg)} {a : Actor} (hr : Run Actor.Step (.init dogBinaries) h a) :
    a.Identifies ∧
    (∀ (e : World × Msg) (a' : Actor), Actor.Step a e a' → a.nextId ≤ a'.nextId ∧
      ∀ (id : ℕ) (s' : SheepSlot), a'.sheep[id]? = some s' →
        a.nextId ≤ id ∨ ∃ s, a.sheep[id]? = some s ∧ s'.name = s.name ∧
          (s'.entry.inst = s.entry.inst ∨ Turn.Reseats ⟨a, e.1, e.2⟩ id)) ∧
    ∀ (restartDue : ℕ → Option ℕ) (nextActionStamp : ℕ) (heir : Heir)
      (dogBinaries' : List (String × String)) (d : Shepherd),
      Shepherd.spawnAdopted heir dogBinaries'
        (Shepherd.mk a restartDue nextActionStamp).handleHandoverSnapshot = .ok d →
      d.actor.Identifies ∧ d.actor.nextId = a.nextId ∧
        (∀ id s, a.Carries id s → ∃ s', d.actor.sheep[id]? = some s' ∧ s'.place = s.place) ∧
        ∀ (id : ℕ) (s' : SheepSlot), d.actor.sheep[id]? = some s' → ∃ s, a.Carries id s := by
  have hid := Actor.reachable_identifies hr
  refine ⟨hid, ?_, ?_⟩
  · rintro e a' ⟨-, hadm, rfl⟩
    obtain ⟨b, hm, hb⟩ := Actor.turn_moves (Actor.reachable_inv hr) hadm e.1
    rw [hb]
    obtain ⟨hnext, hkeeps⟩ := hm.names
    refine ⟨hnext, fun id s' hs' => ?_⟩
    rcases Nat.lt_or_ge id a.nextId with hlt | hge
    · exact Or.inr (hkeeps id s' hlt hs')
    · exact Or.inl hge
  · intro restartDue nextActionStamp heir dogBinaries' d hd
    obtain ⟨hnext, hslots, hlisted⟩ := Shepherd.spawnAdopted_seats hd
    refine ⟨⟨fun id s' hs' => ?_, fun i j s' t' hs' ht' hplace hij => ?_⟩, hnext,
      fun id s hs => ?_, hlisted⟩
    · obtain ⟨s, hs⟩ := hlisted id s' hs'
      rw [hnext]
      exact hid.counted id s hs.1
    · obtain ⟨s, hs⟩ := hlisted i s' hs'
      obtain ⟨t, ht⟩ := hlisted j t' ht'
      obtain ⟨s₁, hs₁, hsp, hsl⟩ := hslots i s hs
      obtain ⟨t₁, ht₁, htp, htl⟩ := hslots j t ht
      obtain rfl := Option.some.inj (hs'.symm.trans hs₁)
      obtain rfl := Option.some.inj (ht'.symm.trans ht₁)
      exact (hid.apart i j s t hs.1 ht.1 (hsp.symm.trans (hplace.trans htp)) hij).imp hsl htl
    · obtain ⟨s', hs', hplace, -⟩ := hslots id s hs
      exact ⟨s', hs', hplace⟩

theorem instances_identified_overlapping :
    ((Actor.init []).play overlapping).Identifies := by
  have hplay : (Actor.init []).Playable overlapping := by decide +kernel
  exact (instances_identified hplay.run).1

/-- A dog known to the shepherd and not yet started. -/
def resting : List (World × Msg) :=
  [(plain, .command (.registerDogsAtRest [({ name := "rex" }, .builtIn)] []))]

/-- A dog's start enters a fresh process under the id of its resting row:
no id is handed out, and the row is gone. -/
theorem startDog_takes_id :
    ∃ (h : List (Actor × World × Msg)) (a a' : Actor) (task : Task),
      Run Actor.Step (.init []) h a ∧
      Actor.Step a (plain, .command (.startDog ⟨{ name := "rex" }, rfl, rfl, rfl⟩ .builtIn)) a' ∧
      (a.sheep[0]?).map SheepSlot.ctl = some none ∧
      (a'.sheep[0]?).map SheepSlot.ctl = some (some task.serial) ∧
      task.via = .fresh ∧ task.id = 0 ∧ task ∈ a'.tasks ∧ task ∉ a.tasks ∧
      a'.nextId = a.nextId := by
  have hplay : (Actor.init []).Playable resting := by decide +kernel
  exact ⟨_, (Actor.init []).play resting, _, life 0 0 { name := "rex" } .fresh, hplay.run,
    ⟨by decide +kernel, by decide +kernel, rfl⟩, by decide +kernel, by decide +kernel, rfl, rfl,
    by decide +kernel, by decide +kernel, by decide +kernel⟩

end Supervisor

end Shep
