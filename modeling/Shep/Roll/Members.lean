import Shep.Roll.Helpers.Registry
import Shep.Supervisor.Helpers.Origin
import Shep.Supervisor.Helpers.Play

/-!
# Roll — the roll forgets no member

`Enlisted` is the invariant: every sheep the supervisor has registered is
recorded, and so is every app a request has recorded and not registered
yet. Requests, records and deadlines keep it in any order. A prune keeps
it exactly when the listing it is made from misses none of those names;
`roll_forgets_none` is over every run whose prunes are of that kind, and
`roll_forgets` is a start in two stages whose second is lost to a prune
between them.
-/

namespace Shep

namespace Roll

open Supervisor

/-- A listing that misses no member: neither a sheep registered by now nor
an app some request has recorded and is about to register. -/
def Desk.Covers (d : Desk) (infos : List ProcessInfo) : Prop :=
  (∀ (id : ℕ) (s : SheepSlot), d.actor.sheep[id]? = some s → s.entry.dog = none →
    listed infos s.name = true) ∧
  ∀ errand ∈ d.waiting, ∀ app ∈ errand.enrolled, listed infos app.name = true

/-- No roll is made from a listing that misses a member. -/
def PrunesCovered (d : Desk) : Event → Prop
  | .prune i => ∀ infos, d.listings[i]? = some infos → d.Covers infos
  | _ => True

/-- Every sheep is recorded, and every app about to become one. -/
structure Enlisted (d : Desk) : Prop where
  inv : Inv .none d.actor
  sheep : ∀ (id : ℕ) (s : SheepSlot), d.actor.sheep[id]? = some s → s.entry.dog = none →
    (d.registry[s.name]?).isSome = true
  enrolled : ∀ errand ∈ d.waiting, ∀ app ∈ errand.enrolled,
    (d.registry[app.name]?).isSome = true
  keyed : d.registry.Keyed

namespace Enlisted

variable {d : Desk} {w : World} {apps : List AppConfig} {errand : Errand}

theorem record (h : Enlisted d) (apps : List AppConfig) : Enlisted (d.enrol apps) where
  inv := h.inv
  sheep id s hs hdog := Registry.isSome_record (h.sheep id s hs hdog)
  enrolled errand he app happ := Registry.isSome_record (h.enrolled errand he app happ)
  keyed := h.keyed.record apps

/-- The requests in hand change, to ones that have recorded what they are
about to register. -/
theorem rewait (h : Enlisted d) {waiting : List Errand}
    (hw : ∀ errand ∈ waiting, errand ∈ d.waiting ∨
      ∀ app ∈ errand.enrolled, (d.registry[app.name]?).isSome = true) :
    Enlisted { d with waiting := waiting } where
  inv := h.inv
  sheep := h.sheep
  enrolled errand he app happ := by
    rcases hw errand he with hold | hnew
    · exact h.enrolled errand hold app happ
    · exact hnew app happ
  keyed := h.keyed

theorem push (h : Enlisted d)
    (he : ∀ app ∈ errand.enrolled, (d.registry[app.name]?).isSome = true) :
    Enlisted { d with waiting := d.waiting ++ [errand] } := by
  refine h.rewait fun e hmem => ?_
  rcases List.mem_append.1 hmem with hmem | hmem
  · exact Or.inl hmem
  · exact Or.inr (List.mem_singleton.1 hmem ▸ he)

theorem erase (h : Enlisted d) (i : ℕ) : Enlisted { d with waiting := d.waiting.eraseIdx i } :=
  h.rewait fun _ he => Or.inl (List.mem_of_mem_eraseIdx he)

theorem startOn (h : Enlisted d) {policy : BatchPolicy} {stages : List Stage}
    (he : ∀ app ∈ (Errand.start policy stages).enrolled,
      (d.registry[app.name]?).isSome = true) : Enlisted (d.startOn policy stages) := by
  unfold Desk.startOn
  split
  · exact h
  · exact h.push he

theorem musterOn (h : Enlisted d) (plan : BootPlan) (apps : List AppConfig) :
    Enlisted (d.musterOn plan apps) := by
  unfold Desk.musterOn
  split
  · exact h
  · exact (h.record apps).startOn fun app happ =>
      Registry.isSome_record_mem (enrolled_stagesOf happ)

theorem musterPast (h : Enlisted d) (plan : BootPlan) (running : List ProcessInfo)
    (members toStart : List AppConfig) (disabled : List String) :
    Enlisted (d.musterPast plan running members toStart disabled) := by
  unfold Desk.musterPast
  dsimp only
  split
  · exact h.musterOn plan _
  · exact (h.record _).push fun app happ => Registry.isSome_record_mem happ

theorem turn (h : Enlisted d) (hrun : d.actor.running = true) {m : Msg}
    (hadm : d.actor.admits m)
    (henrols : ∀ app, (⟨d.actor, w, m⟩ : Turn).Enrols app →
      (d.registry[app.name]?).isSome = true) :
    Enlisted { d with actor := d.actor.turn w m } where
  inv := Actor.Step.inv (e := (w, m)) ⟨hrun, hadm, rfl⟩ h.inv
  sheep id s hs hdog := by
    rcases Actor.turn_knows h.inv hadm w hs hdog with ⟨j, t, ht, htd, hn⟩ | ⟨app, happ, hn⟩
    · exact hn ▸ h.sheep j t ht htd
    · exact hn ▸ henrols app happ
  enrolled := h.enrolled
  keyed := h.keyed

theorem tell (h : Enlisted d) {command : Command}
    (henrols : ∀ app, (⟨d.actor, w, .command command⟩ : Turn).Enrols app →
      (d.registry[app.name]?).isSome = true) : Enlisted (d.tell w command) := by
  unfold Desk.tell
  split
  · next hrun => exact h.turn hrun trivial henrols
  · exact h

theorem not_enrols {a : Actor} {m : Msg} (hm : ∀ command, m = .command command →
    requested command = true → edits command = true) (app : AppConfig) :
    ¬ (⟨a, w, m⟩ : Turn).Enrols app := by
  unfold Turn.Enrols
  dsimp only
  split
  · exact fun _ => by simpa [edits] using hm _ rfl rfl
  · exact fun _ => by simpa [edits] using hm _ rfl rfl
  · exact fun h => h

theorem take (h : Enlisted d) (r : Request) : Enlisted (d.take w r) := by
  cases r with
  | start apps plan =>
    simp only [Desk.take]
    split
    · exact (h.record _).startOn fun app happ =>
        Registry.isSome_record_mem (enrolled_stagesOf happ)
    · exact h
  | add apps plan =>
    simp only [Desk.take]
    split
    · exact (h.record _).push fun app happ => Registry.isSome_record_mem happ
    · exact h
  | muster saved autostart =>
    simp only [Desk.take]
    split
    · exact h
    · exact h.push fun app happ => absurd happ List.not_mem_nil
  | edit command =>
    simp only [Desk.take]
    split
    · exact h.push fun app happ => absurd happ List.not_mem_nil
    · exact h

/-- The supervisor's word on a request that has recorded what it is about
to register. -/
theorem settle (h : Enlisted d) (plan : BootPlan)
    (he : ∀ app ∈ errand.enrolled, (d.registry[app.name]?).isSome = true) :
    Enlisted (d.settle w plan errand) := by
  cases errand with
  | edit edit heard =>
    have ht : Enlisted (d.tell w edit.1) :=
      h.tell fun app happ => absurd happ (not_enrols (fun _ e _ => by cases e; exact edit.2) app)
    simp only [Desk.settle]
    split
    · exact { ht with }
    · exact ht
  | start policy stages =>
    cases stages with
    | nil => exact h
    | cons stage stages =>
      have ht : Enlisted (d.tell w (.start stage.members policy stage.gate)) :=
        h.tell fun app happ => he app (List.mem_append_left _ happ)
      have hreg : (d.tell w (.start stage.members policy stage.gate)).registry = d.registry := by
        unfold Desk.tell
        split <;> rfl
      simp only [Desk.settle]
      split
      · exact ht
      · refine ht.startOn fun app happ => ?_
        rw [hreg]
        exact he app (List.mem_append_right _ happ)
  | add apps disabled next =>
    have ht : Enlisted (d.tell w (.registerAtRest apps disabled)) := h.tell fun app happ => he app happ
    exact ht.musterOn plan next
  | muster members toStart disabled =>
    have ht : Enlisted (d.tell w .list) :=
      h.tell fun app happ => absurd happ (not_enrols (fun _ e h => by cases e; cases h) app)
    exact ht.musterPast plan _ members toStart disabled

theorem serve (h : Enlisted d) (plan : BootPlan) (i : ℕ) : Enlisted (d.serve w plan i) := by
  unfold Desk.serve
  split
  · next errand he =>
    exact (h.erase i).settle plan (h.enrolled errand (List.mem_of_getElem? he))
  · exact h

theorem enter (h : Enlisted d) (i : ℕ) : Enlisted (d.enter i) := by
  unfold Desk.enter
  split
  · next apps _ => exact { h.record apps with }
  · exact h

/-- A deadline leaves a request with no more to register than it had. -/
theorem expire (h : Enlisted d) (i : ℕ) (sent : Bool) : Enlisted (d.expire i sent) := by
  have hset : ∀ errand errand' : Errand, d.waiting[i]? = some errand →
      errand'.enrolled ⊆ errand.enrolled →
      Enlisted { d with waiting := d.waiting.set i errand' } := by
    intro errand errand' he hsub
    refine h.rewait fun e hmem => ?_
    rcases List.mem_or_eq_of_mem_set hmem with hmem | rfl
    · exact Or.inl hmem
    · exact Or.inr fun app happ => h.enrolled errand (List.mem_of_getElem? he) app (hsub happ)
  unfold Desk.expire
  split
  · next he => exact hset _ _ he (List.nil_subset _)
  · next he =>
    split
    · refine hset _ _ he ?_
      simp [Errand.enrolled]
    · exact h.erase i
  · next he => exact hset _ _ he (List.Subset.refl _)
  · exact h.erase i
  · exact h

theorem list (h : Enlisted d) : Enlisted (d.list w) := by
  have ht : Enlisted (d.tell w .list) :=
    h.tell fun app happ => absurd happ (not_enrols (fun _ e h => by cases e; cases h) app)
  exact { ht with }

theorem prune (h : Enlisted d) {i : ℕ}
    (hc : ∀ infos, d.listings[i]? = some infos → d.Covers infos) : Enlisted (d.prune i) := by
  unfold Desk.prune
  split
  · next infos hi =>
    obtain ⟨hsheep, henrolled⟩ := hc infos hi
    refine ⟨h.inv, fun id s hs hdog => ?_, fun errand he app happ => ?_, h.keyed.prune infos⟩
    · dsimp only
      rw [Registry.get_prune, if_pos (hsheep id s hs hdog)]
      exact h.sheep id s hs hdog
    · dsimp only
      rw [Registry.get_prune, if_pos (henrolled errand he app happ)]
      exact h.enrolled errand he app happ
  · exact h

/-- **One event keeps every member on record**, a prune that misses one
apart. -/
theorem step (h : Enlisted d) {e : Event} {d' : Desk} (hc : PrunesCovered d e)
    (hstep : d.Step e d') : Enlisted d' := by
  obtain ⟨hadm, rfl⟩ := hstep
  cases e with
  | own w m =>
    obtain ⟨hrun, hadm, hown⟩ := hadm
    refine h.turn hrun hadm fun app happ => absurd happ (not_enrols (fun command e hr => ?_) app)
    subst e
    exact absurd hown (by simp [sentByRequest, hr])
  | request w r => exact h.take r
  | serve w plan i => exact h.serve plan i
  | enter i => exact h.enter i
  | expire i sent => exact h.expire i sent
  | list w => exact h.list
  | prune i => exact h.prune hc

theorem boot (dogBinaries : List (String × String)) : Enlisted (Desk.boot dogBinaries) where
  inv := Actor.inv_init dogBinaries
  sheep := by simp [Desk.boot, Actor.init]
  enrolled := by simp [Desk.boot]
  keyed := by simp [Registry.Keyed, Table.Each, Desk.boot]

end Enlisted

/-- **The roll forgets no member.** In every run whose prunes each cover
the flock and the requests in flight, every registered sheep has a config
on record under its own name, and the next roll holds it. -/
theorem roll_forgets_none {dogBinaries : List (String × String)} {h : List (Desk × Event)}
    {d : Desk} (hr : Run Desk.Step (Desk.boot dogBinaries) h d) (hc : Meets PrunesCovered h)
    (id : ℕ) (s : SheepSlot) (hs : d.actor.sheep[id]? = some s) (hdog : s.entry.dog = none) :
    ∃ app, d.registry[s.name]? = some app ∧ app.name = s.name ∧
      ∃ saved ∈ d.registry.roll d.actor.snapshotAll, saved.app = app := by
  have hall : Enlisted d := hr.invariant hc (Enlisted.boot dogBinaries)
    fun _ _ _ hall hc hstep => hall.step hc hstep
  obtain ⟨app, happ⟩ := Option.isSome_iff_exists.1 (hall.sheep id s hs hdog)
  exact ⟨app, happ, hall.keyed s.name app happ, Registry.mem_roll happ (listed_snapshotAll hs)⟩

/-- One app is started, and a roll is written. -/
def rolled : List Event :=
  [.request plain (.start [{ name := "web" }] (some ⟨[["web"]], []⟩)),
    .serve plain ⟨[], []⟩ 0, .list plain, .prune 0]

theorem roll_forgets_none_rolled : ∃ app,
    (drive Desk.next (.boot []) rolled).registry["web"]? = some app ∧ app.name = "web" ∧
      ∃ saved ∈ (drive Desk.next (.boot []) rolled).registry.roll
        (drive Desk.next (.boot []) rolled).actor.snapshotAll, saved.app = app := by
  have hdrives : Drives Desk.next Desk.Admits (.boot []) rolled := by decide +kernel
  have hmeets : Meets PrunesCovered (logged Desk.next (.boot []) rolled) := by
    intro p hp
    simp only [rolled, logged, List.mem_cons, List.not_mem_nil, or_false] at hp
    rcases hp with rfl | rfl | rfl | rfl
    · trivial
    · trivial
    · trivial
    · intro infos hinfos
      obtain rfl := Option.some.inj hinfos
      -- the listing was taken of this very flock, and no request is waiting
      exact ⟨fun id s hs _ => listed_snapshotAll hs, fun errand he => by cases he⟩
  have hweb : ((drive Desk.next (.boot []) rolled).actor.sheep[0]?).any
      (fun s => decide (s.entry.dog = none ∧ s.name = "web")) = true := by decide +kernel
  obtain ⟨s, hs, hsheep⟩ := (Option.any_eq_true _ _).1 hweb
  obtain ⟨hdog, hname⟩ := of_decide_eq_true hsheep
  rw [← hname]
  exact roll_forgets_none (hdrives.run fun _ _ hadm => ⟨hadm, rfl⟩) hmeets 0 s hs hdog

/-- A start in two stages, and a roll written between them. -/
def staged : List Event :=
  [.request plain (.start [{ name := "db" }, { name := "web" }]
      (some ⟨[["db"], ["web"]], ["db"]⟩)),
    .serve plain ⟨[], []⟩ 0, .list plain, .prune 0, .serve plain ⟨[], []⟩ 0]

/-- With nothing in flight any more, the second stage is registered and
off the roll. -/
theorem roll_forgets : ∃ (h : List (Desk × Event)) (d : Desk) (s : SheepSlot),
    Run Desk.Step (.boot []) h d ∧ d.waiting = [] ∧ d.owed = [] ∧ d.actor.sheep[1]? = some s ∧
      s.entry.dog = none ∧ d.registry[s.name]? = none := by
  have hdrives : Drives Desk.next Desk.Admits (.boot []) staged := by decide +kernel
  have hweb : ((drive Desk.next (.boot []) staged).actor.sheep[1]?).any
      (fun s => decide (s.entry.dog = none ∧ s.name = "web")) = true := by decide +kernel
  have hgone : (drive Desk.next (.boot []) staged).registry["web"]? = none := by decide +kernel
  have hidle : (drive Desk.next (.boot []) staged).waiting.isEmpty = true := by decide +kernel
  obtain ⟨s, hs, hsheep⟩ := (Option.any_eq_true _ _).1 hweb
  obtain ⟨hdog, hname⟩ := of_decide_eq_true hsheep
  exact ⟨_, _, s, hdrives.run fun _ _ hadm => ⟨hadm, rfl⟩, List.isEmpty_iff.1 hidle, by decide +kernel,
    hs, hdog, hname ▸ hgone⟩

end Roll

end Shep
