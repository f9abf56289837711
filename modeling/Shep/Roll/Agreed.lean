import Shep.Roll.Helpers.Agreement
import Shep.Supervisor.Helpers.Play

/-!
# Roll — the registry agrees with the flock

`Registry.Agrees` is what the roll relies on: the config on record for an
app is the one each of its instances is spawned from next. A request in
hand breaks it and mends it with its record, so the invariant `Agreed` is
about the registry as it will be once every answer owed is recorded.
Records are made by tasks of their own, and a start is recorded before it
can be refused: **`registry_agrees`** is over every run whose records are
kept in order, and **`registry_overwritten`** is a refused start that
leaves its config on record.
-/

namespace Shep

namespace Roll

open Supervisor

/-! ## The desk -/

namespace Desk

/-- The registry once every answer owed is recorded, oldest first. -/
def settled (d : Desk) : Registry := d.registry.record d.owed.flatten

/-- Some answer owed is on this app. -/
def Owes (d : Desk) (n : String) : Prop := ∃ app ∈ d.owed.flatten, app.name = n

/-- **An app may be recorded before it is registered**: an answer on it is
owed still, or every instance of it is spawned from this very config
next. -/
def Welcomes (d : Desk) (app : AppConfig) : Prop :=
  d.Owes app.name ∨ ∀ (id : ℕ) (s : SheepSlot), d.actor.sheep[id]? = some s → s.entry.dog = none →
    d.actor.Respawns id s → s.name = app.name → s.intendedSpec = app

/-- **An answer may be recorded now**: no earlier one on the same app is
owed still that differs, unless a later one is. -/
def Follows (d : Desk) (i : ℕ) (apps : List AppConfig) : Prop :=
  ∀ app ∈ apps, (∃ app' ∈ (d.owed.drop (i + 1)).flatten, app'.name = app.name) ∨
    ∀ app' ∈ (d.owed.take i).flatten, app'.name = app.name → app' = app

/-- **The supervisor may come to a request**: an edit is heard out and
finds what it has to, what is registered is on record as it was enrolled,
and what a muster enrols in between is welcome. -/
def Hears (w : World) (d : Desk) : Errand → Prop
  | .edit edit heard => d.actor.running = true → heard = true ∧ Finds w d.actor edit.1
  | .start _ [] => True
  | .start _ (stage :: _) =>
    d.actor.running = true → ∀ app ∈ stage.members, d.settled[app.name]? = some app
  | .add apps _ next =>
    (d.actor.running = true → ∀ app ∈ apps, d.settled[app.name]? = some app) ∧
      ∀ app ∈ next, d.Welcomes app
  | .muster members toStart _ =>
    d.actor.running = true ∨ ∀ app ∈ members ++ toStart, d.Welcomes app

end Desk

/-- The apps a request records before it asks the supervisor. -/
def Request.enrols (w : World) : Request → List AppConfig
  | .start apps plan | .add apps plan =>
    match normalizeAll w apps, plan with
    | some resolved, some _ => resolved
    | _, _ => []
  | .muster _ _ | .edit _ => []

/-- **The records are kept in order.** -/
def RecordsOrdered (d : Desk) : Event → Prop
  | .request w r => ∀ app ∈ r.enrols w, d.Welcomes app
  | .serve w _ i => ∀ errand, d.waiting[i]? = some errand → d.Hears w errand
  | .enter i => ∀ apps, d.owed[i]? = some apps → d.Follows i apps
  | .prune i => ∀ infos, d.listings[i]? = some infos → ∀ (id : ℕ) (s : SheepSlot),
      d.actor.sheep[id]? = some s → s.entry.dog = none → d.actor.Respawns id s →
      listed infos s.name = true ∨ d.Owes s.name
  | .own _ _ | .expire _ _ | .list _ => True

/-- What a request in hand has been checked for: a load names no app twice,
and a muster starts none of the apps it registers at rest. -/
def Errand.Orderly : Errand → Prop
  | .edit e _ => (edited e.1).Nodup
  | .add apps _ next => ∀ app ∈ apps, ∀ app' ∈ next, app.name ≠ app'.name
  | _ => True

/-- Once every answer owed is recorded, the registry agrees with the
flock. -/
structure Agreed (d : Desk) : Prop where
  inv : Inv .none d.actor
  agrees : d.settled.Agrees d.actor
  waiting : ∀ errand ∈ d.waiting, errand.Orderly

namespace Agreed

variable {d d' : Desk} {w : World} {apps : List AppConfig} {errand : Errand} {n : String}

theorem get_settled (d : Desk) (n : String) :
    d.settled[n]? = (Registry.lastOf d.owed.flatten n).or d.registry[n]? :=
  Registry.get_record _ _ _

/-- The same answers owed, over a registry that differs in nothing the flock
reads. -/
theorem same (h : Agreed d) (hactor : d'.actor = d.actor) (hwaiting : d'.waiting = d.waiting)
    (hsame : ∀ (id : ℕ) (s : SheepSlot), d.actor.sheep[id]? = some s → s.entry.dog = none →
      d.actor.Respawns id s → d'.settled[s.name]? = some s.intendedSpec) : Agreed d' where
  inv := hactor ▸ h.inv
  agrees := by
    intro id s hs hdog hcov
    rw [hactor] at hs hcov
    exact hsame id s hs hdog hcov
  waiting := hwaiting ▸ h.waiting

theorem record (h : Agreed d) (hw : ∀ app ∈ apps, d.Welcomes app) : Agreed (d.enrol apps) := by
  refine h.same rfl rfl fun id s hs hdog hcov => ?_
  have hold := h.agrees id s hs hdog hcov
  rw [get_settled] at hold ⊢
  change (Registry.lastOf d.owed.flatten s.name).or (d.registry.record apps)[s.name]? = _
  rw [Registry.get_record]
  cases howed : Registry.lastOf d.owed.flatten s.name with
  | some app => rwa [howed] at hold
  | none =>
    rw [howed] at hold
    cases hlast : Registry.lastOf apps s.name with
    | none => exact hold
    | some app =>
      obtain ⟨happ, hname⟩ := Registry.lastOf_mem hlast
      rcases hw app happ with ⟨app', happ', hname'⟩ | hall
      · exact absurd (hname'.trans hname) (Registry.lastOf_none.1 howed app' happ')
      · exact congrArg some (hall id s hs hdog hcov hname.symm).symm

theorem rewait (h : Agreed d) {waiting : List Errand}
    (hw : ∀ errand ∈ waiting, errand ∈ d.waiting ∨ errand.Orderly) :
    Agreed { d with waiting := waiting } where
  inv := h.inv
  agrees := h.agrees
  waiting errand he := (hw errand he).elim (h.waiting errand) fun h => h

theorem push (h : Agreed d) (he : errand.Orderly) :
    Agreed { d with waiting := d.waiting ++ [errand] } := by
  refine h.rewait fun e hmem => ?_
  rcases List.mem_append.1 hmem with hmem | hmem
  · exact Or.inl hmem
  · exact Or.inr (List.mem_singleton.1 hmem ▸ he)

theorem erase (h : Agreed d) (i : ℕ) : Agreed { d with waiting := d.waiting.eraseIdx i } :=
  h.rewait fun _ he => Or.inl (List.mem_of_mem_eraseIdx he)

theorem startOn (h : Agreed d) (policy : BatchPolicy) (stages : List Stage) :
    Agreed (d.startOn policy stages) := by
  unfold Desk.startOn
  split
  · exact h
  · exact h.push trivial

theorem musterOn (h : Agreed d) (plan : BootPlan) (hw : ∀ app ∈ apps, d.Welcomes app) :
    Agreed (d.musterOn plan apps) := by
  unfold Desk.musterOn
  split
  · exact h
  · exact (h.record hw).startOn _ _

/-- A muster enrols what its listing does not have. -/
theorem musterPast (h : Agreed d) (plan : BootPlan) {running : List ProcessInfo}
    {members toStart : List AppConfig} (disabled : List String)
    (hw : ∀ app ∈ members ++ toStart, listed running app.name = false → d.Welcomes app) :
    Agreed (d.musterPast plan running members toStart disabled) := by
  unfold Desk.musterPast
  dsimp only
  split
  · refine h.musterOn plan fun app happ => ?_
    obtain ⟨happ, hl⟩ := List.mem_filter.1 happ
    exact hw app (List.mem_append_right _ happ) (by simpa using hl)
  · have hrest : ∀ app ∈ members.filter fun app =>
        !listed running app.name && !(toStart.map AppConfig.name).contains app.name,
        d.Welcomes app := by
      intro app happ
      obtain ⟨happ, hl⟩ := List.mem_filter.1 happ
      exact hw app (List.mem_append_left _ happ) (by simpa using (Bool.and_eq_true_iff.1 hl).1)
    refine (h.record hrest).push fun app happ app' happ' hn => ?_
    -- the apps it starts are left out of those it registers at rest
    obtain ⟨-, hl⟩ := List.mem_filter.1 happ
    have hmem : app.name ∈ toStart.map AppConfig.name :=
      List.mem_map.2 ⟨app', (List.mem_filter.1 happ').1, hn.symm⟩
    simp only [Bool.and_eq_true, Bool.not_eq_true', List.contains_eq_mem] at hl
    exact absurd hmem (by simpa using hl.2)

theorem turn (h : Agreed d) (hrun : d.actor.running = true) {m : Msg} (hadm : d.actor.admits m)
    (hconf : ∀ n, ¬ (⟨d.actor, w, m⟩ : Turn).Configures n)
    (henrols : ∀ app, (⟨d.actor, w, m⟩ : Turn).Enrols app → d.settled[app.name]? = some app) :
    Agreed { d with actor := d.actor.turn w m } where
  inv := Actor.Step.inv (e := (w, m)) ⟨hrun, hadm, rfl⟩ h.inv
  agrees := h.agrees.turn h.inv hadm hconf henrols
  waiting := h.waiting

theorem tell (h : Agreed d) {command : Command}
    (hconf : ∀ n, ¬ (⟨d.actor, w, .command command⟩ : Turn).Configures n)
    (henrols : d.actor.running = true → ∀ app,
      (⟨d.actor, w, .command command⟩ : Turn).Enrols app → d.settled[app.name]? = some app) :
    Agreed (d.tell w command) := by
  unfold Desk.tell
  split
  · next hrun => exact h.turn hrun trivial hconf (henrols hrun)
  · exact h

/-- An app that is not being registered stays welcome over the turn that
registers others. -/
theorem welcomes_tell (h : Agreed d) {disabled : List String} {app : AppConfig}
    (hw : d.Welcomes app) (hapart : ∀ app' ∈ apps, app'.name ≠ app.name) :
    (d.tell w (.registerAtRest apps disabled)).Welcomes app := by
  unfold Desk.tell
  split
  · refine hw.imp_right fun hall id s hs hdog hcov hn => ?_
    rcases Actor.turn_carries h.inv (m := .command (.registerAtRest apps disabled)) trivial w
      (fun n hc => hc) hs hdog hcov with ⟨j, t, ht, htd, htc, htn, hint⟩ | ⟨henrol, hname⟩
    · rw [← hint]
      exact hall j t ht htd htc (htn.trans hn)
    · exact absurd (hname.trans hn) (hapart _ henrol)
  · exact hw

/-- A request whose apps may be recorded. -/
theorem take (h : Agreed d) (r : Request) (hw : ∀ app ∈ r.enrols w, d.Welcomes app) :
    Agreed (d.take w r) := by
  cases r with
  | start apps plan =>
    simp only [Desk.take]
    simp only [Request.enrols] at hw
    split
    · next resolved plan hn =>
      rw [hn] at hw
      exact (h.record hw).startOn _ _
    · exact h
  | add apps plan =>
    simp only [Desk.take]
    simp only [Request.enrols] at hw
    split
    · next resolved plan hn =>
      rw [hn] at hw
      exact (h.record hw).push fun _ _ _ hin => absurd hin List.not_mem_nil
    · exact h
  | muster saved autostart =>
    simp only [Desk.take]
    split
    · exact h
    · exact h.push trivial
  | edit edit =>
    simp only [Desk.take]
    split
    · next hnd => exact h.push hnd
    · exact h

/-- The supervisor's word on a request it may come to. -/
theorem settle (h : Agreed d) (plan : BootPlan) (he : errand.Orderly) (hhears : d.Hears w errand) :
    Agreed (d.settle w plan errand) := by
  cases errand with
  | edit edit heard =>
    simp only [Desk.settle]
    by_cases hrun : d.actor.running = true
    · obtain ⟨rfl, hfinds⟩ := hhears hrun
      have htell : d.tell w edit.1 = { d with actor := d.actor.turn w (.command edit.1) } := by
        rw [Desk.tell, if_pos hrun]
      have hinv : Inv .none (d.actor.turn w (.command edit.1)) :=
        Actor.Step.inv (e := (w, .command edit.1)) ⟨hrun, trivial, rfl⟩ h.inv
      have hagrees := h.agrees.edit (w := w) h.inv edit he hfinds
      rw [htell]
      split
      · refine ⟨hinv, ?_, h.waiting⟩
        change (Registry.record d.registry (d.owed ++ [_]).flatten).Agrees _
        rw [List.flatten_concat, Registry.record_append]
        exact hagrees
      · next hnone =>
        have hempty : toRecord (d.actor.turn w (.command edit.1)) = [] := by
          simpa [hrun] using hnone
        rw [hempty] at hagrees
        exact ⟨hinv, hagrees, h.waiting⟩
    · have htell : d.tell w edit.1 = d := by
        rw [Desk.tell, if_neg hrun]
      rw [htell]
      split
      · next hsome =>
        simp only [Bool.and_eq_true] at hsome
        exact absurd hsome.1.2 hrun
      · exact h
  | start policy stages =>
    cases stages with
    | nil => exact h
    | cons stage stages =>
      have ht : Agreed (d.tell w (.start stage.members policy stage.gate)) :=
        h.tell (fun n hc => hc) hhears
      simp only [Desk.settle]
      split
      · exact ht
      · exact ht.startOn policy stages
  | add apps disabled next =>
    have ht : Agreed (d.tell w (.registerAtRest apps disabled)) := h.tell (fun n hc => hc) hhears.1
    exact ht.musterOn plan fun app happ =>
      h.welcomes_tell (hhears.2 app happ) fun app' happ' => he app' happ' app happ
  | muster members toStart disabled =>
    have ht : Agreed (d.tell w .list) := h.tell (fun n hc => hc) fun _ app hc => hc.elim
    refine ht.musterPast plan disabled fun app happ hl => ?_
    by_cases hrun : d.actor.running = true
    · rw [if_pos hrun] at hl
      refine Or.inr fun id s hs _ _ hn => ?_
      -- the listing has every instance there is
      rw [Desk.tell, if_pos hrun] at hs
      have hs : d.actor.sheep[id]? = some s := hs
      rw [← hn, listed_snapshotAll hs] at hl
      cases hl
    · rw [Desk.tell, if_neg hrun]
      exact hhears.resolve_left hrun app happ

theorem serve (h : Agreed d) (plan : BootPlan) (i : ℕ)
    (hhears : ∀ errand, d.waiting[i]? = some errand → d.Hears w errand) :
    Agreed (d.serve w plan i) := by
  unfold Desk.serve
  split
  · next errand he =>
    refine (h.erase i).settle plan (h.waiting errand (List.mem_of_getElem? he)) ?_
    have hd := hhears errand he
    cases errand with
    | edit | add | muster => exact hd
    | start policy stages => cases stages <;> exact hd
  · exact h

/-- An answer recorded in its turn is what the registry settles at. -/
theorem enter (h : Agreed d) (i : ℕ)
    (hfollows : ∀ apps, d.owed[i]? = some apps → d.Follows i apps) : Agreed (d.enter i) := by
  unfold Desk.enter
  split
  · next apps hi =>
    refine h.same rfl rfl fun id s hs hdog hcov => ?_
    have hold := h.agrees id s hs hdog hcov
    have hsplit : d.owed = d.owed.take i ++ apps :: d.owed.drop (i + 1) := by
      rw [← (List.getElem?_eq_some_iff.1 hi).2, List.getElem_cons_drop, List.take_append_drop]
    have howed : d.owed.flatten =
        (d.owed.take i).flatten ++ (apps ++ (d.owed.drop (i + 1)).flatten) := by
      conv_lhs => rw [hsplit]
      rw [List.flatten_append, List.flatten_cons]
    rw [get_settled, howed, Registry.lastOf_append, Registry.lastOf_append] at hold
    rw [get_settled]
    change (Registry.lastOf (d.owed.eraseIdx i).flatten s.name).or
      (d.registry.record apps)[s.name]? = _
    rw [List.eraseIdx_eq_take_drop_succ, List.flatten_append, Registry.lastOf_append,
      Registry.get_record]
    cases hlater : Registry.lastOf (d.owed.drop (i + 1)).flatten s.name with
    | some app => rwa [hlater] at hold
    | none =>
      rw [hlater] at hold
      cases hnow : Registry.lastOf apps s.name with
      | none => rwa [hnow] at hold
      | some app =>
        rw [hnow] at hold
        cases hearlier : Registry.lastOf (d.owed.take i).flatten s.name with
        | none => exact hold
        | some app' =>
          -- the answer overtaken is of the same config
          obtain ⟨happ, hname⟩ := Registry.lastOf_mem hnow
          obtain ⟨happ', hname'⟩ := Registry.lastOf_mem hearlier
          have hlast := (hfollows apps hi app happ).resolve_left fun ⟨later, hin, hn⟩ =>
            Registry.lastOf_none.1 hlater later hin (hn.trans hname)
          rw [hlast app' happ' (hname'.trans hname.symm)]
          exact hold
  · exact h

/-- A deadline leaves a request with no more to check than it had. -/
theorem expire (h : Agreed d) (i : ℕ) (sent : Bool) : Agreed (d.expire i sent) := by
  have hset : ∀ errand : Errand, errand.Orderly →
      Agreed { d with waiting := d.waiting.set i errand } := by
    intro errand he
    refine h.rewait fun e hmem => ?_
    rcases List.mem_or_eq_of_mem_set hmem with hmem | rfl
    · exact Or.inl hmem
    · exact Or.inr he
  unfold Desk.expire
  split
  · next edit heard he =>
    have hnd : (Errand.edit edit heard).Orderly := h.waiting _ (List.mem_of_getElem? he)
    exact hset _ hnd
  · split
    · exact hset _ trivial
    · exact h.erase i
  · exact hset _ fun _ _ _ hin => absurd hin List.not_mem_nil
  · exact h.erase i
  · exact h

theorem list (h : Agreed d) : Agreed (d.list w) := by
  have ht : Agreed (d.tell w .list) := h.tell (fun n hc => hc) fun _ app hc => hc.elim
  exact { ht with }

/-- A prune that takes out no app that has an instance and no answer
owed. -/
theorem prune (h : Agreed d) {i : ℕ}
    (hcovers : ∀ infos, d.listings[i]? = some infos → ∀ (id : ℕ) (s : SheepSlot),
      d.actor.sheep[id]? = some s → s.entry.dog = none → d.actor.Respawns id s →
      listed infos s.name = true ∨ d.Owes s.name) : Agreed (d.prune i) := by
  unfold Desk.prune
  split
  · next infos hi =>
    refine h.same rfl rfl fun id s hs hdog hcov => ?_
    have hold := h.agrees id s hs hdog hcov
    rw [get_settled] at hold ⊢
    change (Registry.lastOf d.owed.flatten s.name).or (d.registry.prune infos)[s.name]? = _
    cases howed : Registry.lastOf d.owed.flatten s.name with
    | some app => rwa [howed] at hold
    | none =>
      rcases hcovers infos hi id s hs hdog hcov with hl | ⟨app, happ, hn⟩
      · rw [howed] at hold
        rw [Registry.get_prune, if_pos hl]
        exact hold
      · exact absurd hn (Registry.lastOf_none.1 howed app happ)
  · exact h

/-- **One event keeps the registry agreeing with the flock**, when it keeps
the records in order. -/
theorem step (h : Agreed d) {e : Event} (hc : RecordsOrdered d e) (hstep : d.Step e d') :
    Agreed d' := by
  obtain ⟨hadm, rfl⟩ := hstep
  cases e with
  | own w m =>
    obtain ⟨hrun, hadm, hown⟩ := hadm
    refine h.turn hrun hadm (fun n hconf => ?_) fun app henrol => ?_
    · unfold Turn.Configures at hconf
      dsimp only at hconf
      split at hconf
      all_goals first | exact hconf | cases hown
    · unfold Turn.Enrols at henrol
      dsimp only at henrol
      split at henrol
      all_goals first | exact henrol.elim | cases hown
  | request w r => exact h.take r hc
  | serve w plan i => exact h.serve plan i hc
  | enter i => exact h.enter i hc
  | expire i sent => exact h.expire i sent
  | list w => exact h.list
  | prune i => exact h.prune hc

theorem boot (dogBinaries : List (String × String)) : Agreed (Desk.boot dogBinaries) where
  inv := Actor.inv_init dogBinaries
  agrees := by
    intro id s hs
    simp [Desk.boot, Actor.init] at hs
  waiting := by simp [Desk.boot]

end Agreed

/-- **The registry agrees with the flock.** In every run whose records are
kept in order, once every answer owed is recorded, what is on record for an
app is what each of its instances is spawned from next. -/
theorem registry_agrees {dogBinaries : List (String × String)} {h : List (Desk × Event)}
    {d : Desk} (hr : Run Desk.Step (Desk.boot dogBinaries) h d) (hc : Meets RecordsOrdered h)
    (howed : d.owed = []) (id : ℕ) (s : SheepSlot) (hs : d.actor.sheep[id]? = some s)
    (hdog : s.entry.dog = none) (hcov : d.actor.Respawns id s) :
    d.registry[s.name]? = some s.intendedSpec := by
  have hall : Agreed d := hr.invariant hc (Agreed.boot dogBinaries)
    fun _ _ _ hall hc hstep => hall.step hc hstep
  have hagrees := hall.agrees id s hs hdog hcov
  rw [Agreed.get_settled, howed] at hagrees
  exact hagrees

/-- An app is started, one of its keys set, and the answer recorded. -/
def keyed : List Event :=
  [.request plain (.start [{ name := "web" }] (some ⟨[["web"]], []⟩)), .serve plain ⟨[], []⟩ 0,
    .request plain (.edit ⟨.setSheepEnv "web" "K" (some "1"), rfl⟩), .serve plain ⟨[], []⟩ 0,
    .enter 0]

theorem registry_agrees_keyed :
    (drive Desk.next (.boot []) keyed).registry["web"]? =
      some { name := "web", env := [("K", "1")] } := by
  have hdrives : Drives Desk.next Desk.Admits (.boot []) keyed := by decide +kernel
  have hmeets : Meets RecordsOrdered (logged Desk.next (.boot []) keyed) := by
    intro p hp
    simp only [keyed, logged, List.mem_cons, List.not_mem_nil, or_false] at hp
    rcases hp with rfl | rfl | rfl | rfl | rfl
    · refine fun app _ => Or.inr fun id s hs => ?_
      simp [Desk.boot, Actor.init] at hs
    · intro errand he
      obtain rfl := Option.some.inj he
      have hrecorded : ∀ app ∈ ([{ name := "web" }] : List AppConfig),
          ((drive Desk.next (.boot []) (keyed.take 1)).settled)[app.name]? = some app := by
        decide +kernel
      exact fun _ => hrecorded
    · exact fun app happ => absurd happ List.not_mem_nil
    · intro errand he
      obtain rfl := Option.some.inj he
      exact fun _ => ⟨rfl, trivial⟩
    · exact fun apps _ app _ => Or.inr fun app' hin => absurd hin List.not_mem_nil
  have hweb : ((drive Desk.next (.boot []) keyed).actor.sheep[0]?).any (fun s => decide
      (s.entry.dog = none ∧ s.pendingDelete = false ∧ s.name = "web" ∧
        s.intendedSpec = { name := "web", env := [("K", "1")] })) = true := by decide +kernel
  obtain ⟨s, hs, hsheep⟩ := (Option.any_eq_true _ _).1 hweb
  obtain ⟨hdog, hstay, hname, hspec⟩ := of_decide_eq_true hsheep
  rw [← hspec, ← hname]
  exact registry_agrees (hdrives.run fun _ _ hadm => ⟨hadm, rfl⟩) hmeets
    (List.isEmpty_iff.1 (by decide +kernel)) 0 s hs hdog (Or.inl hstay)

/-- An app is started and disabled, and a start of it with another config
refused. -/
def overwritten : List Event :=
  [.request plain (.start [{ name := "web" }] (some ⟨[["web"]], []⟩)), .serve plain ⟨[], []⟩ 0,
    .own plain (.command (.disable (.name "web"))),
    .request plain (.start [{ name := "web", env := [("K", "1")] }] (some ⟨[["web"]], []⟩)),
    .serve plain ⟨[], []⟩ 0]

/-- The start is refused, and what it was refused with is on record. -/
theorem registry_overwritten : ∃ (h : List (Desk × Event)) (d : Desk) (s : SheepSlot),
    Run Desk.Step (.boot []) h d ∧ d.waiting = [] ∧ d.owed = [] ∧ d.actor.running = true ∧
      refused d.actor = true ∧ d.actor.sheep[0]? = some s ∧ s.entry.dog = none ∧
      s.pendingDelete = false ∧ d.registry[s.name]? ≠ some s.intendedSpec := by
  have hdrives : Drives Desk.next Desk.Admits (.boot []) overwritten := by decide +kernel
  have hweb : ((drive Desk.next (.boot []) overwritten).actor.sheep[0]?).any (fun s => decide
      (s.entry.dog = none ∧ s.pendingDelete = false ∧
        (drive Desk.next (.boot []) overwritten).registry[s.name]? ≠ some s.intendedSpec)) =
      true := by decide +kernel
  obtain ⟨s, hs, hsheep⟩ := (Option.any_eq_true _ _).1 hweb
  obtain ⟨hdog, hstay, hdiffers⟩ := of_decide_eq_true hsheep
  exact ⟨_, _, s, hdrives.run fun _ _ hadm => ⟨hadm, rfl⟩, List.isEmpty_iff.1 (by decide +kernel),
    List.isEmpty_iff.1 (by decide +kernel), by decide +kernel, by decide +kernel, hs, hdog, hstay,
    hdiffers⟩

end Roll

end Shep
