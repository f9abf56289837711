import Shep.Roll.Helpers.Registry
import Shep.Supervisor.Helpers.Configuring
import Shep.Supervisor.Helpers.Origin

/-!
# Roll — a registry that agrees with the flock

`Registry.Agrees`: what is on record for an app is what each of its
instances is spawned from next. An edit breaks it and the record of its
answer mends it, when the edit finds what it has to (`Agrees.edit`); a turn
that writes no config keeps it, when what it registers is on record
(`Agrees.turn`).
-/

namespace Shep

namespace Supervisor

namespace Actor

/-- **What one app of a load has to find.** A load that leaves the count
alone merges to a config that holds at it, or changes nothing; one that
changes the count finds no instance of the app draining, or nothing parked
on any. -/
structure Loadable (w : World) (reset : ResetDepth) (incoming : DeclaredApp) (a : Actor) :
    Prop where
  holds : ∀ (id : ℕ) (s : SheepSlot) (merged : AppConfig), a.sheep[id]? = some s →
    s.name = incoming.config.name → w.mergeDeclared s.intendedSpec incoming reset = .ok merged →
    (s.intendedSpec.instances = merged.instances ∨ a.shuttingDown = true) →
    (tryWithCount w merged s.entry.spec.instances).isOk = true ∨
      (w.reachedSpec s.entry.spec s.intendedSpec merged s.entry.spec.instances).isOk = false
  speaks : ∀ (id : ℕ) (s : SheepSlot) (merged : AppConfig), a.sheep[id]? = some s →
    s.name = incoming.config.name → w.mergeDeclared s.intendedSpec incoming reset = .ok merged →
    s.intendedSpec.instances ≠ merged.instances → a.shuttingDown = false →
    (∀ (j : ℕ) (t : SheepSlot) (q : Option ℕ), a.sheep[j]? = some t →
      t.name = incoming.config.name → t.entry.reload ≠ .drainee q) ∨
    s.intendedSpec = s.entry.spec

theorem Loadable.frame {w : World} {a b : Actor} {reset : ResetDepth} {incoming : DeclaredApp}
    (h : a.Loadable w reset incoming)
    (hsheep : ∀ (id : ℕ) (s : SheepSlot), b.sheep[id]? = some s →
      s.name = incoming.config.name → a.sheep[id]? = some s)
    (hdown : b.shuttingDown = a.shuttingDown) : b.Loadable w reset incoming where
  holds id s merged hs hn hmerge hkept :=
    h.holds id s merged (hsheep id s hs hn) hn hmerge (hdown ▸ hkept)
  speaks id s merged hs hn hmerge hcount hup := by
    refine (h.speaks id s merged (hsheep id s hs hn) hn hmerge hcount (hdown ▸ hup)).imp_left ?_
    exact fun hprompt j t q ht htn => hprompt j t q (hsheep j t ht htn) htn

end Actor

end Supervisor

namespace Roll

open Supervisor

/-! ## What an edit has to find -/

/-- **What an edit has to find**: a scale copies an instance that has no
other config parked, and every app of a load is loadable. -/
def Finds (w : World) (a : Actor) : Command → Prop
  | .scale name _ => ∀ (id : ℕ) (s : SheepSlot),
      (a.slotsOfName name).head?.map Prod.snd = some id → a.sheep[id]? = some s →
      s.intendedSpec = s.entry.spec
  | .applyConfig apps reset => ∀ app ∈ apps, a.Loadable w reset app
  | _ => True

variable {registry : Registry} {w : World} {a b : Actor} {name : String} {app : AppConfig}

theorem recorded_refused {r : Except SupervisorError (Option AppConfig)}
    (hr : ∀ app, r ≠ .ok (some app)) : recorded (.config r) = [] := by
  unfold recorded
  split
  · next hc => cases hc
  · next app hc => exact absurd (Answer.config.inj hc) (hr app)
  · next hc => cases hc
  · rfl

/-! ## The registry against the flock -/

namespace Registry

/-- **The registry agrees with the flock**: what is recorded of an app is
what each of its instances is spawned from next. -/
def Agrees (registry : Registry) (a : Actor) : Prop :=
  ∀ (id : ℕ) (s : SheepSlot), a.sheep[id]? = some s → s.entry.dog = none → a.Respawns id s →
    registry[s.name]? = some s.intendedSpec

namespace Agrees

theorem configured (h : registry.Agrees a) (hname : app.name = name)
    (hothers : ∀ (id : ℕ) (s : SheepSlot), b.sheep[id]? = some s → s.name ≠ name →
      a.sheep[id]? = some s)
    (hreloads : b.reloads = a.reloads)
    (hown : ∀ (id : ℕ) (s : SheepSlot), b.sheep[id]? = some s → s.entry.dog = none →
      b.Respawns id s → s.name = name → s.intendedSpec = app) :
    (registry.record [app]).Agrees b := by
  intro id s hs hdog hcov
  rw [get_record, lastOf_cons, hname]
  by_cases hn : s.name = name
  · rw [hown id s hs hdog hcov hn]
    simp [lastOf, hn]
  · have hold := h id s (hothers id s hs hn) hdog (by
      rwa [Actor.Respawns, Actor.SwapsSerially, hreloads] at hcov)
    simpa [lastOf, Ne.symm hn] using hold

/-- Every instance of one app is written, and so is what they are spawned
from. -/
theorem mapApp (h : registry.Agrees a) (hname : app.name = name) {f : SheepSlot → SheepSlot}
    (hothers : ∀ (id : ℕ) (s : SheepSlot), b.sheep[id]? = some s → s.name ≠ name →
      a.sheep[id]? = some s)
    (hreloads : b.reloads = a.reloads)
    (hf : ∀ (id : ℕ) (s : SheepSlot), b.sheep[id]? = some s → s.name = name →
      (f s).name = name ∧ (b.Respawns id (f s) → (f s).intendedSpec = app)) :
    (registry.record [app]).Agrees (b.mapApp name f) := by
  have hread : ∀ (id : ℕ) (s : SheepSlot), (b.mapApp name f).sheep[id]? = some s →
      (s.name = name ∧ (b.Respawns id s → s.intendedSpec = app)) ∨
        s.name ≠ name ∧ b.sheep[id]? = some s := by
    intro id s hs
    rw [Actor.get_mapApp] at hs
    obtain ⟨t, ht, rfl⟩ := Option.map_eq_some_iff.1 hs
    split
    · next hn => exact Or.inl (hf id t ht (by simpa using hn))
    · next hn => exact Or.inr ⟨by simpa using hn, ht⟩
  refine h.configured hname (fun id s hs hn => ?_) hreloads fun id s hs _ hcov hn => ?_
  · exact hothers id s ((hread id s hs).resolve_left fun hown => hn hown.1).2 hn
  · exact ((hread id s hs).resolve_right fun hother => hother.1 hn).2 hcov

theorem untouched (h : registry.Agrees a) {f : SheepSlot → SheepSlot}
    (hf : ∀ s : SheepSlot, (f s).name = s.name ∧ (f s).intendedSpec = s.intendedSpec ∧
      (f s).entry.dog = s.entry.dog ∧ (f s).pendingDelete = s.pendingDelete) :
    registry.Agrees (a.mapApp name f) := by
  intro id s hs hdog hcov
  rw [Actor.get_mapApp] at hs
  obtain ⟨t, ht, he⟩ := Option.map_eq_some_iff.1 hs
  split at he
  · obtain ⟨hn, hint, hd, hdel⟩ := hf t
    subst he
    rw [hn, hint]
    exact h id t ht (hd ▸ hdog) (by rwa [Actor.Respawns, hdel] at hcov)
  · subst he
    exact h id t ht hdog hcov

theorem envEdit (h : registry.Agrees a) {r : Except SupervisorError (Option AppConfig) × Actor}
    (hr : Actor.EnvEdit w name a r) : (registry.record (recorded (.config r.1))).Agrees r.2 := by
  cases hr with
  | refused r hr =>
    rw [recorded_refused hr]
    exact h
  | parks overridden _ _ _ hname =>
    exact h.mapApp hname (fun _ _ hs _ => hs) rfl fun id s hs hn => ⟨hn, fun _ => rfl⟩

/-- An edit of one of its fields. -/
theorem fieldEdit (h : registry.Agrees a) {r : Except SupervisorError (Option AppConfig) × Actor}
    (hr : Actor.FieldEdit w name a r) : (registry.record (recorded (.config r.1))).Agrees r.2 := by
  cases hr with
  | refused r hr =>
    rw [recorded_refused hr]
    exact h
  | @lands id slot merged nextSpec parked overridden _ _ hnext hmerged hparked =>
    have hname : (parked.getD (nextSpec.getD merged)).name = name := by
      rcases hparked with rfl | ⟨rfl, hsome, -⟩
      · exact hmerged
      · obtain ⟨app, rfl⟩ := Option.isSome_iff_exists.1 hsome
        exact (hnext app rfl).2
    refine h.mapApp hname (fun _ _ hs _ => hs) rfl fun id s hs hn => ⟨?_, fun _ => ?_⟩
    · change (nextSpec.getD s.entry.spec).name = name
      cases hx : nextSpec with
      | none => exact hn
      | some app => exact (hnext app hx).2
    · change (parked.or s.entry.pending).getD (nextSpec.getD s.entry.spec) = _
      rcases hparked with rfl | ⟨rfl, hsome, hnone⟩
      · rfl
      · obtain ⟨app, rfl⟩ := Option.isSome_iff_exists.1 hsome
        rw [hnone id s hs hn]
        rfl

/-- What a scale sends on its way out is not spawned again: the scale is
refused while one of the app's reloads is in flight. -/
theorem not_respawns (hi : Inv .none a) {count firstId id : ℕ} {first s t : SheepSlot}
    {rescaled : AppConfig} {scaled : Scaled}
    (hr : Actor.Rescales w a name count firstId first rescaled scaled b)
    (ht : a.sheep[id]? = some t) (he : s.entry = t.entry) (hdel : s.pendingDelete = true)
    (hn : s.name = name) : ¬ b.Respawns id s := by
  rintro (hstay | ⟨n, job, hj, -, rfl⟩)
  · rw [hdel] at hstay
    cases hstay
  · have htn : t.name = name := (congrArg (fun entry => entry.spec.name) he).symm.trans hn
    rw [hr.reloads] at hj
    rw [← (hi.jobs n job hj).old_name t ht, htn, hr.speaks.idle] at hj
    cases hj

/-- A granted scale, whose speaker has no other config parked. -/
theorem rescales (h : registry.Agrees a) (hi : Inv .none a) {count firstId : ℕ}
    {first : SheepSlot} {rescaled : AppConfig} {scaled : Scaled}
    (hr : Actor.Rescales w a name count firstId first rescaled scaled b)
    (hclean : first.intendedSpec = first.entry.spec) :
    (registry.record [scaled.app]).Agrees b := by
  have hsp := hr.speaks
  have hstored : Actor.tryWithCount w first.entry.spec scaled.achieved = .ok scaled.app := by
    obtain ⟨stored, hs, hf⟩ := hsp.holds hr.pos hr.le
    rw [hf, ← hs, hr.stored]
  have hrecount : recount w scaled.achieved first.entry.spec = scaled.app := by
    rw [recount, hstored]
  have hstays : ∀ (id : ℕ) (s : SheepSlot), a.sheep[id]? = some s → s.name = name →
      s.pendingDelete = false := fun id s hs hn =>
    hsp.staying (s.entry.inst, id) (Actor.mem_slotsOfName.2 ⟨s, hs, hn, rfl⟩) s hs
  have hfirst := h firstId first hsp.slot hsp.sheep (Or.inl (hstays _ _ hsp.slot hsp.name_eq))
  -- an instance written from the speaker's spec is spawned from what is stored
  have hwritten : ∀ s : SheepSlot, (∀ p, s.entry.pending = some p → p = first.entry.spec) →
      (s.rescaled w scaled.app scaled.achieved (first.owes w scaled.achieved)).intendedSpec =
        scaled.app := by
    intro s hs
    unfold SheepSlot.rescaled
    dsimp only
    split
    · next parked hp => 
      change recount w scaled.achieved parked = _
      rw [hs parked hp, hrecount]
    · next parked reidentifies hp ho =>
      obtain ⟨q, hq, hpair⟩ := Option.map_eq_some_iff.1 ho
      obtain ⟨rfl, -⟩ := Prod.mk.inj hpair
      change recount w scaled.achieved q = _
      have : q = first.entry.spec := by
        rw [← hclean, SheepSlot.intendedSpec, hq]
        rfl
      rw [this, hrecount]
    · next hp _ =>
      change (Option.getD s.entry.pending _) = _
      rw [show s.entry.pending = none from hp]
      rfl
  refine h.configured ?_ hr.others hr.reloads fun id s hs hdog hcov hn => ?_
  · exact (tryWithCount_name hstored).trans hsp.name_eq
  · have hparked : ∀ (t : SheepSlot) (p : AppConfig), t.intendedSpec = first.intendedSpec →
        t.entry.pending = some p → p = first.entry.spec := by
      intro t p ht hp
      rw [← hclean, ← ht, SheepSlot.intendedSpec, hp]
      rfl
    cases hr.own id s hs hn with
    | @leaving t ht he hdel =>
      exact absurd hcov (not_respawns hi hr ht he hdel hn)
    | @stays t ht htn hx =>
      subst hx
      have htn := htn.trans hsp.name_eq
      have hold := h id t ht (SheepSlot.rescaled_dog.symm.trans hdog) (Or.inl (hstays id t ht htn))
      rw [htn, ← hsp.name_eq, hfirst] at hold
      exact hwritten t fun p => hparked t p (Option.some.inj hold).symm
    | resolved _ _ hx =>
      subst hx
      exact hwritten _ fun p => hparked _ p rfl
    | sown _ _ hsown hx =>
      subst hx
      refine hwritten _ fun p hp => ?_
      rw [hsown.pending] at hp
      cases hp

/-- Where a load's count is kept, the slot that speaks for the app is
spawned from what it is stored as, if nothing is parked on any instance the
supervisor spawns again. -/
theorem spoken (hi : Inv .none a) {reset : ResetDepth} {incoming : DeclaredApp}
    (hload : a.Loadable w reset incoming) {id : ℕ} {slot : SheepSlot} {merged : AppConfig}
    {count : ℕ} (hrep : a.representative incoming.config.name = some (id, slot))
    (hmerge : w.mergeDeclared slot.intendedSpec incoming reset = .ok merged)
    (hroute : Actor.Routed w incoming.config.name slot merged a count b)
    (hnone : ∀ (j : ℕ) (s : SheepSlot), b.sheep[j]? = some s → s.name = incoming.config.name →
      s.entry.pending = none)
    {j : ℕ} {s : SheepSlot} (hs : b.sheep[j]? = some s) (hn : s.name = incoming.config.name)
    (hcov : b.Respawns j s) : slot.intendedSpec = slot.entry.spec := by
  obtain ⟨hslot, hslotn⟩ := Actor.representative_own hrep
  have hbare : ∀ t : SheepSlot, t.entry.pending = none → t.intendedSpec = t.entry.spec := by
    intro t ht
    rw [SheepSlot.intendedSpec, ht]
    rfl
  cases hroute with
  | stays _ => exact hbare slot (hnone id slot hslot hslotn)
  | @scales firstId first rescaled scaled b hcount hup hr =>
    have hfirst : first.entry.pending = none := by
      have hpending := hnone j s hs hn
      cases hr.own j s hs hn with
      | leaving ht he hdel => exact absurd hcov (not_respawns hi hr ht he hdel hn)
      | stays _ _ hx | resolved _ _ hx | sown _ _ _ hx =>
        rw [hx] at hpending
        exact SheepSlot.rescaled_unparked hpending
    rcases hload.speaks id slot merged hslot hslotn hmerge hcount hup with hprompt | hspoken
    · have hid := Actor.representative_head hprompt hrep hr.speaks.head
      rw [hid, hr.speaks.slot] at hslot
      obtain rfl := Option.some.inj hslot
      exact hbare first hfirst
    · exact hspoken

/-- **One app of a load**, and what its caller records. -/
theorem loadOne (h : registry.Agrees a) (hi : Inv .none a) {reset : ResetDepth}
    {incoming : DeclaredApp} (hload : a.Loadable w reset incoming) {r : Applied × Actor}
    (hr : Actor.LoadOne w reset incoming a r) :
    (registry.record r.1.app.toList).Agrees r.2 := by
  cases hr with
  | refused applied happ =>
    rw [happ]
    exact h
  | @lands id slot merged count b parked applied overridden hrep hdog hmerge hmname hroute happ
      hparked =>
    obtain ⟨hslot, hslotn⟩ := Actor.representative_own hrep
    have hwhole : Actor.tryWithCount w merged merged.instances = .ok merged :=
      w.mergeDeclared_normal hmerge
    obtain ⟨hothers, hreloads⟩ : (∀ (j : ℕ) (s : SheepSlot), b.sheep[j]? = some s →
        s.name ≠ incoming.config.name → a.sheep[j]? = some s) ∧ b.reloads = a.reloads := by
      cases hroute with
      | stays _ => exact ⟨fun _ _ hs _ => hs, rfl⟩
      | scales _ _ hr => exact ⟨hr.others, hr.reloads⟩
    cases hcounted : Actor.tryWithCount w merged count with
    | ok counted =>
      have happ : applied.app = some counted := by
        rw [happ, hcounted]
        split
        · next hcount =>
          rw [hcount, hwhole] at hcounted
          rw [Except.ok.inj hcounted]
        · rfl
      rw [happ]
      refine h.mapApp ((tryWithCount_name hcounted).trans hmname) hothers hreloads fun j s hs hn =>
        ⟨?_, fun hcov => ?_⟩
      · exact SheepSlot.reconfigured_own hslotn hmname hn
      · change (parked.or s.entry.pending).getD (Option.getD _ s.entry.spec) = counted
        rcases hparked with rfl | ⟨rfl, -, hrespawn, hnone⟩
        · rw [hcounted]
          rfl
        · -- everything reaches, so the stored spec moves to the merged config
          have hspoken := spoken hi hload hrep hmerge hroute hnone hs hn hcov
          have hreached := w.reachedSpec_whole (n := count) hrespawn
          rw [hnone j s hs hn, ← hspoken, hreached]
          change Option.getD (Actor.tryWithCount w merged count).toOption _ = counted
          rw [hcounted]
          rfl
    | error err =>
      -- only a count the load leaves alone can fail, and then nothing reaches
      have hcount : count ≠ merged.instances := by
        rintro rfl
        rw [hwhole] at hcounted
        cases hcounted
      cases hroute with
      | stays hkept =>
        have hnone : (w.reachedSpec slot.entry.spec slot.intendedSpec merged
            slot.entry.spec.instances).toOption = none := by
          have hreached := (hload.holds id slot merged hslot hslotn hmerge hkept).resolve_left
            (by rw [hcounted]; exact Bool.false_ne_true)
          cases hx : w.reachedSpec slot.entry.spec slot.intendedSpec merged
            slot.entry.spec.instances with
          | error _ => rfl
          | ok _ =>
            rw [hx] at hreached
            cases hreached
        have hparked : parked = none := by
          rcases hparked with rfl | ⟨rfl, -⟩
          · rw [hcounted]
            rfl
          · rfl
        rw [happ, if_neg hcount, hcounted, hparked, hnone]
        exact h.untouched fun s => ⟨rfl, by simp [SheepSlot.reconfigured, SheepSlot.intendedSpec],
          rfl, rfl⟩
      | scales _ _ hr =>
        have hholds := (w.normalize_recount (c := merged) hwhole hr.pos hr.le).2
        rw [show w.normalize _ = _ from hcounted] at hholds
        cases hholds

/-- The apps of a load, each over what the one before it left. -/
theorem applyApps {reset : ResetDepth} (apps : List DeclaredApp)
    (hnd : (apps.map fun app => app.config.name).Nodup) (before : List Applied)
    (h : registry.Agrees a) (hi : Inv .none a) (hload : ∀ app ∈ apps, a.Loadable w reset app) :
    ∃ rows : List Applied, (apps.foldl (fun (r : List Applied × Actor) incoming =>
        let one := r.2.applyOne w reset incoming
        (r.1 ++ [one.1], one.2)) (before, a)).1 = before ++ rows ∧
      (registry.record (rows.filterMap Applied.app)).Agrees (apps.foldl
        (fun (r : List Applied × Actor) incoming =>
          let one := r.2.applyOne w reset incoming
          (r.1 ++ [one.1], one.2)) (before, a)).2 := by
  induction apps generalizing registry a before with
  | nil => exact ⟨[], (List.append_nil before).symm, h⟩
  | cons incoming apps ih =>
    obtain ⟨hnew, hnd⟩ := List.nodup_cons.1 hnd
    have hone : Actor.LoadOne w reset incoming a (a.applyOne w reset incoming) :=
      Actor.applyOne_load hi reset incoming
    have hagrees := h.loadOne hi (hload incoming List.mem_cons_self) hone
    obtain ⟨rows, hrows, hall⟩ := ih hnd (before ++ [(a.applyOne w reset incoming).1]) hagrees
      (Actor.applyOne_inv hi reset incoming) fun app happ => by
        refine (hload app (List.mem_cons_of_mem _ happ)).frame (fun id s hs hn => ?_)
          (Actor.applyOne_down reset incoming a)
        refine hone.others hs fun he => hnew ?_
        exact List.mem_map.2 ⟨app, happ, hn.symm.trans he⟩
    refine ⟨(a.applyOne w reset incoming).1 :: rows, ?_, ?_⟩
    · rw [List.foldl_cons, hrows, List.append_assoc]
      rfl
    · rw [List.foldl_cons]
      have hcons : ((a.applyOne w reset incoming).1 :: rows).filterMap Applied.app =
          (a.applyOne w reset incoming).1.app.toList ++ rows.filterMap Applied.app := by
        rw [List.filterMap_cons]
        cases (a.applyOne w reset incoming).1.app <;> rfl
      rw [hcons, record_append]
      exact hall

/-- **A load**, and what its caller records. -/
theorem applyConfig (h : registry.Agrees a) (hi : Inv .none a) {reset : ResetDepth}
    {apps : List DeclaredApp} (hnd : (apps.map fun app => app.config.name).Nodup)
    (hload : ∀ app ∈ apps, a.Loadable w reset app) :
    (registry.record ((a.handleApplyConfig w apps reset).1.filterMap Applied.app)).Agrees
      (a.handleApplyConfig w apps reset).2 := by
  unfold Actor.handleApplyConfig
  split
  · rw [List.filterMap_map]
    have hnone : ∀ (apps : List DeclaredApp) (f : DeclaredApp → Applied),
        (∀ incoming, (f incoming).app = none) → apps.filterMap (Applied.app ∘ f) = [] := by
      intro apps f hf
      exact List.filterMap_eq_nil_iff.2 fun incoming _ => hf incoming
    rw [hnone apps _ fun _ => rfl]
    exact h
  · obtain ⟨rows, hrows, hall⟩ := applyApps apps hnd [] h hi hload
    rw [List.nil_append] at hrows
    dsimp only
    split
    · rw [hrows]
      exact hall
    · -- a note that the store could not be written leaves what is recorded
      dsimp only
      rw [hrows, List.filterMap_map]
      have hnote : ∀ f : Applied → Applied, (∀ applied, (f applied).app = applied.app) →
          rows.filterMap (Applied.app ∘ f) = rows.filterMap Applied.app :=
        fun f hf => List.filterMap_congr fun applied _ => hf applied
      rw [hnote _ fun applied => by split <;> rfl]
      exact hall

/-- What a command's caller records is read off its answer, and the flock
is as the handler left it. -/
theorem answering {α : Type} (payload : α → Answer) (r : α × Actor)
    (h : (registry.record (recorded (payload r.1))).Agrees r.2) :
    (registry.record (toRecord (Actor.answering payload r).pruneDisabled)).Agrees
      (Actor.answering payload r).pruneDisabled := h

/-- **An edit, and the record of its answer.** -/
theorem edit (h : registry.Agrees a) (hi : Inv .none a) (e : Edit) (hnd : (edited e.1).Nodup)
    (hfinds : Finds w a e.1) :
    (registry.record (toRecord (a.turn w (.command e.1)))).Agrees (a.turn w (.command e.1)) := by
  obtain ⟨command, hedits⟩ := e
  cases command with
  | scale name count =>
    refine answering .scaled (a.handleScale w name count) ?_
    rcases Actor.handleScale_spec (w := w) hi name count with ⟨err, he⟩ | ⟨_, _, _, _, _, he, hr⟩
    · rw [he]
      exact h
    · rw [he]
      exact h.rescales hi hr (hfinds _ _ hr.speaks.head hr.speaks.slot)
  | applyConfig apps reset =>
    refine answering (fun report => .applied (report.map fun r => (r.name, r.refused, r.app)))
      (a.handleApplyConfig w apps reset) ?_
    change (registry.record (List.filterMap _ (List.map _ _))).Agrees _
    rw [List.filterMap_map]
    exact h.applyConfig hi hnd hfinds
  | setSheepEnv name key value =>
    exact answering _ _ (h.envEdit (Actor.handleSetSheepEnv_edit hi key value))
  | setSheepEnvBatch name entries force dryRun =>
    exact answering _ _ (h.envEdit (Actor.handleSetSheepEnvBatch_edit hi entries force dryRun))
  | copySheepEnv source target replace keep dryRun reviewed =>
    exact answering _ _
      (h.envEdit (Actor.handleCopySheepEnv_edit hi source replace keep dryRun reviewed))
  | setSheepField name key value =>
    exact answering _ _ (h.fieldEdit (Actor.handleSheepField_edit hi key (.set value)))
  | resetSheepField name key =>
    exact answering _ _ (h.fieldEdit (Actor.handleSheepField_edit hi key .reset))
  | setSheepDogSettings name dog table =>
    exact answering _ _ (h.fieldEdit (Actor.handleSetSheepDogSettings_edit hi dog table))
  | _ => cases hedits

/-- A turn that writes no config, and registers sheep from what is
recorded. -/
theorem turn (h : registry.Agrees a) (hi : Inv .none a) {m : Msg} (hadm : a.admits m)
    (hconf : ∀ n, ¬ (⟨a, w, m⟩ : Turn).Configures n)
    (henrols : ∀ app, (⟨a, w, m⟩ : Turn).Enrols app → registry[app.name]? = some app) :
    registry.Agrees (a.turn w m) := by
  intro id s hs hdog hcov
  rcases Actor.turn_carries hi hadm w hconf hs hdog hcov with ⟨j, t, ht, htd, htc, hn, hint⟩ |
    ⟨henrol, hn⟩
  · rw [← hn, ← hint]
    exact h j t ht htd htc
  · rw [← hn]
    exact henrols _ henrol

end Agrees

end Registry

end Roll

end Shep
