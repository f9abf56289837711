import Shep.Supervisor.Helpers.Scaling

/-!
# Supervisor — what a config command leaves

An edit of an app's environment parks one config on every instance of it,
`EnvEdit`. An edit of a field moves the stored spec of every instance, or
parks a config on all of them, or both, `FieldEdit`. One app of a load is
a scale at most and then the same, `LoadOne`. Each says what the caller is
given to record.
-/

namespace Shep

namespace Supervisor

variable {w : World} {a : Actor} {name : String} {id : ℕ} {s : SheepSlot}

/-- Two configs an app runs as the same user and group under. -/
structure AppConfig.SharesIdentity (app app' : AppConfig) : Prop where
  user : app'.user = app.user
  group : app'.group = app.group

theorem AppConfig.SharesIdentity.refl (app : AppConfig) : app.SharesIdentity app := ⟨rfl, rfl⟩

theorem AppConfig.SharesIdentity.trans {app app' app'' : AppConfig} (h : app.SharesIdentity app')
    (h' : app'.SharesIdentity app'') : app.SharesIdentity app'' :=
  ⟨h'.user.trans h.user, h'.group.trans h.group⟩

theorem AppConfig.SharesIdentity.symm {app app' : AppConfig} (h : app.SharesIdentity app') :
    app'.SharesIdentity app :=
  ⟨h.user.symm, h.group.symm⟩

theorem tryWithCount_identity {app app' : AppConfig} {count : ℕ}
    (h : Actor.tryWithCount w app count = .ok app') : app.SharesIdentity app' := by
  obtain ⟨hu, hg⟩ := w.normalize_identity h
  exact ⟨hu, hg⟩

theorem recount_identity (w : World) (count : ℕ) (app : AppConfig) :
    app.SharesIdentity (recount w count app) := by
  unfold recount
  split
  · next h => exact tryWithCount_identity h
  · exact .refl app

namespace Actor

theorem get_mapApp (name : String) (f : SheepSlot → SheepSlot) (a : Actor) (id : ℕ) :
    (a.mapApp name f).sheep[id]? =
      (a.sheep[id]?).map fun s => if s.name == name then f s else s := by
  unfold mapApp mapSlots
  rw [Table.get_map]

theorem unparked_of_any
    (h : ¬ (a.sheep.toList.any fun e => e.2.name == name && e.2.entry.pending.isSome) = true)
    (hs : a.sheep[id]? = some s) (hn : s.name = name) : s.entry.pending = none := by
  by_contra hp
  refine h (List.any_eq_true.2 ⟨(id, s), Table.mem_toList.2 hs, ?_⟩)
  simpa [hn, Option.isSome_iff_ne_none] using hp

/-- What an edit of an app's environment answers and leaves. -/
inductive EnvEdit (w : World) (name : String) (a : Actor) :
    Except SupervisorError (Option AppConfig) × Actor → Prop
  | refused (r : Except SupervisorError (Option AppConfig)) : (∀ app, r ≠ .ok (some app)) →
      EnvEdit w name a (r, a)
  | parks {id : ℕ} {slot : SheepSlot} {app : AppConfig} (overridden : List String) :
      a.representative name = some (id, slot) → slot.entry.dog = none →
      slot.intendedSpec.SharesIdentity app → app.name = name →
      EnvEdit w name a (.ok (some app), a.mapApp name (SheepSlot.parked app overridden))

/-- What an edit of one of an app's fields answers and leaves. -/
inductive FieldEdit (w : World) (name : String) (a : Actor) :
    Except SupervisorError (Option AppConfig) × Actor → Prop
  | refused (r : Except SupervisorError (Option AppConfig)) : (∀ app, r ≠ .ok (some app)) →
      FieldEdit w name a (r, a)
  | lands {id : ℕ} {slot : SheepSlot} {merged : AppConfig} {nextSpec parked : Option AppConfig}
      (overridden : List String) :
      a.representative name = some (id, slot) → slot.entry.dog = none →
      (∀ app, nextSpec = some app → slot.entry.spec.SharesIdentity app ∧ app.name = name) →
      merged.name = name →
      (parked = some merged ∨ parked = none ∧ nextSpec.isSome = true ∧
        ∀ (id : ℕ) (s : SheepSlot), a.sheep[id]? = some s → s.name = name →
          s.entry.pending = none) →
      FieldEdit w name a (.ok (some (parked.getD (nextSpec.getD merged))),
        a.mapApp name (SheepSlot.reconfigured nextSpec parked overridden))

theorem paneTarget_some (hp : a.paneTarget name = .ok (some s)) :
    ∃ id, a.representative name = some (id, s) ∧ s.entry.dog = none := by
  unfold paneTarget at hp
  split at hp
  · cases hp
  · next id t ht =>
    split at hp
    · cases hp
    · next hdog =>
      obtain rfl := Option.some.inj (Except.ok.inj hp)
      exact ⟨id, ht, by simpa using hdog⟩

theorem parkEdited_edit {edited : AppConfig} (hrep : a.representative name = some (id, s))
    (hdog : s.entry.dog = none) (hid : s.intendedSpec.SharesIdentity edited)
    (hname : edited.name = name) : EnvEdit w name a (a.parkEdited w name edited) := by
  unfold parkEdited
  split
  · exact .refused _ (by simp)
  · next parked hn =>
    split
    · exact .refused _ (by simp)
    · exact .parks _ hrep hdog (hid.trans ⟨(w.normalize_identity hn).1, (w.normalize_identity hn).2⟩)
        ((w.normalize_name hn).trans hname)

theorem representative_intended (h : Inv .none a) (hrep : a.representative name = some (id, s)) :
    s.intendedSpec.name = name := by
  obtain ⟨hs, hn⟩ := representative_own hrep
  exact (h.wellFormed hs).intendedSpec_name.trans hn

theorem handleSetSheepEnv_edit (h : Inv .none a) (key : String) (value : Option String) :
    EnvEdit w name a (a.handleSetSheepEnv w name key value) := by
  unfold handleSetSheepEnv
  split
  · exact .refused _ (by simp)
  · exact .refused _ (by simp)
  · next s hs =>
    obtain ⟨id, hrep, hdog⟩ := paneTarget_some hs
    exact parkEdited_edit hrep hdog ⟨rfl, rfl⟩ (representative_intended h hrep)

theorem handleSetSheepEnvBatch_edit (h : Inv .none a) (entries : List (String × String))
    (force dryRun : Bool) :
    EnvEdit w name a (a.handleSetSheepEnvBatch w name entries force dryRun) := by
  unfold handleSetSheepEnvBatch
  split
  · exact .refused _ (by simp)
  · exact .refused _ (by simp)
  · next s hs =>
    obtain ⟨id, hrep, hdog⟩ := paneTarget_some hs
    dsimp only
    split
    · exact .refused _ (by simp)
    · split
      · split <;> exact .refused _ (by simp)
      · exact parkEdited_edit hrep hdog ⟨rfl, rfl⟩ (representative_intended h hrep)

theorem handleCopySheepEnv_edit (h : Inv .none a) (source : String) (replace : Bool)
    (keep : List String) (dryRun : Bool) (reviewed : Option (List EnvCopyChange)) :
    EnvEdit w name a (a.handleCopySheepEnv w source name replace keep dryRun reviewed) := by
  unfold handleCopySheepEnv
  split
  · exact .refused _ (by simp)
  · exact .refused _ (by simp)
  · next hgiver htaker =>
    split
    · exact .refused _ (by simp)
    · split
      · exact .refused _ (by simp)
      · next hdog =>
        dsimp only
        generalize (ite (replace = true) _ _ : List (String × String)) = after
        split
        · exact .refused _ (by simp)
        · split
          · exact .refused _ (by simp)
          · split
            · split <;> exact .refused _ (by simp)
            · exact parkEdited_edit htaker (by simpa using hdog) ⟨rfl, rfl⟩
                (representative_intended h htaker)

theorem reachedSpec_own {merged : AppConfig} {count : ℕ} (hn : s.name = name)
    (hmerged : merged.name = name) (app : AppConfig)
    (happ : (w.reachedSpec s.entry.spec s.intendedSpec merged count).toOption = some app) :
    s.entry.spec.SharesIdentity app ∧ app.name = name := by
  cases hx : w.reachedSpec s.entry.spec s.intendedSpec merged count with
  | error err =>
    rw [hx] at happ
    cases happ
  | ok app' =>
    rw [hx] at happ
    obtain rfl := Option.some.inj happ
    exact ⟨⟨(w.reachedSpec_identity hx).1, (w.reachedSpec_identity hx).2⟩,
      (w.reachedSpec_name (hn.trans hmerged.symm) hx).trans hn⟩

theorem applySheepField_edit (h : Inv .none a) (key : String)
    {edit : AppConfig → Except SupervisorError AppConfig}
    (hedit : ∀ app app', edit app = .ok app' → app'.name = app.name) :
    FieldEdit w name a (a.applySheepField w name key edit) := by
  unfold applySheepField
  split
  · exact .refused _ (by simp)
  · exact .refused _ (by simp)
  · next s hs =>
    obtain ⟨id, hrep, hdog⟩ := paneTarget_some hs
    have hn : s.name = name := (representative_own hrep).2
    split
    · exact .refused _ (by simp)
    · next edited he =>
      split
      · exact .refused _ (by simp)
      · next merged hm =>
        have hmerged : merged.name = name := (w.normalize_name hm).trans
          ((hedit _ _ he).trans (representative_intended h hrep))
        dsimp only
        split
        · exact .refused _ (by simp)
        · refine .lands _ hrep hdog (reachedSpec_own hn hmerged) hmerged ?_
          split
          · exact Or.inl rfl
          · next hparks =>
            simp only [Bool.or_eq_true, not_or] at hparks
            obtain ⟨⟨hsome, -⟩, hnone⟩ := hparks
            exact Or.inr ⟨rfl, Option.isSome_iff_ne_none.2 (by simpa using hsome),
              fun _ _ ht htn => unparked_of_any hnone ht htn⟩

theorem handleSheepField_edit (h : Inv .none a) (key : String) (source : FieldSource) :
    FieldEdit w name a (a.handleSheepField w name key source) := by
  unfold handleSheepField
  split
  · exact .refused _ (by simp)
  · exact applySheepField_edit h key fun app app' he => fieldEdit_name he

theorem handleSetSheepDogSettings_edit (h : Inv .none a) (dog : String) (table : Option String) :
    FieldEdit w name a (a.handleSetSheepDogSettings w name dog table) := by
  unfold handleSetSheepDogSettings
  refine applySheepField_edit h "dogs" fun app app' he => ?_
  rw [← Except.ok.inj he]

/-! ## Loading a Flockfile -/

/-- Where a load's instance count comes from: the running config's, when
the load leaves the count alone or the flock is on its way down, or what a
scale achieved. -/
inductive Routed (w : World) (name : String) (slot : SheepSlot) (merged : AppConfig) (a : Actor) :
    ℕ → Actor → Prop
  | stays : slot.intendedSpec.instances = merged.instances ∨ a.shuttingDown = true →
      Routed w name slot merged a slot.entry.spec.instances a
  | scales {firstId : ℕ} {first : SheepSlot} {rescaled : AppConfig} {scaled : Scaled} {b : Actor} :
      slot.intendedSpec.instances ≠ merged.instances → a.shuttingDown = false →
      Rescales w a name merged.instances firstId first rescaled scaled b →
      Routed w name slot merged a scaled.achieved b

/-- What one app of a load answers and leaves. -/
inductive LoadOne (w : World) (reset : ResetDepth) (incoming : DeclaredApp) (a : Actor) :
    Applied × Actor → Prop
  | refused (applied : Applied) : applied.app = none → LoadOne w reset incoming a (applied, a)
  | lands {id : ℕ} {slot : SheepSlot} {merged : AppConfig} {count : ℕ} {b : Actor}
      {parked : Option AppConfig} {applied : Applied} (overridden : List String) :
      a.representative incoming.config.name = some (id, slot) → slot.entry.dog = none →
      w.mergeDeclared slot.intendedSpec incoming reset = .ok merged →
      merged.name = incoming.config.name → Routed w incoming.config.name slot merged a count b →
      applied.app = (if count = merged.instances then some merged
        else (tryWithCount w merged count).toOption) →
      (parked = (tryWithCount w merged count).toOption ∨ parked = none ∧
        (w.reachedSpec slot.entry.spec slot.intendedSpec merged count).toOption.isSome = true ∧
        w.needsRespawn slot.intendedSpec merged = false ∧
        ∀ (id : ℕ) (s : SheepSlot), b.sheep[id]? = some s → s.name = incoming.config.name →
          s.entry.pending = none) →
      LoadOne w reset incoming a (applied, b.mapApp incoming.config.name
        (SheepSlot.reconfigured
          (w.reachedSpec slot.entry.spec slot.intendedSpec merged count).toOption parked
          overridden))

theorem routeCount_routed (h : Inv .none a) (name : String) (slot : SheepSlot)
    (merged : AppConfig) :
    (∃ message, a.routeCount w name slot.entry.spec slot.intendedSpec merged =
      (.error message, a)) ∨
    ∃ count shortfall b, a.routeCount w name slot.entry.spec slot.intendedSpec merged =
      (.ok (count, shortfall), b) ∧ Routed w name slot merged a count b := by
  unfold routeCount
  split
  · next hsame => exact Or.inr ⟨_, _, _, rfl, .stays (Or.inl hsame)⟩
  · next hcount =>
    split
    · next hdown => exact Or.inr ⟨_, _, _, rfl, .stays (Or.inr hdown)⟩
    · next hup =>
      rcases handleScale_spec (w := w) h name merged.instances with
        ⟨err, he⟩ | ⟨scaled, b, firstId, first, rescaled, he, hr⟩
      · rw [he]
        exact Or.inl ⟨_, rfl⟩
      · rw [he]
        exact Or.inr ⟨_, _, _, rfl, .scales hcount (by simpa using hup) hr⟩

theorem applyOne_load (h : Inv .none a) (reset : ResetDepth) (incoming : DeclaredApp) :
    LoadOne w reset incoming a (a.applyOne w reset incoming) := by
  unfold applyOne
  dsimp only
  split
  · exact .refused _ rfl
  · next id s hrep =>
    split
    · exact .refused _ rfl
    · next hdog =>
      split
      · exact .refused _ rfl
      · next merged hmerge =>
        rcases routeCount_routed (w := w) h incoming.config.name s merged with
          ⟨message, he⟩ | ⟨count, shortfall, b, he, hr⟩
        · rw [he]
          exact .refused _ rfl
        · rw [he]
          have hint := representative_intended h hrep
          refine .lands _ hrep (by simpa using hdog) hmerge
            ((w.mergeDeclared_name hint hmerge).trans hint) hr rfl ?_
          split
          · exact Or.inl rfl
          · next hparks =>
            simp only [Bool.or_eq_true, not_or] at hparks
            obtain ⟨⟨hsome, hrespawn⟩, hnone⟩ := hparks
            exact Or.inr ⟨rfl, Option.isSome_iff_ne_none.2 (by simpa using hsome),
              by simpa using hrespawn, fun _ _ ht htn => unparked_of_any hnone ht htn⟩

theorem applyOne_inv (h : Inv .none a) (reset : ResetDepth) (incoming : DeclaredApp) :
    Inv .none (a.applyOne w reset incoming).2 :=
  (applyOne_moves (c := ⟨a, w, .command (.applyConfig [incoming] reset)⟩) h reset incoming
    (by simp [Turn.Scales]) (by simp [Turn.Configures]) le_rfl).inv h

/-- A load, one app after another. -/
inductive Loads (w : World) (reset : ResetDepth) :
    List DeclaredApp → Actor → List Applied → Actor → Prop
  | nil (a : Actor) : Loads w reset [] a [] a
  | cons {incoming : DeclaredApp} {apps : List DeclaredApp} {a b d : Actor} {applied : Applied}
      {rows : List Applied} : LoadOne w reset incoming a (applied, b) → Inv .none b →
      Loads w reset apps b rows d → Loads w reset (incoming :: apps) a (applied :: rows) d

theorem applyApps_loads (h : Inv .none a) (reset : ResetDepth) (apps : List DeclaredApp)
    (before : List Applied) : ∃ rows, Loads w reset apps a rows (apps.foldl
      (fun (r : List Applied × Actor) incoming =>
        let one := r.2.applyOne w reset incoming
        (r.1 ++ [one.1], one.2)) (before, a)).2 ∧
      (apps.foldl (fun (r : List Applied × Actor) incoming =>
        let one := r.2.applyOne w reset incoming
        (r.1 ++ [one.1], one.2)) (before, a)).1 = before ++ rows := by
  induction apps generalizing a before with
  | nil => exact ⟨[], .nil a, by simp⟩
  | cons incoming apps ih =>
    have hinv : Inv .none (a.applyOne w reset incoming).2 := applyOne_inv h reset incoming
    obtain ⟨rows, hloads, hrows⟩ := ih hinv (before ++ [(a.applyOne w reset incoming).1])
    refine ⟨(a.applyOne w reset incoming).1 :: rows,
      .cons (applyOne_load h reset incoming) hinv hloads, ?_⟩
    rw [List.foldl_cons, hrows, List.append_assoc]
    rfl

theorem refused_loads (h : Inv .none a) (reset : ResetDepth) (apps : List DeclaredApp)
    (f : DeclaredApp → Applied) (hf : ∀ incoming, (f incoming).app = none) :
    Loads w reset apps a (apps.map f) a := by
  induction apps with
  | nil => exact .nil a
  | cons incoming apps ih => exact .cons (.refused _ (hf incoming)) h ih

/-- `handle_apply_config` is a load, and records what its apps came to. -/
theorem handleApplyConfig_loads (h : Inv .none a) (apps : List DeclaredApp) (reset : ResetDepth) :
    ∃ rows, Loads w reset apps a rows (a.handleApplyConfig w apps reset).2 ∧
      (a.handleApplyConfig w apps reset).1.map Applied.app = rows.map Applied.app := by
  unfold handleApplyConfig
  split
  · exact ⟨_, refused_loads h reset apps _ fun _ => rfl, rfl⟩
  · obtain ⟨rows, hloads, hrows⟩ := applyApps_loads (w := w) h reset apps []
    refine ⟨rows, ?_, ?_⟩
    · dsimp only
      split <;> exact hloads
    · dsimp only
      split
      · rw [hrows]
        rfl
      · dsimp only
        rw [List.map_map, hrows]
        refine List.map_congr_left fun applied _ => ?_
        dsimp only [Function.comp]
        split <;> rfl

end Actor

/-! ## What a write keeps -/

theorem SheepSlot.rescaled_dog {stored : AppConfig} {achieved : ℕ}
    {owed : Option (AppConfig × Bool)} :
    (s.rescaled w stored achieved owed).entry.dog = s.entry.dog := by
  unfold SheepSlot.rescaled
  dsimp only
  split <;> rfl

theorem SheepSlot.rescaled_unparked {w : World} {first s : SheepSlot} {stored : AppConfig}
    {achieved : ℕ}
    (h : (s.rescaled w stored achieved (first.owes w achieved)).entry.pending = none) :
    first.entry.pending = none := by
  unfold SheepSlot.rescaled at h
  dsimp only at h
  split at h
  · cases h
  · cases h
  · next ho => simpa [SheepSlot.owes] using ho

theorem SheepSlot.reconfigured_own {w : World} {slot s : SheepSlot} {merged : AppConfig}
    {name : String} {count : ℕ} {parked : Option AppConfig} {overridden : List String}
    (hslot : slot.name = name) (hmerged : merged.name = name) (hs : s.name = name) :
    (s.reconfigured (w.reachedSpec slot.entry.spec slot.intendedSpec merged count).toOption parked
      overridden).name = name := by
  change (Option.getD _ s.entry.spec).name = name
  cases hx : (w.reachedSpec slot.entry.spec slot.intendedSpec merged count).toOption with
  | none => exact hs
  | some app => exact (Actor.reachedSpec_own hslot hmerged app hx).2

namespace Actor

theorem LoadOne.others {w : World} {a : Actor} {reset : ResetDepth} {incoming : DeclaredApp}
    {r : Applied × Actor} (hr : LoadOne w reset incoming a r) {id : ℕ} {s : SheepSlot}
    (hs : r.2.sheep[id]? = some s) (hn : s.name ≠ incoming.config.name) :
    a.sheep[id]? = some s := by
  cases hr with
  | refused => exact hs
  | @lands _ slot merged count b parked applied overridden hrep _ _ hmname hroute =>
    rw [get_mapApp] at hs
    obtain ⟨t, ht, he⟩ := Option.map_eq_some_iff.1 hs
    split at he
    · next htn =>
      rw [← he] at hn
      exact absurd (SheepSlot.reconfigured_own (representative_own hrep).2 hmname
        (by simpa using htn)) hn
    · subst he
      cases hroute with
      | stays _ => exact ht
      | scales _ _ hr => exact hr.others id t ht hn

/-! ## Who speaks for an app -/

theorem insertionSort_head {α : Type} {r : α → α → Prop} [DecidableRel r]
    (htotal : ∀ x y, r x y ∨ r y x) (htrans : ∀ x y z, r x y → r y z → r x z) {l : List α} {x y : α}
    (hx : (l.insertionSort r).head? = some x) (hy : y ∈ l) : r x y := by
  have : Std.Total r := ⟨htotal⟩
  have : IsTrans α r := ⟨htrans⟩
  obtain ⟨rest, hl⟩ := List.head?_eq_some_iff.1 hx
  have hsorted := List.pairwise_insertionSort r l
  rw [hl, List.pairwise_cons] at hsorted
  have hy := (List.mem_insertionSort r).2 hy
  rw [hl] at hy
  rcases List.mem_cons.1 hy with rfl | hy
  · exact (htotal y y).elim (fun h => h) fun h => h
  · exact hsorted.1 y hy

/-- A drainee speaks for its app after everybody else. -/
def lateness (slot : SheepSlot) : ℕ :=
  match slot.entry.reload with
  | .drainee _ => 1
  | _ => 0

theorem speaksBefore_iff (x y : ℕ × SheepSlot) : speaksBefore x y = true ↔
    lateness x.2 < lateness y.2 ∨ lateness x.2 = lateness y.2 ∧
      (x.2.entry.inst < y.2.entry.inst ∨ x.2.entry.inst = y.2.entry.inst ∧ x.1 ≤ y.1) := by
  unfold speaksBefore lateness
  dsimp only
  cases x.2.entry.reload <;> cases y.2.entry.reload <;> simp

/-- With nobody draining, the instance a scale copies speaks for the app. -/
theorem representative_head {slot : SheepSlot} {first : ℕ}
    (hnone : ∀ (j : ℕ) (t : SheepSlot) (q : Option ℕ), a.sheep[j]? = some t → t.name = name →
      t.entry.reload ≠ .drainee q)
    (hrep : a.representative name = some (id, slot))
    (hhead : (a.slotsOfName name).head?.map Prod.snd = some first) : id = first := by
  obtain ⟨hs, hn⟩ := representative_own hrep
  obtain ⟨e, he, rfl⟩ := Option.map_eq_some_iff.1 hhead
  obtain ⟨t, ht, htn, hinst⟩ := mem_slotsOfName.1 (List.mem_of_head? he)
  have hfirst : e.1 < slot.entry.inst ∨ e.1 = slot.entry.inst ∧ e.2 ≤ id := by
    refine insertionSort_head (r := fun x y : ℕ × ℕ => x.1 < y.1 ∨ (x.1 = y.1 ∧ x.2 ≤ y.2))
      (by omega) (by omega) he (List.mem_map.2 ⟨(id, slot), ?_, rfl⟩)
    exact List.mem_filter.2 ⟨Table.mem_toList.2 hs, by simpa using hn⟩
  have hspeaks : speaksBefore (id, slot) (e.2, t) = true := by
    refine insertionSort_head (r := fun x y => speaksBefore x y = true) ?_ ?_ hrep ?_
    · intro x y
      simp only [speaksBefore_iff]
      omega
    · intro x y z
      simp only [speaksBefore_iff]
      omega
    · exact List.mem_filter.2 ⟨Table.mem_toList.2 ht, by simpa using htn⟩
  have hprompt : ∀ (j : ℕ) (u : SheepSlot), a.sheep[j]? = some u → u.name = name →
      lateness u = 0 := by
    intro j u hu hun
    unfold lateness
    split
    · next q hq => exact absurd hq (hnone j u q hu hun)
    · rfl
  rw [speaksBefore_iff, hprompt id slot hs hn, hprompt e.2 t ht htn, hinst] at hspeaks
  dsimp only at hspeaks
  omega

/-! ## The shutdown flag -/

theorem modifySlots_down (ids : List ℕ) (f : SheepSlot → SheepSlot) (a : Actor) :
    (ids.foldl (fun a id => a.modifySlot id f) a).shuttingDown = a.shuttingDown := by
  induction ids generalizing a with
  | nil => rfl
  | cons id ids ih => rw [List.foldl_cons, ih, (Frame.modifySlot id f a).down]

theorem storeScaled_down (firstId : ℕ) (rescaled : AppConfig) (count : ℕ) (survivors : List ℕ)
    (failed : Option (ℕ × String)) (a : Actor) :
    (a.storeScaled w firstId rescaled count survivors failed).2.shuttingDown = a.shuttingDown := by
  unfold storeScaled
  split
  · rfl
  · exact modifySlots_down _ _ a

theorem scaleUp_down (app : AppConfig) (credentials : Option Credentials) (free ids : List ℕ)
    (a : Actor) : (scaleUp w app credentials free ids a).2.2.shuttingDown = a.shuttingDown := by
  induction free generalizing a ids with
  | nil => rfl
  | cons inst free ih =>
    have hf := spawnFreshAt_frame w a.nextId app inst credentials none []
      { a with nextId := a.nextId + 1 }
    unfold scaleUp
    split
    · next h => exact (ih _ _).trans ((congrArg (fun r => r.2.shuttingDown) h).symm.trans hf.down)
    · next h => exact (congrArg (fun r => r.2.shuttingDown) h).symm.trans hf.down

theorem beginManualIds_down (kind : ManualKind) (origin : CommandOrigin) (ids : List ℕ)
    (reply : ReplyKind) (a : Actor) :
    (a.beginManualIds w ids kind origin reply).shuttingDown = a.shuttingDown := by
  have hg : ∀ g : Gathered,
      (ids.foldl (manualOne w kind origin) g).actor.shuttingDown = g.actor.shuttingDown := by
    induction ids with
    | nil => exact fun g => rfl
    | cons id ids ih => exact fun g => (ih _).trans (Frame.manualOne w kind origin g id).down
  unfold beginManualIds
  dsimp only
  split <;> exact hg ⟨[], [], a⟩

/-- A scale neither raises the shutdown flag nor lowers it. -/
theorem handleScale_down (name : String) (count : ℕ) (a : Actor) :
    (a.handleScale w name count).2.shuttingDown = a.shuttingDown := by
  unfold handleScale
  dsimp only
  split
  · rfl
  · split_ifs
    · rfl
    · rfl
    · rfl
    · rfl
    · split
      · rfl
      · unfold rescale
        dsimp only
        split_ifs
        · split
          · rfl
          · split
            · rfl
            · exact (storeScaled_down _ _ _ _ _ _).trans (scaleUp_down _ _ _ _ _)
        · exact (storeScaled_down _ _ _ _ _ _).trans (beginManualIds_down _ _ _ _ _)
        · exact storeScaled_down _ _ _ _ _ _

theorem applyOne_down (reset : ResetDepth) (incoming : DeclaredApp) (a : Actor) :
    (a.applyOne w reset incoming).2.shuttingDown = a.shuttingDown := by
  have hroute : ∀ (name : String) (running intended merged : AppConfig),
      (a.routeCount w name running intended merged).2.shuttingDown = a.shuttingDown := by
    intro name running intended merged
    unfold routeCount
    split_ifs
    · rfl
    · rfl
    · have hdown := handleScale_down (w := w) name merged.instances a
      split
      · next h => exact (congrArg (fun r => r.2.shuttingDown) h).symm.trans hdown
      · next h => exact (congrArg (fun r => r.2.shuttingDown) h).symm.trans hdown
  unfold applyOne
  dsimp only
  split
  · rfl
  · next slot _ =>
    split
    · rfl
    · split
      · rfl
      · next merged _ =>
        have hdown := hroute incoming.config.name slot.entry.spec slot.intendedSpec merged
        split
        · next h => exact (congrArg (fun r => r.2.shuttingDown) h).symm.trans hdown
        · next h => exact (congrArg (fun r => r.2.shuttingDown) h).symm.trans hdown

end Actor

end Supervisor

end Shep
