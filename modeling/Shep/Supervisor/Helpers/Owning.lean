import Shep.Supervisor.Helpers.Saying

/-!
# Supervisor — who owns an exit

`SheepSlot.Keeps` is what a turn may do to the claim on a running sheep: an
operator's stays an operator's, and its verb changes only where a disable
or an enable of its app rewrites it. `Move.keeps` says that every move
keeps it, until the one that takes the exit. `Spared` counts kills: a life
that was sent one is claimed, and so is sent no other.
-/

namespace Shep

namespace Supervisor

/-- The verb a turn may write over `k` on a claim of the app's: a disable
makes a restart a stop, and an enable a stop a restart. -/
def Turn.Rewrites (c : Turn) (n : String) (k k' : ManualKind) : Prop :=
  k' = k ∨ k = .restart ∧ k' = .stop ∧ c.Disables n ∨ k = .stop ∧ k' = .restart ∧ c.Enables n

theorem Turn.Rewrites.trans {c : Turn} {n : String} {k k' k'' : ManualKind}
    (h : c.Rewrites n k k') (h' : c.Rewrites n k' k'') : c.Rewrites n k k'' := by
  rcases h with rfl | ⟨rfl, rfl, hd⟩ | ⟨rfl, rfl, he⟩
  · exact h'
  · rcases h' with rfl | ⟨h, -, -⟩ | ⟨-, rfl, -⟩
    · exact Or.inr (Or.inl ⟨rfl, rfl, hd⟩)
    · cases h
    · exact Or.inl rfl
  · rcases h' with rfl | ⟨-, rfl, -⟩ | ⟨h, -, -⟩
    · exact Or.inr (Or.inr ⟨rfl, rfl, he⟩)
    · exact Or.inl rfl
    · cases h

/-- `s'` is the same life as `s`, whose claim is the one it was or one that
may take it over. -/
structure SheepSlot.Keeps (c : Turn) (s s' : SheepSlot) : Prop where
  name : s'.name = s.name
  ctl : s'.ctl = s.ctl
  doomed : s.pendingDelete = true → s'.pendingDelete = true
  owner : ∀ m, s.manual = some m → ∃ m', s'.manual = some m' ∧
    (m.origin = .operator → m'.origin = .operator ∧ c.Rewrites s.name m.kind m'.kind) ∧
    (m'.origin = .automatic → m' = m)

namespace SheepSlot.Keeps

variable {c : Turn} {s s' s'' : SheepSlot}

theorem same (hname : s'.name = s.name) (hctl : s'.ctl = s.ctl) (hman : s'.manual = s.manual)
    (hdel : s'.pendingDelete = s.pendingDelete) : s.Keeps c s' where
  name := hname
  ctl := hctl
  doomed := fun hd => hdel.trans hd
  owner := fun m hm => ⟨m, hman.trans hm, fun ho => ⟨ho, Or.inl rfl⟩, fun _ => rfl⟩

theorem refl (c : Turn) (s : SheepSlot) : s.Keeps c s := .same rfl rfl rfl rfl

theorem trans (h : s.Keeps c s') (h' : s'.Keeps c s'') : s.Keeps c s'' where
  name := h'.name.trans h.name
  ctl := h'.ctl.trans h.ctl
  doomed := fun hd => h'.doomed (h.doomed hd)
  owner := by
    intro m hm
    obtain ⟨m', hm', hop, hauto⟩ := h.owner m hm
    obtain ⟨m'', hm'', hop', hauto'⟩ := h'.owner m' hm'
    refine ⟨m'', hm'', fun ho => ?_, fun ho => ?_⟩
    · obtain ⟨ho', hre⟩ := hop ho
      obtain ⟨ho'', hre'⟩ := hop' ho'
      rw [h.name] at hre'
      exact ⟨ho'', hre.trans hre'⟩
    · obtain rfl := hauto' ho
      exact hauto ho

theorem claim (hm : s.manual = none) (m : PendingManual) (d : Bool) :
    s.Keeps c { s with manual := some m, pendingDelete := s.pendingDelete || d } where
  name := rfl
  ctl := rfl
  doomed := fun hd => by simp [hd]
  owner := fun held hheld => by simp [hm] at hheld

theorem displace {held m : PendingManual} (hm : s.manual = some held)
    (hheld : held.origin = .automatic) (hop : m.origin = .operator) (d : Bool) :
    s.Keeps c { s with manual := some m, pendingDelete := s.pendingDelete || d } where
  name := rfl
  ctl := rfl
  doomed := fun hd => by simp [hd]
  owner := by
    intro m' hm'
    obtain rfl := Option.some.inj (hm.symm.trans hm')
    refine ⟨m, rfl, fun ho => ?_, fun ho => ?_⟩
    · rw [hheld] at ho
      cases ho
    · rw [hop] at ho
      cases ho

theorem remark {k k' : ManualKind} {names : List String}
    (hre : ∀ n ∈ names, c.Rewrites n k k') : s.Keeps c
      (if s.manual.any (fun m => m.kind == k) && names.contains s.name then
        { s with manual := some ⟨k', .operator⟩ } else s) := by
  split
  · next hcond =>
    obtain ⟨hkind, hname⟩ := Bool.and_eq_true_iff.1 hcond
    refine ⟨rfl, rfl, fun hd => hd, fun m hm => ⟨_, rfl, fun _ => ⟨rfl, ?_⟩, fun ho => ?_⟩⟩
    · have hmk : m.kind = k := by simpa [hm] using hkind
      rw [hmk]
      exact hre s.name (by simpa using hname)
    · cases ho
  · exact .refl c s

end SheepSlot.Keeps

/-- The life `k` of `id`, once its exit has been taken. -/
def Turn.Ended (c : Turn) (q : Point) (id k : ℕ) : Prop :=
  (∃ task outcome oomKilled, c.msg = .exited task outcome oomKilled ∧ task.serial = k) ∧
    ∃ s : SheepSlot, q.actor.sheep[id]? = some s ∧ s.ctl = none

section Lives

variable {c : Turn} {sheep : Std.ExtTreeMap ℕ SheepSlot} {id j k : ℕ} {s t t' : SheepSlot}

theorem keeps_insert (hs : sheep[id]? = some s) (hk : s.ctl = some k) (ht : sheep[j]? = some t)
    (hkeep : t.ctl.isSome = true → t.Keeps c t') :
    ∃ s', (sheep.insert j t')[id]? = some s' ∧ s.Keeps c s' := by
  rw [Table.get_insert]
  split
  · next e =>
    rw [e, ht] at hs
    obtain rfl := Option.some.inj hs
    exact ⟨t', rfl, hkeep (by simp [hk])⟩
  · exact ⟨s, hs, .refl c s⟩

theorem keeps_enter (c : Turn) (t' : SheepSlot) (hs : sheep[id]? = some s) (hk : s.ctl = some k)
    (hidle : ∀ t, sheep[j]? = some t → t.ctl = none) :
    ∃ s', (sheep.insert j t')[id]? = some s' ∧ s.Keeps c s' := by
  rw [Table.get_insert, if_neg]
  · exact ⟨s, hs, .refl c s⟩
  · rintro rfl
    rw [hidle s hs] at hk
    cases hk

theorem keeps_erase (hs : sheep[id]? = some s) (hk : s.ctl = some k)
    (hidle : ∀ t, sheep[j]? = some t → t.ctl = none) :
    ∃ s', (sheep.erase j)[id]? = some s' ∧ s.Keeps c s' := by
  rw [Table.get_erase, if_neg]
  · exact ⟨s, hs, .refl c s⟩
  · rintro rfl
    rw [hidle s hs] at hk
    cases hk

theorem keeps_map {f : SheepSlot → SheepSlot} (hs : sheep[id]? = some s) (hkeep : s.Keeps c (f s)) :
    ∃ s', (sheep.map fun _ s => f s)[id]? = some s' ∧ s.Keeps c s' :=
  ⟨f s, by rw [Table.get_map, hs, Option.map_some], hkeep⟩

end Lives

theorem SheepSlot.restore_manual (s : SheepSlot) : s.restore.manual = s.manual := by
  simp only [SheepSlot.restore]
  split <;> rfl

theorem SheepSlot.restore_pendingDelete (s : SheepSlot) :
    s.restore.pendingDelete = s.pendingDelete := by
  simp only [SheepSlot.restore]
  split <;> rfl

/-- **A move keeps every life and its claim**, but for the one whose exit it
takes. -/
theorem Move.keeps {c : Turn} {p q : Point} (hm : Move c p q) (hi : Inv p.hole p.actor) {id k : ℕ}
    {s : SheepSlot} (hs : p.actor.sheep[id]? = some s) (hk : s.ctl = some k) :
    (∃ s', q.actor.sheep[id]? = some s' ∧ s.Keeps c s') ∨ c.Ended q id k := by
  have hidle : ∀ {j : ℕ} {t : SheepSlot}, p.actor.sheep[j]? = some t → t.ctl = none →
      ∀ u, p.actor.sheep[j]? = some u → u.ctl = none := by
    intro j t ht hc u hu
    rw [← Option.some.inj (ht.symm.trans hu), hc]
  have hfresh : ∀ u, p.actor.sheep[p.actor.nextId]? = some u → u.ctl = none := by
    intro u hu
    exact absurd (hi.lt_nextId hu) (lt_irrefl _)
  cases hm with
  | quiet | bump | hear | drains | answer | park | halt | disable | enable | expire | fire |
    honour | commit | verify | drop | shutdown | unwatch | panic | assertFail =>
    exact Or.inl ⟨s, hs, .refl c s⟩
  | resolve info _ _ =>
    rw [Actor.resolvePending_eq]
    exact Or.inl ⟨s, hs, .refl c s⟩
  | edit s' ht hag =>
    exact Or.inl (keeps_insert hs hk ht fun _ => .same hag.name hag.ctl hag.manual hag.pendingDelete)
  | editAll f hf =>
    have hag := hf id s hs
    exact Or.inl (keeps_map hs (.same hag.name hag.ctl hag.manual hag.pendingDelete))
  | rest ht hctl | backOff _ ht hctl | reseat ht hctl | reseatLive ht hctl | relaunch ht hctl
  | scratch ht hctl => exact Or.inl (keeps_enter _ _ hs hk (hidle ht hctl))
  | register | launch => exact Or.inl (keeps_enter _ _ hs hk hfresh)
  | deregister ht hctl _ => exact Or.inl (keeps_erase hs hk (hidle ht hctl))
  | claim m cap ht hman => exact Or.inl (keeps_insert hs hk ht fun _ => .claim hman m _)
  | displace m cap ht hman hauto hop =>
    exact Or.inl (keeps_insert hs hk ht fun _ => .displace hman hauto hop _)
  | doom ht _ _ =>
    refine Or.inl (keeps_insert hs hk ht fun _ => ⟨rfl, rfl, fun _ => rfl, fun m hm => ?_⟩)
    exact ⟨m, hm, fun ho => ⟨ho, Or.inl rfl⟩, fun _ => rfl⟩
  | remarkStop names hnames =>
    refine Or.inl (keeps_map hs (.remark fun n hn => ?_))
    exact Or.inr (Or.inl ⟨rfl, rfl, hnames n hn⟩)
  | remarkRestart names hnames _ =>
    refine Or.inl (keeps_map hs (.remark fun n hn => ?_))
    exact Or.inr (Or.inr ⟨rfl, rfl, (hnames n hn).2⟩)
  | @exit a t task outcome _ hmsg _ ht hctl =>
    by_cases e : id = task.id
    · subst e
      obtain rfl := Option.some.inj (ht.symm.trans hs)
      obtain ⟨outcome', oomKilled, hmsg⟩ := hmsg
      refine Or.inr ⟨⟨task, outcome', oomKilled, hmsg, ?_⟩, t.exited outcome, by simp, rfl⟩
      exact Option.some.inj (hctl.symm.trans hk)
    · exact Or.inl ⟨s, by simp [e, hs], .refl c s⟩
  | @beginOverlap a n oldId pid t t' queue credentials ht _ _ _ _ _ _ _ _ _ _ _ _ _ =>
    have hdrain : t.ctl.isSome = true → t.Keeps c (t.draining (some a.nextId)) :=
      fun _ => .same rfl rfl rfl rfl
    obtain ⟨s₁, hs₁, hkeep⟩ := keeps_insert hs hk ht hdrain
    obtain ⟨s₂, hs₂, hkeep'⟩ := keeps_enter c t' hs₁ (hkeep.ctl.trans hk) (j := a.nextId)
      fun u hu => by
        rw [Table.get_insert, if_neg (hi.lt_nextId ht).ne'] at hu
        exact hfresh u hu
    exact Or.inl ⟨s₂, hs₂, hkeep.trans hkeep'⟩
  | @serialSpawn a n oldId pid t t' taken job credentials ht _ hctl _ _ _ _ _ _ _ =>
    obtain ⟨s₁, hs₁, hkeep⟩ := keeps_enter c (t.draining (some a.nextId)) hs hk (hidle ht hctl)
    obtain ⟨s₂, hs₂, hkeep'⟩ := keeps_enter c t' hs₁ (hkeep.ctl.trans hk) (j := a.nextId)
      fun u hu => by
        rw [Table.get_insert, if_neg (hi.lt_nextId ht).ne'] at hu
        exact hfresh u hu
    exact Or.inl ⟨s₂, hs₂, hkeep.trans hkeep'⟩
  | putBack ht | beginSerial ht | unmark ht | online ht | parkFailed ht | demote ht
  | lapse _ _ ht => exact Or.inl (keeps_insert hs hk ht fun _ => .same rfl rfl rfl rfl)
  | @restore x a n job t _ _ ht _ =>
    exact Or.inl (keeps_insert hs hk ht fun _ => .same t.restore_name t.restore_ctl t.restore_manual
      t.restore_pendingDelete)

/-- **A turn keeps every life and its claim**, but for the one whose exit it
is about. -/
theorem Actor.turn_keeps {a : Actor} (h : Inv .none a) {m : Msg} (hadm : a.admits m) (w : World)
    {id k : ℕ} {s : SheepSlot} (hs : a.sheep[id]? = some s) (hk : s.ctl = some k) :
    (∃ s', (a.turn w m).sheep[id]? = some s' ∧ s.Keeps ⟨a, w, m⟩ s') ∨
      ∃ task outcome oomKilled, m = .exited task outcome oomKilled ∧ task.serial = k := by
  obtain ⟨b, hm, hb⟩ := turn_moves h hadm w
  have hall := hm.keeps (P := fun p => (∃ s', p.actor.sheep[id]? = some s' ∧
      s.Keeps ⟨a, w, m⟩ s') ∨
    ∃ task outcome oomKilled, m = .exited task outcome oomKilled ∧ task.serial = k) h
    (Or.inl ⟨s, hs, .refl _ s⟩) (fun p q hi hP hmove => ?_)
  · rw [hb]
    exact hall
  · rcases hP with ⟨t, ht, hkeep⟩ | hexit
    · rcases hmove.keeps hi ht (hkeep.ctl.trans hk) with ⟨t', ht', hkeep'⟩ | ⟨hexit, -⟩
      · exact Or.inl ⟨t', ht', hkeep.trans hkeep'⟩
      · exact Or.inr hexit
    · exact Or.inr hexit

/-! ## Kills -/

/-- No life is sent a second kill: one that was sent one is claimed while it
runs. -/
structure Spared (a : Actor) : Prop where
  once : ∀ k, a.killsOf k ≤ 1
  old : ∀ k, 0 < a.killsOf k → k < a.nextTask
  claimed : ∀ (id : ℕ) (s : SheepSlot) (k : ℕ), a.sheep[id]? = some s → s.ctl = some k →
    0 < a.killsOf k → s.manual.isSome = true

theorem Inv.life_unique {x : Hole} {a : Actor} (h : Inv x a) {i j k : ℕ} {s t : SheepSlot}
    (hs : a.sheep[i]? = some s) (hsk : s.ctl = some k) (ht : a.sheep[j]? = some t)
    (htk : t.ctl = some k) : i = j := by
  obtain ⟨u, hu, hku, rfl⟩ := h.tasks.running i s k hs hsk
  obtain ⟨v, hv, hkv, rfl⟩ := h.tasks.running j t k ht htk
  rw [List.inj_on_of_nodup_map h.tasks.nodup hu hv (hku.trans hkv.symm)]

theorem Move.tasks_old {c : Turn} {p q : Point} (hm : Move c p q) :
    p.actor.nextTask ≤ q.actor.nextTask ∧
      ∀ t ∈ q.actor.tasks, t ∈ p.actor.tasks ∨ t.serial = p.actor.nextTask := by
  have hnew : ∀ task : Task, task.serial = p.actor.nextTask → ∀ t ∈ task :: p.actor.tasks,
      t ∈ p.actor.tasks ∨ t.serial = p.actor.nextTask := by
    intro task he t ht
    rcases List.mem_cons.1 ht with rfl | ht
    · exact Or.inr he
    · exact Or.inl ht
  cases hm with
  | launch | reseatLive | relaunch | beginOverlap | serialSpawn =>
    exact ⟨Nat.le_succ _, hnew _ rfl⟩
  | exit => exact ⟨le_rfl, fun t ht => Or.inl (List.mem_of_mem_erase ht)⟩
  | resolve info _ _ =>
    rw [Actor.resolvePending_eq]
    exact ⟨le_rfl, fun t ht => Or.inl ht⟩
  | _ => exact ⟨le_rfl, fun t ht => Or.inl ht⟩

/-- A life that was running before a move runs under the same id, and its
claim is still there. -/
theorem Move.old_life {c : Turn} {p q : Point} (hm : Move c p q) (hi : Inv p.hole p.actor)
    (hq : Inv q.hole q.actor) {id k : ℕ} {s' : SheepSlot} (hs' : q.actor.sheep[id]? = some s')
    (hk : s'.ctl = some k) (hold : k < p.actor.nextTask) :
    ∃ s, p.actor.sheep[id]? = some s ∧ s.ctl = some k ∧
      (s.manual.isSome = true → s'.manual.isSome = true) := by
  obtain ⟨t, ht, hserial, rfl⟩ := hq.tasks.running id s' k hs' hk
  have hmem : t ∈ p.actor.tasks := (hm.tasks_old.2 t ht).resolve_right fun e => by omega
  obtain ⟨s, hs, hctl, -⟩ := hi.tasks.owned t hmem
  rw [hserial] at hctl
  rcases hm.keeps hi hs hctl with ⟨u, hu, hkeep⟩ | ⟨-, u, hu, hdead⟩
  · obtain rfl := Option.some.inj (hu.symm.trans hs')
    refine ⟨s, hs, hctl, fun hman => ?_⟩
    obtain ⟨m, hm⟩ := Option.isSome_iff_exists.1 hman
    obtain ⟨m', hm', -⟩ := hkeep.owner m hm
    simp [hm']
  · obtain rfl := Option.some.inj (hu.symm.trans hs')
    rw [hdead] at hk
    cases hk

theorem killsOf_of_plain {a b : Actor} {new : List Effect} (ht : b.trace = new ++ a.trace)
    (hnew : ∀ e ∈ new, ∀ k, e.kills k = false) (k : ℕ) : b.killsOf k = a.killsOf k := by
  rw [Actor.killsOf, ht, List.countP_append, List.countP_eq_zero.2, Nat.zero_add]
  · rfl
  · intro e he
    simp [hnew e he k]

/-- **A move spares every life a second kill.** -/
theorem Move.spared {c : Turn} {p q : Point} (hm : Move c p q) (hi : Inv p.hole p.actor)
    (h : Spared p.actor) : Spared q.actor := by
  have hq := hm.inv hi
  -- what was claimed before the move is claimed after it
  have hkept : ∀ (id : ℕ) (s' : SheepSlot) (k : ℕ), q.actor.sheep[id]? = some s' →
      s'.ctl = some k → 0 < p.actor.killsOf k → s'.manual.isSome = true := by
    intro id s' k hs' hk hpos
    obtain ⟨s, hs, hctl, hman⟩ := hm.old_life hi hq hs' hk (h.old k hpos)
    exact hman (h.claimed id s k hs hctl hpos)
  have hsame : (∀ k, q.actor.killsOf k = p.actor.killsOf k) → Spared q.actor := fun he =>
    { once := fun k => he k ▸ h.once k
      old := fun k hpos => (h.old k (he k ▸ hpos)).trans_le hm.tasks_old.1
      claimed := fun id s' k hs' hk hpos => hkept id s' k hs' hk (he k ▸ hpos) }
  cases hm.said with
  | plain new ht hnew =>
    refine hsame (killsOf_of_plain ht fun e he k => ?_)
    cases e with
    | killed => exact (hnew _ he).elim
    | _ => rfl
  | drains name mode swap ht _ =>
    have hplain : ∀ e ∈ [Effect.drains name mode swap], ∀ k, e.kills k = false := by simp [Effect.kills]
    exact hsame (killsOf_of_plain ht hplain)
  | @claims id s m cap kill ht hs hkill hsheep _ _ =>
    cases kill with
    | none =>
      have hplain : ∀ e ∈ [Effect.claimed id m cap], ∀ k, e.kills k = false := by simp [Effect.kills]
      exact hsame (killsOf_of_plain ht hplain)
    | some e =>
      obtain ⟨hman, k₀, hk₀, rfl⟩ := hkill e rfl
      have hcount : ∀ k, q.actor.killsOf k = p.actor.killsOf k + if k₀ = k then 1 else 0 := by
        intro k
        rw [Actor.killsOf, ht, Option.toList_some, List.singleton_append, List.countP_cons,
          List.countP_cons]
        simp [Effect.kills, Actor.killsOf]
      -- the life had no claim, so it had been sent no kill
      have hnone : p.actor.killsOf k₀ = 0 := by
        by_contra hne
        have hclaimed := h.claimed id s k₀ hs hk₀ (Nat.pos_of_ne_zero hne)
        simp [hman] at hclaimed
      obtain ⟨s', hs', hm'⟩ := hsheep
      obtain ⟨t, htask, hserial, -⟩ := hi.tasks.running id s k₀ hs hk₀
      have hlt : k₀ < p.actor.nextTask := hserial ▸ hi.tasks.lt t htask
      have hget : q.actor.sheep[id]? = some s' := by rw [hs', Table.get_insert, if_pos rfl]
      refine ⟨fun k => ?_, fun k hpos => ?_, fun j u k hu hk hpos => ?_⟩
      · rw [hcount]
        split
        · next e => rw [← e, hnone]
        · exact h.once k
      · rw [hcount] at hpos
        refine lt_of_lt_of_le ?_ hm.tasks_old.1
        split at hpos
        · next e => exact e ▸ hlt
        · exact h.old k hpos
      · rw [hcount] at hpos
        split at hpos
        · next e =>
          subst e
          obtain ⟨v, hv, hvk, -⟩ := hm.old_life hi hq hu hk hlt
          obtain rfl := hi.life_unique hv hvk hs hk₀
          rw [← Option.some.inj (hget.symm.trans hu), hm']
          rfl
        · exact hkept j u k hu hk hpos

/-- **No run sends a life two kills.** -/
theorem spared_run {a b : Actor} {h : List (Actor × World × Msg)} (hr : Run Actor.Step b h a)
    (hb : Inv .none b) (h0 : Spared b) : Spared a :=
  run_keeps (C := fun _ => True) (Q := Spared) (P := fun _ p => Spared p.actor)
    (fun _ _ _ h => h) (fun _ _ _ _ hi h hm => hm.spared hi h)
    (fun _ _ h => ⟨h.once, h.old, h.claimed⟩) hr (fun _ _ => trivial) hb h0

theorem spared_init (dogBinaries : List (String × String)) : Spared (.init dogBinaries) :=
  ⟨by simp [Actor.init, Actor.killsOf], by simp [Actor.init, Actor.killsOf], by simp [Actor.init]⟩

end Supervisor

end Shep
