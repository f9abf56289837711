import Shep.Common.Run
import Shep.Common.Table
import Shep.Limits.Model

/-!
# Limits — readings of one life of a pid

**`readings_own`**: where no pid is watched or armed for a later process
while the tick holds a sample of an earlier one that it has yet to write
back, no baseline and no snapshot held for a watched root, and no breach
reported for an armed id, is of a process that held the pid before.

`Watches` is what `watch` and the tick's two maps keep, `Arms` what `arm`
and the enforcement pass keep. The sample in flight is part of both: what it
may still store is of the process meant, or of a later one.
-/

namespace Shep

namespace Limits

/-! ## What the tick is still to write back -/

/-- The sample whose reading of `pid` is still to become a baseline. -/
def Tick.baselining (pid : ℕ) : Tick → Option Sample
  | .sampled s => if s.shows pid then some s else none
  | .watchedRead s pids => if pids.contains pid && s.shows pid then some s else none
  | .sleeping | .baselined _ | .lambsRead _ _ | .lambed _ | .sending _ => none

/-- The sample whose reading of `pid` is still to become a lamb snapshot. -/
def Tick.lambing (shepherd pid : ℕ) : Tick → Option Sample
  | .sampled s | .watchedRead s _ | .baselined s =>
    if (s.ours shepherd).contains pid then some s else none
  | .lambsRead s pids =>
    if pids.contains pid && (s.ours shepherd).contains pid then some s else none
  | .sleeping | .lambed _ | .sending _ => none

/-- The sample whose sums are still to be compared with the limits. -/
def Tick.enforcing : Tick → Option Sample
  | .sampled s | .watchedRead s _ | .baselined s | .lambsRead s _ | .lambed s => some s
  | .sleeping | .sending _ => none

/-- No reading of an earlier process of the pid is under way to where a call
begins to hold one for a later process: no call to `watch` between a sample
and the maps it is stored in, and no call to `arm` between a sample over the
limit and the enforcement pass, or before a breach of the id has been
received. -/
def Apart (w : World) : Event → Prop
  | .watch _ rootPid process =>
    (∀ s ∈ w.tick.baselining rootPid, process ≤ s.holder rootPid) ∧
      ∀ s ∈ w.tick.lambing w.shepherd rootPid, process ≤ s.holder rootPid
  | .arm id rootPid limit process =>
    (∀ s ∈ w.tick.enforcing, limit < s.index.sumFrom rootPid → process ≤ s.holder rootPid) ∧
      ∀ r ∈ w.reported, r.id = id → r.rootPid = rootPid → process ≤ r.process
  | _ => True

/-! ## The property -/

/-- No reading mixes two lives of a pid. -/
structure Own (w : World) : Prop where
  baselines : ∀ (id : ℕ) (entry : Watched), w.stats.watched[id]? = some entry →
    ∀ b : Baseline, w.stats.baselines[entry.rootPid]? = some b →
      ∀ process ∈ b.process, entry.process ≤ process
  lambs : ∀ (id : ℕ) (entry : Watched), w.stats.watched[id]? = some entry →
    ∀ l : Lambs, w.stats.lambSnapshots[entry.rootPid]? = some l → entry.process ≤ l.process
  breaches : ∀ r ∈ w.reported, r.armed ≤ r.process ∧
    ∀ entry : Armed, w.armed[r.id]? = some entry → entry.rootPid = r.rootPid →
      entry.process ≤ r.process

/-! ## What is watched -/

/-- What is watched has begun, and whatever is stored for it, or is still to
be stored, is not of an earlier process. -/
structure Watches (shepherd : ℕ) (stats : StatsState) (holders : ℕ → ℕ) (tick : Tick) : Prop where
  begun : ∀ (id : ℕ) (entry : Watched), stats.watched[id]? = some entry →
    entry.process ≤ holders entry.rootPid
  baselines : ∀ (id : ℕ) (entry : Watched), stats.watched[id]? = some entry →
    ∀ b : Baseline, stats.baselines[entry.rootPid]? = some b →
      ∀ process ∈ b.process, entry.process ≤ process
  lambs : ∀ (id : ℕ) (entry : Watched), stats.watched[id]? = some entry →
    ∀ l : Lambs, stats.lambSnapshots[entry.rootPid]? = some l → entry.process ≤ l.process
  baselining : ∀ (id : ℕ) (entry : Watched), stats.watched[id]? = some entry →
    ∀ s ∈ tick.baselining entry.rootPid, entry.process ≤ s.holder entry.rootPid
  lambing : ∀ (id : ℕ) (entry : Watched), stats.watched[id]? = some entry →
    ∀ s ∈ tick.lambing shepherd entry.rootPid, entry.process ≤ s.holder entry.rootPid

section Watches

variable {shepherd : ℕ} {stats : StatsState} {holders holders' : ℕ → ℕ} {tick tick' : Tick}

theorem Watches.mono (h : Watches shepherd stats holders tick)
    (hholders : ∀ pid, holders pid ≤ holders' pid)
    (hbaselining : ∀ pid s, s ∈ tick'.baselining pid → s ∈ tick.baselining pid)
    (hlambing : ∀ pid s, s ∈ tick'.lambing shepherd pid → s ∈ tick.lambing shepherd pid) :
    Watches shepherd stats holders' tick' where
  begun id entry he := (h.begun id entry he).trans (hholders _)
  baselines := h.baselines
  lambs := h.lambs
  baselining id entry he s hs := h.baselining id entry he s (hbaselining _ s hs)
  lambing id entry he s hs := h.lambing id entry he s (hlambing _ s hs)

theorem Watches.sample (h : Watches shepherd stats holders tick) (table : List ProcessRss)
    (takenAt now : ℕ) :
    Watches shepherd stats holders (.sampled ⟨table, takenAt, now, holders⟩) where
  begun := h.begun
  baselines := h.baselines
  lambs := h.lambs
  baselining id entry he s hs := by
    simp only [Tick.baselining] at hs
    split_ifs at hs
    · obtain rfl := Option.some.inj hs
      exact h.begun id entry he
    · cases hs
  lambing id entry he s hs := by
    simp only [Tick.lambing] at hs
    split_ifs at hs
    · obtain rfl := Option.some.inj hs
      exact h.begun id entry he
    · cases hs

theorem Watches.watch (h : Watches shepherd stats holders tick) {id rootPid process : ℕ}
    (hbegun : process ≤ holders rootPid)
    (hbaselining : ∀ s ∈ tick.baselining rootPid, process ≤ s.holder rootPid)
    (hlambing : ∀ s ∈ tick.lambing shepherd rootPid, process ≤ s.holder rootPid) :
    Watches shepherd (stats.watch id rootPid process) holders tick := by
  have hget : ∀ (other : ℕ) (entry : Watched),
      (stats.watch id rootPid process).watched[other]? = some entry →
        entry = ⟨rootPid, process⟩ ∨ stats.watched[other]? = some entry := by
    intro other entry he
    rw [StatsState.watch, Table.get_insert] at he
    split_ifs at he
    · exact Or.inl (Option.some.inj he).symm
    · exact Or.inr he
  refine ⟨?_, ?_, ?_, ?_, ?_⟩
  · intro other entry he
    rcases hget other entry he with rfl | he
    · exact hbegun
    · exact h.begun other entry he
  · intro other entry he b hb
    rw [StatsState.watch, Table.get_erase] at hb
    split_ifs at hb with hpid
    rcases hget other entry he with rfl | he
    · exact absurd rfl hpid
    · exact h.baselines other entry he b hb
  · intro other entry he l hl
    rw [StatsState.watch, Table.get_erase] at hl
    split_ifs at hl with hpid
    rcases hget other entry he with rfl | he
    · exact absurd rfl hpid
    · exact h.lambs other entry he l hl
  · intro other entry he s hs
    rcases hget other entry he with rfl | he
    · exact hbaselining s hs
    · exact h.baselining other entry he s hs
  · intro other entry he s hs
    rcases hget other entry he with rfl | he
    · exact hlambing s hs
    · exact h.lambing other entry he s hs

theorem Watches.unwatch (h : Watches shepherd stats holders tick) (id : ℕ) :
    Watches shepherd (stats.unwatch id) holders tick := by
  have hget : ∀ (other : ℕ) (entry : Watched), (stats.unwatch id).watched[other]? = some entry →
      stats.watched[other]? = some entry := by
    intro other entry he
    rw [StatsState.unwatch, Table.get_erase] at he
    split_ifs at he
    exact he
  refine ⟨fun other entry he => h.begun other entry (hget _ _ he),
    fun other entry he => h.baselines other entry (hget _ _ he), ?_,
    fun other entry he => h.baselining other entry (hget _ _ he),
    fun other entry he => h.lambing other entry (hget _ _ he)⟩
  intro other entry he l hl
  refine h.lambs other entry (hget _ _ he) l ?_
  simp only [StatsState.unwatch] at hl
  split at hl
  · rw [Table.get_erase] at hl
    split_ifs at hl
    exact hl
  · exact hl

theorem getElem?_rebuilt {β : Type} (f : ℕ → β) (pids : List ℕ) (pid : ℕ) :
    (pids.foldl (fun fresh pid => fresh.insert pid (f pid)) (∅ : Std.ExtTreeMap ℕ β))[pid]? =
      if pid ∈ pids then some (f pid) else none := by
  have hfold : ∀ fresh : Std.ExtTreeMap ℕ β,
      (pids.foldl (fun fresh pid => fresh.insert pid (f pid)) fresh)[pid]? =
        if pid ∈ pids then some (f pid) else fresh[pid]? := by
    induction pids with
    | nil => simp
    | cons p pids ih =>
      intro fresh
      rw [List.foldl_cons, ih, Table.get_insert]
      grind
  rw [hfold, Std.ExtTreeMap.getElem?_empty]

/-- **The baselines are stored.** -/
theorem Watches.storeBaselines {s : Sample} {pids : List ℕ}
    (h : Watches shepherd stats holders (.watchedRead s pids)) :
    Watches shepherd (stats.storeBaselines s pids) holders (.baselined s) where
  begun := h.begun
  baselines id entry he b hb process hprocess := by
    rw [StatsState.storeBaselines, getElem?_rebuilt] at hb
    split_ifs at hb with hin
    obtain rfl := Option.some.inj hb
    rw [Sample.baseline] at hprocess
    split_ifs at hprocess with hshows
    · obtain rfl := Option.some.inj hprocess
      refine h.baselining id entry he s ?_
      rw [Tick.baselining, List.contains_iff_mem.2 hin, hshows]
      rfl
    · cases hprocess
  lambs := h.lambs
  baselining := fun _ _ _ _ hs => (by cases hs)
  lambing := h.lambing

/-- **The snapshots are stored.** -/
theorem Watches.storeLambs {s : Sample} {pids : List ℕ}
    (h : Watches shepherd stats holders (.lambsRead s pids)) :
    Watches shepherd (stats.storeLambs s shepherd pids) holders (.lambed s) where
  begun := h.begun
  baselines := h.baselines
  lambs id entry he l hl := by
    rw [StatsState.storeLambs, getElem?_rebuilt] at hl
    split_ifs at hl with hin
    obtain rfl := Option.some.inj hl
    obtain ⟨hin, hours⟩ := List.mem_filter.1 hin
    refine h.lambing id entry he s ?_
    rw [Tick.lambing, List.contains_iff_mem.2 hin, hours]
    rfl
  baselining := fun _ _ _ _ hs => (by cases hs)
  lambing := fun _ _ _ _ hs => (by cases hs)

end Watches

/-! ## What is armed -/

/-- What is armed has begun, and no breach found, or still to be found, is
of an earlier process. -/
structure Arms (armed : Std.ExtTreeMap ℕ Armed) (holders : ℕ → ℕ) (tick : Tick)
    (reported : List LimitBreach) : Prop where
  begun : ∀ (id : ℕ) (entry : Armed), armed[id]? = some entry →
    entry.process ≤ holders entry.rootPid
  breaches : ∀ r ∈ reported, r.armed ≤ r.process ∧
    ∀ entry : Armed, armed[r.id]? = some entry → entry.rootPid = r.rootPid →
      entry.process ≤ r.process
  enforcing : ∀ (id : ℕ) (entry : Armed), armed[id]? = some entry → ∀ s ∈ tick.enforcing,
    entry.limit < s.index.sumFrom entry.rootPid → entry.process ≤ s.holder entry.rootPid

section Arms

variable {armed : Std.ExtTreeMap ℕ Armed} {holders holders' : ℕ → ℕ} {tick tick' : Tick}
variable {reported reported' : List LimitBreach} {w : World} {s : Sample}

theorem Arms.mono (h : Arms armed holders tick reported)
    (hholders : ∀ pid, holders pid ≤ holders' pid)
    (htick : ∀ s, s ∈ tick'.enforcing → s ∈ tick.enforcing)
    (hreported : ∀ r ∈ reported', r ∈ reported) : Arms armed holders' tick' reported' where
  begun id entry he := (h.begun id entry he).trans (hholders _)
  breaches r hr := h.breaches r (hreported r hr)
  enforcing id entry he s hs := h.enforcing id entry he s (htick s hs)

theorem Arms.sample (h : Arms armed holders tick reported) (table : List ProcessRss)
    (takenAt now : ℕ) : Arms armed holders (.sampled ⟨table, takenAt, now, holders⟩) reported where
  begun := h.begun
  breaches := h.breaches
  enforcing id entry he s hs _ := by
    obtain rfl := Option.some.inj hs
    exact h.begun id entry he

theorem Arms.arm (h : Arms armed holders tick reported) {id rootPid limit process : ℕ}
    (hbegun : process ≤ holders rootPid)
    (henforcing : ∀ s ∈ tick.enforcing, limit < s.index.sumFrom rootPid →
      process ≤ s.holder rootPid)
    (hreported : ∀ r ∈ reported, r.id = id → r.rootPid = rootPid → process ≤ r.process) :
    Arms (armed.insert id ⟨rootPid, limit, process⟩) holders tick reported where
  begun other entry he := by
    rw [Table.get_insert] at he
    split_ifs at he
    · obtain rfl := Option.some.inj he
      exact hbegun
    · exact h.begun other entry he
  breaches r hr := by
    refine ⟨(h.breaches r hr).1, fun entry he hpid => ?_⟩
    rw [Table.get_insert] at he
    split_ifs at he with hid
    · obtain rfl := Option.some.inj he
      exact hreported r hr hid hpid.symm
    · exact (h.breaches r hr).2 entry he hpid
  enforcing other entry he s hs hover := by
    rw [Table.get_insert] at he
    split_ifs at he
    · obtain rfl := Option.some.inj he
      exact henforcing s hs hover
    · exact h.enforcing other entry he s hs hover

theorem Arms.disarm (h : Arms armed holders tick reported) (id : ℕ) :
    Arms (armed.erase id) holders tick reported := by
  have hget : ∀ (other : ℕ) (entry : Armed), (armed.erase id)[other]? = some entry →
      armed[other]? = some entry := by
    intro other entry he
    rw [Table.get_erase] at he
    split_ifs at he
    exact he
  exact ⟨fun other entry he => h.begun other entry (hget _ _ he),
    fun r hr => ⟨(h.breaches r hr).1, fun entry he => (h.breaches r hr).2 entry (hget _ _ he)⟩,
    fun other entry he => h.enforcing other entry (hget _ _ he)⟩

theorem retained_eq_some {id : ℕ} {entry : Armed} (h : (w.retained s)[id]? = some entry) :
    w.armed[id]? = some entry ∧ s.breach id entry = none := by
  rw [World.retained, Std.ExtTreeMap.getElem?_filter', Option.filter_eq_some_iff] at h
  exact ⟨h.1, Option.isNone_iff_eq_none.1 h.2⟩

/-- **The enforcement pass.** It finds what is over its limit now and
disarms it. -/
theorem Arms.enforce (h : Arms w.armed holders (.lambed s) reported) :
    Arms (w.retained s) holders (.sending (w.breaches s)) (reported ++ w.breaches s) where
  begun id entry he := h.begun id entry (retained_eq_some he).1
  breaches r hr := by
    rcases List.mem_append.1 hr with hr | hr
    · exact ⟨(h.breaches r hr).1,
        fun entry he => (h.breaches r hr).2 entry (retained_eq_some he).1⟩
    · obtain ⟨⟨id, entry⟩, hentry, hbreach⟩ := List.mem_filterMap.1 hr
      have hbreach' := hbreach
      have harmed := Std.ExtTreeMap.mem_toList_iff_getElem?_eq_some.1 hentry
      simp only [Sample.breach] at hbreach
      split_ifs at hbreach with hover
      obtain rfl := Option.some.inj hbreach
      refine ⟨h.enforcing id entry harmed s rfl hover, fun other he _ => ?_⟩
      -- what breaches is not retained
      obtain ⟨hsame, hnone⟩ := retained_eq_some he
      obtain rfl := Option.some.inj (harmed.symm.trans hsame)
      rw [hbreach'] at hnone
      cases hnone
  enforcing := fun _ _ _ _ hs => (by cases hs)

end Arms

/-! ## The machine -/

variable {w w' : World} {e : Event}

/-- What every step preserves. -/
structure Inv (w : World) : Prop where
  watches : Watches w.shepherd w.stats w.holders w.tick
  arms : Arms w.armed w.holders w.tick w.reported

theorem Inv.own (h : Inv w) : Own w := ⟨h.watches.baselines, h.watches.lambs, h.arms.breaches⟩

theorem inv_new (shepherd : ℕ) (holders : ℕ → ℕ) (running : ℕ → Bool) :
    Inv (World.new shepherd holders running) := by
  refine ⟨⟨?_, ?_, ?_, ?_, ?_⟩, ⟨?_, ?_, ?_⟩⟩
  · rintro id entry ⟨⟩
  · rintro id entry ⟨⟩
  · rintro id entry ⟨⟩
  · rintro id entry - s ⟨⟩
  · rintro id entry - s ⟨⟩
  · rintro id entry ⟨⟩
  · rintro r ⟨⟩
  · rintro id entry - s ⟨⟩

theorem Inv.getsOn (h : Inv w) {tick : Tick} (hreported : ∀ r ∈ ({ w with tick } : World).reported,
      r ∈ w.reported)
    (hbaselining : ∀ pid s, s ∈ tick.baselining pid → s ∈ w.tick.baselining pid)
    (hlambing : ∀ pid s, s ∈ tick.lambing w.shepherd pid → s ∈ w.tick.lambing w.shepherd pid)
    (henforcing : ∀ s, s ∈ tick.enforcing → s ∈ w.tick.enforcing) : Inv { w with tick } :=
  ⟨h.watches.mono (fun _ => le_refl _) hbaselining hlambing,
    h.arms.mono (fun _ => le_refl _) henforcing hreported⟩

/-- **One step.** -/
theorem Inv.step (h : Inv w) (hC : Apart w e) (hstep : Step w e w') : Inv w' := by
  unfold Step at hstep
  cases e with
  | fork pid =>
    simp only [World.next] at hstep
    split_ifs at hstep
    obtain rfl := Option.some.inj hstep
    have hholders : ∀ p, w.holders p ≤ Function.update w.holders pid (w.holders pid + 1) p := by
      intro p
      by_cases hp : p = pid
      · rw [hp, Function.update_self]
        exact Nat.le_succ _
      · rw [Function.update_of_ne hp]
    exact ⟨h.watches.mono hholders (fun _ _ hs => hs) (fun _ _ hs => hs),
      h.arms.mono hholders (fun _ hs => hs) (fun _ hr => hr)⟩
  | exit pid =>
    obtain rfl := Option.some.inj hstep
    exact ⟨h.watches, h.arms⟩
  | watch id rootPid process =>
    simp only [World.next] at hstep
    split_ifs at hstep with hbegun
    obtain rfl := Option.some.inj hstep
    exact ⟨h.watches.watch hbegun hC.1 hC.2, h.arms⟩
  | unwatch id =>
    obtain rfl := Option.some.inj hstep
    exact ⟨h.watches.unwatch id, h.arms⟩
  | arm id rootPid limit process =>
    simp only [World.next] at hstep
    split_ifs at hstep with hbegun
    obtain rfl := Option.some.inj hstep
    exact ⟨h.watches, h.arms.arm hbegun hC.1 hC.2⟩
  | disarm id =>
    obtain rfl := Option.some.inj hstep
    exact ⟨h.watches, h.arms.disarm id⟩
  | sample table takenAt now =>
    simp only [World.next] at hstep
    split at hstep
    · next htick =>
      obtain rfl := Option.some.inj hstep
      refine ⟨h.watches.sample table takenAt now, ?_⟩
      have hreported : w.reported = w.sent := by rw [World.reported, htick, List.append_nil]
      have harms := h.arms.sample table takenAt now
      rw [hreported] at harms
      rw [World.reported, List.append_nil]
      exact harms
    · cases hstep
  | readWatched =>
    simp only [World.next] at hstep
    split at hstep
    · next s htick =>
      obtain rfl := Option.some.inj hstep
      refine h.getsOn (fun r hr => ?_) (fun pid s' hs => ?_) (fun pid s' hs => ?_) (fun s' hs => ?_)
      · rw [World.reported, htick]
        exact hr
      · rw [htick]
        simp only [Tick.baselining] at hs ⊢
        split_ifs at hs with hboth
        · rw [if_pos (Bool.and_eq_true_iff.1 hboth).2]
          exact hs
        · cases hs
      · rw [htick]
        exact hs
      · rw [htick]
        exact hs
    · cases hstep
  | storeBaselines =>
    simp only [World.next] at hstep
    split at hstep
    · next s pids htick =>
      obtain rfl := Option.some.inj hstep
      have hwatches := h.watches
      have harms := h.arms
      rw [World.reported] at harms
      rw [htick] at hwatches harms
      exact ⟨hwatches.storeBaselines,
        harms.mono (fun _ => le_refl _) (fun _ hs => hs) fun r hr => hr⟩
    · cases hstep
  | readWatchedAgain =>
    simp only [World.next] at hstep
    split at hstep
    · next s htick =>
      obtain rfl := Option.some.inj hstep
      refine h.getsOn (fun r hr => ?_) (fun pid s' hs => by cases hs) (fun pid s' hs => ?_)
        (fun s' hs => ?_)
      · rw [World.reported, htick]
        exact hr
      · rw [htick]
        simp only [Tick.lambing] at hs ⊢
        split_ifs at hs with hboth
        · rw [if_pos (Bool.and_eq_true_iff.1 hboth).2]
          exact hs
        · cases hs
      · rw [htick]
        exact hs
    · cases hstep
  | storeLambs =>
    simp only [World.next] at hstep
    split at hstep
    · next s pids htick =>
      obtain rfl := Option.some.inj hstep
      have hwatches := h.watches
      have harms := h.arms
      rw [World.reported] at harms
      rw [htick] at hwatches harms
      exact ⟨hwatches.storeLambs,
        harms.mono (fun _ => le_refl _) (fun _ hs => hs) fun r hr => hr⟩
    · cases hstep
  | enforce =>
    simp only [World.next] at hstep
    split at hstep
    · next s htick =>
      obtain rfl := Option.some.inj hstep
      have hreported : w.reported = w.sent := by rw [World.reported, htick, List.append_nil]
      have harms := h.arms
      rw [htick, hreported] at harms
      refine ⟨h.watches.mono (fun _ => le_refl _) (fun _ _ hs => by cases hs)
        (fun _ _ hs => by cases hs), harms.enforce⟩
    · cases hstep
  | send =>
    simp only [World.next] at hstep
    split at hstep
    · next breach rest htick =>
      obtain rfl := Option.some.inj hstep
      refine ⟨h.watches.mono (fun _ => le_refl _) (fun _ _ hs => by cases hs)
        (fun _ _ hs => by cases hs), h.arms.mono (fun _ => le_refl _) (fun _ hs => by cases hs) ?_⟩
      intro r hr
      rw [World.reported, htick]
      simpa [World.reported] using hr
    · next htick =>
      obtain rfl := Option.some.inj hstep
      refine h.getsOn (fun r hr => ?_) (fun _ _ hs => by cases hs) (fun _ _ hs => by cases hs)
        (fun _ hs => by cases hs)
      rw [World.reported, htick]
      exact hr
    · cases hstep
  | receive =>
    simp only [World.next] at hstep
    split at hstep
    · next breach rest hsent =>
      obtain rfl := Option.some.inj hstep
      refine ⟨h.watches, h.arms.mono (fun _ => le_refl _) (fun _ hs => hs) fun r hr => ?_⟩
      rw [World.reported, hsent]
      exact List.mem_cons_of_mem _ hr
    · cases hstep

/-- **No reading mixes two lives of a pid**, in every state of every run in
which no call lands between a sample and its write-back on a pid that has
changed hands. -/
theorem readings_own {shepherd : ℕ} {holders : ℕ → ℕ} {running : ℕ → Bool}
    {h : List (World × Event)} (hr : Run Step (World.new shepherd holders running) h w)
    (hC : Meets Apart h) : Own w :=
  (hr.invariant hC (inv_new shepherd holders running)
    fun _ _ _ hinv hapart hstep => hinv.step hapart hstep).own

/-! ## Two runs -/

/-- The next state, or the same where the event cannot occur. -/
def World.advance (w : World) (e : Event) : World := (w.next e).getD w

theorem step_advance (h : (w.next e).isSome) : Step w e (w.advance e) := by
  obtain ⟨w', hw'⟩ := Option.isSome_iff_exists.1 h
  rw [Step, World.advance, hw', Option.getD_some]

instance : Decidable (Apart w e) :=
  match e with
  | .watch _ _ _ | .arm _ _ _ _ => inferInstanceAs (Decidable (_ ∧ _))
  | .fork _ | .exit _ | .unwatch _ | .disarm _ | .sample _ _ _ | .readWatched | .storeBaselines
  | .readWatchedAgain | .storeLambs | .enforce | .send | .receive => isTrue trivial

/-- A machine on which nothing has run yet, with the shepherd to be pid 1. -/
def quiet : World := .new 1 (fun _ => 0) fun _ => false

/-- A process is watched, and sampled for a baseline. -/
def firstEvents : List Event :=
  [.fork 100, .watch 7 100 1, .sample [⟨100, none, 4096, 9000⟩] 10 20, .readWatched,
    .storeBaselines]

theorem readings_own_first : Own (drive World.advance quiet firstEvents) ∧
    (drive World.advance quiet firstEvents).stats.watched[7]? = some ⟨100, 1⟩ ∧
    (drive World.advance quiet firstEvents).stats.baselines[100]? = some ⟨9000, 20, some 1⟩ := by
  have hd : Drives World.advance (fun w e => (w.next e).isSome ∧ Apart w e) quiet firstEvents := by
    decide +kernel
  exact ⟨readings_own (hd.run fun w e h => step_advance h.1) (hd.meets fun w e h => h.2),
    by decide +kernel, by decide +kernel⟩

/-- Sheep 7 runs as pid 100 when the table is sampled. It exits, and pid 100
is given to sheep 8, which is watched and armed before the tick writes
back. -/
def recycledEvents : List Event :=
  [.fork 1, .fork 100, .watch 7 100 1, .arm 7 100 4000 1,
    .sample [⟨1, none, 0, 0⟩, ⟨100, some 1, 4096, 9000⟩, ⟨101, some 100, 0, 0⟩] 10 20,
    .exit 100, .unwatch 7, .disarm 7, .fork 100, .watch 8 100 2, .arm 8 100 4000 2,
    .readWatched, .storeBaselines, .readWatchedAgain, .storeLambs, .enforce]

/-- The new process is given the old one's CPU time, and is reported for its
memory. -/
theorem recycled_reading : ∃ h w, Run Step quiet h w ∧ ¬ Own w ∧
    w.stats.watched[8]? = some ⟨100, 2⟩ ∧ w.stats.baselines[100]? = some ⟨9000, 20, some 1⟩ ∧
    w.reported = [⟨8, 100, 4096, 4000, 2, 1⟩] := by
  have hd : Drives World.advance (fun w e => (w.next e).isSome) quiet recycledEvents := by
    decide +kernel
  have hwatched : (drive World.advance quiet recycledEvents).stats.watched[8]? =
      some ⟨100, 2⟩ := by decide +kernel
  have hbaseline : (drive World.advance quiet recycledEvents).stats.baselines[100]? =
      some ⟨9000, 20, some 1⟩ := by decide +kernel
  refine ⟨_, _, hd.run fun w e h => step_advance h, fun hown => ?_, hwatched, hbaseline,
    by decide +kernel⟩
  exact absurd (hown.baselines 8 _ hwatched _ hbaseline 1 rfl) (by decide)

end Limits

end Shep
