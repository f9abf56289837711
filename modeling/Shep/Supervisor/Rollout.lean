import Shep.Supervisor.Helpers.Play

/-!
# Supervisor — rollouts

The reload of an app takes its instances one after another: its job names
the one it swaps, the replacement, and those left to take.
**`rollout_once`**: they are different instances, all of the app; only a
`Reload` starts a rollout, of instances its selector matches; and as long as
it lasts it goes on to instances it had left to take, so it takes none
twice.
-/

namespace Shep

namespace Supervisor

variable {c : Turn} {p q : Point} {n : String} {job job' job'' : ReloadJob}

namespace ReloadJob

/-- The instances a job has to do with. -/
def instances (job : ReloadJob) : List ℕ :=
  job.swap.oldId :: (job.swap.newId.toList ++ job.queue)

/-- The instances still to be swapped. -/
def ahead (job : ReloadJob) : List ℕ := job.swap.oldId :: job.queue

/-- `job'` is at the swap `job` is at, or at one of those `job` had left, with
fewer left itself. -/
def Onward (job job' : ReloadJob) : Prop :=
  job'.ahead = job.ahead ∨ job'.ahead ⊆ job.queue ∧ job'.queue.length < job.queue.length

theorem Onward.trans (h : job.Onward job') (h' : job'.Onward job'') : job.Onward job'' := by
  have hsame (hahead : job''.ahead = job'.ahead) : job''.queue = job'.queue :=
    (List.cons.inj hahead).2
  rcases h with h | ⟨hsub, hlt⟩ <;> rcases h' with h' | ⟨hsub', hlt'⟩
  · exact Or.inl (h'.trans h)
  · rw [(List.cons.inj h).2] at hsub' hlt'
    exact Or.inr ⟨hsub', hlt'⟩
  · exact Or.inr ⟨h' ▸ hsub, hsame h' ▸ hlt⟩
  · refine Or.inr ⟨fun id hid => hsub (List.mem_cons_of_mem _ (hsub' hid)), hlt'.trans hlt⟩

end ReloadJob

/-- Where a job stands in a turn: at the swap the turn has found it at, or at
one of the instances the turn has left to take. -/
def Turn.Rolls (c : Turn) (n : String) (job' : ReloadJob) : Prop :=
  (∃ job : ReloadJob, c.before.reloads[n]? = some job ∧ job'.ahead = job.ahead) ∨
    ∀ id ∈ job'.ahead, c.Queued n id

theorem Move.rolls (hm : Move c p q)
    (h : ∀ (n : String) (job : ReloadJob), p.actor.reloads[n]? = some job → c.Rolls n job)
    (hj : q.actor.reloads[n]? = some job) : c.Rolls n job := by
  cases hm with
  | beginOverlap _ _ _ _ _ _ _ hold hqueue | beginSerial _ _ _ _ _ hold hqueue =>
    rcases Table.of_insert hj with ⟨rfl, rfl⟩ | ⟨-, hj⟩
    · exact Or.inr (List.forall_mem_cons.2 ⟨hold, hqueue⟩)
    · exact h n job hj
  | serialSpawn _ _ _ hfound | commit hfound | verify hfound =>
    rcases Table.of_insert hj with ⟨rfl, rfl⟩ | ⟨-, hj⟩
    · have hrolls := h _ _ hfound
      exact hrolls
    · exact h n job hj
  | drop | restore | lapse => exact h n job (Table.of_erase hj).2
  | shutdown => simp at hj
  | resolve =>
    rw [Actor.resolvePending_eq] at hj
    exact h n job hj
  | _ => exact h n job hj

theorem Inv.instances {a : Actor} (h : Inv .none a) (hj : a.reloads[n]? = some job) :
    job.instances.Nodup ∧ ∀ id ∈ job.instances, id < a.nextId ∧
      ∀ s, a.sheep[id]? = some s → s.name = n := by
  have hok := h.jobs n job hj
  obtain ⟨hold, hqueue⟩ := List.nodup_cons.1 hok.queued
  constructor
  · cases hnew : job.swap.newId with
    | none => simpa [ReloadJob.instances, hnew] using hok.queued
    | some id =>
      have hdistinct : id ≠ job.swap.oldId := fun heq => hok.distinct (heq ▸ hnew)
      have hfresh : id ∉ job.queue := fun hin => hok.new_queued id hin hnew
      simp [ReloadJob.instances, hnew, hold, hqueue, hfresh, hdistinct.symm]
  · intro id hid
    rcases List.mem_cons.1 hid with rfl | hid
    · exact ⟨hok.old_lt, hok.old_name⟩
    · rcases List.mem_append.1 hid with hnew | hin
      · exact ⟨hok.new_lt id (Option.mem_toList.1 hnew), fun s =>
          hok.new_name id s (Option.mem_toList.1 hnew)⟩
      · exact ⟨hok.queue_lt id hin, hok.queue_name id hin⟩

namespace Actor

variable {a a' : Actor} {e : World × Msg}

theorem Step.rolls (hinv : Inv .none a) (hstep : Step a e a')
    (hj : a'.reloads[n]? = some job) : (⟨a, e.1, e.2⟩ : Turn).Rolls n job := by
  obtain ⟨-, hadm, rfl⟩ := hstep
  obtain ⟨d, hm, hd⟩ := turn_moves hinv hadm e.1
  rw [hd] at hj
  have hall := hm.keeps (P := fun p => ∀ (n : String) (job : ReloadJob),
    p.actor.reloads[n]? = some job → (⟨a, e.1, e.2⟩ : Turn).Rolls n job) hinv
    (fun n job h => Or.inl ⟨job, h, rfl⟩) fun p q _ h hmove n job => hmove.rolls h
  exact hall n job hj

theorem Step.onward (hinv : Inv .none a) (hstep : Step a e a') (hj : a.reloads[n]? = some job)
    (hj' : a'.reloads[n]? = some job') : job.Onward job' := by
  rcases hstep.rolls hinv hj' with ⟨found, hfound, hahead⟩ | hqueued
  · obtain rfl := Option.some.inj (hj.symm.trans hfound)
    exact Or.inl hahead
  · have hsub : job'.ahead ⊆ job.queue := by
      intro id hid
      rcases hqueued id hid with ⟨-, -, -, hnone⟩ | ⟨found, hfound, hmem⟩
      · exact absurd (hj.symm.trans hnone) (by simp)
      · exact Option.some.inj (hj.symm.trans hfound) ▸ hmem
    have hnodup : job'.ahead.Nodup := ((hstep.inv hinv).jobs n job' hj').queued
    exact Or.inr ⟨hsub, (List.subperm_of_subset hnodup hsub).length_le⟩

end Actor

/-- **A rollout takes each instance once.** -/
theorem rollout_once {dogBinaries : List (String × String)} {h : List (Actor × World × Msg)}
    {a : Actor} (hr : Run Actor.Step (.init dogBinaries) h a) :
    (∀ (n : String) (job : ReloadJob), a.reloads[n]? = some job → job.instances.Nodup ∧
      ∀ id ∈ job.instances, id < a.nextId ∧ ∀ s, a.sheep[id]? = some s → s.name = n) ∧
    (∀ (e : World × Msg) (a' : Actor) (n : String) (job : ReloadJob), Actor.Step a e a' →
      a.reloads[n]? = none → a'.reloads[n]? = some job →
      ∃ selector, e.2 = .command (.reload selector) ∧ job.ahead ⊆ a.matchingIds selector) ∧
    ∀ (h' : List (Actor × World × Msg)) (b : Actor) (n : String) (job job' : ReloadJob),
      Run Actor.Step a h' b → Meets (fun s _ => n ∈ s.reloads) h' → a.reloads[n]? = some job →
      b.reloads[n]? = some job' → job.Onward job' := by
  have hinv := Actor.reachable_inv hr
  refine ⟨fun n job hj => hinv.instances hj, fun e a' n job hstep hnone hj => ?_,
    fun h' b n job job' hrun hlasts hj hj' => ?_⟩
  · have hqueued : ∀ id ∈ job.ahead, ∃ selector, e.2 = .command (.reload selector) ∧
        id ∈ a.matchingIds selector := by
      rcases hstep.rolls hinv hj with ⟨found, hfound, -⟩ | hqueued
      · exact absurd (hnone.symm.trans hfound) (by simp)
      · intro id hid
        rcases hqueued id hid with ⟨selector, hmsg, hmem, -⟩ | ⟨found, hfound, -⟩
        · exact ⟨selector, hmsg, hmem⟩
        · exact absurd (hnone.symm.trans hfound) (by simp)
    obtain ⟨selector, hmsg, -⟩ := hqueued job.swap.oldId List.mem_cons_self
    refine ⟨selector, hmsg, fun id hid => ?_⟩
    obtain ⟨selector', hmsg', hmem⟩ := hqueued id hid
    cases hmsg.symm.trans hmsg'
    exact hmem
  · have hall : Inv .none b ∧
        ∀ job' : ReloadJob, b.reloads[n]? = some job' → job.Onward job' := by
      refine hrun.invariant (P := fun b => Inv .none b ∧
        ∀ job' : ReloadJob, b.reloads[n]? = some job' → job.Onward job') hlasts
        ⟨hinv, fun job' hj' => Or.inl (Option.some.inj (hj'.symm.trans hj) ▸ rfl)⟩ ?_
      rintro s e s' ⟨hi, honward⟩ hin hstep
      refine ⟨hstep.inv hi, fun job' hj' => ?_⟩
      obtain ⟨mid, hmid⟩ := Option.isSome_iff_exists.1
        (Std.ExtTreeMap.mem_iff_isSome_getElem?.1 hin)
      exact (honward mid hmid).trans (hstep.onward hi hmid hj')
    exact hall.2 job' hj'

/-- Two instances serve, and a reload begins with the first. -/
def rollingOut : List (World × Msg) :=
  [(plain, .command (.start [{ probed with instances := 2 }] .allOrNothing [])),
    (plain, .readyResult ⟨0, 0, true⟩ .ready), (plain, .readyResult ⟨1, 0, true⟩ .ready),
    (plain, .command (.reload .all))]

theorem rollout_once_rollingOut : ∃ (a : Actor) (job : ReloadJob), a.reloads["web"]? = some job ∧
    job.instances = [0, 2, 1] ∧ job.instances.Nodup := by
  have hplay : (Actor.init []).Playable rollingOut := by decide +kernel
  have hjob : ((Actor.init []).play rollingOut).reloads["web"]? =
      some ⟨[1], .overlap, ⟨0, some 2, .awaitReady⟩, 0⟩ := by decide +kernel
  exact ⟨_, _, hjob, rfl, ((rollout_once hplay.run).1 "web" _ hjob).1⟩

end Supervisor

end Shep
