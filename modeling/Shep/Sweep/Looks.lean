import Shep.Sweep.Identity

/-!
# Sweep — what a look does

The parts of a look, each by what it changes: a batch of signals
(`deliver_eq`), the pids seen for the first time (`mem_firstSeen`), a walk
(`Walked`). `look_cases` puts them together.
-/

namespace Shep

namespace Sweep

variable {w : World} {snapshot : LambSnapshot} {c c₁ : Course} {alive pids roots : List ℕ}
variable {seen : ℕ → ℕ} {signal : LambSignal} {termed : Finset ℕ} {P Q : ℕ → ℕ → Prop}
variable {i m n now pid x : ℕ}

/-! ## Signals -/

/-- A pid `kill` may name. -/
def World.IsLamb (w : World) (pid : ℕ) : Prop := pid ≤ 2147483647 ∧ 1 < pid ∧ pid ≠ w.own

instance (w : World) (pid : ℕ) : Decidable (w.IsLamb pid) := inferInstanceAs (Decidable (_ ∧ _))

theorem lambPid_eq (pid : ℕ) :
    lambPid pid w.own = if w.IsLamb pid then .ok pid else .error (.notALamb pid) := rfl

theorem isOk_lambPid : (lambPid pid w.own).isOk = true ↔ w.IsLamb pid := by
  rw [lambPid_eq]
  split <;> rename_i h
  · exact iff_of_true rfl h
  · exact iff_of_false (by simp [Except.isOk, Except.toBool]) h

/-- The calls of `kill` a batch makes. -/
def World.batch (w : World) (seen : ℕ → ℕ) (pids : List ℕ) (signal : LambSignal) : List Sent :=
  (pids.filter fun pid => w.IsLamb pid).map fun pid => ⟨pid, signal, seen pid⟩

theorem mem_batch {e : Sent} : e ∈ w.batch seen pids signal ↔
    e.pid ∈ pids ∧ w.IsLamb e.pid ∧ e.signal = signal ∧ e.look = seen e.pid := by
  simp only [World.batch, List.mem_map, List.mem_filter, decide_eq_true_eq]
  constructor
  · rintro ⟨pid, ⟨hin, hlamb⟩, rfl⟩
    exact ⟨hin, hlamb, rfl, rfl⟩
  · rintro ⟨hin, hlamb, rfl, hlook⟩
    exact ⟨e.pid, ⟨hin, hlamb⟩, by rw [← hlook]⟩

theorem signalOne_eq (seen : ℕ → ℕ) (signal : LambSignal) (c : Course) (pid : ℕ) :
    ∃ refused, c.signalOne w seen signal pid = { c with
      sent := c.sent ++ w.batch seen [pid] signal
      sweeper := { c.sweeper with refused := refused } } := by
  rw [Course.signalOne, lambPid_eq]
  by_cases hlamb : w.IsLamb pid
  · rw [if_pos hlamb]
    have hbatch : w.batch seen [pid] signal = [⟨pid, signal, seen pid⟩] := by
      simp [World.batch, hlamb]
    simp only [hbatch]
    split
    · exact ⟨_, rfl⟩
    · exact ⟨c.sweeper.refused, rfl⟩
  · rw [if_neg hlamb]
    simp [World.batch, hlamb, Course.refuse]

theorem deliver_eq (seen : ℕ → ℕ) (pids : List ℕ) (signal : LambSignal) (c : Course) :
    ∃ refused, c.deliver w seen pids signal = { c with
      sent := c.sent ++ w.batch seen pids signal
      sweeper := { c.sweeper with refused := refused } } := by
  induction pids generalizing c with
  | nil => exact ⟨c.sweeper.refused, by simp [Course.deliver, World.batch]⟩
  | cons pid pids ih =>
    obtain ⟨refused, h⟩ := ih (c.signalOne w seen signal pid)
    obtain ⟨refused', h'⟩ := signalOne_eq (w := w) seen signal c pid
    refine ⟨refused, ?_⟩
    rw [Course.deliver, List.foldl_cons, ← Course.deliver, h, h']
    have hbatch : w.batch seen (pid :: pids) signal
        = w.batch seen [pid] signal ++ w.batch seen pids signal := by
      rw [← List.singleton_append]
      simp only [World.batch, List.filter_append, List.map_append]
    simp only [hbatch, List.append_assoc]

/-! ## The first look at a pid -/

theorem mem_firstSeen :
    (pid ∈ (firstSeen alive termed).1 ↔ pid ∈ alive ∧ pid ∉ termed) ∧
      (pid ∈ (firstSeen alive termed).2 ↔ pid ∈ termed ∨ pid ∈ alive) := by
  induction alive generalizing termed with
  | nil => simp [firstSeen]
  | cons p alive ih =>
    obtain ⟨ih₁, ih₂⟩ := @ih (insert p termed)
    simp only [firstSeen]
    constructor
    · split <;> simp only [ih₁, List.mem_cons, Finset.mem_insert] <;> grind
    · rw [ih₂]
      grind

theorem nodup_firstSeen (alive : List ℕ) (termed : Finset ℕ) :
    (firstSeen alive termed).1.Nodup := by
  induction alive generalizing termed with
  | nil => exact .nil
  | cons p alive ih =>
    simp only [firstSeen]
    split
    · exact ih _
    · exact List.nodup_cons.2 ⟨fun hin => (mem_firstSeen.1.1 hin).2 (by simp), ih _⟩

/-! ## Walks -/

/-- The read a pid of a look from `n` is taken for a lamb in. -/
def seenAt (n : ℕ) (roots : List ℕ) (pid : ℕ) : ℕ := if pid ∈ roots then n else n + 1

/-- What a walk from the survivors at `n` leaves: what is alive is in the
snapshot, which is dated as before; what is alive was seen at this look; and
there is no other survivor at any later read. -/
structure Walked (w : World) (n : ℕ) (P : ℕ → ℕ → Prop) (roots alive : List ℕ) (c₁ : Course) :
    Prop where
  read : n + 2 ≤ c₁.read
  known : ∀ pid ∈ alive, pid ∈ c₁.sweeper.snapshot
  dated : w.Dated c₁.read
    (fun pid x => P pid x ∧ (pid ∈ alive → w.process (seenAt n roots pid) pid = some x))
    c₁.sweeper.snapshot
  still : ∀ m, c₁.read ≤ m → ∀ pid ∈ w.survivors m c₁.sweeper.snapshot, pid ∈ alive

/-- Between a look's beginning and its signals only the snapshot changes. -/
structure Course.Same (c c₁ : Course) : Prop where
  sent : c₁.sent = c.sent
  termed : c₁.sweeper.termed = c.sweeper.termed
  phase : c₁.sweeper.phase = c.sweeper.phase
  grace : c₁.sweeper.grace = c.sweeper.grace
  startedAt : c₁.sweeper.startedAt = c.sweeper.startedAt

theorem walkFrom_same (w : World) (roots : List ℕ) (c : Course) :
    c.Same (c.walkFrom w roots).2 := by
  rw [Course.walkFrom]
  split
  · exact ⟨rfl, rfl, rfl, rfl, rfl⟩
  · dsimp only
    split
    · exact ⟨rfl, rfl, rfl, rfl, rfl⟩
    · exact ⟨rfl, rfl, rfl, rfl, rfl⟩

/-- A walk the sweep goes by: every root is there after it. -/
def World.Holds (w : World) (n : ℕ) (snapshot : LambSnapshot) : Prop :=
  ∀ root ∈ w.survivors n snapshot, root ∈ w.survivors (n + 2) snapshot

/-- What the walk of a look from `n` finds. -/
def World.finds (w : World) (n : ℕ) (snapshot : LambSnapshot) : List ℕ :=
  below (w.processes (n + 1)) (w.survivors n snapshot)

theorem getElem?_finds (n : ℕ) (snapshot : LambSnapshot) (pid : ℕ) :
    (w.descendants (n + 1) (w.survivors n snapshot))[pid]?
      = if pid ∈ w.finds n snapshot then some (w.time (n + 1)) else none :=
  getElem?_new _ _

theorem getElem?_walked (hw : w.Honest) (hdated : w.Dated n P snapshot) (pid : ℕ) :
    (snapshot.merge (w.descendants (n + 1) (w.survivors n snapshot)))[pid]?
      = if pid ∈ w.finds n snapshot then some (w.time (n + 1)) else snapshot[pid]? := by
  rw [getElem?_merge, getElem?_finds]
  by_cases hin : pid ∈ w.finds n snapshot
  · simp only [if_pos hin]
    cases hd : snapshot[pid]? with
    | none => simp
    | some d =>
      obtain ⟨i, hi, ht, -⟩ := hdated pid d hd
      have : w.time i ≤ w.time (n + 1) := hw.clock (by omega)
      simp only [Option.getD_some, Option.some.injEq]
      omega
  · simp only [if_neg hin]

theorem finds_process (h : pid ∈ w.finds n snapshot) :
    pid ∉ w.survivors n snapshot ∧ ∃ x, w.process (n + 1) pid = some x := by
  have hout := (mem_below.1 h).1
  have hd := (getElem?_finds n snapshot pid).trans (if_pos h)
  exact ⟨hout, Option.isSome_iff_exists.1 (taken_descendants (n + 1) _ pid _ hd).2.2⟩

/-- **A walk keeps a snapshot dated**, if what holds of the pids it has holds
of those it finds. -/
theorem walkFrom_walked (hw : w.Honest) (hdated : w.Dated n P c.sweeper.snapshot)
    (hread : c.read = n + 1) (hfinds : w.Holds n c.sweeper.snapshot →
      ∀ pid ∈ w.finds n c.sweeper.snapshot, ∀ x, w.process (n + 1) pid = some x → P pid x) :
    Walked w n P (w.survivors n c.sweeper.snapshot)
      (c.walkFrom w (w.survivors n c.sweeper.snapshot)).1
      (c.walkFrom w (w.survivors n c.sweeper.snapshot)).2 := by
  have hroots := survivor_process hw hdated (Nat.le_refl n)
  have hmerged := getElem?_walked hw hdated
  have hback : ∀ m k pid, n ≤ k → k ≤ m → pid ∈ w.survivors m c.sweeper.snapshot →
      pid ∈ w.survivors k c.sweeper.snapshot :=
    fun m k pid hk hm hpid => survivor_earlier hw hdated hk hm hpid
  have hseen : ∀ pid ∈ w.survivors n c.sweeper.snapshot,
      seenAt n (w.survivors n c.sweeper.snapshot) pid = n := fun pid hpid => if_pos hpid
  rw [Course.walkFrom]
  simp only [hread]
  split
  · -- nothing below the survivors
    refine ⟨Nat.le_refl _, fun pid hpid => mem_of_survivor hpid, ?_, ?_⟩
    · refine (hroots.imp fun pid x _ hP => ⟨hP.1, fun hpid => ?_⟩).mono (Nat.le_add_right n 2)
      rw [hseen pid hpid]
      exact hP.2 hpid
    · intro m hm pid hpid
      exact hback m n pid (Nat.le_refl n) ((Nat.le_add_right n 2).trans hm) hpid
  · split
    · -- the walk counts: what it finds is dated by it
      next hall =>
      have hholds : w.Holds n c.sweeper.snapshot := by simpa [World.Holds] using hall
      have hkeys : ∀ pid, pid ∈ (w.descendants (n + 1) (w.survivors n c.sweeper.snapshot)).keys ↔
          pid ∈ w.finds n c.sweeper.snapshot := by
        intro pid
        rw [Std.ExtTreeMap.mem_keys, Std.ExtTreeMap.mem_iff_isSome_getElem?, getElem?_finds]
        split <;> simp_all
      have halive : ∀ pid, pid ∈ ((w.survivors n c.sweeper.snapshot ++
          (w.descendants (n + 1) (w.survivors n c.sweeper.snapshot)).keys).insertionSort
            (· ≤ ·)).dedup ↔
          pid ∈ w.survivors n c.sweeper.snapshot ∨ pid ∈ w.finds n c.sweeper.snapshot := by
        intro pid
        rw [List.mem_dedup, List.mem_insertionSort, List.mem_append, hkeys]
      refine ⟨Nat.le_succ _, ?_, ?_, ?_⟩
      · intro pid hpid
        simp only [Std.ExtTreeMap.mem_iff_isSome_getElem?, hmerged]
        split
        · rfl
        · next hout =>
          have hroot := ((halive pid).1 hpid).resolve_right hout
          exact Std.ExtTreeMap.mem_iff_isSome_getElem?.1 (mem_of_survivor hroot)
      · intro pid d hd
        simp only [hmerged] at hd
        split at hd
        · next hin =>
          obtain ⟨hout, x, hx⟩ := finds_process hin
          refine ⟨n + 1, by simp, Option.some.inj hd, x, hx, hfinds hholds pid hin x hx,
            fun _ => ?_⟩
          rw [seenAt, if_neg hout]
          exact hx
        · next hout =>
          obtain ⟨i, hi, ht, x, hx, hP, hn⟩ := hroots pid d hd
          refine ⟨i, hi.trans (by simp; omega), ht, x, hx, hP, fun hpid => ?_⟩
          have hroot := ((halive pid).1 hpid).resolve_right hout
          rw [hseen pid hroot]
          exact hn hroot
      · intro m hm pid hpid
        have hm : n + 3 ≤ m := hm
        rw [halive]
        by_cases hin : pid ∈ w.finds n c.sweeper.snapshot
        · exact .inr hin
        · have hsame := (hmerged pid).trans (if_neg hin)
          exact .inl (hback m n pid (Nat.le_refl n) (by omega) ((survivors_congr hsame).1 hpid))
    · -- a root has gone: the finds are dropped
      refine ⟨Nat.le_succ _, fun pid hpid => mem_of_survivor (List.mem_filter.1 hpid).1,
        ?_, ?_⟩
      · refine (hroots.imp fun pid x _ hP => ⟨hP.1, fun hpid => ?_⟩).mono (Nat.le_add_right n 3)
        have hin := (List.mem_filter.1 hpid).1
        rw [hseen pid hin]
        exact hP.2 hin
      · intro m hm pid hpid
        have hm : n + 3 ≤ m := hm
        exact List.mem_filter.2 ⟨hback m n pid (Nat.le_refl n) (by omega) hpid,
          by simpa using hback m (n + 2) pid (by omega) (by omega) hpid⟩

/-! ## One look -/

theorem terminate_eq (seen : ℕ → ℕ) (alive : List ℕ) (c : Course) :
    ∃ refused, c.terminate w seen alive = { c with
      sent := c.sent ++ w.batch seen (firstSeen alive c.sweeper.termed).1 .term
      sweeper := { c.sweeper with
        termed := (firstSeen alive c.sweeper.termed).2, refused := refused } } :=
  deliver_eq seen _ .term { c with
    sweeper := { c.sweeper with termed := (firstSeen alive c.sweeper.termed).2 } }

/-- The end of the grace: nothing was found, nothing is left, or what is left
is killed. -/
theorem finish_cases (w : World) (seen : ℕ → ℕ) (killed : List ℕ) (now : ℕ) (c : Course) :
    (∃ report, c.finish w seen killed now = (c.into .done, .done report) ∧ report.stuck = []) ∨
      ∃ refused, c.finish w seen killed now = ({ c with
        sent := c.sent ++ w.batch seen killed .kill
        sweeper := { c.sweeper with
          killed := killed, phase := .settling now, refused := refused } },
        .wait KILL_SETTLE_POLL) := by
  rw [Course.finish]
  split
  · exact .inl ⟨_, rfl, rfl⟩
  · split
    · exact .inl ⟨_, rfl, rfl⟩
    · obtain ⟨refused, h⟩ := deliver_eq (w := w) seen killed .kill c
      exact .inr ⟨refused, by simp only [h]⟩

/-- A look that has begun. -/
def Course.begin (now : ℕ) (c : Course) : Course :=
  { c with
    sweeper := { c.sweeper with startedAt := some (c.sweeper.startedAt.getD now) }
    read := c.read + 1 }

/-- Where a look stands once it knows what is alive and has sent SIGTERM to
what it is the first to see. -/
inductive Course.Reaches (w : World) (now : ℕ) (c : Course) : List ℕ → Course → Prop where
  | gone (hroots : w.survivors c.read c.sweeper.snapshot = []) : Reaches w now c [] (c.begin now)
  | walked {roots : List ℕ} (hroots : roots = w.survivors c.read c.sweeper.snapshot)
      (hsome : roots ≠ []) :
      Reaches w now c ((c.begin now).walkFrom w roots).1
        (((c.begin now).walkFrom w roots).2.terminate w (seenAt c.read roots)
          ((c.begin now).walkFrom w roots).1)

/-- **What a look does**: nothing, if there is nothing to sweep, or it gets
to know what is alive, and kills it or waits. -/
theorem look_cases (w : World) (now : ℕ) (c : Course) :
    c.sweeper.snapshot.isEmpty ∧ c.look w now = (c.into .done, .done {}) ∨
      ∃ alive c₂, c.Reaches w now alive c₂ ∧
        (c.look w now = c₂.finish w (seenAt c.read (w.survivors c.read c.sweeper.snapshot))
            alive now ∨
          c₂.left now (c.sweeper.startedAt.getD now) ≠ 0 ∧ c.look w now = (c₂,
            .wait (min (c₂.left now (c.sweeper.startedAt.getD now)) SWEEP_POLL_INTERVAL))) := by
  rw [Course.look]
  split
  · next hempty => exact .inl ⟨hempty, rfl⟩
  · refine .inr ?_
    dsimp only
    split
    · next hroots => exact ⟨_, _, .gone hroots, .inl rfl⟩
    · next hsome =>
      refine ⟨_, _, .walked rfl hsome, ?_⟩
      split
      · exact .inl rfl
      · next hleft => exact .inr ⟨hleft, rfl⟩

end Sweep

end Shep
