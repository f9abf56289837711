import Shep.Sweep.Model

/-!
# Sweep — who is behind a pid

`World.Honest` is what the machine promises: a process keeps its pid and its
start, is in every read while it is there, and a pid passes to another
process with a start later than the looks before. Under it, a pid that is a
survivor of a `Dated` snapshot is still the process that was seen
(`survivor_process`), and was one at every look since (`survivor_earlier`).
-/

namespace Shep

namespace Sweep

open Relation

variable {w : World} {saw : ℕ → ℕ} {initial snapshot other : LambSnapshot}
variable {table : Processes} {roots : List ℕ} {row row' : Row}
variable {i j k m n pid seen d x : ℕ} {P Q : ℕ → ℕ → Prop}

/-- The process that has `pid` at a read. -/
def World.process (w : World) (i pid : ℕ) : Option ℕ := ((w.processes i).get pid).map Row.process

/-- What holds of the process table, whenever it is read. -/
structure World.Honest (w : World) : Prop where
  clock : Monotone w.time
  same : ∀ {i j : ℕ} {row row' : Row}, row ∈ (w.processes i).rows → row' ∈ (w.processes j).rows →
    row'.process = row.process → row'.pid = row.pid ∧ row'.started = row.started
  zombies : ∀ {i j : ℕ} {row row' : Row}, i ≤ j → row ∈ (w.processes i).rows →
    row' ∈ (w.processes j).rows → row'.process = row.process → row.zombie = true →
    row'.zombie = true
  throughout : ∀ {i k j : ℕ} {row row' : Row}, i ≤ k → k ≤ j → row ∈ (w.processes i).rows →
    row' ∈ (w.processes j).rows → row'.process = row.process →
    ∃ between ∈ (w.processes k).rows, between.process = row.process
  reused : ∀ {i j started : ℕ} {row row' : Row}, i < j → row ∈ (w.processes i).rows →
    row' ∈ (w.processes j).rows → row'.pid = row.pid → row'.process ≠ row.process →
    row'.started = some started → w.time i < started

/-- The processes a sweep may signal: those the initial snapshot saw, at the
look that saw each, and what is below one of them. -/
inductive World.Lamb (w : World) (saw : ℕ → ℕ) (initial : LambSnapshot) : ℕ → Prop where
  | seen {pid x : ℕ} (hin : pid ∈ initial) (hx : w.process (saw pid) pid = some x) :
      Lamb w saw initial x
  | child {i : ℕ} {row row' : Row} (hrow : row ∈ (w.processes i).rows)
      (hrow' : row' ∈ (w.processes i).rows) (hparent : row'.parent = some row.pid)
      (hlamb : Lamb w saw initial row.process) : Lamb w saw initial row'.process

/-- A snapshot taken before read `n`, each pid at the look `saw` gives. -/
def World.Taken (w : World) (saw : ℕ → ℕ) (n : ℕ) (snapshot : LambSnapshot) : Prop :=
  ∀ pid d : ℕ, snapshot[pid]? = some d →
    saw pid < n ∧ w.time (saw pid) = d ∧ (w.process (saw pid) pid).isSome

/-- Every pid is dated by an earlier look, and `P` holds of it and of the
process that look saw there. -/
def World.Dated (w : World) (n : ℕ) (P : ℕ → ℕ → Prop) (snapshot : LambSnapshot) : Prop :=
  ∀ pid d : ℕ, snapshot[pid]? = some d →
    ∃ i, i < n ∧ w.time i = d ∧ ∃ x, w.process i pid = some x ∧ P pid x

theorem World.Dated.mono (h : w.Dated n P snapshot) (hn : n ≤ m) : w.Dated m P snapshot := by
  intro pid d hd
  obtain ⟨i, hi, hrest⟩ := h pid d hd
  exact ⟨i, by omega, hrest⟩

theorem World.Dated.imp (h : w.Dated n P snapshot)
    (hPQ : ∀ pid x, pid ∈ snapshot → P pid x → Q pid x) : w.Dated n Q snapshot := by
  intro pid d hd
  obtain ⟨i, hi, ht, x, hx, hP⟩ := h pid d hd
  have hin : pid ∈ snapshot := Std.ExtTreeMap.mem_iff_isSome_getElem?.2 (by simp [hd])
  exact ⟨i, hi, ht, x, hx, hPQ pid x hin hP⟩

theorem World.Taken.dated (h : w.Taken saw n initial) :
    w.Dated n (fun _ x => w.Lamb saw initial x) initial := by
  intro pid d hd
  obtain ⟨hlt, ht, hsome⟩ := h pid d hd
  obtain ⟨x, hx⟩ := Option.isSome_iff_exists.1 hsome
  have hin : pid ∈ initial := Std.ExtTreeMap.mem_iff_isSome_getElem?.2 (by simp [hd])
  exact ⟨saw pid, hlt, ht, x, hx, .seen hin hx⟩

/-! ## Rows -/

theorem get_eq_some : table.get pid = some row ↔ row ∈ table.rows ∧ row.pid = pid := by
  constructor
  · intro h
    exact ⟨List.mem_of_find?_eq_some h, by simpa using List.find?_some h⟩
  · rintro ⟨hin, rfl⟩
    cases hfind : table.get row.pid with
    | none =>
      have := List.find?_eq_none.1 hfind row hin
      simp at this
    | some other =>
      have hpid : other.pid = row.pid := by simpa using List.find?_some hfind
      have hother : other ∈ table.rows := List.mem_of_find?_eq_some hfind
      exact congrArg some (List.inj_on_of_nodup_map table.keyed hother hin hpid)

theorem process_eq_some :
    w.process i pid = some x ↔ ∃ row ∈ (w.processes i).rows, row.pid = pid ∧ row.process = x := by
  simp only [World.process, Option.map_eq_some_iff, get_eq_some, and_assoc]

theorem mem_survivors : pid ∈ w.survivors m snapshot ↔ (lambPid pid w.own).isOk ∧
    ∃ row ∈ (w.processes m).rows, row.pid = pid ∧ row.zombie = false ∧
      ∃ d started, snapshot[pid]? = some d ∧ row.started = some started ∧
        w.earliest ≤ started ∧ started ≤ d := by
  simp only [World.survivors, survivorsIn, List.mem_filter, Std.ExtTreeMap.mem_keys,
    Option.any_eq_true, stillRuns, Bool.and_eq_true, Bool.not_eq_true', decide_eq_true_eq,
    get_eq_some]
  constructor
  · rintro ⟨⟨-, hok⟩, row, ⟨hrow, hpid⟩, d, hd, hz, started, hs, he, hle⟩
    exact ⟨hok, row, hrow, hpid, hz, d, started, hd, hs, he, hle⟩
  · rintro ⟨hok, row, hrow, hpid, hz, d, started, hd, hs, he, hle⟩
    have hin : pid ∈ snapshot := Std.ExtTreeMap.mem_iff_isSome_getElem?.2 (by simp [hd])
    exact ⟨⟨hin, hok⟩, row, ⟨hrow, hpid⟩, d, hd, hz, started, hs, he, hle⟩

theorem mem_of_survivor (h : pid ∈ w.survivors m snapshot) : pid ∈ snapshot := by
  obtain ⟨-, -, -, -, -, d, -, hd, -⟩ := mem_survivors.1 h
  exact Std.ExtTreeMap.mem_iff_isSome_getElem?.2 (by simp [hd])

theorem survivors_congr (h : snapshot[pid]? = other[pid]?) :
    pid ∈ w.survivors m snapshot ↔ pid ∈ w.survivors m other := by
  rw [mem_survivors, mem_survivors, h]

/-! ## Survivors -/

theorem survivor_at (hw : w.Honest) (hd : snapshot[pid]? = some d) (ht : w.time i = d)
    (hi : i < m) (hx : w.process i pid = some x) (h : pid ∈ w.survivors m snapshot) :
    w.process m pid = some x := by
  obtain ⟨-, row, hrow, hpid, -, d', started, hd', hs, -, hle⟩ := mem_survivors.1 h
  obtain rfl : d = d' := Option.some.inj (hd.symm.trans hd')
  obtain ⟨first, hfirst, hfpid, rfl⟩ := process_eq_some.1 hx
  refine process_eq_some.2 ⟨row, hrow, hpid, ?_⟩
  by_contra hne
  have := hw.reused hi hfirst hrow (hpid.trans hfpid.symm) hne hs
  omega

/-- **Of the survivors holds what holds of the processes they are.** -/
theorem survivor_process (hw : w.Honest) (hdated : w.Dated n P snapshot) (hn : n ≤ m) :
    w.Dated n (fun pid x => P pid x ∧ (pid ∈ w.survivors m snapshot → w.process m pid = some x))
      snapshot := by
  intro pid d hd
  obtain ⟨i, hi, ht, x, hx, hP⟩ := hdated pid d hd
  exact ⟨i, hi, ht, x, hx, hP, survivor_at hw hd ht (by omega) hx⟩

theorem survivor_earlier (hw : w.Honest) (hdated : w.Dated n P snapshot) (hn : n ≤ k)
    (hk : k ≤ m) (h : pid ∈ w.survivors m snapshot) : pid ∈ w.survivors k snapshot := by
  obtain ⟨hok, last, hlast, hpid, hz, d, started, hd, hs, he, hle⟩ := mem_survivors.1 h
  obtain ⟨i, hi, ht, x, hx, -⟩ := hdated pid d hd
  have hm : w.process m pid = some last.process := process_eq_some.2 ⟨last, hlast, hpid, rfl⟩
  obtain rfl : x = last.process :=
    Option.some.inj ((survivor_at hw hd ht (by omega) hx h).symm.trans hm)
  obtain ⟨first, hfirst, -, hfx⟩ := process_eq_some.1 hx
  obtain ⟨between, hbetween, hbx⟩ := hw.throughout (by omega) hk hfirst hlast hfx.symm
  have hprocess : last.process = between.process := hfx.symm.trans hbx.symm
  obtain ⟨hsame, hstarted⟩ := hw.same hbetween hlast hprocess
  refine mem_survivors.2 ⟨hok, between, hbetween, hsame.symm.trans hpid, ?_, d, started, hd,
    hstarted.symm.trans hs, he, hle⟩
  by_contra hzombie
  have := hw.zombies hk hbetween hlast hprocess (by simpa using hzombie)
  simp [hz] at this

/-! ## Walks -/

theorem mem_children {u v : ℕ} :
    v ∈ table.children u ↔ ∃ row ∈ table.rows, row.parent = some u ∧ row.pid = v := by
  simp [Processes.children, and_assoc]

theorem mem_below : pid ∈ below table roots ↔
    pid ∉ roots ∧ ∃ root ∈ roots, ReflTransGen (fun u v => v ∈ table.children u) root pid := by
  have htargets : ∀ u, ∀ v ∈ table.children u, v ∈ (table.rows.map Row.pid).toFinset := by
    intro u v hv
    obtain ⟨row, hrow, -, hpid⟩ := mem_children.1 hv
    exact List.mem_toFinset.2 (List.mem_map.2 ⟨row, hrow, hpid⟩)
  have hcard : (table.rows.map Row.pid).toFinset.card = table.rows.length := by
    rw [List.toFinset_card_of_nodup table.keyed, List.length_map]
  rw [below, List.mem_filter, mem_explore htargets (by rw [hcard]), and_comm]
  simp

theorem lamb_below
    (hroots : ∀ root ∈ roots, ∃ x, w.process i root = some x ∧ w.Lamb saw initial x)
    (h : pid ∈ below (w.processes i) roots) :
    ∃ x, w.process i pid = some x ∧ w.Lamb saw initial x := by
  obtain ⟨-, root, hroot, hpath⟩ := mem_below.1 h
  clear h
  induction hpath with
  | refl => exact hroots root hroot
  | tail _ hstep ih =>
    obtain ⟨x, hx, hlamb⟩ := ih
    obtain ⟨parent, hparent, hppid, rfl⟩ := process_eq_some.1 hx
    obtain ⟨row, hrow, hlink, hpid⟩ := mem_children.1 hstep
    exact ⟨row.process, process_eq_some.2 ⟨row, hrow, hpid, rfl⟩,
      .child hparent hrow (hlink.trans (congrArg some hppid.symm)) hlamb⟩

/-! ## Snapshots -/

theorem getElem?_new (pids : List ℕ) (takenAt : ℕ) :
    (LambSnapshot.new pids takenAt)[pid]? = if pid ∈ pids then some takenAt else none := by
  have hfold : ∀ seenAt : LambSnapshot,
      (pids.foldl (fun seenAt pid => seenAt.insert pid takenAt) seenAt)[pid]?
        = if pid ∈ pids then some takenAt else seenAt[pid]? := by
    induction pids with
    | nil => simp
    | cons p pids ih =>
      intro seenAt
      rw [List.foldl_cons, ih, Table.get_insert]
      grind
  rw [LambSnapshot.new, hfold, Std.ExtTreeMap.getElem?_empty]

/-- What the merged entries read, with the rest as it was. -/
theorem getElem?_mergeOne (entries : List (ℕ × ℕ)) (hnodup : (entries.map Prod.fst).Nodup)
    (seenAt : LambSnapshot) : (entries.foldl LambSnapshot.mergeOne seenAt)[pid]? =
      match entries.lookup pid with
      | some at' => some (max (seenAt[pid]?.getD at') at')
      | none => seenAt[pid]? := by
  induction entries generalizing seenAt with
  | nil => rfl
  | cons entry entries ih =>
    rw [List.map_cons, List.nodup_cons] at hnodup
    rw [List.foldl_cons, ih hnodup.2, LambSnapshot.mergeOne, Table.get_insert, List.lookup_cons]
    by_cases hpid : pid = entry.1
    · have hout : entries.lookup pid = none := by
        rw [List.lookup_eq_none_iff]
        intro p hp
        have : p.1 ∈ entries.map Prod.fst := List.mem_map_of_mem hp
        simp only [bne_iff_ne, ne_eq]
        rintro rfl
        exact hnodup.1 (hpid ▸ this)
      rw [hpid] at hout
      simp [hout, hpid]
    · have hb : (pid == entry.1) = false := by simpa using hpid
      simp only [hb, if_neg hpid]

/-- **A merged snapshot dates a pid by the later look that saw it.** -/
theorem getElem?_merge : (snapshot.merge other)[pid]? =
    match other[pid]? with
    | some at' => some (max (snapshot[pid]?.getD at') at')
    | none => snapshot[pid]? := by
  rw [LambSnapshot.merge, getElem?_mergeOne _ (Table.nodup_keys other), Table.lookup_toList]

theorem merge_cases (h : (snapshot.merge other)[pid]? = some d) :
    snapshot[pid]? = some d ∨ other[pid]? = some d := by
  rw [getElem?_merge] at h
  cases hother : other[pid]? with
  | none => exact .inl (by simpa [hother] using h)
  | some later =>
    cases hmine : snapshot[pid]? with
    | none => exact .inr (by simpa [hother, hmine] using h)
    | some mine =>
      have hmax : max mine later = d := by simpa [hother, hmine] using h
      rcases Nat.le_total mine later with hle | hle
      · exact .inr (by rw [← hmax, Nat.max_eq_right hle])
      · exact .inl (by rw [← hmax, Nat.max_eq_left hle])

theorem World.Taken.merge {saw' : ℕ → ℕ} (h : w.Taken saw n snapshot) (h' : w.Taken saw' n other) :
    ∃ saw'', w.Taken saw'' n (snapshot.merge other) := by
  refine ⟨fun pid => if (snapshot.merge other)[pid]? = snapshot[pid]? then saw pid else saw' pid,
    fun pid d hd => ?_⟩
  by_cases heq : (snapshot.merge other)[pid]? = snapshot[pid]?
  · simp only [heq, if_true]
    exact h pid d (heq ▸ hd)
  · simp only [if_neg heq]
    exact h' pid d ((merge_cases hd).resolve_left fun hmine => heq (hd.trans hmine.symm))

theorem taken_descendants (i : ℕ) (roots : List ℕ) :
    w.Taken (fun _ => i) (i + 1) (w.descendants i roots) := by
  intro pid d hd
  rw [World.descendants, getElem?_new] at hd
  split at hd
  · next hin =>
    obtain ⟨hout, root, hroot, hpath⟩ := mem_below.1 hin
    refine ⟨by simp, Option.some.inj hd, ?_⟩
    rcases ReflTransGen.cases_tail hpath with rfl | ⟨parent, -, hstep⟩
    · exact absurd hroot hout
    · obtain ⟨row, hrow, -, hpid⟩ := mem_children.1 hstep
      exact Option.isSome_iff_exists.2 ⟨row.process, process_eq_some.2 ⟨row, hrow, hpid, rfl⟩⟩
  · cases hd

theorem taken_snapshot (i rootPid : ℕ) :
    w.Taken (fun _ => i) (i + 1) (w.snapshot i rootPid) := by
  rw [World.snapshot]
  split
  · exact taken_descendants i [rootPid]
  · intro pid d hd
    simp at hd

end Sweep

end Shep
