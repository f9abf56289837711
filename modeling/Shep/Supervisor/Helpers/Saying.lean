import Shep.Supervisor.Helpers.Turning

/-!
# Supervisor — what a move puts on record

`Said` inverts one move's part of the trace: effects that claim nothing, a
drain, or one claim with the kill it sends. `Grounded` is read off it: a
kill is the claim's just before it, a claim that drains follows the drain
it is part of, and an overlap drains nothing before its replacement has
said it is ready.
-/

namespace Shep

namespace Supervisor

namespace Effect

/-- An effect that claims nothing, kills nothing and drains nothing. -/
def Plain : Effect → Prop
  | .killed _ _ | .claimed _ _ _ | .drains _ _ _ => False
  | _ => True

/-- What has to stand in the trace before an effect. -/
def GroundedOn (older : List Effect) : Effect → Prop
  | .killed _ _ => ∃ id m cap, older.head? = some (.claimed id m cap)
  | .claimed id _ .drain => ∃ name mode swap, older.head? = some (.drains name mode swap) ∧
      swap.oldId = id
  | .drains _ .overlap swap => ∃ newId, swap.newId = some newId ∧ .ready newId ∈ older
  | _ => True

theorem Plain.groundedOn {e : Effect} (h : e.Plain) (older : List Effect) : e.GroundedOn older := by
  cases e with
  | killed | claimed | drains => exact h.elim
  | _ => trivial

end Effect

/-- Every effect of a trace has what it needs before it. -/
def Grounded (trace : List Effect) : Prop :=
  ∀ newer e older, trace = newer ++ e :: older → e.GroundedOn older

theorem grounded_nil : Grounded [] := by
  intro newer e older h
  cases newer <;> cases h

theorem Grounded.cons {trace : List Effect} {e : Effect} (h : Grounded trace)
    (he : e.GroundedOn trace) : Grounded (e :: trace) := by
  intro newer e' older heq
  cases newer with
  | nil =>
    obtain ⟨rfl, rfl⟩ := List.cons.inj heq
    exact he
  | cons _ newer => exact h newer e' older (List.cons.inj heq).2

theorem Grounded.plain {trace new : List Effect} (h : Grounded trace) (hnew : ∀ e ∈ new, e.Plain) :
    Grounded (new ++ trace) := by
  induction new with
  | nil => exact h
  | cons e new ih =>
    refine (ih fun e he => hnew e (List.mem_cons_of_mem _ he)).cons ?_
    exact (hnew e List.mem_cons_self).groundedOn _

/-- What a move put on record. -/
inductive Said (c : Turn) (p q : Point) : Prop
  | plain (new : List Effect) : q.actor.trace = new ++ p.actor.trace → (∀ e ∈ new, e.Plain) →
      Said c p q
  | drains (name : String) (mode : ReloadMode) (swap : ReloadSwap) :
      q.actor.trace = .drains name mode swap :: p.actor.trace →
      (mode = .overlap → ∃ newId, swap.newId = some newId ∧ .ready newId ∈ p.actor.trace) →
      Said c p q
  | claims {id : ℕ} {s : SheepSlot} (m : PendingManual) (cap : LadderCap) (kill : Option Effect) :
      q.actor.trace = kill.toList ++ .claimed id m cap :: p.actor.trace →
      p.actor.sheep[id]? = some s →
      (∀ e ∈ kill, s.manual = none ∧ ∃ k, s.ctl = some k ∧
        e = .killed k (cap.of s.entry.spec)) →
      (∃ s', q.actor.sheep = p.actor.sheep.insert id s' ∧ s'.manual = some m) →
      (cap = .drain → p.actor.Drains id) → c.Claims cap id → Said c p q

namespace Said

variable {c : Turn} {p q : Point}

theorem silent (h : q.actor.trace = p.actor.trace) : Said c p q := .plain [] h (by simp)

theorem one {e : Effect} (h : q.actor.trace = e :: p.actor.trace) (he : e.Plain) : Said c p q :=
  .plain [e] h (by simpa using he)

/-- What is grounded stays so. -/
theorem grounded (h : Said c p q) (hp : Grounded p.actor.trace) : Grounded q.actor.trace := by
  cases h with
  | plain new ht hnew => exact ht ▸ hp.plain hnew
  | drains name mode swap ht hready =>
    rw [ht]
    refine hp.cons ?_
    cases mode with
    | overlap => exact hready rfl
    | serial => trivial
  | @claims id s m cap kill ht hs hkill _ hcap _ =>
    have hclaim : Grounded (.claimed id m cap :: p.actor.trace) := by
      refine hp.cons ?_
      cases cap with
      | stop => trivial
      | drain =>
        obtain ⟨name, mode, swap, older, he, hid⟩ := hcap rfl
        exact ⟨name, mode, swap, by rw [he]; rfl, hid⟩
    rw [ht]
    cases kill with
    | none => exact hclaim
    | some e =>
      obtain ⟨-, k, -, rfl⟩ := hkill e rfl
      exact hclaim.cons ⟨id, m, cap, rfl⟩

theorem claimed (h : Said c p q) : ∃ new, q.actor.trace = new ++ p.actor.trace ∧
    ∀ id m cap, .claimed id m cap ∈ new → c.Claims cap id := by
  cases h with
  | plain new ht hnew => exact ⟨new, ht, fun id m cap hmem => (hnew _ hmem).elim⟩
  | drains name mode swap ht _ => exact ⟨[.drains name mode swap], ht, by simp⟩
  | @claims id s m cap kill ht _ hkill _ _ hwho =>
    refine ⟨kill.toList ++ [.claimed id m cap], by simp [ht], fun j m' cap' hmem => ?_⟩
    rcases List.mem_append.1 hmem with hmem | hmem
    · obtain ⟨-, k, -, he⟩ := hkill _ (by simpa using hmem)
      cases he
    · obtain ⟨rfl, rfl, rfl⟩ := Effect.claimed.inj (List.mem_singleton.1 hmem)
      exact hwho

end Said

/-- **What each move puts on record.** -/
theorem Move.said {c : Turn} {p q : Point} (hm : Move c p q) : Said c p q := by
  cases hm with
  | quiet | bump | edit | editAll | rest | register | reseat | doom | remarkStop | remarkRestart |
    disable | enable | deregister | expire | fire | honour | putBack | beginSerial | scratch |
    commit | verify | drop | unmark | restore | lapse | online | parkFailed | demote | shutdown |
    unwatch | panic => exact .silent rfl
  | hear | answer | halt | backOff | launch | reseatLive | relaunch | beginOverlap | serialSpawn |
    exit | assertFail | park => exact .one rfl trivial
  | resolve info _ _ =>
    refine .plain _ (by rw [Actor.resolvePending_eq]) fun e he => ?_
    simp only [Actor.repliedWith, List.mem_reverse, List.mem_map] at he
    obtain ⟨_, _, rfl⟩ := he
    trivial
  | drains phase hj hready => exact .drains _ _ _ rfl hready
  | @claim x a id s m cap hs hman hctl hauto hcap hwho =>
    refine .claims m cap (s.ctl.map fun k => .killed k (cap.of s.entry.spec)) ?_ hs ?_ ⟨_, rfl, rfl⟩
      hcap hwho
    · cases hk : s.ctl <;> simp
    · intro e he
      obtain ⟨k, hk, rfl⟩ := Option.map_eq_some_iff.1 he
      exact ⟨hman, k, hk, rfl⟩
  | @displace x a id s held m cap hs _ _ _ _ hcap hwho =>
    exact .claims m cap none rfl hs (by simp) ⟨_, rfl, rfl⟩ hcap hwho

end Supervisor

end Shep
