import Shep.Common.Digraph
import Shep.Graph.Model

/-!
# Graph — the components

`Tidy` is what holds of Tarjan's bookkeeping between two calls of
`connect`, relative to the nodes whose call has not returned: the
stack is in visit order, every node on it can be walked back to an open
node reached no later, an open node walks to everything above it, and what
was popped is a component. `connect_spec` says what one call does to it.
-/

namespace Shep

namespace Graph

open Relation

/-- `u` waits for `v`. -/
def Edges.Waits (edges : Edges) (u v : String) : Prop := v ∈ edges.deps u

namespace Edges

variable {edges : Edges} {u v : String}

theorem mem_mentioned :
    v ∈ edges.mentioned ↔ ∃ e ∈ edges.toList, v = e.1 ∨ v ∈ e.2 := by
  unfold mentioned
  induction edges.toList with
  | nil => simp
  | cons e rest ih =>
    rw [List.foldr_cons, Finset.mem_insert, Finset.mem_union, ih]
    simp only [List.mem_cons, exists_eq_or_imp, or_assoc]

theorem mem_keys_of_waits (h : edges.Waits u v) : u ∈ edges.keys := by
  rw [Std.ExtTreeMap.mem_keys, Std.ExtTreeMap.mem_iff_isSome_getElem?]
  unfold Waits deps at h
  cases hu : edges[u]? with
  | none => simp [hu] at h
  | some _ => rfl

theorem mem_mentioned_of_mem_keys (h : v ∈ edges.keys) : v ∈ edges.mentioned := by
  rw [Std.ExtTreeMap.mem_keys, Std.ExtTreeMap.mem_iff_isSome_getElem?] at h
  obtain ⟨deps, hdeps⟩ := Option.isSome_iff_exists.1 h
  exact mem_mentioned.2 ⟨(v, deps), Std.ExtTreeMap.mem_toList_iff_getElem?_eq_some.2 hdeps,
    Or.inl rfl⟩

theorem mem_mentioned_of_waits (h : edges.Waits u v) : v ∈ edges.mentioned := by
  unfold Waits deps at h
  cases hu : edges[u]? with
  | none => simp [hu] at h
  | some ds =>
    rw [hu] at h
    exact mem_mentioned.2 ⟨(u, ds), Std.ExtTreeMap.mem_toList_iff_getElem?_eq_some.2 hu, Or.inr h⟩

end Edges

namespace Tarjan

/-- `name` has been reached. -/
def Visited (t : Tarjan) (name : String) : Prop := name ∈ t.index

/-- The number `name` was reached at. -/
def num (t : Tarjan) (name : String) : ℕ := t.index[name]?.getD 0

/-- The nodes of the components closed so far. -/
def closed (t : Tarjan) : Set String := {v | ∃ c ∈ t.components, v ∈ c}

variable {E : String → String → Prop} {opened : Set String} {t s : Tarjan} {x y z : String}

/-- Tarjan's bookkeeping between two calls. -/
structure Tidy (E : String → String → Prop) (opened : Set String) (t : Tarjan) : Prop where
  num_lt : ∀ v, t.Visited v → t.num v < t.next
  onStack : ∀ v, v ∈ t.onStack ↔ v ∈ t.stack
  order : t.stack.Pairwise fun u v => t.num v < t.num u
  stacked : ∀ v ∈ opened, v ∈ t.stack
  visited : ∀ v, t.Visited v ↔ v ∈ t.stack ∨ v ∈ t.closed
  apart : ∀ v ∈ t.stack, v ∉ t.closed
  shut : ∀ v ∈ t.closed, ∀ w, E v w → w ∈ t.closed
  done : ∀ v, t.Visited v → v ∉ opened → ∀ w, E v w → t.Visited w
  up : ∀ y ∈ t.stack, ∃ z ∈ opened, t.num z ≤ t.num y ∧ ReflTransGen E y z
  down : ∀ x ∈ opened, ∀ y ∈ t.stack, t.num x ≤ t.num y → ReflTransGen E x y
  components : ∀ c ∈ t.components, c.Nonempty ∧ IsComponent E (c : Set String)
  disjoint : t.components.Pairwise Disjoint

/-! ## Visiting a node -/

theorem visited_visit : (t.visit x).Visited y ↔ y = x ∨ t.Visited y := by
  unfold Visited visit
  rw [Std.ExtTreeMap.mem_insert, Std.LawfulEqCmp.compare_eq_iff_eq, eq_comm]

theorem num_visit_self : (t.visit x).num x = t.next := by
  simp [num, visit]

theorem num_visit_of_ne (h : y ≠ x) : (t.visit x).num y = t.num y := by
  simp [num, visit, h]

/-- A node just reached is open, on top of the stack. -/
theorem Tidy.visit (h : Tidy E opened t) (hx : ¬ t.Visited x)
    (hreach : ∀ z ∈ opened, ReflTransGen E z x) : Tidy E (insert x opened) (t.visit x) := by
  have hne : ∀ {v}, t.Visited v → v ≠ x := fun hv e => hx (e ▸ hv)
  have hstack : ∀ {v}, v ∈ t.stack → t.Visited v := fun hv => (h.visited _).2 (Or.inl hv)
  have hnum : ∀ {v}, v ∈ t.stack → (t.visit x).num v = t.num v :=
    fun hv => num_visit_of_ne (hne (hstack hv))
  refine ⟨?_, ?_, ?_, ?_, ?_, ?_, h.shut, ?_, ?_, ?_, h.components, h.disjoint⟩
  · intro v hv
    rcases visited_visit.1 hv with rfl | hv
    · rw [num_visit_self]
      exact Nat.lt_succ_self _
    · rw [num_visit_of_ne (hne hv)]
      exact (h.num_lt v hv).trans (Nat.lt_succ_self _)
  · intro v
    simp [Tarjan.visit, h.onStack]
  · refine List.pairwise_cons.2 ⟨fun v hv => ?_, h.order.imp_of_mem fun hu hv hlt => ?_⟩
    · rw [hnum hv, num_visit_self]
      exact h.num_lt v (hstack hv)
    · rw [hnum hu, hnum hv]
      exact hlt
  · rintro v (rfl | hv)
    · exact List.mem_cons_self
    · exact List.mem_cons_of_mem _ (h.stacked v hv)
  · intro v
    rw [visited_visit, h.visited v, ← or_assoc]
    simp [Tarjan.visit, closed]
  · intro v hv hc
    rcases List.mem_cons.1 hv with rfl | hv
    · exact hx ((h.visited v).2 (Or.inr hc))
    · exact h.apart v hv hc
  · intro v hv ho w hw
    have hvx : v ≠ x := fun e => ho (Or.inl e)
    refine visited_visit.2 (Or.inr (h.done v ?_ (fun hv => ho (Or.inr hv)) w hw))
    exact (visited_visit.1 hv).resolve_left hvx
  · intro v hv
    rcases List.mem_cons.1 hv with rfl | hv
    · exact ⟨v, Or.inl rfl, le_rfl, .refl⟩
    · obtain ⟨z, hz, hle, hr⟩ := h.up v hv
      refine ⟨z, Or.inr hz, ?_, hr⟩
      rw [hnum hv, hnum (h.stacked z hz)]
      exact hle
  · rintro z (rfl | hz) v hv hle
    · rcases List.mem_cons.1 hv with rfl | hv
      · exact .refl
      · -- nothing below the top was reached later than it
        rw [num_visit_self, hnum hv] at hle
        exact absurd (h.num_lt v (hstack hv)) (not_lt.2 hle)
    · rcases List.mem_cons.1 hv with rfl | hv
      · exact hreach z hz
      · rw [hnum hv, hnum (h.stacked z hz)] at hle
        exact h.down z hz v hv hle

/-! ## What a call does -/

/-- What `connect` has done to `t` once it returns, having left `new` on
the stack. -/
structure Connects (E : String → String → Prop) (opened : Set String) (t s : Tarjan) (x : String)
    (new : List String) : Prop where
  tidy : Tidy E opened s
  visited : s.Visited x
  kept : ∀ v, t.Visited v → s.Visited v ∧ s.num v = t.num v ∧ s.low[v]? = t.low[v]?
  stack : s.stack = new ++ t.stack
  next_le : t.next ≤ s.next
  low : ∃ l, s.low[x]? = some l ∧ (∀ y ∈ new, ∀ z ∈ t.stack, E y z → l ≤ t.num z) ∧
    (new = [] ∧ t.next ≤ l ∨ ∃ z ∈ t.stack, t.num z = l ∧ ReflTransGen E x z)

/-- Part way through the edges of `x`, those to `seen` followed and `new`
left on the stack above it. -/
structure Scans (E : String → String → Prop) (opened : Set String) (t s : Tarjan) (x : String)
    (seen : Set String) (new : List String) : Prop where
  tidy : Tidy E (insert x opened) s
  visited : s.Visited x
  num : s.num x = t.next
  kept : ∀ v, t.Visited v → s.Visited v ∧ s.num v = t.num v ∧ s.low[v]? = t.low[v]?
  stack : s.stack = new ++ x :: t.stack
  next_lt : t.next < s.next
  low : ∃ l, s.low[x]? = some l ∧ l ≤ t.next ∧
    (∀ y ∈ new, ∀ z ∈ t.stack, E y z → l ≤ t.num z) ∧
    (∀ d ∈ seen, s.Visited d ∧ (d ∈ t.stack → l ≤ t.num d)) ∧
    (l = t.next ∨ ∃ z ∈ t.stack, t.num z = l ∧ ReflTransGen E x z)

theorem Scans.start (h : Tidy E opened t) (hx : ¬ t.Visited x)
    (hreach : ∀ z ∈ opened, ReflTransGen E z x) : Scans E opened t (t.visit x) x ∅ [] where
  tidy := h.visit hx hreach
  visited := visited_visit.2 (Or.inl rfl)
  num := num_visit_self
  kept v hv := by
    have hne : v ≠ x := fun e => hx (e ▸ hv)
    exact ⟨visited_visit.2 (Or.inr hv), num_visit_of_ne hne, by simp [visit, hne]⟩
  stack := rfl
  next_lt := Nat.lt_succ_self _
  low := ⟨t.next, by simp [visit], le_rfl, by simp, by simp, Or.inl rfl⟩

/-! ## Following the edges -/

theorem Tidy.lower (h : Tidy E opened t) (x : String) (r : ℕ) : Tidy E opened (t.lower x r) :=
  ⟨h.num_lt, h.onStack, h.order, h.stacked, h.visited, h.apart, h.shut, h.done, h.up, h.down,
    h.components, h.disjoint⟩

theorem low_lower_self {l : ℕ} (h : t.low[x]? = some l) (r : ℕ) :
    (t.lower x r).low[x]? = some (min l r) := by
  have hget : t.low.getD x r = l := by
    rw [Std.ExtTreeMap.getD_eq_getD_getElem?, h]
    rfl
  simp [Tarjan.lower, hget]

theorem low_lower_of_ne (h : y ≠ x) (r : ℕ) : (t.lower x r).low[y]? = t.low[y]? := by
  simp [Tarjan.lower, h]

namespace Scans

variable {seen : Set String} {new : List String}

theorem mem_below (h : Scans E opened t s x seen new) (hz : z ∈ s.stack) (hlt : s.num z < t.next) :
    z ∈ t.stack := by
  have horder := h.tidy.order
  rw [h.stack] at hz horder
  obtain ⟨-, hbelow, habove⟩ := List.pairwise_append.1 horder
  rcases List.mem_append.1 hz with hz | hz
  · have hgt := habove z hz x List.mem_cons_self
    rw [h.num] at hgt
    omega
  · rcases List.mem_cons.1 hz with rfl | hz
    · rw [h.num] at hlt
      omega
    · exact hz

/-- An edge to a node whose component is still open. -/
theorem toOpen (h : Scans E opened t s x seen new) (hx : ¬ t.Visited x)
    (hold : ∀ v ∈ t.stack, t.Visited v) (he : E x y) (hy : s.Visited y) (hon : y ∈ s.onStack) :
    Scans E opened t (s.lower x (s.num y)) x (insert y seen) new := by
  obtain ⟨l, hl, hle, hnew, hseen, hwhich⟩ := h.low
  have hmem : y ∈ s.stack := (h.tidy.onStack y).1 hon
  have hkept : ∀ {v}, v ∈ t.stack → s.num v = t.num v := fun hv => (h.kept _ (hold _ hv)).2.1
  refine ⟨h.tidy.lower x _, h.visited, h.num, fun v hv => ?_, h.stack, h.next_lt, min l (s.num y),
    low_lower_self hl _, (min_le_left _ _).trans hle, fun u hu z hz hz' => ?_, ?_, ?_⟩
  · obtain ⟨hvis, hnum, hlow⟩ := h.kept v hv
    have hne : v ≠ x := fun e => hx (e ▸ hv)
    exact ⟨hvis, hnum, (low_lower_of_ne hne _).trans hlow⟩
  · exact (min_le_left _ _).trans (hnew u hu z hz hz')
  · rintro d (rfl | hd)
    · exact ⟨hy, fun hin => (min_le_right _ _).trans (hkept hin).le⟩
    · exact ⟨(hseen d hd).1, fun hin => (min_le_left _ _).trans ((hseen d hd).2 hin)⟩
  · by_cases hcmp : l ≤ s.num y
    · rw [min_eq_left hcmp]
      exact hwhich
    · have hbelow := h.mem_below hmem (by omega)
      rw [min_eq_right (by omega)]
      exact Or.inr ⟨y, hbelow, (hkept hbelow).symm, .single he⟩

theorem toClosed (h : Scans E opened t s x seen new) (hy : s.Visited y) (hon : y ∉ s.onStack) :
    Scans E opened t s x (insert y seen) new := by
  obtain ⟨l, hl, hle, hnew, hseen, hwhich⟩ := h.low
  refine ⟨h.tidy, h.visited, h.num, h.kept, h.stack, h.next_lt, l, hl, hle, hnew, ?_, hwhich⟩
  rintro d (rfl | hd)
  · refine ⟨hy, fun hin => absurd ((h.tidy.onStack d).2 ?_) hon⟩
    rw [h.stack]
    exact List.mem_append_right _ (List.mem_cons_of_mem _ hin)
  · exact hseen d hd

/-- An edge to a node not reached before, once its own call has returned. -/
theorem toNew (h : Scans E opened t s x seen new) (hx : ¬ t.Visited x)
    (hold : ∀ v ∈ t.stack, t.Visited v) (he : E x y) (hy : ¬ s.Visited y) {s' : Tarjan}
    {above : List String} (hc : Connects E (insert x opened) s s' y above) :
    ∃ r, s'.low[y]? = some r ∧
      Scans E opened t (s'.lower x r) x (insert y seen) (above ++ new) := by
  obtain ⟨l, hl, hle, hnew, hseen, hwhich⟩ := h.low
  obtain ⟨r, hr, habove, hback⟩ := hc.low
  have hstack : ∀ {v}, v ∈ t.stack → v ∈ s.stack := by
    intro v hv
    rw [h.stack]
    exact List.mem_append_right _ (List.mem_cons_of_mem _ hv)
  have hkept : ∀ {v}, v ∈ t.stack → s.num v = t.num v := fun hv => (h.kept _ (hold _ hv)).2.1
  have hlow : s'.low[x]? = some l := (hc.kept x h.visited).2.2.trans hl
  refine ⟨r, hr, hc.tidy.lower x r, (hc.kept x h.visited).1, ?_, fun v hv => ?_, ?_, ?_, min l r,
    low_lower_self hlow r, (min_le_left _ _).trans hle, fun u hu z hz hz' => ?_, ?_, ?_⟩
  · exact (hc.kept x h.visited).2.1.trans h.num
  · obtain ⟨hvis, hnum, hlv⟩ := h.kept v hv
    obtain ⟨hvis', hnum', hlv'⟩ := hc.kept v hvis
    have hne : v ≠ x := fun e => hx (e ▸ hv)
    exact ⟨hvis', hnum'.trans hnum, (low_lower_of_ne hne _).trans (hlv'.trans hlv)⟩
  · show s'.stack = above ++ new ++ x :: t.stack
    rw [hc.stack, h.stack, List.append_assoc]
  · exact h.next_lt.trans_le hc.next_le
  · rcases List.mem_append.1 hu with hu | hu
    · exact (min_le_right _ _).trans ((habove u hu z (hstack hz) hz').trans (hkept hz).le)
    · exact (min_le_left _ _).trans (hnew u hu z hz hz')
  · rintro d (rfl | hd)
    · exact ⟨hc.visited, fun hin => absurd (h.kept d (hold d hin)).1 hy⟩
    · exact ⟨(hc.kept d (hseen d hd).1).1,
        fun hin => (min_le_left _ _).trans ((hseen d hd).2 hin)⟩
  · by_cases hcmp : l ≤ r
    · rw [min_eq_left hcmp]
      exact hwhich
    · rw [min_eq_right (by omega)]
      rcases hback with ⟨-, hnext⟩ | ⟨z, hz, hzr, hreach⟩
      · -- a component closed by the call says nothing about this one
        have hlt := h.next_lt
        omega
      · have hbelow := h.mem_below hz (by omega)
        exact Or.inr ⟨z, hbelow, (hkept hbelow).symm.trans hzr, .head he hreach⟩

/-! ## Closing a component -/

theorem mem_block (h : Scans E opened t s x seen new) (hy : y ∈ new ∨ y = x) :
    y ∈ s.stack ∧ s.num x ≤ s.num y := by
  have horder := h.tidy.order
  rw [h.stack] at horder ⊢
  rcases hy with hy | rfl
  · exact ⟨List.mem_append_left _ hy,
      ((List.pairwise_append.1 horder).2.2 y hy x List.mem_cons_self).le⟩
  · exact ⟨List.mem_append_right _ List.mem_cons_self, le_rfl⟩

theorem not_below (h : Scans E opened t s x seen new) (ht : Tidy E opened t)
    (hy : y ∈ new ∨ y = x) : y ∉ t.stack := by
  intro hbelow
  have hvis := (ht.visited y).2 (Or.inl hbelow)
  have hle := (h.mem_block hy).2
  rw [h.num, (h.kept y hvis).2.1] at hle
  have hlt := ht.num_lt y hvis
  omega

/-- Once every edge of `x` has been followed, what leaves the block above
it and is not closed goes below it, no lower than `low`. -/
theorem exits (h : Scans E opened t s x seen new) (ht : Tidy E opened t)
    (hall : ∀ d, E x d → d ∈ seen) {l : ℕ} (hl : s.low[x]? = some l) (hy : y ∈ new ∨ y = x)
    (he : E y z) : s.Visited z ∧ (z ∈ t.stack → l ≤ t.num z) := by
  obtain ⟨l', hl', -, hnew, hseen, -⟩ := h.low
  obtain rfl : l = l' := Option.some.inj (hl.symm.trans hl')
  rcases hy with hy | rfl
  · have hnot : y ∉ insert x opened := by
      rintro (rfl | ho)
      · have horder := h.tidy.order
        rw [h.stack] at horder
        exact lt_irrefl _ ((List.pairwise_append.1 horder).2.2 y hy y List.mem_cons_self)
      · exact h.not_below ht (Or.inl hy) (ht.stacked y ho)
    have hvis := (h.tidy.visited y).2 (Or.inl (h.mem_block (Or.inl hy)).1)
    exact ⟨h.tidy.done y hvis hnot z he, fun hz => hnew y hy z hz he⟩
  · exact hseen z (hall z he)

/-- A block that reaches nothing below itself is a component. -/
theorem isComponent (h : Scans E opened t s x seen new) (ht : Tidy E opened t)
    (hall : ∀ d, E x d → d ∈ seen) (hl : s.low[x]? = some t.next) :
    (∀ y, y ∈ new ∨ y = x → ∀ z, E y z → (z ∈ new ∨ z = x) ∨ z ∈ s.closed) ∧
      ∀ w, (w ∈ new ∨ w = x) ↔ Strong E x w := by
  have hleave : ∀ y, y ∈ new ∨ y = x → ∀ z, E y z → (z ∈ new ∨ z = x) ∨ z ∈ s.closed := by
    intro y hy z he
    obtain ⟨hvis, hbelow⟩ := h.exits ht hall hl hy he
    rcases (h.tidy.visited z).1 hvis with hz | hz
    · rw [h.stack] at hz
      rcases List.mem_append.1 hz with hz | hz
      · exact Or.inl (Or.inl hz)
      · rcases List.mem_cons.1 hz with rfl | hz
        · exact Or.inl (Or.inr rfl)
        · have hle := hbelow hz
          have hlt := ht.num_lt z ((ht.visited z).2 (Or.inl hz))
          omega
    · exact Or.inr hz
  refine ⟨hleave, ?_⟩
  have hself : x ∈ {y | y ∈ new ∨ y = x} := Or.inr rfl
  refine isComponent_of_exits (N := {y | y ∈ new ∨ y = x}) (C := s.closed) ?_ ?_ h.tidy.shut hself
    hleave
  · exact h.tidy.apart x (h.mem_block (Or.inr rfl)).1
  · intro y hy
    obtain ⟨hmem, hle⟩ := h.mem_block hy
    refine ⟨h.tidy.down x (Or.inl rfl) y hmem hle, ?_⟩
    -- the open node `y` is walked back to is `x`: the way to another would leave the block
    obtain ⟨z, hz, hzle, hreach⟩ := h.tidy.up y hmem
    have hin : z ∈ {y | y ∈ new ∨ y = x} ∪ s.closed := by
      refine mem_of_closed (C := {y | y ∈ new ∨ y = x} ∪ s.closed) ?_ hreach (Or.inl hy)
      rintro u (hu | hu) w hw
      · exact hleave u hu w hw
      · exact Or.inr (h.tidy.shut u hu w hw)
    rcases hz with rfl | ho
    · exact hreach
    · rcases hin with hin | hin
      · exact absurd (ht.stacked z ho) (h.not_below ht hin)
      · exact absurd hin (h.tidy.apart z (h.tidy.stacked z (Or.inr ho)))

end Scans

theorem popTo_append (hx : x ∉ new) (old : List String) (onStack members : Finset String) :
    (popTo x (new ++ x :: old) onStack members).1 = old ∧
      (∀ v, v ∈ (popTo x (new ++ x :: old) onStack members).2.1 ↔
        v ∈ onStack ∧ ¬ (v ∈ new ∨ v = x)) ∧
      ∀ v, v ∈ (popTo x (new ++ x :: old) onStack members).2.2 ↔
        v ∈ members ∨ v ∈ new ∨ v = x := by
  induction new generalizing onStack members with
  | nil => simp [popTo, and_comm, or_comm]
  | cons y new ih =>
    have hyx : ¬ y = x := fun e => hx (e ▸ List.mem_cons_self)
    obtain ⟨h1, h2, h3⟩ := ih (fun hm => hx (List.mem_cons_of_mem _ hm)) (onStack.erase y)
      (insert y members)
    simp only [List.cons_append, popTo, if_neg hyx]
    refine ⟨h1, fun v => ?_, fun v => ?_⟩
    · rw [h2, Finset.mem_erase, List.mem_cons]
      tauto
    · rw [h3, Finset.mem_insert, List.mem_cons]
      tauto

/-- `x` is the first of its component to have been reached: the block above
it is popped. -/
theorem Scans.pop (h : Scans E opened t s x seen new) (ht : Tidy E opened t)
    (hall : ∀ d, E x d → d ∈ seen) (hl : s.low[x]? = some t.next) {members onStack : Finset String}
    (hmem : ∀ v, v ∈ members ↔ v ∈ new ∨ v = x)
    (hon : ∀ v, v ∈ onStack ↔ v ∈ s.onStack ∧ ¬ (v ∈ new ∨ v = x)) :
    Connects E opened t { s with
      stack := t.stack, onStack := onStack, components := s.components ++ [members] } x [] := by
  obtain ⟨hleave, hcomp⟩ := h.isComponent ht hall hl
  have hsub : ∀ {v}, v ∈ t.stack → v ∈ s.stack := by
    intro v hv
    rw [h.stack]
    exact List.mem_append_right _ (List.mem_cons_of_mem _ hv)
  have hstack : ∀ v, v ∈ s.stack ↔ (v ∈ new ∨ v = x) ∨ v ∈ t.stack := by
    intro v
    rw [h.stack, List.mem_append, List.mem_cons, or_assoc]
  have hclosed : ∀ v, v ∈ Tarjan.closed { s with
      stack := t.stack, onStack := onStack, components := s.components ++ [members] } ↔
        v ∈ s.closed ∨ (v ∈ new ∨ v = x) := by
    intro v
    simp only [closed, Set.mem_ofPred_eq, List.mem_append, List.mem_singleton]
    constructor
    · rintro ⟨c, hc | rfl, hv⟩
      · exact Or.inl ⟨c, hc, hv⟩
      · exact Or.inr ((hmem v).1 hv)
    · rintro (⟨c, hc, hv⟩ | hv)
      · exact ⟨c, Or.inl hc, hv⟩
      · exact ⟨members, Or.inr rfl, (hmem v).2 hv⟩
  have hlt : ∀ {v}, v ∈ t.stack → s.num v < t.next := by
    intro v hv
    have hvis := (ht.visited v).2 (Or.inl hv)
    rw [(h.kept v hvis).2.1]
    exact ht.num_lt v hvis
  have hset : (members : Set String) = {y | y ∈ new ∨ y = x} := Set.ext fun v => hmem v
  refine ⟨⟨h.tidy.num_lt, ?_, ?_, ht.stacked, ?_, ?_, ?_, ?_, ?_, ?_, ?_, ?_⟩, h.visited, h.kept, rfl,
    h.next_lt.le, t.next, hl, by simp, Or.inl ⟨rfl, le_rfl⟩⟩
  · intro v
    rw [hon, h.tidy.onStack, hstack]
    constructor
    · rintro ⟨hv | hv, hnot⟩
      · exact absurd hv hnot
      · exact hv
    · exact fun hv => ⟨Or.inr hv, fun hnew => h.not_below ht hnew hv⟩
  · exact (h.tidy.order.sublist (h.stack ▸ (List.sublist_cons_self x t.stack).trans
      (List.sublist_append_right new _)))
  · intro v
    refine (h.tidy.visited v).trans ?_
    rw [hclosed, hstack]
    tauto
  · intro v hv hc
    rcases (hclosed v).1 hc with hc | hnew
    · exact h.tidy.apart v (hsub hv) hc
    · exact h.not_below ht hnew hv
  · intro v hv w hw
    refine (hclosed w).2 ?_
    rcases (hclosed v).1 hv with hv | hv
    · exact Or.inl (h.tidy.shut v hv w hw)
    · exact (hleave v hv w hw).symm
  · intro v hv ho w hw
    by_cases hvx : v = x
    · subst hvx
      exact (h.exits ht hall hl (Or.inr rfl) hw).1
    · refine h.tidy.done v hv ?_ w hw
      rintro (e | ho')
      · exact hvx e
      · exact ho ho'
  · intro y hy
    obtain ⟨z, hz, hle, hr⟩ := h.tidy.up y (hsub hy)
    refine ⟨z, hz.resolve_left ?_, hle, hr⟩
    rintro rfl
    have hy' := hlt hy
    rw [h.num] at hle
    omega
  · exact fun z hz y hy hle => h.tidy.down z (Or.inr hz) y (hsub hy) hle
  · intro c hc
    rcases List.mem_append.1 hc with hc | hc
    · exact h.tidy.components c hc
    · rw [List.mem_singleton.1 hc]
      exact ⟨⟨x, (hmem x).2 (Or.inr rfl)⟩, x, fun w => (hmem w).trans (hcomp w)⟩
  · refine List.pairwise_append.2 ⟨h.tidy.disjoint, List.pairwise_singleton _ _, ?_⟩
    intro c hc d hd
    rw [List.mem_singleton.1 hd, Finset.disjoint_left]
    intro v hv hnew
    exact h.tidy.apart v (h.mem_block ((hmem v).1 hnew)).1 ⟨c, hc, hv⟩

/-- `x` reaches a node below it: its block stays on the stack. -/
theorem Scans.keep (h : Scans E opened t s x seen new) (ht : Tidy E opened t)
    (hall : ∀ d, E x d → d ∈ seen) (hl : s.low[x]? ≠ some t.next) :
    Connects E opened t s x (new ++ [x]) := by
  obtain ⟨l, hlow, hle, -, -, hwhich⟩ := h.low
  have hne : l ≠ t.next := fun e => hl (e ▸ hlow)
  obtain ⟨z, hz, hzl, hreach⟩ := hwhich.resolve_left hne
  have hsub : ∀ {v}, v ∈ t.stack → v ∈ s.stack := by
    intro v hv
    rw [h.stack]
    exact List.mem_append_right _ (List.mem_cons_of_mem _ hv)
  have hblock : ∀ {v}, v ∈ new ++ [x] → v ∈ new ∨ v = x := by simp
  have hznum : s.num z = l := (h.kept z ((ht.visited z).2 (Or.inl hz))).2.1.trans hzl
  -- from `x` the walk goes on to an open node reached before it
  obtain ⟨r, hr, hrle, hrreach⟩ : ∃ r ∈ opened, s.num r < s.num x ∧ ReflTransGen E x r := by
    obtain ⟨r, hr, hrle, hzr⟩ := h.tidy.up z (hsub hz)
    have hlt : s.num r < s.num x := by
      rw [h.num]
      omega
    refine ⟨r, hr.resolve_left ?_, hlt, hreach.trans hzr⟩
    rintro rfl
    exact lt_irrefl _ hlt
  refine ⟨⟨h.tidy.num_lt, h.tidy.onStack, h.tidy.order, fun v hv => hsub (ht.stacked v hv),
    h.tidy.visited, h.tidy.apart, h.tidy.shut, ?_, ?_, fun z hz => h.tidy.down z (Or.inr hz),
    h.tidy.components, h.tidy.disjoint⟩, h.visited, h.kept, ?_, h.next_lt.le, l, hlow, ?_,
    Or.inr ⟨z, hz, hzl, hreach⟩⟩
  · intro v hv ho w hw
    by_cases hvx : v = x
    · subst hvx
      exact (h.exits ht hall hlow (Or.inr rfl) hw).1
    · refine h.tidy.done v hv ?_ w hw
      rintro (e | ho')
      · exact hvx e
      · exact ho ho'
  · intro y hy
    obtain ⟨u, hu, hule, hur⟩ := h.tidy.up y hy
    rcases hu with rfl | hu
    · exact ⟨r, hr, hrle.le.trans hule, hur.trans hrreach⟩
    · exact ⟨u, hu, hule, hur⟩
  · rw [h.stack, List.append_assoc]
    rfl
  · exact fun y hy w hw he => (h.exits ht hall hlow (hblock hy) he).2 hw

/-- The end of a call. -/
theorem Scans.close (h : Scans E opened t s x seen new) (ht : Tidy E opened t)
    (hall : ∀ d, E x d → d ∈ seen) : ∃ new', Connects E opened t (s.close x) x new' := by
  have hindex : s.index[x]? = some t.next := by
    have hvis : x ∈ s.index := h.visited
    have hnum := h.num
    unfold Tarjan.num at hnum
    rw [Std.ExtTreeMap.mem_iff_isSome_getElem?] at hvis
    obtain ⟨i, hi⟩ := Option.isSome_iff_exists.1 hvis
    rw [hi] at hnum ⊢
    exact congrArg some hnum
  have hnot : x ∉ new := by
    intro hin
    have horder := h.tidy.order
    rw [h.stack] at horder
    exact lt_irrefl _ ((List.pairwise_append.1 horder).2.2 x hin x List.mem_cons_self)
  unfold Tarjan.close
  rw [hindex]
  split
  · next hl =>
    obtain ⟨h1, h2, h3⟩ := popTo_append hnot t.stack s.onStack ∅
    simp only [← h.stack] at h1 h2 h3
    refine ⟨[], ?_⟩
    simp only [h1]
    exact h.pop ht hall hl (fun v => by simpa using h3 v) h2
  · next hl => exact ⟨_, h.keep ht hall hl⟩

/-! ## A whole call -/

/-- The names not reached yet. -/
def unvisited (edges : Edges) (t : Tarjan) : Finset String :=
  edges.mentioned.filter fun v => ¬ v ∈ t.index

/-- A call inside the loop has fewer names left to reach than the call it
is made from. -/
theorem Scans.unvisited_lt {edges : Edges} (h : Scans E opened t s x seen new)
    (hx : ¬ t.Visited x) (hmem : x ∈ edges.mentioned) :
    (s.unvisited edges).card < (t.unvisited edges).card := by
  refine Finset.card_lt_card (Finset.ssubset_iff_of_subset (fun v hv => ?_) |>.2 ⟨x, ?_, ?_⟩)
  · rw [unvisited, Finset.mem_filter] at hv ⊢
    exact ⟨hv.1, fun hvis => hv.2 (h.kept v hvis).1⟩
  · exact Finset.mem_filter.2 ⟨hmem, hx⟩
  · exact fun hin => (Finset.mem_filter.1 hin).2 h.visited

/-- The loop over the edges of `x`, given what the calls it makes do. -/
theorem Scans.follows (call : String → Tarjan → Tarjan) (h : Scans E opened t s x seen new)
    (ht : Tidy E opened t) (hx : ¬ t.Visited x)
    (hcall : ∀ seen new s y, Scans E opened t s x seen new → E x y → ¬ s.Visited y →
      ∃ above, Connects E (insert x opened) s (call y s) y above) (ds : List String)
    (hds : ∀ d ∈ ds, E x d) :
    ∃ new', Scans E opened t (ds.foldl (follow call x) s) x (seen ∪ {d | d ∈ ds}) new' := by
  have hold : ∀ v ∈ t.stack, t.Visited v := fun v hv => (ht.visited v).2 (Or.inl hv)
  induction ds generalizing s seen new with
  | nil => exact ⟨new, by simpa using h⟩
  | cons d ds ih =>
    have he := hds d List.mem_cons_self
    have hrest := fun d' hd' => hds d' (List.mem_cons_of_mem _ hd')
    have hset : seen ∪ {v | v ∈ d :: ds} = insert d seen ∪ {v | v ∈ ds} := by
      ext v
      simp only [Set.mem_union, Set.mem_ofPred_eq, List.mem_cons, Set.mem_insert_iff]
      tauto
    rw [hset, List.foldl_cons]
    -- one edge is followed, whatever it leads to
    obtain ⟨new', hstep⟩ : ∃ new', Scans E opened t (follow call x s d) x (insert d seen) new' := by
      by_cases hvis : s.Visited d
      · have hcont : s.index.contains d = true := Std.ExtTreeMap.contains_iff_mem.2 hvis
        by_cases hon : d ∈ s.onStack
        · obtain ⟨i, hi⟩ := Option.isSome_iff_exists.1
            (Std.ExtTreeMap.mem_iff_isSome_getElem?.1 hvis)
          have hnum : s.num d = i := by simp [Tarjan.num, hi]
          refine ⟨new, ?_⟩
          simp only [follow, hcont, if_true, hon, hi, ← hnum]
          exact h.toOpen hx hold he hvis hon
        · refine ⟨new, ?_⟩
          simp only [follow, hcont, if_true, hon, if_false]
          exact h.toClosed hvis hon
      · have hcont : ¬ s.index.contains d = true :=
          fun hc => hvis (Std.ExtTreeMap.contains_iff_mem.1 hc)
        obtain ⟨above, hc⟩ := hcall seen new s d h he hvis
        obtain ⟨r, hr, hnext⟩ := h.toNew hx hold he hvis hc
        refine ⟨above ++ new, ?_⟩
        simp only [follow, hcont, hr]
        exact hnext
    exact ih hstep hrest

/-- **What a call does.** -/
theorem connect_spec (edges : Edges) (fuel : ℕ) (ht : Tidy edges.Waits opened t)
    (hx : ¬ t.Visited x) (hmem : x ∈ edges.mentioned)
    (hreach : ∀ z ∈ opened, ReflTransGen edges.Waits z x)
    (hfuel : (t.unvisited edges).card ≤ fuel) :
    ∃ new, Connects edges.Waits opened t (connect edges fuel x t) x new := by
  induction fuel generalizing opened t x with
  | zero =>
    have hin : x ∈ t.unvisited edges := Finset.mem_filter.2 ⟨hmem, hx⟩
    rw [Nat.le_zero, Finset.card_eq_zero] at hfuel
    simp [hfuel] at hin
  | succ fuel ih =>
    obtain ⟨new, hscan⟩ := (Scans.start ht hx hreach).follows (connect edges fuel) ht hx
      (fun seen new s y hs he hy => by
        refine ih hs.tidy hy (Edges.mem_mentioned_of_waits he) ?_ ?_
        · rintro z (rfl | hz)
          · exact .single he
          · exact (hreach z hz).tail he
        · have hlt := hs.unvisited_lt hx hmem
          omega)
      (listing (edges.deps x)) (fun d hd => mem_listing.1 hd)
    exact hscan.close ht fun d hd => Or.inr (mem_listing.2 hd)

/-! ## Every call -/

theorem Tidy.empty : Tidy E ∅ {} := by
  constructor <;> simp [Visited, closed]

theorem Tidy.stack_eq_nil (h : Tidy E ∅ t) : t.stack = [] := by
  refine List.eq_nil_iff_forall_not_mem.2 fun y hy => ?_
  obtain ⟨z, hz, -⟩ := h.up y hy
  exact hz

theorem unvisited_card_le (edges : Edges) (t : Tarjan) :
    (t.unvisited edges).card ≤ edges.mentioned.card :=
  Finset.card_le_card (Finset.filter_subset _ _)

/-- The loop over the table. -/
theorem connectAll_tidy (edges : Edges) :
    Tidy edges.Waits ∅ (connectAll edges) ∧ ∀ v ∈ edges.keys, (connectAll edges).Visited v := by
  suffices h : ∀ (names : List String) (t : Tarjan), (∀ v ∈ names, v ∈ edges.mentioned) →
      Tidy edges.Waits ∅ t →
      Tidy edges.Waits ∅ (names.foldl (fun t name =>
        if t.index.contains name then t else connect edges edges.mentioned.card name t) t) ∧
      ∀ v, v ∈ names ∨ t.Visited v → (names.foldl (fun t name =>
        if t.index.contains name then t else connect edges edges.mentioned.card name t) t).Visited v by
    obtain ⟨htidy, hvisited⟩ := h edges.keys {} (fun v => Edges.mem_mentioned_of_mem_keys) .empty
    exact ⟨htidy, fun v hv => hvisited v (Or.inl hv)⟩
  intro names
  induction names with
  | nil => exact fun t _ ht => ⟨ht, fun v hv => hv.resolve_left (List.not_mem_nil)⟩
  | cons name names ih =>
    intro t hnames ht
    have hrest := fun v hv => hnames v (List.mem_cons_of_mem _ hv)
    rw [List.foldl_cons]
    by_cases hvis : t.Visited name
    · have hcont : t.index.contains name = true := Std.ExtTreeMap.contains_iff_mem.2 hvis
      rw [if_pos hcont]
      obtain ⟨htidy, hvisited⟩ := ih t hrest ht
      refine ⟨htidy, fun v hv => hvisited v ?_⟩
      rcases hv with hv | hv
      · rcases List.mem_cons.1 hv with rfl | hv
        · exact Or.inr hvis
        · exact Or.inl hv
      · exact Or.inr hv
    · have hcont : ¬ t.index.contains name = true :=
        fun hc => hvis (Std.ExtTreeMap.contains_iff_mem.1 hc)
      rw [if_neg hcont]
      obtain ⟨new, hc⟩ := connect_spec edges edges.mentioned.card ht hvis
        (hnames name List.mem_cons_self) (by simp) (unvisited_card_le edges t)
      obtain ⟨htidy, hvisited⟩ := ih _ hrest hc.tidy
      refine ⟨htidy, fun v hv => hvisited v ?_⟩
      rcases hv with hv | hv
      · rcases List.mem_cons.1 hv with rfl | hv
        · exact Or.inr hc.visited
        · exact Or.inl hv
      · exact Or.inr (hc.kept v hv).1

/-- **The components are the components**: each is one, no two share a
node, and every node of the table lies in one. -/
theorem connectAll_components (edges : Edges) :
    (∀ c ∈ (connectAll edges).components, c.Nonempty ∧ IsComponent edges.Waits (c : Set String)) ∧
      (connectAll edges).components.Pairwise Disjoint ∧
      ∀ v ∈ edges.keys, ∃ c ∈ (connectAll edges).components, v ∈ c := by
  obtain ⟨ht, hall⟩ := connectAll_tidy edges
  refine ⟨ht.components, ht.disjoint, fun v hv => ?_⟩
  rcases (ht.visited v).1 (hall v hv) with hin | hin
  · rw [ht.stack_eq_nil] at hin
    exact absurd hin List.not_mem_nil
  · exact hin

end Tarjan

end Graph

end Shep
