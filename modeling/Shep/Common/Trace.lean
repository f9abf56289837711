import Mathlib.Data.List.Induction

/-!
# Machines that emit, and what stood before an entry

`feed` runs a machine that takes its inputs one at a time and emits some
entries at each; a nested loop is a machine fed by a machine. `feed_rule`
is the induction its results go by, with what has been emitted so far at
hand, and `feed_filter` compares two runs of which one is given fewer
inputs. `Traced P` asks `P` of every entry of a log and of the log before
it, and `latest` is the last entry of a kind.
-/

namespace Shep

variable {σ τ α β γ : Type*}

/-! ## Machines that emit -/

/-- The state after all inputs, and everything emitted, in order. -/
def feed (f : σ → α → σ × List γ) (s : σ) : List α → σ × List γ
  | [] => (s, [])
  | a :: as =>
    let (t, out) := f s a
    let (u, rest) := feed f t as
    (u, out ++ rest)

section Feed

variable {f : σ → α → σ × List γ} {s : σ} {as bs : List α}

@[simp] theorem feed_nil : feed f s [] = (s, []) := rfl

theorem feed_cons {a : α} :
    feed f s (a :: as) = ((feed f (f s a).1 as).1, (f s a).2 ++ (feed f (f s a).1 as).2) := rfl

/-- **The rule for a machine that emits.** What every input preserves, of
the log and the state, is preserved by all of them in a row. -/
theorem feed_rule {I : List γ → σ → Prop} {log : List γ}
    (hstep : ∀ log s, ∀ a ∈ as, I log s → I (log ++ (f s a).2) (f s a).1) (h : I log s) :
    I (log ++ (feed f s as).2) (feed f s as).1 := by
  induction as generalizing s log with
  | nil => simpa using h
  | cons a as ih =>
    have hone := hstep log s a List.mem_cons_self h
    have hrest := ih (fun log s b hb => hstep log s b (List.mem_cons_of_mem _ hb)) hone
    simpa [feed_cons] using hrest

/-- A machine and one that only emits less of it reach the same state. -/
theorem feed_flatMap {δ : Type*} (f : σ → α → σ × List γ) (g : σ → α → σ × List δ)
    (image : γ → List δ) (as : List α) {s : σ}
    (hstep : ∀ s, ∀ a ∈ as, (f s a).1 = (g s a).1 ∧ (f s a).2.flatMap image = (g s a).2) :
    (feed f s as).1 = (feed g s as).1 ∧ (feed f s as).2.flatMap image = (feed g s as).2 := by
  induction as generalizing s with
  | nil => exact ⟨rfl, rfl⟩
  | cons a as ih =>
    obtain ⟨hstate, hout⟩ := hstep s a List.mem_cons_self
    have hrest := ih (s := (g s a).1) fun s b hb => hstep s b (List.mem_cons_of_mem _ hb)
    rw [feed_cons, feed_cons, hstate, List.flatMap_append, hout]
    exact ⟨hrest.1, by rw [hrest.2]⟩

/-- **Two runs, one on fewer inputs.** If every input keeps the two states
related, and what is kept of its output is the output of the input that
replaces it, or nothing if it is left out, then what is kept of the whole
output is the output of the other run. -/
theorem feed_filter (f : σ → α → σ × List γ) (g : τ → β → τ × List γ) (keep : γ → Bool)
    (image : α → Option β) (as : List α) {R : σ → τ → Prop} {s : σ} {t : τ}
    (hstep : ∀ s t, ∀ a ∈ as, R s t →
      match image a with
      | some b => R (f s a).1 (g t b).1 ∧ (f s a).2.filter keep = (g t b).2
      | none => R (f s a).1 t ∧ (f s a).2.filter keep = [])
    (h : R s t) :
    R (feed f s as).1 (feed g t (as.filterMap image)).1 ∧
      (feed f s as).2.filter keep = (feed g t (as.filterMap image)).2 := by
  induction as generalizing s t with
  | nil => exact ⟨h, rfl⟩
  | cons a as ih =>
    have hone := hstep s t a List.mem_cons_self h
    have hrest := fun s t h => ih (s := s) (t := t)
      (fun s t b hb => hstep s t b (List.mem_cons_of_mem _ hb)) h
    cases hi : image a with
    | none =>
      simp only [hi] at hone
      obtain ⟨hR, hout⟩ := hrest _ _ hone.1
      rw [List.filterMap_cons_none hi]
      refine ⟨hR, ?_⟩
      rw [feed_cons, List.filter_append, hone.2, hout, List.nil_append]
    | some b =>
      simp only [hi] at hone
      obtain ⟨hR, hout⟩ := hrest _ _ hone.1
      rw [List.filterMap_cons_some hi]
      refine ⟨hR, ?_⟩
      rw [feed_cons, feed_cons, List.filter_append, hone.2, hout]

/-- Two runs on the same inputs. -/
theorem feed_filter_same (f : σ → α → σ × List γ) (g : τ → α → τ × List γ) (keep : γ → Bool)
    (as : List α) {R : σ → τ → Prop} {s : σ} {t : τ}
    (hstep : ∀ s t, ∀ a ∈ as, R s t →
      R (f s a).1 (g t a).1 ∧ (f s a).2.filter keep = (g t a).2) (h : R s t) :
    R (feed f s as).1 (feed g t as).1 ∧ (feed f s as).2.filter keep = (feed g t as).2 := by
  have hrun := feed_filter f g keep some as hstep h
  rwa [List.filterMap_some] at hrun

/-- A run the other has no part in. -/
theorem feed_filter_none (f : σ → α → σ × List γ) (keep : γ → Bool) (as : List α)
    {R : σ → τ → Prop} {s : σ} {t : τ}
    (hstep : ∀ s t, ∀ a ∈ as, R s t → R (f s a).1 t ∧ (f s a).2.filter keep = []) (h : R s t) :
    R (feed f s as).1 t ∧ (feed f s as).2.filter keep = [] := by
  have hrun := feed_filter f (fun t (_ : α) => (t, [])) keep (fun _ => none) as hstep h
  rwa [List.filterMap_eq_nil_iff.2 fun _ _ => rfl] at hrun

end Feed

/-! ## Logs -/

/-- Every entry of the log meets `P` with the log before it. -/
def Traced (P : List γ → γ → Prop) (log : List γ) : Prop :=
  ∀ before x after, log = before ++ x :: after → P before x

section Traced

variable {P Q : List γ → γ → Prop} {log : List γ} {x : γ}

theorem traced_nil : Traced P ([] : List γ) := by
  intro before x after h
  simp at h

/-- A log with one more entry. -/
theorem traced_concat : Traced P (log ++ [x]) ↔ Traced P log ∧ P log x := by
  constructor
  · intro h
    refine ⟨fun before y after hlog => h before y (after ++ [x]) ?_, h log x [] rfl⟩
    simp [hlog]
  · rintro ⟨h, hx⟩ before y after hlog
    rcases List.eq_nil_or_concat after with rfl | ⟨rest, z, rfl⟩
    · obtain ⟨rfl, hy⟩ := List.append_inj' hlog rfl
      exact (List.cons.inj hy).1 ▸ hx
    · rw [List.concat_eq_append, ← List.cons_append, ← List.append_assoc] at hlog
      exact h before y rest (List.append_inj' hlog rfl).1

theorem Traced.imp (h : Traced P log) (hPQ : ∀ before x, P before x → Q before x) :
    Traced Q log := fun before x after hlog => hPQ before x (h before x after hlog)

/-- Entry by entry. -/
theorem traced_iff : Traced P log ↔ ∀ i : Fin log.length, P (log.take i) (log.get i) := by
  constructor
  · intro h i
    refine h _ _ (log.drop (i + 1)) ?_
    rw [List.get_eq_getElem, ← List.drop_eq_getElem_cons i.isLt, List.take_append_drop]
  · rintro h before x after rfl
    have hlen : before.length < (before ++ x :: after).length := by simp
    simpa using h ⟨before.length, hlen⟩

instance [∀ before x, Decidable (P before x)] : Decidable (Traced P log) :=
  decidable_of_iff _ traced_iff.symm

/-- Of the log before an entry as well. -/
theorem Traced.before {before after : List γ} (h : Traced P log)
    (hlog : log = before ++ x :: after) : Traced P before := by
  intro b y a hb
  exact h b y (a ++ x :: after) (by simp [hlog, hb])

end Traced

/-! ## The last entry of a kind -/

/-- The last entry of a kind. -/
def latest (kind : γ → Bool) (log : List γ) : Option γ := (log.filter kind).getLast?

section Latest

variable {kind : γ → Bool} {log : List γ} {x : γ}

@[simp] theorem latest_nil : latest kind [] = none := rfl

@[simp] theorem latest_concat :
    latest kind (log ++ [x]) = if kind x then some x else latest kind log := by
  cases h : kind x <;> simp [latest, h]

/-- The last entry of a kind, with nothing of the kind after it. -/
theorem latest_eq_some : latest kind log = some x ↔ ∃ before after, log = before ++ x :: after ∧
    kind x ∧ ∀ y ∈ after, ¬ kind y := by
  induction log using List.reverseRecOn with
  | nil => simp
  | append_singleton log z ih =>
    rw [latest_concat]
    split
    · next hz =>
      constructor
      · intro h
        obtain rfl := Option.some.inj h
        exact ⟨log, [], rfl, hz, by simp⟩
      · rintro ⟨before, after, hlog, -, hnone⟩
        rcases List.eq_nil_or_concat after with rfl | ⟨rest, w, rfl⟩
        · rw [(List.cons.inj (List.append_inj' hlog rfl).2).1]
        · rw [List.concat_eq_append, ← List.cons_append, ← List.append_assoc] at hlog
          have hw := (List.cons.inj (List.append_inj' hlog rfl).2).1
          exact absurd (hw ▸ hz) (hnone w (by simp))
    · next hz =>
      rw [ih]
      constructor
      · rintro ⟨before, after, rfl, hx, hnone⟩
        refine ⟨before, after ++ [z], by simp, hx, fun y hy => ?_⟩
        rcases List.mem_append.1 hy with hy | hy
        · exact hnone y hy
        · rw [List.mem_singleton.1 hy]
          exact hz
      · rintro ⟨before, after, hlog, hx, hnone⟩
        rcases List.eq_nil_or_concat after with rfl | ⟨rest, w, rfl⟩
        · exact absurd ((List.cons.inj (List.append_inj' hlog rfl).2).1 ▸ hx) hz
        · rw [List.concat_eq_append, ← List.cons_append, ← List.append_assoc] at hlog
          exact ⟨before, rest, (List.append_inj' hlog rfl).1, hx,
            fun y hy => hnone y (by simp [hy])⟩

/-- Of a log read through a function. -/
theorem latest_map {δ : Type*} (f : δ → γ) (log : List δ) :
    latest kind (log.map f) = (latest (fun d => kind (f d)) log).map f := by
  induction log using List.reverseRecOn with
  | nil => rfl
  | append_singleton log d ih =>
    rw [List.map_append, List.map_singleton, latest_concat, latest_concat, ih]
    split <;> rfl

theorem latest_eq_none : latest kind log = none ↔ ∀ y ∈ log, ¬ kind y := by
  simp [latest]

end Latest

end Shep
