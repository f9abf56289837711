import Mathlib.Algebra.Order.Ring.Nat
import Mathlib.Data.List.Basic

/-!
# Lines

A text as its lines: what stands before each separator, and what stands
behind the last one where that is not empty. `linesFrom` is the lines that
begin at a position or after it, and `linesFrom_cut` how to find them: what
stands before the first separator there belongs to a line that began
before.
-/

namespace Shep

section Placed

variable {α : Type*}

/-- Lines, each with the position it begins at, the first at `n`. -/
def placed (n : ℕ) : List (List α) → List (ℕ × List α)
  | [] => []
  | line :: rest => (n, line) :: placed (n + line.length + 1) rest

theorem placed_lines_append (n : ℕ) (xs ys : List (List α)) :
    placed n (xs ++ ys) = placed n xs ++ placed (n + (xs.map fun line => line.length + 1).sum) ys := by
  induction xs generalizing n with
  | nil => simp [placed]
  | cons line xs ih =>
    simp only [List.cons_append, placed, ih, List.map_cons, List.sum_cons]
    rw [show n + line.length + 1 = n + (line.length + 1) by omega, Nat.add_assoc]

theorem map_snd_placed (n : ℕ) (xs : List (List α)) : (placed n xs).map Prod.snd = xs := by
  induction xs generalizing n with
  | nil => rfl
  | cons line xs ih => rw [placed, List.map_cons, ih]

theorem le_of_mem_placed {n : ℕ} {xs : List (List α)} {e : ℕ × List α} (h : e ∈ placed n xs) :
    n ≤ e.1 := by
  induction xs generalizing n with
  | nil => cases h
  | cons line xs ih =>
    rcases List.mem_cons.1 h with rfl | h
    · exact Nat.le_refl _
    · have := ih h
      omega

end Placed

variable {α : Type*} [DecidableEq α] (sep : α)

/-- The lines of a text. -/
def lines (text : List α) : List (List α) :=
  if (text.splitOn sep).getLast? = some [] then (text.splitOn sep).dropLast else text.splitOn sep

/-- The lines that begin at `start` or after it. -/
def linesFrom (start : ℕ) (text : List α) : List (List α) :=
  ((placed 0 (lines sep text)).filter fun line => start ≤ line.1).map Prod.snd

variable {sep}

/-- What stands before the first of a kind, and what behind. -/
theorem exists_of_idxOf? {text : List α} {a : α} {n : ℕ} (h : text.idxOf? a = some n) :
    ∃ before after, text = before ++ a :: after ∧ a ∉ before ∧ before.length = n := by
  obtain ⟨hlt, hat, hbefore⟩ := List.idxOf?_eq_some_iff.1 h
  refine ⟨text.take n, text.drop (n + 1), ?_, ?_, ?_⟩
  · rw [← hat, List.getElem_cons_drop, List.take_append_drop]
  · intro hin
    obtain ⟨i, hi, ha⟩ := List.mem_iff_getElem.1 hin
    rw [List.getElem_take] at ha
    rw [List.length_take] at hi
    exact hbefore i (by omega) ha
  · rw [List.length_take]
    omega

@[simp] theorem lines_nil : lines sep [] = [] := by simp [lines]

/-- A separator ends a line. -/
theorem lines_append (xs ys : List α) :
    lines sep (xs ++ sep :: ys) = xs.splitOn sep ++ lines sep ys := by
  have hne : ys.splitOn sep ≠ [] := List.splitOn_ne_nil sep ys
  simp only [lines, List.splitOn_append_cons_self, List.getLast?_append_of_ne_nil _ hne,
    List.dropLast_append_of_ne_nil hne]
  split <;> rfl

/-- A text without a separator is one line, or none. -/
theorem lines_eq {text : List α} (h : sep ∉ text) :
    lines sep text = if text = [] then [] else [text] := by
  rw [lines, List.splitOn_eq_singleton h]
  by_cases hnil : text = [] <;> simp [hnil]

theorem lines_ne_nil {text : List α} (h : text ≠ []) : lines sep text ≠ [] := by
  by_cases hin : sep ∈ text
  · obtain ⟨xs, ys, rfl, -⟩ := List.eq_append_cons_of_mem hin
    rw [lines_append]
    exact List.append_ne_nil_of_left_ne_nil (List.splitOn_ne_nil sep xs) _
  · rw [lines_eq hin, if_neg h]
    exact List.cons_ne_nil _ _

/-- Separators and all, the parts are as long as the text and one more. -/
theorem length_splitOn (text : List α) :
    ((text.splitOn sep).map fun line => line.length + 1).sum = text.length + 1 := by
  induction text with
  | nil => simp
  | cons a text ih =>
    rw [List.splitOn_cons_eq_if_modifyHead]
    split
    · simp only [List.map_cons, List.sum_cons, ih, List.length_nil, List.length_cons]
      omega
    · obtain ⟨line, rest, hsplit⟩ := List.exists_cons_of_ne_nil (List.splitOn_ne_nil sep text)
      rw [hsplit] at ih ⊢
      simp only [List.modifyHead_cons, List.map_cons, List.sum_cons, List.length_cons] at ih ⊢
      omega

/-- No part begins behind the last separator before `b`. -/
theorem placed_splitOn_le {n : ℕ} {a b : List α} (hb : sep ∉ b) {e : ℕ × List α}
    (h : e ∈ placed n ((a ++ b).splitOn sep)) : e.1 ≤ n + a.length := by
  induction a generalizing n e with
  | nil =>
    rw [List.nil_append, List.splitOn_eq_singleton hb] at h
    simp only [placed, List.mem_singleton] at h
    simp [h]
  | cons x a ih =>
    rw [List.cons_append, List.splitOn_cons_eq_if_modifyHead] at h
    split at h
    · rcases List.mem_cons.1 h with rfl | h
      · exact Nat.le_add_right _ _
      · have := ih h
        simp only [List.length_nil, List.length_cons] at this ⊢
        omega
    · obtain ⟨line, rest, hsplit⟩ := List.exists_cons_of_ne_nil (List.splitOn_ne_nil sep (a ++ b))
      rw [hsplit, List.modifyHead_cons] at h
      rcases List.mem_cons.1 h with rfl | h
      · exact Nat.le_add_right _ _
      · have hin : e ∈ placed (n + 1) ((a ++ b).splitOn sep) := by
          rw [hsplit, placed]
          refine List.mem_cons_of_mem _ ?_
          rwa [List.length_cons, show n + (line.length + 1) + 1 = n + 1 + line.length + 1 by omega] at h
        have := ih hin
        rw [List.length_cons]
        omega

theorem linesFrom_zero (text : List α) : linesFrom sep 0 text = lines sep text := by
  rw [linesFrom, List.filter_eq_self.2 (by simp), map_snd_placed]

/-- The first line begins at the very start, and is not one of those behind. -/
theorem length_linesFrom_lt {start : ℕ} {text : List α} (hstart : 0 < start) (h : text ≠ []) :
    (linesFrom sep start text).length < (lines sep text).length := by
  have hne : lines sep text ≠ [] := lines_ne_nil h
  obtain ⟨line, rest, hlines⟩ := List.exists_cons_of_ne_nil hne
  have hrest : (placed (0 + line.length + 1) rest).length = rest.length := by
    rw [← List.length_map Prod.snd, map_snd_placed]
  rw [linesFrom, hlines, placed, List.filter_cons_of_neg (by simp; omega), List.length_map,
    List.length_cons]
  have := List.length_filter_le (fun line => decide (start ≤ line.1)) (placed (0 + line.length + 1) rest)
  omega

/-- Behind the first separator from a position on, every line begins there or
after it. -/
theorem linesFrom_cut {pre cut : List α} (hcut : sep ∉ cut) (rest : List α) :
    linesFrom sep (pre.length + 1) (pre ++ cut ++ sep :: rest) = lines sep rest := by
  rw [linesFrom, lines_append, placed_lines_append, List.filter_append, List.map_append]
  have hbefore : ((placed 0 ((pre ++ cut).splitOn sep)).filter fun line =>
      pre.length + 1 ≤ line.1) = [] := by
    rw [List.filter_eq_nil_iff]
    intro e he
    have := placed_splitOn_le hcut he
    simp only [decide_eq_true_eq]
    omega
  rw [hbefore, List.filter_eq_self.2, map_snd_placed]
  · rfl
  · intro e he
    have hle := le_of_mem_placed he
    rw [length_splitOn, List.length_append] at hle
    simp only [decide_eq_true_eq]
    omega

/-- Without one, no line does. -/
theorem linesFrom_none {pre cut : List α} (hcut : sep ∉ cut) :
    linesFrom sep (pre.length + 1) (pre ++ cut) = [] := by
  rw [linesFrom, List.map_eq_nil_iff, List.filter_eq_nil_iff]
  intro e he
  have hin : e ∈ placed 0 ((pre ++ cut).splitOn sep) := by
    rw [lines] at he
    split at he
    · rw [← List.dropLast_append_getLast (List.splitOn_ne_nil sep (pre ++ cut)), placed_lines_append]
      exact List.mem_append_left _ he
    · exact he
  have := placed_splitOn_le hcut hin
  simp only [decide_eq_true_eq]
  omega

end Shep
