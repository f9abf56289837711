import Mathlib.Data.Finset.Sort
import Mathlib.Data.List.Sort

/-!
# Listings

A finite set read in order. `listing` sorts by insertion, so that it
computes by structural recursion; `listing_eq_sort` makes it Mathlib's
`Finset.sort`.
-/

namespace Shep

variable {α : Type*} [LinearOrder α]

/-- The elements of a set, in order. -/
def listing (s : Finset α) : List α :=
  Quotient.liftOn s.1 (fun l => l.insertionSort (· ≤ ·)) fun l l' h =>
    ((l.perm_insertionSort (· ≤ ·)).trans (h.trans (l'.perm_insertionSort (· ≤ ·)).symm)).eq_of_pairwise'
      (l.pairwise_insertionSort (· ≤ ·)) (l'.pairwise_insertionSort (· ≤ ·))

theorem coe_listing (s : Finset α) : (listing s : Multiset α) = s.1 := by
  obtain ⟨m, hm⟩ := s
  induction m using Quotient.inductionOn with
  | h l => exact Quotient.sound (l.perm_insertionSort (· ≤ ·))

theorem pairwise_listing_le (s : Finset α) : (listing s).Pairwise (· ≤ ·) := by
  obtain ⟨m, hm⟩ := s
  induction m using Quotient.inductionOn with
  | h l => exact l.pairwise_insertionSort (· ≤ ·)

theorem listing_eq_sort (s : Finset α) : listing s = s.sort := by
  refine List.Perm.eq_of_pairwise' (pairwise_listing_le s) (s.pairwise_sort _) ?_
  rw [← Multiset.coe_eq_coe, coe_listing, s.sort_eq]

@[simp] theorem mem_listing {s : Finset α} {a : α} : a ∈ listing s ↔ a ∈ s := by
  rw [listing_eq_sort, Finset.mem_sort]

theorem nodup_listing (s : Finset α) : (listing s).Nodup := by
  rw [listing_eq_sort]
  exact s.sort_nodup _

/-- A listing is strictly increasing. -/
theorem pairwise_listing (s : Finset α) : (listing s).Pairwise (· < ·) :=
  (pairwise_listing_le s).imp₂ (fun _ _ hle hne => lt_of_le_of_ne hle hne) (nodup_listing s)

@[simp] theorem toFinset_listing (s : Finset α) : (listing s).toFinset = s := by
  ext a
  simp

@[simp] theorem length_listing (s : Finset α) : (listing s).length = s.card := by
  rw [listing_eq_sort, Finset.length_sort]

theorem listing_injective : Function.Injective (listing : Finset α → List α) := by
  intro s t h
  rw [← toFinset_listing s, h, toFinset_listing]

@[simp] theorem listing_eq_nil {s : Finset α} : listing s = [] ↔ s = ∅ := by
  rw [← List.length_eq_zero_iff, length_listing, Finset.card_eq_zero]

/-- The first element listed is one of the set's. -/
theorem mem_of_head?_listing {s : Finset α} {a : α} (h : (listing s).head? = some a) : a ∈ s := by
  rw [← mem_listing]
  exact List.mem_of_mem_head? h

end Shep
