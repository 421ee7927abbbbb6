import Mathlib.Algebra.Order.Group.Defs
import Mathlib.Algebra.Order.Sub.Basic
import Mathlib.Data.List.TakeWhile

/-!
# Sliding windows

A log of times grows at its end, and a queue keeps the part of it that is not too old: from time to time the front
of the queue is dropped as long as it lies before a cutoff (`prune`). As long as times do not go back, the queue
then holds just the entries of the log that are within the window (`Retains.prune_eq_filter`). If the log is added to
only when the queue is shorter than `n`, an entry and the `n`-th after it are further apart than the width of the
window (`Spaced.snoc`).
-/

namespace PyMotor

variable {T : Type*} [LinearOrder T]

/-- Drop the front as long as it is before the cutoff. -/
def prune (cutoff : T) (queue : List T) : List T := queue.dropWhile fun t => decide (t < cutoff)

theorem prune_eq_filter {queue : List T} (h : queue.Pairwise (· ≤ ·)) (cutoff : T) :
    prune cutoff queue = queue.filter fun t => decide (cutoff ≤ t) := by
  induction queue with
  | nil => rfl
  | cons t queue ih =>
    obtain ⟨hle, hqueue⟩ := List.pairwise_cons.mp h
    by_cases ht : t < cutoff
    · rw [prune, List.dropWhile_cons_of_pos (by simpa using ht), List.filter_cons_of_neg (by simpa using ht)]
      exact ih hqueue
    · rw [prune, List.dropWhile_cons_of_neg (by simpa using ht), eq_comm, List.filter_eq_self]
      intro t' ht'
      rw [not_lt] at ht
      rcases List.mem_cons.mp ht' with rfl | ht'
      · simpa using ht
      · simpa using ht.trans (hle t' ht')

variable [AddCommGroup T] {w now now' : T} {log kept : List T}

/-- From each entry to the `n`-th after it, it takes longer than `w`. -/
def Spaced (n : ℕ) (w : T) (log : List T) : Prop :=
  ∀ i a b, log[i]? = some a → log[i + n]? = some b → w < b - a

theorem spaced_nil (n : ℕ) (w : T) : Spaced n w [] := by
  intro i a b ha
  cases ha

/-- The queue is the end of the log, and what it lacks is too old at a time `now`. -/
structure Retains (w now : T) (log kept : List T) : Prop where
  sorted : log.Pairwise (· ≤ ·)
  split : ∃ old, log = old ++ kept ∧ ∀ t ∈ old, t < now - w

theorem retains_nil (w now : T) : Retains w now [] [] := ⟨.nil, [], rfl, by simp⟩

theorem Retains.snoc {t : T} (h : Retains w now log kept) (ht : ∀ t' ∈ log, t' ≤ t) :
    Retains w now (log ++ [t]) (kept ++ [t]) := by
  obtain ⟨old, rfl, hold⟩ := h.split
  refine ⟨List.pairwise_append.mpr ⟨h.sorted, List.pairwise_singleton _ _, fun t' ht' t₁ ht₁ => ?_⟩, old, ?_, hold⟩
  · rw [List.mem_singleton.mp ht₁]
    exact ht t' ht'
  · rw [List.append_assoc]

variable [IsOrderedAddMonoid T]

theorem Retains.mono (h : Retains w now log kept) (hnow : now ≤ now') : Retains w now' log kept := by
  obtain ⟨old, hlog, hold⟩ := h.split
  exact ⟨h.sorted, old, hlog, fun t ht => (hold t ht).trans_le (sub_le_sub_right hnow w)⟩

theorem Retains.prune (h : Retains w now log kept) (hnow : now ≤ now') :
    Retains w now' log (prune (now' - w) kept) := by
  obtain ⟨old, rfl, hold⟩ := h.split
  refine ⟨h.sorted, old ++ kept.takeWhile fun t => decide (t < now' - w), ?_, fun t ht => ?_⟩
  · rw [PyMotor.prune, List.append_assoc, List.takeWhile_append_dropWhile]
  · rcases List.mem_append.mp ht with ht | ht
    · exact (hold t ht).trans_le (sub_le_sub_right hnow w)
    · simpa using List.mem_takeWhile_imp ht

/-- **What is kept after pruning** are the entries within the window. -/
theorem Retains.prune_eq_filter (h : Retains w now log kept) (hnow : now ≤ now') :
    PyMotor.prune (now' - w) kept = log.filter fun t => decide (now' - w ≤ t) := by
  obtain ⟨old, rfl, hold⟩ := h.split
  have hnone : old.filter (fun t => decide (now' - w ≤ t)) = [] := by
    rw [List.filter_eq_nil_iff]
    intro t ht
    rw [decide_eq_true_eq, not_le]
    exact (hold t ht).trans_le (sub_le_sub_right hnow w)
  rw [PyMotor.prune_eq_filter (List.pairwise_append.mp h.sorted).2.1, List.filter_append, hnone, List.nil_append]

/-- **An entry is added** when fewer than `n` are kept. -/
theorem Spaced.snoc {n : ℕ} {t : T} (h : Spaced n w log) (hkept : Retains w now log kept) (hfew : kept.length < n)
    (ht : now ≤ t) : Spaced n w (log ++ [t]) := by
  intro i a b ha hb
  by_cases hlast : i + n < log.length
  · rw [List.getElem?_append_left hlast] at hb
    rw [List.getElem?_append_left (by omega)] at ha
    exact h i a b ha hb
  obtain ⟨old, rfl, hold⟩ := hkept.split
  have hlen : i + n < (old ++ kept ++ [t]).length := (List.getElem?_eq_some_iff.mp hb).1
  simp only [List.length_append, List.length_singleton] at hlen hlast
  have hi : i < old.length := by omega
  -- the earlier one is among those that are too old
  have hmem : a ∈ old := by
    rw [List.append_assoc, List.getElem?_append_left hi] at ha
    exact List.mem_of_getElem? ha
  have hb : b = t := by
    have hn : i + n = (old ++ kept).length := by
      rw [List.length_append]
      omega
    rw [hn, List.getElem?_concat_length] at hb
    exact (Option.some.inj hb).symm
  rw [hb]
  exact lt_sub_comm.mp ((hold a hmem).trans_le (sub_le_sub_right ht w))

end PyMotor
