import Mathlib.Data.Set.Basic

/-!
# Replicas of a versioned set

A primary holds a set that changes from version to version; `past v` is what it held at version `v`,
and `cur` is its version now. A replica holds a copy, made of answers that are out of date when they
arrive and of patches that come late, twice, or not at all.

`UpTo` says how good the copy is. Each key has a version, and if nothing changed about the key from that
version on, then the replica is right about it. A replica that is up to the current version is the
primary's set.
-/

namespace PyMotor

universe u

/-- A change of a set that treats every key for itself: it leaves the key alone, or it decides about
it whatever was there. -/
structure SetPatch (K : Type u) where
  apply : Set K → Set K
  pointwise : ∀ k, (∀ M, k ∈ apply M ↔ k ∈ M) ∨ ∀ M N, k ∈ apply M ↔ k ∈ apply N

namespace SetPatch

variable {K : Type u}

/-- On the keys of `T` the set becomes what `A` is there. -/
def overwrite (T A : Set K) : SetPatch K where
  apply M := {k | (k ∈ T ∧ k ∈ A) ∨ (k ∉ T ∧ k ∈ M)}
  pointwise k := by
    by_cases hT : k ∈ T
    · exact Or.inr fun M N => by simp [hT]
    · exact Or.inl fun M => by simp [hT]

/-- One change after the other. -/
def andThen (p q : SetPatch K) : SetPatch K where
  apply M := q.apply (p.apply M)
  pointwise k := by
    rcases q.pointwise k with hkeep | hforce
    · rcases p.pointwise k with hkeep' | hforce'
      · exact Or.inl fun M => (hkeep _).trans (hkeep' M)
      · exact Or.inr fun M N => (hkeep _).trans ((hforce' M N).trans (hkeep _).symm)
    · exact Or.inr fun M N => hforce _ _

/-- No change. -/
def nothing : SetPatch K where
  apply M := M
  pointwise _ := Or.inl fun _ => Iff.rfl

/-- All changes of a list, in its order. -/
def sequence : List (SetPatch K) → SetPatch K
  | [] => nothing
  | p :: ps => p.andThen (sequence ps)

theorem mem_overwrite {T A M : Set K} {k : K} :
    k ∈ (overwrite T A).apply M ↔ (k ∈ T ∧ k ∈ A) ∨ (k ∉ T ∧ k ∈ M) := Iff.rfl

@[simp] theorem sequence_nil (M : Set K) : (sequence ([] : List (SetPatch K))).apply M = M := rfl

@[simp] theorem sequence_cons (p : SetPatch K) (ps : List (SetPatch K)) (M : Set K) :
    (sequence (p :: ps)).apply M = (sequence ps).apply (p.apply M) := rfl

end SetPatch

variable {K : Type u}

/-- From version `b` on, the primary's answer about the key was the one it gives now. -/
def Steady (past : ℕ → Set K) (b cur : ℕ) (k : K) : Prop :=
  ∀ v, b ≤ v → v ≤ cur → (k ∈ past v ↔ k ∈ past cur)

/-- The replica is right about every key that is steady from its version on. -/
def UpTo (past : ℕ → Set K) (cur : ℕ) (asOf : K → ℕ) (C : Set K) : Prop :=
  ∀ k, Steady past (asOf k) cur k → (k ∈ C ↔ k ∈ past cur)

namespace UpTo

variable {past : ℕ → Set K} {cur : ℕ} {asOf : K → ℕ} {C : Set K}

theorem mono {asOf' : K → ℕ} (h : UpTo past cur asOf C) (hle : ∀ k, asOf' k ≤ asOf k) :
    UpTo past cur asOf' C := by
  intro k hsteady
  apply h k
  intro v hv hcur
  exact hsteady v ((hle k).trans hv) hcur

/-- About some keys the replica takes over what the primary answered at some version; about the
others nothing changes. -/
theorem answer {asOf' : K → ℕ} {C' : Set K} (h : UpTo past cur asOf C)
    (hnew : ∀ k, (asOf' k = asOf k ∧ (k ∈ C' ↔ k ∈ C)) ∨
      (asOf' k ≤ cur ∧ (k ∈ C' ↔ k ∈ past (asOf' k)))) : UpTo past cur asOf' C' := by
  intro k hsteady
  rcases hnew k with ⟨hsame, hC⟩ | ⟨hle, hC⟩
  · rw [hsame] at hsteady
    exact hC.trans (h k hsteady)
  · exact hC.trans (hsteady _ le_rfl hle)

/-- The replica applies the patch that led from version `v` to the next one, perhaps a second time. -/
theorem patch {v : ℕ} {p : SetPatch K} (h : UpTo past cur asOf C) (hcovers : ∀ k, v ≤ asOf k)
    (hcur : v + 1 ≤ cur) (hp : past (v + 1) = p.apply (past v)) :
    UpTo past cur (fun _ => v + 1) (p.apply C) := by
  intro k hsteady
  have hnext : k ∈ past (v + 1) ↔ k ∈ past cur := hsteady (v + 1) le_rfl hcur
  rw [hp] at hnext
  rcases p.pointwise k with hkeep | hforce
  · -- the key is steady from `v` on, since the patch does not touch it
    rw [hkeep]
    apply h.mono hcovers
    intro u hu hucur
    rcases hu.eq_or_lt with heq | hlt
    · rw [← heq, ← hkeep (past v)]
      exact hnext
    · exact hsteady u hlt hucur
  · exact (hforce C (past v)).trans hnext

theorem advance (h : UpTo past cur asOf C) (hle : ∀ k, asOf k ≤ cur) (M : Set K) :
    UpTo (Function.update past (cur + 1) M) (cur + 1) asOf C := by
  intro k hsteady
  have hold : ∀ v, v ≤ cur → Function.update past (cur + 1) M v = past v := by
    intro v hv
    exact Function.update_of_ne (by omega) _ _
  have hcur : k ∈ past cur ↔ k ∈ Function.update past (cur + 1) M (cur + 1) := by
    rw [← hold cur le_rfl]
    exact hsteady cur (hle k) (by omega)
  rw [← hcur]
  apply h k
  intro v hv hvcur
  rw [hcur, ← hold v hvcur]
  exact hsteady v hv (by omega)

/-- **A replica that is up to the current version** is the primary's set. -/
theorem eq_of_current (h : UpTo past cur asOf C) (hcur : ∀ k, cur ≤ asOf k) : C = past cur := by
  ext k
  apply h k
  intro v hv hvcur
  rw [Nat.le_antisymm hvcur ((hcur k).trans hv)]

end UpTo

end PyMotor
