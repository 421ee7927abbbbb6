import PyMotor.Coordinator.InstanceManager

/-!
# The pools agree

What the manager is meant to keep is a roster: for every id at most one place, with the instance that
is there. `Represents` says that the pools, the pools of the roles and the index of endpoints are
views of one roster, and then they are consistent with each other.

Every operation changes the roster at one id, and every pool accordingly, with one exception. An
`ADD` looks for the id among the unavailable instances and in the pool of the role it announces, but
neither among the paused ones nor in the pools of the other roles: it lists a paused instance twice,
and leaves the old entry of an instance whose role changed. `AddsFresh` excludes this.
-/

namespace PyMotor.Coordinator

inductive Place where
  | available
  | unavailable
  | paused
  deriving DecidableEq, Repr

abbrev Roster := InstanceId → Option (Place × Instance)

def inPlace (p : Place) (v : Place × Instance) : Option Instance :=
  if v.1 = p then some v.2 else none

def filedUnder (role : PDRole) (v : Place × Instance) : Option Instance :=
  if v.1 = .available ∧ PDRole.ofString v.2.role = some role then some v.2 else none

namespace InstanceManager

variable {m m' : InstanceManager} {w w' : Roster} {inst : Instance} {id : InstanceId}

/-- An instance is kept under its own id, and only one with a known role becomes available. -/
structure Fits (id : InstanceId) (v : Place × Instance) : Prop where
  keyed : v.2.id = id
  known : v.1 = .available → ∃ role, PDRole.ofString v.2.role = some role

/-- The pools and indexes are views of one roster. -/
structure Represents (m : InstanceManager) (w : Roster) : Prop where
  available : m.availablePool.Views w (inPlace .available)
  unavailable : m.unavailablePool.Views w (inPlace .unavailable)
  paused : m.pausedPool.Views w (inPlace .paused)
  filed : ∀ role, (m.rolePools role).Views w (filedUnder role)
  cached : m.endpointIdCache.Views w fun v => (inPlace .available v).map Instance.endpointCache
  fits : ∀ id v, w id = some v → Fits id v

theorem represents_new : Represents new fun _ => none where
  available := Dict.views_empty _
  unavailable := Dict.views_empty _
  paused := Dict.views_empty _
  filed _ := Dict.views_empty _
  cached := Dict.views_empty _
  fits _ _ h := by cases h

/-! ## Consistency -/

/-- **The pools stay consistent**: pairwise disjoint, the available one split into the pools of the
roles, every instance under its own role, and the endpoints indexed for exactly the available ids. -/
structure Consistent (m : InstanceManager) : Prop where
  available_unavailable : ∀ id, ¬ (m.availablePool.contains id = true ∧
    m.unavailablePool.contains id = true)
  available_paused : ∀ id, ¬ (m.availablePool.contains id = true ∧ m.pausedPool.contains id = true)
  unavailable_paused : ∀ id, ¬ (m.unavailablePool.contains id = true ∧
    m.pausedPool.contains id = true)
  filed : ∀ role id inst, (m.rolePools role).get? id = some inst →
    m.availablePool.get? id = some inst ∧ PDRole.ofString inst.role = some role
  covered : ∀ id inst, m.availablePool.get? id = some inst →
    ∃ role, (m.rolePools role).get? id = some inst
  disjoint : ∀ role role' id, (m.rolePools role).contains id = true →
    (m.rolePools role').contains id = true → role = role'
  cached : ∀ id, m.endpointIdCache.contains id = m.availablePool.contains id

theorem bind_inPlace_eq_some {p : Place} {x : Option (Place × Instance)} :
    x.bind (inPlace p) = some inst ↔ x = some (p, inst) := by
  cases x with
  | none => simp
  | some v =>
    obtain ⟨p', inst'⟩ := v
    simp [inPlace]

theorem bind_filedUnder_eq_some {role : PDRole} {x : Option (Place × Instance)} :
    x.bind (filedUnder role) = some inst ↔
      x = some (.available, inst) ∧ PDRole.ofString inst.role = some role := by
  cases x with
  | none => simp
  | some v =>
    obtain ⟨p', inst'⟩ := v
    simp only [Option.bind_some, filedUnder, Option.ite_none_right_eq_some, Option.some.injEq,
      Prod.mk.injEq]
    constructor
    · rintro ⟨⟨hp, hrole⟩, rfl⟩
      exact ⟨⟨hp, rfl⟩, hrole⟩
    · rintro ⟨⟨hp, rfl⟩, hrole⟩
      exact ⟨⟨hp, hrole⟩, rfl⟩

theorem Represents.get?_availablePool (h : Represents m w) :
    m.availablePool.get? id = some inst ↔ w id = some (.available, inst) := by
  rw [h.available, bind_inPlace_eq_some]

theorem Represents.get?_rolePools {role : PDRole} (h : Represents m w) :
    (m.rolePools role).get? id = some inst ↔
      w id = some (.available, inst) ∧ PDRole.ofString inst.role = some role := by
  rw [h.filed role id, bind_filedUnder_eq_some]

theorem Represents.consistent (h : Represents m w) : m.Consistent := by
  have hplace : ∀ (d d' : Dict InstanceId Instance) (p p' : Place), d.Views w (inPlace p) →
      d'.Views w (inPlace p') → p ≠ p' → ∀ id, ¬ (d.contains id = true ∧ d'.contains id = true) := by
    intro d d' p p' hd hd' hne id ⟨hin, hin'⟩
    obtain ⟨inst, hinst⟩ := hd.contains_iff.mp hin
    obtain ⟨inst', hinst'⟩ := hd'.contains_iff.mp hin'
    rw [bind_inPlace_eq_some] at hinst hinst'
    rw [hinst] at hinst'
    cases hinst'
    exact hne rfl
  refine ⟨hplace _ _ _ _ h.available h.unavailable (by decide),
    hplace _ _ _ _ h.available h.paused (by decide),
    hplace _ _ _ _ h.unavailable h.paused (by decide), ?_, ?_, ?_, ?_⟩
  · intro role id inst hget
    obtain ⟨hw, hrole⟩ := h.get?_rolePools.mp hget
    exact ⟨h.get?_availablePool.mpr hw, hrole⟩
  · intro id inst hget
    have hw := h.get?_availablePool.mp hget
    obtain ⟨role, hrole⟩ := (h.fits id _ hw).known rfl
    exact ⟨role, h.get?_rolePools.mpr ⟨hw, hrole⟩⟩
  · intro role role' id hin hin'
    obtain ⟨inst, hget⟩ := Dict.contains_iff.mp hin
    obtain ⟨inst', hget'⟩ := Dict.contains_iff.mp hin'
    obtain ⟨hw, hrole⟩ := h.get?_rolePools.mp hget
    obtain ⟨hw', hrole'⟩ := h.get?_rolePools.mp hget'
    rw [hw] at hw'
    cases hw'
    rw [hrole] at hrole'
    exact Option.some.inj hrole'
  · intro id
    rw [Bool.eq_iff_iff, h.cached.contains_iff, h.available.contains_iff]
    cases w id with
    | none => simp
    | some v => simp

/-! ## One place changes -/

theorem fits_update (hw : ∀ id v, w id = some v → Fits id v) {k : InstanceId}
    {x : Option (Place × Instance)} (hx : ∀ v, x = some v → Fits k v) :
    ∀ id v, Function.update w k x id = some v → Fits id v := by
  intro id v hv
  by_cases heq : id = k
  · subst heq
    rw [Function.update_self] at hv
    exact hx v hv
  · rw [Function.update_of_ne heq] at hv
    exact hw id v hv

theorem Represents.add {role : PDRole} (h : Represents m w)
    (hrole : PDRole.ofString inst.role = some role) (hfree : w inst.id = none) :
    ∃ m', m.addInstanceToAvailablePool inst = (.ok true, m') ∧
      Represents m' (Function.update w inst.id (some (.available, inst))) := by
  have hnot : (m.rolePools role).contains inst.id = false := by
    rw [← Bool.not_eq_true, (h.filed role).contains_iff, hfree]
    simp
  have hnone : ∀ {V : Type} (f : Place × Instance → Option V), (w inst.id).bind f = none := by
    intro V f
    rw [hfree]
    rfl
  unfold addInstanceToAvailablePool
  simp only [hrole, hnot, Bool.false_eq_true, ↓reduceIte]
  refine ⟨_, rfl, h.available.insert _ rfl, h.unavailable.keep (hnone _) rfl,
    h.paused.keep (hnone _) rfl, fun role' => ?_, h.cached.insert _ rfl, fits_update h.fits ?_⟩
  · by_cases heq : role' = role
    · subst heq
      simp only [Function.update_self]
      exact (h.filed role').insert _ (by simp [filedUnder, hrole])
    · simp only [Function.update_of_ne heq]
      refine (h.filed role').keep (hnone _) ?_
      simp [filedUnder, hrole, Ne.symm heq]
  · intro v hv
    cases hv
    exact ⟨rfl, fun _ => ⟨role, hrole⟩⟩

theorem Represents.deleteAvailable (h : Represents m w) (hw : w id = some (.available, inst)) :
    ∃ m', m.deleteInstanceFromAvailablePool id = (.ok true, m') ∧
      Represents m' (Function.update w id none) := by
  obtain ⟨role, hrole⟩ := (h.fits id _ hw).known rfl
  have hget := h.get?_availablePool.mpr hw
  have hin : (m.rolePools role).contains id = true := by
    rw [(h.filed role).contains_iff]
    exact ⟨inst, bind_filedUnder_eq_some.mpr ⟨hw, hrole⟩⟩
  unfold deleteInstanceFromAvailablePool
  simp only [hget, hrole, hin, ↓reduceIte]
  refine ⟨_, rfl, h.available.erase id, h.unavailable.keep (by rw [hw]; rfl) rfl,
    h.paused.keep (by rw [hw]; rfl) rfl, fun role' => ?_, h.cached.erase id,
    fits_update h.fits fun v hv => by cases hv⟩
  by_cases heq : role' = role
  · subst heq
    simp only [Function.update_self]
    exact (h.filed role').erase id
  · simp only [Function.update_of_ne heq]
    refine (h.filed role').keep ?_ rfl
    rw [hw]
    simp only [Option.bind_some, filedUnder, hrole, Option.some.injEq]
    exact if_neg fun hand => heq hand.2.symm

theorem Represents.deleteAvailable_absent (h : Represents m w)
    (hw : ∀ inst, w id ≠ some (.available, inst)) :
    m.deleteInstanceFromAvailablePool id = (.ok false, m) := by
  have hget : m.availablePool.get? id = none := by
    rw [h.available id, Option.eq_none_iff_forall_ne_some]
    intro inst hinst
    exact hw inst (bind_inPlace_eq_some.mp hinst)
  unfold deleteInstanceFromAvailablePool
  rw [hget]

theorem bind_eq_none_of_place {V : Type} {f : Place × Instance → Option V} {p : Place}
    {x : Option (Place × Instance)} (hf : ∀ inst, f (p, inst) = none)
    (hx : ∀ v, x = some v → v.1 = p) : x.bind f = none := by
  cases x with
  | none => rfl
  | some v =>
    obtain ⟨p', inst⟩ := v
    obtain rfl : p' = p := hx _ rfl
    exact hf inst

section OnePool

variable {k : InstanceId} {x : Option (Place × Instance)} {pool : Dict InstanceId Instance}

/-- A table of what is elsewhere does not change. -/
theorem views_elsewhere {V : Type} {d : Dict InstanceId V} {f : Place × Instance → Option V}
    {p : Place} (hd : d.Views w f) (hf : ∀ inst, f (p, inst) = none)
    (hold : ∀ v, w k = some v → v.1 = p) (hnew : ∀ v, x = some v → v.1 = p ∧ v.2.id = k) :
    d.Views (Function.update w k x) f :=
  hd.keep (bind_eq_none_of_place hf hold) (bind_eq_none_of_place hf fun v hv => (hnew v hv).1)

theorem fits_aside {p : Place} (hp : p ≠ .available) (hw : ∀ id v, w id = some v → Fits id v)
    (hnew : ∀ v, x = some v → v.1 = p ∧ v.2.id = k) :
    ∀ id v, Function.update w k x id = some v → Fits id v :=
  fits_update hw fun v hv =>
    ⟨(hnew v hv).2, fun havailable => absurd ((hnew v hv).1.symm.trans havailable) hp⟩

theorem Represents.setUnavailable (h : Represents m w) (hold : ∀ v, w k = some v → v.1 = .unavailable)
    (hnew : ∀ v, x = some v → v.1 = .unavailable ∧ v.2.id = k)
    (hpool : pool.Views (Function.update w k x) (inPlace .unavailable)) :
    Represents { m with unavailablePool := pool } (Function.update w k x) where
  available := views_elsewhere h.available (fun _ => rfl) hold hnew
  unavailable := hpool
  paused := views_elsewhere h.paused (fun _ => rfl) hold hnew
  filed role := views_elsewhere (h.filed role) (fun _ => if_neg (by simp)) hold hnew
  cached := views_elsewhere h.cached (fun _ => rfl) hold hnew
  fits := fits_aside (by decide) h.fits hnew

theorem Represents.setPaused (h : Represents m w) (hold : ∀ v, w k = some v → v.1 = .paused)
    (hnew : ∀ v, x = some v → v.1 = .paused ∧ v.2.id = k)
    (hpool : pool.Views (Function.update w k x) (inPlace .paused)) :
    Represents { m with pausedPool := pool } (Function.update w k x) where
  available := views_elsewhere h.available (fun _ => rfl) hold hnew
  unavailable := views_elsewhere h.unavailable (fun _ => rfl) hold hnew
  paused := hpool
  filed role := views_elsewhere (h.filed role) (fun _ => if_neg (by simp)) hold hnew
  cached := views_elsewhere h.cached (fun _ => rfl) hold hnew
  fits := fits_aside (by decide) h.fits hnew

end OnePool

theorem Represents.eraseUnavailable (h : Represents m w) (hw : w id = some (.unavailable, inst)) :
    Represents { m with unavailablePool := m.unavailablePool.erase id }
      (Function.update w id none) := by
  apply h.setUnavailable
  · intro v hv
    rw [hw] at hv
    cases hv
    rfl
  · intro v hv
    cases hv
  · exact h.unavailable.erase id

theorem Represents.erasePaused (h : Represents m w) (hw : w id = some (.paused, inst)) :
    Represents { m with pausedPool := m.pausedPool.erase id } (Function.update w id none) := by
  apply h.setPaused
  · intro v hv
    rw [hw] at hv
    cases hv
    rfl
  · intro v hv
    cases hv
  · exact h.paused.erase id

/-! ## Where an id is -/

theorem Represents.mem_available (h : Represents m w) :
    m.availablePool.contains id = true ↔ ∃ inst, w id = some (.available, inst) := by
  rw [h.available.contains_iff]
  simp only [bind_inPlace_eq_some]

theorem Represents.mem_unavailable (h : Represents m w) :
    m.unavailablePool.contains id = true ↔ ∃ inst, w id = some (.unavailable, inst) := by
  rw [h.unavailable.contains_iff]
  simp only [bind_inPlace_eq_some]

theorem Represents.mem_paused (h : Represents m w) :
    m.pausedPool.contains id = true ↔ ∃ inst, w id = some (.paused, inst) := by
  rw [h.paused.contains_iff]
  simp only [bind_inPlace_eq_some]

theorem Represents.eq_none (h : Represents m w) (havailable : ¬ m.availablePool.contains id = true)
    (hunavailable : ¬ m.unavailablePool.contains id = true)
    (hpaused : ¬ m.pausedPool.contains id = true) : w id = none := by
  rw [h.mem_available] at havailable
  rw [h.mem_unavailable] at hunavailable
  rw [h.mem_paused] at hpaused
  cases hw : w id with
  | none => rfl
  | some v =>
    obtain ⟨p, old⟩ := v
    cases p with
    | available => exact absurd ⟨old, hw⟩ havailable
    | unavailable => exact absurd ⟨old, hw⟩ hunavailable
    | paused => exact absurd ⟨old, hw⟩ hpaused

/-! ## Operations -/

theorem update_none_of_free (hw : w id = none) : Function.update w id none = w :=
  Function.update_eq_self_iff.mpr hw.symm

theorem Represents.deleteInstance (h : Represents m w) (inst : Instance) :
    ∃ r m', m.deleteInstance inst = (.ok r, m') ∧
      Represents m' (Function.update w inst.id none) := by
  unfold InstanceManager.deleteInstance
  split
  · next hin =>
    obtain ⟨old, hw⟩ := h.mem_unavailable.mp hin
    exact ⟨true, _, rfl, h.eraseUnavailable hw⟩
  · next hunavailable =>
    split
    · next hin =>
      obtain ⟨old, hw⟩ := h.mem_paused.mp hin
      exact ⟨true, _, rfl, h.erasePaused hw⟩
    · next hpaused =>
      by_cases havailable : m.availablePool.contains inst.id = true
      · obtain ⟨old, hw⟩ := h.mem_available.mp havailable
        obtain ⟨m', hdel, hm'⟩ := h.deleteAvailable hw
        exact ⟨true, m', hdel, hm'⟩
      · have hw := h.eq_none havailable hunavailable hpaused
        refine ⟨false, m, h.deleteAvailable_absent fun old hold => ?_, ?_⟩
        · rw [hw] at hold
          cases hold
        · rw [update_none_of_free hw]
          exact h

theorem Represents.removeInstanceFromAllPools (h : Represents m w) (id : InstanceId) :
    ∃ r m', m.removeInstanceFromAllPools id = (.ok r, m') ∧
      Represents m' (Function.update w id none) := by
  unfold InstanceManager.removeInstanceFromAllPools
  split
  · next hin =>
    obtain ⟨old, hw⟩ := h.mem_available.mp hin
    obtain ⟨m', hdel, hm'⟩ := h.deleteAvailable hw
    exact ⟨true, m', hdel, hm'⟩
  · next havailable =>
    split
    · next hin =>
      obtain ⟨old, hw⟩ := h.mem_unavailable.mp hin
      exact ⟨true, _, rfl, h.eraseUnavailable hw⟩
    · next hunavailable =>
      split
      · next hin =>
        obtain ⟨old, hw⟩ := h.mem_paused.mp hin
        exact ⟨true, _, rfl, h.erasePaused hw⟩
      · next hpaused =>
        rw [update_none_of_free (h.eq_none havailable hunavailable hpaused)]
        exact ⟨false, m, rfl, h⟩

/-- Only other ids than the one of the instance may have been cleared. -/
def OthersStay (w w' : Roster) (inst : Instance) : Prop :=
  ∀ id, id ≠ inst.id → w' id = w id ∨ w' id = none

theorem Represents.removeStaleInstance (h : Represents m w) (inst : Instance) :
    ∃ r m' w', m.removeStaleInstance inst = (.ok r, m') ∧ Represents m' w' ∧
      w' inst.id = w inst.id ∧ OthersStay w w' inst := by
  unfold InstanceManager.removeStaleInstance
  split
  · exact ⟨false, m, w, rfl, h, rfl, fun id _ => Or.inl rfl⟩
  · next existing _ =>
    split
    · exact ⟨false, m, w, rfl, h, rfl, fun id _ => Or.inl rfl⟩
    · next hne =>
      obtain ⟨r, m', hrem, hm'⟩ := h.removeInstanceFromAllPools existing.id
      refine ⟨r, m', _, hrem, hm', Function.update_of_ne (Ne.symm hne) _ _, fun id _ => ?_⟩
      by_cases heq : id = existing.id
      · subst heq
        exact Or.inr (Function.update_self _ _ _)
      · exact Or.inl (Function.update_of_ne heq _ _)

/-- The addition finds all that is there about the id: it is unavailable, the role raises, or the id is
neither paused nor available in another role. -/
def AddsFresh (m : InstanceManager) (inst : Instance) : Prop :=
  m.unavailablePool.contains inst.id = true ∨ PDRole.ofString inst.role = none ∨
    (m.pausedPool.contains inst.id = false ∧
      (m.availablePool.get? inst.id).all
        (fun old => decide (PDRole.ofString old.role = PDRole.ofString inst.role)) = true)

instance (m : InstanceManager) (inst : Instance) : Decidable (m.AddsFresh inst) :=
  inferInstanceAs (Decidable (_ ∨ _ ∨ (_ ∧ _)))

/-- **An addition** makes the instance available, unless it is there already. -/
theorem Represents.addInstance (h : Represents m w) (hfresh : m.AddsFresh inst) :
    ∃ r m' w', m.addInstance inst = (r, m') ∧ Represents m' w' ∧ OthersStay w w' inst := by
  unfold InstanceManager.addInstance
  split
  · exact ⟨.ok false, m, w, rfl, h, fun id _ => Or.inl rfl⟩
  · next hunavailable =>
    obtain ⟨r, m₁, w₁, hstale, h₁, hsame, hstay⟩ := h.removeStaleInstance inst
    rw [hstale]
    simp only
    cases hrole : PDRole.ofString inst.role with
    | none =>
      refine ⟨.error (.valueError inst.role), m₁, w₁, ?_, h₁, hstay⟩
      unfold addInstanceToAvailablePool
      rw [show inst.resetWorkload.role = inst.role from rfl, hrole]
    | some role =>
      obtain ⟨hpaused, hold⟩ := (hfresh.resolve_left hunavailable).resolve_left (by simp [hrole])
      cases hw : w inst.id with
      | none =>
        have hrole' : PDRole.ofString inst.resetWorkload.role = some role := hrole
        obtain ⟨m', hadd, hm'⟩ := h₁.add hrole' (hsame.trans hw)
        refine ⟨.ok true, m', _, hadd, hm', fun id hid => ?_⟩
        rw [Function.update_of_ne (show id ≠ inst.resetWorkload.id from hid)]
        exact hstay id hid
      | some v =>
        -- neither unavailable nor paused, so available, and in the same role
        obtain ⟨p, old⟩ := v
        cases p with
        | available =>
          rw [h.get?_availablePool.mpr hw] at hold
          have hrole' : PDRole.ofString old.role = some role := by
            rw [← hrole]
            exact of_decide_eq_true hold
          have hin : (m₁.rolePools role).contains inst.id = true := by
            rw [(h₁.filed role).contains_iff, hsame]
            exact ⟨old, bind_filedUnder_eq_some.mpr ⟨hw, hrole'⟩⟩
          refine ⟨.ok false, m₁, w₁, ?_, h₁, hstay⟩
          unfold addInstanceToAvailablePool
          rw [show inst.resetWorkload.role = inst.role from rfl, hrole]
          exact if_pos hin
        | unavailable => exact absurd (h.mem_unavailable.mpr ⟨old, hw⟩) hunavailable
        | paused =>
          rw [h.mem_paused.mpr ⟨old, hw⟩] at hpaused
          cases hpaused

theorem Represents.addInstance_keeps (h : Represents m w) (hfresh : m.AddsFresh inst) :
    ∃ r m' w', m.addInstance inst = (r, m') ∧ Represents m' w' := by
  obtain ⟨r, m', w', hstep, hm', -⟩ := h.addInstance hfresh
  exact ⟨r, m', w', hstep, hm'⟩

theorem Represents.pauseInstance (h : Represents m w) (inst : Instance) :
    ∃ r m' w', m.pauseInstance inst = (r, m') ∧ Represents m' w' := by
  unfold InstanceManager.pauseInstance
  split
  · exact ⟨.ok false, m, w, rfl, h⟩
  · split
    · exact ⟨.ok false, m, w, rfl, h⟩
    · next hin =>
      obtain ⟨old, hw⟩ := h.mem_available.mp (by simpa using hin)
      obtain ⟨m₁, hdel, h₁⟩ := h.deleteAvailable hw
      rw [hdel]
      refine ⟨.ok true, _, _, rfl, h₁.setPaused (k := inst.id) (x := some (.paused, inst)) ?_ ?_
        (h₁.paused.insert _ rfl)⟩
      · intro v hv
        rw [Function.update_self] at hv
        cases hv
      · intro v hv
        cases hv
        exact ⟨rfl, rfl⟩

/-- An instance that has left another place becomes available, if its role is known. -/
theorem Represents.addFreed (h : Represents m w) (hfree : w inst.id = none) :
    ∃ r m' w', m.addInstanceToAvailablePool inst = (r, m') ∧ Represents m' w' := by
  cases hrole : PDRole.ofString inst.role with
  | none =>
    refine ⟨.error (.valueError inst.role), m, w, ?_, h⟩
    unfold addInstanceToAvailablePool
    rw [hrole]
  | some role =>
    obtain ⟨m', hadd, hm'⟩ := h.add hrole hfree
    exact ⟨.ok true, m', _, hadd, hm'⟩

theorem Represents.resumeInstance (h : Represents m w) (inst : Instance) :
    ∃ r m' w', m.resumeInstance inst = (r, m') ∧ Represents m' w' := by
  unfold InstanceManager.resumeInstance
  split
  · exact ⟨.ok false, m, w, rfl, h⟩
  · next hin =>
    obtain ⟨old, hw⟩ := h.mem_paused.mp (by simpa using hin)
    exact (h.erasePaused hw).addFreed (Function.update_self _ _ _)

theorem Represents.updateInstanceState (h : Represents m w) (id : InstanceId)
    (mode : UpdateInstanceMode) :
    ∃ r m' w', m.updateInstanceState id mode = (r, m') ∧ Represents m' w' := by
  cases mode with
  | available =>
    simp only [InstanceManager.updateInstanceState]
    split
    · exact ⟨.ok false, m, w, rfl, h⟩
    · next inst hget =>
      rw [h.unavailable, bind_inPlace_eq_some] at hget
      have hid : inst.id = id := (h.fits id _ hget).keyed
      apply (h.eraseUnavailable hget).addFreed
      rw [hid]
      exact Function.update_self _ _ _
  | unavailable =>
    simp only [InstanceManager.updateInstanceState]
    split
    · exact ⟨.ok false, m, w, rfl, h⟩
    · next inst hget =>
      rw [h.get?_availablePool] at hget
      obtain ⟨m₁, hdel, h₁⟩ := h.deleteAvailable hget
      rw [hdel]
      refine ⟨.ok true, _, _, rfl, h₁.setUnavailable (k := id) (x := some (.unavailable, inst))
        ?_ ?_ (h₁.unavailable.insert _ rfl)⟩
      · intro v hv
        rw [Function.update_self] at hv
        cases hv
      · intro v hv
        cases hv
        exact ⟨rfl, (h.fits id _ hget).keyed⟩

theorem Represents.deleteUnavailableInstance (h : Represents m w) (id : InstanceId) :
    ∃ w', Represents (m.deleteUnavailableInstance id) w' := by
  unfold InstanceManager.deleteUnavailableInstance
  split
  · next hin =>
    obtain ⟨old, hw⟩ := h.mem_unavailable.mp hin
    exact ⟨_, h.eraseUnavailable hw⟩
  · exact ⟨w, h⟩

/-! ## Events -/

/-- `G` holds of every instance when its turn comes. -/
def Along (f : InstanceManager → Instance → Except PyError Bool × InstanceManager)
    (G : InstanceManager → Instance → Prop) (m : InstanceManager) : List Instance → Prop
  | [] => True
  | inst :: instances => G m inst ∧ Along f G (f m inst).2 instances

instance Along.decidable (f : InstanceManager → Instance → Except PyError Bool × InstanceManager)
    (G : InstanceManager → Instance → Prop) [∀ m inst, Decidable (G m inst)] :
    ∀ (instances : List Instance) (m : InstanceManager), Decidable (Along f G m instances)
  | [], _ => isTrue trivial
  | inst :: instances, m =>
    have := Along.decidable f G instances (f m inst).2
    inferInstanceAs (Decidable (G m inst ∧ Along f G (f m inst).2 instances))

theorem forInstances_represents
    {f : InstanceManager → Instance → Except PyError Bool × InstanceManager}
    {G : InstanceManager → Instance → Prop}
    (hf : ∀ {m w inst}, Represents m w → G m inst → ∃ r m' w', f m inst = (r, m') ∧ Represents m' w')
    (instances : List Instance) :
    ∀ {m w}, Represents m w → Along f G m instances →
      ∃ w', Represents (m.forInstances f instances).2 w' := by
  induction instances with
  | nil =>
    intro m w h _
    exact ⟨w, h⟩
  | cons inst instances ih =>
    intro m w h halong
    obtain ⟨r, m₁, w₁, hstep, h₁⟩ := hf h halong.1
    have hrest := halong.2
    rw [hstep] at hrest
    rw [forInstances, hstep]
    cases r with
    | error err => exact ⟨w₁, h₁⟩
    | ok modified => exact ih h₁ hrest

theorem along_true {f : InstanceManager → Instance → Except PyError Bool × InstanceManager}
    (instances : List Instance) : ∀ m, Along f (fun _ _ => True) m instances := by
  induction instances with
  | nil => intro m; trivial
  | cons inst instances ih => intro m; exact ⟨trivial, ih _⟩

/-- **A `DEL`** clears the ids of its instances. -/
theorem Represents.deleteInstances (instances : List Instance) :
    ∀ {m w}, Represents m w → ∃ r m', m.deleteInstances instances = (.ok r, m') ∧
      Represents m' fun id => if id ∈ instances.map (·.id) then none else w id := by
  induction instances with
  | nil =>
    intro m w h
    exact ⟨false, m, rfl, by simpa using h⟩
  | cons inst instances ih =>
    intro m w h
    obtain ⟨r₁, m₁, hstep, h₁⟩ := h.deleteInstance inst
    obtain ⟨r, m', hrest, hm'⟩ := ih h₁
    refine ⟨r₁ || r, m', ?_, ?_⟩
    · rw [InstanceManager.deleteInstances] at hrest ⊢
      rw [forInstances, hstep]
      simp only [hrest]
      rfl
    · have hw : (fun id => if id ∈ instances.map (·.id) then none
          else Function.update w inst.id none id) =
          fun id => if id ∈ (inst :: instances).map (·.id) then none else w id := by
        funext id
        simp only [List.map_cons, List.mem_cons]
        by_cases heq : id = inst.id
        · subst heq
          simp
        · simp [heq]
      rw [← hw]
      exact hm'

theorem addInstances_fresh (instances : List Instance) :
    ∀ {m w}, Represents m w → (instances.map (·.id)).Nodup → (∀ inst ∈ instances, w inst.id = none) →
      Along InstanceManager.addInstance AddsFresh m instances := by
  induction instances with
  | nil => intro m w _ _ _; trivial
  | cons inst instances ih =>
    intro m w h hnodup hfree
    rw [List.map_cons, List.nodup_cons] at hnodup
    have hw := hfree inst List.mem_cons_self
    have hfresh : m.AddsFresh inst := by
      refine Or.inr (Or.inr ⟨?_, ?_⟩)
      · rw [← Bool.not_eq_true, h.mem_paused, hw]
        simp
      · rw [h.available, hw]
        rfl
    obtain ⟨r, m₁, w₁, hstep, h₁, hstay⟩ := h.addInstance hfresh
    refine ⟨hfresh, ?_⟩
    rw [hstep]
    refine ih h₁ hnodup.2 fun other hother => ?_
    have hne : other.id ≠ inst.id := by
      intro heq
      exact hnodup.1 (heq ▸ List.mem_map_of_mem hother)
    rcases hstay other.id hne with hsame | hnone
    · rw [hsame]
      exact hfree other (List.mem_cons_of_mem inst hother)
    · exact hnone

section SetDiff

variable {σ : HashOrder InstanceId} {instances : List Instance}

theorem newInstById_keyed {new : Instance} (h : (newInstById instances).get? id = some new) :
    new.id = id := by
  rcases Dict.of_get?_foldl_insert instances ∅ h with hempty | ⟨inst, -, hid, rfl⟩
  · cases hempty
  · exact hid

theorem get?_newInstById_iff (hnd : (instances.map (·.id)).Nodup) :
    (newInstById instances).get? id = some inst ↔ inst ∈ instances ∧ inst.id = id := by
  constructor
  · intro h
    rcases Dict.of_get?_foldl_insert instances ∅ h with hempty | ⟨inst', hmem, hid, rfl⟩
    · cases hempty
    · exact ⟨hmem, hid⟩
  · rintro ⟨hmem, rfl⟩
    refine Dict.get?_foldl_insert instances ?_ ∅ (Or.inr ⟨inst, hmem, rfl⟩)
    exact fun inst' hmem' hid => List.inj_on_of_nodup_map hnd hmem' hmem hid

theorem nodup_map_id_filterMap {d : Dict InstanceId Instance}
    (hd : ∀ k i, d.get? k = some i → i.id = k) (ids : List InstanceId) (hnodup : ids.Nodup) :
    ((ids.filterMap d.get?).map (·.id)).Nodup := by
  have hids : (ids.filterMap d.get?).map (·.id) = ids.filter fun id => (d.get? id).isSome := by
    induction ids with
    | nil => rfl
    | cons id ids ih =>
      have hrest := ih (List.nodup_cons.mp hnodup).2
      cases hget : d.get? id with
      | none => simpa [hget] using hrest
      | some inst => simp [hget, hrest, hd id inst hget]
  rw [hids]
  exact hnodup.filter _

theorem findInstance_eq (h : Represents m w) : m.findInstance id = (w id).map (·.2) := by
  unfold findInstance
  rw [h.available, h.unavailable, h.paused]
  cases w id with
  | none => rfl
  | some v =>
    obtain ⟨p, inst⟩ := v
    cases p <;> rfl

theorem mem_currentIds (h : Represents m w) : id ∈ m.currentIds ↔ w id ≠ none := by
  unfold currentIds
  rw [List.mem_dedup, List.mem_append, List.mem_append, Dict.mem_keys_iff, Dict.mem_keys_iff,
    Dict.mem_keys_iff, h.available, h.unavailable, h.paused]
  simp only [bind_inPlace_eq_some]
  cases w id with
  | none => simp
  | some v =>
    obtain ⟨p, inst⟩ := v
    cases p <;> simp

/-- A `SET` adds at ids that are free once it has removed what it removes. -/
theorem computeSetDiff_fresh (h : Represents m w) (σ : HashOrder InstanceId)
    (instances : List Instance) :
    ((m.computeSetDiff σ instances).1.map (·.id)).Nodup ∧
      ∀ inst ∈ (m.computeSetDiff σ instances).1, w inst.id = none ∨
        inst.id ∈ (m.computeSetDiff σ instances).2.map (·.id) := by
  unfold computeSetDiff
  constructor
  · apply nodup_map_id_filterMap fun k i hk => newInstById_keyed hk
    rw [(σ.perm 0 _).nodup_iff]
    exact ((newInstById instances).nodup).filter _
  · intro inst hinst
    obtain ⟨id, hid, hget⟩ := List.mem_filterMap.mp hinst
    obtain rfl := newInstById_keyed hget
    by_cases hcur : inst.id ∈ m.currentIds
    · right
      rw [HashOrder.mem_iter, List.mem_filter, Bool.or_eq_true] at hid
      have hrefresh := hid.2.resolve_left (by simpa using hcur)
      obtain ⟨v, hw⟩ := Option.ne_none_iff_exists'.mp ((mem_currentIds h).mp hcur)
      refine List.mem_map.mpr ⟨v.2, List.mem_filterMap.mpr ⟨inst.id, ?_, ?_⟩, (h.fits _ v hw).keyed⟩
      · rw [HashOrder.mem_iter, List.mem_filter, Bool.or_eq_true]
        exact ⟨hcur, Or.inr hrefresh⟩
      · rw [findInstance_eq h, hw]
        rfl
    · left
      rw [mem_currentIds h, not_not] at hcur
      exact hcur

theorem Represents.setDiff_along (h : Represents m w) (σ : HashOrder InstanceId)
    (instances : List Instance) :
    ∃ r m' w', m.deleteInstances (m.computeSetDiff σ instances).2 = (.ok r, m') ∧ Represents m' w' ∧
      Along InstanceManager.addInstance AddsFresh m' (m.computeSetDiff σ instances).1 := by
  obtain ⟨hnodup, hfree⟩ := computeSetDiff_fresh h σ instances
  obtain ⟨r, m', hdel, hm'⟩ := Represents.deleteInstances (m.computeSetDiff σ instances).2 h
  refine ⟨r, m', _, hdel, hm', addInstances_fresh _ hm' hnodup fun inst hinst => ?_⟩
  rcases hfree inst hinst with hw | hmem
  · simp [hw]
  · simp only [hmem, ↓reduceIte]

/-- **A `SET`** needs no precaution. -/
theorem Represents.setInstances (h : Represents m w) (σ : HashOrder InstanceId)
    (instances : List Instance) : ∃ w', Represents (m.setInstances σ instances).2 w' := by
  obtain ⟨r, m₁, w₁, hdel, h₁, halong⟩ := h.setDiff_along σ instances
  unfold InstanceManager.setInstances
  simp only
  split
  · exact ⟨w, h⟩
  · rw [hdel]
    simp only
    exact forInstances_represents (fun hm hfresh => hm.addInstance_keeps hfresh) _ h₁ halong

end SetDiff

/-! ## Runs -/

/-- Every instance that an `ADD` announces is fresh when its turn comes. -/
def KeepsPools (m : InstanceManager) : ManagerOp → Prop
  | .refresh _ .add instances => Along InstanceManager.addInstance AddsFresh m instances
  | _ => True

instance (m : InstanceManager) : ∀ op, Decidable (m.KeepsPools op)
  | .refresh _ .add instances =>
    inferInstanceAs (Decidable (Along InstanceManager.addInstance AddsFresh m instances))
  | .refresh _ .del _ => isTrue trivial
  | .refresh _ .set _ => isTrue trivial
  | .refresh _ .pause _ => isTrue trivial
  | .refresh _ .resume _ => isTrue trivial
  | .updateState _ _ => isTrue trivial
  | .deleteUnavailable _ => isTrue trivial

/-- **Every operation keeps a roster.** -/
theorem exec_represents {op : ManagerOp} (h : ∃ w, Represents m w) (hkeep : m.KeepsPools op)
    (he : m.exec op = some m') : ∃ w', Represents m' w' := by
  obtain ⟨w, h⟩ := h
  cases op with
  | refresh σ eventType instances =>
    cases he
    cases eventType with
    | add =>
      exact forInstances_represents (fun hm hfresh => hm.addInstance_keeps hfresh) instances h hkeep
    | del =>
      obtain ⟨r, m', hdel, hm'⟩ := Represents.deleteInstances instances h
      show ∃ w', Represents (m.deleteInstances instances).2 w'
      rw [hdel]
      exact ⟨_, hm'⟩
    | set => exact h.setInstances σ instances
    | pause =>
      exact forInstances_represents (fun hm _ => hm.pauseInstance _) instances h
        (along_true instances m)
    | resume =>
      exact forInstances_represents (fun hm _ => hm.resumeInstance _) instances h
        (along_true instances m)
  | updateState id mode =>
    cases he
    obtain ⟨r, m', w', hstep, hm'⟩ := h.updateInstanceState id mode
    rw [hstep]
    exact ⟨w', hm'⟩
  | deleteUnavailable id =>
    cases he
    exact h.deleteUnavailableInstance id

/-- No pool and no index has the id. -/
structure Forgotten (m : InstanceManager) (id : InstanceId) : Prop where
  available : m.availablePool.contains id = false
  unavailable : m.unavailablePool.contains id = false
  paused : m.pausedPool.contains id = false
  filed : ∀ role, (m.rolePools role).contains id = false
  cached : m.endpointIdCache.contains id = false

theorem Represents.forgotten (h : Represents m w) (hw : w id = none) : m.Forgotten id := by
  have hnone : ∀ {V : Type} {d : Dict InstanceId V} {f : Place × Instance → Option V},
      d.Views w f → d.contains id = false := by
    intro V d f hd
    rw [← Bool.not_eq_true, hd.contains_iff, hw]
    simp
  exact ⟨hnone h.available, hnone h.unavailable, hnone h.paused, fun role => hnone (h.filed role),
    hnone h.cached⟩

/-- **The pools stay consistent** in every run that adds fresh instances only, and a `DEL` leaves no
trace of the ids it names. -/
theorem pools_consistent_of_run {ops : List ManagerOp} (hrun : Run exec KeepsPools new ops m) :
    m.Consistent ∧ ∀ σ instances m', m.exec (.refresh σ .del instances) = some m' →
      ∀ inst ∈ instances, m'.Forgotten inst.id := by
  obtain ⟨w, h⟩ := hrun.invariant_state (I := fun m => ∃ w, Represents m w) ⟨_, represents_new⟩
    fun h hkeep he => exec_represents h hkeep he
  refine ⟨h.consistent, fun σ instances m' he inst hinst => ?_⟩
  cases he
  obtain ⟨r, m', hdel, hm'⟩ := Represents.deleteInstances instances h
  show (m.deleteInstances instances).2.Forgotten inst.id
  rw [hdel]
  apply hm'.forgotten
  exact if_pos (List.mem_map_of_mem hinst)

/-- An instance of one endpoint. -/
def oneEndpoint (id : InstanceId) (jobName role : String) : Instance where
  jobName := jobName
  modelName := "model"
  engineType := none
  dispatchCapabilities := []
  id := id
  role := role
  parallelConfig := none
  enableMultiEndpoints := true
  nodeManagers := []
  endpoints := (∅ : Dict String _).insert "10.0.0.1"
    ((∅ : Dict EndpointId Endpoint).insert 0 ⟨0, "10.0.0.1", "8000", "8001", none, [], .zero, false⟩)
  gatheredWorkload := .zero

/-- Two instances come, one pauses and resumes; a restart gives the job of the other a new id, and a
`SET` changes a role. -/
def detourRun : List ManagerOp :=
  [.refresh .insertion .add [oneEndpoint 1 "p" "prefill", oneEndpoint 2 "d" "decode"],
   .refresh .insertion .pause [oneEndpoint 1 "p" "prefill"],
   .refresh .insertion .resume [oneEndpoint 1 "p" "prefill"],
   .updateState 1 .unavailable,
   .refresh .insertion .add [oneEndpoint 1 "p" "prefill", oneEndpoint 3 "d" "decode"],
   .updateState 1 .available,
   .refresh .insertion .set [oneEndpoint 1 "p" "decode", oneEndpoint 3 "d" "decode"]]

theorem detourRun_consistent : ∃ m, Run exec KeepsPools new detourRun m ∧
    m.availablePool.keys = [3, 1] ∧ m.Consistent := by
  have hkeys : (runList exec KeepsPools new detourRun).map (fun m => m.availablePool.keys) =
      some [3, 1] := by decide
  obtain ⟨m, hm, hkeys⟩ := Option.map_eq_some_iff.mp hkeys
  exact ⟨m, runList_run hm, hkeys, (pools_consistent_of_run (runList_run hm)).1⟩

/-- An instance is announced again while it is paused. -/
def doubleRun : List ManagerOp :=
  [.refresh .insertion .add [oneEndpoint 1 "p" "prefill"],
   .refresh .insertion .pause [oneEndpoint 1 "p" "prefill"],
   .refresh .insertion .add [oneEndpoint 1 "p" "prefill"]]

/-- It is then both available and paused, and stays routable when it is deleted. -/
theorem doubleRun_lists_twice : ∃ m, Run exec Free new doubleRun m ∧ ¬ m.Consistent ∧
    ∃ m', m.exec (.refresh .insertion .del [oneEndpoint 1 "p" "prefill"]) = some m' ∧
      m'.availablePool.contains 1 = true := by
  have hlisted : (runList exec Free new doubleRun).map (fun m =>
      (m.availablePool.contains 1, m.pausedPool.contains 1,
        (m.deleteInstances [oneEndpoint 1 "p" "prefill"]).2.availablePool.contains 1)) =
      some (true, true, true) := by decide
  obtain ⟨m, hm, hlisted⟩ := Option.map_eq_some_iff.mp hlisted
  simp only [Prod.mk.injEq] at hlisted
  obtain ⟨havailable, hpaused, hstays⟩ := hlisted
  refine ⟨m, runList_run hm, fun h => ?_, _, rfl, hstays⟩
  exact h.available_paused 1 ⟨havailable, hpaused⟩

end InstanceManager

end PyMotor.Coordinator
