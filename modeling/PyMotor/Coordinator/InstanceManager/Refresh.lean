import PyMotor.Coordinator.InstanceManager.Pools

/-!
# What an event does to the roster

As long as a job name stands for one id, an `ADD` of an instance that is not paused makes it available
and does nothing else, a `PAUSE` takes it out of the available ones, and after a `SET` the available
instances are those of the message, and there are no others.
-/

namespace PyMotor.Coordinator.InstanceManager

variable {m m' : InstanceManager} {w : Roster} {inst : Instance} {id : InstanceId}

/-! ## Additions -/

theorem Represents.of_findInstanceByJobName {jobName : String} {existing : Instance}
    (h : Represents m w) (hfind : m.findInstanceByJobName jobName = some existing) :
    existing.jobName = jobName ∧ ∃ p, w existing.id = some (p, existing) := by
  have hmem := List.mem_of_find?_eq_some hfind
  have hjob := List.find?_some hfind
  refine ⟨of_decide_eq_true hjob, ?_⟩
  have hplace : ∀ (d : Dict InstanceId Instance) (p : Place), d.Views w (inPlace p) →
      existing ∈ d.values → ∃ p, w existing.id = some (p, existing) := by
    intro d p hd hvalue
    obtain ⟨k, hk⟩ := Dict.mem_values_iff.mp hvalue
    rw [hd k, bind_inPlace_eq_some] at hk
    have hkey : existing.id = k := (h.fits k _ hk).keyed
    exact ⟨p, hkey ▸ hk⟩
  simp only [List.mem_append] at hmem
  rcases hmem with (hin | hin) | hin
  · exact hplace _ _ h.available hin
  · exact hplace _ _ h.unavailable hin
  · exact hplace _ _ h.paused hin

theorem Represents.removeStaleInstance_own (h : Represents m w)
    (hjob : ∀ id v, w id = some v → v.2.jobName = inst.jobName → id = inst.id) :
    m.removeStaleInstance inst = (.ok false, m) := by
  unfold InstanceManager.removeStaleInstance
  split
  · rfl
  · next existing hfind =>
    obtain ⟨hname, p, hw⟩ := h.of_findInstanceByJobName hfind
    exact if_pos (hjob _ _ hw hname)

/-- The roster after an addition: an instance that is there stays as it is. -/
def withInstance (w : Roster) (inst : Instance) : Roster :=
  if (w inst.id).isSome then w
  else Function.update w inst.id (some (.available, inst.resetWorkload))

/-- **An addition** under a job name of its own, of an instance that is either new or available. -/
theorem Represents.addInstance_own {role : PDRole} (h : Represents m w)
    (hrole : PDRole.ofString inst.role = some role)
    (hplace : ∀ v, w inst.id = some v → v.1 = .available ∧ v.2.role = inst.role)
    (hjob : ∀ id v, w id = some v → v.2.jobName = inst.jobName → id = inst.id) :
    ∃ r m', m.addInstance inst = (.ok r, m') ∧ Represents m' (withInstance w inst) := by
  have hunavailable : ¬ m.unavailablePool.contains inst.id = true := by
    rw [h.mem_unavailable]
    rintro ⟨old, hw⟩
    cases (hplace _ hw).1
  unfold InstanceManager.addInstance withInstance
  rw [if_neg hunavailable, h.removeStaleInstance_own hjob]
  simp only
  cases hw : w inst.id with
  | none =>
    have hrole' : PDRole.ofString inst.resetWorkload.role = some role := hrole
    obtain ⟨m', hadd, hm'⟩ := h.add hrole' hw
    exact ⟨true, m', hadd, hm'⟩
  | some v =>
    obtain ⟨p, old⟩ := v
    obtain ⟨hp, hrole'⟩ := hplace _ hw
    have hin : (m.rolePools role).contains inst.id = true := by
      rw [(h.filed role).contains_iff]
      exact ⟨old, bind_filedUnder_eq_some.mpr ⟨by rw [hw, show p = .available from hp],
        by rw [show old.role = inst.role from hrole', hrole]⟩⟩
    refine ⟨false, m, ?_, h⟩
    unfold addInstanceToAvailablePool
    rw [show inst.resetWorkload.role = inst.role from rfl, hrole]
    exact if_pos hin

theorem withInstance_ne (hid : id ≠ inst.id) : withInstance w inst id = w id := by
  unfold withInstance
  split
  · rfl
  · exact Function.update_of_ne hid _ _

theorem withInstance_mono (hw : w id ≠ none) : withInstance w inst id = w id := by
  by_cases hid : id = inst.id
  · subst hid
    unfold withInstance
    rw [if_pos (Option.isSome_iff_ne_none.mpr hw)]
  · exact withInstance_ne hid

theorem withInstance_cases {v : Place × Instance} (hv : withInstance w inst id = some v) :
    w id = some v ∨ (id = inst.id ∧ v = (.available, inst.resetWorkload)) := by
  by_cases hw : w id = none
  · right
    unfold withInstance at hv
    split at hv
    · rw [hw] at hv
      cases hv
    · by_cases hid : id = inst.id
      · subst hid
        rw [Function.update_self] at hv
        exact ⟨rfl, (Option.some.inj hv).symm⟩
      · rw [Function.update_of_ne hid, hw] at hv
        cases hv
  · left
    rwa [withInstance_mono hw] at hv

theorem withInstance_self_ne_none : withInstance w inst inst.id ≠ none := by
  unfold withInstance
  split
  · next hsome => exact Option.isSome_iff_ne_none.mp hsome
  · simp

/-! ## Pauses -/

theorem Represents.pauseInstance_own (h : Represents m w) (inst : Instance) :
    ∃ r m' w', m.pauseInstance inst = (.ok r, m') ∧ Represents m' w' ∧
      (∀ id, id ≠ inst.id → w' id = w id) ∧
      (∀ v, w' inst.id = some v → v.1 ≠ .available ∧ (w inst.id = some v ∨ v = (.paused, inst))) := by
  unfold InstanceManager.pauseInstance
  split
  · next hpaused =>
    obtain ⟨old, hw⟩ := h.mem_paused.mp hpaused
    refine ⟨false, m, w, rfl, h, fun id _ => rfl, fun v hv => ⟨?_, Or.inl hv⟩⟩
    rw [hw] at hv
    cases hv
    exact Place.noConfusion
  · split
    · next hpaused hin =>
      refine ⟨false, m, w, rfl, h, fun id _ => rfl, fun v hv => ⟨?_, Or.inl hv⟩⟩
      intro hplace
      obtain ⟨p, old⟩ := v
      cases hplace
      simp [h.mem_available.mpr ⟨old, hv⟩] at hin
    · next hin =>
      obtain ⟨old, hw⟩ := h.mem_available.mp (by simpa using hin)
      obtain ⟨m₁, hdel, h₁⟩ := h.deleteAvailable hw
      rw [hdel]
      refine ⟨true, _, _, rfl, h₁.setPaused (k := inst.id) (x := some (.paused, inst)) ?_ ?_
        (h₁.paused.insert _ rfl), ?_, ?_⟩
      · intro v hv
        rw [Function.update_self] at hv
        cases hv
      · intro v hv
        cases hv
        exact ⟨rfl, rfl⟩
      · intro id hid
        rw [Function.update_of_ne hid, Function.update_of_ne hid]
      · intro v hv
        rw [Function.update_self] at hv
        cases hv
        exact ⟨Place.noConfusion, Or.inr rfl⟩

/-! ## Sets -/

/-- Everyone on the roster is available, and is one of the announced instances. -/
def DrawnFrom (d : Dict InstanceId Instance) (w : Roster) : Prop :=
  ∀ id v, w id = some v → v.1 = .available ∧
    ∃ new, d.get? id = some new ∧ v.2.jobName = new.jobName ∧ v.2.role = new.role

/-- The announced instances, by their ids: every role is known, and a job name occurs once. -/
structure WellNamed (d : Dict InstanceId Instance) : Prop where
  keyed : ∀ id new, d.get? id = some new → new.id = id
  known : ∀ id new, d.get? id = some new → ∃ role, PDRole.ofString new.role = some role
  named : ∀ id id' new new', d.get? id = some new → d.get? id' = some new' →
    new.jobName = new'.jobName → id = id'

section Set

variable {d : Dict InstanceId Instance} {σ : HashOrder InstanceId} {instances : List Instance}

theorem DrawnFrom.withInstance (h : DrawnFrom d w) (hinst : d.get? inst.id = some inst) :
    DrawnFrom d (withInstance w inst) := by
  intro id v hv
  rcases withInstance_cases hv with hold | ⟨hid, hnew⟩
  · exact h id v hold
  · rw [hid, hnew]
    exact ⟨rfl, inst, hinst, rfl, rfl⟩

/-- The announced instances that are still missing are added one after the other. -/
theorem DrawnFrom.addInstances (hd : WellNamed d) (toAdd : List Instance) :
    ∀ {m w}, Represents m w → DrawnFrom d w → (∀ inst ∈ toAdd, d.get? inst.id = some inst) →
      ∃ r m', m.addInstances toAdd = (.ok r, m') ∧
        Represents m' (toAdd.foldl InstanceManager.withInstance w) := by
  induction toAdd with
  | nil =>
    intro m w h _ _
    exact ⟨false, m, rfl, h⟩
  | cons inst toAdd ih =>
    intro m w h hw hall
    have hinst := hall inst List.mem_cons_self
    obtain ⟨role, hrole⟩ := hd.known _ _ hinst
    obtain ⟨r₁, m₁, hadd, h₁⟩ := h.addInstance_own hrole
      (fun v hv => by
        obtain ⟨hp, new, hnew, -, hrole'⟩ := hw _ v hv
        rw [hinst] at hnew
        cases hnew
        exact ⟨hp, hrole'⟩)
      (fun id v hv hjob => by
        obtain ⟨-, new, hnew, hname, -⟩ := hw id v hv
        exact hd.named _ _ _ _ hnew hinst (hname ▸ hjob))
    obtain ⟨r, m', hrest, h'⟩ :=
      ih h₁ (hw.withInstance hinst) fun i hi => hall i (List.mem_cons_of_mem inst hi)
    refine ⟨r₁ || r, m', ?_, h'⟩
    rw [InstanceManager.addInstances] at hrest ⊢
    rw [forInstances, hadd]
    simp only [hrest]
    rfl

theorem foldl_withInstance (toAdd : List Instance) :
    ∀ w, (∀ inst ∈ toAdd, d.get? inst.id = some inst) → ∀ id,
      toAdd.foldl withInstance w id =
        (w id).or (if id ∈ toAdd.map (·.id) then
          (d.get? id).map fun new => (.available, new.resetWorkload) else none) := by
  induction toAdd with
  | nil =>
    intro w _ id
    simp
  | cons inst toAdd ih =>
    intro w hall id
    rw [List.foldl_cons, ih _ fun i hi => hall i (List.mem_cons_of_mem inst hi)]
    cases hw : w id with
    | some v =>
      rw [withInstance_mono (by rw [hw]; exact Option.some_ne_none v), hw]
      rfl
    | none =>
      by_cases hid : id = inst.id
      · subst hid
        simp [withInstance, hw, hall inst List.mem_cons_self]
      · simp [withInstance_ne hid, hw, hid]

/-- Whether a `SET` with `new` leaves an instance where it is. -/
def staying (new : Instance) (v : Place × Instance) : Bool :=
  decide (v.1 = .available) && !v.2.needsUpdate new

/-- The roster after a `SET`: an announced instance stays, or is put in anew. -/
def setRoster (d : Dict InstanceId Instance) (w : Roster) : Roster := fun id =>
  (d.get? id).map fun new => ((w id).filter (staying new)).getD (.available, new.resetWorkload)

theorem toRefresh_eq (h : Represents m w) (d : Dict InstanceId Instance) (id : InstanceId) :
    m.toRefresh d id = (d.get? id).any fun new => (w id).any fun v => !staying new v := by
  unfold toRefresh
  rw [findInstance_eq h]
  cases hw : w id with
  | none => cases d.get? id <;> rfl
  | some v =>
    have hplace : m.availablePool.contains id = decide (v.1 = .available) := by
      rw [Bool.eq_iff_iff, h.mem_available, hw, decide_eq_true_eq]
      constructor
      · rintro ⟨inst, heq⟩
        rw [Option.some.inj heq]
      · intro heq
        exact ⟨v.2, by rw [← heq]⟩
    cases d.get? id with
    | none => rfl
    | some new => simp [hplace, staying, Bool.not_and]

theorem mem_removed_iff (h : Represents m w) (σ : HashOrder InstanceId) (instances : List Instance) :
    id ∈ (m.computeSetDiff σ instances).2.map (·.id) ↔ w id ≠ none ∧
      ((newInstById instances).get? id = none ∨ m.toRefresh (newInstById instances) id = true) := by
  have hcontains : (newInstById instances).get? id = none ↔
      (!(newInstById instances).contains id) = true := by
    rw [Dict.contains, Bool.not_eq_true', Option.isSome_eq_false_iff, Option.isNone_iff_eq_none]
  rw [hcontains, ← mem_currentIds h, ← Bool.or_eq_true]
  constructor
  · intro hmem
    obtain ⟨old, hold, rfl⟩ := List.mem_map.mp hmem
    obtain ⟨k, hk, hfind⟩ := List.mem_filterMap.mp hold
    rw [findInstance_eq h] at hfind
    obtain ⟨v, hv, rfl⟩ := Option.map_eq_some_iff.mp hfind
    rw [(h.fits k v hv).keyed]
    rwa [HashOrder.mem_iter, List.mem_filter] at hk
  · intro hmem
    obtain ⟨v, hv⟩ := Option.ne_none_iff_exists'.mp ((mem_currentIds h).mp hmem.1)
    have hfind : m.findInstance id = some v.2 := by
      rw [findInstance_eq h, hv]
      rfl
    refine List.mem_map.mpr ⟨v.2, List.mem_filterMap.mpr ⟨id, ?_, hfind⟩, (h.fits id v hv).keyed⟩
    rwa [HashOrder.mem_iter, List.mem_filter]

theorem mem_added_iff (h : Represents m w) (σ : HashOrder InstanceId) (instances : List Instance) :
    id ∈ (m.computeSetDiff σ instances).1.map (·.id) ↔ (newInstById instances).get? id ≠ none ∧
      (w id = none ∨ m.toRefresh (newInstById instances) id = true) := by
  have hcurrent : w id = none ↔ decide (id ∉ m.currentIds) = true := by
    rw [decide_eq_true_eq, mem_currentIds h, not_not]
  rw [hcurrent, ← Bool.or_eq_true]
  constructor
  · intro hmem
    obtain ⟨new, hnew, rfl⟩ := List.mem_map.mp hmem
    obtain ⟨k, hk, hget⟩ := List.mem_filterMap.mp hnew
    obtain rfl := newInstById_keyed hget
    rw [HashOrder.mem_iter, List.mem_filter] at hk
    exact ⟨by rw [hget]; exact Option.some_ne_none new, hk.2⟩
  · rintro ⟨hne, hadded⟩
    obtain ⟨new, hnew⟩ := Option.ne_none_iff_exists'.mp hne
    refine List.mem_map.mpr ⟨new, List.mem_filterMap.mpr ⟨id, ?_, hnew⟩, newInstById_keyed hnew⟩
    rw [HashOrder.mem_iter, List.mem_filter]
    exact ⟨Dict.mem_keys_iff.mpr ⟨new, hnew⟩, hadded⟩

theorem DrawnFrom.setRoster (w : Roster) : DrawnFrom d (setRoster d w) := by
  intro id v hv
  obtain ⟨new, hnew, rfl⟩ := Option.map_eq_some_iff.mp hv
  cases hstay : (w id).filter (staying new) with
  | none => exact ⟨rfl, new, hnew, rfl, rfl⟩
  | some v =>
    obtain ⟨-, hstay⟩ := Option.filter_eq_some_iff.mp hstay
    simp only [staying, Bool.and_eq_true, decide_eq_true_eq, Bool.not_eq_true',
      Instance.needsUpdate, decide_eq_false_iff_not, not_or, not_not] at hstay
    exact ⟨hstay.1, new, hnew, hstay.2.1, hstay.2.2.2.2.2.1⟩

theorem setRoster_of_kept (h : Represents m w) (σ : HashOrder InstanceId)
    (hkept : id ∉ (m.computeSetDiff σ instances).2.map (·.id)) (hw : w id ≠ none) :
    setRoster (newInstById instances) w id = w id := by
  obtain ⟨v, hv⟩ := Option.ne_none_iff_exists'.mp hw
  rw [mem_removed_iff h, toRefresh_eq h, not_and, not_or] at hkept
  obtain ⟨hnew, hstay⟩ := hkept hw
  obtain ⟨new, hnew⟩ := Option.ne_none_iff_exists'.mp hnew
  simp only [hnew, hv, Option.any_some, Bool.not_eq_true, Bool.not_eq_false'] at hstay
  simp [setRoster, hnew, hv, Option.filter, hstay]

/-- What is removed or missing is put in anew, if it is announced. -/
theorem setRoster_of_removed (h : Represents m w) (σ : HashOrder InstanceId)
    (hgone : w id = none ∨ id ∈ (m.computeSetDiff σ instances).2.map (·.id)) :
    setRoster (newInstById instances) w id =
      if id ∈ (m.computeSetDiff σ instances).1.map (·.id) then
        ((newInstById instances).get? id).map fun new => (.available, new.resetWorkload)
      else none := by
  rw [mem_removed_iff h, toRefresh_eq h] at hgone
  have hadded : id ∈ (m.computeSetDiff σ instances).1.map (·.id) ↔ _ := mem_added_iff h σ instances
  rw [toRefresh_eq h] at hadded
  unfold setRoster
  cases hnew : (newInstById instances).get? id with
  | none => simp
  | some new =>
    simp only [hnew, ne_eq, reduceCtorEq, not_false_eq_true, true_and, Option.any_some] at hadded
    simp only [hnew, reduceCtorEq, false_or, Option.any_some] at hgone
    have hmem : w id = none ∨ (w id).any (fun v => !staying new v) = true :=
      hgone.imp_right fun hremoved => hremoved.2
    rw [if_pos (hadded.mpr hmem)]
    cases hw : w id with
    | none => rfl
    | some v =>
      simp only [hw, reduceCtorEq, false_or, Option.any_some, Bool.not_eq_true'] at hmem
      simp [Option.filter, hmem]

/-- **A `SET`** makes the announced instances available, and forgets all others. -/
theorem Represents.setInstances_eq (h : Represents m w) (σ : HashOrder InstanceId)
    (hd : WellNamed (newInstById instances)) :
    ∃ r m', m.setInstances σ instances = (.ok r, m') ∧
      Represents m' (setRoster (newInstById instances) w) := by
  obtain ⟨r₁, m₁, hdel, h₁⟩ := Represents.deleteInstances (m.computeSetDiff σ instances).2 h
  have hall : ∀ inst ∈ (m.computeSetDiff σ instances).1,
      (newInstById instances).get? inst.id = some inst := by
    intro inst hinst
    obtain ⟨k, -, hk⟩ := List.mem_filterMap.mp hinst
    rwa [newInstById_keyed hk]
  have hdrawn : DrawnFrom (newInstById instances) fun id =>
      if id ∈ (m.computeSetDiff σ instances).2.map (·.id) then none else w id := by
    intro id v hv
    simp only at hv
    split at hv
    · cases hv
    · next hkept =>
      refine DrawnFrom.setRoster w id v ?_
      rwa [setRoster_of_kept h σ hkept (by rw [hv]; exact Option.some_ne_none v)]
  obtain ⟨r, m', hadd, h'⟩ := DrawnFrom.addInstances hd (m.computeSetDiff σ instances).1 h₁ hdrawn hall
  have hroster : (m.computeSetDiff σ instances).1.foldl withInstance (fun id =>
      if id ∈ (m.computeSetDiff σ instances).2.map (·.id) then none else w id) =
        setRoster (newInstById instances) w := by
    funext id
    rw [foldl_withInstance _ _ hall]
    by_cases hremoved : id ∈ (m.computeSetDiff σ instances).2.map (·.id)
    · rw [if_pos hremoved, Option.none_or, setRoster_of_removed h σ (Or.inr hremoved)]
    · rw [if_neg hremoved]
      cases hw : w id with
      | none => rw [Option.none_or, setRoster_of_removed h σ (Or.inl hw)]
      | some v =>
        rw [Option.some_or, ← hw]
        exact (setRoster_of_kept h σ hremoved (by rw [hw]; exact Option.some_ne_none v)).symm
  rw [hroster] at h'
  unfold InstanceManager.setInstances
  simp only
  split
  · next hnone =>
    -- nothing to remove and nothing to add
    rw [Bool.and_eq_true, List.isEmpty_iff, List.isEmpty_iff] at hnone
    rw [hnone.1] at hdel
    rw [hnone.2] at hadd
    cases hdel
    cases hadd
    exact ⟨false, _, rfl, h'⟩
  · rw [hdel]
    simp only [hadd]
    exact ⟨true, _, rfl, h'⟩

theorem setRoster_ne_none {new : Instance} (hnew : d.get? id = some new) : setRoster d w id ≠ none := by
  simp [setRoster, hnew]

end Set

end PyMotor.Coordinator.InstanceManager
