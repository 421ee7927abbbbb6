import Mathlib.Data.List.Sort
import PyMotor.Coordinator.InstanceManager.Pools
import PyMotor.Lib.Replica

/-!
# The instance cache of a worker

Every worker has a copy of the available instances (`_SchedulerInstanceCache` in
`coordinator/scheduler/runtime/scheduler_client.py`): for each role a list that is read without a
lock, and the same instances by id. A full pull replaces the instances of a role, and a published
change adds or removes single ones. The index of the endpoints, which only the loads go through, is
left out.

`members` is the copy as a set of roles and ids, and the changes are patches of this set.
-/

namespace PyMotor.Coordinator

/-- What `str.strip` takes off. -/
def isSpace (c : Char) : Bool :=
  decide (c.toNat ∈ [9, 10, 11, 12, 13, 28, 29, 30, 31, 32, 0x85, 0xa0, 0x1680, 0x2028, 0x2029,
    0x202f, 0x205f, 0x3000]) || decide (0x2000 ≤ c.toNat ∧ c.toNat ≤ 0x200a)

/-- The role as `_role_of` reads it: without surrounding space, in any case, and with one more
historical name. Only the ASCII letters are lowered, as no other character becomes a letter of a role. -/
def PDRole.ofLooseString (s : String) : Option PDRole :=
  let stripped := ((s.toList.dropWhile isSpace).reverse.dropWhile isSpace).reverse
  let normalized := stripped.map Char.toLower
  if normalized = "hybrid".toList then some .union
  else if normalized = "encode".toList then some .encode
  else if normalized = "prefill".toList then some .prefill
  else if normalized = "decode".toList then some .decode
  else if normalized = "union".toList ∨ normalized = "both".toList then some .union
  else none

theorem PDRole.ofLooseString_of_ofString {s : String} {role : PDRole}
    (h : PDRole.ofString s = some role) : PDRole.ofLooseString s = some role := by
  unfold PDRole.ofString at h
  split at h
  · next hs =>
    subst hs
    rw [← h]
    decide
  · split at h
    · next hs =>
      subst hs
      rw [← h]
      decide
    · split at h
      · next hs =>
        subst hs
        rw [← h]
        decide
      · split at h
        · next hs =>
          rw [← h]
          rcases hs with rfl | rfl <;> decide
        · cases h

/-- `sorted(instances, key=lambda i: i.id)`. -/
def sortById (instances : List Instance) : List Instance :=
  instances.insertionSort fun a b => a.id ≤ b.id

theorem mem_ids_sortById {instances : List Instance} {id : InstanceId} :
    id ∈ (sortById instances).map (·.id) ↔ id ∈ instances.map (·.id) :=
  ((List.perm_insertionSort _ instances).map _).mem_iff

structure InstanceCache where
  instanceCache : PDRole → List Instance
  instanceMap : PDRole → Dict InstanceId Instance

namespace InstanceCache

def new : InstanceCache := ⟨fun _ => [], fun _ => ∅⟩

def replaceAll (c : InstanceCache) (role : PDRole) (instances : List Instance) : InstanceCache where
  instanceCache := Function.update c.instanceCache role instances
  instanceMap := Function.update c.instanceMap role (InstanceManager.newInstById instances)

/-- Exchange the instances of a role, and sort the list anew. -/
def setRole (c : InstanceCache) (role : PDRole) (roleMap : Dict InstanceId Instance) :
    InstanceCache where
  instanceCache := Function.update c.instanceCache role (sortById roleMap.values)
  instanceMap := Function.update c.instanceMap role roleMap

def dropFromRole (c : InstanceCache) (id : InstanceId) (role : PDRole) : InstanceCache :=
  if (c.instanceMap role).contains id then c.setRole role ((c.instanceMap role).erase id) else c

/-- Remove an id from every role. -/
def drop (c : InstanceCache) (id : InstanceId) : InstanceCache :=
  PDRole.all.foldl (fun c role => c.dropFromRole id role) c

/-- Insert an instance under a role, and nowhere else. -/
def upsert (c : InstanceCache) (inst : Instance) (role : PDRole) : InstanceCache :=
  let c := c.drop inst.id
  c.setRole role ((c.instanceMap role).insert inst.id inst)

/-- `none` if a role is unknown; then nothing changes. -/
def applyAdd (c : InstanceCache) (instances : List Instance) : Option InstanceCache :=
  (instances.mapM fun inst => (PDRole.ofLooseString inst.role).map (inst, ·)).map
    fun resolved => resolved.foldl (fun c p => c.upsert p.1 p.2) c

def applyRemove (c : InstanceCache) (instances : List Instance) : InstanceCache :=
  instances.foldl (fun c inst => c.drop inst.id) c

/-! ## The cache as a set -/

/-- The ids that are cached, each with its role. -/
def members (c : InstanceCache) : Set (PDRole × InstanceId) :=
  {k | k.2 ∈ (c.instanceCache k.1).map (·.id)}

/-- An instance is filed under its own id. -/
def Keyed (roleMap : Dict InstanceId Instance) : Prop :=
  ∀ id inst, roleMap.get? id = some inst → inst.id = id

/-- The lists and the maps have the same instances. -/
structure WF (c : InstanceCache) : Prop where
  listed : ∀ role id, id ∈ (c.instanceCache role).map (·.id) ↔ (c.instanceMap role).contains id = true
  keyed : ∀ role, Keyed (c.instanceMap role)

variable {c : InstanceCache} {role : PDRole} {id : InstanceId}

theorem WF.mem_members (h : c.WF) {k : PDRole × InstanceId} :
    k ∈ c.members ↔ (c.instanceMap k.1).contains k.2 = true :=
  h.listed k.1 k.2

theorem new_wf : new.WF := ⟨fun _ _ => by simp [new, Dict.contains], fun _ _ _ h => by cases h⟩

theorem Keyed.mem_values {roleMap : Dict InstanceId Instance} (h : Keyed roleMap) :
    id ∈ roleMap.values.map (·.id) ↔ roleMap.contains id = true := by
  rw [List.mem_map, Dict.contains_iff]
  constructor
  · intro ⟨inst, hinst, hid⟩
    obtain ⟨id', hget⟩ := Dict.mem_values_iff.mp hinst
    rw [h id' inst hget] at hid
    subst hid
    exact ⟨inst, hget⟩
  · intro ⟨inst, hget⟩
    exact ⟨inst, Dict.mem_values_iff.mpr ⟨id, hget⟩, h id inst hget⟩

theorem Keyed.nodup_ids {roleMap : Dict InstanceId Instance} (h : Keyed roleMap) :
    (roleMap.values.map (·.id)).Nodup := by
  have hkeys : roleMap.values.map (·.id) = roleMap.keys := by
    unfold Dict.values Dict.keys
    rw [List.map_map]
    apply List.map_congr_left
    rintro ⟨id, inst⟩ hmem
    exact h id inst (Dict.mem_entries_iff.mp hmem)
  rw [hkeys]
  exact roleMap.nodup

theorem keyed_newInstById (instances : List Instance) :
    Keyed (InstanceManager.newInstById instances) :=
  fun _ _ h => InstanceManager.newInstById_keyed h

theorem contains_newInstById {instances : List Instance} :
    (InstanceManager.newInstById instances).contains id = true ↔ id ∈ instances.map (·.id) := by
  rw [InstanceManager.newInstById, Dict.contains_foldl_insert]
  simp [Dict.contains]

theorem Keyed.get?_newInstById {roleMap : Dict InstanceId Instance} (h : Keyed roleMap) :
    (InstanceManager.newInstById roleMap.values).get? id = roleMap.get? id := by
  ext inst
  constructor
  · intro hget
    rcases Dict.of_get?_foldl_insert roleMap.values ∅ hget with hempty | ⟨inst', hmem, hid, rfl⟩
    · cases hempty
    · obtain ⟨id', hget'⟩ := Dict.mem_values_iff.mp hmem
      rwa [← hid, h id' inst' hget']
  · intro hget
    apply Dict.get?_foldl_insert
    · intro inst' hmem hid
      obtain ⟨id', hget'⟩ := Dict.mem_values_iff.mp hmem
      rw [h id' inst' hget'] at hid
      rw [hid, hget] at hget'
      exact (Option.some.inj hget').symm
    · exact Or.inr ⟨inst, Dict.mem_values_iff.mpr ⟨id, hget⟩, h id inst hget⟩

/-! ## Operations -/

theorem WF.replaceAll (h : c.WF) (role : PDRole) (instances : List Instance) :
    (c.replaceAll role instances).WF where
  listed role' id := by
    unfold InstanceCache.replaceAll
    by_cases heq : role' = role
    · subst heq
      simp only [Function.update_self]
      exact contains_newInstById.symm
    · simp only [Function.update_of_ne heq]
      exact h.listed role' id
  keyed role' := by
    unfold InstanceCache.replaceAll
    by_cases heq : role' = role
    · subst heq
      simp only [Function.update_self]
      exact keyed_newInstById instances
    · simp only [Function.update_of_ne heq]
      exact h.keyed role'

theorem mem_members_replaceAll {instances : List Instance} {k : PDRole × InstanceId} :
    k ∈ (c.replaceAll role instances).members ↔
      if k.1 = role then k.2 ∈ instances.map (·.id) else k ∈ c.members := by
  unfold InstanceCache.replaceAll members
  split
  · next heq => simp [heq]
  · next hne => simp [hne]

theorem WF.setRole (h : c.WF) {roleMap : Dict InstanceId Instance} (hkeyed : Keyed roleMap) :
    (c.setRole role roleMap).WF where
  listed role' id := by
    unfold InstanceCache.setRole
    by_cases heq : role' = role
    · subst heq
      simp only [Function.update_self]
      rw [mem_ids_sortById, hkeyed.mem_values]
    · simp only [Function.update_of_ne heq]
      exact h.listed role' id
  keyed role' := by
    unfold InstanceCache.setRole
    by_cases heq : role' = role
    · subst heq
      simpa only [Function.update_self] using hkeyed
    · simp only [Function.update_of_ne heq]
      exact h.keyed role'

theorem mem_members_setRole {roleMap : Dict InstanceId Instance} (hkeyed : Keyed roleMap)
    {k : PDRole × InstanceId} :
    k ∈ (c.setRole role roleMap).members ↔
      if k.1 = role then roleMap.contains k.2 = true else k ∈ c.members := by
  unfold InstanceCache.setRole members
  split
  · next heq =>
    rw [← hkeyed.mem_values, ← mem_ids_sortById]
    simp [heq]
  · next hne => simp [hne]

theorem Keyed.erase {roleMap : Dict InstanceId Instance} (h : Keyed roleMap) (id : InstanceId) :
    Keyed (roleMap.erase id) := by
  intro id' inst hget
  exact h id' inst (Dict.get?_of_erase hget)

theorem Keyed.insert {roleMap : Dict InstanceId Instance} (h : Keyed roleMap) (inst : Instance) :
    Keyed (roleMap.insert inst.id inst) := by
  intro id' inst' hget
  rw [Dict.get?_insert] at hget
  split at hget
  · next heq =>
    cases hget
    exact heq
  · exact h id' inst' hget

theorem WF.dropFromRole (h : c.WF) (id : InstanceId) (role : PDRole) :
    (c.dropFromRole id role).WF ∧ ∀ k, k ∈ (c.dropFromRole id role).members ↔
      k ∈ c.members ∧ ¬ (k.1 = role ∧ k.2 = id) := by
  have hkeyed := (h.keyed role).erase id
  unfold InstanceCache.dropFromRole
  split
  · refine ⟨h.setRole hkeyed, fun k => ?_⟩
    rw [mem_members_setRole hkeyed]
    split
    · next heq =>
      rw [h.mem_members, heq, Dict.contains, Dict.get?_erase, Dict.contains]
      grind
    · next hne => simp [hne]
  · next hnot =>
    refine ⟨h, fun k => ⟨fun hk => ⟨hk, ?_⟩, And.left⟩⟩
    rintro ⟨hrole, hid⟩
    apply hnot
    rwa [← hrole, ← hid, ← h.mem_members]

theorem WF.drop (h : c.WF) (id : InstanceId) :
    (c.drop id).WF ∧ ∀ k, k ∈ (c.drop id).members ↔ k ∈ c.members ∧ k.2 ≠ id := by
  have aux : ∀ (roles : List PDRole) {c : InstanceCache}, c.WF →
      (roles.foldl (fun c role => c.dropFromRole id role) c).WF ∧
        ∀ k, k ∈ (roles.foldl (fun c role => c.dropFromRole id role) c).members ↔
          k ∈ c.members ∧ ¬ (k.1 ∈ roles ∧ k.2 = id) := by
    intro roles
    induction roles with
    | nil => simp
    | cons role roles ih =>
      intro c h
      obtain ⟨h₁, hmem₁⟩ := h.dropFromRole id role
      obtain ⟨h₂, hmem₂⟩ := ih h₁
      refine ⟨h₂, fun k => ?_⟩
      rw [List.foldl_cons, hmem₂, hmem₁, List.mem_cons]
      grind
  obtain ⟨hwf, hmem⟩ := aux PDRole.all h
  refine ⟨hwf, fun k => ?_⟩
  rw [InstanceCache.drop, hmem]
  simp [PDRole.mem_all]

/-- The change that one entry of a published addition makes. -/
def addPatch (inst : Instance) : SetPatch (PDRole × InstanceId) :=
  .overwrite {k | k.2 = inst.id} {k | PDRole.ofLooseString inst.role = some k.1}

/-- The change that one entry of a published removal makes. -/
def removePatch (inst : Instance) : SetPatch (PDRole × InstanceId) :=
  .overwrite {k | k.2 = inst.id} ∅

theorem WF.upsert (h : c.WF) {inst : Instance} (hrole : PDRole.ofLooseString inst.role = some role) :
    (c.upsert inst role).WF ∧ (c.upsert inst role).members = (addPatch inst).apply c.members := by
  obtain ⟨hdrop, hmem⟩ := h.drop inst.id
  have hkeyed := (hdrop.keyed role).insert inst
  refine ⟨hdrop.setRole hkeyed, ?_⟩
  ext k
  rw [InstanceCache.upsert, mem_members_setRole hkeyed, addPatch, SetPatch.mem_overwrite]
  simp only [Set.mem_ofPred_eq, hrole, Option.some.injEq]
  split
  · next heq =>
    rw [Dict.contains_insert]
    have hk := hmem k
    rw [hdrop.mem_members, heq] at hk
    rw [hk, heq]
    grind
  · next hne =>
    rw [hmem k]
    grind

/-- **A published addition** patches the cache, entry by entry. -/
theorem WF.applyAdd {c' : InstanceCache} (h : c.WF) {instances : List Instance}
    (ha : c.applyAdd instances = some c') :
    c'.WF ∧ c'.members = (SetPatch.sequence (instances.map addPatch)).apply c.members := by
  obtain ⟨resolved, hresolved, rfl⟩ := Option.map_eq_some_iff.mp ha
  clear ha
  induction instances generalizing c resolved with
  | nil =>
    cases hresolved
    exact ⟨h, rfl⟩
  | cons inst instances ih =>
    rw [List.mapM_cons] at hresolved
    obtain ⟨p, hp, hresolved⟩ := Option.bind_eq_some_iff.mp hresolved
    obtain ⟨rest, hrest, hresolved⟩ := Option.bind_eq_some_iff.mp hresolved
    obtain ⟨role, hrole, rfl⟩ := Option.map_eq_some_iff.mp hp
    cases hresolved
    obtain ⟨h₁, hmem₁⟩ := h.upsert hrole
    obtain ⟨h₂, hmem₂⟩ := ih h₁ rest hrest
    refine ⟨h₂, ?_⟩
    rw [List.foldl_cons, hmem₂, hmem₁]
    rfl

/-- **A published removal** patches the cache, entry by entry. -/
theorem WF.applyRemove (h : c.WF) (instances : List Instance) :
    (c.applyRemove instances).WF ∧
      (c.applyRemove instances).members =
        (SetPatch.sequence (instances.map removePatch)).apply c.members := by
  unfold InstanceCache.applyRemove
  induction instances generalizing c with
  | nil => exact ⟨h, rfl⟩
  | cons inst instances ih =>
    obtain ⟨h₁, hmem₁⟩ := h.drop inst.id
    obtain ⟨h₂, hmem₂⟩ := ih h₁
    refine ⟨h₂, ?_⟩
    have hfirst : (c.drop inst.id).members = (removePatch inst).apply c.members := by
      ext k
      rw [hmem₁, removePatch, SetPatch.mem_overwrite]
      simp [and_comm]
    rw [List.foldl_cons, hmem₂, hfirst]
    rfl

end InstanceCache

end PyMotor.Coordinator
