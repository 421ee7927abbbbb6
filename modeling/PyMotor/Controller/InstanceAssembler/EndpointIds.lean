import Mathlib
import PyMotor.Controller.InstanceAssembler.Pods

/-!
# Ids of the endpoints

The endpoints of a pod that registers are numbered from the number of endpoints that are there. As long
as pods only join, the ids are the numbers from zero on. When a pod is lost, the count goes down, and the
next pod is given ids that a pod behind the lost one has already. So the ids of a complete instance are
right if only the last pods are ever lost (`assembled_numbered`).
-/

namespace PyMotor.Controller

open Coordinator (InstanceId EndpointId DeviceInfo NodeManagerInfo)

/-- The ranks of the devices lie in the endpoint's own range of `d` numbers, each of them once. -/
def Endpoint.RanksFrom (d : Int) (ep : Endpoint) : Prop :=
  ∃ js : List ℕ, js.Nodup ∧ (∀ j ∈ js, (j : Int) < d) ∧
    ep.deviceInfos.map (·.rankId) = js.map fun j : ℕ => toString (ep.id * d + j)

namespace Instance

/-- The endpoints that the instance offers. Of a single one per pod, that is the one with the id zero. -/
def getAllEndpoints (i : Instance) : List Endpoint :=
  i.allEndpoints.filter fun ep => !ep.headless && (i.enableMultiEndpoints || decide (ep.id = 0))

/-- The endpoints are numbered from zero on, and no device shares its rank with another. -/
structure Numbered (i : Instance) : Prop where
  ids : (i.allEndpoints.map (·.id)).Perm ((List.range i.getEndpointsNum).map fun k : ℕ => (k : Int))
  ranks : (i.allEndpoints.flatMap fun ep => ep.deviceInfos.map (·.rankId)).Nodup
  single : i.enableMultiEndpoints = false →
    (i.allEndpoints.countP fun ep => decide (ep.id = 0)) = 1 ∧ i.getAllEndpoints ≠ []

def localWorldSize (i : Instance) : Int := (i.parallelConfig.map (·.localWorldSize)).getD 0

/-- The pods of an entry, in the order in which they joined. -/
structure Tidy (i : Instance) : Prop where
  addresses : (i.nodeManagers.map (·.podIp)).Nodup
  pods : ∀ podIp ∈ i.endpoints.keys, podIp ∈ i.nodeManagers.map (·.podIp)
  ids : i.allEndpoints.map (·.id) = (List.range i.allEndpoints.length).map fun k : ℕ => (k : Int)
  ranks : ∀ ep ∈ i.allEndpoints, ep.RanksFrom i.localWorldSize
  headless : ∀ ep ∈ i.allEndpoints, ep.headless = false
  single : i.enableMultiEndpoints = false →
    i.endpoints.keys = i.nodeManagers.map (·.podIp) ∧ ∀ pod ∈ i.endpoints.values, pod.values ≠ []

theorem getEndpointsNum_eq (i : Instance) : i.getEndpointsNum = i.allEndpoints.length := by
  rw [allEndpoints, List.length_flatMap, getEndpointsNum]
  congr 1
  refine List.map_congr_left fun pod _ => ?_
  simp [Dict.size, Dict.values]

end Instance

/-! ## Ranks -/

theorem toString_int_injective {a b : Int} (h : toString a = toString b) : a = b := Int.repr_inj.mp h

theorem ranks_disjoint {d : Int} {ep ep' : Endpoint} (hne : ep.id ≠ ep'.id) (h : ep.RanksFrom d)
    (h' : ep'.RanksFrom d) :
    (ep.deviceInfos.map (·.rankId)).Disjoint (ep'.deviceInfos.map (·.rankId)) := by
  obtain ⟨js, -, hbound, hranks⟩ := h
  obtain ⟨js', -, hbound', hranks'⟩ := h'
  rw [hranks, hranks']
  intro rank hmem hmem'
  obtain ⟨j, hj, rfl⟩ := List.mem_map.mp hmem
  obtain ⟨j', hj', heq⟩ := List.mem_map.mp hmem'
  have hsum := toString_int_injective heq
  have hdiv (id : Int) (n : ℕ) (hn : (n : Int) < d) : (id * d + n) / d = id := by
    have hpos : 0 < d := lt_of_le_of_lt (Int.natCast_nonneg n) hn
    rw [add_comm, Int.add_mul_ediv_right _ _ (ne_of_gt hpos),
      Int.ediv_eq_zero_of_lt (Int.natCast_nonneg n) hn, zero_add]
  apply hne
  rw [← hdiv ep.id j (hbound j hj), ← hdiv ep'.id j' (hbound' j' hj'), hsum]

theorem Endpoint.RanksFrom.nodup {d : Int} {ep : Endpoint} (h : ep.RanksFrom d) :
    (ep.deviceInfos.map (·.rankId)).Nodup := by
  obtain ⟨js, hnodup, -, hranks⟩ := h
  rw [hranks]
  refine hnodup.map fun j j' heq => ?_
  have hsum := toString_int_injective heq
  omega

/-! ## Endpoints of a pod -/

theorem zipIdx_of_prefix {α : Type} {l : List α} {l' : List (α × ℕ)} (h : l' <+: l.zipIdx) :
    ∃ l₀ : List α, l' = l₀.zipIdx := by
  refine ⟨l.take l'.length, ?_⟩
  have hlength : (l.take l'.length).zipIdx.length = l'.length := by
    have := h.length_le
    rw [List.length_zipIdx] at this
    rw [List.length_zipIdx, List.length_take, Nat.min_eq_left this]
  have hsplit : l.zipIdx = (l.take l'.length).zipIdx ++
      (l.drop l'.length).zipIdx (0 + (l.take l'.length).length) := by
    rw [← List.zipIdx_append, List.take_append_drop]
  have htake := List.prefix_iff_eq_take.mp h
  rw [hsplit] at htake
  exact htake.trans (List.take_left' hlength)

namespace RegisterMsg

variable {msg : RegisterMsg} {offset : ℕ} {endpoints : Dict EndpointId Endpoint}

/-- The endpoint with the number `i` of the pod gets the `i`-th range of devices. -/
theorem ranksFrom_newEndpoint {i : ℕ} {infos : List DeviceInfo} (port mgmtPort : String)
    (hplain : msg.ranktable = none)
    (hinfos : msg.buildDeviceInfos (msg.parallelConfig.localWorldSize * i)
      msg.parallelConfig.localWorldSize offset = some infos) :
    (newEndpoint ((offset : Int) + i) msg.podIp port mgmtPort msg.bootstrapPort infos).RanksFrom
      msg.parallelConfig.localWorldSize := by
  generalize msg.parallelConfig.localWorldSize = d at hinfos ⊢
  simp only [buildDeviceInfos, hplain, Option.some.injEq, bind_pure_comp, List.map_eq_map,
    List.map_map] at hinfos
  subst hinfos
  refine ⟨(List.range d.toNat).filter fun j : ℕ => decide (d * i + j < msg.deviceNum),
    List.nodup_range.filter _, fun j hj => ?_, ?_⟩
  · have hlt := List.mem_range.mp (List.mem_of_mem_filter hj)
    omega
  · rw [newEndpoint, List.filter_map, List.map_map, List.map_map]
    refine List.map_congr_left fun j _ => ?_
    simp only [Function.comp]
    congr 1
    ring

/-- The endpoints of a pod continue the numbering. -/
structure Continues (msg : RegisterMsg) (offset : ℕ) (endpoints : Dict EndpointId Endpoint) : Prop where
  ids : endpoints.values.map (·.id) =
    (List.range endpoints.values.length).map fun k : ℕ => (offset : Int) + k
  ranks : ∀ ep ∈ endpoints.values, ep.RanksFrom msg.parallelConfig.localWorldSize
  headless : ∀ ep ∈ endpoints.values, ep.headless = false

theorem continues_buildSingleEndpoint (hplain : msg.ranktable = none)
    (h : msg.buildSingleEndpoint offset = some endpoints) :
    msg.Continues offset endpoints ∧ endpoints.values ≠ [] := by
  unfold buildSingleEndpoint at h
  split at h
  · next infos port _ mgmtPort _ hinfos _ _ =>
    cases h
    have hranks : (newEndpoint offset msg.podIp port mgmtPort msg.bootstrapPort infos).RanksFrom
        msg.parallelConfig.localWorldSize := by
      have := ranksFrom_newEndpoint (i := 0) port mgmtPort hplain (by simpa using hinfos)
      simpa only [Nat.cast_zero, add_zero] using this
    have hvalues : ((∅ : Dict EndpointId Endpoint).insert 0
        (newEndpoint offset msg.podIp port mgmtPort msg.bootstrapPort infos)).values =
        [newEndpoint offset msg.podIp port mgmtPort msg.bootstrapPort infos] := rfl
    refine ⟨⟨?_, ?_, ?_⟩, ?_⟩
    · rw [hvalues]
      simp [newEndpoint, List.range_succ]
    · rw [hvalues]
      simpa using hranks
    · rw [hvalues]
      simp [newEndpoint]
    · simp [hvalues]
  · cases h

theorem Continues.snoc {ep : Endpoint} (h : msg.Continues offset endpoints)
    (hkeys : endpoints.keys = (List.range endpoints.values.length).map fun k : ℕ => (k : Int))
    (hid : ep.id = (offset : Int) + endpoints.values.length)
    (hranks : ep.RanksFrom msg.parallelConfig.localWorldSize) (hheadless : ep.headless = false) :
    (endpoints.insert (endpoints.values.length : Int) ep).keys =
        (List.range (endpoints.insert (endpoints.values.length : Int) ep).values.length).map
          (fun k : ℕ => (k : Int)) ∧
      (endpoints.insert (endpoints.values.length : Int) ep).values = endpoints.values ++ [ep] ∧
      msg.Continues offset (endpoints.insert (endpoints.values.length : Int) ep) := by
  have hfresh : (endpoints.values.length : Int) ∉ endpoints.keys := by
    rw [hkeys]
    intro hmem
    obtain ⟨k, hk, heq⟩ := List.mem_map.mp hmem
    have := List.mem_range.mp hk
    omega
  have hentries := Dict.entries_insert_of_notMem (v := ep) hfresh
  have hvalues : (endpoints.insert (endpoints.values.length : Int) ep).values =
      endpoints.values ++ [ep] := by
    rw [Dict.values, hentries, List.map_append]
    rfl
  refine ⟨?_, hvalues, ?_, ?_, ?_⟩
  · rw [hvalues, Dict.keys, hentries, List.map_append, List.length_append, List.length_singleton,
      List.range_succ, List.map_append, ← hkeys]
    rfl
  · rw [hvalues, List.map_append, h.ids, List.length_append, List.length_singleton, List.range_succ,
      List.map_append, List.map_singleton, List.map_singleton, hid]
  · rw [hvalues]
    exact List.forall_mem_append.mpr ⟨h.ranks, List.forall_mem_singleton.mpr hranks⟩
  · rw [hvalues]
    exact List.forall_mem_append.mpr ⟨h.headless, List.forall_mem_singleton.mpr hheadless⟩

theorem continues_buildMultiEndpoints (hplain : msg.ranktable = none)
    (h : msg.buildMultiEndpoints offset = some endpoints) : msg.Continues offset endpoints := by
  have haux (ports : List String) : ∀ endpoints : Dict EndpointId Endpoint,
      ports.zipIdx.foldlM (fun endpoints p =>
        (msg.buildDeviceInfos (msg.parallelConfig.localWorldSize * p.2)
            msg.parallelConfig.localWorldSize offset).bind fun deviceInfos =>
          (msg.mgmtPort[p.2]?).map fun mgmtPort =>
            Dict.insert endpoints (p.2 : Int)
              (newEndpoint (offset + p.2) msg.podIp p.1 mgmtPort msg.bootstrapPort deviceInfos)) ∅ =
        some endpoints →
      endpoints.values.length = ports.length ∧
        endpoints.keys = (List.range endpoints.values.length).map (fun k : ℕ => (k : Int)) ∧
        msg.Continues offset endpoints := by
    induction ports using List.reverseRecOn with
    | nil =>
      intro endpoints h
      cases h
      exact ⟨rfl, rfl, rfl, by simp, by simp⟩
    | append_singleton ports port ih =>
      intro endpoints h
      rw [List.zipIdx_append, List.foldlM_append] at h
      obtain ⟨before, hbefore, hlast⟩ := Option.bind_eq_some_iff.mp h
      obtain ⟨hlength, hkeys, hcontinues⟩ := ih before hbefore
      simp only [Nat.zero_add, List.zipIdx_cons, List.zipIdx_nil, List.foldlM_cons, List.foldlM_nil,
        Option.bind_eq_bind] at hlast
      obtain ⟨after, hafter, heq⟩ := Option.bind_eq_some_iff.mp hlast
      cases heq
      obtain ⟨infos, hinfos, hport⟩ := Option.bind_eq_some_iff.mp hafter
      obtain ⟨mgmtPort, -, rfl⟩ := Option.map_eq_some_iff.mp hport
      rw [← hlength] at hinfos ⊢
      obtain ⟨hkeys', hvalues, hcontinues'⟩ := hcontinues.snoc hkeys rfl
        (ranksFrom_newEndpoint port mgmtPort hplain hinfos) rfl
      refine ⟨?_, hkeys', hcontinues'⟩
      rw [hvalues, List.length_append, List.length_append, hlength]
      rfl
  unfold buildMultiEndpoints at h
  -- the loop ends early, at the first port without devices
  obtain ⟨ports, hports⟩ : ∃ ports : List String,
      (msg.actualPorts.zipIdx.takeWhile fun p =>
        decide (msg.parallelConfig.localWorldSize * (p.2 + 1) ≤ msg.deviceNum)) = ports.zipIdx :=
    zipIdx_of_prefix (List.takeWhile_prefix _)
  refine haux ports endpoints ?_ |>.2.2
  rw [← hports]
  exact h

theorem continues_buildEndpoints (hplain : msg.ranktable = none)
    (h : msg.buildEndpoints offset = some endpoints) :
    msg.Continues offset endpoints ∧ (msg.enableMultiEndpoints = false → endpoints.values ≠ []) := by
  unfold buildEndpoints at h
  split at h
  · next hmulti => exact ⟨continues_buildMultiEndpoints hplain h, fun hsingle => by simp [hmulti] at hsingle⟩
  · obtain ⟨hcontinues, hne⟩ := continues_buildSingleEndpoint hplain h
    exact ⟨hcontinues, fun _ => hne⟩

/-- A single endpoint needs one port of either kind. -/
theorem buildEndpoints_isSome (offset : ℕ) (hplain : msg.ranktable = none) (hsingle : msg.enableMultiEndpoints = false)
    (hports : msg.businessPort ≠ [] ∧ msg.mgmtPort ≠ []) :
    ∃ endpoints, msg.buildEndpoints offset = some endpoints := by
  obtain ⟨port, ports, hport⟩ := List.exists_cons_of_ne_nil hports.1
  obtain ⟨mgmtPort, mgmtPorts, hmgmtPort⟩ := List.exists_cons_of_ne_nil hports.2
  simp [buildEndpoints, hsingle, buildSingleEndpoint, buildDeviceInfos, hplain, hport, hmgmtPort]

end RegisterMsg

/-! ## The pods of an entry -/

namespace Instance

variable {i : Instance} {msg : RegisterMsg} {alive : NodeManagerInfo → Bool}

theorem tidy_empty (hmgrs : i.nodeManagers = []) (hendpoints : i.endpoints = ∅) : i.Tidy := by
  have hnone : i.allEndpoints = [] := by rw [allEndpoints, hendpoints]; rfl
  constructor
  · simp [hmgrs]
  · simp [hendpoints, Dict.keys, EmptyCollection.emptyCollection, Dict.empty]
  · simp [hnone]
  · simp [hnone]
  · simp [hnone]
  · intro _
    rw [hmgrs, hendpoints]
    exact ⟨rfl, by simp⟩

/-- The message fits the entry: of the same kind, and with the ports that a single endpoint needs. -/
structure Fits (i : Instance) (msg : RegisterMsg) : Prop where
  plain : msg.ranktable = none
  multi : msg.enableMultiEndpoints = i.enableMultiEndpoints
  worldSize : msg.parallelConfig.localWorldSize = i.localWorldSize
  ports : msg.enableMultiEndpoints = false → msg.businessPort ≠ [] ∧ msg.mgmtPort ≠ []

theorem Tidy.joined (h : i.Tidy) (hnew : i.hasNodeMgr msg.podIp = false) (hfits : i.Fits msg) :
    (i.joined msg).Tidy := by
  have hfresh := notMem_of_hasNodeMgr hnew
  have haddresses := nodup_append_nodeMgr h.addresses hnew
  have hmono : ∀ podIp ∈ i.endpoints.keys, podIp ∈ (i.nodeManagers ++ [msg.nodeMgr]).map (·.podIp) := by
    intro podIp hmem
    rw [List.map_append]
    exact List.mem_append_left _ (h.pods podIp hmem)
  rw [Instance.joined]
  cases hbuild : msg.buildEndpoints i.getEndpointsNum with
  | none =>
    rw [addNodeMgr_eq hnew]
    refine ⟨haddresses, hmono, h.ids, h.ranks, h.headless, fun hsingle => ?_⟩
    -- in single-endpoint mode the message names its ports, so endpoints are built
    obtain ⟨endpoints, hsome⟩ := RegisterMsg.buildEndpoints_isSome i.getEndpointsNum hfits.plain
      (hfits.multi.trans hsingle) (hfits.ports (hfits.multi.trans hsingle))
    rw [hbuild] at hsome
    cases hsome
  | some endpoints =>
    obtain ⟨hcontinues, hne⟩ := RegisterMsg.continues_buildEndpoints hfits.plain hbuild
    -- the pod is new, so its endpoints come last
    have hentries := Dict.entries_insert_of_notMem (v := endpoints) fun hmem => hfresh (h.pods _ hmem)
    have hkeys : (i.endpoints.insert msg.podIp endpoints).keys = i.endpoints.keys ++ [msg.podIp] := by
      rw [Dict.keys, hentries, List.map_append]
      rfl
    have hvalues : (i.endpoints.insert msg.podIp endpoints).values = i.endpoints.values ++ [endpoints] := by
      rw [Dict.values, hentries, List.map_append]
      rfl
    simp only [addNodeMgr_eq hnew, addEndpoints]
    have hall : ({ i with
        nodeManagers := i.nodeManagers ++ [msg.nodeMgr]
        endpoints := i.endpoints.insert msg.podIp endpoints } : Instance).allEndpoints =
        i.allEndpoints ++ endpoints.values := by
      rw [allEndpoints, hvalues, List.flatMap_append, List.flatMap_singleton]
      rfl
    refine ⟨haddresses, ?_, ?_, ?_, ?_, fun hsingle => ⟨?_, ?_⟩⟩
    · rw [hkeys]
      exact List.forall_mem_append.mpr ⟨hmono, List.forall_mem_singleton.mpr
        (List.mem_map.mpr ⟨msg.nodeMgr, by simp, rfl⟩)⟩
    · rw [hall, List.map_append, h.ids, hcontinues.ids, List.length_append, List.range_add,
        List.map_append, List.map_map, getEndpointsNum_eq]
      rfl
    · rw [hall]
      refine List.forall_mem_append.mpr ⟨h.ranks, fun ep hep => ?_⟩
      have := hcontinues.ranks ep hep
      rwa [hfits.worldSize] at this
    · rw [hall]
      exact List.forall_mem_append.mpr ⟨h.headless, hcontinues.headless⟩
    · rw [hkeys, (h.single hsingle).1, List.map_append]
      rfl
    · rw [hvalues]
      exact List.forall_mem_append.mpr ⟨(h.single hsingle).2,
        List.forall_mem_singleton.mpr (hne (hfits.multi.trans hsingle))⟩

/-- Pods are lost from the end: behind a lost pod with endpoints there are only lost ones. -/
def LosesLast (i : Instance) (alive : NodeManagerInfo → Bool) : Prop :=
  i.endpoints.entries.Pairwise fun p q => p.2.values ≠ [] → q.2.values ≠ [] →
    i.isLost alive p.1 = true → i.isLost alive q.1 = true

theorem flatMap_filter_prefix {α β : Type} (keep : α → Bool) (f : α → List β) {l : List α}
    (h : l.Pairwise fun a b => f a ≠ [] → f b ≠ [] → keep a = false → keep b = false) :
    (l.filter keep).flatMap f <+: l.flatMap f := by
  induction l with
  | nil => exact List.prefix_rfl
  | cons a l ih =>
    obtain ⟨hhead, htail⟩ := List.pairwise_cons.mp h
    rw [List.flatMap_cons]
    cases hkeep : keep a with
    | true =>
      rw [List.filter_cons_of_pos hkeep, List.flatMap_cons]
      exact (List.prefix_append_right_inj _).mpr (ih htail)
    | false =>
      rw [List.filter_cons_of_neg (by simp [hkeep])]
      by_cases hnil : f a = []
      · rw [hnil, List.nil_append]
        exact ih htail
      · -- nothing that is kept has anything to give
        have hrest : (l.filter keep).flatMap f = [] := by
          rw [List.flatMap_eq_nil_iff]
          intro b hb
          obtain ⟨hmem, hkept⟩ := List.mem_filter.mp hb
          by_contra hne
          rw [hhead b hmem hnil hne hkeep] at hkept
          cases hkept
        rw [hrest]
        exact List.nil_prefix

theorem ids_of_prefix {l l' : List Endpoint} (hinit : l' <+: l)
    (h : l.map (·.id) = (List.range l.length).map fun k : ℕ => (k : Int)) :
    l'.map (·.id) = (List.range l'.length).map fun k : ℕ => (k : Int) := by
  have htake := List.prefix_iff_eq_take.mp hinit
  have hlength := hinit.length_le
  rw [htake, List.map_take, h, ← List.map_take, List.take_range, List.length_take,
    Nat.min_eq_left hlength]

theorem Tidy.filtered (h : i.Tidy) (hlast : i.LosesLast alive) :
    (i.filterAbnormalEndpoints alive).Tidy := by
  have hlost {nm : NodeManagerInfo} (hnm : nm ∈ i.nodeManagers) :
      i.isLost alive nm.podIp = !alive nm := isLost_eq h.addresses hnm
  rw [filterAbnormalEndpoints_eq i alive h.addresses]
  have hinit : ((i.endpoints.filter fun podIp _ => !i.isLost alive podIp).values.flatMap Dict.values) <+:
      i.allEndpoints := by
    have := flatMap_filter_prefix (fun p => !i.isLost alive p.1) (fun p => p.2.values)
      (hlast.imp fun {p q} hpq hp hq hkeep => by simpa using hpq hp hq (by simpa using hkeep))
    simp only [allEndpoints, Dict.values, Dict.filter, List.flatMap_map]
    exact this
  have hmem : ∀ ep ∈ (i.endpoints.filter fun podIp _ => !i.isLost alive podIp).values.flatMap Dict.values,
      ep ∈ i.allEndpoints := fun ep hep => hinit.subset hep
  have hkeys : (i.endpoints.filter fun podIp _ => !i.isLost alive podIp).keys =
      i.endpoints.keys.filter fun podIp => !i.isLost alive podIp := by
    rw [Dict.keys, Dict.keys, List.filter_map]
    rfl
  refine ⟨h.addresses.sublist (List.filter_sublist.map _), ?_, ids_of_prefix hinit h.ids,
    fun ep hep => h.ranks ep (hmem ep hep), fun ep hep => h.headless ep (hmem ep hep),
    fun hsingle => ⟨?_, ?_⟩⟩
  · rw [hkeys]
    intro podIp hkept
    obtain ⟨hin, hkept⟩ := List.mem_filter.mp hkept
    obtain ⟨nm, hnm, rfl⟩ := List.mem_map.mp (h.pods podIp hin)
    rw [hlost hnm, Bool.not_not] at hkept
    exact List.mem_map.mpr ⟨nm, List.mem_filter.mpr ⟨hnm, hkept⟩, rfl⟩
  · rw [hkeys, (h.single hsingle).1, List.filter_map]
    congr 1
    refine List.filter_congr fun nm hnm => ?_
    simp [hlost hnm]
  · intro pod hpod
    obtain ⟨podIp, hget⟩ := Dict.mem_values_iff.mp hpod
    rw [Dict.get?_filter] at hget
    exact (h.single hsingle).2 pod (Dict.mem_values_iff.mpr ⟨podIp, (Option.filter_eq_some_iff.mp hget).1⟩)

/-! ## The complete instance -/

/-- Marking pods as headless leaves ids and devices alone, and the first pod altogether. -/
theorem Tidy.markHeadless (h : i.Tidy) (nnodes : Int) :
    (i.markHeadless nnodes).allEndpoints.map (fun ep => (ep.id, ep.deviceInfos)) =
        i.allEndpoints.map (fun ep => (ep.id, ep.deviceInfos)) ∧
      ∀ nm rest, i.nodeManagers = nm :: rest →
        (i.markHeadless nnodes).endpoints.get? nm.podIp = i.endpoints.get? nm.podIp := by
  rw [markHeadless_eq]
  constructor
  · simp only [allEndpoints, Dict.values, Dict.mapVal, List.map_flatMap, List.flatMap_map]
    refine List.flatMap_congr fun p _ => ?_
    split
    · simp [headlessPod, Dict.mapVal]
    · rfl
  · intro nm rest hmgrs
    have hfirst : i.isSlave nnodes nm.podIp = false := by
      rw [isSlave, List.any_eq_false]
      rintro ⟨nm', rank⟩ hmem
      simp only [decide_eq_true_eq, not_and, not_not]
      intro heq
      have haddresses := h.addresses
      rw [hmgrs] at hmem haddresses
      rw [List.zipIdx_cons, List.mem_cons] at hmem
      obtain hfirst | hlater := hmem
      · obtain ⟨rfl, rfl⟩ := Prod.mk.inj hfirst
        simp
      · have hin := List.mem_map_of_mem (f := Prod.fst) hlater
        rw [List.zipIdx_map_fst] at hin
        rw [List.map_cons, List.nodup_cons] at haddresses
        exact absurd (List.mem_map.mpr ⟨nm', hin, heq⟩) haddresses.1
    rw [Dict.get?_mapVal]
    simp [hfirst]

theorem numbered_of_tidy {j : Instance} (h : i.Tidy)
    (hsame : j.allEndpoints.map (fun ep => (ep.id, ep.deviceInfos)) =
      i.allEndpoints.map (fun ep => (ep.id, ep.deviceInfos)))
    (hmulti : j.enableMultiEndpoints = i.enableMultiEndpoints)
    (hfirst : i.enableMultiEndpoints = false → ∃ nm rest, i.nodeManagers = nm :: rest ∧
      j.endpoints.get? nm.podIp = i.endpoints.get? nm.podIp) : j.Numbered := by
  have hids : j.allEndpoints.map (·.id) =
      (List.range i.allEndpoints.length).map fun k : ℕ => (k : Int) := by
    have := congrArg (List.map Prod.fst) hsame
    rw [List.map_map, List.map_map] at this
    exact this.trans h.ids
  have hlength : j.allEndpoints.length = i.allEndpoints.length := by
    simpa using congrArg List.length hsame
  constructor
  · rw [hids, getEndpointsNum_eq, hlength]
  -- the ranks of two endpoints are disjoint, since their ids differ
  · have hranks : (j.allEndpoints.flatMap fun ep => ep.deviceInfos.map (·.rankId)) =
        i.allEndpoints.flatMap fun ep => ep.deviceInfos.map (·.rankId) := by
      have := congrArg (List.flatMap fun p : EndpointId × List DeviceInfo => p.2.map (·.rankId)) hsame
      rwa [List.flatMap_map, List.flatMap_map] at this
    rw [hranks, List.nodup_flatMap]
    refine ⟨fun ep hep => (h.ranks ep hep).nodup, ?_⟩
    have hdistinct : (i.allEndpoints.map (·.id)).Nodup := by
      rw [h.ids]
      exact List.nodup_range.map Nat.cast_injective
    refine (List.pairwise_map.mp hdistinct).imp_of_mem fun {ep ep'} hep hep' hne => ?_
    exact ranks_disjoint hne (h.ranks ep hep) (h.ranks ep' hep')
  · intro hsingle
    rw [hmulti] at hsingle
    obtain ⟨nm, rest, hmgrs, hget⟩ := hfirst hsingle
    obtain ⟨hkeys, hpods⟩ := h.single hsingle
    -- the first pod has the endpoint 0, and it is not headless
    obtain ⟨pod, hpod, ep, hep, hid, hheadless⟩ : ∃ pod, i.endpoints.get? nm.podIp = some pod ∧
        ∃ ep ∈ pod.values, ep.id = 0 ∧ ep.headless = false := by
      rw [hmgrs] at hkeys
      cases hentries : i.endpoints.entries with
      | nil => simp [Dict.keys, hentries] at hkeys
      | cons p es =>
        obtain ⟨podIp, pod⟩ := p
        rw [Dict.keys, hentries, List.map_cons, List.map_cons, List.cons.injEq] at hkeys
        obtain ⟨rfl, -⟩ := hkeys
        have hget : i.endpoints.get? nm.podIp = some pod :=
          Dict.mem_entries_iff.mp (by rw [hentries]; exact List.mem_cons_self)
        have hne := hpods pod (Dict.mem_values_iff.mpr ⟨_, hget⟩)
        obtain ⟨ep, eps, heps⟩ := List.exists_cons_of_ne_nil hne
        have hall : i.allEndpoints = ep :: (eps ++ (es.map Prod.snd).flatMap Dict.values) := by
          rw [allEndpoints, Dict.values, hentries, List.map_cons, List.flatMap_cons, heps]
          rfl
        have hids := h.ids
        rw [hall, List.map_cons, List.length_cons, List.range_succ_eq_map, List.map_cons,
          List.cons.injEq] at hids
        exact ⟨pod, hget, ep, by rw [heps]; exact List.mem_cons_self, hids.1,
          h.headless ep (by rw [hall]; exact List.mem_cons_self)⟩
    have hmem : ep ∈ j.allEndpoints :=
      List.mem_flatMap.mpr ⟨pod, Dict.mem_values_iff.mpr ⟨_, hget.trans hpod⟩, hep⟩
    constructor
    · have hnodup : (j.allEndpoints.map (·.id)).Nodup := by
        rw [hids]
        exact List.nodup_range.map Nat.cast_injective
      have hcount := List.count_eq_one_of_mem hnodup (List.mem_map.mpr ⟨ep, hmem, hid⟩)
      rw [List.count, List.countP_map] at hcount
      rw [← hcount]
      exact List.countP_congr fun ep _ => by simp
    · exact List.ne_nil_of_mem (List.mem_filter.mpr ⟨hmem, by simp [hheadless, hid]⟩)

end Instance

/-! ## Runs -/

namespace AssembleInstanceMetadata

/-- The entry is filled by pods that register, and is not complete yet. -/
def IsOpen (md : AssembleInstanceMetadata) : Prop :=
  md.registerStatus ≠ .assembled ∧ md.isReregister = false

end AssembleInstanceMetadata

namespace ControllerState

variable {s s' : ControllerState} {jobName : String} {md : AssembleInstanceMetadata}

/-- The pods of a job are of one kind. Of an open entry only the last pods are lost, and not all pods of
one across nodes that has a single endpoint for each. -/
def Orderly (s : ControllerState) : ControllerOp → Prop
  | .register msg => ∀ md, s.Joins msg md → md.IsOpen → md.ins.Fits msg
  | .assemble jobName alive _ => ∀ md, s.assembler.instances.get? jobName = some md → md.IsOpen →
      md.ins.LosesLast alive ∧
        (1 < md.nnodes → md.ins.enableMultiEndpoints = false →
          ∃ nm ∈ md.ins.nodeManagers, alive nm = true)
  | _ => True

/-- The pods of all open entries. -/
def AllTidy (s : ControllerState) : Prop :=
  ∀ jobName md, s.assembler.instances.get? jobName = some md → md.IsOpen → md.ins.Tidy

theorem exec_tidy {op : ControllerOp} (h : s.AllTidy) (hguard : s.Orderly op)
    (hexec : s.exec op = some s') : s'.AllTidy := by
  intro k md hmd hopen
  cases exec_entry hexec hmd with
  | kept hmd _ => exact h k md hmd hopen
  | @joined msg md _ _ hjoins _ =>
    have htidy : md.ins.Tidy := by
      obtain ⟨hmd, -⟩ | ⟨-, rfl⟩ := hjoins.2
      · exact h _ md hmd hopen
      · exact Instance.tidy_empty rfl rfl
    exact htidy.joined hjoins.1 (hguard md hjoins hopen)
  | reregistered hagain =>
    rw [hopen.2] at hagain
    cases hagain
  | restored hagain =>
    rw [hopen.2] at hagain
    cases hagain
  | @filtered md _ _ hmd₀ _ _ => exact (h k md hmd₀ hopen).filtered (hguard md hmd₀ hopen).1
  | handedOver => exact absurd rfl hopen.1
  | retried _ hassembled => exact absurd hassembled hopen.1

/-- A complete instance with a single endpoint for each pod has some pod. -/
theorem exists_nodeManager (hready : md.isReady = true)
    (hsingle : md.ins.enableMultiEndpoints = false)
    (hleft : 1 < md.nnodes → md.ins.nodeManagers ≠ []) : md.ins.nodeManagers ≠ [] := by
  unfold AssembleInstanceMetadata.isReady at hready
  split at hready
  · next hnodes => exact hleft hnodes
  · intro hnil
    unfold Instance.isEndpointsEnough at hready
    split at hready
    · cases hready
    · simp [hsingle, Instance.getExpectedEndpointCount, hnil] at hready
      omega

/-- **The ids of a complete instance** that is handed over. -/
theorem assembled_numbered {given : List (String × InstanceId)} {ops : List ControllerOp}
    {alive : NodeManagerInfo → Bool} {timedOut : Bool}
    (hrun : Run exec Orderly (new given) (ops ++ [.assemble jobName alive timedOut]) s)
    (hmd : s.assembler.instances.get? jobName = some md) (hassembled : md.registerStatus = .assembled)
    (hregistered : md.isReregister = false) : md.ins.Numbered := by
  obtain ⟨s₀, hrun₀, hguard, hexec⟩ := hrun.of_snoc
  have htidy : s₀.AllTidy := hrun₀.invariant_state (fun _ _ hget => by cases hget)
    fun h hguard hexec => exec_tidy h hguard hexec
  cases exec_entry hexec hmd with
  | kept _ hop => exact absurd rfl (hop alive timedOut)
  | filtered _ hopen _ => exact absurd hassembled hopen
  | @handedOver md₀ _ _ hmd₀ hopen hready =>
    have hopen₀ : md₀.IsOpen := ⟨hopen, hregistered⟩
    obtain ⟨hlast, hsome⟩ := hguard md₀ hmd₀ hopen₀
    have hleft := (htidy jobName md₀ hmd₀ hopen₀).filtered hlast
    have haddresses := (htidy jobName md₀ hmd₀ hopen₀).addresses
    -- the first node manager that is left
    have hfirst (hsingle : (md₀.filtered alive).ins.enableMultiEndpoints = false) :
        ∃ nm rest, (md₀.filtered alive).ins.nodeManagers = nm :: rest := by
      refine List.exists_cons_of_ne_nil (exists_nodeManager hready hsingle fun hnodes => ?_)
      simp only [AssembleInstanceMetadata.filtered,
        Instance.filterAbnormalEndpoints_eq _ _ haddresses] at hsingle ⊢
      obtain ⟨nm, hnm, halive⟩ := hsome hnodes hsingle
      exact List.ne_nil_of_mem (List.mem_filter.mpr ⟨hnm, halive⟩)
    simp only [AssembleInstanceMetadata.completed]
    split
    · obtain ⟨hsame, hkept⟩ := hleft.markHeadless (md₀.filtered alive).nnodes
      refine Instance.numbered_of_tidy hleft hsame ?_ fun hsingle => ?_
      · rw [Instance.markHeadless_eq]
        rfl
      · obtain ⟨nm, rest, hmgrs⟩ := hfirst hsingle
        exact ⟨nm, rest, hmgrs, hkept nm rest hmgrs⟩
    · refine Instance.numbered_of_tidy hleft rfl rfl fun hsingle => ?_
      obtain ⟨nm, rest, hmgrs⟩ := hfirst hsingle
      exact ⟨nm, rest, hmgrs, rfl⟩

/-! ## Two pods, one of them replaced -/

/-- The pod of a job with two pods that have one device each. -/
def podRegisters (podIp : String) : RegisterMsg where
  jobName := "job-a"
  modelName := "qwen"
  engineType := some "vllm"
  dispatchCapabilities := []
  role := "union"
  podIp := podIp
  businessPort := ["1025"]
  mgmtPort := ["1026"]
  bootstrapPort := none
  nmPort := "1027"
  parallelConfig := ⟨1, 1, 2, 1, 1, 2, 1⟩
  enableMultiEndpoints := false
  deviceNum := 1
  ranktable := none
  nnodes := 1
  isMaster := false

def twoPods : List ControllerOp :=
  [.register (podRegisters "10.0.0.1"), .register (podRegisters "10.0.0.2"),
    .assemble "job-a" (fun _ => true) false]

theorem losesLast_of_alive {i : Instance} {alive : NodeManagerInfo → Bool}
    (h : ∀ nm ∈ i.nodeManagers, alive nm = true) : i.LosesLast alive := by
  have hkept (podIp : String) : i.isLost alive podIp = false := by
    rw [Instance.isLost, List.any_eq_false]
    intro nm hnm
    simp [h nm hnm]
  refine List.pairwise_of_forall fun p q _ _ hlost => ?_
  rw [hkept] at hlost
  cases hlost

theorem twoPods_numbered : ∃ s md, Run exec Orderly (new []) twoPods s ∧
    s.assembler.instances.get? "job-a" = some md ∧ md.ins.Numbered := by
  -- every entry of the job is of the kind of its pods
  have hguard {s : ControllerState} (podIp : String)
      (hkind : (s.assembler.instances.get? "job-a").all (fun md =>
        decide (md.ins.enableMultiEndpoints = false ∧ md.ins.localWorldSize = 1)) = true) :
      s.Orderly (.register (podRegisters podIp)) := by
    intro md hjoins _
    have hports : (podRegisters podIp).businessPort ≠ [] ∧ (podRegisters podIp).mgmtPort ≠ [] := by
      simp [podRegisters]
    obtain ⟨-, ⟨hmd, -⟩ | ⟨-, rfl⟩⟩ := hjoins
    · rw [show s.assembler.instances.get? "job-a" = some md from hmd, Option.all_some,
        decide_eq_true_eq] at hkind
      exact ⟨rfl, hkind.1.symm, hkind.2.symm, fun _ => hports⟩
    · exact ⟨rfl, rfl, rfl, fun _ => hports⟩
  have hrun : Run exec Orderly (new [])
      [.register (podRegisters "10.0.0.1"), .register (podRegisters "10.0.0.2")]
      (((new []).register (podRegisters "10.0.0.1")).2.register (podRegisters "10.0.0.2")).2 :=
    (Run.nil.snoc (hguard "10.0.0.1" (by decide)) rfl).snoc (hguard "10.0.0.2" (by decide)) rfl
  generalize hs₂ : (((new []).register (podRegisters "10.0.0.1")).2.register
    (podRegisters "10.0.0.2")).2 = s₂ at hrun
  have h : (s₂.exec (.assemble "job-a" (fun _ => true) false)).bind (fun s =>
      (s.assembler.instances.get? "job-a").map fun md => (md.registerStatus, md.isReregister)) =
      some (.assembled, false) := by
    rw [← hs₂]
    decide
  have hone : ∀ md, s₂.assembler.instances.get? "job-a" = some md → ¬1 < md.nnodes := by
    intro md hmd
    have hnodes : (s₂.assembler.instances.get? "job-a").map (·.nnodes) = some 1 := by
      rw [← hs₂]
      decide
    rw [hmd, Option.map_some, Option.some.injEq] at hnodes
    rw [hnodes]
    exact lt_irrefl 1
  obtain ⟨s, hs, hlook⟩ := Option.bind_eq_some_iff.mp h
  obtain ⟨md, hmd, hboth⟩ := Option.map_eq_some_iff.mp hlook
  obtain ⟨hstatus, hagain⟩ := Prod.mk.inj hboth
  have hlast := hrun.snoc (fun md hmd _ => ⟨losesLast_of_alive fun _ _ => rfl,
    fun hnodes => absurd hnodes (hone md hmd)⟩) hs
  exact ⟨s, md, hlast, hmd, assembled_numbered hlast hmd hstatus hagain⟩

/-- The first pod is lost before another one registers. -/
def replacedPod : List ControllerOp :=
  [.register (podRegisters "10.0.0.1"), .register (podRegisters "10.0.0.2"),
    .assemble "job-a" (fun nm => decide (nm.podIp ≠ "10.0.0.1")) false,
    .register (podRegisters "10.0.0.3"), .assemble "job-a" (fun _ => true) false]

/-- Both endpoints have the id one, and the instance has no endpoint to offer. -/
theorem replacedPod_collides : ∃ s md, Run exec Free (new []) replacedPod s ∧
    s.assembler.instances.get? "job-a" = some md ∧ md.registerStatus = .assembled ∧
    md.isReregister = false ∧ md.ins.allEndpoints.map (·.id) = [1, 1] ∧ ¬md.ins.Numbered := by
  have h : (runList exec Free (new []) replacedPod).bind (fun s =>
      (s.assembler.instances.get? "job-a").map fun md =>
        (md.registerStatus, md.isReregister, md.ins.allEndpoints.map (·.id),
          md.ins.enableMultiEndpoints, md.ins.getAllEndpoints.length)) =
      some (.assembled, false, [1, 1], false, 0) := by decide
  obtain ⟨s, hs, hlook⟩ := Option.bind_eq_some_iff.mp h
  obtain ⟨md, hmd, hall⟩ := Option.map_eq_some_iff.mp hlook
  simp only [Prod.mk.injEq, List.length_eq_zero_iff] at hall
  obtain ⟨hstatus, hagain, hids, hsingle, hnone⟩ := hall
  exact ⟨s, md, runList_run hs, hmd, hstatus, hagain, hids, fun hnum => (hnum.single hsingle).2 hnone⟩

end ControllerState

end PyMotor.Controller
