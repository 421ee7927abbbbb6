import PyMotor.Conductor.Registry

/-!
# The table of node addresses

`hbm_ip_index` should mirror the registrations: an address lists a DP once if the DP is registered,
not as a pool, with a backend that is indexed and an HBM endpoint on that address, and not at all
otherwise (`Mirrors`). The table is written from the endpoint map of the request and cleaned up from
the normalized map of the registry, and a re-registration cleans up only if the backend changed.

Hence two ways to go wrong. A DP that is re-registered with the same backend keeps its old addresses,
and a request with several HBM keys is indexed under each of them while only one survives the
normalization. `KeepsTable` excludes both, and then the table is right after every run.
-/

namespace PyMotor.Conductor

/-! ## Entries of the table -/

/-- How often an address lists a DP. -/
def listed (index : HbmIpIndex) (ip : String) (dp : DpKey) : Nat :=
  ((index.get? ip).getD []).count dp

theorem listed_pushDp (index : HbmIpIndex) (host ip : String) (dp dp' : DpKey) :
    listed (pushDp dp index host) ip dp' =
      listed index ip dp' + if host = ip ∧ dp' = dp then 1 else 0 := by
  unfold listed pushDp
  rw [Dict.get?_insert]
  split
  · next hip =>
    subst hip
    rw [Option.getD_some, List.count_append, List.count_singleton]
    rcases eq_or_ne dp' dp with rfl | hdp
    · simp
    · simp [hdp, hdp.symm]
  · next hip => simp [hip]

theorem listed_dropDp (index : HbmIpIndex) (host ip : String) (dp dp' : DpKey) :
    listed (dropDp dp index host) ip dp' =
      if host = ip ∧ dp' = dp then 0 else listed index ip dp' := by
  unfold dropDp
  cases hget : index.get? host with
  | none =>
    simp only
    split
    · next h => simp [listed, ← h.1, hget]
    · rfl
  | some dps =>
    have hfilter : (dps.filter (fun dp' => decide (dp' ≠ dp))).count dp' =
        if dp' = dp then 0 else dps.count dp' := by
      split
      · next hdp =>
        subst hdp
        rw [List.count_eq_zero]
        simp
      · next hdp => rw [List.count_filter (by simpa using hdp)]
    have hother : ∀ d : HbmIpIndex, (∀ k, host ≠ k → d.get? k = index.get? k) →
        ((d.get? host).getD []).count dp' = (if dp' = dp then 0 else dps.count dp') →
        listed d ip dp' = if host = ip ∧ dp' = dp then 0 else listed index ip dp' := by
      intro d hsame hhost
      by_cases hip : host = ip
      · subst hip
        simp only [listed, hhost, hget, Option.getD_some, true_and]
      · simp [listed, hsame ip hip, hip]
    simp only
    split
    · next hempty =>
      rw [List.isEmpty_iff.mp hempty] at hfilter
      apply hother
      · intro k hk
        exact Dict.get?_erase_ne _ hk
      · rw [Dict.get?_erase_self]
        exact hfilter
    · apply hother
      · intro k hk
        exact Dict.get?_insert_ne _ _ hk
      · rw [Dict.get?_insert_self]
        exact hfilter

theorem listed_foldl_pushDp (hosts : List String) (ip : String) (dp dp' : DpKey) :
    ∀ index, listed (hosts.foldl (pushDp dp) index) ip dp' =
      listed index ip dp' + if dp' = dp then hosts.count ip else 0 := by
  induction hosts with
  | nil => intro index; simp
  | cons host hosts ih =>
    intro index
    rw [List.foldl_cons, ih, listed_pushDp, List.count_cons]
    by_cases hdp : dp' = dp
    · simp only [hdp, and_true, ↓reduceIte, beq_iff_eq]
      omega
    · simp [hdp]

theorem listed_foldl_dropDp (hosts : List String) (ip : String) (dp dp' : DpKey) :
    ∀ index, listed (hosts.foldl (dropDp dp) index) ip dp' =
      if ip ∈ hosts ∧ dp' = dp then 0 else listed index ip dp' := by
  induction hosts with
  | nil => intro index; simp
  | cons host hosts ih =>
    intro index
    rw [List.foldl_cons, ih, listed_dropDp]
    by_cases hdp : dp' = dp
    · simp only [hdp, and_true, List.mem_cons, eq_comm (a := ip)]
      by_cases hmem : ip ∈ hosts <;> simp [hmem]
    · simp [hdp]

theorem hbmHosts_iter (σ : HashOrder (String × String)) (n : Nat) (eps : List (String × String)) :
    (hbmHosts (σ.iter n eps)).Perm (hbmHosts eps) :=
  (σ.perm n eps).filterMap hbmHost

/-! ## Requests -/

namespace RegisterRequest

/-- A request without endpoints per medium and with an empty legacy endpoint is rejected. -/
def accepted (req : RegisterRequest) : Bool :=
  !req.mediumEndpoints.isEmpty || !req.endpoint.any String.isEmpty

/-- The addresses that the request is indexed under. -/
def indexedHosts (req : RegisterRequest) : List String :=
  if (StoreBackend.parse req.storeBackend).indexHbmIp && !WorkerRegistry.isPool req then
    hbmHosts req.mediumEndpoints.entries
  else []

/-- At most one HBM endpoint, unless the request is not indexed at all. -/
def OneHbmEndpoint (req : RegisterRequest) : Prop :=
  req.indexedHosts = [] ∨
    (req.mediumEndpoints.entries.filter (fun p => StorageMedium.isHbmKey p.1)).length ≤ 1

instance (req : RegisterRequest) : Decidable req.OneHbmEndpoint :=
  inferInstanceAs (Decidable (req.indexedHosts = [] ∨ _ ≤ 1))

end RegisterRequest

namespace WorkerRegistry

variable {r : WorkerRegistry} {σ : RegistryOrder} {req : RegisterRequest} {dp : DpKey} {ip : String}

theorem resolveEndpointMedia_ok_iff :
    (∃ endpointMedia, resolveEndpointMedia σ req = .ok endpointMedia) ↔ req.accepted = true := by
  unfold resolveEndpointMedia RegisterRequest.accepted
  cases req.mediumEndpoints.isEmpty with
  | false => simp
  | true =>
    cases req.endpoint with
    | none => simp
    | some ep => cases hep : ep.isEmpty <;> simp [hep]

theorem mem_groupMedia {m : StorageMedium} {ep : String} (l : List (String × String)) :
    m ∈ ((groupMedia l).get? ep).getD [] ↔ ∃ p ∈ l, p.2 = ep ∧ StorageMedium.parse p.1 = m := by
  have aux : ∀ (l : List (String × String)) (d : Dict String (List StorageMedium)),
      m ∈ ((l.foldl (fun map p =>
        map.insert p.2 ((map.get? p.2).getD [] ++ [StorageMedium.parse p.1])) d).get? ep).getD [] ↔
        m ∈ (d.get? ep).getD [] ∨ ∃ p ∈ l, p.2 = ep ∧ StorageMedium.parse p.1 = m := by
    intro l
    induction l with
    | nil => intro d; simp
    | cons p l ih =>
      intro d
      rw [List.foldl_cons, ih, Dict.get?_insert]
      by_cases hep : p.2 = ep
      · subst hep
        simp only [↓reduceIte, Option.getD_some, List.mem_append, List.mem_cons, List.not_mem_nil,
          or_false, exists_eq_or_imp, true_and, or_assoc, eq_comm (a := m)]
      · simp [hep]
  have := aux l ∅
  simpa [groupMedia] using this

theorem lower_asStr_eq_npu {m : StorageMedium} :
    String.ofList (m.asStr.toList.map Char.toLower) = "npu" ↔ m = .npu := by
  cases m <;> decide

/-- The HBM endpoint of the normalized map, if all HBM media name the same one. -/
theorem normalizedMediums_npu {l : List (String × List StorageMedium)} {url : String}
    (hall : ∀ ep media, (ep, media) ∈ l → .npu ∈ media → ep = url)
    (hex : ∃ media, (url, media) ∈ l ∧ .npu ∈ media) :
    (normalizedMediums l).get? "npu" = some url := by
  refine Dict.get?_foldl_insert _ ?_ _ (Or.inr ?_)
  · intro p hp hnpu
    obtain ⟨⟨ep, media⟩, hem, hpm⟩ := List.mem_flatMap.mp hp
    obtain ⟨m, hm, rfl⟩ := List.mem_map.mp hpm
    have hnpu' : m = .npu := lower_asStr_eq_npu.mp hnpu
    exact hall ep media hem (hnpu' ▸ hm)
  · obtain ⟨media, hmem, hnpu⟩ := hex
    refine ⟨(.npu, url), List.mem_flatMap.mpr ⟨(url, media), hmem, ?_⟩, lower_asStr_eq_npu.mpr rfl⟩
    exact List.mem_map.mpr ⟨.npu, hnpu, rfl⟩

theorem mem_resolveEndpointMedia {endpointMedia : Dict String (List StorageMedium)}
    {ep : String} {m : StorageMedium} (hok : resolveEndpointMedia σ req = .ok endpointMedia)
    (hne : req.mediumEndpoints.isEmpty = false) :
    m ∈ (endpointMedia.get? ep).getD [] ↔
      ∃ key, (key, ep) ∈ req.mediumEndpoints.entries ∧ StorageMedium.parse key = m := by
  rw [resolveEndpointMedia, hne] at hok
  cases hok
  rw [mem_groupMedia]
  constructor
  · rintro ⟨p, hp, rfl, hparse⟩
    exact ⟨p.1, HashOrder.mem_iter _ |>.mp hp, hparse⟩
  · rintro ⟨key, hmem, hparse⟩
    exact ⟨(key, ep), HashOrder.mem_iter _ |>.mpr hmem, rfl, hparse⟩

theorem eq_of_length_filter_le_one {α : Type} {l : List α} {q : α → Bool} {a b : α}
    (h : (l.filter q).length ≤ 1) (ha : a ∈ l) (hqa : q a = true) (hb : b ∈ l) (hqb : q b = true) :
    a = b := by
  have hina := List.mem_filter.mpr ⟨ha, hqa⟩
  have hinb := List.mem_filter.mpr ⟨hb, hqb⟩
  obtain ⟨x, hx⟩ := List.length_eq_one_iff.mp (Nat.le_antisymm h (List.length_pos_of_mem hina))
  rw [hx, List.mem_singleton] at hina hinb
  rw [hina, hinb]

/-- **Normalization keeps the address**, if there is only one HBM endpoint. -/
theorem mem_hbmHosts_normalizedMediums {endpointMedia : Dict String (List StorageMedium)}
    (hone : req.OneHbmEndpoint) (hok : resolveEndpointMedia σ req = .ok endpointMedia)
    (hip : ip ∈ req.indexedHosts) :
    ip ∈ hbmHosts (normalizedMediums (σ.media.iter 0 endpointMedia.entries)).entries := by
  have hlen := hone.resolve_left (List.ne_nil_of_mem hip)
  have hhosts : ip ∈ hbmHosts req.mediumEndpoints.entries := by
    unfold RegisterRequest.indexedHosts at hip
    split at hip
    · exact hip
    · cases hip
  obtain ⟨⟨key, url⟩, hmem, hhost⟩ := List.mem_filterMap.mp hhosts
  have hne : req.mediumEndpoints.isEmpty = false := List.isEmpty_eq_false_iff_exists_mem.mpr ⟨_, hmem⟩
  unfold hbmHost at hhost
  split at hhost
  · next hkey =>
    have hparse : StorageMedium.parse key = .npu := by simpa [StorageMedium.isHbmKey] using hkey
    have hget : (normalizedMediums (σ.media.iter 0 endpointMedia.entries)).get? "npu" = some url := by
      apply normalizedMediums_npu
      · intro ep media hem hnpu
        rw [HashOrder.mem_iter, Dict.mem_entries_iff] at hem
        have hin : .npu ∈ (endpointMedia.get? ep).getD [] := by rw [hem]; exact hnpu
        obtain ⟨key', hmem', hparse'⟩ := (mem_resolveEndpointMedia hok hne).mp hin
        have := eq_of_length_filter_le_one hlen hmem'
          (by simp [StorageMedium.isHbmKey, hparse']) hmem hkey
        exact congrArg Prod.snd this
      · have hin := (mem_resolveEndpointMedia hok hne).mpr ⟨key, hmem, hparse⟩
        cases hurl : endpointMedia.get? url with
        | none => simp [hurl] at hin
        | some media =>
          rw [hurl] at hin
          exact ⟨media, by rw [HashOrder.mem_iter, Dict.mem_entries_iff, hurl], hin⟩
    refine List.mem_filterMap.mpr ⟨("npu", url), Dict.mem_entries_iff.mpr hget, ?_⟩
    have hnpu : StorageMedium.isHbmKey "npu" = true := by decide
    rw [hbmHost, if_pos hnpu]
    exact hhost
  · cases hhost

/-! ## What a request does to endpoints and table -/

theorem endpointInfo_congr {r r' : WorkerRegistry} (h : r'.instances = r.instances) :
    r'.endpointInfo dp = r.endpointInfo dp := by
  rw [endpointInfo, h, endpointInfo]

theorem removeFromIndexer_instances (modelName tenantId : String) :
    (r.removeFromIndexer modelName tenantId dp).instances = r.instances := by
  unfold removeFromIndexer
  split <;> rfl

theorem removeFromIndexer_hbmIpIndex (modelName tenantId : String) :
    (r.removeFromIndexer modelName tenantId dp).hbmIpIndex = r.hbmIpIndex := by
  unfold removeFromIndexer
  split <;> rfl

theorem dropOldRegistration_instances :
    (r.dropOldRegistration σ req).instances = r.instances := by
  unfold dropOldRegistration
  split
  · rfl
  · split
    · rfl
    · simp only
      split
      · exact removeFromIndexer_instances _ _
      · rfl

/-- Whether the request re-registers a DP without changing the backend. -/
def sameBackend (r : WorkerRegistry) (req : RegisterRequest) : Bool :=
  match r.instances.get? req.instanceId with
  | none => false
  | some entry =>
    entry.endpoints.contains req.dpRank && eqIgnoreAsciiCase entry.storeBackend req.storeBackend

/-- Whether some address lists the DP. -/
def indexed (r : WorkerRegistry) (dp : DpKey) : Bool :=
  r.hbmIpIndex.values.any (fun dps => decide (dp ∈ dps))

theorem indexed_eq_false_iff :
    r.indexed dp = false ↔ ∀ ip, listed r.hbmIpIndex ip dp = 0 := by
  unfold indexed listed
  simp only [List.any_eq_false, decide_eq_true_eq, List.count_eq_zero]
  constructor
  · intro h ip
    cases hget : r.hbmIpIndex.get? ip with
    | none => simp
    | some dps => exact h dps (Dict.mem_values_iff.mpr ⟨ip, hget⟩)
  · intro h dps hdps
    obtain ⟨ip, hget⟩ := Dict.mem_values_iff.mp hdps
    have := h ip
    rwa [hget] at this

/-- A re-registration cleans up the stored addresses, unless the backend is the same. -/
theorem listed_dropOldRegistration (dp' : DpKey) :
    listed (r.dropOldRegistration σ req).hbmIpIndex ip dp' =
      match r.endpointInfo req.dp with
      | none => listed r.hbmIpIndex ip dp'
      | some info =>
        if r.sameBackend req = false ∧ ip ∈ hbmHosts info.mediumEndpoints.entries ∧ dp' = req.dp then 0
        else listed r.hbmIpIndex ip dp' := by
  unfold dropOldRegistration endpointInfo sameBackend RegisterRequest.dp
  cases hentry : r.instances.get? req.instanceId with
  | none => rfl
  | some entry =>
    simp only [Option.bind_some]
    cases hinfo : entry.endpoints.get? req.dpRank with
    | none => rfl
    | some info =>
      have hcontains : entry.endpoints.contains req.dpRank = true :=
        Dict.contains_iff.mpr ⟨info, hinfo⟩
      simp only [hcontains, Bool.true_and]
      cases eqIgnoreAsciiCase entry.storeBackend req.storeBackend with
      | true => rfl
      | false =>
        simp only [Bool.not_false, ↓reduceIte, unindex, removeHbmIpIndexEntries,
          listed_foldl_dropDp, removeFromIndexer_hbmIpIndex, true_and]
        simp only [(hbmHosts_iter _ _ _).mem_iff]
        rfl

theorem endpointInfo_storeEndpoints (mediums : Dict String String) :
    (r.storeEndpoints req mediums).endpointInfo dp =
      if dp = req.dp then some ⟨mediums, req.engineType, req.dpRank, req.replayEndpoint⟩
      else r.endpointInfo dp := by
  obtain ⟨iid, rank⟩ := dp
  simp only [endpointInfo, storeEndpoints, Dict.get?_insert, RegisterRequest.dp, Prod.mk.injEq]
  by_cases hiid : req.instanceId = iid
  · subst hiid
    by_cases hrank : req.dpRank = rank
    · subst hrank
      simp
    · simp only [↓reduceIte, Option.bind_some, Dict.get?_insert, hrank, Ne.symm hrank, and_false]
      cases r.instances.get? req.instanceId <;> rfl
  · simp [hiid, Ne.symm hiid]

/-- **What a registration does** to the stored endpoints and to the table. -/
theorem register_spec {endpointMedia : Dict String (List StorageMedium)}
    (hok : resolveEndpointMedia σ req = .ok endpointMedia) :
    (∀ dp, (r.register σ req).2.endpointInfo dp =
      if dp = req.dp then
        some ⟨normalizedMediums (σ.media.iter 0 endpointMedia.entries), req.engineType, req.dpRank,
          req.replayEndpoint⟩
      else r.endpointInfo dp) ∧
    ∀ ip dp, listed (r.register σ req).2.hbmIpIndex ip dp =
      listed (r.dropOldRegistration σ req).hbmIpIndex ip dp +
        if dp = req.dp then req.indexedHosts.count ip else 0 := by
  unfold register
  rw [hok]
  simp only
  -- the index of the model plays no role here
  have hcreate : ∀ r : WorkerRegistry,
      (r.getOrCreateIndexer req.modelname req.tenantId).instances = r.instances ∧
      (r.getOrCreateIndexer req.modelname req.tenantId).hbmIpIndex = r.hbmIpIndex := by
    intro r
    unfold getOrCreateIndexer
    split <;> exact ⟨rfl, rfl⟩
  refine ⟨fun dp => ?_, fun ip dp => ?_⟩
  · show (storeEndpoints _ req _).endpointInfo dp = _
    rw [endpointInfo_storeEndpoints]
    congr 1
    apply endpointInfo_congr
    rw [(hcreate _).1]
    split
    · exact dropOldRegistration_instances
    · exact dropOldRegistration_instances
  · show listed (getOrCreateIndexer _ _ _).hbmIpIndex ip dp = _
    rw [(hcreate _).2, RegisterRequest.indexedHosts]
    split
    · show listed (addHbmIpIndexEntries _ _ _) ip dp = _
      rw [addHbmIpIndexEntries, listed_foldl_pushDp, (hbmHosts_iter _ _ _).count_eq]
    · simp

theorem register_rejected (h : req.accepted = false) : (r.register σ req).2 = r := by
  unfold register
  cases hres : resolveEndpointMedia σ req with
  | error err => rfl
  | ok endpointMedia =>
    rw [resolveEndpointMedia_ok_iff.mp ⟨_, hres⟩] at h
    cases h

theorem removeIfEmpty_frame (modelName tenantId : String) :
    (r.removeIfEmpty modelName tenantId).instances = r.instances ∧
      (r.removeIfEmpty modelName tenantId).hbmIpIndex = r.hbmIpIndex := by
  unfold removeIfEmpty
  split
  · exact ⟨rfl, rfl⟩
  · split <;> exact ⟨rfl, rfl⟩

theorem unindexStored_instances : (r.unindexStored σ dp).instances = r.instances := by
  unfold unindexStored
  split <;> rfl

theorem removeEndpoints_hbmIpIndex (req : UnregisterRequest) :
    (r.removeEndpoints req).2.hbmIpIndex = r.hbmIpIndex := by
  unfold removeEndpoints
  split
  · rfl
  · simp only
    split
    · rw [(removeIfEmpty_frame _ _).2]
      exact removeFromIndexer_hbmIpIndex _ _
    · exact removeFromIndexer_hbmIpIndex _ _

theorem endpointInfo_removeEndpoints (req : UnregisterRequest) :
    (r.removeEndpoints req).2.endpointInfo dp =
      if dp = req.dp then none else r.endpointInfo dp := by
  obtain ⟨iid, rank⟩ := dp
  unfold removeEndpoints
  cases hentry : r.instances.get? req.instanceId with
  | none =>
    simp only [endpointInfo, UnregisterRequest.dp, Prod.mk.injEq]
    split
    · next h => rw [h.1, hentry]; rfl
    · rfl
  | some entry =>
    have hother : req.instanceId ≠ iid → ¬ (iid, rank) = req.dp := by
      intro hne h
      exact hne (congrArg Prod.fst h).symm
    simp only
    split
    · next hempty =>
      -- the last DP takes the instance with it
      simp only [endpointInfo, (removeIfEmpty_frame _ _).1, removeFromIndexer_instances]
      by_cases hiid : req.instanceId = iid
      · subst hiid
        rw [Dict.get?_erase_self, hentry, Option.bind_none, Option.bind_some]
        have hnone := Dict.isEmpty_iff.mp hempty rank
        rw [Dict.get?_erase] at hnone
        simp only [UnregisterRequest.dp, Prod.mk.injEq, true_and]
        by_cases hrank : req.dpRank = rank
        · simp [hrank]
        · rw [if_neg hrank] at hnone
          simp [Ne.symm hrank, hnone]
      · rw [Dict.get?_erase_ne _ hiid, Dict.get?_insert_ne _ _ hiid, if_neg (hother hiid)]
    · simp only [endpointInfo, removeFromIndexer_instances]
      by_cases hiid : req.instanceId = iid
      · subst hiid
        rw [Dict.get?_insert_self, hentry, Option.bind_some, Option.bind_some, Dict.get?_erase]
        simp only [UnregisterRequest.dp, Prod.mk.injEq, true_and, eq_comm (a := rank)]
      · rw [Dict.get?_insert_ne _ _ hiid, if_neg (hother hiid)]

/-- **What an unregistration does** to the stored endpoints and to the table. -/
theorem unregister_spec (req : UnregisterRequest) :
    (∀ dp, (r.unregister σ req).2.endpointInfo dp =
      if dp = req.dp then none else r.endpointInfo dp) ∧
    ∀ ip dp, listed (r.unregister σ req).2.hbmIpIndex ip dp =
      match r.endpointInfo req.dp with
      | none => listed r.hbmIpIndex ip dp
      | some info =>
        if ip ∈ hbmHosts info.mediumEndpoints.entries ∧ dp = req.dp then 0
        else listed r.hbmIpIndex ip dp := by
  refine ⟨fun dp => ?_, fun ip dp => ?_⟩
  · rw [unregister, endpointInfo_removeEndpoints]
    congr 1
    apply endpointInfo_congr
    exact unindexStored_instances
  · rw [unregister, removeEndpoints_hbmIpIndex]
    show listed (r.unindexStored σ req.dp).hbmIpIndex ip dp = _
    unfold unindexStored
    cases r.endpointInfo req.dp with
    | none => rfl
    | some info =>
      simp only [unindex, removeHbmIpIndexEntries, listed_foldl_dropDp,
        (hbmHosts_iter _ _ _).mem_iff]

end WorkerRegistry

/-! ## The registrations of a run -/

/-- The request that a DP is currently registered with. -/
def registration (ops : List RegistryOp) (dp : DpKey) : Option RegisterRequest :=
  ops.foldl (fun current op => match op with
    | .register _ req => if dp = req.dp ∧ req.accepted = true then some req else current
    | .unregister _ req => if dp = req.dp then none else current) none

theorem registration_snoc_register (ops : List RegistryOp) (σ : RegistryOrder)
    (req : RegisterRequest) (dp : DpKey) :
    registration (ops ++ [.register σ req]) dp =
      if dp = req.dp ∧ req.accepted = true then some req else registration ops dp := by
  rw [registration, List.foldl_append]
  rfl

theorem registration_snoc_unregister (ops : List RegistryOp) (σ : RegistryOrder)
    (req : UnregisterRequest) (dp : DpKey) :
    registration (ops ++ [.unregister σ req]) dp =
      if dp = req.dp then none else registration ops dp := by
  rw [registration, List.foldl_append]
  rfl

/-- A registration that is not a pool, of an indexed backend, with an HBM endpoint on the node. -/
structure RegisterRequest.ServedAt (req : RegisterRequest) (ip : String) : Prop where
  notPool : WorkerRegistry.isPool req = false
  backend : StoreBackend.parse req.storeBackend = .mooncake ∨
    StoreBackend.parse req.storeBackend = .memcache
  endpoint : ∃ key url, req.mediumEndpoints.get? key = some url ∧
    StorageMedium.isHbmKey key = true ∧ extractIpFromEndpoint url = some ip

theorem mem_indexedHosts_iff {req : RegisterRequest} {ip : String} :
    ip ∈ req.indexedHosts ↔ req.ServedAt ip := by
  have hbackend : ∀ b : StoreBackend, b.indexHbmIp = true ↔ b = .mooncake ∨ b = .memcache := by
    intro b
    cases b <;> decide
  have hendpoint : ip ∈ hbmHosts req.mediumEndpoints.entries ↔
      ∃ key url, req.mediumEndpoints.get? key = some url ∧ StorageMedium.isHbmKey key = true ∧
        extractIpFromEndpoint url = some ip := by
    unfold hbmHosts
    rw [List.mem_filterMap]
    constructor
    · intro ⟨⟨key, url⟩, hmem, hhost⟩
      unfold hbmHost at hhost
      split at hhost
      · next hkey => exact ⟨key, url, Dict.mem_entries_iff.mp hmem, hkey, hhost⟩
      · cases hhost
    · intro ⟨key, url, hget, hkey, hhost⟩
      refine ⟨(key, url), Dict.mem_entries_iff.mpr hget, ?_⟩
      rw [hbmHost, if_pos hkey]
      exact hhost
  unfold RegisterRequest.indexedHosts
  split
  · next h =>
    rw [Bool.and_eq_true, hbackend] at h
    rw [hendpoint]
    exact ⟨fun he => ⟨by simpa using h.2, h.1, he⟩, fun hs => hs.endpoint⟩
  · next h =>
    rw [Bool.and_eq_true, hbackend] at h
    constructor
    · intro hm
      cases hm
    · intro hs
      refine absurd ⟨hs.backend, ?_⟩ h
      simp [hs.notPool]

namespace WorkerRegistry

variable {r r' : WorkerRegistry} {σ : RegistryOrder} {ops : List RegistryOp}

/-- **The table mirrors the registrations**: an address lists the DPs that are served there, once
each, and no others. -/
def Mirrors (ops : List RegistryOp) (r : WorkerRegistry) : Prop :=
  ∀ ip dp,
    ((∃ req, registration ops dp = some req ∧ req.ServedAt ip) →
      ((r.hbmIpIndex.get? ip).getD []).count dp = 1) ∧
    (¬ (∃ req, registration ops dp = some req ∧ req.ServedAt ip) →
      ((r.hbmIpIndex.get? ip).getD []).count dp = 0)

/-- A registration names at most one HBM endpoint, and a DP that is in the table is re-registered
only with another backend. -/
def KeepsTable (r : WorkerRegistry) : RegistryOp → Prop
  | .register _ req => req.accepted = true →
      req.OneHbmEndpoint ∧ ¬ (r.sameBackend req = true ∧ r.indexed req.dp = true)
  | .unregister _ _ => True

instance (r : WorkerRegistry) (op : RegistryOp) : Decidable (r.KeepsTable op) :=
  match op with
  | .register _ req => inferInstanceAs (Decidable (req.accepted = true → req.OneHbmEndpoint ∧ ¬ _))
  | .unregister _ _ => inferInstanceAs (Decidable True)

/-- What holds along a run: the stored endpoints cover the indexed addresses of the registration, and
the table lists exactly these. -/
structure Tracks (ops : List RegistryOp) (r : WorkerRegistry) : Prop where
  stored : ∀ dp, (r.endpointInfo dp).isSome = (registration ops dp).isSome
  covers : ∀ dp req info, registration ops dp = some req → r.endpointInfo dp = some info →
    ∀ ip ∈ req.indexedHosts, ip ∈ hbmHosts info.mediumEndpoints.entries
  table : ∀ ip dp, listed r.hbmIpIndex ip dp =
    if ip ∈ ((registration ops dp).map (·.indexedHosts)).getD [] then 1 else 0

theorem Tracks.mirrors (h : Tracks ops r) : Mirrors ops r := by
  intro ip dp
  have htable := h.table ip dp
  unfold listed at htable
  rw [htable]
  cases hreg : registration ops dp with
  | none => simp
  | some req =>
    simp only [Option.map_some, Option.getD_some, Option.some.injEq, exists_eq_left',
      ← mem_indexedHosts_iff]
    exact ⟨fun hip => if_pos hip, fun hip => if_neg hip⟩

theorem tracks_new : Tracks [] new where
  stored _ := rfl
  covers _ _ _ h := by cases h
  table _ _ := rfl

/-- Whatever the old registration left in the table is gone before the new one is entered. -/
theorem Tracks.dropOldRegistration (h : Tracks ops r) {req : RegisterRequest}
    (hkeep : ¬ (r.sameBackend req = true ∧ r.indexed req.dp = true)) (ip : String) (dp : DpKey) :
    listed (r.dropOldRegistration σ req).hbmIpIndex ip dp =
      if dp = req.dp then 0 else listed r.hbmIpIndex ip dp := by
  rw [listed_dropOldRegistration]
  by_cases hdp : dp = req.dp
  · subst hdp
    rw [if_pos rfl]
    have hstored := h.stored req.dp
    cases hinfo : r.endpointInfo req.dp with
    | none =>
      rw [hinfo, Option.isSome_none, eq_comm, Option.isSome_eq_false_iff, Option.isNone_iff_eq_none]
        at hstored
      simp only [h.table, hstored]
      rfl
    | some info =>
      rw [hinfo, Option.isSome_some, eq_comm, Option.isSome_iff_exists] at hstored
      obtain ⟨old, hold⟩ := hstored
      simp only [and_true]
      split
      · rfl
      · next hstay =>
        cases hsame : r.sameBackend req with
        | true =>
          have : r.indexed req.dp = false := by simpa [hsame] using hkeep
          exact indexed_eq_false_iff.mp this ip
        | false =>
          rw [h.table, hold, Option.map_some, Option.getD_some, if_neg]
          intro hip
          exact hstay ⟨hsame, h.covers _ _ _ hold hinfo ip hip⟩
  · rw [if_neg hdp]
    split
    · rfl
    · simp [hdp]

theorem count_indexedHosts {req : RegisterRequest} (hone : req.OneHbmEndpoint) (ip : String) :
    req.indexedHosts.count ip = if ip ∈ req.indexedHosts then 1 else 0 := by
  have hlen : req.indexedHosts.length ≤ 1 := by
    rcases hone with hnone | hlen
    · rw [hnone]
      exact Nat.zero_le _
    · unfold RegisterRequest.indexedHosts
      split
      · refine Nat.le_trans ?_ hlen
        have hhosts : hbmHosts req.mediumEndpoints.entries =
            (req.mediumEndpoints.entries.filter (fun p => StorageMedium.isHbmKey p.1)).filterMap
              (fun p => extractIpFromEndpoint p.2) := by
          rw [List.filterMap_filter]
          rfl
        rw [hhosts]
        exact List.length_filterMap_le _ _
      · exact Nat.zero_le _
  split
  · next hip =>
    have hpos := List.count_pos_iff.mpr hip
    have hle := List.count_le_length (a := ip) (l := req.indexedHosts)
    omega
  · next hip => exact List.count_eq_zero.mpr hip

theorem Tracks.register {σ : RegistryOrder} {req : RegisterRequest} (h : Tracks ops r)
    (hkeep : r.KeepsTable (.register σ req)) :
    Tracks (ops ++ [.register σ req]) (r.register σ req).2 := by
  cases hacc : req.accepted with
  | false =>
    have hsame : ∀ dp, registration (ops ++ [.register σ req]) dp = registration ops dp := by
      intro dp
      simp [registration_snoc_register, hacc]
    rw [register_rejected hacc]
    exact ⟨by simpa only [hsame] using h.stored, by simpa only [hsame] using h.covers,
      by simpa only [hsame] using h.table⟩
  | true =>
    obtain ⟨hone, hfresh⟩ := hkeep hacc
    obtain ⟨endpointMedia, hok⟩ := (resolveEndpointMedia_ok_iff (σ := σ)).mpr hacc
    obtain ⟨hinfo, htable⟩ := register_spec (r := r) hok
    refine ⟨fun dp => ?_, fun dp req' info hreg hi ip hip => ?_, fun ip dp => ?_⟩
    · rw [hinfo, registration_snoc_register]
      by_cases hdp : dp = req.dp
      · simp [hdp, hacc]
      · simpa [hdp] using h.stored dp
    · rw [registration_snoc_register] at hreg
      rw [hinfo] at hi
      by_cases hdp : dp = req.dp
      · rw [if_pos ⟨hdp, hacc⟩] at hreg
        rw [if_pos hdp] at hi
        cases hreg
        cases hi
        exact mem_hbmHosts_normalizedMediums hone hok hip
      · rw [if_neg fun hand => hdp hand.1] at hreg
        rw [if_neg hdp] at hi
        exact h.covers dp req' info hreg hi ip hip
    · -- what the DP had in the table before is gone, the backend being another one
      rw [htable, h.dropOldRegistration hfresh, registration_snoc_register]
      by_cases hdp : dp = req.dp
      · simp [hdp, hacc, count_indexedHosts hone]
      · simpa [hdp] using h.table ip dp

theorem Tracks.unregister {σ : RegistryOrder} {req : UnregisterRequest} (h : Tracks ops r) :
    Tracks (ops ++ [.unregister σ req]) (r.unregister σ req).2 := by
  obtain ⟨hinfo, htable⟩ := unregister_spec (r := r) (σ := σ) req
  refine ⟨fun dp => ?_, fun dp req' info hreg hi ip hip => ?_, fun ip dp => ?_⟩
  · rw [hinfo, registration_snoc_unregister]
    by_cases hdp : dp = req.dp
    · simp [hdp]
    · simpa [hdp] using h.stored dp
  · rw [registration_snoc_unregister] at hreg
    rw [hinfo] at hi
    split at hi
    · cases hi
    · next hdp =>
      rw [if_neg hdp] at hreg
      exact h.covers dp req' info hreg hi ip hip
  · rw [htable, registration_snoc_unregister]
    by_cases hdp : dp = req.dp
    · subst hdp
      have hstored := h.stored req.dp
      cases hi : r.endpointInfo req.dp with
      | none =>
        rw [hi, Option.isSome_none, eq_comm, Option.isSome_eq_false_iff,
          Option.isNone_iff_eq_none] at hstored
        simp [h.table, hstored]
      | some info =>
        -- the stored hosts cover those in the table
        rw [hi, Option.isSome_some, eq_comm, Option.isSome_iff_exists] at hstored
        obtain ⟨old, hold⟩ := hstored
        have hcovers := h.covers _ _ _ hold hi ip
        simp only [and_true, h.table, hold, Option.map_some, Option.getD_some, ↓reduceIte,
          Option.map_none, Option.getD_none, List.not_mem_nil]
        split
        · rfl
        · next hnot => exact if_neg fun hip => hnot (hcovers hip)
    · rw [if_neg hdp, ← h.table]
      split
      · rfl
      · simp [hdp]

/-- **A request keeps the table right.** -/
theorem exec_tracks {op : RegistryOp} (h : Tracks ops r) (hkeep : r.KeepsTable op)
    (he : r.exec op = some r') : Tracks (ops ++ [op]) r' := by
  cases op with
  | register σ req =>
    cases he
    exact h.register hkeep
  | unregister σ req =>
    cases he
    exact h.unregister

/-- **The table mirrors the registrations after every run** of requests that keep to one HBM endpoint
and do not re-register an indexed DP with the same backend. -/
theorem ipIndex_mirrors_registrations (hrun : Run exec KeepsTable new ops r) : Mirrors ops r :=
  (hrun.invariant tracks_new fun h hkeep he => exec_tracks h hkeep he).mirrors

/-- A registration with one HBM endpoint. -/
def oneEndpoint (storeBackend url : String) : RegisterRequest where
  instanceId := "a"
  mediumEndpoints := Dict.insert ∅ "npu" url
  endpoint := none
  engineType := "vllm"
  modelname := "model"
  blockSize := 128
  dpRank := 0
  storeBackend := storeBackend
  replayEndpoint := none
  tenantId := "default"

/-- The DP moves to another node by way of a registration with another backend. -/
def detourRun : List RegistryOp :=
  [.register .insertion (oneEndpoint "Mooncake" "tcp://10.0.0.1:5557"),
   .register .insertion (oneEndpoint "YuanRong" "tcp://10.0.0.2:5557"),
   .register .insertion (oneEndpoint "mooncake" "tcp://10.0.0.2:5557")]

theorem detourRun_mirrors :
    ∃ r, Run exec KeepsTable new detourRun r ∧
      ((r.hbmIpIndex.get? "10.0.0.2").getD []).count ("a", 0) = 1 ∧
      ((r.hbmIpIndex.get? "10.0.0.1").getD []).count ("a", 0) = 0 := by
  have hsome : (runList exec KeepsTable new detourRun).isSome = true := by decide
  obtain ⟨r, hr⟩ := Option.isSome_iff_exists.mp hsome
  have hmirrors := ipIndex_mirrors_registrations (runList_run hr)
  have hreg : registration detourRun ("a", 0) =
      some (oneEndpoint "mooncake" "tcp://10.0.0.2:5557") := rfl
  refine ⟨r, runList_run hr, (hmirrors _ _).1 ⟨_, hreg, ?_⟩, (hmirrors _ _).2 ?_⟩
  · rw [← mem_indexedHosts_iff]
    decide
  · intro ⟨req, hreq, hserved⟩
    rw [hreg] at hreq
    cases hreq
    rw [← mem_indexedHosts_iff] at hserved
    exact absurd hserved (by decide)

/-- The DP moves to another node, as the comment in `register` suggests. -/
def moveRun : List RegistryOp :=
  [.register .insertion (oneEndpoint "Mooncake" "tcp://10.0.0.1:5557"),
   .register .insertion (oneEndpoint "Mooncake" "tcp://10.0.0.2:5557")]

/-- The old address still lists it. -/
theorem moveRun_keeps_old_address : ∃ r, Run exec Free new moveRun r ∧ ¬ Mirrors moveRun r := by
  have hlisted : (runList exec Free new moveRun).map
      (fun r => ((r.hbmIpIndex.get? "10.0.0.1").getD []).count ("a", 0)) = some 1 := by decide
  obtain ⟨r, hr, hone⟩ := Option.map_eq_some_iff.mp hlisted
  have hreg : registration moveRun ("a", 0) =
      some (oneEndpoint "Mooncake" "tcp://10.0.0.2:5557") := rfl
  refine ⟨r, runList_run hr, fun hmirrors => ?_⟩
  have hzero : ((r.hbmIpIndex.get? "10.0.0.1").getD []).count ("a", 0) = 0 := by
    apply (hmirrors _ _).2
    intro ⟨req, hreq, hserved⟩
    rw [hreg] at hreq
    cases hreq
    rw [← mem_indexedHosts_iff] at hserved
    exact absurd hserved (by decide)
  omega

end WorkerRegistry

end PyMotor.Conductor
