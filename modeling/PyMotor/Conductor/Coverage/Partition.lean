import PyMotor.Conductor.Coverage.Provenance

/-!
# The exclusive partition of a coverage

What a query records per DP is one absolute end for each medium: the farthest end of a match of one
of its workers (`absoluteEnds_findMatches`). The response cuts the interval up to the farthest of the
three ends into a piece that NPU serves, a piece that only CPU and Disk reach, and a piece that only
Disk reaches (`split_partitions`). Nothing is lost in this: a worker's walk from the root ends inside
the interval, on whatever medium it is (`walkLoop_le_covered`), so a longer copy on a lower tier is
not hidden by a shorter match above it.

That the ends of CPU matches are recorded as CPU ends rests on an invariant of the index: the owners
in a tier are workers of its medium (`run_ownersOn`).
-/

namespace PyMotor.Conductor

/-! ## Greatest elements -/

/-- A number with the same strict lower bounds as a set is its greatest element. -/
theorem isGreatest_of_lt_iff {S : Set Nat} {n : Nat} (hne : S.Nonempty)
    (h : ∀ i, i < n ↔ ∃ k ∈ S, i < k) : IsGreatest S n := by
  have hle : ∀ k ∈ S, k ≤ n := by
    intro k hk
    by_contra hlt
    exact Nat.lt_irrefl n ((h n).mpr ⟨k, hk, Nat.lt_of_not_le hlt⟩)
  refine ⟨?_, hle⟩
  obtain ⟨k₀, hk₀⟩ := hne
  cases n with
  | zero =>
    have : k₀ = 0 := Nat.le_zero.mp (hle k₀ hk₀)
    exact this ▸ hk₀
  | succ n =>
    obtain ⟨k, hk, hlt⟩ := (h n).mp (Nat.lt_succ_self n)
    have : k = n + 1 := Nat.le_antisymm (hle k hk) hlt
    exact this ▸ hk

theorem isGreatest_insert_zero {S : Set Nat} {n : Nat} (h : ∀ i, i < n ↔ ∃ k ∈ S, i < k) :
    IsGreatest (insert 0 S) n := by
  refine isGreatest_of_lt_iff ⟨0, Set.mem_insert 0 S⟩ (fun i => ?_)
  rw [h, Set.exists_mem_insert]
  simp

theorem isGreatest_foldl_max {l : List Nat} (hne : l ≠ []) :
    IsGreatest {n | n ∈ l} (l.foldl max 0) := by
  refine isGreatest_of_lt_iff (List.exists_mem_of_ne_nil l hne) (fun i => ?_)
  have hlt := Coverage.lt_foldl_iff (S := Nat) (fun n => n) (fun a i => i < a)
    (fun s a i => lt_max_iff) l 0 i
  simpa using hlt

namespace IndexerEntry

variable {e : IndexerEntry} {σ : QueryOrder} {q : List LocalBlockHash} {dp : DpKey} {i : Nat}

/-- A worker of the DP has a match on the medium that ends at `n`. -/
def MatchEnds (e : IndexerEntry) (σ : QueryOrder) (q : List LocalBlockHash) (dp : DpKey) :
    StorageMedium → Nat → Prop
  | .npu, n | .unknown, n =>
    ∃ w m, (e.hbm.tree.findMatchesDetailed q).get? w = some m ∧ w.dp = dp ∧ m.depth = n
  | .cpu, n => ∃ w hit, (e.hits σ q .cpu).get? w = some hit ∧ w.dp = dp ∧ hit.endPos = n
  | .disk, n => ∃ w hit, (e.hits σ q .disk).get? w = some hit ∧ w.dp = dp ∧ hit.endPos = n

/-- The farthest ends of the matches of a DP, medium by medium; `0` where there is none. -/
structure AbsoluteEnds (e : IndexerEntry) (σ : QueryOrder) (q : List LocalBlockHash) (dp : DpKey)
    (ends : MediumEnds) : Prop where
  npu : IsGreatest (insert 0 {n | e.MatchEnds σ q dp .npu n}) ends.npu
  cpu : IsGreatest (insert 0 {n | e.MatchEnds σ q dp .cpu n}) ends.cpu
  disk : IsGreatest (insert 0 {n | e.MatchEnds σ q dp .disk n}) ends.disk

/-- The medium that a tier stores. -/
def tierMedium : LowerTier → StorageMedium
  | .cpu => .cpu
  | .disk => .disk

theorem hits_medium (hown : BothTiers OwnersOn e) {tier : LowerTier} {w : WorkerKey}
    {hit : ContiguousHit} (h : (e.hits σ q tier).get? w = some hit) :
    w.medium = tierMedium tier := by
  obtain ⟨-, c, hc, -, -⟩ := tier_hit h
  obtain ⟨-, x, -, hw⟩ := mem_tierContinuations.mp hc
  obtain ⟨child, howns⟩ := LowerTierIndexer.mem_edgeOwners.mp hw
  cases tier with
  | cpu => exact hown.1.2 w _ _ howns
  | disk => exact hown.2.2 w _ _ howns

/-- **What is recorded for a medium** are the ends of its matches. -/
theorem lt_endOn_iff (hown : BothTiers OwnersOn e) {m : StorageMedium} :
    i < (e.findMatchesWithCoverage σ q).endOn dp m ↔ ∃ n, e.MatchEnds σ q dp m n ∧ i < n := by
  rw [lt_endOn_findMatches]
  constructor
  · rintro (⟨hm, w, p, hget, hdp, hi⟩ | ⟨tier, w, hit, hget, hdp, hm, hi⟩)
    · cases m with
      | npu | unknown => exact ⟨p.depth, ⟨w, p, hget, hdp, rfl⟩, hi⟩
      | cpu | disk => cases hm
    · rw [hits_medium hown hget] at hm
      cases tier with
      | cpu =>
        cases m with
        | cpu => exact ⟨hit.endPos, ⟨w, hit, hget, hdp, rfl⟩, hi⟩
        | npu | unknown | disk => cases hm
      | disk =>
        cases m with
        | disk => exact ⟨hit.endPos, ⟨w, hit, hget, hdp, rfl⟩, hi⟩
        | npu | unknown | cpu => cases hm
  · rintro ⟨n, hn, hi⟩
    cases m with
    | npu | unknown =>
      obtain ⟨w, p, hget, hdp, rfl⟩ := hn
      exact Or.inl ⟨rfl, w, p, hget, hdp, hi⟩
    | cpu =>
      obtain ⟨w, hit, hget, hdp, rfl⟩ := hn
      exact Or.inr ⟨.cpu, w, hit, hget, hdp, by rw [hits_medium hown hget]; rfl, hi⟩
    | disk =>
      obtain ⟨w, hit, hget, hdp, rfl⟩ := hn
      exact Or.inr ⟨.disk, w, hit, hget, hdp, by rw [hits_medium hown hget]; rfl, hi⟩

/-- **The recorded ends are the absolute ends.** -/
theorem absoluteEnds_findMatches (hown : BothTiers OwnersOn e) {ends : MediumEnds}
    (h : (e.findMatchesWithCoverage σ q).mediumEnds.get? dp = some ends) :
    e.AbsoluteEnds σ q dp ends := by
  have hlt : ∀ m i, i < ends.on m ↔ ∃ n ∈ {n | e.MatchEnds σ q dp m n}, i < n := by
    intro m i
    have hon : (e.findMatchesWithCoverage σ q).endOn dp m = ends.on m := by
      rw [Coverage.endOn, h, Option.elim_some]
    rw [← hon, lt_endOn_iff hown]
    rfl
  exact ⟨isGreatest_insert_zero (hlt .npu), isGreatest_insert_zero (hlt .cpu),
    isGreatest_insert_zero (hlt .disk)⟩

/-! ## Walks from the root -/

theorem carriedTo_le_covered {w : WorkerKey} {d : Nat}
    (h : e.hbm.tree.CarriedTo w ConcurrentRadixTree.root q d) :
    d ≤ (e.findMatchesWithCoverage σ q).covered w.dp := by
  cases d with
  | zero => exact Nat.zero_le _
  | succ d =>
    -- the node of the first block carries the worker, so it is reported
    obtain ⟨m, hm⟩ : ∃ m, (e.hbm.tree.findMatchesDetailed q).get? w = some m := by
      rw [ConcurrentRadixTree.findMatchesDetailed_isSome]
      cases q with
      | nil => exact absurd h.1 (Nat.not_succ_le_zero d)
      | cons item rest =>
        obtain ⟨c, hc, hw, -⟩ := ConcurrentRadixTree.carriedTo_succ h
        exact ⟨item, rfl, c, hc, hw⟩
    have hle : d + 1 ≤ m.depth := (ConcurrentRadixTree.findMatchesDetailed_greatest hm).2 h
    exact lt_covered_iff.mpr (Or.inl ⟨w, m, hm, rfl, hle⟩)

theorem root_mem_candidates {tier : LowerTier} {w : WorkerKey} {first : LocalBlockHash}
    {rest : List LocalBlockHash} (hw : w ∈ (e.tier tier).edgeOwners none first) :
    ⟨0, none⟩ ∈ e.candidates σ (first :: rest) tier w :=
  mem_tierContinuations.mpr ⟨Or.inl rfl, first, rfl, hw⟩

theorem walkLoop_le_covered {tier : LowerTier} {w : WorkerKey} :
    ((e.tier tier).walkLoop w none q).1 ≤ (e.findMatchesWithCoverage σ q).covered w.dp := by
  cases hn : ((e.tier tier).walkLoop w none q).1 with
  | zero => exact Nat.zero_le _
  | succ n =>
    cases q with
    | nil => cases hn
    | cons first rest =>
      have hw : w ∈ (e.tier tier).edgeOwners none first := by
        rw [LowerTierIndexer.walkLoop] at hn
        unfold LowerTierIndexer.edgeOwners
        split at hn
        · cases hn
        · next edge hedge =>
          split at hn
          · next hown =>
            simp only [hedge]
            exact EdgeOwnersEntry.mem_collectWorkers.mpr hown
          · cases hn
      have hcand : ⟨0, none⟩ ∈ e.candidates σ (first :: rest) tier w := root_mem_candidates hw
      obtain ⟨hit, hget, hend⟩ := tier_hit_of_candidate hcand
      refine lt_covered_iff.mpr (Or.inr ⟨tier, w, hit, hget, rfl, ?_⟩)
      have hwalk : ((e.tier tier).walk (first :: rest) w ⟨0, none⟩).endPos = n + 1 := by
        simp only [ContiguousHit.endPos, LowerTierIndexer.walk, List.drop_zero, hn,
          Nat.zero_add]
      omega

end IndexerEntry

/-! ## The response -/

/-- The medium that block `i` is served from: the first of NPU, CPU and Disk that reaches it. -/
def MediumEnds.servedFrom (ends : MediumEnds) (i : Nat) : Option StorageMedium :=
  if i < ends.npu then some .npu
  else if i < ends.cpu then some .cpu
  else if i < ends.disk then some .disk
  else none

/-- The counts of a DP cut the interval into three pieces, each of which is served from its medium. -/
structure DpBlocks.Partitions (m : DpBlocks) (ends : MediumEnds) : Prop where
  npu : ∀ i, ends.servedFrom i = some .npu ↔ i < m.npuBlocks
  cpu : ∀ i, ends.servedFrom i = some .cpu ↔
    m.npuBlocks ≤ i ∧ i < m.npuBlocks + m.cpuBlocks
  disk : ∀ i, ends.servedFrom i = some .disk ↔
    m.npuBlocks + m.cpuBlocks ≤ i ∧ i < m.npuBlocks + m.cpuBlocks + m.diskBlocks

theorem split_partitions (ends : MediumEnds) (blockSize : Nat) :
    (ends.split blockSize).Partitions ends := by
  refine ⟨fun i => ?_, fun i => ?_, fun i => ?_⟩ <;>
  · simp only [MediumEnds.servedFrom, MediumEnds.split]
    split_ifs <;> simp <;> omega

/-- The saturating sums and product stop where the exact ones would. -/
theorem split_matchedTokens (ends : MediumEnds) (blockSize : Nat) :
    (ends.split blockSize).matchedTokens =
      saturate (max ends.npu (max ends.cpu ends.disk) * blockSize) := by
  have hsum := Coverage.split_sum ends blockSize
  simp only [MediumEnds.split] at hsum ⊢
  rw [← hsum]
  generalize ends.npu + (ends.cpu - ends.npu) = a
  generalize ends.disk - max ends.npu ends.cpu = b
  have hsat : saturate (saturate a + b) = saturate (a + b) := by
    simp only [saturate]
    omega
  rw [hsat]
  cases blockSize with
  | zero => simp only [Nat.mul_zero]
  | succ k =>
    by_cases hbig : a + b ≤ 2 ^ 32 - 1
    · have hsame : saturate (a + b) = a + b := Nat.min_eq_left hbig
      rw [hsame]
    · -- both products are beyond the largest value
      have hle : ∀ n, n ≤ n * (k + 1) := fun n => Nat.le_mul_of_pos_right n (Nat.succ_pos k)
      have h₁ := hle (saturate (a + b))
      have h₂ := hle (a + b)
      have h₃ : saturate (a + b) = 2 ^ 32 - 1 := Nat.min_eq_right (by omega)
      rw [h₃] at h₁ ⊢
      rw [saturate, saturate, Nat.min_eq_right h₁, Nat.min_eq_right (by omega)]

theorem foldl_insertDp_nonempty (blockSize : Nat) (l : List (DpKey × MediumEnds)) :
    ∀ {data : Dict InstanceId InstanceMatchData},
      (∀ iid imd, data.get? iid = some imd → imd.dp.values ≠ []) →
      ∀ iid imd, (l.foldl (fun data p => insertDp data p.1 (p.2.split blockSize)) data).get? iid =
        some imd → imd.dp.values ≠ [] := by
  induction l with
  | nil =>
    intro data h
    exact h
  | cons p l ih =>
    intro data h
    refine ih (fun iid imd himd => ?_)
    simp only [insertDp, Dict.get?_insert] at himd
    split at himd
    · cases himd
      refine List.ne_nil_of_mem (a := p.2.split blockSize) (Dict.mem_values_iff.mpr ⟨p.1.2, ?_⟩)
      exact Dict.get?_insert_self ..
    · exact h iid imd himd

/-- **The longest match of an instance** is the greatest of its DPs'. -/
theorem buildResponse_longest {c : Coverage} {modelName tenantId : String} {blockSize : Nat}
    {resp : Dict InstanceId InstanceMatchData}
    (h : buildResponse c modelName tenantId blockSize = .ok resp) {iid : InstanceId}
    {data : InstanceMatchData} (hdata : resp.get? iid = some data) :
    IsGreatest {n | ∃ rank m, data.dp.get? rank = some m ∧ m.matchedTokens = n}
      data.longestMatched := by
  unfold buildResponse at h
  split at h
  · cases h
  · simp only [Except.ok.injEq] at h
    subst h
    rw [Dict.get?_mapVal] at hdata
    obtain ⟨imd, himd, rfl⟩ := Option.map_eq_some_iff.mp hdata
    have hempty : ∀ iid imd, (∅ : Dict InstanceId InstanceMatchData).get? iid = some imd →
        imd.dp.values ≠ [] := fun _ _ h => by cases h
    have hne := foldl_insertDp_nonempty blockSize c.mediumEnds.entries hempty iid imd himd
    have hset : {n | ∃ rank m, imd.dp.get? rank = some m ∧ m.matchedTokens = n} =
        {n | n ∈ imd.dp.values.map (·.matchedTokens)} := by
      ext n
      simp only [Set.mem_ofPred_eq, List.mem_map, Dict.mem_values_iff]
      constructor
      · rintro ⟨rank, m, hm, rfl⟩
        exact ⟨m, ⟨rank, hm⟩, rfl⟩
      · rintro ⟨m, ⟨rank, hm⟩, rfl⟩
        exact ⟨rank, m, hm, rfl⟩
    rw [hset]
    exact isGreatest_foldl_max (by simpa using hne)

namespace IndexerEntry

/-- **The exclusive partition hides no replica.** In every reachable state, the counts of every DP of
a response partition the interval up to the farthest of its absolute ends, its tokens are the length
of that interval, and no worker of the DP has a longer walk from the root, on any medium. -/
theorem response_partitions_coverage {ops : List EntryOp} {e : IndexerEntry}
    (hrun : Run exec Free new ops e) (σ : QueryOrder) (q : List LocalBlockHash)
    (modelName tenantId : String) (blockSize : Nat) {resp : Dict InstanceId InstanceMatchData}
    (h : buildResponse (e.findMatchesWithCoverage σ q) modelName tenantId blockSize = .ok resp)
    {iid : InstanceId} {data : InstanceMatchData} (hdata : resp.get? iid = some data) :
    IsGreatest {n | ∃ rank m, data.dp.get? rank = some m ∧ m.matchedTokens = n}
      data.longestMatched ∧
    ∀ rank m, data.dp.get? rank = some m → ∃ ends, e.AbsoluteEnds σ q (iid, rank) ends ∧
      m.npuBlocks + m.cpuBlocks + m.diskBlocks = max ends.npu (max ends.cpu ends.disk) ∧
      m.Partitions ends ∧
      m.matchedTokens = saturate (max ends.npu (max ends.cpu ends.disk) * blockSize) ∧
      (∀ w d, w.dp = (iid, rank) → e.hbm.tree.CarriedTo w ConcurrentRadixTree.root q d →
        d ≤ max ends.npu (max ends.cpu ends.disk)) ∧
      ∀ tier w, w.dp = (iid, rank) →
        ((e.tier tier).walkLoop w none q).1 ≤ max ends.npu (max ends.cpu ends.disk) := by
  refine ⟨buildResponse_longest h hdata, fun rank m hm => ?_⟩
  have hdp : dpEntry resp (iid, rank) = some m := by
    rw [dpEntry, hdata]
    exact hm
  rw [buildResponse_dp h] at hdp
  obtain ⟨ends, hends, rfl⟩ := Option.map_eq_some_iff.mp hdp
  have hcovered : (e.findMatchesWithCoverage σ q).covered (iid, rank) =
      max ends.npu (max ends.cpu ends.disk) := by
    rw [Coverage.covered, hends]
  refine ⟨ends, absoluteEnds_findMatches (run_ownersOn hrun) hends, Coverage.split_sum ends blockSize,
    split_partitions ends blockSize, split_matchedTokens ends blockSize, ?_, ?_⟩
  · intro w d hw hcarried
    rw [← hcovered, ← hw]
    exact carriedTo_le_covered hcarried
  · intro tier w hw
    rw [← hcovered, ← hw]
    exact walkLoop_le_covered

/-- One DP with a block in HBM and a copy of two blocks in the CPU tier. -/
def longerCopyRun : List EntryOp :=
  [.event ⟨"a", "a", 0, .npu⟩ (.stored ⟨none, [⟨101, 1⟩]⟩),
   .event ⟨"a", "pool", 0, .cpu⟩ (.stored ⟨none, [⟨101, 1⟩, ⟨102, 2⟩]⟩)]

theorem longerCopyRun_partitioned :
    ∃ e, Run exec Free new longerCopyRun e ∧ ∃ resp data m,
      buildResponse (e.findMatchesWithCoverage .insertion [1, 2]) "model" "default" 4 = .ok resp ∧
      resp.get? "a" = some data ∧ data.dp.get? 0 = some m ∧ m = ⟨8, 1, 1, 0⟩ ∧
      ∃ ends, e.AbsoluteEnds .insertion [1, 2] ("a", 0) ends ∧ m.Partitions ends := by
  have hcredit : (runList exec Free new longerCopyRun).map (fun e =>
      (buildResponse (e.findMatchesWithCoverage .insertion [1, 2]) "model" "default" 4
        ).toOption.bind (dpEntry · ("a", 0))) = some (some ⟨8, 1, 1, 0⟩) := by
    rfl
  obtain ⟨e, he, hresp⟩ := Option.map_eq_some_iff.mp hcredit
  obtain ⟨resp, hok, hdp⟩ := Option.bind_eq_some_iff.mp hresp
  obtain ⟨data, hdata, hm⟩ := Option.bind_eq_some_iff.mp hdp
  have hok' : buildResponse (e.findMatchesWithCoverage .insertion [1, 2]) "model" "default" 4 =
      .ok resp := by
    cases hb : buildResponse (e.findMatchesWithCoverage .insertion [1, 2]) "model" "default" 4 with
    | error err => simp [hb, Except.toOption] at hok
    | ok resp' =>
      rw [hb] at hok
      cases hok
      rfl
  have hrun := runList_run he
  obtain ⟨-, hall⟩ := response_partitions_coverage hrun .insertion [1, 2] "model" "default" 4 hok' hdata
  obtain ⟨ends, hends, -, hpart, -⟩ := hall 0 _ hm
  exact ⟨e, hrun, resp, data, _, hok', hdata, hm, rfl, ends, hends, hpart⟩

end IndexerEntry

end PyMotor.Conductor
