import PyMotor.Conductor.Indexer
import PyMotor.Coordinator.Scheduler.Disagreement

/-!
# Prompts of less than a block

A prompt of fewer tokens than a block is ranked without asking the conductor, as if nothing of it were
cached anywhere (`select_endpoint_candidates_from_list`). The conductor would hash the short block like
any other one, and so would it find it; and what it does not find it does not list, so an instance
without a match is not ranked at all. The two rankings are the same only for endpoints whose instance
has the block on another DP (`shortPrompt_agrees_iff`).
-/

namespace PyMotor.Coordinator

open Ranking (rank mem_rank)

namespace KvCacheAffinityPolicy

variable {xxh3 : List UInt8 → UInt64 → UInt64} {idx : Conductor.Indexer} {σ : Conductor.QueryOrder}
  {instances : List Instance} {inst : Instance} {tokenIds : List ℕ} {blockSize : UInt32}
  {cfg : SchedulerConfig} {tenant : Tenant} {isl topK : ℕ}

/-! ## The answer of the conductor -/

/-- The match of a DP as it is sent. -/
def dpMatchOf (blocks : Conductor.DpBlocks) : MatchedRaw :=
  .entry (some blocks.npuBlocks) (some blocks.cpuBlocks) (some blocks.diskBlocks)
    (some blocks.matchedTokens)

/-- The DPs of an instance are sent by their ranks in decimal. -/
def dpMapOf (dp : Dict Conductor.DpRank Conductor.DpBlocks) : DpMap :=
  dp.entries.foldl (fun dpMap p => dpMap.insert (toString (p.1.toNat : Int)) (dpMatchOf p.2)) ∅

def tenantId : String := "default"

/-- The tenant of an answer. A model without an entry is an error, an entry without a match is an empty
tenant. -/
def tenantOf (answer : Except Conductor.KvConductorError (Dict Conductor.InstanceId Conductor.InstanceMatchData)) :
    Option Tenant :=
  match answer with
  | .ok data => some (data.mapVal fun _ imd => dpMapOf imd.dp)
  | .error (.noWorkers _ _) => some ∅
  | .error _ => none

/-- What the client gets for a prompt; the first instance names the model. -/
def queryConductor (xxh3 : List UInt8 → UInt64 → UInt64) (idx : Conductor.Indexer)
    (σ : Conductor.QueryOrder) (instances : List Instance) (tokenIds : List ℕ) (blockSize : UInt32) :
    Option Tenant :=
  instances.head?.bind fun inst =>
    tenantOf (idx.query xxh3 σ inst.modelName tenantId (tokenIds.map Int.ofNat) blockSize)

/-- The ranking for a tenant. -/
def rankingFrom (cfg : SchedulerConfig) (instances : List Instance) (isl : ℕ) (tenant : Option Tenant)
    (topK : ℕ) : Option (List EndpointCandidate) :=
  (tenant.bind fun tenant =>
    let raw := collectLoadCandidates cfg instances tenant isl
    if raw.isEmpty then none else some (rankByAffinity cfg raw topK)).map Prod.fst

/-- The ranking does not change if the conductor is asked: in no mode, for no weights and for no number
of candidates. -/
def SkipsFreely (instances : List Instance) (tokenIds : List ℕ) (blockSize : UInt32)
    (answer : Option Tenant) : Prop :=
  ∀ (cfg : SchedulerConfig) (topK : ℕ), cfg.blockSize = blockSize.toNat →
    (selectEndpointCandidatesFromList cfg instances tokenIds answer topK).map Prod.fst =
      rankingFrom cfg instances tokenIds.length answer topK

/-- The index has the short block of the prompt for a DP of the instance. -/
def HasBlock (xxh3 : List UInt8 → UInt64 → UInt64) (idx : Conductor.Indexer) (instances : List Instance)
    (tokenIds : List ℕ) (blockSize : UInt32) (inst : Instance) (rank : Conductor.DpRank) : Prop :=
  ∃ first e h, instances.head? = some first ∧ idx.get first.modelName tenantId = some e ∧
    Conductor.computeBlockHashForSeq xxh3 (tokenIds.map Int.ofNat) blockSize = [h] ∧
    e.StoresFirst h (conductorInstanceId inst, rank)

/-! ## Candidates and rankings -/

theorem mem_collectLoadCandidates_iff {c : LoadCandidate} :
    c ∈ collectLoadCandidates cfg instances tenant isl ↔
      ∃ inst ∈ instances, ∃ dpMap, tenant.get? (conductorInstanceId inst) = some dpMap ∧
        ∃ ep ∈ inst.getAllEndpoints, c =
          ⟨ep.workload.calculateWorkloadScore, matchedTokens cfg dpMap isl ep.id,
            prefillCost cfg dpMap isl ep.id, inst, ep⟩ := by
  unfold collectLoadCandidates
  rw [List.mem_flatMap]
  constructor
  · rintro ⟨inst, hinst, hc⟩
    split at hc
    · cases hc
    · next dpMap hget =>
      obtain ⟨ep, hep, rfl⟩ := List.mem_map.mp hc
      exact ⟨inst, hinst, dpMap, hget, ep, hep, rfl⟩
  · rintro ⟨inst, hinst, dpMap, hget, ep, hep, rfl⟩
    refine ⟨inst, hinst, ?_⟩
    rw [hget]
    exact List.mem_map_of_mem hep

theorem rankingFrom_queryTenant (cfg : SchedulerConfig) (instances : List Instance) (tokenIds : List ℕ)
    (answer : Option Tenant) (topK : ℕ) :
    (selectEndpointCandidatesFromList cfg instances tokenIds answer topK).map Prod.fst =
      rankingFrom cfg instances tokenIds.length (queryTenant cfg instances tokenIds answer) topK := rfl

theorem queryTenant_short (hblock : cfg.blockSize = blockSize.toNat)
    (hshort : tokenIds.length < blockSize.toNat) (answer : Option Tenant) :
    queryTenant cfg instances tokenIds answer = some (noMatches instances) := by
  have hsize : conductorBlockSize cfg = blockSize.toNat := by
    rw [conductorBlockSize, hblock, if_pos (by omega)]
  rw [queryTenant, hsize, if_pos (by omega)]

theorem get?_noMatches (h : inst ∈ instances) :
    (noMatches instances).get? (conductorInstanceId inst) = some ∅ := by
  obtain ⟨dpMap, hget⟩ := Dict.contains_iff.mp (contains_noMatches h)
  have hempty : ((noMatches instances).get? (conductorInstanceId inst)).getD ∅ = ∅ := getD_noMatches _
  rw [hget, Option.getD_some] at hempty
  rw [hget, hempty]

/-- The configuration in which the ranking goes by what is left to prefill, and each medium counts. -/
def byPrefill (blockSize : ℕ) : SchedulerConfig where
  schedulerType := .kvCacheAffinity
  endpointInstanceScoreWeight := 0
  kvAffinity :=
    { mode := .unified
      loadWeight := 0
      overlapCredit := 1
      prefillLoadScale := 1
      loadGateTopn := 0
      wNpu := 1
      wCpu := 1
      wDisk := 1 }
  blockSize := blockSize

theorem mem_rankingFrom {c : EndpointCandidate} {ranking : List EndpointCandidate} {n : ℕ}
    (hranking : rankingFrom (byPrefill n) instances isl (some tenant) topK = some ranking)
    (hroom : (collectLoadCandidates (byPrefill n) instances tenant isl).length ≤ topK) :
    c ∈ ranking ↔ ∃ raw ∈ collectLoadCandidates (byPrefill n) instances tenant isl,
      c = ⟨raw.inst, raw.endpoint, raw.prefillCost⟩ := by
  simp only [rankingFrom, Option.bind_some] at hranking
  split at hranking
  · cases hranking
  · cases hranking
    have hscore (raw : LoadCandidate) : unifiedScore (byPrefill n) raw = raw.prefillCost := by
      simp [unifiedScore, byPrefill, SchedulerConfig.prefillLoadScale, SchedulerConfig.loadWeight]
    simp only [rankByAffinity, byPrefill, selectWithLoad]
    rw [List.take_of_length_le, mem_rank, List.mem_map]
    · constructor
      · rintro ⟨raw, hraw, rfl⟩
        exact ⟨raw, hraw, by rw [← hscore raw]; rfl⟩
      · rintro ⟨raw, hraw, rfl⟩
        exact ⟨raw, hraw, by rw [← hscore raw]; rfl⟩
    · rw [(Ranking.rank_perm _ _).length_eq, List.length_map]
      exact le_max_of_le_right hroom

/-! ## What the conductor finds -/

theorem toString_rank_inj {rank rank' : Conductor.DpRank}
    (h : toString (rank.toNat : Int) = toString (rank'.toNat : Int)) : rank = rank' :=
  UInt32.toNat_inj.mp (Int.ofNat.inj (Int.repr_inj.mp h))

theorem get?_dpMapOf {dp : Dict Conductor.DpRank Conductor.DpBlocks} {id : EndpointId} {m : MatchedRaw} :
    (dpMapOf dp).get? (toString id) = some m ↔
      ∃ rank blocks, (rank.toNat : Int) = id ∧ dp.get? rank = some blocks ∧ m = dpMatchOf blocks := by
  constructor
  · intro h
    unfold dpMapOf at h
    rcases Dict.of_get?_foldl_insert (f := fun p => toString (p.1.toNat : Int))
      (g := fun p => dpMatchOf p.2) dp.entries ∅ h with h | ⟨p, hp, hid, rfl⟩
    · cases h
    · exact ⟨p.1, p.2, Int.repr_inj.mp hid, Dict.mem_entries_iff.mp hp, rfl⟩
  · rintro ⟨rank, blocks, rfl, hget, rfl⟩
    refine Dict.get?_foldl_insert (f := fun p => toString (p.1.toNat : Int))
      (g := fun p => dpMatchOf p.2) dp.entries ?_ ∅
      (Or.inr ⟨(rank, blocks), Dict.mem_entries_iff.mpr hget, rfl⟩)
    rintro ⟨rank', blocks'⟩ hp hid
    obtain rfl := toString_rank_inj hid
    have hsame := (Dict.mem_entries_iff.mp hp).symm.trans hget
    exact congrArg dpMatchOf (Option.some.inj hsame)

/-- What a tenant says of what a query has found: it lists the instances of which a DP is covered, and
for each of them the DPs that are. -/
structure Reports (c : Conductor.Coverage) (tenant : Tenant) : Prop where
  listed : ∀ key, tenant.contains key = true ↔ ∃ rank, 0 < c.covered (key, rank)
  only : ∀ key dpMap id m, tenant.get? key = some dpMap → dpMap.get? (toString (id : EndpointId)) = some m →
    ∃ rank, (rank.toNat : Int) = id ∧ 0 < c.covered (key, rank)
  matched : ∀ key dpMap rank, tenant.get? key = some dpMap → 0 < c.covered (key, rank) →
    ∃ blocks, blocks.npuBlocks + blocks.cpuBlocks + blocks.diskBlocks = c.covered (key, rank) ∧
      dpMap.get? (toString (rank.toNat : Int)) = some (dpMatchOf blocks)

/-- **The answer of an entry reports what the query has found.** -/
theorem exists_reports (e : Conductor.IndexerEntry) (σ : Conductor.QueryOrder)
    (q : List Conductor.LocalBlockHash) (modelName : String) (blockSize : ℕ) :
    ∃ tenant, tenantOf (Conductor.buildResponse (e.findMatchesWithCoverage σ q) modelName tenantId
        blockSize) = some tenant ∧ Reports (e.findMatchesWithCoverage σ q) tenant := by
  have hcounted := Conductor.IndexerEntry.counted_findMatchesWithCoverage (e := e) (σ := σ) (q := q)
  have hpos : ∀ dp ends, (e.findMatchesWithCoverage σ q).mediumEnds.get? dp = some ends →
      0 < (e.findMatchesWithCoverage σ q).covered dp :=
    fun dp ends h => Conductor.IndexerEntry.covered_pos_of_mediumEnds h
  generalize e.findMatchesWithCoverage σ q = c at hcounted hpos
  have hends : ∀ dp, 0 < c.covered dp → ∃ ends, c.mediumEnds.get? dp = some ends := by
    intro dp hdp
    cases hget : c.mediumEnds.get? dp with
    | none =>
      rw [Conductor.Coverage.covered, hget] at hdp
      exact absurd hdp (Nat.lt_irrefl 0)
    | some ends => exact ⟨ends, rfl⟩
  cases hresp : Conductor.buildResponse c modelName tenantId blockSize with
  | error err =>
    -- nobody is covered
    obtain ⟨rfl, hempty⟩ : err = .noWorkers modelName tenantId ∧ c.overlap.isEmpty = true := by
      unfold Conductor.buildResponse at hresp
      split at hresp
      · next hempty =>
        cases hresp
        exact ⟨rfl, hempty⟩
      · cases hresp
    have hnone : ∀ dp, ¬0 < c.covered dp := by
      intro dp hdp
      obtain ⟨ends, hget⟩ := hends dp hdp
      rw [hcounted dp ends hget] at hempty
      cases hempty
    refine ⟨∅, rfl, fun key => ?_, ?_, ?_⟩
    · constructor
      · intro h
        cases h
      · rintro ⟨rank, h⟩
        exact absurd h (hnone _)
    · intro key dpMap id m h
      cases h
    · intro key dpMap rank h
      cases h
  | ok data =>
    have hdp := Conductor.buildResponse_dp hresp
    have hfound : ∀ key imd rank blocks, data.get? key = some imd → imd.dp.get? rank = some blocks →
        0 < c.covered (key, rank) := by
      intro key imd rank blocks himd hblocks
      have hentry : Conductor.dpEntry data (key, rank) = some blocks := by
        rw [Conductor.dpEntry, himd]
        exact hblocks
      rw [hdp] at hentry
      obtain ⟨ends, hget, -⟩ := Option.map_eq_some_iff.mp hentry
      exact hpos _ ends hget
    refine ⟨_, rfl, ?_, ?_, ?_⟩
    · intro key
      rw [Dict.contains_iff]
      simp only [Dict.get?_mapVal, Option.map_eq_some_iff]
      constructor
      · rintro ⟨dpMap, imd, himd, -⟩
        obtain ⟨⟨rank, blocks, hblocks, -⟩, -⟩ := Conductor.buildResponse_longest hresp himd
        exact ⟨rank, hfound key imd rank blocks himd hblocks⟩
      · rintro ⟨rank, hcovered⟩
        obtain ⟨ends, hget⟩ := hends _ hcovered
        have hentry := hdp (key, rank)
        rw [hget, Option.map_some] at hentry
        obtain ⟨imd, himd, -⟩ := Option.bind_eq_some_iff.mp hentry
        exact ⟨_, imd, himd, rfl⟩
    · intro key dpMap id m hmap hm
      rw [Dict.get?_mapVal] at hmap
      obtain ⟨imd, himd, rfl⟩ := Option.map_eq_some_iff.mp hmap
      obtain ⟨rank, blocks, hid, hblocks, -⟩ := get?_dpMapOf.mp hm
      exact ⟨rank, hid, hfound key imd rank blocks himd hblocks⟩
    · intro key dpMap rank hmap hcovered
      rw [Dict.get?_mapVal] at hmap
      obtain ⟨imd, himd, rfl⟩ := Option.map_eq_some_iff.mp hmap
      obtain ⟨ends, hget⟩ := hends _ hcovered
      have hentry := hdp (key, rank)
      rw [hget, Option.map_some, Conductor.dpEntry, himd] at hentry
      refine ⟨ends.split blockSize, ?_, get?_dpMapOf.mpr ⟨rank, _, rfl, hentry, rfl⟩⟩
      rw [Conductor.Coverage.split_sum, Conductor.Coverage.covered, hget]

/-! ## Short prompts -/

theorem length_hashes_le (hshort : tokenIds.length < blockSize.toNat) :
    (Conductor.computeBlockHashForSeq xxh3 (tokenIds.map Int.ofNat) blockSize).length ≤ 1 := by
  have hpos : 0 < blockSize.toNat := Nat.zero_lt_of_lt hshort
  rw [Conductor.length_computeBlockHashForSeq hpos, List.length_map, divCeil_le_iff hpos]
  omega

theorem hasBlock_iff_covered {first : Instance} {e : Conductor.IndexerEntry}
    {rank : Conductor.DpRank} (hfirst : instances.head? = some first)
    (hget : idx.get first.modelName tenantId = some e) (hshort : tokenIds.length < blockSize.toNat) :
    HasBlock xxh3 idx instances tokenIds blockSize inst rank ↔
      0 < (e.findMatchesWithCoverage σ
        (Conductor.computeBlockHashForSeq xxh3 (tokenIds.map Int.ofNat) blockSize)).covered
          (conductorInstanceId inst, rank) := by
  have hlen : (Conductor.computeBlockHashForSeq xxh3 (tokenIds.map Int.ofNat) blockSize).length ≤ 1 :=
    length_hashes_le hshort
  unfold HasBlock
  generalize Conductor.computeBlockHashForSeq xxh3 (tokenIds.map Int.ofNat) blockSize = q at hlen
  constructor
  · rintro ⟨first', e', h, hfirst', hget', rfl, hstores⟩
    rw [hfirst, Option.some.injEq] at hfirst'
    subst hfirst'
    rw [hget, Option.some.injEq] at hget'
    subst hget'
    exact Conductor.IndexerEntry.covered_single_pos_iff.mpr hstores
  · intro hpos
    match q, hlen with
    | [], _ =>
      rw [Conductor.IndexerEntry.covered_nil] at hpos
      exact absurd hpos (Nat.lt_irrefl 0)
    | [h], _ =>
      exact ⟨first, e, h, hfirst, hget, rfl, Conductor.IndexerEntry.covered_single_pos_iff.mp hpos⟩

theorem HasBlock.length_pos {rank : Conductor.DpRank} (hsize : 0 < blockSize.toNat)
    (h : HasBlock xxh3 idx instances tokenIds blockSize inst rank) : 0 < tokenIds.length := by
  obtain ⟨first, e, hash, -, -, hhash, -⟩ := h
  have hlen := congrArg List.length hhash
  rw [Conductor.length_computeBlockHashForSeq hsize, List.length_map, List.length_singleton] at hlen
  by_contra hzero
  have hle := (divCeil_le_iff (a := tokenIds.length) (k := 0) hsize).mpr (by omega)
  omega

theorem collectLoadCandidates_eq_nil (h : ∀ inst ∈ instances, inst.getAllEndpoints = []) :
    collectLoadCandidates cfg instances tenant isl = [] := by
  rw [List.eq_nil_iff_forall_not_mem]
  intro c hc
  obtain ⟨inst, hinst, -, -, ep, hep, -⟩ := mem_collectLoadCandidates_iff.mp hc
  rw [h inst hinst] at hep
  cases hep

theorem rankingFrom_eq_none (h : ∀ inst ∈ instances, inst.getAllEndpoints = []) (answer : Option Tenant) :
    rankingFrom cfg instances isl answer topK = none := by
  cases answer with
  | none => rfl
  | some tenant =>
    simp only [rankingFrom, Option.bind_some, collectLoadCandidates_eq_nil h]
    rfl

theorem collectLoadCandidates_congr
    (h : ∀ inst ∈ instances, ∀ ep ∈ inst.getAllEndpoints, ∃ dpMap,
      tenant.get? (conductorInstanceId inst) = some dpMap ∧ dpMap.get? (toString ep.id) = none) :
    collectLoadCandidates cfg instances tenant isl =
      collectLoadCandidates cfg instances (noMatches instances) isl := by
  unfold collectLoadCandidates
  refine List.flatMap_congr fun inst hinst => ?_
  rw [get?_noMatches hinst]
  cases hget : tenant.get? (conductorInstanceId inst) with
  | none =>
    have hnil : inst.getAllEndpoints = [] := by
      rw [List.eq_nil_iff_forall_not_mem]
      intro ep hep
      obtain ⟨dpMap, hmap, -⟩ := h inst hinst ep hep
      rw [hget] at hmap
      cases hmap
    rw [hnil]
    rfl
  | some dpMap =>
    refine List.map_congr_left fun ep hep => ?_
    obtain ⟨dpMap', hmap, hunmatched⟩ := h inst hinst ep hep
    rw [hget, Option.some.injEq] at hmap
    subst hmap
    have hmatched : matchedTokens cfg dpMap isl ep.id = matchedTokens cfg ∅ isl ep.id := by
      rw [matchedTokens, matchedTokens, hunmatched, Dict.get?_empty]
    rw [prefillCost, prefillCost, hmatched]

theorem roundHalfEven_intCast (z : Int) : roundHalfEven (z : ℚ) = z := by
  have hfloor : (z : ℚ).floor = z := Rat.floor_intCast z
  simp only [roundHalfEven, hfloor, sub_self]
  rw [if_pos (by norm_num)]

/-- Where blocks are found and the media count, less than the prompt is left to prefill. -/
theorem prefillCost_lt {dpMap : DpMap} {id : EndpointId} {blocks : Conductor.DpBlocks} {n : ℕ}
    (hn : 0 < n) (hisl : 0 < isl) (hsum : 0 < blocks.npuBlocks + blocks.cpuBlocks + blocks.diskBlocks)
    (hget : dpMap.get? (toString id) = some (dpMatchOf blocks)) :
    prefillCost (byPrefill n) dpMap isl id < isl := by
  have hsize : conductorBlockSize (byPrefill n) = n := if_pos (Int.natCast_pos.mpr hn)
  have hweighted : weightedMatchedTokens (byPrefill n) (dpMatchOf blocks) =
      ((blocks.npuBlocks + blocks.cpuBlocks + blocks.diskBlocks) * n : ℕ) := by
    rw [dpMatchOf, weightedMatchedTokens, hsize, if_pos (by simpa using hn)]
    refine Eq.trans (congrArg roundHalfEven ?_) (roundHalfEven_intCast _)
    simp [byPrefill]
  have hpos : 1 ≤ (blocks.npuBlocks + blocks.cpuBlocks + blocks.diskBlocks) * n := Nat.mul_pos hsum hn
  have hmatched : 1 ≤ matchedTokens (byPrefill n) dpMap isl id := by
    rw [matchedTokens, if_pos hisl, hget, Option.getD_some, hweighted]
    omega
  have hcredit : (byPrefill n).overlapCredit = 1 := by norm_num [SchedulerConfig.overlapCredit, byPrefill]
  have hmatchedq : (1 : ℚ) ≤ matchedTokens (byPrefill n) dpMap isl id := by exact_mod_cast hmatched
  rw [prefillCost, hcredit, one_mul, max_lt_iff]
  exact ⟨by exact_mod_cast hisl, by linarith⟩

theorem queryConductor_cases (xxh3 : List UInt8 → UInt64 → UInt64) (idx : Conductor.Indexer)
    (σ : Conductor.QueryOrder) (instances : List Instance) {tokenIds : List ℕ} {blockSize : UInt32}
    (hshort : tokenIds.length < blockSize.toNat) :
    (queryConductor xxh3 idx σ instances tokenIds blockSize = none ∧
      ∀ inst rank, ¬HasBlock xxh3 idx instances tokenIds blockSize inst rank) ∨
    ∃ c tenant, queryConductor xxh3 idx σ instances tokenIds blockSize = some tenant ∧
      Reports c tenant ∧ ∀ inst rank, HasBlock xxh3 idx instances tokenIds blockSize inst rank ↔
        0 < c.covered (conductorInstanceId inst, rank) := by
  cases hfirst : instances.head? with
  | none =>
    refine Or.inl ⟨by rw [queryConductor, hfirst]; rfl, ?_⟩
    rintro inst rank ⟨first, -, -, hhead, -⟩
    rw [hfirst] at hhead
    cases hhead
  | some first =>
    cases hget : idx.get first.modelName tenantId with
    | none =>
      refine Or.inl ⟨?_, ?_⟩
      · simp only [queryConductor, hfirst, Option.bind_some, Conductor.Indexer.query, hget, tenantOf]
      · rintro inst rank ⟨first', e, -, hhead, he, -⟩
        rw [hfirst, Option.some.injEq] at hhead
        subst hhead
        rw [hget] at he
        cases he
    | some e =>
      obtain ⟨tenant, htenant, hreports⟩ := exists_reports e σ
        (Conductor.computeBlockHashForSeq xxh3 (tokenIds.map Int.ofNat) blockSize) first.modelName
        blockSize.toNat
      refine Or.inr ⟨_, tenant, ?_, hreports, fun inst rank => hasBlock_iff_covered hfirst hget hshort⟩
      simp only [queryConductor, hfirst, Option.bind_some, Conductor.Indexer.query, hget, htenant]

/-- Without the conductor every endpoint is ranked, and by all of the prompt. If this is its ranking too,
then it lists the instance and leaves all of the prompt to prefill. -/
theorem SkipsFreely.listed {answer : Option Tenant} (h : SkipsFreely instances tokenIds blockSize answer)
    (hshort : tokenIds.length < blockSize.toNat) (hinst : inst ∈ instances) {ep : Endpoint}
    (hep : ep ∈ inst.getAllEndpoints) :
    ∃ tenant dpMap, answer = some tenant ∧ tenant.get? (conductorInstanceId inst) = some dpMap ∧
      prefillCost (byPrefill blockSize.toNat) dpMap tokenIds.length ep.id = tokenIds.length := by
  -- with room for all
  have hsame := h (byPrefill blockSize.toNat)
    ((collectLoadCandidates (byPrefill blockSize.toNat) instances (noMatches instances)
        tokenIds.length).length +
      (collectLoadCandidates (byPrefill blockSize.toNat) instances (answer.getD ∅) tokenIds.length).length)
    rfl
  rw [rankingFrom_queryTenant, queryTenant_short rfl hshort] at hsame
  have hraw : ∃ raw ∈ collectLoadCandidates (byPrefill blockSize.toNat) instances (noMatches instances)
      tokenIds.length, raw.inst = inst ∧ raw.endpoint = ep ∧ raw.prefillCost = tokenIds.length :=
    ⟨_, mem_collectLoadCandidates_iff.mpr ⟨inst, hinst, ∅, get?_noMatches hinst, ep, hep, rfl⟩, rfl, rfl,
      prefillCost_empty⟩
  obtain ⟨raw, hmem, rfl, rfl, hcost⟩ := hraw
  cases hskip : rankingFrom (byPrefill blockSize.toNat) instances tokenIds.length
      (some (noMatches instances))
      ((collectLoadCandidates (byPrefill blockSize.toNat) instances (noMatches instances)
          tokenIds.length).length +
        (collectLoadCandidates (byPrefill blockSize.toNat) instances (answer.getD ∅)
          tokenIds.length).length) with
  | none =>
    simp only [rankingFrom, Option.bind_some] at hskip
    rw [if_neg (by simpa using List.ne_nil_of_mem hmem)] at hskip
    cases hskip
  | some ranking =>
    have hranked := (mem_rankingFrom hskip (Nat.le_add_right _ _)).mpr ⟨raw, hmem, rfl⟩
    rw [hskip] at hsame
    cases answer with
    | none => cases hsame
    | some tenant =>
      obtain ⟨raw', hmem', heq⟩ :=
        (mem_rankingFrom hsame.symm (Nat.le_add_left _ _)).mp hranked
      obtain ⟨inst', hinst', dpMap, hmap, ep', hep', rfl⟩ := mem_collectLoadCandidates_iff.mp hmem'
      simp only [EndpointCandidate.mk.injEq] at heq
      obtain ⟨rfl, rfl, hcost'⟩ := heq
      exact ⟨tenant, dpMap, rfl, hmap, hcost'.symm.trans hcost⟩

/-- **A short prompt is ranked without the conductor as with it** exactly if, wherever there is an
endpoint, the instance has the block on some DP, and not on the one of the endpoint. -/
theorem shortPrompt_agrees_iff (xxh3 : List UInt8 → UInt64 → UInt64) (idx : Conductor.Indexer)
    (σ : Conductor.QueryOrder) (instances : List Instance) (tokenIds : List ℕ) (blockSize : UInt32)
    (hshort : tokenIds.length < blockSize.toNat) :
    SkipsFreely instances tokenIds blockSize (queryConductor xxh3 idx σ instances tokenIds blockSize) ↔
      ∀ inst ∈ instances, ∀ ep ∈ inst.getAllEndpoints,
        (∃ rank, HasBlock xxh3 idx instances tokenIds blockSize inst rank) ∧
          ∀ rank : Conductor.DpRank, (rank.toNat : Int) = ep.id →
            ¬HasBlock xxh3 idx instances tokenIds blockSize inst rank := by
  have hsize : 0 < blockSize.toNat := Nat.zero_lt_of_lt hshort
  have hanswer := queryConductor_cases xxh3 idx σ instances hshort
  generalize queryConductor xxh3 idx σ instances tokenIds blockSize = answer at hanswer
  constructor
  · intro hfree inst hinst ep hep
    obtain ⟨tenant, dpMap, rfl, hmap, hcost⟩ := hfree.listed hshort hinst hep
    rcases hanswer with ⟨hnone, -⟩ | ⟨c, tenant', heq, hreports, hblock⟩
    · cases hnone
    · cases heq
      constructor
      · obtain ⟨rank, hrank⟩ := (hreports.listed _).mp (Dict.contains_iff.mpr ⟨dpMap, hmap⟩)
        exact ⟨rank, (hblock inst rank).mpr hrank⟩
      · intro rank hid hrank
        -- less of the prompt would be left to prefill
        have hcovered := (hblock inst rank).mp hrank
        obtain ⟨blocks, hsum, hentry⟩ := hreports.matched _ dpMap rank hmap hcovered
        rw [hid] at hentry
        have hlt := prefillCost_lt hsize (hrank.length_pos hsize) (hsum ▸ hcovered) hentry
        rw [hcost] at hlt
        exact lt_irrefl _ hlt
  · intro h cfg topK hcfg
    rw [rankingFrom_queryTenant, queryTenant_short hcfg hshort]
    rcases hanswer with ⟨rfl, hnone⟩ | ⟨c, tenant, rfl, hreports, hblock⟩
    · -- there is no endpoint
      refine rankingFrom_eq_none (fun inst hinst => ?_) _
      rw [List.eq_nil_iff_forall_not_mem]
      intro ep hep
      obtain ⟨⟨rank, hrank⟩, -⟩ := h inst hinst ep hep
      exact hnone inst rank hrank
    · have hsame : collectLoadCandidates cfg instances tenant tokenIds.length =
          collectLoadCandidates cfg instances (noMatches instances) tokenIds.length := by
        refine collectLoadCandidates_congr fun inst hinst ep hep => ?_
        obtain ⟨⟨rank, hrank⟩, hown⟩ := h inst hinst ep hep
        obtain ⟨dpMap, hmap⟩ := Dict.contains_iff.mp
          ((hreports.listed _).mpr ⟨rank, (hblock inst rank).mp hrank⟩)
        refine ⟨dpMap, hmap, ?_⟩
        cases hentry : dpMap.get? (toString ep.id) with
        | none => rfl
        | some m =>
          obtain ⟨rank', hid, hcovered⟩ := hreports.only _ dpMap ep.id m hmap hentry
          exact absurd ((hblock inst rank').mpr hcovered) (hown rank' hid)
      simp only [rankingFrom, Option.bind_some, hsame]

/-! ## Three tokens -/

/-- Nothing is stored. -/
def emptyIndex (modelName : String) : Conductor.Indexer :=
  .single modelName tenantId .new ⟨[], Run.nil⟩

/-- The conductor lists no instance, and so the ranking is none; without it the endpoint is ranked. -/
theorem emptyIndex_not_ranked : ∃ inst, inst = InstanceManager.oneEndpoint 1 "p" "prefill" ∧
    queryConductor Conductor.Indexer.sampleXxh3 (emptyIndex inst.modelName) .insertion [inst] [1, 2, 3] 4 =
      some ∅ ∧
    ¬SkipsFreely [inst] [1, 2, 3] 4 (queryConductor Conductor.Indexer.sampleXxh3
      (emptyIndex inst.modelName) .insertion [inst] [1, 2, 3] 4) := by
  refine ⟨_, rfl, rfl, fun h => ?_⟩
  have hsame := congrArg Option.isSome (h (byPrefill 4) 1 rfl)
  revert hsame
  decide +kernel

/-- The second DP of an instance has an endpoint, the first has the prompt. -/
def otherDp : Instance :=
  { InstanceManager.oneEndpoint 1 "p" "prefill" with
    endpoints := (∅ : Dict String _).insert "10.0.0.1"
      ((∅ : Dict EndpointId Endpoint).insert 1 ⟨1, "10.0.0.1", "8002", "8003", none, [], .zero, false⟩) }

def otherDpIndex : Conductor.Indexer :=
  .single otherDp.modelName tenantId
    (Conductor.IndexerEntry.new.applyEvent ⟨"vllm-prefill-1", "vllm-prefill-1", 0, .npu⟩
      (.stored ⟨none, [⟨101, 15024015205894559313⟩]⟩)).2
    ⟨[.event ⟨"vllm-prefill-1", "vllm-prefill-1", 0, .npu⟩
      (.stored ⟨none, [⟨101, 15024015205894559313⟩]⟩)], Run.nil.snoc trivial rfl⟩

theorem otherDp_agrees : [1, 2, 3].length < (4 : UInt32).toNat ∧
    SkipsFreely [otherDp] [1, 2, 3] 4
      (queryConductor Conductor.Indexer.sampleXxh3 otherDpIndex .insertion [otherDp] [1, 2, 3] 4) := by
  refine ⟨by decide, (shortPrompt_agrees_iff Conductor.Indexer.sampleXxh3 otherDpIndex .insertion [otherDp]
    [1, 2, 3] 4 (by decide)).mpr ?_⟩
  have hblock : ∀ rank, HasBlock Conductor.Indexer.sampleXxh3 otherDpIndex [otherDp] [1, 2, 3] 4 otherDp
      rank ↔ 0 < _ := fun rank => hasBlock_iff_covered (σ := .insertion) rfl rfl (by decide)
  intro inst hinst ep hep
  obtain rfl := List.mem_singleton.mp hinst
  have hid : ep.id = 1 := by
    have hall : ∀ ep ∈ otherDp.getAllEndpoints, ep.id = 1 := by decide +kernel
    exact hall ep hep
  refine ⟨⟨0, (hblock 0).mpr (by decide +kernel)⟩, fun rank hrank hhas => ?_⟩
  obtain rfl : rank = 1 := UInt32.toNat_inj.mp (Int.ofNat.inj (hrank.trans hid))
  have hnot := (hblock 1).mp hhas
  revert hnot
  decide +kernel

end KvCacheAffinityPolicy

end PyMotor.Coordinator
