import PyMotor.Conductor.Coverage.Breakpoints
import PyMotor.Conductor.Coverage.Partition
import PyMotor.Conductor.Hashing

/-!
# Queries by tokens

An `Indexer` holds one entry for every model and tenant. A query by tokens hashes them, matches the
hashes against the entry and multiplies the matched blocks by the block size.

Blocks are counted whole, the last one too, which may be shorter. If it is, and if a match reaches it
(`ReachesEnd`), more tokens are reported than the query has (`matchedTokens_le_iff`).
-/

namespace PyMotor.Conductor

structure IndexerKey where
  modelName : String
  tenantId : String
  deriving DecidableEq, Repr

/-- The entries, each of them reached by the steps of an entry. -/
structure Indexer where
  entries : Dict IndexerKey IndexerEntry
  reached : ∀ key e, entries.get? key = some e →
    ∃ ops, Run IndexerEntry.exec Free IndexerEntry.new ops e

namespace Indexer

def get (idx : Indexer) (modelName tenantId : String) : Option IndexerEntry :=
  idx.entries.get? ⟨modelName, tenantId⟩

/-- The instances of the answer; the tenant they are filed under is the caller's. -/
def query (xxh3 : List UInt8 → UInt64 → UInt64) (idx : Indexer) (σ : QueryOrder)
    (modelName tenantId : String) (tokenIds : List Int) (blockSize : UInt32) :
    Except KvConductorError (Dict InstanceId InstanceMatchData) :=
  match idx.get modelName tenantId with
  | none => .error (.noIndexer modelName tenantId)
  | some e =>
    buildResponse (e.findMatchesWithCoverage σ (computeBlockHashForSeq xxh3 tokenIds blockSize))
      modelName tenantId blockSize.toNat

/-- An index with a single entry. -/
def single (modelName tenantId : String) (e : IndexerEntry)
    (h : ∃ ops, Run IndexerEntry.exec Free IndexerEntry.new ops e) : Indexer where
  entries := (∅ : Dict IndexerKey IndexerEntry).insert ⟨modelName, tenantId⟩ e
  reached := by
    intro key e' he'
    rw [Dict.get?_insert] at he'
    split at he'
    · cases he'
      exact h
    · simp at he'

end Indexer

/-! ## How far a query is covered -/

namespace Coverage

/-- The DP is covered if it is in the table of ends. -/
def Credits (c : Coverage) (dp : DpKey) : Prop :=
  ∀ ends, c.mediumEnds.get? dp = some ends → 0 < c.covered dp

theorem Credits.note {c : Coverage} {dp : DpKey} {w : WorkerKey} {medium : StorageMedium}
    {n endPos : Nat} (hc : c.Credits dp) (hpos : 0 < endPos) : (c.note w medium n endPos).Credits dp := by
  intro ends hends
  rw [lt_covered_iff_endOn]
  by_cases hdp : w.dp = dp
  · exact ⟨medium, lt_endOn_note.mpr (Or.inr ⟨hdp, rfl, hpos⟩)⟩
  · simp only [Coverage.note, noteMediumEnd, Dict.get?_insert, if_neg hdp] at hends
    obtain ⟨on, hon⟩ := lt_covered_iff_endOn.mp (hc ends hends)
    exact ⟨on, lt_endOn_note.mpr (Or.inl hon)⟩

theorem Credits.lowerTierLookup {c : Coverage} {dp : DpKey} {σ : HashOrder (WorkerKey × ContiguousHit)}
    {k : Nat} {t : LowerTierIndexer} {q : List LocalBlockHash} {breaks : List TierBreakpoint}
    (hc : c.Credits dp) : (lowerTierLookup σ k t q breaks c).2.Credits dp := by
  refine List.foldlRecOn (motive := fun c : Coverage => c.Credits dp) _ _ hc ?_
  intro c hc p _
  split
  · next hcount => exact hc.note (Nat.lt_of_lt_of_le hcount (Nat.le_add_left _ _))
  · exact hc

end Coverage

namespace IndexerEntry

variable {e : IndexerEntry} {σ : QueryOrder} {q : List LocalBlockHash}

/-- The hit of a worker is one of its walks, and it ends inside the query. -/
theorem hits_walk {tier : LowerTier} {w : WorkerKey} {hit : ContiguousHit}
    (h : (e.hits σ q tier).get? w = some hit) :
    hit.endPos ≤ q.length ∧ ∃ c ∈ e.candidates σ q tier w,
      hit.endPos = c.startPos +
        ((e.tier tier).walkLoop w c.lastMatchedHash (q.drop c.startPos)).1 := by
  obtain ⟨hpos, c, hc, rfl, -⟩ := tier_hit h
  have hle := LowerTierIndexer.walkLoop_le (t := e.tier tier) (w := w) (q.drop c.startPos)
    c.lastMatchedHash
  rw [List.length_drop] at hle
  simp only [LowerTierIndexer.walk] at hpos
  refine ⟨?_, c, hc, rfl⟩
  simp only [ContiguousHit.endPos, LowerTierIndexer.walk]
  omega

theorem covered_le_length (dp : DpKey) :
    (e.findMatchesWithCoverage σ q).covered dp ≤ q.length := by
  by_contra hlt
  rcases lt_covered_iff.mp (Nat.lt_of_not_le hlt) with ⟨w, m, hm, -, hi⟩ | ⟨tier, w, hit, hget, -, hi⟩
  · have := (ConcurrentRadixTree.findMatchesDetailed_nodes hm).2.1
    omega
  · have := (hits_walk hget).1
    omega

/-- A match reaches the end of the query: the nodes along all of it carry a worker, or a walk in a
lower tier, from the root or from where another match broke off, crosses the last edge. -/
def ReachesEnd (e : IndexerEntry) (σ : QueryOrder) (q : List LocalBlockHash) : Prop :=
  (∃ w, e.hbm.tree.CarriedTo w ConcurrentRadixTree.root q q.length) ∨
    ∃ tier w c, c ∈ e.candidates σ q tier w ∧
      c.startPos + ((e.tier tier).walkLoop w c.lastMatchedHash (q.drop c.startPos)).1 = q.length

theorem reachesEnd_iff_covered (hq : q ≠ []) :
    e.ReachesEnd σ q ↔ ∃ dp, (e.findMatchesWithCoverage σ q).covered dp = q.length := by
  have hpos : 0 < q.length := List.length_pos_iff.mpr hq
  constructor
  · rintro (⟨w, hw⟩ | ⟨tier, w, c, hc, hend⟩)
    · exact ⟨w.dp, Nat.le_antisymm (covered_le_length _) (carriedTo_le_covered hw)⟩
    · refine ⟨w.dp, Nat.le_antisymm (covered_le_length _) ?_⟩
      obtain ⟨hit, hget, hle⟩ := tier_hit_of_candidate hc
      have hwalk : ((e.tier tier).walk q w c).endPos = q.length := hend
      have hlast : q.length - 1 < (e.findMatchesWithCoverage σ q).covered w.dp :=
        lt_covered_iff.mpr (Or.inr ⟨tier, w, hit, hget, rfl, by omega⟩)
      omega
  · rintro ⟨dp, hdp⟩
    have hlast : q.length - 1 < (e.findMatchesWithCoverage σ q).covered dp := by omega
    rcases lt_covered_iff.mp hlast with ⟨w, m, hm, -, hi⟩ | ⟨tier, w, hit, hget, -, hi⟩
    · have hle := (ConcurrentRadixTree.findMatchesDetailed_nodes hm).2.1
      have hdepth : m.depth = q.length := by omega
      have hcarried := (ConcurrentRadixTree.findMatchesDetailed_greatest hm).1
      rw [hdepth] at hcarried
      exact Or.inl ⟨w, hcarried⟩
    · obtain ⟨hle, c, hc, heq⟩ := hits_walk hget
      exact Or.inr ⟨tier, w, c, hc, by omega⟩

/-! ## Queries of a single block -/

/-- A worker of the DP has the block at the start of a sequence, in one of the tiers. -/
def StoresFirst (e : IndexerEntry) (h : LocalBlockHash) (dp : DpKey) : Prop :=
  (∃ w : WorkerKey, w.dp = dp ∧ e.hbm.tree.CarriedTo w ConcurrentRadixTree.root [h] 1) ∨
    ∃ tier, ∃ w ∈ (e.tier tier).rootWorkers h, w.dp = dp

theorem endPos_pos_of_breaksFor {tier : LowerTier} {b : TierBreakpoint} (hb : b ∈ e.breaksFor σ q tier) :
    0 < b.endPos := by
  have hhbm : ∀ b ∈ e.hbmBreaks σ q, 0 < b.endPos := by
    intro b hb
    obtain ⟨p, -, hp⟩ := List.mem_filterMap.mp hb
    unfold hbmBreak at hp
    split at hp
    · next hdepth =>
      obtain ⟨h, -, rfl⟩ := Option.map_eq_some_iff.mp hp
      exact hdepth
    · cases hp
  cases tier with
  | cpu => exact hhbm b hb
  | disk =>
    rcases List.mem_append.mp (mergedBest_from (mem_merged.mp hb)).1 with hb | hb
    · exact hhbm b hb
    · obtain ⟨p, -, hp⟩ := List.mem_filterMap.mp hb
      unfold tierBreak at hp
      split at hp
      · next hcount =>
        obtain ⟨h, -, rfl⟩ := Option.map_eq_some_iff.mp hp
        exact Nat.lt_of_lt_of_le hcount (Nat.le_add_left _ _)
      · cases hp

theorem mem_rootWorkers_of_candidate {tier : LowerTier} {h : LocalBlockHash} {w : WorkerKey}
    {c : LowerTierContinuation} (hc : c ∈ e.candidates σ [h] tier w) :
    w ∈ (e.tier tier).rootWorkers h := by
  obtain ⟨rfl | ⟨b, hb, rfl⟩, x, hx, hw⟩ := mem_tierContinuations.mp hc
  · cases hx
    exact hw
  · have hpos := endPos_pos_of_breaksFor hb
    rw [List.getElem?_eq_none hpos] at hx
    cases hx

theorem covered_single_pos_iff {h : LocalBlockHash} {dp : DpKey} :
    0 < (e.findMatchesWithCoverage σ [h]).covered dp ↔ e.StoresFirst h dp := by
  constructor
  · intro hpos
    rcases lt_covered_iff.mp hpos with ⟨w, m, hm, hdp, hdepth⟩ | ⟨tier, w, hit, hget, hdp, -⟩
    · have hle := (ConcurrentRadixTree.findMatchesDetailed_nodes hm).2.1
      have hone : m.depth = 1 := Nat.le_antisymm hle hdepth
      exact Or.inl ⟨w, hdp, hone ▸ (ConcurrentRadixTree.findMatchesDetailed_greatest hm).1⟩
    · obtain ⟨-, c, hc, -, -⟩ := tier_hit hget
      exact Or.inr ⟨tier, w, mem_rootWorkers_of_candidate hc, hdp⟩
  · rintro (⟨w, rfl, hw⟩ | ⟨tier, w, hw, rfl⟩)
    · exact carriedTo_le_covered hw
    · have hroot : ⟨0, none⟩ ∈ e.candidates σ [h] tier w := root_mem_candidates hw
      obtain ⟨hit, hget, hle⟩ := tier_hit_of_candidate hroot
      have hcount := LowerTierIndexer.walk_count_pos (q := [h]) (c := ⟨0, none⟩) rfl hw
      exact lt_covered_iff.mpr (Or.inr ⟨tier, w, hit, hget, rfl,
        Nat.lt_of_lt_of_le hcount (Nat.le_trans (Nat.le_add_left _ _) hle)⟩)

theorem covered_pos_of_mediumEnds {dp : DpKey} {ends : MediumEnds}
    (h : (e.findMatchesWithCoverage σ q).mediumEnds.get? dp = some ends) :
    0 < (e.findMatchesWithCoverage σ q).covered dp := by
  have hhbm : (e.hbmCoverage σ q).Credits dp := by
    refine List.foldlRecOn (motive := fun c : Coverage => c.Credits dp) _ _ (fun ends h => by cases h) ?_
    intro c hc p _
    split
    · exact hc
    · next hdepth => exact hc.note (Nat.pos_of_ne_zero hdepth)
  exact hhbm.lowerTierLookup.lowerTierLookup ends h

theorem covered_nil (dp : DpKey) : (e.findMatchesWithCoverage σ []).covered dp = 0 :=
  Nat.le_zero.mp (covered_le_length dp)

end IndexerEntry

/-! ## Matched tokens -/

namespace Indexer

variable {xxh3 : List UInt8 → UInt64 → UInt64} {idx : Indexer} {σ : QueryOrder}
  {modelName tenantId : String} {tokenIds : List Int} {blockSize : UInt32}

/-- No number in the answer is greater than the number of tokens of the query. -/
def WithinQuery (resp : Dict InstanceId InstanceMatchData) (numTokens : Nat) : Prop :=
  ∀ iid data, resp.get? iid = some data → data.longestMatched ≤ numTokens ∧
    ∀ rank m, data.dp.get? rank = some m → m.matchedTokens ≤ numTokens

theorem withinQuery_iff {c : Coverage} {size n : Nat} {resp : Dict InstanceId InstanceMatchData}
    (h : buildResponse c modelName tenantId size = .ok resp) :
    WithinQuery resp n ↔ ∀ dp ends, c.mediumEnds.get? dp = some ends →
      (ends.split size).matchedTokens ≤ n := by
  constructor
  · intro hall dp ends hends
    have hdp := buildResponse_dp h dp
    rw [hends, Option.map_some] at hdp
    obtain ⟨data, hdata, hm⟩ := Option.bind_eq_some_iff.mp hdp
    exact (hall dp.1 data hdata).2 dp.2 _ hm
  · intro hall iid data hdata
    have hdps : ∀ rank m, data.dp.get? rank = some m → m.matchedTokens ≤ n := by
      intro rank m hm
      have hdp : dpEntry resp (iid, rank) = some m := by
        rw [dpEntry, hdata]
        exact hm
      rw [buildResponse_dp h] at hdp
      obtain ⟨ends, hends, rfl⟩ := Option.map_eq_some_iff.mp hdp
      exact hall _ _ hends
    refine ⟨?_, hdps⟩
    obtain ⟨rank, m, hm, hlongest⟩ := (buildResponse_longest h hdata).1
    exact hlongest ▸ hdps rank m hm

/-- Only what is covered to the end of the query can exceed it. -/
theorem saturate_mul_le_iff {n size covered : Nat} (hsize : 0 < size)
    (hcov : covered ≤ divCeil n size) :
    saturate (covered * size) ≤ n ↔
      (size ∣ n ∨ 2 ^ 32 - 1 ≤ n) ∨ covered < divCeil n size := by
  have hle : covered * size ≤ divCeil n size * size := Nat.mul_le_mul_right size hcov
  constructor
  · intro h
    by_cases hlt : covered < divCeil n size
    · exact Or.inr hlt
    · have heq : covered = divCeil n size := by omega
      subst heq
      have hfull := le_divCeil_mul (a := n) hsize
      refine Or.inl ?_
      rw [← divCeil_mul_eq_iff hsize]
      unfold saturate at h
      omega
  · rintro ((hdvd | hbig) | hlt)
    · rw [← divCeil_mul_eq_iff hsize] at hdvd
      exact Nat.le_trans (Nat.min_le_left _ _) (by omega)
    · exact Nat.le_trans (Nat.min_le_right _ _) hbig
    · -- one block less than all of them
      have hmul : (covered + 1) * size ≤ divCeil n size * size := Nat.mul_le_mul_right size hlt
      have hbound := divCeil_mul_lt (a := n) hsize
      rw [Nat.add_mul] at hmul
      exact Nat.le_trans (Nat.min_le_left _ _) (by omega)

/-- **The answer stays within the query exactly if the last block is a whole one or is not matched**
(or if the query is too long for the numbers of the answer). -/
theorem matchedTokens_le_iff (xxh3 : List UInt8 → UInt64 → UInt64) (idx : Indexer) (σ : QueryOrder)
    (modelName tenantId : String) (tokenIds : List Int) (blockSize : UInt32)
    (hsize : 0 < blockSize) :
    (∀ resp, idx.query xxh3 σ modelName tenantId tokenIds blockSize = .ok resp →
      WithinQuery resp tokenIds.length) ↔
    (blockSize.toNat ∣ tokenIds.length ∨ 2 ^ 32 - 1 ≤ tokenIds.length) ∨
      ∀ e, idx.get modelName tenantId = some e →
        ¬ e.ReachesEnd σ (computeBlockHashForSeq xxh3 tokenIds blockSize) := by
  have hpos : 0 < blockSize.toNat := UInt32.lt_iff_toNat_lt.mp hsize
  cases hget : idx.get modelName tenantId with
  | none => simp [query, hget]
  | some e =>
    simp only [query, hget, Option.some.injEq, forall_eq']
    have hlen : (computeBlockHashForSeq xxh3 tokenIds blockSize).length =
        divCeil tokenIds.length blockSize.toNat := length_computeBlockHashForSeq hpos
    generalize computeBlockHashForSeq xxh3 tokenIds blockSize = q at hlen
    have hcov : ∀ dp, (e.findMatchesWithCoverage σ q).covered dp ≤
        divCeil tokenIds.length blockSize.toNat := fun dp => hlen ▸ IndexerEntry.covered_le_length dp
    constructor
    · intro h
      by_contra hnot
      obtain ⟨hrest, hreach⟩ := not_or.mp hnot
      have hne : q ≠ [] := by
        rintro rfl
        refine hrest (Or.inl ?_)
        rw [← divCeil_mul_eq_iff hpos, ← hlen, List.length_nil, Nat.zero_mul]
        have := (divCeil_le_iff (a := tokenIds.length) (k := 0) hpos).mp (by rw [← hlen]; rfl)
        omega
      -- the DP that is covered to the end
      obtain ⟨dp, hdp⟩ := (IndexerEntry.reachesEnd_iff_covered hne).mp (not_not.mp hreach)
      have hqpos : 0 < q.length := List.length_pos_iff.mpr hne
      cases hends : (e.findMatchesWithCoverage σ q).mediumEnds.get? dp with
      | none =>
        simp only [Coverage.covered, hends] at hdp
        omega
      | some ends =>
        have hok : ∃ resp, buildResponse (e.findMatchesWithCoverage σ q) modelName tenantId
            blockSize.toNat = .ok resp := by
          rw [buildResponse, IndexerEntry.counted_findMatchesWithCoverage _ _ hends]
          exact ⟨_, rfl⟩
        obtain ⟨resp, hresp⟩ := hok
        have hle := (withinQuery_iff hresp).mp (h resp hresp) dp ends hends
        rw [split_matchedTokens] at hle
        have hmax : max ends.npu (max ends.cpu ends.disk) = q.length := by
          rw [Coverage.covered, hends] at hdp
          exact hdp
        rw [hmax, hlen] at hle
        rcases (saturate_mul_le_iff hpos (Nat.le_refl _)).mp hle with hgood | hlt
        · exact hrest hgood
        · exact Nat.lt_irrefl _ hlt
    · intro h resp hresp
      refine (withinQuery_iff hresp).mpr (fun dp ends hends => ?_)
      have hmax : (e.findMatchesWithCoverage σ q).covered dp =
          max ends.npu (max ends.cpu ends.disk) := by rw [Coverage.covered, hends]
      rw [split_matchedTokens, ← hmax]
      refine (saturate_mul_le_iff hpos (hcov dp)).mpr ?_
      rcases h with hgood | hreach
      · exact Or.inl hgood
      · refine Or.inr (Nat.lt_of_le_of_ne (hcov dp) (fun heq => hreach ?_))
        by_cases hne : q = []
        · -- nobody is credited with an empty query
          subst hne
          exact Or.inl ⟨⟨dp.1, dp.1, dp.2, .npu⟩, ConcurrentRadixTree.carriedTo_zero⟩
        · exact (IndexerEntry.reachesEnd_iff_covered hne).mpr ⟨dp, heq.trans hlen.symm⟩

/-- The hashes of the blocks with the tokens 1, 2, 3 and 1, 2, 3, 4. -/
def sampleXxh3 (data : List UInt8) (seed : UInt64) : UInt64 :=
  if seed ≠ xxh3Seed then 0
  else if data = [1, 0, 0, 0, 2, 0, 0, 0, 3, 0, 0, 0] then 15024015205894559313
  else if data = [1, 0, 0, 0, 2, 0, 0, 0, 3, 0, 0, 0, 4, 0, 0, 0] then 14643705804678351452
  else 0

/-- An engine has stored a block of three tokens. -/
def partialBlockIndex : Indexer :=
  single "model" "default"
    (IndexerEntry.new.applyEvent ⟨"a", "a", 0, .npu⟩ (.stored ⟨none, [⟨101, 15024015205894559313⟩]⟩)).2
    ⟨[.event ⟨"a", "a", 0, .npu⟩ (.stored ⟨none, [⟨101, 15024015205894559313⟩]⟩)],
      Run.nil.snoc trivial rfl⟩

/-- The query for these three tokens, with blocks of four, is answered with four. -/
theorem partialBlockIndex_exceeds :
    computeBlockHashForSeq sampleXxh3 [1, 2, 3] 4 = [15024015205894559313] ∧
      ∃ resp, partialBlockIndex.query sampleXxh3 .insertion "model" "default" [1, 2, 3] 4 = .ok resp ∧
        ¬ WithinQuery resp 3 := by
  refine ⟨by decide, ?_⟩
  have hcredit : (partialBlockIndex.query sampleXxh3 .insertion "model" "default" [1, 2, 3] 4
      ).toOption.bind (dpEntry · ("a", 0)) = some ⟨4, 1, 0, 0⟩ := by
    rfl
  obtain ⟨resp, hok, hdp⟩ := Option.bind_eq_some_iff.mp hcredit
  obtain ⟨data, hdata, hm⟩ := Option.bind_eq_some_iff.mp hdp
  refine ⟨resp, ?_, fun h => ?_⟩
  · cases hq : partialBlockIndex.query sampleXxh3 .insertion "model" "default" [1, 2, 3] 4 with
    | error err => simp [hq, Except.toOption] at hok
    | ok resp' =>
      rw [hq] at hok
      cases hok
      rfl
  · have hle : 4 ≤ 3 := (h "a" data hdata).2 0 _ hm
    omega

/-- A whole block of four tokens stays within the query. -/
theorem partialBlockIndex_whole_block :
    (0 : UInt32) < 4 ∧ ∀ resp, partialBlockIndex.query sampleXxh3 .insertion "model" "default"
      [1, 2, 3, 4] 4 = .ok resp → WithinQuery resp 4 :=
  ⟨by decide, (matchedTokens_le_iff sampleXxh3 partialBlockIndex .insertion "model" "default"
    [1, 2, 3, 4] 4 (by decide)).mpr (Or.inl (Or.inl (by decide)))⟩

end Indexer

end PyMotor.Conductor
