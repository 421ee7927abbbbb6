import PyMotor.Conductor.IndexerEntry
import PyMotor.Conductor.LowerTier.Query
import PyMotor.Conductor.RadixTree.Walk

/-!
# Coverage of a query

A query is matched tier by tier: in HBM from the root, in the CPU tier from the points where the HBM
matches broke off, on Disk from the farther of the two. What is recorded per DP is the absolute end
of the match on each medium, and the response splits these ends into exclusive block counts, so that
their sum is the length of a prefix of the query.

The DP is meant to hold this prefix itself. The breakpoints, however, are offered to every owner of
the next edge, whichever DP they come from: a DP that has only the tail of a sequence is credited with
the head that another DP holds. `OwnPrefixes` is the exact condition under which no DP is credited
with blocks of another.

Counts are natural numbers here; the code's 32 bits would not do for a query of `2 ^ 32` blocks.
-/

namespace PyMotor.Conductor

def WorkerKey.dp (w : WorkerKey) : DpKey := (w.instanceId, w.dpRank)

/-! ## Recording -/

/-- Absolute ends per medium. -/
structure MediumEnds where
  npu : Nat
  cpu : Nat
  disk : Nat
  deriving DecidableEq, Repr

/-- What a query has found: matched blocks per worker (`OverlapBlocks`), and the ends per DP. -/
structure Coverage where
  overlap : Dict WorkerKey Nat
  mediumEnds : Dict DpKey MediumEnds

namespace Coverage

def empty : Coverage := ⟨∅, ∅⟩

def addBlocks (overlap : Dict WorkerKey Nat) (w : WorkerKey) (n : Nat) : Dict WorkerKey Nat :=
  overlap.insert w ((overlap.get? w).elim n (· + n))

def noteMediumEnd (mediumEnds : Dict DpKey MediumEnds) (dp : DpKey) (medium : StorageMedium)
    (endPos : Nat) : Dict DpKey MediumEnds :=
  let ends := (mediumEnds.get? dp).getD ⟨0, 0, 0⟩
  mediumEnds.insert dp (match medium with
    | .npu | .unknown => { ends with npu := max ends.npu endPos }
    | .cpu => { ends with cpu := max ends.cpu endPos }
    | .disk => { ends with disk := max ends.disk endPos })

/-- Record a match of `n` blocks that ends at `endPos`. -/
def note (c : Coverage) (w : WorkerKey) (medium : StorageMedium) (n endPos : Nat) : Coverage :=
  ⟨addBlocks c.overlap w n, noteMediumEnd c.mediumEnds w.dp medium endPos⟩

end Coverage

/-! ## Matching -/

/-- Where a match in an upper tier broke off. -/
structure TierBreakpoint where
  instanceId : InstanceId
  dpRank : DpRank
  endPos : Nat
  lastSeq : SequenceBlockHash
  deriving DecidableEq, Repr

/-- The orders in which a query meets the entries of its hash maps. -/
structure QueryOrder where
  hbm : HashOrder (WorkerKey × PrefixMatch)
  hits : HashOrder (WorkerKey × ContiguousHit)
  breaks : HashOrder TierBreakpoint

/-- The order of insertion. -/
def QueryOrder.insertion : QueryOrder := ⟨.insertion, .insertion, .insertion⟩

def hbmBreak (p : WorkerKey × PrefixMatch) : Option TierBreakpoint :=
  if 0 < p.2.depth then
    p.2.lastSeqHash.map (fun h => ⟨p.1.instanceId, p.1.dpRank, p.2.depth, h⟩)
  else none

def tierBreak (p : WorkerKey × ContiguousHit) : Option TierBreakpoint :=
  if 0 < p.2.count then
    p.2.lastMatchedHash.map (fun h => ⟨p.1.instanceId, p.1.dpRank, p.2.endPos, h⟩)
  else none

/-- Per DP the farther breakpoint: a preferred one replaces what is there unless it ends before. -/
def mergeTierBreakpoints (σ : HashOrder TierBreakpoint) (fallback preferred : List TierBreakpoint) :
    List TierBreakpoint :=
  let best := fallback.foldl (fun (best : Dict DpKey TierBreakpoint) b =>
    best.insert (b.instanceId, b.dpRank) b) ∅
  let best := preferred.foldl (fun (best : Dict DpKey TierBreakpoint) b =>
    match best.get? (b.instanceId, b.dpRank) with
    | some existing =>
      if b.endPos < existing.endPos then best else best.insert (b.instanceId, b.dpRank) b
    | none => best.insert (b.instanceId, b.dpRank) b) best
  σ.iter 0 best.values

/-- Give each of the workers a further candidate. -/
def pushContinuation (conts : Dict WorkerKey (List LowerTierContinuation)) (ws : List WorkerKey)
    (c : LowerTierContinuation) : Dict WorkerKey (List LowerTierContinuation) :=
  ws.foldl (fun d w => d.insert w ((d.get? w).getD [] ++ [c])) conts

/-- The candidates of every worker: the root for the owners of the first edge, and every upstream
breakpoint for the owners of the edge that follows it. -/
def tierContinuations (t : LowerTierIndexer) (q : List LocalBlockHash)
    (breaks : List TierBreakpoint) : Dict WorkerKey (List LowerTierContinuation) :=
  match q with
  | [] => ∅
  | first :: _ =>
    breaks.foldl (fun conts b =>
      match q[b.endPos]? with
      | none => conts
      | some x => pushContinuation conts (t.edgeOwners (some b.lastSeq) x) ⟨b.endPos, some b.lastSeq⟩)
      (pushContinuation ∅ (t.rootWorkers first) ⟨0, none⟩)

/-- Walk one lower tier; its hits are also recorded. -/
def lowerTierLookup (σ : HashOrder (WorkerKey × ContiguousHit)) (i : Nat) (t : LowerTierIndexer)
    (q : List LocalBlockHash) (breaks : List TierBreakpoint) (c : Coverage) :
    Dict WorkerKey ContiguousHit × Coverage :=
  let hits := t.queryContiguousHits q (tierContinuations t q breaks)
  (hits, (σ.iter i hits.entries).foldl (fun c p =>
    if 0 < p.2.count then c.note p.1 p.1.medium p.2.count p.2.endPos else c) c)

namespace IndexerEntry

def hbmMatches (e : IndexerEntry) (σ : QueryOrder) (q : List LocalBlockHash) :
    List (WorkerKey × PrefixMatch) :=
  σ.hbm.iter 0 (e.hbm.tree.findMatchesDetailed q).entries

def hbmBreaks (e : IndexerEntry) (σ : QueryOrder) (q : List LocalBlockHash) :
    List TierBreakpoint :=
  (e.hbmMatches σ q).filterMap hbmBreak

/-- What HBM alone covers. -/
def hbmCoverage (e : IndexerEntry) (σ : QueryOrder) (q : List LocalBlockHash) : Coverage :=
  (e.hbmMatches σ q).foldl (fun c p =>
    if p.2.depth = 0 then c else c.note p.1 .npu p.2.depth p.2.depth) .empty

def cpuLookup (e : IndexerEntry) (σ : QueryOrder) (q : List LocalBlockHash) :
    Dict WorkerKey ContiguousHit × Coverage :=
  lowerTierLookup σ.hits 0 e.cpuTiers q (e.hbmBreaks σ q) (e.hbmCoverage σ q)

def diskBreaks (e : IndexerEntry) (σ : QueryOrder) (q : List LocalBlockHash) :
    List TierBreakpoint :=
  mergeTierBreakpoints σ.breaks (e.hbmBreaks σ q)
    ((σ.hits.iter 0 (e.cpuLookup σ q).1.entries).filterMap tierBreak)

def findMatchesWithCoverage (e : IndexerEntry) (σ : QueryOrder) (q : List LocalBlockHash) :
    Coverage :=
  (lowerTierLookup σ.hits 1 e.diskTiers q (e.diskBreaks σ q) (e.cpuLookup σ q).2).2

end IndexerEntry

/-! ## The response -/

structure DpBlocks where
  matchedTokens : Nat
  npuBlocks : Nat
  cpuBlocks : Nat
  diskBlocks : Nat
  deriving DecidableEq, Repr

structure InstanceMatchData where
  longestMatched : Nat
  dp : Dict DpRank DpBlocks

/-- `u32` arithmetic that stops at the largest value. -/
def saturate (n : Nat) : Nat := min n (2 ^ 32 - 1)

/-- Split absolute ends into exclusive contributions. -/
def MediumEnds.split (ends : MediumEnds) (blockSize : Nat) : DpBlocks :=
  let npu := ends.npu
  let cpu := ends.cpu - ends.npu
  let disk := ends.disk - max ends.npu ends.cpu
  ⟨saturate (saturate (saturate (npu + cpu) + disk) * blockSize), npu, cpu, disk⟩

def insertDp (data : Dict InstanceId InstanceMatchData) (dp : DpKey) (blocks : DpBlocks) :
    Dict InstanceId InstanceMatchData :=
  let imd := (data.get? dp.1).getD ⟨0, ∅⟩
  data.insert dp.1 { imd with dp := imd.dp.insert dp.2 blocks }

/-- The instances of the answer to a query; the tenant they are filed under is the caller's. A rank
is a key of the response in decimal, here it is the rank itself. -/
def buildResponse (c : Coverage) (modelName tenantId : String) (blockSize : Nat) :
    Except KvConductorError (Dict InstanceId InstanceMatchData) :=
  if c.overlap.isEmpty then .error (.noWorkers modelName tenantId)
  else
    let data := c.mediumEnds.entries.foldl (fun data p => insertDp data p.1 (p.2.split blockSize)) ∅
    .ok (data.mapVal (fun _ imd =>
      { imd with longestMatched := (imd.dp.values.map (·.matchedTokens)).foldl max 0 }))

end PyMotor.Conductor
