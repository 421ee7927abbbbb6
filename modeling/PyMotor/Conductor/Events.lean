import Mathlib.Data.List.Infix
import PyMotor.Conductor.IndexerEntry

/-!
# Events of engines and pools

A subscriber receives events of one engine or of one pool daemon. An event names the medium it is
about, or leaves it to the subscriber's default, and from the medium and the match mode follows the
list of workers it concerns (`events/helpers.rs`, `backend.rs`); each of them is then treated in
turn, until one fails.

The content hash of a token sequence is computed by an external hash function, the parameter
`hashSeq`. Seen as a whole, every event is a run of the steps of an entry (`applyVllmEvent_run`,
`applyPoolEvent_run`), so what holds along all runs holds within an event as well.
-/

namespace PyMotor.Conductor

/-! ## Targets -/

inductive MatchMode where
  | none
  | ipOnly
  | ipAndDpRank
  deriving DecidableEq, Repr

/-- The registered DPs on the node `lookupIp`. Not called in mode `none`. -/
def MatchMode.resolveWorkers (mode : MatchMode) (ipIndex : Option HbmIpIndex) (lookupIp : String)
    (eventDpRank : DpRank) (media : List StorageMedium) : List WorkerKey :=
  match ipIndex with
  | Option.none => []
  | some index =>
    match index.get? lookupIp with
    | Option.none => []
    | some dps =>
      let included := dps.filter (fun dp => match mode with
        | .none => false
        | .ipOnly => true
        | .ipAndDpRank => decide (dp.2 = eventDpRank))
      included.flatMap (fun dp => media.map (fun medium => ⟨dp.1, dp.1, dp.2, medium⟩))

def resolveMedium (eventMedium : Option String) (defaultMedia : List StorageMedium) :
    List StorageMedium :=
  match eventMedium with
  | some m => [StorageMedium.parse m]
  | Option.none => defaultMedia

def resolveWorkers (mode : MatchMode) (ipIndex : Option HbmIpIndex) (backendId : String)
    (dpRank : DpRank) (targetMedia : List StorageMedium) : List WorkerKey :=
  if mode = .none then targetMedia.map (fun medium => ⟨backendId, backendId, dpRank, medium⟩)
  else mode.resolveWorkers ipIndex backendId dpRank targetMedia

/-- What a subscription fixes for all its events. -/
structure Subscriber where
  backendId : String
  dpRank : DpRank
  defaultMedia : List StorageMedium
  matchMode : MatchMode
  hbmIpIndex : Option HbmIpIndex
  registeredBlockSize : UInt32

/-- Treat the workers one after the other, until one fails. -/
def forWorkers (f : Nat → IndexerEntry → WorkerKey → Except KvConductorError Unit × IndexerEntry)
    (i : Nat) (e : IndexerEntry) : List WorkerKey → Except KvConductorError Unit × IndexerEntry
  | [] => (.ok (), e)
  | w :: ws =>
    match f i e w with
    | (.ok (), e) => forWorkers f (i + 1) e ws
    | (.error err, e) => (.error err, e)

/-! ## Engine events -/

inductive VllmEvent where
  | blockStored (blockHashes : List UInt64) (parentBlockHash : Option UInt64)
      (tokenIds : List Int) (blockSize : UInt32) (medium : Option String)
  | blockRemoved (blockHashes : List UInt64) (medium : Option String)
  | allBlocksCleared
  | ignored

/-- Each block of an offloaded chain with its parent, the block before it. -/
def offloadChain (parent : Option UInt64) : List (UInt64 × UInt64) → List OffloadTriple
  | [] => []
  | (blockHash, tokensHash) :: rest =>
    (blockHash, tokensHash, parent) :: offloadChain (some blockHash) rest

namespace IndexerEntry

section Vllm

variable (hashSeq : List Int → UInt32 → List UInt64)

/-- The content hashes of the stored blocks; without tokens the block hashes stand in for them. -/
def computedHashes (blockHashes : List UInt64) (tokenIds : List Int) (blockSize : UInt32) :
    List UInt64 :=
  if tokenIds.isEmpty ∨ blockSize = 0 then blockHashes
  else (hashSeq tokenIds blockSize).take blockHashes.length

def applyVllmEvent (e : IndexerEntry) (now : Instant)
    (σ : HashOrder (WorkerKey × List PlacedBlock)) (sub : Subscriber) :
    VllmEvent → Except KvConductorError Unit × IndexerEntry
  | .blockStored blockHashes parent tokenIds blockSize medium =>
    if blockSize ≠ 0 ∧ blockSize ≠ sub.registeredBlockSize then (.ok (), e)
    else if blockHashes.isEmpty then (.ok (), e)
    else
      let computed := computedHashes hashSeq blockHashes tokenIds blockSize
      if computed.isEmpty then (.ok (), e)
      else if !StorageMedium.isHbmKey (medium.getD "npu") then
        e.offloadBlocks now σ (offloadChain parent (blockHashes.zip computed))
      else
        let blocks := (blockHashes.zip computed).map (fun p => (⟨p.1, p.2⟩ : KvCacheStoredBlockData))
        forWorkers (fun _ e w => e.applyEvent w (.stored ⟨parent, blocks⟩)) 0 e
          (resolveWorkers sub.matchMode sub.hbmIpIndex sub.backendId sub.dpRank
            (resolveMedium medium sub.defaultMedia))
  | .blockRemoved blockHashes medium =>
    if blockHashes.isEmpty then (.ok (), e)
    else
      forWorkers (fun _ e w => e.removeFrom blockHashes w) 0 e
        (resolveWorkers sub.matchMode sub.hbmIpIndex sub.backendId sub.dpRank
          (resolveMedium medium sub.defaultMedia))
  | .allBlocksCleared =>
    forWorkers (fun _ e w => e.clearAll w) 0 e
      (resolveWorkers sub.matchMode sub.hbmIpIndex sub.backendId sub.dpRank
        (resolveMedium none sub.defaultMedia))
  | .ignored => (.ok (), e)

end Vllm

end IndexerEntry

/-! ## Pool events -/

/-- The fields of a pool event that decide what it does to the entry it belongs to. -/
structure PoolEvent where
  eventType : Option String
  legacyType : Option String
  backendId : Option String
  medium : Option String
  dpRank : Option DpRank
  seqHashes : Option (List UInt64)
  blockHashes : Option (List UInt64)

namespace PoolEvent

/-- `str::contains`. -/
def containsText (s sub : String) : Bool := decide (sub.toList <:+: s.toList)

def typeText (p : PoolEvent) : String := (p.eventType.orElse fun _ => p.legacyType).getD "unknown"

def isStored (p : PoolEvent) : Bool :=
  containsText p.typeText "stored" || containsText p.typeText "Stored"

def isRemoved (p : PoolEvent) : Bool :=
  containsText p.typeText "removed" || containsText p.typeText "Removed"

def isCleared (p : PoolEvent) : Bool :=
  containsText p.typeText "cleared" || containsText p.typeText "Cleared" ||
    containsText p.typeText "AllBlocksCleared"

/-- The hashes of both fields, each at its first occurrence. -/
def hashes (p : PoolEvent) : List UInt64 :=
  (p.seqHashes.getD [] ++ p.blockHashes.getD []).foldl
    (fun seen h => if h ∈ seen then seen else seen ++ [h]) []

/-- The workers an event concerns. In mode `none` the identity is the subscriber's own. -/
def targets (p : PoolEvent) (sub : Subscriber) : List WorkerKey :=
  let backendId := if sub.matchMode = .none then sub.backendId else p.backendId.getD sub.backendId
  resolveWorkers sub.matchMode sub.hbmIpIndex backendId (p.dpRank.getD sub.dpRank)
    (resolveMedium p.medium sub.defaultMedia)

end PoolEvent

namespace IndexerEntry

/-- `σ i` is the order in which the `i`-th worker meets the reverse tables of the tiers. -/
def applyPoolEvent (e : IndexerEntry) (now : Instant) (σ : Nat → HashOrder WorkerMap)
    (sub : Subscriber) (p : PoolEvent) : Except KvConductorError Unit × IndexerEntry :=
  if p.isCleared then forWorkers (fun _ e w => e.clearAll w) 0 e (p.targets sub)
  else if p.hashes.isEmpty then (.ok (), e)
  else if p.isStored then
    forWorkers (fun i e w => e.poolStored now (σ i) p.hashes w) 0 e (p.targets sub)
  else if p.isRemoved then
    forWorkers (fun _ e w => e.removeFrom p.hashes w) 0 e (p.targets sub)
  else (.ok (), e)

/-! ## Events are runs -/

theorem forWorkers_run {f : Nat → IndexerEntry → WorkerKey → Except KvConductorError Unit × IndexerEntry}
    (op : Nat → WorkerKey → EntryOp) (hf : ∀ i e w, exec e (op i w) = some (f i e w).2)
    (ws : List WorkerKey) :
    ∀ (i : Nat) (e : IndexerEntry), ∃ ops, Run exec Free e ops (forWorkers f i e ws).2 := by
  induction ws with
  | nil =>
    intro i e
    exact ⟨[], Run.nil⟩
  | cons w ws ih =>
    intro i e
    have hstep : Run exec Free e [op i w] (f i e w).2 := Run.nil.snoc trivial (hf i e w)
    rw [forWorkers]
    split
    · next e' heq =>
      rw [heq] at hstep
      obtain ⟨ops, hops⟩ := ih (i + 1) e'
      exact ⟨_, hstep.trans hops⟩
    · next heq =>
      rw [heq] at hstep
      exact ⟨_, hstep⟩

theorem applyVllmEvent_run (hashSeq : List Int → UInt32 → List UInt64) (e : IndexerEntry)
    (now : Instant) (σ : HashOrder (WorkerKey × List PlacedBlock)) (sub : Subscriber)
    (event : VllmEvent) :
    ∃ ops, Run exec Free e ops (e.applyVllmEvent hashSeq now σ sub event).2 := by
  have stay : ∃ ops, Run exec Free e ops e := ⟨[], Run.nil⟩
  cases event with
  | blockStored blockHashes parent tokenIds blockSize medium =>
    simp only [applyVllmEvent]
    split
    · exact stay
    · split
      · exact stay
      · split
        · exact stay
        · split
          · exact ⟨[.offload now σ _], Run.nil.snoc trivial rfl⟩
          · exact forWorkers_run (fun _ w => .event w _) (fun _ _ _ => rfl) _ _ _
  | blockRemoved blockHashes medium =>
    simp only [applyVllmEvent]
    split
    · exact stay
    · exact forWorkers_run (fun _ w => .removed blockHashes w) (fun _ _ _ => rfl) _ _ _
  | allBlocksCleared =>
    exact forWorkers_run (fun _ w => .cleared w) (fun _ _ _ => rfl) _ _ _
  | ignored => exact stay

theorem applyPoolEvent_run (e : IndexerEntry) (now : Instant) (σ : Nat → HashOrder WorkerMap)
    (sub : Subscriber) (p : PoolEvent) :
    ∃ ops, Run exec Free e ops (e.applyPoolEvent now σ sub p).2 := by
  have stay : ∃ ops, Run exec Free e ops e := ⟨[], Run.nil⟩
  unfold applyPoolEvent
  split
  · exact forWorkers_run (fun _ w => .cleared w) (fun _ _ _ => rfl) _ _ _
  · split
    · exact stay
    · split
      · exact forWorkers_run (fun i w => .pool now (σ i) p.hashes w) (fun _ _ _ => rfl) _ _ _
      · split
        · exact forWorkers_run (fun _ w => .removed p.hashes w) (fun _ _ _ => rfl) _ _ _
        · exact stay

end IndexerEntry

end PyMotor.Conductor
