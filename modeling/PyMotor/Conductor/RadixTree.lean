import PyMotor.Conductor.Protocols
import PyMotor.Lib.Run

/-!
# The HBM radix tree

`concurrent_tree.rs` keeps every node behind an `Arc`, shared between its parents, the lookup tables of
the workers and running traversals. Here the nodes live in a heap: a `NodeId` is the identity of an `Arc`,
`nodes` its content, and a fresh node takes the next unused number.

The lookup tables are owned by the caller, one per worker, exactly as `IndexerEntry` keeps them;
`HbmIndex` is the tree together with these tables, and `HbmOp` lists what can happen to the two.
-/

namespace PyMotor.Conductor

abbrev NodeId := Nat

structure Block where
  children : Dict LocalBlockHash NodeId
  workers : OrdSet WorkerKey
  /-- `none` for the root. -/
  blockHash : Option SequenceBlockHash

namespace Block

def new : Block := ⟨∅, ∅, none⟩

def withHash (h : SequenceBlockHash) : Block := ⟨∅, ∅, some h⟩

/-- Remove a worker; a block left without workers gives up its children as well. -/
def dropWorker (b : Block) (w : WorkerKey) : Block :=
  if (b.workers.erase w).isEmpty then
    { b with workers := b.workers.erase w, children := ∅ }
  else { b with workers := b.workers.erase w }

@[simp] theorem mem_dropWorker_workers {b : Block} {w v : WorkerKey} :
    v ∈ (b.dropWorker w).workers ↔ v ∈ b.workers ∧ v ≠ w := by
  unfold dropWorker
  split <;> simp

@[simp] theorem dropWorker_blockHash (b : Block) (w : WorkerKey) :
    (b.dropWorker w).blockHash = b.blockHash := by
  unfold dropWorker
  split <;> rfl

theorem dropWorker_children_sub {b : Block} {w : WorkerKey} {k : LocalBlockHash} {c : NodeId}
    (h : (b.dropWorker w).children.get? k = some c) : b.children.get? k = some c := by
  unfold dropWorker at h
  split at h
  · simp at h
  · exact h

end Block

/-- Per-worker reverse lookup: the node under each sequence hash. -/
abbrev WorkerLookup := Dict SequenceBlockHash NodeId

structure ConcurrentRadixTree where
  nodes : NodeId → Block
  /-- The identity the next allocated node takes. -/
  next : NodeId

structure PrefixMatch where
  depth : Nat
  lastSeqHash : Option SequenceBlockHash
  deriving DecidableEq, Repr

namespace ConcurrentRadixTree

def root : NodeId := 0

def new : ConcurrentRadixTree := ⟨fun _ => Block.new, 1⟩

/-! ## Node updates -/

def modify (t : ConcurrentRadixTree) (n : NodeId) (f : Block → Block) : ConcurrentRadixTree :=
  { t with nodes := Function.update t.nodes n (f (t.nodes n)) }

def insertWorker (t : ConcurrentRadixTree) (n : NodeId) (w : WorkerKey) : ConcurrentRadixTree :=
  t.modify n (fun b => { b with workers := b.workers.insert w })

/-- Write the link `parent --k--> child`. -/
def link (t : ConcurrentRadixTree) (parent : NodeId) (k : LocalBlockHash) (child : NodeId) :
    ConcurrentRadixTree :=
  t.modify parent (fun b => { b with children := b.children.insert k child })

/-- `Arc::new(RwLock::new(Block::with_hash(h)))`; the new node is `t.next`. -/
def alloc (t : ConcurrentRadixTree) (h : SequenceBlockHash) : ConcurrentRadixTree :=
  ⟨Function.update t.nodes t.next (Block.withHash h), t.next + 1⟩

def dropWorker (t : ConcurrentRadixTree) (n : NodeId) (w : WorkerKey) : ConcurrentRadixTree :=
  t.modify n (·.dropWorker w)

@[simp] theorem modify_next (t : ConcurrentRadixTree) (n : NodeId) (f : Block → Block) :
    (t.modify n f).next = t.next := rfl

theorem modify_nodes (t : ConcurrentRadixTree) (n m : NodeId) (f : Block → Block) :
    (t.modify n f).nodes m = if m = n then f (t.nodes m) else t.nodes m := by
  unfold modify
  by_cases h : m = n
  · subst h; simp
  · simp [h]

/-! ## Query -/

/-- The traversal below the first level. `active` are the workers matched so far, `depth` the
number of blocks they matched, `cur` the node they matched last. -/
def matchLoop (t : ConcurrentRadixTree) (active : OrdSet WorkerKey) (cur : NodeId) (depth : Nat)
    (results : Dict WorkerKey PrefixMatch) : List LocalBlockHash → Dict WorkerKey PrefixMatch
  | [] => results.insertAll active ⟨depth, (t.nodes cur).blockHash⟩
  | item :: rest =>
    match (t.nodes cur).children.get? item with
    | none => results.insertAll active ⟨depth, (t.nodes cur).blockHash⟩
    | some block =>
      -- short-circuit: a single remaining worker is only looked up in the child's set
      if active.size = 1 then
        match active.elems with
        | [] => results
        | w :: _ =>
          if w ∈ (t.nodes block).workers then t.matchLoop active block (depth + 1) results rest
          else results.insert w ⟨depth, (t.nodes cur).blockHash⟩
      else
        let gone := active.filter (fun w => decide (w ∉ (t.nodes block).workers))
        let active' := active.filter (fun w => decide (w ∈ (t.nodes block).workers))
        let results' := results.insertAll gone ⟨depth, (t.nodes cur).blockHash⟩
        if active'.isEmpty then results'
        else t.matchLoop active' block (depth + 1) results' rest

/-- Per worker, how deep the query sequence is cached and the last sequence hash on the way. -/
def findMatchesDetailed (t : ConcurrentRadixTree) :
    List LocalBlockHash → Dict WorkerKey PrefixMatch
  | [] => ∅
  | item :: rest =>
    match (t.nodes root).children.get? item with
    | none => ∅
    | some first =>
      if (t.nodes first).workers.isEmpty then ∅
      else t.matchLoop (t.nodes first).workers first 1 ∅ rest

/-! ## Mutation -/

/-- The node a block is stored at: the existing child, else the worker's own node for this hash,
else a fresh node. In the last two cases the link from `cur` is written. -/
def resolveChild (t : ConcurrentRadixTree) (lookup : WorkerLookup) (cur : NodeId)
    (b : KvCacheStoredBlockData) : NodeId × ConcurrentRadixTree :=
  match (t.nodes cur).children.get? b.tokensHash with
  | some existing => (existing, t)
  | none =>
    match lookup.get? b.blockHash with
    | some n => (n, t.link cur b.tokensHash n)
    | none => (t.next, (t.alloc b.blockHash).link cur b.tokensHash t.next)

/-- The block loop of `apply_store`. The worker is inserted into a node one iteration late
(`needsWorkerInsert`), and a self reference is noticed only after the link was written, so a failed
store leaves what it did so far. -/
def storeLoop (w : WorkerKey) (t : ConcurrentRadixTree) (lookup : WorkerLookup) (cur : NodeId)
    (needsWorkerInsert : Bool) :
    List KvCacheStoredBlockData →
      Except KvConductorError Unit × ConcurrentRadixTree × WorkerLookup
  | [] => (.ok (), if needsWorkerInsert then t.insertWorker cur w else t, lookup)
  | b :: bs =>
    let t := if needsWorkerInsert then t.insertWorker cur w else t
    let (child, t) := t.resolveChild lookup cur b
    if child = cur then (.error .invalidBlockSequence, t, lookup)
    else t.storeLoop w (lookup.insert b.blockHash child) child true bs

def applyStore (t : ConcurrentRadixTree) (w : WorkerKey) (lookup : WorkerLookup)
    (data : KvCacheStoreData) : Except KvConductorError Unit × ConcurrentRadixTree × WorkerLookup :=
  match data.parentHash with
  | some parent =>
    match lookup.get? parent with
    | some cur => t.storeLoop w lookup cur false data.blocks
    | none => (.error .parentBlockNotFound, t, lookup)
  | none => t.storeLoop w lookup root false data.blocks

/-- Blocks that are already absent are skipped. -/
def applyRemove (t : ConcurrentRadixTree) (w : WorkerKey) (lookup : WorkerLookup) :
    List UInt64 → ConcurrentRadixTree × WorkerLookup
  | [] => (t, lookup)
  | h :: hs =>
    match lookup.get? h with
    | some n => (t.dropWorker n w).applyRemove w (lookup.erase h) hs
    | none => t.applyRemove w lookup hs

/-- Drop the worker from every node of its lookup table, which the caller discards. -/
def removeWorker (t : ConcurrentRadixTree) (w : WorkerKey) (lookup : WorkerLookup) :
    ConcurrentRadixTree :=
  lookup.values.foldl (fun t n => t.dropWorker n w) t

/-! ## Maintenance -/

/-- Prune the direct children of `n` that have neither workers nor children. -/
def pruneChildren (t : ConcurrentRadixTree) (n : NodeId) : ConcurrentRadixTree :=
  t.modify n (fun b => { b with
    children := b.children.filter (fun _ c =>
      !(t.nodes c).workers.isEmpty || !(t.nodes c).children.isEmpty) })

/-- The depth-first loop over an explicit stack. `fuel` bounds the number of visits, `i` counts
them; the remaining children of a node are pushed in the order `σ`. -/
def sweepLoop (σ : HashOrder NodeId) : Nat → Nat → List NodeId → ConcurrentRadixTree → Nat →
    Option (ConcurrentRadixTree × Nat)
  | _, _, [], t, pruned => some (t, pruned)
  | 0, _, _ :: _, _, _ => none
  | fuel + 1, i, n :: stack, t, pruned =>
    let t' := t.pruneChildren n
    let pruned' := pruned + ((t.nodes n).children.size - (t'.nodes n).children.size)
    sweepLoop σ fuel (i + 1) (σ.iter i (t'.nodes n).children.values ++ stack) t' pruned'

/-- The sweep, if it ends within `fuel` visits, with the number of pruned links. -/
def sweepStaleNodes (σ : HashOrder NodeId) (fuel : Nat) (t : ConcurrentRadixTree) :
    Option (ConcurrentRadixTree × Nat) :=
  sweepLoop σ fuel 0 [root] t 0

end ConcurrentRadixTree

/-! ## The tree with its lookup tables -/

structure HbmIndex where
  tree : ConcurrentRadixTree
  lookups : Dict WorkerKey WorkerLookup

namespace HbmIndex

def new : HbmIndex := ⟨.new, ∅⟩

/-- The worker's table; a worker seen for the first time starts with an empty one. -/
def lookup (s : HbmIndex) (w : WorkerKey) : WorkerLookup := (s.lookups.get? w).getD ∅

def store (s : HbmIndex) (w : WorkerKey) (data : KvCacheStoreData) :
    Except KvConductorError Unit × HbmIndex :=
  let (r, tree, lookup) := s.tree.applyStore w (s.lookup w) data
  (r, ⟨tree, s.lookups.insert w lookup⟩)

def remove (s : HbmIndex) (w : WorkerKey) (blockHashes : List UInt64) : HbmIndex :=
  let (tree, lookup) := s.tree.applyRemove w (s.lookup w) blockHashes
  ⟨tree, s.lookups.insert w lookup⟩

def clear (s : HbmIndex) (w : WorkerKey) : HbmIndex :=
  match s.lookups.get? w with
  | some lookup => ⟨s.tree.removeWorker w lookup, s.lookups.erase w⟩
  | none => s

@[simp] theorem lookup_new (w : WorkerKey) : (new : HbmIndex).lookup w = ∅ := rfl

theorem lookup_insert (t : ConcurrentRadixTree) (d : Dict WorkerKey WorkerLookup)
    (w v : WorkerKey) (l : WorkerLookup) :
    (HbmIndex.mk t (d.insert w l)).lookup v = if w = v then l else (HbmIndex.mk t d).lookup v := by
  simp only [lookup, Dict.get?_insert]
  split <;> rfl

theorem lookup_insert_eq (t : ConcurrentRadixTree) (s : HbmIndex) (w : WorkerKey)
    (l : WorkerLookup) :
    (HbmIndex.mk t (s.lookups.insert w l)).lookup = Function.update s.lookup w l := by
  funext v
  rw [lookup_insert]
  by_cases h : w = v
  · subst h; simp
  · rw [if_neg h, Function.update_of_ne (Ne.symm h)]
    rfl

theorem lookup_clear (s : HbmIndex) (w : WorkerKey) :
    (s.clear w).lookup = Function.update s.lookup w ∅ := by
  funext v
  unfold clear
  cases hw : s.lookups.get? w with
  | none =>
    by_cases hv : v = w
    · subst hv; simp [lookup, hw]
    · rw [Function.update_of_ne hv]
  | some l =>
    by_cases hv : v = w
    · subst hv; simp [lookup]
    · rw [Function.update_of_ne hv]
      simp [lookup, Dict.get?_erase_ne _ (Ne.symm hv)]

theorem clear_tree (s : HbmIndex) (w : WorkerKey) :
    (s.clear w).tree = s.tree.removeWorker w (s.lookup w) := by
  unfold clear
  cases hw : s.lookups.get? w with
  | none => simp [lookup, hw, ConcurrentRadixTree.removeWorker, Dict.values_empty]
  | some l => simp [lookup, hw]

/-- The node a store starts from, if its parent is known. -/
def storeStart (s : HbmIndex) (w : WorkerKey) (data : KvCacheStoreData) : Option NodeId :=
  match data.parentHash with
  | none => some ConcurrentRadixTree.root
  | some p => (s.lookup w).get? p

/-- A store runs its block loop from the start node, or fails before it touches anything. -/
theorem store_eq (s : HbmIndex) (w : WorkerKey) (data : KvCacheStoreData) :
    (s.store w data).2 =
      match s.storeStart w data with
      | some cur =>
        ⟨(s.tree.storeLoop w (s.lookup w) cur false data.blocks).2.1,
          s.lookups.insert w (s.tree.storeLoop w (s.lookup w) cur false data.blocks).2.2⟩
      | none => ⟨s.tree, s.lookups.insert w (s.lookup w)⟩ := by
  unfold store storeStart ConcurrentRadixTree.applyStore
  cases data.parentHash with
  | none => rfl
  | some p =>
    simp only
    cases (s.lookup w).get? p <;> rfl

end HbmIndex

/-- What can happen to the HBM index. A sweep carries the order in which it meets the children
and a bound on its visits; it is a step only if it ends within that bound. -/
inductive HbmOp where
  | store (w : WorkerKey) (data : KvCacheStoreData)
  | remove (w : WorkerKey) (blockHashes : List UInt64)
  | clear (w : WorkerKey)
  | sweep (σ : HashOrder NodeId) (fuel : Nat)

namespace HbmIndex

/-- A store counts as a step whether it returned `Ok` or `Err`. -/
def exec (s : HbmIndex) : HbmOp → Option HbmIndex
  | .store w data => some (s.store w data).2
  | .remove w hs => some (s.remove w hs)
  | .clear w => some (s.clear w)
  | .sweep σ fuel => (s.tree.sweepStaleNodes σ fuel).map (fun p => ⟨p.1, s.lookups⟩)

end HbmIndex

end PyMotor.Conductor
