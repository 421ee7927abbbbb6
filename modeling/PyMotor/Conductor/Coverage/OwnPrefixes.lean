import PyMotor.Conductor.Coverage.Breakpoints
import PyMotor.Conductor.Coverage.Provenance

/-!
# Whose blocks a DP is credited with

A match in HBM starts at the root, so it consists of blocks of its own worker. A match in a lower
tier consists of blocks of its worker from its start on; what lies before the start was matched by
whoever the breakpoint came from.

Where a walk can start is said here by the index and the query alone (`StartsAt`): at the root, where the
blocks of a worker in HBM end, and on Disk where the CPU blocks of a DP end. No DP is credited with blocks
of another, in any order, exactly if every owner of an edge behind such a start belongs to a DP that has
the blocks before it (`OwnPrefixes`).
-/

namespace PyMotor.Conductor.IndexerEntry

variable {e : IndexerEntry} {σ : QueryOrder} {q : List LocalBlockHash} {w v : WorkerKey}
  {p n : Nat} {parent : Option SequenceBlockHash} {h : SequenceBlockHash}

/-! ## Where walks start -/

/-- The nodes along the query carry `v` over the first `p` blocks and no farther; `h` is the sequence
hash of the last of these nodes. -/
def HbmEnd (e : IndexerEntry) (q : List LocalBlockHash) (v : WorkerKey) (p : Nat)
    (h : SequenceBlockHash) : Prop :=
  0 < p ∧ IsGreatest {d | e.hbm.tree.CarriedTo v ConcurrentRadixTree.root q d} p ∧
    ∃ n, e.hbm.tree.nodeAt ConcurrentRadixTree.root (q.take p) = some n ∧
      (e.hbm.tree.nodes n).blockHash = some h

/-- In the CPU tier: at the root, or where the blocks of a worker in HBM end. -/
def StartsInCpu (e : IndexerEntry) (q : List LocalBlockHash) (p : Nat)
    (parent : Option SequenceBlockHash) : Prop :=
  (p = 0 ∧ parent = none) ∨ ∃ v h, e.HbmEnd q v p h ∧ parent = some h

/-- The farthest that `w` owns CPU edges in a row from such a start is up to the block `h` before
position `n`. If it gets there from the root and from elsewhere, the path from the root does not
count. -/
structure CpuEnd (e : IndexerEntry) (q : List LocalBlockHash) (w : WorkerKey) (n : Nat)
    (h : SequenceBlockHash) : Prop where
  farthest : ∀ p parent n' last, e.StartsInCpu q p parent →
    e.cpuTiers.Crosses w q p parent n' last → n' ≤ n
  reached : ∃ p parent, e.StartsInCpu q p parent ∧ e.cpuTiers.Crosses w q p parent n (some h) ∧
    (parent = none → ∀ v p' h' last, e.HbmEnd q v p' h' →
      ¬ e.cpuTiers.Crosses w q p' (some h') n last)

/-- On Disk: at the root, where the HBM blocks of a DP end if these reach beyond all its CPU blocks,
or where its CPU blocks end if not all of its HBM blocks end beyond them. -/
inductive StartsOnDisk (e : IndexerEntry) (q : List LocalBlockHash) :
    Nat → Option SequenceBlockHash → Prop where
  | root : StartsOnDisk e q 0 none
  | hbm {v : WorkerKey} {p : Nat} {h : SequenceBlockHash} : e.HbmEnd q v p h →
      (∀ w n h', w.dp = v.dp → e.CpuEnd q w n h' → n < p) → StartsOnDisk e q p (some h)
  | cpu {w : WorkerKey} {n : Nat} {h : SequenceBlockHash} : e.CpuEnd q w n h →
      (∀ w' n' h', w'.dp = w.dp → e.CpuEnd q w' n' h' → n' ≤ n) →
      (∀ v p h', v.dp = w.dp → e.HbmEnd q v p h' →
        ∃ v' p' h'', v'.dp = w.dp ∧ e.HbmEnd q v' p' h'' ∧ p' ≤ n) →
      StartsOnDisk e q n (some h)

/-- The walks of a tier can start at position `p`, behind the block `parent`. -/
def StartsAt (e : IndexerEntry) (q : List LocalBlockHash) :
    LowerTier → Nat → Option SequenceBlockHash → Prop
  | .cpu => e.StartsInCpu q
  | .disk => e.StartsOnDisk q

/-- A worker of the DP has block `i` of the query: it is listed at the node of the HBM path, or it
owns the edge at `i` of a row of edges that some worker owns from a start on. -/
def HoldsBlock (e : IndexerEntry) (q : List LocalBlockHash) (dp : DpKey) (i : Nat) : Prop :=
  ∃ x, q[i]? = some x ∧ ∃ k : WorkerKey, k.dp = dp ∧
    ((∃ n, e.hbm.tree.nodeAt ConcurrentRadixTree.root (q.take (i + 1)) = some n ∧
        k ∈ (e.hbm.tree.nodes n).workers) ∨
      ∃ tier w p parent cur child, e.StartsAt q tier p parent ∧ p ≤ i ∧
        (e.tier tier).OwnsPath w parent ((q.drop p).take (i - p)) cur ∧
        LowerTierIndexer.OwnsEdge (e.tier tier).edges w ⟨cur, x⟩ child ∧
        LowerTierIndexer.OwnsEdge (e.tier tier).edges k ⟨cur, x⟩ child)

/-- Whoever owns the edge behind a start belongs to a DP that has the blocks before it. -/
def OwnPrefixes (e : IndexerEntry) (q : List LocalBlockHash) : Prop :=
  ∀ tier p parent, e.StartsAt q tier p parent → ∀ x, q[p]? = some x →
    ∀ w child, LowerTierIndexer.OwnsEdge (e.tier tier).edges w ⟨parent, x⟩ child →
      ∀ i < p, e.HoldsBlock q w.dp i

/-! ## HBM -/

theorem hbmEnd_iff : e.HbmEnd q v p h ↔
    (e.hbm.tree.findMatchesDetailed q).get? v = some ⟨p, some h⟩ := by
  rw [ConcurrentRadixTree.findMatchesDetailed_eq_some_iff, HbmEnd]
  simp only [eq_comm]

theorem hbmBreak_hbmEnd (hv : e.HbmEnd q v p h) :
    hbmBreak (v, ⟨p, some h⟩) = some ⟨v.instanceId, v.dpRank, p, h⟩ := by
  simp [hbmBreak, hv.1]

theorem mem_hbmBreaks {b : TierBreakpoint} :
    b ∈ e.hbmBreaks σ q ↔ ∃ v, v.dp = b.dp ∧ e.HbmEnd q v b.endPos b.lastSeq := by
  rw [hbmBreaks, List.mem_filterMap]
  constructor
  · rintro ⟨⟨v, m⟩, hm, hb⟩
    rw [hbmMatches, HashOrder.mem_iter, Dict.mem_entries_iff] at hm
    obtain ⟨depth, last⟩ := m
    unfold hbmBreak at hb
    split at hb
    · obtain ⟨h, rfl, rfl⟩ := Option.map_eq_some_iff.mp hb
      exact ⟨v, rfl, hbmEnd_iff.mpr hm⟩
    · cases hb
  · rintro ⟨v, hdp, hend⟩
    refine ⟨(v, ⟨b.endPos, some b.lastSeq⟩), ?_, ?_⟩
    · rw [hbmMatches, HashOrder.mem_iter, Dict.mem_entries_iff]
      exact hbmEnd_iff.mp hend
    · rw [hbmBreak_hbmEnd hend]
      have hkey : (v.instanceId, v.dpRank) = (b.instanceId, b.dpRank) := hdp
      rw [Prod.mk.injEq] at hkey
      rw [hkey.1, hkey.2]

theorem HbmEnd.pos (hv : e.HbmEnd q v p h) : 0 < p := hv.1

/-- The starts in the CPU tier do not depend on the order. -/
theorem startsInCpu_iff : e.StartsInCpu q p parent ↔
    (⟨p, parent⟩ : LowerTierContinuation) = ⟨0, none⟩ ∨
      ∃ b ∈ e.hbmBreaks σ q, (⟨p, parent⟩ : LowerTierContinuation) = ⟨b.endPos, some b.lastSeq⟩ := by
  simp only [StartsInCpu, LowerTierContinuation.mk.injEq]
  refine or_congr_right ⟨?_, ?_⟩
  · rintro ⟨v, h, hv, rfl⟩
    exact ⟨⟨v.instanceId, v.dpRank, p, h⟩, mem_hbmBreaks.mpr ⟨v, rfl, hv⟩, rfl, rfl⟩
  · rintro ⟨b, hb, rfl, rfl⟩
    obtain ⟨v, -, hv⟩ := mem_hbmBreaks.mp hb
    exact ⟨v, _, hv, rfl⟩

theorem mem_cpuCandidates : ⟨p, parent⟩ ∈ e.candidates σ q .cpu w ↔
    e.StartsInCpu q p parent ∧ ∃ x, q[p]? = some x ∧
      ∃ child, LowerTierIndexer.OwnsEdge e.cpuTiers.edges w ⟨parent, x⟩ child := by
  rw [startsInCpu_iff (σ := σ)]
  simp only [← LowerTierIndexer.mem_edgeOwners]
  exact mem_tierContinuations

theorem StartsInCpu.mem (hs : e.StartsInCpu q p parent) {last : Option SequenceBlockHash}
    (hc : e.cpuTiers.Crosses w q p parent n last) :
    ⟨p, parent⟩ ∈ e.candidates σ q .cpu w := by
  obtain ⟨x, mid, child, hx, hpath, hedge⟩ := hc.edge (Nat.le_refl p) hc.1
  rw [Nat.sub_self, List.take_zero] at hpath
  cases hpath
  exact mem_cpuCandidates.mpr ⟨hs, x, hx, child, hedge⟩

/-! ## CPU -/

theorem cpuEnd_of_hit {hit : ContiguousHit} (hget : (e.hits σ q .cpu).get? w = some hit) :
    ∃ h, hit.lastMatchedHash = some h ∧ e.CpuEnd q w hit.endPos h := by
  obtain ⟨hpos, ⟨p, parent⟩, hc, rfl, hall⟩ := tier_hit hget
  obtain ⟨h, hlast, hcross⟩ := LowerTierIndexer.walk_crosses hpos
  obtain ⟨hstart, -⟩ := mem_cpuCandidates.mp hc
  refine ⟨h, hlast, fun p' parent' n' last hs hx => ?_, p, parent, hstart, hcross, ?_⟩
  · exact Nat.le_trans hx.le_walk.1 (hall _ (hs.mem hx))
  · -- a candidate from a breakpoint would have won
    rintro rfl v p' h' last hv hx
    have hmem := StartsInCpu.mem (σ := σ) (Or.inr ⟨v, h', hv, rfl⟩) hx
    rw [candidates_eq] at hmem
    have hlate := (List.mem_append.mp hmem).resolve_left
      (fun hroot => by cases (mem_offeredByRoot.mp hroot).1)
    have hle : ∀ c ∈ offeredByRoot (e.tier .cpu) q w, ((e.tier .cpu).walk q w c).endPos ≤
        ((e.tier .cpu).walk q w ⟨p', some h'⟩).endPos := by
      intro c hearly
      refine Nat.le_trans (hall c ?_) hx.le_walk.1
      rw [← candidates, candidates_eq]
      exact List.mem_append_left _ hearly
    obtain ⟨c, hc', heq⟩ := LowerTierIndexer.bestHit_append hlate hle
    rw [← candidates_eq, ← hits_get?, hget, Option.some.injEq] at heq
    obtain ⟨b, hb, hc'⟩ := List.mem_flatMap.mp hc'
    obtain ⟨rfl, -⟩ := mem_offered.mp hc'
    -- but its walk starts somewhere else
    have hsame : p = b.endPos := congrArg ContiguousHit.startPos heq
    obtain ⟨u, -, hu⟩ := mem_hbmBreaks.mp hb
    rcases hstart with ⟨rfl, -⟩ | ⟨_, _, _, hnone⟩
    · exact Nat.lt_irrefl 0 (hsame ▸ hu.pos)
    · cases hnone

/-- Where a worker ends in the CPU tier is where its hit ends, in any order. -/
theorem CpuEnd.hit (hc : e.CpuEnd q w n h) :
    ∃ hit, (e.hits σ q .cpu).get? w = some hit ∧ hit.endPos = n := by
  obtain ⟨p, parent, hs, hx, -⟩ := hc.reached
  obtain ⟨hit, hget, hle⟩ := tier_hit_of_candidate (hs.mem (σ := σ) hx)
  obtain ⟨h', -, hend⟩ := cpuEnd_of_hit hget
  obtain ⟨p', parent', hs', hx', -⟩ := hend.reached
  exact ⟨hit, hget, Nat.le_antisymm (hc.farthest _ _ _ _ hs' hx')
    (Nat.le_trans hx.le_walk.1 hle)⟩

/-- The order that meets the given ends of workers in HBM last. -/
def meetsLast (ends : List (WorkerKey × Nat × SequenceBlockHash)) :
    HashOrder (WorkerKey × PrefixMatch) :=
  .endingWith (ends.map (fun x => (x.1, ⟨x.2.1, some x.2.2⟩)))

theorem hbmBreaks_meetsLast {ends : List (WorkerKey × Nat × SequenceBlockHash)}
    (hnodup : (ends.map (·.1)).Nodup) (hends : ∀ x ∈ ends, e.HbmEnd q x.1 x.2.1 x.2.2)
    (hσ : σ.hbm = meetsLast ends) :
    ∃ init, e.hbmBreaks σ q =
      init ++ ends.map (fun x => ⟨x.1.instanceId, x.1.dpRank, x.2.1, x.2.2⟩) := by
  have hmatches : ∃ init, e.hbmMatches σ q =
      init ++ ends.map (fun x => (x.1, ⟨x.2.1, some x.2.2⟩)) := by
    rw [hbmMatches, hσ]
    refine HashOrder.endingWith_iter (e.hbm.tree.findMatchesDetailed q).nodup.of_map ?_ ?_
    · refine List.Nodup.of_map Prod.fst ?_
      rw [List.map_map]
      exact hnodup
    · intro y hy
      obtain ⟨x, hx, rfl⟩ := List.mem_map.mp hy
      exact Dict.mem_entries_iff.mpr (hbmEnd_iff.mp (hends x hx))
  obtain ⟨init, hinit⟩ := hmatches
  refine ⟨init.filterMap hbmBreak, ?_⟩
  rw [hbmBreaks, hinit, List.filterMap_append, List.append_cancel_left_eq, List.filterMap_map,
    ← List.filterMap_eq_map]
  exact List.filterMap_congr (fun x hx => hbmBreak_hbmEnd (hends x hx))

/-- A worker whose end is reached from the root gets there in every order. -/
theorem CpuEnd.hit_of_root (hc : e.CpuEnd q w n h) (hx : e.cpuTiers.Crosses w q 0 none n (some h))
    (hlone : ∀ v p h' last, e.HbmEnd q v p h' → ¬ e.cpuTiers.Crosses w q p (some h') n last) :
    ∃ hit, (e.hits σ q .cpu).get? w = some hit ∧ hit.endPos = n ∧ hit.lastMatchedHash = some h := by
  obtain ⟨hit, hget, rfl⟩ := hc.hit (σ := σ)
  refine ⟨hit, hget, rfl, ?_⟩
  obtain ⟨hpos, c, hmem, rfl, -⟩ := tier_hit hget
  rcases (mem_tierContinuations.mp hmem).1 with rfl | ⟨b, hb, rfl⟩
  · exact (hx.le_walk.2 rfl).symm
  · obtain ⟨v, -, hv⟩ := mem_hbmBreaks.mp hb
    obtain ⟨h', -, hcross⟩ := LowerTierIndexer.walk_crosses hpos
    exact absurd hcross (hlone v _ _ _ hv)

/-- A worker whose end is reached from a breakpoint gets there if the breakpoint is met last. -/
theorem CpuEnd.hit_of_last (hc : e.CpuEnd q w n h) {b : TierBreakpoint}
    (hx : e.cpuTiers.Crosses w q b.endPos (some b.lastSeq) n (some h))
    {init : List TierBreakpoint} (hlast : e.hbmBreaks σ q = init ++ [b]) :
    ∃ hit, (e.hits σ q .cpu).get? w = some hit ∧ hit.endPos = n ∧ hit.lastMatchedHash = some h := by
  obtain ⟨hit, hget, rfl⟩ := hc.hit (σ := σ)
  refine ⟨hit, hget, rfl, ?_⟩
  have hb : b ∈ e.hbmBreaks σ q := by simp [hlast]
  obtain ⟨v, -, hv⟩ := mem_hbmBreaks.mp hb
  have hcands : e.candidates σ q .cpu w = (offeredByRoot (e.tier .cpu) q w ++
      init.flatMap (offered (e.tier .cpu) q w)) ++ offered (e.tier .cpu) q w b := by
    rw [candidates_eq, breaksFor, hlast, List.flatMap_append, List.append_assoc]
    simp
  obtain ⟨x, mid, child, hq, hpath, hedge⟩ := hx.edge (Nat.le_refl _) hx.1
  rw [Nat.sub_self, List.take_zero] at hpath
  cases hpath
  have hmem : (⟨b.endPos, some b.lastSeq⟩ : LowerTierContinuation) ∈
      offered (e.tier .cpu) q w b :=
    mem_offered.mpr ⟨rfl, x, hq, LowerTierIndexer.mem_edgeOwners.mpr ⟨child, hedge⟩⟩
  have hall : ∀ c ∈ e.candidates σ q .cpu w, ((e.tier .cpu).walk q w c).endPos ≤ hit.endPos := by
    obtain ⟨-, -, -, -, hall⟩ := tier_hit hget
    exact hall
  rw [hcands] at hall
  obtain ⟨c, hc', heq⟩ := LowerTierIndexer.bestHit_append hmem (fun c hearly =>
    Nat.le_trans (hall c (List.mem_append_left _ hearly)) hx.le_walk.1)
  obtain ⟨rfl, -⟩ := mem_offered.mp hc'
  rw [← hcands, ← hits_get?, hget, Option.some.injEq] at heq
  subst heq
  exact (hx.le_walk.2 rfl).symm

/-- **An order for a CPU end**: the worker gets there, and the HBM breakpoint that its DP is left with
does not lie beyond. -/
theorem CpuEnd.exists_order (hc : e.CpuEnd q w n h)
    (hfallback : ∀ v p h', v.dp = w.dp → e.HbmEnd q v p h' →
      ∃ v' p' h'', v'.dp = w.dp ∧ e.HbmEnd q v' p' h'' ∧ p' ≤ n) :
    ∃ order, ∀ σ : QueryOrder, σ.hbm = order →
      (∃ hit, (e.hits σ q .cpu).get? w = some hit ∧ hit.endPos = n ∧
        hit.lastMatchedHash = some h) ∧
      ∀ f, (fallbackBest (e.hbmBreaks σ q)).get? w.dp = some f → f.endPos ≤ n := by
  -- which breakpoint of the DP is to be met last, if it has any
  have hown : (∀ v p h', v.dp = w.dp → ¬ e.HbmEnd q v p h') ∨
      ∃ v p h', v.dp = w.dp ∧ e.HbmEnd q v p h' ∧ p ≤ n := by
    by_cases hany : ∃ v p h', v.dp = w.dp ∧ e.HbmEnd q v p h'
    · obtain ⟨v, p, h', hdp, hv⟩ := hany
      exact Or.inr (hfallback v p h' hdp hv)
    · exact Or.inl (fun v p h' hdp hv => hany ⟨v, p, h', hdp, hv⟩)
  have hnone : (∀ v p h', v.dp = w.dp → ¬ e.HbmEnd q v p h') → ∀ {σ : QueryOrder} f,
      (fallbackBest (e.hbmBreaks σ q)).get? w.dp = some f → f.endPos ≤ n := by
    intro hno σ f hf
    obtain ⟨hmem, hdp⟩ := get?_fallbackBest hf
    obtain ⟨v, hv, hend⟩ := mem_hbmBreaks.mp hmem
    exact absurd hend (hno v _ _ (hv.trans hdp))
  have hlast : ∀ {breaks init : List TierBreakpoint} {b : TierBreakpoint},
      breaks = init ++ [b] → b.dp = w.dp → b.endPos ≤ n → ∀ f,
        (fallbackBest breaks).get? w.dp = some f → f.endPos ≤ n := by
    intro breaks init b hbreaks hdp hle f hf
    rw [hbreaks, ← hdp, get?_fallbackBest_snoc] at hf
    cases hf
    exact hle
  obtain ⟨p, parent, hs, hx, hlone⟩ := hc.reached
  rcases hs with ⟨rfl, rfl⟩ | ⟨v, b, hv, rfl⟩
  · have hroot : ∀ σ, _ := fun σ => hc.hit_of_root (σ := σ) hx (hlone rfl)
    rcases hown with hno | ⟨v', p', h'', hdp', hv', hle'⟩
    · exact ⟨.insertion, fun σ _ => ⟨hroot σ, hnone hno⟩⟩
    · refine ⟨meetsLast [(v', p', h'')], fun σ hσ => ⟨hroot σ, ?_⟩⟩
      obtain ⟨init, hinit⟩ := hbmBreaks_meetsLast (e := e) (q := q) (by simp)
        (List.forall_mem_singleton.mpr hv') hσ
      exact hlast hinit hdp' hle'
  · by_cases hdp : v.dp = w.dp
    · -- the breakpoint that the worker continues belongs to its own DP
      refine ⟨meetsLast [(v, p, b)], fun σ hσ => ?_⟩
      obtain ⟨init, hinit⟩ := hbmBreaks_meetsLast (e := e) (q := q) (by simp)
        (List.forall_mem_singleton.mpr hv) hσ
      exact ⟨hc.hit_of_last (b := ⟨v.instanceId, v.dpRank, p, b⟩) hx hinit,
        hlast hinit hdp (Nat.le_of_lt hx.1)⟩
    · rcases hown with hno | ⟨v', p', h'', hdp', hv', hle'⟩
      · refine ⟨meetsLast [(v, p, b)], fun σ hσ => ⟨?_, hnone hno⟩⟩
        obtain ⟨init, hinit⟩ := hbmBreaks_meetsLast (e := e) (q := q) (by simp)
          (List.forall_mem_singleton.mpr hv) hσ
        exact hc.hit_of_last (b := ⟨v.instanceId, v.dpRank, p, b⟩) hx hinit
      · have hne : v' ≠ v := fun heq => hdp (heq ▸ hdp')
        refine ⟨meetsLast [(v', p', h''), (v, p, b)], fun σ hσ => ?_⟩
        obtain ⟨init, hinit⟩ := hbmBreaks_meetsLast (e := e) (q := q) (by simpa using hne)
          (by simpa using ⟨hv', hv⟩) hσ
        rw [List.map_cons, ← List.singleton_append, ← List.append_assoc] at hinit
        refine ⟨hc.hit_of_last (b := ⟨v.instanceId, v.dpRank, p, b⟩) hx hinit, ?_⟩
        -- the last breakpoint belongs to another DP
        rw [hinit, fallbackBest, List.foldl_append]
        intro f hf
        exact hlast (b := ⟨v'.instanceId, v'.dpRank, p', h''⟩) rfl hdp' hle' f
          ((Dict.get?_insert_ne _ _ hdp).symm.trans hf)

/-! ## Disk -/

/-- The breakpoints of the CPU tier, in the order in which they are merged. -/
def cpuBreaks (e : IndexerEntry) (σ : QueryOrder) (q : List LocalBlockHash) : List TierBreakpoint :=
  (σ.hits.iter 0 (e.hits σ q .cpu).entries).filterMap tierBreak

theorem mem_diskBreaks {b : TierBreakpoint} : b ∈ e.diskBreaks σ q ↔
    (mergedBest (e.hbmBreaks σ q) (e.cpuBreaks σ q)).get? b.dp = some b :=
  mem_merged

theorem tierBreak_eq_some {hit : ContiguousHit} (hpos : 0 < hit.count)
    (hlast : hit.lastMatchedHash = some h) :
    tierBreak (w, hit) = some ⟨w.instanceId, w.dpRank, hit.endPos, h⟩ := by
  simp [tierBreak, hpos, hlast]

theorem of_mem_cpuBreaks {b : TierBreakpoint} (hb : b ∈ e.cpuBreaks σ q) :
    ∃ w, w.dp = b.dp ∧ e.CpuEnd q w b.endPos b.lastSeq := by
  obtain ⟨⟨w, hit⟩, hmem, hbreak⟩ := List.mem_filterMap.mp hb
  rw [HashOrder.mem_iter, Dict.mem_entries_iff] at hmem
  obtain ⟨h, hlast, hend⟩ := cpuEnd_of_hit hmem
  rw [tierBreak_eq_some (tier_hit hmem).1 hlast, Option.some.injEq] at hbreak
  subst hbreak
  exact ⟨w, rfl, hend⟩

theorem CpuEnd.exists_break (hc : e.CpuEnd q w n h) :
    ∃ b ∈ e.cpuBreaks σ q, b.dp = w.dp ∧ b.endPos = n := by
  obtain ⟨hit, hget, rfl⟩ := hc.hit (σ := σ)
  obtain ⟨h', hlast, -⟩ := cpuEnd_of_hit hget
  refine ⟨⟨w.instanceId, w.dpRank, hit.endPos, h'⟩, List.mem_filterMap.mpr ⟨(w, hit), ?_, ?_⟩, rfl, rfl⟩
  · rw [HashOrder.mem_iter, Dict.mem_entries_iff]
    exact hget
  · exact tierBreak_eq_some (tier_hit hget).1 hlast

theorem startsOnDisk_of_break {b : TierBreakpoint} (hb : b ∈ e.diskBreaks σ q) :
    e.StartsOnDisk q b.endPos (some b.lastSeq) := by
  obtain ⟨hfrom, hbest, hall⟩ := get?_preferAll _ (mem_diskBreaks.mp hb)
  rcases hfrom with ⟨hget, hless⟩ | ⟨hmem, -⟩
  · obtain ⟨v, hdp, hv⟩ := mem_hbmBreaks.mp (get?_fallbackBest hget).1
    refine .hbm hv (fun w n h' hw hc => ?_)
    obtain ⟨b', hb', hdp', rfl⟩ := hc.exists_break (σ := σ)
    exact hless b' hb' (hdp'.trans (hw.trans hdp))
  · obtain ⟨w, hdp, hw⟩ := of_mem_cpuBreaks hmem
    refine .cpu hw (fun w' n' h' hw' hc => ?_) (fun v p h' hv hend => ?_)
    · obtain ⟨b', hb', hdp', rfl⟩ := hc.exists_break (σ := σ)
      exact hall b' hb' (hdp'.trans (hw'.trans hdp))
    · -- of the DP's own breakpoints in HBM one was left before the merge
      have hmem' : b.dp ∈ (e.hbmBreaks σ q).map (·.dp) := by
        refine List.mem_map.mpr ⟨⟨v.instanceId, v.dpRank, p, h'⟩, ?_, hv.trans hdp⟩
        exact mem_hbmBreaks.mpr ⟨v, rfl, hend⟩
      obtain ⟨f, hf⟩ := Dict.contains_iff.mp (contains_fallbackBest.mpr hmem')
      obtain ⟨hfmem, hfdp⟩ := get?_fallbackBest hf
      obtain ⟨v', hv', hend'⟩ := mem_hbmBreaks.mp hfmem
      exact ⟨v', f.endPos, f.lastSeq, hv'.trans (hfdp.trans hdp.symm), hend', hbest f hf⟩

/-- **Every start on Disk is taken in some order.** -/
theorem StartsOnDisk.exists_order (hs : e.StartsOnDisk q p parent) :
    ∃ σ, parent = none ∧ p = 0 ∨
      ∃ b ∈ e.diskBreaks σ q, p = b.endPos ∧ parent = some b.lastSeq := by
  cases hs with
  | root => exact ⟨.insertion, Or.inl ⟨rfl, rfl⟩⟩
  | @hbm v p h hv hbeyond =>
    -- the breakpoint is met last, and no CPU breakpoint replaces it
    let σ : QueryOrder := ⟨meetsLast [(v, p, h)], .insertion, .insertion⟩
    obtain ⟨init, hinit⟩ := hbmBreaks_meetsLast (e := e) (q := q) (σ := σ) (by simp)
      (List.forall_mem_singleton.mpr hv) rfl
    refine ⟨σ, Or.inr ⟨⟨v.instanceId, v.dpRank, p, h⟩, ?_, rfl, rfl⟩⟩
    have hmem : ⟨v.instanceId, v.dpRank, p, h⟩ ∈ e.hbmBreaks σ q :=
      mem_hbmBreaks.mpr ⟨v, rfl, hv⟩
    obtain ⟨r, hr, hdp⟩ := exists_merged σ.breaks (List.mem_append_left (e.cpuBreaks σ q) hmem)
    obtain ⟨hfrom, hbest, -⟩ := get?_preferAll _ (mem_merged.mp hr)
    have hleft : (fallbackBest (e.hbmBreaks σ q)).get? r.dp =
        some ⟨v.instanceId, v.dpRank, p, h⟩ := by
      rw [hinit, hdp]
      exact get?_fallbackBest_snoc
    rcases hfrom with ⟨hget, -⟩ | ⟨hpref, -⟩
    · rw [hleft, Option.some.injEq] at hget
      rw [hget]
      exact hr
    · obtain ⟨w, hw, hc⟩ := of_mem_cpuBreaks hpref
      have hle : p ≤ r.endPos := hbest _ hleft
      exact absurd (hbeyond w _ _ (hw.trans hdp) hc) (Nat.not_lt.mpr hle)
  | @cpu w n h hc hmax hfallback =>
    -- the worker gets there, and its breakpoint is the last that is merged
    obtain ⟨order, horder⟩ := hc.exists_order hfallback
    obtain ⟨⟨hit, hget, rfl, hlast⟩, -⟩ := horder ⟨order, .insertion, .insertion⟩ rfl
    let σ : QueryOrder := ⟨order, .endingWith [(w, hit)], .insertion⟩
    refine ⟨σ, Or.inr ⟨⟨w.instanceId, w.dpRank, hit.endPos, h⟩, ?_, rfl, rfl⟩⟩
    obtain ⟨init, hinit⟩ := HashOrder.endingWith_iter (s := [(w, hit)]) (n := 0)
      (e.hits σ q .cpu).nodup.of_map (List.nodup_singleton _)
      (List.forall_mem_singleton.mpr (Dict.mem_entries_iff.mpr hget))
    have hbreaks : e.cpuBreaks σ q =
        init.filterMap tierBreak ++ [⟨w.instanceId, w.dpRank, hit.endPos, h⟩] := by
      have hiter : σ.hits.iter 0 (e.hits σ q .cpu).entries = init ++ [(w, hit)] := hinit
      rw [cpuBreaks, hiter, List.filterMap_append,
        List.filterMap_cons_some (tierBreak_eq_some (tier_hit hget).1 hlast), List.filterMap_nil]
    rw [mem_diskBreaks, mergedBest, hbreaks, List.foldl_append, List.foldl_cons, List.foldl_nil,
      get?_prefer, if_pos rfl, Option.some.injEq]
    -- whatever is there does not lie beyond
    unfold fartherBreak
    split
    · next r hr =>
      obtain ⟨hfrom, -, -⟩ := get?_preferAll _ hr
      refine if_neg (Nat.not_lt.mpr ?_)
      rcases hfrom with ⟨hleft, -⟩ | ⟨hpref, hdp⟩
      · exact (horder σ rfl).2 r hleft
      · obtain ⟨w', hw', hc'⟩ := of_mem_cpuBreaks (e := e) (σ := σ) (q := q)
          (hbreaks ▸ List.mem_append_left _ hpref)
        exact hmax w' _ _ (hw'.trans hdp) hc'
    · rfl

/-! ## Provenance -/

/-- **Where candidates start**: a worker has a candidate in some order exactly where the walks of the
tier can start and it owns the edge that follows. -/
theorem mem_candidates_iff {tier : LowerTier} : (∃ σ, ⟨p, parent⟩ ∈ e.candidates σ q tier w) ↔
    e.StartsAt q tier p parent ∧ ∃ x, q[p]? = some x ∧
      ∃ child, LowerTierIndexer.OwnsEdge (e.tier tier).edges w ⟨parent, x⟩ child := by
  cases tier with
  | cpu => exact ⟨fun ⟨_, hc⟩ => mem_cpuCandidates.mp hc,
      fun hc => ⟨.insertion, mem_cpuCandidates.mpr hc⟩⟩
  | disk =>
    simp only [← LowerTierIndexer.mem_edgeOwners]
    constructor
    · rintro ⟨σ, hc⟩
      obtain ⟨heq, hx⟩ := mem_tierContinuations.mp hc
      refine ⟨?_, hx⟩
      rcases heq with heq | ⟨b, hb, heq⟩
      · cases heq
        exact .root
      · cases heq
        exact startsOnDisk_of_break hb
    · rintro ⟨hs, hx⟩
      obtain ⟨σ, hσ⟩ := hs.exists_order
      refine ⟨σ, mem_tierContinuations.mpr ⟨?_, hx⟩⟩
      rcases hσ with ⟨rfl, rfl⟩ | ⟨b, hb, rfl, rfl⟩
      · exact Or.inl rfl
      · exact Or.inr ⟨b, hb, rfl⟩

theorem holdsBlock_of_hbm {m : PrefixMatch} {i : Nat}
    (h : (e.hbm.tree.findMatchesDetailed q).get? w = some m) (hi : i < m.depth) :
    e.HoldsBlock q w.dp i := by
  obtain ⟨-, hlen, hnodes⟩ := ConcurrentRadixTree.findMatchesDetailed_nodes h
  obtain ⟨n, hn, hw, -⟩ := hnodes (i + 1) (by omega) (by omega)
  exact ⟨q[i], List.getElem?_eq_getElem (by omega), w, rfl, Or.inl ⟨n, hn, hw⟩⟩

theorem OwnPrefixes.holdsBlock (h : e.OwnPrefixes q) {dp : DpKey} {i : Nat}
    (hi : i < (e.findMatchesWithCoverage σ q).covered dp) : e.HoldsBlock q dp i := by
  rcases lt_covered_iff.mp hi with ⟨w, m, hget, rfl, hm⟩ | ⟨tier, w, hit, hget, rfl, hhit⟩
  · exact holdsBlock_of_hbm hget hm
  · obtain ⟨hpos, ⟨p, parent⟩, hc, rfl, -⟩ := tier_hit hget
    obtain ⟨hs, x, hx, child, hedge⟩ := mem_candidates_iff.mp ⟨σ, hc⟩
    by_cases hstart : i < p
    · exact h tier p parent hs x hx w child hedge i hstart
    · -- from its start on the worker owns the edges itself
      obtain ⟨_, -, hcross⟩ := LowerTierIndexer.walk_crosses hpos
      obtain ⟨y, cur, next, hy, hpath, hnext⟩ := hcross.edge (Nat.le_of_not_lt hstart) hhit
      exact ⟨y, hy, w, rfl, Or.inr ⟨tier, w, p, parent, cur, next, hs, Nat.le_of_not_lt hstart,
        hpath, hnext, hnext⟩⟩

/-- **In no order is a DP credited with blocks of another exactly if the owners of the edges behind a
start have the blocks before it.** -/
theorem response_holds_iff_ownPrefixes (e : IndexerEntry) (q : List LocalBlockHash)
    (modelName tenantId : String) (blockSize : Nat) :
    (∀ σ resp,
      buildResponse (e.findMatchesWithCoverage σ q) modelName tenantId blockSize = .ok resp →
      ∀ iid data rank m, resp.get? iid = some data → data.dp.get? rank = some m →
        ∀ i < m.npuBlocks + m.cpuBlocks + m.diskBlocks, e.HoldsBlock q (iid, rank) i) ↔
      e.OwnPrefixes q := by
  constructor
  · intro h tier p parent hs x hx w child hedge i hi
    obtain ⟨σ, hc⟩ := mem_candidates_iff.mpr ⟨hs, x, hx, child, hedge⟩
    -- the DP of the owner is covered beyond the start
    have hcov : i < (e.findMatchesWithCoverage σ q).covered w.dp := by
      obtain ⟨hit, hget, hend⟩ := tier_hit_of_candidate hc
      refine lt_covered_iff.mpr (Or.inr ⟨tier, w, hit, hget, rfl, ?_⟩)
      exact Nat.lt_of_lt_of_le hi (Nat.le_trans (Nat.le_add_right _ _) hend)
    cases hends : (e.findMatchesWithCoverage σ q).mediumEnds.get? w.dp with
    | none => simp [Coverage.covered, hends] at hcov
    | some ends =>
      -- somebody has been credited, so there is a response
      have hsome := counted_findMatchesWithCoverage _ _ hends
      have hok : ∃ resp, buildResponse (e.findMatchesWithCoverage σ q) modelName tenantId blockSize
          = .ok resp := by
        rw [buildResponse, hsome]
        exact ⟨_, rfl⟩
      obtain ⟨resp, hresp⟩ := hok
      have hdp := buildResponse_dp hresp w.dp
      rw [hends, Option.map_some] at hdp
      obtain ⟨data, hdata, hm⟩ := Option.bind_eq_some_iff.mp hdp
      refine h σ resp hresp w.dp.1 data w.dp.2 _ hdata hm i ?_
      rw [Coverage.split_sum]
      simpa [Coverage.covered, hends] using hcov
  · intro h σ resp hresp iid data rank m hdata hm i hi
    have hdp : dpEntry resp (iid, rank) = some m := by
      rw [dpEntry, hdata]
      exact hm
    rw [buildResponse_dp hresp] at hdp
    obtain ⟨ends, hends, rfl⟩ := Option.map_eq_some_iff.mp hdp
    rw [Coverage.split_sum] at hi
    refine h.holdsBlock (σ := σ) ?_
    rw [Coverage.covered, hends]
    exact hi

/-- The DP of `a` computes blocks 101 and 102, the pool of `b` gets the block that follows them. -/
def borrowedRun : List EntryOp :=
  [.event ⟨"a", "a", 0, .npu⟩ (.stored ⟨none, [⟨101, 1⟩, ⟨102, 2⟩]⟩),
   .offload 0 .insertion [(103, 3, some 102)],
   .pool 1 .insertion [103] ⟨"b", "b", 0, .cpu⟩]

theorem StartsAt.root_of_zero {tier : LowerTier} (hs : e.StartsAt q tier 0 parent) :
    parent = none := by
  cases tier with
  | cpu =>
    rcases hs with ⟨-, rfl⟩ | ⟨v, h, hv, -⟩
    · rfl
    · exact absurd hv.pos (Nat.lt_irrefl 0)
  | disk =>
    cases hs with
    | root => rfl
    | hbm hv => exact absurd hv.pos (Nat.lt_irrefl 0)
    | cpu hc =>
      obtain ⟨_, _, _, hx, _⟩ := hc.reached
      exact absurd hx.1 (Nat.not_lt_zero _)

/-- `b` is credited with three blocks, the first of which it does not have. -/
theorem borrowedRun_credits_foreign_prefix :
    ∃ e, Run exec Free new borrowedRun e ∧ ∃ resp data m,
      buildResponse (e.findMatchesWithCoverage .insertion [1, 2, 3]) "model" "default" 1 = .ok resp ∧
      resp.get? "b" = some data ∧ data.dp.get? 0 = some m ∧
      0 < m.npuBlocks + m.cpuBlocks + m.diskBlocks ∧
      ¬ e.HoldsBlock [1, 2, 3] ("b", 0) 0 := by
  have hcredit : (runList exec Free new borrowedRun).map (fun e =>
      ((buildResponse (e.findMatchesWithCoverage .insertion [1, 2, 3]) "model" "default" 1
        ).toOption.bind (dpEntry · ("b", 0)),
       (e.hbm.tree.nodeAt ConcurrentRadixTree.root [1]).map
         (fun n => (e.hbm.tree.nodes n).workers.elems),
       e.cpuTiers.edges.get? ⟨none, 1⟩, e.diskTiers.edges.get? ⟨none, 1⟩)) =
      some (some ⟨3, 0, 3, 0⟩, some [⟨"a", "a", 0, .npu⟩], none, none) := by
    rfl
  obtain ⟨e, he, hfacts⟩ := Option.map_eq_some_iff.mp hcredit
  simp only [Prod.mk.injEq] at hfacts
  obtain ⟨hresp, hnode, hcpu, hdisk⟩ := hfacts
  obtain ⟨resp, hok, hdp⟩ := Option.bind_eq_some_iff.mp hresp
  obtain ⟨data, hdata, hm⟩ := Option.bind_eq_some_iff.mp hdp
  refine ⟨e, runList_run he, resp, data, _, ?_, hdata, hm, by decide, ?_⟩
  · cases hb : buildResponse (e.findMatchesWithCoverage .insertion [1, 2, 3]) "model" "default" 1 with
    | error err => simp [hb, Except.toOption] at hok
    | ok resp' =>
      rw [hb] at hok
      cases hok
      rfl
  · rintro ⟨x, hx, k, hk, ⟨n, hn, hw⟩ | ⟨tier, w, p, parent, cur, child, hs, hp, hpath, hedge, -⟩⟩
    · -- the only worker at the first node is the one of `a`
      have hn' : e.hbm.tree.nodeAt ConcurrentRadixTree.root [1] = some n := hn
      rw [hn', Option.map_some, Option.some.injEq] at hnode
      rw [OrdSet.mem_def, hnode, List.mem_singleton] at hw
      subst hw
      exact absurd hk (by decide)
    · -- no tier has an edge for the first block
      cases hx
      obtain rfl := Nat.le_zero.mp hp
      cases hs.root_of_zero
      cases hpath
      obtain ⟨edge, hget, -⟩ := hedge
      cases tier with
      | cpu => cases hcpu.symm.trans hget
      | disk => cases hdisk.symm.trans hget

end PyMotor.Conductor.IndexerEntry
