import PyMotor.Conductor.Coverage

/-!
# What a DP is credited with

A DP covers position `i` of a query as soon as one of its workers has a recorded match that ends
beyond `i` (`lt_covered_iff`). In a lower tier the match is the walk of a candidate that ends
farthest (`tier_hit`), and a candidate starts at the root or at a breakpoint, where its worker owns
the edge that follows (`mem_tierContinuations`).
-/

namespace PyMotor.Conductor

/-! ## What is recorded -/

/-- What the matches of a worker are recorded as. -/
def StorageMedium.recorded : StorageMedium → StorageMedium
  | .npu | .unknown => .npu
  | .cpu => .cpu
  | .disk => .disk

def MediumEnds.on (ends : MediumEnds) : StorageMedium → Nat
  | .npu | .unknown => ends.npu
  | .cpu => ends.cpu
  | .disk => ends.disk

namespace Coverage

variable {c : Coverage} {dp : DpKey} {i : Nat}

/-- The farthest end of a DP on any medium. -/
def covered (c : Coverage) (dp : DpKey) : Nat :=
  match c.mediumEnds.get? dp with
  | none => 0
  | some ends => max ends.npu (max ends.cpu ends.disk)

/-- The end of a DP on a medium. -/
def endOn (c : Coverage) (dp : DpKey) (medium : StorageMedium) : Nat :=
  (c.mediumEnds.get? dp).elim 0 (·.on medium)

/-- The exclusive contributions add up to the farthest end. -/
theorem split_sum (ends : MediumEnds) (blockSize : Nat) :
    (ends.split blockSize).npuBlocks + (ends.split blockSize).cpuBlocks +
      (ends.split blockSize).diskBlocks = max ends.npu (max ends.cpu ends.disk) := by
  simp only [MediumEnds.split]
  omega

theorem lt_covered_iff_endOn : i < c.covered dp ↔ ∃ medium, i < c.endOn dp medium := by
  unfold covered endOn
  cases c.mediumEnds.get? dp with
  | none => simp
  | some ends =>
    simp only [lt_max_iff, Option.elim_some]
    constructor
    · rintro (h | h | h)
      · exact ⟨.npu, h⟩
      · exact ⟨.cpu, h⟩
      · exact ⟨.disk, h⟩
    · rintro ⟨medium, h⟩
      cases medium with
      | npu | unknown => exact Or.inl h
      | cpu => exact Or.inr (Or.inl h)
      | disk => exact Or.inr (Or.inr h)

theorem lt_endOn_note {w : WorkerKey} {medium m : StorageMedium} {n endPos : Nat} :
    i < (c.note w medium n endPos).endOn dp m ↔
      i < c.endOn dp m ∨ (w.dp = dp ∧ medium.recorded = m.recorded ∧ i < endPos) := by
  simp only [endOn, note, noteMediumEnd, Dict.get?_insert]
  by_cases hdp : w.dp = dp
  · subst hdp
    simp only [↓reduceIte, true_and, Option.elim_some]
    cases c.mediumEnds.get? w.dp with
    | none => cases medium <;> cases m <;> simp [MediumEnds.on, StorageMedium.recorded]
    | some ends => cases medium <;> cases m <;> simp [MediumEnds.on, StorageMedium.recorded]
  · simp [hdp]

/-- What a fold measures, if every step adds the positions that it credits. -/
theorem lt_foldl_iff {S α : Type} {step : S → α → S} (measure : S → Nat) (credit : α → Nat → Prop)
    (hstep : ∀ s a i, i < measure (step s a) ↔ i < measure s ∨ credit a i) (l : List α) :
    ∀ s i, i < measure (l.foldl step s) ↔ i < measure s ∨ ∃ a ∈ l, credit a i := by
  induction l with
  | nil => intro s i; simp
  | cons a l ih =>
    intro s i
    rw [List.foldl_cons, ih, hstep, or_assoc]
    refine or_congr_right ?_
    constructor
    · rintro (h | ⟨b, hb, h⟩)
      · exact ⟨a, List.mem_cons_self, h⟩
      · exact ⟨b, List.mem_cons_of_mem a hb, h⟩
    · rintro ⟨b, hb, h⟩
      rcases List.mem_cons.mp hb with rfl | hb
      · exact Or.inl h
      · exact Or.inr ⟨b, hb, h⟩

/-- Whoever is in the table of ends comes with matched blocks. -/
def Counted (c : Coverage) : Prop :=
  ∀ dp ends, c.mediumEnds.get? dp = some ends → c.overlap.isEmpty = false

theorem counted_note (c : Coverage) (w : WorkerKey) (medium : StorageMedium) (n endPos : Nat) :
    (c.note w medium n endPos).Counted := by
  intro _ _ _
  rw [← Bool.not_eq_true, Dict.isEmpty_iff]
  intro hnone
  have := hnone w
  simp [note, addBlocks] at this

theorem counted_foldl {α : Type} {step : Coverage → α → Coverage}
    (hstep : ∀ c a, c.Counted → (step c a).Counted) (l : List α) :
    ∀ c, c.Counted → (l.foldl step c).Counted := by
  induction l with
  | nil => intro c h; exact h
  | cons a l ih => intro c h; exact ih _ (hstep c a h)

end Coverage

/-! ## Candidates -/

/-- Every worker of the list gets the candidate as often as it is listed. -/
theorem getD_pushContinuation {c : LowerTierContinuation} {w : WorkerKey} (ws : List WorkerKey) :
    ∀ conts : Dict WorkerKey (List LowerTierContinuation),
      ((pushContinuation conts ws c).get? w).getD [] =
        (conts.get? w).getD [] ++ List.replicate (ws.count w) c := by
  induction ws with
  | nil => simp [pushContinuation]
  | cons v ws ih =>
    intro conts
    have hstep : pushContinuation conts (v :: ws) c =
        pushContinuation (conts.insert v ((conts.get? v).getD [] ++ [c])) ws c := rfl
    rw [hstep, ih, Dict.get?_insert, List.count_cons]
    by_cases hv : v = w
    · subst hv
      simp [List.replicate_succ]
    · simp [hv]

/-- What a breakpoint offers to a worker. -/
def offered (t : LowerTierIndexer) (q : List LocalBlockHash) (w : WorkerKey) (b : TierBreakpoint) :
    List LowerTierContinuation :=
  (q[b.endPos]?).elim [] (fun x =>
    List.replicate ((t.edgeOwners (some b.lastSeq) x).count w) ⟨b.endPos, some b.lastSeq⟩)

/-- What the root offers to a worker. -/
def offeredByRoot (t : LowerTierIndexer) (q : List LocalBlockHash) (w : WorkerKey) :
    List LowerTierContinuation :=
  (q.head?).elim [] (fun x => List.replicate ((t.rootWorkers x).count w) ⟨0, none⟩)

theorem getD_tierContinuations (t : LowerTierIndexer) (q : List LocalBlockHash)
    (breaks : List TierBreakpoint) (w : WorkerKey) :
    ((tierContinuations t q breaks).get? w).getD [] =
      offeredByRoot t q w ++ breaks.flatMap (offered t q w) := by
  cases q with
  | nil =>
    have hnone : ∀ b, offered t [] w b = [] := fun b => by simp [offered]
    simp [tierContinuations, offeredByRoot, hnone]
  | cons first rest =>
    have hfold : ∀ (breaks : List TierBreakpoint)
        (conts : Dict WorkerKey (List LowerTierContinuation)),
        ((breaks.foldl (fun conts b => ((first :: rest)[b.endPos]?).elim conts fun x =>
            pushContinuation conts (t.edgeOwners (some b.lastSeq) x) ⟨b.endPos, some b.lastSeq⟩)
          conts).get? w).getD [] =
        (conts.get? w).getD [] ++ breaks.flatMap (offered t (first :: rest) w) := by
      intro breaks
      induction breaks with
      | nil => simp
      | cons b breaks ih =>
        intro conts
        rw [List.foldl_cons, ih, List.flatMap_cons, ← List.append_assoc, offered]
        cases (first :: rest)[b.endPos]? with
        | none => simp
        | some x => simp only [getD_pushContinuation, Option.elim_some]
    have hstep : tierContinuations t (first :: rest) breaks =
        breaks.foldl (fun conts b => ((first :: rest)[b.endPos]?).elim conts fun x =>
            pushContinuation conts (t.edgeOwners (some b.lastSeq) x) ⟨b.endPos, some b.lastSeq⟩)
          (pushContinuation ∅ (t.rootWorkers first) ⟨0, none⟩) := by
      rw [tierContinuations]
      congr 1
      funext conts b
      cases (first :: rest)[b.endPos]? <;> rfl
    rw [hstep, hfold, getD_pushContinuation]
    simp [offeredByRoot]

theorem mem_offered {t : LowerTierIndexer} {q : List LocalBlockHash} {w : WorkerKey}
    {b : TierBreakpoint} {c : LowerTierContinuation} :
    c ∈ offered t q w b ↔ c = ⟨b.endPos, some b.lastSeq⟩ ∧
      ∃ x, q[b.endPos]? = some x ∧ w ∈ t.edgeOwners (some b.lastSeq) x := by
  unfold offered
  cases q[b.endPos]? with
  | none => simp
  | some x => simp [List.mem_replicate, List.count_eq_zero, and_comm]

theorem mem_offeredByRoot {t : LowerTierIndexer} {q : List LocalBlockHash} {w : WorkerKey}
    {c : LowerTierContinuation} :
    c ∈ offeredByRoot t q w ↔ c = ⟨0, none⟩ ∧ ∃ x, q[0]? = some x ∧ w ∈ t.edgeOwners none x := by
  unfold offeredByRoot
  rw [List.head?_eq_getElem?]
  cases q[0]? with
  | none => simp
  | some x => simp [List.mem_replicate, List.count_eq_zero, LowerTierIndexer.rootWorkers, and_comm]

/-- A candidate starts at the root or at a breakpoint, and its worker owns the edge that follows. -/
theorem mem_tierContinuations {t : LowerTierIndexer} {q : List LocalBlockHash}
    {breaks : List TierBreakpoint} {w : WorkerKey} {c : LowerTierContinuation} :
    c ∈ ((tierContinuations t q breaks).get? w).getD [] ↔
      (c = ⟨0, none⟩ ∨ ∃ b ∈ breaks, c = ⟨b.endPos, some b.lastSeq⟩) ∧
        ∃ x, q[c.startPos]? = some x ∧ w ∈ t.edgeOwners c.lastMatchedHash x := by
  rw [getD_tierContinuations, List.mem_append, mem_offeredByRoot, List.mem_flatMap]
  constructor
  · rintro (⟨rfl, hx⟩ | ⟨b, hb, hc⟩)
    · exact ⟨Or.inl rfl, hx⟩
    · obtain ⟨rfl, hx⟩ := mem_offered.mp hc
      exact ⟨Or.inr ⟨b, hb, rfl⟩, hx⟩
  · rintro ⟨rfl | ⟨b, hb, rfl⟩, hx⟩
    · exact Or.inl ⟨rfl, hx⟩
    · exact Or.inr ⟨b, hb, mem_offered.mpr ⟨rfl, hx⟩⟩

/-- **The hits of a tier**: a worker with a candidate has a hit, and it is the walk of a candidate
that ends farthest. -/
theorem tier_hit {t : LowerTierIndexer} {q : List LocalBlockHash} {breaks : List TierBreakpoint}
    {w : WorkerKey} {hit : ContiguousHit} :
    (t.queryContiguousHits q (tierContinuations t q breaks)).get? w = some hit →
    0 < hit.count ∧ ∃ c ∈ ((tierContinuations t q breaks).get? w).getD [], hit = t.walk q w c ∧
      ∀ c' ∈ ((tierContinuations t q breaks).get? w).getD [],
        (t.walk q w c').endPos ≤ hit.endPos := by
  intro h
  rw [LowerTierIndexer.queryContiguousHits, Dict.get?_filterMap] at h
  obtain ⟨conts, hconts, hbest⟩ := Option.bind_eq_some_iff.mp h
  have hcands : ((tierContinuations t q breaks).get? w).getD [] = conts := by rw [hconts]; rfl
  cases conts with
  | nil => cases hbest
  | cons c₀ conts =>
    obtain ⟨c, hc, heq, hall⟩ := LowerTierIndexer.bestHit_eq (t := t) (q := q) (w := w)
      (List.mem_cons_self (a := c₀) (l := conts))
    rw [heq] at hbest
    cases hbest
    rw [hcands]
    refine ⟨?_, c, hc, rfl, hall⟩
    obtain ⟨-, x, hx, hw⟩ := mem_tierContinuations.mp (hcands ▸ hc)
    exact LowerTierIndexer.walk_count_pos hx hw

theorem tier_hit_of_candidate {t : LowerTierIndexer} {q : List LocalBlockHash}
    {breaks : List TierBreakpoint} {w : WorkerKey} {c : LowerTierContinuation}
    (hc : c ∈ ((tierContinuations t q breaks).get? w).getD []) :
    ∃ hit, (t.queryContiguousHits q (tierContinuations t q breaks)).get? w = some hit ∧
      (t.walk q w c).endPos ≤ hit.endPos := by
  cases hconts : (tierContinuations t q breaks).get? w with
  | none => simp [hconts] at hc
  | some conts =>
    rw [hconts] at hc
    obtain ⟨c', -, heq, hall⟩ := LowerTierIndexer.bestHit_eq (t := t) (q := q) (w := w) hc
    refine ⟨t.walk q w c', ?_, hall c hc⟩
    rw [LowerTierIndexer.queryContiguousHits, Dict.get?_filterMap, hconts]
    exact heq

/-! ## What a DP covers -/

theorem lt_endOn_lowerTierLookup {σ : HashOrder (WorkerKey × ContiguousHit)} {k : Nat}
    {t : LowerTierIndexer} {q : List LocalBlockHash} {breaks : List TierBreakpoint} {c : Coverage}
    {dp : DpKey} {m : StorageMedium} {i : Nat} :
    i < (lowerTierLookup σ k t q breaks c).2.endOn dp m ↔ i < c.endOn dp m ∨
      ∃ w hit, (t.queryContiguousHits q (tierContinuations t q breaks)).get? w = some hit ∧
        w.dp = dp ∧ w.medium.recorded = m.recorded ∧ i < hit.endPos := by
  unfold lowerTierLookup
  simp only
  rw [Coverage.lt_foldl_iff (Coverage.endOn · dp m) (fun p i =>
    0 < p.2.count ∧ p.1.dp = dp ∧ p.1.medium.recorded = m.recorded ∧ i < p.2.endPos)]
  · refine or_congr_right ⟨?_, ?_⟩
    · rintro ⟨⟨w, hit⟩, hmem, -, hdp, hm, hi⟩
      rw [HashOrder.mem_iter, Dict.mem_entries_iff] at hmem
      exact ⟨w, hit, hmem, hdp, hm, hi⟩
    · rintro ⟨w, hit, hget, hdp, hm, hi⟩
      refine ⟨(w, hit), ?_, (tier_hit hget).1, hdp, hm, hi⟩
      rw [HashOrder.mem_iter, Dict.mem_entries_iff]
      exact hget
  · intro c p i
    split
    · next hpos => rw [Coverage.lt_endOn_note, and_iff_right hpos]
    · next hpos => simp [hpos]

theorem counted_lowerTierLookup {σ : HashOrder (WorkerKey × ContiguousHit)} {k : Nat}
    {t : LowerTierIndexer} {q : List LocalBlockHash} {breaks : List TierBreakpoint} {c : Coverage}
    (hc : c.Counted) : (lowerTierLookup σ k t q breaks c).2.Counted := by
  refine Coverage.counted_foldl (fun c p h => ?_) _ c hc
  split
  · exact Coverage.counted_note c _ _ _ _
  · exact h

/-- The two tiers below HBM. -/
inductive LowerTier where
  | cpu
  | disk
  deriving DecidableEq, Repr

namespace IndexerEntry

variable {e : IndexerEntry} {σ : QueryOrder} {q : List LocalBlockHash} {dp : DpKey} {i : Nat}

def tier (e : IndexerEntry) : LowerTier → LowerTierIndexer
  | .cpu => e.cpuTiers
  | .disk => e.diskTiers

/-- The breakpoints handed to a tier. -/
def breaksFor (e : IndexerEntry) (σ : QueryOrder) (q : List LocalBlockHash) :
    LowerTier → List TierBreakpoint
  | .cpu => e.hbmBreaks σ q
  | .disk => e.diskBreaks σ q

/-- Where the walks of a worker may start. -/
def candidates (e : IndexerEntry) (σ : QueryOrder) (q : List LocalBlockHash) (tier : LowerTier)
    (w : WorkerKey) : List LowerTierContinuation :=
  ((tierContinuations (e.tier tier) q (e.breaksFor σ q tier)).get? w).getD []

/-- The hits of a tier. -/
def hits (e : IndexerEntry) (σ : QueryOrder) (q : List LocalBlockHash) (tier : LowerTier) :
    Dict WorkerKey ContiguousHit :=
  (e.tier tier).queryContiguousHits q
    (tierContinuations (e.tier tier) q (e.breaksFor σ q tier))

theorem candidates_eq (e : IndexerEntry) (σ : QueryOrder) (q : List LocalBlockHash)
    (tier : LowerTier) (w : WorkerKey) :
    e.candidates σ q tier w = offeredByRoot (e.tier tier) q w ++
      (e.breaksFor σ q tier).flatMap (offered (e.tier tier) q w) :=
  getD_tierContinuations ..

theorem hits_get? {tier : LowerTier} {w : WorkerKey} :
    (e.hits σ q tier).get? w = (e.tier tier).bestHit q w (e.candidates σ q tier w) := by
  rw [hits, LowerTierIndexer.queryContiguousHits, Dict.get?_filterMap, candidates]
  cases (tierContinuations (e.tier tier) q (e.breaksFor σ q tier)).get? w with
  | none => rfl
  | some conts => rfl

theorem lt_endOn_hbm {m : StorageMedium} :
    i < (e.hbmCoverage σ q).endOn dp m ↔ m.recorded = .npu ∧
      ∃ w p, (e.hbm.tree.findMatchesDetailed q).get? w = some p ∧ w.dp = dp ∧ i < p.depth := by
  unfold hbmCoverage
  rw [Coverage.lt_foldl_iff (Coverage.endOn · dp m)
    (fun p i => p.1.dp = dp ∧ StorageMedium.recorded .npu = m.recorded ∧ i < p.2.depth)]
  · constructor
    · rintro (h | ⟨⟨w, p⟩, hmem, hdp, hm, hi⟩)
      · simp [Coverage.endOn, Coverage.empty] at h
      · rw [hbmMatches, HashOrder.mem_iter, Dict.mem_entries_iff] at hmem
        exact ⟨hm.symm, w, p, hmem, hdp, hi⟩
    · rintro ⟨hm, w, p, hget, hdp, hi⟩
      refine Or.inr ⟨(w, p), ?_, hdp, hm.symm, hi⟩
      rw [hbmMatches, HashOrder.mem_iter, Dict.mem_entries_iff]
      exact hget
  · intro c p i
    split
    · next hzero => simp [hzero]
    · rw [Coverage.lt_endOn_note]

/-- What is recorded for a medium. -/
theorem lt_endOn_findMatches {m : StorageMedium} :
    i < (e.findMatchesWithCoverage σ q).endOn dp m ↔ (m.recorded = .npu ∧
      ∃ w p, (e.hbm.tree.findMatchesDetailed q).get? w = some p ∧ w.dp = dp ∧ i < p.depth) ∨
      ∃ tier w hit, (e.hits σ q tier).get? w = some hit ∧ w.dp = dp ∧
        w.medium.recorded = m.recorded ∧ i < hit.endPos := by
  have hcpu : i < (e.cpuLookup σ q).2.endOn dp m ↔ i < (e.hbmCoverage σ q).endOn dp m ∨
      ∃ w hit, (e.hits σ q .cpu).get? w = some hit ∧ w.dp = dp ∧
        w.medium.recorded = m.recorded ∧ i < hit.endPos := lt_endOn_lowerTierLookup
  have hdisk : i < (e.findMatchesWithCoverage σ q).endOn dp m ↔
      i < (e.cpuLookup σ q).2.endOn dp m ∨
      ∃ w hit, (e.hits σ q .disk).get? w = some hit ∧ w.dp = dp ∧
        w.medium.recorded = m.recorded ∧ i < hit.endPos := lt_endOn_lowerTierLookup
  rw [hdisk, hcpu, lt_endOn_hbm, or_assoc]
  refine or_congr_right ⟨?_, ?_⟩
  · rintro (h | h)
    · exact ⟨.cpu, h⟩
    · exact ⟨.disk, h⟩
  · rintro ⟨tier, h⟩
    cases tier with
    | cpu => exact Or.inl h
    | disk => exact Or.inr h

/-- **What a DP covers**: up to the ends of the matches of its workers, on all media. -/
theorem lt_covered_iff :
    i < (e.findMatchesWithCoverage σ q).covered dp ↔
      (∃ w m, (e.hbm.tree.findMatchesDetailed q).get? w = some m ∧ w.dp = dp ∧ i < m.depth) ∨
      ∃ tier w hit, (e.hits σ q tier).get? w = some hit ∧ w.dp = dp ∧ i < hit.endPos := by
  rw [Coverage.lt_covered_iff_endOn]
  simp only [lt_endOn_findMatches]
  constructor
  · rintro ⟨_, ⟨-, h⟩ | ⟨tier, w, hit, hget, hdp, -, hi⟩⟩
    · exact Or.inl h
    · exact Or.inr ⟨tier, w, hit, hget, hdp, hi⟩
  · rintro (h | ⟨tier, w, hit, hget, hdp, hi⟩)
    · exact ⟨.npu, Or.inl ⟨rfl, h⟩⟩
    · exact ⟨w.medium, Or.inr ⟨tier, w, hit, hget, hdp, rfl, hi⟩⟩

theorem counted_findMatchesWithCoverage : (e.findMatchesWithCoverage σ q).Counted := by
  refine counted_lowerTierLookup (counted_lowerTierLookup ?_)
  refine Coverage.counted_foldl (fun c p h => ?_) _ _ (fun dp ends h => by cases h)
  split
  · exact h
  · exact Coverage.counted_note c _ _ _ _

end IndexerEntry

/-! ## The response -/

/-- What a response says about a DP. -/
def dpEntry (data : Dict InstanceId InstanceMatchData) (dp : DpKey) : Option DpBlocks :=
  (data.get? dp.1).bind (·.dp.get? dp.2)

theorem dpEntry_insertDp (data : Dict InstanceId InstanceMatchData) (dp dp' : DpKey)
    (blocks : DpBlocks) :
    dpEntry (insertDp data dp blocks) dp' = if dp = dp' then some blocks else dpEntry data dp' := by
  obtain ⟨iid, rank⟩ := dp
  obtain ⟨iid', rank'⟩ := dp'
  simp only [dpEntry, insertDp, Dict.get?_insert, Prod.mk.injEq]
  by_cases hi : iid = iid'
  · subst hi
    simp only [↓reduceIte, Option.bind_some, Dict.get?_insert, true_and]
    split
    · rfl
    · cases data.get? iid <;> rfl
  · simp [hi]

theorem dpEntry_foldl (blockSize : Nat) (l : List (DpKey × MediumEnds)) :
    ∀ (data : Dict InstanceId InstanceMatchData), (l.map Prod.fst).Nodup → ∀ dp,
      dpEntry (l.foldl (fun data p => insertDp data p.1 (p.2.split blockSize)) data) dp =
        ((AssocList.get? dp l).map (·.split blockSize)).or (dpEntry data dp) := by
  induction l with
  | nil => intro data _ dp; rfl
  | cons p l ih =>
    obtain ⟨dp', ends⟩ := p
    intro data hnodup dp
    rw [List.map_cons, List.nodup_cons] at hnodup
    rw [List.foldl_cons, ih _ hnodup.2, dpEntry_insertDp, AssocList.get?]
    by_cases hdp : dp' = dp
    · subst hdp
      rw [AssocList.get?_eq_none hnodup.1]
      simp
    · simp [hdp]

/-- **The entry of a DP** is the split of its ends. -/
theorem buildResponse_dp {c : Coverage} {modelName tenantId : String} {blockSize : Nat}
    {resp : Dict InstanceId InstanceMatchData}
    (h : buildResponse c modelName tenantId blockSize = .ok resp) (dp : DpKey) :
    dpEntry resp dp = (c.mediumEnds.get? dp).map (·.split blockSize) := by
  unfold buildResponse at h
  split at h
  · cases h
  · simp only [Except.ok.injEq] at h
    subst h
    have hfold := dpEntry_foldl blockSize c.mediumEnds.entries ∅ c.mediumEnds.nodup dp
    have hempty : dpEntry ∅ dp = none := rfl
    rw [hempty, Option.or_none] at hfold
    unfold Dict.get?
    rw [← hfold]
    unfold dpEntry
    rw [Dict.get?_mapVal]
    cases Dict.get? _ dp.1 <;> rfl

end PyMotor.Conductor
