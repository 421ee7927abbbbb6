import PyMotor.Conductor.IndexerEntry

/-!
# Concurrent ingestion

Every subscriber has a thread of its own, and all of them ingest into the same entry. An offload is one
critical section. A pool event is several: the caches are asked under the lock, then the tiers without it,
and for every block the result is written back under the lock again.

An offload in the gap between the first section of a pool event and its last one finds nobody waiting
for its block and puts it into `offload`; the pool event then queues its worker as if nothing had
happened, and the two never meet. `KeepsAway` excludes that, and then `offload` stays apart from
`content` and `pending_pool` in every state of every run.
-/

namespace PyMotor.Conductor

/-- How far a call has come. -/
inductive IngestCall where
  /-- The first block of `need` is to be looked up in the tiers. -/
  | lookup (w : WorkerKey) (need : List UInt64) (matched : List PlacedBlock)
  /-- The block was looked up, and the result is to be written back. -/
  | update (w : WorkerKey) (blockHash : UInt64) (found : Option BlockContent) (need : List UInt64)
      (matched : List PlacedBlock)
  /-- The call has returned; its caller stores the matched blocks. -/
  | returned (blocks : List (WorkerKey × PlacedBlock))

/-- The blocks that the call has found missing in the caches and not dealt with yet. -/
def IngestCall.outstanding : IngestCall → List UInt64
  | lookup _ need _ => need
  | update _ bh _ need _ => bh :: need
  | returned _ => []

structure IngestState where
  entry : IndexerEntry
  calls : List IngestCall

/-- A scheduling step: a new call enters its first critical section, or a call goes on. -/
inductive IngestStep where
  | offload (now : Instant) (σ : HashOrder (WorkerKey × List PlacedBlock))
      (triples : List OffloadTriple)
  | pool (now : Instant) (blockHashes : List UInt64) (w : WorkerKey)
  | advance (now : Instant) (σ : HashOrder WorkerMap) (i : Nat)

namespace IngestState

/-- No call is under way. -/
def start (e : IndexerEntry) : IngestState := ⟨e, []⟩

/-- The next step of a call, and what it does to the entry. -/
def advance (now : Instant) (σ : HashOrder WorkerMap) (e : IndexerEntry) :
    IngestCall → Option (IndexerEntry × IngestCall)
  | .lookup w [] matched => some (e, .returned (matched.map (fun b => (w, b))))
  | .lookup w (bh :: need) matched => some (e, .update w bh (e.tierContent σ 0 bh) need matched)
  | .update w bh (some c) need matched =>
    some ({ e with offloadPool := e.offloadPool.confirmContent now bh c },
      .lookup w need (matched ++ [(c.parentHash, ⟨bh, c.tokensHash⟩)]))
  | .update w bh none need matched =>
    some ({ e with offloadPool := e.offloadPool.queuePending now bh w }, .lookup w need matched)
  | .returned [] => none
  | .returned ((w, b) :: blocks) =>
    match e.applyEvent w (.stored ⟨b.1, [b.2]⟩) with
    | (.ok (), e) => some (e, .returned blocks)
    | (.error _, e) => some (e, .returned [])

def exec (s : IngestState) : IngestStep → Option IngestState
  | .offload now σ triples =>
    let (matched, pool) := s.entry.offloadPool.ingestOffloadBlocks now triples
    let blocks := (σ.iter 0 matched.entries).flatMap (fun p => p.2.map (fun b => (p.1, b)))
    some ⟨{ s.entry with offloadPool := pool }, s.calls ++ [.returned blocks]⟩
  | .pool now blockHashes w =>
    let (matched, need, pool) := s.entry.offloadPool.resolveLoop now blockHashes
    some ⟨{ s.entry with offloadPool := pool }, s.calls ++ [.lookup w need matched]⟩
  | .advance now σ i =>
    match s.calls[i]? with
    | none => none
    | some call => (advance now σ s.entry call).map (fun p => ⟨p.1, s.calls.set i p.2⟩)

/-- All calls have returned. -/
def AllReturned (s : IngestState) : Prop := ∀ call ∈ s.calls, ∃ blocks, call = .returned blocks

/-- An offload names a block that a pool event has outstanding only while somebody waits for it, and
then once. -/
def KeepsAway (s : IngestState) : IngestStep → Prop
  | .offload _ _ triples => ∀ call ∈ s.calls, ∀ b ∈ call.outstanding,
      (triples.map (·.1)).count b ≤ (s.entry.offloadPool.pendingPool.contains b).toNat
  | _ => True

instance (s : IngestState) : (l : IngestStep) → Decidable (s.KeepsAway l)
  | .offload _ _ triples =>
    -- by the lists: the instance that goes through all hashes would not end
    have (call : IngestCall) : Decidable (∀ b ∈ call.outstanding,
        (triples.map (·.1)).count b ≤ (s.entry.offloadPool.pendingPool.contains b).toNat) :=
      List.decidableBAll _ _
    List.decidableBAll _ _
  | .pool _ _ _ => inferInstanceAs (Decidable True)
  | .advance _ _ _ => inferInstanceAs (Decidable True)

end IngestState

namespace OffloadPoolState

variable {s : OffloadPoolState} {now : Instant} {b : UInt64}

/-- Nothing is in `offload` and in one of the other two caches. -/
structure Separate (s : OffloadPoolState) : Prop where
  content : ∀ b x, s.offload.get? b = some x → s.content.get? b = none
  pending : ∀ b x, s.offload.get? b = some x → s.pendingPool.get? b = none

namespace Separate

theorem of_absent {s' : OffloadPoolState} (h : s.Separate) (hb : s.offload.get? b = none)
    (ho : s'.offload = s.offload) (hc : ∀ c, c ≠ b → s'.content.get? c = s.content.get? c)
    (hp : ∀ c, c ≠ b → s'.pendingPool.get? c = s.pendingPool.get? c) : s'.Separate := by
  have hne : ∀ c x, s'.offload.get? c = some x → c ≠ b := by
    rintro c x hx rfl
    rw [ho, hb] at hx
    cases hx
  refine ⟨fun c x hx => ?_, fun c x hx => ?_⟩
  · rw [hc c (hne c x hx)]
    exact h.content c x (ho ▸ hx)
  · rw [hp c (hne c x hx)]
    exact h.pending c x (ho ▸ hx)

theorem confirmContent (h : s.Separate) (hb : s.offload.get? b = none) (c : BlockContent) :
    (s.confirmContent now b c).Separate :=
  h.of_absent hb rfl (fun _ hne => Dict.get?_insert_ne _ _ hne.symm) (fun _ _ => rfl)

theorem queuePending (h : s.Separate) (hb : s.offload.get? b = none) (w : WorkerKey) :
    (s.queuePending now b w).Separate :=
  h.of_absent hb rfl (fun _ _ => rfl) (fun _ hne => Dict.get?_insert_ne _ _ hne.symm)

theorem resolvePoolContent (h : s.Separate) (now : Instant) (b : UInt64) :
    (s.resolvePoolContent now b).2.Separate := by
  unfold OffloadPoolState.resolvePoolContent
  cases ho : s.offload.get? b with
  | none => exact h
  | some x =>
    refine ⟨fun c y hy => ?_, fun c y hy => ?_⟩
    · simp only [Dict.get?_erase] at hy
      split at hy
      · cases hy
      · next hne =>
        simp only [Dict.get?_insert_ne _ _ hne]
        exact h.content c y hy
    · exact h.pending c y (Dict.get?_of_erase hy)

end Separate

theorem resolvePoolContent_offload (b c : UInt64) (hc : s.offload.get? c = none) :
    (s.resolvePoolContent now b).2.offload.get? c = none := by
  unfold resolvePoolContent
  split
  · rw [Dict.get?_erase]
    split
    · rfl
    · exact hc
  · exact hc

/-- After the first section of a pool event, what is left to look up is not in `offload`. -/
theorem resolveLoop_separate (now : Instant) (hs : List UInt64) :
    ∀ {s : OffloadPoolState}, s.Separate →
      (resolveLoop now s hs).2.2.Separate ∧
      (∀ c, s.offload.get? c = none → (resolveLoop now s hs).2.2.offload.get? c = none) ∧
      ∀ c ∈ (resolveLoop now s hs).2.1, (resolveLoop now s hs).2.2.offload.get? c = none := by
  induction hs with
  | nil =>
    intro s h
    exact ⟨h, fun c hc => hc, fun c hc => by cases hc⟩
  | cons b hs ih =>
    intro s h
    obtain ⟨hsep, hkeep, hneed⟩ := ih (h.resolvePoolContent now b)
    have hkeep' : ∀ c, s.offload.get? c = none →
        (resolveLoop now (s.resolvePoolContent now b).2 hs).2.2.offload.get? c = none :=
      fun c hc => hkeep c (resolvePoolContent_offload b c hc)
    rw [resolveLoop]
    split
    · next x s' heq =>
      rw [heq] at hsep hkeep' hneed
      exact ⟨hsep, hkeep', hneed⟩
    · next s' heq =>
      have hb : s.offload.get? b = none := by
        cases ho : s.offload.get? b with
        | none => rfl
        | some x =>
          unfold resolvePoolContent at heq
          rw [ho] at heq
          cases heq
      rw [heq] at hsep hkeep' hneed
      refine ⟨hsep, hkeep', fun c hc => ?_⟩
      rcases List.mem_cons.mp hc with rfl | hc
      · exact hkeep' c hb
      · exact hneed c hc

theorem Separate.meet (h : s.Separate) (b : UInt64) (c : ContentEntry) :
    Separate
      { offload := s.offload.erase b
        content := s.content.insert b c
        pendingPool := s.pendingPool.erase b } := by
  refine ⟨fun a x hx => ?_, fun a x hx => ?_⟩
  · simp only [Dict.get?_erase] at hx
    split at hx
    · cases hx
    · next hne =>
      simp only [Dict.get?_insert_ne _ _ hne]
      exact h.content a x hx
  · simp only [Dict.get?_erase] at hx
    split at hx
    · cases hx
    · next hne =>
      simp only [Dict.get?_erase_ne _ hne]
      exact h.pending a x hx

theorem Separate.keep (h : s.Separate) (hb : s.pendingPool.get? b = none) (o : OffloadCacheEntry) :
    Separate { s with offload := s.offload.insert b o, content := s.content.erase b } := by
  refine ⟨fun a x hx => ?_, fun a x hx => ?_⟩
  · simp only [Dict.get?_insert] at hx
    simp only [Dict.get?_erase]
    split
    · rfl
    · next hne =>
      rw [if_neg hne] at hx
      exact h.content a x hx
  · simp only [Dict.get?_insert] at hx
    split at hx
    · next heq =>
      rw [← heq]
      exact hb
    · exact h.pending a x hx

/-- **An offload** keeps the caches apart, and puts a block into `offload` only if it names it more
often than somebody waits for it. -/
theorem ingestOffloadLoop_separate (now : Instant) (triples : List OffloadTriple) :
    ∀ {s : OffloadPoolState} (matched : Matched), s.Separate →
      (ingestOffloadLoop now matched s triples).2.Separate ∧
      ∀ b, s.offload.get? b = none →
        (triples.map (·.1)).count b ≤ (s.pendingPool.contains b).toNat →
        (ingestOffloadLoop now matched s triples).2.offload.get? b = none := by
  induction triples with
  | nil =>
    intro s matched h
    exact ⟨h, fun b hb _ => hb⟩
  | cons tr triples ih =>
    obtain ⟨a, th, ph⟩ := tr
    intro s matched h
    rw [ingestOffloadLoop]
    cases hp : s.pendingPool.get? a with
    | some pending =>
      simp only
      obtain ⟨hsep', hout⟩ := ih _ (h.meet a ⟨⟨th, ph⟩, now⟩)
      refine ⟨hsep', fun b hb hcount => hout b ?_ ?_⟩
      · simp only [Dict.get?_erase]
        split
        · rfl
        · exact hb
      · simp only [List.map_cons] at hcount
        by_cases hab : a = b
        · -- the one who waits is used up, so the rest must not name the block again
          subst hab
          rw [List.count_cons_self] at hcount
          have : (s.pendingPool.contains a).toNat ≤ 1 := Bool.toNat_le _
          omega
        · rw [List.count_cons_of_ne hab] at hcount
          rwa [Dict.contains, Dict.get?_erase_ne _ hab]
    | none =>
      simp only
      obtain ⟨hsep', hout⟩ := ih _ (h.keep hp ⟨⟨th, ph⟩, now⟩)
      refine ⟨hsep', fun b hb hcount => hout b ?_ ?_⟩
      · -- nobody waits for `a`, so by the count it is not `b`
        have hab : a ≠ b := by
          rintro rfl
          simp [Dict.contains, hp] at hcount
        simp only [Dict.get?_insert_ne _ _ hab]
        exact hb
      · simp only [List.map_cons] at hcount
        exact Nat.le_trans List.count_le_count_cons hcount

end OffloadPoolState

/-! ## Runs -/

namespace IngestState

variable {s s' : IngestState} {ls : List IngestStep}

/-- The caches are apart, and nothing that a call has outstanding is in `offload`. -/
structure Apart (s : IngestState) : Prop where
  caches : s.entry.offloadPool.Separate
  outstanding : ∀ call ∈ s.calls, ∀ b ∈ call.outstanding,
    s.entry.offloadPool.offload.get? b = none

/-- What one step of a call can do: the caches stay apart, `offload` stays as it is, and nothing
new becomes outstanding. -/
theorem advance_apart {now : Instant} {σ : HashOrder WorkerMap} {e e' : IndexerEntry}
    {call call' : IngestCall} (h : e.offloadPool.Separate)
    (hout : ∀ b ∈ call.outstanding, e.offloadPool.offload.get? b = none)
    (hstep : advance now σ e call = some (e', call')) :
    e'.offloadPool.Separate ∧ e'.offloadPool.offload = e.offloadPool.offload ∧
      ∀ b ∈ call'.outstanding, b ∈ call.outstanding := by
  cases call with
  | lookup w need matched =>
    cases need with
    | nil =>
      cases hstep
      exact ⟨h, rfl, fun b hb => by cases hb⟩
    | cons bh need =>
      cases hstep
      exact ⟨h, rfl, fun b hb => hb⟩
  | update w bh found need matched =>
    have hbh := hout bh List.mem_cons_self
    cases found with
    | some c =>
      cases hstep
      exact ⟨h.confirmContent hbh c, rfl, fun b hb => List.mem_cons_of_mem bh hb⟩
    | none =>
      cases hstep
      exact ⟨h.queuePending hbh w, rfl, fun b hb => List.mem_cons_of_mem bh hb⟩
  | returned blocks =>
    cases blocks with
    | nil => cases hstep
    | cons p blocks =>
      have hpool := IndexerEntry.applyEvent_offloadPool e p.1 (.stored ⟨p.2.1, [p.2.2]⟩)
      simp only [advance] at hstep
      split at hstep
      · next heq =>
        rw [heq] at hpool
        cases hstep
        refine ⟨?_, by rw [hpool], fun b hb => by cases hb⟩
        rw [hpool]
        exact h
      · next heq =>
        rw [heq] at hpool
        cases hstep
        refine ⟨?_, by rw [hpool], fun b hb => by cases hb⟩
        rw [hpool]
        exact h

/-- **Every step keeps `offload` apart**, provided offloads keep away from outstanding blocks. -/
theorem exec_apart {l : IngestStep} (h : s.Apart) (hl : s.KeepsAway l)
    (he : s.exec l = some s') : s'.Apart := by
  cases l with
  | offload now σ triples =>
    cases he
    obtain ⟨hsep, hstay⟩ := OffloadPoolState.ingestOffloadLoop_separate now triples ∅ h.caches
    refine ⟨hsep, fun call hcall b hb => ?_⟩
    rcases List.mem_append.mp hcall with hcall | hcall
    · exact hstay b (h.outstanding call hcall b hb) (hl call hcall b hb)
    · cases List.mem_singleton.mp hcall
      cases hb
  | pool now hs w =>
    cases he
    obtain ⟨hsep, hkeep, hneed⟩ := OffloadPoolState.resolveLoop_separate now hs h.caches
    refine ⟨hsep, fun call hcall b hb => ?_⟩
    rcases List.mem_append.mp hcall with hcall | hcall
    · exact hkeep b (h.outstanding call hcall b hb)
    · cases List.mem_singleton.mp hcall
      exact hneed b hb
  | advance now σ i =>
    simp only [exec] at he
    split at he
    · cases he
    · next call hcall =>
      obtain ⟨⟨e', call'⟩, hstep, rfl⟩ := Option.map_eq_some_iff.mp he
      have hmem : call ∈ s.calls := List.mem_of_getElem? hcall
      obtain ⟨hsep, ho, hout⟩ := advance_apart h.caches (h.outstanding call hmem) hstep
      refine ⟨hsep, fun c hc b hb => ?_⟩
      show e'.offloadPool.offload.get? b = none
      rw [ho]
      rcases List.mem_or_eq_of_mem_set hc with hc | rfl
      · exact h.outstanding c hc b hb
      · exact h.outstanding call hmem b (hout b hb)

/-- **No match is lost.** From every entry whose caches are apart, in every interleaving of any
number of calls whose offloads keep away from outstanding blocks, no block comes to be in `offload`
and in `content`, or in `offload` and in `pending_pool`. -/
theorem offload_apart_of_run {e₀ : IndexerEntry} (h₀ : e₀.offloadPool.Separate)
    (hrun : Run exec KeepsAway (start e₀) ls s) : s.entry.offloadPool.Separate := by
  have happart : s.Apart := by
    refine hrun.invariant_state (I := Apart) ⟨h₀, fun call hcall => by cases hcall⟩ ?_
    intro s l s' h hl he
    exact exec_apart h hl he
  exact happart.caches

/-! ## A match that is lost -/

section LostMatch

theorem separate_new : OffloadPoolState.new.Separate :=
  ⟨fun b x h => by simp [OffloadPoolState.new] at h, fun b x h => by simp [OffloadPoolState.new] at h⟩

/-- A pool event asks the caches and the tiers for block 7, and the offload of block 7 comes before
it queues its worker. -/
def lostMatchSteps : List IngestStep :=
  [.pool 0 [7] ⟨"a", "a", 0, .cpu⟩, .advance 1 .insertion 0, .offload 2 .insertion [(7, 70, none)],
   .advance 3 .insertion 0, .advance 4 .insertion 0]

/-- **A match that is lost**: all calls have returned, block 7 is in `offload`, and a worker waits
for it in `pending_pool`. -/
theorem lostMatchSteps_offload_and_pending :
    ∃ s, Run exec Free (start .new) lostMatchSteps s ∧ s.AllReturned ∧
      ¬ s.entry.offloadPool.Separate := by
  have hfinal : (runList exec Free (start .new) lostMatchSteps).map (fun s =>
      (s.calls.all (fun call => match call with | .returned _ => true | _ => false),
        s.entry.offloadPool.offload.contains 7, s.entry.offloadPool.pendingPool.contains 7)) =
      some (true, true, true) := by decide
  obtain ⟨s, hs, hf⟩ := Option.map_eq_some_iff.mp hfinal
  simp only [Prod.mk.injEq] at hf
  obtain ⟨hret, hoff, hpend⟩ := hf
  refine ⟨s, runList_run hs, fun call hcall => ?_, fun hsep => ?_⟩
  · have := List.all_eq_true.mp hret call hcall
    cases call with
    | returned blocks => exact ⟨blocks, rfl⟩
    | lookup w need matched => cases this
    | update w bh found need matched => cases this
  · obtain ⟨x, hx⟩ := Dict.contains_iff.mp hoff
    obtain ⟨y, hy⟩ := Dict.contains_iff.mp hpend
    rw [hsep.pending 7 x hx] at hy
    cases hy

/-- The same calls, with the offload after the worker is queued. -/
def metMatchSteps : List IngestStep :=
  [.pool 0 [7] ⟨"a", "a", 0, .cpu⟩, .advance 1 .insertion 0, .advance 2 .insertion 0,
   .offload 3 .insertion [(7, 70, none)], .advance 4 .insertion 0, .advance 5 .insertion 1]

theorem metMatchSteps_apart :
    ∃ s, Run exec KeepsAway (start .new) metMatchSteps s ∧ s.entry.offloadPool.Separate := by
  have hsome : (runList exec KeepsAway (start .new) metMatchSteps).isSome = true := by decide
  obtain ⟨s, hs⟩ := Option.isSome_iff_exists.mp hsome
  exact ⟨s, runList_run hs, offload_apart_of_run separate_new (runList_run hs)⟩

end LostMatch

end IngestState

end PyMotor.Conductor
