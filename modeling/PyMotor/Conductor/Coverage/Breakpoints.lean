import PyMotor.Conductor.Coverage

/-!
# Which breakpoint a DP keeps

`merge_tier_breakpoints` is meant to keep, for every DP, the farther breakpoint. The preferred
breakpoints are compared with what is there (`get?_preferAll`), the fallback ones are not: of several
fallback breakpoints of one DP the last one stays (`get?_fallbackBest_snoc`), and which one is last is
decided by the order of a hash map. The farthest breakpoint is kept, whatever the order, exactly if
the preferred ones make up for every difference among the fallback ones (`Overtaken`).
-/

namespace PyMotor.Conductor

/-- The DP whose match broke off. -/
def TierBreakpoint.dp (b : TierBreakpoint) : DpKey := (b.instanceId, b.dpRank)

/-! ## The two loops -/

/-- The first loop: the last breakpoint of a DP stays. -/
def fallbackBest (fallback : List TierBreakpoint) : Dict DpKey TierBreakpoint :=
  fallback.foldl (fun best b => best.insert b.dp b) ∅

/-- One turn of the second loop. -/
def prefer (best : Dict DpKey TierBreakpoint) (b : TierBreakpoint) : Dict DpKey TierBreakpoint :=
  match best.get? b.dp with
  | some existing => if b.endPos < existing.endPos then best else best.insert b.dp b
  | none => best.insert b.dp b

/-- Both loops. -/
def mergedBest (fallback preferred : List TierBreakpoint) : Dict DpKey TierBreakpoint :=
  preferred.foldl prefer (fallbackBest fallback)

theorem mergeTierBreakpoints_eq (σ : HashOrder TierBreakpoint)
    (fallback preferred : List TierBreakpoint) :
    mergeTierBreakpoints σ fallback preferred = σ.iter 0 (mergedBest fallback preferred).values :=
  rfl

variable {best : Dict DpKey TierBreakpoint} {fallback preferred : List TierBreakpoint}
  {b r : TierBreakpoint} {k : DpKey}

theorem get?_fallbackBest (h : (fallbackBest fallback).get? k = some b) :
    b ∈ fallback ∧ b.dp = k := by
  rcases Dict.of_get?_foldl_insert (g := id) fallback ∅ h with h | ⟨a, ha, hk, rfl⟩
  · simp at h
  · exact ⟨ha, hk⟩

theorem contains_fallbackBest :
    (fallbackBest fallback).contains k = true ↔ k ∈ fallback.map (·.dp) := by
  have h := Dict.contains_foldl_insert (f := TierBreakpoint.dp) (g := id) (k := k) fallback ∅
  simpa [fallbackBest, Dict.contains] using h

theorem get?_fallbackBest_snoc : (fallbackBest (fallback ++ [b])).get? b.dp = some b := by
  rw [fallbackBest, List.foldl_append]
  exact Dict.get?_insert_self ..

/-- The farther of an existing breakpoint and a preferred one. -/
def fartherBreak (existing : Option TierBreakpoint) (b : TierBreakpoint) : TierBreakpoint :=
  match existing with
  | some existing => if b.endPos < existing.endPos then existing else b
  | none => b

theorem fartherBreak_from (existing : Option TierBreakpoint) (b : TierBreakpoint) :
    (existing = some (fartherBreak existing b) ∧ b.endPos < (fartherBreak existing b).endPos) ∨
      fartherBreak existing b = b := by
  unfold fartherBreak
  split
  · split
    · next hlt => exact Or.inl ⟨rfl, hlt⟩
    · exact Or.inr rfl
  · exact Or.inr rfl

theorem le_fartherBreak (existing : Option TierBreakpoint) (b : TierBreakpoint) :
    b.endPos ≤ (fartherBreak existing b).endPos ∧
      ∀ b', existing = some b' → b'.endPos ≤ (fartherBreak existing b).endPos := by
  unfold fartherBreak
  split
  · split
    · next hlt =>
      refine ⟨Nat.le_of_lt hlt, fun b' hb' => ?_⟩
      cases hb'
      exact Nat.le_refl _
    · next hge =>
      refine ⟨Nat.le_refl _, fun b' hb' => ?_⟩
      cases hb'
      exact Nat.le_of_not_lt hge
  · exact ⟨Nat.le_refl _, fun b' hb' => by cases hb'⟩

/-- A turn keeps the farther breakpoint of its DP and leaves the other DPs alone. -/
theorem get?_prefer :
    (prefer best b).get? k =
      if b.dp = k then some (fartherBreak (best.get? k) b) else best.get? k := by
  by_cases hk : b.dp = k
  · subst hk
    rw [if_pos rfl]
    cases hget : best.get? b.dp with
    | none =>
      simp only [prefer, hget, fartherBreak]
      exact Dict.get?_insert_self ..
    | some existing =>
      simp only [prefer, hget, fartherBreak]
      split
      · exact hget
      · exact Dict.get?_insert_self ..
  · rw [if_neg hk, prefer]
    split
    · split
      · rfl
      · exact Dict.get?_insert_ne _ _ hk
    · exact Dict.get?_insert_ne _ _ hk

theorem contains_prefer : (prefer best b).contains k = true ↔ best.contains k = true ∨ k = b.dp := by
  rw [Dict.contains, get?_prefer]
  split
  · next hk => simp [hk]
  · next hk => simp [Dict.contains, Ne.symm hk]

theorem contains_preferAll (preferred : List TierBreakpoint) :
    ∀ {best : Dict DpKey TierBreakpoint}, (preferred.foldl prefer best).contains k = true ↔
      best.contains k = true ∨ k ∈ preferred.map (·.dp) := by
  induction preferred with
  | nil => simp
  | cons b preferred ih =>
    intro best
    rw [List.foldl_cons, ih, contains_prefer, List.map_cons, List.mem_cons, or_assoc]

/-- **The second loop**: what it leaves to a DP is one of the preferred breakpoints, or it was there
and ends beyond all of these; and nothing ends farther. -/
theorem get?_preferAll (preferred : List TierBreakpoint) :
    ∀ {best : Dict DpKey TierBreakpoint}, (preferred.foldl prefer best).get? k = some r →
      ((best.get? k = some r ∧ ∀ p ∈ preferred, p.dp = k → p.endPos < r.endPos) ∨
        (r ∈ preferred ∧ r.dp = k)) ∧
      (∀ b, best.get? k = some b → b.endPos ≤ r.endPos) ∧
      ∀ p ∈ preferred, p.dp = k → p.endPos ≤ r.endPos := by
  induction preferred with
  | nil =>
    intro best h
    refine ⟨Or.inl ⟨h, by simp⟩, fun b hb => ?_, by simp⟩
    have hr : best.get? k = some r := h
    rw [hr] at hb
    cases hb
    exact Nat.le_refl _
  | cons b preferred ih =>
    intro best h
    obtain ⟨hfrom, hbest, hall⟩ := ih h
    rw [get?_prefer] at hfrom hbest
    by_cases hk : b.dp = k
    · rw [if_pos hk] at hfrom hbest
      -- what `b` leaves to its DP ends at `b` or beyond
      obtain ⟨hb, hold⟩ := le_fartherBreak (best.get? k) b
      have hr := hbest _ rfl
      refine ⟨?_, fun b' hb' => Nat.le_trans (hold b' hb') hr, ?_⟩
      · rcases hfrom with ⟨hfrom, hless⟩ | ⟨hmem, hdp⟩
        · rcases fartherBreak_from (best.get? k) b with ⟨heq, hlt⟩ | heq
          · refine Or.inl ⟨heq.trans hfrom, fun p hp hpk => ?_⟩
            rcases List.mem_cons.mp hp with rfl | hp
            · exact Option.some.inj hfrom ▸ hlt
            · exact hless p hp hpk
          · rw [heq] at hfrom
            cases hfrom
            exact Or.inr ⟨List.mem_cons_self, hk⟩
        · exact Or.inr ⟨List.mem_cons_of_mem b hmem, hdp⟩
      · intro p hp hpk
        rcases List.mem_cons.mp hp with rfl | hp
        · exact Nat.le_trans hb hr
        · exact hall p hp hpk
    · rw [if_neg hk] at hfrom hbest
      refine ⟨?_, hbest, ?_⟩
      · rcases hfrom with ⟨hfrom, hless⟩ | ⟨hmem, hdp⟩
        · refine Or.inl ⟨hfrom, fun p hp hpk => ?_⟩
          rcases List.mem_cons.mp hp with rfl | hp
          · exact absurd hpk hk
          · exact hless p hp hpk
        · exact Or.inr ⟨List.mem_cons_of_mem b hmem, hdp⟩
      · intro p hp hpk
        rcases List.mem_cons.mp hp with rfl | hp
        · exact absurd hpk hk
        · exact hall p hp hpk

/-! ## The result -/

theorem mergedBest_from (h : (mergedBest fallback preferred).get? k = some r) :
    r ∈ fallback ++ preferred ∧ r.dp = k := by
  rcases (get?_preferAll preferred h).1 with ⟨hfrom, -⟩ | ⟨hmem, hdp⟩
  · obtain ⟨hmem, hdp⟩ := get?_fallbackBest hfrom
    exact ⟨List.mem_append_left _ hmem, hdp⟩
  · exact ⟨List.mem_append_right _ hmem, hdp⟩

theorem mem_merged {σ : HashOrder TierBreakpoint} :
    b ∈ mergeTierBreakpoints σ fallback preferred ↔
      (mergedBest fallback preferred).get? b.dp = some b := by
  rw [mergeTierBreakpoints_eq, HashOrder.mem_iter, Dict.mem_values_iff]
  constructor
  · rintro ⟨k, hk⟩
    rwa [(mergedBest_from hk).2]
  · intro h
    exact ⟨_, h⟩

theorem merged_dps (σ : HashOrder TierBreakpoint) (fallback preferred : List TierBreakpoint) :
    ((mergeTierBreakpoints σ fallback preferred).map (·.dp)).Nodup ∧
      ∀ k, k ∈ (mergeTierBreakpoints σ fallback preferred).map (·.dp) ↔
        k ∈ (fallback ++ preferred).map (·.dp) := by
  have hkeys : (mergedBest fallback preferred).values.map (·.dp) =
      (mergedBest fallback preferred).keys := by
    rw [Dict.values, Dict.keys, List.map_map]
    refine List.map_congr_left (fun p hp => ?_)
    exact (mergedBest_from (Dict.mem_entries_iff.mp hp)).2
  have hperm := ((σ.perm 0 (mergedBest fallback preferred).values).map (·.dp)).trans
    (List.Perm.of_eq hkeys)
  rw [mergeTierBreakpoints_eq]
  refine ⟨hperm.nodup_iff.mpr (mergedBest fallback preferred).nodup, fun k => ?_⟩
  rw [hperm.mem_iff, Dict.mem_keys_iff, ← Dict.contains_iff, mergedBest, contains_preferAll,
    contains_fallbackBest, List.map_append, List.mem_append]

theorem exists_merged (σ : HashOrder TierBreakpoint) (h : b ∈ fallback ++ preferred) :
    ∃ r ∈ mergeTierBreakpoints σ fallback preferred, r.dp = b.dp := by
  have := ((merged_dps σ fallback preferred).2 b.dp).mpr (List.mem_map_of_mem h)
  exact List.mem_map.mp this

/-- Whenever two fallback breakpoints of a DP end at different positions, a preferred one of the DP
ends as far as the farther of them. -/
def Overtaken (fallback preferred : List TierBreakpoint) : Prop :=
  ∀ b₁ ∈ fallback, ∀ b₂ ∈ fallback, b₁.dp = b₂.dp → b₁.endPos < b₂.endPos →
    ∃ p ∈ preferred, p.dp = b₂.dp ∧ b₂.endPos ≤ p.endPos

/-- What the merge is for: one breakpoint for every DP that occurs, the farthest in both lists, and
the order of the lists does not matter to how far it is. -/
structure KeepsFarthest (σ : HashOrder TierBreakpoint) (fallback preferred : List TierBreakpoint) :
    Prop where
  one : ((mergeTierBreakpoints σ fallback preferred).map (·.dp)).Nodup
  dps : ∀ k, k ∈ (mergeTierBreakpoints σ fallback preferred).map (·.dp) ↔
    k ∈ (fallback ++ preferred).map (·.dp)
  farthest : ∀ r ∈ mergeTierBreakpoints σ fallback preferred,
    IsGreatest {n | ∃ b ∈ fallback ++ preferred, b.dp = r.dp ∧ b.endPos = n} r.endPos
  unordered : ∀ fallback' preferred' σ', fallback'.Perm fallback → preferred'.Perm preferred →
    ∀ r ∈ mergeTierBreakpoints σ fallback preferred,
      ∀ r' ∈ mergeTierBreakpoints σ' fallback' preferred', r'.dp = r.dp → r'.endPos = r.endPos

theorem Overtaken.greatest (h : Overtaken fallback preferred) {σ : HashOrder TierBreakpoint}
    (hr : r ∈ mergeTierBreakpoints σ fallback preferred) :
    IsGreatest {n | ∃ b ∈ fallback ++ preferred, b.dp = r.dp ∧ b.endPos = n} r.endPos := by
  have hget := mem_merged.mp hr
  obtain ⟨-, hbest, hall⟩ := get?_preferAll preferred hget
  refine ⟨⟨r, (mergedBest_from hget).1, rfl, rfl⟩, ?_⟩
  rintro n ⟨b, hb, hdp, rfl⟩
  rcases List.mem_append.mp hb with hb | hb
  · -- the fallback breakpoint that stayed, and what makes up for it
    obtain ⟨f, hf⟩ := Dict.contains_iff.mp (contains_fallbackBest.mpr (List.mem_map_of_mem hb))
    obtain ⟨hfmem, hfdp⟩ := get?_fallbackBest hf
    have hle : f.endPos ≤ r.endPos := hbest f (by rw [← hdp]; exact hf)
    by_cases hlt : f.endPos < b.endPos
    · obtain ⟨p, hp, hpdp, hpend⟩ := h f hfmem b hb hfdp hlt
      exact Nat.le_trans hpend (hall p hp (hpdp.trans hdp))
    · omega
  · exact hall b hb hdp

theorem Overtaken.of_perm {fallback' preferred' : List TierBreakpoint}
    (h : Overtaken fallback preferred) (hf : fallback'.Perm fallback)
    (hp : preferred'.Perm preferred) : Overtaken fallback' preferred' := by
  intro b₁ h₁ b₂ h₂ hdp hlt
  obtain ⟨p, hmem, hrest⟩ := h b₁ (hf.mem_iff.mp h₁) b₂ (hf.mem_iff.mp h₂) hdp hlt
  exact ⟨p, hp.mem_iff.mpr hmem, hrest⟩

/-- **The farthest breakpoint is kept exactly if the preferred ones overtake the fallback ones where
these differ.** -/
theorem keepsFarthest_iff_overtaken (σ : HashOrder TierBreakpoint)
    (fallback preferred : List TierBreakpoint) :
    KeepsFarthest σ fallback preferred ↔ Overtaken fallback preferred := by
  constructor
  · intro h b₁ h₁ b₂ h₂ hdp hlt
    by_contra hnone
    -- the same lists, with the nearer breakpoint last
    have hperm : (fallback.erase b₁ ++ [b₁]).Perm fallback :=
      (List.perm_append_singleton _ _).trans (List.perm_cons_erase h₁).symm
    obtain ⟨r, hr, hrdp⟩ := exists_merged σ (List.mem_append_left preferred h₂)
    obtain ⟨r', hr', hrdp'⟩ := exists_merged σ (List.mem_append_left preferred
      (hperm.mem_iff.mpr h₁))
    have hfar : b₂.endPos ≤ r.endPos :=
      (h.farthest r hr).2 ⟨b₂, List.mem_append_left _ h₂, hrdp.symm, rfl⟩
    have hsame : r'.endPos = r.endPos :=
      h.unordered _ preferred σ hperm (List.Perm.refl _) r hr r' hr' (by rw [hrdp', hrdp, hdp])
    rcases (get?_preferAll preferred (mem_merged.mp hr')).1 with ⟨hfrom, -⟩ | ⟨hmem, -⟩
    · rw [hrdp', get?_fallbackBest_snoc] at hfrom
      cases hfrom
      omega
    · exact hnone ⟨r', hmem, hrdp'.trans hdp, by omega⟩
  · intro h
    refine ⟨(merged_dps σ fallback preferred).1, (merged_dps σ fallback preferred).2,
      fun r hr => h.greatest hr, ?_⟩
    intro fallback' preferred' σ' hf hp r hr r' hr' hdp
    have hgreat := (h.of_perm hf hp).greatest hr'
    have hset : ∀ b, b ∈ fallback' ++ preferred' ↔ b ∈ fallback ++ preferred :=
      fun b => (hf.append hp).mem_iff
    simp only [hset, hdp] at hgreat
    exact hgreat.unique (h.greatest hr)

/-- Two workers of a DP matched two blocks and one block: the shorter match, met last, stays. -/
theorem shorter_breakpoint_stays :
    mergeTierBreakpoints .insertion [⟨"a", 0, 2, 102⟩, ⟨"a", 0, 1, 101⟩] [] = [⟨"a", 0, 1, 101⟩] ∧
      ¬ KeepsFarthest .insertion [⟨"a", 0, 2, 102⟩, ⟨"a", 0, 1, 101⟩] [] := by
  have hres : mergeTierBreakpoints .insertion [⟨"a", 0, 2, 102⟩, ⟨"a", 0, 1, 101⟩] [] =
      [⟨"a", 0, 1, 101⟩] := by decide
  refine ⟨hres, fun h => ?_⟩
  have hmem : (⟨"a", 0, 1, 101⟩ : TierBreakpoint) ∈
      mergeTierBreakpoints .insertion [⟨"a", 0, 2, 102⟩, ⟨"a", 0, 1, 101⟩] [] := by
    rw [hres]
    exact List.mem_singleton_self _
  have hle : 2 ≤ 1 := (h.farthest _ hmem).2 ⟨⟨"a", 0, 2, 102⟩, by decide, by decide, rfl⟩
  omega

end PyMotor.Conductor
