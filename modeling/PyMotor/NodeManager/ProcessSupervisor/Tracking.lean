import PyMotor.NodeManager.ProcessSupervisor
import PyMotor.Lib.Always

/-!
# No engine process gets lost

Whatever the order in which calls of `start`, `state`, `dead_pids`, `stop` and `stop_all` take their turns, a
process that lives and that nobody set about stopping is the one in the table for its endpoint, so an endpoint never
has two of them; `dead_pids` reports exactly the dead that nobody set about stopping, and each of them once; a state
of stopping is not overwritten; and a process that the table has forgotten was reported, stopped, or found dead by a
later start (`no_process_gets_lost`). One that was stopped may still live if the system did not let SIGKILL through:
the error is logged, and the table forgets the process all the same.
-/

namespace PyMotor.NodeManager

namespace ProcessSupervisor

variable {C : Type} {s s' t : ProcessSupervisor C} {p q : ProcId} {r r' : RuntimeProcess C}

/-- The table has this record. -/
def InTable (s : ProcessSupervisor C) (p : ProcId) (r : RuntimeProcess C) : Prop :=
  s.processes.get? r.endpointId = some p

/-- It has exited, or SIGKILL was sent or could not be sent. -/
def Down (r : RuntimeProcess C) : Prop := r.exited = true ∨ r.killed = true ∨ r.killFailed = true

/-- **What holds of the table and the records.** -/
structure Tracked (s : ProcessSupervisor C) : Prop where
  owner : ∀ e p, s.processes.get? e = some p → ∃ r, s.runtimes.get? p = some r ∧ r.endpointId = e
  gone : ∀ p r, s.runtimes.get? p = some r →
    s.InTable p r ∨ r.exited = true ∧ (p ∈ s.reported ∨ p ∈ s.replaced) ∨ p ∈ s.asked ∧ Down r
  nodup : s.reported.Nodup
  reported : ∀ p ∈ s.reported, ∃ r, s.runtimes.get? p = some r ∧ r.exited = true ∧ ¬s.InTable p r ∧ p ∉ s.asked
  asked : ∀ p ∈ s.asked, ∃ r, s.runtimes.get? p = some r ∧ (s.InTable p r → r.state = .stopping)

/-- Records stay, what has happened to a process has happened, and the table does not take one back. -/
structure Grows (s t : ProcessSupervisor C) : Prop where
  asked : ∀ p ∈ s.asked, p ∈ t.asked
  runtimes : ∀ p r, s.runtimes.get? p = some r →
    ∃ r', t.runtimes.get? p = some r' ∧ r'.endpointId = r.endpointId ∧ (Down r → Down r')
  inTable : ∀ p r, s.runtimes.get? p = some r → t.InTable p r → s.InTable p r

/-- The process is down, as far as anyone can tell. -/
def IsDown (s : ProcessSupervisor C) (p : ProcId) : Prop := ∃ r, s.runtimes.get? p = some r ∧ Down r

/-- The process is down and the table has forgotten it. -/
def IsGone (s : ProcessSupervisor C) (p : ProcId) : Prop :=
  ∃ r, s.runtimes.get? p = some r ∧ Down r ∧ ¬s.InTable p r

/-- A call that stops processes got hold of them before, and goes on when they are down. What is returned is gone. -/
def CallOk (s : ProcessSupervisor C) : SupervisorCall → Prop
  | .signalling _ procs => ∀ p ∈ procs, p ∈ s.asked
  | .waiting rest procs => ∀ p ∈ procs, p ∈ s.asked ∧ (p ∈ rest ∨ s.IsDown p)
  | .removing procs => ∀ p ∈ procs, p ∈ s.asked ∧ s.IsDown p
  | .killing _ dead => ∀ p ∈ dead, s.IsGone p
  | .returned procs => ∀ p ∈ procs, s.IsGone p
  | _ => True

/-- The invariant. -/
structure Inv (s : ProcessSupervisor C) : Prop where
  tracked : s.Tracked
  calls : ∀ k c, s.calls.get? k = some c → s.CallOk c

theorem inv_new : (new : ProcessSupervisor C).Inv where
  tracked :=
    { owner := fun _ _ h => by cases h
      gone := fun _ _ h => by cases h
      nodup := List.nodup_nil
      reported := fun _ h => by cases h
      asked := fun _ h => by cases h }
  calls _ _ h := by cases h

/-! ## Growth -/

theorem Grows.refl (s : ProcessSupervisor C) : s.Grows s :=
  ⟨fun _ h => h, fun _ r h => ⟨r, h, rfl, fun h => h⟩, fun _ _ _ h => h⟩

theorem Grows.trans {u : ProcessSupervisor C} (h : s.Grows t) (h' : t.Grows u) : s.Grows u where
  asked p hp := h'.asked p (h.asked p hp)
  runtimes p r hr := by
    obtain ⟨r₁, hr₁, he₁, hd₁⟩ := h.runtimes p r hr
    obtain ⟨r₂, hr₂, he₂, hd₂⟩ := h'.runtimes p r₁ hr₁
    exact ⟨r₂, hr₂, he₂.trans he₁, fun hd => hd₂ (hd₁ hd)⟩
  inTable p r hr hin := by
    obtain ⟨r₁, hr₁, he₁, -⟩ := h.runtimes p r hr
    rw [InTable, ← he₁] at hin
    have hin₁ := h'.inTable p r₁ hr₁ hin
    rw [InTable, he₁] at hin₁
    exact h.inTable p r hr hin₁

theorem IsDown.grows (h : s.IsDown p) (hgrows : s.Grows t) : t.IsDown p := by
  obtain ⟨r, hr, hd⟩ := h
  obtain ⟨r', hr', -, hd'⟩ := hgrows.runtimes p r hr
  exact ⟨r', hr', hd' hd⟩

theorem IsGone.grows (h : s.IsGone p) (hgrows : s.Grows t) : t.IsGone p := by
  obtain ⟨r, hr, hd, hout⟩ := h
  obtain ⟨r', hr', he, hd'⟩ := hgrows.runtimes p r hr
  refine ⟨r', hr', hd' hd, fun hin => hout (hgrows.inTable p r hr ?_)⟩
  rw [InTable, ← he]
  exact hin

theorem CallOk.grows {c : SupervisorCall} (h : s.CallOk c) (hgrows : s.Grows t) : t.CallOk c := by
  cases c with
  | signalling rest procs => exact fun p hp => hgrows.asked p (h p hp)
  | waiting rest procs => exact fun p hp => ⟨hgrows.asked p (h p hp).1, (h p hp).2.imp_right (·.grows hgrows)⟩
  | removing procs => exact fun p hp => ⟨hgrows.asked p (h p hp).1, (h p hp).2.grows hgrows⟩
  | killing rest dead => exact fun p hp => (h p hp).grows hgrows
  | returned procs => exact fun p hp => (h p hp).grows hgrows
  | probing _ _ => trivial
  | committing _ _ _ _ => trivial
  | reading _ _ => trivial
  | answered _ => trivial

/-- After a step of a call: the table and the records are in order, and the call is. -/
theorem Inv.step (h : s.Inv) (hgrows : s.Grows t) (hcalls : t.calls = s.calls) (htracked : t.Tracked) (call : ℕ)
    {c : SupervisorCall} (hc : t.CallOk c) : (t.setCall call c).Inv where
  tracked := ⟨htracked.owner, htracked.gone, htracked.nodup, htracked.reported, htracked.asked⟩
  calls k c' hk := by
    change t.CallOk c'
    change (t.calls.insert call c).get? k = some c' at hk
    rw [Dict.get?_insert] at hk
    split at hk
    · cases hk
      exact hc
    · rw [hcalls] at hk
      exact (h.calls k c' hk).grows hgrows

theorem Inv.setCall (h : s.Inv) (call : ℕ) {c : SupervisorCall} (hc : s.CallOk c) : (s.setCall call c).Inv :=
  h.step (.refl s) rfl h.tracked call hc

/-! ## Records -/

theorem get?_setRuntime (s : ProcessSupervisor C) (p : ProcId) (r : RuntimeProcess C) (q : ProcId) :
    (s.setRuntime p r).runtimes.get? q = if p = q then some r else s.runtimes.get? q :=
  Dict.get?_insert ..

theorem Grows.setRuntime (r' : RuntimeProcess C) (hr : s.runtimes.get? p = some r) (he : r'.endpointId = r.endpointId)
    (hd : Down r → Down r') : s.Grows (s.setRuntime p r') where
  asked _ h := h
  runtimes q r₀ hq := by
    rw [get?_setRuntime]
    split
    · next heq =>
      subst heq
      cases hr.symm.trans hq
      exact ⟨r', rfl, he, hd⟩
    · exact ⟨r₀, hq, rfl, fun h => h⟩
  inTable _ _ _ hin := hin

/-- **A record changes**: it keeps its endpoint, a process that is down stays so, and stopping is not taken back. -/
theorem Tracked.setRuntime (h : s.Tracked) (r' : RuntimeProcess C) (hr : s.runtimes.get? p = some r) (he : r'.endpointId = r.endpointId)
    (hd : Down r → Down r') (hexited : r.exited = true → r'.exited = true)
    (hstate : s.InTable p r → r.state = .stopping → r'.state = .stopping) : (s.setRuntime p r').Tracked := by
  have htable : ∀ {q : ProcId} {r₀ : RuntimeProcess C}, (s.setRuntime p r').InTable q r₀ ↔ s.InTable q r₀ := Iff.rfl
  have hself : s.InTable p r' ↔ s.InTable p r := by rw [InTable, InTable, he]
  refine ⟨fun e q hq => ?_, fun q r₀ hq => ?_, h.nodup, fun q hq => ?_, fun q hq => ?_⟩
  · obtain ⟨r₀, hr₀, he₀⟩ := h.owner e q hq
    obtain ⟨r₁, hr₁, he₁, -⟩ := (Grows.setRuntime r' hr he hd).runtimes q r₀ hr₀
    exact ⟨r₁, hr₁, he₁.trans he₀⟩
  · rw [get?_setRuntime] at hq
    split at hq
    · next heq =>
      subst heq
      cases hq
      rcases h.gone p r hr with hin | ⟨hx, hwhy⟩ | ⟨hasked, hdown⟩
      · exact Or.inl (hself.mpr hin)
      · exact Or.inr (Or.inl ⟨hexited hx, hwhy⟩)
      · exact Or.inr (Or.inr ⟨hasked, hd hdown⟩)
    · exact h.gone q r₀ hq
  · obtain ⟨r₀, hr₀, hx, hout, hnot⟩ := h.reported q hq
    rw [get?_setRuntime]
    split
    · next heq =>
      subst heq
      cases hr.symm.trans hr₀
      exact ⟨r', rfl, hexited hx, fun hin => hout (hself.mp hin), hnot⟩
    · exact ⟨r₀, hr₀, hx, hout, hnot⟩
  · obtain ⟨r₀, hr₀, hs₀⟩ := h.asked q hq
    rw [get?_setRuntime]
    split
    · next heq =>
      subst heq
      cases hr.symm.trans hr₀
      exact ⟨r', rfl, fun hin => hstate (hself.mp hin) (hs₀ (hself.mp hin))⟩
    · exact ⟨r₀, hr₀, hs₀⟩

theorem Inv.setRuntime (h : s.Inv) (r' : RuntimeProcess C) (hr : s.runtimes.get? p = some r) (he : r'.endpointId = r.endpointId)
    (hd : Down r → Down r') (hexited : r.exited = true → r'.exited = true)
    (hstate : s.InTable p r → r.state = .stopping → r'.state = .stopping) : (s.setRuntime p r').Inv :=
  ⟨h.tracked.setRuntime r' hr he hd hexited hstate,
    fun k c hk => (h.calls k c hk).grows (Grows.setRuntime r' hr he hd)⟩

theorem InTable.unique (hp : s.InTable p r) (hq : s.InTable q r') (he : r'.endpointId = r.endpointId) : p = q := by
  rw [InTable, he] at hq
  exact Option.some.inj (hp.symm.trans hq)

/-! ## The table -/

/-- **The table lets go of a process** that is down, for one of the three reasons. It is reported only if it has
exited and nobody set about stopping it. -/
theorem Tracked.forget (h : s.Tracked) (hr : s.runtimes.get? p = some r) (hin : s.InTable p r)
    {reported replaced : List ProcId}
    (hreported : reported = s.reported ∨ reported = s.reported ++ [p] ∧ r.exited = true ∧ r.state ≠ .stopping)
    (hreplaced : ∀ q ∈ s.replaced, q ∈ replaced)
    (hwhy : r.exited = true ∧ (p ∈ reported ∨ p ∈ replaced) ∨ p ∈ s.asked ∧ Down r) :
    ({ s.forget r.endpointId with reported := reported, replaced := replaced } : ProcessSupervisor C).Tracked := by
  have hmem : ∀ q, q ∈ s.reported → q ∈ reported := by
    intro q hq
    rcases hreported with rfl | ⟨rfl, -⟩
    · exact hq
    · exact List.mem_append_left _ hq
  -- the table loses the one entry, and no endpoint shares it
  have htable : ∀ {e q}, (s.processes.erase r.endpointId).get? e = some q ↔
      e ≠ r.endpointId ∧ s.processes.get? e = some q := by
    intro e q
    by_cases he : r.endpointId = e
    · simp [← he]
    · simp [Dict.get?_erase_ne _ he, Ne.symm he]
  refine ⟨fun e q hq => ?_, fun q r₀ hq => ?_, ?_, fun q hq => ?_, fun q hq => ?_⟩
  · exact h.owner e q (htable.mp hq).2
  · rcases h.gone q r₀ hq with hin₀ | ⟨hx₀, hwhy₀⟩ | hasked₀
    -- whoever leaves the table has one of the three reasons
    · by_cases he : r₀.endpointId = r.endpointId
      · cases hin.unique hin₀ he
        cases hr.symm.trans hq
        exact Or.inr hwhy
      · exact Or.inl (htable.mpr ⟨he, hin₀⟩)
    · exact Or.inr (Or.inl ⟨hx₀, hwhy₀.imp (hmem q) (hreplaced q)⟩)
    · exact Or.inr (Or.inr hasked₀)
  -- nobody is reported twice: a process that was reported is out of the table
  · rcases hreported with rfl | ⟨rfl, -⟩
    · exact h.nodup
    · refine h.nodup.append (List.nodup_singleton p) fun q hq hp => ?_
      cases List.mem_singleton.mp hp
      obtain ⟨r₀, hr₀, -, hout, -⟩ := h.reported p hq
      cases hr.symm.trans hr₀
      exact hout hin
  · have hold : q ∈ s.reported → ∃ r₀, s.runtimes.get? q = some r₀ ∧ r₀.exited = true ∧
        ¬(s.processes.erase r.endpointId).get? r₀.endpointId = some q ∧ q ∉ s.asked := by
      intro hq
      obtain ⟨r₀, hr₀, hx, hout, hnot⟩ := h.reported q hq
      exact ⟨r₀, hr₀, hx, fun hin => hout (htable.mp hin).2, hnot⟩
    rcases hreported with rfl | ⟨rfl, hx, hstate⟩
    · exact hold hq
    rcases List.mem_append.mp hq with hq | hq
    · exact hold hq
    · cases List.mem_singleton.mp hq
      refine ⟨r, hr, hx, fun hin => (htable.mp hin).1 rfl, fun hasked => ?_⟩
      obtain ⟨r₀, hr₀, hs₀⟩ := h.asked p hasked
      cases hr.symm.trans hr₀
      exact hstate (hs₀ hin)
  · obtain ⟨r₀, hr₀, hs₀⟩ := h.asked q hq
    exact ⟨r₀, hr₀, fun hin => hs₀ (htable.mp hin).2⟩

/-- A record in the place of one that the table has let go of. -/
theorem not_inTable_forget : ¬(s.forget r.endpointId).InTable p r := by
  rw [InTable, ProcessSupervisor.forget, Dict.get?_erase_self]
  exact Option.some_ne_none p ∘ Eq.symm

theorem inTable_of_forget {e : EndpointId} (h : (s.forget e).InTable q r') : s.InTable q r' := by
  by_cases he : e = r'.endpointId
  · rw [InTable, ProcessSupervisor.forget, he, Dict.get?_erase_self] at h
    cases h
  · rw [InTable, ProcessSupervisor.forget, Dict.get?_erase_ne _ he] at h
    exact h

theorem Tracked.reap (h : s.Tracked) {e : EndpointId} (he : s.processes.get? e = some p) :
    (s.reap (e, p)).Tracked ∧ s.Grows (s.reap (e, p)) := by
  obtain ⟨r, hr, rfl⟩ := h.owner e p he
  simp only [ProcessSupervisor.reap, hr]
  split
  · exact ⟨h, .refl s⟩
  · next hdead =>
    rw [not_or, Bool.not_eq_false] at hdead
    have hforgot := h.forget hr he (Or.inr ⟨rfl, hdead.2, hdead.1⟩) (fun _ hq => hq)
      (Or.inl ⟨hdead.2, Or.inl (List.mem_append_right _ (List.mem_singleton_self p))⟩)
    have hgrows := Grows.setRuntime { r with state := .stopped } hr rfl fun hd => hd
    exact ⟨hforgot.setRuntime { r with state := .stopped } hr rfl (fun hd => hd) (fun hx => hx)
      (fun hin => absurd hin not_inTable_forget), hgrows.asked, hgrows.runtimes,
      fun _ _ _ hin => inTable_of_forget hin⟩

theorem Tracked.removeOne (h : s.Tracked) (hr : s.runtimes.get? p = some r) (hdown : Down r)
    (hasked : p ∈ s.asked) :
    (s.removeOne p).Tracked ∧ s.Grows (s.removeOne p) ∧ (s.removeOne p).IsGone p := by
  simp only [ProcessSupervisor.removeOne, hr]
  split
  · next hin =>
    have hforgot := h.forget hr hin (Or.inl rfl) (fun _ hq => hq) (Or.inr ⟨hasked, hdown⟩)
    have hgrows := Grows.setRuntime { r with state := .stopped } hr rfl fun hd => hd
    refine ⟨hforgot.setRuntime { r with state := .stopped } hr rfl (fun hd => hd) (fun hx => hx)
      (fun hin => absurd hin not_inTable_forget), ⟨hgrows.asked, hgrows.runtimes,
      fun _ _ _ hin => inTable_of_forget hin⟩, { r with state := .stopped }, ?_, hdown, not_inTable_forget⟩
    exact Dict.get?_insert_self ..
  · next hout => exact ⟨h, .refl s, r, hr, hdown, hout⟩

theorem Tracked.ask (h : s.Tracked) {e : EndpointId} (he : s.processes.get? e = some p) :
    (s.ask p).Tracked ∧ s.Grows (s.ask p) := by
  obtain ⟨r, hr, rfl⟩ := h.owner e p he
  have hupdate : s.update p (fun runtime => { runtime with state := .stopping }) =
      s.setRuntime p { r with state := .stopping } := by
    rw [update, hr]
  have hset := h.setRuntime { r with state := .stopping } hr rfl (fun hd => hd) (fun hx => hx) fun _ _ => rfl
  have hgrows : s.Grows (s.setRuntime p { r with state := .stopping }) := .setRuntime _ hr rfl fun hd => hd
  rw [ProcessSupervisor.ask, hupdate]
  refine ⟨⟨hset.owner, fun q r₀ hq => ?_, hset.nodup, fun q hq => ?_, fun q hq => ?_⟩,
    ⟨fun q hq => List.mem_cons_of_mem _ hq, hgrows.runtimes, hgrows.inTable⟩⟩
  · exact (hset.gone q r₀ hq).imp_right (Or.imp_right (And.imp_left (List.mem_cons_of_mem _)))
  · obtain ⟨r₀, hr₀, hx, hout, hnot⟩ := hset.reported q hq
    refine ⟨r₀, hr₀, hx, hout, fun hmem => ?_⟩
    rcases List.mem_cons.mp hmem with rfl | hmem
    · -- what is in the table was not reported
      obtain ⟨r₁, hr₁, -, hout₁, -⟩ := h.reported q hq
      cases hr.symm.trans hr₁
      exact hout₁ he
    · exact hnot hmem
  · rcases List.mem_cons.mp hq with rfl | hq
    · exact ⟨_, by rw [get?_setRuntime, if_pos rfl], fun _ => rfl⟩
    · exact hset.asked q hq

/-- **A new process** takes a free place. -/
theorem Tracked.launch (h : s.Tracked) (hnew : s.runtimes.get? p = none) {e : EndpointId}
    (hfree : s.processes.get? e = none) (command : C) (probe : ProbeSpec) (now : ℚ) (exitsAtOnce : Bool) :
    (s.launch e command probe p now exitsAtOnce).Tracked ∧ s.Grows (s.launch e command probe p now exitsAtOnce) := by
  unfold ProcessSupervisor.launch
  split
  · exact ⟨h, .refl s⟩
  set r : RuntimeProcess C := ⟨e, command, probe, now, .starting, none, false, false, false, false⟩ with hr
  have hold : ∀ {q : ProcId} {r₀ : RuntimeProcess C}, s.runtimes.get? q = some r₀ →
      (s.setRuntime p r).runtimes.get? q = some r₀ := by
    intro q r₀ hq
    rw [get?_setRuntime, if_neg, hq]
    rintro rfl
    rw [hnew] at hq
    cases hq
  have htable : ∀ {e' : EndpointId} {q : ProcId}, s.processes.get? e' = some q →
      (s.processes.insert e p).get? e' = some q := by
    intro e' q hq
    rw [Dict.get?_insert_ne, hq]
    rintro rfl
    rw [hfree] at hq
    cases hq
  -- an older process that is in the table now was in it before
  have hback : ∀ {q : ProcId} {r₀ : RuntimeProcess C}, s.runtimes.get? q = some r₀ →
      (s.processes.insert e p).get? r₀.endpointId = some q → s.InTable q r₀ := by
    intro q r₀ hq hin
    rw [Dict.get?_insert] at hin
    split at hin
    · cases hin
      rw [hnew] at hq
      cases hq
    · exact hin
  refine ⟨⟨fun e' q hq => ?_, fun q r₀ hq => ?_, h.nodup, fun q hq => ?_, fun q hq => ?_⟩,
    ⟨fun _ hq => hq, fun q r₀ hq => ⟨r₀, hold hq, rfl, fun hd => hd⟩, fun _ _ hq hin => hback hq hin⟩⟩
  · change (s.processes.insert e p).get? e' = some q at hq
    rw [Dict.get?_insert] at hq
    split at hq
    · next heq =>
      cases hq
      exact ⟨r, by rw [get?_setRuntime, if_pos rfl], heq⟩
    · obtain ⟨r₀, hr₀, he₀⟩ := h.owner e' q hq
      exact ⟨r₀, hold hr₀, he₀⟩
  · change (s.setRuntime p r).runtimes.get? q = some r₀ at hq
    rw [get?_setRuntime] at hq
    split at hq
    · next heq =>
      subst heq
      cases hq
      exact Or.inl (Dict.get?_insert_self ..)
    · exact (h.gone q r₀ hq).imp_left htable
  · obtain ⟨r₀, hr₀, hx, hout, hnot⟩ := h.reported q hq
    exact ⟨r₀, hold hr₀, hx, fun hin => hout (hback hr₀ hin), hnot⟩
  · obtain ⟨r₀, hr₀, hs₀⟩ := h.asked q hq
    exact ⟨r₀, hold hr₀, fun hin => hs₀ (hback hr₀ hin)⟩

/-! ## Loops -/

/-- The loop of `dead_pids` goes through the table as it was: what it has yet to look at is there still. -/
theorem Tracked.reapAll {entries : List (EndpointId × ProcId)} (hnodup : (entries.map Prod.fst).Nodup)
    (h : s.Tracked) (hin : ∀ x ∈ entries, s.processes.get? x.1 = some x.2) :
    (entries.foldl ProcessSupervisor.reap s).Tracked ∧ s.Grows (entries.foldl ProcessSupervisor.reap s) := by
  induction entries generalizing s with
  | nil => exact ⟨h, .refl s⟩
  | cons x entries ih =>
    obtain ⟨hx, hnodup⟩ := List.nodup_cons.mp hnodup
    obtain ⟨hreap, hgrows⟩ := h.reap (hin x List.mem_cons_self)
    have hrest : ∀ y ∈ entries, (s.reap x).processes.get? y.1 = some y.2 := by
      intro y hy
      have hne : x.1 ≠ y.1 := fun heq => hx (heq ▸ List.mem_map_of_mem hy)
      rw [← hin y (List.mem_cons_of_mem _ hy)]
      unfold ProcessSupervisor.reap
      split
      · rfl
      · split
        · rfl
        · exact Dict.get?_erase_ne _ hne
    obtain ⟨hall, hgrows'⟩ := ih hnodup hreap hrest
    exact ⟨hall, hgrows.trans hgrows'⟩

/-- The process has exited, and nobody is stopping it. -/
def isDead (s : ProcessSupervisor C) (p : ProcId) : Bool :=
  (s.runtimes.get? p).any fun r => r.exited && decide (r.state ≠ .stopping)

theorem reported_reap (s : ProcessSupervisor C) (x : EndpointId × ProcId) :
    (s.reap x).reported = s.reported ++ if s.isDead x.2 then [x.2] else [] := by
  cases hr : s.runtimes.get? x.2 with
  | none => simp [ProcessSupervisor.reap, isDead, hr]
  | some r =>
    by_cases hstate : r.state = .stopping
    · simp [ProcessSupervisor.reap, isDead, hr, hstate]
    · cases hx : r.exited <;> simp [ProcessSupervisor.reap, isDead, hr, hstate, hx]

theorem isDead_reap {x : EndpointId × ProcId} (hne : x.2 ≠ q) : (s.reap x).isDead q = s.isDead q := by
  unfold ProcessSupervisor.reap
  split
  · rfl
  · split
    · rfl
    · exact congrArg (Option.any _) (Dict.get?_insert_ne _ _ hne)

theorem reported_reapAll {entries : List (EndpointId × ProcId)} (hnodup : (entries.map Prod.snd).Nodup)
    (s : ProcessSupervisor C) : (entries.foldl ProcessSupervisor.reap s).reported =
      s.reported ++ (entries.map Prod.snd).filter s.isDead := by
  induction entries generalizing s with
  | nil => simp
  | cons x entries ih =>
    obtain ⟨hx, hnodup⟩ := List.nodup_cons.mp hnodup
    have hrest : (entries.map Prod.snd).filter (s.reap x).isDead =
        (entries.map Prod.snd).filter s.isDead :=
      List.filter_congr fun q hq => isDead_reap fun heq => hx (heq ▸ hq)
    rw [List.foldl_cons, ih hnodup, reported_reap, hrest, List.map_cons, List.filter_cons, List.append_assoc]
    split <;> rfl

/-- **`dead_pids` reports the dead.** -/
theorem Tracked.deadPids (h : s.Tracked) (call : ℕ) : ∃ dead,
    (s.deadPids call).calls.get? call = some (.killing dead dead) ∧
    (s.deadPids call).reported = s.reported ++ dead ∧ ∀ p, p ∈ dead ↔ ∃ r, s.runtimes.get? p = some r ∧
      s.processes.get? r.endpointId = some p ∧ r.exited = true ∧ r.state ≠ .stopping := by
  have hnodup : (s.processes.entries.map Prod.snd).Nodup := by
    refine List.Nodup.map_on (fun x hx y hy heq => ?_) (.of_map _ s.processes.nodup)
    obtain ⟨r, hr, he⟩ := h.owner x.1 x.2 (Dict.mem_entries_iff.mp hx)
    obtain ⟨r', hr', he'⟩ := h.owner y.1 y.2 (Dict.mem_entries_iff.mp hy)
    rw [← heq, hr] at hr'
    cases hr'
    exact Prod.ext (he.symm.trans he') heq
  have hreported := reported_reapAll hnodup s
  refine ⟨(s.processes.entries.map Prod.snd).filter s.isDead, ?_, hreported, fun p => ?_⟩
  · simp only [ProcessSupervisor.deadPids, hreported, List.drop_left, ProcessSupervisor.setCall,
      Dict.get?_insert_self]
  · rw [List.mem_filter]
    constructor
    · rintro ⟨hmem, hdead⟩
      obtain ⟨⟨e, p⟩, hentry, rfl⟩ := List.mem_map.mp hmem
      have he := Dict.mem_entries_iff.mp hentry
      obtain ⟨r, hr, rfl⟩ := h.owner e p he
      simp only [isDead, hr, Option.any_some, Bool.and_eq_true, decide_eq_true_eq] at hdead
      exact ⟨r, hr, he, hdead⟩
    · rintro ⟨r, hr, hin, hdead⟩
      refine ⟨List.mem_map.mpr ⟨(r.endpointId, p), Dict.mem_entries_iff.mpr hin, rfl⟩, ?_⟩
      simp only [isDead, hr, Option.any_some, Bool.and_eq_true, decide_eq_true_eq]
      exact hdead

theorem Tracked.askAll {procs : List ProcId} (h : s.Tracked)
    (hin : ∀ p ∈ procs, ∃ e, s.processes.get? e = some p) :
    (procs.foldl ProcessSupervisor.ask s).Tracked ∧ s.Grows (procs.foldl ProcessSupervisor.ask s) ∧
      ∀ p ∈ procs, p ∈ (procs.foldl ProcessSupervisor.ask s).asked := by
  induction procs generalizing s with
  | nil => exact ⟨h, .refl s, fun p hp => by cases hp⟩
  | cons p procs ih =>
    obtain ⟨e, he⟩ := hin p List.mem_cons_self
    obtain ⟨hask, hgrows⟩ := h.ask he
    have hprocesses : (s.ask p).processes = s.processes := by
      simp only [ProcessSupervisor.ask, update]
      split <;> rfl
    have hrest : ∀ q ∈ procs, ∃ e, (s.ask p).processes.get? e = some q := by
      intro q hq
      rw [hprocesses]
      exact hin q (List.mem_cons_of_mem _ hq)
    obtain ⟨hall, hgrows', hasked⟩ := ih hask hrest
    refine ⟨hall, hgrows.trans hgrows', fun q hq => ?_⟩
    rcases List.mem_cons.mp hq with rfl | hq
    · exact hgrows'.asked _ List.mem_cons_self
    · exact hasked q hq

theorem Tracked.removeAll {procs : List ProcId} (h : s.Tracked)
    (hdown : ∀ p ∈ procs, p ∈ s.asked ∧ s.IsDown p) :
    (procs.foldl ProcessSupervisor.removeOne s).Tracked ∧ s.Grows (procs.foldl ProcessSupervisor.removeOne s) ∧
      ∀ p ∈ procs, (procs.foldl ProcessSupervisor.removeOne s).IsGone p := by
  induction procs generalizing s with
  | nil => exact ⟨h, .refl s, fun p hp => by cases hp⟩
  | cons p procs ih =>
    obtain ⟨hasked, hp⟩ := hdown p List.mem_cons_self
    obtain ⟨r, hr, hd⟩ := hp
    obtain ⟨hremove, hgrows, hgone⟩ := h.removeOne hr hd hasked
    obtain ⟨hall, hgrows', hgone'⟩ := ih hremove fun q hq =>
      ⟨hgrows.asked q (hdown q (List.mem_cons_of_mem _ hq)).1, (hdown q (List.mem_cons_of_mem _ hq)).2.grows hgrows⟩
    refine ⟨hall, hgrows.trans hgrows', fun q hq => ?_⟩
    rcases List.mem_cons.mp hq with rfl | hq
    · exact hgone.grows hgrows'
    · exact hgone' q hq

/-! ## Operations -/

theorem calls_foldl {α : Type} {f : ProcessSupervisor C → α → ProcessSupervisor C}
    (hf : ∀ s a, (f s a).calls = s.calls) (l : List α) (s : ProcessSupervisor C) :
    (l.foldl f s).calls = s.calls := by
  induction l generalizing s with
  | nil => rfl
  | cons a l ih => rw [List.foldl_cons, ih, hf]

theorem calls_update (s : ProcessSupervisor C) (p : ProcId) (f : RuntimeProcess C → RuntimeProcess C) :
    (s.update p f).calls = s.calls := by
  unfold update
  split <;> rfl

theorem calls_ask (s : ProcessSupervisor C) (p : ProcId) : (s.ask p).calls = s.calls := calls_update ..

theorem calls_reap (s : ProcessSupervisor C) (x : EndpointId × ProcId) : (s.reap x).calls = s.calls := by
  unfold ProcessSupervisor.reap
  split
  · rfl
  · split <;> rfl

theorem calls_removeOne (s : ProcessSupervisor C) (p : ProcId) : (s.removeOne p).calls = s.calls := by
  unfold ProcessSupervisor.removeOne
  split
  · rfl
  · split <;> rfl

theorem of_fresh {call : ℕ} (h : s.fresh call t = some s') : s' = t := by
  unfold fresh at h
  split at h
  · exact (Option.some.inj h).symm
  · cases h

theorem Inv.update (h : s.Inv) (p : ProcId) {f : RuntimeProcess C → RuntimeProcess C}
    (he : ∀ r, (f r).endpointId = r.endpointId) (hd : ∀ r, Down r → Down (f r))
    (hexited : ∀ r, r.exited = true → (f r).exited = true)
    (hstate : ∀ r, r.state = .stopping → (f r).state = .stopping) :
    (s.update p f).Tracked ∧ s.Grows (s.update p f) := by
  unfold ProcessSupervisor.update
  split
  · next r hr =>
    exact ⟨h.tracked.setRuntime _ hr (he r) (hd r) (hexited r) fun _ => hstate r, .setRuntime _ hr (he r) (hd r)⟩
  · exact ⟨h.tracked, .refl s⟩

theorem Inv.start (h : s.Inv) (hnew : s.runtimes.get? p = none) (e : EndpointId) (command : C) (probe : ProbeSpec)
    (now : ℚ) (exitsAtOnce : Bool) : (s.start e command probe p now exitsAtOnce).Inv := by
  have hcalls : ∀ t : ProcessSupervisor C, (t.launch e command probe p now exitsAtOnce).calls = t.calls := by
    intro t
    unfold ProcessSupervisor.launch
    split <;> rfl
  have hmk : ∀ t : ProcessSupervisor C, t.Tracked → s.Grows t → t.calls = s.calls → t.Inv :=
    fun t ht hg hc => ⟨ht, fun k c hk => (h.calls k c (hc ▸ hk)).grows hg⟩
  unfold ProcessSupervisor.start
  split
  · next hnone =>
    have hfree : s.processes.get? e = none := by
      cases he : s.processes.get? e with
      | none => rfl
      | some q =>
        obtain ⟨r, hr, -⟩ := h.tracked.owner e q he
        simp [lookup, he, hr] at hnone
    obtain ⟨htracked, hgrows⟩ := h.tracked.launch hnew hfree command probe now exitsAtOnce
    exact hmk _ htracked hgrows (hcalls s)
  · next old r hsome =>
    obtain ⟨q, he, hr⟩ := Option.bind_eq_some_iff.mp hsome
    obtain ⟨r₀, hr, heq⟩ := Option.map_eq_some_iff.mp hr
    cases heq
    split
    · next hx =>
      obtain ⟨r', hr', rfl⟩ := h.tracked.owner e old he
      cases hr.symm.trans hr'
      have hforgot := h.tracked.forget hr he (Or.inl rfl)
        (fun _ hq => List.mem_cons_of_mem old hq) (Or.inl ⟨hx, Or.inr List.mem_cons_self⟩)
      obtain ⟨htracked, hgrows⟩ :=
        hforgot.launch hnew (Dict.get?_erase_self ..) command probe now exitsAtOnce
      exact hmk _ htracked ⟨hgrows.asked, hgrows.runtimes,
        fun q r hq hin => inTable_of_forget (hgrows.inTable q r hq hin)⟩ (hcalls _)
    · exact h

theorem callOk_inspected {endpoint : EndpointId} {answers : List ProbeAnswer} {now : ℚ} {c : SupervisorCall}
    (hc : inspected endpoint p r answers now = some c) : s.CallOk c := by
  unfold inspected at hc
  split at hc
  · cases hc
    trivial
  split at hc
  · cases hc
    trivial
  obtain ⟨succeeded, -, rfl⟩ := Option.map_eq_some_iff.mp hc
  split
  · trivial
  · split <;> trivial

/-- The group is killed, or it is known that it could not be. -/
theorem down_killGroup (r : RuntimeProcess C) (sent : Bool) : Down (r.killGroup sent) := by
  cases sent with
  | true => exact Or.inr (Or.inl rfl)
  | false => exact Or.inr (Or.inr rfl)

theorem Inv.killGroup (h : s.Inv) (p : ProcId) (sent : Bool) :
    (s.update p (·.killGroup sent)).Tracked ∧ s.Grows (s.update p (·.killGroup sent)) := by
  refine h.update p (fun r => ?_) (fun r _ => down_killGroup r sent) (fun r hx => ?_) fun r hs => ?_ <;>
    cases sent <;> first | rfl | assumption

/-- **After the wait the process is down**: it has exited, or it is killed now. -/
theorem Inv.waited (h : s.Inv) {call : ℕ} {rest procs : List ProcId}
    (hcall : s.calls.get? call = some (.waiting (p :: rest) procs)) (hr : s.runtimes.get? p = some r)
    {timedOut : Bool} (hover : (timedOut || r.exited) = true) (groupExists sent : Bool) :
    (s.waited call p rest procs timedOut groupExists sent).Inv := by
  -- whoever was down stays down, and the first of the rest comes to it
  have hok : ∀ t : ProcessSupervisor C, s.Grows t → t.IsDown p → t.CallOk (.waiting rest procs) := by
    intro t hgrows hdown q hq
    obtain ⟨hasked, hrest | hq⟩ := h.calls call _ hcall q hq
    · rcases List.mem_cons.mp hrest with rfl | hrest
      · exact ⟨hgrows.asked _ hasked, Or.inr hdown⟩
      · exact ⟨hgrows.asked q hasked, Or.inl hrest⟩
    · exact ⟨hgrows.asked q hasked, Or.inr (hq.grows hgrows)⟩
  unfold ProcessSupervisor.waited
  split
  · obtain ⟨htracked, hgrows⟩ := h.killGroup p sent
    refine h.step hgrows (calls_update ..) htracked call
      (hok _ hgrows ⟨r.killGroup sent, ?_, down_killGroup r sent⟩)
    rw [ProcessSupervisor.update, hr]
    exact Dict.get?_insert_self ..
  · next hleft =>
    have hexited : r.exited = true := by
      rw [Bool.or_eq_true] at hleft hover
      exact hover.resolve_left fun h => hleft (Or.inl h)
    exact h.setCall call (hok s (.refl s) ⟨r, hr, Or.inl hexited⟩)

/-- **One step keeps the invariant.** -/
theorem exec_inv {op : SupervisorOp C} (h : s.Inv) (hexec : s.exec op = some s') : s'.Inv := by
  cases op with
  | start endpoint command probe proc now exitsAtOnce =>
    simp only [exec] at hexec
    split at hexec
    · next hnew =>
      cases hexec
      exact h.start (Option.isNone_iff_eq_none.mp hnew) endpoint command probe now exitsAtOnce
    · cases hexec
  | state call endpoint =>
    rw [of_fresh hexec]
    unfold beginState
    split
    · exact h.setCall call trivial
    · split
      · exact h.setCall call trivial
      · exact h.setCall call trivial
  | inspect call answers now =>
    simp only [exec] at hexec
    split at hexec
    · next endpoint proc _ =>
      obtain ⟨r, -, hexec⟩ := Option.bind_eq_some_iff.mp hexec
      obtain ⟨c, hc, rfl⟩ := Option.map_eq_some_iff.mp hexec
      exact h.setCall call (callOk_inspected hc)
    · cases hexec
  | commit call now =>
    simp only [exec] at hexec
    split at hexec
    · next endpoint proc state ready _ =>
      obtain ⟨r, hr, rfl⟩ := Option.map_eq_some_iff.mp hexec
      unfold commitState
      split
      · exact h.setCall call trivial
      split
      · exact h.setCall call trivial
      · next hstate =>
        have hset := h.setRuntime { r with
          state := state
          readyAt := if ready then r.readyAt.or (some now) else r.readyAt } hr rfl (fun hd => hd)
          (fun hx => hx) fun _ hs => absurd hs hstate
        exact hset.setCall call (c := .answered state) trivial
    · cases hexec
  | read call =>
    simp only [exec] at hexec
    split at hexec
    · obtain ⟨r, -, rfl⟩ := Option.map_eq_some_iff.mp hexec
      exact h.setCall call trivial
    · cases hexec
  | deadPids call =>
    rw [of_fresh hexec]
    obtain ⟨htracked, hgrows⟩ := h.tracked.reapAll s.processes.nodup fun x hx => Dict.mem_entries_iff.mp hx
    refine h.step hgrows (calls_foldl calls_reap _ s) htracked call fun p hp => ?_
    obtain ⟨r, hr, hx, hout, -⟩ := htracked.reported p (List.mem_of_mem_drop hp)
    exact ⟨r, hr, Or.inl hx, hout⟩
  | killGroup call sent =>
    simp only [exec] at hexec
    split at hexec
    · next proc rest dead hcall =>
      cases hexec
      obtain ⟨htracked, hgrows⟩ := h.killGroup proc sent
      exact h.step hgrows (calls_update ..) htracked call fun p hp => (h.calls call _ hcall p hp).grows hgrows
    · next dead hcall =>
      cases hexec
      exact h.setCall call fun p hp => h.calls call _ hcall p hp
    · cases hexec
  | stop call endpoint =>
    rw [of_fresh hexec]
    unfold beginStop
    split
    · exact h.setCall call fun p hp => by cases hp
    · next proc hproc =>
      obtain ⟨htracked, hgrows⟩ := h.tracked.ask hproc
      refine h.step hgrows (calls_ask ..) htracked call fun p hp => ?_
      rw [List.mem_singleton.mp hp]
      exact List.mem_cons_self
  | stopAll call =>
    rw [of_fresh hexec]
    obtain ⟨htracked, hgrows, hasked⟩ := h.tracked.askAll fun p hp => Dict.mem_values_iff.mp hp
    exact h.step hgrows (calls_foldl calls_ask _ s) htracked call hasked
  | terminateGroup call sent =>
    simp only [exec] at hexec
    split at hexec
    · next proc rest procs hcall =>
      cases hexec
      obtain ⟨htracked, hgrows⟩ := h.update proc (f := (·.terminateGroup sent)) (fun _ => rfl)
        (fun _ hd => hd) (fun _ hx => hx) fun _ _ => rfl
      exact h.step hgrows (calls_update ..) htracked call fun p hp =>
        hgrows.asked p (h.calls call _ hcall p hp)
    · next procs hcall =>
      cases hexec
      exact h.setCall call fun p hp => ⟨h.calls call _ hcall p hp, Or.inl hp⟩
    · cases hexec
  | wait call timedOut groupExists sent =>
    simp only [exec] at hexec
    split at hexec
    · next proc rest procs hcall =>
      obtain ⟨r, hr, hexec⟩ := Option.bind_eq_some_iff.mp hexec
      split at hexec
      · next hover =>
        cases hexec
        exact h.waited hcall hr hover groupExists sent
      · cases hexec
    · next procs hcall =>
      cases hexec
      refine h.setCall call fun p hp => ?_
      obtain ⟨hasked, hrest | hdown⟩ := h.calls call _ hcall p hp
      · cases hrest
      · exact ⟨hasked, hdown⟩
    · cases hexec
  | removeStopped call =>
    simp only [exec] at hexec
    split at hexec
    · next procs hcall =>
      cases hexec
      obtain ⟨htracked, hgrows, hgone⟩ := h.tracked.removeAll (h.calls call _ hcall)
      exact h.step hgrows (calls_foldl calls_removeOne _ s) htracked call hgone
    · cases hexec
  | exit proc =>
    obtain ⟨r, hr, rfl⟩ := Option.map_eq_some_iff.mp hexec
    exact h.setRuntime _ hr rfl (fun _ => Or.inl rfl) (fun _ => rfl) fun _ hs => hs

variable {ops : List (SupervisorOp C)}

theorem run_inv (hrun : Run exec Free new ops s) : s.Inv :=
  hrun.invariant_state inv_new fun h _ hexec => exec_inv h hexec

/-- **No engine process gets lost.** In every run of the calls of any number of threads: a process that has not
exited and that nobody has asked to stop is the one that the table has for its endpoint. The dead are reported once,
and none of them was asked to stop; and `dead_pids` reports all that have exited and that nobody is stopping. What
was asked to stop and is in the table is stopping. What the table has lost has exited and was reported or found dead
by a start, or was asked to stop. What `stop`, `stop_all` and `dead_pids` return is out of the table, and has exited
or was sent SIGKILL, if that could be sent. -/
theorem no_process_gets_lost (hrun : Run exec Free new ops s) :
    (∀ p r, s.runtimes.get? p = some r → r.exited = false → p ∉ s.asked → s.processes.get? r.endpointId = some p) ∧
    s.reported.Nodup ∧
    (∀ p ∈ s.reported, p ∉ s.asked ∧ ∃ r, s.runtimes.get? p = some r ∧ r.exited = true) ∧
    (∀ call t, s.exec (.deadPids call) = some t → ∃ dead, t.calls.get? call = some (.killing dead dead) ∧
      t.reported = s.reported ++ dead ∧ ∀ p, p ∈ dead ↔ ∃ r, s.runtimes.get? p = some r ∧
        s.processes.get? r.endpointId = some p ∧ r.exited = true ∧ r.state ≠ .stopping) ∧
    (∀ p ∈ s.asked, ∀ r, s.runtimes.get? p = some r → s.processes.get? r.endpointId = some p → r.state = .stopping) ∧
    (∀ p r, s.runtimes.get? p = some r → s.processes.get? r.endpointId ≠ some p →
      r.exited = true ∧ (p ∈ s.reported ∨ p ∈ s.replaced) ∨ p ∈ s.asked) ∧
    ∀ call procs, s.calls.get? call = some (.returned procs) → ∀ p ∈ procs, ∃ r, s.runtimes.get? p = some r ∧
      s.processes.get? r.endpointId ≠ some p ∧ (r.exited = true ∨ r.killed = true ∨ r.killFailed = true) := by
  have hinv := run_inv hrun
  refine ⟨fun p r hr hx hnot => ?_, hinv.tracked.nodup, fun p hp => ?_, fun call t hexec => ?_,
    fun p hp r hr hin => ?_, fun p r hr hout => ?_, fun call procs hcall p hp => ?_⟩
  · rcases hinv.tracked.gone p r hr with hin | ⟨hdead, -⟩ | ⟨hasked, -⟩
    · exact hin
    · rw [hx] at hdead
      cases hdead
    · exact absurd hasked hnot
  · obtain ⟨r, hr, hx, -, hnot⟩ := hinv.tracked.reported p hp
    exact ⟨hnot, r, hr, hx⟩
  · rw [of_fresh hexec]
    exact hinv.tracked.deadPids call
  · obtain ⟨r', hr', hstate⟩ := hinv.tracked.asked p hp
    cases hr.symm.trans hr'
    exact hstate hin
  · exact ((hinv.tracked.gone p r hr).resolve_left hout).imp_right And.left
  · obtain ⟨r, hr, hdown, hout⟩ := hinv.calls call _ hcall p hp
    exact ⟨r, hr, hout, hdown⟩

def healthProbe : ProbeSpec := ⟨"/health", 3, 600, 2, false⟩

/-- The first endpoint is stopped by two calls, while another call probes it and the second endpoint dies; SIGKILL
is not let through. The first endpoint is then started once more. -/
def stopWhileProbing : List (SupervisorOp String) :=
  [.start 0 "vllm" healthProbe 100 0 false,
    .start 1 "vllm" healthProbe 101 0 false,
    .state 1 0,
    .stop 2 0,
    .stopAll 3,
    .inspect 1 [.timeout, .ok] 5,
    .commit 1 5,
    .exit 101,
    .terminateGroup 2 true,
    .terminateGroup 2 true,
    .wait 2 true false false,
    .wait 2 false false true,
    .removeStopped 2,
    .start 0 "vllm" healthProbe 102 6 false,
    .exit 102,
    .deadPids 4,
    .killGroup 4 true,
    .killGroup 4 true]

theorem stopWhileProbing_loses_nothing : ∃ s : ProcessSupervisor String,
    Run exec Free new stopWhileProbing s ∧ s.calls.get? 1 = some (.answered .stopping) ∧
    s.calls.get? 2 = some (.returned [100]) ∧ s.reported = [102] ∧
    (∃ r, s.runtimes.get? 100 = some r ∧ s.processes.get? r.endpointId ≠ some 100) ∧ 102 ∉ s.asked := by
  have hcomputed : (runList exec Free new stopWhileProbing).map
      (fun s : ProcessSupervisor String => (s.calls.get? 1, s.calls.get? 2, s.reported)) =
      some (some (.answered .stopping), some (.returned [100]), [102]) := by
    decide +kernel
  obtain ⟨s, hrun, heq⟩ := runList_exists hcomputed
  simp only [Prod.mk.injEq] at heq
  obtain ⟨hstate, hstop, hreported⟩ := heq
  obtain ⟨-, -, hdead, -, -, -, hgone⟩ := no_process_gets_lost hrun
  obtain ⟨r, hr, hout, -⟩ := hgone 2 _ hstop 100 List.mem_cons_self
  refine ⟨s, hrun, hstate, hstop, hreported, ⟨r, hr, hout⟩, ?_⟩
  exact (hdead 102 (hreported ▸ List.mem_cons_self)).1

end ProcessSupervisor

end PyMotor.NodeManager
