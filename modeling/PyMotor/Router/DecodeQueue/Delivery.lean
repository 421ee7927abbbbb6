import Mathlib.Data.List.Infix
import PyMotor.Router.DecodeQueue

/-!
# Nothing is lost

In every state of a run, the chunks are those that were yielded, the one that the getter or the consumer
holds, those on the queue, and those yet to be put, in this order (`Delivered`). The consumer acts on the
terminal future only if it holds nothing and the queue is empty, and the future is only set when
everything was put.

That everything is yielded at last takes two more facts: every move makes the `weight` of the state less,
and only a consumer that has finished cannot be moved by anybody.
-/

namespace PyMotor.Router

variable {σ χ ω ε : Type}

/-! ## What is held -/

def Getter.held : Getter χ → List χ
  | .got chunk => [chunk]
  | _ => []

def StreamKey.held : StreamKey χ → List χ
  | .chunk c => [c]
  | .done => []

def Consumer.held : Consumer χ ε → List χ
  | .awaitingPrefill key => key.held
  | _ => []

/-- How the consumer ends. -/
def DecodeOutcome.ending : DecodeOutcome ε → DecodeEnd ε
  | .done => .returned
  | .error e => .raised e

/-- The chunks rewritten one after the other, and the state of the adapters afterwards. -/
def rewriteAll (rewrite : σ → χ → ω × σ) (adapter : σ) (chunks : List χ) : List ω × σ :=
  chunks.foldl (fun done chunk =>
    (done.1 ++ [(rewrite done.2 chunk).1], (rewrite done.2 chunk).2)) ([], adapter)

theorem rewriteAll_snoc (rewrite : σ → χ → ω × σ) (adapter : σ) (chunks : List χ) (chunk : χ) :
    rewriteAll rewrite adapter (chunks ++ [chunk]) =
      ((rewriteAll rewrite adapter chunks).1 ++
          [(rewrite (rewriteAll rewrite adapter chunks).2 chunk).1],
        (rewrite (rewriteAll rewrite adapter chunks).2 chunk).2) := by
  unfold rewriteAll
  rw [List.foldl_append]
  rfl

namespace DecodeStream

/-! ## The invariant -/

/-- What was yielded comes first, then what is held, then the queue, then the rest. -/
def Delivered (rewrite : σ → χ → ω × σ) (adapter : σ) (chunks held : List χ)
    (s : DecodeStream σ χ ω ε) : Prop :=
  ∃ taken, taken ++ (held ++ (s.queue ++ s.remaining)) = chunks ∧
    rewriteAll rewrite adapter taken = (s.yielded, s.adapter)

/-- What holds wherever the consumer is. -/
structure Sound (outcome : DecodeOutcome ε) (s : DecodeStream σ χ ω ε) : Prop where
  planned : s.outcome = outcome
  ended : ∀ o, s.terminal = some o → o = outcome ∧ s.remaining = []
  prefill : s.prefill ≠ .failed

/-- Everything was taken, and the terminal future says how it ends. -/
def Exhausted (o : DecodeOutcome ε) (s : DecodeStream σ χ ω ε) : Prop :=
  s.terminal = some o ∧ s.queue = []

/-- What the consumer knows where it is. -/
def Fits (s : DecodeStream σ χ ω ε) : Consumer χ ε → Prop
  | .running => s.getter = .absent
  | .suspended => s.getter = .absent
  | .waiting => s.getter = .pending ∨ ∃ chunk, s.getter = .got chunk
  | .cancelling seen => (s.getter = .cancelling ∨ s.getter = .cancelled) ∧
      ∀ o, seen = some o → s.terminal = some o
  | .awaitingPrefill key => s.getter = .absent ∧ s.awaitsPrefill = true ∧
      (key = .done → s.Exhausted .done)
  | .finished ending => s.getter = .absent ∧ ∃ o, s.Exhausted o ∧ ending = o.ending

structure Inv (rewrite : σ → χ → ω × σ) (adapter : σ) (chunks : List χ) (outcome : DecodeOutcome ε)
    (s : DecodeStream σ χ ω ε) : Prop where
  sound : s.Sound outcome
  delivered : s.Delivered rewrite adapter chunks (s.consumer.held ++ s.getter.held)
  fits : s.Fits s.consumer

variable {rewrite : σ → χ → ω × σ} {adapter : σ} {chunks held : List χ} {outcome : DecodeOutcome ε}
  {s s' : DecodeStream σ χ ω ε} {withPrefill : Bool}

theorem Inv.start : Inv rewrite adapter chunks outcome (start chunks outcome withPrefill adapter) where
  sound := ⟨rfl, (fun _ h => nomatch h), (fun h => nomatch h)⟩
  delivered := ⟨[], rfl, rfl⟩
  fits := rfl

/-! ## The consumer -/

theorem Inv.yieldChunk {chunk : χ} (hsound : s.Sound outcome) (hgetter : s.getter = .absent)
    (hdelivered : s.Delivered rewrite adapter chunks [chunk]) :
    Inv rewrite adapter chunks outcome (s.yieldChunk rewrite chunk) := by
  obtain ⟨taken, hchunks, hyielded⟩ := hdelivered
  refine ⟨⟨hsound.planned, hsound.ended, hsound.prefill⟩, ⟨taken ++ [chunk], ?_, ?_⟩, hgetter⟩
  · have hheld : (s.yieldChunk rewrite chunk).getter.held = [] := by
      rw [DecodeStream.yieldChunk, hgetter]
      rfl
    rw [hheld]
    simpa [DecodeStream.yieldChunk, Consumer.held] using hchunks
  · rw [rewriteAll_snoc, hyielded]
    rfl

theorem Inv.finish {o : DecodeOutcome ε} (hsound : s.Sound outcome)
    (hgetter : s.getter = .absent) (hdelivered : s.Delivered rewrite adapter chunks [])
    (hexhausted : s.Exhausted o) : Inv rewrite adapter chunks outcome (s.finish o.ending) := by
  refine ⟨⟨hsound.planned, hsound.ended, hsound.prefill⟩, ?_, hgetter, o, hexhausted, rfl⟩
  have hheld : (s.finish o.ending).getter.held = [] := by
    rw [DecodeStream.finish, hgetter]
    rfl
  rw [hheld]
  exact hdelivered

theorem Inv.actOn {key : StreamKey χ} (hsound : s.Sound outcome) (hgetter : s.getter = .absent)
    (hdelivered : s.Delivered rewrite adapter chunks key.held)
    (hdone : key = .done → s.Exhausted .done) :
    Inv rewrite adapter chunks outcome (s.actOn rewrite key) := by
  cases key with
  | chunk chunk => exact Inv.yieldChunk hsound hgetter hdelivered
  | done => exact Inv.finish hsound hgetter hdelivered (hdone rfl)

theorem Inv.handleKey {key : StreamKey χ} (hsound : s.Sound outcome)
    (hgetter : s.getter = .absent) (hdelivered : s.Delivered rewrite adapter chunks key.held)
    (hdone : key = .done → s.Exhausted .done) :
    Inv rewrite adapter chunks outcome (s.handleKey rewrite key) := by
  unfold DecodeStream.handleKey
  split
  · next hawaits =>
    split
    · refine ⟨⟨hsound.planned, hsound.ended, hsound.prefill⟩, ?_, hgetter, hawaits, hdone⟩
      simp only [hgetter, Getter.held, List.append_nil, Consumer.held]
      exact hdelivered
    · next hfailed => exact absurd hfailed hsound.prefill
    · exact Inv.actOn ⟨hsound.planned, hsound.ended, hsound.prefill⟩ hgetter hdelivered hdone
  · exact Inv.actOn hsound hgetter hdelivered hdone

theorem Inv.handleTerminal {o : DecodeOutcome ε} (hsound : s.Sound outcome)
    (hgetter : s.getter = .absent) (hdelivered : s.Delivered rewrite adapter chunks [])
    (hexhausted : s.Exhausted o) :
    Inv rewrite adapter chunks outcome (s.handleTerminal rewrite o) := by
  cases o with
  | done => exact Inv.handleKey hsound hgetter hdelivered fun _ => hexhausted
  | error e => exact Inv.finish hsound hgetter hdelivered hexhausted

theorem Inv.runLoop (hsound : s.Sound outcome) (hgetter : s.getter = .absent)
    (hdelivered : s.Delivered rewrite adapter chunks []) :
    Inv rewrite adapter chunks outcome (s.runLoop rewrite) := by
  unfold DecodeStream.runLoop
  split
  · next chunk queue hqueue =>
    refine Inv.handleKey ⟨hsound.planned, hsound.ended, hsound.prefill⟩ hgetter ?_
      (fun h => by cases h)
    obtain ⟨taken, hchunks, hyielded⟩ := hdelivered
    rw [hqueue] at hchunks
    exact ⟨taken, hchunks, hyielded⟩
  · next hqueue =>
    split
    · next o hterminal => exact Inv.handleTerminal hsound hgetter hdelivered ⟨hterminal, hqueue⟩
    · exact ⟨⟨hsound.planned, hsound.ended, hsound.prefill⟩, hdelivered, Or.inl rfl⟩

theorem Inv.takeGetter (hsound : s.Sound outcome)
    (hdelivered : s.Delivered rewrite adapter chunks s.getter.held) :
    Inv rewrite adapter chunks outcome (s.takeGetter rewrite) := by
  unfold DecodeStream.takeGetter
  split
  · next chunk hgot =>
    rw [hgot] at hdelivered
    exact Inv.handleKey ⟨hsound.planned, hsound.ended, hsound.prefill⟩ rfl hdelivered
      (fun h => by cases h)
  · next hnot =>
    have hheld : s.getter.held = [] := by
      cases hg : s.getter with
      | got chunk => exact absurd hg (hnot chunk)
      | absent => rfl
      | pending => rfl
      | cancelling => rfl
      | cancelled => rfl
    rw [hheld] at hdelivered
    exact ⟨⟨hsound.planned, hsound.ended, hsound.prefill⟩, hdelivered, Or.inl rfl, fun o h => h⟩

theorem Inv.afterCancel {seen : Option (DecodeOutcome ε)} (hsound : s.Sound outcome)
    (hdelivered : s.Delivered rewrite adapter chunks [])
    (hseen : ∀ o, seen = some o → s.terminal = some o) :
    Inv rewrite adapter chunks outcome (s.afterCancel rewrite seen) := by
  unfold DecodeStream.afterCancel
  split
  · next o hqueue =>
    exact Inv.handleTerminal ⟨hsound.planned, hsound.ended, hsound.prefill⟩ rfl hdelivered
      ⟨hseen o rfl, hqueue⟩
  · exact ⟨⟨hsound.planned, hsound.ended, hsound.prefill⟩, hdelivered, rfl⟩

theorem Inv.runConsumer (h : Inv rewrite adapter chunks outcome s)
    (he : s.runConsumer rewrite = some s') : Inv rewrite adapter chunks outcome s' := by
  obtain ⟨hsound, hdelivered, hfits⟩ := h
  unfold DecodeStream.runConsumer at he
  cases hconsumer : s.consumer with
  | running =>
    rw [hconsumer] at he hdelivered hfits
    cases he
    rw [hfits] at hdelivered
    exact Inv.runLoop hsound hfits hdelivered
  | waiting =>
    rw [hconsumer] at he hdelivered hfits
    simp only [Option.ite_none_right_eq_some, Option.some.injEq] at he
    obtain ⟨-, rfl⟩ := he
    unfold DecodeStream.wake
    split
    · rw [if_neg hsound.prefill]
      exact Inv.takeGetter ⟨hsound.planned, hsound.ended, hsound.prefill⟩ hdelivered
    · exact Inv.takeGetter hsound hdelivered
  | cancelling seen =>
    rw [hconsumer] at he hdelivered hfits
    simp only at he
    split at he
    · next hgetter =>
      cases he
      rw [hgetter] at hdelivered
      exact Inv.afterCancel hsound hdelivered hfits.2
    · cases he
  | awaitingPrefill key =>
    rw [hconsumer] at he hdelivered hfits
    simp only [Option.ite_none_left_eq_some, Option.some.injEq] at he
    obtain ⟨-, rfl⟩ := he
    have hheld : (Consumer.awaitingPrefill key : Consumer χ ε).held ++ s.getter.held = key.held := by
      rw [hfits.1]
      exact List.append_nil _
    rw [hheld] at hdelivered
    exact Inv.handleKey hsound hfits.1 hdelivered hfits.2.2
  | suspended =>
    rw [hconsumer] at he hdelivered hfits
    cases he
    exact ⟨⟨hsound.planned, hsound.ended, hsound.prefill⟩, hdelivered, hfits⟩
  | finished ending =>
    rw [hconsumer] at he
    cases he

/-! ## All moves -/

/-- While the terminal future is not set, the consumer relies on the getter and the prefill only. -/
theorem Fits.keep {consumer : Consumer χ ε} (h : s.Fits consumer) (hnone : s.terminal = none)
    (hgetter : s'.getter = s.getter) (hawaits : s'.awaitsPrefill = s.awaitsPrefill) :
    s'.Fits consumer := by
  have hnot : ∀ o, ¬ s.Exhausted o := by
    intro o ho
    have hterminal := ho.1
    rw [hnone] at hterminal
    cases hterminal
  cases consumer with
  | running => exact hgetter.trans h
  | suspended => exact hgetter.trans h
  | waiting => rwa [Fits, hgetter]
  | cancelling seen =>
    rw [Fits, hgetter]
    refine ⟨h.1, fun o ho => ?_⟩
    have hterminal := h.2 o ho
    rw [hnone] at hterminal
    cases hterminal
  | awaitingPrefill key =>
    exact ⟨hgetter.trans h.1, hawaits.trans h.2.1, fun hkey => absurd (h.2.2 hkey) (hnot _)⟩
  | finished ending =>
    obtain ⟨-, o, hexhausted, -⟩ := h
    exact absurd hexhausted (hnot o)

theorem Inv.put (h : Inv rewrite adapter chunks outcome s) (he : exec rewrite s .put = some s') :
    Inv rewrite adapter chunks outcome s' := by
  obtain ⟨hsound, ⟨taken, hchunks, hyielded⟩, hfits⟩ := h
  simp only [exec] at he
  split at he
  · next chunk remaining hremaining =>
    rw [Option.ite_none_right_eq_some] at he
    obtain ⟨-, he⟩ := he
    cases he
    have hnone : s.terminal = none := by
      cases hterminal : s.terminal with
      | none => rfl
      | some o =>
        rw [(hsound.ended o hterminal).2] at hremaining
        cases hremaining
    refine ⟨⟨hsound.planned, fun o ho => ?_, hsound.prefill⟩, ⟨taken, ?_, hyielded⟩,
      hfits.keep hnone rfl rfl⟩
    · rw [hnone] at ho
      cases ho
    · rw [hremaining] at hchunks
      simpa using hchunks
  · cases he

theorem Inv.decodeEnds (h : Inv rewrite adapter chunks outcome s)
    (he : exec rewrite s .decodeEnds = some s') : Inv rewrite adapter chunks outcome s' := by
  obtain ⟨hsound, hdelivered, hfits⟩ := h
  simp only [exec] at he
  split at he
  · next hremaining hnone =>
    cases he
    refine ⟨⟨hsound.planned, fun o ho => ?_, hsound.prefill⟩, hdelivered, hfits.keep hnone rfl rfl⟩
    cases ho
    exact ⟨hsound.planned, hremaining⟩
  · cases he

theorem Inv.prefillEnds (h : Inv rewrite adapter chunks outcome s)
    (he : exec rewrite s (.prefillEnds true) = some s') : Inv rewrite adapter chunks outcome s' := by
  obtain ⟨hsound, hdelivered, hfits⟩ := h
  simp only [exec, Option.ite_none_right_eq_some, if_true, Option.some.injEq] at he
  obtain ⟨-, rfl⟩ := he
  exact ⟨⟨hsound.planned, hsound.ended, (fun h => nomatch h)⟩, hdelivered, hfits⟩

theorem Inv.waiting_of_pending (h : Inv rewrite adapter chunks outcome s) (hgetter : s.getter = .pending) :
    s.consumer = .waiting := by
  have hfits := h.fits
  cases hconsumer : s.consumer with
  | waiting => rfl
  | running =>
    rw [hconsumer, Fits, hgetter] at hfits
    cases hfits
  | suspended =>
    rw [hconsumer, Fits, hgetter] at hfits
    cases hfits
  | cancelling seen =>
    rw [hconsumer, Fits, hgetter] at hfits
    rcases hfits.1 with hne | hne <;> cases hne
  | awaitingPrefill key =>
    rw [hconsumer, Fits, hgetter] at hfits
    cases hfits.1
  | finished ending =>
    rw [hconsumer, Fits, hgetter] at hfits
    cases hfits.1

theorem Inv.cancelling_of_cancelling (h : Inv rewrite adapter chunks outcome s)
    (hgetter : s.getter = .cancelling) : ∃ seen, s.consumer = .cancelling seen := by
  have hfits := h.fits
  cases hconsumer : s.consumer with
  | cancelling seen => exact ⟨seen, rfl⟩
  | waiting =>
    rw [hconsumer, Fits, hgetter] at hfits
    rcases hfits with hne | ⟨chunk, hne⟩ <;> cases hne
  | running =>
    rw [hconsumer, Fits, hgetter] at hfits
    cases hfits
  | suspended =>
    rw [hconsumer, Fits, hgetter] at hfits
    cases hfits
  | awaitingPrefill key =>
    rw [hconsumer, Fits, hgetter] at hfits
    cases hfits.1
  | finished ending =>
    rw [hconsumer, Fits, hgetter] at hfits
    cases hfits.1

theorem Inv.getterRuns (h : Inv rewrite adapter chunks outcome s)
    (he : exec rewrite s .getterRuns = some s') : Inv rewrite adapter chunks outcome s' := by
  simp only [exec] at he
  split at he
  · next chunk queue hgetter hqueue =>
    cases he
    have hconsumer := h.waiting_of_pending hgetter
    obtain ⟨hsound, ⟨taken, hchunks, hyielded⟩, hfits⟩ := h
    refine ⟨⟨hsound.planned, hsound.ended, hsound.prefill⟩, ⟨taken, ?_, hyielded⟩, ?_⟩
    · rw [hconsumer, hgetter, hqueue] at hchunks
      simpa [hconsumer, Consumer.held, Getter.held] using hchunks
    · rw [hconsumer]
      exact Or.inr ⟨chunk, rfl⟩
  · cases he

theorem Inv.getterCancels (h : Inv rewrite adapter chunks outcome s)
    (he : exec rewrite s .getterCancels = some s') : Inv rewrite adapter chunks outcome s' := by
  simp only [exec] at he
  split at he
  · next hgetter =>
    cases he
    obtain ⟨seen, hconsumer⟩ := h.cancelling_of_cancelling hgetter
    obtain ⟨hsound, hdelivered, hfits⟩ := h
    rw [hgetter] at hdelivered
    refine ⟨⟨hsound.planned, hsound.ended, hsound.prefill⟩, hdelivered, ?_⟩
    rw [hconsumer] at hfits ⊢
    exact ⟨Or.inr rfl, hfits.2⟩
  · cases he

theorem Inv.step {move : Move} (h : Inv rewrite adapter chunks outcome s)
    (hprefill : PrefillSucceeds s move) (he : exec rewrite s move = some s') :
    Inv rewrite adapter chunks outcome s' := by
  cases move with
  | put => exact h.put he
  | decodeEnds => exact h.decodeEnds he
  | prefillEnds success =>
    cases success with
    | true => exact h.prefillEnds he
    | false => exact absurd rfl hprefill
  | getterRuns => exact h.getterRuns he
  | getterCancels => exact h.getterCancels he
  | consumerRuns => exact h.runConsumer he

end DecodeStream

/-! ## Every move gets on -/

def Getter.weight : Getter χ → ℕ
  | .absent => 0
  | .pending => 1
  | .got _ => 5
  | .cancelling => 1
  | .cancelled => 0

/-- Before the terminal future is set, the consumer may have to wait once more. -/
def Consumer.weight (terminal : Option (DecodeOutcome ε)) : Consumer χ ε → ℕ
  | .running => if terminal.isNone then 12 else 5
  | .waiting => 10
  | .cancelling seen => if seen.isNone then 15 else 8
  | .awaitingPrefill (.chunk _) => 14
  | .awaitingPrefill .done => 1
  | .suspended => if terminal.isNone then 13 else 6
  | .finished _ => 0

namespace DecodeStream

variable {rewrite : σ → χ → ω × σ} {adapter : σ} {chunks : List χ} {outcome : DecodeOutcome ε}
  {s s' : DecodeStream σ χ ω ε} {withPrefill : Bool}

/-- What is still to come. A chunk weighs more before it is put, and a prefill that is awaited makes up
for a wait in vain. -/
def weight (s : DecodeStream σ χ ω ε) : ℕ :=
  20 * s.remaining.length + 10 * s.queue.length + (if s.awaitsPrefill then 10 else 0) +
    (if s.terminal.isNone then 10 else 0) + (if s.prefill = .running then 1 else 0) +
    s.consumer.weight s.terminal + s.getter.weight

/-- The weight without the consumer and the getter. -/
def stock (s : DecodeStream σ χ ω ε) : ℕ :=
  20 * s.remaining.length + 10 * s.queue.length + (if s.awaitsPrefill then 10 else 0) +
    (if s.terminal.isNone then 10 else 0) + (if s.prefill = .running then 1 else 0)

theorem weight_eq (s : DecodeStream σ χ ω ε) :
    s.weight = s.stock + s.consumer.weight s.terminal + s.getter.weight := rfl

theorem weight_yieldChunk (rewrite : σ → χ → ω × σ) (s : DecodeStream σ χ ω ε) (chunk : χ) :
    (s.yieldChunk rewrite chunk).weight ≤ s.stock + 13 + s.getter.weight := by
  have hconsumer : (if s.terminal.isNone then 13 else 6) ≤ 13 := by split <;> omega
  exact Nat.add_le_add_right (Nat.add_le_add_left hconsumer _) _

theorem weight_finish (s : DecodeStream σ χ ω ε) (ending : DecodeEnd ε) :
    (s.finish ending).weight = s.stock + s.getter.weight := rfl

theorem stock_released (hawaits : s.awaitsPrefill = true) :
    stock { s with awaitsPrefill := false } + 10 = s.stock := by
  simp only [stock, hawaits, if_true, Bool.false_eq_true, if_false]
  omega

theorem weight_actOn_released (rewrite : σ → χ → ω × σ) (hawaits : s.awaitsPrefill = true)
    (key : StreamKey χ) : (actOn rewrite { s with awaitsPrefill := false } key).weight ≤
      s.stock + 3 + s.getter.weight := by
  have hstock := stock_released hawaits
  cases key with
  | chunk chunk =>
    have h : (actOn rewrite { s with awaitsPrefill := false } (.chunk chunk)).weight ≤
        stock { s with awaitsPrefill := false } + 13 + s.getter.weight :=
      weight_yieldChunk rewrite _ chunk
    omega
  | done =>
    have h : (actOn rewrite { s with awaitsPrefill := false } .done).weight =
        stock { s with awaitsPrefill := false } + s.getter.weight := rfl
    omega

theorem weight_handleKey_chunk (rewrite : σ → χ → ω × σ) (s : DecodeStream σ χ ω ε) (chunk : χ) :
    (s.handleKey rewrite (.chunk chunk)).weight ≤ s.stock + 14 + s.getter.weight := by
  unfold handleKey
  split
  · next hawaits =>
    split
    · exact Nat.le_refl _
    · rw [weight_finish]
      omega
    · exact (weight_actOn_released rewrite hawaits _).trans (by omega)
  · exact (weight_yieldChunk rewrite s chunk).trans (by omega)

theorem weight_handleKey_done (rewrite : σ → χ → ω × σ) (s : DecodeStream σ χ ω ε) :
    (s.handleKey rewrite .done).weight ≤ s.stock + 1 + s.getter.weight := by
  unfold handleKey
  split
  · next hawaits =>
    split
    · exact Nat.le_refl _
    · rw [weight_finish]
      omega
    · have hstock := stock_released hawaits
      have h : (actOn rewrite { s with awaitsPrefill := false } .done).weight =
          stock { s with awaitsPrefill := false } + s.getter.weight := rfl
      omega
  · have h : (s.actOn rewrite .done).weight = s.stock + s.getter.weight := rfl
    omega

theorem weight_handleTerminal (rewrite : σ → χ → ω × σ) (s : DecodeStream σ χ ω ε)
    (o : DecodeOutcome ε) :
    (s.handleTerminal rewrite o).weight ≤ s.stock + 1 + s.getter.weight := by
  cases o with
  | done => exact weight_handleKey_done rewrite s
  | error e =>
    have h : (s.handleTerminal rewrite (.error e)).weight = s.stock + s.getter.weight := rfl
    omega

theorem weight_absent (hgetter : s.getter = .absent) : s.getter.weight = 0 := by
  rw [hgetter]
  rfl

theorem weight_runLoop (rewrite : σ → χ → ω × σ) (hgetter : s.getter = .absent) :
    (s.runLoop rewrite).weight < s.stock + (if s.terminal.isNone then 12 else 5) := by
  have hnone := weight_absent hgetter
  unfold runLoop
  split
  · next chunk queue hqueue =>
    have h : (handleKey rewrite { s with queue := queue } (.chunk chunk)).weight ≤
        stock { s with queue := queue } + 14 + s.getter.weight :=
      weight_handleKey_chunk rewrite { s with queue := queue } chunk
    have hstock : stock { s with queue := queue } + 10 = s.stock := by
      simp only [stock, hqueue, List.length_cons]
      omega
    split <;> omega
  · split
    · next o hterminal =>
      have h := weight_handleTerminal rewrite s o
      split <;> omega
    · next hterminal =>
      have h : weight { s with getter := .pending, consumer := .waiting } = s.stock + 10 + 1 := rfl
      rw [h, if_pos (by rw [hterminal]; rfl)]
      omega

/-- A getter that has a chunk is taken; any other is cancelled, for nothing or for the terminal
future. -/
theorem weight_takeGetter (rewrite : σ → χ → ω × σ) (s : DecodeStream σ χ ω ε) :
    (∃ chunk, s.getter = .got chunk) ∧ (s.takeGetter rewrite).weight ≤ s.stock + 14 ∨
      (∀ chunk, s.getter ≠ .got chunk) ∧
        (s.takeGetter rewrite).weight = s.stock + (if s.terminal.isNone then 15 else 8) + 1 := by
  unfold takeGetter
  split
  · next chunk hgot =>
    refine Or.inl ⟨⟨chunk, hgot⟩, ?_⟩
    exact weight_handleKey_chunk rewrite { s with getter := .absent } chunk
  · next hnot => exact Or.inr ⟨hnot, rfl⟩

theorem weight_wake (rewrite : σ → χ → ω × σ) (hready : s.isReady = true) :
    (s.wake rewrite).weight < s.stock + 10 + s.getter.weight := by
  unfold wake
  split
  · next hdone =>
    have hawaits : s.awaitsPrefill = true := (Bool.and_eq_true_iff.mp hdone).1
    split
    · rw [weight_finish]
      omega
    · have hstock := stock_released hawaits
      rcases weight_takeGetter rewrite { s with awaitsPrefill := false } with ⟨-, h⟩ | ⟨-, h⟩
      · omega
      · have hseen : (if s.terminal.isNone then 15 else 8) ≤ 15 := by split <;> omega
        have hweight : (takeGetter rewrite { s with awaitsPrefill := false }).weight =
            stock { s with awaitsPrefill := false } + (if s.terminal.isNone then 15 else 8) + 1 := h
        omega
  · next hdone =>
    rcases weight_takeGetter rewrite s with ⟨⟨chunk, hgot⟩, h⟩ | ⟨hnot, h⟩
    · have hweight : s.getter.weight = 5 := by
        rw [hgot]
        rfl
      omega
    · -- what has woken the consumer is the terminal future
      have hterminal : s.terminal.isNone = false := by
        unfold isReady at hready
        rw [Bool.eq_false_iff.mpr hdone, Bool.or_false, Bool.or_eq_true] at hready
        rcases hready with hsome | hgetter
        · rw [Option.isNone_eq_false_iff]
          exact hsome
        · split at hgetter
          · next chunk hgot => exact absurd hgot (hnot chunk)
          · cases hgetter
      rw [h, hterminal, if_neg Bool.false_ne_true]
      omega

theorem weight_afterCancel (rewrite : σ → χ → ω × σ) {seen : Option (DecodeOutcome ε)}
    (hseen : ∀ o, seen = some o → s.terminal = some o) :
    (s.afterCancel rewrite seen).weight < s.stock + (if seen.isNone then 15 else 8) := by
  have hrunning : weight { s with getter := .absent, consumer := .running } <
      s.stock + (if seen.isNone then 15 else 8) := by
    have h : weight { s with getter := .absent, consumer := .running } =
        s.stock + (if s.terminal.isNone then 12 else 5) := rfl
    rw [h]
    cases seen with
    | none =>
      rw [Option.isNone_none, if_pos rfl]
      split <;> omega
    | some o =>
      have hset : (if s.terminal.isNone then 12 else 5) = 5 := by
        rw [hseen o rfl]
        rfl
      rw [hset, Option.isNone_some, if_neg Bool.false_ne_true]
      omega
  unfold afterCancel
  split
  · next o hqueue =>
    have h : (handleTerminal rewrite { s with getter := .absent } o).weight ≤ s.stock + 1 + 0 :=
      weight_handleTerminal rewrite { s with getter := .absent } o
    rw [Option.isNone_some, if_neg Bool.false_ne_true]
    omega
  · exact hrunning

theorem weight_runConsumer (h : Inv rewrite adapter chunks outcome s)
    (he : s.runConsumer rewrite = some s') : s'.weight < s.weight := by
  have hfits := h.fits
  rw [weight_eq s]
  unfold runConsumer at he
  cases hconsumer : s.consumer with
  | running =>
    rw [hconsumer] at he hfits
    cases he
    have hloop := weight_runLoop rewrite hfits
    exact Nat.lt_of_lt_of_le hloop (Nat.le_add_right _ _)
  | waiting =>
    rw [hconsumer] at he
    simp only [Option.ite_none_right_eq_some, Option.some.injEq] at he
    obtain ⟨hready, rfl⟩ := he
    exact weight_wake rewrite hready
  | cancelling seen =>
    rw [hconsumer] at he hfits
    simp only at he
    split at he
    · cases he
      have hcancel := weight_afterCancel rewrite hfits.2
      exact Nat.lt_of_lt_of_le hcancel (Nat.le_add_right _ _)
    · cases he
  | awaitingPrefill key =>
    rw [hconsumer] at he hfits
    simp only [Option.ite_none_left_eq_some, Option.some.injEq] at he
    obtain ⟨hdone, rfl⟩ := he
    have hnone := weight_absent hfits.1
    have hstock := stock_released hfits.2.1
    unfold handleKey
    rw [if_pos hfits.2.1]
    split
    -- the prefill is over, so the key is acted on
    · next hrunning => exact absurd hrunning hdone
    · next hfailed => exact absurd hfailed h.sound.prefill
    · cases key with
      | chunk c =>
        have hact := weight_actOn_released rewrite hfits.2.1 (.chunk c)
        have hweight : (Consumer.awaitingPrefill (.chunk c) : Consumer χ ε).weight s.terminal = 14 :=
          rfl
        omega
      | done =>
        have hact : (actOn rewrite { s with awaitsPrefill := false } .done).weight =
            stock { s with awaitsPrefill := false } + s.getter.weight := rfl
        omega
  | suspended =>
    rw [hconsumer] at he
    cases he
    have hweight : weight { s with consumer := .running } =
        s.stock + (if s.terminal.isNone then 12 else 5) + s.getter.weight := rfl
    have hsuspended : (Consumer.suspended : Consumer χ ε).weight s.terminal =
        if s.terminal.isNone then 13 else 6 := rfl
    rw [hweight, hsuspended]
    split <;> omega
  | finished ending =>
    rw [hconsumer] at he
    cases he

theorem weight_lt {move : Move} (h : Inv rewrite adapter chunks outcome s)
    (he : exec rewrite s move = some s') : s'.weight < s.weight := by
  cases move with
  | put =>
    simp only [exec] at he
    split at he
    · next chunk remaining hremaining =>
      rw [Option.ite_none_right_eq_some] at he
      obtain ⟨-, he⟩ := he
      cases he
      simp only [weight, hremaining, List.length_cons, List.length_append, List.length_nil]
      omega
    · cases he
  | decodeEnds =>
    simp only [exec] at he
    split at he
    · next hremaining hnone =>
      cases he
      -- a consumer has less to do once the end is known
      have hconsumer : s.consumer.weight (some s.outcome) ≤ s.consumer.weight none := by
        cases s.consumer with
        | running => exact (by decide : 5 ≤ 12)
        | suspended => exact (by decide : 6 ≤ 13)
        | waiting => exact Nat.le_refl _
        | cancelling seen => exact Nat.le_refl _
        | awaitingPrefill key => cases key <;> exact Nat.le_refl _
        | finished ending => exact Nat.le_refl _
      simp only [weight, hnone, Option.isNone_none, Option.isNone_some, if_true,
        Bool.false_eq_true, if_false]
      omega
    · cases he
  | prefillEnds success =>
    simp only [exec, Option.ite_none_right_eq_some, Option.some.injEq] at he
    obtain ⟨hrunning, rfl⟩ := he
    cases success <;> simp [weight, hrunning]
  | getterRuns =>
    simp only [exec] at he
    split at he
    · next chunk queue hgetter hqueue =>
      cases he
      simp only [weight, hgetter, hqueue, List.length_cons, Getter.weight]
      omega
    · cases he
  | getterCancels =>
    simp only [exec] at he
    split at he
    · next hgetter =>
      cases he
      simp only [weight, hgetter, Getter.weight]
      omega
    · cases he
  | consumerRuns => exact weight_runConsumer h he

/-- **Somebody can move** unless the consumer has finished. -/
theorem Inv.progress (h : Inv rewrite adapter chunks outcome s)
    (hgoing : ∀ ending, s.consumer ≠ .finished ending) :
    ∃ move s', PrefillSucceeds s move ∧ exec rewrite s move = some s' := by
  have hfits := h.fits
  have hconsumer : (s.runConsumer rewrite).isSome = true →
      ∃ move s', PrefillSucceeds s move ∧ exec rewrite s move = some s' := by
    intro hsome
    obtain ⟨s', hs'⟩ := Option.isSome_iff_exists.mp hsome
    exact ⟨.consumerRuns, s', (fun heq => nomatch heq), hs'⟩
  cases hat : s.consumer with
  | running => exact hconsumer (by simp only [DecodeStream.runConsumer, hat, Option.isSome_some])
  | suspended => exact hconsumer (by simp only [DecodeStream.runConsumer, hat, Option.isSome_some])
  | finished ending => exact absurd hat (hgoing ending)
  | cancelling seen =>
    rw [hat] at hfits
    rcases hfits.1 with hgetter | hgetter
    · refine ⟨.getterCancels, { s with getter := .cancelled }, (fun heq => nomatch heq), ?_⟩
      simp only [exec, hgetter]
    · exact hconsumer (by simp only [DecodeStream.runConsumer, hat, hgetter, Option.isSome_some])
  | awaitingPrefill key =>
    by_cases hrunning : s.prefill = .running
    · refine ⟨.prefillEnds true, { s with prefill := .succeeded }, by simp [PrefillSucceeds], ?_⟩
      simp only [exec, hrunning, if_true]
    · exact hconsumer (by simp only [DecodeStream.runConsumer, hat, if_neg hrunning, Option.isSome_some])
  | waiting =>
    rw [hat] at hfits
    by_cases hready : s.isReady = true
    · exact hconsumer (by simp only [DecodeStream.runConsumer, hat, if_pos hready, Option.isSome_some])
    · -- the getter waits for the queue, and the queue for the decode task
      unfold isReady at hready
      rw [Bool.or_eq_true, Bool.or_eq_true, not_or, not_or] at hready
      obtain ⟨⟨hterminal, -⟩, hgot⟩ := hready
      have hnone : s.terminal = none := Option.not_isSome_iff_eq_none.mp hterminal
      rcases hfits with hgetter | ⟨chunk, hgetter⟩
      · cases hqueue : s.queue with
        | cons chunk queue =>
          refine ⟨.getterRuns, { s with getter := .got chunk, queue := queue },
            (fun heq => nomatch heq), ?_⟩
          simp only [exec, hgetter, hqueue]
        | nil =>
          cases hremaining : s.remaining with
          | cons chunk remaining =>
            refine ⟨.put, { s with remaining := remaining, queue := s.queue ++ [chunk] },
              (fun heq => nomatch heq), ?_⟩
            simp only [exec, hremaining, hqueue]
            rfl
          | nil =>
            refine ⟨.decodeEnds, { s with terminal := some s.outcome },
              (fun heq => nomatch heq), ?_⟩
            simp only [exec, hremaining, hnone]
      · rw [hgetter] at hgot
        exact absurd rfl hgot

/-! ## Runs -/

theorem Inv.run {moves : List Move}
    (h : Run (exec rewrite) PrefillSucceeds (DecodeStream.start chunks outcome withPrefill adapter) moves s) :
    Inv rewrite adapter chunks outcome s ∧ moves.length + s.weight ≤ 20 * chunks.length + 43 := by
  refine h.invariant (I := fun moves s => Inv rewrite adapter chunks outcome s ∧
    moves.length + s.weight ≤ 20 * chunks.length + 43) ⟨Inv.start, ?_⟩ ?_
  · cases withPrefill <;>
      simp [weight, DecodeStream.start, Consumer.weight, Getter.weight]
  · rintro moves s move s' ⟨hinv, hle⟩ hG he
    have hlt := weight_lt hinv he
    refine ⟨hinv.step hG he, ?_⟩
    rw [List.length_append, List.length_singleton]
    omega

/-- **The decode queue loses nothing.** However the tasks are interleaved, what was yielded are the
first chunks, rewritten, in order; the consumer finishes only when it has yielded all of them, as the
decode task has ended; until then somebody can move, and there is a bound on the moves. -/
theorem decode_queue_loses_nothing {moves : List Move}
    (h : Run (exec rewrite) PrefillSucceeds (DecodeStream.start chunks outcome withPrefill adapter) moves s) :
    (∃ taken, taken <+: chunks ∧ s.yielded = (rewriteAll rewrite adapter taken).1) ∧
    (∀ ending, s.consumer = .finished ending →
      s.yielded = (rewriteAll rewrite adapter chunks).1 ∧ ending = outcome.ending) ∧
    ((∀ ending, s.consumer ≠ .finished ending) →
      ∃ move s', PrefillSucceeds s move ∧ exec rewrite s move = some s') ∧
    moves.length ≤ 20 * chunks.length + 43 := by
  obtain ⟨hinv, hle⟩ := Inv.run h
  obtain ⟨taken, hchunks, hyielded⟩ := hinv.delivered
  refine ⟨⟨taken, ⟨_, hchunks⟩, by rw [hyielded]⟩, ?_, hinv.progress, by omega⟩
  intro ending hfinished
  have hfits := hinv.fits
  rw [hfinished] at hfits hchunks
  obtain ⟨hgetter, o, ⟨hterminal, hqueue⟩, rfl⟩ := hfits
  obtain ⟨rfl, hremaining⟩ := hinv.sound.ended o hterminal
  rw [hgetter, hqueue, hremaining] at hchunks
  have hall : taken = chunks := by simpa [Consumer.held, Getter.held] using hchunks
  rw [← hall, hyielded]
  exact ⟨rfl, rfl⟩

/-- The prefill task wakes the consumer, and a chunk comes while the getter is being cancelled. -/
def lateChunkMoves : List Move :=
  [.consumerRuns, .prefillEnds true, .consumerRuns, .put, .getterCancels, .consumerRuns, .consumerRuns,
    .put, .decodeEnds, .consumerRuns, .consumerRuns, .consumerRuns, .consumerRuns]

theorem lateChunk_yielded : ∃ s : DecodeStream Unit ℕ ℕ String,
    Run (exec fun adapter chunk => (chunk, adapter)) PrefillSucceeds (start [7, 8] .done true ()) lateChunkMoves s ∧
      s.yielded = [7, 8] := by
  have h : (runList (exec fun (adapter : Unit) (chunk : ℕ) => (chunk, adapter)) PrefillSucceeds
      (start [7, 8] (.done : DecodeOutcome String) true ()) lateChunkMoves).map (fun s => s.consumer) =
        some (.finished .returned) := by
    decide
  obtain ⟨s, hs, hfinished⟩ := Option.map_eq_some_iff.mp h
  have hrun := runList_run hs
  exact ⟨s, hrun, ((decode_queue_loses_nothing hrun).2.1 _ hfinished).1⟩

end DecodeStream

end PyMotor.Router
