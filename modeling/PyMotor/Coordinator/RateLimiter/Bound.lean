import Mathlib.Data.List.Induction
import PyMotor.Coordinator.RateLimiter

/-!
# How much the bucket admits

Over any stretch of calls without a change of the limits, a bucket admits no more requests than it holds
and is refilled with while the clock goes forward (`admitted_le`). A clock that goes back takes tokens
away in `tryConsume`, and may leave less than none. The balance stays between zero and the capacity
exactly if no call of `tryConsume` finds it below zero (`bucket_bounded_iff`).
-/

namespace PyMotor.Coordinator

inductive BucketCall where
  | tryConsume (now : ℚ)
  | getAvailableTokens (now : ℚ)
  | updateParams (capacity : ℤ) (refillRate now : ℚ)
  deriving DecidableEq

namespace BucketCall

/-- The limits are changed. -/
def Updates : BucketCall → Prop
  | updateParams capacity refillRate _ => 0 ≤ capacity ∧ 0 ≤ refillRate
  | _ => False

/-- The time that is read; a call that is rejected does not look at the clock. -/
def reading : BucketCall → Option ℚ
  | tryConsume now => some now
  | getAvailableTokens now => some now
  | updateParams capacity refillRate now =>
    if 0 ≤ capacity ∧ 0 ≤ refillRate then some now else none

end BucketCall

/-- How far the clock went forward, over all its readings. -/
def forward : List ℚ → ℚ
  | t :: t' :: ts => max 0 (t' - t) + forward (t' :: ts)
  | _ => 0

theorem forward_nonneg : ∀ ts : List ℚ, 0 ≤ forward ts
  | [] => le_refl _
  | [_] => le_refl _
  | _ :: t' :: ts => add_nonneg (le_max_left _ _) (forward_nonneg (t' :: ts))

theorem forward_le_cons (t : ℚ) (ts : List ℚ) : forward ts ≤ forward (t :: ts) := by
  cases ts with
  | nil => exact le_refl _
  | cons t' ts => exact le_add_of_nonneg_left (le_max_left _ _)

namespace TokenBucket

def exec (b : TokenBucket) : BucketCall → TokenBucket
  | .tryConsume now => (b.tryConsume 1 now).2
  | .getAvailableTokens _ => b
  | .updateParams capacity refillRate now => b.updateParams capacity refillRate now

/-- Whether the call admits a request. -/
def admits (b : TokenBucket) : BucketCall → Bool
  | .tryConsume now => (b.tryConsume 1 now).1
  | _ => false

/-- The bucket after a list of calls. -/
def execAll (b : TokenBucket) (calls : List BucketCall) : TokenBucket := calls.foldl exec b

/-- How many requests a list of calls admits. -/
def admitted : TokenBucket → List BucketCall → ℕ
  | _, [] => 0
  | b, c :: cs => (if b.admits c then 1 else 0) + admitted (b.exec c) cs

variable {b : TokenBucket}

theorem balance_le (now now' : ℚ) :
    b.balance now' ≤ b.balance now + b.refillRate * max 0 (now' - now) := by
  have hgain : (now' - now) * b.refillRate ≤ b.refillRate * max 0 (now' - now) := by
    rw [mul_comm]
    exact mul_le_mul_of_nonneg_left (le_max_right _ _) b.refillRate_nonneg
  unfold balance
  linarith

theorem balance_tryConsume (now : ℚ) :
    (b.tryConsume 1 now).2.balance now =
      b.settled now - if (b.tryConsume 1 now).1 then 1 else 0 := by
  rw [balance, tryConsume_lastRefill, sub_self, zero_mul, add_zero, tryConsume_tokens, Nat.cast_one]

/-! ## A stretch of calls -/

theorem admitted_tryConsume (now : ℚ) (cs : List BucketCall) :
    (b.admitted (.tryConsume now :: cs) : ℚ) =
      (if (b.tryConsume 1 now).1 then 1 else 0) + ((b.tryConsume 1 now).2.admitted cs : ℚ) := by
  show (((if (b.tryConsume 1 now).1 then 1 else 0) +
    (b.tryConsume 1 now).2.admitted cs : ℕ) : ℚ) = _
  push_cast
  rfl

theorem admitted_getAvailableTokens (now : ℚ) (cs : List BucketCall) :
    b.admitted (.getAvailableTokens now :: cs) = b.admitted cs :=
  Nat.zero_add _

theorem admitted_rejected {capacity : ℤ} {refillRate now : ℚ} (cs : List BucketCall)
    (h : ¬BucketCall.Updates (.updateParams capacity refillRate now)) :
    b.admitted (.updateParams capacity refillRate now :: cs) = b.admitted cs ∧
      (BucketCall.updateParams capacity refillRate now :: cs).filterMap BucketCall.reading =
        cs.filterMap BucketCall.reading := by
  have hrejected : b.updateParams capacity refillRate now = b := dif_neg h
  have hunread : BucketCall.reading (.updateParams capacity refillRate now) = none := if_neg h
  constructor
  · show 0 + (b.updateParams capacity refillRate now).admitted cs = _
    rw [hrejected, Nat.zero_add]
  · rw [List.filterMap_cons_none hunread]

theorem one_le_settled {now : ℚ} (h : (b.tryConsume 1 now).1 = true) : 1 ≤ b.settled now := by
  have := (b.tryConsume_iff 1 now).mp h
  rwa [Nat.cast_one] at this

/-- From a time on: unless nothing is admitted, it is paid from the balance at that time and from what the
clock has brought since. -/
theorem admitted_le_balance {cs : List BucketCall} (hcs : ∀ c ∈ cs, ¬c.Updates) (t : ℚ) :
    b.admitted cs = 0 ∨
      (b.admitted cs : ℚ) ≤
        b.balance t + b.refillRate * forward (t :: cs.filterMap BucketCall.reading) := by
  induction cs generalizing b t with
  | nil => exact Or.inl rfl
  | cons c cs ih =>
    have hrest : ∀ c ∈ cs, ¬c.Updates := fun c hc => hcs c (List.mem_cons_of_mem _ hc)
    cases c with
    | tryConsume now =>
      have hpaid := ih (b := (b.tryConsume 1 now).2) hrest now
      rw [balance_tryConsume, tryConsume_refillRate] at hpaid
      have hsettled : b.settled now ≤ b.balance t + b.refillRate * max 0 (now - t) :=
        (min_le_right _ _).trans (b.balance_le t now)
      have hlater := mul_nonneg b.refillRate_nonneg
        (forward_nonneg (now :: cs.filterMap BucketCall.reading))
      have hforward : forward (t :: (BucketCall.tryConsume now :: cs).filterMap
          BucketCall.reading) =
        max 0 (now - t) + forward (now :: cs.filterMap BucketCall.reading) := rfl
      rw [hforward, mul_add, ← Nat.cast_eq_zero (R := ℚ), admitted_tryConsume]
      rw [← Nat.cast_eq_zero (R := ℚ)] at hpaid
      by_cases hadmits : (b.tryConsume 1 now).1 = true
      · have htoken := one_le_settled hadmits
        rw [if_pos hadmits] at hpaid ⊢
        right
        rcases hpaid with hzero | hpaid
        · linarith
        · linarith
      · rw [if_neg hadmits] at hpaid ⊢
        rw [zero_add]
        exact hpaid.imp_right fun hpaid => by linarith
    | getAvailableTokens now =>
      have hmove := b.balance_le t now
      have hforward : forward (t :: (BucketCall.getAvailableTokens now :: cs).filterMap
          BucketCall.reading) =
        max 0 (now - t) + forward (now :: cs.filterMap BucketCall.reading) := rfl
      rw [admitted_getAvailableTokens, hforward, mul_add]
      exact (ih (b := b) hrest now).imp_right fun hpaid => by linarith
    | updateParams capacity refillRate now =>
      obtain ⟨hsame, hunread⟩ := b.admitted_rejected cs (hcs _ List.mem_cons_self)
      rw [hsame, hunread]
      exact ih hrest t

/-- **What a stretch of calls admits** is at most what the bucket holds and what the clock brings between
its first reading and its last. -/
theorem admitted_le {cs : List BucketCall} (hcs : ∀ c ∈ cs, ¬c.Updates) :
    (b.admitted cs : ℚ) ≤
      b.capacity + b.refillRate * forward (cs.filterMap BucketCall.reading) := by
  have hcapacity : (0 : ℚ) ≤ b.capacity := mod_cast b.capacity_nonneg
  induction cs with
  | nil => simpa [admitted, forward] using hcapacity
  | cons c cs ih =>
    have hrest : ∀ c ∈ cs, ¬c.Updates := fun c hc => hcs c (List.mem_cons_of_mem _ hc)
    cases c with
    | tryConsume now =>
      -- the first call finds no more than the capacity
      have hpaid := admitted_le_balance (b := (b.tryConsume 1 now).2) hrest now
      rw [balance_tryConsume, tryConsume_refillRate, ← Nat.cast_eq_zero (R := ℚ)] at hpaid
      have hfull := b.settled_le now
      have hlater := mul_nonneg b.refillRate_nonneg
        (forward_nonneg (now :: cs.filterMap BucketCall.reading))
      have hforward : forward ((BucketCall.tryConsume now :: cs).filterMap
          BucketCall.reading) = forward (now :: cs.filterMap BucketCall.reading) := rfl
      rw [admitted_tryConsume, hforward]
      by_cases hadmits : (b.tryConsume 1 now).1 = true
      · have htoken := one_le_settled hadmits
        rw [if_pos hadmits] at hpaid ⊢
        rcases hpaid with hzero | hpaid
        · linarith
        · linarith
      · rw [if_neg hadmits] at hpaid ⊢
        rcases hpaid with hzero | hpaid
        · linarith
        · linarith
    | getAvailableTokens now =>
      have hmore := mul_le_mul_of_nonneg_left
        (forward_le_cons now (cs.filterMap BucketCall.reading)) b.refillRate_nonneg
      have hforward : forward ((BucketCall.getAvailableTokens now :: cs).filterMap
          BucketCall.reading) = forward (now :: cs.filterMap BucketCall.reading) := rfl
      rw [admitted_getAvailableTokens, hforward]
      linarith [ih hrest]
    | updateParams capacity refillRate now =>
      obtain ⟨hsame, hunread⟩ := b.admitted_rejected cs (hcs _ List.mem_cons_self)
      rw [hsame, hunread]
      exact ih hrest

/-! ## The balance -/

/-- A call of `tryConsume` does not find the balance below zero. -/
def Covers (b : TokenBucket) : BucketCall → Prop
  | .tryConsume now => 0 ≤ b.balance now
  | _ => True

theorem resized_nonneg {capacity : ℤ} (now : ℚ) (h : 0 ≤ b.tokens) (hcapacity : 0 ≤ capacity) :
    0 ≤ b.resized capacity now := by
  have hnew : (0 : ℚ) ≤ capacity := mod_cast hcapacity
  have hsettled : 0 ≤ b.settledForward now := by
    unfold settledForward
    split
    · next helapsed =>
      exact le_min (mod_cast b.capacity_nonneg)
        (add_nonneg h (mul_nonneg helapsed.le b.refillRate_nonneg))
    · exact h
  unfold resized
  simp only
  split
  · exact hnew
  · split
    · next hgrows =>
      have hadded : (b.capacity : ℚ) ≤ capacity := mod_cast hgrows.le
      exact le_min hnew (add_nonneg hsettled (sub_nonneg.mpr hadded))
    · exact hsettled

theorem exec_nonneg_iff (h : 0 ≤ b.tokens) (c : BucketCall) : 0 ≤ (b.exec c).tokens ↔ b.Covers c := by
  cases c with
  | tryConsume now =>
    show 0 ≤ (b.tryConsume 1 now).2.tokens ↔ 0 ≤ b.balance now
    rw [tryConsume_tokens, Nat.cast_one]
    have hsettled : 0 ≤ b.settled now ↔ 0 ≤ b.balance now := by
      rw [settled, le_min_iff]
      exact and_iff_right (mod_cast b.capacity_nonneg)
    split
    · next hadmits =>
      have htoken := one_le_settled hadmits
      rw [← hsettled]
      constructor <;> intro _ <;> linarith
    · rw [sub_zero, hsettled]
  | getAvailableTokens now => exact iff_of_true h trivial
  | updateParams capacity refillRate now =>
    refine iff_of_true ?_ trivial
    show 0 ≤ (b.updateParams capacity refillRate now).tokens
    unfold updateParams
    split
    · next hlimits => exact resized_nonneg now h hlimits.1
    · exact h

/-- What is expected of a bucket over a list of calls. -/
structure Bounded (b : TokenBucket) (calls : List BucketCall) : Prop where
  balanced : ∀ pre, pre <+: calls →
    0 ≤ (b.execAll pre).tokens ∧ (b.execAll pre).tokens ≤ (b.execAll pre).capacity
  admits : ∀ pre stretch post, calls = pre ++ stretch ++ post → (∀ c ∈ stretch, ¬c.Updates) →
    ((b.execAll pre).admitted stretch : ℚ) ≤ (b.execAll pre).capacity +
      (b.execAll pre).refillRate * forward (stretch.filterMap BucketCall.reading)
  rejects : ∀ pre capacity refillRate now post,
    calls = pre ++ .updateParams capacity refillRate now :: post → capacity < 0 ∨ refillRate < 0 →
    b.execAll (pre ++ [.updateParams capacity refillRate now]) = b.execAll pre

theorem execAll_snoc (b : TokenBucket) (calls : List BucketCall) (c : BucketCall) :
    b.execAll (calls ++ [c]) = (b.execAll calls).exec c := by
  rw [execAll, List.foldl_append]
  rfl

theorem balanced_iff (h : 0 ≤ b.tokens) (calls : List BucketCall) :
    (∀ pre, pre <+: calls → 0 ≤ (b.execAll pre).tokens) ↔
      ∀ pre c post, calls = pre ++ c :: post → (b.execAll pre).Covers c := by
  constructor
  · rintro hbalanced pre c post rfl
    rw [← exec_nonneg_iff (hbalanced pre (List.prefix_append _ _)), ← execAll_snoc]
    exact hbalanced _ ⟨post, by rw [List.append_assoc, List.singleton_append]⟩
  · intro hcovers pre
    induction pre using List.reverseRecOn with
    | nil => exact fun _ => h
    | append_singleton pre c ih =>
      rintro ⟨post, rfl⟩
      rw [List.append_assoc, List.singleton_append] at hcovers ih
      rw [execAll_snoc, exec_nonneg_iff (ih (List.prefix_append _ _))]
      exact hcovers pre c post rfl

end TokenBucket

/-- A limit is out of range. -/
def SimpleRateLimiter.Rejects (maxRequests windowSize : Option ℤ) : Prop :=
  (∃ m, maxRequests = some m ∧ m < 0) ∨ ∃ w, windowSize = some w ∧ w ≤ 0

theorem SimpleRateLimiter.updateConfig_rejected (l : SimpleRateLimiter)
    {maxRequests windowSize : Option ℤ} (now : ℚ) (h : Rejects maxRequests windowSize) :
    l.updateConfig maxRequests windowSize now = l := by
  unfold updateConfig
  split
  · rfl
  · split
    · next hmax =>
      split
      · next hwindow =>
        rcases h with ⟨m, rfl, hm⟩ | ⟨w, rfl, hw⟩
        · exact absurd hmax (not_le.mpr hm)
        · exact absurd hwindow (not_lt.mpr hw)
      · rfl
    · rfl

open TokenBucket in
/-- **The bound of the rate limiter**, over every list of calls: a bucket keeps to it exactly if the clock
never goes back, before a call of `tryConsume`, by more than the balance is worth. -/
theorem bucket_bounded_iff (capacity : ℤ) (refillRate now : ℚ) (hcapacity : 0 ≤ capacity)
    (hrate : 0 ≤ refillRate) (calls : List BucketCall) :
    ((TokenBucket.new capacity refillRate now hcapacity hrate).Bounded calls ∧
      ∀ (l : SimpleRateLimiter) (maxRequests windowSize : Option ℤ) (t : ℚ),
        SimpleRateLimiter.Rejects maxRequests windowSize →
          l.updateConfig maxRequests windowSize t = l) ↔
    ∀ pre c post, calls = pre ++ c :: post →
      ((TokenBucket.new capacity refillRate now hcapacity hrate).execAll pre).Covers c := by
  have hstart : 0 ≤ (TokenBucket.new capacity refillRate now hcapacity hrate).tokens :=
    show (0 : ℚ) ≤ capacity from mod_cast hcapacity
  rw [← balanced_iff hstart]
  constructor
  · exact fun h pre hpre => (h.1.balanced pre hpre).1
  · intro hbalanced
    refine ⟨⟨fun pre hpre => ⟨hbalanced pre hpre, tokens_le _⟩,
      fun pre stretch post _ hstretch => admitted_le hstretch,
      fun pre capacity' refillRate' now' post _ hrejected => ?_⟩,
      fun l _ _ t hrejected => l.updateConfig_rejected t hrejected⟩
    rw [execAll_snoc]
    exact updateParams_rejected _ now' hrejected

/-- Two requests, with the clock a second back before the second. -/
theorem smallStepBack_bounded :
    (TokenBucket.new 10 1 100 (by decide) (by decide)).Bounded
      [.tryConsume 100, .tryConsume 99] := by
  refine ((bucket_bounded_iff 10 1 100 (by decide) (by decide) _).mpr ?_).1
  intro pre c post hsplit
  match pre, hsplit with
  | [], hsplit =>
    cases hsplit
    show (0 : ℚ) ≤ 10 + (100 - 100) * 1
    norm_num
  | [_], hsplit =>
    cases hsplit
    show (0 : ℚ) ≤ TokenBucket.balance _ 99
    decide +kernel
  | [_, _], hsplit => cases hsplit
  | _ :: _ :: _ :: _, hsplit => cases hsplit

/-- The clock goes back by a hundred seconds: 90 tokens less than none are left. -/
theorem clockBack_overdrawn :
    ((TokenBucket.new 10 1 100 (by decide) (by decide)).execAll [.tryConsume 0]).tokens = -90 ∧
      ¬(TokenBucket.new 10 1 100 (by decide) (by decide)).Bounded [.tryConsume 0] := by
  have htokens :
      ((TokenBucket.new 10 1 100 (by decide) (by decide)).execAll [.tryConsume 0]).tokens = -90 := by
    decide +kernel
  refine ⟨htokens, fun hbounded => ?_⟩
  have := (hbounded.balanced _ (List.prefix_refl _)).1
  rw [htokens] at this
  norm_num at this

end PyMotor.Coordinator
