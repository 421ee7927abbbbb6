import Mathlib.Data.Rat.Floor

/-!
# The rate limiter

Requests are admitted by a token bucket (`coordinator/middleware/rate_limiter.py`). The limits can be
changed while the limiter runs. After each request the limiter compares the tokens that are left with two
thresholds and tells the controller when congestion starts and ends.

Numbers are exact here, and `time.time()` is an argument of every call that reads it: nothing says that
the clock only goes forward. The limits are checked before they are set, so a bucket cannot be built with
a negative capacity, nor a limiter whose bucket has other limits than it has itself.
-/

namespace PyMotor.Coordinator

/-- `int()`: towards zero. -/
def truncate (q : ℚ) : ℤ := if 0 ≤ q then ⌊q⌋ else ⌈q⌉

/-! ## The bucket -/

structure TokenBucket where
  capacity : ℤ
  refillRate : ℚ
  tokens : ℚ
  lastRefill : ℚ
  capacity_nonneg : 0 ≤ capacity
  refillRate_nonneg : 0 ≤ refillRate
  tokens_le : tokens ≤ capacity

namespace TokenBucket

def new (capacity : ℤ) (refillRate now : ℚ) (hcapacity : 0 ≤ capacity) (hrate : 0 ≤ refillRate) :
    TokenBucket :=
  ⟨capacity, refillRate, capacity, now, hcapacity, hrate, le_refl _⟩

variable (b : TokenBucket)

/-- The tokens with those for the time that has passed, if it has: `elapsed` may be negative. -/
def balance (now : ℚ) : ℚ := b.tokens + (now - b.lastRefill) * b.refillRate

/-- The balance, as far as the bucket holds it. -/
def settled (now : ℚ) : ℚ := min b.capacity (b.balance now)

theorem settled_le (now : ℚ) : b.settled now ≤ b.capacity := min_le_left _ _

def tryConsume (tokens : ℕ) (now : ℚ) : Bool × TokenBucket :=
  if tokens ≤ b.settled now then
    (true, { b with
      tokens := b.settled now - tokens
      lastRefill := now
      tokens_le := (sub_le_self _ (Nat.cast_nonneg _)).trans (b.settled_le now) })
  else
    (false, { b with tokens := b.settled now, lastRefill := now, tokens_le := b.settled_le now })

def getAvailableTokens (now : ℚ) : ℤ := truncate (b.settled now)

/-- Here a clock that went back takes nothing away. -/
def settledForward (now : ℚ) : ℚ :=
  if 0 < now - b.lastRefill then b.settled now else b.tokens

/-- The tokens under a new capacity. -/
def resized (capacity : ℤ) (now : ℚ) : ℚ :=
  let tokens := b.settledForward now
  if capacity < tokens then capacity
  else if b.capacity < capacity then min capacity (tokens + (capacity - b.capacity))
  else tokens

theorem resized_le (capacity : ℤ) (now : ℚ) : b.resized capacity now ≤ capacity := by
  unfold resized
  simp only
  split
  · exact le_refl _
  · next h =>
    split
    · exact min_le_left _ _
    · exact not_lt.mp h

/-- Negative limits are rejected. -/
def updateParams (capacity : ℤ) (refillRate now : ℚ) : TokenBucket :=
  if h : 0 ≤ capacity ∧ 0 ≤ refillRate then
    { capacity := capacity
      refillRate := refillRate
      tokens := b.resized capacity now
      lastRefill := now
      capacity_nonneg := h.1
      refillRate_nonneg := h.2
      tokens_le := b.resized_le capacity now }
  else b

@[simp] theorem tryConsume_capacity (n : ℕ) (now : ℚ) :
    (b.tryConsume n now).2.capacity = b.capacity := by
  unfold tryConsume
  split <;> rfl

@[simp] theorem tryConsume_refillRate (n : ℕ) (now : ℚ) :
    (b.tryConsume n now).2.refillRate = b.refillRate := by
  unfold tryConsume
  split <;> rfl

@[simp] theorem tryConsume_lastRefill (n : ℕ) (now : ℚ) :
    (b.tryConsume n now).2.lastRefill = now := by
  unfold tryConsume
  split <;> rfl

theorem tryConsume_tokens (n : ℕ) (now : ℚ) :
    (b.tryConsume n now).2.tokens =
      b.settled now - if (b.tryConsume n now).1 then (n : ℚ) else 0 := by
  unfold tryConsume
  split
  · rfl
  · exact (sub_zero _).symm

theorem tryConsume_iff (n : ℕ) (now : ℚ) : (b.tryConsume n now).1 = true ↔ n ≤ b.settled now := by
  unfold tryConsume
  split
  · next h => exact ⟨fun _ => h, fun _ => rfl⟩
  · next h => exact ⟨fun hfalse => absurd hfalse Bool.false_ne_true, fun hle => absurd hle h⟩

theorem updateParams_capacity {capacity : ℤ} {refillRate : ℚ} (now : ℚ)
    (h : 0 ≤ capacity ∧ 0 ≤ refillRate) :
    (b.updateParams capacity refillRate now).capacity = capacity := by
  rw [updateParams, dif_pos h]

theorem updateParams_refillRate {capacity : ℤ} {refillRate : ℚ} (now : ℚ)
    (h : 0 ≤ capacity ∧ 0 ≤ refillRate) :
    (b.updateParams capacity refillRate now).refillRate = refillRate := by
  rw [updateParams, dif_pos h]

theorem updateParams_rejected {capacity : ℤ} {refillRate : ℚ} (now : ℚ)
    (h : capacity < 0 ∨ refillRate < 0) : b.updateParams capacity refillRate now = b := by
  rw [updateParams, dif_neg]
  rintro ⟨hcapacity, hrate⟩
  rcases h with h | h
  · exact absurd hcapacity (not_le.mpr h)
  · exact absurd hrate (not_le.mpr h)

end TokenBucket

/-! ## The limiter -/

/-- What is reported to the controller. -/
inductive CongestionEvent where
  | raised (available maxRequests : ℤ)
  | cleared (available maxRequests : ℤ)
  deriving DecidableEq, Repr

namespace CongestionEvent

def isRaised : CongestionEvent → Bool
  | raised _ _ => true
  | cleared _ _ => false

/-- `RequestCongestionReason.DEALING_WITH_CONGESTION`, for both. -/
def reasonId (_ : CongestionEvent) : ℕ := 1

def additionalInformation : CongestionEvent → String
  | raised available maxRequests =>
    s!"The current number of inference requests in the system is{available}," ++
      s!"which is greater than the configured maximum number of requests {maxRequests}*85%."
  | cleared available maxRequests =>
    s!"The current number of inference requests in the system is {available}," ++
      s!"which is less than the configured maximum number of requests {maxRequests}*75%."

end CongestionEvent

structure LimitInfo where
  allowed : Bool
  available : ℤ
  limit : ℤ
  windowSize : ℤ
  scope : String
  timestamp : ℚ
  deriving DecidableEq

/-- The bucket has the limits of the limiter. -/
structure SimpleRateLimiter where
  maxRequests : ℤ
  windowSize : ℤ
  congestionAlarmSent : Bool
  bucket : TokenBucket
  maxRequests_nonneg : 0 ≤ maxRequests
  windowSize_pos : 0 < windowSize
  bucket_capacity : bucket.capacity = maxRequests
  bucket_refillRate : bucket.refillRate = (maxRequests : ℚ) / windowSize

namespace SimpleRateLimiter

theorem refillRate_nonneg {maxRequests windowSize : ℤ} (hmax : 0 ≤ maxRequests)
    (hwindow : 0 < windowSize) : 0 ≤ (maxRequests : ℚ) / windowSize :=
  div_nonneg (mod_cast hmax) (mod_cast hwindow.le)

def new (maxRequests windowSize : ℤ) (now : ℚ) (hmax : 0 ≤ maxRequests) (hwindow : 0 < windowSize) :
    SimpleRateLimiter where
  maxRequests := maxRequests
  windowSize := windowSize
  congestionAlarmSent := false
  bucket := .new maxRequests (maxRequests / windowSize) now hmax (refillRate_nonneg hmax hwindow)
  maxRequests_nonneg := hmax
  windowSize_pos := hwindow
  bucket_capacity := rfl
  bucket_refillRate := rfl

variable (l : SimpleRateLimiter)

/-- `DEFAULT_REQ_CONGESTION_TRIGGER_RATIO` -/
def triggerThreshold : ℤ := truncate (l.maxRequests * (85 / 100))

/-- `DEFAULT_REQ_CONGESTION_CLEAR_RATIO` -/
def clearThreshold : ℤ := truncate (l.maxRequests * (75 / 100))

/-- The limiter after a request has asked for a token. -/
def consume (now : ℚ) (sent : Bool) : SimpleRateLimiter :=
  { l with
    congestionAlarmSent := sent
    bucket := (l.bucket.tryConsume 1 now).2
    bucket_capacity := (l.bucket.tryConsume_capacity 1 now).trans l.bucket_capacity
    bucket_refillRate := (l.bucket.tryConsume_refillRate 1 now).trans l.bucket_refillRate }

/-- The tokens that are left when a request has asked for one at `now`, read at `later`. -/
def availableAfter (now later : ℚ) : ℤ := (l.bucket.tryConsume 1 now).2.getAvailableTokens later

/-- The clock is read three times. -/
def isAllowed (now later timestamp : ℚ) : LimitInfo × Option CongestionEvent × SimpleRateLimiter :=
  let available := l.availableAfter now later
  let info : LimitInfo := {
    allowed := (l.bucket.tryConsume 1 now).1
    available := available
    limit := l.maxRequests
    windowSize := l.windowSize
    scope := "global"
    timestamp := timestamp }
  if !l.congestionAlarmSent && decide (l.triggerThreshold ≤ available) then
    (info, some (.raised available l.maxRequests), l.consume now true)
  else if l.congestionAlarmSent && decide (available < l.clearThreshold) then
    (info, some (.cleared available l.maxRequests), l.consume now false)
  else (info, none, l.consume now l.congestionAlarmSent)

/-- `None` leaves a limit as it is, which is in range. One that is out of range is rejected, and with it
the other one. -/
def updateConfig (maxRequests windowSize : Option ℤ) (now : ℚ) : SimpleRateLimiter :=
  if maxRequests = none ∧ windowSize = none then l
  else if hmax : 0 ≤ maxRequests.getD l.maxRequests then
    if hwindow : 0 < windowSize.getD l.windowSize then
      let rate : ℚ := (maxRequests.getD l.maxRequests : ℚ) / (windowSize.getD l.windowSize : ℤ)
      { l with
        maxRequests := maxRequests.getD l.maxRequests
        windowSize := windowSize.getD l.windowSize
        bucket := l.bucket.updateParams (maxRequests.getD l.maxRequests) rate now
        maxRequests_nonneg := hmax
        windowSize_pos := hwindow
        bucket_capacity :=
          l.bucket.updateParams_capacity now ⟨hmax, refillRate_nonneg hmax hwindow⟩
        bucket_refillRate :=
          l.bucket.updateParams_refillRate now ⟨hmax, refillRate_nonneg hmax hwindow⟩ }
    else l
  else l

end SimpleRateLimiter

end PyMotor.Coordinator
