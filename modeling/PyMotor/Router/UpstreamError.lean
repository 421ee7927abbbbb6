import PyMotor.Router.StreamResponse

/-!
# Failures of an attempt

What can go wrong while a request is with an engine, and which of it is worth another attempt
(`coordinator/router/upstream_error.py` and `check_cancel_error` of `strategies/base.py`).
-/

namespace PyMotor.Router

def retryableUpstreamStatusCodes : List ℕ := [408, 425, 429, 500, 502, 503, 504]

/-- The transport errors of the HTTP client. -/
inductive RequestError where
  | connectTimeout
  | readTimeout
  | writeTimeout
  | poolTimeout
  | connectError
  | readError
  | writeError
  | closeError
  | remoteProtocolError
  | localProtocolError
  | proxyError
  | unsupportedProtocol
  | decodingError
  | tooManyRedirects
  deriving DecidableEq

namespace RequestError

def isTimeout : RequestError → Bool
  | connectTimeout | readTimeout | writeTimeout | poolTimeout => true
  | _ => false

def isRetryable : RequestError → Bool
  | connectTimeout | readTimeout | writeTimeout | poolTimeout
  | connectError | readError | writeError | remoteProtocolError => true
  | _ => false

end RequestError

/-- The reason that a cancellation carries. -/
inductive CancelReason where
  | clientDisconnect
  | dispatchAbort
  | scopeAbort
  | nodeFault
  /-- Any other text, or none. -/
  | unknown
  deriving DecidableEq

/-- `check_cancel_error`. -/
def CancelReason.isRetryable : CancelReason → Bool
  | clientDisconnect | dispatchAbort | scopeAbort => false
  | nodeFault | unknown => true

/-- An exception that ends an attempt, as far as the routers tell them apart. -/
inductive Failure where
  | cancelled (reason : CancelReason)
  | upstream (status : FailureStatus)
  | request (e : RequestError)
  /-- An `HTTPException` of the coordinator itself. -/
  | http
  | other

def Failure.isTimeout : Failure → Bool
  | request e => e.isTimeout
  | _ => false

/-- `is_retryable_upstream_error`. -/
def Failure.isRetryableUpstreamError : Failure → Bool
  | upstream status => decide (status.code ∈ retryableUpstreamStatusCodes)
  | request e => e.isRetryable
  | cancelled _ | http | other => false

end PyMotor.Router
