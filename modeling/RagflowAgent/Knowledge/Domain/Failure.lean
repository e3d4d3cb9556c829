import Mathlib.Data.Rat.Defs
import RagflowAgent.Fallible

/-!
# Errors and their retry class

Everything the knowledge services raise is one inductive type here, because the
pipeline looks at what it caught: an error has a text, perhaps a stable code, and a
class name, and `classifyFailure` decides from these whether a delivery may be tried
again.

* `Error` are the exceptions, with `Error.message`, `Error.errorCode` and
  `Error.typeName` for `str(error)`, `error.error_code` and `type(error).__name__`;
* `classifyFailure` and `mayRetry` are the retry policy;
* `nonEmptyText` is what a `NonEmptyStr` field does to a text.

The clock is read in whole ticks throughout, and an instant is a natural number.
-/

namespace RagflowAgent
namespace Knowledge

/-- What a service can raise.  The three knowledge errors are the ones `errors.py`
defines; `validation` stands for pydantic's `ValidationError` and for `ValueError`,
`missingAttribute` for `AttributeError`; `http` is any error of a provider with a
`status_code`, and `other` is the rest. -/
inductive Error where
  | authorization (reasonCode : String)
  | notFound (resourceType resourceId : String)
  | conflict (message errorCode : String)
  | validation (message : String)
  | missingAttribute (message : String)
  | timeout (typeName message : String)
  | connection (typeName message : String)
  | http (typeName message : String) (statusCode : ℕ)
  | retryableIngestion (message : String)
  | other (typeName message : String)
  deriving DecidableEq, Repr

namespace Error

/-- `str(error)`. -/
def message : Error → String
  | authorization _ => "knowledge resource access is denied"
  | notFound resourceType _ => resourceType ++ " was not found"
  | conflict message _ => message
  | validation message => message
  | missingAttribute message => message
  | timeout _ message => message
  | connection _ message => message
  | http _ message _ => message
  | retryableIngestion message => message
  | other _ message => message

/-- `getattr(error, "error_code", None)`. -/
def errorCode : Error → Option String
  | authorization reasonCode => some reasonCode
  | notFound _ _ => some "knowledge_resource_not_found"
  | conflict _ errorCode => some errorCode
  | _ => none

/-- `type(error).__name__`. -/
def typeName : Error → String
  | authorization _ => "KnowledgeAuthorizationError"
  | notFound _ _ => "KnowledgeNotFoundError"
  | conflict _ _ => "KnowledgeConflictError"
  | validation _ => "ValidationError"
  | missingAttribute _ => "AttributeError"
  | timeout typeName _ => typeName
  | connection typeName _ => typeName
  | http typeName _ _ => typeName
  | retryableIngestion _ => "RetryableIngestionError"
  | other typeName _ => typeName

end Error

/-! ## Classification -/

inductive FailureClass where
  | transient
  | concurrency
  | permanent
  | cancelled
  | unknown
  deriving DecidableEq, Repr

structure RetryPolicy where
  maxAttempts : ℕ := 6
  concurrencyAttempts : ℕ := 3
  baseSeconds : ℚ := 1
  maxSeconds : ℚ := 300
  deriving DecidableEq, Repr

structure FailureDecision where
  classification : FailureClass
  retryable : Bool
  code : String
  deriving DecidableEq, Repr

/-- The codes of a lost race, which is worth another attempt. -/
def concurrencyCodes : List String :=
  ["document_revision_conflict", "lifecycle_fencing_conflict", "index_alias_conflict",
    "operation_lease_lost"]

/-- The class of a failure.  The branches are taken in the order of the source: the
knowledge errors carry a status code of their own, which is never looked at. -/
def classifyFailure : Error → FailureDecision
  | .authorization reasonCode => ⟨.permanent, false, reasonCode⟩
  | .notFound _ _ => ⟨.permanent, false, "knowledge_resource_not_found"⟩
  | .conflict _ errorCode =>
    let retryable := decide (errorCode ∈ concurrencyCodes)
    ⟨if retryable then .concurrency else .permanent, retryable, errorCode⟩
  | .timeout typeName _ => ⟨.transient, true, typeName⟩
  | .connection typeName _ => ⟨.transient, true, typeName⟩
  | .http _ _ statusCode =>
    let retryable := decide (statusCode ∈ [408, 409, 425, 429] ∨ 500 ≤ statusCode)
    ⟨if retryable then .transient else .permanent, retryable, "http_" ++ toString statusCode⟩
  | error => ⟨.unknown, false, error.typeName⟩

/-- A failure is retried while its class allows another attempt. -/
def mayRetry (decision : FailureDecision) (attempt : ℕ) (policy : RetryPolicy) : Bool :=
  let limit :=
    if decision.classification = .concurrency then policy.concurrencyAttempts
    else policy.maxAttempts
  decision.retryable && decide (attempt < limit)

/-- Only a retryable decision is retried. -/
theorem retryable_of_mayRetry {decision : FailureDecision} {attempt : ℕ}
    {policy : RetryPolicy} (h : mayRetry decision attempt policy = true) :
    decision.retryable = true := by
  rw [mayRetry, Bool.and_eq_true] at h
  exact h.1

/-- A conflict is retried only for the code of a lost race. -/
theorem mem_concurrencyCodes_of_retryable {message errorCode : String}
    (h : (classifyFailure (.conflict message errorCode)).retryable = true) :
    errorCode ∈ concurrencyCodes := by
  simpa only [classifyFailure, decide_eq_true_eq] using h

/-! ## Texts -/

/-- The characters with the Unicode property `White_Space`. -/
def isWhiteSpace (c : Char) : Bool :=
  let n := c.toNat
  (0x09 ≤ n && n ≤ 0x0D) || n == 0x20 || n == 0x85 || n == 0xA0 || n == 0x1680 ||
    (0x2000 ≤ n && n ≤ 0x200A) || n == 0x2028 || n == 0x2029 || n == 0x202F ||
    n == 0x205F || n == 0x3000

/-- A text without the white space at its ends. -/
def strip (s : String) : String :=
  String.ofList (((s.toList.dropWhile isWhiteSpace).reverse.dropWhile isWhiteSpace).reverse)

/-- A `NonEmptyStr` field: the text is stripped, and must not become empty. -/
def nonEmptyText (s : String) : Except Error String :=
  if strip s = "" then .error (.validation "String should have at least 1 character")
  else .ok (strip s)

end Knowledge
end RagflowAgent
