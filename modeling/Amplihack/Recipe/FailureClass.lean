import Amplihack.Base.Search
import Amplihack.Governor.Round

/-
  How a failed recipe run is classified.

  A text is the list of its characters.  A result keeps the
  fields that the classification reads.
-/

-- Classes

namespace Recipe

open Base Governor

abbrev Text := List Char

inductive FailureClass where
| transientTransport
| environmental
| work
| usageLimit
| indeterminate
  deriving DecidableEq

namespace FailureClass

/- Only a transient transport fault may be retried by code. -/
def isMechanicallyRetryable : FailureClass → Bool
| transientTransport => true
| _ => false

end FailureClass

structure FailureVerdict where
  cls : FailureClass
  signal : Option String
  evidence : Text
  failedSteps : List Text
  completedSteps : List Text

structure RecipeRunStepResult where
  stepId : Text
  status : Text
  output : Text
  error : Text
  recentStdout : List Text
  recentStderr : List Text

structure RecipeRunResult where
  stepResults : List RecipeRunStepResult
  status : Option Text

-- Markers

def transientMarkers : List String :=
  [ "api error: 529", "529 overloaded", "overloaded_error",
    "api error: 503", "503 service unavailable",
    "api error: 502", "502 bad gateway", "api error: 500",
    "500 internal server error", "504 gateway timeout",
    "api error: 429", "429 too many requests",
    "rate_limit_error", "rate limit exceeded", "server_error",
    "service temporarily unavailable",
    "connection reset by peer",
    "connection closed before message completed",
    "econnreset", "etimedout", "epipe", "socket hang up",
    "tls handshake timed out",
    "temporary failure in name resolution",
    "upstream connect error", "request timed out" ]

def environmentalMarkers : List String :=
  [ "api error: 401", "401 unauthorized",
    "authentication_error", "invalid api key",
    "invalid x-api-key", "api error: 403", "403 forbidden",
    "permission_error", "api error: 404", "404 not found",
    "not_found_error", "credit balance is too low",
    "command not found", "no such file or directory",
    "permission denied", "no space left on device",
    "disk quota exceeded", "gh auth login", "not logged in" ]

def repoSelectionMarkers : List String :=
  [ "has no 'origin' remote", "point repo_path at", "add an 'origin' remote" ]

def workMarkers : List String :=
  [ "test result: failed", "test failed", "tests failed",
    "assertion failed", "assertionerror", "panicked at",
    "error[e", "could not compile", "compilation failed",
    "compilation error", "traceback (most recent call last)",
    "syntaxerror", "merge conflict", "hook failed",
    "blocked_terminal", "orchestration_unavailable" ]

inductive Harness where
| claude
  deriving DecidableEq

namespace Harness

def all : List Harness := [claude]

def markers : Harness → List String
| claude =>
  [ "session limit", "usage limit", "usage_limit_reached",
    "quota exceeded", "monthly limit", "weekly limit",
    "spend limit" ]

end Harness

/- The usage-limit markers of every harness. -/
def allMarkers : List String :=
  Harness.all.flatMap Harness.markers

-- The class of a text

def toAsciiLowercase (text : Text) : Text :=
  text.map Char.toLower

/- The marker that stands first; of two there, the longer. -/
def sooner :
    Option (ℕ × String) → ℕ × String → Option (ℕ × String)
| none, found => some found
| some best, found =>
  if found.1 < best.1 ∨ (found.1 = best.1 ∧
      best.2.length < found.2.length) then
    some found
  else
    some best

def firstMatch
    (haystack : Text) (markers : List String) :
    Option String :=
  let found := markers.filterMap fun m =>
    (find m.toList haystack).map (·, m)
  (found.foldl sooner none).map (·.2)

def classifyFailureText
    (text : Text) :
    FailureClass × Option String :=
  let haystack := toAsciiLowercase text
  match firstMatch haystack workMarkers with
  | some m => (.work, some m)
  | none =>
  match firstMatch haystack repoSelectionMarkers with
  | some m => (.environmental, some m)
  | none =>
  match firstMatch haystack environmentalMarkers with
  | some m => (.environmental, some m)
  | none =>
  match firstMatch haystack allMarkers with
  | some m => (.usageLimit, some m)
  | none =>
  match firstMatch haystack transientMarkers with
  | some m => (.transientTransport, some m)
  | none => (.indeterminate, none)

-- Evidence

def evidenceTailLines : ℕ := 40
def evidenceMaxChars : ℕ := 2000

def isCompletedStatus (status : Text) : Bool :=
  ([ "success", "succeeded", "completed", "ok", "passed",
      "skipped" ].map String.toList).contains
    (toAsciiLowercase (trim status))

/- A line without the carriage return before its end. -/
def stripCr (line : Text) : Text :=
  if line.getLast? = some '\r' then line.dropLast else line

/- The lines of a text, after the letters of the open one. -/
def linesFrom : Text → Text → List Text
| line, [] => if line = [] then [] else [line]
| line, c :: cs =>
  if c = '\n' then stripCr line :: linesFrom [] cs
  else linesFrom (line ++ [c]) cs

def lines (text : Text) : List Text :=
  linesFrom [] text

def joinLines (parts : List Text) : Text :=
  ['\n'].intercalate parts

def tailOf (ls : List Text) (maxLines : ℕ) : Text :=
  joinLines (lastOf maxLines ls)

def tailLines (text : Text) (maxLines : ℕ) : Text :=
  tailOf (lines text) maxLines

def stepEvidence (step : RecipeRunStepResult) : Text :=
  joinLines <|
    (if trim step.error ≠ [] then [trim step.error]
      else []) ++
    (if trim step.output ≠ [] then
        [tailLines step.output evidenceTailLines]
      else []) ++
    (if step.recentStdout ≠ [] then
        [tailOf step.recentStdout evidenceTailLines]
      else []) ++
    (if step.recentStderr ≠ [] then
        [tailOf step.recentStderr evidenceTailLines]
      else [])

def elision : Text := "…(earlier evidence elided)…".toList

def truncateEvidence (text : Text) : Text :=
  if text.length ≤ evidenceMaxChars then text
  else elision ++ '\n' :: lastOf evidenceMaxChars text

-- The verdict on a run

def failedSteps
    (result : RecipeRunResult) :
    List RecipeRunStepResult :=
  result.stepResults.filter (!isCompletedStatus ·.status)

/- A text after its label in brackets. -/
def labelled (label text : Text) : Text :=
  '[' :: (label ++ ']' :: ' ' :: text)

def stepPart (step : RecipeRunStepResult) : Option Text :=
  if trim (stepEvidence step) ≠ [] then
    some (labelled step.stepId (stepEvidence step))
  else
    none

def statusPart (result : RecipeRunResult) : Option Text :=
  (result.status.filter (trim · ≠ [])).map (labelled "run status".toList)

def stderrPart (stderrTail : Text) : Option Text :=
  if trim stderrTail ≠ [] then
    some (labelled "runner stderr".toList
      (tailLines stderrTail evidenceTailLines))
  else
    none

/- All that was captured of a run, before it is cut. -/
def joinedEvidence
    (result : RecipeRunResult) (stderrTail : Text) :
    Text :=
  joinLines <|
    (failedSteps result).filterMap stepPart ++
      (statusPart result).toList ++
      (stderrPart stderrTail).toList

def classifyRunFailure
    (result : RecipeRunResult) (stderrTail : Text) :
    FailureVerdict :=
  let evidence :=
    truncateEvidence (joinedEvidence result stderrTail)
  let (cls, signal) := classifyFailureText evidence
  { cls, signal, evidence,
    failedSteps := (failedSteps result).map (·.stepId),
    completedSteps :=
      (result.stepResults.filter
        (isCompletedStatus ·.status)).map (·.stepId) }

end Recipe
