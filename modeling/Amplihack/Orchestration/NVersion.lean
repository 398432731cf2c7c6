import Amplihack.Orchestration.Process

/-
  N-version programming: implementations made side by side,
  compared by a reviewer who names one of them.
-/

-- Texts

namespace Orchestration

/- As many characters as fit into the bytes. -/
def takeBytes : List Char → ℕ → List Char
| [], _ => []
| c :: cs, n =>
  if c.utf8Size ≤ n then c :: takeBytes cs (n - c.utf8Size)
  else []

def truncateAtCharBoundary (s : String) (maxBytes : ℕ) :
    String :=
  if s.utf8ByteSize ≤ maxBytes then s
  else String.ofList (takeBytes s.toList maxBytes)

def hasText (s part : String) : Bool :=
  s.toList.tails.any part.toList.isPrefixOf

structure Profile where
  name : String
  description : String
  traits : String

def defaultProfiles : List Profile :=
  [⟨"conservative", "Focus on proven patterns and safety",
      "Use proven design patterns, comprehensive error " ++
        "handling, defensive programming"⟩,
    ⟨"pragmatic", "Balance trade-offs for practical solutions",
      "Balance simplicity and robustness, standard library " ++
        "solutions, practical trade-offs"⟩,
    ⟨"minimalist", "Prioritize ruthless simplicity",
      "Ruthless simplification, minimal dependencies, direct " ++
        "implementation"⟩,
    ⟨"innovative", "Explore novel approaches and optimizations",
      "Explore novel approaches, consider optimizations, " ++
        "creative solutions"⟩,
    ⟨"performance_focused", "Optimize for speed and efficiency",
      "Optimize for speed and efficiency, consider resource " ++
        "usage, benchmark-driven"⟩]

def defaultCriteria : List String :=
  ["correctness", "security", "simplicity",
    "philosophy_compliance", "performance"]

def buildImplPrompt
    (task : String) (n versionIdx : ℕ) (profile : Profile) :
    String :=
  "You are implementing a task using the N-Version " ++
  "Programming pattern.\n\n" ++
  "TASK SPECIFICATION:\n" ++ task ++ "\n\n" ++
  "CRITICAL REQUIREMENTS:\n" ++
  "1. You are one of " ++ toString n ++
  " independent implementations (Version " ++
  toString versionIdx ++ ")\n" ++
  "2. DO NOT consult or share context with other " ++
  "implementations\n" ++
  "3. Produce a COMPLETE, WORKING implementation\n" ++
  "4. Include tests that verify correctness\n" ++
  "5. Document your approach and design decisions\n" ++
  "6. Follow project philosophy: ruthless simplicity, " ++
  "zero-BS implementation\n\n" ++
  "Your implementation approach should follow the \"" ++
  profile.name ++ "\" profile:\n" ++ profile.traits ++
  "\n\nDeliver a complete implementation with:\n" ++
  "- All code files needed\n" ++
  "- Test files proving correctness\n" ++
  "- Brief explanation of your approach\n\n" ++
  "Begin implementation now.\n"

-- Versions

/- How durations are written and answers put in lower case. -/
structure NVersion where
  seconds : ℕ → String
  toLowercase : String → String
  session : Session
  taskPrompt : String
  n : ℕ
  selectionCriteria : Option (List String)
  diversityProfiles : Option (List Profile)

structure NVersionResult where
  versions : List ProcessResult
  comparison : Option ProcessResult
  selected : Option String
  success : Bool

/- A result as the reviewer is shown it. -/
structure Entry where
  number : ℕ
  profileName : String
  result : ProcessResult

namespace NVersion

variable (nv : NVersion)

def criteria : List String :=
  nv.selectionCriteria.getD defaultCriteria

def profiles : List Profile :=
  nv.diversityProfiles.getD defaultProfiles

/- The profiles in turn; without any the code panics first. -/
def profileAt (i : ℕ) : Profile :=
  nv.profiles[i % nv.profiles.length]?.getD ⟨"", "", ""⟩

def process (i : ℕ) : ClaudeProcess :=
  nv.session.createProcess
    (buildImplPrompt nv.taskPrompt nv.n (i + 1) (nv.profileAt i))
    ("version_" ++ (toString (i + 1) ++ "_" ++ (nv.profileAt i).name))
    none

def processes : List ClaudeProcess :=
  (List.range nv.n).map nv.process

def entries (versions : List ProcessResult) : List Entry :=
  versions.zipIdx.map fun e =>
    { number := e.2 + 1
      profileName := (nv.profileAt e.2).name
      result := e.1 }

def summaryOf (e : Entry) : String :=
  "Version " ++ toString e.number ++ " (" ++ e.profileName ++
  "): " ++ (if e.result.isSuccess then "SUCCESS" else "FAILED") ++
  "\nDuration: " ++ nv.seconds e.result.durationMs ++
  "s\nOutput length: " ++
  toString e.result.answer.utf8ByteSize ++ " chars\n\n"

def bar : String :=
  String.ofList (List.replicate 80 '=')

def fullOutputOf (e : Entry) : String :=
  let source := e.result.answer
  let body := truncateAtCharBoundary source 5000
  "\n\n" ++ bar ++ "\nVERSION " ++ toString e.number ++ " (" ++
  e.profileName ++ ") - Exit Code: " ++
  toString e.result.exitCode ++ "\n" ++ bar ++ "\n\n" ++ body ++
  (if body.utf8ByteSize < source.utf8ByteSize then
    "...(truncated)" else "") ++ "\n"

def criterionOf (e : String × ℕ) : String :=
  toString (e.2 + 1) ++ ". " ++ e.1 ++ "\n"

def buildComparisonPrompt (versions : List ProcessResult) :
    String :=
  "You are a reviewer agent analyzing multiple " ++
  "implementations from N-Version Programming.\n\n" ++
  "ORIGINAL TASK:\n" ++ nv.taskPrompt ++ "\n\n" ++
  "SELECTION CRITERIA (in priority order):\n" ++
  String.join (nv.criteria.zipIdx.map criterionOf) ++
  "\nIMPLEMENTATIONS GENERATED:\n" ++
  String.join ((nv.entries versions).map nv.summaryOf) ++
  "\nFULL OUTPUTS:\n" ++
  String.join ((nv.entries versions).map fullOutputOf) ++
  "\n\nYOUR TASK:\n\n" ++
  "Analyze all implementations according to the selection " ++
  "criteria above.\n\n" ++
  "Provide:\n" ++
  "1. **Comparison Matrix** - Score each version on each " ++
  "criterion\n" ++
  "2. **Analysis** - Detailed evaluation of each " ++
  "implementation\n" ++
  "3. **Selection** - Which version to use (or \"HYBRID\" if " ++
  "synthesizing best parts)\n" ++
  "4. **Rationale** - Clear explanation of why this " ++
  "selection\n\n" ++
  "## Selection\n[Version number or \"HYBRID\"]\n\n" ++
  "## Rationale\n[Clear explanation of selection decision]\n"

def reviewer (versions : List ProcessResult) : ClaudeProcess :=
  nv.session.createProcess (nv.buildComparisonPrompt versions)
    "reviewer_comparison" none

def versionName (i : ℕ) : String :=
  "version_" ++ toString (i + 1)

def keywords : List String :=
  ["select", "chosen", "best", "recommend"]

/- The version that the reviewer's answer names first. -/
def parseSelection (answer : String) : Option String :=
  let lower := nv.toLowercase answer
  if hasText lower "hybrid" then some "hybrid"
  else
    ((List.range nv.n).find? fun i =>
      (hasText lower ("version " ++ toString (i + 1)) ||
        hasText lower ("v" ++ toString (i + 1))) &&
        keywords.any (hasText lower)).map versionName

def firstSuccessful (versions : List ProcessResult) :
    Option String :=
  (versions.findIdx? (·.isSuccess)).map versionName

/- What the reviewer gives to the prompt decides. -/
def outcome
    (versions : List ProcessResult)
    (runReviewer : ClaudeProcess → ProcessResult) :
    NVersionResult :=
  if !versions.any (·.isSuccess) then
    { versions := versions
      comparison := none
      selected := none
      success := false }
  else
    let comparison := runReviewer (nv.reviewer versions)
    { versions := versions
      comparison := some comparison
      selected :=
        if !comparison.isSuccess then firstSuccessful versions
        else
          (nv.parseSelection comparison.answer).or (firstSuccessful versions)
      success := true }

/- Versions without a profile to choose from are a panic. -/
def run
    (joined : List Joined) (runReviewer : ClaudeProcess → ProcessResult) :
    Option NVersionResult :=
  if nv.profiles.isEmpty && 0 < nv.n then none
  else some (nv.outcome (runParallel joined) runReviewer)

-- Credit

/- Result `i` is that of the process told it is `i + 1`. -/
structure Credited (result : NVersionResult) : Prop where
  versions : ∀ (i : ℕ) (r : ProcessResult),
    result.versions[i]? = some r → r.producer = nv.process i
  compared : ∀ e ∈ nv.entries result.versions, ∃ i,
    e.number = i + 1 ∧ e.profileName = (nv.profileAt i).name ∧
      e.result.producer = nv.process i
  selected : ∀ i, result.selected = some (versionName i) →
    ∃ r, result.versions[i]? = some r ∧ r.producer = nv.process i

variable {nv}

theorem toString_inj
    {m n : ℕ} (hEq : toString m = toString n) :
    m = n := by
  have hNumbered : toString m ++ "_" ++ "" =
      toString n ++ "_" ++ "" := by rw [hEq]
  exact (numbered_inj hNumbered).1

variable {i j : ℕ}

theorem versionName_inj
    (hEq : versionName i = versionName j) :
    i = j := by
  unfold versionName at hEq
  rw [String.append_right_inj] at hEq
  exact Nat.succ.inj (toString_inj hEq)

theorem versionName_ne_hybrid (i : ℕ) :
    versionName i ≠ "hybrid" := by
  intro hEq
  have hHead := congrArg (fun s => s.toList.head?) hEq
  unfold versionName at hHead
  rw [String.toList_append] at hHead
  exact absurd hHead (by simp)

/- The process number can be read off the process id. -/
theorem process_inj
    (hEq : (nv.process i).processId = (nv.process j).processId) :
    i = j := by
  change "version_" ++ _ = "version_" ++ _ at hEq
  rw [String.append_right_inj] at hEq
  exact Nat.succ.inj (numbered_inj hEq).1

theorem getElem?_processes
    {p : ClaudeProcess} (hP : nv.processes[i]? = some p) :
    p = nv.process i := by
  unfold processes at hP
  rw [List.getElem?_map] at hP
  obtain ⟨j, hJ, rfl⟩ := Option.map_eq_some_iff.mp hP
  obtain ⟨hLt, hGet⟩ := List.getElem?_eq_some_iff.mp hJ
  rw [List.getElem_range] at hGet
  rw [hGet]

variable {versions : List ProcessResult}

theorem firstSuccessful_lt
    (hName : firstSuccessful versions = some (versionName i)) :
    i < versions.length := by
  unfold firstSuccessful at hName
  obtain ⟨j, hJ, hEq⟩ := Option.map_eq_some_iff.mp hName
  rw [← versionName_inj hEq]
  exact (List.findIdx?_eq_some_iff_getElem.mp hJ).1

variable {runReviewer : ClaudeProcess → ProcessResult}

theorem selected_lt
    (hLength : versions.length = nv.n)
    (hName : (nv.outcome versions runReviewer).selected =
      some (versionName i)) :
    i < versions.length := by
  unfold outcome at hName
  split at hName
  · cases hName
  · dsimp only at hName
    split at hName
    · exact firstSuccessful_lt hName
    · rw [Option.or_eq_some_iff] at hName
      rcases hName with hParsed | ⟨-, hFirst⟩
      · unfold parseSelection at hParsed
        dsimp only at hParsed
        split at hParsed
        · exact absurd (Option.some.inj hParsed).symm
            (versionName_ne_hybrid i)
        · obtain ⟨j, hJ, hEq⟩ :=
            Option.map_eq_some_iff.mp hParsed
          rw [← versionName_inj hEq, hLength]
          exact List.mem_range.mp (List.mem_of_find?_eq_some hJ)
      · exact firstSuccessful_lt hFirst

theorem versions_outcome
    (versions : List ProcessResult)
    (runReviewer : ClaudeProcess → ProcessResult) :
    (nv.outcome versions runReviewer).versions = versions := by
  unfold outcome
  split <;> rfl

theorem credited_iff
    {joined : List Joined} {result : NVersionResult}
    (hEnds : Ends nv.processes joined)
    (hRun : nv.run joined runReviewer = some result) :
    nv.Credited result ↔ InOrder nv.processes joined := by
  unfold run at hRun
  split at hRun
  · cases hRun
  · rw [← Option.some.inj hRun, inOrder_iff hEnds]
    constructor
    · intro hCredited i r p hR hP
      rw [getElem?_processes hP]
      rw [hCredited.versions i r (by
        rw [versions_outcome]
        exact hR)]
    · intro hOrder
      have hLength : (runParallel joined).length = nv.n := by
        rw [hEnds.length_runParallel]
        unfold processes
        rw [List.length_map, List.length_range]
      have hVersions : ∀ (i : ℕ) (r : ProcessResult),
          (runParallel joined)[i]? = some r → r.producer = nv.process i := by
        intro i r hR
        have hStarted := hEnds.producer_mem (List.mem_of_getElem? hR)
        obtain ⟨j, hJ, hProcess⟩ := List.mem_map.mp hStarted
        have hLt : i < nv.processes.length := by
          obtain ⟨hI, -⟩ := List.getElem?_eq_some_iff.mp hR
          rw [← hEnds.length_runParallel]
          exact hI
        have hP := List.getElem?_eq_getElem hLt
        have hSame := hOrder i r _ hR hP
        rw [getElem?_processes hP, ← hProcess] at hSame
        rw [← hProcess, process_inj hSame]
      constructor
      case versions =>
        rw [versions_outcome]
        exact hVersions
      case compared =>
        rw [versions_outcome]
        intro e hMem
        obtain ⟨⟨r, i⟩, hEntry, rfl⟩ := List.mem_map.mp hMem
        rw [List.mem_zipIdx_iff_getElem?] at hEntry
        exact ⟨i, rfl, rfl, hVersions i r hEntry⟩
      case selected =>
        intro i hName
        have hLt := selected_lt hLength hName
        rw [versions_outcome]
        have hR := List.getElem?_eq_getElem hLt
        exact ⟨_, hR, hVersions i _ hR⟩

end NVersion

end Orchestration
