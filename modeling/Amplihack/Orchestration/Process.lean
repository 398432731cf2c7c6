import Mathlib.Data.List.Perm.Basic
import Mathlib.Data.String.Basic
import Amplihack.Base.Dict

/-
  Processes of an orchestration session, and how the results
  of those that run side by side come back.

  The expert panel: each expert reviews a solution, and the
  reviews are read from the answers.
-/

-- Processes

namespace Orchestration

structure ClaudeProcess where
  prompt : String
  processId : String
  model : Option String
  timeoutMs : Option ℕ

/- The process that produced a result is kept for reference. -/
structure ProcessResult where
  exitCode : Int
  output : String
  stderr : String
  durationMs : ℕ
  processId : String
  result : Option String
  producer : ClaudeProcess

namespace ProcessResult

/- A failure that comes with no output. -/
def err
    (producer : ClaudeProcess) (stderr processId : String) (durationMs : ℕ) :
    ProcessResult where
  exitCode := -1
  output := ""
  stderr := stderr
  durationMs := durationMs
  processId := processId
  result := none
  producer := producer

def isSuccess (r : ProcessResult) : Bool :=
  r.exitCode == 0

/- The clean result where there is one, the output if not. -/
def answer (r : ProcessResult) : String :=
  r.result.getD r.output

end ProcessResult

/- What the processes of one session share. -/
structure Session where
  model : Option String
  timeoutMs : Option ℕ

/- A process uses the session's model when it names none. -/
def Session.createProcess
    (session : Session) (prompt processId : String) (model : Option String) :
    ClaudeProcess where
  prompt := prompt
  processId := processId
  model := model.or session.model
  timeoutMs := session.timeoutMs

-- Running Side By Side

/- A task ends with its result, or its process panicked. -/
inductive Joined where
| finished (result : ProcessResult)
| panicked (producer : ClaudeProcess) (message : String)

namespace Joined

def producer : Joined → ClaudeProcess
| .finished result => result.producer
| .panicked producer _ => producer

def toResult : Joined → ProcessResult
| .finished result => result
| .panicked producer message =>
  .err producer ("Parallel execution exception: " ++ message) "join_error" 0

@[simp] theorem producer_toResult (joined : Joined) :
    joined.toResult.producer = joined.producer := by
  cases joined <;> rfl

end Joined

/- The processes ended in this order, each of them once. -/
def Ends
    (processes : List ClaudeProcess) (joined : List Joined) :
    Prop :=
  (joined.map Joined.producer).Perm processes

/- The results come back as the processes end. -/
def runParallel (joined : List Joined) : List ProcessResult :=
  joined.map Joined.toResult

/- Where a process was started, one of its id ended. -/
def InOrder
    (processes : List ClaudeProcess) (joined : List Joined) :
    Prop :=
  joined.map (·.producer.processId) = processes.map (·.processId)

namespace Ends

variable {processes : List ClaudeProcess}
variable {joined : List Joined}

theorem length_joined (hEnds : Ends processes joined) :
    joined.length = processes.length := by
  have hLength := List.Perm.length_eq hEnds
  rw [List.length_map] at hLength
  exact hLength

theorem length_runParallel (hEnds : Ends processes joined) :
    (runParallel joined).length = processes.length := by
  unfold runParallel
  rw [List.length_map]
  exact hEnds.length_joined

/- Results come from the processes that were started. -/
theorem producer_mem
    {r : ProcessResult} (hEnds : Ends processes joined)
    (hMem : r ∈ runParallel joined) :
    r.producer ∈ processes := by
  obtain ⟨j, hJ, rfl⟩ := List.mem_map.mp hMem
  rw [Joined.producer_toResult]
  exact (List.Perm.mem_iff hEnds).mp (List.mem_map_of_mem hJ)

end Ends

/- In other words: at each position. -/
theorem inOrder_iff
    {processes : List ClaudeProcess} {joined : List Joined}
    (hEnds : Ends processes joined) :
    InOrder processes joined ↔
      ∀ (i : ℕ) (r : ProcessResult) (p : ClaudeProcess),
        (runParallel joined)[i]? = some r →
          processes[i]? = some p → r.producer.processId = p.processId := by
  unfold InOrder runParallel
  constructor
  · intro hSame i r p hR hP
    rw [List.getElem?_map] at hR
    obtain ⟨j, hJ, rfl⟩ := Option.map_eq_some_iff.mp hR
    have hAt := congrArg (·[i]?) hSame
    rw [List.getElem?_map, List.getElem?_map, hJ, hP] at hAt
    rw [Joined.producer_toResult]
    exact Option.some.inj hAt
  · intro hEach
    apply List.ext_getElem
    · rw [List.length_map, List.length_map]
      exact hEnds.length_joined
    · intro i hI hI'
      rw [List.length_map] at hI hI'
      rw [List.getElem_map, List.getElem_map]
      have hAt := hEach i joined[i].toResult processes[i]
        (by rw [List.getElem?_map, List.getElem?_eq_getElem hI]
            rfl)
        (List.getElem?_eq_getElem hI')
      rw [Joined.producer_toResult] at hAt
      exact hAt

-- Numbered Names

/- Digits that end at the first underscore. -/
theorem digits_append_inj
    {ds es a b : List Char} (hDs : ∀ c ∈ ds, c.isDigit = true)
    (hEs : ∀ c ∈ es, c.isDigit = true)
    (hEq : ds ++ '_' :: a = es ++ '_' :: b) :
    ds = es ∧ a = b := by
  induction ds generalizing es with
  | nil =>
    cases es with
    | nil => exact ⟨rfl, (List.cons.inj hEq).2⟩
    | cons e es =>
      have hDigit := hEs e List.mem_cons_self
      rw [← (List.cons.inj hEq).1] at hDigit
      exact absurd hDigit (by decide)
  | cons d ds ih =>
    cases es with
    | nil =>
      have hDigit := hDs d List.mem_cons_self
      rw [(List.cons.inj hEq).1] at hDigit
      exact absurd hDigit (by decide)
    | cons e es =>
      obtain ⟨hHead, hTail⟩ := List.cons.inj hEq
      have hRest := ih
        (fun c hC => hDs c (List.mem_cons_of_mem _ hC))
        (fun c hC => hEs c (List.mem_cons_of_mem _ hC))
        hTail
      rw [hHead, hRest.1]
      exact ⟨rfl, hRest.2⟩

/- A number, an underscore and a name give both back. -/
theorem numbered_inj
    {m n : ℕ} {a b : String}
    (hEq : toString m ++ "_" ++ a = toString n ++ "_" ++ b) :
    m = n ∧ a = b := by
  have hChars := congrArg String.toList hEq
  simp only [String.toList_append, List.append_assoc] at hChars
  have hDigits : ∀ k : ℕ, (toString k).toList = Nat.toDigits 10 k := by
    intro k
    simp [toString, Nat.repr]
  rw [hDigits, hDigits] at hChars
  obtain ⟨hNumbers, hNames⟩ := digits_append_inj
    (fun _ hC => Nat.isDigit_of_mem_toDigits (by decide) (by decide) hC)
    (fun _ hC => Nat.isDigit_of_mem_toDigits (by decide)
      (by decide) hC) hChars
  refine ⟨?_, String.toList_inj.mp hNames⟩
  have hM := Nat.ofDigitChars_ten_toDigits (n := m)
  rw [hNumbers, Nat.ofDigitChars_ten_toDigits] at hM
  exact hM.symm

end Orchestration

-- Experts

namespace Orchestration

open Base

structure Expert where
  domain : String
  focus : String

def defaultExperts : List Expert :=
  [⟨"security", "vulnerabilities, attack vectors, data " ++
      "protection, security best practices"⟩,
    ⟨"performance",
      "speed, scalability, resource efficiency, latency, " ++ "throughput"⟩,
    ⟨"simplicity",
      "minimal complexity, ruthless simplification, " ++
        "maintainability, clarity"⟩]

def buildReviewPrompt
    (toUppercase : String → String) (solution : String)
    (expert : Expert) (total : ℕ) :
    String :=
  "You are an expert reviewer participating in an Expert " ++
  "Panel Review.\n\n" ++
  "SOLUTION TO REVIEW:\n" ++ solution ++ "\n\n" ++
  "YOUR EXPERTISE: " ++ toUppercase expert.domain ++
  "\nFOCUS AREAS: " ++ expert.focus ++ "\n\n" ++
  "Your task is to perform an independent expert review and " ++
  "cast a vote.\n\n" ++
  "IMPORTANT:\n" ++
  "- You are ONE expert among multiple (total: " ++
  toString total ++ ")\n" ++
  "- Your review is INDEPENDENT (do not consider other " ++
  "experts)\n" ++
  "- Focus ONLY on your domain of expertise\n" ++
  "- Use your confidence score to express uncertainty " ++
  "(0.0 - 1.0)\n\n" ++
  "FORMAT YOUR RESPONSE EXACTLY AS:\n\n" ++
  "## Analysis\n[Your detailed analysis from " ++
  expert.domain ++ " perspective]\n\n" ++
  "## Strengths\n- [Strength 1]\n- [Strength 2]\n\n" ++
  "## Weaknesses\n- [Weakness 1]\n\n" ++
  "## Domain Scores\n- aspect_name_1: 0.8\n\n" ++
  "## Vote\n[APPROVE or REJECT or ABSTAIN]\n\n" ++
  "## Confidence\n[Number between 0.0 and 1.0]\n\n" ++
  "## Vote Rationale\n[Clear explanation]\n"

inductive VoteChoice where
| approve
| reject
| abstain
deriving DecidableEq

/- What is read out of an answer; `F` is that of scores. -/
structure Findings (F : Type) where
  analysis : String
  strengths : List String
  weaknesses : List String
  domainScores : Dict String F
  vote : VoteChoice
  confidence : F
  voteRationale : String

/- The process whose answer was read is kept for reference. -/
structure ExpertReview (F : Type) where
  expertId : String
  domain : String
  findings : Findings F
  reviewDurationMs : ℕ
  producer : ClaudeProcess

-- The Panel

/- How answers are read and texts are put in upper case. -/
structure Panel (F : Type) where
  toUppercase : String → String
  parse : String → Findings F
  zero : F
  session : Session
  solution : String
  given : Option (List Expert)

namespace Panel

variable {F : Type}
variable (panel : Panel F)

def experts : List Expert :=
  panel.given.getD defaultExperts

def expertId (expert : Expert) : String :=
  "expert_" ++ expert.domain

def process (expert : Expert) : ClaudeProcess :=
  panel.session.createProcess
    (buildReviewPrompt panel.toUppercase panel.solution expert
      panel.experts.length)
    (expertId expert) panel.session.model

def processes : List ClaudeProcess :=
  panel.experts.map panel.process

def findingsOf (result : ProcessResult) : Findings F :=
  if result.isSuccess then panel.parse result.answer
  else
    { analysis := "Review failed: " ++ result.stderr
      strengths := []
      weaknesses := ["Review unavailable"]
      domainScores := .empty
      vote := .abstain
      confidence := panel.zero
      voteRationale := "Review process failed" }

def review
    (result : ProcessResult) (expert : Expert) :
    ExpertReview F where
  expertId := expertId expert
  domain := expert.domain
  findings := panel.findingsOf result
  reviewDurationMs := result.durationMs
  producer := result.producer

/- Results and experts are paired by position. -/
def reviews (joined : List Joined) : List (ExpertReview F) :=
  ((runParallel joined).zip panel.experts).map fun e =>
    panel.review e.1 e.2

-- Credit

/- Reviews name the expert whose prompt they answer. -/
def Credited (reviews : List (ExpertReview F)) : Prop :=
  ∀ v ∈ reviews, ∃ expert ∈ panel.experts,
    v.producer = panel.process expert ∧
      v.expertId = expertId expert ∧ v.domain = expert.domain

variable {panel}

theorem expertId_inj {a b : Expert} :
    expertId a = expertId b ↔ a.domain = b.domain := by
  unfold expertId
  exact String.append_right_inj _

theorem mem_reviews
    {joined : List Joined} {v : ExpertReview F} :
    v ∈ panel.reviews joined ↔
      ∃ (i : ℕ) (r : ProcessResult) (e : Expert),
        (runParallel joined)[i]? = some r ∧
          panel.experts[i]? = some e ∧ v = panel.review r e := by
  unfold reviews
  rw [List.mem_map]
  constructor
  · rintro ⟨⟨r, e⟩, hMem, rfl⟩
    obtain ⟨i, hI⟩ := List.mem_iff_getElem?.mp hMem
    rw [List.getElem?_zip_eq_some] at hI
    exact ⟨i, r, e, hI.1, hI.2, rfl⟩
  · rintro ⟨i, r, e, hR, hE, rfl⟩
    refine ⟨(r, e), ?_, rfl⟩
    apply List.mem_iff_getElem?.mpr
    exact ⟨i, List.getElem?_zip_eq_some.mpr ⟨hR, hE⟩⟩

theorem credited_iff
    {joined : List Joined} (hEnds : Ends panel.processes joined) :
    panel.Credited (panel.reviews joined) ↔
      InOrder panel.processes joined := by
  rw [inOrder_iff hEnds]
  constructor
  · intro hCredited i r p hR hP
    unfold processes at hP
    rw [List.getElem?_map] at hP
    obtain ⟨e, hE, rfl⟩ := Option.map_eq_some_iff.mp hP
    have hMem := mem_reviews.mpr ⟨i, r, e, hR, hE, rfl⟩
    obtain ⟨expert, -, hProducer, hId, -⟩ := hCredited _ hMem
    change r.producer = _ at hProducer
    change expertId e = _ at hId
    rw [hProducer]
    exact hId.symm
  · intro hOrder v hMem
    obtain ⟨i, r, e, hR, hE, rfl⟩ := mem_reviews.mp hMem
    have hStarted : r.producer ∈ panel.processes :=
      hEnds.producer_mem (List.mem_iff_getElem?.mpr ⟨i, hR⟩)
    obtain ⟨expert, hExpert, hProcess⟩ :=
      List.mem_map.mp hStarted
    have hSame : r.producer.processId = expertId e := by
      apply hOrder i r (panel.process e) hR
      unfold processes
      rw [List.getElem?_map, hE]
      rfl
    rw [← hProcess] at hSame
    change expertId expert = expertId e at hSame
    refine ⟨expert, hExpert, hProcess.symm, hSame.symm, ?_⟩
    exact (expertId_inj.mp hSame).symm

end Panel

end Orchestration
