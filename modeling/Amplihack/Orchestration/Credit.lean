import Mathlib.Data.List.Rotate
import Amplihack.Base.Dict
import Amplihack.Base.Runs
import Amplihack.Orchestration.Process
import Amplihack.Orchestration.NVersion

/-
  The debate: rounds of answers from the same perspectives,
  each round told the answers of the one before.

  Results that are paired by position are credited to their
  processes in the runs whose processes end in order.
-/

-- Perspectives

namespace Orchestration

open Base

structure Perspective where
  name : String
  focus : String
  questions : String

def defaultPerspectives : List Perspective :=
  [⟨"security", "Vulnerabilities, attack vectors, data protection",
      "What could go wrong? How do we prevent breaches?"⟩,
    ⟨"performance", "Speed, scalability, resource efficiency",
      "Will this scale? What are the bottlenecks?"⟩,
    ⟨"simplicity", "Minimal complexity, ruthless simplification",
      "Is this the simplest solution? Can we remove " ++ "abstractions?"⟩,
    ⟨"maintainability", "Long-term evolution, technical debt",
      "Can future developers understand this? How hard to " ++ "change?"⟩,
    ⟨"user_experience", "API design, usability, developer experience",
      "Is this intuitive? How will users interact with " ++ "this?"⟩]

def lookupProfile (name : String) : Option Perspective :=
  defaultPerspectives.find? (·.name == name)

def focusOf (name : String) : String :=
  ((lookupProfile name).map (·.focus)).getD (name ++ " considerations")

def questionsOf (name : String) : String :=
  ((lookupProfile name).map (·.questions)).getD
    ("What " ++ name ++ " aspects should we consider?")

def buildRound1Prompt (question name : String) : String :=
  "You are participating in a structured multi-agent debate." ++
  "\n\nDECISION QUESTION:\n" ++ question ++ "\n\n" ++
  "YOUR ROLE: " ++ name ++ " Perspective\nFOCUS: " ++
  focusOf name ++ "\nKEY QUESTIONS: " ++ questionsOf name ++
  "\n\nThis is ROUND 1: Form your initial position on this " ++
  "decision.\n\n" ++
  "## Recommendation\n[Your recommended approach]\n\n" ++
  "## Supporting Arguments\n1. [Argument]\n2. [Argument]\n\n" ++
  "## Risks of Alternatives\n- [Concerns]\n\n" ++
  "## Assumptions\n- [Assumption]\n"

def buildRoundNPrompt
    (question : String) (round : ℕ) (name previousContext : String) :
    String :=
  "You are participating in a structured multi-agent debate." ++
  "\n\nDECISION QUESTION:\n" ++ question ++ "\n\n" ++
  "YOUR ROLE: " ++ name ++ " Perspective\nFOCUS: " ++
  focusOf name ++ "\n\nThis is ROUND " ++ toString round ++
  ": Challenge other perspectives and defend your position." ++
  "\n\nPREVIOUS ROUND POSITIONS:\n" ++ previousContext ++
  "\n\n" ++
  "## Challenges to Other Perspectives\n[...]\n\n" ++
  "## Defense of My Position\n[...]\n\n" ++
  "## Concessions\n[...]\n\n" ++
  "## Refined Position\n[...]\n\n" ++
  "## Common Ground Identified\n[...]\n"

-- Rounds

/- The process that gave an answer is kept for reference. -/
structure Answer where
  text : String
  producer : ClaudeProcess

structure RoundData where
  round : ℕ
  roundType : String
  results : Dict String ProcessResult

structure Debate where
  session : Session
  question : String
  given : Option (List String)
  rounds : ℕ

/- The answers under each perspective, and the rounds. -/
structure Record where
  history : Dict String (List Answer)
  rounds : List RoundData

namespace Debate

variable (debate : Debate)

def names : List String :=
  debate.given.getD ["security", "performance", "simplicity"]

/- What each perspective said last. -/
def lastAnswers (history : Dict String (List Answer)) :
    List (String × Answer) :=
  debate.names.filterMap fun name =>
    ((history.get? name).bind List.getLast?).map (name, ·)

def buildPreviousContext (history : Dict String (List Answer)) :
    String :=
  "\n\n".intercalate
    ((debate.lastAnswers history).map fun e =>
      "## " ++ e.1 ++ " Perspective (Previous Round):\n" ++ e.2.text)

def processId (round : ℕ) (name : String) : String :=
  "round" ++ toString round ++ "_" ++ name

def process
    (record : Record) (round : ℕ) (name : String) :
    ClaudeProcess :=
  let prompt :=
    if round == 1 then buildRound1Prompt debate.question name
    else
      buildRoundNPrompt debate.question round name
        (debate.buildPreviousContext record.history)
  debate.session.createProcess prompt (processId round name) none

def processes (record : Record) (round : ℕ) :
    List ClaudeProcess :=
  debate.names.map (debate.process record round)

/- One answer, put under a name. -/
def file
    (history : Dict String (List Answer)) (entry : String × ProcessResult) :
    Dict String (List Answer) :=
  history.modify entry.1 (· ++ [⟨entry.2.answer, entry.2.producer⟩])

/- Results and names are paired by position. -/
def playRound
    (record : Record) (round : ℕ) (joined : List Joined) :
    Record :=
  let entries := debate.names.zip (runParallel joined)
  { history := entries.foldl file record.history
    rounds := record.rounds ++
      [{ round := round
         roundType :=
           if round == 1 then "initial_positions"
           else "challenge_respond"
         results := entries.foldl
           (fun results e => results.insert e.1 e.2) .empty }] }

def start : Record where
  history := debate.names.foldl
    (fun history name => history.insert name []) .empty
  rounds := []

/- A first round without a success ends the debate. -/
def played (joined : ℕ → List Joined) : List ℕ :=
  1 ::
    if (runParallel (joined 1)).any (·.isSuccess) then
      List.range' 2 (debate.rounds - 1)
    else []

/- The record after the first `n` rounds. -/
def recordAt (joined : ℕ → List Joined) (n : ℕ) : Record :=
  ((debate.played joined).take n).foldl
    (fun record round =>
      debate.playRound record round (joined round))
    debate.start

/- The processes of each round ended, all of them. -/
def RoundsEnd (joined : ℕ → List Joined) : Prop :=
  ∀ n round, (debate.played joined)[n]? = some round →
    Ends (debate.processes (debate.recordAt joined n) round) (joined round)

def RoundsInOrder (joined : ℕ → List Joined) : Prop :=
  ∀ n round, (debate.played joined)[n]? = some round →
    InOrder (debate.processes (debate.recordAt joined n) round) (joined round)

-- Credit

/- What is under a name is from a process for that name. -/
structure Credited (record : Record) : Prop where
  results : ∀ d ∈ record.rounds, ∀ name r,
    d.results.get? name = some r →
      r.producer.processId = processId d.round name
  history : ∀ name answers,
    record.history.get? name = some answers →
      ∀ a ∈ answers, ∃ round, a.producer.processId = processId round name
  context : ∀ e ∈ debate.lastAnswers record.history, ∃ round,
    e.2.producer.processId = processId round e.1

variable {debate}
variable {record : Record}
variable {round : ℕ}
variable {joined : List Joined}

theorem processId_inj
    {m n : ℕ} {a b : String} (hEq : processId m a = processId n b) :
    m = n ∧ a = b := by
  unfold processId at hEq
  rw [String.append_assoc, String.append_assoc, String.append_assoc,
    String.append_assoc, String.append_right_inj, ← String.append_assoc,
    ← String.append_assoc] at hEq
  exact numbered_inj hEq

theorem recordAt_succ
    {joined : ℕ → List Joined} {n : ℕ}
    (hRound : (debate.played joined)[n]? = some round) :
    debate.recordAt joined (n + 1) =
      debate.playRound (debate.recordAt joined n) round (joined round) := by
  unfold recordAt
  rw [List.take_add_one, hRound, List.foldl_append]
  rfl

theorem get?_foldl_file
    (entries : List (String × ProcessResult))
    (history : Dict String (List Answer)) (name : String) :
    (entries.foldl file history).get? name =
      (history.get? name).map
        (· ++ (entries.filter (·.1 = name)).map fun e =>
          ⟨e.2.answer, e.2.producer⟩) := by
  induction entries generalizing history with
  | nil => simp
  | cons e entries ih =>
    rw [List.foldl_cons, ih]
    unfold file
    rw [Dict.get?_modify]
    by_cases hName : name = e.1
    · rw [if_pos hName, List.filter_cons_of_pos
        (by simp [hName]), Option.map_map]
      congr 1
      funext answers
      simp
    · rw [if_neg hName, List.filter_cons_of_neg
        (by simpa using Ne.symm hName)]

theorem mem_of_get?_foldl_insert
    {entries : List (String × ProcessResult)}
    {results : Dict String ProcessResult} {name : String} {r : ProcessResult}
    (hGet : (entries.foldl (fun results e =>
      results.insert e.1 e.2) results).get? name = some r) :
    (name, r) ∈ entries ∨ results.get? name = some r := by
  induction entries generalizing results with
  | nil => exact Or.inr hGet
  | cons e entries ih =>
    rcases ih hGet with hLater | hBefore
    · exact Or.inl (List.mem_cons_of_mem _ hLater)
    · rw [Dict.get?_insert] at hBefore
      split at hBefore
      next hName =>
        left
        rw [hName, ← Option.some.inj hBefore]
        exact List.mem_cons_self
      next => exact Or.inr hBefore

/- The context is no more than the end of the history. -/
theorem credited_context
    (hHistory : ∀ name answers,
      record.history.get? name = some answers →
        ∀ a ∈ answers, ∃ round, a.producer.processId = processId round name)
    (e : String × Answer)
    (hMem : e ∈ debate.lastAnswers record.history) :
    ∃ round, e.2.producer.processId = processId round e.1 := by
  unfold lastAnswers at hMem
  obtain ⟨name, -, hLast⟩ := List.mem_filterMap.mp hMem
  obtain ⟨a, hA, rfl⟩ := Option.map_eq_some_iff.mp hLast
  obtain ⟨answers, hGet, hEnd⟩ := Option.bind_eq_some_iff.mp hA
  exact hHistory name answers hGet a (List.mem_of_getLast? hEnd)

/- The results of a round, with the names they are put under. -/
theorem mem_entries
    {name : String} {r : ProcessResult} :
    (name, r) ∈ debate.names.zip (runParallel joined) ↔
      ∃ i : ℕ, debate.names[i]? = some name ∧
        (runParallel joined)[i]? = some r := by
  rw [List.mem_iff_getElem?]
  refine exists_congr fun i => ?_
  rw [List.getElem?_zip_eq_some]

theorem getElem?_processes
    {i : ℕ} {name : String} (hName : debate.names[i]? = some name) :
    (debate.processes record round)[i]? =
      some (debate.process record round name) := by
  unfold processes
  rw [List.getElem?_map, hName]
  rfl

theorem playRound_credited
    (hCredited : debate.Credited record)
    (hEnds : Ends (debate.processes record round) joined)
    (hOrder : InOrder (debate.processes record round) joined) :
    debate.Credited (debate.playRound record round joined) := by
  rw [inOrder_iff hEnds] at hOrder
  have hEntries : ∀ name r,
      (name, r) ∈ debate.names.zip (runParallel joined) →
        r.producer.processId = processId round name := by
    intro name r hMem
    obtain ⟨i, hName, hR⟩ := mem_entries.mp hMem
    exact hOrder i r _ hR (getElem?_processes hName)
  have hHistory : ∀ name answers,
      (debate.playRound record round joined).history.get? name =
          some answers →
        ∀ a ∈ answers, ∃ round,
          a.producer.processId = processId round name := by
    intro name answers hGet a hMem
    change (List.foldl file _ _).get? name = _ at hGet
    rw [get?_foldl_file] at hGet
    obtain ⟨old, hOld, rfl⟩ := Option.map_eq_some_iff.mp hGet
    rcases List.mem_append.mp hMem with hBefore | hNew
    · exact hCredited.history name old hOld a hBefore
    · obtain ⟨e, hE, rfl⟩ := List.mem_map.mp hNew
      obtain ⟨hEntry, hName⟩ := List.mem_filter.mp hE
      rw [decide_eq_true_eq] at hName
      rw [← hName]
      exact ⟨round, hEntries e.1 e.2 hEntry⟩
  constructor
  case results =>
    intro d hD name r hGet
    rcases List.mem_append.mp hD with hBefore | hNew
    · exact hCredited.results d hBefore name r hGet
    · rw [List.mem_singleton.mp hNew] at hGet ⊢
      rcases mem_of_get?_foldl_insert hGet with hEntry | hNone
      · exact hEntries name r hEntry
      · rw [Dict.get?_empty] at hNone
        cases hNone
  case history => exact hHistory
  case context => exact credited_context hHistory

/- The names have a history from the start. -/
theorem isSome_history
    {name : String} (joined : ℕ → List Joined) (n : ℕ)
    (hName : name ∈ debate.names) :
    ((debate.recordAt joined n).history.get? name).isSome := by
  unfold recordAt
  have hStart : (debate.start.history.get? name).isSome := by
    have hInserted : ∀ (names : List String)
        (history : Dict String (List Answer)),
        name ∈ names ∨ (history.get? name).isSome →
          ((names.foldl (fun history name =>
            history.insert name []) history).get? name).isSome := by
      intro names
      induction names with
      | nil => exact fun _ hEither => by simpa using hEither
      | cons first names ih =>
        intro history hEither
        apply ih
        rw [Dict.get?_insert]
        split
        next => exact Or.inr rfl
        next hOther => simpa [hOther] using hEither
    exact hInserted debate.names .empty (Or.inl hName)
  generalize debate.start = record at hStart
  induction (debate.played joined).take n
    generalizing record with
  | nil => exact hStart
  | cons round rounds ih =>
    apply ih
    unfold playRound
    dsimp only
    rw [get?_foldl_file, Option.isSome_map]
    exact hStart

theorem inOrder_of_credited
    (hKeys : ∀ name ∈ debate.names, (record.history.get? name).isSome)
    (hEnds : Ends (debate.processes record round) joined)
    (hCredited : debate.Credited (debate.playRound record round joined)) :
    InOrder (debate.processes record round) joined := by
  rw [inOrder_iff hEnds]
  intro i r p hR hP
  unfold processes at hP
  rw [List.getElem?_map] at hP
  obtain ⟨name, hName, rfl⟩ := Option.map_eq_some_iff.mp hP
  have hEntry := mem_entries.mpr ⟨i, hName, hR⟩
  have hNamed := List.mem_of_getElem? hName
  obtain ⟨old, hOld⟩ :=
    Option.isSome_iff_exists.mp (hKeys name hNamed)
  have hGet : (debate.playRound record round
      joined).history.get? name = some (old ++
        ((debate.names.zip (runParallel joined)).filter
          (·.1 = name)).map fun e =>
            ⟨e.2.answer, e.2.producer⟩) := by
    change (List.foldl file _ _).get? name = _
    rw [get?_foldl_file, hOld]
    rfl
  have hFiled : ∃ k, r.producer.processId = processId k name := by
    refine hCredited.history name _ hGet
      ⟨r.answer, r.producer⟩ (List.mem_append_right _ ?_)
    refine List.mem_map.mpr ⟨(name, r), ?_, rfl⟩
    exact List.mem_filter.mpr ⟨hEntry, decide_eq_true rfl⟩
  obtain ⟨k, hK⟩ := hFiled
  -- the process was one of this round's
  have hStarted := hEnds.producer_mem (List.mem_of_getElem? hR)
  obtain ⟨other, -, hOther⟩ := List.mem_map.mp hStarted
  have hSame : processId k name = processId round other := by
    rw [← hK, ← hOther]
    rfl
  obtain ⟨rfl, rfl⟩ := processId_inj hSame
  exact hK

theorem start_credited : debate.Credited debate.start := by
  have hInserted : ∀ (names : List String)
      (history : Dict String (List Answer)) name answers,
      (∀ name answers, history.get? name = some answers → answers = []) →
      (names.foldl (fun history name =>
        history.insert name []) history).get? name =
          some answers → answers = [] := by
    intro names
    induction names with
    | nil => exact fun _ _ _ hNil hGet => hNil _ _ hGet
    | cons first names ih =>
      intro history name answers hNil hGet
      refine ih _ name answers ?_ hGet
      intro other found hFound
      rw [Dict.get?_insert] at hFound
      split at hFound
      · exact (Option.some.inj hFound).symm
      · exact hNil other found hFound
  have hHistory : ∀ name answers,
      debate.start.history.get? name = some answers →
        ∀ a ∈ answers, ∃ round,
          a.producer.processId = processId round name := by
    intro name answers hGet a hMem
    rw [hInserted debate.names .empty name answers
      (fun _ _ hNone => by simp at hNone) hGet] at hMem
    exact (List.not_mem_nil hMem).elim
  exact
    { results := fun _ hMem => (List.not_mem_nil hMem).elim
      history := hHistory
      context := credited_context hHistory }

/- In every round's record, and in no other runs. -/
theorem credited_iff
    {joined : ℕ → List Joined} (hEnds : debate.RoundsEnd joined) :
    (∀ n, debate.Credited (debate.recordAt joined n)) ↔
      debate.RoundsInOrder joined := by
  constructor
  · intro hCredited n round hRound
    refine inOrder_of_credited ?_ (hEnds n round hRound) ?_
    · intro name hName
      exact isSome_history joined n hName
    · rw [← recordAt_succ hRound]
      exact hCredited (n + 1)
  · intro hOrder n
    induction n with
    | zero =>
      unfold recordAt
      exact start_credited
    | succ n ih =>
      cases hRound : (debate.played joined)[n]? with
      | none =>
        have hSame : debate.recordAt joined (n + 1) =
            debate.recordAt joined n := by
          unfold recordAt
          rw [List.take_add_one, hRound, Option.toList_none, List.append_nil]
        rw [hSame]
        exact ih
      | some round =>
        rw [recordAt_succ hRound]
        exact playRound_credited ih (hEnds n round hRound)
          (hOrder n round hRound)

end Debate

end Orchestration

-- The Three Patterns

namespace Orchestration

/-
  The reviews of a panel, the rounds of a debate and the
  versions of a task are credited to the processes that gave
  them if and only if, wherever a process was started, one of
  the same process id ended.
-/
theorem credited_iff_inOrder
    {F : Type} (panel : Panel F) (reviewed : List Joined)
    (debate : Debate) (debated : ℕ → List Joined)
    (nv : NVersion) (implemented : List Joined)
    (runReviewer : ClaudeProcess → ProcessResult) (result : NVersionResult) :
    (Ends panel.processes reviewed →
      (panel.Credited (panel.reviews reviewed) ↔
        InOrder panel.processes reviewed)) ∧
    (debate.RoundsEnd debated →
      ((∀ n, debate.Credited (debate.recordAt debated n)) ↔
        debate.RoundsInOrder debated)) ∧
    (Ends nv.processes implemented →
      nv.run implemented runReviewer = some result →
        (nv.Credited result ↔ InOrder nv.processes implemented)) := by
  refine ⟨?_, ?_, ?_⟩
  · intro hEnds
    exact Panel.credited_iff hEnds
  · intro hEnds
    exact Debate.credited_iff hEnds
  · intro hEnds hRun
    exact NVersion.credited_iff hEnds hRun

-- Sample Runs

/- A process that ends with its id for an output. -/
def finishedBy (p : ClaudeProcess) : Joined :=
  .finished
    { exitCode := 0
      output := p.processId
      stderr := ""
      durationMs := 0
      processId := p.processId
      result := none
      producer := p }

/- The processes that were started first end last. -/
def endedAfter (k : ℕ) (processes : List ClaudeProcess) :
    List Joined :=
  (processes.rotate k).map finishedBy

theorem ends_endedAfter
    (k : ℕ) (processes : List ClaudeProcess) :
    Ends processes (endedAfter k processes) := by
  unfold Ends endedAfter
  rw [List.map_map]
  have hSame : Joined.producer ∘ finishedBy = id := rfl
  rw [hSame, List.map_id]
  exact List.rotate_perm processes k

theorem inOrder_endedAfter (processes : List ClaudeProcess) :
    InOrder processes (endedAfter 0 processes) := by
  unfold InOrder endedAfter
  rw [List.rotate_zero, List.map_map]
  rfl

/- The default experts, with the length as a score. -/
def samplePanel : Panel ℕ where
  toUppercase := id
  parse answer :=
    { analysis := answer
      strengths := []
      weaknesses := []
      domainScores := .empty
      vote := .approve
      confidence := answer.length
      voteRationale := "" }
  zero := 0
  session := ⟨none, none⟩
  solution := "solution"
  given := none

def sampleDebate : Debate where
  session := ⟨none, none⟩
  question := "question"
  given := none
  rounds := 2

def sampleVersions : NVersion where
  seconds ms := toString ms
  toLowercase := id
  session := ⟨none, none⟩
  taskPrompt := "task"
  n := 3
  selectionCriteria := none
  diversityProfiles := none

/- In both rounds the first `k` processes end last. -/
def sampleRounds (k round : ℕ) : List Joined :=
  let first := endedAfter k
    (sampleDebate.processes sampleDebate.start 1)
  if round = 1 then first
  else
    endedAfter k
      (sampleDebate.processes
        (sampleDebate.playRound sampleDebate.start 1 first) round)

theorem sampleRounds_eq
    {k n round : ℕ} (hPlayed : sampleDebate.played (sampleRounds k) = [1, 2])
    (hRound : (sampleDebate.played (sampleRounds k))[n]? = some round) :
    sampleRounds k round = endedAfter k
      (sampleDebate.processes
        (sampleDebate.recordAt (sampleRounds k) n) round) := by
  unfold Debate.recordAt
  rw [hPlayed] at hRound ⊢
  match n, hRound with
  | 0, rfl => rfl
  | 1, rfl => rfl

theorem credited_of_started_order :
    samplePanel.Credited (samplePanel.reviews
        (endedAfter 0 samplePanel.processes)) ∧
      (∀ n, sampleDebate.Credited
        (sampleDebate.recordAt (sampleRounds 0) n)) ∧
      ∀ result, sampleVersions.run
          (endedAfter 0 sampleVersions.processes)
          (fun p => (finishedBy p).toResult) = some result →
        sampleVersions.Credited result := by
  have hIff := credited_iff_inOrder samplePanel
    (endedAfter 0 samplePanel.processes) sampleDebate
    (sampleRounds 0) sampleVersions
    (endedAfter 0 sampleVersions.processes)
    (fun p => (finishedBy p).toResult)
  refine ⟨?_, ?_, ?_⟩
  · refine ((hIff ⟨[], none, none, false⟩).1 ?_).mpr ?_
    · exact ends_endedAfter 0 _
    · exact inOrder_endedAfter _
  · refine ((hIff ⟨[], none, none, false⟩).2.1 ?_).mpr ?_
    · intro n round hRound
      rw [sampleRounds_eq rfl hRound]
      exact ends_endedAfter 0 _
    · intro n round hRound
      rw [sampleRounds_eq rfl hRound]
      exact inOrder_endedAfter _
  · intro result hRun
    refine ((hIff result).2.2 ?_ hRun).mpr ?_
    · exact ends_endedAfter 0 _
    · exact inOrder_endedAfter _

/-
  The first process ends last, and the answer of the second is
  filed under its domain, its perspective and its number.
-/
theorem swapped_results_are_not_credited :
    (∃ joined, Ends samplePanel.processes joined ∧
      ¬ samplePanel.Credited (samplePanel.reviews joined)) ∧
    (∃ joined, sampleDebate.RoundsEnd joined ∧
      ¬ ∀ n, sampleDebate.Credited (sampleDebate.recordAt joined n)) ∧
    ∃ joined result, Ends sampleVersions.processes joined ∧
      sampleVersions.run joined
        (fun p => (finishedBy p).toResult) = some result ∧
      ¬ sampleVersions.Credited result := by
  refine ⟨?_, ?_, ?_⟩
  · have hEnds := ends_endedAfter 1 samplePanel.processes
    refine ⟨_, hEnds, ?_⟩
    rw [Panel.credited_iff hEnds]
    unfold InOrder
    decide
  · have hEnds : sampleDebate.RoundsEnd (sampleRounds 1) := by
      intro n round hRound
      rw [sampleRounds_eq rfl hRound]
      exact ends_endedAfter 1 _
    refine ⟨_, hEnds, ?_⟩
    rw [Debate.credited_iff hEnds]
    intro hOrder
    have hFirst := hOrder 0 1 rfl
    unfold InOrder at hFirst
    exact absurd hFirst (by decide)
  · have hEnds := ends_endedAfter 1 sampleVersions.processes
    refine ⟨_, _, hEnds, rfl, ?_⟩
    rw [NVersion.credited_iff hEnds rfl]
    unfold InOrder
    decide

end Orchestration
