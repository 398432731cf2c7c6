import Mathlib.Data.Set.Defs
import Amplihack.Base.Json.Text
import Amplihack.Base.Runs
import Amplihack.Base.Search

/-
  Filing the errors of a run as issues, found again by a
  fingerprint in their bodies.

  The tracker is a client whose search returns the open
  issues that carry the marker, in any order. Each issue
  keeps the classes of the errors that ended in it.

  Which markers a created body carries, and what one call
  can do to the tracker.
-/

-- Fingerprints

namespace IssueDedup

open Base

abbrev Text := List Char

structure ErrorClass where
  errorType : Text
  headline : Text
  location : Text
deriving DecidableEq

structure Fingerprint where
  text : Text

def canonical (cls : ErrorClass) : Text :=
  cls.errorType ++ '|' :: cls.headline ++ '|' :: cls.location

def hexByte (b : UInt8) : Text :=
  [hexDigit (b.toNat / 16), hexDigit (b.toNat % 16)]

/- `sha256` digests the UTF-8 bytes of a text. -/
def fromErrorClass
    (sha256 : Text → List UInt8) (cls : ErrorClass) :
    Fingerprint where
  text := ((sha256 (canonical cls)).take 6).flatMap hexByte

def marker (fingerprint : Fingerprint) : Text :=
  "<!-- amplihack-fingerprint:".toList ++ fingerprint.text ++ " -->".toList

-- The Decision

structure FoundIssue where
  number : ℕ
  title : Text
  createdDate : Text
  isOpen : Bool

inductive DedupAction where
  | createNew
  | appendComment (issueNumber : ℕ)
  | createDailyRollup (priorIssueNumbers : List ℕ)
deriving DecidableEq

def decideAction
    (matchingIssues : List FoundIssue) (today : Text) :
    DedupAction :=
  let openIssues := matchingIssues.filter fun i => i.isOpen
  match openIssues with
  | [] => .createNew
  | _ :: _ =>
    match openIssues.filter fun i => i.createdDate == today
    with
    | issue :: _ => .appendComment issue.number
    | [] => .createDailyRollup (openIssues.map (·.number))

-- Filing

/- A client of the tracker, whose state is `σ`. -/
structure IssueClient (σ : Type) where
  searchIssuesByFingerprint :
    Text → Fingerprint → σ → Except Text (List FoundIssue)
  createIssue : Text → Text → Text → List Text → σ → Except Text ℕ × σ
  addComment : Text → ℕ → Text → σ → Except Text Unit × σ

def bodyWithMarker
    (fingerprint : Fingerprint) (errorBody : Text) :
    Text :=
  errorBody ++ '\n' :: '\n' :: marker fingerprint

def duplicateComment (today errorBody : Text) : Text :=
  "**Duplicate occurrence** (".toList ++ today ++ ")\n\n".toList ++ errorBody

def refs (numbers : List ℕ) : Text :=
  (", ".toList).intercalate (numbers.map fun n => '#' :: Nat.toDigits 10 n)

def rollupBody
    (fingerprint : Fingerprint) (today errorBody : Text) (numbers : List ℕ) :
    Text :=
  "**Daily rollup** for ".toList ++ today ++
    '\n' :: '\n' :: ("Prior issues: ".toList ++ refs numbers) ++
    '\n' :: '\n' :: bodyWithMarker fingerprint errorBody

def rollupTitle (today errorTitle : Text) : Text :=
  "[Rollup ".toList ++ today ++ "] ".toList ++ errorTitle

variable {σ : Type}

/- What the decision does at the client. -/
def perform
    (client : IssueClient σ) (repo : Text) (fingerprint : Fingerprint)
    (today errorTitle errorBody : Text) (s : σ) :
    DedupAction → Except Text Unit × σ
  | .createNew =>
    let created := client.createIssue repo errorTitle
      (bodyWithMarker fingerprint errorBody)
      ["auto-filed".toList] s
    (created.1.map fun _ => (), created.2)
  | .appendComment number =>
    client.addComment repo number (duplicateComment today errorBody) s
  | .createDailyRollup numbers =>
    let created := client.createIssue repo
      (rollupTitle today errorTitle)
      (rollupBody fingerprint today errorBody numbers)
      ["auto-filed".toList] s
    (created.1.map fun _ => (), created.2)

def fileOrDedup
    (client : IssueClient σ) (repo : Text) (fingerprint : Fingerprint)
    (today errorTitle errorBody : Text) (s : σ) :
    Except Text DedupAction × σ :=
  match client.searchIssuesByFingerprint repo fingerprint s with
  | .error e => (.error e, s)
  | .ok found =>
    let action := decideAction found today
    let done := perform client repo fingerprint today
      errorTitle errorBody s action
    (done.1.map fun _ => action, done.2)

-- The Tracker

/- `errors` are the classes whose occurrences it holds. -/
structure Issue where
  repo : Text
  number : ℕ
  title : Text
  body : Text
  labels : List Text
  createdDate : Text
  isOpen : Bool
  comments : List Text
  errors : List ErrorClass

abbrev Tracker := List Issue

namespace Issue

def toFound (i : Issue) : FoundIssue where
  number := i.number
  title := i.title
  createdDate := i.createdDate
  isOpen := i.isOpen

def key (i : Issue) : Text × ℕ :=
  (i.repo, i.number)

def Carries (i : Issue) (fingerprint : Fingerprint) : Prop :=
  marker fingerprint <:+: i.body

instance (i : Issue) (fingerprint : Fingerprint) :
    Decidable (i.Carries fingerprint) := by
  unfold Carries
  infer_instance

def append
    (i : Issue) (comment : Text) (cls : ErrorClass) :
    Issue :=
  { i with
    comments := i.comments ++ [comment]
    errors := i.errors ++ [cls] }

def close (i : Issue) : Issue :=
  { i with isOpen := false }

end Issue

/- How the tracker answers one call. -/
structure Answers where
  order : List FoundIssue → List FoundIssue
  number : ℕ
  searchError : Option Text
  createError : Option Text
  commentError : Option Text

/- The open issues of the repository with the marker. -/
def search
    (repo : Text) (fingerprint : Fingerprint) (s : Tracker) :
    List Issue :=
  s.filter fun i =>
    i.repo = repo ∧ i.isOpen = true ∧ i.Carries fingerprint

def modify
    (key : Text × ℕ) (change : Issue → Issue) (s : Tracker) :
    Tracker :=
  s.map fun i => if i.key = key then change i else i

/- The client of a call for an error of a class on a day. -/
def trackerClient
    (answers : Answers) (cls : ErrorClass) (day : Text) :
    IssueClient Tracker where
  searchIssuesByFingerprint repo fingerprint s :=
    match answers.searchError with
    | some e => .error e
    | none =>
      .ok (answers.order ((search repo fingerprint s).map Issue.toFound))
  createIssue repo title body labels s :=
    match answers.createError with
    | some e => (.error e, s)
    | none =>
      (.ok answers.number,
        s ++ [{
          repo, title, body, labels
          number := answers.number
          createdDate := day
          isOpen := true
          comments := []
          errors := [cls] }])
  addComment repo number body s :=
    match answers.commentError with
    | some e => (.error e, s)
    | none =>
      (.ok (), modify (repo, number) (·.append body cls) s)

/- One call for an occurrence of an error. -/
structure Call where
  repo : Text
  cls : ErrorClass
  today : Text
  errorTitle : Text
  errorBody : Text

/- `opened` is an issue that others open. -/
inductive Event where
  | filed (call : Call) (answers : Answers)
  | opened (issue : Issue)
  | closed (key : Text × ℕ)

def file
    (sha256 : Text → List UInt8) (call : Call)
    (answers : Answers) (s : Tracker) :
    Except Text DedupAction × Tracker :=
  fileOrDedup (trackerClient answers call.cls call.today)
    call.repo (fromErrorClass sha256 call.cls) call.today
    call.errorTitle call.errorBody s

def step
    (sha256 : Text → List UInt8) (s : Tracker) :
    Event → Tracker
  | .filed call answers => (file sha256 call answers s).2
  | .opened issue => s ++ [issue]
  | .closed key => modify key Issue.close s

end IssueDedup

-- Fingerprints

namespace IssueDedup

open Base

variable {sha256 : Text → List UInt8}
variable {cls cls' : ErrorClass}
variable {f g : Fingerprint}

/- A SHA-256 digest has 32 bytes. -/
def DigestSize (sha256 : Text → List UInt8) : Prop :=
  ∀ text, (sha256 text).length = 32

/- No two of the canonical texts share six bytes. -/
def CollisionFree
    (sha256 : Text → List UInt8) (used : Set ErrorClass) :
    Prop :=
  ∀ c ∈ used, ∀ c' ∈ used,
    (sha256 (canonical c)).take 6 = (sha256 (canonical c')).take 6 →
    canonical c = canonical c'

theorem hexDigit_injective :
    ∀ a b : Fin 16, hexDigit a = hexDigit b → a = b := by
  decide

theorem hexDigit_ne :
    ∀ a : Fin 16, hexDigit a ≠ '<' ∧ hexDigit a ≠ '\n' := by
  decide

theorem hexByte_injective : Function.Injective hexByte := by
  intro a b hSame
  unfold hexByte at hSame
  rw [List.cons.injEq, List.cons.injEq] at hSame
  rcases hSame with ⟨hHigh, hLow, _⟩
  have ha := a.toNat_lt
  have hb := b.toNat_lt
  have hFirst := hexDigit_injective
    ⟨a.toNat / 16, by omega⟩ ⟨b.toNat / 16, by omega⟩ hHigh
  have hSecond := hexDigit_injective
    ⟨a.toNat % 16, by omega⟩ ⟨b.toNat % 16, by omega⟩ hLow
  rw [Fin.mk.injEq] at hFirst hSecond
  apply UInt8.toNat_inj.mp
  omega

theorem length_flatMap_hexByte (bytes : List UInt8) :
    (bytes.flatMap hexByte).length = 2 * bytes.length := by
  induction bytes with
  | nil => rfl
  | cons b bytes ih =>
    rw [List.flatMap_cons, List.length_append, ih, List.length_cons]
    simp only [hexByte, List.length_cons, List.length_nil]
    omega

theorem flatMap_hexByte_injective :
    Function.Injective (List.flatMap hexByte) := by
  intro bytes
  induction bytes with
  | nil =>
    intro others hSame
    cases others with
    | nil => rfl
    | cons b others => cases hSame
  | cons a bytes ih =>
    intro others hSame
    cases others with
    | nil => cases hSame
    | cons b others =>
      rw [List.flatMap_cons, List.flatMap_cons] at hSame
      rcases List.append_inj hSame rfl with ⟨hByte, hRest⟩
      rw [hexByte_injective hByte, ih hRest]

theorem length_fromErrorClass
    (hSize : DigestSize sha256) (cls : ErrorClass) :
    (fromErrorClass sha256 cls).text.length = 12 := by
  unfold fromErrorClass
  rw [length_flatMap_hexByte, List.length_take, hSize]
  rfl

theorem mem_fromErrorClass
    {c : Char} (hMem : c ∈ (fromErrorClass sha256 cls).text) :
    c ≠ '<' ∧ c ≠ '\n' := by
  rcases List.mem_flatMap.mp hMem with ⟨b, _, hDigit⟩
  have hb := b.toNat_lt
  unfold hexByte at hDigit
  rw [List.mem_cons, List.mem_singleton] at hDigit
  rcases hDigit with rfl | rfl
  · exact hexDigit_ne ⟨b.toNat / 16, by omega⟩
  · exact hexDigit_ne ⟨b.toNat % 16, by omega⟩

/- Used classes share a fingerprint only by their texts. -/
theorem canonical_of_fingerprint
    {used : Set ErrorClass} (hFree : CollisionFree sha256 used)
    (hUsed : cls ∈ used) (hUsed' : cls' ∈ used)
    (hSame : fromErrorClass sha256 cls = fromErrorClass sha256 cls') :
    canonical cls = canonical cls' := by
  apply hFree cls hUsed cls' hUsed'
  exact flatMap_hexByte_injective (congrArg Fingerprint.text hSame)

-- Markers

theorem head_marker (f : Fingerprint) :
    (marker f).head? = some '<' :=
  rfl

theorem marker_ne_nil (f : Fingerprint) : marker f ≠ [] :=
  List.cons_ne_nil _ _

theorem newline_not_mem_marker
    (sha256 : Text → List UInt8) (cls : ErrorClass) :
    '\n' ∉ marker (fromErrorClass sha256 cls) := by
  unfold marker
  rw [List.mem_append, List.mem_append]
  rintro ((hFront | hDigit) | hBack)
  · revert hFront
    decide
  · exact (mem_fromErrorClass hDigit).2 rfl
  · revert hBack
    decide

/- A marker in another of its length is the same. -/
theorem marker_infix_marker
    (hLength : f.text.length = g.text.length)
    (hInfix : marker f <:+: marker g) :
    f = g := by
  have hSame : marker f = marker g := by
    apply hInfix.eq_of_length
    unfold marker
    simp only [List.length_append, hLength]
  unfold marker at hSame
  rw [List.append_assoc, List.append_assoc] at hSame
  have hTail := List.append_cancel_left hSame
  have hText := List.append_cancel_right hTail
  cases f
  cases g
  cases hText
  rfl

/- A marker lies on one side of a blank line. -/
theorem marker_infix_blank_line
    (cls : ErrorClass) (a b : Text) :
    marker (fromErrorClass sha256 cls) <:+: a ++ '\n' :: '\n' :: b ↔
    marker (fromErrorClass sha256 cls) <:+: a ∨
      marker (fromErrorClass sha256 cls) <:+: b := by
  have hNewline := newline_not_mem_marker sha256 cls
  have hNil := marker_ne_nil (fromErrorClass sha256 cls)
  rw [infix_append_cons_iff hNewline hNil]
  have hBlank := infix_append_cons_iff hNewline hNil [] b
  rw [List.nil_append, List.infix_nil, or_iff_right hNil]
    at hBlank
  rw [hBlank]

/- A created body has its marker and that of its error. -/
theorem marker_infix_bodyWithMarker
    (hSize : DigestSize sha256) (cls cls' : ErrorClass) (errorBody : Text) :
    marker (fromErrorClass sha256 cls') <:+:
      bodyWithMarker (fromErrorClass sha256 cls) errorBody ↔
    marker (fromErrorClass sha256 cls') <:+: errorBody ∨
      fromErrorClass sha256 cls' = fromErrorClass sha256 cls := by
  unfold bodyWithMarker
  rw [marker_infix_blank_line]
  refine or_congr_right ?_
  constructor
  · intro hMarker
    apply marker_infix_marker _ hMarker
    rw [length_fromErrorClass hSize, length_fromErrorClass hSize]
  · intro hSame
    rw [hSame]

theorem angle_not_mem_refs (numbers : List ℕ) :
    '<' ∉ "Prior issues: ".toList ++ refs numbers := by
  rw [List.mem_append]
  rintro (hFront | hRefs)
  · revert hFront
    decide
  · rcases mem_or_mem_of_intercalate hRefs with
      hComma | ⟨part, hPart, hIn⟩
    · revert hComma
      decide
    · rcases List.mem_map.mp hPart with ⟨n, _, rfl⟩
      rcases List.mem_cons.mp hIn with hHash | hDigit
      · revert hHash
        decide
      · have hIsDigit := isDigit_of_mem_decimal hDigit
        revert hIsDigit
        decide

theorem marker_infix_rollupBody
    (hSize : DigestSize sha256) (cls cls' : ErrorClass)
    (today errorBody : Text) (numbers : List ℕ) :
    marker (fromErrorClass sha256 cls') <:+:
      rollupBody (fromErrorClass sha256 cls) today errorBody numbers ↔
    marker (fromErrorClass sha256 cls') <:+: today ∨
      marker (fromErrorClass sha256 cls') <:+: errorBody ∨
      fromErrorClass sha256 cls' = fromErrorClass sha256 cls := by
  have hNil := marker_ne_nil (fromErrorClass sha256 cls')
  have hPrior :
      ¬marker (fromErrorClass sha256 cls') <:+:
        "Prior issues: ".toList ++ refs numbers := by
    intro hInfix
    apply angle_not_mem_refs numbers
    exact hInfix.subset List.mem_cons_self
  unfold rollupBody
  rw [marker_infix_blank_line, marker_infix_blank_line,
    marker_infix_bodyWithMarker hSize, or_iff_left hPrior,
    infix_append_iff_of_head _ hNil]
  intro c hMem hHead
  rw [head_marker] at hHead
  rw [← Option.some.inj hHead] at hMem
  revert hMem
  decide

-- One Call

variable {i : Issue}
variable {answers : Answers}

theorem decideAction_cases
    (found : List FoundIssue) (today : Text) :
    (∃ f ∈ found, f.createdDate = today ∧
      decideAction found today = .appendComment f.number) ∨
    ((∀ f ∈ found, f.isOpen = true → f.createdDate ≠ today) ∧
      ∀ n, decideAction found today ≠ .appendComment n) := by
  unfold decideAction
  simp only
  split
  next hNone =>
    right
    refine ⟨?_, nofun⟩
    intro f hFound hOpen
    have hIn := List.mem_filter.mpr ⟨hFound, hOpen⟩
    rw [hNone] at hIn
    cases hIn
  next =>
    split
    next f rest hFirst =>
      left
      have hIn : f ∈ (found.filter fun i => i.isOpen).filter
          fun i => i.createdDate == today := by
        rw [hFirst]
        exact List.mem_cons_self
      rcases List.mem_filter.mp hIn with ⟨hOpen, hToday⟩
      exact ⟨f, (List.mem_filter.mp hOpen).1, beq_iff_eq.mp hToday, rfl⟩
    next hNone =>
      right
      refine ⟨?_, nofun⟩
      intro f hFound hOpen hToday
      have hOpened := List.mem_filter.mpr ⟨hFound, hOpen⟩
      have hIn : f ∈ (found.filter fun i => i.isOpen).filter
          fun i => i.createdDate == today :=
        List.mem_filter.mpr ⟨hOpened, beq_iff_eq.mpr hToday⟩
      rw [hNone] at hIn
      cases hIn

structure Created
    (sha256 : Text → List UInt8) (call : Call) (number : ℕ) (i : Issue) :
    Prop where
  repo : i.repo = call.repo
  number : i.number = number
  createdDate : i.createdDate = call.today
  isOpen : i.isOpen = true
  errors : i.errors = [call.cls]
  body :
    i.body = bodyWithMarker (fromErrorClass sha256 call.cls) call.errorBody ∨
    ∃ numbers, i.body =
      rollupBody (fromErrorClass sha256 call.cls) call.today
        call.errorBody numbers

def appended (call : Call) (i : Issue) (s : Tracker) :
    Tracker :=
  modify i.key
    (·.append (duplicateComment call.today call.errorBody) call.cls) s

/- What one call can do. -/
theorem file_cases
    (sha256 : Text → List UInt8) (call : Call) (s : Tracker)
    (hOrder : ∀ found, (answers.order found).Perm found) :
    (∃ e, file sha256 call answers s = (.error e, s)) ∨
    (∃ i ∈ search call.repo (fromErrorClass sha256 call.cls) s,
      i.createdDate = call.today ∧
      file sha256 call answers s =
        (.ok (.appendComment i.number), appended call i s)) ∨
    ((∀ i ∈ search call.repo
        (fromErrorClass sha256 call.cls) s,
      i.createdDate ≠ call.today) ∧
      ∃ new action, Created sha256 call answers.number new ∧
        file sha256 call answers s = (.ok action, s ++ [new])) := by
  unfold file fileOrDedup trackerClient
  simp only
  split
  next e _ => exact .inl ⟨e, rfl⟩
  next found hFound =>
    split at hFound
    · cases hFound
    have hFound := Except.ok.inj hFound
    have hMem : ∀ f, f ∈ found ↔
        ∃ i ∈ search call.repo
          (fromErrorClass sha256 call.cls) s,
          i.toFound = f := by
      intro f
      rw [← hFound, (hOrder _).mem_iff, List.mem_map]
    rcases decideAction_cases found call.today with
      ⟨f, hIn, hToday, hAction⟩ | ⟨hOther, hAction⟩
    · rcases (hMem f).mp hIn with ⟨i, hSearch, rfl⟩
      rw [hAction]
      unfold perform
      simp only
      split
      next e _ => exact .inl ⟨e, rfl⟩
      next =>
        refine .inr (.inl ⟨i, hSearch, hToday, ?_⟩)
        have hRepo : i.repo = call.repo := by
          have hHolds := (List.mem_filter.mp hSearch).2
          exact (of_decide_eq_true hHolds).1
        unfold appended Issue.key
        rw [hRepo]
        rfl
    · have hNone : ∀ i ∈ search call.repo
          (fromErrorClass sha256 call.cls) s,
          i.createdDate ≠ call.today := by
        intro i hSearch
        apply hOther i.toFound ((hMem _).mpr ⟨i, hSearch, rfl⟩)
        have hHolds := (List.mem_filter.mp hSearch).2
        exact (of_decide_eq_true hHolds).2.1
      cases hDecided : decideAction found call.today with
      | appendComment n => exact absurd hDecided (hAction n)
      | createNew =>
        unfold perform
        simp only
        split
        next e _ => exact .inl ⟨e, rfl⟩
        next =>
          refine .inr (.inr ⟨hNone, _, _, ?_, rfl⟩)
          exact ⟨rfl, rfl, rfl, rfl, rfl, .inl rfl⟩
      | createDailyRollup numbers =>
        unfold perform
        simp only
        split
        next e _ => exact .inl ⟨e, rfl⟩
        next =>
          refine .inr (.inr ⟨hNone, _, _, ?_, rfl⟩)
          exact ⟨rfl, rfl, rfl, rfl, rfl, .inr ⟨numbers, rfl⟩⟩

end IssueDedup
