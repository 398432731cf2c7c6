import Amplihack.Base.Utf8
import Amplihack.Identity.Parsers
import Amplihack.Base.Runs

/-
  Deployment of the `CLAUDE.md` template over what the user
  has, with the two copies that preserve mode makes.

  What the user wrote, over edits of `CLAUDE.md` and calls in
  preserve mode.
-/

-- Files

namespace ClaudeMd

open Base

abbrev Text := List Char

abbrev Bytes := List UInt8

/-
  What is at `CLAUDE.md`. A link counts as what it leads to,
  a file of its own or nothing.
-/
inductive Target where
| missing (link : Bool)
| directory
| file (link : Bool) (bytes : Bytes)
deriving DecidableEq

/- `CLAUDE.md` and the two files of `.claude/context`. -/
structure Files where
  claude : Target
  preserved : Option Bytes
  project : Option Bytes

inductive ClaudeState where
| missing
| default
| customClean
| customDirty
| unknown
deriving DecidableEq

inductive HandleMode where
| preserve
| overwrite
| merge
deriving DecidableEq

inductive ClaudeMdError where
| io
| sourceNotFound
deriving DecidableEq

/- How a write ends; a failed one may leave other bytes. -/
inductive WriteAnswer where
| done
| fails (left : Option Bytes)

/- What one call sees of the world. -/
structure CallIo where
  detectFails : Bool
  readFails : Bool
  projectReadFails : Bool
  source : Except ClaudeMdError Text
  timestamp : Text
  projectTimestamp : Text
  preserved : WriteAnswer
  project : WriteAnswer
  claude : WriteAnswer

-- The state of CLAUDE.md

def claudeVersionMarker : Text :=
  "<!-- amplihack-version:".toList

def beginMarker : Text :=
  "<!-- BEGIN AMPLIHACK-PRESERVED-CONTENT".toList

def endMarker : Text :=
  "<!-- END AMPLIHACK-PRESERVED-CONTENT -->".toList

def parseClaudeState (currentVersion content : Text) :
    ClaudeState :=
  match find claudeVersionMarker content with
  | none => .customClean
  | some markerPos =>
    let afterMarker := content.drop
      (markerPos + claudeVersionMarker.length)
    match find "-->".toList afterMarker with
    | none => .customClean
    | some versionEnd =>
      if Identity.trim (afterMarker.take versionEnd) =
          currentVersion then
        .default
      else
        .customDirty

/- `read_to_string`, when the file can be read as text. -/
def Target.read (fails : Bool) : Target → Option Text
| .file _ bytes => if fails then none else decodeUtf8 bytes
| _ => none

def detectClaudeState
    (currentVersion : Text) (fails : Bool) (target : Target) :
    ClaudeState :=
  match target with
  | .missing _ => .missing
  | .file true _ => .customClean
  | _ =>
    match target.read fails with
    | none => .unknown
    | some content => parseClaudeState currentVersion content

-- Writes

/- The file after a write of the text. -/
def WriteAnswer.onFile
    (answer : WriteAnswer) (content : Text) (old : Option Bytes) :
    Except ClaudeMdError Unit × Option Bytes :=
  match answer with
  | .done => (.ok (), some (utf8 content))
  | .fails none => (.error .io, old)
  | .fails (some left) => (.error .io, some left)

def Target.isLink : Target → Bool
| .missing link | .file link _ => link
| .directory => false

def Target.bytes : Target → Option Bytes
| .file _ bytes => some bytes
| _ => none

def writeClaudeMd
    (answer : WriteAnswer) (content : Text) (files : Files) :
    Except ClaudeMdError Unit × Files :=
  match files.claude with
  | .directory => (.error .io, files)
  | target =>
    let written := answer.onFile content target.bytes
    match written.2 with
    | none => (written.1, files)
    | some bytes =>
      (written.1, { files with claude := .file target.isLink bytes })

def preservedHeader (timestamp : Text) : Text :=
  "# Preserved CLAUDE.md content\n# Backed up: ".toList ++ timestamp ++
    "\n# This file was created by amplihack to preserve ".toList ++
    "your custom CLAUDE.md\n\n".toList

def backupToPreserved
    (io : CallIo) (content : Text) (files : Files) :
    Except ClaudeMdError Unit × Files :=
  let written := io.preserved.onFile
    (preservedHeader io.timestamp ++ content) files.preserved
  (written.1, { files with preserved := written.2 })

/- The section that `PROJECT.md` gets, from its marker on. -/
def preservedSection (timestamp content : Text) : Text :=
  beginMarker ++ " ".toList ++ timestamp ++ " -->\n".toList ++
    "Preserved CLAUDE.md content:\n\n".toList ++ content ++
    "\n".toList ++ endMarker

def writeProjectMd
    (io : CallIo) (content : Text) (files : Files) :
    Except ClaudeMdError Unit × Files :=
  let written := io.project.onFile content files.project
  (written.1, { files with project := written.2 })

def backupToProjectMd
    (io : CallIo) (content : Text) (files : Files) :
    Except ClaudeMdError Unit × Files :=
  let preserved := preservedSection io.projectTimestamp content
  match files.project with
  | none =>
    writeProjectMd io
      ("# Project Context\n\n".toList ++ preserved ++ "\n".toList) files
  | some bytes =>
    match if io.projectReadFails then none
        else decodeUtf8 bytes with
    | none => (.error .io, files)
    | some existing =>
      if (find beginMarker existing).isSome then
        (.ok (), files)
      else
        writeProjectMd io
          (existing ++ "\n\n---\n".toList ++ preserved ++
            "\n---\n".toList) files

/- Read the template and write it. -/
def deploy
    (io : CallIo) (files : Files) :
    Except ClaudeMdError Unit × Files :=
  match io.source with
  | .error e => (.error e, files)
  | .ok source => writeClaudeMd io.claude source files

/- Both copies come before the template. -/
def backUpAndDeploy
    (io : CallIo) (files : Files) :
    Except ClaudeMdError Unit × Files :=
  let existing := (files.claude.read io.readFails).getD []
  match backupToPreserved io existing files with
  | (.error e, files) => (.error e, files)
  | (.ok (), files) =>
    match backupToProjectMd io existing files with
    | (.error e, files) => (.error e, files)
    | (.ok (), files) => deploy io files

/- Nothing is written when the version is the current one. -/
def checkCurrent
    (io : CallIo) (files : Files) :
    Except ClaudeMdError Unit × Files :=
  match files.claude.read io.readFails with
  | none => (.error .io, files)
  | some _ => (.ok (), files)

/- The template below what the file has. -/
def mergeAndDeploy
    (io : CallIo) (files : Files) :
    Except ClaudeMdError Unit × Files :=
  match io.source with
  | .error e => (.error e, files)
  | .ok source =>
    let existing := (files.claude.read io.readFails).getD []
    let merged :=
      if existing.isEmpty then source
      else existing ++ "\n\n---\n\n".toList ++ source
    writeClaudeMd io.claude merged files

/- The hash that the result carries is left out. -/
def handleClaudeMd
    (currentVersion : Text) (mode : HandleMode) (io : CallIo)
    (files : Files) :
    Except ClaudeMdError Unit × Files :=
  match mode with
  | .overwrite => deploy io files
  | .merge => mergeAndDeploy io files
  | .preserve =>
    match detectClaudeState currentVersion io.detectFails
        files.claude with
    | .missing | .customDirty => deploy io files
    | .default => checkCurrent io files
    | .customClean | .unknown => backUpAndDeploy io files

end ClaudeMd

-- Histories

namespace ClaudeMd

open Base

/- The user gives `CLAUDE.md` any content, or a call runs. -/
inductive Event where
| edit (target : Target)
| call (io : CallIo)

/- The files, with the contents that calls have replaced. -/
structure History where
  files : Files
  owed : List Bytes

variable (currentVersion : Text)
variable (isTemplate : Bytes → Bool)

def preserveCall (io : CallIo) (files : Files) : Files :=
  (handleClaudeMd currentVersion .preserve io files).2

/- The content that a change replaced, unless a template. -/
def replaced (before after : Files) : List Bytes :=
  match before.claude.bytes with
  | none => []
  | some bytes =>
    if after.claude ≠ before.claude ∧
        isTemplate bytes = false then
      [bytes]
    else []

def History.next (h : History) : Event → History
| .edit target =>
  { h with files := { h.files with claude := target } }
| .call io =>
  let files := preserveCall currentVersion io h.files
  { files := files
    owed := replaced isTemplate h.files files ++ h.owed }

def InPreserved (files : Files) (content : Bytes) : Prop :=
  ∃ bytes, files.preserved = some bytes ∧ content <:+: bytes

def InProject (files : Files) (content : Bytes) : Prop :=
  ∃ bytes, files.project = some bytes ∧ content <:+: bytes

/- The content is in one of the two copies, in full. -/
def Files.Keeps (files : Files) (content : Bytes) : Prop :=
  InPreserved files content ∨ InProject files content

-- When calls keep it

/- The write is not cut short. -/
def WriteAnswer.Whole (answer : WriteAnswer) : Prop :=
  ∀ left, answer ≠ .fails (some left)

/- There is no template to deploy. -/
def CallIo.NoSource (io : CallIo) : Prop :=
  ∃ e, io.source = .error e

/-
  An outdated version is a template as it was shipped, or has
  a copy already.
-/
def DirtyFits (io : CallIo) (h : History) : Prop :=
  io.NoSource ∨
    ∀ bytes, h.files.claude.bytes = some bytes →
      isTemplate bytes = true ∨ h.files.Keeps bytes

/-
  The user's content can be read, the copies are not cut
  short, and nothing that was replaced earlier is kept in the
  old copy alone, unless the new copy has it.
-/
structure CustomFits (io : CallIo) (h : History) : Prop where
  readable : io.NoSource ∨
    ∀ bytes, h.files.claude.bytes = some bytes →
      isTemplate bytes = true ∨ h.files.claude.read io.readFails ≠ none
  owed : ∀ content ∈ h.owed,
    InProject h.files content ∨
      content <:+: utf8 (preservedHeader io.timestamp ++
        (h.files.claude.read io.readFails).getD []) ∨
      io.preserved = .fails none
  preserved : io.preserved.Whole
  project : io.project.Whole

def Fits (h : History) : Event → Prop
| .edit _ => True
| .call io =>
  match detectClaudeState currentVersion io.detectFails
      h.files.claude with
  | .missing | .default => True
  | .customDirty => DirtyFits isTemplate io h
  | .customClean | .unknown => CustomFits isTemplate io h

-- The writes

theorem onFile_of_whole
    {answer : WriteAnswer} (hWhole : answer.Whole)
    (content : Text) (old : Option Bytes) :
    answer.onFile content old = (.ok (), some (utf8 content)) ∨
      answer = .fails none ∧
        answer.onFile content old = (.error .io, old) := by
  cases answer with
  | done => exact .inl rfl
  | fails left =>
    cases left with
    | none => exact .inr ⟨rfl, rfl⟩
    | some bytes => exact absurd rfl (hWhole bytes)

theorem writeClaudeMd_copies
    (answer : WriteAnswer) (content : Text) (files : Files) :
    (writeClaudeMd answer content files).2.preserved = files.preserved ∧
      (writeClaudeMd answer content files).2.project =
        files.project := by
  unfold writeClaudeMd
  split
  · exact ⟨rfl, rfl⟩
  · dsimp only
    split <;> exact ⟨rfl, rfl⟩

theorem deploy_copies
    (io : CallIo) (files : Files) :
    (deploy io files).2.preserved = files.preserved ∧
      (deploy io files).2.project = files.project := by
  unfold deploy
  split
  · exact ⟨rfl, rfl⟩
  · exact writeClaudeMd_copies _ _ _

variable {files files' : Files} {content : Bytes}

/- Files with the same copies keep the same contents. -/
theorem Files.Keeps.congr
    (hKeeps : files.Keeps content)
    (hCopies : files'.preserved = files.preserved ∧
      files'.project = files.project) :
    files'.Keeps content := by
  rw [Files.Keeps, InPreserved, InProject, hCopies.1, hCopies.2]
  exact hKeeps

variable {io : CallIo}

theorem deploy_of_noSource
    (hNone : io.NoSource) (files : Files) :
    (deploy io files).2 = files := by
  rcases hNone with ⟨e, hSource⟩
  rw [deploy, hSource]

variable {target : Target} {fails : Bool}

/- The text of a file, when it is read, has its bytes. -/
theorem utf8_of_read
    {content : Text} (hRead : target.read fails = some content) :
    target.bytes = some (utf8 content) := by
  cases target with
  | missing _ | directory => cases hRead
  | file link bytes =>
    cases fails with
    | true => cases hRead
    | false =>
      have hBytes := decodeUtf8_eq_some_iff.mp hRead
      rw [Target.bytes, hBytes]

theorem utf8_infix_append
    (before content after : Text) :
    utf8 content <:+: utf8 (before ++ content ++ after) := by
  rw [utf8_append, utf8_append]
  exact ⟨utf8 before, utf8 after, rfl⟩

-- The copies

/- What the copy in `PROJECT.md` leaves as it was. -/
structure ProjectKept (files files' : Files) : Prop where
  claude : files'.claude = files.claude
  preserved : files'.preserved = files.preserved
  project : ∀ content, InProject files content → InProject files' content

theorem projectKept_backup
    (hWhole : io.project.Whole) (content : Text) (files : Files) :
    ProjectKept files (backupToProjectMd io content files).2 := by
  have hSame : ProjectKept files files :=
    ⟨rfl, rfl, fun _ hIn => hIn⟩
  unfold backupToProjectMd
  dsimp only
  split
  · next hNone =>
      refine ⟨rfl, rfl, ?_⟩
      rintro x ⟨bytes, hSome, -⟩
      rw [hNone] at hSome
      cases hSome
  · next bytes hBytes =>
      split
      · exact hSame
      · next existing hRead =>
          split
          · exact hSame
          · refine ⟨rfl, rfl, ?_⟩
            rintro x ⟨bytes', hSome, hInfix⟩
            rw [hBytes] at hSome
            cases hSome
            have hText : utf8 existing = bytes := by
              split at hRead
              · cases hRead
              · exact decodeUtf8_eq_some_iff.mp hRead
            unfold writeProjectMd
            dsimp only
            rcases onFile_of_whole hWhole _ files.project with
              hDone | ⟨-, hFails⟩
            · rw [hDone]
              refine ⟨_, rfl, hInfix.trans ?_⟩
              rw [← hText, utf8_append, utf8_append, utf8_append,
                List.append_assoc, List.append_assoc]
              exact (List.prefix_append _ _).isInfix
            · rw [hFails]
              exact ⟨bytes, hBytes, hInfix⟩

theorem ProjectKept.keeps
    (hKept : ProjectKept files files') (hKeeps : files.Keeps content) :
    files'.Keeps content := by
  rcases hKeeps with hIn | hIn
  · refine .inl ?_
    rw [InPreserved, hKept.preserved]
    exact hIn
  · exact .inr (hKept.project content hIn)

variable {before after : Files}

theorem replaced_of_same
    (hSame : after.claude = before.claude) :
    replaced isTemplate before after = [] := by
  unfold replaced
  split
  · rfl
  · rw [if_neg]
    rintro ⟨hNe, -⟩
    exact hNe hSame

/- A replaced content was the file's and is no template. -/
theorem mem_replaced
    (hMem : content ∈ replaced isTemplate before after) :
    before.claude.bytes = some content ∧
      after.claude ≠ before.claude ∧
      isTemplate content = false := by
  unfold replaced at hMem
  split at hMem
  · cases hMem
  · next bytes hBytes =>
      split_ifs at hMem with hChanged
      · rw [List.mem_singleton.mp hMem]
        exact ⟨hBytes, hChanged⟩
      · cases hMem

/- The files after the copy of the content was written. -/
def copied
    (io : CallIo) (content : Text) (files : Files) :
    Files :=
  { files with
    preserved := some
      (utf8 (preservedHeader io.timestamp ++ content)) }

theorem keeps_copied
    {content : Text} {x : Bytes}
    (hPlace : InProject files x ∨
      x <:+: utf8 (preservedHeader io.timestamp ++ content)) :
    (copied io content files).Keeps x := by
  rcases hPlace with hIn | hInfix
  · exact .inr hIn
  · exact .inl ⟨_, rfl, hInfix⟩

variable {h : History}

/- The new copy has the content that is about to go. -/
theorem copied_keeps_replaced
    {bytes : Bytes} (hFits : CustomFits isTemplate io h)
    (hBytes : h.files.claude.bytes = some bytes)
    (hOwn : isTemplate bytes = false) (hSource : ¬ io.NoSource) :
    (copied io ((h.files.claude.read io.readFails).getD [])
      h.files).Keeps bytes := by
  have hRead := hFits.readable.resolve_left hSource bytes hBytes
  rw [hOwn] at hRead
  have hSome := hRead.resolve_left (by simp)
  rcases Option.ne_none_iff_exists'.mp hSome with ⟨content, hContent⟩
  have hText := utf8_of_read hContent
  rw [hBytes] at hText
  rw [hContent, Option.getD_some, Option.some.inj hText]
  refine keeps_copied (.inr ?_)
  have hInfix := utf8_infix_append (preservedHeader io.timestamp) content []
  rwa [List.append_nil] at hInfix

/- All the contents of a list have a copy. -/
def KeepsAll (files : Files) (contents : List Bytes) : Prop :=
  ∀ content ∈ contents, files.Keeps content

theorem keepsAll_backUpAndDeploy
    (hFits : CustomFits isTemplate io h) (hKept : KeepsAll h.files h.owed) :
    KeepsAll (backUpAndDeploy io h.files).2
      (replaced isTemplate h.files
        (backUpAndDeploy io h.files).2 ++ h.owed) := by
  unfold backUpAndDeploy backupToPreserved
  dsimp only
  rcases onFile_of_whole hFits.preserved
    (preservedHeader io.timestamp ++
      (h.files.claude.read io.readFails).getD [])
    h.files.preserved with hDone | ⟨-, hFails⟩
  · rw [hDone]
    dsimp only
    have hProject := projectKept_backup hFits.project
      ((h.files.claude.read io.readFails).getD [])
      (copied io ((h.files.claude.read io.readFails).getD []) h.files)
    have hOwed : ∀ x ∈ h.owed,
        (copied io ((h.files.claude.read io.readFails).getD [])
          h.files).Keeps x := by
      intro x hMem
      rcases hFits.owed x hMem with hIn | hIn | hFails
      · exact keeps_copied (.inl hIn)
      · exact keeps_copied (.inr hIn)
      · rw [hFails] at hDone
        cases hDone
    unfold copied at hProject
    split
    · next e files hBackup =>
        rw [hBackup] at hProject
        have hNil : replaced isTemplate h.files files = [] :=
          replaced_of_same isTemplate hProject.claude
        dsimp only
        rw [hNil, List.nil_append]
        exact fun x hMem => hProject.keeps (hOwed x hMem)
    · next files hBackup =>
        rw [hBackup] at hProject
        have hCopies := deploy_copies io files
        intro x hMem
        refine Files.Keeps.congr ?_ hCopies
        rcases List.mem_append.mp hMem with hNew | hOld
        · rcases mem_replaced isTemplate hNew with
            ⟨hBytes, hChanged, hOwn⟩
          refine hProject.keeps
            (copied_keeps_replaced isTemplate hFits hBytes hOwn ?_)
          intro hNone
          rw [deploy_of_noSource hNone] at hChanged
          exact hChanged hProject.claude
        · exact hProject.keeps (hOwed x hOld)
  · rw [hFails]
    dsimp only
    rw [replaced_of_same isTemplate rfl, List.nil_append]
    exact hKept

-- Steps and runs

/- A template that replaces an outdated version. -/
theorem keepsAll_deploy
    (hNew : ∀ bytes, h.files.claude.bytes = some bytes →
      ¬ io.NoSource →
      isTemplate bytes = true ∨ h.files.Keeps bytes)
    (hKept : KeepsAll h.files h.owed) :
    KeepsAll (deploy io h.files).2
      (replaced isTemplate h.files (deploy io h.files).2 ++ h.owed) := by
  intro x hMem
  refine Files.Keeps.congr ?_ (deploy_copies io h.files)
  rcases List.mem_append.mp hMem with hIn | hOld
  · rcases mem_replaced isTemplate hIn with
      ⟨hBytes, hChanged, hOwn⟩
    have hSource : ¬ io.NoSource := by
      intro hNone
      rw [deploy_of_noSource hNone] at hChanged
      exact hChanged rfl
    rcases hNew x hBytes hSource with hIs | hKeeps
    · rw [hOwn] at hIs
      cases hIs
    · exact hKeeps
  · exact hKept x hOld

theorem missing_of_detect
    (hState : detectClaudeState currentVersion fails target = .missing) :
    target.bytes = none := by
  cases target with
  | missing _ | directory => rfl
  | file link bytes =>
    cases link with
    | true => cases hState
    | false =>
      unfold detectClaudeState at hState
      dsimp only at hState
      split at hState
      · cases hState
      · unfold parseClaudeState at hState
        split at hState
        · cases hState
        · dsimp only at hState
          split at hState
          · cases hState
          · split at hState <;> cases hState

theorem files_checkCurrent
    (io : CallIo) (files : Files) :
    (checkCurrent io files).2 = files := by
  unfold checkCurrent
  split <;> rfl

/- One step that fits keeps what is owed after it. -/
theorem keeps_of_fits
    {event : Event} (hFits : Fits currentVersion isTemplate h event)
    (hKept : KeepsAll h.files h.owed) :
    KeepsAll (h.next currentVersion isTemplate event).files
      (h.next currentVersion isTemplate event).owed := by
  cases event with
  | edit target => exact hKept
  | call io =>
    unfold Fits at hFits
    simp only [History.next, preserveCall, handleClaudeMd]
    cases hState : detectClaudeState currentVersion
        io.detectFails h.files.claude with
    | missing =>
      refine keepsAll_deploy isTemplate ?_ hKept
      intro bytes hBytes
      rw [missing_of_detect currentVersion hState] at hBytes
      cases hBytes
    | default =>
      rw [files_checkCurrent, replaced_of_same isTemplate rfl]
      exact hKept
    | customDirty =>
      simp only [hState] at hFits
      refine keepsAll_deploy isTemplate ?_ hKept
      intro bytes hBytes hSource
      exact hFits.resolve_left hSource bytes hBytes
    | customClean =>
      simp only [hState] at hFits
      exact keepsAll_backUpAndDeploy isTemplate hFits hKept
    | unknown =>
      simp only [hState] at hFits
      exact keepsAll_backUpAndDeploy isTemplate hFits hKept

/-
  From any files, in every run of edits and calls that fit:
  every content that a call has replaced, templates apart, is
  in one of the copies, after that call and every later one.
-/
theorem replaced_content_kept
    {files : Files} {h : History}
    (hRun : Reaches (History.next currentVersion isTemplate)
      (Fits currentVersion isTemplate) ⟨files, []⟩ h) :
    ∀ content ∈ h.owed, h.files.Keeps content := by
  refine hRun.invariant (fun h => KeepsAll h.files h.owed)
    ?_ (by simp [KeepsAll])
  intro h event hKept hFits
  exact keeps_of_fits currentVersion isTemplate hFits hKept

-- Two runs

def sampleVersion : Text := "2".toList

def sampleTemplate : Text :=
  "<!-- amplihack-version: 2 -->".toList

def isSampleTemplate (bytes : Bytes) : Bool :=
  bytes == utf8 sampleTemplate

/- A call that reads and writes without a failure. -/
def fineIo : CallIo where
  detectFails := false
  readFails := false
  projectReadFails := false
  source := .ok sampleTemplate
  timestamp := "t".toList
  projectTimestamp := "t".toList
  preserved := .done
  project := .done
  claude := .done

def userFile (text : Text) : Target :=
  .file false (utf8 text)

theorem read_userFile (text : Text) :
    (userFile text).read false = some text :=
  decodeUtf8_utf8 text

theorem detect_userFile (version text : Text) :
    detectClaudeState version false (userFile text) =
      parseClaudeState version text := by
  have hRead := read_userFile text
  unfold userFile at hRead ⊢
  simp only [detectClaudeState, hRead]

/- What a call on the user's text leaves. -/
def afterCall (text : Text) (project : Text) : Files where
  claude := userFile sampleTemplate
  preserved := some (utf8 (preservedHeader "t".toList ++ text))
  project := some (utf8 project)

variable {text project : Text}

theorem preserveCall_of_backup
    (hClaude : files.claude = userFile text)
    (hClean : parseClaudeState sampleVersion text = .customClean)
    (hProject :
      backupToProjectMd fineIo text (copied fineIo text files) =
        (.ok (), { copied fineIo text files with
          project := some (utf8 project) })) :
    preserveCall sampleVersion fineIo files = afterCall text project := by
  have hState : detectClaudeState sampleVersion false
      files.claude = .customClean := by rw [hClaude, detect_userFile, hClean]
  have hRead : files.claude.read false = some text := by
    rw [hClaude, read_userFile]
  have hRun : backUpAndDeploy fineIo files =
      deploy fineIo { copied fineIo text files with
        project := some (utf8 project) } := by
    unfold copied at hProject
    simp only [backUpAndDeploy, backupToPreserved, fineIo,
      hRead, WriteAnswer.onFile, Option.getD_some] at hProject ⊢
    rw [hProject]
    rfl
  simp only [preserveCall, handleClaudeMd]
  rw [show fineIo.detectFails = false from rfl, hState]
  dsimp only
  rw [hRun]
  simp only [deploy, fineIo, writeClaudeMd, copied, hClaude,
    userFile, WriteAnswer.onFile, afterCall, Target.isLink]

/- The text of `PROJECT.md` after the first content. -/
def firstProject (text : Text) : Text :=
  "# Project Context\n\n".toList ++
    preservedSection "t".toList text ++ "\n".toList

theorem first_call
    (hClean : parseClaudeState sampleVersion text = .customClean) :
    preserveCall sampleVersion fineIo ⟨userFile text, none, none⟩ =
      afterCall text (firstProject text) :=
  preserveCall_of_backup rfl hClean rfl

theorem later_call
    {preserved : Option Bytes}
    (hClean : parseClaudeState sampleVersion text = .customClean)
    (hMarker : (find beginMarker project).isSome = true) :
    preserveCall sampleVersion fineIo
        ⟨userFile text, preserved, some (utf8 project)⟩ =
      afterCall text project := by
  refine preserveCall_of_backup rfl hClean ?_
  simp only [backupToProjectMd, copied, fineIo, Bool.false_eq_true,
    if_false, decodeUtf8_utf8, hMarker, if_true]

def firstText : Text := "one".toList
def secondText : Text := "Z".toList
def thirdText : Text := "three".toList

/- A repository with the user's first text and no copies. -/
def firstFiles : Files :=
  ⟨userFile firstText, none, none⟩

def sampleNext : History → Event → History :=
  History.next sampleVersion isSampleTemplate

def firstReplaced : History :=
  sampleNext ⟨firstFiles, []⟩ (.call fineIo)

theorem firstReplaced_eq :
    firstReplaced =
      ⟨afterCall firstText (firstProject firstText), [utf8 firstText]⟩ := by
  unfold firstReplaced sampleNext History.next firstFiles
  dsimp only
  rw [first_call rfl]
  rfl

theorem replaced_content_kept_of_one_call :
    utf8 firstText ∈ firstReplaced.owed ∧
      ∀ content ∈ firstReplaced.owed, firstReplaced.files.Keeps content := by
  have hFits : Fits sampleVersion isSampleTemplate
      ⟨firstFiles, []⟩ (.call fineIo) := by
    have hState : detectClaudeState sampleVersion
        fineIo.detectFails firstFiles.claude = .customClean :=
      detect_userFile _ _
    simp only [Fits, hState]
    refine ⟨.inr fun bytes _ => .inr ?_, by simp, ?_, ?_⟩
    · rw [show firstFiles.claude = userFile firstText from rfl,
        show fineIo.readFails = false from rfl, read_userFile]
      simp
    · intro left
      simp [fineIo]
    · intro left
      simp [fineIo]
  have hRun : Reaches
      (History.next sampleVersion isSampleTemplate)
      (Fits sampleVersion isSampleTemplate) ⟨firstFiles, []⟩
      firstReplaced := (Reaches.refl _).tail (Event.call fineIo) hFits
  refine ⟨?_, replaced_content_kept sampleVersion isSampleTemplate hRun⟩
  rw [firstReplaced_eq]
  exact List.mem_singleton_self _

/- Two more texts of the user, each with a call. -/
def laterEvents : List Event :=
  [.edit (userFile secondText), .call fineIo,
    .edit (userFile thirdText), .call fineIo]

theorem laterEvents_eq :
    laterEvents.foldl sampleNext firstReplaced =
      ⟨afterCall thirdText (firstProject firstText),
        [utf8 thirdText, utf8 secondText, utf8 firstText]⟩ := by
  have hMarker :
      (find beginMarker (firstProject firstText)).isSome =
        true := rfl
  have hSecond : sampleNext
      ⟨⟨userFile secondText,
          some (utf8 (preservedHeader "t".toList ++ firstText)),
          some (utf8 (firstProject firstText))⟩,
        [utf8 firstText]⟩ (.call fineIo) =
      ⟨afterCall secondText (firstProject firstText),
        [utf8 secondText, utf8 firstText]⟩ := by
    unfold sampleNext History.next
    dsimp only
    rw [later_call rfl hMarker]
    rfl
  have hThird : sampleNext
      ⟨⟨userFile thirdText,
          some (utf8 (preservedHeader "t".toList ++ secondText)),
          some (utf8 (firstProject firstText))⟩,
        [utf8 secondText, utf8 firstText]⟩ (.call fineIo) =
      ⟨afterCall thirdText (firstProject firstText),
        [utf8 thirdText, utf8 secondText, utf8 firstText]⟩ := by
    unfold sampleNext History.next
    dsimp only
    rw [later_call rfl hMarker]
    rfl
  rw [firstReplaced_eq]
  simp only [laterEvents, List.foldl_cons, List.foldl_nil]
  exact (congrArg (fun h => sampleNext
    (sampleNext h (.edit (userFile thirdText)))
      (.call fineIo)) hSecond).trans hThird

/-
  The first text is in `PROJECT.md` and the third in the
  other copy; the second one is nowhere.
-/
theorem second_content_lost :
    utf8 secondText ∈
        (laterEvents.foldl sampleNext firstReplaced).owed ∧
      ¬ (laterEvents.foldl sampleNext
        firstReplaced).files.Keeps (utf8 secondText) := by
  rw [laterEvents_eq]
  refine ⟨by simp, ?_⟩
  have hOwn : (90 : UInt8) ∈ utf8 secondText := by decide
  rintro (⟨bytes, hBytes, hInfix⟩ | ⟨bytes, hBytes, hInfix⟩)
  · have hIn := hInfix.subset hOwn
    rw [← Option.some.inj hBytes] at hIn
    exact absurd hIn (by decide +kernel)
  · have hIn := hInfix.subset hOwn
    rw [← Option.some.inj hBytes] at hIn
    exact absurd hIn (by decide +kernel)

end ClaudeMd
