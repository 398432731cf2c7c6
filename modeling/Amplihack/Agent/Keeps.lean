import Amplihack.Agent.Invariant
import Amplihack.Base.Runs

/-
  Every writer of the registry keeps its invariant.

  Updates of one registry file by any number of processes.
-/

-- Registration And The Wrapper

namespace Agent

open Base

/- What an update's closure does keeps the invariant. -/
def Keeps
    {α : Type} (defaultSocket : String)
    (f : Registry → Except String (α × Registry)) :
    Prop :=
  ∀ reg out next, RegistryOk defaultSocket reg →
    f reg = .ok (out, next) → RegistryOk defaultSocket next

variable {c : Chrono}
variable {defaultSocket : String}
variable {now : ℤ}
variable {reg : Registry}
variable {name : String}

variable {launch : Launch}

/- A launch without conflicts finds both its places free. -/
theorem free_of_checkConflicts
    (hCheck : launch.checkConflicts defaultSocket reg name = .ok ()) :
    (∀ id, launch.conversation = some id →
      activeWithConversation reg id name = none) ∧
    sessionConflict defaultSocket reg launch.socket
      launch.session name = none := by
  rw [Launch.checkConflicts] at hCheck
  cases hConversation : launch.conversation.bind
      (activeWithConversation reg · name) with
  | some other => simp [hConversation] at hCheck
  | none =>
    cases hSession : sessionConflict defaultSocket reg
        launch.socket launch.session name with
    | some other => simp [hConversation, hSession] at hCheck
    | none =>
      refine ⟨?_, rfl⟩
      intro id hId
      simpa [hId] using hConversation

variable {e : Entry}

/- The fields of a checked launch may be stored. -/
theorem RegistryOk.insert_launch
    (hOk : RegistryOk defaultSocket reg)
    (hCheck : launch.checkConflicts defaultSocket reg name = .ok ())
    (hEntry : EntryOk e)
    (hConversation : e.conversationId = launch.conversation)
    (hSocket : e.tmuxSocket = launch.socket)
    (hSession : e.tmuxSession = launch.session) :
    RegistryOk defaultSocket (reg.insert name e) := by
  rcases free_of_checkConflicts hCheck with ⟨hFree, hAlone⟩
  refine hOk.insert hEntry (Or.inr ?_) (Or.inr ?_)
  · rw [hConversation]
    exact hFree
  · rw [hSocket, hSession]
    exact hAlone

theorem keeps_register
    (launch : Launch) (process : Option (ℕ × ℕ)) (freshId : String) :
    Keeps defaultSocket
      (register c defaultSocket now name launch process freshId) := by
  intro reg out next hOk hRun
  rw [register] at hRun
  cases hCheck : launch.checkConflicts defaultSocket reg
      name with
  | error message =>
    rw [hCheck] at hRun
    cases hRun
  | ok _ =>
    rw [hCheck] at hRun
    cases hRun
    have hNew : ∀ registeredAt,
        EntryOk ((launch.intoEntry registeredAt
          freshId).setProcess process) := by
      intro registeredAt
      exact ((EntryOk.new _ _ _ _ _).apply launch).setProcess process
    exact hOk.insert_launch hCheck (hNew _) rfl rfl rfl

theorem keeps_unregister :
    Keeps defaultSocket (unregister name) := by
  intro reg out next hOk hRun
  rw [unregister] at hRun
  split at hRun
  · cases hRun
    exact hOk.remove name
  · cases hRun

theorem keeps_start
    (launchId : String) (launch : Launch) (freshId : String) :
    Keeps defaultSocket
      (start c defaultSocket now name launchId launch freshId) := by
  intro reg out next hOk hRun
  rw [start] at hRun
  cases hCheck : launch.checkConflicts defaultSocket reg
      name with
  | error message =>
    rw [hCheck] at hRun
    cases hRun
  | ok _ =>
    rw [hCheck] at hRun
    cases hGet : reg.get? name with
    | some e =>
      rw [hGet] at hRun
      cases hRun
      exact hOk.insert_launch hCheck
        ((EntryOk.activate c now launchId e).apply launch)
        rfl rfl rfl
    | none =>
      rw [hGet] at hRun
      cases hRun
      exact hOk.insert_launch hCheck
        (EntryOk.activate c now launchId _) rfl rfl rfl

theorem keeps_recordClaude
    (launchId : String) (found : Found) (profile : Option String) :
    Keeps defaultSocket (recordClaude name launchId found profile) := by
  intro reg out next hOk hRun
  cases hRun
  apply hOk.changeIf
  intro e hGet hGuard hEntry
  simp only [Bool.and_eq_true, Bool.not_eq_true', Option.isSome_eq_false_iff,
    Option.isNone_iff_eq_none, beq_iff_eq] at hGuard
  refine hOk.insert ?_ (Or.inr ?_) (Or.inl ⟨e, hGet, ?_⟩)
  · have hSet : EntryOk (e.setProcess (some (found.pid, found.start))) :=
      hEntry.setProcess _
    exact ⟨hSet.process, hSet.endedAt, hSet.endedBy, hSet.alert, hSet.lostAt⟩
  · intro id hId
    rw [← Option.some.inj hId]
    exact hGuard.2
  · intro place hPlace
    exact hPlace

/- An end gives up the places of the agent. -/
theorem RegistryOk.insert_finish
    (hOk : RegistryOk defaultSocket reg) (hGet : reg.get? name = some e)
    (hActive : e.state = .active) (hEntry : EntryOk e) (who : EndedBy) :
    RegistryOk defaultSocket (reg.insert name (e.finish c now who)) :=
  hOk.insert_of_places hGet hActive (hEntry.finish c now who)
    rfl rfl rfl

theorem keeps_markEnded
    (launchId : String) :
    Keeps defaultSocket (markEnded c now name launchId) := by
  intro reg out next hOk hRun
  cases hRun
  apply hOk.changeIf
  intro e hGet hGuard hEntry
  simp only [Bool.and_eq_true, beq_iff_eq] at hGuard
  exact hOk.insert_finish hGet hGuard.1 hEntry .wrapper

theorem keeps_command
    (command : Command) :
    Keeps defaultSocket (command.run c defaultSocket now) := by
  cases command with
  | register name launch process freshId =>
    exact keeps_register launch process freshId
  | unregister name => exact keeps_unregister
  | start name launchId launch freshId =>
    exact keeps_start launchId launch freshId
  | recordClaude name launchId found profile =>
    exact keeps_recordClaude launchId found profile
  | markEnded name launchId => exact keeps_markEnded launchId

-- The Supervisor's Pass

theorem ok_refreshId
    (hOk : RegistryOk defaultSocket reg) (change : IdChange) :
    RegistryOk defaultSocket (refreshId reg change) := by
  rw [refreshId]
  split
  · exact hOk
  · next hFree =>
      simp only [Option.not_isSome_iff_eq_none] at hFree
      apply hOk.changeIf
      intro e hGet hGuard hEntry
      refine hOk.insert ?_ (Or.inr ?_) (Or.inl ⟨e, hGet, ?_⟩)
      · exact ⟨hEntry.process, hEntry.endedAt, hEntry.endedBy,
          hEntry.alert, hEntry.lostAt⟩
      · intro id hId
        rw [← Option.some.inj hId]
        exact hFree
      · intro place hPlace
        exact hPlace

theorem keeps_refreshIds
    (changes : List IdChange) :
    Keeps defaultSocket (refreshIds changes) := by
  intro reg out next hOk hRun
  cases hRun
  induction changes generalizing reg with
  | nil => exact hOk
  | cons change rest ih => exact ih _ (ok_refreshId hOk change)

theorem ok_applyMarker
    (hOk : RegistryOk defaultSocket reg) (mark : MarkerEnd) :
    RegistryOk defaultSocket (applyMarker c now reg mark) := by
  apply hOk.changeIf
  intro e hGet hGuard hEntry
  simp only [Bool.and_eq_true, beq_iff_eq] at hGuard
  exact hOk.insert_finish hGet hGuard.1.1 hEntry .sessionEnd

theorem keeps_applyMarkers
    (ends : List MarkerEnd) :
    Keeps defaultSocket (applyMarkers c now ends) := by
  intro reg out next hOk hRun
  cases hRun
  induction ends generalizing reg with
  | nil => exact hOk
  | cons mark rest ih => exact ih _ (ok_applyMarker hOk mark)

/- A result's record changes the last recovery only. -/
theorem EntryOk.recordLine
    (hEntry : EntryOk e) (outcome : Outcome) :
    EntryOk (recordLine c name now outcome e).2 := by
  rw [recordLine_snd]
  exact ⟨hEntry.process, hEntry.endedAt, hEntry.endedBy,
    hEntry.alert, hEntry.lostAt⟩

theorem EntryOk.markLost
    (hEntry : EntryOk e) (hActive : e.state = .active) (p : Plan) :
    EntryOk (markLost c now p e) := by
  rw [Agent.markLost]
  split
  · exact ⟨hEntry.process, hEntry.endedAt, hEntry.endedBy,
      hEntry.alert, fun _ => hActive⟩
  · exact hEntry

/- What a classification leaves of an active entry. -/
structure Classifies (e e' : Entry) : Prop where
  entry : EntryOk e'
  conversation : e'.conversationId = e.conversationId
  socket : e'.tmuxSocket = e.tmuxSocket
  session : e'.tmuxSession = e.tmuxSession

theorem classifies_markLost
    (hEntry : EntryOk e) (hActive : e.state = .active) (p : Plan) :
    Classifies e (markLost c now p e) where
  entry := hEntry.markLost hActive p
  conversation := by
    rw [markLost]
    split <;> rfl
  socket := by
    rw [markLost]
    split <;> rfl
  session := by
    rw [markLost]
    split <;> rfl

theorem Classifies.recordLine
    {e e' : Entry} (hLeft : Classifies e e') (outcome : Outcome) :
    Classifies e (recordLine c name now outcome e').2 where
  entry := hLeft.entry.recordLine outcome
  conversation := by
    rw [recordLine_snd]
    exact hLeft.conversation
  socket := by
    rw [recordLine_snd]
    exact hLeft.socket
  session := by
    rw [recordLine_snd]
    exact hLeft.session

theorem classifies_classifyEntry
    (hEntry : EntryOk e) (hActive : e.state = .active)
    (maxRestarts : ℕ) (p : Plan) :
    Classifies e (classifyEntry c now maxRestarts p e).2.2 := by
  have hMark : Classifies e (markLost c now p e) :=
    classifies_markLost hEntry hActive p
  rw [classifyEntry]
  cases verdictOf c now maxRestarts p e with
  | healthy =>
    refine ⟨?_, rfl, rfl, rfl⟩
    exact ⟨hEntry.process, hEntry.endedAt, hEntry.endedBy,
      hEntry.alert, fun _ => hActive⟩
  | candidate => exact hMark
  | result outcome =>
    have hRecord : Classifies e
        (recordLine c p.name now outcome
          (markLost c now p e)).2 := hMark.recordLine outcome
    simp only
    split
    · exact ⟨hRecord.entry.stop _, hRecord.conversation,
        hRecord.socket, hRecord.session⟩
    · exact hRecord

variable {acc : Classified}

theorem ok_classifyOne
    (hOk : RegistryOk defaultSocket acc.2) (maxRestarts : ℕ) (p : Plan) :
    RegistryOk defaultSocket (classifyOne c now maxRestarts acc p).2 := by
  rw [classifyOne]
  cases hGet : acc.2.get? p.name with
  | none => exact hOk
  | some e =>
    simp only
    split
    · next hSame =>
        simp only [sameAsPlanned, Bool.and_eq_true, beq_iff_eq] at hSame
        have hLeft : Classifies e (classifyEntry c now maxRestarts p e).2.2 :=
          classifies_classifyEntry
            (hOk.entries p.name e hGet) hSame.1.1.1
            maxRestarts p
        exact hOk.insert_of_places hGet hSame.1.1.1
          hLeft.entry hLeft.conversation hLeft.socket
          hLeft.session
    · exact hOk

theorem ok_foldl_classifyOne
    (maxRestarts : ℕ) (plans : List Plan)
    (hOk : RegistryOk defaultSocket acc.2) :
    RegistryOk defaultSocket
      (plans.foldl (classifyOne c now maxRestarts) acc).2 := by
  induction plans generalizing acc with
  | nil => exact hOk
  | cons p rest ih => exact ih (ok_classifyOne hOk maxRestarts p)

theorem keeps_classify
    (maxRestarts : ℕ) (plans : List Plan) :
    Keeps defaultSocket (classify c now maxRestarts plans) := by
  intro reg out next hOk hRun
  have hNext :
      (plans.foldl (classifyOne c now maxRestarts)
        (([], []), reg)).2 = next := congrArg Prod.snd (Except.ok.inj hRun)
  rw [← hNext]
  exact ok_foldl_classifyOne maxRestarts plans hOk

theorem classifies_settleEntry
    (hEntry : EntryOk e) (outcome : Option Outcome) (restart : Bool) :
    Classifies e (settleEntry c now name outcome restart e).2 := by
  have hCounted : Classifies e
      (if restart then
        { e with restarts := e.restarts ++ [fmtTs c now] }
      else e) := by
    split
    · exact ⟨⟨hEntry.process, hEntry.endedAt, hEntry.endedBy,
        hEntry.alert, hEntry.lostAt⟩, rfl, rfl, rfl⟩
    · exact ⟨hEntry, rfl, rfl, rfl⟩
  cases outcome with
  | some o => exact hCounted.recordLine o
  | none =>
    refine ⟨?_, hCounted.conversation, hCounted.socket, hCounted.session⟩
    refine ⟨hCounted.entry.process, hCounted.entry.endedAt,
      hCounted.entry.endedBy, hCounted.entry.alert, ?_⟩
    intro hLost
    simp [settleEntry] at hLost

theorem keeps_settle
    (registeredAt : String) (outcome : Option Outcome) (restart : Bool) :
    Keeps defaultSocket (settle c now name registeredAt outcome restart) := by
  intro reg out next hOk hRun
  rw [settle] at hRun
  cases hGet : reg.get? name with
  | none =>
    rw [hGet] at hRun
    cases hRun
    exact hOk
  | some e =>
    rw [hGet] at hRun
    simp only at hRun
    split at hRun
    · next hSame =>
        simp only [Bool.and_eq_true, beq_iff_eq] at hSame
        cases hRun
        have hLeft : Classifies e
            (settleEntry c now name outcome restart e).2 :=
          classifies_settleEntry (hOk.entries name e hGet) outcome restart
        exact hOk.insert_of_places hGet hSame.2 hLeft.entry
          hLeft.conversation hLeft.socket hLeft.session
    · cases hRun
      exact hOk

theorem keeps_recordResumed
    (registeredAt : String) (conv lost resumedAt : Option String) :
    Keeps defaultSocket
      (recordResumed c now name registeredAt conv lost resumedAt) := by
  intro reg out next hOk hRun
  cases hRun
  apply hOk.changeIf
  intro e hGet hGuard hEntry
  simp only [Bool.and_eq_true, beq_iff_eq] at hGuard
  refine hOk.insert_of_places hGet hGuard.2 ?_ rfl rfl rfl
  refine ⟨hEntry.process, hEntry.endedAt, hEntry.endedBy, hEntry.alert, ?_⟩
  intro hLost
  simp [Entry.recordResume] at hLost

end Agent

-- Calls

namespace Agent

open Base

/- An update that some process makes. -/
inductive Writer where
| command (command : Command)
| refreshIds (changes : List IdChange)
| applyMarkers (ends : List MarkerEnd)
| classify (maxRestarts : ℕ) (plans : List Plan)
| settle
    (name registeredAt : String) (outcome : Option Outcome)
    (restart : Bool)
| recordResumed
    (name registeredAt : String)
    (conv lost resumedAt : Option String)

/- A writer, its clock, and how its lock and write go. -/
structure Call where
  writer : Writer
  now : ℤ
  answers : UpdateAnswers

/- The file after a call. -/
def Call.write
    (t : Text) (defaultSocket : String) (file : RegistryFile) (call : Call) :
    RegistryFile :=
  let c := t.chrono
  let now := call.now
  let ans := call.answers
  match call.writer with
  | .command command =>
    (update t ans now (command.run c defaultSocket now) file).2
  | .refreshIds changes =>
    (update t ans now (refreshIds changes) file).2
  | .applyMarkers ends =>
    (update t ans now (applyMarkers c now ends) file).2
  | .classify maxRestarts plans =>
    (update t ans now (classify c now maxRestarts plans) file).2
  | .settle name registeredAt outcome restart =>
    (update t ans now (settle c now name registeredAt outcome restart) file).2
  | .recordResumed name registeredAt conv lost resumedAt =>
    (update t ans now (recordResumed c now name
      registeredAt conv lost resumedAt) file).2

-- Soundness

/- The file loads, and its registry has the invariant. -/
def Sound
    (t : Text) (defaultSocket : String) (file : RegistryFile) :
    Prop :=
  ∃ reg, load t file = .ok reg ∧ RegistryOk defaultSocket reg

variable {t : Text}
variable {defaultSocket : String}
variable {file : RegistryFile}

theorem sound_missing : Sound t defaultSocket .missing :=
  ⟨Dict.empty, rfl, RegistryOk.empty⟩

theorem sound_update
    {α : Type} {f : Registry → Except String (α × Registry)}
    (ans : UpdateAnswers) (now : ℤ) (hSound : Sound t defaultSocket file)
    (hKeeps : Keeps defaultSocket f) :
    Sound t defaultSocket (update t ans now f file).2 := by
  rcases hSound with ⟨reg, hLoad, hOk⟩
  have hNext :
      load t (update t ans now f file).2 = .ok reg ∨
        ∃ out changed, f reg = .ok (out, changed) ∧
          load t (update t ans now f file).2 =
            .ok (prunedEntries t now changed) := load_of_update hLoad
  rcases hNext with hSame | ⟨out, changed, hRun, hNext⟩
  · exact ⟨reg, hSame, hOk⟩
  · exact ⟨_, hNext, (hKeeps reg out changed hOk hRun).prunedEntries t now⟩

theorem sound_write
    (call : Call) (hSound : Sound t defaultSocket file) :
    Sound t defaultSocket (call.write t defaultSocket file) := by
  rcases call with ⟨writer, now, ans⟩
  cases writer with
  | command command =>
    exact sound_update ans now hSound (keeps_command command)
  | refreshIds changes =>
    exact sound_update ans now hSound (keeps_refreshIds changes)
  | applyMarkers ends =>
    exact sound_update ans now hSound (keeps_applyMarkers ends)
  | classify maxRestarts plans =>
    exact sound_update ans now hSound (keeps_classify maxRestarts plans)
  | settle name registeredAt outcome restart =>
    exact sound_update ans now hSound
      (keeps_settle registeredAt outcome restart)
  | recordResumed name registeredAt conv lost resumedAt =>
    exact sound_update ans now hSound
      (keeps_recordResumed registeredAt conv lost resumedAt)

/- Whatever a call writes over any file can be loaded. -/
theorem loads_write
    (call : Call) :
    call.write t defaultSocket file = file ∨
      ∃ reg, load t (call.write t defaultSocket file) = .ok reg := by
  have hUpdate : ∀ {α : Type}
      (f : Registry → Except String (α × Registry)),
      (update t call.answers call.now f file).2 = file ∨
        ∃ reg, load t
          (update t call.answers call.now f file).2 = .ok reg := by
    intro α f
    have hCases :
        (update t call.answers call.now f file).2 = file ∨
          ∃ reg out changed, load t file = .ok reg ∧
            f reg = .ok (out, changed) ∧
            (update t call.answers call.now f file).1 = .ok out ∧
            load t (update t call.answers call.now f file).2 =
              .ok (prunedEntries t call.now changed) := update_cases
    rcases hCases with hSame | ⟨reg, out, changed, -, -, -, h⟩
    · exact Or.inl hSame
    · exact Or.inr ⟨_, h⟩
  rcases call with ⟨writer, now, ans⟩
  cases writer <;> exact hUpdate _

/-
  A call leaves the file or writes one that loads, and a
  sound file is sound after any run of calls.
-/
theorem registry_invariant
    (t : Text) (defaultSocket : String) :
    (∀ file call,
      Call.write t defaultSocket file call = file ∨
        ∃ reg, load t (Call.write t defaultSocket file call) = .ok reg) ∧
    ∀ file file',
      Sound t defaultSocket file →
        Reaches (Call.write t defaultSocket) (fun _ _ => True) file file' →
        Sound t defaultSocket file' := by
  constructor
  · intro file call
    exact loads_write call
  · intro file file' hSound hRun
    exact hRun.invariant (Sound t defaultSocket)
      (fun _ call hBefore _ => sound_write call hBefore)
      hSound

/- Times as they are read and written at the epoch. -/
def epochText : Text where
  chrono :=
    { format := fun s => if s = 0 then some unixEpoch else none
      parse := fun s => if s = unixEpoch then some 0 else none }
  printed := fun reg => 800 * reg.entries.length

def builderLaunch : Launch where
  socket := none
  session := "build"
  window := "main"
  launchDir := "/home/dev/project"
  conversation := some "c1"
  model := none
  effort := none
  addDirs := []
  permissionMode := none
  skipPermissions := false
  flags := {}
  env := []

def registerBuilder : Call where
  writer := .command (.register "builder" builderLaunch
    (some (40, 7)) "0123456789abcdef0123456789abcdef")
  now := 0
  answers := { locked := true, replaced := true }

/- A first registration, from no file at all. -/
theorem registry_invariant_of_first_registration :
    Sound epochText "/tmp/tmux-1000/default"
        (registerBuilder.write epochText "/tmp/tmux-1000/default" .missing) ∧
      ((load epochText
        (registerBuilder.write epochText
          "/tmp/tmux-1000/default" .missing)).toOption.map
            Dict.keys) = some ["builder"] := by
  refine ⟨?_, by decide +kernel⟩
  exact (registry_invariant epochText
    "/tmp/tmux-1000/default").2 .missing _ sound_missing
      ((Reaches.refl _).tail registerBuilder trivial)

end Agent
