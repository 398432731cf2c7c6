import Amplihack.Base.Dict
import Amplihack.Agent.Writers

/-
  The invariant of the registry, and that every writer keeps
  it.
-/

-- The Invariant

namespace Agent

open Base

/- The rules between the fields of one entry. -/
structure EntryOk (e : Entry) : Prop where
  process : e.claudePid.isSome ↔ e.procStart.isSome
  endedAt : e.endedAt.isSome ↔ e.state = .ended
  endedBy : e.endedBy.isSome ↔ e.state = .ended
  alert : e.alert.isSome ↔ e.state = .stopped
  lostAt : e.lostAt.isSome → e.state = .active

/- The conversation an active agent has. -/
def conversationOf (e : Entry) : Option String :=
  if e.state = .active then e.conversationId else none

/- The server and the session an active agent is in. -/
def sessionOf (defaultSocket : String) (e : Entry) :
    Option ((Bool × List (List Char)) × String) :=
  if e.state = .active then
    some (socketOf defaultSocket e.tmuxSocket, e.tmuxSession)
  else none

structure RegistryOk
    (defaultSocket : String) (reg : Registry) :
    Prop where
  entries : ∀ name e, reg.get? name = some e → EntryOk e
  conversations : reg.UniqueIndex conversationOf
  sessions : reg.UniqueIndex (sessionOf defaultSocket)

theorem conversationOf_eq_some_iff
    {e : Entry} {id : String} :
    conversationOf e = some id ↔
      e.state = .active ∧ e.conversationId = some id := by
  rw [conversationOf]
  split
  · next hActive => simp [hActive]
  · next hOther => simp [hOther]

variable {defaultSocket : String}
variable {reg : Registry}
variable {name : String}

theorem conversation_free
    {id : String} (hFree : activeWithConversation reg id name = none)
    (other : String) (e : Entry)
    (hGet : reg.get? other = some e) (hNe : other ≠ name) :
    conversationOf e ≠ some id := by
  intro hSame
  rw [conversationOf_eq_some_iff] at hSame
  rw [activeWithConversation_eq_none_iff] at hFree
  exact hFree other e hGet hNe hSame.1 hSame.2

theorem session_free
    {socket : Option String} {session : String}
    (hFree : sessionConflict defaultSocket reg socket session name = none)
    (other : String) (e : Entry)
    (hGet : reg.get? other = some e) (hNe : other ≠ name) :
    sessionOf defaultSocket e ≠
      some (socketOf defaultSocket socket, session) := by
  intro hSame
  rw [sessionConflict_eq_none_iff] at hFree
  rw [sessionOf] at hSame
  split at hSame
  · next hActive =>
      have hPair := Option.some.inj hSame
      exact hFree other e hGet hNe hActive
        (congrArg Prod.snd hPair) (congrArg Prod.fst hPair)
  · cases hSame

/- The entry may have the conversation under that name. -/
def ConversationFits
    (reg : Registry) (name : String) (e : Entry) :
    Prop :=
  (∃ old, reg.get? name = some old ∧
    ∀ id, conversationOf e = some id → conversationOf old = some id) ∨
  ∀ id, e.conversationId = some id → activeWithConversation reg id name = none

/- The entry may be in its session under that name. -/
def SessionFits
    (defaultSocket : String) (reg : Registry) (name : String) (e : Entry) :
    Prop :=
  (∃ old, reg.get? name = some old ∧
    ∀ place, sessionOf defaultSocket e = some place →
      sessionOf defaultSocket old = some place) ∨
  sessionConflict defaultSocket reg e.tmuxSocket e.tmuxSession name = none

namespace RegistryOk

theorem empty : RegistryOk defaultSocket Dict.empty where
  entries := by
    intro name e hGet
    simp at hGet
  conversations := Dict.UniqueIndex.empty
  sessions := Dict.UniqueIndex.empty

/- One entry is stored whose places are free or its own. -/
theorem insert
    {e : Entry} (hOk : RegistryOk defaultSocket reg) (hEntry : EntryOk e)
    (hConversation : ConversationFits reg name e)
    (hSession : SessionFits defaultSocket reg name e) :
    RegistryOk defaultSocket (reg.insert name e) where
  entries := by
    intro other e' hGet
    rw [Dict.get?_insert] at hGet
    split at hGet
    · cases hGet
      exact hEntry
    · exact hOk.entries other e' hGet
  conversations := by
    rcases hConversation with ⟨old, hGet, hKept⟩ | hFree
    · exact hOk.conversations.insert_of_kept hGet hKept
    · apply hOk.conversations.insert
      intro id hIndex
      exact conversation_free
        (hFree id (conversationOf_eq_some_iff.mp hIndex).2)
  sessions := by
    rcases hSession with ⟨old, hGet, hKept⟩ | hFree
    · exact hOk.sessions.insert_of_kept hGet hKept
    · apply hOk.sessions.insert
      intro place hIndex
      have hPlace :
          place = (socketOf defaultSocket e.tmuxSocket, e.tmuxSession) := by
        rw [sessionOf] at hIndex
        split at hIndex
        · exact (Option.some.inj hIndex).symm
        · cases hIndex
      rw [hPlace]
      exact session_free hFree

/- An active agent's entry with its places as they were. -/
theorem insert_of_places
    {e e' : Entry} (hOk : RegistryOk defaultSocket reg)
    (hGet : reg.get? name = some e)
    (hActive : e.state = .active) (hEntry : EntryOk e')
    (hConversation : e'.conversationId = e.conversationId)
    (hSocket : e'.tmuxSocket = e.tmuxSocket)
    (hSession : e'.tmuxSession = e.tmuxSession) :
    RegistryOk defaultSocket (reg.insert name e') := by
  refine hOk.insert hEntry (Or.inl ⟨e, hGet, ?_⟩) (Or.inl ⟨e, hGet, ?_⟩)
  · intro id hIndex
    rw [conversationOf_eq_some_iff] at hIndex ⊢
    exact ⟨hActive, hConversation ▸ hIndex.2⟩
  · intro place hIndex
    rw [sessionOf] at hIndex
    split at hIndex
    · rw [sessionOf, if_pos hActive, ← hSocket, ← hSession]
      exact hIndex
    · cases hIndex

theorem remove
    (hOk : RegistryOk defaultSocket reg) (name : String) :
    RegistryOk defaultSocket (reg.remove name) where
  entries := by
    intro other e hGet
    rw [Dict.get?_remove] at hGet
    split at hGet
    · cases hGet
    · exact hOk.entries other e hGet
  conversations := hOk.conversations.remove name
  sessions := hOk.sessions.remove name

/- Pruning the restarts is no change to the invariant. -/
theorem prunedEntries
    (hOk : RegistryOk defaultSocket reg) (t : Text) (now : ℤ) :
    RegistryOk defaultSocket (prunedEntries t now reg) where
  entries := by
    intro name e hGet
    rw [Agent.prunedEntries, Dict.get?_mapValues,
      Option.map_eq_some_iff] at hGet
    rcases hGet with ⟨old, hGet, rfl⟩
    have hOld := hOk.entries name old hGet
    exact ⟨hOld.process, hOld.endedAt, hOld.endedBy, hOld.alert, hOld.lostAt⟩
  conversations :=
    hOk.conversations.mapValues fun _ _ _ hIndex => hIndex
  sessions :=
    hOk.sessions.mapValues fun _ _ _ hIndex => hIndex

/- A guarded change keeps the invariant if the change does. -/
theorem changeIf
    {guard : Entry → Bool} {f : Entry → Entry}
    (hOk : RegistryOk defaultSocket reg)
    (hChange : ∀ e, reg.get? name = some e →
      guard e = true → EntryOk e →
        RegistryOk defaultSocket (reg.insert name (f e))) :
    RegistryOk defaultSocket (changeIf reg name guard f) := by
  rw [Agent.changeIf]
  cases hGet : reg.get? name with
  | none => exact hOk
  | some e =>
    simp only
    split
    · next hGuard =>
        exact hChange e hGet hGuard (hOk.entries name e hGet)
    · exact hOk

end RegistryOk

-- Entries

namespace EntryOk

variable {e : Entry}

theorem new
    (session window launchDir registeredAt launchId : String) :
    EntryOk (Entry.new session window launchDir registeredAt
      launchId) where
  process := by simp [Entry.new]
  endedAt := by simp [Entry.new]
  endedBy := by simp [Entry.new]
  alert := by simp [Entry.new]
  lostAt := by simp [Entry.new]

theorem apply
    (hEntry : EntryOk e) (launch : Launch) :
    EntryOk (launch.apply e) :=
  ⟨hEntry.process, hEntry.endedAt, hEntry.endedBy,
    hEntry.alert, hEntry.lostAt⟩

theorem setProcess
    (hEntry : EntryOk e) (p : Option (ℕ × ℕ)) :
    EntryOk (e.setProcess p) where
  process := by
    cases p
    · simp [Entry.setProcess]
    · simp [Entry.setProcess]
  endedAt := hEntry.endedAt
  endedBy := hEntry.endedBy
  alert := hEntry.alert
  lostAt := hEntry.lostAt

/- A wrapper's start puts any entry in order. -/
theorem activate
    (c : Chrono) (now : ℤ) (launchId : String) (e : Entry) :
    EntryOk (e.activate c now launchId) where
  process := by simp [Entry.activate, Entry.setProcess]
  endedAt := by simp [Entry.activate, Entry.setProcess]
  endedBy := by simp [Entry.activate, Entry.setProcess]
  alert := by simp [Entry.activate, Entry.setProcess]
  lostAt := by simp [Entry.activate, Entry.setProcess]

theorem finish
    (hEntry : EntryOk e) (c : Chrono) (now : ℤ) (who : EndedBy) :
    EntryOk (e.finish c now who) where
  process := hEntry.process
  endedAt := by simp [Entry.finish]
  endedBy := by simp [Entry.finish]
  alert := by simp [Entry.finish]
  lostAt := by simp [Entry.finish]

theorem stop
    (hEntry : EntryOk e) (alert : String) :
    EntryOk (e.stop alert) where
  process := hEntry.process
  endedAt := by simp [Entry.stop]
  endedBy := by simp [Entry.stop]
  alert := by simp [Entry.stop]
  lostAt := by simp [Entry.stop]

end EntryOk

end Agent
