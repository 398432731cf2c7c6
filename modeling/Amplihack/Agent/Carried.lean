import Amplihack.Agent.Entry
import Amplihack.Agent.Supervisor

/-
  What the writers leave of the entries they do not make:
  their restarts and their registration.
-/

-- Carried Entries

namespace Agent

open Base

/- The entry keeps its history, and does not leave a stop. -/
structure Carried (e e' : Entry) : Prop where
  restarts : e'.restarts = e.restarts
  registeredAt : e'.registeredAt = e.registeredAt
  stopped : e.state = .stopped → e'.state = .stopped

namespace Carried

variable {e e' e'' : Entry}

theorem refl (e : Entry) : Carried e e :=
  ⟨rfl, rfl, id⟩

theorem trans
    (hLeft : Carried e e') (hRight : Carried e' e'') :
    Carried e e'' where
  restarts := hRight.restarts.trans hLeft.restarts
  registeredAt :=
    hRight.registeredAt.trans hLeft.registeredAt
  stopped := fun hStopped =>
    hRight.stopped (hLeft.stopped hStopped)

/- A change of an active entry that keeps its history. -/
theorem of_active
    (hActive : e.state = .active) (hRestarts : e'.restarts = e.restarts)
    (hRegistered : e'.registeredAt = e.registeredAt) :
    Carried e e' where
  restarts := hRestarts
  registeredAt := hRegistered
  stopped := by
    intro hStopped
    rw [hActive] at hStopped
    cases hStopped

end Carried

/- Every entry after the write is carried from before it. -/
def CarriedAll (reg reg' : Registry) : Prop :=
  ∀ name e', reg'.get? name = some e' →
    ∃ e, reg.get? name = some e ∧ Carried e e'

namespace CarriedAll

variable {reg reg' reg'' : Registry}

theorem refl (reg : Registry) : CarriedAll reg reg :=
  fun _ e' hGet => ⟨e', hGet, Carried.refl e'⟩

theorem trans
    (hLeft : CarriedAll reg reg') (hRight : CarriedAll reg' reg'') :
    CarriedAll reg reg'' := by
  intro name e'' hGet
  rcases hRight name e'' hGet with ⟨e', hGet', hCarried'⟩
  rcases hLeft name e' hGet' with ⟨e, hGet, hCarried⟩
  exact ⟨e, hGet, hCarried.trans hCarried'⟩

theorem insert
    {name : String} {e e' : Entry}
    (hGet : reg.get? name = some e) (hCarried : Carried e e') :
    CarriedAll reg (reg.insert name e') := by
  intro other f hOther
  rw [Dict.get?_insert] at hOther
  split at hOther
  · next hSame =>
      cases hOther
      rw [hSame]
      exact ⟨e, hGet, hCarried⟩
  · exact ⟨f, hOther, Carried.refl f⟩

theorem remove (name : String) :
    CarriedAll reg (reg.remove name) := by
  intro other e hOther
  rw [Dict.get?_remove] at hOther
  split at hOther
  · cases hOther
  · exact ⟨e, hOther, Carried.refl e⟩

theorem changeIf
    {name : String} {guard : Entry → Bool} {f : Entry → Entry}
    (hChange : ∀ e, guard e = true → Carried e (f e)) :
    CarriedAll reg (changeIf reg name guard f) := by
  rw [Agent.changeIf]
  cases hGet : reg.get? name with
  | none => exact refl reg
  | some e =>
    simp only
    split
    · next hGuard => exact insert hGet (hChange e hGuard)
    · exact refl reg

/- A fold of carrying steps carries. -/
theorem foldl
    {ι : Type} {f : Registry → ι → Registry}
    (hStep : ∀ reg i, CarriedAll reg (f reg i)) (items : List ι)
    (reg : Registry) :
    CarriedAll reg (items.foldl f reg) := by
  induction items generalizing reg with
  | nil => exact refl reg
  | cons i rest ih => exact (hStep reg i).trans (ih _)

end CarriedAll

-- Commands

variable {c : Chrono}
variable {defaultSocket : String}
variable {now : ℤ}
variable {reg changed : Registry}

theorem changeIf_not_stopped
    {name other : String} {guard : Entry → Bool}
    {f : Entry → Entry} {e' : Entry}
    (hChange : ∀ e, guard e = true → (f e).state ≠ .stopped)
    (hGet : (changeIf reg name guard f).get? other = some e')
    (hStopped : e'.state = .stopped) :
    reg.get? other = some e' := by
  rw [changeIf] at hGet
  split at hGet
  · split at hGet
    · next hGuard =>
        rw [Dict.get?_insert] at hGet
        split at hGet
        · cases hGet
          exact absurd hStopped (hChange _ hGuard)
        · exact hGet
    · exact hGet
  · exact hGet

/- The name a command activates, by a launch. -/
def Command.activates : Command → Option String
| .register name _ _ _ => some name
| .start name _ _ _ => some name
| .unregister _ => none
| .recordClaude _ _ _ _ => none
| .markEnded _ _ => none

/-
  After a command an entry is a new registration, or has the
  history of its name; it is stopped only if it was, and a
  stop is left only by an activation.
-/
def Command.Follows
    (command : Command) (reg : Registry) (name : String)
    (e' : Entry) : Prop :=
  (command.registers reg = some name ∨
    ∃ e, reg.get? name = some e ∧
      e'.restarts = e.restarts ∧
      e'.registeredAt = e.registeredAt ∧
      (e.state = .stopped →
        command.activates ≠ some name → e'.state = .stopped)) ∧
  (e'.state = .stopped → ∃ e, reg.get? name = some e ∧ e.state = .stopped)

section Follows

variable {command : Command}
variable {name : String}
variable {e' : Entry}

theorem follows_of_carried
    (hAll : CarriedAll reg changed) (hGet : changed.get? name = some e')
    (hStop : e'.state = .stopped →
      ∃ e, reg.get? name = some e ∧ e.state = .stopped) :
    command.Follows reg name e' := by
  rcases hAll name e' hGet with ⟨e, hOld, hCarried⟩
  exact ⟨Or.inr ⟨e, hOld, hCarried.restarts, hCarried.registeredAt,
    fun hStopped _ => hCarried.stopped hStopped⟩, hStop⟩

/- An entry that is as it was. -/
theorem follows_unchanged
    (hGet : reg.get? name = some e') :
    command.Follows reg name e' :=
  ⟨Or.inr ⟨e', hGet, rfl, rfl, fun hStopped _ => hStopped⟩,
    fun hStopped => ⟨e', hGet, hStopped⟩⟩

/- A command that writes one entry, which is not stopped. -/
theorem follows_insert
    {other : String} {new : Entry}
    (hGet : (reg.insert other new).get? name = some e')
    (hNew : new.state ≠ .stopped)
    (hHere : command.registers reg = some other ∨
      command.activates = some other ∧
        ∃ e, reg.get? other = some e ∧
          new.restarts = e.restarts ∧
          new.registeredAt = e.registeredAt) :
    command.Follows reg name e' := by
  rw [Dict.get?_insert] at hGet
  split at hGet
  · next hSame =>
      cases hGet
      rw [hSame]
      refine ⟨?_, fun hStopped => absurd hStopped hNew⟩
      rcases hHere with hRegisters |
        ⟨hActivates, e, hOld, hRestarts, hRegistered⟩
      · exact Or.inl hRegisters
      · exact Or.inr ⟨e, hOld, hRestarts, hRegistered,
          fun _ hOther => absurd hActivates hOther⟩
  · exact follows_unchanged hGet

end Follows

theorem carried_command
    {command : Command}
    (hRun : command.run c defaultSocket now reg = .ok ((), changed))
    {name : String} {e' : Entry} (hGet : changed.get? name = some e') :
    (command.registers reg = some name ∨
      ∃ e, reg.get? name = some e ∧
        e'.restarts = e.restarts ∧
        e'.registeredAt = e.registeredAt ∧
        (e.state = .stopped →
          command.activates ≠ some name → e'.state = .stopped)) ∧
    (e'.state = .stopped →
      ∃ e, reg.get? name = some e ∧ e.state = .stopped) := by
  change command.Follows reg name e'
  cases command with
  | register other launch process freshId =>
    change register c defaultSocket now other launch process
      freshId reg = _ at hRun
    rw [register] at hRun
    cases hCheck : launch.checkConflicts defaultSocket reg
        other with
    | error message =>
      rw [hCheck] at hRun
      cases hRun
    | ok _ =>
      rw [hCheck] at hRun
      cases hRun
      refine follows_insert hGet ?_ (Or.inl rfl)
      intro hStopped
      cases hStopped
  | unregister other =>
    change unregister other reg = _ at hRun
    rw [unregister] at hRun
    split at hRun
    · cases hRun
      refine follows_of_carried (.remove other) hGet ?_
      intro hStopped
      rw [Dict.get?_remove] at hGet
      split at hGet
      · cases hGet
      · exact ⟨e', hGet, hStopped⟩
    · cases hRun
  | start other launchId launch freshId =>
    change start c defaultSocket now other launchId launch
      freshId reg = _ at hRun
    rw [start] at hRun
    cases hCheck : launch.checkConflicts defaultSocket reg
        other with
    | error message =>
      rw [hCheck] at hRun
      cases hRun
    | ok _ =>
      rw [hCheck] at hRun
      cases hOld : reg.get? other with
      | some e =>
        rw [hOld] at hRun
        cases hRun
        refine follows_insert hGet ?_ (Or.inr ⟨rfl, e, hOld, rfl, rfl⟩)
        intro hStopped
        cases hStopped
      | none =>
        rw [hOld] at hRun
        cases hRun
        refine follows_insert hGet ?_ (Or.inl ?_)
        · intro hStopped
          cases hStopped
        · simp [Command.registers, hOld]
  | recordClaude other launchId found profile =>
    cases hRun
    refine follows_of_carried (.changeIf ?_) hGet ?_
    · intro e hGuard
      simp only [Bool.and_eq_true, beq_iff_eq] at hGuard
      exact .of_active hGuard.1.1 rfl rfl
    · intro hStopped
      refine ⟨e', changeIf_not_stopped ?_ hGet hStopped, hStopped⟩
      intro e hGuard
      simp only [Bool.and_eq_true, beq_iff_eq] at hGuard
      change e.state ≠ .stopped
      rw [hGuard.1.1]
      decide
  | markEnded other launchId =>
    cases hRun
    refine follows_of_carried (.changeIf ?_) hGet ?_
    · intro e hGuard
      simp only [Bool.and_eq_true, beq_iff_eq] at hGuard
      exact .of_active hGuard.1 rfl rfl
    · intro hStopped
      refine ⟨e', changeIf_not_stopped ?_ hGet hStopped, hStopped⟩
      intro e _ hEnded
      cases hEnded

-- The Supervisor's Writes

theorem carried_refreshIds
    (changes : List IdChange) (reg : Registry) :
    CarriedAll reg (changes.foldl refreshId reg) := by
  apply CarriedAll.foldl
  intro reg change
  rw [refreshId]
  split
  · exact .refl reg
  · apply CarriedAll.changeIf
    intro e _
    exact ⟨rfl, rfl, id⟩

theorem carried_applyMarkers
    (ends : List MarkerEnd) (reg : Registry) :
    CarriedAll reg (ends.foldl (applyMarker c now) reg) := by
  apply CarriedAll.foldl
  intro reg mark
  apply CarriedAll.changeIf
  intro e hGuard
  simp only [Bool.and_eq_true, beq_iff_eq] at hGuard
  exact .of_active hGuard.1.1 rfl rfl

theorem markLost_carries
    (p : Plan) (e : Entry) :
    (markLost c now p e).restarts = e.restarts ∧
      (markLost c now p e).registeredAt = e.registeredAt := by
  rw [markLost]
  split
  · exact ⟨rfl, rfl⟩
  · exact ⟨rfl, rfl⟩

theorem classifyEntry_carries
    (maxRestarts : ℕ) (p : Plan) (e : Entry) :
    (classifyEntry c now maxRestarts p e).2.2.restarts = e.restarts ∧
      (classifyEntry c now maxRestarts p e).2.2.registeredAt =
        e.registeredAt := by
  rw [classifyEntry]
  cases verdictOf c now maxRestarts p e with
  | healthy => exact ⟨rfl, rfl⟩
  | candidate => exact markLost_carries p e
  | result outcome =>
    simp only
    split
    · rw [recordLine_snd]
      exact markLost_carries p e
    · rw [recordLine_snd]
      exact markLost_carries p e

theorem carried_classifyOne
    (maxRestarts : ℕ) (acc : Classified) (p : Plan) :
    CarriedAll acc.2 (classifyOne c now maxRestarts acc p).2 := by
  rw [classifyOne]
  cases hGet : acc.2.get? p.name with
  | none => exact .refl acc.2
  | some e =>
    simp only
    split
    · next hSame =>
        simp only [sameAsPlanned, Bool.and_eq_true, beq_iff_eq] at hSame
        rcases classifyEntry_carries maxRestarts p e with
          ⟨hRestarts, hRegistered⟩
        exact .insert hGet (.of_active hSame.1.1.1 hRestarts hRegistered)
    · exact .refl acc.2

theorem carried_classify
    (maxRestarts : ℕ) (plans : List Plan) (acc : Classified) :
    CarriedAll acc.2 (plans.foldl (classifyOne c now maxRestarts) acc).2 := by
  induction plans generalizing acc with
  | nil => exact .refl acc.2
  | cons p rest ih =>
    exact (carried_classifyOne maxRestarts acc p).trans (ih _)

end Agent
