import Amplihack.IssueDedup.Markers
import Mathlib.Data.List.Nodup
import Mathlib.Data.Set.Function

/-
  Error classes never share an issue, and have one open issue
  a day, as long as the texts that name them differ.
-/

-- Filed Issues

namespace IssueDedup

open Base

variable {sha256 : Text → List UInt8}
variable {used : Set ErrorClass}
variable {c c' : ErrorClass}
variable {call : Call}
variable {answers : Answers}
variable {s t u : Tracker}
variable {i i' j j' : Issue}
variable {key : Text × ℕ}
variable {change : Issue → Issue}

/- No text of the call has the marker of another class. -/
def Clean
    (sha256 : Text → List UInt8) (used : Set ErrorClass) (call : Call) :
    Prop :=
  ∀ c ∈ used, c ≠ call.cls →
    ¬marker (fromErrorClass sha256 c) <:+: call.today ∧
    ¬marker (fromErrorClass sha256 c) <:+: call.errorBody

/- What may happen to the tracker. -/
def Possible
    (used : Set ErrorClass) (s : Tracker) :
    Event → Prop
  | .filed call answers =>
    call.cls ∈ used ∧
    (∀ found, (answers.order found).Perm found) ∧
    ∀ i ∈ s, i.key ≠ (call.repo, answers.number)
  | .opened issue =>
    issue.errors = [] ∧ ∀ i ∈ s, i.key ≠ issue.key
  | .closed _ => True

/- No text carries the marker of a class it is not about. -/
def Apart
    (sha256 : Text → List UInt8) (used : Set ErrorClass) :
    Event → Prop
  | .filed call _ => Clean sha256 used call
  | .opened issue =>
    ∀ c ∈ used, ¬issue.Carries (fromErrorClass sha256 c)
  | .closed _ => True

def Allowed
    (sha256 : Text → List UInt8) (used : Set ErrorClass)
    (s : Tracker) (e : Event) :
    Prop :=
  Possible used s e ∧ Apart sha256 used e

/- Issues carry the marker of the class they hold alone. -/
structure Filed
    (sha256 : Text → List UInt8) (used : Set ErrorClass) (s : Tracker) :
    Prop where
  keys : (s.map Issue.key).Nodup
  carried : ∀ i ∈ s, ∀ c ∈ i.errors,
    c ∈ used ∧ i.Carries (fromErrorClass sha256 c)
  own : ∀ i ∈ s, ∀ c ∈ used,
    i.Carries (fromErrorClass sha256 c) →
    i.errors ≠ [] ∧ ∀ c' ∈ i.errors, c' = c
  single : ∀ i ∈ s, ∀ j ∈ s,
    i.isOpen = true → j.isOpen = true →
    i.repo = j.repo → i.createdDate = j.createdDate →
    ∀ c ∈ i.errors, c ∈ j.errors → i = j

/- What a comment and a closing leave of an issue. -/
structure Keeps (i i' : Issue) : Prop where
  key : i'.key = i.key
  body : i'.body = i.body
  createdDate : i'.createdDate = i.createdDate
  isOpen : i'.isOpen = true → i.isOpen = true
  errors : ∀ c, c ∈ i'.errors ↔ c ∈ i.errors

theorem Keeps.refl (i : Issue) : Keeps i i :=
  ⟨rfl, rfl, rfl, id, fun _ => Iff.rfl⟩

theorem Keeps.trans
    {k : Issue} (hLeft : Keeps i j) (hRight : Keeps j k) :
    Keeps i k where
  key := hRight.key.trans hLeft.key
  body := hRight.body.trans hLeft.body
  createdDate := hRight.createdDate.trans hLeft.createdDate
  isOpen hOpen := hLeft.isOpen (hRight.isOpen hOpen)
  errors c := (hRight.errors c).trans (hLeft.errors c)

theorem Keeps.repo (hKeeps : Keeps i i') : i'.repo = i.repo :=
  congrArg Prod.fst hKeeps.key

theorem Keeps.carries
    (hKeeps : Keeps i i') (f : Fingerprint) :
    i'.Carries f ↔ i.Carries f := by
  unfold Issue.Carries
  rw [hKeeps.body]

theorem Filed.map
    (hFiled : Filed sha256 used s) (hKeeps : ∀ i ∈ s, Keeps i (change i)) :
    Filed sha256 used (s.map change) where
  keys := by
    have hKeys : (s.map change).map Issue.key = s.map Issue.key := by
      rw [List.map_map]
      exact List.map_congr_left fun i hIn => (hKeeps i hIn).key
    rw [hKeys]
    exact hFiled.keys
  carried i' hIn c hError := by
    rcases List.mem_map.mp hIn with ⟨i, hOld, rfl⟩
    have hKeep := hKeeps i hOld
    rw [hKeep.carries]
    exact hFiled.carried i hOld c ((hKeep.errors c).mp hError)
  own i' hIn c hUsed hCarries := by
    rcases List.mem_map.mp hIn with ⟨i, hOld, rfl⟩
    have hKeep := hKeeps i hOld
    rw [hKeep.carries] at hCarries
    rcases hFiled.own i hOld c hUsed hCarries with ⟨hSome, hAlone⟩
    rcases List.exists_mem_of_ne_nil _ hSome with ⟨d, hd⟩
    refine ⟨List.ne_nil_of_mem ((hKeep.errors d).mpr hd), ?_⟩
    intro c' hError
    exact hAlone c' ((hKeep.errors c').mp hError)
  single i' hIn j' hIn' hOpen hOpen' hRepo hDate c hc hc' := by
    rcases List.mem_map.mp hIn with ⟨i, hOld, rfl⟩
    rcases List.mem_map.mp hIn' with ⟨j, hOld', rfl⟩
    have hi := hKeeps i hOld
    have hj := hKeeps j hOld'
    rw [hi.repo, hj.repo] at hRepo
    rw [hi.createdDate, hj.createdDate] at hDate
    rw [hi.errors] at hc
    rw [hj.errors] at hc'
    exact congrArg change (hFiled.single i hOld j hOld'
      (hi.isOpen hOpen) (hj.isOpen hOpen') hRepo hDate c hc hc')

/- A new issue, beside no open one of its class and day. -/
structure Adds
    (sha256 : Text → List UInt8) (used : Set ErrorClass)
    (s : Tracker) (new : Issue) :
    Prop where
  key : ∀ i ∈ s, i.key ≠ new.key
  carried : ∀ c ∈ new.errors, c ∈ used ∧ new.Carries (fromErrorClass sha256 c)
  own : ∀ c ∈ used,
    new.Carries (fromErrorClass sha256 c) →
    new.errors ≠ [] ∧ ∀ c' ∈ new.errors, c' = c
  single : ∀ i ∈ s, i.isOpen = true →
    i.repo = new.repo → i.createdDate = new.createdDate →
    ∀ c ∈ new.errors, c ∉ i.errors

variable {new : Issue}

theorem Filed.snoc
    (hFiled : Filed sha256 used s) (hAdds : Adds sha256 used s new) :
    Filed sha256 used (s ++ [new]) where
  keys := by
    rw [List.map_append, List.map_singleton]
    rw [← List.concat_eq_append]
    refine List.Nodup.concat ?_ hFiled.keys
    intro hIn
    rcases List.mem_map.mp hIn with ⟨i, hOld, hSame⟩
    exact hAdds.key i hOld hSame
  carried i hIn := by
    rcases List.mem_append.mp hIn with hOld | hNew
    · exact hFiled.carried i hOld
    · rw [List.mem_singleton.mp hNew]
      exact hAdds.carried
  own i hIn := by
    rcases List.mem_append.mp hIn with hOld | hNew
    · exact hFiled.own i hOld
    · rw [List.mem_singleton.mp hNew]
      exact hAdds.own
  single i hIn j hIn' hOpen hOpen' hRepo hDate c hc hc' := by
    rcases List.mem_append.mp hIn with hOld | hNew
    · rcases List.mem_append.mp hIn' with hOld' | hNew'
      · exact hFiled.single i hOld j hOld' hOpen hOpen' hRepo hDate c hc hc'
      · rw [List.mem_singleton.mp hNew'] at hRepo hDate hc'
        exact absurd hc (hAdds.single i hOld hOpen hRepo hDate c hc')
    · rcases List.mem_append.mp hIn' with hOld' | hNew'
      · rw [List.mem_singleton.mp hNew] at hRepo hDate hc
        exact absurd hc' (hAdds.single j hOld' hOpen'
          hRepo.symm hDate.symm c hc)
      · rw [List.mem_singleton.mp hNew, List.mem_singleton.mp hNew']

theorem Filed.eq_of_key
    (hFiled : Filed sha256 used s) (hi : i ∈ s) (hj : j ∈ s)
    (hKey : i.key = j.key) :
    i = j :=
  List.inj_on_of_nodup_map hFiled.keys hi hj hKey

-- Steps

theorem mem_search {repo : Text} {f : Fingerprint} :
    i ∈ search repo f s ↔
      i ∈ s ∧ i.repo = repo ∧ i.isOpen = true ∧ i.Carries f := by
  unfold search
  rw [List.mem_filter, decide_eq_true_iff]

theorem keeps_close (key : Text × ℕ) (i : Issue) :
    Keeps i (if i.key = key then i.close else i) := by
  split
  · exact ⟨rfl, rfl, rfl, nofun, fun _ => Iff.rfl⟩
  · exact Keeps.refl i

/- A comment of its own class keeps what the issue holds. -/
theorem keeps_append
    (hFiled : Filed sha256 used s) (hUsed : call.cls ∈ used)
    (hFound : i ∈ search call.repo (fromErrorClass sha256 call.cls) s)
    (comment : Text) (hIn : j ∈ s) :
    Keeps j
      (if j.key = i.key then j.append comment call.cls
        else j) := by
  rcases mem_search.mp hFound with ⟨hOld, _, _, hCarries⟩
  split
  next hKey =>
    have hSame := hFiled.eq_of_key hIn hOld hKey
    rw [← hSame] at hCarries
    rcases hFiled.own j hIn call.cls hUsed hCarries with ⟨hSome, hAlone⟩
    refine ⟨rfl, rfl, rfl, id, ?_⟩
    intro c
    unfold Issue.append
    rw [List.mem_append, List.mem_singleton]
    refine or_iff_left_of_imp ?_
    rintro rfl
    rcases List.exists_mem_of_ne_nil _ hSome with ⟨d, hd⟩
    rw [← hAlone d hd]
    exact hd
  next => exact Keeps.refl j

/- A created issue carries the marker of its class only. -/
theorem Created.carries_iff
    {number : ℕ} (hSize : DigestSize sha256)
    (hFree : CollisionFree sha256 used)
    (hInjective : Set.InjOn canonical used)
    (hClean : Clean sha256 used call) (hUsed : call.cls ∈ used)
    (hCreated : Created sha256 call number i) (hc : c ∈ used) :
    i.Carries (fromErrorClass sha256 c) ↔ c = call.cls := by
  constructor
  · intro hCarries
    by_contra hOther
    rcases hClean c hc hOther with ⟨hToday, hBody⟩
    have hSame :
        fromErrorClass sha256 c = fromErrorClass sha256 call.cls := by
      unfold Issue.Carries at hCarries
      rcases hCreated.body with hNew | ⟨numbers, hRollup⟩
      · rw [hNew, marker_infix_bodyWithMarker hSize]
          at hCarries
        exact hCarries.resolve_left hBody
      · rw [hRollup, marker_infix_rollupBody hSize]
          at hCarries
        exact (hCarries.resolve_left hToday).resolve_left hBody
    apply hOther
    exact hInjective hc hUsed (canonical_of_fingerprint hFree hc hUsed hSame)
  · rintro rfl
    unfold Issue.Carries
    rcases hCreated.body with hNew | ⟨numbers, hRollup⟩
    · rw [hNew, marker_infix_bodyWithMarker hSize]
      exact .inr rfl
    · rw [hRollup, marker_infix_rollupBody hSize]
      exact .inr (.inr rfl)

/- An open issue of the class of the call and of its day. -/
def Today (call : Call) (i : Issue) : Prop :=
  i.repo = call.repo ∧ i.createdDate = call.today ∧
    i.isOpen = true ∧ call.cls ∈ i.errors

theorem search_of_today
    (hFiled : Filed sha256 used s) (hIn : i ∈ s) (hToday : Today call i) :
    i ∈ search call.repo (fromErrorClass sha256 call.cls)
      s := by
  rcases hToday with ⟨hRepo, _, hOpen, hError⟩
  exact mem_search.mpr ⟨hIn, hRepo, hOpen, (hFiled.carried i hIn _ hError).2⟩

theorem today_of_search
    (hFiled : Filed sha256 used s) (hUsed : call.cls ∈ used)
    (hFound : i ∈ search call.repo (fromErrorClass sha256 call.cls) s)
    (hDate : i.createdDate = call.today) :
    Today call i := by
  rcases mem_search.mp hFound with ⟨hIn, hRepo, hOpen, hMark⟩
  rcases hFiled.own i hIn _ hUsed hMark with ⟨hSome, hAlone⟩
  rcases List.exists_mem_of_ne_nil _ hSome with ⟨d, hd⟩
  rw [hAlone d hd] at hd
  exact ⟨hRepo, hDate, hOpen, hd⟩

section Distinct

variable (hSize : DigestSize sha256)
variable (hFree : CollisionFree sha256 used)
variable (hInjective : Set.InjOn canonical used)
include hSize hFree hInjective

theorem Created.adds
    (hFiled : Filed sha256 used s)
    (hAllowed : Allowed sha256 used s (.filed call answers))
    (hNone : ∀ i ∈ search call.repo
      (fromErrorClass sha256 call.cls) s,
      i.createdDate ≠ call.today)
    (hNew : Created sha256 call answers.number i) :
    Adds sha256 used s i := by
  rcases hAllowed with ⟨⟨hUsed, _, hFresh⟩, hClean⟩
  have hCarries : ∀ c ∈ used,
      i.Carries (fromErrorClass sha256 c) ↔ c = call.cls :=
    fun c hc =>
      hNew.carries_iff hSize hFree hInjective hClean hUsed hc
  have hErrors : ∀ c, c ∈ i.errors ↔ c = call.cls := by
    intro c
    rw [hNew.errors, List.mem_singleton]
  constructor
  case key =>
    intro j hIn hKey
    apply hFresh j hIn
    rw [hKey]
    unfold Issue.key
    rw [hNew.repo, hNew.number]
  case carried =>
    intro c hc
    rw [(hErrors c).mp hc]
    exact ⟨hUsed, (hCarries _ hUsed).mpr rfl⟩
  case own =>
    intro c hc hMark
    rw [(hCarries c hc).mp hMark, hNew.errors]
    exact ⟨List.cons_ne_nil _ _, fun c' hIn => List.mem_singleton.mp hIn⟩
  case single =>
    intro j hIn hOpen hRepo hDate c hc hError
    rw [(hErrors c).mp hc] at hError
    rw [hNew.repo] at hRepo
    rw [hNew.createdDate] at hDate
    have hFound := search_of_today hFiled hIn ⟨hRepo, hDate, hOpen, hError⟩
    exact hNone j hFound hDate

/- What an allowed step does to the issues. -/
theorem step_cases
    {e : Event} (hFiled : Filed sha256 used s)
    (hAllowed : Allowed sha256 used s e) :
    (∃ change : Issue → Issue,
      (∀ i ∈ s, Keeps i (change i)) ∧ step sha256 s e = s.map change) ∨
    ∃ new, Adds sha256 used s new ∧ step sha256 s e = s ++ [new] := by
  cases e with
  | filed call answers =>
    have hUsed := hAllowed.1.1
    rcases file_cases sha256 call s hAllowed.1.2.1 with
      ⟨e, hDone⟩ | ⟨i, hFound, _, hDone⟩ |
      ⟨hNone, new, action, hNew, hDone⟩
    · refine .inl ⟨id, fun i _ => Keeps.refl i, ?_⟩
      rw [List.map_id]
      exact congrArg Prod.snd hDone
    · refine .inl ⟨_, ?_, congrArg Prod.snd hDone⟩
      intro j hIn
      exact keeps_append hFiled hUsed hFound _ hIn
    · have hAdds := hNew.adds hSize hFree hInjective hFiled hAllowed hNone
      exact .inr ⟨new, hAdds, congrArg Prod.snd hDone⟩
  | opened issue =>
    rcases hAllowed with ⟨⟨hErrors, hFresh⟩, hMarks⟩
    refine .inr ⟨issue, ⟨hFresh, ?_, ?_, ?_⟩, rfl⟩
    · rw [hErrors]
      exact nofun
    · intro c hc hMark
      exact absurd hMark (hMarks c hc)
    · rw [hErrors]
      exact nofun
  | closed key => exact .inl ⟨_, fun i _ => keeps_close key i, rfl⟩

theorem Filed.step
    {e : Event} (hFiled : Filed sha256 used s)
    (hAllowed : Allowed sha256 used s e) :
    Filed sha256 used (step sha256 s e) := by
  rcases step_cases hSize hFree hInjective hFiled hAllowed with
    ⟨change, hKeeps, hStep⟩ | ⟨new, hAdds, hStep⟩
  · rw [hStep]
    exact hFiled.map hKeeps
  · rw [hStep]
    exact hFiled.snoc hAdds

end Distinct

-- Runs

/-
  While an issue stays open, no other is created for a class
  that it holds, in its repository and on its day.
-/
structure Since (s t : Tracker) : Prop where
  kept : ∀ i ∈ s, ∃ i' ∈ t, Keeps i i'
  once : ∀ i ∈ s, ∀ i' ∈ t,
    i'.key = i.key → i'.isOpen = true →
    ∀ c ∈ i.errors, ∀ j' ∈ t,
      j'.repo = i.repo → j'.createdDate = i.createdDate →
      c ∈ j'.errors → ∃ j ∈ s, j.key = j'.key

theorem Since.map
    (hKeeps : ∀ i ∈ s, Keeps i (change i)) :
    Since s (s.map change) where
  kept i hIn :=
    ⟨change i, List.mem_map_of_mem hIn, hKeeps i hIn⟩
  once i _ i' _ _ _ c _ j' hIn' _ _ _ := by
    rcases List.mem_map.mp hIn' with ⟨j, hIn, rfl⟩
    exact ⟨j, hIn, (hKeeps j hIn).key.symm⟩

theorem Since.snoc
    (hFiled : Filed sha256 used s) (hAdds : Adds sha256 used s new) :
    Since s (s ++ [new]) where
  kept i hIn :=
    ⟨i, List.mem_append_left _ hIn, Keeps.refl i⟩
  once i hIn i' hIn' hKey hOpen c hc j' hj' hRepo hDate hc' := by
    rcases List.mem_append.mp hj' with hOld | hNew
    · exact ⟨j', hOld, rfl⟩
    rw [List.mem_singleton.mp hNew] at hRepo hDate hc'
    rcases List.mem_append.mp hIn' with hOld' | hNew'
    · have hSame := hFiled.eq_of_key hOld' hIn hKey
      rw [hSame] at hOpen
      exact absurd hc (hAdds.single i hIn hOpen hRepo.symm hDate.symm c hc')
    · rw [List.mem_singleton.mp hNew'] at hKey
      exact absurd hKey.symm (hAdds.key i hIn)

theorem Since.trans
    (hFiled : Filed sha256 used u) (hLeft : Since s t) (hRight : Since t u) :
    Since s u where
  kept i hIn := by
    rcases hLeft.kept i hIn with ⟨i₁, hIn₁, hFirst⟩
    rcases hRight.kept i₁ hIn₁ with ⟨i₂, hIn₂, hSecond⟩
    exact ⟨i₂, hIn₂, hFirst.trans hSecond⟩
  once i hIn i' hIn' hKey hOpen c hc j' hj' hRepo hDate hc' := by
    rcases hLeft.kept i hIn with ⟨i₁, hIn₁, hFirst⟩
    rcases hRight.kept i₁ hIn₁ with ⟨i₂, hIn₂, hSecond⟩
    have hi : i₂ = i' := hFiled.eq_of_key hIn₂ hIn'
      (hSecond.key.trans (hFirst.key.trans hKey.symm))
    rw [← hi] at hOpen hKey
    have hOpen₁ := hSecond.isOpen hOpen
    have hc₁ := (hFirst.errors c).mpr hc
    rw [← hFirst.repo] at hRepo
    rw [← hFirst.createdDate] at hDate
    rcases hRight.once i₁ hIn₁ i₂ hIn₂ hSecond.key hOpen c hc₁
      j' hj' hRepo hDate hc' with ⟨j₁, hj₁, hSame⟩
    rcases hRight.kept j₁ hj₁ with ⟨j₂, hj₂, hKept⟩
    have hj : j₂ = j' := hFiled.eq_of_key hj₂ hj' (hKept.key.trans hSame)
    rw [← hj, hKept.repo, hFirst.repo] at hRepo
    rw [← hj, hKept.createdDate, hFirst.createdDate] at hDate
    rw [← hj, hKept.errors] at hc'
    rw [← hSame]
    exact hLeft.once i hIn i₁ hIn₁ hFirst.key hOpen₁ c hc j₁
      hj₁ hRepo hDate hc'

/- `t` follows `s` in a run. -/
abbrev Follows
    (sha256 : Text → List UInt8) (used : Set ErrorClass) :
    Tracker → Tracker → Prop :=
  Reaches (step sha256) (Allowed sha256 used)

/-
  A call finds the one open issue of its class and day, or
  creates it; and no issue holds two classes.
-/
structure Deduplicated
    (sha256 : Text → List UInt8) (used : Set ErrorClass) (s : Tracker) :
    Prop where
  separate : ∀ i ∈ s, ∀ c ∈ i.errors, ∀ c' ∈ i.errors, c = c'
  single : ∀ i ∈ s, ∀ j ∈ s,
    i.isOpen = true → j.isOpen = true →
    i.repo = j.repo → i.createdDate = j.createdDate →
    ∀ c ∈ i.errors, c ∈ j.errors → i = j
  appends : ∀ call answers,
    Allowed sha256 used s (.filed call answers) →
    ∀ i ∈ s, Today call i →
    (∃ e, file sha256 call answers s = (.error e, s)) ∨
    file sha256 call answers s =
      (.ok (.appendComment i.number), appended call i s)
  creates : ∀ call answers,
    Allowed sha256 used s (.filed call answers) →
    (∀ i ∈ s, ¬Today call i) →
    (∃ e, file sha256 call answers s = (.error e, s)) ∨
    ∃ new action, Created sha256 call answers.number new ∧
      file sha256 call answers s = (.ok action, s ++ [new])
  since : ∀ t, Follows sha256 used s t → Since s t

section Distinct

variable (hSize : DigestSize sha256)
variable (hFree : CollisionFree sha256 used)
variable (hInjective : Set.InjOn canonical used)
include hSize hFree hInjective

theorem Filed.run
    (hRun : Follows sha256 used s t) (hFiled : Filed sha256 used s) :
    Filed sha256 used t :=
  hRun.invariant (Filed sha256 used)
    (fun _ _ hFiled hAllowed =>
      hFiled.step hSize hFree hInjective hAllowed) hFiled

theorem Since.run
    (hRun : Follows sha256 used s t) (hFiled : Filed sha256 used s) :
    Since s t := by
  have hBoth : Filed sha256 used t ∧ Since s t := by
    refine hRun.invariant (fun t =>
      Filed sha256 used t ∧ Since s t) ?_ ?_
    · intro t e hInv hAllowed
      rcases hInv with ⟨hFiledT, hSince⟩
      have hNext := hFiledT.step hSize hFree hInjective hAllowed
      refine ⟨hNext, hSince.trans hNext ?_⟩
      rcases step_cases hSize hFree hInjective hFiledT hAllowed
        with ⟨change, hKeeps, hStep⟩ | ⟨new, hAdds, hStep⟩
      · rw [hStep]
        exact .map hKeeps
      · rw [hStep]
        exact .snoc hFiledT hAdds
    · have hSelf : Since s (s.map id) :=
        Since.map fun i _ => Keeps.refl i
      rw [List.map_id] at hSelf
      exact ⟨hFiled, hSelf⟩
  exact hBoth.2

theorem Filed.deduplicated
    (hFiled : Filed sha256 used s) :
    Deduplicated sha256 used s where
  separate i hIn c hc c' hc' := by
    rcases hFiled.carried i hIn c hc with ⟨hUsed, hCarries⟩
    exact ((hFiled.own i hIn c hUsed hCarries).2 c' hc').symm
  single := hFiled.single
  appends call answers hAllowed i hIn hToday := by
    rcases file_cases sha256 call s hAllowed.1.2.1 with
      hError | ⟨j, hFound, hDate, hDone⟩ | ⟨hNone, _⟩
    · exact .inl hError
    · right
      have hToday' := today_of_search hFiled hAllowed.1.1 hFound hDate
      have hSame := hFiled.single i hIn j
        (mem_search.mp hFound).1 hToday.2.2.1 hToday'.2.2.1
        (hToday.1.trans hToday'.1.symm)
        (hToday.2.1.trans hDate.symm)
        call.cls hToday.2.2.2 hToday'.2.2.2
      rw [hSame]
      exact hDone
    · exact absurd hToday.2.1 (hNone i (search_of_today hFiled hIn hToday))
  creates call answers hAllowed hNone := by
    rcases file_cases sha256 call s hAllowed.1.2.1 with
      hError | ⟨j, hFound, hDate, _⟩ | ⟨_, hCreated⟩
    · exact .inl hError
    · have hToday := today_of_search hFiled hAllowed.1.1 hFound hDate
      exact absurd hToday (hNone j (mem_search.mp hFound).1)
    · exact .inr hCreated
  since t hRun :=
    Since.run hSize hFree hInjective hRun hFiled

end Distinct

theorem filed_nil : Filed sha256 used [] where
  keys := List.nodup_nil
  carried := nofun
  own := nofun
  single := nofun

-- Shared Issues

/- A call with no other text than its body. -/
def bare (cls : ErrorClass) (errorBody : Text) : Call :=
  ⟨[], cls, [], [], errorBody⟩

def prompt : Answers :=
  ⟨id, 0, none, none, none⟩

def prompt' : Answers :=
  ⟨id, 1, none, none, none⟩

def bareIssue
    (sha256 : Text → List UInt8) (cls : ErrorClass) (errorBody : Text) :
    Issue :=
  ⟨[], 0, [],
    bodyWithMarker (fromErrorClass sha256 cls) errorBody,
    ["auto-filed".toList], [], true, [], [cls]⟩

theorem step_first
    (sha256 : Text → List UInt8) (c : ErrorClass) (b : Text) :
    step sha256 [] (.filed (bare c b) prompt) = [bareIssue sha256 c b] :=
  rfl

variable {b : Text}

/- A body with the marker of another class is taken for it. -/
theorem step_second
    (hCarries : (bareIssue sha256 c b).Carries (fromErrorClass sha256 c')) :
    step sha256 [bareIssue sha256 c b]
      (.filed (bare c' []) prompt') =
        [(bareIssue sha256 c b).append (duplicateComment [] []) c'] := by
  have hSearch :
      search [] (fromErrorClass sha256 c')
        [bareIssue sha256 c b] = [bareIssue sha256 c b] := by
    unfold search
    rw [List.filter_cons_of_pos]
    · rfl
    · exact decide_eq_true ⟨rfl, rfl, hCarries⟩
  unfold step file fileOrDedup trackerClient bare
  simp only [hSearch, prompt']
  rfl

theorem possible_first
    (hc : c ∈ used) :
    Possible used [] (.filed (bare c b) prompt) :=
  ⟨hc, fun _ => List.Perm.refl _, nofun⟩

theorem possible_second
    (hc' : c' ∈ used) :
    Possible used [bareIssue sha256 c b] (.filed (bare c' []) prompt') := by
  refine ⟨hc', fun _ => List.Perm.refl _, ?_⟩
  intro i hIn hKey
  rw [List.mem_singleton.mp hIn] at hKey
  exact absurd (congrArg Prod.snd hKey) Nat.zero_ne_one

/- Then one issue holds both classes. -/
theorem shared
    {allowed : Tracker → Event → Prop}
    (hFirst : allowed [] (.filed (bare c b) prompt))
    (hSecond : allowed [bareIssue sha256 c b] (.filed (bare c' []) prompt'))
    (hCarries : (bareIssue sha256 c b).Carries (fromErrorClass sha256 c')) :
    ∃ s, Reaches (step sha256) allowed [] s ∧
      ∃ i ∈ s, c ∈ i.errors ∧ c' ∈ i.errors := by
  have hNone : Reaches (step sha256) allowed [] [] := Reaches.refl []
  have hOne := hNone.tail _ hFirst
  rw [step_first] at hOne
  have hTwo := hOne.tail _ hSecond
  rw [step_second hCarries] at hTwo
  exact ⟨_, hTwo, _, List.mem_cons_self, List.mem_cons_self,
    List.mem_cons_of_mem _ List.mem_cons_self⟩

theorem not_separate
    (hc : c ∈ used) (hc' : c' ∈ used) (hOther : c ≠ c')
    (hCarries : (bareIssue sha256 c b).Carries (fromErrorClass sha256 c')) :
    ¬∀ s, Reaches (step sha256) (Possible used) [] s →
      ∀ i ∈ s, ∀ c ∈ i.errors, ∀ c' ∈ i.errors, c = c' := by
  intro hAll
  rcases shared (possible_first hc) (possible_second hc')
    hCarries with ⟨s, hRun, i, hIn, hFirst, hSecond⟩
  exact hOther (hAll s hRun i hIn c hFirst c' hSecond)

theorem clean_bare (c : ErrorClass) :
    Clean sha256 used (bare c []) := by
  intro d _ _
  have hEmpty : ¬marker (fromErrorClass sha256 d) <:+: [] := by
    rw [List.infix_nil]
    exact marker_ne_nil _
  exact ⟨hEmpty, hEmpty⟩

theorem carries_of_canonical
    (hSame : canonical c = canonical c') :
    (bareIssue sha256 c []).Carries (fromErrorClass sha256 c') := by
  have hFingerprint : fromErrorClass sha256 c = fromErrorClass sha256 c' := by
    unfold fromErrorClass
    rw [hSame]
  rw [← hFingerprint]
  exact List.infix_append_of_infix_right
    ((List.suffix_cons _ _).trans (List.suffix_cons _ _)).isInfix

-- When Classes Stay Apart

/-
  In every run whose texts carry no foreign marker, as long as
  the classes differ in their canonical texts.
-/
theorem deduplicated_iff
    (sha256 : Text → List UInt8) (used : Set ErrorClass)
    (hSize : DigestSize sha256) (hFree : CollisionFree sha256 used) :
    (∀ s, Follows sha256 used [] s → Deduplicated sha256 used s) ↔
    Set.InjOn canonical used := by
  constructor
  · intro hAll c hc c' hc' hSame
    have hFirst : Allowed sha256 used [] (.filed (bare c []) prompt) :=
      ⟨possible_first hc, clean_bare c⟩
    have hSecond : Allowed sha256 used [bareIssue sha256 c []]
        (.filed (bare c' []) prompt') := ⟨possible_second hc', clean_bare c'⟩
    rcases shared hFirst hSecond (carries_of_canonical hSame)
      with ⟨s, hRun, i, hIn, hError, hError'⟩
    exact (hAll s hRun).separate i hIn c hError c' hError'
  · intro hInjective s hRun
    have hFiled := Filed.run hSize hFree hInjective hRun filed_nil
    exact hFiled.deduplicated hSize hFree hInjective

def importError : ErrorClass :=
  ⟨"ImportError".toList, "no module foo".toList, "src/main.py".toList⟩

def typeError : ErrorClass :=
  ⟨"TypeError".toList, "expected int".toList, "lib.rs:42".toList⟩

def importDigest : List UInt8 :=
  [52, 141, 10, 24, 25, 54, 172, 7, 40, 87, 33, 163, 236, 123,
    21, 115, 147, 45, 70, 80, 73, 167, 21, 91, 54, 188, 87, 16,
    149, 181, 164, 170]

def typeDigest : List UInt8 :=
  [68, 185, 141, 91, 128, 142, 4, 182, 74, 26, 74, 140, 87,
    212, 186, 184, 42, 190, 78, 133, 54, 13, 199, 56, 23, 9,
    199, 93, 31, 78, 100, 192]

/- The SHA-256 digests of the two canonical texts. -/
def digests (text : Text) : List UInt8 :=
  if text = canonical importError then importDigest
  else if text = canonical typeError then typeDigest
  else List.replicate 32 0

theorem digestSize_digests : DigestSize digests := by
  intro text
  unfold digests
  split
  · rfl
  · split
    · rfl
    · rfl

theorem digests_importError :
    digests (canonical importError) = importDigest :=
  if_pos rfl

theorem digests_typeError :
    digests (canonical typeError) = typeDigest := by
  unfold digests
  rw [if_neg (by decide), if_pos rfl]

theorem collisionFree_digests :
    CollisionFree digests {importError, typeError} := by
  have hOther : importDigest.take 6 ≠ typeDigest.take 6 := by decide
  rintro c (rfl | rfl) c' (rfl | rfl) hSame
  · rfl
  · rw [digests_importError, digests_typeError] at hSame
    exact absurd hSame hOther
  · rw [digests_importError, digests_typeError] at hSame
    exact absurd hSame.symm hOther
  · rfl

theorem injOn_two_classes :
    Set.InjOn canonical {importError, typeError} := by
  rintro c (rfl | rfl) c' (rfl | rfl) hSame
  · rfl
  · exact absurd hSame (by decide)
  · exact absurd hSame.symm (by decide)
  · rfl

theorem deduplicated_two_classes :
    Set.InjOn canonical {importError, typeError} ∧
    ∀ s, Follows digests {importError, typeError} [] s →
      Deduplicated digests {importError, typeError} s :=
  ⟨injOn_two_classes,
    (deduplicated_iff digests {importError, typeError}
      digestSize_digests collisionFree_digests).mpr
      injOn_two_classes⟩

/- Two classes of the canonical text `a|b|c|l`. -/
def barInType : ErrorClass :=
  ⟨"a|b".toList, "c".toList, "l".toList⟩

def barInHeadline : ErrorClass :=
  ⟨"a".toList, "b|c".toList, "l".toList⟩

/- The SHA-256 digest of `a|b|c|l`. -/
def barDigest (_ : Text) : List UInt8 :=
  [207, 229, 225, 14, 101, 80, 226, 56, 251, 207, 228, 166, 54,
    121, 141, 167, 40, 208, 96, 239, 90, 45, 137, 28, 194, 180,
    216, 59, 12, 225, 18, 152]

/-
  By a bar in a field, and by a body that quotes the marker of
  the other class.
-/
theorem classes_share_an_issue :
    (DigestSize barDigest ∧
      CollisionFree barDigest {barInType, barInHeadline} ∧
      ¬∀ s, Reaches (step barDigest)
        (Possible {barInType, barInHeadline}) [] s →
        ∀ i ∈ s, ∀ c ∈ i.errors, ∀ c' ∈ i.errors, c = c') ∧
    ¬∀ s, Reaches (step digests)
      (Possible {importError, typeError}) [] s →
      ∀ i ∈ s, ∀ c ∈ i.errors, ∀ c' ∈ i.errors, c = c' := by
  have hSame : canonical barInType = canonical barInHeadline := rfl
  have hQuoted : (bareIssue digests importError
      (marker (fromErrorClass digests typeError))).Carries
        (fromErrorClass digests typeError) := (List.prefix_append _ _).isInfix
  refine ⟨⟨fun _ => rfl, ?_, ?_⟩, ?_⟩
  · rintro c (rfl | rfl) c' (rfl | rfl) _
    · rfl
    · exact hSame
    · exact hSame.symm
    · rfl
  · exact not_separate (Set.mem_insert _ _)
      (Set.mem_insert_of_mem _ rfl) (by decide)
      (carries_of_canonical hSame)
  · exact not_separate (Set.mem_insert _ _)
      (Set.mem_insert_of_mem _ rfl) (by decide) hQuoted

end IssueDedup
