import Mathlib.Data.List.Infix
import Mathlib.Data.List.TakeDrop
import Mathlib.Order.Basic

/-
  Patterns over words, with parts that read one letter and
  parts that read any number of letters.
-/

-- Reading a word

namespace Base

namespace Glob

/- Parts with the letters they fit; some span any word. -/
structure Parts (π τ : Type) where
  spans : π → Bool
  fits : π → τ → Bool

variable {π τ : Type} {P : Parts π τ}
variable {p q : List π} {w v : List τ}

/- The pattern reads the word from its start to its end. -/
inductive Reads (P : Parts π τ) : List π → List τ → Prop where
| done : Reads P [] []
| fit {u : π} {t : τ} {p : List π} {w : List τ} :
    P.spans u = false →
    P.fits u t = true →
    Reads P p w →
    Reads P (u :: p) (t :: w)
| stop {u : π} {p : List π} {w : List τ} :
    P.spans u = true →
    Reads P p w →
    Reads P (u :: p) w
| skip {u : π} {t : τ} {p : List π} {w : List τ} :
    P.spans u = true →
    Reads P (u :: p) w →
    Reads P (u :: p) (t :: w)

theorem Reads.append
    (hLeft : Reads P p w) (hRight : Reads P q v) :
    Reads P (p ++ q) (w ++ v) := by
  induction hLeft with
  | done => exact hRight
  | fit hSpans hFits _ ih => exact .fit hSpans hFits ih
  | stop hSpans _ ih => exact .stop hSpans ih
  | skip hSpans _ ih => exact .skip hSpans ih

variable {u : π}

/- A spanning part reads a word with any letters before it. -/
theorem Reads.before
    (hSpans : P.spans u = true) (hReads : Reads P (u :: p) w) (v : List τ) :
    Reads P (u :: p) (v ++ w) := by
  induction v with
  | nil => exact hReads
  | cons t v ih => exact .skip hSpans ih

/- A word read by two patterns in a row is split in two. -/
theorem Reads.cases_append
    (hReads : Reads P (p ++ q) w) :
    ∃ left right, w = left ++ right ∧ Reads P p left ∧ Reads P q right := by
  generalize hPattern : p ++ q = r at hReads
  induction hReads generalizing p with
  | done =>
    rcases List.append_eq_nil_iff.mp hPattern with ⟨rfl, rfl⟩
    exact ⟨[], [], rfl, .done, .done⟩
  | fit hSpans hFits hRest ih =>
    cases p with
    | nil =>
      rw [List.nil_append] at hPattern
      subst hPattern
      exact ⟨[], _, rfl, .done, .fit hSpans hFits hRest⟩
    | cons u' p =>
      cases hPattern
      rcases ih rfl with ⟨left, right, rfl, hLeft, hRight⟩
      exact ⟨_ :: left, right, rfl, .fit hSpans hFits hLeft, hRight⟩
  | stop hSpans hRest ih =>
    cases p with
    | nil =>
      rw [List.nil_append] at hPattern
      subst hPattern
      exact ⟨[], _, rfl, .done, .stop hSpans hRest⟩
    | cons u' p =>
      cases hPattern
      rcases ih rfl with ⟨left, right, rfl, hLeft, hRight⟩
      exact ⟨left, right, rfl, .stop hSpans hLeft, hRight⟩
  | skip hSpans hRest ih =>
    cases p with
    | nil =>
      rw [List.nil_append] at hPattern
      subst hPattern
      exact ⟨[], _, rfl, .done, .skip hSpans hRest⟩
    | cons u' p =>
      rcases ih hPattern with ⟨left, right, rfl, hLeft, hRight⟩
      rw [← (List.cons.inj hPattern).1] at hSpans
      exact ⟨_ :: left, right, rfl, .skip hSpans hLeft, hRight⟩

/- The letter that a part in the middle reads. -/
theorem Reads.cases_middle
    (hSpans : P.spans u = false) (hReads : Reads P (p ++ u :: q) w) :
    ∃ left t right, w = left ++ t :: right ∧
      Reads P p left ∧ P.fits u t = true ∧
      Reads P q right := by
  rcases hReads.cases_append with ⟨left, right, rfl, hLeft, hRight⟩
  cases hRight with
  | fit hSpans hFits hRest => exact ⟨left, _, _, rfl, hLeft, hFits, hRest⟩
  | stop hOther =>
    rw [hSpans] at hOther
    cases hOther
  | skip hOther =>
    rw [hSpans] at hOther
    cases hOther

theorem reads_nil_iff : Reads P [] w ↔ w = [] := by
  constructor
  · intro hReads
    cases hReads
    rfl
  · rintro rfl
    exact .done

variable {t : τ}

theorem reads_fit_iff
    (hPlain : P.spans u = false) :
    Reads P (u :: p) (t :: w) ↔ P.fits u t = true ∧ Reads P p w := by
  constructor
  · intro hReads
    cases hReads with
    | fit _ hFits hRest => exact ⟨hFits, hRest⟩
    | stop hOther =>
      rw [hPlain] at hOther
      cases hOther
    | skip hOther =>
      rw [hPlain] at hOther
      cases hOther
  · rintro ⟨hFits, hRest⟩
    exact .fit hPlain hFits hRest

theorem not_reads_nil
    (hPlain : P.spans u = false) :
    ¬ Reads P (u :: p) [] := by
  intro hReads
  cases hReads with
  | stop hOther =>
    rw [hPlain] at hOther
    cases hOther

/- A spanning part leaves a tail of the word to the others. -/
theorem reads_spans_iff
    (hSpans : P.spans u = true) :
    Reads P (u :: p) w ↔ ∃ tail, tail <:+ w ∧ Reads P p tail := by
  constructor
  · intro hReads
    generalize hPattern : u :: p = r at hReads
    induction hReads with
    | done => cases hPattern
    | fit hPlain =>
      cases hPattern
      rw [hSpans] at hPlain
      cases hPlain
    | stop _ hRest =>
      cases hPattern
      exact ⟨_, List.suffix_refl _, hRest⟩
    | skip _ _ ih =>
      rcases ih hPattern with ⟨tail, hTail, hRest⟩
      exact ⟨tail, hTail.trans (List.suffix_cons _ _), hRest⟩
  · rintro ⟨tail, ⟨front, rfl⟩, hRest⟩
    exact (Reads.stop hSpans hRest).before hSpans front

-- Lengths

/- How many letters the pattern reads at least. -/
def least (P : Parts π τ) (p : List π) : ℕ :=
  p.countP fun u => !P.spans u

@[simp] theorem least_cons (u : π) (p : List π) :
    least P (u :: p) = least P p + (if P.spans u = true then 0 else 1) := by
  cases hSpans : P.spans u <;> simp [least, hSpans]

theorem Reads.least_le
    (hReads : Reads P p w) :
    least P p ≤ w.length := by
  induction hReads with
  | done => exact le_refl 0
  | fit hSpans hFits _ ih =>
    rw [least_cons, if_neg (by simp [hSpans]), List.length_cons]
    omega
  | stop hSpans _ ih =>
    rw [least_cons, if_pos hSpans]
    exact ih
  | skip hSpans _ ih =>
    rw [List.length_cons]
    omega

/- Without a spanning part the length is fixed. -/
theorem Reads.length_eq
    (hNone : ∀ u ∈ p, P.spans u = false) (hReads : Reads P p w) :
    w.length = p.length := by
  induction hReads with
  | done => rfl
  | fit hSpans hFits _ ih =>
    rw [List.length_cons, List.length_cons, ih
      (fun u hMem => hNone u (List.mem_cons_of_mem _ hMem))]
  | stop hSpans =>
    rw [hNone _ List.mem_cons_self] at hSpans
    cases hSpans
  | skip hSpans =>
    rw [hNone _ List.mem_cons_self] at hSpans
    cases hSpans

-- Loose ends

variable {every : π → Bool} {names : τ → Prop}

/-
  Parts that read any word that is long enough: all of them
  fit every name or span, and one of them spans.
-/
structure Loose
    (P : Parts π τ) (every : π → Bool) (room : ℕ) (tail : List π) :
    Prop where
  loose : ∀ u ∈ tail, P.spans u = true ∨ every u = true
  spans : ∃ u ∈ tail, P.spans u = true
  least_le : least P tail ≤ room

variable {tail : List π}

/- Parts that fit every name read a word of their length. -/
theorem reads_of_length_eq
    (hEvery : ∀ u t, P.spans u = false → every u = true →
      names t → P.fits u t = true)
    (hNone : ∀ u ∈ tail, P.spans u = false)
    (hLoose : ∀ u ∈ tail, P.spans u = true ∨ every u = true)
    (hNames : ∀ t ∈ w, names t)
    (hLength : w.length = tail.length) :
    Reads P tail w := by
  induction tail generalizing w with
  | nil =>
    rw [List.length_nil, List.length_eq_zero_iff] at hLength
    rw [hLength]
    exact .done
  | cons u tail ih =>
    cases w with
    | nil => cases hLength
    | cons t w =>
      have hSpans := hNone u List.mem_cons_self
      have hFull : every u = true := by
        rcases hLoose u List.mem_cons_self with hIs | hIs
        · rw [hSpans] at hIs
          cases hIs
        · exact hIs
      refine .fit hSpans
        (hEvery u t hSpans hFull
          (hNames t List.mem_cons_self)) (ih ?_ ?_ ?_ ?_)
      · exact fun v hMem =>
          hNone v (List.mem_cons_of_mem u hMem)
      · exact fun v hMem =>
          hLoose v (List.mem_cons_of_mem u hMem)
      · exact fun v hMem =>
          hNames v (List.mem_cons_of_mem t hMem)
      · simpa using hLength

theorem least_of_none
    (hNone : ∀ u ∈ p, P.spans u = false) :
    least P p = p.length := by
  rw [least, List.countP_eq_length]
  intro u hMem
  simp [hNone u hMem]

theorem Loose.reads
    (hEvery : ∀ u t, P.spans u = false → every u = true →
      names t → P.fits u t = true)
    (hLoose : Loose P every w.length tail)
    (hNames : ∀ t ∈ w, names t) :
    Reads P tail w := by
  rcases hLoose with ⟨hAll, hSome, hLeast⟩
  induction tail generalizing w with
  | nil =>
    rcases hSome with ⟨u, hMem, -⟩
    cases hMem
  | cons u tail ih =>
    have hRest : ∀ v ∈ tail, P.spans v = true ∨ every v = true :=
      fun v hMem => hAll v (List.mem_cons_of_mem u hMem)
    rw [least_cons] at hLeast
    by_cases hSpans : P.spans u = true
    · rw [if_pos hSpans] at hLeast
      by_cases hMore : ∃ v ∈ tail, P.spans v = true
      · exact .stop hSpans (ih hNames hRest hMore hLeast)
      · -- The last spanning part leaves just enough.
        have hNone : ∀ v ∈ tail, P.spans v = false := by
          intro v hMem
          by_contra hOther
          exact hMore ⟨v, hMem, by simpa using hOther⟩
        rw [least_of_none hNone] at hLeast
        have hEnd : Reads P tail (w.drop (w.length - tail.length)) := by
          refine reads_of_length_eq hEvery hNone hRest ?_ ?_
          · exact fun t hMem => hNames t (List.mem_of_mem_drop hMem)
          · rw [List.length_drop]
            omega
        have hWord := (Reads.stop hSpans hEnd).before hSpans
          (w.take (w.length - tail.length))
        rw [List.take_append_drop] at hWord
        exact hWord
    · rw [if_neg hSpans] at hLeast
      have hFull := (hAll u List.mem_cons_self).resolve_left hSpans
      have hMore : ∃ v ∈ tail, P.spans v = true := by
        rcases hSome with ⟨v, hMem, hIs⟩
        rcases List.mem_cons.mp hMem with rfl | hMem
        · exact absurd hIs hSpans
        · exact ⟨v, hMem, hIs⟩
      cases w with
      | nil => simp at hLeast
      | cons t w =>
        have hPlain : P.spans u = false := by simpa using hSpans
        refine .fit hPlain
          (hEvery u t hPlain hFull (hNames t List.mem_cons_self)) ?_
        refine ih ?_ hRest hMore (by simpa using hLeast)
        exact fun v hMem =>
          hNames v (List.mem_cons_of_mem t hMem)

-- Patterns that read everything below a word

/- The last part that is not loose, with the loose rest. -/
theorem loose_or_last
    (P : Parts π τ) (every : π → Bool) (p : List π) :
    (∀ u ∈ p, P.spans u = true ∨ every u = true) ∨
      ∃ front u tail, p = front ++ u :: tail ∧
        P.spans u = false ∧ every u = false ∧
        ∀ v ∈ tail, P.spans v = true ∨ every v = true := by
  induction p with
  | nil => exact .inl (by simp)
  | cons u p ih =>
    rcases ih with hAll | ⟨front, v, tail, rfl, hLast⟩
    · by_cases hLoose : P.spans u = true ∨ every u = true
      · refine .inl ?_
        intro v hMem
        rcases List.mem_cons.mp hMem with rfl | hMem
        · exact hLoose
        · exact hAll v hMem
      · push Not at hLoose
        exact .inr ⟨[], u, p, rfl, by simpa using hLoose.1,
          by simpa using hLoose.2, hAll⟩
    · exact .inr ⟨u :: front, v, tail, rfl, hLast⟩

/-
  Where a pattern reads all the words below a directory: its
  front reads a leading part of the directory, and its loose
  tail the rest and everything below.
-/
structure ReadsBelow
    (P : Parts π τ) (every : π → Bool) (p : List π)
    (dir : List τ) (front tail : List π) (near far : List τ) :
    Prop where
  pattern : p = front ++ tail
  split : dir = near ++ far
  reads : Reads P front near
  loose : Loose P every (far.length + 1) tail

variable {front : List π} {dir : List τ}

/- A split of the pattern from any word it reads in the end. -/
theorem readsBelow_of_last
    (hPlain : P.spans u = false) (hMiss : P.fits u t = false)
    (hTail : ∀ v ∈ tail, P.spans v = true ∨ every v = true)
    (hSome : ∃ v ∈ tail, P.spans v = true)
    (hReads : Reads P (front ++ u :: tail) (dir ++ [t])) :
    ∃ near far, ReadsBelow P every (front ++ u :: tail) dir
      (front ++ [u]) tail near far := by
  rcases hReads.cases_middle hPlain with
    ⟨left, t', right, hWord, hLeft, hFits, hRight⟩
  rcases List.eq_nil_or_concat right with rfl | ⟨far, t'', hEnd⟩
  · have hSame := List.append_inj' hWord rfl
    have hLetter : t = t' := by simpa using hSame.2
    rw [← hLetter, hMiss] at hFits
    cases hFits
  · rw [List.concat_eq_append] at hEnd
    have hSame : dir = left ++ [t'] ++ far ∧ [t] = [t''] := by
      refine List.append_inj' ?_ rfl
      rw [hWord, hEnd]
      simp
    refine ⟨left ++ [t'], far, ⟨by simp, hSame.1, ?_, ?_⟩⟩
    · exact hLeft.append (.fit hPlain hFits .done)
    · have hLeast := hRight.least_le
      rw [hEnd, List.length_append, List.length_singleton]
        at hLeast
      exact ⟨hTail, hSome, hLeast⟩

/- A tail that does not span misses a long enough word. -/
theorem not_reads_of_last
    (hPlain : P.spans u = false) (hMiss : P.fits u t = false)
    (hNone : ∀ v ∈ tail, P.spans v = false) (dir : List τ) :
    ¬ Reads P (front ++ u :: tail)
      (dir ++ t :: List.replicate tail.length t) := by
  intro hReads
  rcases hReads.cases_middle hPlain with
    ⟨left, t', right, hWord, -, hFits, hRight⟩
  have hLength := hRight.length_eq hNone
  have hEnds : dir ++ [t] = left ++ [t'] ∧
      List.replicate tail.length t = right := by
    refine List.append_inj' ?_ (by simp [hLength])
    simpa using hWord
  have hLetter := (List.append_inj' hEnds.1 rfl).2
  rw [← List.singleton_inj.mp hLetter, hMiss] at hFits
  cases hFits

theorem Loose.mono
    {room room' : ℕ} (hLoose : Loose P every room tail)
    (hRoom : room ≤ room') :
    Loose P every room' tail :=
  ⟨hLoose.loose, hLoose.spans, hLoose.least_le.trans hRoom⟩

theorem ReadsBelow.reads_append
    {dir near far rest : List τ}
    (hEvery : ∀ u t, P.spans u = false → every u = true →
      names t → P.fits u t = true)
    (hDir : ∀ t ∈ dir, names t)
    (hBelow : ReadsBelow P every p dir front tail near far)
    (hSome : rest ≠ [])
    (hRest : ∀ t ∈ rest, names t) :
    Reads P p (dir ++ rest) := by
  have hRoom : far.length + 1 ≤ (far ++ rest).length := by
    have hPos := List.length_pos_iff.mpr hSome
    rw [List.length_append]
    omega
  have hTail : Reads P tail (far ++ rest) := by
    refine (hBelow.loose.mono hRoom).reads hEvery ?_
    intro t hMem
    rcases List.mem_append.mp hMem with hFar | hIn
    · refine hDir t ?_
      rw [hBelow.split]
      exact List.mem_append_right near hFar
    · exact hRest t hIn
  rw [hBelow.pattern, hBelow.split, List.append_assoc]
  exact hBelow.reads.append hTail

/-
  A pattern reads every word below a directory exactly when
  it splits into a front that reads a leading part of the
  directory and a loose tail with room for the rest.
-/
theorem reads_below_iff
    (hEvery : ∀ u t, P.spans u = false → every u = true →
      names t → P.fits u t = true)
    (hMiss : ∀ u, P.spans u = false → every u = false →
      ∃ t, names t ∧ P.fits u t = false)
    (hName : ∃ t, names t)
    (hDir : ∀ t ∈ dir, names t)
    (p : List π) :
    (∀ rest, rest ≠ [] → (∀ t ∈ rest, names t) →
      Reads P p (dir ++ rest)) ↔
      ∃ front tail near far,
        ReadsBelow P every p dir front tail near far := by
  constructor
  · intro hAll
    rcases hName with ⟨t, hIs⟩
    have hOne := hAll [t] (by simp) (by simpa using hIs)
    rcases loose_or_last P every p with
      hLoose | ⟨front, u, tail, rfl, hPlain, hNot, hLoose⟩
    · by_cases hSome : ∃ u ∈ p, P.spans u = true
      · have hLeast := hOne.least_le
        rw [List.length_append, List.length_singleton] at hLeast
        exact ⟨[], p, [], dir, rfl, rfl, .done, hLoose, hSome, hLeast⟩
      · have hNone : ∀ u ∈ p, P.spans u = false := by
          intro u hMem
          by_contra hOther
          exact hSome ⟨u, hMem, by simpa using hOther⟩
        have hTwo := hAll [t, t] (by simp) (by simpa using hIs)
        have hFirst := hOne.length_eq hNone
        have hSecond := hTwo.length_eq hNone
        simp only [List.length_append, List.length_cons,
          List.length_nil] at hFirst hSecond
        omega
    · rcases hMiss u hPlain hNot with ⟨t', hIs', hMissed⟩
      by_cases hSome : ∃ v ∈ tail, P.spans v = true
      · have hReads := hAll [t'] (by simp) (by simpa using hIs')
        rcases readsBelow_of_last hPlain hMissed hLoose hSome
          hReads with ⟨near, far, hBelow⟩
        exact ⟨_, _, _, _, hBelow⟩
      · have hNone : ∀ v ∈ tail, P.spans v = false := by
          intro v hMem
          by_contra hOther
          exact hSome ⟨v, hMem, by simpa using hOther⟩
        refine absurd (hAll _ (by simp) ?_)
          (not_reads_of_last hPlain hMissed hNone dir)
        intro s hMem
        rcases List.mem_cons.mp hMem with rfl | hMem
        · exact hIs'
        · rw [List.eq_of_mem_replicate hMem]
          exact hIs'
  · rintro ⟨front, tail, near, far, hBelow⟩ rest hSome hRest
    exact hBelow.reads_append hEvery hDir hSome hRest

end Glob

end Base
