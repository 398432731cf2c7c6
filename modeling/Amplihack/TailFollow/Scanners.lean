import Amplihack.TailFollow.Lockstep

/-
  Whether the two shell scanners agree on what the shell runs
  in a text.
-/

-- Rounds And Runs Of The Tokeniser

namespace TailFollow

open Base Shell

variable {chars : Text}
variable {s s' p : State}
variable {t u q : Cursor}
variable {c : Char}

theorem arm_of_round
    (hStep : Shell.step chars s = .ok (.inl s')) :
    ∃ c, chars[s.i]? = some c ∧
      runArm chars s c (armOf chars s c) = .ok s' := by
  unfold Shell.step at hStep
  split at hStep
  next hi =>
    refine ⟨chars[s.i], List.getElem?_eq_getElem hi, ?_⟩
    rw [get_of_lt hi, Checked.ok_bind] at hStep
    cases hArm : runArm chars s chars[s.i]
        (armOf chars s chars[s.i]) with
    | error e =>
      rw [hArm] at hStep
      cases hStep
    | ok u =>
      rw [hArm] at hStep
      rw [Sum.inl.inj (Except.ok.inj hStep)]
  next => cases hStep

theorem end_of_round
    (hOut : s.out ≠ []) (hStep : Shell.step chars s = .ok (.inr p)) :
    p = s ∧ chars.length ≤ s.i := by
  have hSafe : Safe _ _ (Shell.step chars s) := Shell.step_ok hOut
  rw [hStep] at hSafe
  have hSame : p = s := hSafe
  refine ⟨hSame, ?_⟩
  by_contra hEnd
  have hi : s.i < chars.length := Nat.lt_of_not_le hEnd
  rcases runArm_moves (c := chars[s.i]) hi hOut with ⟨u, hArm, _, _⟩
  unfold Shell.step at hStep
  rw [if_pos hi, get_of_lt hi, Checked.ok_bind, hArm] at hStep
  cases hStep

theorem moves_of_round
    (hOut : s.out ≠ []) (hStep : Shell.step chars s = .ok (.inl s')) :
    Shell.Moves s s' := by
  have hSafe : Safe _ _ (Shell.step chars s) := Shell.step_ok hOut
  rw [hStep] at hSafe
  exact hSafe.1

theorem moves_of_ends
    (hOut : s.out ≠ []) (hEnds : Ends (Shell.step chars) s p) :
    Shell.Moves s p := by
  induction hEnds with
  | last hBody =>
    rw [(end_of_round hOut hBody).1]
    exact .refl _
  | next hBody _ ih =>
    have hMoves := moves_of_round hOut hBody
    exact hMoves.trans (ih (hMoves.out hOut))

theorem skipped_of_ends
    (hEnds : Ends (step chars) t q) :
    ∃ more, q.skipped = t.skipped ++ more ∧
      ∀ r ∈ more, t.i ≤ r.start := by
  induction hEnds with
  | @last t q hBody =>
    have hSafe := step_ok chars t
    rw [hBody] at hSafe
    have hSame : q = t := hSafe
    rw [hSame]
    exact ⟨[], (List.append_nil _).symm, nofun⟩
  | @next t u q hBody _ ih =>
    have hSafe := step_ok chars t
    rw [hBody] at hSafe
    have hMoves : Moves t u := hSafe.1
    have hLess := hMoves.lt
    rcases hMoves.skipped with ⟨more, hMore, hFrom⟩
    rcases ih with ⟨more', hMore', hFrom'⟩
    refine ⟨more ++ more', ?_, ?_⟩
    · rw [hMore', hMore, List.append_assoc]
    · intro r hr
      rcases List.mem_append.mp hr with hOld | hNew
      · exact hFrom r hOld
      · have hLater := hFrom' r hNew
        omega

-- Runs In Step

/- As long as they agree on comments, the scanners agree. -/
theorem agree_of_ends
    (hGrave : grave ∉ chars) (hOut : s.out ≠ [])
    (hEnds : Ends (Shell.step chars) s p) (hComplete : p.complete = true)
    (hHashes : ∀ s', Visits (Shell.step chars) s s' →
      chars[s'.i]? = some '#' →
      s'.inWord = !wordStart chars s'.i)
    (hIn : InStep chars (view s) false t)
    (hOther : Ends (step chars) t q) :
    q.skipped = p.skipped ∧
      q.bodies = bodiesOf chars q.skipped := by
  induction hEnds generalizing t with
  | @last s p hBody =>
    rcases end_of_round hOut hBody with ⟨rfl, hEnd⟩
    have hPast : chars.length ≤ t.i := by
      rcases hIn.i with hSame | ⟨_, hPast⟩
      · rw [hSame]
        exact hEnd
      · exact hPast
    have hLast : step chars t = .ok (.inr t) := if_neg (Nat.not_lt.mpr hPast)
    rcases hOther.unique (.last hLast) with rfl
    exact ⟨hIn.skipped, hIn.bodies⟩
  | @next s s' p hBody hRest ih =>
    rcases arm_of_round hBody with ⟨c, hc, hArm⟩
    have hMoves := moves_of_round hOut hBody
    have hOut' := hMoves.out hOut
    have hNow : s'.complete = true :=
      (moves_of_ends hOut' hRest).complete hComplete
    rcases follows_runArm hGrave hOut hc
      (fun hSame => hHashes s .here (hSame ▸ hc)) hArm hNow
      hIn with ⟨u, hSame, hIn'⟩
    exact ih hOut' hComplete
      (fun s'' hVisits => hHashes s'' (.next hBody hVisits))
      hIn' ((hSame q).mp hOther)

theorem armOf_hash (chars : Text) (s : State) :
    armOf chars s '#' =
      if s.inWord = false then .comment else .letter := by
  unfold armOf
  by_cases hOutside : s.inWord = false
  · rw [if_pos hOutside]
    simp [hOutside, grave]
  · rw [if_neg hOutside]
    simp [hOutside, grave, isWhitespace]

/- A comment for the tokeniser only is skipped by it only. -/
theorem agree_of_comment
    (hc : chars[s.i]? = some '#') (hOut : s.out ≠ [])
    (hBody : Shell.step chars s = .ok (.inl s'))
    (hRest : Ends (Shell.step chars) s' p)
    (hIn : InStep chars (view s) false t) (hOther : Ends (step chars) t q)
    (hSame : q.skipped = p.skipped) (hOutside : s.inWord = false) :
    wordStart chars s.i = true := by
  have hi := (List.getElem?_eq_some_iff.mp hc).1
  have hHere : t.i = s.i := hIn.same hi
  have hSkipped : t.skipped = s.skipped := hIn.skipped
  by_contra hNot
  have hPlain : PlainAt chars t.i '#' := by
    refine ⟨by decide, by decide, by decide, by decide,
      by decide, fun hSame => absurd hSame (by decide),
      fun _ => ?_, fun hSame => absurd hSame (by decide)⟩
    rw [hHere]
    exact Bool.of_not_eq_true hNot
  have hNext := (ends_next_iff
    (step_plain (hHere ▸ hc) hIn.inDouble hPlain)).mp hOther
  rcases skipped_of_ends hNext with ⟨more, hMore, hFrom⟩
  rcases arm_of_round hBody with ⟨c, hc', hArm⟩
  rw [hc] at hc'
  rcases Option.some.inj hc' with rfl
  have hOut' := (moves_of_round hOut hBody).out hOut
  rw [armOf_hash, if_pos hOutside] at hArm
  change comment chars s = _ at hArm
  unfold comment at hArm
  rw [skipComment_eq, Checked.ok_bind] at hArm
  rcases Except.ok.inj hArm with rfl
  rcases (moves_of_ends hOut' hRest).skipped with ⟨rest, hAfter, _⟩
  rw [hSame, hAfter] at hMore
  change (s.skipped ++ [_]) ++ rest = t.skipped ++ more at hMore
  rw [hSkipped, List.append_assoc, List.append_cancel_left_eq] at hMore
  rw [← hMore] at hFrom
  have hLater : t.i + 1 ≤ s.i := hFrom _ List.mem_cons_self
  omega

/- And the other way around. -/
theorem agree_of_word
    (hc : chars[s.i]? = some '#') (hOut : s.out ≠ [])
    (hBody : Shell.step chars s = .ok (.inl s'))
    (hRest : Ends (Shell.step chars) s' p)
    (hIn : InStep chars (view s) false t) (hOther : Ends (step chars) t q)
    (hSame : q.skipped = p.skipped) (hInside : s.inWord = true) :
    wordStart chars s.i = false := by
  have hi := (List.getElem?_eq_some_iff.mp hc).1
  have hHere : t.i = s.i := hIn.same hi
  have hSkipped : t.skipped = s.skipped := hIn.skipped
  by_contra hNot
  have hStart : wordStart chars t.i = true := by
    rw [hHere]
    exact Bool.of_not_eq_false hNot
  have hNext := (ends_next_iff
    (step_comment (hHere ▸ hc) hIn.inDouble hStart)).mp hOther
  rcases skipped_of_ends hNext with ⟨rest, hAfter, _⟩
  rcases arm_of_round hBody with ⟨c, hc', hArm⟩
  rw [hc] at hc'
  rcases Option.some.inj hc' with rfl
  have hOut' := (moves_of_round hOut hBody).out hOut
  rw [armOf_hash, if_neg (by simp [hInside])] at hArm
  rcases Except.ok.inj hArm with rfl
  rcases (moves_of_ends hOut' hRest).skipped with ⟨more, hMore, hFrom⟩
  rw [← hSame, hAfter] at hMore
  change (t.skipped ++ [_]) ++ rest = s.skipped ++ more at hMore
  rw [hSkipped, List.append_assoc, List.append_cancel_left_eq] at hMore
  rw [← hMore] at hFrom
  have hLater : s.i + 1 ≤ t.i := hFrom _ List.mem_cons_self
  omega

/- If they skip the same, they agree on every comment. -/
theorem hashes_of_ends
    (hGrave : grave ∉ chars) (hOut : s.out ≠ [])
    (hEnds : Ends (Shell.step chars) s p) (hComplete : p.complete = true)
    (hIn : InStep chars (view s) false t) (hOther : Ends (step chars) t q)
    (hSame : q.skipped = p.skipped) (hVisits : Visits (Shell.step chars) s s')
    (hc : chars[s'.i]? = some '#') :
    s'.inWord = !wordStart chars s'.i := by
  induction hEnds generalizing t with
  | @last s p hBody =>
    have hEnd := (end_of_round hOut hBody).2
    cases hVisits with
    | here =>
      have hi := (List.getElem?_eq_some_iff.mp hc).1
      omega
    | next hBody' _ =>
      rw [hBody] at hBody'
      cases hBody'
  | @next s u p hBody hRest ih =>
    have hHere : chars[s.i]? = some '#' →
        s.inWord = !wordStart chars s.i := by
      intro hHash
      cases hInside : s.inWord with
      | false =>
        rw [agree_of_comment hHash hOut hBody hRest hIn hOther hSame hInside]
        rfl
      | true =>
        rw [agree_of_word hHash hOut hBody hRest hIn hOther hSame hInside]
        rfl
    cases hVisits with
    | here => exact hHere hc
    | next hBody' hLater =>
      rw [hBody] at hBody'
      rcases Sum.inl.inj (Except.ok.inj hBody') with rfl
      rcases arm_of_round hBody with ⟨c, hc', hArm⟩
      have hMoves := moves_of_round hOut hBody
      have hOut' := hMoves.out hOut
      have hNow : u.complete = true :=
        (moves_of_ends hOut' hRest).complete hComplete
      rcases follows_runArm hGrave hOut hc'
        (fun hSame' => hHere (hSame' ▸ hc')) hArm hNow hIn
        with ⟨w, hFollow, hIn'⟩
      exact ih hOut' hComplete hIn' ((hFollow q).mp hOther) hSame hLater

-- Agreement

/-
  The other scanner's bodies are those of the substitutions
  that the tokeniser stepped over, and both skipped the same
  regions.
-/
def ScannersAgree (chars : Text) : Prop :=
  ∃ p q, Shell.scanned chars = .ok p ∧
    scanned chars = .ok q ∧
    substitutionBodies chars = .ok (bodiesOf chars p.skipped) ∧
    q.skipped = p.skipped

theorem inStep_start (chars : Text) :
    InStep chars (view Shell.start) false start :=
  ⟨rfl, rfl, rfl, rfl, .inl rfl⟩

theorem complete_of_parsed
    {parsed : Parsed} (hScanned : Shell.scanned chars = .ok p)
    (hParsed : tokenise chars = .ok parsed)
    (hComplete : parsed.complete = true) :
    p.complete = true := by
  unfold tokenise at hParsed
  rw [hScanned, Checked.ok_bind] at hParsed
  rcases Except.ok.inj hParsed with rfl
  have hEnd := (Bool.and_eq_true_iff.mp hComplete).1
  exact ((endWord_moves p).trans (endCommand_moves _)).complete hEnd

theorem scanners_agree_iff
    {parsed : Parsed} (hParsed : tokenise chars = .ok parsed)
    (hComplete : parsed.complete = true) (hGrave : grave ∉ chars) :
    ScannersAgree chars ↔ HashesAgree chars := by
  rcases Shell.scanned_ok chars with ⟨p, hTokens, _⟩
  rcases scanned_ok chars with ⟨q, hScanned⟩
  have hNow := complete_of_parsed hTokens hParsed hComplete
  have hOut : Shell.start.out ≠ [] := List.cons_ne_nil _ _
  have hEnds := ends_of_loop hTokens
  have hOther := ends_of_loop hScanned
  constructor
  · rintro ⟨p', q', hTokens', hScanned', _, hSame⟩
    rw [hTokens] at hTokens'
    rw [hScanned] at hScanned'
    rcases Except.ok.inj hTokens' with rfl
    rcases Except.ok.inj hScanned' with rfl
    intro s hVisits hc
    exact hashes_of_ends hGrave hOut hEnds hNow
      (inStep_start chars) hOther hSame hVisits hc
  · intro hHashes
    rcases agree_of_ends hGrave hOut hEnds hNow hHashes
      (inStep_start chars) hOther with ⟨hSame, hBodies⟩
    refine ⟨p, q, hTokens, hScanned, ?_, hSame⟩
    unfold substitutionBodies
    rw [hScanned, Checked.ok_bind, hBodies, hSame]
    rfl

theorem scanners_agree_iff_quoted :
    ScannersAgree "a \"$(b)\" c#d #$(e)".toList ↔
      HashesAgree "a \"$(b)\" c#d #$(e)".toList := by
  have hParsed :
      tokenise "a \"$(b)\" c#d #$(e)".toList =
        .ok { commands :=
                [{ SimpleCommand.empty 0 with
                  words := ["a".toList, "$(b)".toList,
                    "c#d".toList] }],
              complete := true } := by decide +kernel
  exact scanners_agree_iff hParsed rfl (by decide +kernel)

/- A comment right after a subshell is read as a command. -/
theorem comment_after_subshell :
    ¬∀ (chars : Text) (parsed : Parsed), tokenise chars = .ok parsed →
      parsed.complete = true →
      grave ∉ chars →
      ScannersAgree chars := by
  intro hAll
  have hParsed :
      tokenise "(a)#$(b)".toList =
        .ok { commands :=
                [{ SimpleCommand.empty 1 with
                  words := ["a".toList] }],
              complete := true } := by decide +kernel
  have hTokens : (Shell.scanned "(a)#$(b)".toList).map
      (·.skipped) = .ok [⟨.comment, 3, 7⟩] := by decide +kernel
  have hOther : (scanned "(a)#$(b)".toList).map
      (·.skipped) = .ok [⟨.substitution, 4, 7⟩] := by decide +kernel
  rcases hAll _ _ hParsed rfl (by decide +kernel) with
    ⟨p, q, hp, hq, _, hSame⟩
  rw [hp] at hTokens
  rw [hq] at hOther
  have hLeft : p.skipped = _ := Except.ok.inj hTokens
  have hRight : q.skipped = _ := Except.ok.inj hOther
  rw [hLeft, hRight] at hSame
  cases hSame

end TailFollow
