import Amplihack.TailFollow.Substitutions

/-
  Tokenising a quoted argument list gives its arguments back,
  and finds no substitution in it.
-/

-- Characters Of Arguments

namespace Shell

open Base

variable {chars rest pre arg : Text}
variable {s t u : State}
variable {c : Char}
variable {i : ℕ}

theorem toNat_of_isSafe (hSafe : isSafe c = true) :
    65 ≤ c.toNat ∧ c.toNat ≤ 90 ∨
    97 ≤ c.toNat ∧ c.toNat ≤ 122 ∨
    48 ≤ c.toNat ∧ c.toNat ≤ 57 ∨
    c ∈ "_@%+=:,./-".toList := by
  unfold isSafe at hSafe
  delta Char.isAlphanum Char.isAlpha Char.isUpper Char.isLower
    Char.isDigit at hSafe
  simp only [Bool.or_eq_true, Bool.and_eq_true,
    decide_eq_true_eq, List.contains_iff_mem] at hSafe
  change (((65 ≤ c.toNat ∧ c.toNat ≤ 90) ∨
    97 ≤ c.toNat ∧ c.toNat ≤ 122) ∨
      48 ≤ c.toNat ∧ c.toNat ≤ 57) ∨ c ∈ "_@%+=:,./-".toList at hSafe
  rcases hSafe with ((hUpper | hLower) | hDigit) | hMark
  · exact .inl hUpper
  · exact .inr (.inl hLower)
  · exact .inr (.inr (.inl hDigit))
  · exact .inr (.inr (.inr hMark))

theorem isWhitespace_of_isSafe (hSafe : isSafe c = true) :
    isWhitespace c = false := by
  have hRange : 37 ≤ c.toNat ∧ c.toNat ≤ 122 := by
    rcases toNat_of_isSafe hSafe with
      hUpper | hLower | hDigit | hMark
    · omega
    · omega
    · omega
    · simp at hMark
      rcases hMark with rfl | rfl | rfl | rfl | rfl | rfl |
        rfl | rfl | rfl | rfl
      all_goals decide
  unfold isWhitespace
  simp only [Bool.or_eq_false_iff, Bool.and_eq_false_iff,
    decide_eq_false_iff_not, beq_eq_false_iff_ne]
  omega

theorem ne_of_isSafe
    {d : Char} (hSafe : isSafe c = true) (hUnsafe : isSafe d = false) :
    c ≠ d := by
  rintro rfl
  rw [hSafe] at hUnsafe
  cases hUnsafe

theorem armOf_of_isSafe
    (chars : Text) (s : State) (hSafe : isSafe c = true) :
    armOf chars s c = .letter := by
  have hNe := fun d => ne_of_isSafe (d := d) hSafe
  unfold armOf
  simp [hNe '\'' (by decide), hNe '$' (by decide),
    hNe '"' (by decide), hNe '\\' (by decide),
    hNe grave (by decide), hNe '#' (by decide),
    hNe '<' (by decide), hNe '>' (by decide),
    hNe '&' (by decide), hNe '\n' (by decide),
    hNe '|' (by decide), hNe ';' (by decide),
    hNe '(' (by decide), hNe ')' (by decide),
    isWhitespace_of_isSafe hSafe]

-- Reading A Quoted Argument

theorem lt_of_drop (hDrop : chars.drop i = c :: rest) :
    i < chars.length := by
  by_contra hEnd
  rw [List.drop_of_length_le (Nat.le_of_not_lt hEnd)] at hDrop
  cases hDrop

theorem getElem_of_drop
    (hDrop : chars.drop i = c :: rest) (hi : i < chars.length) :
    chars[i] = c := by
  rw [List.drop_eq_getElem_cons hi] at hDrop
  exact (List.cons.inj hDrop).1

theorem drop_of_drop
    (hDrop : chars.drop i = pre ++ rest) :
    chars.drop (i + pre.length) = rest := by
  rw [← List.drop_drop, hDrop, List.drop_left]

theorem drop_succ_of_drop (hDrop : chars.drop i = c :: rest) :
    chars.drop (i + 1) = rest := by
  rw [← List.drop_drop, hDrop]
  rfl

theorem getElem?_of_drop (hDrop : chars.drop i = c :: rest) :
    chars[i]? = some c := by
  have hi := lt_of_drop hDrop
  rw [List.getElem?_eq_getElem hi, getElem_of_drop hDrop hi]

theorem before_of_drop
    (hDrop : chars.drop i = pre ++ c :: rest) (hPre : c ∉ pre) :
    before chars c i = pre := by
  unfold before
  rw [hDrop, List.takeWhile_append_of_pos]
  · rw [List.takeWhile_cons_of_neg (by simp), List.append_nil]
  · intro d hd
    exact decide_eq_true fun hSame => hPre (hSame ▸ hd)

/- `t` has read `text` more of a word than `s`. -/
structure Reads (s t : State) (text : Text) : Prop where
  word : t.word = s.word ++ text
  inWord : t.inWord = true
  out : t.out = s.out
  complete : t.complete = s.complete
  heredocs : t.heredocs = s.heredocs
  target : t.target = s.target

theorem Reads.trans
    {text more : Text} (hLeft : Reads s t text) (hRight : Reads t u more) :
    Reads s u (text ++ more) where
  word := by
    rw [hRight.word, hLeft.word, List.append_assoc]
  inWord := hRight.inWord
  out := hRight.out.trans hLeft.out
  complete := hRight.complete.trans hLeft.complete
  heredocs := hRight.heredocs.trans hLeft.heredocs
  target := hRight.target.trans hLeft.target

/- A run from `t` continues to one from `s`. -/
def Leads (chars : Text) (s t : State) : Prop :=
  ∀ {b : State}, Ends (step chars) t b → Ends (step chars) s b

theorem step_of_drop
    (hDrop : chars.drop s.i = c :: rest)
    (hArm : runArm chars s c (armOf chars s c) = .ok t) :
    Leads chars s t := by
  have hi := lt_of_drop hDrop
  intro b hEnds
  refine .next ?_ hEnds
  unfold step
  rw [if_pos hi, get_of_lt hi, Checked.ok_bind,
    getElem_of_drop hDrop hi, hArm, Checked.ok_bind]
  rfl

/- `s` leads to a state that has read `text`, before `rest`. -/
def Takes (chars : Text) (s : State) (text rest : Text) :
    Prop :=
  ∃ t, Leads chars s t ∧ Reads s t text ∧ chars.drop t.i = rest

theorem Takes.trans
    {text more rest' : Text} (hLeft : Takes chars s text rest)
    (hRight : ∀ t, chars.drop t.i = rest → Takes chars t more rest') :
    Takes chars s (text ++ more) rest' := by
  rcases hLeft with ⟨t, hLeads, hReads, hDrop⟩
  rcases hRight t hDrop with ⟨u, hLeads', hReads', hDrop'⟩
  exact ⟨u, fun hEnds => hLeads (hLeads' hEnds), hReads.trans hReads', hDrop'⟩

theorem takes_single
    (hDrop : chars.drop s.i = '\'' :: (pre ++ '\'' :: rest))
    (hPre : '\'' ∉ pre) :
    Takes chars s pre rest := by
  have hNext := drop_succ_of_drop hDrop
  have hClose := drop_of_drop hNext
  have hi := lt_of_drop hClose
  have hArm : armOf chars s '\'' = .singleQuote := by simp [armOf]
  have hRun : runArm chars s '\'' (armOf chars s '\'') =
      singleQuote chars s := by
    rw [hArm]
    rfl
  unfold singleQuote at hRun
  rw [readUntil_eq, before_of_drop hNext hPre, Checked.ok_bind] at hRun
  refine ⟨_, step_of_drop hDrop hRun, ?_, drop_succ_of_drop hClose⟩
  exact ⟨rfl, rfl, rfl, by simp [State.goto, State.skip, hi],
    rfl, rfl⟩

theorem takes_backslash
    (hDrop : chars.drop s.i = '\\' :: '\'' :: rest) :
    Takes chars s ['\''] rest := by
  have hNext := drop_succ_of_drop hDrop
  have hArm : armOf chars s '\\' = .backslash := by simp [armOf]
  have hRun : runArm chars s '\\' (armOf chars s '\\') =
      .ok (backslash chars s) := by
    rw [hArm]
    rfl
  unfold backslash at hRun
  rw [getElem?_of_drop hNext] at hRun
  refine ⟨_, step_of_drop hDrop hRun, ?_, drop_succ_of_drop hNext⟩
  exact ⟨rfl, rfl, rfl, Bool.and_true _, rfl, rfl⟩

theorem takes_letter
    (hDrop : chars.drop s.i = c :: rest) (hSafe : isSafe c = true) :
    Takes chars s [c] rest := by
  have hRun : runArm chars s c (armOf chars s c) =
      .ok ((s.push [c]).goto (s.i + 1) true) := by
    rw [armOf_of_isSafe chars s hSafe]
    rfl
  refine ⟨_, step_of_drop hDrop hRun, ?_, drop_succ_of_drop hDrop⟩
  exact ⟨rfl, rfl, rfl, Bool.and_true _, rfl, rfl⟩

/- A quoted text, with `pre` of it already in the string. -/
theorem takes_quoted
    (hDrop : chars.drop s.i =
      '\'' :: (pre ++ (arg.flatMap quoteChar ++ '\'' :: rest)))
    (hPre : '\'' ∉ pre) :
    Takes chars s (pre ++ arg) rest := by
  induction arg generalizing s pre with
  | nil =>
    rw [List.append_nil]
    exact takes_single hDrop hPre
  | cons c arg ih =>
    rw [List.flatMap_cons, List.append_assoc] at hDrop
    by_cases hQuote : c = '\''
    · rw [quoteChar, if_pos hQuote] at hDrop
      rw [hQuote]
      refine (takes_single hDrop hPre).trans ?_
      intro t hBack
      have hOne := takes_backslash hBack
      refine hOne.trans ?_
      intro u hAgain
      exact ih hAgain List.not_mem_nil
    · rw [quoteChar, if_neg hQuote] at hDrop
      have hMore : '\'' ∉ pre ++ [c] := by
        rw [List.mem_append, List.mem_singleton]
        rintro (hIn | rfl)
        · exact hPre hIn
        · exact hQuote rfl
      rw [← List.append_assoc] at hDrop
      have hTakes := ih hDrop hMore
      rw [List.append_assoc] at hTakes
      exact hTakes

theorem takes_safe
    (hDrop : chars.drop s.i = c :: (arg ++ rest))
    (hSafe : (c :: arg).all isSafe = true) :
    Takes chars s (c :: arg) rest := by
  induction arg generalizing s c with
  | nil =>
    rw [List.all_cons, Bool.and_eq_true] at hSafe
    exact takes_letter hDrop hSafe.1
  | cons d arg ih =>
    rw [List.all_cons, Bool.and_eq_true] at hSafe
    have hOne := takes_letter hDrop hSafe.1
    exact hOne.trans fun t hNext => ih hNext hSafe.2

/- The tokeniser reads a quoted argument as its text. -/
theorem takes_quoteArg
    (hDrop : chars.drop s.i = quoteArg arg ++ rest) :
    Takes chars s arg rest := by
  unfold quoteArg at hDrop
  split at hDrop
  next hSafe =>
    cases arg with
    | nil => cases hSafe
    | cons c arg => exact takes_safe hDrop (Bool.and_eq_true_iff.mp hSafe).2
  next =>
    have hQuoted : Takes chars s ([] ++ arg) rest := by
      have hEmpty : '\'' ∉ ([] : Text) := List.not_mem_nil
      refine takes_quoted ?_ hEmpty
      simpa using hDrop
    exact hQuoted

-- Reading A Joined List

def plainCommand (words : List Text) : SimpleCommand where
  words := words
  redirects := []
  heredocs := []
  heredocExpands := []
  pipeline := 0

/- One command of these words, and no word begun. -/
structure Ready (s : State) (words : List Text) : Prop where
  out : s.out = [plainCommand words]
  word : s.word = []
  inWord : s.inWord = false
  complete : s.complete = true
  heredocs : s.heredocs = []
  target : s.target = false

variable {words args : List Text}

theorem endWord_reads
    (hReady : Ready s words) (hReads : Reads s t arg) :
    Ready t.endWord (words ++ [arg]) := by
  have hWord := hReads.word
  rw [hReady.word, List.nil_append] at hWord
  have hOut := hReads.out.trans hReady.out
  have hTarget := hReads.target.trans hReady.target
  unfold State.endWord State.changeLast
  simp only [hReads.inWord, hOut, hTarget, if_true,
    List.cons_ne_nil, if_false, Bool.false_eq_true, hWord]
  constructor
  case out => rfl
  case word => rfl
  case inWord => rfl
  case complete => exact hReads.complete.trans hReady.complete
  case heredocs => exact hReads.heredocs.trans hReady.heredocs
  case target => rfl

theorem finish_of_ready
    (hReady : Ready t.endWord words) (hSome : words ≠ []) :
    finish t = ⟨[plainCommand words], true⟩ := by
  unfold finish State.endCommand
  simp only [hReady.target, Bool.false_eq_true, if_false,
    hReady.out, hReady.heredocs, hReady.complete]
  cases words with
  | nil => exact absurd rfl hSome
  | cons word words => rfl

theorem ends_of_drop (hDrop : chars.drop s.i = []) :
    Ends (step chars) s s := by
  have hEnd := List.drop_eq_nil_iff.mp hDrop
  refine .last ?_
  unfold step
  rw [if_neg (Nat.not_lt.mpr hEnd)]
  rfl

theorem joinArgv_cons_cons
    (arg next : Text) (args : List Text) :
    joinArgv (arg :: next :: args) =
      quoteArg arg ++ ' ' :: joinArgv (next :: args) := by
  unfold joinArgv
  rw [List.map_cons, List.map_cons,
    List.intercalate_cons_cons, List.append_assoc]
  rfl

theorem armOf_space (chars : Text) (s : State) :
    armOf chars s ' ' = .whitespace := by
  simp [armOf, grave, isWhitespace]

theorem ends_joinArgv
    (hReady : Ready s words)
    (hDrop : chars.drop s.i = joinArgv (arg :: args)) :
    ∃ b, Ends (step chars) s b ∧
      finish b = ⟨[plainCommand (words ++ arg :: args)], true⟩ := by
  induction args generalizing s words arg with
  | nil =>
    have hArg : chars.drop s.i = quoteArg arg ++ [] := by
      rw [hDrop, List.append_nil]
      exact List.intercalate_singleton
    rcases takes_quoteArg hArg with ⟨t, hLeads, hReads, hEnd⟩
    refine ⟨t, hLeads (ends_of_drop hEnd), ?_⟩
    exact finish_of_ready (endWord_reads hReady hReads)
      (List.append_ne_nil_of_right_ne_nil _ (List.cons_ne_nil _ _))
  | cons next args ih =>
    rw [joinArgv_cons_cons] at hDrop
    rcases takes_quoteArg hDrop with ⟨t, hLeads, hReads, hSpace⟩
    have hRun : runArm chars t ' ' (armOf chars t ' ') =
        .ok (t.endWord.goto (t.i + 1) true) := by
      rw [armOf_space]
      rfl
    have hWord := endWord_reads hReady hReads
    have hNext : Ready (t.endWord.goto (t.i + 1) true) (words ++ [arg]) :=
      ⟨hWord.out, hWord.word, hWord.inWord,
        (Bool.and_true _).trans hWord.complete,
        hWord.heredocs, hWord.target⟩
    rcases ih hNext (drop_succ_of_drop hSpace) with ⟨b, hEnds, hFinish⟩
    rw [List.append_assoc] at hFinish
    exact ⟨b, hLeads (step_of_drop hSpace hRun hEnds), hFinish⟩

theorem tokenise_of_ends
    (hEnds : Ends (step chars) start s) :
    tokenise chars = .ok (finish s) := by
  rcases scanned_ok chars with ⟨b, hScanned, _⟩
  have hSame := (ends_of_loop hScanned).unique hEnds
  unfold tokenise
  rw [hScanned, hSame]
  rfl

end Shell

-- No Substitution In It

namespace TailFollow

open Base Shell

variable {chars rest pre arg : Text}
variable {s t : Cursor}
variable {c : Char}
variable {args : List Text}

/- `s` leads outside of quotes before `rest`, finding nothing. -/
def Passes (chars : Text) (s : Cursor) (rest : Text) : Prop :=
  ∃ t, (∀ {b}, Ends (step chars) t b → Ends (step chars) s b) ∧
    t.inDouble = false ∧ t.bodies = s.bodies ∧
    chars.drop t.i = rest

theorem Passes.trans
    {rest' : Text} (hLeft : Passes chars s rest)
    (hRight : ∀ t : Cursor, t.inDouble = false →
      chars.drop t.i = rest → Passes chars t rest') :
    Passes chars s rest' := by
  rcases hLeft with ⟨t, hLeads, hOut, hBodies, hDrop⟩
  rcases hRight t hOut hDrop with ⟨u, hLeads', hOut', hBodies', hDrop'⟩
  exact ⟨u, fun hEnds => hLeads (hLeads' hEnds), hOut',
    hBodies'.trans hBodies, hDrop'⟩

theorem passes_single
    (hOut : s.inDouble = false)
    (hDrop : chars.drop s.i = '\'' :: (pre ++ '\'' :: rest))
    (hPre : '\'' ∉ pre) :
    Passes chars s rest := by
  have hNext := drop_succ_of_drop hDrop
  have hClose := drop_of_drop hNext
  have hStep : step chars s =
      .ok (.inl ((s.skip .single (s.i + 1 + pre.length)).goto
        (s.i + 1 + pre.length + 1))) := by
    have hi := lt_of_drop hDrop
    rw [step_of_lt hi, getElem_of_drop hDrop hi]
    unfold arm
    simp [hOut, skipTo_eq, before_of_drop hNext hPre, grave]
  exact ⟨_, fun hEnds => .next hStep hEnds, hOut, rfl,
    drop_succ_of_drop hClose⟩

theorem passes_backslash
    (hOut : s.inDouble = false) (hDrop : chars.drop s.i = '\\' :: c :: rest) :
    Passes chars s rest := by
  have hStep : step chars s = .ok (.inl (s.goto (s.i + 2))) := by
    have hi := lt_of_drop hDrop
    rw [step_of_lt hi, getElem_of_drop hDrop hi]
    unfold arm
    rfl
  exact ⟨_, fun hEnds => .next hStep hEnds, hOut, rfl,
    drop_succ_of_drop (drop_succ_of_drop hDrop)⟩

theorem passes_letter
    (hOut : s.inDouble = false) (hDrop : chars.drop s.i = c :: rest)
    (hPlain : isSafe c = true ∨ c = ' ') :
    Passes chars s rest := by
  have hNe : ∀ d, isSafe d = false → d ≠ ' ' → c ≠ d := by
    intro d hUnsafe hSpace
    rcases hPlain with hSafe | rfl
    · exact ne_of_isSafe hSafe hUnsafe
    · exact hSpace.symm
  have hStep : step chars s = .ok (.inl (s.goto (s.i + 1))) := by
    have hi := lt_of_drop hDrop
    rw [step_of_lt hi, getElem_of_drop hDrop hi]
    unfold arm
    simp [hOut, hNe '\'' (by decide) (by decide),
      hNe '$' (by decide) (by decide),
      hNe '"' (by decide) (by decide),
      hNe '\\' (by decide) (by decide),
      hNe grave (by decide) (by decide),
      hNe '#' (by decide) (by decide),
      hNe '<' (by decide) (by decide),
      hNe '\n' (by decide) (by decide)]
  exact ⟨_, fun hEnds => .next hStep hEnds, hOut, rfl,
    drop_succ_of_drop hDrop⟩

theorem passes_quoted
    (hOut : s.inDouble = false)
    (hDrop : chars.drop s.i =
      '\'' :: (pre ++ (arg.flatMap quoteChar ++ '\'' :: rest)))
    (hPre : '\'' ∉ pre) :
    Passes chars s rest := by
  induction arg generalizing s pre with
  | nil => exact passes_single hOut hDrop hPre
  | cons c arg ih =>
    rw [List.flatMap_cons, List.append_assoc] at hDrop
    by_cases hQuote : c = '\''
    · rw [quoteChar, if_pos hQuote] at hDrop
      refine (passes_single hOut hDrop hPre).trans ?_
      intro t hOutside hBack
      refine (passes_backslash hOutside hBack).trans ?_
      intro u hAgain hNext
      exact ih hAgain hNext List.not_mem_nil
    · rw [quoteChar, if_neg hQuote, ← List.append_assoc]
        at hDrop
      apply ih hOut hDrop
      rw [List.mem_append, List.mem_singleton]
      rintro (hIn | rfl)
      · exact hPre hIn
      · exact hQuote rfl

theorem passes_safe
    (hOut : s.inDouble = false) (hDrop : chars.drop s.i = arg ++ rest)
    (hSafe : arg.all isSafe = true) :
    Passes chars s rest := by
  induction arg generalizing s with
  | nil => exact ⟨s, id, hOut, rfl, hDrop⟩
  | cons c arg ih =>
    rw [List.all_cons, Bool.and_eq_true] at hSafe
    refine (passes_letter hOut hDrop (.inl hSafe.1)).trans ?_
    intro t hOutside hNext
    exact ih hOutside hNext hSafe.2

theorem passes_quoteArg
    (hOut : s.inDouble = false)
    (hDrop : chars.drop s.i = quoteArg arg ++ rest) :
    Passes chars s rest := by
  unfold quoteArg at hDrop
  split at hDrop
  next hSafe =>
    exact passes_safe hOut hDrop (Bool.and_eq_true_iff.mp hSafe).2
  next =>
    have hEmpty : '\'' ∉ ([] : Text) := List.not_mem_nil
    have hQuoted : chars.drop s.i =
        '\'' :: ([] ++ (arg.flatMap quoteChar ++ '\'' :: rest)) := by
      simpa using hDrop
    exact passes_quoted hOut hQuoted hEmpty

theorem passes_joinArgv
    (hOut : s.inDouble = false)
    (hDrop : chars.drop s.i = joinArgv (arg :: args)) :
    Passes chars s [] := by
  induction args generalizing s arg with
  | nil =>
    apply passes_quoteArg hOut
    rw [hDrop, List.append_nil]
    exact List.intercalate_singleton
  | cons next args ih =>
    rw [joinArgv_cons_cons] at hDrop
    refine (passes_quoteArg hOut hDrop).trans ?_
    intro t hOutside hSpace
    refine (passes_letter hOutside hSpace (.inr rfl)).trans ?_
    intro u hAgain hNext
    exact ih hAgain hNext

theorem substitutionBodies_joinArgv
    (arg : Text) (args : List Text) :
    substitutionBodies (joinArgv (arg :: args)) = .ok [] := by
  have hStart :
      (joinArgv (arg :: args)).drop start.i =
        joinArgv (arg :: args) := List.drop_zero
  rcases passes_joinArgv rfl hStart with ⟨t, hLeads, _, hBodies, hDrop⟩
  have hLast : Ends (step (joinArgv (arg :: args))) t t := by
    refine .last ?_
    unfold step
    rw [if_neg (Nat.not_lt.mpr (List.drop_eq_nil_iff.mp hDrop))]
    rfl
  rcases scanned_ok (joinArgv (arg :: args)) with ⟨b, hScanned⟩
  have hSame := (ends_of_loop hScanned).unique (hLeads hLast)
  unfold substitutionBodies
  rw [hScanned, Checked.ok_bind, hSame, hBodies]
  rfl

/- Quoting and joining arguments is undone by tokenising. -/
theorem tokenise_joinArgv
    (args : List Text) (hSome : args ≠ []) :
    (∃ cmd, tokenise (joinArgv args) = .ok ⟨[cmd], true⟩ ∧
      cmd.words = args ∧ cmd.redirects = [] ∧
      cmd.heredocs = []) ∧
    substitutionBodies (joinArgv args) = .ok [] := by
  cases args with
  | nil => exact absurd rfl hSome
  | cons arg args =>
    refine ⟨⟨plainCommand (arg :: args), ?_, rfl, rfl, rfl⟩,
      substitutionBodies_joinArgv arg args⟩
    have hReady : Ready Shell.start [] := ⟨rfl, rfl, rfl, rfl, rfl, rfl⟩
    have hStart :
        (joinArgv (arg :: args)).drop Shell.start.i =
          joinArgv (arg :: args) := List.drop_zero
    rcases ends_joinArgv hReady hStart with ⟨b, hEnds, hFinish⟩
    rw [tokenise_of_ends hEnds, hFinish]
    rfl

theorem tokenise_joinArgv_quote :
    (∃ cmd, tokenise (joinArgv ["it's".toList, []]) = .ok ⟨[cmd], true⟩ ∧
      cmd.words = ["it's".toList, []] ∧ cmd.redirects = [] ∧
      cmd.heredocs = []) ∧
    substitutionBodies (joinArgv ["it's".toList, []]) = .ok [] :=
  tokenise_joinArgv ["it's".toList, []] (List.cons_ne_nil _ _)

end TailFollow
