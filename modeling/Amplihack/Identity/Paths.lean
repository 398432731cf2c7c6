import Amplihack.Identity.Parsers
import Mathlib.Data.List.TakeWhile

/-
  The path of a URL is read alike in bash and in Rust.
-/

-- Suffixes And Segments

namespace Identity

open Base

theorem stripSuffix_append (suffix text : Text) :
    stripSuffix suffix (text ++ suffix) = text := by
  unfold stripSuffix
  rw [dropSuffix?_iff.mpr rfl]
  rfl

variable {suffix text : Text}

theorem stripSuffix_of_not
    (hNot : ∀ p, text ≠ p ++ suffix) :
    stripSuffix suffix text = text := by
  unfold stripSuffix
  cases hDrop : text.dropSuffix? suffix with
  | none => rfl
  | some p => exact absurd (dropSuffix?_iff.mp hDrop) (hNot p)

/- The text ends in the suffix that is cut, or is left. -/
theorem stripSuffix_cases (suffix text : Text) :
    text = stripSuffix suffix text ++ suffix ∨
      stripSuffix suffix text = text ∧ ∀ p, text ≠ p ++ suffix := by
  cases hDrop : text.dropSuffix? suffix with
  | none =>
    have hNot : ∀ p, text ≠ p ++ suffix := by
      intro p hSplit
      rw [dropSuffix?_iff.mpr hSplit] at hDrop
      cases hDrop
    exact Or.inr ⟨stripSuffix_of_not hNot, hNot⟩
  | some p =>
    have hSplit := dropSuffix?_iff.mp hDrop
    refine Or.inl ?_
    rw [hSplit, stripSuffix_append]

theorem matchesPrNumber_eq (number : Text) :
    matchesPrNumber number = isPrNumber number := by
  cases number with
  | nil => rfl
  | cons d ds =>
    rw [Bool.eq_iff_iff]
    unfold matchesPrNumber isPrNumber
    simp only [Bool.and_eq_true, decide_eq_true_eq,
      bne_iff_ne, List.length_cons, List.head?_cons,
      List.all_cons, ne_eq, Option.some.injEq]
    constructor
    · rintro ⟨⟨⟨hDigit, hZero⟩, hShort⟩, hAll⟩
      exact ⟨⟨⟨by omega, by omega⟩, hZero⟩, hDigit, hAll⟩
    · rintro ⟨⟨⟨-, hShort⟩, hZero⟩, hDigit, hAll⟩
      exact ⟨⟨⟨hDigit, hZero⟩, by omega⟩, hAll⟩

theorem not_mem_of_isPrNumber
    {number : Text} (hNumber : isPrNumber number = true) :
    '/' ∉ number := by
  unfold isPrNumber at hNumber
  rw [Bool.and_eq_true, List.all_eq_true] at hNumber
  intro hMem
  exact absurd (hNumber.2 '/' hMem) (by decide)

theorem repoOf_eq (rest : Text) :
    repoOf rest = nameOf ((rest.splitOn '/').headD [])
      (rest.splitOn '/').tail := by
  unfold repoOf
  cases hCut : rest.dropInfix? ['/'] with
  | none =>
    rw [splitOn_of_dropInfix?_none hCut]
    rfl
  | some pair =>
    rw [splitOn_of_dropInfix? hCut]
    change _ = nameOf pair.1 (pair.2.splitOn '/')
    dsimp only
    cases hPull : pair.2.dropPrefix? "pull/".toList with
    | none =>
      -- whatever two parts follow, the first is not `pull`
      dsimp only
      unfold nameOf
      split
      next hNil => exact absurd hNil (List.splitOn_ne_nil _ _)
      next pull number hPair =>
        rw [if_neg]
        intro hAll
        simp only [Bool.and_eq_true, beq_iff_eq] at hAll
        obtain ⟨hSplit, -⟩ := splitOn_eq_pair_iff.mp hPair
        rw [hAll.1.1] at hSplit
        have hPrefix : pair.2.dropPrefix? "pull/".toList =
            some number := dropPrefix?_iff.mpr hSplit
        rw [hPull] at hPrefix
        cases hPrefix
      next => rfl
    | some number =>
      dsimp only
      rw [matchesPrNumber_eq]
      cases hNumber : isPrNumber number with
      | true =>
        have hPair : pair.2.splitOn '/' = ["pull".toList, number] :=
          splitOn_eq_pair_iff.mpr
            ⟨(dropPrefix?_iff.mp hPull).trans rfl,
              by decide, not_mem_of_isPrNumber hNumber⟩
        rw [hPair]
        change _ = if "pull".toList == "pull".toList &&
            isPrNumber number &&
              !endsWith ".git".toList pair.1 then
          some pair.1 else none
        rw [hNumber]
        rfl
      | false =>
        rw [if_neg (by simp)]
        unfold nameOf
        split
        next hNil =>
          exact absurd hNil (List.splitOn_ne_nil _ _)
        next pull other hPair =>
          rw [if_neg]
          intro hAll
          simp only [Bool.and_eq_true, beq_iff_eq] at hAll
          obtain ⟨hSplit, -⟩ := splitOn_eq_pair_iff.mp hPair
          rw [hAll.1.1] at hSplit
          have hPrefix : pair.2.dropPrefix? "pull/".toList = some other :=
            dropPrefix?_iff.mpr hSplit
          rw [hPull] at hPrefix
          cases hPrefix
          rw [hNumber] at hAll
          cases hAll.1.2
        next => rfl

-- Paths

theorem isOwner_eq (owner : Text) :
    isOwner owner = (isIdentitySegment owner && owner.head? != some '-') := by
  unfold isOwner isIdentitySegment
  cases owner.isEmpty <;> cases (owner != ['.']) <;>
    cases (owner != ['.', '.']) <;>
    cases owner.all isSegmentChar <;>
    cases (owner.head? != some '-') <;> rfl

theorem isRepo_eq (repo : Text) :
    isRepo repo = isIdentitySegment repo := by
  unfold isRepo isIdentitySegment
  cases repo.isEmpty <;> cases (repo != ['.']) <;>
    cases (repo != ['.', '.']) <;>
    cases repo.all isSegmentChar <;> rfl

theorem takeWhile_cut (path : Text) :
    (path.takeWhile (· != '?')).takeWhile (· != '#') =
      path.takeWhile fun c => c != '?' && c != '#' := by
  induction path with
  | nil => rfl
  | cons c path ih =>
    rw [List.takeWhile_cons, List.takeWhile_cons]
    cases hQuery : c != '?' with
    | false => rfl
    | true =>
      rw [if_pos rfl, List.takeWhile_cons, ih]
      rfl

/- Bash and Rust read the same identity off a path. -/
theorem identityOfPath_eq (path : Text) :
    identityOfPath path = (githubOwnerName path).map fun pair =>
      pair.1 ++ '/' :: pair.2 := by
  unfold identityOfPath githubOwnerName
  dsimp only
  rw [takeWhile_cut]
  generalize stripSuffix ['/'] (path.takeWhile fun c =>
    c != '?' && c != '#') = whole
  cases hCut : whole.dropInfix? ['/'] with
  | none =>
    rw [splitOn_of_dropInfix?_none hCut]
    dsimp only
    split
    · rfl
    · rfl
  | some pair =>
    rw [splitOn_of_dropInfix? hCut]
    dsimp only
    rw [← repoOf_eq, isOwner_eq]
    cases repoOf pair.2 with
    | none =>
      dsimp only
      rw [ite_self]
      rfl
    | some repo =>
      dsimp only
      rw [isRepo_eq]
      cases isIdentitySegment pair.1 &&
          pair.1.head? != some '-' with
      | false => rfl
      | true =>
        cases isIdentitySegment repo with
        | false => rfl
        | true => rfl

-- Paths Of Two Segments

variable {c : Char}

theorem not_mem_of_all
    (hAll : text.all isSegmentChar = true) (hNot : isSegmentChar c = false) :
    c ∉ text := by
  intro hMem
  rw [List.all_eq_true] at hAll
  rw [hAll c hMem] at hNot
  cases hNot

/- A suffix without the slash is that of the repo. -/
theorem stripSuffix_behind
    (hSlash : '/' ∉ suffix) (owner repo : Text) :
    stripSuffix suffix (owner ++ '/' :: repo) =
      owner ++ '/' :: stripSuffix suffix repo := by
  rcases stripSuffix_cases suffix repo with hEnds | ⟨hSame, hNot⟩
  · have hWhole : owner ++ '/' :: repo =
        (owner ++ '/' :: stripSuffix suffix repo) ++ suffix := by
      rw [List.append_assoc, List.cons_append, ← hEnds]
    rw [hWhole, stripSuffix_append]
  · rw [hSame]
    apply stripSuffix_of_not
    intro p hSplit
    have hLeft : suffix <:+ owner ++ '/' :: repo := ⟨p, hSplit.symm⟩
    have hRight : '/' :: repo <:+ owner ++ '/' :: repo :=
      List.suffix_append _ _
    rcases List.suffix_or_suffix_of_suffix hLeft hRight with
      hShort | hLong
    · rcases List.suffix_cons_iff.mp hShort with hAll | hRepo
      · exact hSlash (by rw [hAll]; exact List.mem_cons_self)
      · obtain ⟨q, hQ⟩ := hRepo
        exact hNot q hQ.symm
    · exact hSlash (hLong.subset List.mem_cons_self)

variable {owner repo : Text}

/- A path without a query, a fragment or a last slash. -/
theorem identityOfPath_plain
    (hPlain : ∀ c ∈ owner ++ '/' :: repo, c ≠ '?' ∧ c ≠ '#')
    (hOwner : '/' ∉ owner) (hRepo : '/' ∉ repo) (hSome : repo ≠ []) :
    identityOfPath (owner ++ '/' :: repo) =
      if isOwner owner && isRepo (stripSuffix ".git".toList repo)
        then some (owner ++ '/' :: stripSuffix ".git".toList repo)
      else none := by
  have hQuery : (owner ++ '/' :: repo).takeWhile (· != '?') =
      owner ++ '/' :: repo := by
    rw [List.takeWhile_eq_self_iff]
    intro c hC
    exact bne_iff_ne.mpr (hPlain c hC).1
  have hFragment : (owner ++ '/' :: repo).takeWhile (· != '#') =
      owner ++ '/' :: repo := by
    rw [List.takeWhile_eq_self_iff]
    intro c hC
    exact bne_iff_ne.mpr (hPlain c hC).2
  have hSlash : stripSuffix ['/'] (owner ++ '/' :: repo) =
      owner ++ '/' :: repo := by
    apply stripSuffix_of_not
    intro p hSplit
    have hLeft : ['/'] <:+ owner ++ '/' :: repo := ⟨p, hSplit.symm⟩
    have hRight : repo <:+ owner ++ '/' :: repo :=
      ⟨owner ++ ['/'], by simp⟩
    have hEnds := List.suffix_of_suffix_length_le hLeft hRight
      (List.length_pos_of_ne_nil hSome)
    exact hRepo (hEnds.subset List.mem_cons_self)
  unfold identityOfPath
  dsimp only
  rw [hQuery, hFragment, hSlash, dropInfix?_singleton_iff.mpr ⟨rfl, hOwner⟩]
  dsimp only
  unfold repoOf
  rw [dropInfix?_singleton_eq_none_iff.mpr hRepo]

theorem isSegment_of_isIdentitySegment
    {value : Text} (hSegment : isIdentitySegment value = true) :
    value ≠ [] ∧ value.all isSegmentChar = true := by
  unfold isIdentitySegment at hSegment
  simp only [Bool.and_eq_true, Bool.not_eq_true',
    List.isEmpty_eq_false_iff] at hSegment
  exact ⟨hSegment.1.1.1, hSegment.2⟩

theorem isValidGithubSegment_eq (segment : Text) :
    isValidGithubSegment segment = isIdentitySegment segment :=
  rfl

theorem all_of_stripSuffix
    (hAll : (stripSuffix ".git".toList repo).all isSegmentChar = true) :
    repo.all isSegmentChar = true := by
  rcases stripSuffix_cases ".git".toList repo with
    hEnds | ⟨hSame, -⟩
  · rw [hEnds, List.all_append, hAll]
    decide
  · rw [hSame] at hAll
    exact hAll

/- A path of segment characters and one slash. -/
theorem identityOfPath_two
    (hOwner : owner.all isSegmentChar = true)
    (hRepo : repo.all isSegmentChar = true) (hSome : repo ≠ []) :
    identityOfPath (owner ++ '/' :: repo) =
      if isOwner owner && isRepo (stripSuffix ".git".toList repo)
        then some (owner ++ '/' :: stripSuffix ".git".toList repo)
      else none := by
  refine identityOfPath_plain ?_
    (not_mem_of_all hOwner (by decide))
    (not_mem_of_all hRepo (by decide)) hSome
  intro c hC
  constructor
  · rintro rfl
    rcases List.mem_append.mp hC with hIn | hIn
    · exact not_mem_of_all hOwner (by decide) hIn
    · rcases List.mem_cons.mp hIn with hSlash | hLater
      · exact absurd hSlash (by decide)
      · exact not_mem_of_all hRepo (by decide) hLater
  · rintro rfl
    rcases List.mem_append.mp hC with hIn | hIn
    · exact not_mem_of_all hOwner (by decide) hIn
    · rcases List.mem_cons.mp hIn with hSlash | hLater
      · exact absurd hSlash (by decide)
      · exact not_mem_of_all hRepo (by decide) hLater

/- What the checkout of the CLI accepts, taken apart. -/
theorem ownerAndName_eq_some_iff {text owner name : Text} :
    ownerAndName text = some (owner, name) ↔
      ∃ repo, text = owner ++ '/' :: repo ∧
        stripSuffix ".git".toList repo = name ∧
          isOwner owner = true ∧ isRepo name = true := by
  unfold ownerAndName
  constructor
  · intro hSome
    split at hSome
    next first second hSplit =>
      split at hSome
      next hValid =>
        cases hSome
        simp only [Bool.and_eq_true, isValidGithubSegment_eq] at hValid
        obtain ⟨hWhole, hOwner, hName⟩ :=
          splitOn_eq_pair_iff.mp hSplit
        have hFirst : isOwner owner = true := by
          rw [isOwner_eq, hValid.1.2, hValid.1.1]
          rfl
        have hSecond : isRepo name = true := by
          rw [isRepo_eq]
          exact hValid.2
        rcases stripSuffix_cases ".git".toList text with
          hEnds | ⟨hSame, hNot⟩
        · rw [hWhole] at hEnds
          refine ⟨name ++ ".git".toList, ?_,
            stripSuffix_append _ _, hFirst, hSecond⟩
          rw [hEnds, List.append_assoc]
          rfl
        · rw [hSame] at hWhole
          refine ⟨name, hWhole, stripSuffix_of_not ?_, hFirst, hSecond⟩
          intro p hP
          refine hNot (owner ++ '/' :: p) ?_
          rw [hWhole, hP, List.append_assoc]
          rfl
      next => cases hSome
    next => cases hSome
  · rintro ⟨repo, rfl, rfl, hOwner, hRepo⟩
    rw [isOwner_eq, Bool.and_eq_true] at hOwner
    rw [isRepo_eq] at hRepo
    have hFirst := isSegment_of_isIdentitySegment hOwner.1
    have hSecond := isSegment_of_isIdentitySegment hRepo
    have hSplit : (stripSuffix ".git".toList
        (owner ++ '/' :: repo)).splitOn '/' =
          [owner, stripSuffix ".git".toList repo] := by
      rw [stripSuffix_behind (by decide), splitOn_eq_pair_iff]
      exact ⟨rfl, not_mem_of_all hFirst.2 (by decide),
        not_mem_of_all hSecond.2 (by decide)⟩
    rw [hSplit]
    dsimp only
    rw [isValidGithubSegment_eq, isValidGithubSegment_eq,
      hOwner.1, hOwner.2, hRepo]
    rfl

theorem identityOfPath_of_ownerAndName
    {text owner name : Text}
    (hSome : ownerAndName text = some (owner, name)) :
    identityOfPath text = some (owner ++ '/' :: name) := by
  obtain ⟨repo, rfl, rfl, hOwner, hRepo⟩ :=
    ownerAndName_eq_some_iff.mp hSome
  have hFirst := hOwner
  rw [isOwner_eq, Bool.and_eq_true] at hFirst
  have hSecond := hRepo
  rw [isRepo_eq] at hSecond
  have hAll := all_of_stripSuffix (isSegment_of_isIdentitySegment hSecond).2
  have hNe : repo ≠ [] := by
    rintro rfl
    exact absurd hRepo (by decide)
  rw [identityOfPath_two (isSegment_of_isIdentitySegment hFirst.1).2 hAll hNe,
    hOwner, hRepo]
  rfl

theorem stripSuffix_cons
    {suffix rest : Text} (hNe : c :: rest ≠ suffix) :
    stripSuffix suffix (c :: rest) = c :: stripSuffix suffix rest := by
  rcases stripSuffix_cases suffix rest with hEnds | ⟨hSame, hNot⟩
  · have hWhole : c :: rest = (c :: stripSuffix suffix rest) ++ suffix := by
      rw [List.cons_append, ← hEnds]
    rw [hWhole, stripSuffix_append]
  · rw [hSame]
    apply stripSuffix_of_not
    intro p hSplit
    cases p with
    | nil => exact hNe hSplit
    | cons d p => exact hNot p (List.cons.inj hSplit).2

/- The shortest match takes a `.git` off what is longer. -/
theorem lazyName_eq
    (hSome : repo ≠ []) :
    lazyName repo = some
      (if repo = ".git".toList then repo
      else stripSuffix ".git".toList repo) := by
  induction repo with
  | nil => exact absurd rfl hSome
  | cons c rest ih =>
    unfold lazyName
    split
    next hEnd =>
      rw [Bool.or_eq_true, beq_iff_eq, beq_iff_eq] at hEnd
      rcases hEnd with rfl | rfl
      · rw [if_neg (fun hEq => by cases hEq),
          stripSuffix_cons (fun hEq => by cases hEq)]
        rfl
      · rw [if_neg (fun hEq => by cases hEq)]
        exact congrArg some (stripSuffix_append _ [c]).symm
    next hMore =>
      rw [Bool.or_eq_true, beq_iff_eq, beq_iff_eq, not_or] at hMore
      rw [ih hMore.1, if_neg hMore.2]
      by_cases hGit : c :: rest = ".git".toList
      · rw [if_pos hGit]
        obtain ⟨rfl, rfl⟩ := List.cons.inj hGit
        rfl
      · rw [if_neg hGit, stripSuffix_cons hGit]
        rfl

/- What the two expressions with a `.git` accept. -/
theorem captured_eq_some_iff {text owner name : Text} :
    captured text = some (owner, name) ↔
      ∃ repo, text = owner ++ '/' :: repo ∧
        owner ≠ [] ∧ owner.all isSegmentChar = true ∧
          repo ≠ [] ∧ repo.all isSegmentChar = true ∧
            name = if repo = ".git".toList then repo
              else stripSuffix ".git".toList repo := by
  unfold captured twoSegments
  constructor
  · intro hSome
    split at hSome
    next first repo hSplit =>
      split at hSome
      next hValid =>
        simp only [Bool.and_eq_true, Bool.not_eq_true',
          List.isEmpty_eq_false_iff] at hValid
        change (lazyName repo).map _ = _ at hSome
        rw [lazyName_eq hValid.1.2] at hSome
        cases hSome
        exact ⟨repo, (splitOn_eq_pair_iff.mp hSplit).1,
          hValid.1.1.1, hValid.1.1.2, hValid.1.2, hValid.2, rfl⟩
      next => cases hSome
    next => cases hSome
  · rintro ⟨repo, rfl, hOwner, hFirst, hRepo, hSecond, rfl⟩
    rw [splitOn_eq_pair_iff.mpr ⟨rfl, not_mem_of_all hFirst (by decide),
      not_mem_of_all hSecond (by decide)⟩]
    dsimp only
    rw [if_pos]
    · change (lazyName repo).map _ = _
      rw [lazyName_eq hRepo]
      rfl
    · simp [hOwner, hFirst, hRepo, hSecond]

end Identity
