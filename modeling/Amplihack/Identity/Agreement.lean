import Amplihack.Identity.Spelling

/-
  When the four parsers agree.
-/

-- What Is Promised

namespace Identity

open Base

/- The two starts that all parsers are told of. -/
def starts : List Text :=
  ["https://github.com/".toList, "git@github.com:".toList]

/-
  Rust accepts what bash does, bash accepts what Rust does in a
  plain spelling, and the two others accept no more.
-/
structure Meets (text : Text) : Prop where
  follows : ∀ id, parseGithubRepoIdentity text = some id →
    githubRepositoryFromRemoteUrl text = some id
  exempt : ∀ id, githubRepositoryFromRemoteUrl text = some id →
    parseGithubRepoIdentity text = none →
      ∃ plain, parseGithubRepoIdentity plain = some id ∧ Differs text plain
  checkout : (∃ start ∈ starts, start <+: text) →
    (∀ owner name, parseGithubRepoUri text = some (owner, name) →
      parseGithubRepoIdentity text = some (owner ++ '/' :: name)) ∧
      ∀ id, parseGithubUri text = some id →
        parseGithubRepoIdentity text = some id

/-
  What names a repository has no `://` behind `git@`, is spelled
  as a URL the parsers know, has no white space behind it, and
  no repository called just `.git`.
-/
structure Regular (text : Text) : Prop where
  noScheme : ∀ path, text = scp "git@".toList github path →
    (identityOfPath path).isSome → text.dropInfix? "://".toList = none
  spelled : ∀ parts, remoteUrlParts text = some parts →
    providerFromHost parts.host = .gitHub →
      (githubOwnerName parts.path).isSome → Spelled text
  unspaced : ∀ start ∈ starts, ∀ path space,
    text = start ++ path ++ space → space ≠ [] →
      space.all isWhiteSpace = true → ownerAndName path = none
  named : ∀ start ∈ starts, ∀ owner, isOwner owner = true →
    text ≠ start ++ (owner ++ '/' :: ".git".toList)

-- Rust And Bash

variable {text path id : Text}

theorem githubHost_github : GithubHost github where
  parts := ⟨[], github, [], by simp, Labels.none, rfl,
    Or.inl rfl⟩

theorem identity_iff :
    parseGithubRepoIdentity text = some id ↔
      ∃ path, Plain path text ∧ identityOfPath path = some id := by
  constructor
  · intro hSome
    unfold parseGithubRepoIdentity at hSome
    obtain ⟨path, hPath, hIdentity⟩ :=
      Option.bind_eq_some_iff.mp hSome
    exact ⟨path, pathOfUrl_plain hPath, hIdentity⟩
  · rintro ⟨path, hPlain, hIdentity⟩
    cases hPlain with
    | web hScheme hUser =>
      rw [parseGithubRepoIdentity_web hScheme hUser]
      exact hIdentity
    | ssh =>
      rw [parseGithubRepoIdentity_ssh]
      exact hIdentity
    | scp =>
      rw [parseGithubRepoIdentity_scp]
      exact hIdentity

theorem user_git : User "git@".toList :=
  Or.inr ⟨"git".toList, rfl, by decide, by decide⟩

variable {scheme : Text}

theorem isScheme_of_web
    (hScheme : Web scheme) :
    isScheme scheme = true := by
  rcases hScheme with rfl | rfl
  · decide
  · decide

theorem isScheme_of_lower
    {scheme lower : Text} (hLower : scheme.map Char.toLower = lower)
    (hAlpha : lower.all Char.isAlpha = true) (hSome : lower ≠ []) :
    isScheme scheme = true := by
  have hAll : ∀ c ∈ scheme, c.isAlpha = true :=
    fun c hC => isAlpha_of_map_toLower hLower hAlpha hC
  cases scheme with
  | nil => exact absurd hLower.symm hSome
  | cons c rest =>
    unfold isScheme
    rw [Bool.and_eq_true, List.all_eq_true]
    refine ⟨hAll c List.mem_cons_self, ?_⟩
    intro d hD
    unfold Char.isAlphanum
    rw [hAll d hD]
    rfl

theorem rust_of_plain
    (hRegular : Regular text) (hPlain : Plain path text)
    (hIdentity : identityOfPath path = some id) :
    githubRepositoryFromRemoteUrl text = some id := by
  cases hPlain with
  | web hScheme hUser =>
    rw [rust_url (isScheme_of_web hScheme) hUser
      githubHost_github (Or.inl rfl)]
    exact hIdentity
  | ssh =>
    rw [rust_url (by decide) user_git githubHost_github (Or.inl rfl)]
    exact hIdentity
  | scp =>
    have hNone := hRegular.noScheme path rfl (by
      rw [hIdentity]
      rfl)
    rw [rust_scp githubHost_github hNone]
    exact hIdentity

/- A spelling that Rust accepts is near a plain one. -/
theorem plain_of_spelled
    (hSpelled : Spelled text)
    (hRust : githubRepositoryFromRemoteUrl text = some id) :
    ∃ plain, parseGithubRepoIdentity plain = some id ∧
      Differs text plain := by
  cases hSpelled with
  | @web scheme user host port path hScheme hUser hHost hPort =>
    have hValid : isScheme scheme = true := by
      rcases hScheme with hLower | hLower
      · exact isScheme_of_lower hLower (by decide) (by decide)
      · exact isScheme_of_lower hLower (by decide) (by decide)
    have hWeb : Web (scheme.map Char.toLower) := hScheme
    rw [rust_url hValid hUser hHost hPort] at hRust
    refine ⟨_, ?_, Differs.url hValid rfl
      (isScheme_of_web hWeb) hUser hHost hPort⟩
    rw [parseGithubRepoIdentity_web hWeb hUser]
    exact hRust
  | @ssh scheme host port path hScheme hHost hPort =>
    have hValid : isScheme scheme = true :=
      isScheme_of_lower hScheme (by decide) (by decide)
    rw [rust_url hValid user_git hHost hPort] at hRust
    refine ⟨_, ?_, Differs.url hValid hScheme (by decide)
      user_git hHost hPort⟩
    rw [parseGithubRepoIdentity_ssh]
    exact hRust
  | @scp host path hHost =>
    refine ⟨_, ?_, Differs.scp user_git (by decide) hHost⟩
    rw [parseGithubRepoIdentity_scp]
    cases hCut : (scp "git@".toList host path).dropInfix?
        "://".toList with
    | none =>
      rw [rust_scp hHost hCut] at hRust
      exact hRust
    | some pair =>
      rw [rust_scp_of_scheme hHost hCut] at hRust
      cases hRust

theorem spelled_of_plain
    (hPlain : Plain path text) :
    Spelled text := by
  cases hPlain with
  | @web scheme user hScheme hUser =>
    refine Spelled.web ?_ hUser githubHost_github (Or.inl rfl)
    rcases hScheme with rfl | rfl
    · exact Or.inl rfl
    · exact Or.inr rfl
  | ssh => exact Spelled.ssh rfl githubHost_github (Or.inl rfl)
  | scp => exact Spelled.scp githubHost_github

/- The scheme and what follows it tell URLs apart. -/
theorem url_eq_url
    {scheme scheme' user user' : Text} {path path' : Text}
    (hScheme : ':' ∉ scheme) (hScheme' : ':' ∉ scheme')
    (hSame : url scheme user github [] path =
      url scheme' user' github [] path') :
    scheme = scheme' ∧
      user ++ github ++ [] ++ '/' :: path =
        user' ++ github ++ [] ++ '/' :: path' := by
  have hLeft : (url scheme user github [] path).dropInfix?
      "://".toList = some (scheme, user ++ github ++ [] ++ '/' :: path) :=
    dropInfix?_append hScheme _ _
  have hRight : (url scheme' user' github [] path').dropInfix?
      "://".toList = some (scheme', user' ++ github ++ [] ++ '/' :: path') :=
    dropInfix?_append hScheme' _ _
  rw [hSame, hRight] at hLeft
  exact ⟨(congrArg Prod.fst (Option.some.inj hLeft)).symm,
    (congrArg Prod.snd (Option.some.inj hLeft)).symm⟩

/- Before the host stands the user `git`, and no other. -/
theorem user_eq_git
    {user path path' : Text} (hUser : User user)
    (hSame : user ++ github ++ [] ++ '/' :: path =
      "git@".toList ++ github ++ [] ++ '/' :: path') :
    user = "git@".toList := by
  have hRight : ("git@".toList ++ github ++ [] ++
      '/' :: path').dropInfix? ['@'] =
        some ("git".toList, github ++ '/' :: path') :=
    dropInfix?_singleton_iff.mpr ⟨rfl, by decide⟩
  rcases hUser with rfl | ⟨name, rfl, -, hAll⟩
  · cases hSame
  · have hLeft : (name ++ ['@'] ++ github ++ [] ++
        '/' :: path).dropInfix? ['@'] = some (name, github ++ '/' :: path) :=
      dropInfix?_singleton_iff.mpr ⟨by simp,
        not_mem_of_isUserinfoChar hAll (by decide)⟩
    rw [hSame, hRight] at hLeft
    have hName : "git".toList = name :=
      congrArg Prod.fst (Option.some.inj hLeft)
    rw [← hName]
    rfl

theorem not_mem_of_web
    (hScheme : Web scheme) :
    ':' ∉ scheme :=
  not_mem_of_isScheme (isScheme_of_web hScheme) (by decide)

/- A text that differs from a plain one is spelled right. -/
theorem spelled_of_differs
    {plain : Text} (hDiffers : Differs text plain)
    (hPlain : Plain path plain) :
    Spelled text := by
  cases hDiffers with
  | @url scheme lower user host port rest hScheme hLower hOther
      hUser hHost hPort =>
      have hColon : ':' ∉ lower :=
        not_mem_of_isScheme hOther (by decide)
      generalize hWhole : url lower user github [] rest = whole
        at hPlain
      cases hPlain with
      | web hWeb hUser' =>
        obtain ⟨rfl, -⟩ := url_eq_url hColon (not_mem_of_web hWeb) hWhole
        rw [← hLower] at hWeb
        exact Spelled.web hWeb hUser hHost hPort
      | ssh =>
        obtain ⟨rfl, hSame⟩ := url_eq_url hColon (by decide) hWhole
        rw [user_eq_git hUser hSame]
        exact Spelled.ssh hLower hHost hPort
      | scp =>
        -- the scheme would hold the user's `@`
        have hLeft : (url lower user github [] rest).dropInfix?
            [':'] = some (lower, "//".toList ++
              (user ++ github ++ [] ++ '/' :: rest)) := by
          refine dropInfix?_singleton_iff.mpr ⟨?_, hColon⟩
          unfold url
          rw [List.append_assoc]
          rfl
        have hRight : (scp "git@".toList github path).dropInfix?
            [':'] = some ("git@github.com".toList, path) :=
          dropInfix?_singleton_iff.mpr ⟨rfl, by decide⟩
        rw [hWhole, hRight] at hLeft
        have hName : "git@github.com".toList = lower :=
          congrArg Prod.fst (Option.some.inj hLeft)
        rw [← hName] at hOther
        exact absurd hOther (by decide)
  | @scp user host rest hUser hColon hHost =>
    have hNot : ':' ∉ user ++ github := by
      intro hMem
      rcases List.mem_append.mp hMem with hIn | hIn
      · exact hColon hIn
      · exact absurd hIn (by decide)
    have hLeft : (scp user github rest).dropInfix? [':'] =
        some (user ++ github, rest) :=
      dropInfix?_singleton_iff.mpr ⟨rfl, hNot⟩
    -- a scheme does not end in the host
    have hUrl : ∀ scheme user' path' : Text, ':' ∉ scheme →
        scheme.getLast? ≠ some 'm' →
          scp user github rest ≠ url scheme user' github [] path' := by
      intro scheme user' path' hScheme hEnd hSame
      have hRight : (url scheme user' github []
          path').dropInfix? [':'] = some (scheme,
            "//".toList ++ (user' ++ github ++ [] ++ '/' :: path')) := by
        refine dropInfix?_singleton_iff.mpr ⟨?_, hScheme⟩
        unfold url
        rw [List.append_assoc]
        rfl
      rw [hSame, hRight] at hLeft
      have hFirst : scheme = user ++ github :=
        congrArg Prod.fst (Option.some.inj hLeft)
      refine hEnd ?_
      rw [hFirst, List.getLast?_append]
      rfl
    generalize hWhole : scp user github rest = whole at hPlain
    cases hPlain with
    | web hWeb hUser' =>
      refine absurd hWhole (hUrl _ _ _ (not_mem_of_web hWeb) ?_)
      rcases hWeb with rfl | rfl
      · decide
      · decide
    | ssh => exact absurd hWhole (hUrl _ _ _ (by decide) (by decide))
    | scp =>
      have hRight : (scp "git@".toList github
          path).dropInfix? [':'] = some ("git@".toList ++ github, path) :=
        dropInfix?_singleton_iff.mpr ⟨rfl, by decide⟩
      rw [hWhole, hRight] at hLeft
      have hFirst : "git@".toList ++ github = user ++ github :=
        congrArg Prod.fst (Option.some.inj hLeft)
      rw [← List.append_cancel_right hFirst]
      exact Spelled.scp hHost

-- The Parsers Of Checkouts

variable {start : Text}

/- White space behind a known start is cut off. -/
theorem trim_start
    (hStart : start ∈ starts) (path : Text) :
    trim (start ++ path) =
      start ++ (path.reverse.dropWhile isWhiteSpace).reverse := by
  have hFront : (start ++ path).dropWhile isWhiteSpace = start ++ path := by
    rcases List.mem_pair.mp hStart with rfl | rfl
    · rfl
    · rfl
  have hBack : start.reverse.dropWhile isWhiteSpace =
      start.reverse := by
    rcases List.mem_pair.mp hStart with rfl | rfl
    · rfl
    · rfl
  unfold trim
  rw [hFront, List.reverse_append, List.dropWhile_append]
  split
  next hNil =>
    rw [List.isEmpty_iff] at hNil
    rw [hNil, hBack, List.reverse_reverse]
    simp
  next => rw [List.reverse_append, List.reverse_reverse]

/- What the checkout of the CLI reads behind a known start. -/
theorem parseGithubRepoUri_start
    (hStart : start ∈ starts) (path : Text) :
    parseGithubRepoUri (start ++ path) = ownerAndName
      (path.reverse.dropWhile isWhiteSpace).reverse := by
  unfold parseGithubRepoUri
  rw [trim_start hStart]
  dsimp only
  rcases List.mem_pair.mp hStart with rfl | rfl
  · rw [dropPrefix?_iff.mpr rfl]
    rfl
  · have hOther : ("git@github.com:".toList ++ (path.reverse.dropWhile
        isWhiteSpace).reverse).dropPrefix?
          "https://github.com/".toList = none := rfl
    rw [hOther, dropPrefix?_iff.mpr rfl]
    rfl

theorem parseGithubUri_start
    (hStart : start ∈ starts) (path : Text) :
    parseGithubUri (start ++ path) = (captured path).bind
      fun pair => checkedOwnerRepo pair.1 pair.2 := by
  have hColon : ':' ∈ start ++ path := by
    rcases List.mem_pair.mp hStart with rfl | rfl
    · exact List.mem_append_left _ (by decide)
    · exact List.mem_append_left _ (by decide)
  have hSimple : twoSegments (start ++ path) = none := by
    unfold twoSegments
    split
    next owner repo hSplit =>
      rw [if_neg]
      intro hValid
      simp only [Bool.and_eq_true] at hValid
      rw [(splitOn_eq_pair_iff.mp hSplit).1] at hColon
      rcases List.mem_append.mp hColon with hIn | hIn
      · exact not_mem_of_all hValid.1.1.2 (by decide) hIn
      · rcases List.mem_cons.mp hIn with hSlash | hLater
        · exact absurd hSlash (by decide)
        · exact not_mem_of_all hValid.2 (by decide) hLater
    next => rfl
  unfold parseGithubUri
  rw [hSimple]
  rcases List.mem_pair.mp hStart with rfl | rfl
  · have hOther : ("https://github.com/".toList ++
        path).dropPrefix? "git@github.com:".toList = none := rfl
    rw [hOther, dropPrefix?_iff.mpr rfl]
    dsimp only [Option.bind_some, Option.bind_none]
    cases captured path with
    | none | some _ => rfl
  · have hOther : ("git@github.com:".toList ++
        path).dropPrefix? "https://github.com/".toList = none :=
      rfl
    rw [hOther, dropPrefix?_iff.mpr rfl]
    dsimp only [Option.bind_some, Option.bind_none]
    cases captured path with
    | none | some _ => rfl

theorem parseGithubRepoIdentity_start
    (hStart : start ∈ starts) (path : Text) :
    parseGithubRepoIdentity (start ++ path) = identityOfPath path := by
  rcases List.mem_pair.mp hStart with rfl | rfl
  · exact parseGithubRepoIdentity_web (Or.inl rfl) (Or.inl rfl) path
  · exact parseGithubRepoIdentity_scp path

theorem checkedOwnerRepo_eq_some
    {owner repo id : Text} (hOwner : owner ≠ [])
    (hAll : owner.all isSegmentChar = true)
    (hChecked : checkedOwnerRepo owner repo = some id) :
    isOwner owner = true ∧ repo ≠ ['.'] ∧ repo ≠ ['.', '.'] ∧
      id = owner ++ '/' :: repo := by
  unfold checkedOwnerRepo at hChecked
  split at hChecked
  next => cases hChecked
  next hNot =>
    cases hChecked
    simp only [Bool.or_eq_true, beq_iff_eq, not_or] at hNot
    refine ⟨?_, hNot.1.1.2, hNot.1.2, rfl⟩
    unfold isOwner
    simp only [Bool.and_eq_true, bne_iff_ne, Bool.not_eq_true',
      List.isEmpty_eq_false_iff]
    exact ⟨⟨⟨⟨hNot.1.1.1.1, hNot.1.1.1.2⟩, hNot.2⟩, hOwner⟩, hAll⟩

/- A name of segment characters that is not just dots. -/
theorem isRepo_of_ne
    {repo : Text} (hSome : repo ≠ [])
    (hAll : repo.all isSegmentChar = true) (hDot : repo ≠ ['.'])
    (hDots : repo ≠ ['.', '.']) :
    isRepo repo = true := by
  unfold isRepo
  simp only [Bool.and_eq_true, bne_iff_ne, Bool.not_eq_true',
    List.isEmpty_eq_false_iff]
  exact ⟨⟨⟨hDot, hDots⟩, hSome⟩, hAll⟩

variable {c : Char}

theorem toNat_of_isSegmentChar
    (hC : isSegmentChar c = true) :
    45 ≤ c.toNat ∧ c.toNat ≤ 122 := by
  unfold isSegmentChar at hC
  delta Char.isAlphanum Char.isAlpha Char.isUpper Char.isLower
    Char.isDigit at hC
  simp only [Bool.or_eq_true, Bool.and_eq_true, decide_eq_true_eq,
    UInt32.le_iff_toNat_le, ge_iff_le, beq_iff_eq] at hC
  change ((((65 ≤ c.toNat ∧ c.toNat ≤ 90 ∨
    97 ≤ c.toNat ∧ c.toNat ≤ 122) ∨
      48 ≤ c.toNat ∧ c.toNat ≤ 57) ∨ c = '.') ∨ c = '_') ∨ c = '-' at hC
  rcases hC with ((hAlnum | rfl) | rfl) | rfl
  · omega
  · decide
  · decide
  · decide

theorem not_space_of_isSegmentChar
    (hC : isSegmentChar c = true) :
    isWhiteSpace c = false := by
  have hRange := toNat_of_isSegmentChar hC
  have hBlank : c ≠ ' ' := by
    rintro rfl
    exact absurd hRange (by decide)
  unfold isWhiteSpace
  simp only [Bool.or_eq_false_iff, Bool.and_eq_false_iff,
    decide_eq_false_iff_not, beq_eq_false_iff_ne, ne_eq,
    hBlank, not_false_eq_true, and_true]
  omega

/- The launcher's parser reads what bash reads, but `.git`. -/
theorem parseGithubUri_follows
    (hStart : start ∈ starts) (hRegular : Regular (start ++ path))
    (hSome : parseGithubUri (start ++ path) = some id) :
    identityOfPath path = some id := by
  rw [parseGithubUri_start hStart] at hSome
  obtain ⟨⟨owner, name⟩, hCaptured, hChecked⟩ :=
    Option.bind_eq_some_iff.mp hSome
  obtain ⟨repo, rfl, hOwner, hFirst, hRepo, hSecond, hName⟩ :=
    captured_eq_some_iff.mp hCaptured
  obtain ⟨hValid, hDot, hDots, rfl⟩ :=
    checkedOwnerRepo_eq_some hOwner hFirst hChecked
  by_cases hGit : repo = ".git".toList
  · rw [hGit] at hRegular
    exact absurd rfl (hRegular.named start hStart owner hValid)
  · rw [if_neg hGit] at hName
    have hBoth : name ≠ [] ∧ name.all isSegmentChar = true := by
      rcases stripSuffix_cases ".git".toList repo with
        hEnds | ⟨hSame, -⟩
      · rw [← hName] at hEnds
        refine ⟨?_, ?_⟩
        · rintro rfl
          exact hGit hEnds
        · rw [hEnds, List.all_append, Bool.and_eq_true] at hSecond
          exact hSecond.1
      · rw [hName, hSame]
        exact ⟨hRepo, hSecond⟩
    rw [identityOfPath_two hFirst hSecond hRepo, ← hName,
      hValid, isRepo_of_ne hBoth.1 hBoth.2 hDot hDots]
    rfl

/- The CLI's parser reads what bash reads, but white space. -/
theorem parseGithubRepoUri_follows
    {owner name : Text} (hStart : start ∈ starts)
    (hRegular : Regular (start ++ path))
    (hSome : parseGithubRepoUri (start ++ path) = some (owner, name)) :
    identityOfPath path = some (owner ++ '/' :: name) := by
  rw [parseGithubRepoUri_start hStart] at hSome
  have hSplit : path = (path.reverse.dropWhile
      isWhiteSpace).reverse ++ (path.reverse.takeWhile
        isWhiteSpace).reverse := by
    rw [← List.reverse_append, List.takeWhile_append_dropWhile,
      List.reverse_reverse]
  by_cases hNone : path.reverse.takeWhile isWhiteSpace = []
  · rw [hNone, List.reverse_nil, List.append_nil] at hSplit
    rw [← hSplit] at hSome
    exact identityOfPath_of_ownerAndName hSome
  · have hSpace : (path.reverse.takeWhile
        isWhiteSpace).reverse.all isWhiteSpace = true := by
      rw [List.all_reverse, List.all_takeWhile]
    have hRefused := hRegular.unspaced start hStart _ _
      (by rw [List.append_assoc, ← hSplit])
      (by simpa using hNone) hSpace
    rw [hRefused] at hSome
    cases hSome

theorem meets_of_regular
    (hRegular : Regular text) :
    Meets text where
  follows := by
    intro id hBash
    obtain ⟨path, hPlain, hIdentity⟩ := identity_iff.mp hBash
    exact rust_of_plain hRegular hPlain hIdentity
  exempt := by
    intro id hRust _
    refine plain_of_spelled ?_ hRust
    unfold githubRepositoryFromRemoteUrl at hRust
    obtain ⟨parts, hParts, hId⟩ := Option.bind_eq_some_iff.mp hRust
    split at hId
    next hGithub =>
      obtain ⟨pair, hPair, -⟩ := Option.map_eq_some_iff.mp hId
      refine hRegular.spelled parts hParts (beq_iff_eq.mp hGithub) ?_
      rw [hPair]
      rfl
    next => cases hId
  checkout := by
    rintro ⟨start, hStart, path, rfl⟩
    rw [parseGithubRepoIdentity_start hStart]
    exact
      ⟨fun _ _ hSome =>
        parseGithubRepoUri_follows hStart hRegular hSome,
      fun _ hSome =>
        parseGithubUri_follows hStart hRegular hSome⟩

-- Where They Disagree

variable {space : Text} {pair : Text × Text}

/- White space behind a repository is no part of its name. -/
theorem identityOfPath_space
    (hPath : ownerAndName path = some pair)
    (hSpace : space.all isWhiteSpace = true) (hSome : space ≠ []) :
    identityOfPath (path ++ space) = none := by
  obtain ⟨repo, rfl, hName, hOwner, hRepo⟩ :=
    ownerAndName_eq_some_iff.mp hPath
  rw [isOwner_eq, Bool.and_eq_true] at hOwner
  rw [isRepo_eq, ← hName] at hRepo
  have hFirst := (isSegment_of_isIdentitySegment hOwner.1).2
  have hSecond := all_of_stripSuffix (isSegment_of_isIdentitySegment hRepo).2
  rw [List.all_eq_true] at hSpace
  have hNot : ∀ c, isWhiteSpace c = false → c ∉ space := by
    intro c hC hMem
    rw [hSpace c hMem] at hC
    cases hC
  have hMiss : ∀ c, isSegmentChar c = false → c ≠ '/' →
      isWhiteSpace c = false → c ∉ pair.1 ++ '/' :: (repo ++ space) := by
    intro c hSegment hSlash hBlank hMem
    rcases List.mem_append.mp hMem with hIn | hIn
    · exact not_mem_of_all hFirst hSegment hIn
    · rcases List.mem_cons.mp hIn with hEq | hLater
      · exact hSlash hEq
      · rcases List.mem_append.mp hLater with hIn | hIn
        · exact not_mem_of_all hSecond hSegment hIn
        · exact hNot c hBlank hIn
  rw [List.append_assoc, List.cons_append, identityOfPath_plain]
  · rw [if_neg]
    intro hBoth
    rw [Bool.and_eq_true, isRepo_eq] at hBoth
    have hAll := all_of_stripSuffix (isSegment_of_isIdentitySegment hBoth.2).2
    rw [List.all_append, Bool.and_eq_true, List.all_eq_true,
      List.all_eq_true] at hAll
    obtain ⟨c, hC⟩ := List.exists_mem_of_ne_nil space hSome
    have hBlank := hSpace c hC
    rw [not_space_of_isSegmentChar (hAll.2 c hC)] at hBlank
    cases hBlank
  · intro c hC
    constructor
    · rintro rfl
      exact hMiss _ (by decide) (by decide) (by decide) hC
    · rintro rfl
      exact hMiss _ (by decide) (by decide) (by decide) hC
  · exact not_mem_of_all hFirst (by decide)
  · intro hMem
    rcases List.mem_append.mp hMem with hIn | hIn
    · exact not_mem_of_all hSecond (by decide) hIn
    · exact hNot _ (by decide) hIn
  · simp [hSome]

theorem not_meets_of_space
    (hStart : start ∈ starts) (hSpace : space.all isWhiteSpace = true)
    (hSome : space ≠ []) (hPath : ownerAndName path = some pair)
    (hMeets : Meets (start ++ path ++ space)) :
    False := by
  have hCut : ((path ++ space).reverse.dropWhile
      isWhiteSpace).reverse = path := by
    obtain ⟨repo, hWhole, hName, -, hRepo⟩ :=
      ownerAndName_eq_some_iff.mp hPath
    have hNe : repo ≠ [] := by
      rintro rfl
      rw [← hName] at hRepo
      exact absurd hRepo (by decide)
    rw [isRepo_eq, ← hName] at hRepo
    have hAll := all_of_stripSuffix (isSegment_of_isIdentitySegment hRepo).2
    have hEnd : path.reverse.dropWhile isWhiteSpace =
        path.reverse := by
      cases hReverse : repo.reverse with
      | nil => exact absurd (List.reverse_eq_nil_iff.mp hReverse) hNe
      | cons c rest =>
        have hC : c ∈ repo := by
          rw [← List.mem_reverse, hReverse]
          exact List.mem_cons_self
        rw [List.all_eq_true] at hAll
        rw [hWhole, List.reverse_append, List.reverse_cons, hReverse,
          List.cons_append, List.cons_append, List.dropWhile_cons_of_neg]
        rw [not_space_of_isSegmentChar (hAll c hC)]
        exact Bool.false_ne_true
    rw [List.reverse_append, List.dropWhile_append_of_pos, hEnd,
      List.reverse_reverse]
    intro c hC
    rw [List.all_eq_true] at hSpace
    exact hSpace c (List.mem_reverse.mp hC)
  have hKnown : start <+: start ++ path ++ space := by
    rw [List.append_assoc]
    exact List.prefix_append _ _
  have hUri : parseGithubRepoUri (start ++ path ++ space) = some pair := by
    rw [List.append_assoc, parseGithubRepoUri_start hStart, hCut]
    exact hPath
  have hBash := (hMeets.checkout ⟨start, hStart, hKnown⟩).1 _ _ hUri
  rw [List.append_assoc, parseGithubRepoIdentity_start hStart,
    identityOfPath_space hPath hSpace hSome] at hBash
  cases hBash

theorem not_meets_of_named
    {owner : Text} (hStart : start ∈ starts) (hOwner : isOwner owner = true)
    (hMeets : Meets (start ++ (owner ++ '/' :: ".git".toList))) :
    False := by
  have hFirst := hOwner
  rw [isOwner_eq, Bool.and_eq_true] at hFirst
  have hSegment := isSegment_of_isIdentitySegment hFirst.1
  have hCaptured : captured (owner ++ '/' :: ".git".toList) =
      some (owner, ".git".toList) :=
    captured_eq_some_iff.mpr ⟨_, rfl, hSegment.1, hSegment.2,
      by decide, by decide, rfl⟩
  have hChecked : checkedOwnerRepo owner ".git".toList =
      some (owner ++ '/' :: ".git".toList) := by
    unfold checkedOwnerRepo
    rw [if_neg]
    unfold isOwner at hOwner
    simp only [Bool.and_eq_true, bne_iff_ne] at hOwner
    simp only [Bool.or_eq_true, beq_iff_eq, not_or]
    exact ⟨⟨⟨⟨hOwner.1.1.1.1, hOwner.1.1.1.2⟩, by decide⟩,
      by decide⟩, hOwner.1.1.2⟩
  have hUri : parseGithubUri
      (start ++ (owner ++ '/' :: ".git".toList)) =
        some (owner ++ '/' :: ".git".toList) := by
    rw [parseGithubUri_start hStart, hCaptured]
    exact hChecked
  have hBash := (hMeets.checkout ⟨start, hStart,
    List.prefix_append _ _⟩).2 _ hUri
  rw [parseGithubRepoIdentity_start hStart,
    identityOfPath_two hSegment.2 (by decide) (by decide), if_neg] at hBash
  · cases hBash
  · rw [Bool.and_eq_true]
    exact fun hBoth => absurd hBoth.2 (by decide)

theorem regular_of_meets
    (hMeets : Meets text) :
    Regular text where
  noScheme := by
    rintro path rfl hSome
    obtain ⟨id, hIdentity⟩ := Option.isSome_iff_exists.mp hSome
    cases hCut : (scp "git@".toList github path).dropInfix?
        "://".toList with
    | none => rfl
    | some pair =>
      have hBash : parseGithubRepoIdentity
          (scp "git@".toList github path) = some id := by
        rw [parseGithubRepoIdentity_scp]
        exact hIdentity
      have hRust := hMeets.follows id hBash
      rw [rust_scp_of_scheme githubHost_github hCut] at hRust
      cases hRust
  spelled := by
    intro parts hParts hGithub hSome
    obtain ⟨pair, hPair⟩ := Option.isSome_iff_exists.mp hSome
    have hRust : githubRepositoryFromRemoteUrl text =
        some (pair.1 ++ '/' :: pair.2) := by
      unfold githubRepositoryFromRemoteUrl
      rw [hParts]
      change (if providerFromHost parts.host == .gitHub then
        (githubOwnerName parts.path).map _ else _) = _
      rw [hGithub, hPair]
      rfl
    cases hBash : parseGithubRepoIdentity text with
    | none =>
      obtain ⟨plain, hPlain, hDiffers⟩ :=
        hMeets.exempt _ hRust hBash
      obtain ⟨path, hPath, -⟩ := identity_iff.mp hPlain
      exact spelled_of_differs hDiffers hPath
    | some id =>
      obtain ⟨path, hPath, -⟩ := identity_iff.mp hBash
      exact spelled_of_plain hPath
  unspaced := by
    rintro start hStart path space rfl hSome hSpace
    cases hPath : ownerAndName path with
    | none => rfl
    | some pair =>
      exact (not_meets_of_space hStart hSpace hSome hPath hMeets).elim
  named := by
    rintro start hStart owner hOwner rfl
    exact not_meets_of_named hStart hOwner hMeets

/-
  The parsers agree on what is regular, and on nothing else.
-/
theorem meets_iff_regular (text : Text) :
    Meets text ↔ Regular text :=
  ⟨regular_of_meets, meets_of_regular⟩

/- Bash prints `o/r`, and Rust sees a URL without a scheme. -/
theorem scp_with_a_scheme_is_rejected :
    ¬∀ text, Meets text := by
  intro hAll
  have hBash : parseGithubRepoIdentity
      "git@github.com:o/r?x=://".toList = some "o/r".toList := by
    decide +kernel
  have hRust := (hAll _).follows _ hBash
  have hNone : githubRepositoryFromRemoteUrl
      "git@github.com:o/r?x=://".toList = none := by decide +kernel
  rw [hNone] at hRust
  cases hRust

end Identity
