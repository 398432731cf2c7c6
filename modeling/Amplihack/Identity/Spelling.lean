import Amplihack.Identity.Paths

/-
  How URLs of GitHub repositories are spelled, and what the
  parsers make of the spellings.
-/

-- Spellings

namespace Identity

open Base

def isLabelChar (c : Char) : Bool :=
  c.isAlphanum || c == '-' || c == '_'

/- Labels, each with a dot behind it. -/
inductive Labels : Text → Prop where
| none : Labels []
| label
    {text rest : Text}
    (hSome : text ≠ [])
    (hAll : text.all isLabelChar = true)
    (hRest : Labels rest) :
    Labels (text ++ '.' :: rest)

def github : Text := "github.com".toList

/- The domain in any case, perhaps below labels or dotted. -/
structure GithubHost (host : Text) : Prop where
  parts : ∃ sub name dot, host = sub ++ name ++ dot ∧
    Labels sub ∧ name.map Char.toLower = github ∧ (dot = [] ∨ dot = ['.'])

def User (user : Text) : Prop :=
  user = [] ∨ ∃ name, user = name ++ ['@'] ∧ name ≠ [] ∧
    name.all isUserinfoChar = true

def Port (port : Text) : Prop :=
  port = [] ∨ ∃ digits, port = ':' :: digits ∧ digits.all Char.isDigit = true

/- `scheme://[user@]host[:port]/path` -/
def url (scheme user host port path : Text) : Text :=
  scheme ++ "://".toList ++ (user ++ host ++ port ++ '/' :: path)

def scp (user host path : Text) : Text :=
  user ++ host ++ ':' :: path

/-
  A spelling of which the parsers know: HTTP, or SSH of the
  user `git`.
-/
inductive Spelled : Text → Prop where
| web
    {scheme user host port path : Text}
    (hScheme : scheme.map Char.toLower = "https".toList ∨
      scheme.map Char.toLower = "http".toList)
    (hUser : User user)
    (hHost : GithubHost host)
    (hPort : Port port) :
    Spelled (url scheme user host port path)
| ssh
    {scheme host port path : Text}
    (hScheme : scheme.map Char.toLower = "ssh".toList)
    (hHost : GithubHost host)
    (hPort : Port port) :
    Spelled (url scheme "git@".toList host port path)
| scp
    {host path : Text}
    (hHost : GithubHost host) :
    Spelled (scp "git@".toList host path)

/-
  The same URL but for the case of the scheme, and the case, a
  subdomain, a last dot or a port of the host.
-/
inductive Differs : Text → Text → Prop where
| url
    {scheme lower user host port path : Text}
    (hScheme : isScheme scheme = true)
    (hLower : scheme.map Char.toLower = lower)
    (hOther : isScheme lower = true)
    (hUser : User user)
    (hHost : GithubHost host)
    (hPort : Port port) :
    Differs (url scheme user host port path)
      (Identity.url lower user github [] path)
| scp
    {user host path : Text}
    (hUser : User user)
    (hColon : ':' ∉ user)
    (hHost : GithubHost host) :
    Differs (scp user host path) (Identity.scp user github path)

-- Characters Of A Host

def isHostChar (c : Char) : Bool :=
  isLabelChar c || c == '.'

theorem isUpper_or_toLower_eq (c : Char) :
    c.isUpper = true ∨ c.toLower = c := by
  unfold Char.toLower
  split
  next hUpper =>
    refine Or.inl ?_
    delta Char.isUpper
    simpa using hUpper
  next => exact Or.inr rfl

variable {c : Char}

/- A letter in either case, or what has no case. -/
theorem isAlpha_of_toLower
    (hLower : c.toLower.isAlpha = true) :
    c.isAlpha = true := by
  rcases isUpper_or_toLower_eq c with hUpper | hSame
  · delta Char.isAlpha
    rw [hUpper]
    rfl
  · rw [hSame] at hLower
    exact hLower

variable {text lower : Text}

theorem mem_of_map_toLower
    (hLower : text.map Char.toLower = lower) (hMem : c ∈ text) :
    c.toLower ∈ lower := by
  rw [← hLower]
  exact List.mem_map_of_mem hMem

theorem isAlpha_of_map_toLower
    (hLower : text.map Char.toLower = lower)
    (hAlpha : lower.all Char.isAlpha = true) (hMem : c ∈ text) :
    c.isAlpha = true := by
  rw [List.all_eq_true] at hAlpha
  exact isAlpha_of_toLower (hAlpha _ (mem_of_map_toLower hLower hMem))

variable {sub : Text}

theorem Labels.isHostChar
    (hSub : Labels sub) :
    ∀ c ∈ sub, isHostChar c = true := by
  induction hSub with
  | none => exact fun _ hMem => (List.not_mem_nil hMem).elim
  | label hSome hAll hRest ih =>
    intro c hC
    rcases List.mem_append.mp hC with hLabel | hMore
    · rw [List.all_eq_true] at hAll
      unfold Identity.isHostChar
      rw [hAll c hLabel]
      rfl
    · rcases List.mem_cons.mp hMore with rfl | hLater
      · decide
      · exact ih c hLater

variable {name : Text}

theorem isHostChar_of_toLower
    (hName : name.map Char.toLower = github) :
    ∀ c ∈ name, isHostChar c = true := by
  intro c hC
  have hMem := mem_of_map_toLower hName hC
  have hAll : github.all (fun d => d.isAlpha || d == '.') = true := rfl
  rw [List.all_eq_true] at hAll
  have hEither := hAll _ hMem
  rw [Bool.or_eq_true, beq_iff_eq] at hEither
  unfold isHostChar isLabelChar Char.isAlphanum
  rcases hEither with hAlpha | hDot
  · rw [isAlpha_of_toLower hAlpha]
    rfl
  · rcases isUpper_or_toLower_eq c with hUpper | hSame
    · delta Char.isAlpha
      rw [hUpper]
      rfl
    · rw [hSame] at hDot
      rw [hDot]
      decide

variable {host : Text}

theorem GithubHost.isHostChar
    (hHost : GithubHost host) :
    ∀ c ∈ host, isHostChar c = true := by
  obtain ⟨sub, name, dot, rfl, hSub, hName, hDot⟩ := hHost.parts
  intro c hC
  rcases List.mem_append.mp hC with hFront | hEnd
  · rcases List.mem_append.mp hFront with hIn | hIn
    · exact hSub.isHostChar c hIn
    · exact isHostChar_of_toLower hName c hIn
  · rcases hDot with rfl | rfl
    · exact (List.not_mem_nil hEnd).elim
    · rw [List.mem_singleton.mp hEnd]
      decide

theorem GithubHost.not_mem
    (hHost : GithubHost host) (hNot : Identity.isHostChar c = false) :
    c ∉ host := by
  intro hMem
  rw [hHost.isHostChar c hMem] at hNot
  cases hNot

theorem GithubHost.ne_nil
    (hHost : GithubHost host) :
    host ≠ [] := by
  obtain ⟨sub, name, dot, rfl, -, hName, -⟩ := hHost.parts
  have hSome : name ≠ [] := by
    rintro rfl
    cases hName
  simp [hSome]

theorem Labels.ends
    (hSub : Labels sub) :
    sub = [] ∨ ∃ front, sub = front ++ ['.'] := by
  induction hSub with
  | none => exact Or.inl rfl
  | @label text rest hSome hAll hRest ih =>
    refine Or.inr ?_
    rcases ih with rfl | ⟨front, rfl⟩
    · exact ⟨text, rfl⟩
    · exact ⟨text ++ '.' :: front, by simp⟩

theorem suffix_of_hostMatches
    {host domain : Text}
    (hMatches : hostMatchesProviderDomain host domain = true) :
    domain <:+ (stripSuffix ['.'] host).map Char.toLower := by
  unfold hostMatchesProviderDomain at hMatches
  simp only [Bool.and_eq_true, beq_iff_eq] at hMatches
  rw [← hMatches.1.2]
  exact (List.drop_suffix _ _).map _

/- Without a last dot, the host ends in the domain. -/
theorem stripSuffix_host
    (sub : Text) {name dot : Text} (hName : name.map Char.toLower = github)
    (hDot : dot = [] ∨ dot = ['.']) :
    stripSuffix ['.'] (sub ++ name ++ dot) = sub ++ name := by
  rcases hDot with rfl | rfl
  · rw [List.append_nil]
    apply stripSuffix_of_not
    intro p hSplit
    have hLower := congrArg (List.map Char.toLower) hSplit
    rw [List.map_append, List.map_append, hName] at hLower
    have hLast := congrArg List.getLast? hLower
    rw [List.getLast?_append, List.getLast?_append] at hLast
    exact absurd (Option.some.inj hLast) (by decide)
  · exact stripSuffix_append _ _

/- The domain is of GitHub, and of no one else. -/
theorem providerFromHost_github
    (hHost : GithubHost host) :
    providerFromHost host = .gitHub := by
  obtain ⟨sub, name, dot, rfl, hSub, hName, hDot⟩ := hHost.parts
  have hStrip := stripSuffix_host sub hName hDot
  have hOther : ∀ domain : Text, ¬github <:+ domain →
      ¬domain <:+ github →
        hostMatchesProviderDomain (sub ++ name ++ dot) domain =
          false := by
    intro domain hLeft hRight
    rw [← Bool.not_eq_true]
    intro hMatches
    have hSuffix := suffix_of_hostMatches hMatches
    rw [hStrip, List.map_append, hName] at hSuffix
    rcases List.suffix_or_suffix_of_suffix hSuffix
      (List.suffix_append _ github) with hShort | hLong
    · exact hRight hShort
    · exact hLeft hLong
  have hLength : name.length = github.length := by
    rw [← hName, List.length_map]
  have hMatches : hostMatchesProviderDomain
      (sub ++ name ++ dot) github = true := by
    unfold hostMatchesProviderDomain
    rw [hStrip]
    dsimp only
    rw [List.length_append, hLength, Nat.add_sub_cancel,
      List.drop_left', hName]
    · rw [Bool.and_eq_true, Bool.and_eq_true, Bool.or_eq_true]
      refine ⟨⟨decide_eq_true (Nat.le_add_left _ _), beq_self_eq_true _⟩, ?_⟩
      rcases hSub.ends with rfl | ⟨front, rfl⟩
      · exact Or.inl rfl
      · refine Or.inr ?_
        rw [beq_iff_eq]
        simp
    · rfl
  unfold providerFromHost
  rw [hOther _ (by decide) (by decide), hOther _ (by decide) (by decide)]
  change (if hostMatchesProviderDomain (sub ++ name ++ dot)
    github then _ else _) = _
  rw [hMatches]
  rfl

-- Where The Authority Ends

theorem not_mem_of_isUserinfoChar
    (hAll : name.all isUserinfoChar = true)
    (hNot : isUserinfoChar c = false) :
    c ∉ name := by
  intro hMem
  rw [List.all_eq_true] at hAll
  rw [hAll c hMem] at hNot
  cases hNot

/- What ends an authority is of no class without the four. -/
theorem endsAuthority_of_class
    {p : Char → Bool}
    (hOutside : ['/', '?', '#', '\\'].all (fun d => !p d) = true)
    (hC : p c = true) :
    endsAuthority c = false := by
  rw [List.all_eq_true] at hOutside
  rw [← Bool.not_eq_true]
  intro hEnds
  have hMem : c ∈ ['/', '?', '#', '\\'] := by
    unfold endsAuthority at hEnds
    simpa [or_assoc] using hEnds
  have hNot := hOutside c hMem
  rw [hC] at hNot
  cases hNot

variable {user port : Text}

/- No character of user, host and port ends the authority. -/
theorem endsAuthority_of_mem
    (hUser : User user) (hHost : GithubHost host) (hPort : Port port) :
    ∀ c ∈ user ++ host ++ port, (!endsAuthority c) = true := by
  intro c hC
  rw [Bool.not_eq_true']
  rcases List.mem_append.mp hC with hFront | hIn
  · rcases List.mem_append.mp hFront with hIn | hIn
    · rcases hUser with rfl | ⟨name, rfl, -, hAll⟩
      · exact (List.not_mem_nil hIn).elim
      · rcases List.mem_append.mp hIn with hName | hAt
        · rw [List.all_eq_true] at hAll
          exact endsAuthority_of_class rfl (hAll c hName)
        · rw [List.mem_singleton.mp hAt]
          decide
    · exact endsAuthority_of_class rfl (hHost.isHostChar c hIn)
  · rcases hPort with rfl | ⟨digits, rfl, hAll⟩
    · exact (List.not_mem_nil hIn).elim
    · rcases List.mem_cons.mp hIn with rfl | hDigit
      · decide
      · rw [List.all_eq_true] at hAll
        exact endsAuthority_of_class rfl (hAll c hDigit)

variable {rest : Text}

theorem splitUserinfo_user
    (hUser : User user) (hRest : '@' ∉ rest) :
    splitUserinfo (user ++ rest) = some rest := by
  unfold splitUserinfo
  rcases hUser with rfl | ⟨name, rfl, hSome, hAll⟩
  · rw [List.nil_append, dropInfix?_singleton_eq_none_iff.mpr hRest]
  · have hNot : '@' ∉ name :=
      not_mem_of_isUserinfoChar hAll (by decide)
    have hCut : (name ++ ['@'] ++ rest).dropInfix? ['@'] =
        some (name, rest) :=
      dropInfix?_singleton_iff.mpr ⟨by simp, hNot⟩
    rw [hCut]
    dsimp only
    rw [if_pos]
    simp [hSome, hAll, hRest]

theorem Port.not_mem_at
    (hPort : Port port) :
    '@' ∉ port := by
  rcases hPort with rfl | ⟨digits, rfl, hAll⟩
  · exact List.not_mem_nil
  · intro hMem
    rcases List.mem_cons.mp hMem with hColon | hDigit
    · exact absurd hColon (by decide)
    · rw [List.all_eq_true] at hAll
      exact absurd (hAll _ hDigit) (by decide)

theorem hostOf_port
    (hHost : GithubHost host) (hPort : Port port) :
    hostOf (host ++ port) = host := by
  have hColon : ':' ∉ host := hHost.not_mem (by decide)
  have hBracket : (host ++ port).dropPrefix? ['['] = none := by
    cases hDrop : (host ++ port).dropPrefix? ['['] with
    | none => rfl
    | some value =>
      have hSplit := dropPrefix?_iff.mp hDrop
      cases host with
      | nil => exact absurd rfl hHost.ne_nil
      | cons c rest =>
        have hHead : c = '[' := (List.cons.inj hSplit).1
        have hC := hHost.isHostChar c List.mem_cons_self
        rw [hHead] at hC
        exact absurd hC (by decide)
  unfold hostOf
  rw [hBracket]
  dsimp only [Option.bind_none, Option.getD_none]
  rcases hPort with rfl | ⟨digits, rfl, -⟩
  · rw [List.append_nil, dropInfix?_singleton_eq_none_iff.mpr hColon]
    rfl
  · rw [dropInfix?_singleton_iff.mpr ⟨rfl, hColon⟩]
    rfl

-- What Rust Makes Of A Spelling

theorem withHost_some
    (hHost : GithubHost host) (path : Text) :
    withHost host path = some ⟨host, path⟩ := by
  unfold withHost
  rw [if_neg]
  simpa using hHost.ne_nil

variable {scheme : Text}

/- No other character is in a scheme. -/
theorem not_mem_of_isScheme
    (hScheme : isScheme scheme = true)
    (hNot : (c.isAlphanum || c == '+' || c == '-' || c == '.') = false) :
    c ∉ scheme := by
  intro hMem
  unfold isScheme at hScheme
  rw [Bool.and_eq_true, List.all_eq_true] at hScheme
  rw [hScheme.2 c hMem] at hNot
  cases hNot

variable {path : Text}

theorem rust_url
    (hScheme : isScheme scheme = true) (hUser : User user)
    (hHost : GithubHost host) (hPort : Port port) :
    githubRepositoryFromRemoteUrl
        (url scheme user host port path) =
      identityOfPath path := by
  have hColon : ':' ∉ scheme :=
    not_mem_of_isScheme hScheme (by decide)
  have hCut : (url scheme user host port path).dropInfix?
      "://".toList = some (scheme, user ++ host ++ port ++ '/' :: path) :=
    dropInfix?_append hColon _ _
  have hAll := endsAuthority_of_mem hUser hHost hPort
  have hTake : (user ++ host ++ port ++ '/' :: path).takeWhile
      (!endsAuthority ·) = user ++ host ++ port := by
    rw [List.takeWhile_append_of_pos hAll]
    exact List.append_nil _
  have hDrop : (user ++ host ++ port ++ '/' :: path).dropWhile
      (!endsAuthority ·) = '/' :: path := by
    rw [List.dropWhile_append_of_pos hAll]
    rfl
  have hSlash : ('/' :: path).dropPrefix? ['/'] = some path :=
    dropPrefix?_iff.mpr rfl
  have hParts : remoteUrlParts (url scheme user host port path) =
      some ⟨host, path⟩ := by
    unfold remoteUrlParts
    rw [if_neg, hCut]
    · dsimp only
      rw [hTake, hDrop, hScheme, hSlash, if_neg]
      · rw [List.append_assoc, splitUserinfo_user hUser]
        · change withHost (hostOf (host ++ port)) path = _
          rw [hostOf_port hHost hPort, withHost_some hHost]
        · intro hMem
          rcases List.mem_append.mp hMem with hIn | hIn
          · exact hHost.not_mem (by decide) hIn
          · exact hPort.not_mem_at hIn
      · simp [hHost.ne_nil]
    · simp [url]
  unfold githubRepositoryFromRemoteUrl
  rw [hParts]
  change (if providerFromHost host == .gitHub then _ else _) = _
  rw [providerFromHost_github hHost, identityOfPath_eq]
  rfl

/- An scheme with the user's `@` is none. -/
theorem rust_scp_of_scheme
    {pair : Text × Text} (hHost : GithubHost host)
    (hCut : (scp "git@".toList host path).dropInfix?
      "://".toList = some pair) :
    githubRepositoryFromRemoteUrl (scp "git@".toList host path) =
      none := by
  have hSplit := (dropInfix?_iff.mp hCut).1
  have hFirst : (scp "git@".toList host path).dropInfix? [':'] =
      some ("git@".toList ++ host, path) := by
    refine dropInfix?_singleton_iff.mpr ⟨rfl, ?_⟩
    intro hMem
    rcases List.mem_append.mp hMem with hUser | hIn
    · exact absurd hUser (by decide)
    · exact hHost.not_mem (by decide) hIn
  -- the scheme reaches at least to the first colon
  have hLong := (dropInfix?_iff.mp hFirst).2 pair.1
    ("//".toList ++ pair.2) (by
      rw [hSplit]
      simp)
  have hAt : '@' ∈ pair.1 := by
    have hHead : (scp "git@".toList host path)[3]? = some '@' := rfl
    rw [hSplit, List.append_assoc, List.getElem?_append_left]
      at hHead
    · exact List.mem_of_getElem? hHead
    · have hFour : ("git@".toList ++ host).length =
          4 + host.length := List.length_append
      omega
  have hScheme : isScheme pair.1 = false := by
    rw [← Bool.not_eq_true]
    intro hScheme
    exact not_mem_of_isScheme hScheme (by decide) hAt
  have hParts : remoteUrlParts (scp "git@".toList host path) =
      none := by
    unfold remoteUrlParts
    rw [if_neg, hCut]
    · dsimp only
      rw [hScheme]
      rfl
    · simp [scp]
  unfold githubRepositoryFromRemoteUrl
  rw [hParts]
  rfl

theorem rust_scp
    (hHost : GithubHost host)
    (hCut : (scp "git@".toList host path).dropInfix? "://".toList = none) :
    githubRepositoryFromRemoteUrl (scp "git@".toList host path) =
      identityOfPath path := by
  have hColon : ':' ∉ "git@".toList ++ host := by
    intro hMem
    rcases List.mem_append.mp hMem with hUser | hIn
    · exact absurd hUser (by decide)
    · exact hHost.not_mem (by decide) hIn
  have hFirst : (scp "git@".toList host path).dropInfix? [':'] =
      some ("git@".toList ++ host, path) :=
    dropInfix?_singleton_iff.mpr ⟨rfl, hColon⟩
  have hUser : User "git@".toList :=
    Or.inr ⟨"git".toList, rfl, by decide, by decide⟩
  have hParts : remoteUrlParts (scp "git@".toList host path) =
      some ⟨host, path⟩ := by
    unfold remoteUrlParts
    rw [if_neg, hCut, hFirst]
    · dsimp only
      rw [if_neg, splitUserinfo_user hUser (hHost.not_mem (by decide))]
      · exact withHost_some hHost path
      · have hSlash : '\\' ∉ "git@".toList ++ host := by
          intro hMem
          rcases List.mem_append.mp hMem with hIn | hIn
          · exact absurd hIn (by decide)
          · exact hHost.not_mem (by decide) hIn
        have hHead : ("git@".toList ++ host).head? = some 'g' := rfl
        rw [hHead]
        simpa using hSlash
    · simp [scp]
  unfold githubRepositoryFromRemoteUrl
  rw [hParts]
  change (if providerFromHost host == .gitHub then _ else _) = _
  rw [providerFromHost_github hHost, identityOfPath_eq]
  rfl

-- What Bash Makes Of A Spelling

theorem dropPrefix?_eq_none_of_ne
    {text start : Text} (hNot : ∀ rest, text ≠ start ++ rest) :
    text.dropPrefix? start = none := by
  cases hDrop : text.dropPrefix? start with
  | none => rfl
  | some rest => exact absurd (dropPrefix?_iff.mp hDrop) (hNot rest)

/- A text with a user is not one without. -/
theorem user_ne_github
    {name rest other : Text} (hAll : name.all isUserinfoChar = true) :
    name ++ "@github.com/".toList ++ rest ≠
      "github.com/".toList ++ other := by
  intro hSame
  have hLeft : (name ++ "@github.com/".toList ++
      rest).dropInfix? ['/'] = some (name ++ "@github.com".toList, rest) := by
    refine dropInfix?_singleton_iff.mpr ⟨by simp, ?_⟩
    intro hMem
    rcases List.mem_append.mp hMem with hIn | hIn
    · exact not_mem_of_isUserinfoChar hAll (by decide) hIn
    · exact absurd hIn (by decide)
  have hRight : ("github.com/".toList ++ other).dropInfix?
      ['/'] = some (github, other) :=
    dropInfix?_singleton_iff.mpr ⟨rfl, by decide⟩
  rw [hSame, hRight] at hLeft
  have hUser : github = name ++ "@github.com".toList :=
    congrArg Prod.fst (Option.some.inj hLeft)
  have hAt : '@' ∈ github := by
    rw [hUser]
    simp
  exact absurd hAt (by decide)

theorem pathAfterUserinfo_web
    (hScheme : ':' ∉ scheme) (hSome : name ≠ [])
    (hAll : name.all isUserinfoChar = true) (path : Text) :
    pathAfterUserinfo (url scheme (name ++ ['@']) github [] path) =
      some path := by
  have hRest : name ++ ['@'] ++ github ++ [] ++ '/' :: path =
      name ++ "@github.com/".toList ++ path := by
    rw [List.append_nil, List.append_assoc, List.append_assoc,
      List.append_assoc]
    rfl
  have hUrl : (url scheme (name ++ ['@']) github []
      path).dropInfix? "://".toList = some (scheme,
        name ++ "@github.com/".toList ++ path) := by
    unfold url
    rw [hRest]
    exact dropInfix?_append hScheme _ _
  have hAt : '@' ∉ name :=
    not_mem_of_isUserinfoChar hAll (by decide)
  have hHost : (name ++ "@github.com/".toList ++
      path).dropInfix? "@github.com/".toList = some (name, path) :=
    dropInfix?_append hAt _ _
  unfold pathAfterUserinfo
  rw [hUrl]
  dsimp only
  rw [hHost]
  dsimp only
  rw [if_pos]
  simp [hSome, hAll]

/- The two schemes of the web, as bash knows them. -/
def Web (scheme : Text) : Prop :=
  scheme = "https".toList ∨ scheme = "http".toList

theorem pathOfUrl_web
    (hScheme : Web scheme) (hUser : User user) (path : Text) :
    pathOfUrl (url scheme user github [] path) = some path := by
  rcases hUser with rfl | ⟨name, rfl, hSome, hAll⟩
  · rcases hScheme with rfl | rfl
    · have hPrefix : (url "https".toList [] github []
          path).dropPrefix? "https://github.com/".toList =
            some path := dropPrefix?_iff.mpr rfl
      unfold pathOfUrl
      rw [hPrefix]
    · have hOther : (url "http".toList [] github []
          path).dropPrefix? "https://github.com/".toList = none :=
        rfl
      have hPrefix : (url "http".toList [] github []
          path).dropPrefix? "http://github.com/".toList =
            some path := dropPrefix?_iff.mpr rfl
      unfold pathOfUrl
      rw [hOther, hPrefix]
  · have hColon : ':' ∉ scheme := by
      rcases hScheme with rfl | rfl
      · decide
      · decide
    have hPath := pathAfterUserinfo_web hColon hSome hAll path
    have hRest : name ++ ['@'] ++ github ++ [] ++ '/' :: path =
        name ++ "@github.com/".toList ++ path := by
      rw [List.append_nil, List.append_assoc, List.append_assoc,
        List.append_assoc]
      rfl
    have hFirst : (url scheme (name ++ ['@']) github []
        path).dropPrefix? "https://github.com/".toList = none := by
      apply dropPrefix?_eq_none_of_ne
      intro rest hSame
      unfold url at hSame
      rw [hRest] at hSame
      rcases hScheme with rfl | rfl
      · exact user_ne_github hAll
          ((List.append_right_inj "https://".toList).mp (hSame.trans rfl))
      · cases hSame
    have hSecond : (url scheme (name ++ ['@']) github []
        path).dropPrefix? "http://github.com/".toList = none := by
      apply dropPrefix?_eq_none_of_ne
      intro rest hSame
      unfold url at hSame
      rw [hRest] at hSame
      rcases hScheme with rfl | rfl
      · cases hSame
      · exact user_ne_github hAll
          ((List.append_right_inj "http://".toList).mp (hSame.trans rfl))
    unfold pathOfUrl
    rw [hFirst, hSecond]
    rcases hScheme with rfl | rfl
    · exact hPath
    · exact hPath

theorem parseGithubRepoIdentity_web
    (hScheme : Web scheme) (hUser : User user) (path : Text) :
    parseGithubRepoIdentity (url scheme user github [] path) =
      identityOfPath path := by
  unfold parseGithubRepoIdentity
  rw [pathOfUrl_web hScheme hUser]
  rfl

theorem parseGithubRepoIdentity_ssh (path : Text) :
    parseGithubRepoIdentity
        (url "ssh".toList "git@".toList github [] path) =
      identityOfPath path := by
  have hPrefix : (url "ssh".toList "git@".toList github []
      path).dropPrefix? "ssh://git@github.com/".toList =
        some path := dropPrefix?_iff.mpr rfl
  unfold parseGithubRepoIdentity pathOfUrl
  rw [hPrefix]
  rfl

theorem parseGithubRepoIdentity_scp (path : Text) :
    parseGithubRepoIdentity (scp "git@".toList github path) =
      identityOfPath path := by
  have hPrefix : (scp "git@".toList github path).dropPrefix?
      "git@github.com:".toList = some path := dropPrefix?_iff.mpr rfl
  unfold parseGithubRepoIdentity pathOfUrl
  rw [hPrefix]
  rfl

/- The only URLs that bash accepts. -/
inductive Plain (path : Text) : Text → Prop where
| web
    {scheme user : Text}
    (hScheme : Web scheme)
    (hUser : User user) :
    Plain path (url scheme user github [] path)
| ssh : Plain path (url "ssh".toList "git@".toList github [] path)
| scp : Plain path (scp "git@".toList github path)

theorem pathAfterUserinfo_plain
    (hScheme : Web scheme)
    (hPath : pathAfterUserinfo (scheme ++ "://".toList ++ rest) = some path) :
    Plain path (scheme ++ "://".toList ++ rest) := by
  have hColon : ':' ∉ scheme := by
    rcases hScheme with rfl | rfl
    · decide
    · decide
  have hCut : (scheme ++ "://".toList ++ rest).dropInfix?
      "://".toList = some (scheme, rest) := dropInfix?_append hColon _ _
  unfold pathAfterUserinfo at hPath
  rw [hCut] at hPath
  dsimp only at hPath
  split at hPath
  next => cases hPath
  next userinfo after hUser =>
    split at hPath
    next hValid =>
      cases hPath
      rw [Bool.and_eq_true, Bool.not_eq_true',
        List.isEmpty_eq_false_iff] at hValid
      have hSplit := (dropInfix?_iff.mp hUser).1
      have hUrl : scheme ++ "://".toList ++ rest =
          url scheme (userinfo ++ ['@']) github [] path := by
        unfold url
        rw [hSplit, List.append_nil, List.append_assoc userinfo,
          List.append_assoc userinfo, List.append_assoc userinfo]
        rfl
      rw [hUrl]
      exact Plain.web hScheme (Or.inr ⟨userinfo, rfl, hValid.1, hValid.2⟩)
    next => cases hPath

theorem pathOfUrl_plain
    (hPath : pathOfUrl text = some path) :
    Plain path text := by
  unfold pathOfUrl at hPath
  split at hPath
  next hHttps =>
    cases hPath
    rw [dropPrefix?_iff.mp hHttps]
    have hWeb : Plain path (url "https".toList [] github [] path) :=
      Plain.web (Or.inl rfl) (Or.inl rfl)
    exact hWeb
  next hHttp =>
    cases hPath
    rw [dropPrefix?_iff.mp hHttp]
    have hWeb : Plain path (url "http".toList [] github [] path) :=
      Plain.web (Or.inr rfl) (Or.inl rfl)
    exact hWeb
  next hScp =>
    cases hPath
    rw [dropPrefix?_iff.mp hScp]
    exact Plain.scp
  next hSsh =>
    cases hPath
    rw [dropPrefix?_iff.mp hSsh]
    exact Plain.ssh
  next =>
    split at hPath
    next hStart =>
      rw [Bool.or_eq_true, List.isPrefixOf_iff_prefix,
        List.isPrefixOf_iff_prefix] at hStart
      rcases hStart with ⟨rest, rfl⟩ | ⟨rest, rfl⟩
      · exact pathAfterUserinfo_plain (Or.inl rfl) hPath
      · exact pathAfterUserinfo_plain (Or.inr rfl) hPath
    next => cases hPath

end Identity
