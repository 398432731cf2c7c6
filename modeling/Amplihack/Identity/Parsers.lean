import Amplihack.Base.Search

/-
  The four parsers of GitHub identities: one in bash and three
  in Rust. A text is a list of characters.
-/

-- Texts

namespace Identity

abbrev Text := List Char

/- The text without one such end, when it has it. -/
def stripSuffix (suffix text : Text) : Text :=
  (text.dropSuffix? suffix).getD text

def endsWith (suffix text : Text) : Bool :=
  (text.dropSuffix? suffix).isSome

/- `[A-Za-z0-9._-]` -/
def isSegmentChar (c : Char) : Bool :=
  c.isAlphanum || c == '.' || c == '_' || c == '-'

/- `[A-Za-z0-9._~%!$&'()*+,;=:-]` -/
def isUserinfoChar (c : Char) : Bool :=
  c.isAlphanum || "._~%!$&'()*+,;=:-".toList.contains c

-- parse_github_repo_identity

/- What `<userinfo>@github.com/` stands before, at first. -/
def pathAfterUserinfo (url : Text) : Option Text :=
  match url.dropInfix? "://".toList with
  | none => none
  | some (_, rest) =>
    match rest.dropInfix? "@github.com/".toList with
    | none => none
    | some (userinfo, path) =>
      if !userinfo.isEmpty && userinfo.all isUserinfoChar then
        some path
      else none

/- The path of the first pattern that matches. -/
def pathOfUrl (url : Text) : Option Text :=
  match url.dropPrefix? "https://github.com/".toList,
    url.dropPrefix? "http://github.com/".toList,
    url.dropPrefix? "git@github.com:".toList,
    url.dropPrefix? "ssh://git@github.com/".toList with
  | some path, _, _, _ => some path
  | none, some path, _, _ => some path
  | none, none, some path, _ => some path
  | none, none, none, some path => some path
  | none, none, none, none =>
    if "https://".toList.isPrefixOf url ||
        "http://".toList.isPrefixOf url then
      pathAfterUserinfo url
    else none

/- `^[1-9][0-9]{0,9}$` -/
def matchesPrNumber : Text → Bool
| [] => false
| d :: ds =>
  d.isDigit && d != '0' && ds.length ≤ 9 && ds.all Char.isDigit

/- `repo`, `repo.git` or `repo/pull/<n>`. -/
def repoOf (rest : Text) : Option Text :=
  match rest.dropInfix? ['/'] with
  | none => some (stripSuffix ".git".toList rest)
  | some (repo, rest) =>
    match rest.dropPrefix? "pull/".toList with
    | none => none
    | some number =>
      if matchesPrNumber number &&
          !endsWith ".git".toList repo then
        some repo
      else none

def isOwner (owner : Text) : Bool :=
  owner != ['.'] && owner != ['.', '.'] &&
    owner.head? != some '-' && !owner.isEmpty && owner.all isSegmentChar

def isRepo (repo : Text) : Bool :=
  repo != ['.'] && repo != ['.', '.'] &&
    !repo.isEmpty && repo.all isSegmentChar

def identityOfPath (path : Text) : Option Text :=
  let path := path.takeWhile (· != '?')
  let path := path.takeWhile (· != '#')
  let path := stripSuffix ['/'] path
  match path.dropInfix? ['/'] with
  | none => none
  | some (owner, rest) =>
    match repoOf rest with
    | none => none
    | some repo =>
      if isOwner owner && isRepo repo then
        some (owner ++ '/' :: repo)
      else none

def parseGithubRepoIdentity (url : Text) : Option Text :=
  (pathOfUrl url).bind identityOfPath

-- github_repository_from_remote_url

def isScheme (scheme : Text) : Bool :=
  scheme.head?.any Char.isAlpha &&
    scheme.all fun c =>
      c.isAlphanum || c == '+' || c == '-' || c == '.'

/- The end of the authority, as git sees it. -/
def endsAuthority (c : Char) : Bool :=
  c == '/' || c == '?' || c == '#' || c == '\\'

/- The host behind the first `@`, when the userinfo is right. -/
def splitUserinfo (authority : Text) : Option Text :=
  match authority.dropInfix? ['@'] with
  | none => some authority
  | some (userinfo, host) =>
    if !userinfo.isEmpty && userinfo.all isUserinfoChar &&
        !host.contains '@' then
      some host
    else none

/- In brackets, or before a port. -/
def hostOf (hostPort : Text) : Text :=
  let bracketed :=
    (hostPort.dropPrefix? ['[']).bind fun value =>
      (value.dropInfix? [']']).map Prod.fst
  bracketed.getD (((hostPort.dropInfix? [':']).map Prod.fst).getD hostPort)

structure RemoteUrlParts where
  host : Text
  path : Text

def withHost (host path : Text) : Option RemoteUrlParts :=
  if host.isEmpty then none else some ⟨host, path⟩

def remoteUrlParts (remoteUrl : Text) : Option RemoteUrlParts :=
  if remoteUrl.isEmpty then none
  else
    match remoteUrl.dropInfix? "://".toList with
    | some (scheme, afterScheme) =>
      let authority := afterScheme.takeWhile (!endsAuthority ·)
      let path := afterScheme.dropWhile (!endsAuthority ·)
      if !isScheme scheme || authority.isEmpty then none
      else
        (splitUserinfo authority).bind fun hostPort =>
          withHost (hostOf hostPort) ((path.dropPrefix? ['/']).getD path)
    | none =>
      match remoteUrl.dropInfix? [':'] with
      | none => none
      | some (hostPart, path) =>
        if hostPart.head? == some '-' ||
            hostPart.contains '\\' then none
        else
          (splitUserinfo hostPart).bind fun host =>
            withHost host path

/- The domain itself in any case, or one below it. -/
def hostMatchesProviderDomain (host domain : Text) : Bool :=
  let host := stripSuffix ['.'] host
  let start := host.length - domain.length
  domain.length ≤ host.length &&
    (host.drop start).map Char.toLower == domain &&
      (start == 0 || host[start - 1]? == some '.')

inductive RepositoryProvider where
| gitHub
| azureDevOps
| manual
deriving DecidableEq

def providerFromHost (host : Text) : RepositoryProvider :=
  if hostMatchesProviderDomain host "dev.azure.com".toList ||
      hostMatchesProviderDomain host "visualstudio.com".toList
    then .azureDevOps
  else if hostMatchesProviderDomain host "github.com".toList
    then .gitHub
  else .manual

def isPrNumber (number : Text) : Bool :=
  1 ≤ number.length && number.length ≤ 10 &&
    number.head? != some '0' && number.all Char.isDigit

def isIdentitySegment (value : Text) : Bool :=
  !value.isEmpty && value != ['.'] && value != ['.', '.'] &&
    value.all isSegmentChar

def nameOf (rawName : Text) : List Text → Option Text
| [] => some (stripSuffix ".git".toList rawName)
| [pull, number] =>
  if pull == "pull".toList && isPrNumber number &&
      !endsWith ".git".toList rawName then
    some rawName
  else none
| _ => none

def githubOwnerName (path : Text) : Option (Text × Text) :=
  let path := path.takeWhile fun c => c != '?' && c != '#'
  let path := stripSuffix ['/'] path
  match path.splitOn '/' with
  | [] => none
  | owner :: parts =>
    if isIdentitySegment owner && owner.head? != some '-' then
      match nameOf (parts.headD []) parts.tail with
      | none => none
      | some name =>
        if isIdentitySegment name then some (owner, name)
        else none
    else none

def githubRepositoryFromRemoteUrl (remoteUrl : Text) :
    Option Text :=
  (remoteUrlParts remoteUrl).bind fun parts =>
    if providerFromHost parts.host == .gitHub then
      (githubOwnerName parts.path).map fun pair =>
        pair.1 ++ '/' :: pair.2
    else none

-- parse_github_repo_uri

def isWhiteSpace (c : Char) : Bool :=
  (9 ≤ c.toNat && c.toNat ≤ 13) || c == ' ' ||
    c.toNat == 0x85 || c.toNat == 0xa0 ||
    c.toNat == 0x1680 ||
    (0x2000 ≤ c.toNat && c.toNat ≤ 0x200a) ||
    c.toNat == 0x2028 || c.toNat == 0x2029 ||
    c.toNat == 0x202f || c.toNat == 0x205f ||
    c.toNat == 0x3000

def trim (text : Text) : Text :=
  ((text.dropWhile isWhiteSpace).reverse.dropWhile isWhiteSpace).reverse

def isValidGithubSegment (segment : Text) : Bool :=
  !segment.isEmpty && segment != ['.'] &&
    segment != ['.', '.'] && segment.all isSegmentChar

/- What is left of the URI names just an owner and a repo. -/
def ownerAndName (repo : Text) : Option (Text × Text) :=
  match (stripSuffix ".git".toList repo).splitOn '/' with
  | [owner, name] =>
    if owner.head? != some '-' && isValidGithubSegment owner &&
        isValidGithubSegment name then
      some (owner, name)
    else none
  | _ => none

def parseGithubRepoUri (repoUri : Text) : Option (Text × Text) :=
  let trimmed := trim repoUri
  if trimmed.isEmpty then none
  else
    match trimmed.dropPrefix? "https://github.com/".toList,
      trimmed.dropPrefix? "git@github.com:".toList with
    | some repo, _ => ownerAndName repo
    | none, some repo => ownerAndName repo
    | none, none => ownerAndName trimmed

-- parse_github_uri

/- The shortest name before the end or a last `.git`. -/
def lazyName : Text → Option Text
| [] => none
| c :: rest =>
  if rest == [] || rest == ".git".toList then some [c]
  else (lazyName rest).map (c :: ·)

def checkedOwnerRepo (owner repo : Text) : Option Text :=
  if owner == ['.'] || owner == ['.', '.'] || repo == ['.'] ||
      repo == ['.', '.'] || owner.head? == some '-' then none
  else some (owner ++ '/' :: repo)

/- An owner, a slash and a repo, all of segment characters. -/
def twoSegments (text : Text) : Option (Text × Text) :=
  match text.splitOn '/' with
  | [owner, repo] =>
    if !owner.isEmpty && owner.all isSegmentChar &&
        !repo.isEmpty && repo.all isSegmentChar then
      some (owner, repo)
    else none
  | _ => none

/- The group of the two expressions that allow a `.git`. -/
def captured (text : Text) : Option (Text × Text) :=
  (twoSegments text).bind fun pair =>
    (lazyName pair.2).map fun name => (pair.1, name)

def parseGithubUri (uri : Text) : Option Text :=
  match twoSegments uri,
    (uri.dropPrefix? "https://github.com/".toList).bind captured,
    (uri.dropPrefix? "git@github.com:".toList).bind captured with
  | some (owner, repo), _, _ => checkedOwnerRepo owner repo
  | none, some (owner, repo), _ => checkedOwnerRepo owner repo
  | none, none, some (owner, repo) => checkedOwnerRepo owner repo
  | none, none, none => none

end Identity
