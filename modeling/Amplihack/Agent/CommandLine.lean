import Amplihack.Agent.Store

/-
  The command that resumes an agent, and what is read from it.
-/

-- Options Of Claude

namespace Agent

structure ClaudeOpts where
  model : Option String := none
  effort : Option String := none
  permissionMode : Option String := none
  skipPermissions : Bool := false
  addDirs : List String := []
  resume : Option String := none
  forkSession : Bool := false
  print : Bool := false

/- Options, and warnings for the values that were dropped. -/
abbrev Parsed := ClaudeOpts × List String

def scalars : List String :=
  ["--model", "--effort", "--permission-mode"]

def startsDash (arg : String) : Bool :=
  arg.toList.head? == some '-'

/- `split_once('=')` -/
def splitEq (arg : String) : Option (String × String) :=
  match arg.toList.dropWhile (· ≠ '=') with
  | [] => none
  | _ :: value =>
    some (String.ofList (arg.toList.takeWhile (· ≠ '=')), String.ofList value)

/- Only a long option has its value behind an equals sign. -/
def splitFlag (arg : String) : String × Option String :=
  match splitEq arg with
  | some (flag, value) =>
    if ['-', '-'].isPrefixOf flag.toList then (flag, some value)
    else (arg, none)
  | none => (arg, none)

def dropped (flag value rule : String) : String :=
  "ignored " ++ flag ++ " from the claude command line (" ++
    toString value.utf8ByteSize ++ " bytes): " ++ rule

def idRule : String :=
  "must be 1 to 64 letters, digits or '-', starting with a " ++
    "letter or digit"

def optionRule : String :=
  "must be 1 to 256 bytes, without control characters, and " ++
    "must not start with '-'"

def dirRule : String :=
  "must be a non-empty path without control characters"

/- The value, unless it fails its rule. -/
def checked
    (flag value : String) (passes : Bool) (rule : String)
    (warnings : List String) :
    Option String × List String :=
  if passes then (some value, warnings)
  else (none, warnings ++ [dropped flag value rule])

def keepDir (acc : Parsed) (dir : String) : Parsed :=
  if dir = "" ∨ dir.toList.any isControl then
    (acc.1, acc.2 ++ [dropped "--add-dir" dir dirRule])
  else ({ acc.1 with addDirs := acc.1.addDirs ++ [dir] }, acc.2)

def setResume (acc : Parsed) (value : String) : Parsed :=
  let read := checked "--resume" value (conversationId value)
    idRule acc.2
  ({ acc.1 with resume := read.1 }, read.2)

def setScalar (acc : Parsed) (flag value : String) : Parsed :=
  let read := checked flag value (optionValue value) optionRule
    acc.2
  if flag = "--model" then
    ({ acc.1 with model := read.1 }, read.2)
  else if flag = "--effort" then
    ({ acc.1 with effort := read.1 }, read.2)
  else ({ acc.1 with permissionMode := read.1 }, read.2)

/- One option, and the arguments behind its values. -/
def readOption
    (acc : Parsed) (flag : String) (inline : Option String)
    (rest : List String) :
    Parsed × List String :=
  if flag = "--dangerously-skip-permissions" ∧ inline = none then
    (({ acc.1 with skipPermissions := true }, acc.2), rest)
  else if flag = "--fork-session" ∧ inline = none then
    (({ acc.1 with forkSession := true }, acc.2), rest)
  else if (flag = "-p" ∨ flag = "--print") ∧ inline = none then
    (({ acc.1 with print := true }, acc.2), rest)
  else if flag = "--add-dir" then
    match inline with
    | some value => (keepDir acc value, rest)
    | none =>
      ((rest.takeWhile fun arg => !startsDash arg).foldl keepDir acc,
        rest.dropWhile fun arg => !startsDash arg)
  else if flag = "--resume" ∨ flag = "-r" then
    match inline, rest with
    | some value, _ => (setResume acc value, rest)
    | none, value :: later =>
      if startsDash value then (acc, rest)
      else (setResume acc value, later)
    | none, [] => (acc, rest)
  else if scalars.contains flag then
    match inline, rest with
    | some value, _ => (setScalar acc flag value, rest)
    | none, value :: later => (setScalar acc flag value, later)
    | none, [] => (acc, rest)
  else (acc, rest)

theorem readOption_length
    (acc : Parsed) (flag : String) (inline : Option String)
    (rest : List String) :
    (readOption acc flag inline rest).2.length ≤ rest.length := by
  unfold readOption
  split_ifs
  · exact le_rfl
  · exact le_rfl
  · exact le_rfl
  · cases inline with
    | some value => exact le_rfl
    | none => exact (List.dropWhile_sublist _).length_le
  · cases inline with
    | some value => exact le_rfl
    | none =>
      cases rest with
      | nil => exact le_rfl
      | cons value later =>
        dsimp only
        split
        · exact le_rfl
        · exact Nat.le_succ _
  · cases inline with
    | some value => exact le_rfl
    | none =>
      cases rest with
      | nil => exact le_rfl
      | cons value later => exact Nat.le_succ _
  · exact le_rfl

def parseArgs (acc : Parsed) : List String → Parsed
| [] => acc
| arg :: rest =>
  if arg = "--" then acc
  else
    let split := splitFlag arg
    let read := readOption acc split.1 split.2 rest
    parseArgs read.1 read.2
termination_by args => args.length
decreasing_by
  exact Nat.lt_succ_of_le (readOption_length _ _ _ _)

/- The first argument is the program. -/
def parseClaude (argv : List String) : Parsed :=
  parseArgs ({}, []) (argv.drop 1)

/- A forked session's id is that of its parent. -/
def resumeAsConversation (o : ClaudeOpts) : Option String :=
  if o.forkSession then none else o.resume

-- Flags Of Amplihack

structure AmplihackClaude where
  profile : Option String := none
  subprocessSafe : Bool := false
  noReflection : Bool := false

def skippedValues : List String :=
  ["--checkout-repo", "--append", "--max-turns", "--workstream",
    "--governor-class", "--governor-wait"]

def claudeValues : List String := ["--prompt-file", "--supervise"]

def skippedFlags : List String := ["--docker", "--auto", "--ui"]

def launchFlags : List String :=
  ["--resume", "--continue-session", "--skip-permissions",
    "--skip-update-check"]

/- None where the options of the subcommand end. -/
def readFlag
    (launch : Bool) (a : AmplihackClaude) (flag : String)
    (inline : Option String) (rest : List String) :
    Option (AmplihackClaude × List String) :=
  let takesValue := flag == "--profile" ||
    skippedValues.contains flag ||
    (!launch && claudeValues.contains flag)
  let isFlag :=
    ["--subprocess-safe", "--no-reflection"].contains flag ||
      skippedFlags.contains flag ||
      (launch && launchFlags.contains flag)
  if !takesValue && !(inline.isNone && isFlag) then none
  else
    let value :=
      if takesValue then inline.or rest.head? else none
    let later :=
      if takesValue && inline.isNone then rest.tail else rest
    let read :=
      if flag = "--subprocess-safe" then
        { a with subprocessSafe := true }
      else if flag = "--no-reflection" then
        { a with noReflection := true }
      else if flag = "--profile" then
        { a with profile := value.filter profileName }
      else a
    some (read, later)

variable {launch : Bool} {a b : AmplihackClaude} {flag : String}

theorem readFlag_length
    {inline : Option String} {rest later : List String}
    (hRead : readFlag launch a flag inline rest = some (b, later)) :
    later.length ≤ rest.length := by
  unfold readFlag at hRead
  dsimp only at hRead
  split at hRead
  · cases hRead
  · have hLater := congrArg Prod.snd (Option.some.inj hRead)
    dsimp only at hLater
    rw [← hLater]
    split
    · rw [List.length_tail]
      exact Nat.sub_le _ _
    · exact le_rfl

def readFlags (launch : Bool) (a : AmplihackClaude) :
    List String → AmplihackClaude
| [] => a
| arg :: rest =>
  if arg = "--" then a
  else
    match _hRead : readFlag launch a (splitFlag arg).1
      (splitFlag arg).2 rest with
    | none => a
    | some (b, later) => readFlags launch b later
termination_by args => args.length
decreasing_by
  exact Nat.lt_succ_of_le (readFlag_length ‹_›)

/- What is behind the last slash. -/
def basename (path : String) : String :=
  String.ofList (path.toList.reverse.takeWhile (· ≠ '/')).reverse

def parseAmplihackClaude : List String → Option AmplihackClaude
| program :: subcommand :: args =>
  if basename program ≠ "amplihack" then none
  else if subcommand = "claude" then
    some (readFlags false {} args)
  else if subcommand = "launch" then
    some (readFlags true {} args)
  else none
| _ => none

-- The Command Of A Pane

def sessionMarkers : List String :=
  ["CLAUDECODE", "CLAUDE_CODE", "CLAUDE_CODE_SESSION_ID",
    "CLAUDE_PROJECT_DIR", "CLAUDE_CODE_ENTRYPOINT",
    "COPILOT_CLI", "GITHUB_COPILOT", "GITHUB_COPILOT_AGENT",
    "COPILOT_AGENT"]

def launcherNames : List String :=
  ["CLAUDE_CODE_SESSION_ID", "CLAUDE_CODE_ENTRYPOINT",
    "CLAUDE_PROJECT_DIR", "AMPLIHACK_SESSION_ID",
    "AMPLIHACK_DEPTH", "AMPLIHACK_SESSION_DEPTH",
    "AMPLIHACK_TREE_ID", "CLAUDE_CONFIG_DIR",
    "AMPLIHACK_CLAUDE_PROFILE"]

/- First occurrences only. -/
def paneUnset : List String :=
  (sessionMarkers ++ launcherNames).eraseDups

def envArguments (e : Entry) : List String :=
  "env" :: paneUnset.flatMap (fun name => ["-u", name]) ++
    e.env.map fun pair => pair.1 ++ "=" ++ pair.2

/- An option with its value, when there is one. -/
def valued (flag : String) (value : Option String) :
    List String :=
  match value with
  | none => []
  | some v => [flag, v]

def flagArguments (name : String) (flags : AmplihackFlags) :
    List String :=
  (if flags.subprocessSafe then ["--subprocess-safe"] else []) ++
    (if flags.noReflection then ["--no-reflection"] else []) ++
    valued "--profile" flags.profile ++ ["--supervise", name]

def modeArguments (e : Entry) : List String :=
  match e.permissionMode with
  | some mode => ["--permission-mode", mode]
  | none =>
    if e.skipPermissions then
      ["--dangerously-skip-permissions"]
    else []

/- The message stands before the directories, which go on. -/
def claudeArguments (e : Entry) (msg : String) : List String :=
  valued "--resume" e.conversationId ++ [msg] ++
    valued "--model" e.model ++ valued "--effort" e.effort ++
    e.addDirs.flatMap (fun dir => ["--add-dir", dir]) ++
    modeArguments e

/- From the binary path on. -/
def binaryArguments (name : String) (e : Entry) (exe msg : String) :
    List String :=
  exe :: "claude" :: flagArguments name e.amplihackFlags ++
    "--" :: claudeArguments e msg

def paneCommand (name : String) (e : Entry) (exe msg : String) :
    List String :=
  envArguments e ++ binaryArguments name e exe msg

/- What stands behind the first bare `--`. -/
def afterDashes (args : List String) : List String :=
  (args.dropWhile (· ≠ "--")).drop 1

-- Reading One Option

variable {acc : Parsed}
variable {rest : List String}

variable {arg : String}

/- A word that is no option is none with a value either. -/
theorem splitFlag_of_not_dash
    (hWord : startsDash arg = false) :
    splitFlag arg = (arg, none) := by
  unfold splitFlag splitEq
  cases hDrop : arg.toList.dropWhile (· ≠ '=') with
  | nil => rfl
  | cons c value =>
    dsimp only
    rw [if_neg]
    intro hLong
    rw [String.toList_ofList] at hLong
    unfold startsDash at hWord
    cases hArg : arg.toList with
    | nil =>
      rw [hArg] at hDrop
      cases hDrop
    | cons first others =>
      rw [hArg] at hLong hWord
      by_cases hFirst : first = '='
      · subst hFirst
        simp at hLong
      · rw [List.takeWhile_cons_of_pos (by simpa using hFirst),
          List.isPrefixOf_cons_cons, Bool.and_eq_true, beq_iff_eq] at hLong
        rw [← hLong.1] at hWord
        cases hWord

theorem parseArgs_cons
    (hArg : arg ≠ "--") :
    parseArgs acc (arg :: rest) =
      parseArgs
        (readOption acc (splitFlag arg).1 (splitFlag arg).2 rest).1
        (readOption acc (splitFlag arg).1 (splitFlag arg).2 rest).2 := by
  rw [parseArgs, if_neg hArg]

theorem parseArgs_nil : parseArgs acc [] = acc := by
  rw [parseArgs]

/- A word that is no option changes nothing. -/
theorem parseArgs_word
    {word : String} (hWord : startsDash word = false) :
    parseArgs acc (word :: rest) = parseArgs acc rest := by
  have hNot : ∀ flag : String, startsDash flag = true → word ≠ flag := by
    intro flag hFlag hSame
    rw [hSame, hFlag] at hWord
    cases hWord
  rw [parseArgs_cons (hNot "--" (by decide)), splitFlag_of_not_dash hWord]
  have hRead : readOption acc word none rest = (acc, rest) := by
    unfold readOption
    rw [if_neg (fun h => hNot _ (by decide) h.1),
      if_neg (fun h => hNot _ (by decide) h.1),
      if_neg (fun h => h.1.elim (hNot _ (by decide)) (hNot _ (by decide))),
      if_neg (hNot _ (by decide)),
      if_neg (fun h => h.elim (hNot _ (by decide)) (hNot _ (by decide))),
      if_neg]
    intro hScalar
    have hMem : word ∈ scalars := by simpa using hScalar
    have hDash : ∀ flag ∈ scalars, startsDash flag = true := by decide
    exact hNot word (hDash word hMem) rfl
  rw [hRead]

variable {s : String}

theorem not_dash_of_alnum
    {most : ℕ} {p : Char → Bool} (hName : leadingAlnum s most p = true) :
    startsDash s = false := by
  unfold leadingAlnum at hName
  unfold startsDash
  cases hChars : s.toList with
  | nil => rfl
  | cons first later =>
    rw [hChars] at hName
    dsimp only at hName
    rw [Bool.and_eq_true, Bool.and_eq_true] at hName
    have hNe : first ≠ '-' := by
      rintro rfl
      exact absurd hName.1.1 (by decide)
    simp [hNe]

theorem parseArgs_resume
    (id : Option String) (hId : id.all conversationId = true)
    (hNone : acc.1.resume = none) :
    parseArgs acc (valued "--resume" id ++ rest) =
      parseArgs ({ acc.1 with resume := id }, acc.2) rest := by
  cases id with
  | none =>
    rcases acc with ⟨o, w⟩
    cases o
    dsimp only at hNone
    subst hNone
    rfl
  | some v =>
    have hValid : conversationId v = true := hId
    have hWord : startsDash v = false := not_dash_of_alnum hValid
    have hSplit : splitFlag "--resume" = ("--resume", none) := by
      decide +kernel
    have hRead : readOption acc "--resume" none (v :: rest) =
        (setResume acc v, rest) := by
      unfold readOption
      simp [hWord]
    rw [valued, List.cons_append, List.cons_append, List.nil_append,
      parseArgs_cons (by decide), hSplit, hRead]
    unfold setResume checked
    rw [if_pos hValid]

variable {v : String}

theorem readOption_scalar
    (hFlag : flag ∈ scalars) :
    readOption acc flag none (v :: rest) = (setScalar acc flag v, rest) := by
  unfold scalars at hFlag
  simp only [List.mem_cons, List.not_mem_nil, or_false] at hFlag
  rcases hFlag with rfl | rfl | rfl
  · simp [readOption, scalars]
  · simp [readOption, scalars]
  · simp [readOption, scalars]

theorem splitFlag_scalar
    (hFlag : flag ∈ scalars) :
    splitFlag flag = (flag, none) ∧ flag ≠ "--" := by
  revert flag
  decide +kernel

/- The value of a scalar option is set when it is valid. -/
theorem parseArgs_scalar
    (hFlag : flag ∈ scalars) :
    parseArgs acc (flag :: v :: rest) =
      parseArgs (setScalar acc flag v) rest := by
  rcases splitFlag_scalar hFlag with ⟨hSplit, hNe⟩
  rw [parseArgs_cons hNe, hSplit, readOption_scalar hFlag]

theorem parseArgs_model
    (model : Option String) (hModel : model.all optionValue = true)
    (hNone : acc.1.model = none) :
    parseArgs acc (valued "--model" model ++ rest) =
      parseArgs ({ acc.1 with model := model }, acc.2) rest := by
  cases model with
  | none =>
    rcases acc with ⟨o, w⟩
    cases o
    dsimp only at hNone
    subst hNone
    rfl
  | some v =>
    have hValid : optionValue v = true := hModel
    have hFlag : "--model" ∈ scalars := by decide
    rw [valued, List.cons_append, List.cons_append,
      List.nil_append, parseArgs_scalar hFlag]
    unfold setScalar checked
    rw [if_pos hValid]
    rfl

theorem parseArgs_effort
    (effort : Option String) (hEffort : effort.all optionValue = true)
    (hNone : acc.1.effort = none) :
    parseArgs acc (valued "--effort" effort ++ rest) =
      parseArgs ({ acc.1 with effort := effort }, acc.2)
        rest := by
  cases effort with
  | none =>
    rcases acc with ⟨o, w⟩
    cases o
    dsimp only at hNone
    subst hNone
    rfl
  | some v =>
    have hValid : optionValue v = true := hEffort
    have hFlag : "--effort" ∈ scalars := by decide
    rw [valued, List.cons_append, List.cons_append,
      List.nil_append, parseArgs_scalar hFlag]
    unfold setScalar checked
    rw [if_pos hValid]
    rfl

variable {path : String}

theorem not_dash_of_absolute
    (hPath : directoryLexical path = true) :
    startsDash path = false := by
  unfold directoryLexical isAbsolute at hPath
  rw [Bool.and_eq_true, beq_iff_eq] at hPath
  unfold startsDash
  rw [hPath.1]
  rfl

/- A directory of an entry passes the rule of the parser. -/
theorem keepDir_of_lexical
    (hPath : directoryLexical path = true) :
    keepDir acc path =
      ({ acc.1 with addDirs := acc.1.addDirs ++ [path] }, acc.2) := by
  unfold keepDir
  rw [if_neg]
  unfold directoryLexical isAbsolute at hPath
  rw [Bool.and_eq_true, beq_iff_eq, Bool.not_eq_true',
    List.any_eq_false] at hPath
  rintro (rfl | hControl)
  · cases hPath.1
  · rcases List.any_eq_true.mp hControl with ⟨c, hMem, hC⟩
    apply hPath.2 c hMem
    unfold unsafeChar
    simp [hC]

/- What follows a directory is an option, or nothing. -/
def EndsWords (rest : List String) : Prop :=
  ∀ arg ∈ rest.head?, startsDash arg = true

theorem takeWhile_endsWords (hEnds : EndsWords rest) :
    rest.takeWhile (fun arg => !startsDash arg) = [] ∧
      rest.dropWhile (fun arg => !startsDash arg) = rest := by
  cases rest with
  | nil => exact ⟨rfl, rfl⟩
  | cons first others =>
    have hFirst : startsDash first = true := hEnds first rfl
    simp [hFirst]

theorem parseArgs_dir
    {dir : String} (hDir : directoryLexical dir = true)
    (hEnds : EndsWords rest) :
    parseArgs acc ("--add-dir" :: dir :: rest) =
      parseArgs
        ({ acc.1 with addDirs := acc.1.addDirs ++ [dir] }, acc.2) rest := by
  have hWord := not_dash_of_absolute hDir
  have hSplit : splitFlag "--add-dir" = ("--add-dir", none) := by
    decide +kernel
  have hRead : readOption acc "--add-dir" none (dir :: rest) =
      (keepDir acc dir, rest) := by
    rcases takeWhile_endsWords hEnds with ⟨hTake, hDrop⟩
    unfold readOption
    rw [if_neg (by decide), if_neg (by decide),
      if_neg (by decide), if_pos rfl]
    rw [List.takeWhile_cons_of_pos (by simp [hWord]), hTake,
      List.dropWhile_cons_of_pos (by simp [hWord]), hDrop]
    rfl
  rw [parseArgs_cons (by decide), hSplit, hRead, keepDir_of_lexical hDir]

theorem endsWords_dirs
    (dirs : List String) (hEnds : EndsWords rest) :
    EndsWords (dirs.flatMap (fun dir => ["--add-dir", dir]) ++ rest) := by
  cases dirs with
  | nil => exact hEnds
  | cons dir dirs =>
    intro arg hArg
    cases hArg
    decide

theorem parseArgs_dirs
    (dirs : List String) (hDirs : dirs.all directoryLexical = true)
    (hEnds : EndsWords rest) :
    parseArgs acc
        (dirs.flatMap (fun dir => ["--add-dir", dir]) ++ rest) =
      parseArgs
        ({ acc.1 with addDirs := acc.1.addDirs ++ dirs }, acc.2)
        rest := by
  induction dirs generalizing acc with
  | nil =>
    rw [List.append_nil]
    rfl
  | cons dir dirs ih =>
    rw [List.all_cons, Bool.and_eq_true] at hDirs
    have hTail := endsWords_dirs dirs hEnds
    rw [List.flatMap_cons, List.append_assoc]
    refine (parseArgs_dir hDirs.1 hTail).trans ?_
    rw [ih hDirs.2]
    simp

/- A permission mode wins over skipping permissions. -/
theorem parseArgs_mode
    (e : Entry) (hMode : e.permissionMode.all optionValue = true)
    (hNone : acc.1.permissionMode = none)
    (hSkip : acc.1.skipPermissions = false) :
    parseArgs acc (modeArguments e) =
      ({ acc.1 with
         permissionMode := e.permissionMode
         skipPermissions :=
           e.skipPermissions && e.permissionMode.isNone },
        acc.2) := by
  unfold modeArguments
  rcases acc with ⟨o, w⟩
  cases o
  dsimp only at hNone hSkip
  subst hNone hSkip
  cases hRecorded : e.permissionMode with
  | some v =>
    rw [hRecorded] at hMode
    have hValid : optionValue v = true := hMode
    have hFlag : "--permission-mode" ∈ scalars := by decide
    rw [parseArgs_scalar hFlag, parseArgs_nil]
    unfold setScalar checked
    rw [if_pos hValid]
    simp
  | none =>
    cases e.skipPermissions with
    | false => exact parseArgs_nil
    | true =>
      have hSplit :
          splitFlag "--dangerously-skip-permissions" =
            ("--dangerously-skip-permissions", none) := by
        decide +kernel
      rw [if_pos rfl, parseArgs_cons (by decide), hSplit]
      unfold readOption
      rw [if_pos ⟨rfl, rfl⟩, parseArgs_nil]
      rfl

theorem endsWords_mode (e : Entry) :
    EndsWords (modeArguments e) := by
  unfold modeArguments
  cases e.permissionMode with
  | some mode =>
    intro arg hArg
    cases hArg
    decide
  | none =>
    cases e.skipPermissions with
    | false =>
      intro arg hArg
      cases hArg
    | true =>
      intro arg hArg
      cases hArg
      decide

-- Reading The Command Of A Pane

variable {c : Chrono}
variable {name : String}
variable {e : Entry}

/- The rules that the options of a valid entry pass. -/
structure ValidOptions (name : String) (e : Entry) : Prop where
  name : agentName name = true
  conversationId : e.conversationId.all conversationId = true
  model : e.model.all optionValue = true
  effort : e.effort.all optionValue = true
  permissionMode : e.permissionMode.all optionValue = true
  profile : e.amplihackFlags.profile.all profileName = true
  addDirs : e.addDirs.all directoryLexical = true

theorem validOptions_of_invalidField
    (hValid : invalidField c name e = none) :
    ValidOptions name e := by
  unfold invalidField at hValid
  rw [Option.map_eq_none_iff, List.find?_eq_none] at hValid
  unfold fieldChecks at hValid
  simp only [List.forall_mem_append, List.forall_mem_cons,
    Bool.not_eq_true', Bool.not_eq_false] at hValid
  rcases hValid with ⟨⟨hName, -, -, -, -, hId, hModel, hEffort,
    hMode, hProfile, hDirs, -⟩, -⟩
  exact ⟨hName, hId, hModel, hEffort, hMode, hProfile, hDirs⟩

/- The options that are read from those written. -/
def Entry.opts (e : Entry) : ClaudeOpts where
  model := e.model
  effort := e.effort
  permissionMode := e.permissionMode
  skipPermissions := e.skipPermissions && e.permissionMode.isNone
  addDirs := e.addDirs
  resume := e.conversationId

variable {msg : String}

theorem parseArgs_claudeArguments
    (hValid : ValidOptions name e) (hMsg : startsDash msg = false) :
    parseArgs ({}, []) (claudeArguments e msg) = (e.opts, []) := by
  unfold claudeArguments
  simp only [List.append_assoc]
  rw [parseArgs_resume e.conversationId hValid.conversationId
      rfl,
    List.singleton_append, parseArgs_word hMsg,
    parseArgs_model e.model hValid.model rfl,
    parseArgs_effort e.effort hValid.effort rfl,
    parseArgs_dirs e.addDirs hValid.addDirs (endsWords_mode e),
    parseArgs_mode e hValid.permissionMode rfl rfl]
  rfl

theorem readFlags_of_some
    {later : List String} (hArg : arg ≠ "--")
    (hRead : readFlag launch a (splitFlag arg).1
      (splitFlag arg).2 rest = some (b, later)) :
    readFlags launch a (arg :: rest) = readFlags launch b later := by
  rw [readFlags, if_neg hArg]
  split
  next hNone =>
    rw [hRead] at hNone
    cases hNone
  next b' later' hSome =>
    rw [hRead] at hSome
    cases hSome
    rfl

theorem readFlags_dashes
    (launch : Bool) (a : AmplihackClaude) :
    readFlags launch a ("--" :: rest) = a := by
  rw [readFlags, if_pos rfl]

theorem readFlags_supervise (a : AmplihackClaude) :
    readFlags false a ("--supervise" :: name :: "--" :: rest) =
      a := by
  have hSplit : splitFlag "--supervise" = ("--supervise", none) := by
    decide +kernel
  have hRead :
      readFlag false a "--supervise" none
        (name :: "--" :: rest) = some (a, "--" :: rest) := by
    simp [readFlag, skippedValues, claudeValues]
  rw [readFlags_of_some (by decide) (by rw [hSplit]; exact hRead),
    readFlags_dashes]

/- A profile that passes its rule is kept. -/
theorem readFlags_profile
    (profile : Option String) (hProfile : profile.all profileName = true)
    (a : AmplihackClaude) (hNone : a.profile = none) :
    readFlags false a (valued "--profile" profile ++ rest) =
      readFlags false { a with profile := profile } rest := by
  cases profile with
  | none =>
    cases a
    dsimp only at hNone
    subst hNone
    rfl
  | some p =>
    have hValid : profileName p = true := hProfile
    have hSplit : splitFlag "--profile" = ("--profile", none) := by
      decide +kernel
    have hRead :
        readFlag false a "--profile" none (p :: rest) =
          some ({ a with profile := some p }, rest) := by
      simp [readFlag, hValid]
    rw [valued, List.cons_append, List.cons_append, List.nil_append,
      readFlags_of_some (by decide) (by rw [hSplit]; exact hRead)]

theorem readFlags_noReflection
    (given : Bool) (a : AmplihackClaude) (hFalse : a.noReflection = false) :
    readFlags false a
        ((if given then ["--no-reflection"] else []) ++ rest) =
      readFlags false { a with noReflection := given } rest := by
  cases given with
  | false =>
    cases a
    dsimp only at hFalse
    subst hFalse
    rfl
  | true =>
    have hSplit : splitFlag "--no-reflection" =
        ("--no-reflection", none) := by
      decide +kernel
    have hRead :
        readFlag false a "--no-reflection" none rest =
          some ({ a with noReflection := true }, rest) := rfl
    rw [if_pos rfl, List.singleton_append,
      readFlags_of_some (by decide) (by rw [hSplit]; exact hRead)]

theorem readFlags_subprocessSafe
    (given : Bool) (a : AmplihackClaude) (hFalse : a.subprocessSafe = false) :
    readFlags false a
        ((if given then ["--subprocess-safe"] else []) ++ rest) =
      readFlags false { a with subprocessSafe := given }
        rest := by
  cases given with
  | false =>
    cases a
    dsimp only at hFalse
    subst hFalse
    rfl
  | true =>
    have hSplit : splitFlag "--subprocess-safe" =
        ("--subprocess-safe", none) := by
      decide +kernel
    have hRead :
        readFlag false a "--subprocess-safe" none rest =
          some ({ a with subprocessSafe := true }, rest) := rfl
    rw [if_pos rfl, List.singleton_append,
      readFlags_of_some (by decide) (by rw [hSplit]; exact hRead)]

/- The flags before the dashes are those of the entry. -/
theorem readFlags_flagArguments
    (flags : AmplihackFlags)
    (hProfile : flags.profile.all profileName = true) :
    readFlags false {}
        (flagArguments name flags ++ "--" :: rest) =
      { profile := flags.profile
        subprocessSafe := flags.subprocessSafe
        noReflection := flags.noReflection } := by
  unfold flagArguments
  simp only [List.append_assoc]
  rw [readFlags_subprocessSafe flags.subprocessSafe {} rfl,
    readFlags_noReflection flags.noReflection _ rfl,
    readFlags_profile flags.profile hProfile _ rfl]
  exact readFlags_supervise _

/- A path of the binary. -/
def EndsInAmplihack (exe : String) : Prop :=
  ∃ dir : List Char, exe.toList = dir ++ "/amplihack".toList

variable {exe : String}

theorem EndsInAmplihack.basename_eq
    (hExe : EndsInAmplihack exe) :
    basename exe = "amplihack" := by
  rcases hExe with ⟨dir, hExe⟩
  have hReverse : "/amplihack".toList.reverse =
      "amplihack".toList.reverse ++ ['/'] := by decide
  have hLetters :
      ∀ c ∈ "amplihack".toList.reverse,
        decide (c ≠ '/') = true := List.all_eq_true.1 rfl
  unfold basename
  rw [hExe, List.reverse_append, hReverse, List.append_assoc,
    List.takeWhile_append_of_pos hLetters, List.singleton_append,
    List.takeWhile_cons_of_neg (by decide), List.append_nil,
    List.reverse_reverse]
  decide

theorem ne_dashes_of_not_dash
    (hWord : startsDash s = false) :
    s ≠ "--" := by
  rintro rfl
  cases hWord

theorem not_dash_of_profile
    {p : String} (hProfile : profileName p = true) :
    startsDash p = false := by
  unfold profileName at hProfile
  simp only [Bool.and_eq_true] at hProfile
  exact not_dash_of_alnum hProfile.1.1.1

/- Nothing before the bare dashes is taken for them. -/
theorem afterDashes_binaryArguments
    (hValid : ValidOptions name e) (hExe : EndsInAmplihack exe) :
    afterDashes (binaryArguments name e exe msg) = claudeArguments e msg := by
  have hName := not_dash_of_alnum hValid.name
  have hBinary : exe ≠ "--" := by
    rintro rfl
    exact absurd hExe.basename_eq (by decide)
  have hProfile : ∀ arg ∈
      valued "--profile" e.amplihackFlags.profile, arg ≠ "--" := by
    intro arg hMem
    cases hRecorded : e.amplihackFlags.profile with
    | none =>
      rw [hRecorded] at hMem
      exact (List.not_mem_nil hMem).elim
    | some p =>
      have hRule := hValid.profile
      rw [hRecorded] at hMem hRule
      simp only [valued, List.mem_cons, List.not_mem_nil, or_false] at hMem
      rcases hMem with rfl | rfl
      · decide
      · exact ne_dashes_of_not_dash (not_dash_of_profile hRule)
  have hBefore : ∀ arg ∈
      exe :: "claude" :: flagArguments name e.amplihackFlags,
        decide (arg ≠ "--") = true := by
    intro arg hMem
    rw [decide_eq_true_eq]
    unfold flagArguments at hMem
    simp only [List.mem_cons, List.mem_append, List.not_mem_nil,
      or_false] at hMem
    rcases hMem with rfl | rfl | ((hSafe | hQuiet) | hMem) |
      rfl | rfl
    · exact hBinary
    · decide
    · split at hSafe
      · cases List.mem_singleton.mp hSafe
        decide
      · exact (List.not_mem_nil hSafe).elim
    · split at hQuiet
      · cases List.mem_singleton.mp hQuiet
        decide
      · exact (List.not_mem_nil hQuiet).elim
    · exact hProfile arg hMem
    · decide
    · exact ne_dashes_of_not_dash hName
  have hSplit : binaryArguments name e exe msg =
      (exe :: "claude" :: flagArguments name e.amplihackFlags) ++
        "--" :: claudeArguments e msg := rfl
  unfold afterDashes
  rw [hSplit, List.dropWhile_append_of_pos hBefore,
    List.dropWhile_cons_of_neg (by decide)]
  rfl

-- Resuming Again And Again

def joinPath (base path : String) : String :=
  if isAbsolute path then path
  else if base.toList.getLast? = some '/' then base ++ path
  else base ++ "/" ++ path

def addDir (base path : String) : Option String :=
  let full := joinPath base path
  if directoryLexical full then some full else none

/-
  What the wrapper records once the pane runs its command:
  the launch fields that are read from it. The terminal, the
  directory and the environment are the same again, and the
  profile is still there.
-/
def Entry.relaunch (name exe msg : String) (e : Entry) :
    Option Entry :=
  let argv := binaryArguments name e exe msg
  match parseAmplihackClaude argv with
  | none => none
  | some a =>
    let o := (parseClaude ("claude" :: afterDashes argv)).1
    if o.print then none
    else
      (o.addDirs.mapM (addDir e.launchDir)).map fun dirs =>
        { e with
          conversationId := resumeAsConversation o
          model := o.model
          effort := o.effort
          addDirs := dirs
          skipPermissions :=
            o.skipPermissions && o.permissionMode.isNone
          permissionMode := o.permissionMode
          amplihackFlags :=
            { subprocessSafe := a.subprocessSafe
              noReflection := a.noReflection
              profile := a.profile } }

/- Without the skip flag beside a permission mode. -/
def Entry.settled (e : Entry) : Entry :=
  { e with
    skipPermissions :=
      e.skipPermissions && e.permissionMode.isNone }

theorem settled_settled (e : Entry) :
    e.settled.settled = e.settled := by
  unfold Entry.settled
  rw [Bool.and_assoc, Bool.and_self]

theorem parseAmplihackClaude_binaryArguments
    (hValid : ValidOptions name e) (msg : String)
    (hExe : EndsInAmplihack exe) :
    parseAmplihackClaude (binaryArguments name e exe msg) =
      some
        { profile := e.amplihackFlags.profile
          subprocessSafe := e.amplihackFlags.subprocessSafe
          noReflection := e.amplihackFlags.noReflection } := by
  have hSplit : binaryArguments name e exe msg =
      exe :: "claude" ::
        (flagArguments name e.amplihackFlags ++
          "--" :: claudeArguments e msg) := rfl
  rw [hSplit, parseAmplihackClaude, if_neg (fun hNe => hNe hExe.basename_eq),
    if_pos rfl, readFlags_flagArguments _ hValid.profile]

theorem parseClaude_binaryArguments
    (hValid : ValidOptions name e) (program : String)
    (hExe : EndsInAmplihack exe) (hMsg : startsDash msg = false) :
    parseClaude
        (program :: afterDashes (binaryArguments name e exe msg)) =
      (e.opts, []) := by
  rw [afterDashes_binaryArguments hValid hExe]
  exact parseArgs_claudeArguments hValid hMsg

theorem mapM_addDir
    (base : String) (dirs : List String)
    (hDirs : dirs.all directoryLexical = true) :
    dirs.mapM (addDir base) = some dirs := by
  induction dirs with
  | nil => rfl
  | cons dir dirs ih =>
    rw [List.all_cons, Bool.and_eq_true] at hDirs
    have hAbsolute : isAbsolute dir = true := by
      have hRule := hDirs.1
      unfold directoryLexical at hRule
      rw [Bool.and_eq_true] at hRule
      exact hRule.1
    have hAdd : addDir base dir = some dir := by
      unfold addDir joinPath
      simp [hAbsolute, hDirs.1]
    rw [List.mapM_cons, hAdd, ih hDirs.2]
    rfl

/- A resume records what it was started with. -/
theorem relaunch_eq
    (hValid : ValidOptions name e) (hExe : EndsInAmplihack exe)
    (hMsg : startsDash msg = false) :
    e.relaunch name exe msg = some e.settled := by
  unfold Entry.relaunch
  dsimp only
  rw [parseAmplihackClaude_binaryArguments hValid msg hExe]
  dsimp only
  rw [parseClaude_binaryArguments hValid "claude" hExe hMsg]
  unfold Entry.opts resumeAsConversation
  dsimp only
  rw [if_neg (by decide), mapM_addDir _ _ hValid.addDirs,
    if_neg (by decide), Bool.and_assoc, Bool.and_self]
  rfl

theorem ValidOptions.settled
    (hValid : ValidOptions name e) :
    ValidOptions name e.settled :=
  ⟨hValid.name, hValid.conversationId, hValid.model,
    hValid.effort, hValid.permissionMode, hValid.profile,
    hValid.addDirs⟩

/- Binary paths and messages of later resumes. -/
def Entry.relaunchAll
    (name : String) (launches : List (String × String)) (e : Entry) :
    Option Entry :=
  launches.foldlM (fun e l => e.relaunch name l.1 l.2) e

theorem relaunchAll_settled
    (launches : List (String × String)) (hValid : ValidOptions name e)
    (hLaunches : ∀ l ∈ launches,
      EndsInAmplihack l.1 ∧ startsDash l.2 = false) :
    e.settled.relaunchAll name launches = some e.settled := by
  unfold Entry.relaunchAll
  induction launches with
  | nil => rfl
  | cons l launches ih =>
    rcases hLaunches l List.mem_cons_self with ⟨hExe, hMsg⟩
    rw [List.foldlM_cons, relaunch_eq hValid.settled hExe hMsg,
      settled_settled]
    exact ih fun m hMem =>
      hLaunches m (List.mem_cons_of_mem l hMem)

/-
  The command of a valid entry is read back as its options,
  save that a permission mode wins over the skip flag, and
  no number of resumes changes them again.
-/
theorem resumed_options
    (c : Chrono) (name : String) (e : Entry) (id exe msg program : String)
    (hValid : invalidField c name e = none)
    (hConversation : e.conversationId = some id)
    (hExe : EndsInAmplihack exe) (hMsg : startsDash msg = false) :
    paneCommand name e exe msg =
        envArguments e ++ binaryArguments name e exe msg ∧
      parseAmplihackClaude (binaryArguments name e exe msg) =
        some
          { profile := e.amplihackFlags.profile
            subprocessSafe := e.amplihackFlags.subprocessSafe
            noReflection := e.amplihackFlags.noReflection } ∧
      parseClaude
          (program :: afterDashes (binaryArguments name e exe msg)) =
        ({ model := e.model
           effort := e.effort
           permissionMode := e.permissionMode
           skipPermissions :=
             e.skipPermissions && e.permissionMode.isNone
           addDirs := e.addDirs
           resume := some id
           forkSession := false
           print := false },
          []) ∧
      ∀ launches : List (String × String), launches ≠ [] →
        (∀ l ∈ launches, EndsInAmplihack l.1 ∧ startsDash l.2 = false) →
        e.relaunchAll name launches =
          some { e with
            skipPermissions :=
              e.skipPermissions && e.permissionMode.isNone } := by
  have hOptions := validOptions_of_invalidField hValid
  refine ⟨rfl, parseAmplihackClaude_binaryArguments hOptions msg hExe, ?_, ?_⟩
  · rw [parseClaude_binaryArguments hOptions program hExe hMsg,
      Entry.opts, hConversation]
  · intro launches hSome hLaunches
    cases launches with
    | nil => exact absurd rfl hSome
    | cons l launches =>
      rcases hLaunches l List.mem_cons_self with ⟨hFirst, hWord⟩
      have hRest := relaunchAll_settled launches hOptions
        fun m hMem => hLaunches m (List.mem_cons_of_mem l hMem)
      unfold Entry.relaunchAll at hRest ⊢
      rw [List.foldlM_cons, relaunch_eq hOptions hFirst hWord]
      exact hRest

/- The one instant that is written and read here. -/
def epochOnly : Chrono where
  format := fun t => if t = 0 then some unixEpoch else none
  parse := fun s => if s = unixEpoch then some 0 else none

/- A permission mode beside the skip flag. -/
def bothModes : Entry :=
  { Entry.new "work" "agent" "/srv/project" unixEpoch
      "0123456789abcdef0123456789abcdef" with
    conversationId := some "0b6c3f2e"
    permissionMode := some "plan"
    skipPermissions := true }

theorem resumed_options_of_both :
    parseClaude
        ("claude" :: afterDashes (binaryArguments "a" bothModes
          "/usr/bin/amplihack" "go on")) =
      ({ permissionMode := some "plan"
         resume := some "0b6c3f2e" }, []) := by
  have hAll := resumed_options epochOnly "a" bothModes
    "0b6c3f2e" "/usr/bin/amplihack" "go on" "claude"
    (by decide +kernel) rfl ⟨"/usr/bin".toList, by decide⟩
    (by decide)
  exact hAll.2.2.1

/- The skip flag of the entry does not come back. -/
theorem permission_mode_wins :
    ¬ ∀ (c : Chrono) (name : String) (e : Entry)
        (exe msg program : String),
      invalidField c name e = none →
      e.conversationId ≠ none →
      EndsInAmplihack exe → startsDash msg = false →
        (parseClaude (program :: afterDashes
          (binaryArguments name e exe msg))).1.skipPermissions =
            e.skipPermissions := by
  intro hAll
  have hValid : invalidField epochOnly "a" bothModes = none := by
    decide +kernel
  have hExe : EndsInAmplihack "/usr/bin/amplihack" :=
    ⟨"/usr/bin".toList, by decide⟩
  have hSame := hAll epochOnly "a" bothModes
    "/usr/bin/amplihack" "go on" "claude" hValid
    (fun hNone => by cases hNone) hExe (by decide)
  rw [parseClaude_binaryArguments
    (validOptions_of_invalidField hValid) "claude" hExe
    (by decide)] at hSame
  cases hSame

end Agent
