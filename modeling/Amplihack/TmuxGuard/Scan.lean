import Amplihack.TmuxGuard.Invocation
import Amplihack.Base.Search
import Amplihack.Base.Utf8
import Amplihack.TailFollow.Guard

/-
  What the scan of a command line reads off its commands.

  The guard against a tmux command that kills a server or
  all of its sessions.

  The state of a check is the re-parses that are left and the
  tainted variables, and counts the scans made.
-/

-- Programs

namespace TmuxGuard

open Base Shell

/- Programs whose arguments are data. -/
def dataPrograms : List String :=
  ["git", "gh", "echo", "printf", "grep", "egrep", "fgrep",
    "rg", "cat", "head", "tail", "wc", "jq", "test", "[",
    "true", ":"]

/- Programs that run text, or another command, as code. -/
def shellEvaluators : List String :=
  ["sh", "bash", "zsh", "dash", "ksh", "fish", "eval",
    "source", ".", "xargs", "nohup", "exec", "parallel",
    "watch", "script", "su", "sudo", "ssh", "docker",
    "kubectl", "find", "tmux", "setsid", "python", "python3",
    "node", "perl", "ruby"]

/- The git subcommands whose arguments are data. -/
def gitDataSubcommands : List String :=
  ["add", "commit", "diff", "log", "notes", "show", "stash", "status", "tag"]

/- The git subcommands that run their arguments. -/
def gitCommandRunners : List String :=
  ["config", "clone", "rebase", "bisect", "submodule",
    "difftool", "mergetool", "filter-branch", "for-each-repo"]

/- The global options of git with a separate value. -/
def gitValueOpts : List String :=
  ["-C", "-c", "--git-dir", "--work-tree", "--namespace",
    "--config-env", "--super-prefix"]

/- The first word after git's options, from a value or not. -/
def gitSubcommand : Bool → List Text → Option Text
| _, [] => none
| true, _ :: rest => gitSubcommand false rest
| false, w :: rest =>
  if isOneOf gitValueOpts w then gitSubcommand true rest
  else if startsWith w "-" then gitSubcommand false rest
  else some w

def gitRunsCommands (args : List Text) : Bool :=
  (gitSubcommand false args).any (isOneOf gitCommandRunners)

def isRecipeRun (args : List Text) : Bool :=
  args.head?.any (isOneOf ["recipe"]) && args[1]?.any (isOneOf ["run"])

/- The word before the one at `k`. -/
def wordBefore (words : List Text) (k : ℕ) : Option Text :=
  if k = 0 then none else words[k - 1]?

def isContextValue (words : List Text) (k : ℕ) : Bool :=
  match words[k]? with
  | none => false
  | some word =>
    startsWith word "--context=" ||
      (startsWith word "-c" && !startsWith word "--" && 2 < word.length) ||
      (wordBefore words k).any (isOneOf ["-c", "--context"])

def gitRunsValue (words : List Text) (k : ℕ) : Bool :=
  match words[k]? with
  | none => false
  | some word =>
    contains word "=!" ||
      (startsWith word "-c" && 2 < word.length) ||
      (wordBefore words k).any (isOneOf ["-c"])

/- The index of the program word, or of the end. -/
def programStart (words : List Text) : Checked ℕ := do
  let found ← program words
  Checked.sub words.length ((found.map List.length).getD 0)

/- Whether the command runs text as code. -/
def isEvaluator (cmd : SimpleCommand) : Checked Bool := do
  let words := cmd.words
  let start ← programStart words
  let named := (words.take (start + 1)).any fun w =>
    isOneOf shellEvaluators (lower (basename w))
  let envSplit :=
    words.head?.any (fun w => isOneOf ["env"] (basename w)) &&
      words.any fun w =>
        startsWith w "-S" || startsWith w "--split-string"
  let prog := words[start]?.map basename
  let gitRunner := prog.any (isOneOf ["git"]) &&
    gitRunsCommands (words.drop (start + 1))
  let ghAlias := prog.any (isOneOf ["gh"]) &&
    words[start + 1]?.any (isOneOf ["alias"])
  let assigned := prog.any (isOneOf ["git", "gh"]) &&
    (words.take start).any isAssignment
  return named || envSplit || gitRunner || ghAlias || assigned

theorem programStart_total (words : List Text) :
    Total (programStart words) := by
  rcases program_ok words with ⟨found, hFound, hSuffix⟩
  have hLe : (found.map List.length).getD 0 ≤
      words.length := by
    cases found with
    | none => exact Nat.zero_le _
    | some rest => exact (hSuffix rest rfl).length_le
  unfold programStart
  rw [hFound, Checked.ok_bind, Checked.sub, if_pos hLe]
  exact ⟨_, rfl⟩

theorem isEvaluator_total (cmd : SimpleCommand) :
    Total (isEvaluator cmd) :=
  (programStart_total cmd.words).bind fun _ => .pure _

-- The Line

variable (isAlphanumeric : Char → Bool)

/- Adds the variables that are assigned what is not scope. -/
def taintAssignments
    (cmds : List SimpleCommand) (tainted : List Text) :
    Checked (List Text) :=
  (cmds.flatMap (·.words)).foldlM
    (fun tainted word =>
      if !isAssignment word then return tainted
      else
        match splitOnce '=' word with
        | none => return tainted
        | some (name, value) => do
            let ok ← scopeValueOk isAlphanumeric tainted value
            if ok || tainted.contains name then return tainted
            else return tainted ++ [name])
    tainted

structure LineFacts where
  evaluator : Bool
  fedKillS : List Bool

def hasKillSWord (cmd : SimpleCommand) : Checked Bool :=
  cmd.words.anyM (mentionsKillS isAlphanumeric)

/-
  Whether each command may be fed a `kill-s`: by an earlier
  stage of its pipeline, or by a heredoc of it.
-/
def fedKillS (heredocKillS : List ℕ) :
    Option (ℕ × Bool) → List SimpleCommand → Checked (List Bool)
| _, [] => return []
| upstream, cmd :: rest => do
    let earlier := upstream.any fun (pipeline, seen) =>
      pipeline == cmd.pipeline && seen
    let seen ← hasKillSWord isAlphanumeric cmd
    let later ← fedKillS heredocKillS
      (some (cmd.pipeline, earlier || seen)) rest
    return (earlier || heredocKillS.contains cmd.pipeline) :: later

def lineFacts (cmds : List SimpleCommand) :
    Checked LineFacts := do
  let evaluator ← cmds.foldlM
    (fun found cmd => do
      let evaluates ← isEvaluator cmd
      return found || evaluates)
    false
  let heredocKillS := (cmds.filter fun cmd =>
    cmd.heredocs.any fun body =>
      contains (lower body) "kill-s").map (·.pipeline)
  let fed ← fedKillS isAlphanumeric heredocKillS none cmds
  return ⟨evaluator, fed⟩

/- One command of a line. -/
structure Command where
  words : List Text
  start : ℕ
  git : Bool
  dataOnly : Bool
  recipeRun : Bool
  fedKillS : Bool

def Command.args (c : Command) : List Text :=
  c.words.drop (c.start + 1)

def Command.contextValue (c : Command) (k : ℕ) : Bool :=
  c.recipeRun && isContextValue c.words k

/- The `n`-th command of the line. -/
def commandOf (facts : LineFacts) (words : List Text) (n : ℕ) :
    Checked Command := do
  let start ← programStart words
  let progName :=
    words[start]?.map fun prog => lower (basename prog)
  let args := words.drop (start + 1)
  let git := progName.any (isOneOf ["git"])
  return {
    words
    start
    git
    dataOnly :=
      !facts.evaluator &&
        progName.any (isOneOf dataPrograms) &&
        (!git || (gitSubcommand false args).any (isOneOf gitDataSubcommands))
    recipeRun :=
      !facts.evaluator &&
        progName.any (isOneOf ["amplihack"]) &&
        isRecipeRun args
    fedKillS := facts.fedKillS[n]?.getD true }

variable {isAlphanumeric}

theorem taintAssignments_total
    (cmds : List SimpleCommand) (tainted : List Text) :
    Total (taintAssignments isAlphanumeric cmds tainted) := by
  apply Total.foldlM
  intro tainted word
  split
  · exact .pure _
  · split
    · exact .pure _
    · refine (scopeValueOk_total tainted _).bind ?_
      intro ok
      split
      · exact .pure _
      · exact .pure _

theorem fedKillS_total
    (heredocKillS : List ℕ) (upstream : Option (ℕ × Bool))
    (cmds : List SimpleCommand) :
    Total (fedKillS isAlphanumeric heredocKillS upstream cmds) := by
  induction cmds generalizing upstream with
  | nil => exact .pure _
  | cons cmd rest ih =>
    unfold fedKillS
    refine Total.bind ?_ fun seen =>
      (ih _).bind fun _ => .pure _
    exact .anyM (fun word => anyReading_total _ word _) _

theorem lineFacts_total (cmds : List SimpleCommand) :
    Total (lineFacts isAlphanumeric cmds) := by
  unfold lineFacts
  refine Total.bind ?_ fun evaluator =>
    (fedKillS_total _ _ cmds).bind fun _ => .pure _
  apply Total.foldlM
  intro found cmd
  exact (isEvaluator_total cmd).bind fun _ => .pure _

theorem commandOf_total
    (facts : LineFacts) (words : List Text) (n : ℕ) :
    Total (commandOf facts words n) :=
  (programStart_total words).bind fun _ => .pure _

end TmuxGuard

-- State

namespace TmuxGuard

open Base Shell

def maxDepth : ℕ := 4

def maxInput : ℕ := 64 * 1024

def maxReparses : ℕ := 256

def maxTmuxPerCommand : ℕ := 64

/- What a scan of one piece of text found. -/
structure Scan where
  dangerous : Bool
  tmuxSeen : Bool
  unscoped : Bool
  dataMention : Bool

def Scan.empty : Scan where
  dangerous := false
  tmuxSeen := false
  unscoped := false
  dataMention := false

def Scan.addDangerous (out : Scan) (dangerous : Bool) : Scan :=
  { out with dangerous := out.dangerous || dangerous }

/- What was found in a script that runs in the command. -/
def Scan.addInner (out inner : Scan) : Scan :=
  { out with
    dangerous := out.dangerous || inner.dangerous
    tmuxSeen := out.tmuxSeen || inner.tmuxSeen }

structure Ctx where
  budget : ℕ
  tainted : List Text
  scans : ℕ

abbrev Scanning :=
  Metered Ctx

/- The fallback for what cannot be read with confidence. -/
def textTest (text : Text) : Bool :=
  let lowered := lower (text.filter (!isQuoting ·))
  contains lowered "tmux" && contains lowered "kill-s"

variable (isAlphanumeric : Char → Bool)

-- Layers One And Two

/- Whether the word at `k` starts a tmux invocation. -/
def namesTmux (c : Command) (word : Text) (k : ℕ) :
    Checked Bool :=
  if isTmux word then return true
  else if k = c.start ∧ unknownProgram word then
    expandsNearTmux isAlphanumeric word
  else return false

/- The words left, after so many invocations. -/
def readInvocations (c : Command) (tainted : List Text) :
    ℕ → Scan → List (Text × ℕ) → Checked Scan
| _, out, [] => return out
| invocations, out, (word, k) :: rest => do
    let names ← namesTmux isAlphanumeric c word k
    if !names || (k != c.start &&
        (c.dataOnly || c.contextValue k)) then
      readInvocations c tainted invocations out rest
    else if maxTmuxPerCommand < invocations + 1 then
      return { out with tmuxSeen := true, dangerous := true }
    else do
      let inv ← invocation isAlphanumeric tainted
        (c.words.drop (k + 1))
      let fed := !inv.isScoped && c.fedKillS
      readInvocations c tainted (invocations + 1)
        { out with
          tmuxSeen := true
          unscoped := out.unscoped || !inv.isScoped
          dangerous := out.dangerous || fed || inv.dangerous }
        rest

/- A program that is not known, with a `kill-s` after it. -/
def unknownDangerous (c : Command) : Checked Bool :=
  if c.words[c.start]?.any unknownProgram then
    if c.fedKillS then return true
    else (c.words.drop (c.start + 1)).anyM (mentionsKillS isAlphanumeric)
  else return false

-- Layer Three

structure WordVerdict where
  substitutionsOk : Bool
  plainOk : Bool
  tmuxSeen : Bool
  dataMention : Bool

/- Whether an embedded script is harmless. -/
def cleared (inner : Scan) (text : Text) : Checked Bool :=
  if !inner.tmuxSeen || inner.dangerous then return false
  else if !inner.unscoped then return true
  else do
    let kills ← textKills isAlphanumeric text
    return !kills

section Reparse

variable (reparse : Text → Scanning Scan)

/- The verdict so far, and whether a body is a candidate. -/
def judgeBody
    (data : Bool) (s : WordVerdict × Bool) (body : Text) :
    Scanning (WordVerdict × Bool) := do
  let candidate ← StateT.lift (hasCandidate isAlphanumeric body)
  if !candidate then return s
  else do
    let inner ← reparse body
    let isCleared ←
      StateT.lift (cleared isAlphanumeric inner body)
    let ok := !inner.dangerous &&
      (data || (isCleared && !inner.dataMention))
    return ({ s.1 with
      substitutionsOk := s.1.substitutionsOk && ok
      tmuxSeen := s.1.tmuxSeen || inner.tmuxSeen
      dataMention := s.1.dataMention || inner.dataMention },
      true)

/- Re-parses a word with a `tmux` and a `kill-s` token. -/
def judgeWord (word : Text) (data : Bool) :
    Scanning WordVerdict := do
  let (bodies, rest) ← StateT.lift (substitutions word)
  let (verdict, anyCandidate) ←
    bodies.foldlM (judgeBody isAlphanumeric reparse data)
      (⟨true, true, false, false⟩, false)
  let candidate ← StateT.lift (hasCandidate isAlphanumeric rest)
  if candidate then do
    let inner ← reparse rest
    let plainOk ←
      StateT.lift (cleared isAlphanumeric inner rest)
    return { verdict with
      plainOk
      tmuxSeen := verdict.tmuxSeen || inner.tmuxSeen
      dataMention := verdict.dataMention || inner.dataMention }
  else if !anyCandidate then
    return { verdict with plainOk := false }
  else return verdict

/- A piece of a word, if it is not the text being scanned. -/
def pieceDangerous (scanned : Text) (found : Bool) (text : Text) :
    Scanning Bool :=
  if strip isWhitespace text = strip isWhitespace scanned then
    return found
  else do
    let needed ← StateT.lift (needsReparse isAlphanumeric text)
    if needed then do
      let inner ← reparse text
      return found || inner.dangerous
    else return found

/- Re-parses a word with a `tmux` token and an expansion. -/
def expansionDangerous (word scanned : Text) :
    Scanning Bool := do
  let (bodies, rest) ← StateT.lift (substitutions word)
  (bodies ++ [rest]).foldlM
    (pieceDangerous isAlphanumeric reparse scanned) false

/- The word at `k`, which may hold a script. -/
def readWord
    (text : Text) (c : Command) (out : Scan) (word : Text × ℕ) :
    Scanning Scan := do
  let (word, k) := word
  let data :=
    (c.dataOnly && !(c.git && gitRunsValue c.words k)) || c.contextValue k
  let exempt :=
    data && !contains word "$(" && !word.contains grave
  let candidate ← StateT.lift (hasCandidate isAlphanumeric word)
  if !candidate then do
    let near ← StateT.lift (expandsNearTmux isAlphanumeric word)
    if !exempt && near then do
      let dangerous ←
        expansionDangerous isAlphanumeric reparse word text
      return out.addDangerous dangerous
    else return out
  else do
    let verdict ← judgeWord isAlphanumeric reparse word data
    return { out with
      tmuxSeen := out.tmuxSeen || verdict.tmuxSeen
      dataMention := out.dataMention || verdict.dataMention
      dangerous := out.dangerous || !verdict.substitutionsOk ||
        (!verdict.plainOk && !exempt) }

-- Arguments And Heredocs

/- What a script that is run adds, if it is re-parsed. -/
def readScript (out : Scan) (script : Text) :
    Scanning Scan := do
  let needed ← StateT.lift (needsReparse isAlphanumeric script)
  if needed then do
    let inner ← reparse script
    return out.addInner inner
  else return out

/- The arguments that a git subcommand runs. -/
def readGitArgs (c : Command) (out : Scan) : Scanning Scan :=
  if c.git && gitRunsCommands c.args then
    readScript isAlphanumeric reparse out (joinArgv c.args)
  else return out

/- The `n`-th heredoc of a command. -/
def readHeredoc
    (evaluator : Bool) (expands : List Bool) (out : Scan)
    (heredoc : Text × ℕ) :
    Scanning Scan := do
  let (body, n) := heredoc
  if evaluator then do
    let needed ← StateT.lift (needsReparse isAlphanumeric body)
    if needed then do
      let inner ← reparse body
      return { out.addInner inner with
        unscoped := out.unscoped || inner.unscoped }
    else return out
  else if expands[n]?.getD true then do
    let (bodies, _) ← StateT.lift (substitutions body)
    bodies.foldlM (readScript isAlphanumeric reparse) out
  else return out

-- Scans

/- The `n`-th command of the line. -/
def scanCommand
    (text : Text) (facts : LineFacts) (out : Scan) (cmd : SimpleCommand × ℕ) :
    Scanning Scan := do
  let (cmd, n) := cmd
  let c ← StateT.lift (commandOf facts cmd.words n)
  let mention ← StateT.lift
    (hasCandidate isAlphanumeric (joinWords c.words))
  let unknown ←
    StateT.lift (unknownDangerous isAlphanumeric c)
  let out := { out with
    dataMention := out.dataMention ||
      ((c.dataOnly || c.recipeRun) && mention)
    dangerous := out.dangerous || unknown }
  let ctx ← get
  let out ← StateT.lift
    (readInvocations isAlphanumeric c ctx.tainted 0 out
      (c.words.zipIdx.drop c.start))
  let out ← c.words.zipIdx.foldlM
    (readWord isAlphanumeric reparse text c) out
  let out ← readGitArgs isAlphanumeric reparse c out
  cmd.heredocs.zipIdx.foldlM
    (readHeredoc isAlphanumeric reparse facts.evaluator
      cmd.heredocExpands) out

def scanText (text : Text) : Scanning Scan := do
  let parsed ← StateT.lift (tokenise text)
  if !parsed.complete then
    return Scan.empty.addDangerous (textTest text)
  else do
    let ctx ← get
    let tainted ← StateT.lift
      (taintAssignments isAlphanumeric parsed.commands ctx.tainted)
    modify fun ctx => { ctx with tainted }
    let facts ←
      StateT.lift (lineFacts isAlphanumeric parsed.commands)
    parsed.commands.zipIdx.foldlM
      (scanCommand isAlphanumeric reparse text facts) .empty

end Reparse

/- One level deeper, within the depth and the budget. -/
def spend
    (depth : ℕ) (scanDeeper : Text → Scanning Scan) (text : Text) :
    Scanning Scan := do
  let ctx ← get
  if maxDepth ≤ depth ∨ ctx.budget = 0 then
    return Scan.empty.addDangerous true
  else do
    set { ctx with budget := ctx.budget - 1 }
    scanDeeper text

def count : Scanning Unit :=
  modify fun ctx => { ctx with scans := ctx.scans + 1 }

/- So many levels of recursion, at a depth. -/
def scan : ℕ → ℕ → Text → Scanning Scan
| 0, _, _ => StateT.lift (.error .outOfFuel)
| levels + 1, depth, text => do
    count
    scanText isAlphanumeric (spend depth (scan levels (depth + 1))) text

/- Whether the command is denied, and the state at the end. -/
def check (command : Text) : Checked (Bool × Ctx) :=
  let ctx : Ctx := ⟨maxReparses, ["TMUX".toList], 0⟩
  if maxInput < (utf8 command).length then
    return (textTest command, ctx)
  else do
    let (out, ctx) ←
      scan isAlphanumeric (maxDepth + 1) 0 command ctx
    return (out.dangerous, ctx)

-- The Guard Ends

/- The scans made and those that may still be made. -/
def Ctx.total (ctx : Ctx) : ℕ :=
  ctx.budget + ctx.scans

variable {isAlphanumeric}
variable {reparse : Text → Scanning Scan}

theorem hasCandidate_total (text : Text) :
    Total (hasCandidate isAlphanumeric text) :=
  anyReading_total isAlphanumeric text _

theorem namesTmux_total (c : Command) (word : Text) (k : ℕ) :
    Total (namesTmux isAlphanumeric c word k) := by
  unfold namesTmux
  split
  · exact .pure true
  · split
    · exact expandsNearTmux_total isAlphanumeric word
    · exact .pure false

theorem readInvocations_total
    (c : Command) (tainted : List Text) (invocations : ℕ)
    (out : Scan) (words : List (Text × ℕ)) :
    Total (readInvocations isAlphanumeric c tainted invocations
      out words) := by
  induction words generalizing invocations out with
  | nil => exact .pure out
  | cons word rest ih =>
    rcases word with ⟨word, k⟩
    unfold readInvocations
    refine (namesTmux_total c word k).bind ?_
    intro names
    split
    · exact ih _ _
    · split
      · exact .pure _
      · refine (invocation_total tainted _).bind ?_
        intro inv
        exact ih _ _

theorem unknownDangerous_total (c : Command) :
    Total (unknownDangerous isAlphanumeric c) := by
  unfold unknownDangerous
  split
  · split
    · exact .pure true
    · exact .anyM (fun word => anyReading_total _ word _) _
  · exact .pure false

theorem cleared_total (inner : Scan) (text : Text) :
    Total (cleared isAlphanumeric inner text) := by
  unfold cleared
  split
  · exact .pure false
  · split
    · exact .pure true
    · exact (textKills_total text).bind fun _ => .pure _

section Keeps

variable (hReparse : ∀ text, Keeps Ctx.total (reparse text))

include hReparse

theorem judgeBody_keeps
    (data : Bool) (s : WordVerdict × Bool) (body : Text) :
    Keeps Ctx.total (judgeBody isAlphanumeric reparse data s body) := by
  unfold judgeBody
  refine (Keeps.lift (hasCandidate_total body)).bind ?_
  intro candidate
  split
  · exact .pure s
  · refine (hReparse body).bind ?_
    intro inner
    exact (Keeps.lift (cleared_total inner body)).bind fun _ => .pure _

theorem judgeWord_keeps (word : Text) (data : Bool) :
    Keeps Ctx.total (judgeWord isAlphanumeric reparse word data) := by
  unfold judgeWord
  refine (Keeps.lift (substitutions_total word)).bind ?_
  rintro ⟨bodies, rest⟩
  refine (Keeps.foldlM (judgeBody_keeps hReparse data) bodies _).bind ?_
  rintro ⟨verdict, anyCandidate⟩
  refine (Keeps.lift (hasCandidate_total rest)).bind ?_
  intro candidate
  split
  · refine (hReparse rest).bind ?_
    intro inner
    exact (Keeps.lift (cleared_total inner rest)).bind fun _ => .pure _
  · split
    · exact .pure _
    · exact .pure _

theorem pieceDangerous_keeps
    (scanned : Text) (found : Bool) (text : Text) :
    Keeps Ctx.total
      (pieceDangerous isAlphanumeric reparse scanned found text) := by
  unfold pieceDangerous
  split
  · exact .pure found
  · refine (Keeps.lift (needsReparse_total isAlphanumeric text)).bind ?_
    intro needed
    split
    · exact (hReparse text).bind fun _ => .pure _
    · exact .pure found

theorem readWord_keeps
    (text : Text) (c : Command) (out : Scan) (word : Text × ℕ) :
    Keeps Ctx.total (readWord isAlphanumeric reparse text c out word) := by
  rcases word with ⟨word, k⟩
  unfold readWord
  dsimp only
  refine (Keeps.lift (hasCandidate_total word)).bind ?_
  intro candidate
  split
  · refine (Keeps.lift (expandsNearTmux_total isAlphanumeric word)).bind ?_
    intro near
    split
    · refine Keeps.bind ?_ fun _ => .pure _
      unfold expansionDangerous
      refine (Keeps.lift (substitutions_total word)).bind ?_
      rintro ⟨bodies, rest⟩
      exact .foldlM (pieceDangerous_keeps hReparse text) _ _
    · exact .pure out
  · exact (judgeWord_keeps hReparse word _).bind fun _ => .pure _

theorem readScript_keeps (out : Scan) (script : Text) :
    Keeps Ctx.total (readScript isAlphanumeric reparse out script) := by
  unfold readScript
  refine (Keeps.lift (needsReparse_total isAlphanumeric script)).bind ?_
  intro needed
  split
  · exact (hReparse script).bind fun _ => .pure _
  · exact .pure out

theorem readGitArgs_keeps (c : Command) (out : Scan) :
    Keeps Ctx.total (readGitArgs isAlphanumeric reparse c out) := by
  unfold readGitArgs
  split
  · exact readScript_keeps hReparse out _
  · exact .pure out

theorem readHeredoc_keeps
    (evaluator : Bool) (expands : List Bool) (out : Scan)
    (heredoc : Text × ℕ) :
    Keeps Ctx.total
      (readHeredoc isAlphanumeric reparse evaluator expands out heredoc) := by
  rcases heredoc with ⟨body, n⟩
  unfold readHeredoc
  dsimp only
  split
  · refine (Keeps.lift (needsReparse_total isAlphanumeric body)).bind ?_
    intro needed
    split
    · exact (hReparse body).bind fun _ => .pure _
    · exact .pure out
  · split
    · refine (Keeps.lift (substitutions_total body)).bind ?_
      rintro ⟨bodies, _⟩
      exact .foldlM (readScript_keeps hReparse) bodies out
    · exact .pure out

theorem scanCommand_keeps
    (text : Text) (facts : LineFacts) (out : Scan) (cmd : SimpleCommand × ℕ) :
    Keeps Ctx.total
      (scanCommand isAlphanumeric reparse text facts out cmd) := by
  rcases cmd with ⟨cmd, n⟩
  unfold scanCommand
  dsimp only
  refine (Keeps.lift (commandOf_total facts _ n)).bind ?_
  intro c
  refine (Keeps.lift (hasCandidate_total _)).bind ?_
  intro mention
  refine (Keeps.lift (unknownDangerous_total c)).bind ?_
  intro unknown
  refine Keeps.get.bind ?_
  intro ctx
  refine (Keeps.lift (readInvocations_total c _ 0 _ _)).bind ?_
  intro out
  refine (Keeps.foldlM (readWord_keeps hReparse text c) _ _).bind ?_
  intro out
  refine (readGitArgs_keeps hReparse c out).bind ?_
  intro out
  exact .foldlM (readHeredoc_keeps hReparse _ _) _ out

theorem scanText_keeps (text : Text) :
    Keeps Ctx.total (scanText isAlphanumeric reparse text) := by
  unfold scanText
  refine (Keeps.lift (tokenise_ok text)).bind ?_
  intro parsed
  split
  · exact .pure _
  · refine Keeps.get.bind ?_
    intro ctx
    refine (Keeps.lift (taintAssignments_total _ ctx.tainted)).bind ?_
    intro tainted
    refine Keeps.bind (.modify fun ctx =>
      Nat.le_refl ctx.total) ?_
    intro _
    refine (Keeps.lift (lineFacts_total _)).bind ?_
    intro facts
    exact .foldlM (scanCommand_keeps hReparse text facts) _ _

end Keeps

/- One unit of the budget pays for one scan. -/
theorem spend_keeps
    {depth : ℕ} {scanDeeper : Text → Scanning Scan} {text : Text}
    (hDeeper : depth < maxDepth → ∀ ctx : Ctx, ∃ out later,
      scanDeeper text ctx = .ok (out, later) ∧ later.total ≤ ctx.total + 1) :
    Keeps Ctx.total (spend depth scanDeeper text) := by
  intro ctx
  by_cases hStop : maxDepth ≤ depth ∨ ctx.budget = 0
  · refine ⟨Scan.empty.addDangerous true, ctx, ?_, Nat.le_refl _⟩
    change (if maxDepth ≤ depth ∨ ctx.budget = 0 then _ else _ :
      Scanning Scan) ctx = _
    rw [if_pos hStop]
    rfl
  · rcases hDeeper (by omega)
      { ctx with budget := ctx.budget - 1 } with
        ⟨out, later, hRun, hLe⟩
    refine ⟨out, later, ?_, ?_⟩
    · change (if maxDepth ≤ depth ∨ ctx.budget = 0 then _
        else _ : Scanning Scan) ctx = _
      rw [if_neg hStop]
      exact hRun
    · have hSpent : later.total ≤ ctx.budget - 1 + ctx.scans + 1 := hLe
      change later.total ≤ ctx.budget + ctx.scans
      omega

/- A scan is one more of the scans made. -/
theorem scan_ok
    {levels depth : ℕ} (hDepth : depth ≤ maxDepth)
    (hLevels : maxDepth < levels + depth) (text : Text) (ctx : Ctx) :
    ∃ out later,
      scan isAlphanumeric levels depth text ctx = .ok (out, later) ∧
      later.total ≤ ctx.total + 1 := by
  induction levels generalizing depth text ctx with
  | zero => omega
  | succ levels ih =>
    have hBody : Keeps Ctx.total
        (scanText isAlphanumeric
          (spend depth (scan isAlphanumeric levels (depth + 1)))
          text) := by
      apply scanText_keeps
      intro script
      apply spend_keeps
      intro hLess ctx
      exact ih hLess (by omega) script ctx
    rcases hBody { ctx with scans := ctx.scans + 1 } with
      ⟨out, later, hRun, hLe⟩
    refine ⟨out, later, hRun, ?_⟩
    have hCounted : later.total ≤ ctx.budget + (ctx.scans + 1) := hLe
    change later.total ≤ ctx.budget + ctx.scans + 1
    omega

/- The guard ends, after so many scans at most. -/
theorem check_ok
    (isAlphanumeric : Char → Bool) (command : Text) :
    ∃ denied ctx,
      check isAlphanumeric command = .ok (denied, ctx) ∧
      ctx.scans ≤ maxReparses + 1 := by
  unfold check
  dsimp only
  split
  · exact ⟨_, _, rfl, Nat.zero_le _⟩
  · have hLevels : maxDepth < maxDepth + 1 + 0 :=
      Nat.lt_succ_self _
    rcases scan_ok (Nat.zero_le _) hLevels command
      ⟨maxReparses, ["TMUX".toList], 0⟩ with
        ⟨out, ctx, hScan, hLe⟩
    rw [hScan]
    refine ⟨out.dangerous, ctx, rfl, ?_⟩
    have hTotal : ctx.budget + ctx.scans ≤ maxReparses + 0 + 1 := hLe
    omega

-- All Guards

/-
  Whatever a guard is given, it ends without a fault: every
  index and slice is in bounds, every loop comes to its end,
  and the scans are at most one more than the re-parses.
-/
theorem guards_never_panic
    (isAlphanumeric : Char → Bool) (text : Text) :
    (∃ parsed, tokenise text = .ok parsed) ∧
    (∀ start, ∃ close, substClose text start = .ok close) ∧
    (∀ i heredocs, ∃ read, readHeredocBodies text i heredocs = .ok read) ∧
    (∃ bodies, TailFollow.substitutionBodies text = .ok bodies) ∧
    (∃ denied ctx,
      check isAlphanumeric text = .ok (denied, ctx) ∧
        ctx.scans ≤ maxReparses + 1) ∧
    ∃ denied meter,
      TailFollow.check text = .ok (denied, meter) ∧
        meter.scans ≤ TailFollow.maxReparses + 1 := by
  refine ⟨tokenise_ok text, substClose_total text, ?_,
    TailFollow.substitutionBodies_ok text,
    check_ok isAlphanumeric text, TailFollow.check_ok text⟩
  intro i heredocs
  rcases readHeredocBodies_ok text i heredocs with ⟨read, hRead, _⟩
  exact ⟨read, hRead⟩

end TmuxGuard
