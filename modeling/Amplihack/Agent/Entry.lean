import Mathlib.Algebra.Order.Group.Int
import Mathlib.Data.List.Sort
import Amplihack.Base.Dict

/-
  The registry of supervised agents and the transitions of its
  entries.

  The restarts of an entry between two instants, when they
  are pruned and when one is added.
-/

-- Times

namespace Agent

open Base

/-
  How instants are written and read: `chrono`'s formatter on
  the instants it can represent, and its parser.
-/
structure Chrono where
  format : ℤ → Option String
  parse : String → Option ℤ

def unixEpoch : String := "1970-01-01T00:00:00Z"

def fmtTs (c : Chrono) (t : ℤ) : String :=
  (c.format t).getD unixEpoch

/- Only the exact canonical form is accepted. -/
def parseTs (c : Chrono) (s : String) : Option ℤ :=
  (c.parse s).filter fun t => fmtTs c t == s

def hour : ℤ := 3600
def day : ℤ := 24 * 60 * 60
def futureSlack : ℤ := 300

-- Entries

inductive State where
| active
| ended
| stopped
deriving DecidableEq

inductive EndedBy where
| wrapper
| sessionEnd
deriving DecidableEq

structure AmplihackFlags where
  subprocessSafe : Bool := false
  noReflection : Bool := false
  profile : Option String := none

structure LastRecovery where
  loggedAt : String
  conversationId : Option String
  lost : Option String
  resumed : Option String
  result : String

structure Entry where
  state : State
  tmuxSession : String
  tmuxWindow : String
  tmuxSocket : Option String
  launchDir : String
  conversationId : Option String
  claudePid : Option ℕ
  procStart : Option ℕ
  model : Option String
  effort : Option String
  addDirs : List String
  permissionMode : Option String
  skipPermissions : Bool
  amplihackFlags : AmplihackFlags
  env : List (String × String)
  registeredAt : String
  launchedAt : String
  launchId : String
  lostAt : Option String
  endedAt : Option String
  endedBy : Option EndedBy
  restarts : List String
  lastRecovery : Option LastRecovery
  alert : Option String

/- The agents by name. -/
abbrev Registry := Dict String Entry

namespace Entry

/- A new entry; the launch id is a fresh random one. -/
def new
    (session window launchDir registeredAt launchId : String) :
    Entry where
  state := .active
  tmuxSession := session
  tmuxWindow := window
  tmuxSocket := none
  launchDir := launchDir
  conversationId := none
  claudePid := none
  procStart := none
  model := none
  effort := none
  addDirs := []
  permissionMode := none
  skipPermissions := false
  amplihackFlags := {}
  env := []
  registeredAt := registeredAt
  launchedAt := registeredAt
  launchId := launchId
  lostAt := none
  endedAt := none
  endedBy := none
  restarts := []
  lastRecovery := none
  alert := none

/- The recorded process, only when both halves are present. -/
def recorded (e : Entry) : Option (ℕ × ℕ) :=
  match e.claudePid, e.procStart with
  | some pid, some start => some (pid, start)
  | _, _ => none

def setProcess (p : Option (ℕ × ℕ)) (e : Entry) : Entry :=
  { e with
    claudePid := p.map Prod.fst
    procStart := p.map Prod.snd }

/- Wrapper start: active again with a new launch. -/
def activate
    (c : Chrono) (now : ℤ) (launchId : String) (e : Entry) :
    Entry :=
  setProcess none
    { e with
      state := .active
      launchedAt := fmtTs c now
      launchId := launchId
      lostAt := none
      endedAt := none
      endedBy := none
      alert := none }

/- `end` -/
def finish
    (c : Chrono) (now : ℤ) (who : EndedBy) (e : Entry) :
    Entry :=
  { e with
    state := .ended
    endedAt := some (fmtTs c now)
    endedBy := some who
    lostAt := none
    alert := none }

def stop (alert : String) (e : Entry) : Entry :=
  { e with
    state := .stopped
    alert := some alert
    lostAt := none
    endedAt := none
    endedBy := none }

/- A resume that the supervisor started. -/
def recordResume
    (c : Chrono) (now : ℤ) (recovery : LastRecovery) (e : Entry) :
    Entry :=
  { e with
    restarts := e.restarts ++ [fmtTs c now]
    lastRecovery := some recovery
    lostAt := none }

end Entry

-- Restarts

/- Restarts of the last day and a little ahead, in order. -/
def pruneRestarts
    (c : Chrono) (restarts : List String) (now : ℤ) :
    List String :=
  (((restarts.filterMap (parseTs c)).filter fun t =>
      now - day ≤ t && t ≤ now + futureSlack).insertionSort
        (· ≤ ·)).map (fmtTs c)

def restartsWithin
    (c : Chrono) (restarts : List String) (now secs : ℤ) :
    ℕ :=
  ((restarts.filterMap (parseTs c)).filter fun t =>
    now - secs ≤ t && t ≤ now + futureSlack).length

/- Never earlier than one second after the previous value. -/
def nextRegisteredAt
    (c : Chrono) (previous : Option String) (now : ℤ) :
    String :=
  let prev := match previous.bind (parseTs c) with
    | some p => p + 1
    | none => now
  fmtTs c (max now prev)

-- Conflicts

/- Paths compare by component. -/
def pathComponents (path : String) : Bool × List (List Char) :=
  ("/".toList.isPrefixOf path.toList,
    (path.toList.splitOn '/').filter fun part =>
      part ≠ [] && part ≠ ['.'])

/- The socket of an entry; an unset one is the default. -/
def socketOf
    (defaultSocket : String) (socket : Option String) :
    Bool × List (List Char) :=
  pathComponents (socket.getD defaultSocket)

/- The entries in the order of their names. -/
def byName (reg : Registry) : List (String × Entry) :=
  reg.entries.insertionSort fun a b => a.1 ≤ b.1

/- The other active agent that has the conversation. -/
def activeWithConversation
    (reg : Registry) (id except : String) :
    Option String :=
  ((byName reg).find? fun (name, e) =>
    name ≠ except && e.state == .active &&
      e.conversationId == some id).map Prod.fst

/- The other active agent in the session of that socket. -/
def sessionConflict
    (defaultSocket : String) (reg : Registry)
    (socket : Option String) (session except : String) :
    Option String :=
  ((byName reg).find? fun (name, e) =>
    name ≠ except && e.state == .active && e.tmuxSession == session &&
      socketOf defaultSocket e.tmuxSocket ==
        socketOf defaultSocket socket).map Prod.fst

theorem mem_byName
    {reg : Registry} {pair : String × Entry} :
    pair ∈ byName reg ↔ pair ∈ reg.entries :=
  List.mem_insertionSort _

theorem activeWithConversation_eq_none_iff
    {reg : Registry} {id except : String} :
    activeWithConversation reg id except = none ↔
      ∀ name e, reg.get? name = some e → name ≠ except →
        e.state = .active → e.conversationId ≠ some id := by
  simp only [activeWithConversation, Option.map_eq_none_iff,
    List.find?_eq_none, mem_byName, Dict.get?_eq_some_iff, Prod.forall]
  simp

theorem sessionConflict_eq_none_iff
    {defaultSocket : String} {reg : Registry}
    {socket : Option String} {session except : String} :
    sessionConflict defaultSocket reg socket session except = none ↔
      ∀ name e, reg.get? name = some e → name ≠ except →
        e.state = .active → e.tmuxSession = session →
        socketOf defaultSocket e.tmuxSocket ≠
          socketOf defaultSocket socket := by
  simp only [sessionConflict, Option.map_eq_none_iff, List.find?_eq_none,
    mem_byName, Dict.get?_eq_some_iff, Prod.forall]
  simp

end Agent

-- Restarts Between Two Instants

namespace Agent

/- The readable restarts from `w` to `u`, both included. -/
def restartsBetween
    (c : Chrono) (restarts : List String) (w u : ℤ) :
    ℕ :=
  ((restarts.filterMap (parseTs c)).filter fun t =>
    w ≤ t && t ≤ u).length

variable {c : Chrono}
variable {restarts : List String}
variable {now w u : ℤ}

/- A wider interval has at least as many restarts. -/
theorem restartsBetween_mono
    {w' u' : ℤ} (hBelow : w' ≤ w) (hAbove : u ≤ u') :
    restartsBetween c restarts w u ≤ restartsBetween c restarts w' u' := by
  apply List.Sublist.length_le
  apply List.monotone_filter_right
  intro t hInside
  simp only [Bool.and_eq_true, decide_eq_true_eq] at hInside ⊢
  omega

/- A restart that is read back as its instant. -/
def Chrono.Exact (c : Chrono) (t : ℤ) : Prop :=
  parseTs c (fmtTs c t) = some t

theorem restartsBetween_append
    (hExact : c.Exact now) (hBelow : w ≤ now) (hAbove : now ≤ u) :
    restartsBetween c (restarts ++ [fmtTs c now]) w u =
      restartsBetween c restarts w u + 1 := by
  have hRead : parseTs c (fmtTs c now) = some now := hExact
  rw [restartsBetween, List.filterMap_append,
    List.filter_append, List.length_append, restartsBetween]
  simp [hRead, hBelow, hAbove]

/- What was read once is read again as it is written. -/
theorem exact_of_parseTs
    {s : String} {t : ℤ} (hRead : parseTs c s = some t) :
    c.Exact t := by
  have hRead' := hRead
  rw [parseTs, Option.filter_eq_some_iff] at hRead'
  have hSame : fmtTs c t = s := by simpa using hRead'.2
  rw [Chrono.Exact, hSame]
  exact hRead

theorem filterMap_parseTs_map
    {times : List ℤ} (hExact : ∀ t ∈ times, c.Exact t) :
    (times.map (fmtTs c)).filterMap (parseTs c) = times := by
  induction times with
  | nil => rfl
  | cons t rest ih =>
    have hHead : parseTs c (fmtTs c t) = some t := hExact t List.mem_cons_self
    rw [List.map_cons, List.filterMap_cons_some hHead, ih]
    intro s hs
    exact hExact s (List.mem_cons_of_mem t hs)

/- Pruning keeps what is neither old nor too far ahead. -/
theorem restartsBetween_pruneRestarts
    (hBelow : now - day ≤ w) (hAbove : u ≤ now + futureSlack) :
    restartsBetween c (pruneRestarts c restarts now) w u =
      restartsBetween c restarts w u := by
  have hExact : ∀ t ∈ ((restarts.filterMap (parseTs c)).filter
      fun t => now - day ≤ t && t ≤ now + futureSlack).insertionSort (· ≤ ·),
      c.Exact t := by
    intro t ht
    rw [List.mem_insertionSort, List.mem_filter, List.mem_filterMap] at ht
    rcases ht with ⟨⟨s, -, hRead⟩, -⟩
    exact exact_of_parseTs hRead
  rw [restartsBetween, pruneRestarts, filterMap_parseTs_map hExact,
    ((List.perm_insertionSort _ _).filter _).length_eq, List.filter_filter,
    restartsBetween]
  congr 1
  apply List.filter_congr
  intro t _
  rw [Bool.eq_iff_iff]
  simp only [Bool.and_eq_true, decide_eq_true_eq]
  omega

end Agent
