import Mathlib.Data.List.Destutter
import Mathlib.Data.List.Sort
import Amplihack.Base.Json.Compact
import Amplihack.Base.Json.Record
import Amplihack.Base.Utf8
import Amplihack.Profile.Overflow

/-
  The usage history: one line of JSON for each measured cycle,
  and the rewrite that keeps the file small.
-/

-- Entries

namespace Profile

open Base

/-
  The calendar library: UTC text of a time, none out of its
  range, and the time of an RFC 3339 text.
-/
structure Chrono where
  formatUtc : ℤ → Option String
  parseRfc3339 : String → Option ℤ

def FourDigitYear (t : ℤ) : Prop :=
  -62167219200 ≤ t ∧ t ≤ 253402300799

structure Chrono.Lawful (chrono : Chrono) : Prop where
  readsBack : ∀ t, FourDigitYear t →
    ∃ text, chrono.formatUtc t = some text ∧ chrono.parseRfc3339 text = some t

/- One profile's valid reading. -/
structure Point where
  s : Option ℕ
  w : ℕ
  wReset : Option ℤ
  sReset : Option ℤ
  noSessionLimit : Bool

/- Which command wrote a line. -/
inductive Writer where
| usage
| rotate
deriving DecidableEq

def Writer.key : Writer → String
| .usage => "usage"
| .rotate => "rotate"

def Writer.ofKey (k : String) : Option Writer :=
  if k = "usage" then some .usage
  else if k = "rotate" then some .rotate
  else none

theorem Writer.ofKey_key (by_ : Writer) :
    ofKey by_.key = some by_ := by
  cases by_ <;> rfl

/- The valid readings of one cycle, and who has none. -/
structure Entry where
  at_ : ℤ
  profiles : OrderedMap String Point
  by_ : Option Writer
  unknown : List String

/- Longer lines are skipped. -/
def lineMax : ℕ := 64 * 1024

/- Times further than this from now are not believed. -/
def maxSkew : ℤ := 100 * 31557600

-- The Line Format

variable (chrono : Chrono)

def utcTime (t : ℤ) : String :=
  (chrono.formatUtc t).getD "1970-01-01T00:00:00Z"

def utcJson (t : ℤ) : Json :=
  .str (utcTime chrono t)

/- The session reset is not kept. -/
def pointOut (p : Point) : Json :=
  .obj (Json.present
    [("s", some (Json.orNull Json.ofNat p.s)),
     ("session_limit",
       if p.noSessionLimit && p.s.isNone then
         some (.bool false)
       else none),
     ("w", some (Json.ofNat p.w)),
     ("w_reset", some (Json.orNull (utcJson chrono) p.wReset))])

def pointsOut (profiles : OrderedMap String Point) :
    List (String × Json) :=
  profiles.entries.map fun e => (e.1, pointOut chrono e.2)

def lineOut (e : Entry) : List (String × Option Json) :=
  [("at", some (utcJson chrono e.at_)),
   ("by", e.by_.map fun b => .str b.key),
   ("profiles", some (.obj (pointsOut chrono e.profiles))),
   ("unknown",
     if e.unknown.isEmpty then none
     else some (.arr (e.unknown.map .str)))]

/- One history line, without the newline. -/
def toLine (e : Entry) : List Char :=
  Json.compact (.obj (Json.present (lineOut chrono e)))

def toBool? : Json → Option Bool
| .bool b => some b
| _ => none

/- An RFC 3339 time within 100 years of `now`. -/
def timeOf (now : ℤ) (v : Json) : Option ℤ :=
  (v.toStr?.bind chrono.parseRfc3339).filter fun t =>
    |saturatingSub t now| ≤ maxSkew

def pctIn (v : Json) : Option ℕ :=
  v.toNat?.filter (· ≤ 100)

/- Missing or null is no value, else it has to be readable. -/
def optionalIn
    {α : Type} (o : OrderedMap String Json) (key : String)
    (read : Json → Option α) :
    Option (Option α) :=
  match o.get? key with
  | none => some none
  | some v => Json.readOption read v

/- One profile of a line; `none` drops that profile only. -/
def pointIn (now : ℤ) (v : Json) : Option Point := do
  let o := Json.object (← v.toObj?)
  let s ← optionalIn o "s" pctIn
  let wReset ← optionalIn o "w_reset" (timeOf chrono now)
  let limit ← optionalIn o "session_limit" toBool?
  let w ← (o.get? "w").bind pctIn
  some
    { s := s
      w := w
      wReset := wReset
      sReset := none
      noSessionLimit := limit = some false && s.isNone }

/- Sorted, and each name once. -/
def sortDedup (names : List String) : List String :=
  (names.mergeSort fun a b => a ≤ b).destutter (· ≠ ·)

/- The names that follow the rule and have no reading. -/
def unknownIn
    (profiles : OrderedMap String Point) (names : List String) :
    List String :=
  sortDedup (names.filter fun n =>
    validLiveName n && (profiles.get? n).isNone)

def profilesIn
    (now : ℤ) (members : List (String × Json)) :
    OrderedMap String Point :=
  (Json.object members).filterMap fun n p =>
    if validLiveName n then pointIn chrono now p else none

def parseLine (line : List Char) (now : ℤ) : Option Entry :=
  if lineMax < (utf8 line).length then none
  else do
    let o := Json.object (← (← Json.parse line).toObj?)
    let at_ ← (o.get? "at").bind (timeOf chrono now)
    let profiles := profilesIn chrono now
      (← (o.get? "profiles").bind Json.toObj?)
    let by_ := ((o.get? "by").bind Json.toStr?).bind
      Writer.ofKey
    let unknown := ((o.get? "unknown").bind Json.toArr?).getD []
    some
      { at_ := at_
        profiles := profiles
        by_ := by_
        unknown := unknownIn profiles
          (unknown.filterMap Json.toStr?) }

-- Reading Back

variable {chrono}
variable {now : ℤ}

/- What a line keeps of a reading. -/
def Point.stored (p : Point) : Point :=
  { p with
    sReset := none
    noSessionLimit := p.noSessionLimit && p.s.isNone }

def Entry.stored (e : Entry) : Entry :=
  let profiles := e.profiles.mapValues fun _ => Point.stored
  { e with
    profiles := profiles
    unknown := unknownIn profiles e.unknown }

/- A time that the writer writes and the reader believes. -/
def Believed (now t : ℤ) : Prop :=
  FourDigitYear t ∧ |saturatingSub t now| ≤ maxSkew

structure Point.InRange (p : Point) : Prop where
  s : ∀ s ∈ p.s, s ≤ 100
  w : p.w ≤ 100

/- Valid names, percentages in range, times believed. -/
structure Entry.Storable (now : ℤ) (e : Entry) : Prop where
  names : ∀ n p, (n, p) ∈ e.profiles.entries → validLiveName n = true
  percentages : ∀ n p, (n, p) ∈ e.profiles.entries → p.InRange
  at_ : Believed now e.at_
  resets : ∀ n p, (n, p) ∈ e.profiles.entries → ∀ t ∈ p.wReset, Believed now t

theorem timeOf_utcJson
    (hLawful : chrono.Lawful) {t : ℤ} (hBelieved : Believed now t) :
    timeOf chrono now (utcJson chrono t) = some t := by
  rcases hLawful.readsBack t hBelieved.1 with ⟨text, hFormat, hParse⟩
  unfold timeOf utcJson utcTime Json.toStr?
  rw [hFormat, Option.getD_some, Option.bind_some, hParse,
    Option.filter_some, if_pos (decide_eq_true hBelieved.2)]

theorem pctIn_ofNat
    {n : ℕ} (hMost : n ≤ 100) :
    pctIn (Json.ofNat n) = some n := by
  unfold pctIn
  rw [Json.toNat?_ofNat, Option.filter_some, if_pos (decide_eq_true hMost)]

theorem optionalIn_orNull
    {α : Type} {fields : List (String × Option Json)}
    {key : String} {a : Option α} {read : Json → Option α}
    {write : α → Json} (hKeys : (fields.map Prod.fst).Nodup)
    (hMem : (key, some (Json.orNull write a)) ∈ fields)
    (hNull : ∀ a, (write a).isNull = false)
    (hRead : ∀ b ∈ a, read (write b) = some b) :
    optionalIn (Json.object (Json.present fields)) key read = some a := by
  unfold optionalIn
  rw [Json.get?_object_present hKeys hMem]
  cases a with
  | none => rfl
  | some b =>
    unfold Json.orNull
    dsimp only
    rw [Json.readOption_of_not_null (hNull b), hRead b rfl]
    rfl

variable {p : Point}

/- A reading is read back as it is stored. -/
theorem pointIn_pointOut
    (hLawful : chrono.Lawful) (hRange : p.InRange)
    (hReset : ∀ t ∈ p.wReset, Believed now t) :
    pointIn chrono now (pointOut chrono p) = some p.stored := by
  unfold pointIn pointOut
  generalize hFields :
    [("s", some (Json.orNull Json.ofNat p.s)),
     ("session_limit",
       if p.noSessionLimit && p.s.isNone then
         some (.bool false)
       else none),
     ("w", some (Json.ofNat p.w)),
     ("w_reset", some (Json.orNull (utcJson chrono) p.wReset))] = fields
  have hKeys : (fields.map Prod.fst).Nodup := by
    rw [← hFields]
    exact List.nodup_iff_pairwise_ne.mpr (by simp)
  have hMemS : ("s", some (Json.orNull Json.ofNat p.s)) ∈ fields := by
    rw [← hFields]
    simp
  have hMemLimit :
      ("session_limit",
        if p.noSessionLimit && p.s.isNone then
          some (Json.bool false)
        else none) ∈ fields := by
    rw [← hFields]
    simp
  have hMemW : ("w", some (Json.ofNat p.w)) ∈ fields := by
    rw [← hFields]
    simp
  have hMemReset :
      ("w_reset",
        some (Json.orNull (utcJson chrono) p.wReset)) ∈
          fields := by
    rw [← hFields]
    simp
  have hS : optionalIn (Json.object (Json.present fields)) "s"
      pctIn = some p.s := by
    refine optionalIn_orNull hKeys hMemS (fun _ => rfl) ?_
    intro s hs
    exact pctIn_ofNat (hRange.s s hs)
  have hResetIn : optionalIn
      (Json.object (Json.present fields)) "w_reset"
      (timeOf chrono now) = some p.wReset := by
    refine optionalIn_orNull hKeys hMemReset (fun _ => rfl) ?_
    intro t ht
    exact timeOf_utcJson hLawful (hReset t ht)
  have hW : ((Json.object (Json.present fields)).get?
      "w").bind pctIn = some p.w := by
    rw [Json.get?_object_present hKeys hMemW]
    exact pctIn_ofNat hRange.w
  have hLimit : optionalIn
      (Json.object (Json.present fields)) "session_limit"
      toBool? =
        some (if p.noSessionLimit && p.s.isNone then
          some false
        else none) := by
    unfold optionalIn
    rw [Json.get?_object_present hKeys hMemLimit]
    cases p.noSessionLimit && p.s.isNone <;> rfl
  simp only [Json.toObj?, Option.bind_eq_bind,
    Option.bind_some, hS, hResetIn, hLimit, hW]
  unfold Point.stored
  cases p.noSessionLimit <;> cases p.s <;> rfl

variable {e : Entry}

theorem profilesIn_pointsOut
    (hLawful : chrono.Lawful) (hStorable : e.Storable now) :
    profilesIn chrono now (pointsOut chrono e.profiles) =
      e.profiles.mapValues fun _ => Point.stored := by
  unfold profilesIn pointsOut
  rw [Json.object_map_entries]
  apply OrderedMap.filterMap_mapValues
  intro n p hMem
  rw [if_pos (hStorable.names n p hMem)]
  exact pointIn_pointOut hLawful
    (hStorable.percentages n p hMem)
    (hStorable.resets n p hMem)

/- What the writer writes is read back as it is stored. -/
theorem parseLine_toLine
    (hLawful : chrono.Lawful) (hStorable : e.Storable now)
    (hLength : (utf8 (toLine chrono e)).length ≤ lineMax) :
    parseLine chrono (toLine chrono e) now = some e.stored := by
  have hKeys : ((lineOut chrono e).map Prod.fst).Nodup := by
    unfold lineOut
    simp
  have hAt : ("at", some (utcJson chrono e.at_)) ∈ lineOut chrono e := by
    simp [lineOut]
  have hBy :
      ("by", e.by_.map fun b => Json.str b.key) ∈ lineOut chrono e := by
    simp [lineOut]
  have hProfiles :
      ("profiles",
        some (Json.obj (pointsOut chrono e.profiles))) ∈
          lineOut chrono e := by simp [lineOut]
  have hUnknown :
      ("unknown",
        if e.unknown.isEmpty then none
        else some (Json.arr (e.unknown.map .str))) ∈ lineOut chrono e := by
    simp [lineOut]
  have hNames : (((Json.object
      (Json.present (lineOut chrono e))).get? "unknown").bind
        Json.toArr?).getD [] = e.unknown.map .str := by
    rw [Json.get?_object_present hKeys hUnknown]
    cases e.unknown <;> rfl
  have hWriter : (((Json.object
      (Json.present (lineOut chrono e))).get? "by").bind
        Json.toStr?).bind Writer.ofKey = e.by_ := by
    rw [Json.get?_object_present hKeys hBy]
    cases e.by_ with
    | none => rfl
    | some b => exact Writer.ofKey_key b
  have hStrings : ∀ names : List String,
      (names.map Json.str).filterMap Json.toStr? = names := by
    intro names
    rw [List.filterMap_map]
    exact List.filterMap_some
  have hParse : Json.parse (toLine chrono e) =
      some (.obj (Json.present (lineOut chrono e))) := Json.parse_compact _
  unfold parseLine
  rw [if_neg (not_lt.mpr hLength), hParse]
  simp only [Json.toObj?, Option.bind_eq_bind, Option.bind_some, hNames,
    hWriter, hStrings, Json.get?_object_present hKeys hAt,
    Json.get?_object_present hKeys hProfiles,
    timeOf_utcJson hLawful hStorable.at_,
    profilesIn_pointsOut hLawful hStorable]
  rfl

/- The names that a line lists are sorted, and once each. -/
theorem sortDedup_of_sorted
    {names : List String} (hSorted : names.Pairwise (· < ·)) :
    sortDedup names = names := by
  have hSort : names.mergeSort (fun a b => a ≤ b) = names := by
    refine List.mergeSort_of_pairwise (hSorted.imp ?_)
    intro a b hLess
    exact decide_eq_true hLess.le
  unfold sortDedup
  rw [hSort, List.destutter_eq_self_iff]
  exact (hSorted.imp fun hLess => hLess.ne).isChain

/-
  What an entry is when it is recorded: the names without a
  reading are sorted, and no session limit means no session.
-/
structure Entry.Recorded (e : Entry) : Prop where
  sorted : e.unknown.Pairwise (· < ·)
  names : ∀ n ∈ e.unknown, validLiveName n = true ∧ e.profiles.get? n = none
  limit : ∀ n p, (n, p) ∈ e.profiles.entries →
    p.noSessionLimit = true → p.s = none

/- The entry but for the session resets. -/
def Entry.withoutSessionResets (e : Entry) : Entry :=
  { e with
    profiles := e.profiles.mapValues fun _ p =>
      { p with sReset := none } }

theorem stored_eq
    (hRecorded : e.Recorded) :
    e.stored = e.withoutSessionResets := by
  have hProfiles :
      (e.profiles.mapValues fun _ => Point.stored) =
        e.profiles.mapValues fun _ p =>
          { p with sReset := none } := by
    apply OrderedMap.ext_entries
    unfold OrderedMap.mapValues
    dsimp only
    apply List.map_congr_left
    intro x hMem
    have hLimit := hRecorded.limit x.1 x.2 hMem
    unfold Point.stored
    cases hNo : x.2.noSessionLimit with
    | false => rfl
    | true =>
      rw [hLimit hNo]
      rfl
  have hFilter :
      (e.unknown.filter fun n => validLiveName n &&
        ((e.profiles.mapValues fun _ =>
          Point.stored).get? n).isNone) = e.unknown := by
    rw [List.filter_eq_self]
    intro n hMem
    rcases hRecorded.names n hMem with ⟨hName, hNone⟩
    rw [OrderedMap.get?_mapValues, hNone, hName]
    rfl
  unfold Entry.stored Entry.withoutSessionResets unknownIn
  dsimp only
  rw [hFilter, sortDedup_of_sorted hRecorded.sorted, hProfiles]

-- The Rewrite

/- Readers take at most this many bytes from the end. -/
def tail : ℕ := 4 * 1024 * 1024

/- A rewrite keeps the file under this size. -/
def rewriteMax : ℕ := 3 * 1024 * 1024

/- Entries older than this are dropped by a rewrite. -/
def retention : ℤ := 8 * 86400

def newline : UInt8 := 10

/- The end of the file, from the first whole line when cut. -/
def readTail (bytes : List UInt8) : List UInt8 :=
  if bytes.length ≤ tail then bytes
  else
    ((bytes.drop (bytes.length - tail)).dropWhile (· ≠ newline)).tail

/- The UTF-8 lines, in file order. -/
def lines (bytes : List UInt8) : List (List Char) :=
  (bytes.splitOn newline).filterMap decodeUtf8

/- The readable lines that are no older than eight days. -/
def kept
    (chrono : Chrono) (bytes : List UInt8) (now : ℤ) :
    List (List Char) :=
  (lines bytes).filter fun l =>
    (parseLine chrono l now).any fun e =>
      saturatingSub now retention ≤ e.at_

def lineSize (l : List Char) : ℕ :=
  (utf8 l).length + 1

def linesSize (ls : List (List Char)) : ℕ :=
  (ls.map lineSize).sum

/- Drops the first lines, never the last one, until small. -/
def trimmed : ℕ → List (List Char) → List (List Char)
| _, [] => []
| total, l :: rest =>
  if rewriteMax ≤ total ∧ rest ≠ [] then
    trimmed (total - lineSize l) rest
  else l :: rest

def bodyOf (ls : List (List Char)) : List UInt8 :=
  ls.flatMap fun l => utf8 l ++ [newline]

def rewritten
    (chrono : Chrono) (bytes : List UInt8) (line : List Char) (now : ℤ) :
    List UInt8 :=
  let all := kept chrono bytes now ++ [line]
  bodyOf (trimmed (linesSize all) all)

theorem trimmed_cons
    (total : ℕ) (l : List Char) (rest : List (List Char)) :
    trimmed total (l :: rest) =
      if rewriteMax ≤ total ∧ rest ≠ [] then
        trimmed (total - lineSize l) rest
      else l :: rest :=
  rfl

theorem length_bodyOf (ls : List (List Char)) :
    (bodyOf ls).length = linesSize ls := by
  unfold bodyOf linesSize
  rw [List.length_flatMap]
  congr 1
  apply List.map_congr_left
  intro l _
  unfold lineSize
  rw [List.length_append, List.length_singleton]

theorem linesSize_cons (l : List Char) (ls : List (List Char)) :
    linesSize (l :: ls) = lineSize l + linesSize ls := by
  unfold linesSize
  rw [List.map_cons, List.sum_cons]

/-
  What is dropped are the oldest lines, one at a time while
  the lines are not under the limit.
-/
theorem trimmed_spec
    (old : List (List Char)) (line : List Char) :
    ∃ older newer, old = older ++ newer ∧
      trimmed (linesSize (old ++ [line])) (old ++ [line]) = newer ++ [line] ∧
      (linesSize (newer ++ [line]) < rewriteMax ∨ newer = []) ∧
      ∀ before last, older = before ++ [last] →
        rewriteMax ≤ linesSize (last :: newer ++ [line]) := by
  induction old with
  | nil =>
    refine ⟨[], [], rfl, ?_, .inr rfl, ?_⟩
    · rw [List.nil_append, trimmed_cons, if_neg (by simp)]
    · intro before last hSplit
      simp at hSplit
  | cons l old ih =>
    rw [List.cons_append, trimmed_cons]
    by_cases hLarge : rewriteMax ≤ linesSize (l :: (old ++ [line]))
    · rw [if_pos ⟨hLarge, by simp⟩, linesSize_cons, Nat.add_sub_cancel_left]
      rcases ih with ⟨older, newer, hOld, hTrimmed, hSmall, hNeeded⟩
      refine ⟨l :: older, newer, by rw [hOld]; rfl, hTrimmed, hSmall, ?_⟩
      intro before last hSplit
      cases before with
      | nil =>
        rw [List.nil_append] at hSplit
        injection hSplit with hHead hTail
        rw [hTail, List.nil_append] at hOld
        rw [← hHead, ← hOld]
        exact hLarge
      | cons b before =>
        injection hSplit with hHead hTail
        exact hNeeded before last hTail
    · rw [if_neg fun hBoth => hLarge hBoth.1]
      refine ⟨[], l :: old, rfl, rfl, .inl ?_, ?_⟩
      · exact not_le.mp hLarge
      · intro before last hSplit
        simp at hSplit

/- The file after a rewrite, from the file before it. -/
theorem rewritten_spec
    (chrono : Chrono) (bytes : List UInt8) (line : List Char) (now : ℤ) :
    ∃ older newer, kept chrono bytes now = older ++ newer ∧
      rewritten chrono bytes line now =
        bodyOf newer ++ (utf8 line ++ [newline]) ∧
      ((rewritten chrono bytes line now).length < rewriteMax ∨ newer = []) ∧
      ∀ before last, older = before ++ [last] →
        rewriteMax ≤ (bodyOf (last :: newer ++ [line])).length := by
  rcases trimmed_spec (kept chrono bytes now) line with
    ⟨older, newer, hKept, hTrimmed, hSmall, hNeeded⟩
  have hBody : rewritten chrono bytes line now =
      bodyOf (newer ++ [line]) := by
    unfold rewritten
    dsimp only
    rw [hTrimmed]
  refine ⟨older, newer, hKept, ?_, ?_, ?_⟩
  · rw [hBody]
    unfold bodyOf
    rw [List.flatMap_append, List.flatMap_singleton]
  · rw [hBody, length_bodyOf]
    exact hSmall
  · intro before last hSplit
    rw [length_bodyOf]
    exact hNeeded before last hSplit

/-
  A line is read back as its entry, session resets aside, and
  a rewrite writes the new line after the newest of the old
  ones that it keeps.
-/
theorem history_reads_back
    (chrono : Chrono) (hLawful : chrono.Lawful) (now : ℤ) :
    (∀ e : Entry, e.Storable now →
      (utf8 (toLine chrono e)).length ≤ lineMax →
      parseLine chrono (toLine chrono e) now =
          some e.stored ∧
        (e.Recorded → e.stored = e.withoutSessionResets)) ∧
      ∀ (file : List UInt8) (e : Entry),
        ∃ older newer,
          kept chrono (readTail file) now = older ++ newer ∧
          rewritten chrono (readTail file) (toLine chrono e)
              now =
            bodyOf newer ++ (utf8 (toLine chrono e) ++ [newline]) ∧
          ((rewritten chrono (readTail file)
              (toLine chrono e) now).length < rewriteMax ∨
            newer = []) ∧
          ∀ before last, older = before ++ [last] →
            rewriteMax ≤ (bodyOf (last :: newer ++
              [toLine chrono e])).length := by
  constructor
  · intro e hStorable hLength
    exact ⟨parseLine_toLine hLawful hStorable hLength, stored_eq⟩
  · intro file e
    exact rewritten_spec chrono (readTail file) (toLine chrono e) now

-- Lines That Are Not Read

/- A calendar of its own text but for the epoch. -/
def decimalChrono : Chrono where
  formatUtc := fun t =>
    if t = 0 then some "1970-01-01T00:00:00Z"
    else some (String.ofList (NumText.ofInt t).chars)
  parseRfc3339 := fun text =>
    if text = "1970-01-01T00:00:00Z" then some 0
    else if hNumber : isNumber text.toList = true then
      NumText.toInt? ⟨text.toList, hNumber⟩
    else none

theorem decimalChrono_lawful : decimalChrono.Lawful where
  readsBack := by
    intro t _
    unfold decimalChrono
    dsimp only
    by_cases hZero : t = 0
    · rw [if_pos hZero]
      exact ⟨_, rfl, by rw [if_pos rfl, hZero]⟩
    · rw [if_neg hZero]
      refine ⟨_, rfl, ?_⟩
      have hOther :
          String.ofList (NumText.ofInt t).chars ≠ "1970-01-01T00:00:00Z" := by
        intro hSame
        have hChars := congrArg String.toList hSame
        rw [String.toList_ofList] at hChars
        have hMem : 'T' ∈ (NumText.ofInt t).chars := by
          rw [hChars]
          decide
        exact absurd ((NumText.ofInt t).isNumChar_of_mem hMem) (by decide)
      rw [if_neg hOther, dif_pos (by
        rw [String.toList_ofList]
        exact (NumText.ofInt t).valid)]
      simp only [String.toList_ofList]
      exact NumText.toInt?_ofInt t

/- Only a believed time is read. -/
theorem skew_of_parseLine
    {l : List Char} (hParse : parseLine chrono l now = some e) :
    |saturatingSub e.at_ now| ≤ maxSkew := by
  unfold parseLine at hParse
  split at hParse
  · cases hParse
  · simp only [Option.bind_eq_bind, Option.bind_eq_some_iff] at hParse
    rcases hParse with ⟨v, -, members, -, at_, ⟨j, -, hTime⟩, p, -, hEntry⟩
    rw [← Option.some.inj hEntry]
    exact of_decide_eq_true (Option.filter_eq_some_iff.mp hTime).2

theorem length_le_utf8 (text : List Char) :
    text.length ≤ (utf8 text).length := by
  induction text with
  | nil => exact Nat.zero_le _
  | cons c text ih =>
    have hPos := List.length_pos_iff.mpr (utf8EncodeChar_ne_nil c)
    unfold utf8 at ih ⊢
    rw [List.flatMap_cons, List.length_append, List.length_cons]
    omega

theorem utf8_length_le (text : List Char) :
    (utf8 text).length ≤ 4 * text.length := by
  induction text with
  | nil => exact Nat.le_refl _
  | cons c text ih =>
    have hChar := String.length_utf8EncodeChar c
    have hFour := Char.utf8Size_le_four c
    unfold utf8 at ih ⊢
    rw [List.flatMap_cons, List.length_append, List.length_cons]
    omega

/- A name of its own for each number. -/
def numbered (k : ℕ) : String :=
  String.ofList ('x' :: Nat.toDigits 10 k)

theorem numbered_injective :
    Function.Injective numbered := by
  intro j k hSame
  have hChars := congrArg String.toList hSame
  unfold numbered at hChars
  rw [String.toList_ofList, String.toList_ofList] at hChars
  have hDigits := (List.cons.inj hChars).2
  have hNumbers := congrArg (Nat.ofDigitChars 10 · 0) hDigits
  rwa [Nat.ofDigitChars_ten_toDigits,
    Nat.ofDigitChars_ten_toDigits] at hNumbers

theorem validLiveName_numbered
    {k : ℕ} (hSmall : k < 10 ^ 4) :
    validLiveName (numbered k) = true := by
  have hLength : (Nat.toDigits 10 k).length ≤ 4 :=
    (Nat.length_toDigits_le_iff (by decide) (by decide)).mpr hSmall
  have hUpper := utf8_length_le ('x' :: Nat.toDigits 10 k)
  rw [List.length_cons] at hUpper
  refine validLiveName_of_alphanum ?_ ?_
  · intro c hMem
    delta Char.isAlphanum
    rw [isDigit_of_mem_decimal hMem, Bool.or_true]
  · rw [String.utf8ByteSize, String.toByteArray_ofList,
      ← toByteArray_utf8, List.size_toByteArray]
    unfold maxName
    omega

def noReading : Point where
  s := none
  w := 0
  wReset := none
  sReset := none
  noSessionLimit := false

/- The same reading for each number's name. -/
def numberedProfiles (numbers : List ℕ) :
    OrderedMap String Point :=
  numbers.foldl (fun m k => m.upsert (numbered k) fun _ => noReading) .empty

theorem get?_numberedProfiles
    (numbers : List ℕ) (n : String) :
    (numberedProfiles numbers).get? n =
      if n ∈ numbers.map numbered then some noReading
      else none := by
  induction numbers using List.reverseRecOn with
  | nil => rfl
  | append_singleton numbers k ih =>
    have hStep : numberedProfiles (numbers ++ [k]) =
        (numberedProfiles numbers).upsert (numbered k)
          fun _ => noReading := by
      unfold numberedProfiles
      rw [List.foldl_append]
      rfl
    rw [hStep, OrderedMap.get?_upsert, ih, List.map_append]
    by_cases hSame : n = numbered k
    · simp [hSame]
    · simp [hSame]

variable {numbers : List ℕ}

theorem mem_numberedProfiles
    {n : String} (hMem : (n, p) ∈ (numberedProfiles numbers).entries) :
    p = noReading ∧ ∃ k ∈ numbers, numbered k = n := by
  have hGet := OrderedMap.get?_of_mem_entries hMem
  rw [get?_numberedProfiles] at hGet
  split at hGet
  next hIn =>
    exact ⟨(Option.some.inj hGet).symm, List.mem_map.mp hIn⟩
  next => cases hGet

theorem length_numberedProfiles
    (hNodup : numbers.Nodup) :
    numbers.length ≤ (numberedProfiles numbers).entries.length := by
  have hNames : (numbers.map numbered).Nodup := hNodup.map numbered_injective
  have hSub : numbers.map numbered ⊆
      (numberedProfiles numbers).entries.map Prod.fst := by
    intro n hMem
    have hGet := get?_numberedProfiles numbers n
    rw [if_pos hMem] at hGet
    exact List.mem_map.mpr ⟨_, OrderedMap.mem_entries_of_get? hGet, rfl⟩
  have hLength := (List.subperm_of_subset hNames hSub).length_le
  simpa using hLength

/- One login for each number. -/
def numberedEntry (numbers : List ℕ) : Entry where
  at_ := 0
  profiles := numberedProfiles numbers
  by_ := none
  unknown := []

theorem numberedEntry_storable
    (hSmall : ∀ k ∈ numbers, k < 10 ^ 4) :
    (numberedEntry numbers).Storable 0 := by
  have hZero : Believed 0 0 := by
    unfold Believed FourDigitYear
    decide
  constructor
  case names =>
    intro n p hMem
    rcases (mem_numberedProfiles hMem).2 with ⟨k, hk, rfl⟩
    exact validLiveName_numbered (hSmall k hk)
  case percentages =>
    intro n p hMem
    rw [(mem_numberedProfiles hMem).1]
    constructor
    case s =>
      intro s hs
      cases hs
    case w => exact Nat.zero_le 100
  case at_ => exact hZero
  case resets =>
    intro n p hMem t ht
    rw [(mem_numberedProfiles hMem).1] at ht
    cases ht

theorem length_compactMember_noReading
    (chrono : Chrono) (n : String) :
    34 ≤ (Json.compactMember (n, pointOut chrono noReading)).length := by
  have hPoint : (Json.compact (pointOut chrono noReading)).length = 31 := by
    simp [pointOut, noReading, Json.present, Json.orNull, Json.ofNat,
      NumText.ofNat, Json.compact, Json.compactMembers, Json.compactMember,
      quote, escapeChar]
  simp only [Json.compactMember, quote, List.length_append,
    List.length_cons, hPoint]
  omega

/- Each reading takes 34 bytes and more of the line. -/
theorem mul_length_le_toLine
    (chrono : Chrono) (hNodup : numbers.Nodup) :
    34 * numbers.length ≤
      (utf8 (toLine chrono (numberedEntry numbers))).length := by
  have hEach : ∀ m ∈
      pointsOut chrono (numberedProfiles numbers),
      34 ≤ (Json.compactMember m).length := by
    intro m hMem
    rcases List.mem_map.mp hMem with ⟨⟨n, p⟩, hIn, rfl⟩
    rw [(mem_numberedProfiles hIn).1]
    exact length_compactMember_noReading chrono n
  have hMembers := Json.mul_length_le_compactMembers hEach
  have hCount : numbers.length ≤
      (pointsOut chrono (numberedProfiles numbers)).length := by
    unfold pointsOut
    rw [List.length_map]
    exact length_numberedProfiles hNodup
  have hProfiles :
      ("profiles",
        Json.obj (pointsOut chrono (numberedProfiles numbers))) ∈
        Json.present (lineOut chrono (numberedEntry numbers)) := by
    simp [lineOut, numberedEntry]
  have hMember := Json.length_compactMember_le hProfiles
  have hBytes := length_le_utf8 (toLine chrono (numberedEntry numbers))
  unfold toLine at hBytes ⊢
  simp only [Json.compact, Json.compactMember,
    List.length_cons, List.length_append] at hMember hBytes ⊢
  omega

/- As many logins as fill a line. -/
def manyLogins : Entry :=
  numberedEntry (List.range 2000)

theorem lineMax_lt_manyLogins (chrono : Chrono) :
    lineMax < (utf8 (toLine chrono manyLogins)).length := by
  have hLength := mul_length_le_toLine chrono (List.nodup_range (n := 2000))
  rw [List.length_range] at hLength
  exact lt_of_lt_of_le (by decide) hLength

def farEntry : Entry where
  at_ := 253402300799
  profiles := .empty
  by_ := none
  unknown := []

/-
  The reader refuses a time of the year 9999, which the
  writer writes, and a line of 2000 logins.
-/
theorem far_time_and_long_line_are_not_read :
    (¬ ∀ (chrono : Chrono), chrono.Lawful →
      ∀ (now : ℤ) (e : Entry),
        (∀ n p, (n, p) ∈ e.profiles.entries →
          validLiveName n = true ∧ p.InRange ∧
            ∀ t ∈ p.wReset, FourDigitYear t) →
        FourDigitYear e.at_ →
        parseLine chrono (toLine chrono e) now = some e.stored) ∧
      ¬ ∀ (chrono : Chrono), chrono.Lawful →
        ∀ (now : ℤ) (e : Entry), e.Storable now →
          parseLine chrono (toLine chrono e) now = some e.stored := by
  constructor
  · intro hAll
    have hNames : ∀ n p, (n, p) ∈ farEntry.profiles.entries →
        validLiveName n = true ∧ p.InRange ∧
          ∀ t ∈ p.wReset, FourDigitYear t := by
      intro n p hMem
      cases hMem
    have hParse := hAll decimalChrono decimalChrono_lawful 0
      farEntry hNames (by unfold FourDigitYear; decide)
    exact absurd (skew_of_parseLine hParse) (by decide)
  · intro hAll
    have hSmall : ∀ k ∈ List.range 2000, k < 10 ^ 4 := by
      intro k hk
      rw [List.mem_range] at hk
      omega
    have hParse := hAll decimalChrono decimalChrono_lawful 0
      manyLogins (numberedEntry_storable hSmall)
    unfold parseLine at hParse
    rw [if_pos (lineMax_lt_manyLogins decimalChrono)] at hParse
    exact Option.some_ne_none _ hParse.symm

def oneLogin : Entry where
  at_ := 0
  profiles := (OrderedMap.empty).upsert "work" fun _ =>
    { s := some 5
      w := 70
      wReset := some 0
      sReset := some 9
      noSessionLimit := false }
  by_ := some .usage
  unknown := ["play"]

theorem oneLogin_storable : oneLogin.Storable 0 := by
  have hZero : Believed 0 0 := by
    unfold Believed FourDigitYear
    decide
  have hOnly : ∀ n p, (n, p) ∈ oneLogin.profiles.entries →
      n = "work" ∧ p.s = some 5 ∧ p.w = 70 ∧ p.wReset = some 0 := by
    intro n p hMem
    rcases List.mem_singleton.mp hMem with hSame
    cases hSame
    exact ⟨rfl, rfl, rfl, rfl⟩
  constructor
  case names =>
    intro n p hMem
    rw [(hOnly n p hMem).1]
    decide
  case percentages =>
    intro n p hMem
    rcases hOnly n p hMem with ⟨-, hS, hW, -⟩
    constructor
    case s =>
      intro s hs
      rw [hS] at hs
      cases hs
      decide
    case w =>
      rw [hW]
      decide
  case at_ => exact hZero
  case resets =>
    intro n p hMem t ht
    rw [(hOnly n p hMem).2.2.2] at ht
    cases ht
    exact hZero

theorem history_reads_back_one_login :
    parseLine decimalChrono (toLine decimalChrono oneLogin) 0 =
      some oneLogin.stored :=
  ((history_reads_back decimalChrono decimalChrono_lawful 0).1
    oneLogin oneLogin_storable (by decide +kernel)).1

end Profile
