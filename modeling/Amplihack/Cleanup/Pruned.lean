import Amplihack.Cleanup.Eligibility

/-
  The `owned-paths` file as the text that is written and read
  back, and its pruning.
-/

-- Records

namespace Cleanup

open Base

/- An entry with its path as it is written. -/
structure OwnedRecord where
  kind : OwnedKind
  path : List Char
  branch : Option (List Char)

def OwnedRecord.owned (r : OwnedRecord) : OwnedPath where
  kind := r.kind
  path := .ofText r.path
  branch := r.branch.map String.ofList

/- The branch field, which may be missing or empty. -/
def parseBranchText :
    List (List Char) → Option (Option (List Char))
| [] => some none
| [branch] =>
  if branch = [] then some none else some (some branch)
| _ :: _ :: _ => none

def parseRecord (line : List UInt8) : Option OwnedRecord :=
  if line.isEmpty || line.any isBadByte then none
  else do
    let text ← decodeUtf8 line
    match text.splitOn '\t' with
    | kind :: path :: rest =>
      let kind ← parseKind kind
      if path.head? = some '/' then
        let branch ← parseBranchText rest
        some ⟨kind, path, branch⟩
      else none
    | _ => none

/- The records of the lines that are read. -/
def parseRecords (bytes : List UInt8) : List OwnedRecord :=
  ((bytes.splitOn 10).take ownedPathsMaxLines).filterMap parseRecord

def kindText : OwnedKind → List Char
| .worktree => "worktree".toList
| .target => "target".toList

def OwnedRecord.line (r : OwnedRecord) : List Char :=
  kindText r.kind ++ '\t' :: (r.path ++ '\t' :: r.branch.getD [])

def formatOwnedLine (r : OwnedRecord) : List UInt8 :=
  utf8 r.line ++ [10]

-- Pruning

/- None when the file is there and cannot be read. -/
def readRecords : OwnedFile → Option (List OwnedRecord)
| .missing => some []
| .unreadable _ => none
| .readable bytes =>
  if ownedPathsMaxBytes < bytes.length then none
  else some (parseRecords bytes)

/-
  Drops the paths that are not there, and the file when no
  path is left. There is no result when the file cannot be
  read.
-/
def pruneOwnedPaths
    (exist : List Char → Bool) (file : OwnedFile) :
    Option OwnedFile := do
  let owned ← readRecords file
  let out := (owned.filter fun r => exist r.path).flatMap
    formatOwnedLine
  if out = [] then some .missing else some (.readable out)

def fileRecords : OwnedFile → List OwnedRecord
| .missing => []
| .unreadable bytes => parseRecords bytes
| .readable bytes => parseRecords bytes

-- Written And Read Back

variable {r : OwnedRecord}
variable {bytes : List UInt8}

/- A control character of ASCII. -/
def IsControl (c : Char) : Prop :=
  c.toNat < 0x20 ∨ c.toNat = 0x7f

/- An absolute path and a branch without control characters. -/
structure OwnedRecord.Plain (r : OwnedRecord) : Prop where
  absolute : r.path.head? = some '/'
  path : ∀ c ∈ r.path, ¬IsControl c
  branch : ∀ text ∈ r.branch, ∀ c ∈ text, ¬IsControl c

/- An empty branch is read as none. -/
def OwnedRecord.reread (r : OwnedRecord) : OwnedRecord :=
  { r with branch := r.branch.filter (· ≠ []) }

theorem mem_utf8
    {b : UInt8} {text : List Char} (hMem : b ∈ utf8 text)
    (hSmall : b.toNat < 128) :
    ∃ c ∈ text, c.toNat = b.toNat := by
  rcases List.mem_flatMap.mp hMem with ⟨c, hc, hByte⟩
  exact ⟨c, hc, toNat_of_mem_utf8EncodeChar hByte hSmall⟩

theorem toNat_of_isBadByte
    {b : UInt8} (hBad : isBadByte b = true) :
    b.toNat < 128 ∧ b.toNat ≠ 9 ∧ (b.toNat < 0x20 ∨ b.toNat = 0x7f) := by
  unfold isBadByte at hBad
  rw [Bool.and_eq_true, Bool.or_eq_true, bne_iff_ne,
    decide_eq_true_eq, beq_iff_eq] at hBad
  rcases hBad with ⟨hTab, hLow⟩
  have hNotTab : b.toNat ≠ 9 := fun hEq =>
    hTab (UInt8.toNat_inj.mp hEq)
  rcases hLow with hLow | rfl
  · have hNat : b.toNat < 32 := UInt8.lt_iff_toNat_lt.mp hLow
    exact ⟨by omega, hNotTab, .inl hNat⟩
  · exact ⟨by decide, hNotTab, .inr rfl⟩

theorem kindText_plain (kind : OwnedKind) :
    ∀ c ∈ kindText kind, ¬IsControl c := by
  have hAll : (kindText kind).all (fun c =>
      decide (0x20 ≤ c.toNat ∧ c.toNat ≠ 0x7f)) = true := by
    cases kind with
    | worktree | target => rfl
  intro c hc hControl
  have hPlain := of_decide_eq_true (List.all_eq_true.mp hAll c hc)
  rcases hControl with hLow | hDel
  · omega
  · exact hPlain.2 hDel

theorem parseKind_kindText (kind : OwnedKind) :
    parseKind (kindText kind) = some kind := by
  have hOther : "target".toList ≠ "worktree".toList := by simp
  unfold parseKind kindText
  cases kind with
  | worktree =>
    dsimp only
    rw [if_pos rfl]
  | target =>
    dsimp only
    rw [if_neg hOther, if_pos rfl]

/- The characters of a line are tabs or no control ones. -/
theorem mem_line
    {c : Char} (hPlain : r.Plain) (hc : c ∈ r.line) :
    c = '\t' ∨ ¬IsControl c := by
  unfold OwnedRecord.line at hc
  rcases List.mem_append.mp hc with hKind | hRest
  · exact .inr (kindText_plain r.kind c hKind)
  · rcases List.mem_cons.mp hRest with rfl | hRest
    · exact .inl rfl
    · rcases List.mem_append.mp hRest with hPath | hRest
      · exact .inr (hPlain.path c hPath)
      · rcases List.mem_cons.mp hRest with rfl | hBranch
        · exact .inl rfl
        · cases hSome : r.branch with
          | none =>
            rw [hSome] at hBranch
            cases hBranch
          | some text =>
            rw [hSome] at hBranch
            exact .inr (hPlain.branch text hSome c hBranch)

theorem isControl_tab : IsControl '\t' :=
  .inl (by decide)

theorem parseRecord_line (hPlain : r.Plain) :
    parseRecord (utf8 r.line) = some r.reread := by
  have hGood : (utf8 r.line).any isBadByte = false := by
    by_contra hSome
    rcases List.any_eq_true.mp (Bool.of_not_eq_false hSome)
      with ⟨b, hMem, hBad⟩
    rcases toNat_of_isBadByte hBad with ⟨hSmall, hTab, hLow⟩
    rcases mem_utf8 hMem hSmall with ⟨c, hc, hSame⟩
    rcases mem_line hPlain hc with rfl | hNot
    · exact hTab hSame.symm
    · apply hNot
      unfold IsControl
      rw [hSame]
      exact hLow
  have hSome : (utf8 r.line).isEmpty = false := by
    rw [List.isEmpty_eq_false_iff]
    intro hNil
    have hLine := utf8_eq_nil.mp hNil
    unfold OwnedRecord.line at hLine
    simp at hLine
  have hPathTab : '\t' ∉ r.path := fun hMem =>
    hPlain.path _ hMem isControl_tab
  have hBranchTab : '\t' ∉ r.branch.getD [] := by
    intro hMem
    cases hSome : r.branch with
    | none =>
      rw [hSome] at hMem
      cases hMem
    | some text =>
      rw [hSome] at hMem
      exact hPlain.branch text hSome _ hMem isControl_tab
  have hKindTab : '\t' ∉ kindText r.kind := fun hMem =>
    kindText_plain r.kind _ hMem isControl_tab
  have hSplit : r.line.splitOn '\t' =
      [kindText r.kind, r.path, r.branch.getD []] := by
    unfold OwnedRecord.line
    rw [List.splitOn_append_cons_self_of_not_mem hKindTab,
      List.splitOn_append_cons_self_of_not_mem hPathTab,
      List.splitOn_eq_singleton hBranchTab]
  have hBranch : parseBranchText [r.branch.getD []] =
      some (r.branch.filter (· ≠ [])) := by
    unfold parseBranchText
    rcases r.branch with _ | _ | ⟨c, text⟩
    · rfl
    · rfl
    · rfl
  unfold parseRecord
  rw [hSome, hGood, if_neg (by simp), decodeUtf8_utf8]
  dsimp only [Option.bind_eq_bind, Option.bind_some]
  rw [hSplit]
  dsimp only
  rw [parseKind_kindText]
  dsimp only [Option.bind_some]
  rw [if_pos hPlain.absolute, hBranch]
  rfl

theorem newline_notMem_line (hPlain : r.Plain) :
    (10 : UInt8) ∉ utf8 r.line := by
  intro hMem
  rcases mem_utf8 hMem (by decide) with ⟨c, hc, hSame⟩
  rcases mem_line hPlain hc with rfl | hNot
  · exact absurd hSame (by decide)
  · apply hNot
    unfold IsControl
    rw [hSame]
    exact .inl (by decide)

/- The records that are written are read back, up to the cap. -/
theorem parseRecords_format
    {records : List OwnedRecord} (hPlain : ∀ r ∈ records, r.Plain) :
    parseRecords (records.flatMap formatOwnedLine) =
      (records.take ownedPathsMaxLines).map
        OwnedRecord.reread := by
  have hLines : records.flatMap formatOwnedLine =
      (records.map fun r => utf8 r.line).flatMap (· ++ [10]) := by
    rw [List.flatMap_map]
    rfl
  have hFree : ∀ line ∈ records.map fun r => utf8 r.line,
      (10 : UInt8) ∉ line := by
    intro line hLine
    rcases List.mem_map.mp hLine with ⟨r, hr, rfl⟩
    exact newline_notMem_line (hPlain r hr)
  have hLast : parseRecord [] = none := rfl
  have hEach : ∀ taken : List OwnedRecord,
      (∀ r ∈ taken, r.Plain) →
      (taken.map fun r => utf8 r.line).filterMap parseRecord =
        taken.map OwnedRecord.reread := by
    intro taken hTaken
    rw [List.filterMap_map, ← List.filterMap_eq_map']
    exact List.filterMap_congr fun r hr =>
      parseRecord_line (hTaken r hr)
  unfold parseRecords
  rw [hLines, splitOn_lines hFree, List.take_append, List.filterMap_append,
    ← List.map_take, hEach _ fun r hr => hPlain r (List.mem_of_mem_take hr)]
  -- the text after the last line break is no record
  have hEnd : ∀ n, (([[]] : List (List UInt8)).take n).filterMap
      parseRecord = [] := by
    intro n
    cases n with
    | zero => rfl
    | succ n =>
      rw [List.take_succ_cons, List.take_nil, List.filterMap_cons_none hLast]
      rfl
  rw [hEnd, List.append_nil]

-- What Is Read

theorem isBadByte_of_isControl
    {c : Char} (hControl : IsControl c) (hTab : c ≠ '\t') :
    ∃ b ∈ String.utf8EncodeChar c, isBadByte b = true := by
  have hSmall : c.val.toNat ≤ 0x7f := by
    rcases hControl with hLow | hDel
    · exact Nat.le_of_lt (Nat.lt_trans hLow (by decide))
    · exact Nat.le_of_eq hDel
  have hByte : (UInt8.ofNat c.val.toNat).toNat = c.toNat := by
    rw [UInt8.toNat_ofNat']
    change c.val.toNat % 256 = c.val.toNat
    omega
  refine ⟨UInt8.ofNat c.val.toNat, ?_, ?_⟩
  · unfold String.utf8EncodeChar
    dsimp only
    rw [if_pos hSmall]
    exact List.mem_singleton_self _
  · have hNotTab : UInt8.ofNat c.val.toNat ≠ 9 := by
      intro hEq
      rw [hEq] at hByte
      apply hTab
      apply Char.ext
      exact UInt32.toNat_inj.mp hByte.symm
    unfold isBadByte
    rw [Bool.and_eq_true, Bool.or_eq_true, bne_iff_ne,
      decide_eq_true_eq, beq_iff_eq]
    refine ⟨hNotTab, ?_⟩
    rcases hControl with hLow | hDel
    · refine .inl (UInt8.lt_iff_toNat_lt.mpr ?_)
      rw [hByte]
      exact hLow
    · refine .inr (UInt8.toNat_inj.mp ?_)
      rw [hByte, hDel]
      rfl

/- What is read is plain, and is written as it was read. -/
theorem plain_of_parseRecord
    {line : List UInt8} (hParse : parseRecord line = some r) :
    r.Plain ∧ r.reread = r := by
  unfold parseRecord at hParse
  split at hParse
  · cases hParse
  next hLine =>
  rw [Bool.or_eq_true, not_or] at hLine
  cases hText : decodeUtf8 line with
  | none =>
    rw [hText] at hParse
    cases hParse
  | some text =>
    have hBytes := decodeUtf8_eq_some_iff.mp hText
    have hFree : ∀ c ∈ text, c ≠ '\t' → ¬IsControl c := by
      intro c hc hTab hControl
      rcases isBadByte_of_isControl hControl hTab with ⟨b, hMem, hBad⟩
      apply hLine.2
      rw [← hBytes]
      exact List.any_eq_true.mpr ⟨b, List.mem_flatMap.mpr ⟨c, hc, hMem⟩, hBad⟩
    have hPart : ∀ part ∈ text.splitOn '\t', ∀ c ∈ part, ¬IsControl c := by
      intro part hPart c hc
      have hIn := (mem_splitOn hPart).2 hc
      refine hFree c hIn ?_
      rintro rfl
      exact (mem_splitOn (d := '\t') hPart).1 hc
    rw [hText] at hParse
    dsimp only [Option.bind_eq_bind, Option.bind_some]
      at hParse
    split at hParse
    next kind path rest hSplit =>
      rw [hSplit] at hPart
      cases hKind : parseKind kind with
      | none =>
        rw [hKind] at hParse
        cases hParse
      | some kind =>
        rw [hKind] at hParse
        dsimp only [Option.bind_some] at hParse
        split at hParse
        next hRoot =>
          rcases rest with _ | ⟨branch, _ | ⟨_, _⟩⟩
          · cases hParse
            exact ⟨⟨hRoot, hPart path (by simp),
              nofun⟩, rfl⟩
          · unfold parseBranchText at hParse
            dsimp only at hParse
            split at hParse
            · cases hParse
              exact ⟨⟨hRoot, hPart path (by simp),
                nofun⟩, rfl⟩
            next hSome =>
              cases hParse
              refine ⟨⟨hRoot, hPart path (by simp), ?_⟩, ?_⟩
              · intro b hb
                rcases Option.mem_some_iff.mp hb
                  with rfl
                exact hPart _ (by simp)
              · unfold OwnedRecord.reread
                simp [hSome]
          · cases hParse
        next => cases hParse
    next => cases hParse

-- Records Survive

/- The records of all lines. -/
def allRecords (bytes : List UInt8) : List OwnedRecord :=
  (bytes.splitOn 10).filterMap parseRecord

/- Those of the lines after the cap. -/
def lateRecords (bytes : List UInt8) : List OwnedRecord :=
  ((bytes.splitOn 10).drop ownedPathsMaxLines).filterMap parseRecord

theorem plain_of_mem
    (hMem : r ∈ parseRecords bytes) :
    r.Plain ∧ r.reread = r := by
  rcases List.mem_filterMap.mp hMem with ⟨line, _, hParse⟩
  exact plain_of_parseRecord hParse

theorem length_parseRecords (bytes : List UInt8) :
    (parseRecords bytes).length ≤ ownedPathsMaxLines :=
  Nat.le_trans (List.length_filterMap_le _ _) (List.length_take_le _ _)

theorem allRecords_eq (bytes : List UInt8) :
    allRecords bytes = parseRecords bytes ++ lateRecords bytes := by
  unfold allRecords parseRecords lateRecords
  rw [← List.filterMap_append, List.take_append_drop]

/- The file that pruning leaves holds the paths still there. -/
theorem fileRecords_prune
    (exist : List Char → Bool) (hSize : bytes.length ≤ ownedPathsMaxBytes) :
    ∃ file, pruneOwnedPaths exist (.readable bytes) = some file ∧
      fileRecords file = (parseRecords bytes).filter fun r =>
        exist r.path := by
  have hRead : readRecords (.readable bytes) = some (parseRecords bytes) :=
    if_neg (Nat.not_lt.mpr hSize)
  have hKept : ∀ r ∈ (parseRecords bytes).filter fun r =>
      exist r.path, r.Plain ∧ r.reread = r :=
    fun r hr => plain_of_mem (List.mem_filter.mp hr).1
  have hLength : ((parseRecords bytes).filter fun r =>
      exist r.path).length ≤ ownedPathsMaxLines :=
    Nat.le_trans (List.length_filter_le _ _) (length_parseRecords bytes)
  unfold pruneOwnedPaths
  rw [hRead]
  dsimp only [Option.bind_eq_bind, Option.bind_some]
  generalize (parseRecords bytes).filter (fun r => exist r.path) = kept at *
  by_cases hNone : kept.flatMap formatOwnedLine = []
  · rw [if_pos hNone]
    refine ⟨.missing, rfl, ?_⟩
    cases kept with
    | nil => rfl
    | cons r rest =>
      rw [List.flatMap_cons, List.append_eq_nil_iff] at hNone
      unfold formatOwnedLine at hNone
      exact absurd hNone.1 (by simp)
  · rw [if_neg hNone]
    refine ⟨_, rfl, ?_⟩
    change parseRecords (kept.flatMap formatOwnedLine) = kept
    rw [parseRecords_format fun r hr => (hKept r hr).1,
      List.take_of_length_le hLength]
    calc kept.map OwnedRecord.reread = kept.map id :=
          List.map_congr_left fun r hr => (hKept r hr).2
      _ = kept := List.map_id kept

theorem records_survive_pruning
    (exist : List Char → Bool) (bytes : List UInt8)
    (records : List OwnedRecord) (hSize : bytes.length ≤ ownedPathsMaxBytes)
    (hLate : ∀ r ∈ lateRecords bytes, exist r.path = false)
    (hPlain : ∀ r ∈ records, r.Plain) :
    (∃ file, pruneOwnedPaths exist (.readable bytes) = some file ∧
      fileRecords file = (allRecords bytes).filter fun r => exist r.path) ∧
    parseRecords (records.flatMap formatOwnedLine) =
      (records.take ownedPathsMaxLines).map
        OwnedRecord.reread := by
  refine ⟨?_, parseRecords_format hPlain⟩
  rcases fileRecords_prune exist hSize with ⟨file, hPrune, hFile⟩
  have hNone : (lateRecords bytes).filter (fun r => exist r.path) = [] :=
    List.filter_eq_nil_iff.mpr fun r hr =>
      Bool.eq_false_iff.mp (hLate r hr)
  refine ⟨file, hPrune, ?_⟩
  rw [hFile, allRecords_eq, List.filter_append, hNone, List.append_nil]

/- `target<TAB>/a`, and an empty line. -/
def lonePath : List UInt8 :=
  [116, 97, 114, 103, 101, 116, 9, 47, 97, 10, 10]

theorem records_survive_pruning_of_lone_path :
    (∃ file, pruneOwnedPaths (fun path => path == ['/', 'a'])
        (.readable lonePath) = some file ∧
      fileRecords file = (allRecords lonePath).filter fun r =>
        r.path == ['/', 'a']) ∧
    parseRecords
        ([⟨.worktree, ['/', 'b'], some ['c']⟩].flatMap formatOwnedLine) =
      ([⟨.worktree, ['/', 'b'], some ['c']⟩].take
        ownedPathsMaxLines).map OwnedRecord.reread := by
  have hLate : lateRecords lonePath = [] := by decide +kernel
  refine records_survive_pruning _ lonePath _ (by decide) ?_ ?_
  · rw [hLate]
    nofun
  · intro r hr
    rcases List.mem_singleton.mp hr with rfl
    refine ⟨rfl, ?_, ?_⟩
    · simp [IsControl]
    · simp [IsControl]

/- A record, after as many empty lines as are read. -/
def lateLines : List (List UInt8) :=
  List.replicate ownedPathsMaxLines [] ++
    [utf8 (OwnedRecord.line ⟨.target, ['/'], none⟩)]

theorem rootRecord_plain :
    (⟨.target, ['/'], none⟩ : OwnedRecord).Plain := by
  refine ⟨rfl, ?_, nofun⟩
  simp [IsControl]

theorem splitOn_lateLines :
    (lateLines.flatMap (· ++ [10])).splitOn 10 = lateLines ++ [[]] := by
  apply splitOn_lines
  intro line hLine
  rcases List.mem_append.mp hLine with hEmpty | hLast
  · rw [List.eq_of_mem_replicate hEmpty]
    exact List.not_mem_nil
  · rw [List.mem_singleton.mp hLast]
    exact newline_notMem_line rootRecord_plain

theorem parseRecords_lateLines :
    parseRecords (lateLines.flatMap (· ++ [10])) = [] := by
  unfold parseRecords
  rw [splitOn_lateLines]
  unfold lateLines
  rw [List.append_assoc, List.take_left' List.length_replicate]
  apply List.filterMap_eq_nil_iff.mpr
  intro line hLine
  rw [List.eq_of_mem_replicate hLine]
  rfl

theorem allRecords_lateLines :
    ⟨.target, ['/'], none⟩ ∈ allRecords (lateLines.flatMap (· ++ [10])) := by
  unfold allRecords
  rw [splitOn_lateLines]
  refine List.mem_filterMap.mpr
    ⟨utf8 (OwnedRecord.line ⟨.target, ['/'], none⟩), ?_,
      parseRecord_line rootRecord_plain⟩
  simp [lateLines]

/-
  A record after the cap is pruned away, and a list that is
  longer than the cap is not read back.
-/
theorem late_records_lost :
    (¬∀ (exist : List Char → Bool) (bytes : List UInt8),
      bytes.length ≤ ownedPathsMaxBytes →
      ∃ file, pruneOwnedPaths exist (.readable bytes) = some file ∧
        fileRecords file = (allRecords bytes).filter fun r => exist r.path) ∧
    ¬∀ records : List OwnedRecord,
      (∀ r ∈ records, r.Plain) →
      parseRecords (records.flatMap formatOwnedLine) =
        records := by
  constructor
  · intro hAll
    have hSize : (lateLines.flatMap (· ++ [10])).length ≤
        ownedPathsMaxBytes := by
      have hEmpty :
          (List.replicate ownedPathsMaxLines
            ([] : List UInt8)).flatMap (· ++ [10]) =
              List.replicate ownedPathsMaxLines 10 := by
        rw [List.flatMap_replicate]
        exact List.flatten_replicate_singleton
      unfold lateLines
      rw [List.flatMap_append, hEmpty, List.length_append,
        List.length_replicate]
      decide +kernel
    rcases hAll (fun _ => true) _ hSize with ⟨file, hFile, hRecords⟩
    rcases fileRecords_prune (fun _ => true) hSize with
      ⟨file', hFile', hRecords'⟩
    rw [hFile] at hFile'
    rcases Option.some.inj hFile' with rfl
    rw [hRecords', parseRecords_lateLines] at hRecords
    have hNone := List.filter_eq_nil_iff.mp hRecords.symm
    exact hNone _ allRecords_lateLines rfl
  · intro hAll
    let records : List OwnedRecord :=
      List.replicate (ownedPathsMaxLines + 1) ⟨.target, ['/'], none⟩
    have hPlain : ∀ r ∈ records, r.Plain := by
      intro r hr
      rw [List.eq_of_mem_replicate hr]
      exact rootRecord_plain
    have hLength := length_parseRecords (records.flatMap formatOwnedLine)
    rw [hAll records hPlain, List.length_replicate] at hLength
    exact absurd hLength (Nat.not_succ_le_self _)

end Cleanup
