import OfficeAuto.Datafile.DelimitedLine
import OfficeAuto.Logic.RoseTree
import OfficeAuto.Text.Decimal

/-!
# Reading the records of a file

`RecordIterator` cuts a text into lines, or into blocks of the record length, and finds the type
of a record by the type code on its line. It is one line ahead. A record whose type has child
types gets the records that follow as its descendants, as long as their types have a parent: a
stack has the open parents, and a record goes to the nearest one with the name of its parent.

In the source a record is in the list of its parent's children as soon as it is read. Here its tree
joins the parent when the record is closed; nothing else joins the parent in between.

The names of record types are unique, so that a type is the parent of the types that name it.
-/

namespace OfficeAuto.Datafile

open RoseTree

variable {V : Type}

/-! ### Record types -/

namespace ModelDataFile

def getModelRecord (modelDataFile : ModelDataFile V) (recordName : Name) :
    Option (ModelRecord V) :=
  modelDataFile.records.find? fun curRecord => curRecord.name = recordName

def parentRecord (modelDataFile : ModelDataFile V) (modelRecord : ModelRecord V) :
    Option (ModelRecord V) :=
  if modelRecord.parentName = [] then none
  else modelDataFile.getModelRecord modelRecord.parentName

def childRecords (modelDataFile : ModelDataFile V) (modelRecord : ModelRecord V) :
    List (ModelRecord V) :=
  modelDataFile.records.filter fun childRecord =>
    !childRecord.parentName.isEmpty && childRecord.parentName = modelRecord.name

def links (modelDataFile : ModelDataFile V) : Rebuild.Links (Record V) Name where
  name record := record.modelRecord.name
  parentName record := record.modelRecord.parentName
  isParent record := !(modelDataFile.childRecords record.modelRecord).isEmpty
  isChild record := (modelDataFile.parentRecord record.modelRecord).isSome

end ModelDataFile

def codeUnits (s : List Char) : List ℕ := s.map Char.toNat

/-- The type code is in the range of a record type. A text that is no number is one exception. -/
def ModelRecord.inRange (modelRecord : ModelRecord V) (typeCode : List Char) :
    Except RecordException Bool :=
  if modelRecord.tcIsNum then
    match Decimal.readLong typeCode with
    | none => .error .numberFormat
    | some typeCodeNum =>
      .ok ((modelRecord.tcMinNum < 0 || modelRecord.tcMinNum ≤ typeCodeNum) &&
        (modelRecord.tcMaxNum < 0 || typeCodeNum ≤ modelRecord.tcMaxNum))
  else .ok ((compare (codeUnits typeCode) (codeUnits modelRecord.tcMin)).isGE &&
    (compare (codeUnits typeCode) (codeUnits modelRecord.tcMax)).isLE)

/-- A record type takes a line with its type code: the single one, or one in its range. -/
def ModelRecord.takesTypeCode (modelRecord : ModelRecord V) (typeCode : List Char) :
    Except RecordException Bool :=
  if modelRecord.typeCode ≠ [] then .ok (!typeCode.isEmpty && typeCode = modelRecord.typeCode)
  else if modelRecord.tcMin ≠ [] ∨ modelRecord.tcMax ≠ [] then modelRecord.inRange typeCode
  else .ok false

/-- **`findModelForLine`**: the first type without a position of the type code, or whose type code
is on the line. -/
def findModelForLine (line : List Char) : List (ModelRecord V) →
    Except RecordException (ModelRecord V)
  | [] => .error .dataFile
  | curModelRecord :: records =>
    if curModelRecord.tcPosition < 0 then .ok curModelRecord
    else match Text.substring line curModelRecord.tcPosition
        (curModelRecord.tcPosition + curModelRecord.tcLength) with
      | none => .error .indexOutOfBounds
      | some typeCode => do
        if ← curModelRecord.takesTypeCode typeCode then pure curModelRecord
        else findModelForLine line records

/-! ### Lines -/

def eof : Char := Char.ofNat 26

def afterLine (br : List Char) : List Char :=
  match br.dropWhile fun c => !isLineBreak c with
  | '\r' :: '\n' :: br => br
  | _ :: br => br
  | [] => []

/-- The next line of a file with line ends, or the next block of a file without them. The block
comes in an array with one more character. -/
def cutLine (modelDataFile : ModelDataFile V) (br : List Char) :
    Option (List Char × List Char) :=
  if br = [] then none
  else if modelDataFile.separatorStyle = .fixedRecord then
    let charData := br.take modelDataFile.recordLength.toNat
    some (charData ++ List.replicate (modelDataFile.recordLength.toNat + 1 - charData.length)
      (Char.ofNat 0), br.drop modelDataFile.recordLength.toNat)
  else some (readLine br, afterLine br)

section

variable (objects : Objects V) (modelDataFile : ModelDataFile V)

def readRecord (line : List Char) : Except RecordException (Record V) := do
  let modelRecord ← findModelForLine line modelDataFile.records
  if modelDataFile.separatorStyle = .delimited then
    Record.createDelimitedRecord objects line modelRecord modelDataFile.delimiter
      modelDataFile.textDelimiter
  else Record.createRecord objects line modelRecord

/-! ### The iterator -/

/-- The text that is left, and the next line with its record. -/
structure RecordIterator (V : Type) where
  br : List Char
  nextLine : Option (List Char)
  nextRecord : Option (Record V)

def RecordIterator.hasNext (it : RecordIterator V) : Bool :=
  match it.nextLine with
  | none => false
  | some nextLine => !nextLine.contains eof

/-- **`getNextLine`.** -/
def getNextLine (br : List Char) : Except RecordException (RecordIterator V) :=
  if modelDataFile.separatorStyle = .fixedRecord ∧ modelDataFile.recordLength ≤ 0 then
    .error .dataFile
  else match cutLine modelDataFile br with
    | none => .ok ⟨br, none, none⟩
    | some (nextLine, br) =>
      if nextLine.contains eof then .ok ⟨br, some nextLine, none⟩
      else do
        let nextRecord ← readRecord objects modelDataFile nextLine
        pure ⟨br, some nextLine, some nextRecord⟩

/-- The loop of `next` over the descendants of a record, within a number of rounds. -/
def readChildren : ℕ → RecordIterator V → Rebuild.Stack (Record V) →
    Except RecordException (RecordIterator V × Rebuild.Stack (Record V))
  | 0, it, parentStack => .ok (it, parentStack)
  | n + 1, it, parentStack =>
    match it.nextRecord with
    | none => .ok (it, parentStack)
    | some nextRecord =>
      if (modelDataFile.parentRecord nextRecord.modelRecord).isNone then .ok (it, parentStack)
      else match Rebuild.popTo modelDataFile.links.name nextRecord.modelRecord.parentName []
          parentStack with
        | none => .error .dataFile
        | some parentStack => do
          let parentStack := Rebuild.push modelDataFile.links.isParent nextRecord parentStack
          let it ← getNextLine objects modelDataFile it.br
          readChildren n it parentStack

def hasRecordLength (line : List Char) : Bool :=
  modelDataFile.separatorStyle = .fixedRecord || modelDataFile.recordLength ≤ 0 ||
    line.length = modelDataFile.recordLength

/-- **`next`**: the next record with its descendants. -/
def next (n : ℕ) (it : RecordIterator V) :
    Except RecordException (Option (RoseTree (Record V)) × RecordIterator V) :=
  match it.nextLine, it.nextRecord with
  | some curLine, some curRecord =>
    if modelDataFile.separatorStyle = .other then .error .dataFile
    else do
      let it ← getNextLine objects modelDataFile it.br
      if !hasRecordLength modelDataFile curLine then throw .dataFile
      if modelDataFile.links.isParent curRecord then
        let (it, parentStack) ← readChildren objects modelDataFile n it [(curRecord, [])]
        pure ((Rebuild.closeAll [] parentStack).head?, it)
      else pure (some (.node curRecord []), it)
  | _, _ => .ok (none, it)

def readRecords : ℕ → RecordIterator V → Except RecordException (List (RoseTree (Record V)))
  | 0, _ => .ok []
  | n + 1, it =>
    if it.hasNext then do
      let (record, it) ← next objects modelDataFile n it
      let records ← readRecords n it
      pure (record.toList ++ records)
    else .ok []

def skipLines : ℕ → List Char → List Char
  | 0, br => br
  | n + 1, br => skipLines n (afterLine br)

/-- **`readDataFile`** of a text. -/
def readDataFile (content : List Char) : Except RecordException (List (RoseTree (Record V))) := do
  let br := skipLines modelDataFile.startLine.toNat content
  let it ← getNextLine objects modelDataFile br
  readRecords objects modelDataFile (br.length + 1) it

mutual

def writeTree : RoseTree (Record V) → Except RecordException (List Char)
  | .node record childRecords => do
    let line ← record.writeLineString objects modelDataFile
    let rest ← writeRecords childRecords
    pure (line ++ rest)

/-- **`writeRecords`.** -/
def writeRecords : List (RoseTree (Record V)) → Except RecordException (List Char)
  | [] => .ok []
  | record :: records => do
    let text ← writeTree record
    let rest ← writeRecords records
    pure (text ++ rest)

end

end

/-! ### The lines of a file -/

def ModelDataFile.HasLength (modelDataFile : ModelDataFile V) : Prop :=
  modelDataFile.separatorStyle = .fixedRecord → 0 < modelDataFile.recordLength

def fileLines (modelDataFile : ModelDataFile V) : ℕ → List Char → List (List Char)
  | 0, _ => []
  | n + 1, br =>
    match cutLine modelDataFile br with
    | none => []
    | some (line, br) => if line.contains eof then [] else line :: fileLines modelDataFile n br

def lines (modelDataFile : ModelDataFile V) (br : List Char) : List (List Char) :=
  fileLines modelDataFile br.length br

section Lines

variable {modelDataFile : ModelDataFile V} {br br' line : List Char}

theorem length_afterLine_lt (h : br ≠ []) : (afterLine br).length < br.length := by
  have hle := (List.dropWhile_suffix (l := br) fun c => !isLineBreak c).length_le
  have hpos := List.length_pos_iff.mpr h
  unfold afterLine
  split
  all_goals
    rename_i hdrop
    rw [hdrop] at hle
    simp only [List.length_cons, List.length_nil] at hle ⊢
    omega

theorem length_lt_of_cutLine (hlength : modelDataFile.HasLength)
    (h : cutLine modelDataFile br = some (line, br')) : br'.length < br.length := by
  unfold cutLine at h
  split_ifs at h with hnil hfixed
  · obtain ⟨-, rfl⟩ := Prod.mk.inj (Option.some.inj h)
    have hpos := hlength hfixed
    have hlen := List.length_pos_iff.mpr hnil
    rw [List.length_drop]
    omega
  · obtain ⟨-, rfl⟩ := Prod.mk.inj (Option.some.inj h)
    exact length_afterLine_lt hnil

theorem fileLines_eq (hlength : modelDataFile.HasLength) {n : ℕ} (hn : br.length ≤ n) :
    fileLines modelDataFile n br = lines modelDataFile br := by
  unfold lines
  generalize hm : br.length = m at hn
  have hm' : br.length ≤ m := hm.le
  clear hm
  induction m generalizing n br with
  | zero =>
    obtain rfl : br = [] := List.length_eq_zero_iff.mp (Nat.le_zero.mp hm')
    cases n <;> rfl
  | succ m ih =>
    obtain ⟨n, rfl⟩ : ∃ n', n = n' + 1 := ⟨n - 1, by omega⟩
    rw [fileLines, fileLines]
    rcases hcut : cutLine modelDataFile br with _ | ⟨line, br'⟩
    · rfl
    · have hlt := length_lt_of_cutLine hlength hcut
      dsimp only
      rw [ih (by omega) (by omega)]

theorem lines_of_none (h : cutLine modelDataFile br = none) : lines modelDataFile br = [] := by
  unfold lines
  cases br.length with
  | zero => rfl
  | succ n => rw [fileLines, h]

theorem lines_of_some (hlength : modelDataFile.HasLength)
    (h : cutLine modelDataFile br = some (line, br')) :
    lines modelDataFile br =
      if line.contains eof then [] else line :: lines modelDataFile br' := by
  have hlt := length_lt_of_cutLine hlength h
  have hsucc : br.length = br.length - 1 + 1 := by omega
  rw [lines, hsucc, fileLines, h]
  dsimp only
  rw [fileLines_eq hlength (by omega)]

end Lines

/-! ### What the iterator reads -/

section Run

variable (objects : Objects V) (modelDataFile : ModelDataFile V)

def runLines (s : Rebuild.State (Record V)) (ls : List (List Char)) :
    Option (Rebuild.State (Record V)) :=
  ls.foldlM (fun s line => (readRecord objects modelDataFile line).toOption.bind fun record =>
    Rebuild.step modelDataFile.links s record (hasRecordLength modelDataFile line)) s

/-- The lines that the iterator has still to go through, the one it holds first. -/
def RecordIterator.remaining (it : RecordIterator V) : List (List Char) :=
  match it.nextRecord with
  | none => []
  | some _ => it.nextLine.toList ++ lines modelDataFile it.br

/-- The iterator holds a line and its record, or neither. -/
structure RecordIterator.IsReady (it : RecordIterator V) : Prop where
  none : it.nextRecord = none → it.hasNext = false
  some : ∀ record, it.nextRecord = some record → ∃ line, it.nextLine = some line ∧
    line.contains eof = false ∧ readRecord objects modelDataFile line = .ok record

variable {objects modelDataFile}

theorem getNextLine_cases (objects : Objects V) (hlength : modelDataFile.HasLength)
    (br : List Char) :
    (∃ it, getNextLine objects modelDataFile br = .ok it ∧ it.nextRecord = none ∧
        it.hasNext = false ∧ it.br.length ≤ br.length ∧ lines modelDataFile br = []) ∨
      ∃ line br', br'.length < br.length ∧ line.contains eof = false ∧
        lines modelDataFile br = line :: lines modelDataFile br' ∧
        getNextLine objects modelDataFile br =
          (readRecord objects modelDataFile line).map fun record =>
            ⟨br', some line, some record⟩ := by
  have hguard : ¬ (modelDataFile.separatorStyle = .fixedRecord ∧
      modelDataFile.recordLength ≤ 0) := fun h => absurd (hlength h.1) (not_lt.mpr h.2)
  unfold getNextLine
  rw [if_neg hguard]
  rcases hcut : cutLine modelDataFile br with _ | ⟨line, br'⟩
  · exact .inl ⟨_, rfl, rfl, rfl, le_rfl, lines_of_none hcut⟩
  · have hlines := lines_of_some hlength hcut
    dsimp only
    by_cases heof : line.contains eof = true
    · rw [if_pos heof] at hlines ⊢
      refine .inl ⟨_, rfl, rfl, ?_, (length_lt_of_cutLine hlength hcut).le, hlines⟩
      simpa [RecordIterator.hasNext] using heof
    · rw [if_neg heof] at hlines ⊢
      refine .inr ⟨line, br', length_lt_of_cutLine hlength hcut, by simpa using heof, hlines, ?_⟩
      cases readRecord objects modelDataFile line <;> rfl

theorem isReady_getNextLine (hlength : modelDataFile.HasLength) {br : List Char}
    {it : RecordIterator V} (h : getNextLine objects modelDataFile br = .ok it) :
    it.IsReady objects modelDataFile ∧
      it.br.length ≤ br.length ∧ (it.nextRecord.isSome = true → it.br.length < br.length) := by
  rcases getNextLine_cases objects hlength br with
    ⟨it', hit, hnone, hnext, hle, -⟩ | ⟨line, br', hlt, heof, -, hit⟩
  · obtain rfl : it' = it := Except.ok.inj (hit.symm.trans h)
    refine ⟨⟨fun _ => hnext, fun record hrecord => ?_⟩, hle, fun hsome => ?_⟩
    · rw [hnone] at hrecord
      cases hrecord
    · rw [hnone] at hsome
      cases hsome
  · rw [hit, Except.map_eq_ok] at h
    obtain ⟨record, hrecord, rfl⟩ := h
    refine ⟨⟨fun hnone => ?_, fun r hr => ?_⟩, hlt.le, fun _ => hlt⟩
    · cases hnone
    · obtain rfl : record = r := Option.some.inj hr
      exact ⟨line, rfl, heof, hrecord⟩

theorem toOption_eq_some {α : Type} {x : Except RecordException α} {a : α} :
    x.toOption = some a ↔ x = .ok a := by
  cases x <;> simp [Except.toOption]

theorem toOption_bind {α β : Type} (x : Except RecordException α)
    (f : α → Except RecordException β) :
    (x >>= f).toOption = x.toOption.bind fun a => (f a).toOption := by
  cases x <;> rfl

theorem runLines_cons (s : Rebuild.State (Record V)) (line : List Char) (ls : List (List Char)) :
    runLines objects modelDataFile s (line :: ls) =
      (readRecord objects modelDataFile line).toOption.bind fun record =>
        (Rebuild.step modelDataFile.links s record (hasRecordLength modelDataFile line)).bind
          fun s => runLines objects modelDataFile s ls := by
  rw [runLines, List.foldlM_cons]
  cases (readRecord objects modelDataFile line).toOption <;> rfl

theorem runLines_getNextLine (hlength : modelDataFile.HasLength) (s : Rebuild.State (Record V))
    (br : List Char) :
    ((getNextLine objects modelDataFile br).toOption.bind fun it =>
        runLines objects modelDataFile s (it.remaining modelDataFile)) =
      runLines objects modelDataFile s (lines modelDataFile br) := by
  rcases getNextLine_cases objects hlength br with
    ⟨it, hit, hnone, -, -, hlines⟩ | ⟨line, br', -, -, hlines, hit⟩
  · rw [hit, hlines, Except.toOption, Option.bind_some, RecordIterator.remaining, hnone]
  · rw [hit, hlines, runLines_cons]
    rcases hrecord : readRecord objects modelDataFile line with e | record
    · rfl
    · change runLines objects modelDataFile s (line :: lines modelDataFile br') = _
      rw [runLines_cons, hrecord]

/-- **The loop over the descendants** does the steps for them, and stops before a record without a
parent. -/
theorem readChildren_spec (hlength : modelDataFile.HasLength) (trees : List (RoseTree (Record V)))
    {n : ℕ} {it : RecordIterator V} (hready : it.IsReady objects modelDataFile)
    (hn : it.nextRecord.isSome = true → it.br.length < n) {stack : Rebuild.Stack (Record V)}
    (hstack : stack ≠ []) :
    ((readChildren objects modelDataFile n it stack).toOption.bind fun result =>
        runLines objects modelDataFile ⟨trees, result.2⟩ (result.1.remaining modelDataFile)) =
      runLines objects modelDataFile ⟨trees, stack⟩ (it.remaining modelDataFile) ∧
    ∀ result, readChildren objects modelDataFile n it stack = .ok result →
      result.1.IsReady objects modelDataFile ∧ result.2 ≠ [] ∧
      (result.1.nextRecord.isSome = true → it.nextRecord.isSome = true) ∧
      result.1.br.length ≤ it.br.length ∧
      ∀ record, result.1.nextRecord = some record →
        modelDataFile.links.isChild record = false := by
  -- the induction is on the fuel, of which there is more than lines
  induction n generalizing it stack with
  | zero =>
    have hnone : it.nextRecord = none := by
      by_contra hsome
      exact absurd (hn (Option.isSome_iff_ne_none.mpr hsome)) (Nat.not_lt_zero _)
    refine ⟨rfl, fun result hresult => ?_⟩
    obtain rfl := Except.ok.inj hresult
    exact ⟨hready, hstack, id, le_rfl, fun record hrecord => by cases hnone.symm.trans hrecord⟩
  | succ n ih =>
    rw [readChildren]
    rcases hrecord : it.nextRecord with _ | record
    · refine ⟨rfl, fun result hresult => ?_⟩
      obtain rfl := Except.ok.inj hresult
      exact ⟨hready, hstack, fun hsome => hrecord ▸ hsome, le_rfl,
        fun record hsome => by cases hrecord.symm.trans hsome⟩
    dsimp only
    -- a record without a parent ends the loop and is left for the caller
    by_cases hroot : (modelDataFile.parentRecord record.modelRecord).isNone = true
    · rw [if_pos hroot]
      refine ⟨rfl, fun result hresult => ?_⟩
      obtain rfl := Except.ok.inj hresult
      refine ⟨hready, hstack, fun _ => rfl, le_rfl, fun r hr => ?_⟩
      obtain rfl := Option.some.inj (hrecord.symm.trans hr)
      simpa [ModelDataFile.links] using hroot
    rw [if_neg hroot]
    obtain ⟨line, hline, -, hread⟩ := hready.some record hrecord
    have hremaining : it.remaining modelDataFile = line :: lines modelDataFile it.br := by
      rw [RecordIterator.remaining, hrecord, hline]
      rfl
    have hopens : Rebuild.opens modelDataFile.links ⟨trees, stack⟩ record = false := by
      simpa [Rebuild.opens, hstack, ModelDataFile.links] using Option.ne_none_iff_isSome.mp
        (fun h => hroot (Option.isNone_iff_eq_none.mpr h))
    -- one step of the run pops to the parent and pushes the record, as the loop does
    have hrun : runLines objects modelDataFile ⟨trees, stack⟩ (it.remaining modelDataFile) =
        (Rebuild.popTo modelDataFile.links.name record.modelRecord.parentName [] stack).bind
          fun stack => runLines objects modelDataFile
            ⟨trees, Rebuild.push modelDataFile.links.isParent record stack⟩
            (lines modelDataFile it.br) := by
      rw [hremaining, runLines_cons, hread, Except.toOption, Option.bind_some, Rebuild.step,
        if_neg (Bool.eq_false_iff.mp hopens), Option.bind_map]
      rfl
    rw [hrun]
    rcases hpop : Rebuild.popTo modelDataFile.links.name record.modelRecord.parentName [] stack
      with _ | stack'
    · exact ⟨rfl, fun result hresult => by cases hresult⟩
    dsimp only [Option.bind_some]
    have hpush : Rebuild.push modelDataFile.links.isParent record stack' ≠ [] :=
      Rebuild.push_ne_nil (Rebuild.popTo_ne_nil hpop)
    rw [← runLines_getNextLine hlength]
    rcases hnext : getNextLine objects modelDataFile it.br with e | it'
    · exact ⟨rfl, fun result hresult => by cases hresult⟩
    obtain ⟨hready', hle', hlt⟩ := isReady_getNextLine hlength hnext
    have hbr := hn (by rw [hrecord]; rfl)
    obtain ⟨hspec, hresult⟩ := ih hready' (fun hsome => by have := hlt hsome; omega) hpush
    refine ⟨hspec, fun result hok => ?_⟩
    obtain ⟨hready'', hne, -, hle, hchild⟩ := hresult result hok
    exact ⟨hready'', hne, fun _ => rfl, hle.trans hle', hchild⟩

theorem next_eq (hstyle : modelDataFile.separatorStyle ≠ .other) {n : ℕ}
    {it it' : RecordIterator V} {line : List Char} {record : Record V}
    (hline : it.nextLine = some line) (hrecord : it.nextRecord = some record)
    (hnext : getNextLine objects modelDataFile it.br = .ok it') :
    next objects modelDataFile n it =
      if hasRecordLength modelDataFile line then
        if modelDataFile.links.isParent record then
          (readChildren objects modelDataFile n it' [(record, [])]).map fun result =>
            ((Rebuild.closeAll [] result.2).head?, result.1)
        else .ok (some (.node record []), it')
      else .error .dataFile := by
  rw [next, hline, hrecord]
  dsimp only
  rw [if_neg hstyle, hnext]
  cases hasRecordLength modelDataFile line with
  | false => rfl
  | true =>
    rw [if_pos rfl]
    change (if modelDataFile.links.isParent record = true then _ else _) = _
    split_ifs
    · cases readChildren objects modelDataFile n it' [(record, [])] <;> rfl
    · rfl

/-- **`next`** does the steps for a record and its descendants, unless it fails. -/
theorem next_spec (hlength : modelDataFile.HasLength)
    (hstyle : modelDataFile.separatorStyle ≠ .other) {n : ℕ} {it : RecordIterator V}
    (hready : it.IsReady objects modelDataFile) {record : Record V}
    (hrecord : it.nextRecord = some record) (hn : it.br.length ≤ n)
    {s : Rebuild.State (Record V)}
    (hopens : Rebuild.opens modelDataFile.links s record = true) :
    ((next objects modelDataFile n it).toOption = none ∧
        runLines objects modelDataFile s (it.remaining modelDataFile) = none) ∨
      ∃ t it' s', next objects modelDataFile n it = .ok (some t, it') ∧
        s'.finish = s.finish ++ [t] ∧
        runLines objects modelDataFile s (it.remaining modelDataFile) =
          runLines objects modelDataFile s' (it'.remaining modelDataFile) ∧
        it'.IsReady objects modelDataFile ∧
        (it'.nextRecord.isSome = true → it'.br.length < it.br.length) ∧
        ∀ r, it'.nextRecord = some r → Rebuild.opens modelDataFile.links s' r = true := by
  obtain ⟨line, hline, -, hread⟩ := hready.some record hrecord
  have hremaining : it.remaining modelDataFile = line :: lines modelDataFile it.br := by
    rw [RecordIterator.remaining, hrecord, hline]
    rfl
  have hrun : runLines objects modelDataFile s (it.remaining modelDataFile) =
      (Rebuild.step modelDataFile.links s record (hasRecordLength modelDataFile line)).bind
        fun s => (getNextLine objects modelDataFile it.br).toOption.bind fun it =>
          runLines objects modelDataFile s (it.remaining modelDataFile) := by
    rw [hremaining, runLines_cons, hread]
    exact Option.bind_congr fun s _ => (runLines_getNextLine hlength s it.br).symm
  rw [hrun, Rebuild.step_of_opens hopens]
  rcases hnext : getNextLine objects modelDataFile it.br with e | it'
  · refine .inl ⟨?_, Option.bind_eq_none_iff.mpr fun _ _ => rfl⟩
    rw [next, hline, hrecord]
    dsimp only
    rw [if_neg hstyle, hnext]
    rfl
  obtain ⟨hready', -, hlt⟩ := isReady_getNextLine hlength hnext
  rw [next_eq hstyle hline hrecord hnext]
  by_cases hmay : hasRecordLength modelDataFile line = true
  swap
  · rw [if_neg hmay, if_neg hmay]
    exact .inl ⟨rfl, rfl⟩
  rw [if_pos hmay, if_pos hmay]
  by_cases hisParent : modelDataFile.links.isParent record = true
  swap
  · -- a record without children is a tree
    rw [if_neg hisParent, if_neg hisParent]
    exact .inr ⟨.node record [], it', _, rfl, List.append_nil _, rfl, hready', hlt,
      fun _ _ => rfl⟩
  rw [if_pos hisParent, if_pos hisParent]
  obtain ⟨hspec, hresult⟩ := readChildren_spec (n := n) hlength s.finish hready'
    (fun hsome => (hlt hsome).trans_le hn) (List.cons_ne_nil (record, []) [])
  rcases hchildren : readChildren objects modelDataFile n it' [(record, [])] with e | ⟨it'', stack⟩
  · rw [hchildren] at hspec
    exact .inl ⟨rfl, hspec.symm⟩
  obtain ⟨hready'', hne, hsome, hle, hchild⟩ := hresult _ hchildren
  rw [hchildren] at hspec
  obtain ⟨t, ht⟩ := Rebuild.exists_closeAll [] hne
  refine .inr ⟨t, it'', ⟨s.finish, stack⟩, ?_, congrArg _ ht, hspec.symm, hready'', ?_, ?_⟩
  · rw [Except.map, ht]
    rfl
  · exact fun h => hle.trans_lt (hlt (hsome h))
  · intro r hr
    simp [Rebuild.opens, hchild r hr]

/-- **The loop over the iterator** does the steps for all lines. -/
theorem readRecords_spec (hlength : modelDataFile.HasLength)
    (hstyle : modelDataFile.separatorStyle ≠ .other) {n : ℕ} {it : RecordIterator V}
    (hready : it.IsReady objects modelDataFile)
    (hn : it.nextRecord.isSome = true → it.br.length < n) {s : Rebuild.State (Record V)}
    (hopens : ∀ record, it.nextRecord = some record →
      Rebuild.opens modelDataFile.links s record = true) :
    (readRecords objects modelDataFile n it).toOption.map (s.finish ++ ·) =
      (runLines objects modelDataFile s (it.remaining modelDataFile)).map
        Rebuild.State.finish := by
  induction n generalizing it s with
  | zero =>
    have hnone : it.nextRecord = none := by
      by_contra hsome
      exact absurd (hn (Option.isSome_iff_ne_none.mpr hsome)) (Nat.not_lt_zero _)
    rw [RecordIterator.remaining, hnone]
    exact congrArg some (List.append_nil _)
  | succ n ih =>
    rw [readRecords]
    rcases hrecord : it.nextRecord with _ | record
    · rw [hready.none hrecord, RecordIterator.remaining, hrecord]
      exact congrArg some (List.append_nil _)
    have hhasNext : it.hasNext = true := by
      obtain ⟨line, hline, heof, -⟩ := hready.some record hrecord
      rw [RecordIterator.hasNext, hline]
      exact congrArg (! ·) heof
    have hlt := hn (by rw [hrecord]; rfl)
    rw [if_pos hhasNext]
    rcases next_spec hlength hstyle hready hrecord (Nat.lt_succ_iff.mp hlt)
      (hopens record hrecord) with ⟨hnone, hrun⟩ | ⟨t, it', s', hnext, hfinish, hrun, hready',
        hlt', hopens'⟩
    · rw [hrun, toOption_bind, hnone]
      rfl
    · rw [hrun, ← ih hready' (fun hsome => by have := hlt' hsome; omega) hopens', hnext, hfinish]
      change ((readRecords objects modelDataFile n it') >>= _).toOption.map _ = _
      rw [toOption_bind]
      cases readRecords objects modelDataFile n it' with
      | error e => rfl
      | ok records => exact congrArg some (List.append_assoc _ _ _).symm

/-- **What is read of a text** is what the steps for its lines make. -/
theorem readDataFile_toOption (hlength : modelDataFile.HasLength)
    (hstyle : modelDataFile.separatorStyle ≠ .other) (content : List Char) :
    (readDataFile objects modelDataFile content).toOption =
      (runLines objects modelDataFile ⟨[], []⟩
        (lines modelDataFile (skipLines modelDataFile.startLine.toNat content))).map
          Rebuild.State.finish := by
  rw [readDataFile, ← runLines_getNextLine hlength, toOption_bind]
  rcases hnext : getNextLine objects modelDataFile
    (skipLines modelDataFile.startLine.toNat content) with e | it
  · rfl
  · obtain ⟨hready, -, hlt⟩ := isReady_getNextLine hlength hnext
    change (readRecords objects modelDataFile _ it).toOption = Option.map _ (runLines _ _ _ _)
    rw [← readRecords_spec hlength hstyle hready
      (fun hsome => (hlt hsome).trans (Nat.lt_succ_self _)) fun _ _ => rfl]
    exact Option.map_id'.symm

end Run

end OfficeAuto.Datafile
