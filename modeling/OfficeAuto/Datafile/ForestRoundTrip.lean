import OfficeAuto.Datafile.RecordIterator
import Mathlib.Data.List.Nodup

/-!
# Forests of records, written and read back

`writeRecords` writes the records of a forest in preorder, and `RecordIterator` reads them back.
`readDataFile_writeRecords_iff` says when the forest comes back: no line is skipped, the lines end
with a line break unless there is one line, and each line restores its record (`Restores`).

The lines of a `CRLF` file have no line break at all, and the first lines of a file are skipped
when it is read but not written: these forests do not come back.
-/

namespace OfficeAuto.Datafile

open RoseTree

variable {V : Type}

/-! ### Lines of a forest -/

namespace Record

variable (objects : Objects V) (modelDataFile : ModelDataFile V)

def body (record : Record V) : Except RecordException (List Char) := do
  insertTypeCode record.modelRecord (← record.fieldsLine objects modelDataFile)

theorem writeLineString_eq_ok (record : Record V) {text : List Char} :
    record.writeLineString objects modelDataFile = .ok text ↔
      ∃ body, record.body objects modelDataFile = .ok body ∧
        text = body ++ lineEnd modelDataFile := by
  simp only [writeLineString, Record.body, Except.bind_eq_ok, Except.pure_eq_ok]
  constructor
  · rintro ⟨line, hline, body, hbody, rfl⟩
    exact ⟨body, ⟨line, hline, hbody⟩, rfl⟩
  · rintro ⟨body, ⟨line, hline, hbody⟩, rfl⟩
    exact ⟨line, hline, body, hbody, rfl⟩

end Record

section Write

variable (objects : Objects V) (modelDataFile : ModelDataFile V)

def bodies (records : List (Record V)) : Except RecordException (List (List Char)) :=
  records.mapM (Record.body objects modelDataFile)

def linesText (ls : List (List Char)) : List Char :=
  ls.flatMap (· ++ Record.lineEnd modelDataFile)

variable {objects modelDataFile}

theorem linesText_append (ls ls' : List (List Char)) :
    linesText modelDataFile (ls ++ ls') =
      linesText modelDataFile ls ++ linesText modelDataFile ls' :=
  List.flatMap_append

theorem writeRecords_of_trees {forest : List (RoseTree (Record V))}
    (htrees : ∀ t ∈ forest, ∀ {text : List Char}, writeTree objects modelDataFile t = .ok text ↔
      ∃ ls, bodies objects modelDataFile t.preorder = .ok ls ∧ text = linesText modelDataFile ls)
    {text : List Char} :
    writeRecords objects modelDataFile forest = .ok text ↔
      ∃ ls, bodies objects modelDataFile (preorders forest) = .ok ls ∧
        text = linesText modelDataFile ls := by
  unfold bodies at htrees ⊢
  induction forest generalizing text with
  | nil =>
    simp only [writeRecords, preorders, List.mapM_nil, Except.pure_eq_ok, Except.ok.injEq,
      exists_eq_left']
    exact eq_comm
  | cons t ts ih =>
    rw [writeRecords, preorders, List.mapM_append]
    simp only [Except.bind_eq_ok, Except.pure_eq_ok, htrees t List.mem_cons_self,
      ih fun t ht => htrees t (List.mem_cons_of_mem _ ht)]
    constructor
    · rintro ⟨_, ⟨ls, hls, rfl⟩, _, ⟨ls', hls', rfl⟩, rfl⟩
      exact ⟨_, ⟨ls, hls, ls', hls', rfl⟩, (linesText_append _ _).symm⟩
    · rintro ⟨_, ⟨ls, hls, ls', hls', rfl⟩, rfl⟩
      exact ⟨_, ⟨ls, hls, rfl⟩, _, ⟨ls', hls', rfl⟩, (linesText_append _ _).symm⟩

theorem writeTree_eq_ok {t : RoseTree (Record V)} {text : List Char} :
    writeTree objects modelDataFile t = .ok text ↔
      ∃ ls, bodies objects modelDataFile t.preorder = .ok ls ∧
        text = linesText modelDataFile ls := by
  induction t using RoseTree.inductionOn generalizing text with
  | node record cs ih =>
    rw [writeTree, preorder, bodies, List.mapM_cons]
    simp only [Except.bind_eq_ok, Except.pure_eq_ok, Record.writeLineString_eq_ok,
      writeRecords_of_trees ih]
    constructor
    · rintro ⟨_, ⟨body, hbody, rfl⟩, _, ⟨ls, hls, rfl⟩, rfl⟩
      exact ⟨_, ⟨body, hbody, ls, hls, rfl⟩, rfl⟩
    · rintro ⟨_, ⟨body, hbody, ls, hls, rfl⟩, rfl⟩
      exact ⟨_, ⟨body, hbody, rfl⟩, _, ⟨ls, hls, rfl⟩, rfl⟩

/-- **A forest is written** as the lines of its records in preorder. -/
theorem writeRecords_eq_ok {forest : List (RoseTree (Record V))} {text : List Char} :
    writeRecords objects modelDataFile forest = .ok text ↔
      ∃ ls, bodies objects modelDataFile (preorders forest) = .ok ls ∧
        text = linesText modelDataFile ls :=
  writeRecords_of_trees fun _ _ _ => writeTree_eq_ok

end Write

/-! ### Lines of a text -/

def lineRest (modelDataFile : ModelDataFile V) : List Char :=
  if modelDataFile.separatorStyle = .fixedRecord then [Char.ofNat 0]
  else readLine (Record.lineEnd modelDataFile)

/-- The iterator finds the end of a line: all have the record length, or a line break at their
end. -/
def ModelDataFile.EndsLines (modelDataFile : ModelDataFile V) : Prop :=
  modelDataFile.separatorStyle = .fixedRecord ∨ modelDataFile.eolType ≠ some "CRLF".toList

/-- The text of a record fits on a line of the file. -/
structure FitsLine (modelDataFile : ModelDataFile V) (body : List Char) : Prop where
  eof_not_mem : eof ∉ body
  no_break : modelDataFile.separatorStyle = .fixedRecord ∧ modelDataFile.startLine ≤ 0 ∨
    ∀ c ∈ body, isLineBreak c = false
  length : modelDataFile.separatorStyle = .fixedRecord →
    (body.length : ℤ) = modelDataFile.recordLength

section Lines

variable {modelDataFile : ModelDataFile V} {body rest : List Char}

theorem not_isLineBreak_of_all (h : (body.all fun c => !isLineBreak c) = true) :
    ∀ c ∈ body, isLineBreak c = false := by
  simpa using h

theorem FitsLine.not_isLineBreak (hbody : FitsLine modelDataFile body)
    (h : ¬ (modelDataFile.separatorStyle = .fixedRecord ∧ modelDataFile.startLine ≤ 0)) :
    ∀ c ∈ body, isLineBreak c = false :=
  hbody.no_break.resolve_left h

theorem lines_nil : lines modelDataFile [] = [] := rfl

theorem lines_fixedRecord (hstyle : modelDataFile.separatorStyle = .fixedRecord)
    (hlength : modelDataFile.HasLength) (hbody : FitsLine modelDataFile body) :
    lines modelDataFile (body ++ rest) =
      (body ++ lineRest modelDataFile) :: lines modelDataFile rest := by
  have hpos := hlength hstyle
  have hlen := hbody.length hstyle
  have htoNat : modelDataFile.recordLength.toNat = body.length := by omega
  have hne : body ++ rest ≠ [] := by
    intro h
    rw [List.append_eq_nil_iff.mp h |>.1] at hlen
    exact absurd hlen (by simpa using hpos.ne)
  have hcut : cutLine modelDataFile (body ++ rest) =
      some (body ++ lineRest modelDataFile, rest) := by
    rw [cutLine, if_neg hne, if_pos hstyle, lineRest, if_pos hstyle, htoNat, List.take_left,
      List.drop_left]
    simp
  rw [lines_of_some hlength hcut, if_neg]
  rw [lineRest, if_pos hstyle, List.contains_iff_mem, List.mem_append]
  rintro (h | h)
  · exact hbody.eof_not_mem h
  · exact absurd h (by decide)

theorem dropWhile_append_of_no_break (h : ∀ c ∈ body, isLineBreak c = false) (rest : List Char) :
    (body ++ rest).dropWhile (fun c => !isLineBreak c) =
      rest.dropWhile fun c => !isLineBreak c :=
  List.dropWhile_append_of_pos fun c hc => by simp [h c hc]

theorem afterLine_append (h : ∀ c ∈ body, isLineBreak c = false) (rest : List Char) :
    afterLine (body ++ '\n' :: rest) = rest := by
  rw [afterLine, dropWhile_append_of_no_break h]
  rfl

theorem afterLine_of_no_break (h : ∀ c ∈ body, isLineBreak c = false) : afterLine body = [] := by
  rw [afterLine, ← List.append_nil body, dropWhile_append_of_no_break h]
  rfl

theorem lines_append (hstyle : modelDataFile.separatorStyle ≠ .fixedRecord)
    (hlength : modelDataFile.HasLength) (hbreak : ∀ c ∈ body, isLineBreak c = false)
    (heof : eof ∉ body) :
    lines modelDataFile (body ++ '\n' :: rest) = body :: lines modelDataFile rest := by
  have hcut : cutLine modelDataFile (body ++ '\n' :: rest) = some (body, rest) := by
    rw [cutLine, if_neg (by simp), if_neg hstyle, readLine_append hbreak, afterLine_append hbreak]
  rw [lines_of_some hlength hcut, if_neg (by simpa using heof)]

theorem lines_of_no_break (hstyle : modelDataFile.separatorStyle ≠ .fixedRecord)
    (hlength : modelDataFile.HasLength) (hne : body ≠ [])
    (hbreak : ∀ c ∈ body, isLineBreak c = false) (heof : eof ∉ body) :
    lines modelDataFile body = [body] := by
  have hread : readLine body = body :=
    List.takeWhile_eq_self_iff.mpr fun c hc => by simp [hbreak c hc]
  have hcut : cutLine modelDataFile body = some (body, []) := by
    rw [cutLine, if_neg hne, if_neg hstyle, hread, afterLine_of_no_break hbreak]
  rw [lines_of_some hlength hcut, if_neg (by simpa using heof), lines_nil]

/-! ### The lines of a text that was written -/

theorem lineEnd_newline (hstyle : modelDataFile.separatorStyle ≠ .other)
    (hfixed : modelDataFile.separatorStyle ≠ .fixedRecord)
    (hends : modelDataFile.eolType ≠ some "CRLF".toList) :
    Record.lineEnd modelDataFile = ['\n'] := by
  rw [Record.lineEnd]
  cases h : modelDataFile.separatorStyle with
  | fixedRecord => exact absurd h hfixed
  | other => exact absurd h hstyle
  | fixedLength => exact if_neg hends
  | delimited => exact if_neg hends

theorem lineEnd_crlf (hstyle : modelDataFile.separatorStyle ≠ .other)
    (hends : ¬ modelDataFile.EndsLines) :
    Record.lineEnd modelDataFile = "\\r\\n".toList := by
  rw [ModelDataFile.EndsLines, not_or, not_not] at hends
  rw [Record.lineEnd]
  cases h : modelDataFile.separatorStyle with
  | fixedRecord => exact absurd h hends.1
  | other => exact absurd h hstyle
  | fixedLength => exact if_pos hends.2
  | delimited => exact if_pos hends.2

theorem isLineBreak_lineEnd (hstyle : modelDataFile.separatorStyle ≠ .other)
    (h : modelDataFile.separatorStyle = .fixedRecord ∨ ¬ modelDataFile.EndsLines) :
    ∀ c ∈ Record.lineEnd modelDataFile, isLineBreak c = false := by
  rcases h with h | h
  · rw [Record.lineEnd, h]
    simp
  · rw [lineEnd_crlf hstyle h]
    exact not_isLineBreak_of_all rfl

theorem isLineBreak_linesText (hend : ∀ c ∈ Record.lineEnd modelDataFile, isLineBreak c = false)
    {ls : List (List Char)} (hls : ∀ l ∈ ls, ∀ c ∈ l, isLineBreak c = false) :
    ∀ c ∈ linesText modelDataFile ls, isLineBreak c = false := by
  intro c hc
  obtain ⟨l, hl, hc⟩ := List.mem_flatMap.mp hc
  exact (List.mem_append.mp hc).elim (hls l hl c) (hend c)

/-- **The lines of a text that was written**, if the iterator finds their ends or there is one
line. -/
theorem lines_linesText (hstyle : modelDataFile.separatorStyle ≠ .other)
    (hlength : modelDataFile.HasLength) {ls : List (List Char)}
    (hfits : ∀ l ∈ ls, FitsLine modelDataFile l)
    (hends : modelDataFile.EndsLines ∨ ls.length ≤ 1) :
    lines modelDataFile (linesText modelDataFile ls) = ls.map (· ++ lineRest modelDataFile) := by
  by_cases hfixed : modelDataFile.separatorStyle = .fixedRecord
  · have hend : Record.lineEnd modelDataFile = [] := by
      rw [Record.lineEnd, hfixed]
    clear hends
    induction ls with
    | nil => rfl
    | cons l ls ih =>
      rw [linesText, List.flatMap_cons, hend, List.append_nil,
        lines_fixedRecord hfixed hlength (hfits l List.mem_cons_self), ← hend, ← linesText,
        ih fun l hl => hfits l (List.mem_cons_of_mem _ hl), List.map_cons]
  have hbreak : ∀ l ∈ ls, ∀ c ∈ l, isLineBreak c = false := fun l hl =>
    (hfits l hl).not_isLineBreak fun h => hfixed h.1
  by_cases heol : modelDataFile.eolType = some "CRLF".toList
  · have hnot : ¬ modelDataFile.EndsLines := fun h => h.elim hfixed fun h => h heol
    have hend := lineEnd_crlf hstyle hnot
    have hrest : lineRest modelDataFile = "\\r\\n".toList := by
      rw [lineRest, if_neg hfixed, hend]
      rfl
    rcases ls with _ | ⟨l, _ | ⟨l', ls⟩⟩
    · rfl
    · have htext : linesText modelDataFile [l] = l ++ lineRest modelDataFile := by
        rw [linesText, List.flatMap_singleton, hend, hrest]
      have hnone := isLineBreak_linesText (isLineBreak_lineEnd hstyle (.inr hnot)) hbreak
      rw [htext] at hnone ⊢
      rw [lines_of_no_break hfixed hlength (by simp [hrest]) hnone, List.map_singleton]
      rw [hrest, List.mem_append]
      rintro (h | h)
      · exact (hfits l List.mem_cons_self).eof_not_mem h
      · exact absurd h (by decide)
    · exact absurd (hends.resolve_left hnot) (by simp)
  · have hend := lineEnd_newline hstyle hfixed heol
    have hrest : lineRest modelDataFile = [] := by
      rw [lineRest, if_neg hfixed, hend]
      rfl
    clear hends
    induction ls with
    | nil => rfl
    | cons l ls ih =>
      have hl := hfits l List.mem_cons_self
      rw [linesText, List.flatMap_cons, hend, List.append_assoc, List.singleton_append,
        lines_append hfixed hlength (hbreak l List.mem_cons_self) hl.eof_not_mem, ← hend,
        ← linesText, ih (fun l hl => hfits l (List.mem_cons_of_mem _ hl))
          (fun l hl => hbreak l (List.mem_cons_of_mem _ hl)), List.map_cons, hrest,
        List.append_nil]

theorem skipLines_nil (n : ℕ) : skipLines n [] = [] := by
  induction n with
  | zero => rfl
  | succ n ih => exact ih

theorem skipLines_linesText (hend : Record.lineEnd modelDataFile = ['\n']) (n : ℕ)
    {ls : List (List Char)} (hls : ∀ l ∈ ls, ∀ c ∈ l, isLineBreak c = false) :
    skipLines n (linesText modelDataFile ls) = linesText modelDataFile (ls.drop n) := by
  induction n generalizing ls with
  | zero => rfl
  | succ n ih =>
    rcases ls with _ | ⟨l, ls⟩
    · exact skipLines_nil (n + 1)
    · rw [skipLines, linesText, List.flatMap_cons, hend, List.append_assoc,
        List.singleton_append, afterLine_append (hls l List.mem_cons_self), ← hend, ← linesText,
        ih fun l hl => hls l (List.mem_cons_of_mem _ hl), List.drop_succ_cons]

theorem endsLines_of_length (hstyle : modelDataFile.separatorStyle ≠ .other)
    (hlength : modelDataFile.HasLength) {ls : List (List Char)} (hne : ls ≠ [])
    (hfits : ∀ l ∈ ls, FitsLine modelDataFile l)
    (h : (lines modelDataFile (skipLines modelDataFile.startLine.toNat
      (linesText modelDataFile ls))).length = ls.length) :
    modelDataFile.startLine ≤ 0 ∧ (modelDataFile.EndsLines ∨ ls.length ≤ 1) := by
  have hpos := List.length_pos_iff.mpr hne
  by_cases hstart : modelDataFile.startLine ≤ 0
  · refine ⟨hstart, or_iff_not_imp_left.mpr fun hnot => ?_⟩
    -- all is one line
    have hfixed : modelDataFile.separatorStyle ≠ .fixedRecord := fun h => hnot (.inl h)
    have hend := lineEnd_crlf hstyle hnot
    have hbreak := isLineBreak_linesText (isLineBreak_lineEnd hstyle (.inr hnot))
      fun l hl => (hfits l hl).not_isLineBreak fun h => hfixed h.1
    have heof : eof ∉ linesText modelDataFile ls := by
      intro hmem
      obtain ⟨l, hl, hmem⟩ := List.mem_flatMap.mp hmem
      rw [hend, List.mem_append] at hmem
      exact hmem.elim (hfits l hl).eof_not_mem (by decide)
    have hsome : linesText modelDataFile ls ≠ [] := by
      obtain ⟨l, ls, rfl⟩ := List.exists_cons_of_ne_nil hne
      simp [linesText, hend]
    rw [Int.toNat_of_nonpos hstart, skipLines, lines_of_no_break hfixed hlength hsome hbreak heof]
      at h
    exact h.symm.le
  · obtain ⟨n, hn⟩ : ∃ n, modelDataFile.startLine.toNat = n + 1 :=
      ⟨modelDataFile.startLine.toNat - 1, by omega⟩
    have hbreak : ∀ l ∈ ls, ∀ c ∈ l, isLineBreak c = false := fun l hl =>
      (hfits l hl).not_isLineBreak fun h => hstart h.2
    rw [hn] at h
    by_cases hends : modelDataFile.separatorStyle = .fixedRecord ∨ ¬ modelDataFile.EndsLines
    · -- the first line is the whole text
      rw [skipLines, afterLine_of_no_break
        (isLineBreak_linesText (isLineBreak_lineEnd hstyle hends) hbreak), skipLines_nil] at h
      exact absurd h.symm hpos.ne'
    · rw [not_or, not_not] at hends
      have hend := lineEnd_newline hstyle hends.1 (hends.2.resolve_left hends.1)
      rw [skipLines_linesText hend _ hbreak, lines_linesText hstyle hlength
        (fun l hl => hfits l (List.mem_of_mem_drop hl)) (.inl hends.2), List.length_map,
        List.length_drop] at h
      omega

end Lines

/-! ### Reading a line -/

/-- What is compared of a record: its type, and the values of its fields. -/
def Record.view (record : Record V) : ModelRecord V × List (Option V) :=
  (record.modelRecord, record.modelRecord.fields.map fun f => record.fields f.name)

/-- A line restores a record: the type of the record takes the line, and the texts at the places of
the fields are those of their values. A line with delimiters is read as a whole. -/
def Restores (objects : Objects V) (modelDataFile : ModelDataFile V) (line : List Char)
    (record : Record V) : Prop :=
  findModelForLine line modelDataFile.records = .ok record.modelRecord ∧
    if modelDataFile.separatorStyle = .delimited then
      ∃ r, Record.createDelimitedRecord objects line record.modelRecord modelDataFile.delimiter
        modelDataFile.textDelimiter = .ok r ∧
        ∀ f ∈ record.modelRecord.fields, r.fields f.name = record.fields f.name
    else ∀ f ∈ record.modelRecord.fields, ∃ text,
      Text.substring line f.position (f.position + f.length) = some text ∧
        Holds objects record f (some text)

section Restore

variable {objects : Objects V} {modelDataFile : ModelDataFile V} {line : List Char}

namespace Record

theorem modelRecord_setString {r r' : Record V} {name : Name} {text : Option (List Char)}
    (h : r.setString objects name text = .ok r') : r'.modelRecord = r.modelRecord := by
  rcases setString_cases h with rfl | ⟨v, rfl⟩ <;> rfl

theorem createField_eq_ok {r r' : Record V} {f : ModelField V} :
    createField objects line r f = .ok r' ↔ ∃ text,
      Text.substring line f.position (f.position + f.length) = some text ∧
        r.setString objects f.name (some text) = .ok r' := by
  rw [createField]
  cases Text.substring line f.position (f.position + f.length) with
  | none => simp
  | some text => simp [wrapConversion_eq_ok]

theorem modelRecord_createRecord {modelRecord : ModelRecord V} {r : Record V}
    (h : createRecord objects line modelRecord = .ok r) : r.modelRecord = modelRecord := by
  refine Except.of_foldlM_eq_ok (P := fun r => r.modelRecord = modelRecord)
    (fun r f r' _ hr hround => ?_) rfl h
  obtain ⟨text, -, hset⟩ := createField_eq_ok.mp hround
  exact (modelRecord_setString hset).trans hr

theorem modelRecord_createDelimitedRecord {modelRecord : ModelRecord V} {delimiter : Char}
    {textDelimiter : Option (List Char)} {r : Record V}
    (h : createDelimitedRecord objects line modelRecord delimiter textDelimiter = .ok r) :
    r.modelRecord = modelRecord := by
  obtain ⟨s, hs, hr⟩ := Except.bind_eq_ok.mp h
  rw [Except.pure_eq_ok] at hr
  rw [← hr]
  refine Except.of_foldlM_eq_ok (P := fun s => s.1.modelRecord = modelRecord)
    (fun s f s' _ hs hround => ?_) rfl hs
  obtain ⟨text, hset⟩ := exists_setString_of_readField hround
  exact (modelRecord_setString hset).trans hs

theorem view_eq_iff {r record : Record V} :
    r.view = record.view ↔ r.modelRecord = record.modelRecord ∧
      ∀ f ∈ record.modelRecord.fields, r.fields f.name = record.fields f.name := by
  rw [view, view, Prod.mk.injEq]
  refine and_congr_right fun h => ?_
  rw [h, List.map_inj_left]

theorem fields_createFields {fs : List (ModelField V)} {r r' : Record V}
    (h : fs.foldlM (createField objects line) r = .ok r') {n : Name}
    (hn : ∀ f ∈ fs, n ≠ f.name) : r'.fields n = r.fields n := by
  refine Except.of_foldlM_eq_ok (P := fun t => t.fields n = r.fields n)
    (fun t f t' hf ht hround => ?_) rfl h
  obtain ⟨text, -, hset⟩ := createField_eq_ok.mp hround
  exact (fields_setString hset (hn f hf)).trans ht

theorem createFields_iff {record : Record V} {fs : List (ModelField V)}
    (hmodel : ∀ f ∈ fs, record.modelRecord.getModelField f.name = some f)
    (hnodup : (fs.map ModelField.name).Nodup) {names : List Name}
    (hnew : ∀ f ∈ fs, f.name ∉ names) :
    (∃ r, fs.foldlM (createField objects line) (record.restrict names) = .ok r ∧
        ∀ f ∈ fs, r.fields f.name = record.fields f.name) ↔
      ∀ f ∈ fs, ∃ text,
        Text.substring line f.position (f.position + f.length) = some text ∧
          Holds objects record f (some text) := by
  induction fs generalizing names with
  | nil => simp [pure, Except.pure]
  | cons f fs ih =>
    rw [List.map_cons, List.nodup_cons] at hnodup
    have hmem := List.mem_cons_self (a := f) (l := fs)
    have hnew' : ∀ g ∈ fs, g.name ∉ f.name :: names := fun g hg => by
      rw [List.mem_cons, not_or]
      exact ⟨fun h => hnodup.1 (h ▸ List.mem_map_of_mem hg), hnew g (List.mem_cons_of_mem _ hg)⟩
    have hround : ∀ r, (createField objects line (record.restrict names) f = .ok r ∧
        r.fields f.name = record.fields f.name) ↔ (∃ text,
          Text.substring line f.position (f.position + f.length) = some text ∧
            Holds objects record f (some text)) ∧ r = record.restrict (f.name :: names) := by
      intro r
      rw [createField_eq_ok]
      constructor
      · rintro ⟨⟨text, htext, hset⟩, hvalue⟩
        obtain ⟨hholds, rfl⟩ := (setString_restrict objects record (hmodel f hmem) (hnew f hmem)
          (some text) r).mp ⟨hset, hvalue⟩
        exact ⟨⟨text, htext, hholds⟩, rfl⟩
      · rintro ⟨⟨text, htext, hholds⟩, hr⟩
        obtain ⟨hset, hvalue⟩ := (setString_restrict objects record (hmodel f hmem) (hnew f hmem)
          (some text) r).mpr ⟨hholds, hr⟩
        exact ⟨⟨text, htext, hset⟩, hvalue⟩
    -- what the first round leaves at its field stays there
    have hframe : ∀ {r₁ r}, fs.foldlM (createField objects line) r₁ = .ok r →
        r.fields f.name = r₁.fields f.name := fun {r₁ r} h =>
      fields_createFields h fun g hg heq => hnodup.1 (heq ▸ List.mem_map_of_mem hg)
    rw [List.forall_mem_cons, ← ih (fun g hg => hmodel g (List.mem_cons_of_mem _ hg)) hnodup.2
      hnew']
    simp only [List.foldlM_cons, Except.bind_eq_ok, List.forall_mem_cons]
    constructor
    · rintro ⟨r, ⟨r₁, hr₁, hr⟩, hvalue, hvalues⟩
      obtain ⟨htext, rfl⟩ := (hround r₁).mp ⟨hr₁, (hframe hr).symm.trans hvalue⟩
      exact ⟨htext, r, hr, hvalues⟩
    · rintro ⟨htext, r, hr, hvalues⟩
      obtain ⟨hr₁, hvalue⟩ := (hround _).mpr ⟨htext, rfl⟩
      exact ⟨r, ⟨_, hr₁, hr⟩, (hframe hr).trans hvalue, hvalues⟩

theorem createRecord_iff {record : Record V}
    (hnodup : (record.modelRecord.fields.map ModelField.name).Nodup) :
    (∃ r, createRecord objects line record.modelRecord = .ok r ∧
        ∀ f ∈ record.modelRecord.fields, r.fields f.name = record.fields f.name) ↔
      ∀ f ∈ record.modelRecord.fields, ∃ text,
        Text.substring line f.position (f.position + f.length) = some text ∧
          Holds objects record f (some text) := by
  have hcreate : create record.modelRecord = record.restrict [] := by
    simp [create, restrict]
  rw [createRecord, hcreate]
  exact createFields_iff (fun f hf => getModelField_of_nodup hnodup hf) hnodup
    fun f _ => List.not_mem_nil

end Record

/-- **A line restores a record** exactly if its record is the same. -/
theorem readRecord_iff {record : Record V}
    (hnodup : (record.modelRecord.fields.map ModelField.name).Nodup) :
    (∃ r, readRecord objects modelDataFile line = .ok r ∧ r.view = record.view) ↔
      Restores objects modelDataFile line record := by
  simp only [Record.view_eq_iff, Restores, readRecord, Except.bind_eq_ok]
  by_cases hstyle : modelDataFile.separatorStyle = .delimited
  · simp only [if_pos hstyle]
    constructor
    · rintro ⟨r, ⟨modelRecord, hfind, hr⟩, hmodel, hfields⟩
      obtain rfl : record.modelRecord = modelRecord :=
        hmodel.symm.trans (Record.modelRecord_createDelimitedRecord hr)
      exact ⟨hfind, r, hr, hfields⟩
    · rintro ⟨hfind, r, hr, hfields⟩
      exact ⟨r, ⟨_, hfind, hr⟩, Record.modelRecord_createDelimitedRecord hr, hfields⟩
  · simp only [if_neg hstyle, ← Record.createRecord_iff hnodup]
    constructor
    · rintro ⟨r, ⟨modelRecord, hfind, hr⟩, hmodel, hfields⟩
      obtain rfl : record.modelRecord = modelRecord :=
        hmodel.symm.trans (Record.modelRecord_createRecord hr)
      exact ⟨hfind, r, hr, hfields⟩
    · rintro ⟨hfind, r, hr, hfields⟩
      exact ⟨r, ⟨_, hfind, hr⟩, Record.modelRecord_createRecord hr, hfields⟩

end Restore

/-! ### Forests of a file -/

/-- A model of a file that can be read: its separator style is known, its names are unique, and its
records have a length if there are no line ends. -/
structure ModelDataFile.WellFormed (modelDataFile : ModelDataFile V) : Prop where
  style_ne : modelDataFile.separatorStyle ≠ .other
  hasLength : modelDataFile.HasLength
  records_nodup : (modelDataFile.records.map ModelRecord.name).Nodup
  fields_nodup : ∀ modelRecord ∈ modelDataFile.records,
    (modelRecord.fields.map ModelField.name).Nodup

/-- The records of a tree have types of the file, and the type of a child has the type of its
parent as the parent. -/
inductive Conforms (modelDataFile : ModelDataFile V) : RoseTree (Record V) → Prop
  | node (record : Record V) (childRecords : List (RoseTree (Record V)))
      (hmem : record.modelRecord ∈ modelDataFile.records)
      (hparent : ∀ c ∈ childRecords, c.root.modelRecord.parentName ≠ [] ∧
        c.root.modelRecord.parentName = record.modelRecord.name)
      (hchildren : ∀ c ∈ childRecords, Conforms modelDataFile c) :
      Conforms modelDataFile (.node record childRecords)

/-- The number of the ancestors of a type. -/
inductive Depth (modelDataFile : ModelDataFile V) : Name → ℕ → Prop
  | root (modelRecord : ModelRecord V) (hmem : modelRecord ∈ modelDataFile.records)
      (hparent : modelDataFile.parentRecord modelRecord = none) :
      Depth modelDataFile modelRecord.name 0
  | child (modelRecord : ModelRecord V) (hmem : modelRecord ∈ modelDataFile.records)
      (hparent : modelRecord.parentName ≠ []) {k : ℕ}
      (h : Depth modelDataFile modelRecord.parentName k) :
      Depth modelDataFile modelRecord.name (k + 1)

section Forest

variable {modelDataFile : ModelDataFile V}

theorem getModelRecord_isSome {modelRecord : ModelRecord V}
    (h : modelRecord ∈ modelDataFile.records) :
    (modelDataFile.getModelRecord modelRecord.name).isSome = true :=
  List.find?_isSome.mpr ⟨modelRecord, h, by simp⟩

theorem parentRecord_isSome {modelRecord parent : ModelRecord V}
    (hparent : modelRecord.parentName ≠ []) (hmem : parent ∈ modelDataFile.records)
    (hname : parent.name = modelRecord.parentName) :
    (modelDataFile.parentRecord modelRecord).isSome = true := by
  rw [ModelDataFile.parentRecord, if_neg hparent, ← hname]
  exact getModelRecord_isSome hmem

theorem Depth.mem {n : Name} {k : ℕ} (h : Depth modelDataFile n k) :
    ∃ modelRecord ∈ modelDataFile.records, modelRecord.name = n := by
  cases h with
  | root modelRecord hmem => exact ⟨modelRecord, hmem, rfl⟩
  | child modelRecord hmem => exact ⟨modelRecord, hmem, rfl⟩

theorem Depth.parentRecord_ne {modelRecord : ModelRecord V} {k : ℕ}
    (hparent : modelRecord.parentName ≠ []) (h : Depth modelDataFile modelRecord.parentName k) :
    modelDataFile.parentRecord modelRecord ≠ none := by
  obtain ⟨parent, hmem, hname⟩ := h.mem
  exact Option.isSome_iff_ne_none.mp (parentRecord_isSome hparent hmem hname)

theorem Depth.unique (hnodup : (modelDataFile.records.map ModelRecord.name).Nodup) {n : Name}
    {k l : ℕ} (hk : Depth modelDataFile n k) (hl : Depth modelDataFile n l) : k = l := by
  induction hk generalizing l with
  | root modelRecord hmem hnone =>
    generalize hname : modelRecord.name = n at hl
    cases hl with
    | root => rfl
    | child modelRecord' hmem' hparent h =>
      obtain rfl := List.inj_on_of_nodup_map hnodup hmem hmem' hname
      exact absurd hnone (h.parentRecord_ne hparent)
  | child modelRecord hmem hparent h ih =>
    generalize hname : modelRecord.name = n at hl
    cases hl with
    | root modelRecord' hmem' hnone =>
      obtain rfl := List.inj_on_of_nodup_map hnodup hmem hmem' hname
      exact absurd hnone (h.parentRecord_ne hparent)
    | child modelRecord' hmem' hparent' h' =>
      obtain rfl := List.inj_on_of_nodup_map hnodup hmem hmem' hname
      rw [ih h']

theorem exists_level (hnodup : (modelDataFile.records.map ModelRecord.name).Nodup) :
    ∃ level : Name → ℕ, ∀ n k, Depth modelDataFile n k → level n = k := by
  have hlevel : ∀ n, ∃ l, ∀ k, Depth modelDataFile n k → l = k := by
    intro n
    by_cases h : ∃ l, Depth modelDataFile n l
    · obtain ⟨l, hl⟩ := h
      exact ⟨l, fun k hk => hl.unique hnodup hk⟩
    · exact ⟨0, fun k hk => absurd ⟨k, hk⟩ h⟩
  choose level hlevel using hlevel
  exact ⟨level, hlevel⟩

theorem placed_of_conforms {level : Name → ℕ}
    (hlevel : ∀ n k, Depth modelDataFile n k → level n = k) {value : Record V → Record V}
    (hvalue : ∀ r, (value r).modelRecord = r.modelRecord) {t : RoseTree (Record V)}
    (ht : Conforms modelDataFile t) {k : ℕ}
    (hdepth : Depth modelDataFile t.root.modelRecord.name k) :
    Rebuild.Placed modelDataFile.links level value k t := by
  induction ht generalizing k with
  | node record cs hmem hparent hchildren ih =>
    have hroot : ∀ c ∈ cs, c.root.modelRecord ∈ modelDataFile.records := fun c hc => by
      cases hchildren c hc with
      | node _ _ hmem => exact hmem
    refine .node k record cs ?_ ?_ ?_ ?_ ?_
    · change level (value record).modelRecord.name = k
      rw [hvalue]
      exact hlevel _ _ hdepth
    · intro hne
      obtain ⟨c, cs, rfl⟩ := List.exists_cons_of_ne_nil hne
      have hc := List.mem_cons_self (a := c) (l := cs)
      obtain ⟨hparentName, hname⟩ := hparent c hc
      have hchild : c.root.modelRecord ∈ modelDataFile.childRecords record.modelRecord :=
        List.mem_filter.mpr ⟨hroot c hc, by simp [← hname, hparentName]⟩
      change (!(modelDataFile.childRecords (value record).modelRecord).isEmpty) = true
      rw [hvalue, Bool.not_eq_true', List.isEmpty_eq_false_iff]
      exact List.ne_nil_of_mem hchild
    · intro c hc
      change (value c.root).modelRecord.parentName = (value record).modelRecord.name
      rw [hvalue, hvalue]
      exact (hparent c hc).2
    · intro c hc
      change (modelDataFile.parentRecord (value c.root).modelRecord).isSome = true
      rw [hvalue]
      exact parentRecord_isSome (hparent c hc).1 hmem (hparent c hc).2.symm
    · intro c hc
      refine ih c hc (.child _ (hroot c hc) (hparent c hc).1 ?_)
      rw [(hparent c hc).2]
      exact hdepth

end Forest

/-! ### The round trip -/

def Record.seenLine (objects : Objects V) (modelDataFile : ModelDataFile V) (record : Record V) :
    Except RecordException (List Char) :=
  (record.body objects modelDataFile).map (· ++ lineRest modelDataFile)

/-- A forest of a file: its trees conform to the model, their roots have no parents, and each line
fits. -/
structure IsForest (objects : Objects V) (modelDataFile : ModelDataFile V)
    (forest : List (RoseTree (Record V))) : Prop where
  conforms : ∀ t ∈ forest, Conforms modelDataFile t
  root : ∀ t ∈ forest, modelDataFile.parentRecord t.root.modelRecord = none
  fits : ∀ record ∈ preorders forest, ∀ body, record.body objects modelDataFile = .ok body →
    FitsLine modelDataFile body

section RoundTrip

variable {objects : Objects V} {modelDataFile : ModelDataFile V}

theorem mem_records_of_conforms {t : RoseTree (Record V)} (ht : Conforms modelDataFile t)
    {record : Record V} (h : record ∈ t.preorder) :
    record.modelRecord ∈ modelDataFile.records := by
  induction ht with
  | node root cs hmem _ _ ih =>
    rw [preorder, List.mem_cons, preorders_eq, List.mem_flatMap] at h
    rcases h with rfl | ⟨c, hc, h⟩
    · exact hmem
    · exact ih c hc h

theorem runLines_preorders {s s' : Rebuild.State (Record V)} {ls : List (List Char)}
    (h : runLines objects modelDataFile s ls = some s') :
    ∃ rs, List.Forall₂ (fun line r => readRecord objects modelDataFile line = .ok r ∧
        (modelDataFile.links.isChild r = false → hasRecordLength modelDataFile line = true)) ls rs ∧
      preorders s'.finish = preorders s.finish ++ rs := by
  induction ls generalizing s with
  | nil =>
    obtain rfl := Option.some.inj h
    exact ⟨[], .nil, (List.append_nil _).symm⟩
  | cons line ls ih =>
    rw [runLines_cons] at h
    obtain ⟨r, hr, h⟩ := Option.bind_eq_some_iff.mp h
    obtain ⟨s₁, hstep, h⟩ := Option.bind_eq_some_iff.mp h
    obtain ⟨rs, hrs, hpreorders⟩ := ih h
    refine ⟨r :: rs, .cons ⟨toOption_eq_some.mp hr, Rebuild.mayOpen_of_step hstep⟩ hrs, ?_⟩
    rw [hpreorders, Rebuild.preorders_step hstep, List.append_assoc, List.singleton_append]

theorem runLines_eq_steps {line : Record V → List Char} {value : Record V → Record V}
    {rs : List (Record V)}
    (h : ∀ r ∈ rs, readRecord objects modelDataFile (line r) = .ok (value r))
    (s : Rebuild.State (Record V)) :
    runLines objects modelDataFile s (rs.map line) =
      Rebuild.steps modelDataFile.links value (fun r => hasRecordLength modelDataFile (line r)) s
        rs := by
  induction rs generalizing s with
  | nil => rfl
  | cons r rs ih =>
    rw [List.map_cons, runLines_cons, h r List.mem_cons_self]
    exact Option.bind_congr fun s _ => ih (fun r hr => h r (List.mem_cons_of_mem _ hr)) s

theorem exists_body {rs : List (Record V)} {ls : List (List Char)}
    (h : bodies objects modelDataFile rs = .ok ls) :
    ∃ body : Record V → List Char, ls = rs.map body ∧
      ∀ r ∈ rs, r.body objects modelDataFile = .ok (body r) := by
  refine ⟨fun r => (r.body objects modelDataFile).toOption.getD [], ?_⟩
  have hall := Except.mapM_eq_ok.mp h
  clear h
  induction hall with
  | nil => exact ⟨rfl, fun r hr => absurd hr List.not_mem_nil⟩
  | @cons r l rs ls hr _ ih =>
    obtain ⟨rfl, hrs⟩ := ih
    refine ⟨?_, List.forall_mem_cons.mpr ⟨?_, hrs⟩⟩
    · rw [List.map_cons, hr]
      rfl
    · dsimp only
      rw [hr]
      rfl

theorem forall_of_forall₂ {P : List Char → Record V → Prop} {line : Record V → List Char}
    {rs rs' : List (Record V)} (h : List.Forall₂ P (rs.map line) rs')
    (hviews : rs'.map Record.view = rs.map Record.view) :
    ∀ r ∈ rs, ∃ r', P (line r) r' ∧ r'.view = r.view := by
  induction rs generalizing rs' with
  | nil => exact fun r hr => absurd hr List.not_mem_nil
  | cons r rs ih =>
    rcases rs' with _ | ⟨r', rs'⟩
    · cases h
    · rw [List.map_cons, List.forall₂_cons] at h
      rw [List.map_cons, List.map_cons, List.cons.injEq] at hviews
      exact List.forall_mem_cons.mpr ⟨⟨r', h.1, hviews.1⟩, ih h.2 hviews.2⟩

/-- **A forest comes back** exactly if no line is skipped, the ends of the lines are found unless
there is one line, each line restores its record, and the lines of the roots have the record
length. -/
theorem readDataFile_writeRecords_iff (objects : Objects V) (modelDataFile : ModelDataFile V)
    (forest : List (RoseTree (Record V))) (text : List Char)
    (hmodel : modelDataFile.WellFormed) (hforest : IsForest objects modelDataFile forest)
    (htext : writeRecords objects modelDataFile forest = .ok text) :
    (∃ trees, readDataFile objects modelDataFile text = .ok trees ∧
        maps Record.view trees = maps Record.view forest) ↔
      forest = [] ∨
        (modelDataFile.startLine ≤ 0 ∧
          (modelDataFile.EndsLines ∨ (preorders forest).length ≤ 1) ∧
          (∀ record ∈ preorders forest, ∀ line,
            record.seenLine objects modelDataFile = .ok line →
              Restores objects modelDataFile line record) ∧
          ∀ t ∈ forest, ∀ line, t.root.seenLine objects modelDataFile = .ok line →
            hasRecordLength modelDataFile line = true) := by
  obtain ⟨ls, hls, rfl⟩ := writeRecords_eq_ok.mp htext
  obtain ⟨body, rfl, hbody⟩ := exists_body hls
  have hfits : ∀ l ∈ (preorders forest).map body, FitsLine modelDataFile l := by
    intro l hl
    obtain ⟨r, hr, rfl⟩ := List.mem_map.mp hl
    exact hforest.fits r hr _ (hbody r hr)
  have hroot : ∀ t ∈ forest, t.root ∈ preorders forest := fun t ht => by
    rw [preorders_eq]
    exact List.mem_flatMap.mpr ⟨t, ht, t.root_mem_preorder⟩
  have hmem : ∀ r ∈ preorders forest, r.modelRecord ∈ modelDataFile.records := fun r hr => by
    rw [preorders_eq, List.mem_flatMap] at hr
    obtain ⟨t, ht, hr⟩ := hr
    exact mem_records_of_conforms (hforest.conforms t ht) hr
  have hseen : ∀ r ∈ preorders forest,
      r.seenLine objects modelDataFile = .ok (body r ++ lineRest modelDataFile) := fun r hr => by
    rw [Record.seenLine, hbody r hr]
    rfl
  have hread : ∀ trees, readDataFile objects modelDataFile
      (linesText modelDataFile ((preorders forest).map body)) = .ok trees ↔
      (runLines objects modelDataFile ⟨[], []⟩ (lines modelDataFile (skipLines
        modelDataFile.startLine.toNat (linesText modelDataFile ((preorders forest).map body))))).map
          Rebuild.State.finish = some trees := fun trees => by
    rw [← readDataFile_toOption hmodel.hasLength hmodel.style_ne, toOption_eq_some]
  constructor
  · rintro ⟨trees, htrees, hviews⟩
    refine or_iff_not_imp_left.mpr fun hne => ?_
    obtain ⟨s, hrun, rfl⟩ := Option.map_eq_some_iff.mp ((hread trees).mp htrees)
    obtain ⟨rs, hrs, hpreorders⟩ := runLines_preorders hrun
    replace hpreorders : preorders s.finish = rs := hpreorders
    have hviews' : rs.map Record.view = (preorders forest).map Record.view := by
      rw [← hpreorders, ← preorders_maps, hviews, preorders_maps]
    -- there are as many lines as records
    have hlength := hrs.length_eq
    have hcount := congrArg List.length hviews'
    rw [List.length_map, List.length_map] at hcount
    rw [hcount, ← List.length_map (f := body)] at hlength
    have hsome : (preorders forest).map body ≠ [] := by
      obtain ⟨t, ts, rfl⟩ := List.exists_cons_of_ne_nil hne
      exact List.ne_nil_of_mem (List.mem_map_of_mem (hroot t List.mem_cons_self))
    obtain ⟨hstart, hends⟩ := endsLines_of_length hmodel.style_ne hmodel.hasLength hsome hfits
      hlength
    rw [Int.toNat_of_nonpos hstart, skipLines, lines_linesText hmodel.style_ne hmodel.hasLength
      hfits hends, List.map_map] at hrs
    rw [List.length_map] at hends
    have hrecords := forall_of_forall₂ hrs hviews'
    refine ⟨hstart, hends, fun r hr line hline => ?_, fun t ht line hline => ?_⟩
    · obtain rfl := Except.ok.inj ((hseen r hr).symm.trans hline)
      obtain ⟨r', ⟨hr', -⟩, hview⟩ := hrecords r hr
      exact (readRecord_iff (hmodel.fields_nodup _ (hmem r hr))).mp ⟨r', hr', hview⟩
    · obtain rfl := Except.ok.inj ((hseen _ (hroot t ht)).symm.trans hline)
      obtain ⟨r', ⟨-, hr'⟩, hview⟩ := hrecords _ (hroot t ht)
      refine hr' ?_
      change (modelDataFile.parentRecord r'.modelRecord).isSome = false
      rw [(Record.view_eq_iff.mp hview).1, hforest.root t ht]
      rfl
  · rintro (rfl | ⟨hstart, hends, hrestores, hlength⟩)
    · refine ⟨[], (hread []).mpr ?_, rfl⟩
      rw [preorders, List.map_nil, linesText, List.flatMap_nil, skipLines_nil]
      rfl
    -- a record for each line, with the view of the one that was written
    have hvalue : ∀ r, ∃ r' : Record V, r'.view = r.view ∧ (r ∈ preorders forest →
        readRecord objects modelDataFile (body r ++ lineRest modelDataFile) = .ok r') := by
      intro r
      by_cases hr : r ∈ preorders forest
      · obtain ⟨r', hr', hview⟩ := (readRecord_iff (hmodel.fields_nodup _ (hmem r hr))).mpr
          (hrestores r hr _ (hseen r hr))
        exact ⟨r', hview, fun _ => hr'⟩
      · exact ⟨r, rfl, fun h => absurd h hr⟩
    choose value hview hvalue using hvalue
    have hmodelRecord : ∀ r, (value r).modelRecord = r.modelRecord := fun r =>
      (Record.view_eq_iff.mp (hview r)).1
    obtain ⟨level, hlevel⟩ := exists_level hmodel.records_nodup
    have hplaced : ∀ t ∈ forest, Rebuild.Placed modelDataFile.links level value 0 t := by
      intro t ht
      refine placed_of_conforms hlevel hmodelRecord (hforest.conforms t ht) (.root _ ?_
        (hforest.root t ht))
      exact hmem _ (hroot t ht)
    have hchild : ∀ t ∈ forest, modelDataFile.links.isChild (value t.root) = false := by
      intro t ht
      change (modelDataFile.parentRecord (value t.root).modelRecord).isSome = false
      rw [hmodelRecord, hforest.root t ht]
      rfl
    have hsteps : ∃ s, Rebuild.steps modelDataFile.links value
        (fun r => hasRecordLength modelDataFile (body r ++ lineRest modelDataFile)) ⟨[], []⟩
        (preorders forest) = some s ∧ s.finish = maps value forest :=
      Rebuild.steps_preorders hplaced hchild
        (fun t ht => hlength t ht _ (hseen _ (hroot t ht))) ⟨[], []⟩
    obtain ⟨s, hsteps, hfinish⟩ := hsteps
    refine ⟨maps value forest, (hread _).mpr ?_, ?_⟩
    · rw [Int.toNat_of_nonpos hstart, skipLines, lines_linesText hmodel.style_ne
        hmodel.hasLength hfits (by rwa [List.length_map]), List.map_map]
      change (runLines objects modelDataFile ⟨[], []⟩ ((preorders forest).map
        fun r => body r ++ lineRest modelDataFile)).map _ = _
      rw [runLines_eq_steps fun r hr => hvalue r hr, hsteps]
      exact congrArg some hfinish
    · rw [maps_maps]
      exact congrArg (fun f => maps f forest) (funext hview)

end RoundTrip

/-! ### An order with an item -/

def kindField : ModelField (List Char) := ⟨"kind".toList, 0, 1, .string, none, false, none⟩

def wordField : ModelField (List Char) := ⟨"word".toList, 1, 3, .string, none, false, none⟩

def orderRecord : ModelRecord (List Char) :=
  ⟨"order".toList, "O".toList, [], -1, [], -1, true, 0, 1, [], [kindField, wordField]⟩

def itemRecord : ModelRecord (List Char) :=
  ⟨"item".toList, "I".toList, [], -1, [], -1, true, 0, 1, "order".toList, [kindField, wordField]⟩

def orderFile (eolType : Option (List Char)) : ModelDataFile (List Char) :=
  ⟨4, 0, ',', none, .fixedLength, eolType, [orderRecord, itemRecord]⟩

def orderLine (modelRecord : ModelRecord (List Char)) (kind word : List Char) :
    Record (List Char) :=
  ⟨modelRecord, fun n =>
    if n = kindField.name then some kind else if n = wordField.name then some word else none⟩

def orderForest : List (RoseTree (Record (List Char))) :=
  [.node (orderLine orderRecord "O".toList "Ann".toList)
    [.node (orderLine itemRecord "I".toList "pen".toList) []]]

section

variable (eolType : Option (List Char))

theorem wellFormed_orderFile : (orderFile eolType).WellFormed where
  style_ne := fun h => by cases h
  hasLength := fun h => by cases h
  records_nodup := by
    have hne : orderRecord.name ≠ itemRecord.name := by decide
    exact List.nodup_cons.mpr ⟨by simpa using hne, List.pairwise_singleton _ _⟩
  fields_nodup := by
    have hne : kindField.name ≠ wordField.name := by decide
    intro modelRecord hmem
    have hfields : modelRecord.fields = [kindField, wordField] := by
      rcases List.mem_pair.mp hmem with rfl | rfl <;> rfl
    rw [hfields]
    exact List.nodup_cons.mpr ⟨by simpa using hne, List.pairwise_singleton _ _⟩

theorem mem_preorders_orderForest {record : Record (List Char)}
    (h : record ∈ preorders orderForest) :
    record = orderLine orderRecord "O".toList "Ann".toList ∨
      record = orderLine itemRecord "I".toList "pen".toList :=
  List.mem_pair.mp h

theorem isForest_orderForest : IsForest Record.strings (orderFile eolType) orderForest where
  conforms := by
    have hitem : Conforms (orderFile eolType)
        (.node (orderLine itemRecord "I".toList "pen".toList) []) :=
      .node _ _ (List.mem_cons_of_mem _ List.mem_cons_self) (by simp) (by simp)
    intro t ht
    obtain rfl := List.mem_singleton.mp ht
    refine .node _ _ List.mem_cons_self (fun c hc => ?_) (fun c hc => ?_)
    · obtain rfl := List.mem_singleton.mp hc
      exact ⟨by decide, by decide⟩
    · obtain rfl := List.mem_singleton.mp hc
      exact hitem
  root := by
    intro t ht
    obtain rfl := List.mem_singleton.mp ht
    rfl
  fits := by
    intro record hrecord body hbody
    rcases mem_preorders_orderForest hrecord with rfl | rfl
    · obtain rfl : "OAnn".toList = body := Except.ok.inj hbody
      exact ⟨by decide, .inr (not_isLineBreak_of_all rfl), fun h => by cases h⟩
    · obtain rfl : "Ipen".toList = body := Except.ok.inj hbody
      exact ⟨by decide, .inr (not_isLineBreak_of_all rfl), fun h => by cases h⟩

end

theorem readDataFile_crlf :
    (orderFile (some "CRLF".toList)).WellFormed ∧
      IsForest Record.strings (orderFile (some "CRLF".toList)) orderForest ∧
      ∃ text, writeRecords Record.strings (orderFile (some "CRLF".toList)) orderForest = .ok text ∧
        ¬ ∃ trees, readDataFile Record.strings (orderFile (some "CRLF".toList)) text = .ok trees ∧
          maps Record.view trees = maps Record.view orderForest := by
  refine ⟨wellFormed_orderFile _, isForest_orderForest _,
    "OAnn\\r\\nIpen\\r\\n".toList, rfl, ?_⟩
  rintro ⟨trees, htrees, -⟩
  have herror : readDataFile Record.strings (orderFile (some "CRLF".toList))
      "OAnn\\r\\nIpen\\r\\n".toList = .error .dataFile := rfl
  cases herror.symm.trans htrees

theorem readDataFile_newline :
    ∃ trees, readDataFile Record.strings (orderFile none) "OAnn\nIpen\n".toList = .ok trees ∧
      maps Record.view trees = maps Record.view orderForest := by
  refine (readDataFile_writeRecords_iff Record.strings (orderFile none) orderForest _
    (wellFormed_orderFile _) (isForest_orderForest _) rfl).mpr
    (.inr ⟨le_rfl, .inl (.inr (by decide)), fun record hrecord line hline => ?_,
      fun t ht line hline => ?_⟩)
  · rcases mem_preorders_orderForest hrecord with rfl | rfl
    · obtain rfl : "OAnn".toList = line := Except.ok.inj hline
      refine ⟨rfl, List.forall_mem_cons.mpr ⟨⟨_, rfl, _, rfl, rfl⟩, ?_⟩⟩
      exact List.forall_mem_singleton.mpr ⟨_, rfl, _, rfl, rfl⟩
    · obtain rfl : "Ipen".toList = line := Except.ok.inj hline
      refine ⟨rfl, List.forall_mem_cons.mpr ⟨⟨_, rfl, _, rfl, rfl⟩, ?_⟩⟩
      exact List.forall_mem_singleton.mpr ⟨_, rfl, _, rfl, rfl⟩
  · obtain rfl := List.mem_singleton.mp ht
    obtain rfl : "OAnn".toList = line := Except.ok.inj hline
    rfl

end OfficeAuto.Datafile
