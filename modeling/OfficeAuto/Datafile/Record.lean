import OfficeAuto.Text.Split
import OfficeAuto.Text.Tokenizer
import Mathlib.Data.Int.Order.Basic
import Mathlib.Algebra.Ring.Int.Defs

/-!
# Records of flat files

A data file has records, each of them a map of named fields. `writeLineString` writes a record as
a line, by the model of its type and by the separator style of the file: with the fields at fixed
positions, with or without line ends, or with the fields separated by a delimiter and put between
text delimiters. `createRecord` and `createDelimitedRecord` read a line.

A character stands for one code unit. The objects that fields hold and the library classes that
format and parse them are parameters: `Objects` says which objects are strings, and a field type
that is not a string comes with the methods of its class.
-/

namespace OfficeAuto.Datafile

abbrev Name := List Char

/-- The exceptions of the methods of a record. `dataFile` is the one that they declare. -/
inductive RecordException
  | dataFile
  | parse
  | numberFormat
  | illegalArgument
  | classCast
  | noSuchElement
  | indexOutOfBounds
  deriving DecidableEq, Repr

/-- The objects of a type, strings among them. -/
structure Objects (V : Type) where
  string : List Char → V
  toString : V → List Char
  toString_string : ∀ s, toString (string s) = s

/-! ### Models -/

/-- The type of a field, with its format. -/
inductive FieldType (V : Type)
  | string
  | nullTerminatedString
  /-- The SQL types: `toString` and `valueOf`. -/
  | standard (valueOf : List Char → Except RecordException V)
  /-- The numbers, which are written with zeros at their front. -/
  | number (valueOf : List Char → Except RecordException V)
  /-- The types that are written and parsed by a format, or parsed alone. -/
  | custom (format : V → Except RecordException (List Char))
      (parse : List Char → Except RecordException V)

structure ModelField (V : Type) where
  name : Name
  position : ℤ
  length : ℤ
  type : FieldType V
  defaultValue : Option (List Char)
  expression : Bool
  refField : Option Name

structure ModelRecord (V : Type) where
  name : Name
  typeCode : List Char
  tcMin : List Char
  tcMinNum : ℤ
  tcMax : List Char
  tcMaxNum : ℤ
  tcIsNum : Bool
  tcPosition : ℤ
  tcLength : ℤ
  parentName : Name
  fields : List (ModelField V)

inductive SeparatorStyle
  | fixedRecord
  | fixedLength
  | delimited
  | other
  deriving DecidableEq, Repr

structure ModelDataFile (V : Type) where
  recordLength : ℤ
  startLine : ℤ
  delimiter : Char
  textDelimiter : Option (List Char)
  separatorStyle : SeparatorStyle
  eolType : Option (List Char)
  records : List (ModelRecord V)

/-- A record, without its place among other records. -/
structure Record (V : Type) where
  modelRecord : ModelRecord V
  fields : Name → Option V

variable {V : Type}

def ModelRecord.getModelField (modelRecord : ModelRecord V) (name : Name) :
    Option (ModelField V) :=
  modelRecord.fields.find? fun curField => curField.name = name

/-! ### Fields -/

def padFrontZeros (str : List Char) (totalLength : ℤ) : List Char :=
  List.replicate (totalLength - str.length).toNat '0' ++ str

def padSpaces (str : List Char) (totalLength : ℤ) : List Char :=
  str ++ List.replicate (totalLength - str.length).toNat ' '

section

variable (objects : Objects V)

/-- The text of an object by the type of its field, of the given length. -/
def FieldType.format (length : ℤ) (value : V) : FieldType V → Except RecordException (List Char)
  | .string => .ok (objects.toString value)
  | .nullTerminatedString => .error .illegalArgument
  | .standard _ => .ok (objects.toString value)
  | .number _ => .ok (padFrontZeros (objects.toString value) length)
  | .custom format _ => format value

def FieldType.parse (value : List Char) : FieldType V → Except RecordException V
  | .string => .ok (objects.string value)
  | .nullTerminatedString =>
    let terminate := Text.indexOf (Char.ofNat 0) value
    .ok (objects.string (if 0 < terminate then value.take terminate.toNat else value))
  | .standard valueOf => valueOf value
  | .number valueOf => valueOf value
  | .custom _ parse => parse value

namespace Record

def create (modelRecord : ModelRecord V) : Record V :=
  ⟨modelRecord, fun _ => none⟩

def get (record : Record V) (name : Name) : Except RecordException (Option V) :=
  match record.modelRecord.getModelField name with
  | none => .error .illegalArgument
  | some _ => .ok (record.fields name)

def getString (record : Record V) (name : Name) :
    Except RecordException (Option (List Char)) :=
  (record.get name).map (Option.map objects.toString)

def set (record : Record V) (name : Name) (value : V) : Except RecordException (Record V) :=
  match record.modelRecord.getModelField name with
  | none => .error .illegalArgument
  | some _ => .ok { record with fields := Function.update record.fields name (some value) }

/-- **`setString`**: null, the empty text and spaces set nothing. -/
def setString (record : Record V) (name : Name) (value : Option (List Char)) :
    Except RecordException (Record V) :=
  match value with
  | none => .ok record
  | some value =>
    if value = [] then .ok record
    else match record.modelRecord.getModelField name with
      | none => .error .illegalArgument
      | some field =>
        if value.all (· == ' ') then .ok record
        else do record.set name (← field.type.parse objects value)

/-- **`getFixedString`**: the text of a field, with spaces up to its length. -/
def getFixedString (record : Record V) (name : Name) :
    Except RecordException (Option (List Char)) :=
  match record.modelRecord.getModelField name with
  | none => .error .illegalArgument
  | some field => do
    let value? ← record.get name
    match value? with
    | none => pure none
    | some value =>
      let str ← field.type.format objects field.length value
      pure (some (padSpaces str field.length))

/-! ### Writing -/

/-- `StringBuilder.replace`. -/
def replace (s : List Char) (start stop : ℤ) (str : List Char) :
    Except RecordException (List Char) :=
  if 0 ≤ start ∧ start ≤ stop ∧ start ≤ s.length then
    .ok (s.take start.toNat ++ str ++ s.drop stop.toNat)
  else .error .indexOutOfBounds

/-- The text that is written for a field between its delimiters. A field that is not set is
padded. -/
def fieldText (record : Record V) (modelField : ModelField V) :
    Except RecordException (List Char) := do
  let data ← record.getFixedString objects modelField.name
  let data := data.getD (List.replicate modelField.length.toNat ' ')
  if 0 < modelField.length ∧ data.length ≠ modelField.length then throw .dataFile
  pure data

def writeField (modelDataFile : ModelDataFile V) (record : Record V) (lineBuf : List Char)
    (modelField : ModelField V) : Except RecordException (List Char) := do
  let data ← record.fieldText objects modelField
  match modelDataFile.separatorStyle with
  | .delimited =>
    let quote := modelDataFile.textDelimiter.getD []
    pure (lineBuf ++ quote ++ data ++ quote ++ [modelDataFile.delimiter])
  | .fixedRecord =>
    -- the field begins at its position
    pure (padSpaces lineBuf modelField.position ++ data)
  | .fixedLength | .other => pure (lineBuf ++ data)

def fieldsLine (modelDataFile : ModelDataFile V) (record : Record V) :
    Except RecordException (List Char) := do
  let lineBuf ← record.modelRecord.fields.foldlM (writeField objects modelDataFile record) []
  match modelDataFile.separatorStyle with
  | .delimited =>
    -- the last delimiter is removed
    if lineBuf = [] then throw .indexOutOfBounds
    pure lineBuf.dropLast
  | .fixedRecord | .fixedLength =>
    if 0 < modelDataFile.recordLength ∧ lineBuf.length ≠ modelDataFile.recordLength then
      throw .dataFile
    pure lineBuf
  | .other => pure lineBuf

def insertTypeCode (modelRecord : ModelRecord V) (lineBuf : List Char) :
    Except RecordException (List Char) :=
  if 0 < modelRecord.tcPosition ∧ modelRecord.typeCode ≠ [] then
    replace lineBuf modelRecord.tcPosition (modelRecord.tcPosition + modelRecord.tcLength)
      modelRecord.typeCode
  else .ok lineBuf

/-- The end of a line. For `CRLF` it has a backslash, an `r`, a backslash and an `n`. -/
def lineEnd (modelDataFile : ModelDataFile V) : List Char :=
  match modelDataFile.separatorStyle with
  | .fixedLength | .delimited =>
    if modelDataFile.eolType = some "CRLF".toList then "\\r\\n".toList else ['\n']
  | .fixedRecord | .other => []

/-- **`writeLineString`.** -/
def writeLineString (modelDataFile : ModelDataFile V) (record : Record V) :
    Except RecordException (List Char) := do
  let lineBuf ← record.fieldsLine objects modelDataFile
  let lineBuf ← insertTypeCode record.modelRecord lineBuf
  pure (lineBuf ++ lineEnd modelDataFile)

/-! ### Reading -/

def wrapConversion {α : Type} : Except RecordException α → Except RecordException α
  | .error .parse | .error .numberFormat => .error .dataFile
  | x => x

def createField (line : List Char) (record : Record V) (modelField : ModelField V) :
    Except RecordException (Record V) :=
  match Text.substring line modelField.position (modelField.position + modelField.length) with
  | none => .error .dataFile
  | some strVal => wrapConversion (record.setString objects modelField.name (some strVal))

/-- **`createRecord`** of a line with fields at fixed positions. -/
def createRecord (line : List Char) (modelRecord : ModelRecord V) :
    Except RecordException (Record V) :=
  modelRecord.fields.foldlM (createField objects line) (create modelRecord)

/-- The text of an expression: a field that has been read before, or the default value. -/
def expressionText (record : Record V) (modelField : ModelField V) :
    Except RecordException (Option (List Char)) := do
  let strVal ← match modelField.refField with
    | none => pure none
    | some refField => if refField = [] then pure none else record.getString objects refField
  pure (strVal.or modelField.defaultValue)

end Record

end

/-- The next text of a line: none of a delimiter, and of the end. A text is followed by a
delimiter. -/
def nextText (delimiter : Char) (st : List (List Char)) :
    Option (List Char) × List (List Char) :=
  match st with
  | [] => (none, [])
  | strVal :: st => if strVal = [delimiter] then (none, st) else (some strVal, st.tail)

def joinTokens (textDelimiter strVal : List Char) :
    List (List Char) → Except RecordException (List Char × List (List Char))
  | [] => if textDelimiter <:+ strVal then .ok (strVal, []) else .error .noSuchElement
  | token :: st =>
    if textDelimiter <:+ strVal then .ok (strVal, token :: st)
    else joinTokens textDelimiter (strVal ++ token) st

/-- A text that was cut at a delimiter is put together, and the delimiter after it is dropped. -/
def joinText (delimiter : Char) (textDelimiter strVal : List Char) (st : List (List Char)) :
    Except RecordException (List Char × List (List Char)) :=
  if textDelimiter <+: strVal ∧ (¬ textDelimiter <:+ strVal ∨ strVal.length = 1) then do
    let (strVal, st) ← joinTokens textDelimiter (strVal ++ [delimiter]) st
    match st with
    | [] => throw .noSuchElement
    | _ :: st => pure (strVal, st)
  else pure (strVal, st)

def stripText (textDelimiter strVal : List Char) : Except RecordException (List Char) :=
  if textDelimiter <+: strVal ∧ textDelimiter <:+ strVal then
    match Text.substring strVal textDelimiter.length (strVal.length - textDelimiter.length) with
    | none => .error .indexOutOfBounds
    | some strVal => .ok strVal
  else .ok strVal

def unquote (delimiter : Char) (textDelimiter strVal : Option (List Char))
    (st : List (List Char)) :
    Except RecordException (Option (List Char) × List (List Char)) :=
  match textDelimiter, strVal with
  | some textDelimiter, some strVal => do
    let (strVal, st) ← joinText delimiter textDelimiter strVal st
    let strVal ← stripText textDelimiter strVal
    pure (some strVal, st)
  | _, strVal => .ok (strVal, st)

namespace Record

variable (objects : Objects V)

/-- One round of the loop of `createDelimitedRecord`, on the record and the tokens that are
left. -/
def readField (delimiter : Char) (textDelimiter : Option (List Char))
    (state : Record V × List (List Char)) (modelField : ModelField V) :
    Except RecordException (Record V × List (List Char)) := do
  let (record, st) := state
  let (strVal, st) ←
    if modelField.expression then do pure (← record.expressionText objects modelField, st)
    else pure (nextText delimiter st)
  let (strVal, st) ← unquote delimiter textDelimiter strVal st
  let record ← wrapConversion (record.setString objects modelField.name strVal)
  pure (record, st)

/-- The tokens of a line. One that ends with a delimiter has a space after it. -/
def lineTokens (delimiter : Char) (line : List Char) : List (List Char) :=
  if line.getLast? = some delimiter then Text.tokensDelims delimiter (line ++ [' '])
  else Text.tokensDelims delimiter line

/-- **`createDelimitedRecord`.** -/
def createDelimitedRecord (line : List Char) (modelRecord : ModelRecord V) (delimiter : Char)
    (textDelimiter : Option (List Char)) : Except RecordException (Record V) := do
  let (record, _) ← modelRecord.fields.foldlM (readField objects delimiter textDelimiter)
    (create modelRecord, lineTokens delimiter line)
  pure record

end Record

/-! ### Lines of a text -/

def isLineBreak (c : Char) : Bool := c == '\n' || c == '\r'

def readLine (text : List Char) : List Char := text.takeWhile fun c => !isLineBreak c

theorem readLine_append {line : List Char} (h : ∀ c ∈ line, isLineBreak c = false)
    (rest : List Char) : readLine (line ++ '\n' :: rest) = line := by
  rw [readLine, List.takeWhile_append_of_pos fun c hc => by simp [h c hc],
    List.takeWhile_cons_of_neg (by decide), List.append_nil]

end OfficeAuto.Datafile
