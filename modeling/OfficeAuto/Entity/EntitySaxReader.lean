import OfficeAuto.Entity.Condition
import OfficeAuto.Logic.Deferral
import OfficeAuto.Text.Split

/-!
# Importing entity XML

`EntitySaxReader` gets the events of a document, makes a value of each element, and applies the
action of the section that the element is in. The values to store and those to delete wait in two
lists; a list is written when it is full, and at the end first the one and then the other. Whether a
`create` or a `delete` has anything to do is asked of the database at once.

The document should have the effect of its elements one after the other (`sequential`). The table
that the lists will lead to is the one of the elements so far as long as every element finds the
lists in order (`Finds`).

**Main result.** The document and all its beginnings have the effect of their elements if and only
if every element finds the lists in order (`parse_eq_sequential_iff`).
-/

namespace OfficeAuto.Entity.EntitySaxReader

open Text

/-! ### Values -/

abbrev Key := List Char × List (Option Value)

abbrev Database := Rows Key Row

/-- The fields of an entity. -/
structure ModelEntity where
  pks : List FieldName
  nopks : List FieldName
  automaticFieldNames : List FieldName
  blobs : List FieldName

def ModelEntity.isField (model : ModelEntity) (name : FieldName) : Bool :=
  model.pks.contains name || model.nopks.contains name

/-- A value of an entity. A field that is not in its map is `none`, one that is null
`some none`. -/
structure GenericValue where
  entityName : List Char
  modelEntity : ModelEntity
  fields : FieldName → Option (Option Value)

/-- What the reader uses of the delegator: the model of an entity, the value of a field that a text
is, the bytes that a text is, and the next identifier of a sequence; and the expansion of
placeholders. No value is an exception. -/
structure Delegator (S : Type) where
  modelEntity : List Char → Option ModelEntity
  setString : List Char → FieldName → List Char → Option (Option Value)
  base64Decode : List Char → Value
  getNextSeqId : S → List Char → List Char × S
  expandString : List Char → List Char

inductive SAXException
  | makeValue
  | illegalArgument
  | incompletePrimaryKey
  deriving DecidableEq, Repr

namespace GenericValue

variable (value : GenericValue)

def set (name : FieldName) (v : Option Value) : GenericValue :=
  { value with fields := Function.update value.fields name (some v) }

def ContainsPrimaryKey : Prop := ∀ pk ∈ value.modelEntity.pks, value.fields pk ≠ none

instance : Decidable value.ContainsPrimaryKey :=
  inferInstanceAs (Decidable (∀ pk ∈ value.modelEntity.pks, value.fields pk ≠ none))

def getPrimaryKey : Key :=
  (value.entityName, value.modelEntity.pks.map fun pk => (value.fields pk).join)

def toRow : Row := fun name =>
  if value.modelEntity.nopks.contains name then (value.fields name).join else none

/-- The fields that `storeAll` sends: those of the value that have changed. -/
def toStore (existing : Row) : List FieldName :=
  value.modelEntity.nopks.filter fun name =>
    value.fields name ≠ none ∧ existing name ≠ (value.fields name).join

end GenericValue

def storeValue (db : Database) (value : GenericValue) : Database :=
  match db value.getPrimaryKey with
  | none => Function.update db value.getPrimaryKey (some value.toRow)
  | some existing =>
    if value.toStore existing = [] then db
    else Function.update db value.getPrimaryKey (some fun name =>
      if (value.toStore existing).contains name then (value.fields name).join else existing name)

def storeAll (db : Database) (values : List GenericValue) : Database := values.foldl storeValue db

def removeValue (db : Database) (value : GenericValue) : Database :=
  Function.update db value.getPrimaryKey none

def removeAll (db : Database) (values : List GenericValue) : Database := values.foldl removeValue db

/-! ### The reader -/

inductive Action
  | create
  | createUpdate
  | createReplace
  | delete
  deriving DecidableEq, Repr

def Action.tag : Action → List Char
  | .create => "create".toList
  | .createUpdate => "create-update".toList
  | .createReplace => "create-replace".toList
  | .delete => "delete".toList

def action? (name : List Char) : Option Action :=
  [Action.create, .createUpdate, .createReplace, .delete].find? (·.tag = name)

inductive SaxEvent
  | startElement (name : List Char) (attributes : List (List Char × List Char))
  | characters (text : List Char)
  | endElement (name : List Char)

/-- The fields of the reader, the database, and the sequences. -/
structure Reader (S : Type) where
  currentValue : Option GenericValue
  currentFieldName : Option (List Char)
  currentFieldValue : Option (List Char)
  currentAction : Action
  valuesToWrite : List GenericValue
  valuesToDelete : List GenericValue
  db : Database
  sequences : S

variable {S : Type}

def afterSign (sign : Char) (name : List Char) : List Char :=
  if 0 < indexOf sign name then name.drop ((indexOf sign name).toNat + 1) else name

def entityNameOf (name : List Char) : List Char := afterSign ':' (afterSign '-' name)

section Delegator

variable (delegator : Delegator S)

/-- One round over the attributes: an empty text is null, and an exception is only logged. -/
def setAttribute (current : GenericValue × List FieldName) (entry : List Char × List Char) :
    GenericValue × List FieldName :=
  let value := if entry.2 = [] then [] else delegator.expandString entry.2
  if current.1.modelEntity.isField entry.1 then
    if value = [] then (current.1.set entry.1 none, current.2.erase entry.1)
    else
      match delegator.setString current.1.entityName entry.1 value with
      | none => current
      | some v => (current.1.set entry.1 v, current.2.erase entry.1)
  else current

/-- The fields that a `create-replace` sets to null if there is no attribute for them. -/
def absentFields (action : Action) (model : ModelEntity) : List FieldName :=
  if action = .createReplace then model.nopks.filter (!model.automaticFieldNames.contains ·) else []

def startValue (action : Action) (name : List Char) (attributes : List (List Char × List Char)) :
    Except SAXException GenericValue :=
  match delegator.modelEntity (entityNameOf name) with
  | none => .error .makeValue
  | some model =>
    let current := attributes.foldl (setAttribute delegator)
      (⟨entityNameOf name, model, fun _ => none⟩, absentFields action model)
    .ok (current.2.foldl (fun value fieldName => value.set fieldName none) current.1)

def setField (value : GenericValue) (name : List Char) : Option (List Char) →
    Except SAXException GenericValue
  | none => .ok value
  | some text =>
    if value.modelEntity.isField name then
      if value.modelEntity.blobs.contains name then
        .ok (value.set name (some (delegator.base64Decode text)))
      else
        match delegator.setString value.entityName name text with
        | none => .error .illegalArgument
        | some v => .ok (value.set name v)
    else .ok value

/-- A primary key of one field that is missing is taken from a sequence. -/
def withPrimaryKey (sequences : S) (value : GenericValue) :
    Except SAXException (GenericValue × S) :=
  if value.ContainsPrimaryKey then .ok (value, sequences)
  else
    match value.modelEntity.pks with
    | [pk] =>
      let next := delegator.getNextSeqId sequences value.entityName
      match delegator.setString value.entityName pk next.1 with
      | none => .error .illegalArgument
      | some v => .ok (value.set pk v, next.2)
    | _ => .error .incompletePrimaryKey

end Delegator

namespace Reader

variable (delegator : Delegator S) (valuesPerWrite : ℕ) (r : Reader S)

def addToWrite (value : GenericValue) : Reader S :=
  let valuesToWrite := r.valuesToWrite ++ [value]
  if valuesPerWrite ≤ valuesToWrite.length then
    { r with db := storeAll r.db valuesToWrite, valuesToWrite := [] }
  else { r with valuesToWrite := valuesToWrite }

def addToDelete (value : GenericValue) : Reader S :=
  let valuesToDelete := r.valuesToDelete ++ [value]
  if valuesPerWrite ≤ valuesToDelete.length then
    { r with db := removeAll r.db valuesToDelete, valuesToDelete := [] }
  else { r with valuesToDelete := valuesToDelete }

def endValue (value : GenericValue) : Reader S :=
  let exist := (r.db value.getPrimaryKey).isSome
  match r.currentAction with
  | .create => if exist then r else r.addToWrite valuesPerWrite value
  | .delete => if exist then r.addToDelete valuesPerWrite value else r
  | .createUpdate | .createReplace => r.addToWrite valuesPerWrite value

def startElement (name : List Char) (attributes : List (List Char × List Char)) :
    Except SAXException (Reader S) :=
  if name = "entity-engine-xml".toList then .ok r
  else
    match action? name with
    | some action => .ok { r with currentAction := action }
    | none =>
      match r.currentValue with
      | some _ => .ok { r with currentFieldName := some name }
      | none => (startValue delegator r.currentAction name attributes).map fun value =>
          { r with currentValue := some value }

def characters (text : List Char) : Reader S :=
  if r.currentValue.isSome ∧ r.currentFieldName.isSome then
    { r with currentFieldValue := some (r.currentFieldValue.getD [] ++ text) }
  else r

def endElement (name : List Char) : Except SAXException (Reader S) :=
  if name = "entity-engine-xml".toList then .ok r
  else
    match action? name with
    | some _ => .ok { r with currentAction := .createUpdate }
    | none =>
      match r.currentValue with
      | none => .ok r
      | some value =>
        match r.currentFieldName with
        | some fieldName => (setField delegator value fieldName r.currentFieldValue).map
            fun value =>
              { r with
                currentValue := some value
                currentFieldName := none
                currentFieldValue := none }
        | none => (withPrimaryKey delegator r.sequences value).map fun next =>
            { endValue valuesPerWrite { r with sequences := next.2 } next.1 with
              currentValue := none }

def handle : SaxEvent → Except SAXException (Reader S)
  | .startElement name attributes => r.startElement delegator name attributes
  | .characters text => .ok (r.characters text)
  | .endElement name => r.endElement delegator valuesPerWrite name

def finish : Database := removeAll (storeAll r.db r.valuesToWrite) r.valuesToDelete

def start (db : Database) (sequences : S) : Reader S :=
  ⟨none, none, none, .createUpdate, [], [], db, sequences⟩

end Reader

/-- **`parse`**: the database after a document, and the sequences. -/
def parse (delegator : Delegator S) (valuesPerWrite : ℕ) (events : List SaxEvent) (db : Database)
    (sequences : S) : Except SAXException (Database × S) :=
  (events.foldlM (Reader.handle delegator valuesPerWrite) (.start db sequences)).map
    fun r => (r.finish, r.sequences)

/-! ### Documents -/

def IsName (name : List Char) : Prop :=
  name ≠ "entity-engine-xml".toList ∧ action? name = none

/-- A nested element with the value of a field. -/
structure FieldElement where
  name : List Char
  texts : List (List Char)
  isName : IsName name

structure Element where
  name : List Char
  attributes : List (List Char × List Char)
  fields : List FieldElement
  isName : IsName name

/-- Elements in the tag of an action, or in none. -/
structure Section where
  action : Option Action
  elements : List Element

abbrev Document := List Section

def FieldElement.events (field : FieldElement) : List SaxEvent :=
  .startElement field.name [] :: field.texts.map .characters ++ [.endElement field.name]

def Element.events (element : Element) : List SaxEvent :=
  .startElement element.name element.attributes ::
    element.fields.flatMap FieldElement.events ++ [.endElement element.name]

def Section.events (part : Section) : List SaxEvent :=
  match part.action with
  | none => part.elements.flatMap Element.events
  | some action =>
    .startElement action.tag [] :: part.elements.flatMap Element.events ++ [.endElement action.tag]

def Document.events (document : Document) : List SaxEvent :=
  .startElement "entity-engine-xml".toList [] :: document.flatMap Section.events ++
    [.endElement "entity-engine-xml".toList]

def Document.steps (document : Document) : List (Action × Element) :=
  document.flatMap fun part => part.elements.map (part.action.getD .createUpdate, ·)

/-! ### The effect of the elements, one after the other -/

def FieldElement.text (field : FieldElement) : Option (List Char) :=
  if field.texts = [] then none else some field.texts.flatten

def Element.value (delegator : Delegator S) (sequences : S) (action : Action) (element : Element) :
    Except SAXException (GenericValue × S) := do
  let value ← startValue delegator action element.name element.attributes
  let value ← element.fields.foldlM
    (fun value field => setField delegator value field.name field.text) value
  withPrimaryKey delegator sequences value

/-- An action on the database: `create` does not touch a row that is there. -/
def Action.apply (action : Action) (value : GenericValue) (db : Database) : Database :=
  match action with
  | .create => if (db value.getPrimaryKey).isSome then db else storeValue db value
  | .createUpdate | .createReplace => storeValue db value
  | .delete => removeValue db value

/-- **What a document should do.** -/
def sequential (delegator : Delegator S) (steps : List (Action × Element)) (db : Database)
    (sequences : S) : Except SAXException (Database × S) :=
  steps.foldlM (fun s step => (step.2.value delegator s.2 step.1).map fun next =>
    (step.1.apply next.1 s.1, next.2)) (db, sequences)

/-! ### The lists in order -/

/-- **A value finds the lists in order.** None of its key waits for its deletion. If the database
does not have a row that waits to be written, a `create` is of no effect on it, and there is no
`delete` of it. A `delete` that fills its list does not send deletions of keys that wait to be
written. -/
def Reader.Finds (valuesPerWrite : ℕ) (r : Reader S) (value : GenericValue) : Prop :=
  let key := value.getPrimaryKey
  let keysToWrite := r.valuesToWrite.map (·.getPrimaryKey)
  let keysToDelete := r.valuesToDelete.map (·.getPrimaryKey)
  match r.currentAction with
  | .create => key ∉ keysToDelete ∧
      (r.db key = none →
        ∀ row, storeAll r.db r.valuesToWrite key = some row → value.toStore row = [])
  | .createUpdate | .createReplace => key ∉ keysToDelete
  | .delete => (r.db key = none → key ∉ keysToWrite) ∧
      (r.db key ≠ none → valuesPerWrite ≤ r.valuesToDelete.length + 1 →
        ∀ k ∈ keysToDelete ++ [key], k ∉ keysToWrite)

def Reader.next (delegator : Delegator S) (valuesPerWrite : ℕ) (r : Reader S)
    (step : Action × Element) : Except SAXException (Reader S) :=
  (step.2.value delegator r.sequences step.1).map fun next =>
    endValue valuesPerWrite { r with currentAction := step.1, sequences := next.2 } next.1

def Reader.FindsAll (delegator : Delegator S) (valuesPerWrite : ℕ) :
    Reader S → List (Action × Element) → Prop
  | _, [] => True
  | r, step :: steps =>
    (∀ next, step.2.value delegator r.sequences step.1 = .ok next →
      Finds valuesPerWrite { r with currentAction := step.1 } next.1) ∧
    ∀ r', r.next delegator valuesPerWrite step = .ok r' → r'.FindsAll delegator valuesPerWrite steps

/-! ### The lists as a deferral -/

section Lists

variable {db : Database} {value : GenericValue} {values : List GenericValue}

def GenericValue.toWrite (value : GenericValue) : RowWrite Key Row where
  key := value.getPrimaryKey
  effect
    | none => value.toRow
    | some existing => fun name =>
      if (value.toStore existing).contains name then (value.fields name).join else existing name

theorem storeValue_eq_write (db : Database) (value : GenericValue) :
    storeValue db value = db.write value.toWrite := by
  unfold storeValue
  cases hrow : db value.getPrimaryKey with
  | none => exact congrArg (fun o => Function.update db value.getPrimaryKey
      (some (value.toWrite.effect o))) hrow.symm
  | some existing =>
    have hwrite : db.write value.toWrite =
        Function.update db value.getPrimaryKey (some (value.toWrite.effect (some existing))) :=
      congrArg (fun o => Function.update db value.getPrimaryKey
        (some (value.toWrite.effect o))) hrow
    rw [hwrite]
    by_cases hnone : value.toStore existing = []
    · -- a row of which nothing changes
      have heffect : value.toWrite.effect (some existing) = existing := by
        funext name
        simp [GenericValue.toWrite, hnone]
      dsimp only
      rw [if_pos hnone, heffect, ← hrow, Function.update_eq_self]
    · dsimp only
      rw [if_neg hnone]
      rfl

theorem storeAll_eq_writeAll (db : Database) (values : List GenericValue) :
    storeAll db values = db.writeAll (values.map (·.toWrite)) := by
  induction values generalizing db with
  | nil => rfl
  | cons value values ih =>
    rw [storeAll, List.foldl_cons, storeValue_eq_write]
    exact ih _

theorem removeAll_eq_removeAll (db : Database) (values : List GenericValue) :
    removeAll db values = Rows.removeAll db (values.map (·.getPrimaryKey)) := by
  induction values generalizing db with
  | nil => rfl
  | cons value values ih => exact ih _

theorem storeValue_self_ne_none : storeValue db value value.getPrimaryKey ≠ none := by
  rw [storeValue_eq_write]
  exact fun h => Option.some_ne_none _ (Rows.write_self.symm.trans h)

theorem storeValue_eq_self_iff {row : Row} (hrow : db value.getPrimaryKey = some row) :
    storeValue db value = db ↔ value.toStore row = [] := by
  constructor
  · intro h
    by_contra hne
    obtain ⟨name, hmem⟩ := List.exists_mem_of_ne_nil _ hne
    have hchanged := (of_decide_eq_true (List.mem_filter.mp hmem).2).2
    have hself := congrFun h value.getPrimaryKey
    rw [storeValue_eq_write, hrow] at hself
    have hwrite : value.toWrite.effect (db value.getPrimaryKey) = row :=
      Option.some.inj (Rows.write_self.symm.trans hself)
    rw [hrow] at hwrite
    have hname := congrFun hwrite name
    simp only [GenericValue.toWrite, List.contains_iff_mem.mpr hmem, if_true] at hname
    exact hchanged hname.symm
  · intro h
    simp only [storeValue, hrow, h, if_true]

end Lists

namespace Reader

variable {valuesPerWrite : ℕ} {r : Reader S} {value : GenericValue}

def deferral (r : Reader S) : Deferral Key Row :=
  ⟨r.db, r.valuesToWrite.map (·.toWrite), r.valuesToDelete.map (·.getPrimaryKey)⟩

theorem finish_eq_settled (r : Reader S) : r.finish = r.deferral.settled := by
  rw [finish, removeAll_eq_removeAll, storeAll_eq_writeAll]
  rfl

theorem writeKeys_deferral (r : Reader S) :
    r.deferral.writeKeys = r.valuesToWrite.map (·.getPrimaryKey) :=
  List.map_map

def DeletesRows (r : Reader S) : Prop := ∀ k ∈ r.valuesToDelete.map (·.getPrimaryKey), r.db k ≠ none

theorem finish_addToWrite :
    (r.addToWrite valuesPerWrite value).finish = (r.deferral.write value.toWrite).settled := by
  have hwrites : r.deferral.writes ++ [value.toWrite] =
      (r.valuesToWrite ++ [value]).map (·.toWrite) := by
    rw [List.map_append]
    rfl
  simp only [addToWrite]
  by_cases hfull : valuesPerWrite ≤ (r.valuesToWrite ++ [value]).length
  · rw [if_pos hfull, finish_eq_settled, deferral]
    simp only [storeAll_eq_writeAll, ← hwrites]
    exact Deferral.settled_doWrites (d := r.deferral.write value.toWrite)
  · rw [if_neg hfull, finish_eq_settled, deferral]
    simp only [← hwrites]
    rfl

theorem finish_addToDelete :
    (r.addToDelete valuesPerWrite value).finish =
      if valuesPerWrite ≤ r.valuesToDelete.length + 1 then
        (r.deferral.remove value.getPrimaryKey).doRemovals.settled
      else (r.deferral.remove value.getPrimaryKey).settled := by
  have hremovals : r.deferral.removals ++ [value.getPrimaryKey] =
      (r.valuesToDelete ++ [value]).map (·.getPrimaryKey) := by
    rw [List.map_append]
    rfl
  have hlength : (r.valuesToDelete ++ [value]).length = r.valuesToDelete.length + 1 :=
    List.length_append
  simp only [addToDelete, hlength]
  by_cases hfull : valuesPerWrite ≤ r.valuesToDelete.length + 1
  · rw [if_pos hfull, if_pos hfull, finish_eq_settled, deferral]
    simp only [removeAll_eq_removeAll, ← hremovals]
    rfl
  · rw [if_neg hfull, if_neg hfull, finish_eq_settled, deferral]
    simp only [← hremovals]
    rfl

theorem finish_eq_none_iff (h : value.getPrimaryKey ∉ r.valuesToDelete.map (·.getPrimaryKey)) :
    r.finish value.getPrimaryKey = none ↔ r.db value.getPrimaryKey = none ∧
      value.getPrimaryKey ∉ r.valuesToWrite.map (·.getPrimaryKey) := by
  rw [finish_eq_settled, Deferral.settled_of_notMem (d := r.deferral) h, ← not_iff_not]
  refine Rows.writeAll_ne_none_iff.trans ?_
  have hkeys : r.deferral.writes.map (·.key) = r.valuesToWrite.map (·.getPrimaryKey) :=
    r.writeKeys_deferral
  rw [hkeys, not_and_or, not_not]
  rfl

theorem finish_addToWrite_iff :
    (r.addToWrite valuesPerWrite value).finish = storeValue r.finish value ↔
      value.getPrimaryKey ∉ r.valuesToDelete.map (·.getPrimaryKey) := by
  rw [finish_addToWrite, storeValue_eq_write, finish_eq_settled]
  exact Deferral.settled_write_iff

/-- **One value**: its action is applied to what the lists will lead to if and only if it finds
them in order. -/
theorem finish_endValue_iff (h : r.DeletesRows) :
    (r.endValue valuesPerWrite value).finish = r.currentAction.apply value r.finish ↔
      r.Finds valuesPerWrite value := by
  have hnotMem : r.db value.getPrimaryKey = none →
      value.getPrimaryKey ∉ r.valuesToDelete.map (·.getPrimaryKey) := fun hnone hmem =>
    h _ hmem hnone
  cases haction : r.currentAction with
  | create =>
    simp only [endValue, haction, Finds, Action.apply]
    cases hrow : r.db value.getPrimaryKey with
    | none =>
      have hmem := hnotMem hrow
      simp only [Option.isSome_none, Bool.false_eq_true, if_false, hmem, not_false_eq_true,
        true_and, forall_const]
      rw [finish_addToWrite, Deferral.settled_write_iff.mpr hmem, ← storeValue_eq_write,
        ← finish_eq_settled]
      -- a row that is new to the database can wait in the list already
      have hstored : r.finish value.getPrimaryKey =
          storeAll r.db r.valuesToWrite value.getPrimaryKey := by
        rw [finish_eq_settled, Deferral.settled_of_notMem (d := r.deferral) hmem,
          storeAll_eq_writeAll]
        rfl
      cases hfinish : r.finish value.getPrimaryKey with
      | none => simp [← hstored, hfinish]
      | some row => simp [← hstored, hfinish, storeValue_eq_self_iff hfinish]
    | some row =>
      simp only [Option.isSome_some, if_true, reduceCtorEq, false_implies, and_true]
      -- a row that waits to be deleted is skipped although it will be gone
      by_cases hmem : value.getPrimaryKey ∈ r.valuesToDelete.map (·.getPrimaryKey)
      · have hnone : r.finish value.getPrimaryKey = none := by
          rw [finish_eq_settled]
          exact Deferral.settled_of_mem (d := r.deferral) hmem
        rw [hnone]
        simp only [Option.isSome_none, Bool.false_eq_true, if_false, hmem, not_true_eq_false,
          iff_false]
        exact fun heq => storeValue_self_ne_none ((congrFun heq _).symm.trans hnone)
      · have hne : r.finish value.getPrimaryKey ≠ none := fun hnone =>
          absurd (hrow.symm.trans ((finish_eq_none_iff hmem).mp hnone).1) (Option.some_ne_none _)
        simp [Option.isSome_iff_ne_none.mpr hne, hmem]
  | createUpdate =>
    simp only [endValue, haction, Finds, Action.apply]
    exact finish_addToWrite_iff
  | createReplace =>
    simp only [endValue, haction, Finds, Action.apply]
    exact finish_addToWrite_iff
  | delete =>
    simp only [endValue, haction, Finds, Action.apply]
    cases hrow : r.db value.getPrimaryKey with
    | none =>
      simp only [Option.isSome_none, Bool.false_eq_true, if_false, forall_const, ne_eq,
        not_true_eq_false, false_implies, and_true]
      -- without a row nothing is put on the list, which is right if none waits to be written
      have hself : r.finish = removeValue r.finish value ↔ r.finish value.getPrimaryKey = none := by
        constructor
        · intro heq
          exact (congrFun heq _).trans Rows.remove_self
        · intro hnone
          rw [finish_eq_settled] at hnone ⊢
          exact (Deferral.settled_remove_of_none hnone).symm
      rw [hself, finish_eq_none_iff (hnotMem hrow)]
      exact and_iff_right hrow
    | some row =>
      simp only [Option.isSome_some, if_true, reduceCtorEq, false_implies, true_and, ne_eq,
        not_false_eq_true, true_implies]
      have hremove : removeValue r.finish value =
          (r.deferral.remove value.getPrimaryKey).settled := by
        rw [finish_eq_settled, Deferral.settled_remove]
        rfl
      rw [finish_addToDelete, hremove]
      -- a full list is removed at once
      by_cases hfull : valuesPerWrite ≤ r.valuesToDelete.length + 1
      · rw [if_pos hfull, Deferral.settled_doRemovals_iff, ← writeKeys_deferral]
        simp only [hfull, true_implies]
        rfl
      · simp only [hfull, if_false, false_implies]

theorem deletesRows_addToWrite (h : r.DeletesRows) :
    (r.addToWrite valuesPerWrite value).DeletesRows := by
  simp only [addToWrite]
  by_cases hfull : valuesPerWrite ≤ (r.valuesToWrite ++ [value]).length
  · rw [if_pos hfull]
    intro k hk
    have hdb : storeAll r.db (r.valuesToWrite ++ [value]) k ≠ none := by
      rw [storeAll_eq_writeAll]
      exact Rows.writeAll_ne_none_iff.mpr (Or.inl (h k hk))
    exact hdb
  · rw [if_neg hfull]
    exact h

theorem deletesRows_endValue (h : r.DeletesRows) :
    (r.endValue valuesPerWrite value).DeletesRows := by
  cases haction : r.currentAction with
  | create =>
    simp only [endValue, haction]
    by_cases hexist : (r.db value.getPrimaryKey).isSome
    · rw [if_pos hexist]
      exact h
    · rw [if_neg hexist]
      exact deletesRows_addToWrite h
  | createUpdate =>
    simp only [endValue, haction]
    exact deletesRows_addToWrite h
  | createReplace =>
    simp only [endValue, haction]
    exact deletesRows_addToWrite h
  | delete =>
    simp only [endValue, haction]
    by_cases hexist : (r.db value.getPrimaryKey).isSome
    · rw [if_pos hexist]
      simp only [addToDelete]
      by_cases hfull : valuesPerWrite ≤ (r.valuesToDelete ++ [value]).length
      · rw [if_pos hfull]
        exact fun k hk => absurd hk List.not_mem_nil
      · rw [if_neg hfull]
        intro k hk
        rw [List.map_append, List.mem_append] at hk
        obtain hk | hk := hk
        · exact h k hk
        · obtain rfl : k = value.getPrimaryKey := List.mem_singleton.mp hk
          exact Option.isSome_iff_ne_none.mp hexist
    · rw [if_neg hexist]
      exact h

/-! ### All values -/

variable {delegator : Delegator S} {steps : List (Action × Element)}

def outcome (r : Reader S) : Database × S := (r.finish, r.sequences)

def effect (delegator : Delegator S) (s : Database × S) (step : Action × Element) :
    Except SAXException (Database × S) :=
  (step.2.value delegator s.2 step.1).map fun next => (step.1.apply next.1 s.1, next.2)

theorem sequences_endValue : (r.endValue valuesPerWrite value).sequences = r.sequences := by
  simp only [endValue, addToWrite, addToDelete]
  split <;> split_ifs <;> rfl

theorem deletesRows_next {r' : Reader S} {step : Action × Element} (h : r.DeletesRows)
    (hnext : r.next delegator valuesPerWrite step = .ok r') : r'.DeletesRows := by
  obtain ⟨next, -, rfl⟩ := Except.map_eq_ok.mp hnext
  exact deletesRows_endValue h

theorem outcome_next_iff {step : Action × Element} (h : r.DeletesRows) :
    (r.next delegator valuesPerWrite step).map outcome = effect delegator r.outcome step ↔
      ∀ next, step.2.value delegator r.sequences step.1 = .ok next →
        Finds valuesPerWrite { r with currentAction := step.1 } next.1 := by
  rw [Reader.next, effect, outcome]
  cases step.2.value delegator r.sequences step.1 with
  | error e => simp [Except.map]
  | ok next =>
    have hiff := @finish_endValue_iff S valuesPerWrite
      { r with currentAction := step.1, sequences := next.2 } next.1 h
    simp only [Except.map, outcome, Except.ok.injEq, Prod.mk.injEq, sequences_endValue, and_true,
      forall_eq']
    exact hiff

/-- **The beginnings of a document** have the effect of their elements if and only if every element
finds the lists in order. -/
theorem outcome_foldlM_iff (h : r.DeletesRows) :
    (∀ steps', steps' <+: steps →
      (steps'.foldlM (next delegator valuesPerWrite) r).map outcome =
        steps'.foldlM (effect delegator) r.outcome) ↔
      r.FindsAll delegator valuesPerWrite steps := by
  induction steps generalizing r with
  | nil =>
    simp only [FindsAll, iff_true]
    intro steps' hsteps'
    obtain rfl := List.prefix_nil.mp hsteps'
    rfl
  | cons step steps ih =>
    rw [FindsAll, ← outcome_next_iff h]
    have hcons : ∀ steps', (next delegator valuesPerWrite r step).map outcome =
        effect delegator r.outcome step →
        (((step :: steps').foldlM (next delegator valuesPerWrite) r).map outcome =
          (step :: steps').foldlM (effect delegator) r.outcome ↔
        ∀ r', r.next delegator valuesPerWrite step = .ok r' →
          (steps'.foldlM (next delegator valuesPerWrite) r').map outcome =
            steps'.foldlM (effect delegator) r'.outcome) := by
      intro steps' hone
      rw [List.foldlM_cons, List.foldlM_cons, ← hone]
      cases r.next delegator valuesPerWrite step with
      | error e => simp [Except.map, bind, Except.bind]
      | ok r' => simp [Except.map, bind, Except.bind]
    constructor
    · intro hall
      have hone : (next delegator valuesPerWrite r step).map outcome =
          effect delegator r.outcome step := by
        have hsingle := hall [step] (by simp)
        rw [List.foldlM_cons, List.foldlM_cons] at hsingle
        simpa using hsingle
      refine ⟨hone, fun r' hr' => (ih (deletesRows_next h hr')).mp fun steps' hsteps' => ?_⟩
      exact (hcons steps' hone).mp (hall _ (List.cons_prefix_cons.mpr ⟨rfl, hsteps'⟩)) r' hr'
    · rintro ⟨hone, hrest⟩ steps' hsteps'
      cases steps' with
      | nil => rfl
      | cons step' steps' =>
        obtain ⟨rfl, hprefixed⟩ := List.cons_prefix_cons.mp hsteps'
        exact (hcons steps' hone).mpr fun r' hr' =>
          (ih (deletesRows_next h hr')).mpr (hrest r' hr') steps' hprefixed

end Reader

/-! ### The events of a document -/

section Events

variable {delegator : Delegator S} {valuesPerWrite : ℕ}

theorem action?_tag (action : Action) : action? action.tag = some action := by
  cases action <;> rfl

theorem tag_ne (action : Action) : action.tag ≠ "entity-engine-xml".toList := by
  cases action <;> decide

namespace Reader

def IsIdle (r : Reader S) : Prop :=
  r.currentValue = none ∧ r.currentFieldName = none ∧ r.currentFieldValue = none

variable {r : Reader S}

theorem isIdle_endValue {value : GenericValue} (h : r.IsIdle) :
    (r.endValue valuesPerWrite value).IsIdle := by
  simp only [endValue, addToWrite, addToDelete]
  split <;> split_ifs <;> exact h

def within (r : Reader S) (value : GenericValue) (fieldName text : Option (List Char)) : Reader S :=
  { r with currentValue := some value, currentFieldName := fieldName, currentFieldValue := text }

theorem foldlM_singleton (r : Reader S) (event : SaxEvent) :
    [event].foldlM (handle delegator valuesPerWrite) r =
      handle delegator valuesPerWrite r event := by
  rw [List.foldlM_cons]
  exact bind_pure _

theorem foldlM_characters (value : GenericValue) (fieldName : List Char) (text : Option (List Char))
    (texts : List (List Char)) :
    (texts.map SaxEvent.characters).foldlM (handle delegator valuesPerWrite)
      (r.within value (some fieldName) text) =
        .ok (r.within value (some fieldName)
          (if texts = [] then text else some (text.getD [] ++ texts.flatten))) := by
  induction texts generalizing text with
  | nil => rfl
  | cons chunk texts ih =>
    have hhandle : handle delegator valuesPerWrite (r.within value (some fieldName) text)
        (.characters chunk) =
          .ok (r.within value (some fieldName) (some (text.getD [] ++ chunk))) := rfl
    rw [List.map_cons, List.foldlM_cons, hhandle]
    refine (ih _).trans ?_
    by_cases htexts : texts = []
    · simp [htexts]
    · simp [htexts]

theorem foldlM_field (field : FieldElement) (value : GenericValue) :
    field.events.foldlM (handle delegator valuesPerWrite) (r.within value none none) =
      (setField delegator value field.name field.text).map (r.within · none none) := by
  have hstart : handle delegator valuesPerWrite (r.within value none none)
      (.startElement field.name []) = .ok (r.within value (some field.name) none) := by
    simp only [handle, startElement, if_neg field.isName.1, field.isName.2]
    rfl
  have hend : handle delegator valuesPerWrite (r.within value (some field.name) field.text)
      (.endElement field.name) =
        (setField delegator value field.name field.text).map (r.within · none none) := by
    simp only [handle, endElement, if_neg field.isName.1, field.isName.2]
    rfl
  rw [FieldElement.events, List.cons_append, List.foldlM_cons, hstart]
  refine (List.foldlM_append).trans ?_
  rw [foldlM_characters]
  refine Eq.trans ?_ hend
  rw [FieldElement.text]
  exact foldlM_singleton _ _

theorem foldlM_fields (fields : List FieldElement) (value : GenericValue) :
    (fields.flatMap FieldElement.events).foldlM (handle delegator valuesPerWrite)
      (r.within value none none) =
        (fields.foldlM (fun value field => setField delegator value field.name field.text)
          value).map (r.within · none none) := by
  induction fields generalizing value with
  | nil => rfl
  | cons field fields ih =>
    rw [List.flatMap_cons, List.foldlM_append, foldlM_field, List.foldlM_cons]
    cases setField delegator value field.name field.text with
    | error e => rfl
    | ok value => exact ih value

theorem addToWrite_within (h : r.IsIdle) (value value' : GenericValue) :
    { addToWrite valuesPerWrite (r.within value none none) value' with currentValue := none } =
      addToWrite valuesPerWrite r value' := by
  obtain ⟨hvalue, hname, htext⟩ := h
  obtain ⟨_, _, _, _, values, _, _, _⟩ := r
  subst hvalue hname htext
  by_cases hfull : valuesPerWrite ≤ (values ++ [value']).length
  · simp only [addToWrite, within, hfull, if_true]
  · simp only [addToWrite, within, hfull, if_false]

theorem addToDelete_within (h : r.IsIdle) (value value' : GenericValue) :
    { addToDelete valuesPerWrite (r.within value none none) value' with currentValue := none } =
      addToDelete valuesPerWrite r value' := by
  obtain ⟨hvalue, hname, htext⟩ := h
  obtain ⟨_, _, _, _, _, values, _, _⟩ := r
  subst hvalue hname htext
  by_cases hfull : valuesPerWrite ≤ (values ++ [value']).length
  · simp only [addToDelete, within, hfull, if_true]
  · simp only [addToDelete, within, hfull, if_false]

theorem within_idle (h : r.IsIdle) (value : GenericValue) :
    { r.within value none none with currentValue := none } = r := by
  obtain ⟨hvalue, hname, htext⟩ := h
  obtain ⟨_, _, _, _, _, _, _, _⟩ := r
  subst hvalue hname htext
  rfl

theorem endValue_within (h : r.IsIdle) (value value' : GenericValue) :
    { endValue valuesPerWrite (r.within value none none) value' with currentValue := none } =
      endValue valuesPerWrite r value' := by
  have hdb : (r.within value none none).db = r.db := rfl
  have haction : (r.within value none none).currentAction = r.currentAction := rfl
  unfold endValue
  rw [hdb, haction]
  cases r.currentAction with
  | create =>
    by_cases hexist : (r.db value'.getPrimaryKey).isSome
    · simp only [hexist, if_true]
      exact within_idle h value
    · simp only [hexist]
      exact addToWrite_within h value value'
  | createUpdate => exact addToWrite_within h value value'
  | createReplace => exact addToWrite_within h value value'
  | delete =>
    by_cases hexist : (r.db value'.getPrimaryKey).isSome
    · simp only [hexist, if_true]
      exact addToDelete_within h value value'
    · simp only [hexist]
      exact within_idle h value

/-- **The events of an element** have its effect. -/
theorem foldlM_element (hidle : r.IsIdle) (element : Element) :
    element.events.foldlM (handle delegator valuesPerWrite) r =
      r.next delegator valuesPerWrite (r.currentAction, element) := by
  have hends : ∀ next : GenericValue × S, ∀ value,
      { endValue valuesPerWrite { r.within value none none with sequences := next.2 } next.1 with
        currentValue := none } = endValue valuesPerWrite { r with sequences := next.2 } next.1 :=
    fun next value => endValue_within (r := { r with sequences := next.2 }) hidle value next.1
  obtain ⟨hvalue, hname, htext⟩ := hidle
  have hstart : handle delegator valuesPerWrite r
      (.startElement element.name element.attributes) =
        (startValue delegator r.currentAction element.name element.attributes).map
          (r.within · none none) := by
    have hwithin : (fun value => { r with currentValue := some value }) =
        (r.within · none none) := by
      funext value
      rw [hname, htext]
      rfl
    simp only [handle, startElement, if_neg element.isName.1, element.isName.2, hvalue, hwithin]
  rw [Element.events, List.cons_append, List.foldlM_cons, hstart, next, Element.value]
  cases startValue delegator r.currentAction element.name element.attributes with
  | error e => rfl
  | ok value =>
    refine (List.foldlM_append).trans ?_
    rw [foldlM_fields]
    simp only [bind, Except.bind]
    cases element.fields.foldlM (fun value field =>
        setField delegator value field.name field.text) value with
    | error e => rfl
    | ok value =>
      refine (foldlM_singleton _ _).trans ?_
      simp only [handle, endElement, if_neg element.isName.1, element.isName.2]
      exact congrArg (Except.map · (withPrimaryKey delegator r.sequences value))
        (funext fun next => hends next value)

theorem isIdle_next {r' : Reader S} {step : Action × Element} (h : r.IsIdle)
    (hnext : r.next delegator valuesPerWrite step = .ok r') : r'.IsIdle := by
  obtain ⟨next, -, rfl⟩ := Except.map_eq_ok.mp hnext
  exact isIdle_endValue h

theorem currentAction_endValue {value : GenericValue} :
    (r.endValue valuesPerWrite value).currentAction = r.currentAction := by
  simp only [endValue, addToWrite, addToDelete]
  split <;> split_ifs <;> rfl

theorem foldlM_elements (h : r.IsIdle) (elements : List Element) :
    (elements.flatMap Element.events).foldlM (handle delegator valuesPerWrite) r =
      (elements.map (r.currentAction, ·)).foldlM (next delegator valuesPerWrite) r := by
  induction elements generalizing r with
  | nil => rfl
  | cons element elements ih =>
    rw [List.flatMap_cons, List.foldlM_append, foldlM_element h, List.map_cons, List.foldlM_cons]
    cases hnext : r.next delegator valuesPerWrite (r.currentAction, element) with
    | error e => rfl
    | ok r' =>
      have haction : r'.currentAction = r.currentAction := by
        obtain ⟨next, -, rfl⟩ := Except.map_eq_ok.mp hnext
        exact currentAction_endValue
      have hrest := ih (isIdle_next h hnext)
      rw [haction] at hrest
      exact hrest

def afterSection (r : Reader S) : Reader S := { r with currentAction := .createUpdate }

theorem foldlM_next_withAction (action : Action) (steps : List (Action × Element)) :
    (steps.foldlM (next delegator valuesPerWrite) { r with currentAction := action }).map
        afterSection =
      (steps.foldlM (next delegator valuesPerWrite) r).map afterSection := by
  cases steps with
  | nil => rfl
  | cons step steps => rfl

theorem isIdle_foldlM {r' : Reader S} {steps : List (Action × Element)} (h : r.IsIdle)
    (hrun : steps.foldlM (next delegator valuesPerWrite) r = .ok r') : r'.IsIdle :=
  Except.of_foldlM_eq_ok (fun _ _ _ _ hr hnext => isIdle_next hr hnext) h hrun

theorem currentAction_foldlM {r' : Reader S} {action : Action} {elements : List Element}
    (h : r.currentAction = action)
    (hrun : (elements.map (action, ·)).foldlM (next delegator valuesPerWrite) r = .ok r') :
    r'.currentAction = action := by
  refine Except.of_foldlM_eq_ok (P := fun r : Reader S => r.currentAction = action) ?_ h hrun
  intro r step r' hmem _ hnext
  obtain ⟨element, -, rfl⟩ := List.mem_map.mp hmem
  obtain ⟨next, -, rfl⟩ := Except.map_eq_ok.mp hnext
  exact currentAction_endValue

theorem afterSection_of_currentAction (h : r.currentAction = .createUpdate) :
    r.afterSection = r := by
  rw [afterSection, ← h]

/-- **The events of a section.** -/
theorem foldlM_section (h : r.IsIdle) (haction : r.currentAction = .createUpdate)
    (part : Section) :
    part.events.foldlM (handle delegator valuesPerWrite) r =
      ((Document.steps [part]).foldlM (next delegator valuesPerWrite) r).map afterSection := by
  obtain ⟨action, elements⟩ := part
  have hsteps : Document.steps [⟨action, elements⟩] =
      elements.map (action.getD .createUpdate, ·) := List.flatMap_singleton ..
  rw [hsteps]
  cases action with
  | none =>
    have hrun := @foldlM_elements S delegator valuesPerWrite r h elements
    rw [haction] at hrun
    refine hrun.trans ?_
    cases hresult : (elements.map (Action.createUpdate, ·)).foldlM
        (next delegator valuesPerWrite) r with
    | error e => simp only [Option.getD_none, hresult, Except.map]
    | ok r' =>
      simp only [Option.getD_none, hresult, Except.map,
        afterSection_of_currentAction (currentAction_foldlM haction hresult)]
  | some action =>
    have hstart : handle delegator valuesPerWrite r (.startElement action.tag []) =
        .ok { r with currentAction := action } := by
      simp only [handle, startElement, if_neg (tag_ne action), action?_tag]
    have hend : ∀ r' : Reader S, handle delegator valuesPerWrite r' (.endElement action.tag) =
        .ok r'.afterSection := by
      intro r'
      simp only [handle, endElement, if_neg (tag_ne action), action?_tag]
      rfl
    have hrun := @foldlM_elements S delegator valuesPerWrite { r with currentAction := action } h
      elements
    rw [Option.getD_some, ← foldlM_next_withAction action, ← hrun]
    dsimp only [Section.events]
    rw [List.cons_append, List.foldlM_cons, hstart]
    refine (List.foldlM_append).trans ?_
    cases (elements.flatMap Element.events).foldlM (handle delegator valuesPerWrite)
        { r with currentAction := action } with
    | error e => rfl
    | ok r' => exact (foldlM_singleton _ _).trans (hend r')

theorem foldlM_sections (h : r.IsIdle) (haction : r.currentAction = .createUpdate)
    (document : Document) :
    (document.flatMap Section.events).foldlM (handle delegator valuesPerWrite) r =
      (document.steps.foldlM (next delegator valuesPerWrite) r).map afterSection := by
  induction document generalizing r with
  | nil =>
    exact congrArg Except.ok (afterSection_of_currentAction haction).symm
  | cons part document ih =>
    have hsteps : Document.steps (part :: document) =
        Document.steps [part] ++ Document.steps document := by
      simp [Document.steps]
    rw [List.flatMap_cons, List.foldlM_append, foldlM_section h haction, hsteps,
      List.foldlM_append]
    cases hpart : (Document.steps [part]).foldlM (next delegator valuesPerWrite) r with
    | error e => rfl
    | ok r' =>
      have hidle : r'.IsIdle := isIdle_foldlM h hpart
      have hrest := @ih r'.afterSection hidle rfl
      exact hrest.trans (foldlM_next_withAction .createUpdate (Document.steps document))

end Reader

/-- **A document** is read element by element. -/
theorem parse_events (document : Document) (db : Database) (sequences : S) :
    parse delegator valuesPerWrite document.events db sequences =
      (document.steps.foldlM (Reader.next delegator valuesPerWrite) (.start db sequences)).map
        Reader.outcome := by
  have hidle : (Reader.start db sequences).IsIdle := ⟨rfl, rfl, rfl⟩
  have hstart : Reader.handle delegator valuesPerWrite (.start db sequences)
      (.startElement "entity-engine-xml".toList []) = .ok (.start db sequences) := rfl
  rw [parse, Document.events, List.cons_append, List.foldlM_cons, hstart]
  have hsections := @Reader.foldlM_sections S delegator valuesPerWrite _ hidle rfl document
  have happend := @List.foldlM_append (Except SAXException) _ _ _ _
    (Reader.handle delegator valuesPerWrite) (Reader.start db sequences)
    (document.flatMap Section.events) [.endElement "entity-engine-xml".toList]
  refine (congrArg (Except.map _) happend).trans ?_
  rw [hsections]
  cases document.steps.foldlM (Reader.next delegator valuesPerWrite) (.start db sequences) with
  | error e => rfl
  | ok r => rfl

end Events

/-! ### Documents and their elements -/

/-- **A document that is read as its elements.** It and its beginnings have the effect of their
elements, one after the other, if and only if every element finds the lists in order. -/
theorem parse_eq_sequential_iff (delegator : Delegator S) (valuesPerWrite : ℕ)
    (document : Document) (db : Database) (sequences : S) :
    (∀ beginning : Document, beginning.steps <+: document.steps →
      parse delegator valuesPerWrite beginning.events db sequences =
        sequential delegator beginning.steps db sequences) ↔
      (Reader.start db sequences).FindsAll delegator valuesPerWrite document.steps := by
  have hrows : (Reader.start db sequences).DeletesRows := fun k hk => absurd hk List.not_mem_nil
  rw [← Reader.outcome_foldlM_iff hrows]
  constructor
  · intro hall steps hsteps
    -- every beginning of the elements is that of a document
    have hsingles : Document.steps (steps.map fun step => ⟨some step.1, [step.2]⟩) = steps := by
      rw [Document.steps, List.flatMap_map]
      exact List.flatMap_singleton' steps
    have hdocument := hall (steps.map fun step => ⟨some step.1, [step.2]⟩) (by rwa [hsingles])
    rw [parse_events, hsingles] at hdocument
    exact hdocument
  · intro hall beginning hbeginning
    rw [parse_events]
    exact hall beginning.steps hbeginning

/-! ### A row that is deleted and created again -/

def notes : Delegator ℕ where
  modelEntity entityName :=
    if entityName = "Note".toList then some ⟨["noteId".toList], ["text".toList], [], []⟩ else none
  setString _ _ text := some (some (.string text))
  base64Decode text := .string text
  getNextSeqId n _ := ((toString n).toList, n + 1)
  expandString text := text

def noteKey : Key := ("Note".toList, [some (.string "1".toList)])

def oneNote : Database :=
  Function.update (fun _ => none) noteKey
    (some (Function.update (fun _ => none) "text".toList (some (.string "old".toList))))

def noteElement (attributes : List (List Char × List Char)) : Element :=
  ⟨"Note".toList, attributes, [], by decide, rfl⟩

def rewrittenNote : Document :=
  [⟨some .delete, [noteElement [("noteId".toList, "1".toList)]]⟩,
    ⟨some .createUpdate,
      [noteElement [("noteId".toList, "1".toList), ("text".toList, "new".toList)]]⟩]

def noteText (result : Except SAXException (Database × ℕ)) :
    Except SAXException (Option (Option Value)) :=
  result.map fun s => (s.1 noteKey).map (· "text".toList)

theorem parse_rewrittenNote :
    noteText (parse notes 100 rewrittenNote.events oneNote 1) = .ok none ∧
      noteText (sequential notes rewrittenNote.steps oneNote 1) =
        .ok (some (some (.string "new".toList))) ∧
      parse notes 100 rewrittenNote.events oneNote 1 ≠
        sequential notes rewrittenNote.steps oneNote 1 := by
  have hparse : noteText (parse notes 100 rewrittenNote.events oneNote 1) = .ok none := rfl
  have hsequential : noteText (sequential notes rewrittenNote.steps oneNote 1) =
      .ok (some (some (.string "new".toList))) := rfl
  refine ⟨hparse, hsequential, fun h => ?_⟩
  rw [h, hsequential] at hparse
  cases hparse

end OfficeAuto.Entity.EntitySaxReader
