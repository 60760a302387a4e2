import OfficeAuto.Entity.Condition

/-!
# Rows and their relations

What the OData layer reads of the entity engine: the row of a key (`findOne`), the rows that a
relation leads to from a row (`getRelated`, and `getRelatedOne` where there is at most one), and
those among them that are valid now (`filterByDate`). A relation maps fields of its own entity to
fields of the related one.

Rows are read as they are in the database; the caches in front of it are not part of the model.
-/

namespace OfficeAuto.Odata.Relations

open Entity

abbrev EntityName := List Char

abbrev RelationName := List Char

/-! ### Models -/

structure ModelKeyMap where
  fieldName : FieldName
  relFieldName : FieldName
  deriving DecidableEq

/-- A relation; `isOne` is that its type contains `one`. -/
structure ModelRelation where
  isOne : Bool
  relEntityName : EntityName
  keyMaps : List ModelKeyMap
  deriving DecidableEq

structure ModelEntity where
  allFieldNames : List FieldName
  pkFieldNames : List FieldName
  isView : Bool
  relation : RelationName → Option ModelRelation

/-- A row of an entity. -/
structure GenericValue where
  entityName : EntityName
  fields : Row

/-- The models, the rows, and the time. -/
structure Database where
  modelEntity : EntityName → Option ModelEntity
  rows : List GenericValue
  nowTimestamp : Timestamp

inductive EntityException
  | nullPointer
  | illegalArgument
  | classCast
  | indexOutOfBounds
  | genericModel
  deriving DecidableEq

/-! ### Reading -/

abbrev FieldMap := List (FieldName × Option Value)

def GenericValue.hasFields (value : GenericValue) (entityName : EntityName) (fields : FieldMap) :
    Bool :=
  value.entityName = entityName && fields.all fun entry => value.fields entry.1 = entry.2

namespace Database

variable (db : Database)

def findOne (entityName : EntityName) (fields : FieldMap) :
    Except EntityException (Option GenericValue) :=
  match db.modelEntity entityName with
  | none => .error .illegalArgument
  | some modelEntity =>
    if (fields.all fun entry => modelEntity.pkFieldNames.contains entry.1) &&
        modelEntity.pkFieldNames.all fun pk => fields.any fun entry => entry.1 = pk then
      .ok (db.rows.find? fun row => row.hasFields entityName fields)
    else .error .genericModel

def getRelation (value : GenericValue) (relation : RelationName) : Option ModelRelation :=
  (db.modelEntity value.entityName).bind fun modelEntity => modelEntity.relation relation

def keyFields (value : GenericValue) (modelRelation : ModelRelation) : FieldMap :=
  modelRelation.keyMaps.map fun keyMap => (keyMap.relFieldName, value.fields keyMap.fieldName)

def overridden (byAndFields fields : FieldMap) : FieldMap :=
  (byAndFields.filter fun entry => !fields.any fun field => field.1 = entry.1) ++ fields

def getRelated (value : GenericValue) (relation : RelationName) (byAndFields : FieldMap) :
    Except EntityException (List GenericValue) :=
  match db.getRelation value relation with
  | none => .error .genericModel
  | some modelRelation =>
    .ok (db.rows.filter fun row => row.hasFields modelRelation.relEntityName
      (overridden byAndFields (keyFields value modelRelation)))

def getRelatedOne (value : GenericValue) (relation : RelationName) :
    Except EntityException (Option GenericValue) :=
  match db.getRelation value relation with
  | none => .error .genericModel
  | some modelRelation =>
    if modelRelation.isOne then
      db.findOne modelRelation.relEntityName (keyFields value modelRelation)
    else .error .genericModel

end Database

/-! ### Validity -/

def isBefore (t moment : Timestamp) : Bool :=
  t.getTime < moment.getTime || t.getTime = moment.getTime && t.nanosBelow < moment.nanosBelow

def GenericValue.getTimestamp (value : GenericValue) (name : FieldName) : Option Timestamp :=
  match value.fields name with
  | some (.timestamp t) => some t
  | _ => none

def GenericValue.isActive (value : GenericValue) (moment : Timestamp) : Bool :=
  ((value.getTimestamp "thruDate".toList).all fun thruDate => isBefore moment thruDate) &&
    (value.getTimestamp "fromDate".toList).all fun fromDate =>
      isBefore fromDate moment || fromDate = moment

def Database.hasField (db : Database) (value : GenericValue) (name : FieldName) : Bool :=
  (db.modelEntity value.entityName).any fun modelEntity => modelEntity.allFieldNames.contains name

/-- `EntityUtil.filterByDate`, which looks at the fields of the first row. -/
def Database.filterByDate (db : Database) (datedValues : List GenericValue) :
    Except EntityException (List GenericValue) :=
  match datedValues with
  | [] => .ok []
  | datedValue :: _ =>
    if db.hasField datedValue "fromDate".toList && db.hasField datedValue "thruDate".toList then
      .ok (datedValues.filter fun value => value.isActive db.nowTimestamp)
    else .error .illegalArgument

/-! ### Chains of relations -/

/-- A chain of relations with a name. The fields of a relation are the conditions on its rows. The
models of the relations are found as the alias is loaded. -/
structure EntityTypeRelAlias where
  name : List Char
  relations : List RelationName
  relationsFieldMap : RelationName → FieldMap
  relationsEntity : RelationName → Option ModelRelation

end OfficeAuto.Odata.Relations
