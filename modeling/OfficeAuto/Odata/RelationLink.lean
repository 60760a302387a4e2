import OfficeAuto.Odata.RelationChain

/-!
# Linking rows along a chain of relations

`bindNavigationLink` and the two `createRelAliasFields` create the rows between a row and the
destination of a chain. They run from the last relation to the first: each created row gets the
conditions of its relation, the key of the row that was created before it, and at the first
relation the key of the main row.

Rows are created by services, which are looked up by the name of the entity; they are parameters
here. The user login, which every call hands on, is part of the services.
-/

namespace OfficeAuto.Odata.Relations

open Entity

/-! ### Maps of parameters -/

/-- A map of parameters: a name is absent, or has a value that may be null. -/
abbrev ParamMap := FieldName → Option (Option Value)

def putAll (map : ParamMap) (fields : FieldMap) : ParamMap :=
  fields.foldl (fun map field => Function.update map field.1 (some field.2)) map

def ParamMap.getValue (map : ParamMap) (name : FieldName) : Option Value :=
  (map name).join

/-! ### Services -/

inductive LinkException
  | entity (e : EntityException)
  | noService (entityName : EntityName)
  | service (message : List Char)
  deriving DecidableEq

structure ServiceResult where
  pkMap : Option FieldMap
  result : ParamMap

structure ModelService where
  allParamNames : List FieldName
  requiredParamNames : List FieldName
  runSync : ParamMap → Database → Except LinkException (ServiceResult × Database)

/-- The services of entities, where they are defined. -/
structure Services where
  create : EntityName → Option ModelService
  update : EntityName → Option ModelService

/-- `UtilValidate.isEmpty` of a value. -/
def isEmptyValue : Option Value → Bool
  | none => true
  | some (.string s) => s.isEmpty
  | some _ => false

namespace ModelService

variable (service : ModelService)

def prepareServiceParameters (valueMap : ParamMap) : ParamMap := fun name =>
  if service.allParamNames.contains name then valueMap name else none

/-- The key of the created row: the result of the service has it, or its parts are taken from the
result and from the parameters. -/
def retrievePkMap (db : Database) (fieldMap : ParamMap) (result : ServiceResult)
    (entityName : EntityName) : Except LinkException FieldMap :=
  match result.pkMap, db.modelEntity entityName with
  | some pkMap, _ => .ok pkMap
  | none, none => .error (.entity .nullPointer)
  | none, some modelEntity =>
    .ok (modelEntity.pkFieldNames.map fun pkFieldName =>
      (pkFieldName, (result.result.getValue pkFieldName).or (fieldMap.getValue pkFieldName)))

def createGenericValue (entityName : EntityName) (fieldMap : ParamMap) (db : Database) :
    Except LinkException (Option GenericValue × Database) :=
  (service.runSync fieldMap db).bind fun (result, db') =>
    (retrievePkMap db' fieldMap result entityName).bind fun pkMap =>
      ((db'.findOne entityName pkMap).mapError .entity).map fun row => (row, db')

def addRequiredParams (db : Database) (genericValue : GenericValue) (fieldMap : ParamMap) :
    ParamMap := fun name =>
  if service.requiredParamNames.contains name && (fieldMap name).isNone &&
      db.hasField genericValue name then some (genericValue.fields name) else fieldMap name

end ModelService

section Code

variable (services : Services) (relAlias : EntityTypeRelAlias)

def getEntityActionService (service : Option ModelService) (entityName : EntityName) :
    Except LinkException ModelService :=
  match service with
  | none => .error (.noService entityName)
  | some service => .ok service

def updateGenericValue (entityName : EntityName) (keyMap fieldMap : FieldMap) (db : Database) :
    Except LinkException Database :=
  ((db.findOne entityName keyMap).mapError .entity).bind fun genericValue =>
    (getEntityActionService (services.update entityName) entityName).bind fun service =>
      let serviceInMap :=
        putAll (service.prepareServiceParameters (putAll (fun _ => none) fieldMap)) keyMap
      let serviceInMap := match genericValue with
        | none => serviceInMap
        | some genericValue => service.addRequiredParams db genericValue serviceInMap
      (service.runSync serviceInMap db).bind fun (_, db') =>
        ((db'.findOne entityName keyMap).mapError .entity).map fun _ => db'

/-! ### The loop -/

/-- Where the loop stands: the row that was created last, and the relation that leads to it. -/
structure LinkState where
  database : Database
  destGenericValue : Option GenericValue
  createdGenericValue : Option GenericValue
  nextModelRelation : Option ModelRelation

/-- The loop from the last relation to the first. A round is told whether its relation is the first
and whether it is the last. -/
def backward (round : Bool → Bool → RelationName → LinkState → Except LinkException LinkState) :
    Bool → List RelationName → LinkState → Except LinkException LinkState
  | _, [], state => .ok state
  | first, relation :: relations, state =>
    (backward round false relations state).bind (round first relations.isEmpty relation)

def relationPossibleKeyMap (source : GenericValue) (names : List (FieldName × FieldName)) :
    FieldMap :=
  names.filterMap fun name => (source.fields name.1).map fun value => (name.2, some value)

def mainKeys (genericValue : GenericValue) (modelRelation : ModelRelation) : FieldMap :=
  relationPossibleKeyMap genericValue
    (modelRelation.keyMaps.map fun keyMap => (keyMap.fieldName, keyMap.relFieldName))

def nextKeys (createdGenericValue : GenericValue) (nextModelRelation : ModelRelation) : FieldMap :=
  relationPossibleKeyMap createdGenericValue
    (nextModelRelation.keyMaps.map fun keyMap => (keyMap.relFieldName, keyMap.fieldName))

def LinkState.keysToNext (state : LinkState) : FieldMap :=
  match state.nextModelRelation, state.createdGenericValue with
  | some nextModelRelation, some createdGenericValue =>
    nextKeys createdGenericValue nextModelRelation
  | _, _ => []

/-- The values for the row of a relation: the conditions of the relation, given fields, the key of
the main row at the first relation, and the key of the row created before. -/
def createEntityMap (relation : RelationName) (fieldMap keysOfMain : FieldMap)
    (state : LinkState) : ParamMap :=
  putAll (putAll (putAll (putAll (fun _ => none) (relAlias.relationsFieldMap relation)) fieldMap)
    keysOfMain) state.keysToNext

def serviceParams (service : ModelService) (relation : RelationName)
    (fieldMap keysOfMain : FieldMap) (state : LinkState) : ParamMap :=
  service.prepareServiceParameters (createEntityMap relAlias relation fieldMap keysOfMain state)

/-- The row with the primary key in the parameters, if that is complete. -/
def findExisting (db : Database) (entityName : EntityName) (serviceParams : ParamMap) :
    Except LinkException (Option GenericValue) :=
  match db.modelEntity entityName with
  | none => .error (.entity .nullPointer)
  | some modelEntity =>
    if modelEntity.pkFieldNames.any fun pkFieldName =>
        isEmptyValue (serviceParams.getValue pkFieldName) then .ok none
    else (db.findOne entityName (modelEntity.pkFieldNames.map fun pkFieldName =>
      (pkFieldName, serviceParams.getValue pkFieldName))).mapError .entity

/-- The row for the parameters, which is created if no row is to be reused. -/
def obtainRow (reuse : Bool) (service : ModelService) (entityName : EntityName)
    (serviceParams : ParamMap) (db : Database) :
    Except LinkException (Option GenericValue × Database) :=
  if reuse then
    (findExisting db entityName serviceParams).bind fun existGenericValue =>
      match existGenericValue with
      | some row => .ok (some row, db)
      | none => service.createGenericValue entityName serviceParams db
  else service.createGenericValue entityName serviceParams db

def createRound (reuse putsMain : Bool) (genericValue : GenericValue) (relation : RelationName)
    (fieldMap : FieldMap) (state : LinkState) : Except LinkException LinkState :=
  match relAlias.relationsEntity relation with
  | none => .error (.entity .nullPointer)
  | some modelRelation =>
    let entityName := modelRelation.relEntityName
    (getEntityActionService (services.create entityName) entityName).bind fun service =>
      (obtainRow reuse service entityName
        (serviceParams relAlias service relation fieldMap
          (if putsMain then mainKeys genericValue modelRelation else []) state)
        state.database).map fun (createdGenericValue, db) =>
          { database := db
            destGenericValue := state.destGenericValue.or createdGenericValue
            createdGenericValue := createdGenericValue
            nextModelRelation := some modelRelation }

def LinkState.start (db : Database) : LinkState where
  database := db
  destGenericValue := none
  createdGenericValue := none
  nextModelRelation := none

/-! ### The functions -/

/-- A round of `bindNavigationLink`: the row of the last relation exists. -/
def bindRound (genericValue nestedGenericValue : GenericValue) (first last : Bool)
    (relation : RelationName) (state : LinkState) : Except LinkException LinkState :=
  if last then
    .ok { state with
      createdGenericValue := some nestedGenericValue
      nextModelRelation := relAlias.relationsEntity relation }
  else createRound services relAlias false first genericValue relation [] state

def bindNavigationLink (genericValue nestedGenericValue : GenericValue) (db : Database) :
    Except LinkException Database :=
  if relAlias.relations.length < 2 then .ok db
  else
    (backward (bindRound services relAlias genericValue nestedGenericValue) true relAlias.relations
      (.start db)).map LinkState.database

structure CsdlProperty where
  name : FieldName
  ofbizFieldName : FieldName
  relAlias : Option (List Char)

def propertiesOf (properties : List CsdlProperty) : List CsdlProperty :=
  properties.filter fun property => property.relAlias = some relAlias.name

def createAllRound (reuse mainKeysWithLast : Bool) (genericValue : GenericValue)
    (fieldMap : FieldMap) (first last : Bool) (relation : RelationName) (state : LinkState) :
    Except LinkException LinkState :=
  createRound services relAlias reuse (first && (mainKeysWithLast || !last)) genericValue relation
    (if last then fieldMap else []) state

/-- The loop of `createRelAliasFields`, which is left in its first round if all fields are null. -/
def createAll (reuse mainKeysWithLast : Bool) (genericValue : GenericValue) (fieldMap : FieldMap)
    (db : Database) : Except LinkException (Option LinkState) :=
  match relAlias.relations.getLast?.map relAlias.relationsEntity with
  | some none => .error (.entity .nullPointer)
  | some (some _) =>
    if fieldMap.all fun field => field.2.isNone then .ok none
    else
      (backward (createAllRound services relAlias reuse mainKeysWithLast genericValue fieldMap) true
        relAlias.relations (.start db)).map some
  | none => .ok (some (.start db))

def draftFields (draftGenericValue : GenericValue) (properties : List CsdlProperty) : FieldMap :=
  (propertiesOf relAlias properties).filterMap fun property =>
    (draftGenericValue.fields property.name).map fun value => (property.ofbizFieldName, some value)

/-- `createRelAliasFields` from a draft. With the last relation the key of the main row is not put,
also if it is the first one too. -/
def createRelAliasFieldsOfDraft (draftGenericValue genericValue : GenericValue)
    (properties : List CsdlProperty) (db : Database) :
    Except LinkException (Option GenericValue × Database) :=
  (createAll services relAlias false false genericValue
    (draftFields relAlias draftGenericValue properties) db).map fun state =>
      match state with
      | none => (none, db)
      | some state => (state.destGenericValue, state.database)

def mainEntityFk (modelRelation : ModelRelation) (destGenericValue : GenericValue) : FieldMap :=
  if modelRelation.isOne then
    modelRelation.keyMaps.map fun keyMap =>
      (keyMap.fieldName, destGenericValue.fields keyMap.relFieldName)
  else []

def entityFields (entityToWrite : ParamMap) (properties : List CsdlProperty) : FieldMap :=
  (propertiesOf relAlias properties).filterMap fun property =>
    (entityToWrite property.name).map fun value => (property.ofbizFieldName, value)

/-- `createRelAliasFields` from the properties of an entity. A row with a complete key is not
created again. With one relation, a foreign key of the main row is set. -/
def createRelAliasFieldsOfEntity (entityToWrite : ParamMap) (genericValue : GenericValue)
    (keyMap : FieldMap) (properties : List CsdlProperty) (db : Database) :
    Except LinkException (Option GenericValue × Database) :=
  (createAll services relAlias true true genericValue
    (entityFields relAlias entityToWrite properties) db).bind fun state =>
      match state with
      | none => .ok (none, db)
      | some state =>
        match relAlias.relations, state.destGenericValue with
        | [relation], some destGenericValue =>
          match relAlias.relationsEntity relation with
          | none => .error (.entity .nullPointer)
          | some modelRelation =>
            match mainEntityFk modelRelation destGenericValue with
            | [] => .ok (some destGenericValue, state.database)
            | field :: fields =>
              (updateGenericValue services genericValue.entityName keyMap (field :: fields)
                state.database).map fun db' => (some destGenericValue, db')
        | _, destGenericValue => .ok (destGenericValue, state.database)

end Code

end OfficeAuto.Odata.Relations
