import Mathlib.Algebra.Ring.Nat
import OfficeAuto.Logic.InPlace
import OfficeAuto.Odata.RelationStore

/-!
# Fields of listed entities

After a query, `proceEntityListWithAttribute` and `proceEntityListWithRelField` go over the entities
of the answer and add properties to each: the attributes, which are rows of entities of their own,
and the fields of rows that a chain of relations leads to. Both are loops that change the elements
of a list, in the sense of `InPlace`. What they leave of the list counts also where they throw,
since the entities are changed in place; the entities of a list are objects of their own.

Both loops return at the first draft, and the first one also at an entity without a row. So an
entity is not treated as it is alone if it comes after such a one (`proceEntityList_pointwise`).
-/

namespace OfficeAuto.Odata.Relations

open Entity Decimal InPlace

/-! ### Entities -/

/-- The value of a property. -/
inductive PropertyValue
  | null
  | value (v : Value)
  | boolean (b : Bool)
  deriving DecidableEq

structure Property where
  type : List Char
  name : List Char
  value : PropertyValue
  deriving DecidableEq

structure OdataOfbizEntity where
  isDraft : Bool
  genericValue : Option GenericValue
  properties : List Property

def OdataOfbizEntity.addProperty (entity : OdataOfbizEntity) (property : Property) :
    OdataOfbizEntity :=
  { entity with properties := entity.properties ++ [property] }

structure OfbizCsdlProperty where
  name : List Char
  type : List Char
  ofbizFieldName : FieldName
  isAttribute : Bool
  isNumericAttribute : Bool
  isDateAttribute : Bool
  scale : Option ℤ
  relAlias : Option EntityTypeRelAlias

structure OfbizCsdlEntityType where
  ofbizEntity : EntityName
  attrEntityName : EntityName
  attrNumericEntityName : EntityName
  attrDateEntityName : EntityName
  properties : List OfbizCsdlProperty

/-! ### Values of rows -/

def ofOption : Option Value → PropertyValue
  | none => .null
  | some v => .value v

/-- `GenericValue.get`. -/
def Database.get (db : Database) (value : GenericValue) (name : FieldName) :
    Except EntityException (Option Value) :=
  if db.hasField value name then .ok (value.fields name) else .error .illegalArgument

def isLetter (s : List Char) (letter : Char) : Bool := s.map Char.toUpper = [letter]

/-- `GenericValue.getBoolean`. -/
def Database.getBoolean (db : Database) (value : GenericValue) (name : FieldName) :
    Except EntityException PropertyValue :=
  (db.get value name).bind fun
    | none => .ok .null
    | some (.string s) =>
      -- the letters are compared without a look at their case
      if isLetter s 'Y' || isLetter s 'T' then .ok (.boolean true)
      else if isLetter s 'N' || isLetter s 'F' then .ok (.boolean false)
      else .error .illegalArgument
    | some _ => .error .illegalArgument

/-- `GenericValue.getString`, with the text of a timestamp as a parameter. -/
def Database.getString (db : Database) (timestampText : Timestamp → List Char)
    (value : GenericValue) (name : FieldName) : Except EntityException PropertyValue :=
  (db.get value name).bind fun
    | none => .ok .null
    | some (.string s) => .ok (.value (.string s))
    | some (.long n) => .ok (.value (.string (showInt n)))
    | some (.bigDecimal b) => .ok (.value (.string b.toString))
    | some (.timestamp t) => .ok (.value (.string (timestampText t)))

/-- `GenericValue.getBigDecimal`, whose result the callers use without a look at null. -/
def Database.getBigDecimal (db : Database) (value : GenericValue) (name : FieldName) :
    Except EntityException BigDecimal :=
  (db.get value name).bind fun
    | none => .error .nullPointer
    | some (.bigDecimal b) => .ok b
    | some _ => .error .classCast

/-- `GenericValue.getTimestamp`, as a property. -/
def Database.getTimestamp (db : Database) (value : GenericValue) (name : FieldName) :
    Except EntityException PropertyValue :=
  (db.get value name).bind fun
    | none => .ok .null
    | some (.timestamp t) => .ok (.value (.timestamp t))
    | some _ => .error .classCast

def setScaleDown (b : BigDecimal) (newScale : ℤ) : BigDecimal :=
  -- the scale may be negative, and what is cut off is dropped
  if b.scale ≤ newScale then ⟨b.unscaled * 10 ^ (newScale - b.scale).toNat, newScale⟩
  else ⟨b.unscaled.tdiv (10 ^ (b.scale - newScale).toNat), newScale⟩

/-- The unscaled value without `fuel` zeros at its end, and how many of them there were. -/
def dropZeros : ℕ → ℤ → ℤ × ℕ
  | 0, n => (n, 0)
  | fuel + 1, n =>
    if n.tmod 10 = 0 then ((dropZeros fuel (n.tdiv 10)).1, (dropZeros fuel (n.tdiv 10)).2 + 1)
    else (n, 0)

def stripTrailingZeros (b : BigDecimal) : BigDecimal :=
  if b.unscaled = 0 then ⟨0, 0⟩
  else ⟨(dropZeros b.coeff.length b.unscaled).1, b.scale - (dropZeros b.coeff.length b.unscaled).2⟩

def longValue (b : BigDecimal) : ℤ := (setScaleDown b 0).unscaled.bmod (2 ^ 64)

/-! ### Attributes -/

section Attributes

variable (db : Database) (timestampText : Timestamp → List Char) (type : OfbizCsdlEntityType)

namespace OfbizCsdlEntityType

def attrProperties : List OfbizCsdlProperty :=
  type.properties.filter fun property =>
    property.isAttribute || property.isNumericAttribute || property.isDateAttribute

def attrEntity (attrProperty : OfbizCsdlProperty) : EntityName :=
  if attrProperty.isAttribute then type.attrEntityName
  else if attrProperty.isNumericAttribute then type.attrNumericEntityName
  else type.attrDateEntityName

end OfbizCsdlEntityType

/-- The key of an attribute; the name of the attribute replaces an equal field. -/
def attrMapKey (attrPk : FieldName) (value : Option Value) (attrPropertyName : List Char) :
    FieldMap :=
  if attrPk = "attrName".toList then [(attrPk, some (.string attrPropertyName))]
  else [(attrPk, value), ("attrName".toList, some (.string attrPropertyName))]

def attrGenericValue (genericValue : GenericValue) (attrProperty : OfbizCsdlProperty) :
    Except EntityException (Option GenericValue) :=
  match db.modelEntity (type.attrEntity attrProperty) with
  | none => .error .nullPointer
  | some attrModelEntity =>
    match attrModelEntity.pkFieldNames with
    | [] => .error .illegalArgument
    | attrPk :: _ =>
      (db.get genericValue attrPk).bind fun value =>
        db.findOne (type.attrEntity attrProperty) (attrMapKey attrPk value attrProperty.name)

def attrValue (attrProperty : OfbizCsdlProperty) (attrGenericValue : GenericValue) :
    Except EntityException PropertyValue :=
  if attrProperty.isAttribute then
    if "Boolean".toList <:+: attrProperty.type then
      db.getBoolean attrGenericValue "attrValue".toList
    else db.getString timestampText attrGenericValue "attrValue".toList
  else if attrProperty.isNumericAttribute then
    (db.getBigDecimal attrGenericValue "attrValue".toList).map fun attrValue =>
      if attrProperty.type = "Edm.Int64".toList then .value (.long (longValue attrValue))
      else
        match attrProperty.scale with
        | none => .value (.bigDecimal (stripTrailingZeros attrValue))
        | some scale => .value (.bigDecimal (stripTrailingZeros (setScaleDown attrValue scale)))
  else db.getTimestamp attrGenericValue "attrValue".toList

def attributeProperty (genericValue : GenericValue) (attrProperty : OfbizCsdlProperty) :
    Except EntityException (Option Property) :=
  (attrGenericValue db type genericValue attrProperty).bind fun
    | none => .ok none
    | some row => (attrValue db timestampText attrProperty row).map fun value =>
        some ⟨attrProperty.type, attrProperty.name, value⟩

def attributeTurn (entity : OdataOfbizEntity) : Turn OdataOfbizEntity EntityException :=
  if entity.isDraft then .leave entity
  else
    match entity.genericValue with
    | none => .leave entity
    | some genericValue =>
      addAll (attributeProperty db timestampText type genericValue) OdataOfbizEntity.addProperty
        type.attrProperties entity

def proceEntityListWithAttribute (entityList : List OdataOfbizEntity) :
    List OdataOfbizEntity × Option EntityException :=
  run (attributeTurn db timestampText type) entityList

end Attributes

/-! ### Fields of related rows -/

section RelFields

variable (db : Database) (type : OfbizCsdlEntityType)

def OfbizCsdlEntityType.relFieldProperties : List (OfbizCsdlProperty × EntityTypeRelAlias) :=
  type.properties.filterMap fun property =>
    property.relAlias.map fun relAlias => (property, relAlias)

def firstRelated (value : GenericValue) (relation : RelationName) (relFieldMap : FieldMap) :
    Except EntityException (Option GenericValue) :=
  (db.getRelated value relation relFieldMap).bind fun relGenericValues =>
    match relGenericValues with
    | [] => .ok none
    | first :: _ =>
      if db.hasField first "fromDate".toList || db.hasField first "thruDate".toList then
        (db.filterByDate relGenericValues).map List.head?
      else .ok (some first)

/-- The row at the end of a chain. Its model is null if it is not known. -/
def walkRelations (relAlias : EntityTypeRelAlias) :
    List RelationName → Option ModelEntity → Option GenericValue →
      Except EntityException (Option GenericValue)
  | [], _, relGenericValue => .ok relGenericValue
  | relation :: relations, theModelEntity, relGenericValue =>
    match theModelEntity.bind fun modelEntity => modelEntity.relation relation with
    | none => .error .nullPointer
    | some modelRelation =>
      match relGenericValue with
      | none => .error .nullPointer
      | some value =>
        (if modelRelation.isOne then db.getRelatedOne value relation
          else firstRelated db value relation (relAlias.relationsFieldMap relation)).bind fun
          | none => .ok none
          | some related =>
            walkRelations relAlias relations (db.modelEntity modelRelation.relEntityName)
              (some related)

def Database.getPrimaryKey (value : GenericValue) : FieldMap :=
  match db.modelEntity value.entityName with
  | none => []
  | some modelEntity => modelEntity.pkFieldNames.map fun pk => (pk, value.fields pk)

def relFieldRow (genericValue : Option GenericValue) (relAlias : EntityTypeRelAlias) :
    Except EntityException (Option GenericValue) :=
  match db.modelEntity type.ofbizEntity, genericValue with
  | some modelEntity, some value =>
    (db.findOne type.ofbizEntity (db.getPrimaryKey value)).bind fun relGenericValue =>
      walkRelations db relAlias relAlias.relations (some modelEntity) relGenericValue
  | _, _ => .error .nullPointer

def relFieldProperty (genericValue : Option GenericValue)
    (entry : OfbizCsdlProperty × EntityTypeRelAlias) : Except EntityException (Option Property) :=
  (relFieldRow db type genericValue entry.2).bind fun
    | none => .ok none
    | some row =>
      (if "Boolean".toList <:+: entry.1.type then db.getBoolean row entry.1.ofbizFieldName
        else (db.get row entry.1.ofbizFieldName).map ofOption).map fun fieldValue =>
          some ⟨entry.1.type, entry.1.name, fieldValue⟩

def relFieldTurn (entity : OdataOfbizEntity) : Turn OdataOfbizEntity EntityException :=
  if entity.isDraft then .leave entity
  else
    addAll (relFieldProperty db type entity.genericValue) OdataOfbizEntity.addProperty
      type.relFieldProperties entity

def proceEntityListWithRelField (entityList : List OdataOfbizEntity) :
    List OdataOfbizEntity × Option EntityException :=
  run (relFieldTurn db type) entityList

end RelFields

/-! ### One entity and the others -/

section Pointwise

variable (db : Database) (timestampText : Timestamp → List Char) (type : OfbizCsdlEntityType)
  (entity : OdataOfbizEntity)

/-- Every entity of a list has the properties that it has if it is alone. -/
def Pointwise (proceEntityList : List OdataOfbizEntity →
    List OdataOfbizEntity × Option EntityException) (entityList : List OdataOfbizEntity) : Prop :=
  (proceEntityList entityList).1 = entityList.flatMap fun entity => (proceEntityList [entity]).1

/-- An attribute of the entity has a row, and no attribute before it throws. -/
def HasAttribute : Prop :=
  entity.isDraft = false ∧ ∃ genericValue, entity.genericValue = some genericValue ∧
    Finds (attributeProperty db timestampText type genericValue) type.attrProperties

/-- The loop over attributes ends with the entity: it is a draft, has no row, or throws. -/
def EndsAttributes : Prop :=
  entity.isDraft = true ∨ entity.genericValue = none ∨
    ∃ genericValue, entity.genericValue = some genericValue ∧
      Throws (attributeProperty db timestampText type genericValue) type.attrProperties

/-- A field of a related row exists for the entity, and no field before it throws. -/
def HasRelField : Prop :=
  entity.isDraft = false ∧
    Finds (relFieldProperty db type entity.genericValue) type.relFieldProperties

/-- The loop over fields of related rows ends with the entity: it is a draft, or throws. -/
def EndsRelFields : Prop :=
  entity.isDraft = true ∨
    Throws (relFieldProperty db type entity.genericValue) type.relFieldProperties

/-- No entity that ends a loop comes before one that has something to add. -/
def NoneCutOff (ends has : OdataOfbizEntity → Prop) (entityList : List OdataOfbizEntity) : Prop :=
  ∀ before entity after, entityList = before ++ entity :: after → ends entity →
    ∀ later ∈ after, ¬ has later

end Pointwise

section Proofs

variable {db : Database} {timestampText : Timestamp → List Char} {type : OfbizCsdlEntityType}
  {entity : OdataOfbizEntity} {turn : OdataOfbizEntity → Turn OdataOfbizEntity EntityException}
  {ends has : OdataOfbizEntity → Prop} {entityList : List OdataOfbizEntity}

theorem length_properties_lt (entity : OdataOfbizEntity) (property : Property) :
    entity.properties.length < (entity.addProperty property).properties.length := by
  rw [OdataOfbizEntity.addProperty, List.length_append]
  exact Nat.lt_succ_self _

theorem pointwise_run_iff (hends : ∀ entity, (turn entity).ends = true ↔ ends entity)
    (hhas : ∀ entity, (turn entity).element ≠ entity ↔ has entity) :
    Pointwise (run turn) entityList ↔ NoneCutOff ends has entityList := by
  have halone : (entityList.flatMap fun entity => (run turn [entity]).1) =
      entityList.map fun entity => (turn entity).element := by
    simp only [run_singleton]
    exact List.flatMap_pure_eq_map _ _
  rw [Pointwise, halone, run_eq_map_iff]
  unfold NoneCutOff
  simp only [hends, ← hhas, not_not]

theorem ends_attributeTurn :
    (attributeTurn db timestampText type entity).ends = true ↔
      EndsAttributes db timestampText type entity := by
  unfold attributeTurn EndsAttributes
  cases hdraft : entity.isDraft with
  | true => exact iff_of_true rfl (.inl rfl)
  | false =>
    cases hvalue : entity.genericValue with
    | none => exact iff_of_true rfl (.inr (.inl rfl))
    | some genericValue => simp [ends_addAll]

theorem element_attributeTurn :
    (attributeTurn db timestampText type entity).element ≠ entity ↔
      HasAttribute db timestampText type entity := by
  unfold attributeTurn HasAttribute
  cases hdraft : entity.isDraft with
  | true => exact iff_of_false (not_not_intro rfl) fun h => by cases h.1
  | false =>
    cases hvalue : entity.genericValue with
    | none => exact iff_of_false (not_not_intro rfl) fun ⟨_, _, h, _⟩ => by cases h
    | some genericValue =>
      have hne : (addAll (attributeProperty db timestampText type genericValue)
          OdataOfbizEntity.addProperty type.attrProperties entity).element ≠ entity ↔
          Finds (attributeProperty db timestampText type genericValue) type.attrProperties :=
        element_addAll_ne_iff length_properties_lt
      simpa using hne

theorem ends_relFieldTurn :
    (relFieldTurn db type entity).ends = true ↔ EndsRelFields db type entity := by
  unfold relFieldTurn EndsRelFields
  cases hdraft : entity.isDraft with
  | true => exact iff_of_true rfl (.inl rfl)
  | false => simp [ends_addAll]

theorem element_relFieldTurn :
    (relFieldTurn db type entity).element ≠ entity ↔ HasRelField db type entity := by
  unfold relFieldTurn HasRelField
  cases hdraft : entity.isDraft with
  | true => exact iff_of_false (not_not_intro rfl) fun h => by cases h.1
  | false =>
    have hne : (addAll (relFieldProperty db type entity.genericValue)
        OdataOfbizEntity.addProperty type.relFieldProperties entity).element ≠ entity ↔
        Finds (relFieldProperty db type entity.genericValue) type.relFieldProperties :=
      element_addAll_ne_iff length_properties_lt
    simpa using hne

/-- **Both loops treat every entity as if it were alone** exactly if no entity at which they end
comes before one that they would add something to. -/
theorem proceEntityList_pointwise (db : Database) (timestampText : Timestamp → List Char)
    (type : OfbizCsdlEntityType) (entityList : List OdataOfbizEntity) :
    (Pointwise (proceEntityListWithAttribute db timestampText type) entityList ↔
      NoneCutOff (EndsAttributes db timestampText type) (HasAttribute db timestampText type)
        entityList) ∧
    (Pointwise (proceEntityListWithRelField db type) entityList ↔
      NoneCutOff (EndsRelFields db type) (HasRelField db type) entityList) :=
  ⟨pointwise_run_iff (fun _ => ends_attributeTurn) fun _ => element_attributeTurn,
    pointwise_run_iff (fun _ => ends_relFieldTurn) fun _ => element_relFieldTurn⟩

/-! ### A draft before a product -/

def productFields : List (FieldName × Value) :=
  [("productId".toList, .string "WG-1111".toList)]

def productAttributeFields : List (FieldName × Value) :=
  [("productId".toList, .string "WG-1111".toList), ("attrName".toList, .string "color".toList),
    ("attrValue".toList, .string "red".toList)]

def rowOf (entityName : EntityName) (fields : List (FieldName × Value)) : GenericValue :=
  ⟨entityName, fun name => fields.lookup name⟩

def productModel : ModelEntity :=
  ⟨["productId".toList], ["productId".toList], false, fun _ => none⟩

def productAttributeModel : ModelEntity :=
  ⟨["productId".toList, "attrName".toList, "attrValue".toList],
    ["productId".toList, "attrName".toList], false, fun _ => none⟩

theorem isLong_epoch : Decimal.IsLong 0 := by decide

def atEpoch : Timestamp := .ofMillis 0 isLong_epoch

def productDatabase : Database where
  modelEntity entityName :=
    if entityName = "Product".toList then some productModel
    else if entityName = "ProductAttribute".toList then some productAttributeModel
    else none
  rows := [rowOf "Product".toList productFields,
    rowOf "ProductAttribute".toList productAttributeFields]
  nowTimestamp := atEpoch

def productType : OfbizCsdlEntityType :=
  ⟨"Product".toList, "ProductAttribute".toList, [], [],
    [⟨"color".toList, "Edm.String".toList, "color".toList, true, false, false, none, none⟩]⟩

def draftProduct : OdataOfbizEntity := ⟨true, some (rowOf "DraftProduct".toList []), []⟩

def activeProduct : OdataOfbizEntity := ⟨false, some (rowOf "Product".toList productFields), []⟩

/-- **A draft cuts off the entities after it**: a product has its color if it is alone in the list,
and does not have it after a draft. -/
theorem not_pointwise_draft_first :
    ¬ Pointwise (proceEntityListWithAttribute productDatabase (fun _ => []) productType)
      [draftProduct, activeProduct] := by
  intro h
  have hlengths := congrArg (List.map fun entity => entity.properties.length) h
  revert hlengths
  decide

end Proofs

end OfficeAuto.Odata.Relations
