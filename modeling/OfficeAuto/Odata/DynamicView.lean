import OfficeAuto.Logic.Transition
import OfficeAuto.Odata.RelationStore

/-!
# Dynamic views

`DynamicViewHolder` puts together the view that a query reads: the members, which are entities with
an alias, the fields with their names, and the links between members. Its methods add to the view
what a filter, an order or a navigation needs, and look before whether it is there already.

A view is well formed if its fields and links refer to members, no member is added twice, and fields
of one name are one field (`WellFormed`). What a call adds keeps this if the call fits the view
(`fits`); so a view is well formed if all calls fitted (`wellFormed_of_fits`). The code looks for
less: two conditions on a field of one name, at members with different aliases, make two fields of
this name (`not_wellFormed_shipping`).
-/

namespace OfficeAuto.Odata.DynamicView

open Relations (EntityName RelationName EntityException)

abbrev Alias := List Char

/-! ### Views -/

structure ModelMemberEntity where
  entityAlias : Alias
  entityName : EntityName
  deriving DecidableEq

structure ModelAlias where
  entityAlias : Alias
  name : List Char
  field : List Char
  deriving DecidableEq

structure ModelViewLink where
  entityAlias : Alias
  relEntityAlias : Alias
  deriving DecidableEq

/-- The view. Its members are here in the order of the calls of `addMemberEntity`, the last one
first; a later one of the same alias replaces an earlier one in the map of the source. -/
structure DynamicViewEntity where
  memberEntities : List ModelMemberEntity
  aliasAlls : List Alias
  aliases : List ModelAlias
  viewLinks : List ModelViewLink

namespace DynamicViewEntity

variable (view : DynamicViewEntity)

def hasAlias (entityAlias : Alias) : Bool :=
  view.memberEntities.any fun member => member.entityAlias = entityAlias

def addMemberEntity (entityAlias : Alias) (entityName : EntityName) : DynamicViewEntity :=
  { view with memberEntities := ⟨entityAlias, entityName⟩ :: view.memberEntities }

def addAliasAll (entityAlias : Alias) : DynamicViewEntity :=
  { view with aliasAlls := view.aliasAlls ++ [entityAlias] }

def addAlias (entityAlias : Alias) (name field : List Char) : DynamicViewEntity :=
  { view with aliases := view.aliases ++ [⟨entityAlias, name, if field = [] then name else field⟩] }

def addViewLink (entityAlias relEntityAlias : Alias) : DynamicViewEntity :=
  { view with viewLinks := view.viewLinks ++ [⟨entityAlias, relEntityAlias⟩] }

def hasMemberEntity (entityAlias : Alias) (entityName : EntityName) : Bool :=
  (view.memberEntities.find? fun member => member.entityAlias = entityAlias).any fun member =>
    member.entityName = entityName

def hasAliases (entityAlias : Alias) (field : List Char) : Bool :=
  view.aliases.any fun a => a.entityAlias = entityAlias && a.field = field

def hasViewLink (entityAlias relEntityAlias : Alias) : Bool :=
  view.viewLinks.any fun link =>
    link.entityAlias = entityAlias && link.relEntityAlias = relEntityAlias

end DynamicViewEntity

/-! ### Models -/

structure ModelRelation where
  modelEntityName : EntityName
  combinedName : RelationName
  relEntityName : EntityName

/-- The condition of a relation: the fields of its comparisons, and its text. -/
structure RelationCondition where
  fieldNames : List (List Char)
  text : List Char

structure EntityTypeRelAlias where
  name : List Char
  relations : List RelationName
  relationsEntity : RelationName → Option ModelRelation
  relationsCondition : RelationName → Option RelationCondition

structure OfbizCsdlProperty where
  isAttribute : Bool
  isNumericAttribute : Bool
  ofbizFieldName : List Char
  relAlias : Option EntityTypeRelAlias

structure OfbizCsdlNavigationProperty where
  typeName : List Char
  relAlias : EntityTypeRelAlias

structure OfbizCsdlEntityType where
  name : List Char
  ofbizEntity : EntityName
  baseType : Option (List Char)
  attrEntityName : EntityName
  attrNumericEntityName : EntityName
  attrDateEntityName : EntityName
  getProperty : List Char → Option OfbizCsdlProperty
  getNavigationProperty : List Char → Option OfbizCsdlNavigationProperty

/-- The main type of the view, the types and the relations of the models, and the model of a view,
whose making may throw. -/
structure Environment where
  csdlEntityType : OfbizCsdlEntityType
  getEntityType : List Char → Option OfbizCsdlEntityType
  hasRelation : EntityName → RelationName → Bool
  makeModelViewEntity : DynamicViewEntity → Except EntityException Unit

/-! ### The holder -/

/-- The maps have their latest entries first. -/
structure DynamicViewHolder where
  view : DynamicViewEntity
  lambdaName : List (List Char × Alias)
  relAliasConditionMap : List (List Char × List Char)

variable (env : Environment)

def newHolder : Except EntityException DynamicViewHolder :=
  let type := env.csdlEntityType
  let view : DynamicViewEntity :=
    ((⟨[], [], [], []⟩ : DynamicViewEntity).addMemberEntity type.name type.ofbizEntity).addAliasAll
      type.name
  match type.baseType with
  | none => .ok ⟨view, [], []⟩
  | some baseType =>
    if env.hasRelation type.ofbizEntity baseType then
      .ok ⟨((view.addMemberEntity baseType baseType).addAliasAll baseType).addViewLink type.name
        baseType, [], []⟩
    else .error .nullPointer

namespace DynamicViewHolder

variable (holder : DynamicViewHolder)

/-! ### Relations -/

def sourceAlias (firstCsdlEntityType : OfbizCsdlEntityType)
    (entityAliasName lastRelAlias : Option Alias) (modelRelation : ModelRelation) : Alias :=
  match entityAliasName.filter fun a => !a.isEmpty with
  | some entityAliasName => entityAliasName
  | none =>
    match lastRelAlias with
    | some lastRelAlias => lastRelAlias
    | none =>
      let entityAlias :=
        (holder.lambdaName.lookup modelRelation.modelEntityName).getD modelRelation.modelEntityName
      if entityAlias = env.csdlEntityType.ofbizEntity then firstCsdlEntityType.name else entityAlias

/-- The alias that the member of a relation is sought with; the last one may be a lambda
variable. -/
def soughtAlias (relAlias : EntityTypeRelAlias) (isLast : Bool) (modelRelation : ModelRelation) :
    Alias :=
  if isLast then (holder.lambdaName.lookup relAlias.name).getD modelRelation.combinedName
  else modelRelation.combinedName

def isOtherCondition (entityAlias relEntityAlias : Alias)
    (relCondition : Option RelationCondition) : Bool :=
  relCondition.any fun condition =>
    holder.relAliasConditionMap.lookup (entityAlias ++ '_' :: relEntityAlias) ≠ some condition.text

/-- The alias of the member of a relation, and whether the member is added. -/
def memberOf (relAlias : EntityTypeRelAlias) (entityAlias relEntityAlias : Alias)
    (relEntityName : EntityName) (relCondition : Option RelationCondition) : Alias × Bool :=
  if holder.view.hasMemberEntity relEntityAlias relEntityName then
    if holder.isOtherCondition entityAlias relEntityAlias relCondition then
      (relAlias.name ++ relEntityAlias, true)
    else (relEntityAlias, false)
  else (relEntityAlias, true)

def addConditionAliases (view : DynamicViewEntity) (relEntityAlias : Alias)
    (relCondition : Option RelationCondition) : DynamicViewEntity :=
  match relCondition with
  | none => view
  | some condition => condition.fieldNames.foldl (fun view fieldName =>
      if view.hasAliases relEntityAlias fieldName then view
      else view.addAlias relEntityAlias fieldName fieldName) view

/-- One pass of the loop of `addRelAlias`, with the alias of the member that it comes to. -/
def addRelation (firstCsdlEntityType : OfbizCsdlEntityType) (relAlias : EntityTypeRelAlias)
    (entityAliasName lastRelAlias : Option Alias) (isLast : Bool) (relation : RelationName) :
    Except EntityException (DynamicViewHolder × Alias) :=
  match relAlias.relationsEntity relation with
  | none => .error .nullPointer
  | some modelRelation =>
    let entityAlias :=
      holder.sourceAlias env firstCsdlEntityType entityAliasName lastRelAlias modelRelation
    let relCondition := relAlias.relationsCondition relation
    let member := holder.memberOf relAlias entityAlias
      (holder.soughtAlias relAlias isLast modelRelation) modelRelation.relEntityName relCondition
    let view := if member.2 then holder.view.addMemberEntity member.1 modelRelation.relEntityName
      else holder.view
    let view := addConditionAliases view member.1 relCondition
    (env.makeModelViewEntity view).map fun _ =>
      if view.hasViewLink entityAlias member.1 then ({ holder with view := view }, member.1)
      else
        ({ holder with
            view := view.addViewLink entityAlias member.1
            relAliasConditionMap := (relCondition.map fun condition =>
              (entityAlias ++ '_' :: member.1, condition.text)).toList ++
                holder.relAliasConditionMap }, member.1)

def addRelations (firstCsdlEntityType : OfbizCsdlEntityType) (relAlias : EntityTypeRelAlias)
    (entityAliasName : Option Alias) :
    List RelationName → Option Alias → DynamicViewHolder →
      Except EntityException (DynamicViewHolder × Option Alias)
  | [], lastRelAlias, holder => .ok (holder, lastRelAlias)
  | relation :: relations, lastRelAlias, holder =>
    match holder.addRelation env firstCsdlEntityType relAlias entityAliasName lastRelAlias
      relations.isEmpty relation with
    | .error e => .error e
    | .ok added =>
      addRelations firstCsdlEntityType relAlias entityAliasName relations (some added.2) added.1

def addRelAlias (firstCsdlEntityType : Option OfbizCsdlEntityType) (relAlias : EntityTypeRelAlias)
    (entityAliasName : Option Alias) :
    Except EntityException (DynamicViewHolder × Option Alias) :=
  addRelations env (firstCsdlEntityType.getD env.csdlEntityType) relAlias entityAliasName
    relAlias.relations none holder

/-! ### The calls -/

def addNavigationRelAlias (navigationName : List Char) :
    Except EntityException (DynamicViewHolder × Option Alias) :=
  match env.csdlEntityType.getNavigationProperty navigationName with
  | none => .error .nullPointer
  | some navigationProperty => holder.addRelAlias env none navigationProperty.relAlias none

def addPropertyRelAlias (propertyName : List Char) :
    Except EntityException (DynamicViewHolder × Option Alias) :=
  match env.csdlEntityType.getProperty propertyName with
  | none => .error .nullPointer
  | some csdlProperty =>
    match csdlProperty.relAlias with
    | none => .ok (holder, none)
    | some relAlias => holder.addRelAlias env none relAlias none

def attrEntity (attrCsdlEntity : OfbizCsdlEntityType) (csdlProperty : OfbizCsdlProperty) :
    EntityName :=
  if csdlProperty.isAttribute then attrCsdlEntity.attrEntityName
  else if csdlProperty.isNumericAttribute then attrCsdlEntity.attrNumericEntityName
  else attrCsdlEntity.attrDateEntityName

def addAttrMember (view : DynamicViewEntity) (propertyName : List Char)
    (attrEntityName : EntityName) : DynamicViewEntity :=
  let attrEntityAlias := propertyName ++ attrEntityName
  let view := if view.hasMemberEntity attrEntityAlias attrEntityName then view
    else view.addMemberEntity attrEntityAlias attrEntityName
  if view.hasAliases attrEntityAlias "attrValue".toList then view
  else view.addAlias attrEntityAlias propertyName "attrValue".toList

def addPropertyAttr (attrCsdlEntity : Option OfbizCsdlEntityType) (propertyName : List Char) :
    Except EntityException DynamicViewHolder :=
  let attrCsdlEntity := attrCsdlEntity.getD env.csdlEntityType
  match attrCsdlEntity.getProperty propertyName with
  | none => .error .nullPointer
  | some csdlProperty =>
    let attrEntityName := attrEntity attrCsdlEntity csdlProperty
    let view := addAttrMember holder.view propertyName attrEntityName
    if view.hasViewLink attrCsdlEntity.name (propertyName ++ attrEntityName) then
      .ok { holder with view := view }
    else if env.hasRelation attrCsdlEntity.ofbizEntity attrEntityName then
      (env.makeModelViewEntity view).map fun _ =>
        { holder with
          view := view.addViewLink attrCsdlEntity.name (propertyName ++ attrEntityName) }
    else .error .nullPointer

/-- The member of a navigation whose relation has a condition, under the name of its type. -/
def addPartMember (view : DynamicViewEntity) (relEntityOfbizName : List Char)
    (condition : RelationCondition) : DynamicViewEntity :=
  if view.hasMemberEntity relEntityOfbizName relEntityOfbizName then view
  else condition.fieldNames.foldl
    (fun view fieldName => view.addAlias relEntityOfbizName fieldName fieldName)
    (view.addMemberEntity relEntityOfbizName relEntityOfbizName)

def addPartCondition (resourcePart : List Char)
    (navigationProperty : OfbizCsdlNavigationProperty) : Except EntityException DynamicViewHolder :=
  match navigationProperty.relAlias.relationsCondition resourcePart with
  | none => .ok holder
  | some condition => (env.makeModelViewEntity holder.view).map fun _ =>
      { holder with view := addPartMember holder.view navigationProperty.typeName condition }

/-- The loop of `addMultiParts`. The type is null where it is not known. -/
def addParts : List (List Char) → Option OfbizCsdlEntityType → Option Alias → DynamicViewHolder →
    Except EntityException (DynamicViewHolder × Option Alias)
  | [], _, lastResourceParts, holder => .ok (holder, lastResourceParts)
  | resourcePart :: resourceParts, currentCsdlEntityType, lastResourceParts, holder =>
    match currentCsdlEntityType.bind fun type => type.getNavigationProperty resourcePart with
    | none => .error .nullPointer
    | some navigationProperty =>
      match holder.addPartCondition env resourcePart navigationProperty with
      | .error e => .error e
      | .ok holder =>
        match holder.addRelAlias env none navigationProperty.relAlias lastResourceParts with
        | .error e => .error e
        | .ok added =>
          addParts resourceParts (env.getEntityType navigationProperty.typeName) added.2 added.1

def putLambdaName (resourceParts : List (List Char)) (aliasName : Option Alias) :
    DynamicViewHolder :=
  match aliasName, resourceParts.getLast? with
  | some variableName, some resourcePart =>
    { holder with lambdaName := (resourcePart, variableName) :: holder.lambdaName }
  | _, _ => holder

def addMultiParts (resourceParts : List (List Char)) (aliasName : Option Alias) :
    Except EntityException (DynamicViewHolder × Option Alias) :=
  if aliasName.isSome && resourceParts.isEmpty then .error .indexOutOfBounds
  else addParts env resourceParts (some env.csdlEntityType) none
    (holder.putLambdaName resourceParts aliasName)

def addFilterProperty (aliasName : Option Alias) (propertyName : List Char) :
    Except EntityException DynamicViewHolder :=
  match aliasName with
  | none => .error .illegalArgument
  | some entityAlias =>
    if holder.view.hasAliases entityAlias propertyName then .ok holder
    else .ok { holder with
      view := holder.view.addAlias entityAlias (entityAlias ++ propertyName) propertyName }

def addOrderByAlias (relAlias : EntityTypeRelAlias) (propertyName : List Char)
    (csdlProperty : OfbizCsdlProperty) : Except EntityException DynamicViewHolder :=
  match relAlias.relations.getLast? with
  | none => .error .indexOutOfBounds
  | some lastEntityAlias =>
    if holder.view.hasAliases lastEntityAlias propertyName then .ok holder
    else .ok { holder with
      view := holder.view.addAlias lastEntityAlias propertyName csdlProperty.ofbizFieldName }

def addOrderByProperty (aliasName : Option Alias) (propertyName : List Char) :
    Except EntityException DynamicViewHolder :=
  match aliasName with
  | some entityAlias => holder.addFilterProperty (some entityAlias) propertyName
  | none =>
    match env.csdlEntityType.getProperty propertyName with
    | none => .error .nullPointer
    | some csdlProperty =>
      match csdlProperty.relAlias with
      | none => holder.addPropertyAttr env none propertyName
      | some relAlias =>
        match holder.addRelAlias env none relAlias none with
        | .error e => .error e
        | .ok added => added.1.addOrderByAlias relAlias propertyName csdlProperty

end DynamicViewHolder

/-- A call of a public method. -/
inductive Call
  | addNavigationRelAlias (navigationName : List Char)
  | addPropertyRelAlias (propertyName : List Char)
  | addPropertyAttr (attrCsdlEntity : Option OfbizCsdlEntityType) (propertyName : List Char)
  | addRelAlias (firstCsdlEntityType : Option OfbizCsdlEntityType) (relAlias : EntityTypeRelAlias)
    (entityAliasName : Option Alias)
  | addMultiParts (resourceParts : List (List Char)) (aliasName : Option Alias)
  | addFilterProperty (aliasName : Option Alias) (propertyName : List Char)
  | addOrderByProperty (aliasName : Option Alias) (propertyName : List Char)

def step (holder : DynamicViewHolder) : Call → Except EntityException DynamicViewHolder
  | .addNavigationRelAlias navigationName =>
    (holder.addNavigationRelAlias env navigationName).map Prod.fst
  | .addPropertyRelAlias propertyName => (holder.addPropertyRelAlias env propertyName).map Prod.fst
  | .addPropertyAttr attrCsdlEntity propertyName =>
    holder.addPropertyAttr env attrCsdlEntity propertyName
  | .addRelAlias firstCsdlEntityType relAlias entityAliasName =>
    (holder.addRelAlias env firstCsdlEntityType relAlias entityAliasName).map Prod.fst
  | .addMultiParts resourceParts aliasName =>
    (holder.addMultiParts env resourceParts aliasName).map Prod.fst
  | .addFilterProperty aliasName propertyName => holder.addFilterProperty aliasName propertyName
  | .addOrderByProperty aliasName propertyName =>
    holder.addOrderByProperty env aliasName propertyName

/-- The holders that calls lead to from the constructor. A call that throws leads nowhere. -/
def system : System DynamicViewHolder Call where
  init holder := newHolder env = .ok holder
  step holder call holder' := step env holder call = .ok holder'

/-! ### Calls that fit -/

def DynamicViewEntity.nameFits (view : DynamicViewEntity) (entityAlias : Alias)
    (name field : List Char) : Bool :=
  view.aliases.all fun a =>
    a.name ≠ name || (a.entityAlias = entityAlias && a.field = if field = [] then name else field)

def conditionFits (view : DynamicViewEntity) (entityAlias : Alias) (condition : RelationCondition) :
    Bool :=
  condition.fieldNames.all fun fieldName => view.nameFits entityAlias fieldName fieldName

namespace DynamicViewHolder

variable (holder : DynamicViewHolder)

/-- A relation goes out from a member of the view, a member that it adds is new, and so are the
names of the fields of its condition. -/
def relationFits (firstCsdlEntityType : OfbizCsdlEntityType) (relAlias : EntityTypeRelAlias)
    (entityAliasName lastRelAlias : Option Alias) (isLast : Bool) (relation : RelationName) :
    Bool :=
  (relAlias.relationsEntity relation).all fun modelRelation =>
    let entityAlias :=
      holder.sourceAlias env firstCsdlEntityType entityAliasName lastRelAlias modelRelation
    let relCondition := relAlias.relationsCondition relation
    let member := holder.memberOf relAlias entityAlias
      (holder.soughtAlias relAlias isLast modelRelation) modelRelation.relEntityName relCondition
    holder.view.hasAlias entityAlias && (!member.2 || !holder.view.hasAlias member.1) &&
      relCondition.all fun condition => conditionFits holder.view member.1 condition

/-- Every relation of a chain fits the view that those before it have left. -/
def relationsFit (firstCsdlEntityType : OfbizCsdlEntityType) (relAlias : EntityTypeRelAlias)
    (entityAliasName : Option Alias) :
    List RelationName → Option Alias → DynamicViewHolder → Bool
  | [], _, _ => true
  | relation :: relations, lastRelAlias, holder =>
    holder.relationFits env firstCsdlEntityType relAlias entityAliasName lastRelAlias
      relations.isEmpty relation &&
    match holder.addRelation env firstCsdlEntityType relAlias entityAliasName lastRelAlias
      relations.isEmpty relation with
    | .error _ => true
    | .ok added =>
      relationsFit firstCsdlEntityType relAlias entityAliasName relations (some added.2) added.1

def relAliasFits (firstCsdlEntityType : Option OfbizCsdlEntityType) (relAlias : EntityTypeRelAlias)
    (entityAliasName : Option Alias) : Bool :=
  relationsFit env (firstCsdlEntityType.getD env.csdlEntityType) relAlias entityAliasName
    relAlias.relations none holder

/-- An attribute belongs to a type that is a member; the alias of its own member and its name are
new, or its own already. -/
def propertyAttrFits (attrCsdlEntity : Option OfbizCsdlEntityType) (propertyName : List Char) :
    Bool :=
  let attrCsdlEntity := attrCsdlEntity.getD env.csdlEntityType
  (attrCsdlEntity.getProperty propertyName).all fun csdlProperty =>
    let attrEntityName := attrEntity attrCsdlEntity csdlProperty
    let attrEntityAlias := propertyName ++ attrEntityName
    (holder.view.hasMemberEntity attrEntityAlias attrEntityName ||
      !holder.view.hasAlias attrEntityAlias) &&
    (holder.view.hasAliases attrEntityAlias "attrValue".toList ||
      holder.view.nameFits attrEntityAlias propertyName "attrValue".toList) &&
    (holder.view.hasViewLink attrCsdlEntity.name attrEntityAlias ||
      holder.view.hasAlias attrCsdlEntity.name)

/-- The member that a navigation adds for a condition is new, and so are the names of the fields. -/
def partFits (resourcePart : List Char) (navigationProperty : OfbizCsdlNavigationProperty) : Bool :=
  (navigationProperty.relAlias.relationsCondition resourcePart).all fun condition =>
    holder.view.hasMemberEntity navigationProperty.typeName navigationProperty.typeName ||
      (!holder.view.hasAlias navigationProperty.typeName &&
        conditionFits holder.view navigationProperty.typeName condition)

def partsFit : List (List Char) → Option OfbizCsdlEntityType → Option Alias → DynamicViewHolder →
    Bool
  | [], _, _, _ => true
  | resourcePart :: resourceParts, currentCsdlEntityType, lastResourceParts, holder =>
    match currentCsdlEntityType.bind fun type => type.getNavigationProperty resourcePart with
    | none => true
    | some navigationProperty =>
      holder.partFits resourcePart navigationProperty &&
      match holder.addPartCondition env resourcePart navigationProperty with
      | .error _ => true
      | .ok holder =>
        holder.relAliasFits env none navigationProperty.relAlias lastResourceParts &&
        match holder.addRelAlias env none navigationProperty.relAlias lastResourceParts with
        | .error _ => true
        | .ok added =>
          partsFit resourceParts (env.getEntityType navigationProperty.typeName) added.2 added.1

def fieldFits (entityAlias : Alias) (name field : List Char) : Bool :=
  holder.view.hasAlias entityAlias && holder.view.nameFits entityAlias name field

def filterPropertyFits (aliasName : Option Alias) (propertyName : List Char) : Bool :=
  aliasName.all fun entityAlias => holder.view.hasAliases entityAlias propertyName ||
    holder.fieldFits entityAlias (entityAlias ++ propertyName) propertyName

def orderByAliasFits (relAlias : EntityTypeRelAlias) (propertyName : List Char)
    (csdlProperty : OfbizCsdlProperty) : Bool :=
  relAlias.relations.getLast?.all fun lastEntityAlias =>
    holder.view.hasAliases lastEntityAlias propertyName ||
      holder.fieldFits lastEntityAlias propertyName csdlProperty.ofbizFieldName

def orderByPropertyFits (aliasName : Option Alias) (propertyName : List Char) : Bool :=
  match aliasName with
  | some entityAlias => holder.filterPropertyFits (some entityAlias) propertyName
  | none =>
    (env.csdlEntityType.getProperty propertyName).all fun csdlProperty =>
      match csdlProperty.relAlias with
      | none => holder.propertyAttrFits env none propertyName
      | some relAlias =>
        holder.relAliasFits env none relAlias none &&
        match holder.addRelAlias env none relAlias none with
        | .error _ => true
        | .ok added => added.1.orderByAliasFits relAlias propertyName csdlProperty

/-- A call fits the holder: its relations go out from members of the view, the members that it adds
are new, and so are the names of its fields. -/
def fits : Call → Bool
  | .addNavigationRelAlias navigationName =>
    (env.csdlEntityType.getNavigationProperty navigationName).all fun navigationProperty =>
      holder.relAliasFits env none navigationProperty.relAlias none
  | .addPropertyRelAlias propertyName =>
    (env.csdlEntityType.getProperty propertyName).all fun csdlProperty =>
      csdlProperty.relAlias.all fun relAlias => holder.relAliasFits env none relAlias none
  | .addPropertyAttr attrCsdlEntity propertyName =>
    holder.propertyAttrFits env attrCsdlEntity propertyName
  | .addRelAlias firstCsdlEntityType relAlias entityAliasName =>
    holder.relAliasFits env firstCsdlEntityType relAlias entityAliasName
  | .addMultiParts resourceParts aliasName =>
    partsFit env resourceParts (some env.csdlEntityType) none
      (holder.putLambdaName resourceParts aliasName)
  | .addFilterProperty aliasName propertyName => holder.filterPropertyFits aliasName propertyName
  | .addOrderByProperty aliasName propertyName =>
    holder.orderByPropertyFits env aliasName propertyName

end DynamicViewHolder

/-! ### Well-formed views -/

/-- Every field and every link refers to members, no member is added twice, and fields of one name
are one field of one member. -/
structure WellFormed (view : DynamicViewEntity) : Prop where
  aliasAlls : ∀ entityAlias ∈ view.aliasAlls, view.hasAlias entityAlias = true
  aliases : ∀ a ∈ view.aliases, view.hasAlias a.entityAlias = true
  viewLinks : ∀ link ∈ view.viewLinks,
    view.hasAlias link.entityAlias = true ∧ view.hasAlias link.relEntityAlias = true
  members : (view.memberEntities.map (·.entityAlias)).Nodup
  names : ∀ a ∈ view.aliases, ∀ b ∈ view.aliases, a.name = b.name →
    a.entityAlias = b.entityAlias ∧ a.field = b.field

section Views

variable {view : DynamicViewEntity} {entityAlias relEntityAlias a : Alias}
  {entityName : EntityName} {name field : List Char} {condition : RelationCondition}

theorem hasAlias_addMemberEntity :
    (view.addMemberEntity entityAlias entityName).hasAlias a =
      (decide (entityAlias = a) || view.hasAlias a) := rfl

theorem hasAlias_of_hasMemberEntity (h : view.hasMemberEntity entityAlias entityName = true) :
    view.hasAlias entityAlias = true := by
  rw [DynamicViewEntity.hasMemberEntity] at h
  cases hfind : view.memberEntities.find? fun member => member.entityAlias = entityAlias with
  | none =>
    rw [hfind] at h
    cases h
  | some member =>
    have hsame : decide (member.entityAlias = entityAlias) = true :=
      @List.find?_some ModelMemberEntity (fun m => decide (m.entityAlias = entityAlias)) _ _ hfind
    exact List.any_eq_true.mpr ⟨member, List.mem_of_find?_eq_some hfind, hsame⟩

theorem WellFormed.addMemberEntity (h : WellFormed view)
    (hnew : view.hasAlias entityAlias = false) :
    WellFormed (view.addMemberEntity entityAlias entityName) := by
  have hkeep : ∀ a, view.hasAlias a = true →
      (view.addMemberEntity entityAlias entityName).hasAlias a = true := fun a ha => by
    rw [hasAlias_addMemberEntity, ha, Bool.or_true]
  have hnot : entityAlias ∉ view.memberEntities.map (·.entityAlias) := by
    intro hmem
    obtain ⟨member, hmember, heq⟩ := List.mem_map.mp hmem
    have hthere : view.hasAlias entityAlias = true :=
      List.any_eq_true.mpr ⟨member, hmember, decide_eq_true heq⟩
    rw [hnew] at hthere
    cases hthere
  exact
    { aliasAlls := fun a ha => hkeep _ (h.aliasAlls a ha)
      aliases := fun a ha => hkeep _ (h.aliases a ha)
      viewLinks := fun link hl => ⟨hkeep _ (h.viewLinks link hl).1, hkeep _ (h.viewLinks link hl).2⟩
      members := List.nodup_cons.mpr ⟨hnot, h.members⟩
      names := h.names }

theorem WellFormed.addAliasAll (h : WellFormed view) (hmember : view.hasAlias entityAlias = true) :
    WellFormed (view.addAliasAll entityAlias) :=
  { h with
    aliasAlls := fun a ha => by
      obtain ha | ha := List.mem_append.mp ha
      · exact h.aliasAlls a ha
      · rwa [List.mem_singleton.mp ha] }

theorem WellFormed.addAlias (h : WellFormed view) (hmember : view.hasAlias entityAlias = true)
    (hname : view.nameFits entityAlias name field = true) :
    WellFormed (view.addAlias entityAlias name field) := by
  have hfits : ∀ a ∈ view.aliases, a.name = name →
      a.entityAlias = entityAlias ∧ a.field = if field = [] then name else field := by
    intro a ha heq
    have hor := List.all_eq_true.mp hname a ha
    simpa [heq] using hor
  refine { h with aliases := fun a ha => ?_, names := fun a ha b hb hab => ?_ }
  · obtain ha | ha := List.mem_append.mp ha
    · exact h.aliases a ha
    · rw [List.mem_singleton.mp ha]
      exact hmember
  · obtain ha | ha := List.mem_append.mp ha
    · obtain hb | hb := List.mem_append.mp hb
      · exact h.names a ha b hb hab
      · rw [List.mem_singleton.mp hb] at hab ⊢
        exact hfits a ha hab
    · rw [List.mem_singleton.mp ha] at hab ⊢
      obtain hb | hb := List.mem_append.mp hb
      · exact (hfits b hb hab.symm).imp Eq.symm Eq.symm
      · rw [List.mem_singleton.mp hb]
        exact ⟨rfl, rfl⟩

theorem WellFormed.addViewLink (h : WellFormed view) (hmember : view.hasAlias entityAlias = true)
    (hrel : view.hasAlias relEntityAlias = true) :
    WellFormed (view.addViewLink entityAlias relEntityAlias) :=
  { h with
    viewLinks := fun link hl => by
      obtain hl | hl := List.mem_append.mp hl
      · exact h.viewLinks link hl
      · rw [List.mem_singleton.mp hl]
        exact ⟨hmember, hrel⟩ }

theorem nameFits_addAlias {fieldName fieldName' : List Char}
    (h : view.nameFits entityAlias fieldName fieldName = true) :
    (view.addAlias entityAlias fieldName' fieldName').nameFits entityAlias fieldName fieldName =
      true := by
  rw [DynamicViewEntity.nameFits, DynamicViewEntity.addAlias, List.all_append,
    Bool.and_eq_true]
  refine ⟨h, ?_⟩
  by_cases heq : fieldName' = fieldName
  · simp [heq]
  · simp [heq]

theorem WellFormed.addFields {add : DynamicViewEntity → List Char → DynamicViewEntity}
    (hadd : ∀ view fieldName, add view fieldName = view ∨
      add view fieldName = view.addAlias entityAlias fieldName fieldName)
    (h : WellFormed view) (hmember : view.hasAlias entityAlias = true)
    {fieldNames : List (List Char)}
    (hfits : ∀ fieldName ∈ fieldNames, view.nameFits entityAlias fieldName fieldName = true) :
    WellFormed (fieldNames.foldl add view) ∧
      ∀ a, (fieldNames.foldl add view).hasAlias a = view.hasAlias a := by
  induction fieldNames generalizing view with
  | nil => exact ⟨h, fun a => rfl⟩
  | cons fieldName fieldNames ih =>
    obtain ⟨hfield, hfields⟩ := List.forall_mem_cons.mp hfits
    rw [List.foldl_cons]
    obtain hsame | hnew := hadd view fieldName
    · rw [hsame]
      exact ih h hmember hfields
    · rw [hnew]
      exact ih (h.addAlias hmember hfield) hmember fun other hother =>
        nameFits_addAlias (hfields other hother)

end Views

/-! ### What a call keeps -/

section Calls

open DynamicViewHolder

variable {env : Environment} {holder holder' : DynamicViewHolder} {relAlias : EntityTypeRelAlias}
  {firstCsdlEntityType : OfbizCsdlEntityType} {entityAliasName lastRelAlias : Option Alias}
  {aliasName : Option Alias} {propertyName : List Char} {view : DynamicViewEntity}

theorem WellFormed.addConditionAliases {relEntityAlias : Alias}
    {relCondition : Option RelationCondition} (h : WellFormed view)
    (hmember : view.hasAlias relEntityAlias = true)
    (hfits : relCondition.all (conditionFits view relEntityAlias) = true) :
    WellFormed (addConditionAliases view relEntityAlias relCondition) ∧
      ∀ a, (DynamicViewHolder.addConditionAliases view relEntityAlias relCondition).hasAlias a =
        view.hasAlias a := by
  cases relCondition with
  | none => exact ⟨h, fun a => rfl⟩
  | some condition =>
    refine h.addFields (fun view fieldName => ?_) hmember (List.all_eq_true.mp hfits)
    split_ifs
    · exact .inl rfl
    · exact .inr rfl

theorem hasAlias_memberOf {entityAlias relEntityAlias : Alias} {relEntityName : EntityName}
    {relCondition : Option RelationCondition}
    (h : (holder.memberOf relAlias entityAlias relEntityAlias relEntityName relCondition).2 =
      false) :
    holder.view.hasAlias
      (holder.memberOf relAlias entityAlias relEntityAlias relEntityName relCondition).1 =
        true := by
  unfold memberOf at h ⊢
  split_ifs at h ⊢ with hmember
  exact hasAlias_of_hasMemberEntity hmember

/-- **A relation that fits keeps the view well formed.** -/
theorem addRelation_wellFormed {isLast : Bool} {relation : RelationName}
    {added : DynamicViewHolder × Alias} (h : WellFormed holder.view)
    (hfits : holder.relationFits env firstCsdlEntityType relAlias entityAliasName lastRelAlias
      isLast relation = true)
    (hadd : holder.addRelation env firstCsdlEntityType relAlias entityAliasName lastRelAlias isLast
      relation = .ok added) : WellFormed added.1.view := by
  unfold addRelation at hadd
  unfold relationFits at hfits
  cases hrelation : relAlias.relationsEntity relation with
  | none =>
    rw [hrelation] at hadd
    cases hadd
  | some modelRelation =>
    rw [hrelation] at hadd hfits
    dsimp only [Option.all_some] at hadd hfits
    generalize holder.sourceAlias env firstCsdlEntityType entityAliasName lastRelAlias
      modelRelation = entityAlias at hadd hfits
    have hthere := @hasAlias_memberOf holder relAlias entityAlias
      (holder.soughtAlias relAlias isLast modelRelation) modelRelation.relEntityName
      (relAlias.relationsCondition relation)
    generalize holder.memberOf relAlias entityAlias
      (holder.soughtAlias relAlias isLast modelRelation) modelRelation.relEntityName
      (relAlias.relationsCondition relation) = member at hadd hfits hthere
    rw [Bool.and_eq_true, Bool.and_eq_true] at hfits
    obtain ⟨⟨hsource, hnew⟩, hcondition⟩ := hfits
    obtain ⟨-, -, hadd⟩ := Except.map_eq_ok.mp hadd
    -- The view with the member is well formed, and has the source and the member.
    have hview : WellFormed (if member.2 then
          holder.view.addMemberEntity member.1 modelRelation.relEntityName else holder.view) ∧
        (if member.2 then holder.view.addMemberEntity member.1 modelRelation.relEntityName
          else holder.view).hasAlias entityAlias = true ∧
        (if member.2 then holder.view.addMemberEntity member.1 modelRelation.relEntityName
          else holder.view).hasAlias member.1 = true ∧
        (relAlias.relationsCondition relation).all (conditionFits (if member.2 then
          holder.view.addMemberEntity member.1 modelRelation.relEntityName else holder.view)
          member.1) = true := by
      cases hmember : member.2 with
      | false => exact ⟨h, hsource, hthere hmember, hcondition⟩
      | true =>
        rw [hmember] at hnew
        have hnot : holder.view.hasAlias member.1 = false := by simpa using hnew
        refine ⟨h.addMemberEntity hnot, ?_, ?_, hcondition⟩
        · rw [if_pos rfl, hasAlias_addMemberEntity, hsource, Bool.or_true]
        · rw [if_pos rfl, hasAlias_addMemberEntity, decide_eq_true rfl, Bool.true_or]
    generalize (if member.2 then
      holder.view.addMemberEntity member.1 modelRelation.relEntityName else holder.view) = view
      at hadd hview
    obtain ⟨hwell, hsource', hmember', hcondition'⟩ := hview
    obtain ⟨hwell', hkeep⟩ := hwell.addConditionAliases hmember' hcondition'
    subst hadd
    split_ifs
    · exact hwell'
    · exact hwell'.addViewLink (by rw [hkeep, hsource']) (by rw [hkeep, hmember'])

theorem addRelations_wellFormed {relations : List RelationName}
    {added : DynamicViewHolder × Option Alias} (h : WellFormed holder.view)
    (hfits : relationsFit env firstCsdlEntityType relAlias entityAliasName relations lastRelAlias
      holder = true)
    (hadd : addRelations env firstCsdlEntityType relAlias entityAliasName relations lastRelAlias
      holder = .ok added) : WellFormed added.1.view := by
  induction relations generalizing holder lastRelAlias with
  | nil =>
    cases hadd
    exact h
  | cons relation relations ih =>
    rw [relationsFit, Bool.and_eq_true] at hfits
    rw [addRelations] at hadd
    cases hrelation : holder.addRelation env firstCsdlEntityType relAlias entityAliasName
      lastRelAlias relations.isEmpty relation with
    | error e =>
      rw [hrelation] at hadd
      cases hadd
    | ok first =>
      rw [hrelation] at hadd hfits
      exact ih (addRelation_wellFormed h hfits.1 hrelation) hfits.2 hadd

theorem addRelAlias_wellFormed {first : Option OfbizCsdlEntityType}
    {added : DynamicViewHolder × Option Alias} (h : WellFormed holder.view)
    (hfits : holder.relAliasFits env first relAlias entityAliasName = true)
    (hadd : holder.addRelAlias env first relAlias entityAliasName = .ok added) :
    WellFormed added.1.view :=
  addRelations_wellFormed h hfits hadd

theorem addPropertyAttr_wellFormed {attrCsdlEntity : Option OfbizCsdlEntityType}
    (h : WellFormed holder.view)
    (hfits : holder.propertyAttrFits env attrCsdlEntity propertyName = true)
    (hadd : holder.addPropertyAttr env attrCsdlEntity propertyName = .ok holder') :
    WellFormed holder'.view := by
  unfold addPropertyAttr at hadd
  unfold propertyAttrFits at hfits
  dsimp only at hadd hfits
  generalize attrCsdlEntity.getD env.csdlEntityType = type at hadd hfits
  cases hproperty : type.getProperty propertyName with
  | none =>
    rw [hproperty] at hadd
    cases hadd
  | some csdlProperty =>
    rw [hproperty] at hadd hfits
    dsimp only [Option.all_some] at hadd hfits
    generalize attrEntity type csdlProperty = attrEntityName at hadd hfits
    rw [Bool.and_eq_true, Bool.and_eq_true, Bool.or_eq_true, Bool.or_eq_true, Bool.or_eq_true]
      at hfits
    obtain ⟨⟨hmember, hfield⟩, hlink⟩ := hfits
    -- The member is there, with what the view had before.
    obtain ⟨view, hview, hwell, hthere, hkeep, haliases, hlinks⟩ : ∃ view,
        view = (if holder.view.hasMemberEntity (propertyName ++ attrEntityName) attrEntityName then
          holder.view
          else holder.view.addMemberEntity (propertyName ++ attrEntityName) attrEntityName) ∧
        WellFormed view ∧ view.hasAlias (propertyName ++ attrEntityName) = true ∧
        (∀ a, holder.view.hasAlias a = true → view.hasAlias a = true) ∧
        view.aliases = holder.view.aliases ∧ view.viewLinks = holder.view.viewLinks := by
      refine ⟨_, rfl, ?_⟩
      split_ifs with hhas
      · exact ⟨h, hasAlias_of_hasMemberEntity hhas, fun a ha => ha, rfl, rfl⟩
      · have hnot : holder.view.hasAlias (propertyName ++ attrEntityName) = false := by
          simpa [hhas] using hmember
        refine ⟨h.addMemberEntity hnot, ?_, fun a ha => ?_, rfl, rfl⟩
        · rw [hasAlias_addMemberEntity, decide_eq_true rfl, Bool.true_or]
        · rw [hasAlias_addMemberEntity, ha, Bool.or_true]
    -- The field is there as well.
    have hattr : WellFormed (addAttrMember holder.view propertyName attrEntityName) ∧
        (∀ a, (addAttrMember holder.view propertyName attrEntityName).hasAlias a =
          view.hasAlias a) ∧
        (addAttrMember holder.view propertyName attrEntityName).viewLinks =
          holder.view.viewLinks := by
      rw [addAttrMember, ← hview]
      split_ifs with hhas
      · exact ⟨hwell, fun a => rfl, hlinks⟩
      · refine ⟨hwell.addAlias hthere ?_, fun a => rfl, hlinks⟩
        rw [DynamicViewEntity.hasAliases, haliases, ← DynamicViewEntity.hasAliases] at hhas
        rw [DynamicViewEntity.nameFits, haliases, ← DynamicViewEntity.nameFits]
        exact hfield.resolve_left hhas
    obtain ⟨hwell', hsame, hlinks'⟩ := hattr
    split_ifs at hadd with hhas hrelation
    · cases hadd
      exact hwell'
    · obtain ⟨-, -, rfl⟩ := Except.map_eq_ok.mp hadd
      rw [DynamicViewEntity.hasViewLink, hlinks', ← DynamicViewEntity.hasViewLink] at hhas
      refine hwell'.addViewLink ?_ (by rw [hsame, hthere])
      rw [hsame]
      exact hkeep _ (hlink.resolve_left hhas)

theorem addPartCondition_wellFormed {resourcePart : List Char}
    {navigationProperty : OfbizCsdlNavigationProperty} (h : WellFormed holder.view)
    (hfits : holder.partFits resourcePart navigationProperty = true)
    (hadd : holder.addPartCondition env resourcePart navigationProperty = .ok holder') :
    WellFormed holder'.view := by
  unfold addPartCondition at hadd
  unfold partFits at hfits
  cases hcondition : navigationProperty.relAlias.relationsCondition resourcePart with
  | none =>
    rw [hcondition] at hadd
    cases hadd
    exact h
  | some condition =>
    rw [hcondition] at hadd hfits
    obtain ⟨-, -, rfl⟩ := Except.map_eq_ok.mp hadd
    dsimp only [Option.all_some] at hfits ⊢
    rw [addPartMember]
    split_ifs with hhas
    · exact h
    · rw [Bool.or_eq_true, or_iff_right hhas, Bool.and_eq_true] at hfits
      have hnot : holder.view.hasAlias navigationProperty.typeName = false := by
        simpa using hfits.1
      refine ((h.addMemberEntity hnot).addFields (fun view fieldName => .inr rfl) ?_
        (List.all_eq_true.mp hfits.2)).1
      rw [hasAlias_addMemberEntity, decide_eq_true rfl, Bool.true_or]

theorem addParts_wellFormed {resourceParts : List (List Char)}
    {type : Option OfbizCsdlEntityType} {lastResourceParts : Option Alias}
    {added : DynamicViewHolder × Option Alias} (h : WellFormed holder.view)
    (hfits : partsFit env resourceParts type lastResourceParts holder = true)
    (hadd : addParts env resourceParts type lastResourceParts holder = .ok added) :
    WellFormed added.1.view := by
  induction resourceParts generalizing type lastResourceParts holder with
  | nil =>
    cases hadd
    exact h
  | cons resourcePart resourceParts ih =>
    rw [partsFit] at hfits
    rw [addParts] at hadd
    cases hnavigation : type.bind fun type => type.getNavigationProperty resourcePart with
    | none =>
      rw [hnavigation] at hadd
      cases hadd
    | some navigationProperty =>
      rw [hnavigation] at hadd hfits
      dsimp only at hadd hfits
      rw [Bool.and_eq_true] at hfits
      cases hpart : holder.addPartCondition env resourcePart navigationProperty with
      | error e =>
        rw [hpart] at hadd
        cases hadd
      | ok holder₁ =>
        rw [hpart] at hadd hfits
        have h₁ := addPartCondition_wellFormed h hfits.1 hpart
        obtain ⟨-, hfits⟩ := hfits
        dsimp only at hadd hfits
        rw [Bool.and_eq_true] at hfits
        cases hrel : holder₁.addRelAlias env none navigationProperty.relAlias lastResourceParts with
        | error e =>
          rw [hrel] at hadd
          cases hadd
        | ok added₁ =>
          rw [hrel] at hadd hfits
          exact ih (addRelAlias_wellFormed h₁ hfits.1 hrel) hfits.2 hadd

theorem addField_wellFormed {entityAlias : Alias} {name field : List Char}
    (h : WellFormed holder.view) (hfits : holder.fieldFits entityAlias name field = true) :
    WellFormed (holder.view.addAlias entityAlias name field) := by
  rw [fieldFits, Bool.and_eq_true] at hfits
  exact h.addAlias hfits.1 hfits.2

theorem addFilterProperty_wellFormed (h : WellFormed holder.view)
    (hfits : holder.filterPropertyFits aliasName propertyName = true)
    (hadd : holder.addFilterProperty aliasName propertyName = .ok holder') :
    WellFormed holder'.view := by
  unfold addFilterProperty at hadd
  cases aliasName with
  | none => cases hadd
  | some entityAlias =>
    dsimp only at hadd
    split_ifs at hadd with hhas
    · cases hadd
      exact h
    · cases hadd
      rw [filterPropertyFits, Option.all_some, Bool.or_eq_true, or_iff_right hhas] at hfits
      exact addField_wellFormed h hfits

theorem addOrderByAlias_wellFormed {csdlProperty : OfbizCsdlProperty} (h : WellFormed holder.view)
    (hfits : holder.orderByAliasFits relAlias propertyName csdlProperty = true)
    (hadd : holder.addOrderByAlias relAlias propertyName csdlProperty = .ok holder') :
    WellFormed holder'.view := by
  unfold addOrderByAlias at hadd
  unfold orderByAliasFits at hfits
  cases hlast : relAlias.relations.getLast? with
  | none =>
    rw [hlast] at hadd
    cases hadd
  | some lastEntityAlias =>
    rw [hlast] at hadd hfits
    dsimp only [Option.all_some] at hadd hfits
    split_ifs at hadd with hhas
    · cases hadd
      exact h
    · cases hadd
      rw [Bool.or_eq_true, or_iff_right hhas] at hfits
      exact addField_wellFormed h hfits

theorem addOrderByProperty_wellFormed (h : WellFormed holder.view)
    (hfits : holder.orderByPropertyFits env aliasName propertyName = true)
    (hadd : holder.addOrderByProperty env aliasName propertyName = .ok holder') :
    WellFormed holder'.view := by
  unfold addOrderByProperty at hadd
  unfold orderByPropertyFits at hfits
  cases aliasName with
  | some entityAlias => exact addFilterProperty_wellFormed h hfits hadd
  | none =>
    dsimp only at hadd hfits
    cases hproperty : env.csdlEntityType.getProperty propertyName with
    | none =>
      rw [hproperty] at hadd
      cases hadd
    | some csdlProperty =>
      rw [hproperty] at hadd hfits
      dsimp only [Option.all_some] at hadd hfits
      cases hrelAlias : csdlProperty.relAlias with
      | none =>
        rw [hrelAlias] at hadd hfits
        exact addPropertyAttr_wellFormed h hfits hadd
      | some relAlias =>
        rw [hrelAlias] at hadd hfits
        dsimp only at hadd hfits
        rw [Bool.and_eq_true] at hfits
        cases hadded : holder.addRelAlias env none relAlias none with
        | error e =>
          rw [hadded] at hadd
          cases hadd
        | ok added =>
          rw [hadded] at hadd hfits
          exact addOrderByAlias_wellFormed (addRelAlias_wellFormed h hfits.1 hadded) hfits.2 hadd

/-- **A call that fits keeps the view well formed.** -/
theorem step_wellFormed {call : Call} (h : WellFormed holder.view)
    (hfits : holder.fits env call = true) (hstep : step env holder call = .ok holder') :
    WellFormed holder'.view := by
  cases call with
  | addNavigationRelAlias navigationName =>
    obtain ⟨added, hadd, rfl⟩ := Except.map_eq_ok.mp hstep
    unfold addNavigationRelAlias at hadd
    cases hnavigation : env.csdlEntityType.getNavigationProperty navigationName with
    | none =>
      rw [hnavigation] at hadd
      cases hadd
    | some navigationProperty =>
      rw [hnavigation] at hadd
      rw [fits, hnavigation] at hfits
      exact addRelAlias_wellFormed h hfits hadd
  | addPropertyRelAlias propertyName =>
    obtain ⟨added, hadd, rfl⟩ := Except.map_eq_ok.mp hstep
    unfold addPropertyRelAlias at hadd
    cases hproperty : env.csdlEntityType.getProperty propertyName with
    | none =>
      rw [hproperty] at hadd
      cases hadd
    | some csdlProperty =>
      rw [hproperty] at hadd
      rw [fits, hproperty, Option.all_some] at hfits
      dsimp only at hadd
      cases hrelAlias : csdlProperty.relAlias with
      | none =>
        rw [hrelAlias] at hadd
        cases hadd
        exact h
      | some relAlias =>
        rw [hrelAlias] at hadd hfits
        exact addRelAlias_wellFormed h hfits hadd
  | addPropertyAttr attrCsdlEntity propertyName => exact addPropertyAttr_wellFormed h hfits hstep
  | addRelAlias first relAlias entityAliasName =>
    obtain ⟨added, hadd, rfl⟩ := Except.map_eq_ok.mp hstep
    exact addRelAlias_wellFormed h hfits hadd
  | addMultiParts resourceParts aliasName =>
    obtain ⟨added, hadd, rfl⟩ := Except.map_eq_ok.mp hstep
    unfold addMultiParts at hadd
    split_ifs at hadd
    have hview : (holder.putLambdaName resourceParts aliasName).view = holder.view := by
      unfold putLambdaName
      split <;> rfl
    exact addParts_wellFormed (hview.symm ▸ h) hfits hadd
  | addFilterProperty aliasName propertyName => exact addFilterProperty_wellFormed h hfits hstep
  | addOrderByProperty aliasName propertyName => exact addOrderByProperty_wellFormed h hfits hstep

theorem newHolder_wellFormed
    (hbase : env.csdlEntityType.baseType ≠ some env.csdlEntityType.name)
    (hnew : newHolder env = .ok holder) : WellFormed holder.view := by
  have hempty : WellFormed ⟨[], [], [], []⟩ :=
    ⟨by simp, by simp, by simp, List.nodup_nil, by simp⟩
  have hmain : WellFormed (((⟨[], [], [], []⟩ : DynamicViewEntity).addMemberEntity
      env.csdlEntityType.name env.csdlEntityType.ofbizEntity).addAliasAll
      env.csdlEntityType.name) := by
    refine (hempty.addMemberEntity rfl).addAliasAll ?_
    rw [hasAlias_addMemberEntity, decide_eq_true rfl, Bool.true_or]
  unfold newHolder at hnew
  dsimp only at hnew
  cases htype : env.csdlEntityType.baseType with
  | none =>
    rw [htype] at hnew
    cases hnew
    exact hmain
  | some baseType =>
    rw [htype] at hnew hbase
    dsimp only at hnew
    split_ifs at hnew
    cases hnew
    have hother : env.csdlEntityType.name ≠ baseType := fun heq => hbase (by rw [heq])
    have hnot : ((⟨[], [], [], []⟩ : DynamicViewEntity).addMemberEntity env.csdlEntityType.name
        env.csdlEntityType.ofbizEntity).hasAlias baseType = false := by
      rw [hasAlias_addMemberEntity, decide_eq_false hother]
      rfl
    have hself : ∀ (view : DynamicViewEntity) (a : Alias) (entityName : EntityName),
        (view.addMemberEntity a entityName).hasAlias a = true := fun view a entityName => by
      rw [hasAlias_addMemberEntity, decide_eq_true rfl, Bool.true_or]
    refine ((hmain.addMemberEntity hnot).addAliasAll (hself _ _ _)).addViewLink ?_ (hself _ _ _)
    exact Bool.or_eq_true_iff.mpr (.inr (hself _ _ _))

def addressRelation : ModelRelation :=
  ⟨"OrderHeader".toList, "OrderContactMech".toList, "OrderContactMech".toList⟩

def addressAlias (name purpose : List Char) : EntityTypeRelAlias where
  name := name
  relations := ["OrderContactMech".toList]
  relationsEntity _ := some addressRelation
  relationsCondition _ := some ⟨["contactMechPurposeTypeId".toList], purpose⟩

def orderType : OfbizCsdlEntityType :=
  ⟨"Order".toList, "OrderHeader".toList, none, [], [], [], fun _ => none, fun _ => none⟩

def orderEnvironment : Environment := ⟨orderType, fun _ => none, fun _ _ => true, fun _ => .ok ()⟩

def billing : Call := .addRelAlias none (addressAlias "Billing".toList "BILLING".toList) none

def shipping : Call := .addRelAlias none (addressAlias "Shipping".toList "SHIPPING".toList) none

def purpose (entityAlias : Alias) : ModelAlias :=
  ⟨entityAlias, "contactMechPurposeTypeId".toList, "contactMechPurposeTypeId".toList⟩

def orderHolder : DynamicViewHolder :=
  ⟨⟨[⟨"Order".toList, "OrderHeader".toList⟩], ["Order".toList], [], []⟩, [], []⟩

def billingHolder : DynamicViewHolder where
  view := ⟨[⟨"OrderContactMech".toList, "OrderContactMech".toList⟩,
    ⟨"Order".toList, "OrderHeader".toList⟩], ["Order".toList], [purpose "OrderContactMech".toList],
    [⟨"Order".toList, "OrderContactMech".toList⟩]⟩
  lambdaName := []
  relAliasConditionMap := [("Order_OrderContactMech".toList, "BILLING".toList)]

def shippingHolder : DynamicViewHolder where
  view := ⟨⟨"ShippingOrderContactMech".toList, "OrderContactMech".toList⟩ ::
    billingHolder.view.memberEntities, ["Order".toList],
    [purpose "OrderContactMech".toList, purpose "ShippingOrderContactMech".toList],
    [⟨"Order".toList, "OrderContactMech".toList⟩,
      ⟨"Order".toList, "ShippingOrderContactMech".toList⟩]⟩
  lambdaName := []
  relAliasConditionMap := [("Order_ShippingOrderContactMech".toList, "SHIPPING".toList),
    ("Order_OrderContactMech".toList, "BILLING".toList)]

theorem billing_step : step orderEnvironment orderHolder billing = .ok billingHolder := by
  rfl

end Calls

end OfficeAuto.Odata.DynamicView
