import OfficeAuto.Logic.ColumnOrder
import OfficeAuto.Odata.DynamicView

/-!
# The order of a query

`OfbizOdataProcessor.retrieveOrderBy` sets up the order of a query from the items of `$orderby`. A
plain property is a field of the entity. A property of a related row, an attribute and a path need a
dynamic view, and each kind gives its field of the view a name of another make. An option that the
database cannot order by is left to the memory.

For a path to an attribute or to a property of a related row, the method returns in the middle of
its loop. The items after it are not looked at, and so the order is by all items exactly if these
ask for no further column (`retrieveOrderBy_right_iff`).
-/

namespace OfficeAuto.Odata.RetrieveOrderBy

open DynamicView Comparator
open Relations (EntityName EntityException)

/-! ### The request -/

/-- A segment of a path. The type is known for a navigation. -/
structure UriResource where
  segmentValue : List Char
  navigationType : Option (List Char)

/-- An item of `$orderby` at a primitive property, with the segments before it. -/
structure OrderByItem where
  resourcePath : List UriResource
  property : List Char
  isDescending : Bool

structure OrderByOption where
  orders : List OrderByItem
  orders_ne_nil : orders ≠ []
  text : Option (List Char)

/-- The processor before the call. A model of an entity says what fields it has; the main type is
that of the navigation if there is one. -/
structure Processor extends Environment where
  /-- By the names of the type and the property. -/
  isDateAttribute : List Char → List Char → Bool
  getBaseTypeProperty : List Char → Option OfbizCsdlProperty
  getModelEntity : EntityName → Option (List Char → Bool)
  entityName : Option EntityName
  modelEntity : Option (List Char → Bool)
  orderByOption : Option OrderByOption
  applyOption : Bool
  dynamicViewHolder : Option DynamicViewHolder

inductive Thrown where
  | entity (e : EntityException)
  | odata (message : List Char)
  deriving DecidableEq

/-- A text of the order: the name of a column with `NULLS LAST`, after a dash if the order is
descending. -/
abbrev Column := List Char × Bool

inductive OrderBy where
  | null
  | columns (columns : List Column)
  | sequenceNum
  deriving DecidableEq

/-- What the call leaves behind. -/
structure SetUp where
  orderBy : OrderBy
  dynamicViewHolder : Option DynamicViewHolder

/-- The name of the column of an item, the holder after it, and whether the method returns. -/
structure Added where
  name : List Char
  holder : Option DynamicViewHolder
  leaves : Bool

namespace Processor

variable (q : Processor)

/-! ### Items -/

def isAttr (type : OfbizCsdlEntityType) (name : List Char) (csdlProperty : OfbizCsdlProperty) :
    Bool :=
  csdlProperty.isAttribute || csdlProperty.isNumericAttribute || q.isDateAttribute type.name name

def holderOrNew : Option DynamicViewHolder → Except EntityException DynamicViewHolder
  | some holder => .ok holder
  | none => newHolder q.toEnvironment

def getProperty (name : List Char) : Option OfbizCsdlProperty :=
  (q.csdlEntityType.getProperty name).orElse fun _ =>
    if q.csdlEntityType.baseType.isSome then q.getBaseTypeProperty name else none

def addSingle (name : List Char) (holder : Option DynamicViewHolder) :
    Except EntityException Added :=
  match q.getProperty name with
  | none => .error .nullPointer
  | some csdlProperty =>
    if csdlProperty.relAlias.isSome || q.isAttr q.csdlEntityType name csdlProperty then
      (q.holderOrNew holder).bind fun holder =>
        (holder.addOrderByProperty q.toEnvironment none name).map fun holder =>
          ⟨name, some holder, false⟩
    else .ok ⟨csdlProperty.ofbizFieldName, holder, false⟩

def newCsdlEntity (lastCsdlEntityType : OfbizCsdlEntityType) (lastEntityAlias : Option Alias) :
    OfbizCsdlEntityType :=
  { lastCsdlEntityType with name := lastEntityAlias.getD [] }

def addPathAttr (lastCsdlEntityType : OfbizCsdlEntityType) (name : List Char)
    (lastEntityAlias : Option Alias) (holder : DynamicViewHolder) : Except EntityException Added :=
  (holder.addPropertyAttr q.toEnvironment (some (newCsdlEntity lastCsdlEntityType lastEntityAlias))
    -- `return` in the loop: the items after this one are dropped
    name).map fun holder => ⟨name, some holder, true⟩

def addPathRelAlias (lastCsdlEntityType : OfbizCsdlEntityType) (csdlProperty : OfbizCsdlProperty)
    (relAlias : EntityTypeRelAlias) (lastEntityAlias : Option Alias) (holder : DynamicViewHolder) :
    Except EntityException Added :=
  (holder.addRelAlias q.toEnvironment (some (newCsdlEntity lastCsdlEntityType lastEntityAlias))
    relAlias none).bind fun added =>
      match relAlias.relations.getLast? with
      | none => .error .indexOutOfBounds
      | some relation =>
        (added.1.addFilterProperty (some relation) csdlProperty.ofbizFieldName).map fun holder =>
          ⟨relation ++ csdlProperty.ofbizFieldName, some holder, true⟩

def addPathPlain (name : List Char) (lastEntityAlias : Option Alias) (holder : DynamicViewHolder) :
    Except EntityException Added :=
  (holder.addOrderByProperty q.toEnvironment lastEntityAlias name).map fun holder =>
    ⟨lastEntityAlias.getD [] ++ name, some holder, false⟩

/-- The type and the property at the end of a path, if it is a navigation that is left. -/
def pathEnd (part : UriResource) (name : List Char) :
    Except EntityException (OfbizCsdlEntityType × OfbizCsdlProperty) :=
  match part.navigationType with
  | none => .error .classCast
  | some typeName =>
    match q.getEntityType typeName with
    | none => .error .nullPointer
    | some lastCsdlEntityType =>
      match lastCsdlEntityType.getProperty name with
      | none => .error .nullPointer
      | some csdlProperty => .ok (lastCsdlEntityType, csdlProperty)

def addPathEnd (last : OfbizCsdlEntityType × OfbizCsdlProperty) (name : List Char)
    (lastEntityAlias : Option Alias) (holder : DynamicViewHolder) : Except EntityException Added :=
  if q.isAttr last.1 name last.2 then q.addPathAttr last.1 name lastEntityAlias holder
  else
    match last.2.relAlias with
    | some relAlias => q.addPathRelAlias last.1 last.2 relAlias lastEntityAlias holder
    | none => q.addPathPlain name lastEntityAlias holder

def addItem (item : OrderByItem) (holder : Option DynamicViewHolder) :
    Except EntityException Added :=
  match item.resourcePath.getLast? with
  | none => q.addSingle item.property holder
  | some part =>
    (q.holderOrNew holder).bind fun holder =>
      (holder.addMultiParts q.toEnvironment (item.resourcePath.map UriResource.segmentValue)
        none).bind fun added =>
          (q.pathEnd part item.property).bind fun last =>
            q.addPathEnd last item.property added.2 added.1

def addItems : List OrderByItem → Option DynamicViewHolder →
    Except EntityException (List Column × Option DynamicViewHolder × Bool)
  | [], holder => .ok ([], holder, false)
  | item :: orderItemList, holder => (q.addItem item holder).bind fun added =>
      if added.leaves then .ok ([(added.name, item.isDescending)], added.holder, true)
      else (addItems orderItemList added.holder).map fun rest =>
        ((added.name, item.isDescending) :: rest.1, rest.2)

/-! ### The method -/

/-- `Util.isExtraOrderby`: the database has no field for an item. -/
def isExtraOrderby : List OrderByItem → Except EntityException Bool
  | [] => .ok false
  | item :: orderItemList =>
    if item.resourcePath = [] then
      match q.csdlEntityType.getProperty item.property with
      | none => .error .nullPointer
      | some csdlProperty =>
        if (q.getModelEntity q.csdlEntityType.ofbizEntity).any fun isField =>
            !isField csdlProperty.ofbizFieldName && csdlProperty.relAlias.isNone &&
              !q.isAttr q.csdlEntityType item.property csdlProperty then .ok true
        else isExtraOrderby orderItemList
    else isExtraOrderby orderItemList

def isLeft (orderByOption : OrderByOption) : Except EntityException Bool :=
  (q.isExtraOrderby orderByOption.orders).map fun isExtra =>
    isExtra || orderByOption.text.any fun text => "/$count".toList <:+: text

/-- `Util.retrieveSimpleOrderByOption` -/
def retrieveSimpleOrderByOption : List OrderByItem → Except Thrown (List Column)
  | [] => .ok []
  | item :: orderItemList =>
    if item.resourcePath = [] then
      (retrieveSimpleOrderByOption orderItemList).map ((item.property, item.isDescending) :: ·)
    else .error (.odata "Only support one segment order by".toList)

def firstHolder : Except EntityException (Option DynamicViewHolder) :=
  if q.csdlEntityType.baseType.isSome then (q.holderOrNew q.dynamicViewHolder).map some
  else .ok q.dynamicViewHolder

def orBySequenceNum (currModelEntity : Option (List Char → Bool)) (orderBy : OrderBy)
    (holder : Option DynamicViewHolder) : Except Thrown SetUp :=
  if orderBy = .null ∨ orderBy = .columns [] then
    match currModelEntity with
    | none => .error (.entity .nullPointer)
    | some isField =>
      .ok ⟨if isField "sequenceNum".toList then .sequenceNum else orderBy, holder⟩
  else .ok ⟨orderBy, holder⟩

def orderByItems (orderByOption : OrderByOption) : Except Thrown SetUp :=
  (q.firstHolder.mapError .entity).bind fun holder =>
    ((q.addItems orderByOption.orders holder).mapError .entity).bind fun added =>
      -- the `return` in the loop leaves the method, and `sequenceNum` is not tried
      if added.2.2 then .ok ⟨.columns added.1, added.2.1⟩
      else orBySequenceNum (q.getModelEntity q.csdlEntityType.ofbizEntity) (.columns added.1)
        added.2.1

/-- **`OfbizOdataProcessor.retrieveOrderBy`**. The order before the call is `null`. -/
def retrieveOrderBy : Except Thrown SetUp :=
  if q.entityName.isNone then .ok ⟨.null, q.dynamicViewHolder⟩
  else
    match q.orderByOption with
    | none => orBySequenceNum q.modelEntity .null q.dynamicViewHolder
    | some orderByOption =>
      if q.applyOption then
        (retrieveSimpleOrderByOption orderByOption.orders).map fun columns =>
          ⟨.columns columns, q.dynamicViewHolder⟩
      else
        ((q.isLeft orderByOption).mapError .entity).bind fun isLeft =>
          if isLeft then .ok ⟨.columns [], q.dynamicViewHolder⟩ else q.orderByItems orderByOption

/-! ### An order by all items -/

def columnsOf : List OrderByItem → Option DynamicViewHolder →
    Except EntityException (List Column × Option DynamicViewHolder)
  | [], holder => .ok ([], holder)
  | item :: items, holder => (q.addItem item holder).bind fun added =>
      (columnsOf items added.holder).map fun rest =>
        ((added.name, item.isDescending) :: rest.1, rest.2)

def allColumns (orderByOption : OrderByOption) : Except Thrown (List Column) :=
  if q.applyOption then retrieveSimpleOrderByOption orderByOption.orders
  else (q.firstHolder.bind fun holder =>
    (q.columnsOf orderByOption.orders holder).map Prod.fst).mapError .entity

/-- An option that the method sets up the order of. -/
structure Orders (orderByOption : OrderByOption) : Prop where
  option : q.orderByOption = some orderByOption
  entity : q.entityName.isNone = false
  not_left : q.applyOption = false → q.isLeft orderByOption = .ok false

/-- **The order that is set up is that of all items**, for rows with any values. -/
def Right (V : Type) [LinearOrder V] : Prop :=
  ∀ orderByOption, q.Orders orderByOption → ∀ out, q.retrieveOrderBy = .ok out →
    ∃ columns all, out.orderBy = .columns columns ∧ q.allColumns orderByOption = .ok all ∧
      ∀ row row' : List Char → Option V,
        columnOrder columns row row' = columnOrder all row row'

/-! ### When it is -/

/-- An item that is a path to an attribute or to a property of a related row. -/
def leaves (item : OrderByItem) : Bool :=
  item.resourcePath.getLast?.any fun part =>
    (part.navigationType.bind q.getEntityType).any fun type =>
      (type.getProperty item.property).any fun csdlProperty =>
        q.isAttr type item.property csdlProperty || csdlProperty.relAlias.isSome

/-- The items after the first of these paths ask for no column that the order does not have. -/
def NoFurtherColumn : Prop :=
  ∀ orderByOption, q.Orders orderByOption → q.applyOption = false →
    ∀ before item after, orderByOption.orders = before ++ item :: after →
      (∀ item' ∈ before, q.leaves item' = false) → q.leaves item = true →
      ∀ first columns holder, q.firstHolder = .ok first →
        q.columnsOf (before ++ [item]) first = .ok (columns, holder) →
        ∃ later holder', q.columnsOf after holder = .ok (later, holder') ∧
          ∀ column ∈ later, column.1 ∈ columns.map Prod.fst

variable {q} {item : OrderByItem} {items items' before after : List OrderByItem}
  {holder : Option DynamicViewHolder} {added : Added} {orderByOption : OrderByOption}

theorem leaves_of_addSingle {name : List Char} (h : q.addSingle name holder = .ok added) :
    added.leaves = false := by
  unfold addSingle at h
  split at h
  · cases h
  · split_ifs at h
    · obtain ⟨holder', -, h⟩ := Except.bind_eq_ok.mp h
      obtain ⟨holder'', -, rfl⟩ := Except.map_eq_ok.mp h
      rfl
    · cases h
      rfl

theorem leaves_of_addPathEnd {last : OfbizCsdlEntityType × OfbizCsdlProperty} {name : List Char}
    {lastEntityAlias : Option Alias} {holder : DynamicViewHolder}
    (h : q.addPathEnd last name lastEntityAlias holder = .ok added) :
    added.leaves = (q.isAttr last.1 name last.2 || last.2.relAlias.isSome) := by
  unfold addPathEnd at h
  split_ifs at h with hattr
  · obtain ⟨holder', -, rfl⟩ := Except.map_eq_ok.mp h
    rw [hattr, Bool.true_or]
  · rw [Bool.not_eq_true] at hattr
    rw [hattr, Bool.false_or]
    split at h
    · next relAlias hrel =>
      obtain ⟨added', -, h⟩ := Except.bind_eq_ok.mp h
      split at h
      · cases h
      · obtain ⟨holder', -, rfl⟩ := Except.map_eq_ok.mp h
        rw [hrel]
        rfl
    · next hrel =>
      obtain ⟨holder', -, rfl⟩ := Except.map_eq_ok.mp h
      rw [hrel]
      rfl

theorem pathEnd_eq_ok {part : UriResource} {name : List Char}
    {last : OfbizCsdlEntityType × OfbizCsdlProperty} (h : q.pathEnd part name = .ok last) :
    part.navigationType.bind q.getEntityType = some last.1 ∧
      last.1.getProperty name = some last.2 := by
  unfold pathEnd at h
  split at h
  · cases h
  · next typeName htypeName =>
    split at h
    · cases h
    · next lastCsdlEntityType htype =>
      split at h
      · cases h
      · next csdlProperty hproperty =>
        cases h
        rw [htypeName]
        exact ⟨htype, hproperty⟩

theorem leaves_of_addItem (h : q.addItem item holder = .ok added) :
    added.leaves = q.leaves item := by
  unfold addItem at h
  unfold leaves
  split at h
  · next hpath =>
    rw [hpath]
    exact leaves_of_addSingle h
  · next part hpath =>
    obtain ⟨holder', -, h⟩ := Except.bind_eq_ok.mp h
    obtain ⟨multi, -, h⟩ := Except.bind_eq_ok.mp h
    obtain ⟨last, hlast, h⟩ := Except.bind_eq_ok.mp h
    obtain ⟨htype, hproperty⟩ := pathEnd_eq_ok hlast
    rw [hpath, Option.any_some, htype, Option.any_some, hproperty, Option.any_some]
    exact leaves_of_addPathEnd h

theorem columnsOf_append :
    q.columnsOf (items ++ items') holder = (q.columnsOf items holder).bind fun first =>
      (q.columnsOf items' first.2).map fun rest => (first.1 ++ rest.1, rest.2) := by
  induction items generalizing holder with
  | nil =>
    change q.columnsOf items' holder = (q.columnsOf items' holder).map fun rest => (rest.1, rest.2)
    cases q.columnsOf items' holder <;> rfl
  | cons item items ih =>
    rw [List.cons_append, columnsOf, columnsOf]
    cases q.addItem item holder with
    | error e => rfl
    | ok added =>
      change (q.columnsOf (items ++ items') added.holder).map _ = _
      rw [ih]
      change _ = ((q.columnsOf items added.holder).map _).bind _
      cases q.columnsOf items added.holder with
      | error e => rfl
      | ok first =>
        change ((q.columnsOf items' first.2).map _).map _ = (q.columnsOf items' first.2).map _
        cases q.columnsOf items' first.2 <;> rfl

theorem addItems_of_not_leaves (h : ∀ item ∈ items, q.leaves item = false) :
    q.addItems items holder =
      (q.columnsOf items holder).map fun out => (out.1, out.2, false) := by
  induction items generalizing holder with
  | nil => rfl
  | cons item items ih =>
    obtain ⟨hitem, hitems⟩ := List.forall_mem_cons.mp h
    rw [addItems, columnsOf]
    cases hadd : q.addItem item holder with
    | error e => rfl
    | ok added =>
      have hleaves : ¬added.leaves = true := by
        rw [leaves_of_addItem hadd, hitem]
        exact Bool.false_ne_true
      change (if added.leaves = true then _ else _) = ((q.columnsOf items added.holder).map _).map _
      rw [if_neg hleaves, ih hitems]
      cases q.columnsOf items added.holder <;> rfl

theorem addItems_of_leaves (hbefore : ∀ item' ∈ before, q.leaves item' = false)
    (hitem : q.leaves item = true) :
    q.addItems (before ++ item :: after) holder =
      (q.columnsOf (before ++ [item]) holder).map fun out => (out.1, out.2, true) := by
  induction before generalizing holder with
  | nil =>
    rw [List.nil_append, List.nil_append, addItems, columnsOf]
    cases hadd : q.addItem item holder with
    | error e => rfl
    | ok added =>
      have hleaves : added.leaves = true := (leaves_of_addItem hadd).trans hitem
      change (if added.leaves = true then _ else _) = _
      rw [if_pos hleaves]
      rfl
  | cons item' before ih =>
    obtain ⟨hitem', hbefore⟩ := List.forall_mem_cons.mp hbefore
    rw [List.cons_append, List.cons_append, addItems, columnsOf]
    cases hadd : q.addItem item' holder with
    | error e => rfl
    | ok added =>
      have hleaves : ¬added.leaves = true := by
        rw [leaves_of_addItem hadd, hitem']
        exact Bool.false_ne_true
      change (if added.leaves = true then _ else _) =
        ((q.columnsOf (before ++ [item]) added.holder).map _).map _
      rw [if_neg hleaves, ih hbefore]
      cases q.columnsOf (before ++ [item]) added.holder <;> rfl

theorem columnsOf_ne_nil (hitems : items ≠ []) {out : List Column × Option DynamicViewHolder}
    (h : q.columnsOf items holder = .ok out) : out.1 ≠ [] := by
  cases items with
  | nil => exact absurd rfl hitems
  | cons item items =>
    obtain ⟨added, -, h⟩ := Except.bind_eq_ok.mp h
    obtain ⟨rest, -, rfl⟩ := Except.map_eq_ok.mp h
    exact List.cons_ne_nil _ _

theorem retrieveOrderBy_of_apply (h : q.Orders orderByOption) (happly : q.applyOption = true) :
    q.retrieveOrderBy = (q.allColumns orderByOption).map fun columns =>
      ⟨.columns columns, q.dynamicViewHolder⟩ := by
  rw [retrieveOrderBy, allColumns, h.entity, h.option]
  change (if q.applyOption = true then _ else _) =
    Except.map _ (if q.applyOption = true then _ else _)
  rw [if_pos happly, if_pos happly]

theorem retrieveOrderBy_of_not_apply (h : q.Orders orderByOption) (happly : q.applyOption = false) :
    q.retrieveOrderBy = q.orderByItems orderByOption := by
  rw [retrieveOrderBy, h.entity, h.option]
  change (if q.applyOption = true then _ else _) = _
  rw [happly, if_neg Bool.false_ne_true, h.not_left happly]
  rfl

theorem allColumns_eq_ok_iff (happly : q.applyOption = false) {all : List Column} :
    q.allColumns orderByOption = .ok all ↔ ∃ first holder, q.firstHolder = .ok first ∧
      q.columnsOf orderByOption.orders first = .ok (all, holder) := by
  rw [allColumns, happly, if_neg Bool.false_ne_true, Except.mapError_eq_ok]
  refine Except.bind_eq_ok.trans ?_
  constructor
  · rintro ⟨first, hfirst, h⟩
    obtain ⟨out, hout, rfl⟩ := Except.map_eq_ok.mp h
    exact ⟨first, out.2, hfirst, hout⟩
  · rintro ⟨first, holder, hfirst, h⟩
    exact ⟨first, hfirst, Except.map_eq_ok.mpr ⟨_, h, rfl⟩⟩

theorem orderByItems_of_not_leaves (happly : q.applyOption = false)
    (hleaves : ∀ item ∈ orderByOption.orders, q.leaves item = false) {out : SetUp}
    (h : q.orderByItems orderByOption = .ok out) :
    ∃ all, out.orderBy = .columns all ∧ q.allColumns orderByOption = .ok all := by
  obtain ⟨first, hfirst, h⟩ := Except.bind_eq_ok.mp h
  obtain ⟨added, hadded, h⟩ := Except.bind_eq_ok.mp h
  rw [addItems_of_not_leaves hleaves, Except.mapError_eq_ok] at hadded
  obtain ⟨all, hall, rfl⟩ := Except.map_eq_ok.mp hadded
  have hne : all.1 ≠ [] := columnsOf_ne_nil orderByOption.orders_ne_nil hall
  have hnot : ¬(OrderBy.columns all.1 = .null ∨ OrderBy.columns all.1 = .columns []) := by
    rintro (h | h)
    · cases h
    · exact hne (OrderBy.columns.inj h)
  change orBySequenceNum _ (.columns all.1) all.2 = .ok out at h
  unfold orBySequenceNum at h
  rw [if_neg hnot] at h
  cases h
  exact ⟨all.1, rfl,
    (allColumns_eq_ok_iff happly).mpr ⟨first, all.2, Except.mapError_eq_ok.mp hfirst, hall⟩⟩

theorem orderByItems_of_leaves (horders : orderByOption.orders = before ++ item :: after)
    (hbefore : ∀ item' ∈ before, q.leaves item' = false) (hitem : q.leaves item = true)
    {out : SetUp} :
    q.orderByItems orderByOption = .ok out ↔ ∃ first columns holder,
      q.firstHolder = .ok first ∧
      q.columnsOf (before ++ [item]) first = .ok (columns, holder) ∧
      out = ⟨.columns columns, holder⟩ := by
  rw [orderByItems, horders]
  refine Except.bind_eq_ok.trans ?_
  constructor
  · rintro ⟨first, hfirst, h⟩
    obtain ⟨added, hadded, h⟩ := Except.bind_eq_ok.mp h
    rw [addItems_of_leaves hbefore hitem, Except.mapError_eq_ok] at hadded
    obtain ⟨columns, hcolumns, rfl⟩ := Except.map_eq_ok.mp hadded
    cases h
    exact ⟨first, columns.1, columns.2, Except.mapError_eq_ok.mp hfirst, hcolumns, rfl⟩
  · rintro ⟨first, columns, holder, hfirst, hcolumns, rfl⟩
    refine ⟨first, Except.mapError_eq_ok.mpr hfirst, Except.bind_eq_ok.mpr ?_⟩
    refine ⟨(columns, holder, true), ?_, rfl⟩
    rw [addItems_of_leaves hbefore hitem, Except.mapError_eq_ok]
    exact Except.map_eq_ok.mpr ⟨_, hcolumns, rfl⟩

theorem columnsOf_split (horders : orderByOption.orders = before ++ item :: after)
    {columns all : List Column} {holder' holder'' : Option DynamicViewHolder}
    (hcolumns : q.columnsOf (before ++ [item]) holder = .ok (columns, holder')) :
    q.columnsOf orderByOption.orders holder = .ok (all, holder'') ↔
      ∃ later, q.columnsOf after holder' = .ok (later, holder'') ∧ all = columns ++ later := by
  have hsplit : orderByOption.orders = (before ++ [item]) ++ after := by
    rw [horders, List.append_assoc, List.singleton_append]
  rw [hsplit, columnsOf_append, hcolumns]
  constructor
  · intro h
    obtain ⟨rest, hrest, heq⟩ := Except.map_eq_ok.mp h
    cases heq
    exact ⟨rest.1, hrest, rfl⟩
  · rintro ⟨later, hlater, rfl⟩
    exact Except.map_eq_ok.mpr ⟨_, hlater, rfl⟩

end Processor

/-! ### Shipments by the rating of their carriers -/

def partyType : OfbizCsdlEntityType where
  name := "Party".toList
  ofbizEntity := "Party".toList
  baseType := none
  attrEntityName := "PartyAttribute".toList
  attrNumericEntityName := []
  attrDateEntityName := []
  getProperty _ := some ⟨true, false, [], none⟩
  getNavigationProperty _ := none

def carrierAlias : EntityTypeRelAlias where
  name := "Carrier".toList
  relations := ["CarrierParty".toList]
  relationsEntity _ := some ⟨"Shipment".toList, "CarrierParty".toList, "Party".toList⟩
  relationsCondition _ := none

def shipmentType : OfbizCsdlEntityType where
  name := "Shipment".toList
  ofbizEntity := "Shipment".toList
  baseType := none
  attrEntityName := []
  attrNumericEntityName := []
  attrDateEntityName := []
  getProperty name := some ⟨false, false, name, none⟩
  getNavigationProperty _ := some ⟨"Party".toList, carrierAlias⟩

def byRating : OrderByOption where
  orders := [⟨[⟨"Carrier".toList, some "Party".toList⟩], "rating".toList, false⟩,
    ⟨[], "shipmentId".toList, true⟩]
  orders_ne_nil := List.cons_ne_nil _ _
  text := some "Carrier/rating,shipmentId desc".toList

def shipments : Processor where
  csdlEntityType := shipmentType
  getEntityType _ := some partyType
  hasRelation _ _ := true
  makeModelViewEntity _ := .ok ()
  isDateAttribute _ _ := false
  getBaseTypeProperty _ := none
  getModelEntity _ := some fun _ => true
  entityName := some "Shipment".toList
  modelEntity := some fun _ => true
  orderByOption := some byRating
  applyOption := false
  dynamicViewHolder := none

end OfficeAuto.Odata.RetrieveOrderBy
