import Mathlib.Data.List.AList
import Mathlib.Data.List.ReduceOption
import OfficeAuto.Entity.Agreement
import OfficeAuto.Text.Split

/-!
# Conditions of entity sets and entity types

The definition of an entity set, or of an entity type, may have a condition: a text such as
`statusTypeId=PARTY_STATUS and enabled=Y`. `Util` reads it twice. `parseEntityCondition` makes
the condition of the queries through the set, and `parseConditionMap` the values that a new
entity gets, by `Util.addEntitySetConditionToEntity`, by `OdataWriter.addEntitySetCondition`, or
put directly over the fields of the row, as for the conditions of entity types.

The two readers agree on where a clause has its key and its value, but only the first takes the
value `null` for null, and the map keeps one value for a key.  `visible_iff_agrees` says when a row
that is created through the set is visible through it all the same.
-/

namespace OfficeAuto.Odata

open Entity Text

/-! ### Variables -/

/-- What the readers of conditions may throw. -/
inductive ConditionException
  | indexOutOfBounds
  | classCast
  | illegalArgument
  deriving DecidableEq, Repr

/-- The attributes of the request that are generic values, with their `get`: a name that is no
field throws. -/
abbrev RequestAttributes := List Char → Option (FieldName → Option (Option Value))

/-- `parseVariable`: of `${userLogin.partyId}` the field of the attribute. -/
def parseVariable (request : RequestAttributes) (valueObj : List Char) :
    Except ConditionException (Option Value) :=
  if "$\x7b".toList <:+: valueObj then
    match substring valueObj 2 (indexOf '.' valueObj) with
    | none => .error .indexOutOfBounds
    | some name =>
      match request name with
      | none => .ok (some (.string valueObj))
      | some get =>
        match substring valueObj (indexOf '.' valueObj + 1) (valueObj.length - 1) with
        | none => .error .indexOutOfBounds
        | some valueField =>
          match get valueField with
          | none => .error .illegalArgument
          | some v => .ok v
  else .ok (some (.string valueObj))

def stringVariable (request : RequestAttributes) (valueStr : List Char) :
    Except ConditionException (Option (List Char)) := do
  match ← parseVariable request valueStr with
  | none => .ok none
  | some (.string s) => .ok (some s)
  | some _ => .error .classCast

/-! ### The condition of the queries -/

def expressions (separator conditionStr : List Char) : List (List Char) :=
  (splitSeq separator conditionStr).map trim

def keyValue : List (List Char) → Except ConditionException (FieldName × List Char)
  | key :: valueStr :: _ => .ok (trim key, trim valueStr)
  | _ => .error .indexOutOfBounds

def realValue (request : RequestAttributes) (valueStr : List Char) :
    Except ConditionException (Option (List Char)) :=
  if valueStr = "null".toList then .ok none else stringVariable request valueStr

def operand : Option (List Char) → Operand
  | none => .null
  | some s => .value (.string s)

/-- The values between the brackets of a collection. Without one, the collection is null. -/
def collectionValues (valueStr : List Char) : Except ConditionException (List (Option Value)) :=
  match substring valueStr 1 (valueStr.length - 1) with
  | none => .error .indexOutOfBounds
  | some inner =>
    match tokens ',' inner with
    | [] => .error .illegalArgument
    | values => .ok (values.map fun v => some (.string v))

def comparison (key : FieldName) (operator : ComparableOperator)
    (hop : operator = .equals ∨ operator = .notEqual) (v : Option (List Char)) : EntityCondition :=
  .comparable ⟨key, operator, operand v, fun _ => hop⟩

def parseExpression (request : RequestAttributes) (expression : List Char) :
    Except ConditionException (Option EntityCondition) :=
  if "!=".toList <:+: expression then do
    let (key, valueStr) ← keyValue (splitSeq "!=".toList expression)
    let v ← realValue request valueStr
    pure (some (comparison key .notEqual (Or.inr rfl) v))
  else if '=' ∈ expression then do
    let (key, valueStr) ← keyValue (split '=' expression)
    let v ← realValue request valueStr
    pure (some (comparison key .equals (Or.inl rfl) v))
  else if " not in ".toList <:+: expression then do
    let (key, valueStr) ← keyValue (splitSeq " not in ".toList expression)
    let values ← collectionValues valueStr
    pure (some (.collection ⟨key, .notIn, values, fun h => by cases h⟩))
  else if " in ".toList <:+: expression then do
    let (key, valueStr) ← keyValue (splitSeq " in ".toList expression)
    let values ← collectionValues valueStr
    pure (some (.collection ⟨key, .isIn, values, fun h => by cases h⟩))
  else pure none

/-- **`parseEntityCondition`**, without the case of null. -/
def parseEntityCondition (request : RequestAttributes) (conditionStr : List Char) :
    Except ConditionException EntityCondition :=
  if " or ".toList <:+: conditionStr then do
    let conditions ← (expressions " or ".toList conditionStr).mapM (parseExpression request)
    pure (.list conditions.reduceOption .or)
  else do
    let conditions ← (expressions " and ".toList conditionStr).mapM (parseExpression request)
    pure (.list conditions.reduceOption .and)

/-! ### The values for a new entity -/

abbrev ConditionEntry := (_ : FieldName) × Option (List Char)

abbrev ConditionMap := AList fun _ : FieldName => Option (List Char)

def putExpression (request : RequestAttributes) (conditionMap : ConditionMap)
    (expression : List Char) : Except ConditionException ConditionMap :=
  if '=' ∈ expression ∧ ¬ "!=".toList <:+: expression then do
    let (key, valueStr) ← keyValue (split '=' expression)
    let v ← stringVariable request valueStr
    pure (conditionMap.insert key v)
  else pure conditionMap

/-- **`parseConditionMap`**, without the case of null. -/
def parseConditionMap (request : RequestAttributes) (conditionStr : List Char) :
    Except ConditionException ConditionMap :=
  if " or ".toList <:+: conditionStr then pure ∅
  else (expressions " and ".toList conditionStr).foldlM (putExpression request) ∅

/-! ### Entities -/

inductive PropertyValue
  | boolean (b : Bool)
  | value (v : Value)
  deriving DecidableEq, Repr

/-- The type of a property, as far as `entityToMap` asks for it. -/
inductive PropertyType
  | boolean
  | coded (codes : List (ℤ × String))
  | other

def maritalStatus : PropertyType :=
  .coded [(1, "S"), (2, "M"), (3, "P"), (4, "D"), (5, "W")]

def gender : PropertyType := .coded [(1, "M"), (2, "F")]

/-- The value type of a property: enumerations have `getEnumIdFromValue`, whose exceptions are
caught; collections and complex values are skipped. -/
inductive ValueType
  | primitive
  | enum (getEnumIdFromValue : PropertyValue → Option (Option (List Char)))
  | structured

structure Property where
  name : FieldName
  type : PropertyType
  valueType : ValueType
  value : Option PropertyValue

structure EntityToWrite where
  type : List Char
  properties : List Property

/-- `UtilValidate.isEmpty` of the value of a property. -/
def isEmptyValue : Option PropertyValue → Bool
  | none => true
  | some (.boolean _) => false
  | some (.value v) => v == .string []

def indicator (b : Bool) : Value := .string (if b then "Y" else "N").toList

def putProperty (result : Row) (property : Property) : Except ConditionException Row :=
  match property.valueType, property.value with
  | .structured, _ => .ok result
  | _, none => .ok result
  | valueType, some v =>
    if isEmptyValue (some v) then .ok result
    else match property.type, v with
      | .boolean, .boolean b => .ok (Function.update result property.name (some (indicator b)))
      | .boolean, .value _ => .error .classCast
      | .coded codes, .value (.long n) =>
        match codes.lookup n with
        | none => .ok result
        | some code =>
          .ok (Function.update result property.name (some (.string code.toList)))
      | .coded _, _ => .error .classCast
      | .other, v =>
        match valueType, v with
        | .enum getEnumIdFromValue, v =>
          match getEnumIdFromValue v with
          | none => .ok result
          | some enumId => .ok (Function.update result property.name (enumId.map .string))
        | _, .boolean b => .ok (Function.update result property.name (some (indicator b)))
        | _, .value v => .ok (Function.update result property.name (some v))

/-- **`entityToMap`.** -/
def entityToMap (properties : List Property) : Except ConditionException Row :=
  properties.foldlM putProperty fun _ => none

def conditionProperty (type : PropertyType) (entry : ConditionEntry) : Property :=
  ⟨entry.1, type, .primitive, entry.2.map fun s => .value (.string s)⟩

/-- The loop of `addEntitySetConditionToEntity` at one entry: a property that the entity has
stays. -/
def addIfAbsent (properties : List Property) (entry : ConditionEntry) :
    List Property :=
  if properties.any fun property => property.name == entry.1 then properties
  else properties ++ [conditionProperty .other entry]

/-- **`Util.addEntitySetConditionToEntity`.** -/
def addEntitySetConditionToEntity (request : RequestAttributes) (conditionStr : List Char)
    (entityToWrite : EntityToWrite) : Except ConditionException EntityToWrite := do
  let conditionMap ← parseConditionMap request conditionStr
  pure { entityToWrite with
    properties := conditionMap.entries.foldl addIfAbsent entityToWrite.properties }

/-- **`OdataWriter.addEntitySetCondition`**, for an entity set of a type with these properties. An
entity of another type is left alone. -/
def addEntitySetCondition (fullQualifiedTypeName : List Char)
    (getProperty : FieldName → Option PropertyType) (request : RequestAttributes)
    (conditionStr : List Char) (entityToWrite : EntityToWrite) :
    Except ConditionException EntityToWrite :=
  if entityToWrite.type ≠ fullQualifiedTypeName then .ok entityToWrite
  else do
    let conditionMap ← parseConditionMap request conditionStr
    pure { entityToWrite with
      properties := entityToWrite.properties ++
        conditionMap.entries.map fun entry =>
          conditionProperty ((getProperty entry.1).getD .other) entry }

/-- Who puts the values of the condition into a new entity. -/
inductive Creation
  | util
  | writer (fullQualifiedTypeName : List Char) (getProperty : FieldName → Option PropertyType)
  | putAll

/-- **The row of a new entity.** `fieldMap.putAll(conditionMap)` comes after `entityToMap`. -/
def Creation.create (creation : Creation) (request : RequestAttributes)
    (conditionStr : List Char) (entityToWrite : EntityToWrite) :
    Except ConditionException Row :=
  match creation with
  | .util => do
    let entity ← addEntitySetConditionToEntity request conditionStr entityToWrite
    entityToMap entity.properties
  | .writer fullQualifiedTypeName getProperty => do
    let entity ← addEntitySetCondition fullQualifiedTypeName getProperty request conditionStr
      entityToWrite
    entityToMap entity.properties
  | .putAll => do
    let fieldMap ← entityToMap entityToWrite.properties
    let conditionMap ← parseConditionMap request conditionStr
    pure (conditionMap.entries.foldl
      (fun row entry => Function.update row entry.1 (entry.2.map .string)) fieldMap)

/-! ### Conjunctions of equalities -/

def IsEqualities (conditionStr : List Char) : Prop :=
  ¬ " or ".toList <:+: conditionStr ∧
    ∀ expression ∈ expressions " and ".toList conditionStr,
      '=' ∈ expression ∧ ¬ "!=".toList <:+: expression

def clause (expression : List Char) : Option (FieldName × List Char) :=
  (keyValue (split '=' expression)).toOption

def clauses (conditionStr : List Char) : List (FieldName × List Char) :=
  (expressions " and ".toList conditionStr).filterMap clause

def lastValueStr (conditionStr : List Char) (key : FieldName) : Option (List Char) :=
  (clauses conditionStr).reverse.lookup key

/-- The creation keeps what the client has sent for a field: in `Util` every property that the
entity has, in `OdataWriter` the properties of another type, and those whose value in the
condition is empty. -/
def Creation.Keeps (creation : Creation) (request : RequestAttributes) (conditionStr : List Char)
    (entityToWrite : EntityToWrite) (key : FieldName) : Prop :=
  match creation with
  | .util => ∃ property ∈ entityToWrite.properties, property.name = key
  | .writer fullQualifiedTypeName _ => entityToWrite.type ≠ fullQualifiedTypeName ∨
      ∃ valueStr u, lastValueStr conditionStr key = some valueStr ∧
        stringVariable request valueStr = .ok u ∧ (u = none ∨ u = some [])
  | .putAll => False

/-- The values for a new entity fit the clauses: what is kept from the client is the value of
each clause; and otherwise the text of the last clause of the key, where `null` is no null, gives
the value of each, and one that is not empty. -/
def Creation.Agrees (creation : Creation) (request : RequestAttributes) (conditionStr : List Char)
    (entityToWrite : EntityToWrite) : Prop :=
  ∀ key valueStr w, (key, valueStr) ∈ clauses conditionStr → realValue request valueStr = .ok w →
    (creation.Keeps request conditionStr entityToWrite key →
      ∀ client, entityToMap entityToWrite.properties = .ok client →
        client key = w.map .string) ∧
    (¬ creation.Keeps request conditionStr entityToWrite key →
      ∀ last u, lastValueStr conditionStr key = some last → stringVariable request last = .ok u →
        u = w ∧ (u = some [] → creation = .putAll))

section

variable {request : RequestAttributes} {conditionStr : List Char}

/-! ### The condition -/

theorem compareTo_string {u : Value} {s : List Char} :
    u.compareTo (.string s) = some .eq ↔ u = .string s := by
  constructor
  · intro h
    refine Value.eq_of_compareTo (fun b hb => ?_) h
    rw [hb] at h
    cases h
  · rintro rfl
    exact Value.compareTo_self _

theorem selects_comparison_equals {row : Row} {key : FieldName} {v : Option (List Char)}
    {hop : ComparableOperator.equals = .equals ∨ ComparableOperator.equals = .notEqual} :
    selects row (comparison key .equals hop v).makeWhereString = true ↔
      row key = v.map .string := by
  rw [comparison, EntityCondition.selects_comparable, decide_eq_true_iff]
  cases v with
  | none => cases hrow : row key <;> simp [operand, ComparableExpr.toSql, Sql.eval, hrow]
  | some s =>
    change sqlCompare Ordering.isEq (row key) (some (.string s)) = .true ↔ _
    cases row key with
    | none => simp [sqlCompare]
    | some u => rw [sqlCompare_isEq, compareTo_string, Option.map_some, Option.some_inj]

theorem parseExpression_equality {expression : List Char} (heq : '=' ∈ expression)
    (hne : ¬ "!=".toList <:+: expression) {condition : Option EntityCondition} :
    parseExpression request expression = .ok condition ↔
      ∃ key valueStr w, keyValue (split '=' expression) = .ok (key, valueStr) ∧
        realValue request valueStr = .ok w ∧
        condition = some (comparison key .equals (Or.inl rfl) w) := by
  rw [parseExpression, if_neg hne, if_pos heq, Except.bind_eq_ok]
  constructor
  · rintro ⟨⟨key, valueStr⟩, hkey, h⟩
    obtain ⟨w, hw, h⟩ := Except.bind_eq_ok.mp h
    exact ⟨key, valueStr, w, hkey, hw, (Except.pure_eq_ok.mp h).symm⟩
  · rintro ⟨key, valueStr, w, hkey, hw, rfl⟩
    exact ⟨(key, valueStr), hkey, Except.bind_eq_ok.mpr ⟨w, hw, rfl⟩⟩

theorem clause_eq_some {expression : List Char} {key : FieldName} {valueStr : List Char} :
    clause expression = some (key, valueStr) ↔
      keyValue (split '=' expression) = .ok (key, valueStr) := by
  rw [clause]
  cases keyValue (split '=' expression) <;> simp [Except.toOption]

theorem mem_clauses {key : FieldName} {valueStr : List Char} :
    (key, valueStr) ∈ clauses conditionStr ↔
      ∃ expression ∈ expressions " and ".toList conditionStr,
        keyValue (split '=' expression) = .ok (key, valueStr) := by
  rw [clauses, List.mem_filterMap]
  exact exists_congr fun expression => and_congr_right fun _ => clause_eq_some

/-- **What the condition of equalities selects**: the rows with the value of each clause. -/
theorem selects_parseEntityCondition (hs : IsEqualities conditionStr) {c : EntityCondition}
    (hc : parseEntityCondition request conditionStr = .ok c) (row : Row) :
    selects row c.makeWhereString = true ↔
      ∀ key valueStr w, (key, valueStr) ∈ clauses conditionStr →
        realValue request valueStr = .ok w → row key = w.map .string := by
  rw [parseEntityCondition, if_neg hs.1] at hc
  obtain ⟨conditions, hconditions, hc⟩ := Except.bind_eq_ok.mp hc
  obtain rfl := Except.pure_eq_ok.mp hc
  -- the members of the list are the comparisons of the clauses
  have hmember (d : EntityCondition) : d ∈ conditions.reduceOption ↔
      ∃ key valueStr w, (key, valueStr) ∈ clauses conditionStr ∧
        realValue request valueStr = .ok w ∧ d = comparison key .equals (Or.inl rfl) w := by
    rw [List.reduceOption_mem_iff, Except.mem_of_mapM_eq_ok hconditions]
    constructor
    · rintro ⟨expression, hmem, hparse⟩
      obtain ⟨heq, hne⟩ := hs.2 expression hmem
      obtain ⟨key, valueStr, w, hkey, hw, hd⟩ := (parseExpression_equality heq hne).mp hparse
      exact ⟨key, valueStr, w, mem_clauses.mpr ⟨expression, hmem, hkey⟩, hw, Option.some.inj hd⟩
    · rintro ⟨key, valueStr, w, hclause, hw, rfl⟩
      obtain ⟨expression, hmem, hkey⟩ := mem_clauses.mp hclause
      obtain ⟨heq, hne⟩ := hs.2 expression hmem
      exact ⟨expression, hmem, (parseExpression_equality heq hne).mpr
        ⟨key, valueStr, w, hkey, hw, rfl⟩⟩
  have htext : ∀ d ∈ conditions.reduceOption, d.HasText := by
    intro d hd
    obtain ⟨key, valueStr, w, _, _, rfl⟩ := (hmember d).mp hd
    trivial
  rw [EntityCondition.selects_and htext, List.all_eq_true]
  constructor
  · intro h key valueStr w hclause hw
    exact selects_comparison_equals.mp (h _ ((hmember _).mpr ⟨key, valueStr, w, hclause, hw, rfl⟩))
  · intro h d hd
    obtain ⟨key, valueStr, w, hclause, hw, rfl⟩ := (hmember d).mp hd
    exact selects_comparison_equals.mpr (h key valueStr w hclause hw)

/-! ### The map -/

theorem lookup_foldlM_putExpression {es : List (List Char)}
    (hes : ∀ expression ∈ es, '=' ∈ expression ∧ ¬ "!=".toList <:+: expression)
    {conditionMap conditionMap' : ConditionMap}
    (h : es.foldlM (putExpression request) conditionMap = .ok conditionMap') (key : FieldName) :
    match (es.filterMap clause).reverse.lookup key with
    | none => conditionMap'.lookup key = conditionMap.lookup key
    | some valueStr => ∃ u, stringVariable request valueStr = .ok u ∧
        conditionMap'.lookup key = some u := by
  induction es generalizing conditionMap with
  | nil =>
    obtain rfl := Except.pure_eq_ok.mp h
    rfl
  | cons expression es ih =>
    rw [List.foldlM_cons] at h
    obtain ⟨conditionMap₁, hput, h⟩ := Except.bind_eq_ok.mp h
    rw [putExpression, if_pos (hes expression List.mem_cons_self)] at hput
    obtain ⟨⟨key₁, valueStr₁⟩, hkey, hput⟩ := Except.bind_eq_ok.mp hput
    obtain ⟨u, hu, hput⟩ := Except.bind_eq_ok.mp hput
    obtain rfl := Except.pure_eq_ok.mp hput
    have hrest := ih (fun e he => hes e (List.mem_cons_of_mem _ he)) h
    rw [List.filterMap_cons_some (clause_eq_some.mpr hkey), List.reverse_cons, List.lookup_append,
      List.lookup_singleton]
    revert hrest
    generalize (es.filterMap clause).reverse.lookup key = last
    intro hrest
    cases last with
    | some valueStr => exact hrest
    | none =>
      by_cases heq : key = key₁
      · subst heq
        rw [if_pos (beq_self_eq_true key)]
        exact ⟨u, hu, hrest.trans (AList.lookup_insert _)⟩
      · rw [if_neg (by simpa using heq)]
        exact hrest.trans (AList.lookup_insert_ne heq)

theorem lookup_parseConditionMap (hs : IsEqualities conditionStr) {conditionMap : ConditionMap}
    (h : parseConditionMap request conditionStr = .ok conditionMap) {key : FieldName}
    {last : List Char} (hlast : lastValueStr conditionStr key = some last) :
    ∃ u, stringVariable request last = .ok u ∧ conditionMap.lookup key = some u := by
  rw [parseConditionMap, if_neg hs.1] at h
  have hlookup := lookup_foldlM_putExpression hs.2 h key
  rw [lastValueStr, clauses] at hlast
  rwa [hlast] at hlookup

/-! ### The fields of an entity -/

theorem putProperty_cases {row row' : Row} {property : Property}
    (h : putProperty row property = .ok row') :
    row' = row ∨ ∃ v, row' = Function.update row property.name v := by
  obtain ⟨name, type, valueType, value⟩ := property
  unfold putProperty at h
  split at h
  · exact Or.inl (Except.ok.inj h).symm
  · exact Or.inl (Except.ok.inj h).symm
  · split at h
    · exact Or.inl (Except.ok.inj h).symm
    · split at h
      · exact Or.inr ⟨_, (Except.ok.inj h).symm⟩
      · cases h
      · split at h
        · exact Or.inl (Except.ok.inj h).symm
        · exact Or.inr ⟨_, (Except.ok.inj h).symm⟩
      · cases h
      · split at h
        · split at h
          · exact Or.inl (Except.ok.inj h).symm
          · exact Or.inr ⟨_, (Except.ok.inj h).symm⟩
        · exact Or.inr ⟨_, (Except.ok.inj h).symm⟩
        · exact Or.inr ⟨_, (Except.ok.inj h).symm⟩

theorem putProperty_of_ne {row row' : Row} {property : Property} {key : FieldName}
    (h : putProperty row property = .ok row') (hne : key ≠ property.name) :
    row' key = row key := by
  obtain rfl | ⟨v, rfl⟩ := putProperty_cases h
  · rfl
  · exact Function.update_of_ne hne v row

theorem foldlM_putProperty_of_absent {properties : List Property} {row row' : Row}
    (h : properties.foldlM putProperty row = .ok row') {key : FieldName}
    (habsent : ¬ ∃ property ∈ properties, property.name = key) : row' key = row key := by
  induction properties generalizing row with
  | nil => rw [Except.pure_eq_ok.mp h]
  | cons property properties ih =>
    rw [List.foldlM_cons] at h
    obtain ⟨row₁, hput, h⟩ := Except.bind_eq_ok.mp h
    have hne : key ≠ property.name :=
      fun heq => habsent ⟨property, List.mem_cons_self, heq.symm⟩
    rw [ih h (fun ⟨p, hp, hname⟩ => habsent ⟨p, List.mem_cons_of_mem _ hp, hname⟩),
      putProperty_of_ne hput hne]

theorem entityToMap_of_absent {properties : List Property} {row : Row}
    (h : entityToMap properties = .ok row) {key : FieldName}
    (habsent : ¬ ∃ property ∈ properties, property.name = key) : row key = none :=
  foldlM_putProperty_of_absent h habsent

theorem putProperty_conditionProperty {row row' : Row} {type : PropertyType}
    {entry : ConditionEntry} (h : putProperty row (conditionProperty type entry) = .ok row') :
    row' entry.1 = if entry.2 = none ∨ entry.2 = some [] then row entry.1
      else entry.2.map .string := by
  obtain ⟨key, u⟩ := entry
  match u with
  | none =>
    obtain rfl := Except.ok.inj h
    rw [if_pos (Or.inl rfl)]
  | some [] =>
    obtain rfl := Except.ok.inj h
    rw [if_pos (Or.inr rfl)]
  | some (c :: s) =>
    rw [if_neg (by simp)]
    cases type with
    | boolean => cases h
    | coded codes => cases h
    | other =>
      obtain rfl := Except.ok.inj h
      exact Function.update_self _ _ _

theorem entityToMap_append {properties added : List Property} {row : Row} :
    entityToMap (properties ++ added) = .ok row ↔
      ∃ client, entityToMap properties = .ok client ∧
        added.foldlM putProperty client = .ok row := by
  rw [entityToMap, List.foldlM_append, Except.bind_eq_ok]
  rfl

/-! ### The entries of the map -/

theorem foldlM_conditionProperty (types : FieldName → PropertyType) {entries : List ConditionEntry}
    (hnodup : entries.NodupKeys) {client row : Row}
    (h : (entries.map fun entry => conditionProperty (types entry.1) entry).foldlM putProperty
      client = .ok row) {key : FieldName} {u : Option (List Char)}
    (hlookup : entries.dlookup key = some u) :
    row key = if u = none ∨ u = some [] then client key else u.map .string := by
  induction entries generalizing client with
  | nil => cases hlookup
  | cons entry entries ih =>
    obtain ⟨hnew, hnodup'⟩ := List.nodupKeys_cons.mp hnodup
    rw [List.map_cons, List.foldlM_cons] at h
    obtain ⟨row₁, hput, hrow⟩ := Except.bind_eq_ok.mp h
    by_cases heq : key = entry.1
    · subst heq
      have hrest : ¬ ∃ property ∈ entries.map fun entry => conditionProperty (types entry.1) entry,
          property.name = entry.1 := by
        rintro ⟨property, hmem, hname⟩
        obtain ⟨entry', hentry', rfl⟩ := List.mem_map.mp hmem
        exact hnew (hname ▸ List.mem_keys_of_mem hentry')
      obtain ⟨key, v⟩ := entry
      obtain rfl := Option.some.inj ((List.dlookup_cons_eq _ _ _).symm.trans hlookup)
      rw [foldlM_putProperty_of_absent hrow hrest, putProperty_conditionProperty hput]
    · rw [List.dlookup_cons_ne _ _ heq] at hlookup
      rw [ih hnodup' hrow hlookup, putProperty_of_ne hput heq]

theorem entityToMap_addIfAbsent {entries : List ConditionEntry} (hnodup : entries.NodupKeys)
    {properties : List Property} {row : Row}
    (h : entityToMap (entries.foldl addIfAbsent properties) = .ok row) :
    ∃ client, entityToMap properties = .ok client ∧ ∀ key,
      ((∃ property ∈ properties, property.name = key) → row key = client key) ∧
      ((¬ ∃ property ∈ properties, property.name = key) → ∀ u, entries.dlookup key = some u →
        row key = if u = none ∨ u = some [] then none else u.map .string) := by
  induction entries generalizing properties with
  | nil => exact ⟨row, h, fun key => ⟨fun _ => rfl, fun _ u hu => by cases hu⟩⟩
  | cons entry entries ih =>
    obtain ⟨hnew, hnodup'⟩ := List.nodupKeys_cons.mp hnodup
    obtain ⟨key₁, u₁⟩ := entry
    rw [List.foldl_cons] at h
    obtain ⟨client₁, hclient₁, hrow⟩ := ih hnodup' h
    by_cases hany : ∃ property ∈ properties, property.name = key₁
    · have hsame : addIfAbsent properties ⟨key₁, u₁⟩ = properties := by
        rw [addIfAbsent, if_pos (by simpa using hany)]
      rw [hsame] at hclient₁ hrow
      refine ⟨client₁, hclient₁, fun key => ⟨(hrow key).1, fun habsent u hu => ?_⟩⟩
      have hne : key ≠ key₁ := fun heq => habsent (heq ▸ hany)
      rw [List.dlookup_cons_ne _ _ hne] at hu
      exact (hrow key).2 habsent u hu
    · have hadd : addIfAbsent properties ⟨key₁, u₁⟩ =
          properties ++ [conditionProperty .other ⟨key₁, u₁⟩] := by
        rw [addIfAbsent, if_neg (by simpa using hany)]
      rw [hadd] at hclient₁ hrow
      obtain ⟨client, hclient, hput⟩ := entityToMap_append.mp hclient₁
      rw [List.foldlM_cons] at hput
      obtain ⟨client₂, hput', heq⟩ := Except.bind_eq_ok.mp hput
      obtain rfl := Except.pure_eq_ok.mp heq
      refine ⟨client, hclient, fun key => ⟨fun hpresent => ?_, fun habsent u hu => ?_⟩⟩
      · have hne : key ≠ key₁ := fun heq => hany (heq ▸ hpresent)
        obtain ⟨property, hmem, hname⟩ := hpresent
        rw [(hrow key).1 ⟨property, List.mem_append_left _ hmem, hname⟩]
        exact putProperty_of_ne hput' hne
      · by_cases heq : key = key₁
        · subst heq
          obtain rfl := Option.some.inj ((List.dlookup_cons_eq _ _ _).symm.trans hu)
          have hnull := entityToMap_of_absent hclient habsent
          have hnow : ∃ property ∈ properties ++ [conditionProperty .other ⟨key, u₁⟩],
              property.name = key :=
            ⟨_, List.mem_append_right _ (List.mem_singleton.mpr rfl), rfl⟩
          rw [(hrow key).1 hnow, putProperty_conditionProperty hput', hnull]
        · rw [List.dlookup_cons_ne _ _ heq] at hu
          refine (hrow key).2 ?_ u hu
          rintro ⟨property, hmem, hname⟩
          obtain hmem | hmem := List.mem_append.mp hmem
          · exact habsent ⟨property, hmem, hname⟩
          · obtain rfl := List.mem_singleton.mp hmem
            exact heq hname.symm

theorem foldl_update_of_dlookup {entries : List ConditionEntry} (hnodup : entries.NodupKeys)
    (row : Row) {key : FieldName} {u : Option (List Char)}
    (hlookup : entries.dlookup key = some u) :
    entries.foldl (fun row entry => Function.update row entry.1 (entry.2.map .string)) row key =
      u.map .string := by
  have habsent (entries : List ConditionEntry) (row : Row) (h : key ∉ entries.keys) :
      entries.foldl (fun row entry => Function.update row entry.1 (entry.2.map .string)) row key =
        row key := by
    induction entries generalizing row with
    | nil => rfl
    | cons entry entries ih =>
      rw [List.keys_cons, List.mem_cons, not_or] at h
      rw [List.foldl_cons, ih _ h.2, Function.update_of_ne h.1]
  induction entries generalizing row with
  | nil => cases hlookup
  | cons entry entries ih =>
    obtain ⟨hnew, hnodup'⟩ := List.nodupKeys_cons.mp hnodup
    rw [List.foldl_cons]
    by_cases heq : key = entry.1
    · obtain ⟨key₁, u₁⟩ := entry
      subst heq
      obtain rfl := Option.some.inj ((List.dlookup_cons_eq _ _ _).symm.trans hlookup)
      rw [habsent _ _ hnew, Function.update_self]
    · rw [List.dlookup_cons_ne _ _ heq] at hlookup
      exact ih hnodup' _ hlookup

/-! ### Creation -/

/-- **What a creation stores** for a key of the condition: what the client has sent, or the value
of the last clause. -/
theorem Creation.create_eq {creation : Creation} {entityToWrite : EntityToWrite} {row : Row}
    (hs : IsEqualities conditionStr)
    (h : creation.create request conditionStr entityToWrite = .ok row) {key : FieldName}
    {last : List Char} (hlast : lastValueStr conditionStr key = some last) :
    (creation.Keeps request conditionStr entityToWrite key ∧
      ∃ client, entityToMap entityToWrite.properties = .ok client ∧ row key = client key) ∨
    (¬ creation.Keeps request conditionStr entityToWrite key ∧
      ∃ u, stringVariable request last = .ok u ∧
        ((u = some [] ∧ creation ≠ .putAll ∧ row key = none) ∨
          ((u = some [] → creation = .putAll) ∧ row key = u.map .string))) := by
  cases creation with
  | util =>
    obtain ⟨entity, hentity, h⟩ := Except.bind_eq_ok.mp h
    obtain ⟨conditionMap, hmap, hentity⟩ := Except.bind_eq_ok.mp hentity
    obtain rfl := Except.pure_eq_ok.mp hentity
    obtain ⟨u, hu, hlookup⟩ := lookup_parseConditionMap hs hmap hlast
    obtain ⟨client, hclient, hrow⟩ := entityToMap_addIfAbsent conditionMap.nodupKeys h
    -- a key that the client has sent is not added again
    by_cases hkeeps : Creation.util.Keeps request conditionStr entityToWrite key
    · exact Or.inl ⟨hkeeps, client, hclient, (hrow key).1 hkeeps⟩
    · refine Or.inr ⟨hkeeps, u, hu, ?_⟩
      have hstored := (hrow key).2 hkeeps u hlookup
      by_cases hempty : u = some []
      · exact Or.inl ⟨hempty, (fun h => by cases h),
          by rw [hstored, if_pos (Or.inr hempty)]⟩
      · refine Or.inr ⟨fun h => absurd h hempty, ?_⟩
        rw [hstored]
        cases u <;> simp [hempty]
  | writer fullQualifiedTypeName getProperty =>
    obtain ⟨entity, hentity, h⟩ := Except.bind_eq_ok.mp h
    by_cases htype : entityToWrite.type = fullQualifiedTypeName
    · rw [addEntitySetCondition, if_neg (not_not.mpr htype)] at hentity
      obtain ⟨conditionMap, hmap, hentity⟩ := Except.bind_eq_ok.mp hentity
      obtain rfl := Except.pure_eq_ok.mp hentity
      obtain ⟨u, hu, hlookup⟩ := lookup_parseConditionMap hs hmap hlast
      obtain ⟨client, hclient, hadded⟩ := entityToMap_append.mp h
      have hstored : row key = if u = none ∨ u = some [] then client key else u.map .string :=
        foldlM_conditionProperty (fun key => (getProperty key).getD .other) conditionMap.nodupKeys
          hadded hlookup
      by_cases hempty : u = none ∨ u = some []
      · rw [if_pos hempty] at hstored
        exact Or.inl ⟨Or.inr ⟨last, u, hlast, hu, hempty⟩, client, hclient, hstored⟩
      · rw [if_neg hempty] at hstored
        refine Or.inr ⟨?_, u, hu, Or.inr ⟨fun h => absurd (Or.inr h) hempty, hstored⟩⟩
        rintro (htype' | ⟨last', u', hlast', hu', hempty'⟩)
        · exact htype' htype
        · obtain rfl := Option.some.inj (hlast.symm.trans hlast')
          obtain rfl := Except.ok.inj (hu.symm.trans hu')
          exact hempty hempty'
    · -- an entity of another type is created as it has been sent
      rw [addEntitySetCondition, if_pos htype] at hentity
      obtain rfl := Except.ok.inj hentity
      exact Or.inl ⟨Or.inl htype, row, h, rfl⟩
  | putAll =>
    obtain ⟨client, hclient, h⟩ := Except.bind_eq_ok.mp h
    obtain ⟨conditionMap, hmap, h⟩ := Except.bind_eq_ok.mp h
    obtain rfl := Except.pure_eq_ok.mp h
    obtain ⟨u, hu, hlookup⟩ := lookup_parseConditionMap hs hmap hlast
    exact Or.inr ⟨id, u, hu, Or.inr ⟨fun _ => rfl,
      foldl_update_of_dlookup conditionMap.nodupKeys client hlookup⟩⟩

theorem exists_lastValueStr {key : FieldName} {valueStr : List Char}
    (h : (key, valueStr) ∈ clauses conditionStr) :
    ∃ last, lastValueStr conditionStr key = some last ∧ (key, last) ∈ clauses conditionStr := by
  cases hlast : lastValueStr conditionStr key with
  | none =>
    have habsent := List.lookup_eq_none_iff.mp hlast (key, valueStr) (List.mem_reverse.mpr h)
    simp at habsent
  | some last =>
    obtain ⟨l₁, l₂, hsplit, _⟩ := List.lookup_eq_some_iff.mp hlast
    refine ⟨last, rfl, List.mem_reverse.mp ?_⟩
    rw [hsplit]
    exact List.mem_append_right _ List.mem_cons_self

theorem realValue_of_ne_null {valueStr : List Char} {u : Option (List Char)}
    (hu : stringVariable request valueStr = .ok u) (hne : u ≠ some "null".toList) :
    realValue request valueStr = .ok u := by
  have hnull : valueStr ≠ "null".toList := by
    rintro rfl
    have hplain : stringVariable request "null".toList = .ok (some "null".toList) := by
      rw [stringVariable, parseVariable, if_neg (by decide)]
      rfl
    exact hne (Except.ok.inj (hu.symm.trans hplain))
  rw [realValue, if_neg hnull, hu]

/-- **When a created row is visible.** A row that is created through an entity set with a
condition of equalities is selected by that condition if and only if the values for the new
entity fit the clauses. -/
theorem visible_iff_agrees (creation : Creation) (request : RequestAttributes)
    (conditionStr : List Char) (entityToWrite : EntityToWrite) (hs : IsEqualities conditionStr)
    {c : EntityCondition} (hc : parseEntityCondition request conditionStr = .ok c) {row : Row}
    (hrow : creation.create request conditionStr entityToWrite = .ok row) :
    selects row c.makeWhereString = true ↔
      creation.Agrees request conditionStr entityToWrite := by
  rw [selects_parseEntityCondition hs hc]
  constructor
  · intro h key valueStr w hclause hw
    obtain ⟨last, hlast, hlastmem⟩ := exists_lastValueStr hclause
    obtain ⟨hkeeps, client, hclient, hkey⟩ | ⟨hkeeps, u, hu, hkey⟩ :=
      Creation.create_eq hs hrow hlast
    · refine ⟨fun _ client' hclient' => ?_, fun hnot => absurd hkeeps hnot⟩
      obtain rfl := Except.ok.inj (hclient.symm.trans hclient')
      rw [← hkey]
      exact h key valueStr w hclause hw
    · refine ⟨fun hyes => absurd hyes hkeeps, fun _ last' u' hlast' hu' => ?_⟩
      obtain rfl := Option.some.inj (hlast.symm.trans hlast')
      obtain rfl := Except.ok.inj (hu.symm.trans hu')
      obtain ⟨rfl, _, hnone⟩ | ⟨hempty, hstored⟩ := hkey
      · -- the last clause itself asks for the empty text
        have hreal := realValue_of_ne_null hu (by decide)
        have hsel := h key last _ hlastmem hreal
        rw [hnone] at hsel
        cases hsel
      · refine ⟨?_, hempty⟩
        have hsel := h key valueStr w hclause hw
        rw [hstored] at hsel
        exact Option.map_injective (fun _ _ h => Value.string.inj h) hsel
  · intro h key valueStr w hclause hw
    obtain ⟨last, hlast, _⟩ := exists_lastValueStr hclause
    obtain ⟨hkept, hput⟩ := h key valueStr w hclause hw
    obtain ⟨hkeeps, client, hclient, hkey⟩ | ⟨hkeeps, u, hu, hkey⟩ :=
      Creation.create_eq hs hrow hlast
    · rw [hkey]
      exact hkept hkeeps client hclient
    · obtain ⟨rfl, hall⟩ := hput hkeeps last u hlast hu
      obtain ⟨rfl, hne, _⟩ | ⟨_, hstored⟩ := hkey
      · exact absurd (hall rfl) hne
      · exact hstored

end

/-! ### The text null and a value of the client -/

def noAttributes : RequestAttributes := fun _ => none

def newEntity (properties : List Property) : EntityToWrite :=
  ⟨"com.dpbird.Status".toList, properties⟩

/-- The condition of a set of enabled statuses of one type, and the row that is created. -/
def enabledStatus : EntityCondition :=
  .list [comparison "typeId".toList .equals (Or.inl rfl) (some "PARTY".toList),
    comparison "enabled".toList .equals (Or.inl rfl) (some "Y".toList)] .and

def enabledStatusRow : Row :=
  Function.update (Function.update (fun _ => none) "enabled".toList (some (.string "Y".toList)))
    "typeId".toList (some (.string "PARTY".toList))

theorem isEqualities_enabledStatus : IsEqualities "typeId = PARTY and enabled=Y".toList := by
  unfold IsEqualities
  decide

theorem visible_iff_agrees_enabledStatus :
    selects enabledStatusRow enabledStatus.makeWhereString = true ↔
      Creation.util.Agrees noAttributes "typeId = PARTY and enabled=Y".toList (newEntity []) :=
  visible_iff_agrees .util noAttributes _ _ isEqualities_enabledStatus rfl rfl

def parentTypeIsNull : EntityCondition :=
  .list [comparison "parentTypeId".toList .equals (Or.inl rfl) none] .and

def nullTextRow : Row :=
  Function.update (fun _ => none) "parentTypeId".toList (some (.string "null".toList))

theorem isEqualities_null : IsEqualities "parentTypeId=null".toList := by
  unfold IsEqualities
  decide

theorem created_not_visible :
    parseEntityCondition noAttributes "parentTypeId=null".toList = .ok parentTypeIsNull ∧
    Creation.util.create noAttributes "parentTypeId=null".toList (newEntity []) = .ok nullTextRow ∧
    selects nullTextRow parentTypeIsNull.makeWhereString = false := by
  have hc : parseEntityCondition noAttributes "parentTypeId=null".toList = .ok parentTypeIsNull :=
    rfl
  refine ⟨hc, rfl, ?_⟩
  rw [Bool.eq_false_iff, ne_eq, selects_parseEntityCondition isEqualities_null hc]
  intro h
  have hnull := h "parentTypeId".toList "null".toList none (by decide) rfl
  rw [nullTextRow, Function.update_self] at hnull
  cases hnull

end OfficeAuto.Odata
