import OfficeAuto.Service.ModelParam
import OfficeAuto.Service.ServiceEca
import OfficeAuto.Text.Replace

/-!
# Preparing parameters for the validation

`makeValid` makes a map for the parameters of a service: of the values under their names, converted
to their types, and of maps and lists of values that it collects by a prefix or a suffix of their
names. `validate` looks at such a map on its own: no parameter that is required may be missing or
`null`, no other name may be there, and each value has the type of its parameter.

A value without a conversion to the type is handed on, and so is what a converter returns: "the
validator will catch this". `makeValid_prepares` says what the validator can find.
-/

namespace OfficeAuto.Service.MakeValid

open Eca (Fields)
open Model

/-! ### Classes -/

/-- A node of a document: its text, and whether it is a document, a document type or a notation. -/
structure Node where
  textContent : Option String
  isDocument : Bool

/-- The classes of objects, with their names and what is above them, and the converters. A converter
is for the class of a value and that of a type, and takes a locale and a time zone. -/
structure Types (V C : Type) where
  getClass : V → C
  objectClass : C
  stringClass : C
  linkedListClass : C
  hashMapClass : C
  getName : C → String
  isInterface : C → Bool
  superclasses : C → List C
  getInterfaces : C → List C
  forName : String → Option C
  node : V → Option Node
  isLocale : V → Bool
  isTimeZone : V → Bool
  toString : Eca.Value V → String
  getConverter : C → C →
    Option (Eca.Value V → Eca.Value V → Eca.Value V → Except String (Eca.Value V))
  mem_superclasses : ∀ c, c ∈ superclasses c
  object_mem_superclasses : ∀ v, objectClass ∈ superclasses (getClass v)
  object_mem_superclasses_of_mem : ∀ c ∈ [stringClass, linkedListClass, hashMapClass],
    objectClass ∈ superclasses c
  not_isInterface_object : isInterface objectClass = false
  forName_object : ∀ name ∈ ["Object", "java.lang.Object"], forName name = some objectClass
  forName_string : ∀ name ∈ ["String", "java.lang.String"], forName name = some stringClass

inductive Thrown where
  | classCast
  deriving DecidableEq

variable {V C : Type} [DecidableEq C]

namespace Types

variable (T : Types V C)

def classOf : Eca.Value V → Option C
  | .null => none
  | .str _ => some T.stringClass
  | .list _ => some T.linkedListClass
  | .map _ => some T.hashMapClass
  | .other v => some (T.getClass v)

def rawType (type : String) : String := String.ofList (type.toList.takeWhile (· ≠ '<'))

def loadClass (className : String) : Option C := T.forName (rawType className)

def loadInfoClass (typeName : String) : Option C :=
  (T.loadClass typeName).or ((T.loadClass ("java.lang." ++ typeName)).or
    (T.loadClass ("java.sql." ++ typeName)))

/-- `ObjectType.instanceOf` of two classes. Interfaces above those of a class are not looked at. -/
def isInstance (objectClass typeClass : C) : Bool :=
  if T.isInterface typeClass && !T.isInterface objectClass then
    (T.superclasses objectClass).any fun c => typeClass ∈ T.getInterfaces c
  else typeClass ∈ T.superclasses objectClass

/-! ### Conversion -/

def nodeOf : Eca.Value V → Option Node
  | .other v => T.node v
  | _ => none

def isGString (obj : Eca.Value V) : Bool :=
  (T.classOf obj).any fun c => T.getName c = "org.codehaus.groovy.runtime.GStringImpl"

variable (timeZone locale : Eca.Value V)

/-- `simpleTypeConvert` of an object that is no node, with a converter if there is one. -/
def convertObject (obj : Eca.Value V) (sourceClass : C) (type : String) :
    Except String (Eca.Value V) :=
  match T.loadClass type with
  | none => .error ("Conversion from " ++ T.getName sourceClass ++ " to " ++ rawType type ++
      " not currently supported")
  | some targetClass =>
    -- the classes are compared by identity, so that an instance of a subclass is converted
    if sourceClass = targetClass then .ok obj
    else if obj.equalsString "" then .ok .null
    else
      match T.getConverter sourceClass targetClass with
      | some convert => convert locale timeZone obj
      -- `noTypeFail` is off: an object without a converter is handed on, or printed
      | none => if targetClass = T.stringClass then .ok (.str (T.toString obj)) else .ok obj

def convertNode (obj : Eca.Value V) (node : Node) (type : String) : Except String (Eca.Value V) :=
  match node.textContent with
  | none => if node.isDocument then .ok obj else .ok .null
  | some nodeValue =>
    if type = "String" ∨ type = "java.lang.String" then .ok (.str nodeValue)
    else T.convertObject timeZone locale (.str nodeValue) T.stringClass type

/-- **`ObjectType.simpleTypeConvert`** with `noTypeFail` off. -/
def simpleTypeConvert (obj : Eca.Value V) (type : String) : Except String (Eca.Value V) :=
  match T.classOf obj with
  | none => .ok obj
  | some sourceClass =>
    if type = "" ∨ type = "Object" ∨ type = "java.lang.Object" then .ok obj
    else if type = "PlainString" ∨ T.isGString obj = true ∧ type = "String" then
      .ok (.str (T.toString obj))
    else
      match T.nodeOf obj with
      | some node => T.convertNode timeZone locale obj node type
      | none => T.convertObject timeZone locale obj sourceClass type

/-! ### `makeValid` -/

def makePrefixMap (source : Fields V) (param : ModelParam) : Fields V :=
  source.entries.foldl (fun paramMap entry =>
    if param.stringMapPrefix.toList <+: entry.1.toList then
      -- `replace` takes every occurrence of the prefix out of the key, not only the first
      paramMap.put (String.ofList (Text.replaceAll param.stringMapPrefix.toList [] entry.1.toList))
        entry.2
    else paramMap) ∅

def makeSuffixList (source : Fields V) (param : ModelParam) : List (Eca.Value V) :=
  (source.entries.filter fun entry => param.stringListSuffix.toList <:+ entry.1.toList).map
    fun entry => entry.2

def collectedMap (source : Fields V) (param : ModelParam) : Option (Eca.Value V) :=
  let paramMap := makePrefixMap source param
  if paramMap.entries.isEmpty then none
  else some (.map (paramMap.entries.map fun entry => (entry.1, entry.2)))

/-- What a parameter puts under its name, and the errors of its conversion. -/
def valueOf (source : Fields V) (includeInternal : Bool) (param : ModelParam) :
    Option (Eca.Value V) × List String :=
  match source.lookup param.name with
  | none =>
    if param.stringMapPrefix ≠ "" then (collectedMap source param, [])
    else if param.stringListSuffix ≠ "" then
      let paramList := makeSuffixList source param
      (if paramList.isEmpty then none else some (.list paramList), [])
    else (none, [])
  | some value =>
    if param.internal && !includeInternal then (none, [])
    else
      match T.simpleTypeConvert timeZone locale value param.type with
      | .ok converted => (some converted, [])
      -- the value that could not be converted is put too
      | .error e => (some value, ["Type conversion of field [" ++ param.name ++ "] to type [" ++
          param.type ++ "] failed for value \"" ++ T.toString value ++ "\": " ++ e])

def addParam (source : Fields V) (mode : String) (includeInternal : Bool)
    (target : Fields V × List String) (param : ModelParam) : Fields V × List String :=
  if param.isFor mode then
    let value := T.valueOf timeZone locale source includeInternal param
    (value.1.elim target.1 (target.1.put param.name), target.2 ++ value.2)
  else target

omit [DecidableEq C] in
/-- The locale or the time zone of the source, which is cast; `null` stands for the default. -/
def setting (isA : V → Bool) (source : Fields V) (key : String) : Except Thrown (Eca.Value V) :=
  match source.lookup key with
  | none => .ok .null
  | some .null => .ok .null
  | some (.other v) => if isA v then .ok (.other v) else .error .classCast
  | some _ => .error .classCast

/-- **`makeValid`** without a locale and a time zone: the target and the error messages. -/
def makeValid (contextParamList : List ModelParam) (source : Option (Fields V)) (mode : String)
    (includeInternal : Bool) : Except Thrown (Fields V × List String) :=
  match source with
  | none => .ok (∅, [])
  | some source =>
    if (mode ≠ IN_PARAM ∧ mode ≠ OUT_PARAM ∧ mode ≠ IN_OUT_PARAM) ∨ contextParamList = [] then
      .ok (∅, [])
    else
      (setting T.isLocale source "locale").bind fun locale =>
        (setting T.isTimeZone source "timeZone").bind fun timeZone =>
          .ok (contextParamList.foldl (T.addParam timeZone locale source mode includeInternal)
            (∅, []))

/-! ### `validate` -/

/-- What `validate` throws: names that are missing or unknown, names with values of another type, or
that the class of a type is not found. -/
inductive Failure where
  | missing (keys : List String)
  | extra (keys : List String)
  | types (keys : List String)
  | illegalType (type : String)
  deriving DecidableEq

/-- `ObjectType.instanceOf` of an object and the name of a type. -/
def instanceOf (obj : Eca.Value V) (typeName : String) : Except Failure Bool :=
  match T.loadInfoClass typeName with
  | none => .error (.illegalType typeName)
  | some typeClass => .ok ((T.classOf obj).all fun c => T.isInstance c typeClass)

def typeFailures (info : String → Option String) :
    List (String × Eca.Value V) → Except Failure (List String)
  | [] => .ok []
  | e :: test => (T.instanceOf e.2 ((info e.1).getD "")).bind fun isOfType =>
      (typeFailures info test).map fun failed => if isOfType then failed else e.1 :: failed

def validateMap (info : String → Option String) (keySet : List String)
    (test : List (String × Eca.Value V)) (reverse : Bool) : Except Failure Unit :=
  let missing := keySet.filter fun key => key ∉ test.map Prod.fst
  let extra := (test.map Prod.fst).filter fun key => (info key).isNone
  if keySet = [] ∧ test = [] then .ok ()
  else if reverse ∧ missing ≠ [] then .error (.missing missing)
  else if extra ≠ [] then .error (.extra extra)
  else (T.typeFailures info test).bind fun failed =>
    if failed ≠ [] then .error (.types failed) else .ok ()

/-- The names of the parameters of a mode that are required, or of those that are optional. -/
def namesOf (contextParamList : List ModelParam) (mode : String) (optional : Bool) : List String :=
  (contextParamList.filter fun param => param.isFor mode && param.optional == optional).map
    ModelParam.name

/-- **`validate`**, for a model without validators of its own and without checks of HTML. -/
def validate (contextParamList : List ModelParam) (context : Fields V) (mode : String) :
    Except Failure Unit :=
  let required := requiredInfo mode contextParamList
  let test := context.entries.map fun entry => (entry.1, entry.2)
  let requiredTest := test.filter fun e => (required e.1).isSome
  let requiredButNull := requiredTest.filter fun e => (T.classOf e.2).isNone
  if mode = OUT_PARAM ∧ ((context.get Eca.RESPONSE_MESSAGE).equalsString Eca.RESPOND_ERROR ∨
      (context.get Eca.RESPONSE_MESSAGE).equalsString Eca.RESPOND_FAIL) then .ok ()
  else if requiredButNull ≠ [] then .error (.missing (requiredButNull.map Prod.fst))
  else
    (T.validateMap required (namesOf contextParamList mode false) requiredTest true).bind fun _ =>
      T.validateMap (optionalInfo mode contextParamList) (namesOf contextParamList mode true)
        (test.filter fun e => (required e.1).isNone) false

/-! ### What is promised -/

/-- A required parameter that the target does not have, or has as `null`. -/
def IsMissing (contextParamList : List ModelParam) (target : Fields V) (key : String) : Prop :=
  (∃ param ∈ contextParamList, param.isFor IN_PARAM = true ∧ param.optional = false ∧
    param.name = key) ∧ T.classOf (target.get key) = none

/-- The parameters of the mode with the name of a parameter, which is one of them. -/
def Sharing (contextParamList : List ModelParam) (param other : ModelParam) : Prop :=
  other ∈ contextParamList ∧ other.isFor IN_PARAM = true ∧ other.name = param.name

/-- A parameter that is collected by a prefix. -/
structure Collects (contextParamList : List ModelParam) (source : Fields V)
    (param : ModelParam) : Prop where
  mem : Sharing contextParamList param param
  notMem : source.lookup param.name = none
  nonempty : param.stringMapPrefix ≠ ""
  same : ∀ other, Sharing contextParamList param other →
    other.stringMapPrefix = param.stringMapPrefix

/-- The map that is built binds the rests of the names behind the prefix; without such a name, none
is built. -/
def BindsSuffixes (source target : Fields V) (param : ModelParam) : Prop :=
  ((∀ key ∈ source, ¬param.stringMapPrefix.toList <+: key.toList) ∧
      target.lookup param.name = none) ∨
    ∃ paramMap : Fields V, target.lookup param.name =
        some (.map (paramMap.entries.map fun entry => (entry.1, entry.2))) ∧
      ∀ suffix, paramMap.lookup suffix = source.lookup (param.stringMapPrefix ++ suffix)

/-- The result of `makeValid` as it is claimed to be: only missing parameters make `validate` fail,
values of the right type are the same in it, and every map binds the suffixes. -/
structure Right (contextParamList : List ModelParam) (source target : Fields V) : Prop where
  fails : ∀ f, T.validate contextParamList target IN_PARAM = .error f →
    ∃ keys, f = .missing keys ∧ ∀ key ∈ keys, T.IsMissing contextParamList target key
  passes : ∀ param value, Sharing contextParamList param param →
    source.lookup param.name = some value → (∀ other, Sharing contextParamList param other →
      T.instanceOf value other.type = .ok true) → target.lookup param.name = some value
  collects : ∀ param, Collects contextParamList source param → BindsSuffixes source target param

/-- What is converted of a value: the text of a node, or the value itself. -/
def contentOf (value : Eca.Value V) : Eca.Value V :=
  match (T.nodeOf value).bind Node.textContent with
  | some nodeValue => .str nodeValue
  | none => value

/-- The reasons for a value of another type in the result: the name is declared twice, with two
types; the value is collected from those of other names; the parameter has no type, or takes any
value as a text; the value is a document; no converter is there; or one returned a value of another
class. -/
inductive LeftToValidator (timeZone locale : Eca.Value V) (contextParamList : List ModelParam)
    (source : Fields V) (param : ModelParam) : Prop where
  | declaredTwice (other : ModelParam) (h : Sharing contextParamList param other)
    (htype : other.type ≠ param.type)
  | collected (h : source.lookup param.name = none)
  | untyped (h : param.type = "" ∨ param.type = "PlainString")
  | document (value : Eca.Value V) (node : Node) (h : source.lookup param.name = some value)
    (hnode : T.nodeOf value = some node) (hdocument : node.isDocument = true)
  | unconverted (value : Eca.Value V) (c d : C) (h : source.lookup param.name = some value)
    (hvalue : T.classOf (T.contentOf value) = some c) (htype : T.loadClass param.type = some d)
    (hnone : T.getConverter c d = none)
  | converter (value value' : Eca.Value V) (c d : C)
    (convert : Eca.Value V → Eca.Value V → Eca.Value V → Except String (Eca.Value V))
    (h : source.lookup param.name = some value)
    (hvalue : T.classOf (T.contentOf value) = some c) (htype : T.loadClass param.type = some d)
    (hconverter : T.getConverter c d = some convert)
    (hconvert : convert locale timeZone (T.contentOf value) = .ok value')
    (hclass : ∀ c' ∈ T.classOf value', T.isInstance c' d = false)

def IsOfClass (value : Eca.Value V) (type : String) : Prop :=
  T.classOf value = none ∨ type = "" ∨ type = "Object" ∨ type = "java.lang.Object" ∨
    T.nodeOf value = none ∧ T.isGString value = false ∧ type ≠ "PlainString" ∧
      T.classOf value = T.loadClass type

def Explained (timeZone locale : Eca.Value V) (contextParamList : List ModelParam)
    (source target : Fields V) : Failure → Prop
  | .missing keys => ∀ key ∈ keys, T.IsMissing contextParamList target key
  | .extra _ => False
  | .types keys => ∀ key ∈ keys, ∃ param, Sharing contextParamList param param ∧
      param.name = key ∧ T.LeftToValidator timeZone locale contextParamList source param
  | .illegalType type => (∃ param ∈ contextParamList, param.isFor IN_PARAM = true ∧
      param.type = type) ∧ T.loadInfoClass type = none

/-- **The result of `makeValid`.** -/
structure Prepared (timeZone locale : Eca.Value V) (contextParamList : List ModelParam)
    (includeInternal : Bool) (source target : Fields V) : Prop where
  fails : ∀ f, T.validate contextParamList target IN_PARAM = .error f →
    T.Explained timeZone locale contextParamList source target f
  passes : ∀ param value, Sharing contextParamList param param →
    source.lookup param.name = some value → (∀ other, Sharing contextParamList param other →
      T.IsOfClass value other.type ∧ (other.internal = true → includeInternal = true)) →
    target.lookup param.name = some value
  collects : ∀ param, Collects contextParamList source param →
    (∀ suffix, source.lookup (param.stringMapPrefix ++ suffix) ≠ none →
      ¬param.stringMapPrefix.toList <:+: suffix.toList) → BindsSuffixes source target param

/-! ### What a conversion returns -/

def HasType (value : Eca.Value V) (type : String) : Prop :=
  ∀ d, T.loadInfoClass type = some d → ∀ c ∈ T.classOf value, T.isInstance c d = true

variable {T} {timeZone locale value converted : Eca.Value V} {type : String} {c d : C}
  {contextParamList : List ModelParam} {source : Fields V} {param : ModelParam}

theorem isInstance_self : T.isInstance c c = true := by
  unfold isInstance
  split_ifs with h
  · cases hc : T.isInterface c <;> simp [hc] at h
  · exact decide_eq_true (T.mem_superclasses c)

theorem isInstance_object (h : c ∈ T.classOf value) : T.isInstance c T.objectClass = true := by
  unfold isInstance
  rw [T.not_isInterface_object, Bool.false_and, if_neg Bool.false_ne_true]
  refine decide_eq_true ?_
  cases value with
  | null => exact nomatch h
  | other v => exact Option.some.inj h ▸ T.object_mem_superclasses v
  | str s => exact T.object_mem_superclasses_of_mem c (by simp [← Option.some.inj h])
  | list l => exact T.object_mem_superclasses_of_mem c (by simp [← Option.some.inj h])
  | map m => exact T.object_mem_superclasses_of_mem c (by simp [← Option.some.inj h])

omit [DecidableEq C] in
theorem loadInfoClass_of_loadClass (h : T.loadClass type = some d) :
    T.loadInfoClass type = some d := by
  rw [loadInfoClass, h, Option.some_or]

theorem hasType_of_class (h : T.loadClass type = some d)
    (hclass : ∀ c ∈ T.classOf value, T.isInstance c d = true) : T.HasType value type := by
  intro d' hd' c hc
  cases (loadInfoClass_of_loadClass h).symm.trans hd'
  exact hclass c hc

omit [DecidableEq C] in
theorem loadClass_string (h : type = "String" ∨ type = "java.lang.String") :
    T.loadClass type = some T.stringClass := by
  rcases h with rfl | rfl
  · exact T.forName_string _ (by decide)
  · exact T.forName_string _ (by decide)

omit [DecidableEq C] in
theorem loadClass_object (h : type = "Object" ∨ type = "java.lang.Object") :
    T.loadClass type = some T.objectClass := by
  rcases h with rfl | rfl
  · exact T.forName_object _ (by decide)
  · exact T.forName_object _ (by decide)

theorem hasType_str (h : T.loadClass type = some T.stringClass) (s : String) :
    T.HasType (.str s) type :=
  hasType_of_class h fun c hc => by
    obtain rfl : T.stringClass = c := Option.some.inj hc
    exact isInstance_self

theorem hasType_null : T.HasType .null type := fun _ _ _ hc => nomatch hc

theorem convertObject_cases (hvalue : T.classOf value = some c)
    (h : T.convertObject timeZone locale value c type = .ok converted) :
    T.HasType converted type ∨ ∃ d, T.loadClass type = some d ∧
      (T.getConverter c d = none ∨ ∃ convert, T.getConverter c d = some convert ∧
        convert locale timeZone value = .ok converted) := by
  unfold convertObject at h
  split at h
  · cases h
  · next d hd =>
    by_cases hsame : c = d
    · rw [if_pos hsame] at h
      cases h
      refine .inl (hasType_of_class hd fun c' hc' => ?_)
      obtain rfl : c = c' := Option.some.inj (hvalue.symm.trans hc')
      exact hsame ▸ isInstance_self
    · rw [if_neg hsame] at h
      by_cases hempty : value.equalsString "" = true
      · rw [if_pos hempty] at h
        cases h
        exact .inl hasType_null
      · rw [if_neg hempty] at h
        cases hconverter : T.getConverter c d with
        | none => exact .inr ⟨d, hd, .inl hconverter⟩
        | some convert =>
          rw [hconverter] at h
          exact .inr ⟨d, hd, .inr ⟨convert, hconverter, h⟩⟩

theorem left_of_convertObject (hsource : source.lookup param.name = some value)
    (hcontent : T.classOf (T.contentOf value) = some c)
    (h : T.convertObject timeZone locale (T.contentOf value) c param.type = .ok converted) :
    T.HasType converted param.type ∨
      T.LeftToValidator timeZone locale contextParamList source param := by
  rcases convertObject_cases hcontent h with h | ⟨d, hd, hnone | ⟨convert, hconverter, hconvert⟩⟩
  · exact .inl h
  · exact .inr (.unconverted value c d hsource hcontent hd hnone)
  · by_cases hclass : ∀ c' ∈ T.classOf converted, T.isInstance c' d = true
    · exact .inl (hasType_of_class hd hclass)
    · refine .inr (.converter value converted c d convert hsource hcontent hd hconverter hconvert
        ?_)
      push Not at hclass
      obtain ⟨c', hc', hnot⟩ := hclass
      intro c'' hc''
      obtain rfl : c' = c'' := Option.some.inj (hc'.symm.trans hc'')
      exact Bool.eq_false_iff.mpr hnot

theorem left_of_simpleTypeConvert (hsource : source.lookup param.name = some value)
    (h : T.simpleTypeConvert timeZone locale value param.type = .ok converted) :
    T.HasType converted param.type ∨
      T.LeftToValidator timeZone locale contextParamList source param := by
  unfold simpleTypeConvert at h
  split at h
  · next hnull =>
    cases h
    exact .inl fun _ _ c hc => absurd (hnull.symm.trans hc) (Option.some_ne_none c).symm
  · next sourceClass hclass =>
    split_ifs at h with hobject hplain
    · cases h
      rcases hobject with hempty | hobject
      · exact .inr (.untyped (.inl hempty))
      · exact .inl (hasType_of_class (loadClass_object hobject) fun _ hc => isInstance_object hc)
    · cases h
      rcases hplain with hplain | ⟨-, hstring⟩
      · exact .inr (.untyped (.inr hplain))
      · exact .inl (hasType_str (loadClass_string (.inl hstring)) _)
    · split at h
      · next node hnode =>
        unfold convertNode at h
        split at h
        · split_ifs at h with hdocument
          · exact .inr (.document value node hsource hnode hdocument)
          · cases h
            exact .inl hasType_null
        · next nodeValue htext =>
          split_ifs at h with hstring
          · cases h
            exact .inl (hasType_str (loadClass_string hstring) _)
          · have hcontent : T.contentOf value = .str nodeValue := by
              rw [contentOf, hnode, Option.bind_some, htext]
            exact left_of_convertObject hsource (by rw [hcontent]; rfl) (by rwa [hcontent])
      · next hnode =>
        have hcontent : T.contentOf value = value := by
          rw [contentOf, hnode, Option.bind_none]
        exact left_of_convertObject hsource (by rwa [hcontent]) (by rwa [hcontent])

theorem simpleTypeConvert_of_isOfClass (h : T.IsOfClass value type) :
    T.simpleTypeConvert timeZone locale value type = .ok value := by
  unfold simpleTypeConvert
  cases hclass : T.classOf value with
  | none => rfl
  | some sourceClass =>
    dsimp only
    by_cases hobject : type = "" ∨ type = "Object" ∨ type = "java.lang.Object"
    · exact if_pos hobject
    · rw [if_neg hobject]
      obtain h | h | h | h | ⟨hnode, hgroovy, hplain, hload⟩ := h
      · exact nomatch hclass.symm.trans h
      · exact absurd (.inl h) hobject
      · exact absurd (.inr (.inl h)) hobject
      · exact absurd (.inr (.inr h)) hobject
      · have hnot : ¬(type = "PlainString" ∨ T.isGString value = true ∧ type = "String") := by
          rintro (h | ⟨h, -⟩)
          · exact hplain h
          · exact Bool.false_ne_true (hgroovy.symm.trans h)
        rw [if_neg hnot, hnode]
        dsimp only
        rw [convertObject, ← hload, hclass]
        exact if_pos rfl

/-! ### The target -/

variable {includeInternal : Bool} {mode key : String} {out : Fields V × List String}

theorem left_of_valueOf
    (h : (T.valueOf timeZone locale source includeInternal param).1 = some value)
    (herrors : (T.valueOf timeZone locale source includeInternal param).2 = []) :
    T.HasType value param.type ∨
      T.LeftToValidator timeZone locale contextParamList source param := by
  cases hsource : source.lookup param.name with
  | none => exact .inr (.collected hsource)
  | some sourceValue =>
    unfold valueOf at h herrors
    rw [hsource] at h herrors
    dsimp only at h herrors
    by_cases hinternal : (param.internal && !includeInternal) = true
    · rw [if_pos hinternal] at h
      cases h
    · rw [if_neg hinternal] at h herrors
      cases hconvert : T.simpleTypeConvert timeZone locale sourceValue param.type with
      | ok converted =>
        rw [hconvert] at h
        obtain rfl : converted = value := Option.some.inj h
        exact left_of_simpleTypeConvert hsource hconvert
      | error e =>
        rw [hconvert] at herrors
        cases herrors

theorem lookup_addParam :
    (T.addParam timeZone locale source mode includeInternal out param).1.lookup key =
      if param.isFor mode = true ∧ param.name = key then
        (T.valueOf timeZone locale source includeInternal param).1.or (out.1.lookup key)
      else out.1.lookup key := by
  unfold addParam
  by_cases hmode : param.isFor mode = true
  · rw [if_pos hmode]
    dsimp only
    cases (T.valueOf timeZone locale source includeInternal param).1 with
    | none => rw [Option.none_or, ite_self, Option.elim_none]
    | some value =>
      rw [Option.elim_some, Eca.Fields.put]
      split_ifs with hkey
      · rw [← hkey.2, AList.lookup_insert, Option.some_or]
      · exact AList.lookup_insert_ne fun h => hkey ⟨hmode, h.symm⟩
  · rw [if_neg hmode, if_neg fun h => hmode h.1]

theorem exists_of_lookup_addParam
    (h : (contextParamList.foldl (T.addParam timeZone locale source mode includeInternal)
      out).1.lookup key = some value) :
    out.1.lookup key = some value ∨ ∃ param ∈ contextParamList, param.isFor mode = true ∧
      param.name = key ∧
      (T.valueOf timeZone locale source includeInternal param).1 = some value := by
  induction contextParamList generalizing out with
  | nil => exact .inl h
  | cons param params ih =>
    rcases ih h with h | ⟨param', hmem, hparam'⟩
    · rw [lookup_addParam] at h
      split_ifs at h with hparam
      · rcases Option.or_eq_some_iff.mp h with hvalue | ⟨-, h⟩
        · exact .inr ⟨param, List.mem_cons_self, hparam.1, hparam.2, hvalue⟩
        · exact .inl h
      · exact .inl h
    · exact .inr ⟨param', List.mem_cons_of_mem _ hmem, hparam'⟩

theorem errors_of_addParam
    (h : (contextParamList.foldl (T.addParam timeZone locale source mode includeInternal) out).2 =
      []) :
    out.2 = [] ∧ ∀ param ∈ contextParamList, param.isFor mode = true →
      (T.valueOf timeZone locale source includeInternal param).2 = [] := by
  induction contextParamList generalizing out with
  | nil => exact ⟨h, fun param hmem => absurd hmem List.not_mem_nil⟩
  | cons param params ih =>
    obtain ⟨hadd, hparams⟩ := ih h
    unfold addParam at hadd
    by_cases hmode : param.isFor mode = true
    · rw [if_pos hmode] at hadd
      obtain ⟨hout, herrors⟩ := List.append_eq_nil_iff.mp hadd
      exact ⟨hout, List.forall_mem_cons.mpr ⟨fun _ => herrors, hparams⟩⟩
    · rw [if_neg hmode] at hadd
      exact ⟨hadd, List.forall_mem_cons.mpr ⟨fun h => absurd h hmode, hparams⟩⟩

theorem lookup_foldl_addParam {put : Option (Eca.Value V)}
    (h : ∀ param ∈ contextParamList, param.isFor mode = true → param.name = key →
      (T.valueOf timeZone locale source includeInternal param).1 = put)
    (hput : out.1.lookup key = put ∨
      ∃ param ∈ contextParamList, param.isFor mode = true ∧ param.name = key)
    (hout : out.1.lookup key = none ∨ out.1.lookup key = put) :
    (contextParamList.foldl (T.addParam timeZone locale source mode includeInternal) out).1.lookup
      key = put := by
  induction contextParamList generalizing out with
  | nil =>
    rcases hput with hput | ⟨param, hmem, -⟩
    · exact hput
    · exact absurd hmem List.not_mem_nil
  | cons param params ih =>
    obtain ⟨hparam, hparams⟩ := List.forall_mem_cons.mp h
    by_cases hthis : param.isFor mode = true ∧ param.name = key
    · have hadd : (T.addParam timeZone locale source mode includeInternal out param).1.lookup key =
          put := by
        rw [lookup_addParam, if_pos hthis, hparam hthis.1 hthis.2]
        rcases hout with hout | hout
        · rw [hout, Option.or_none]
        · rw [hout, Option.or_self]
      exact ih hparams (.inl hadd) (.inr hadd)
    · have hadd : (T.addParam timeZone locale source mode includeInternal out param).1.lookup key =
          out.1.lookup key := by
        rw [lookup_addParam, if_neg hthis]
      rw [← hadd] at hout hput
      refine ih hparams ?_ hout
      rcases hput with hput | ⟨param', hmem, hparam'⟩
      · exact .inl hput
      · rcases List.mem_cons.mp hmem with rfl | hmem
        · exact absurd hparam' hthis
        · exact .inr ⟨param', hmem, hparam'⟩

/-! ### What a failure says -/

variable {info : String → Option String} {keySet : List String} {test : List (String × Eca.Value V)}
  {reverse : Bool} {f : Failure} {target : Fields V}

def IsFailed (T : Types V C) (info : String → Option String) (e : String × Eca.Value V) : Prop :=
  ¬T.HasType e.2 ((info e.1).getD "")

theorem typeFailures_ok {failed : List String} (h : T.typeFailures info test = .ok failed) :
    ∀ key ∈ failed, ∃ e ∈ test, e.1 = key ∧ T.IsFailed info e := by
  induction test generalizing failed with
  | nil =>
    cases h
    exact fun key hmem => absurd hmem List.not_mem_nil
  | cons e test ih =>
    obtain ⟨isOfType, hinstance, h⟩ := Except.bind_eq_ok.mp h
    obtain ⟨rest, hrest, rfl⟩ := Except.map_eq_ok.mp h
    have htail : ∀ key ∈ rest, ∃ e' ∈ e :: test, e'.1 = key ∧ T.IsFailed info e' := by
      intro key hmem
      obtain ⟨e', hmem', he'⟩ := ih hrest key hmem
      exact ⟨e', List.mem_cons_of_mem _ hmem', he'⟩
    split_ifs with hof
    · exact htail
    · refine List.forall_mem_cons.mpr ⟨⟨e, List.mem_cons_self, rfl, fun htype => hof ?_⟩, htail⟩
      unfold instanceOf at hinstance
      split at hinstance
      · cases hinstance
      · next d hd =>
        cases hinstance
        refine Option.all_eq_true _ _ |>.mpr fun c hc => htype d hd c hc

theorem typeFailures_error (h : T.typeFailures info test = .error f) :
    ∃ e ∈ test, f = .illegalType ((info e.1).getD "") ∧
      T.loadInfoClass ((info e.1).getD "") = none := by
  induction test with
  | nil => cases h
  | cons e test ih =>
    rw [typeFailures] at h
    cases hinstance : T.instanceOf e.2 ((info e.1).getD "") with
    | error f' =>
      rw [hinstance] at h
      obtain rfl : f' = f := Except.error.inj h
      unfold instanceOf at hinstance
      split at hinstance
      · next hnone =>
        cases hinstance
        exact ⟨e, List.mem_cons_self, rfl, hnone⟩
      · cases hinstance
    | ok isOfType =>
      rw [hinstance] at h
      cases hrest : T.typeFailures info test with
      | error f' =>
        rw [hrest] at h
        obtain rfl : f' = f := Except.error.inj h
        obtain ⟨e', hmem, he'⟩ := ih hrest
        exact ⟨e', List.mem_cons_of_mem _ hmem, he'⟩
      | ok rest =>
        rw [hrest] at h
        cases h

/-- A failure of a map against types is about its entries and the names. -/
inductive Reports (T : Types V C) (info : String → Option String) (keySet : List String)
    (test : List (String × Eca.Value V)) (reverse : Bool) : Failure → Prop where
  | missing (keys : List String) (h : reverse = true)
    (hkeys : ∀ key ∈ keys, key ∈ keySet ∧ key ∉ test.map Prod.fst) : Reports T info keySet test
      reverse (.missing keys)
  | extra (keys : List String) (e : String × Eca.Value V) (h : e ∈ test) (hnone : info e.1 = none) :
    Reports T info keySet test reverse (.extra keys)
  | types (keys : List String) (h : ∀ key ∈ keys, ∃ e ∈ test, e.1 = key ∧ T.IsFailed info e) :
    Reports T info keySet test reverse (.types keys)
  | illegalType (e : String × Eca.Value V) (h : e ∈ test)
    (hnone : T.loadInfoClass ((info e.1).getD "") = none) :
    Reports T info keySet test reverse (.illegalType ((info e.1).getD ""))

theorem reports_of_validateMap (h : T.validateMap info keySet test reverse = .error f) :
    T.Reports info keySet test reverse f := by
  unfold validateMap at h
  dsimp only at h
  split_ifs at h with hempty hmissing hextra
  · cases h
    refine .missing _ hmissing.1 fun key hkey => ?_
    obtain ⟨hmem, hnot⟩ := List.mem_filter.mp hkey
    exact ⟨hmem, of_decide_eq_true hnot⟩
  · cases h
    obtain ⟨key, hkey⟩ := List.exists_mem_of_ne_nil _ hextra
    obtain ⟨htest, hnone⟩ := List.mem_filter.mp hkey
    obtain ⟨e, he, rfl⟩ := List.mem_map.mp htest
    exact .extra _ e he (Option.isNone_iff_eq_none.mp hnone)
  · cases hfailed : T.typeFailures info test with
    | error f' =>
      rw [hfailed] at h
      obtain rfl : f' = f := Except.error.inj h
      obtain ⟨e, hmem, rfl, hnone⟩ := typeFailures_error hfailed
      exact .illegalType e hmem hnone
    | ok failed =>
      rw [hfailed] at h
      change (if failed ≠ [] then _ else _) = _ at h
      split_ifs at h
      cases h
      exact .types _ (typeFailures_ok hfailed)

theorem mem_entries_iff {e : String × Eca.Value V} :
    e ∈ target.entries.map (fun entry => (entry.1, entry.2)) ↔ target.lookup e.1 = some e.2 := by
  rw [← Option.mem_def, AList.mem_lookup_iff, List.mem_map]
  constructor
  · rintro ⟨entry, hmem, rfl⟩
    exact hmem
  · exact fun hmem => ⟨_, hmem, rfl⟩

theorem mem_namesOf_iff {optional : Bool} :
    key ∈ namesOf contextParamList mode optional ↔ ∃ param ∈ contextParamList,
      param.isFor mode = true ∧ param.optional = optional ∧ param.name = key := by
  rw [namesOf, List.mem_map]
  constructor
  · rintro ⟨param, hmem, rfl⟩
    obtain ⟨hparam, hwanted⟩ := List.mem_filter.mp hmem
    rw [Bool.and_eq_true, beq_iff_eq] at hwanted
    exact ⟨param, hparam, hwanted.1, hwanted.2, rfl⟩
  · rintro ⟨param, hparam, hmode, hoptional, rfl⟩
    refine ⟨param, List.mem_filter.mpr ⟨hparam, ?_⟩, rfl⟩
    rw [hmode, hoptional, beq_self_eq_true]
    rfl

/-- What is reported of a part of the target, if all its names are known and its values are of their
types or left to the validator. -/
theorem Reports.explained {wanted : ModelParam → Bool}
    (h : T.Reports (infoOf wanted contextParamList) keySet test reverse f)
    (hwanted : ∀ param, wanted param = true → param.isFor IN_PARAM = true)
    (hmissing : reverse = true → ∀ key, key ∈ keySet → key ∉ test.map Prod.fst →
      T.IsMissing contextParamList target key)
    (hknown : ∀ e ∈ test, infoOf wanted contextParamList e.1 ≠ none)
    (htypes : ∀ e ∈ test, ∀ param, Sharing contextParamList param param → param.name = e.1 →
      T.HasType e.2 param.type ∨ ∃ param', Sharing contextParamList param' param' ∧
        param'.name = e.1 ∧ T.LeftToValidator timeZone locale contextParamList source param') :
    T.Explained timeZone locale contextParamList source target f := by
  have htyped : ∀ e ∈ test, ∃ param, Sharing contextParamList param param ∧ param.name = e.1 ∧
      (infoOf wanted contextParamList e.1).getD "" = param.type := by
    intro e he
    obtain ⟨type, htype⟩ := Option.ne_none_iff_exists'.mp (hknown e he)
    obtain ⟨param, hmem, hparam, hname, rfl⟩ := exists_of_infoOf htype
    exact ⟨param, ⟨hmem, hwanted param hparam, rfl⟩, hname, by rw [htype, Option.getD_some]⟩
  cases h with
  | missing keys hreverse hkeys =>
    exact fun key hkey => hmissing hreverse key (hkeys key hkey).1 (hkeys key hkey).2
  | extra keys e he hnone => exact hknown e he hnone
  | types keys hkeys =>
    intro key hkey
    obtain ⟨e, he, rfl, hfailed⟩ := hkeys key hkey
    obtain ⟨param, hparam, hname, htype⟩ := htyped e he
    rw [IsFailed, htype] at hfailed
    exact (htypes e he param hparam hname).resolve_left hfailed
  | illegalType e he hnone =>
    obtain ⟨param, hparam, -, htype⟩ := htyped e he
    rw [htype] at hnone ⊢
    exact ⟨⟨param, hparam.1, hparam.2.1, rfl⟩, hnone⟩

theorem explained_of_validate (h : T.validate contextParamList target IN_PARAM = .error f)
    (hknown : ∀ key value, target.lookup key = some value →
      ∃ param, Sharing contextParamList param param ∧ param.name = key)
    (htypes : ∀ key value, target.lookup key = some value → ∀ param,
      Sharing contextParamList param param → param.name = key → T.HasType value param.type ∨
        ∃ param', Sharing contextParamList param' param' ∧ param'.name = key ∧
          T.LeftToValidator timeZone locale contextParamList source param') :
    T.Explained timeZone locale contextParamList source target f := by
  unfold validate at h
  dsimp only at h
  rw [if_neg fun hout => absurd hout.1 (by decide)] at h
  have hrequired : ∀ key, key ∈ namesOf contextParamList IN_PARAM false →
      (requiredInfo IN_PARAM contextParamList key).isSome = true := by
    intro key hkey
    obtain ⟨param, hmem, hmode, hoptional, rfl⟩ := mem_namesOf_iff.mp hkey
    refine Option.isSome_iff_ne_none.mpr (infoOf_ne_none hmem ?_)
    rw [hmode, hoptional]
    rfl
  split_ifs at h with hnull
  · cases h
    intro key hkey
    obtain ⟨e, he, rfl⟩ := List.mem_map.mp hkey
    obtain ⟨htest, hclass⟩ := List.mem_filter.mp he
    obtain ⟨hentry, hinfo⟩ := List.mem_filter.mp htest
    obtain ⟨type, htype⟩ := Option.isSome_iff_exists.mp hinfo
    obtain ⟨param, hmem, hparam, hname, -⟩ := exists_of_infoOf htype
    rw [Bool.and_eq_true, Bool.not_eq_true'] at hparam
    refine ⟨⟨param, hmem, hparam.1, hparam.2, hname⟩, ?_⟩
    rw [Eca.Fields.get, mem_entries_iff.mp hentry]
    exact Option.isNone_iff_eq_none.mp hclass
  -- the required parameters are validated first, and what is not theirs against the optional ones
  · cases hfirst : T.validateMap (requiredInfo IN_PARAM contextParamList)
        (namesOf contextParamList IN_PARAM false)
        ((target.entries.map fun entry => (entry.1, entry.2)).filter fun e =>
          (requiredInfo IN_PARAM contextParamList e.1).isSome) true with
    | error f' =>
      rw [hfirst] at h
      obtain rfl : f' = f := Except.error.inj h
      refine (reports_of_validateMap hfirst).explained ?_ ?_ ?_ ?_
      · exact fun param hparam => (Bool.and_eq_true _ _ ▸ hparam).1
      · intro _ key hkey hnot
        refine ⟨mem_namesOf_iff.mp hkey, ?_⟩
        have hlookup : target.lookup key = none := by
          by_contra hne
          obtain ⟨value, hvalue⟩ := Option.ne_none_iff_exists'.mp hne
          exact hnot (List.mem_map.mpr ⟨(key, value), List.mem_filter.mpr
            ⟨mem_entries_iff.mpr hvalue, hrequired key hkey⟩, rfl⟩)
        rw [Eca.Fields.get, hlookup]
        rfl
      · exact fun e he => Option.isSome_iff_ne_none.mp (List.mem_filter.mp he).2
      · exact fun e he => htypes e.1 e.2 (mem_entries_iff.mp (List.mem_filter.mp he).1)
    | ok u =>
      rw [hfirst] at h
      refine (reports_of_validateMap h).explained ?_ ?_ ?_ ?_
      · exact fun param hparam => (Bool.and_eq_true _ _ ▸ hparam).1
      · exact fun hreverse => absurd hreverse Bool.false_ne_true
      · intro e he
        obtain ⟨hentry, hnone⟩ := List.mem_filter.mp he
        obtain ⟨param, hparam, hname⟩ := hknown e.1 e.2 (mem_entries_iff.mp hentry)
        have hoptional : param.optional = true := by
          by_contra hnot
          have hsome := hrequired e.1 (mem_namesOf_iff.mpr
            ⟨param, hparam.1, hparam.2.1, Bool.eq_false_iff.mpr hnot, hname⟩)
          rw [Option.isNone_iff_eq_none] at hnone
          rw [hnone] at hsome
          cases hsome
        rw [← hname]
        refine infoOf_ne_none hparam.1 ?_
        rw [hparam.2.1, hoptional]
        rfl
      · exact fun e he => htypes e.1 e.2 (mem_entries_iff.mp (List.mem_filter.mp he).1)

/-! ### The collected map -/

omit [DecidableEq C] in
theorem lookup_makePrefixMap (hnonempty : param.stringMapPrefix ≠ "")
    (h : ∀ suffix, source.lookup (param.stringMapPrefix ++ suffix) ≠ none →
      ¬param.stringMapPrefix.toList <:+: suffix.toList) (suffix : String) :
    (makePrefixMap source param).lookup suffix =
      source.lookup (param.stringMapPrefix ++ suffix) := by
  -- of two keys with the same rest the later one is kept; here different keys have different rests
  suffices hfold : ∀ (entries : List (Sigma fun _ : String => Eca.Value V)) (paramMap : Fields V),
      entries.NodupKeys → (∀ entry ∈ entries, entry ∈ source.entries) →
      (entries.foldl (fun paramMap entry =>
        if param.stringMapPrefix.toList <+: entry.1.toList then
          paramMap.put (String.ofList
            (Text.replaceAll param.stringMapPrefix.toList [] entry.1.toList)) entry.2
        else paramMap) paramMap).lookup suffix =
        (entries.dlookup (param.stringMapPrefix ++ suffix)).or (paramMap.lookup suffix) by
    rw [makePrefixMap, hfold source.entries ∅ source.nodupKeys fun _ hmem => hmem,
      AList.lookup_empty, Option.or_none]
    rfl
  intro entries
  induction entries with
  | nil => exact fun paramMap _ _ => (Option.none_or).symm
  | cons entry entries ih =>
    intro paramMap hnodup hsource
    obtain ⟨hnew, hnodup⟩ := List.nodupKeys_cons.mp hnodup
    obtain ⟨hentry, hentries⟩ := List.forall_mem_cons.mp hsource
    rw [List.foldl_cons, ih _ hnodup hentries]
    split_ifs with hstarts
    · obtain ⟨rest, hrest⟩ := hstarts
      have hkey : entry.1 = param.stringMapPrefix ++ String.ofList rest := by
        rw [← String.toList_inj, String.toList_append, String.toList_ofList, hrest]
      have hvalue : source.lookup (param.stringMapPrefix ++ String.ofList rest) = some entry.2 := by
        rw [← hkey]
        exact AList.mem_lookup_iff.mpr hentry
      have hinner := h _ (hvalue ▸ Option.some_ne_none entry.2)
      rw [String.toList_ofList] at hinner
      have hne : param.stringMapPrefix.toList ≠ [] := fun hnil =>
        hnonempty (String.toList_inj.mp hnil)
      rw [← hrest, Text.replaceAll_append_of_not_infix hne hinner, Eca.Fields.put]
      by_cases hsuffix : suffix = String.ofList rest
      · subst hsuffix
        rw [AList.lookup_insert, ← hkey, List.dlookup_cons_eq, List.dlookup_eq_none.mpr hnew]
        rfl
      · have hother : param.stringMapPrefix ++ suffix ≠ entry.1 := by
          rw [hkey]
          intro heq
          rw [← String.toList_inj, String.toList_append, String.toList_append,
            List.append_cancel_left_eq, String.toList_inj] at heq
          exact hsuffix heq
        rw [AList.lookup_insert_ne hsuffix, List.dlookup_cons_ne _ _ hother]
    · have hother : param.stringMapPrefix ++ suffix ≠ entry.1 := by
        rintro heq
        rw [← heq, String.toList_append] at hstarts
        exact hstarts (List.prefix_append _ _)
      rw [List.dlookup_cons_ne _ _ hother]

/-! ### The result -/

theorem exists_foldl_of_makeValid {out : Fields V × List String}
    (h : T.makeValid contextParamList (some source) IN_PARAM includeInternal = .ok out) :
    ∃ timeZone locale, contextParamList.foldl
      (T.addParam timeZone locale source IN_PARAM includeInternal) (∅, []) = out := by
  unfold makeValid at h
  dsimp only at h
  split_ifs at h with hnone
  · have hnil : contextParamList = [] := hnone.resolve_left fun hmode => hmode.1 rfl
    cases h
    exact ⟨.null, .null, by rw [hnil]; rfl⟩
  · obtain ⟨locale, -, h⟩ := Except.bind_eq_ok.mp h
    obtain ⟨timeZone, -, h⟩ := Except.bind_eq_ok.mp h
    exact ⟨timeZone, locale, Except.ok.inj h⟩

theorem valueOf_of_collects (h : Collects contextParamList source param) {other : ModelParam}
    (hother : Sharing contextParamList param other) :
    (T.valueOf timeZone locale source includeInternal other).1 = collectedMap source param := by
  have hsame := h.same other hother
  have hmap : collectedMap source other = collectedMap source param := by
    rw [collectedMap, makePrefixMap, hsame]
    rfl
  unfold valueOf
  rw [hother.2.2, h.notMem]
  dsimp only
  rw [if_pos (hsame ▸ h.nonempty), hmap]

end Types

/-! ### A locale as a quantity -/

def plainClasses : Types String String where
  getClass v := v
  objectClass := "java.lang.Object"
  stringClass := "java.lang.String"
  linkedListClass := "java.util.LinkedList"
  hashMapClass := "java.util.HashMap"
  getName c := c
  isInterface _ := false
  superclasses c := [c, "java.lang.Object"]
  getInterfaces _ := []
  forName name := some (if name = "Object" then "java.lang.Object"
    else if name = "String" then "java.lang.String" else name)
  node _ := none
  isLocale v := v = "java.util.Locale"
  isTimeZone v := v = "java.util.TimeZone"
  toString _ := ""
  getConverter _ _ := none
  mem_superclasses _ := List.mem_cons_self
  object_mem_superclasses _ := List.mem_cons_of_mem _ List.mem_cons_self
  object_mem_superclasses_of_mem _ _ := List.mem_cons_of_mem _ List.mem_cons_self
  not_isInterface_object := rfl
  forName_object := by decide
  forName_string := by decide

def quantityParams : List ModelParam :=
  [{ name := "quantity", type := "java.lang.Integer", mode := IN_PARAM },
    { name := "options", type := "java.util.HashMap", mode := IN_PARAM, stringMapPrefix := "o_",
      optional := true }]

def quantityOf (className : String) : Fields String :=
  (∅ : Fields String).put "quantity" (.other className)

end OfficeAuto.Service.MakeValid
