import OfficeAuto.Logic.Registry
import OfficeAuto.Logic.Result
import OfficeAuto.Service.ModelParam

/-!
# The parameter table of a service

`ModelServiceReader` adds the parameters of a service definition in the order of its elements: those
of the entities that the auto-attributes name, the attributes, and some that every service has. An
override changes the parameter that there is. `ModelService.interfaceUpdate` adds the parameters
of the services that are implemented, and makes the overrides of these.

A service has its parameters in a list and in a map. The map is always right: for every name it has
what the declarations of that name come to, one after the other (`getParam_interfaceUpdate`). The
list also keeps the declarations that were replaced, and has a parameter a second time that was
overridden when the definition was read; only the late overrides take it out first. So both are
the same exactly if no name is declared again (`readers_consistent_iff`).
-/

namespace OfficeAuto.Service.Model

/-! ### Definitions -/

structure ModelField where
  name : String
  type : String
  isPk : Bool
  isAutoCreatedInternal : Bool

/-- `none` is a `null` or an exception, which both end the auto-attributes. -/
structure Delegator where
  getModelEntity : String → Option (List ModelField)
  getEntityFieldType : String → String → Option String

/-- The attributes of an element have the text that the document has, and are empty without one. -/
structure AutoElement where
  entityName : String := ""
  includeType : String := ""
  mode : String := ""
  optional : String := ""
  formDisplay : String := ""
  allowHtml : String := ""
  excludes : List String := []

structure AttributeElement where
  name : String := ""
  type : String := ""
  mode : String := ""
  entityName : String := ""
  fieldName : String := ""
  stringMapPrefix : String := ""
  stringListSuffix : String := ""
  formLabel : String := ""
  optional : String := ""
  formDisplay : String := ""
  allowHtml : String := ""
  defaultValue : String := ""

structure OverrideElement where
  name : String := ""
  type : String := ""
  mode : String := ""
  entityName : String := ""
  fieldName : String := ""
  formLabel : String := ""
  optional : String := ""
  formDisplay : String := ""
  allowHtml : String := ""
  defaultValue : String := ""

structure ModelServiceIface where
  service : String
  optional : Bool

/-- A definition. The members of a group have the names and the option that they come to as
interfaces. -/
structure ServiceElement where
  engine : String := ""
  location : String := ""
  defaultEntityName : String := ""
  group : Option (List ModelServiceIface) := none
  implements : List ModelServiceIface := []
  autoAttributes : List AutoElement := []
  attributes : List AttributeElement := []
  overrides : List OverrideElement := []

structure ModelService where
  engineName : String
  location : String
  implServices : List ModelServiceIface
  internalGroup : Option (List ModelServiceIface)
  params : Registry String ModelParam
  overrideParameters : List ModelParam
  inheritedParameters : Bool

namespace ModelService

def contextParamList (s : ModelService) : List ModelParam := s.params.listed

def getParam (s : ModelService) (name : String) : Option ModelParam := s.params.find name

def addParam (s : ModelService) (param : ModelParam) : ModelService :=
  { s with params := s.params.add ModelParam.name param }

end ModelService

/-! ### The reader -/

def isTrue (s : String) : Bool := s.toList.map Char.toLower = "true".toList

def isNotFalse (s : String) : Bool := s.toList.map Char.toLower ≠ "false".toList

/-- `UtilXml.checkEmpty` of two texts. -/
def checkEmpty (string1 string2 : String) : String :=
  if string1 ≠ "" then string1 else string2

/-- `modelParamMap.put`: a field that comes again takes the place of the earlier one. -/
def putParam (param : ModelParam) : List ModelParam → List ModelParam
  | [] => [param]
  | param' :: params =>
    if param'.name = param.name then param :: params else param' :: putParam param params

def autoParam (auto : AutoElement) (entityName : String) (field : ModelField)
    (javaType : String) : ModelParam where
  entityName := entityName
  fieldName := field.name
  name := field.name
  type := if javaType = "java.sql.Blob" then "java.nio.ByteBuffer" else javaType
  mode := auto.mode
  optional := isTrue auto.optional
  formDisplay := isNotFalse auto.formDisplay
  allowHtml := checkEmpty auto.allowHtml "none"

def createAutoAttrDef (delegator : Option Delegator) (e : ServiceElement) (auto : AutoElement) :
    List ModelParam :=
  let entityName := checkEmpty auto.entityName e.defaultEntityName
  let includePk := auto.includeType = "pk" ∨ auto.includeType = "all"
  let includeNonPk := auto.includeType = "nonpk" ∨ auto.includeType = "all"
  match delegator with
  | none => []
  | some delegator =>
    match delegator.getModelEntity entityName with
    | none => []
    | some fields =>
      let included := fields.filter fun field => !field.isAutoCreatedInternal &&
        ((field.isPk && includePk) || (!field.isPk && includeNonPk))
      let modelParamMap := included.foldlM (fun params field =>
        (delegator.getEntityFieldType entityName field.type).map fun javaType =>
          putParam (autoParam auto entityName field javaType) params) []
      match modelParamMap with
      | none => []
      | some params => params.filter fun param => param.name ∉ auto.excludes

def createAttrDef (e : ServiceElement) (attr : AttributeElement) : ModelParam :=
  let entityName := checkEmpty attr.entityName e.defaultEntityName
  { name := attr.name
    type := attr.type
    mode := attr.mode
    entityName := entityName
    fieldName :=
      if attr.fieldName = "" ∧ entityName ≠ "" then attr.name else attr.fieldName
    stringMapPrefix := attr.stringMapPrefix
    stringListSuffix := attr.stringListSuffix
    formLabel := attr.formLabel
    -- a default value makes the parameter optional
    optional := isTrue attr.optional || attr.defaultValue ≠ ""
    formDisplay := isNotFalse attr.formDisplay
    allowHtml := checkEmpty attr.allowHtml "none"
    defaultValue := attr.defaultValue }

def internalParam (name type mode : String) : ModelParam :=
  { name := name, type := type, mode := mode, optional := true, internal := true }

def defaultParams : List ModelParam :=
  [internalParam "responseMessage" "String" OUT_PARAM,
    internalParam "errorMessage" "String" OUT_PARAM,
    internalParam "errorMessageList" "java.util.List" OUT_PARAM,
    internalParam "successMessage" "String" OUT_PARAM,
    internalParam "successMessageList" "java.util.List" OUT_PARAM,
    internalParam "userLogin" "org.apache.ofbiz.entity.GenericValue" IN_OUT_PARAM,
    internalParam "login.username" "String" IN_PARAM,
    internalParam "login.password" "String" IN_PARAM,
    internalParam "locale" "java.util.Locale" IN_OUT_PARAM,
    internalParam "timeZone" "java.util.TimeZone" IN_OUT_PARAM,
    internalParam "visualTheme" "org.apache.ofbiz.widget.renderer.VisualTheme" IN_OUT_PARAM]

def OverrideElement.set (o : OverrideElement) (param : ModelParam) : ModelParam :=
  { param with
    type := checkEmpty o.type param.type
    mode := checkEmpty o.mode param.mode
    entityName := checkEmpty o.entityName param.entityName
    fieldName := checkEmpty o.fieldName param.fieldName
    formLabel := checkEmpty o.formLabel param.formLabel
    optional :=
      if o.defaultValue ≠ "" then true
      else if o.optional ≠ "" then isTrue o.optional else param.optional
    overrideOptional := param.overrideOptional || o.optional ≠ ""
    formDisplay := if o.formDisplay ≠ "" then isNotFalse o.formDisplay else param.formDisplay
    overrideFormDisplay := param.overrideFormDisplay || o.formDisplay ≠ ""
    allowHtml := checkEmpty o.allowHtml param.allowHtml
    defaultValue := checkEmpty o.defaultValue param.defaultValue }

def createOverrideDef (s : ModelService) (o : OverrideElement) : ModelService :=
  match s.params.index o.name with
  | some ref => { s with params := (s.params.modify ref o.set).link ModelParam.name ref }
  | none =>
    if !s.inheritedParameters && (!s.implServices.isEmpty || s.engineName = "group") then
      { s with overrideParameters := s.overrideParameters ++ [o.set { name := o.name }] }
    else s

def ServiceElement.ownParams (delegator : Option Delegator) (e : ServiceElement) :
    List ModelParam :=
  e.autoAttributes.flatMap (createAutoAttrDef delegator e) ++ e.attributes.map (createAttrDef e) ++
    defaultParams

def newModelService (e : ServiceElement) : ModelService where
  engineName := e.engine
  location := e.location
  implServices := e.implements.filter fun iface => iface.service ≠ ""
  internalGroup := e.group
  params := .empty {}
  overrideParameters := []
  inheritedParameters := false

def createModelService (delegator : Option Delegator) (e : ServiceElement) : ModelService :=
  e.overrides.foldl createOverrideDef
    ((e.ownParams delegator).foldl ModelService.addParam (newModelService e))

/-! ### The interfaces -/

/-- A parameter that is also one of an interface: with the other mode it is both, and optional if
one of them is. -/
def ModelParam.merge (newParam existingParam : ModelParam) : ModelParam :=
  if IN_OUT_PARAM ≠ existingParam.mode ∧ existingParam.mode ≠ newParam.mode then
    { existingParam with
      mode := IN_OUT_PARAM
      optional := existingParam.optional || newParam.optional }
  else existingParam

def ModelParam.inherited (optional : Bool) (newParam : ModelParam) : ModelParam :=
  { newParam with optional := newParam.optional || optional }

def ModelParam.rewrite (overrideParam existingParam : ModelParam) : ModelParam :=
  { existingParam with
    type := checkEmpty overrideParam.type existingParam.type
    mode := checkEmpty overrideParam.mode existingParam.mode
    entityName := checkEmpty overrideParam.entityName existingParam.entityName
    fieldName := checkEmpty overrideParam.fieldName existingParam.fieldName
    formLabel := checkEmpty overrideParam.formLabel existingParam.formLabel
    defaultValue := checkEmpty overrideParam.defaultValue existingParam.defaultValue
    formDisplay :=
      if overrideParam.overrideFormDisplay then overrideParam.formDisplay
      else existingParam.formDisplay
    optional :=
      if overrideParam.overrideOptional then overrideParam.optional
      else existingParam.optional || overrideParam.defaultValue ≠ ""
    allowHtml := checkEmpty overrideParam.allowHtml existingParam.allowHtml }

def inheritParam (params : Registry String ModelParam) (newParam : Bool × ModelParam) :
    Registry String ModelParam :=
  match params.index newParam.2.name with
  | some ref => params.modify ref newParam.2.merge
  | none => params.add ModelParam.name (newParam.2.inherited newParam.1)

def overrideParam (params : Registry String ModelParam) (overrideParam : ModelParam) :
    Registry String ModelParam :=
  match params.index overrideParam.name with
  | some ref =>
    ((params.unlist ModelParam.name overrideParam.name).modify ref overrideParam.rewrite).link
      ModelParam.name ref
  | none => params

/-- The parameters that the services of the interfaces have, each with the option of its interface.
A service that is not found has none, and a failed search is an exception. -/
def interfaceParams {E : Type} (getModelService : String → Except E (Option (List ModelParam))) :
    List ModelServiceIface → Except E (List (Bool × ModelParam))
  | [] => .ok []
  | iface :: implServices =>
    (getModelService iface.service).bind fun model =>
      (interfaceParams getModelService implServices).map fun rest =>
        (model.getD []).map (iface.optional, ·) ++ rest

namespace ModelService

/-- The interfaces, which are the members for a service that is a group. -/
def interfaces (getGroupModel : String → Option (List ModelServiceIface)) (s : ModelService) :
    List ModelServiceIface :=
  if s.engineName = "group" ∧ s.implServices = [] then
    (s.internalGroup.or (getGroupModel s.location)).getD []
  else s.implServices

def interfaceUpdate {E : Type} (getGroupModel : String → Option (List ModelServiceIface))
    (dctx : Option (String → Except E (Option (List ModelParam)))) (s : ModelService) :
    Except E ModelService :=
  if s.inheritedParameters then .ok s
  else
    let implServices := s.interfaces getGroupModel
    let inherited : Except E (List (Bool × ModelParam)) :=
      match dctx with
      | none => .ok []
      | some getModelService => interfaceParams getModelService implServices
    inherited.map fun inherited =>
      { s with
        implServices := implServices
        params := s.overrideParameters.foldl overrideParam (inherited.foldl inheritParam s.params)
        inheritedParameters := true }

end ModelService

/-! ### What is decided of a name -/

/-- A parameter of an interface of the name: it is merged into the one that there is. -/
def inheritOf (newParam : Bool × ModelParam) (existingParam : Option ModelParam) :
    Option ModelParam :=
  some (existingParam.elim (newParam.2.inherited newParam.1) newParam.2.merge)

/-- What the declarations of a name come to: the last one of the definition, with its overrides, and
then the interfaces. A name that only the interfaces declare has its overrides after them. -/
def decided (delegator : Option Delegator) (e : ServiceElement) (ofInterfaces : Bool)
    (inherited : List (Bool × ModelParam)) (name : String) : Option ModelParam :=
  let own := ((e.ownParams delegator).filter fun param => param.name = name).getLast?
  let overrides := e.overrides.filter fun o => o.name = name
  let merged := (inherited.filter fun newParam => newParam.2.name = name).foldl
    (fun param newParam => inheritOf newParam param)
    (overrides.foldl (fun param o => param.map o.set) own)
  if own = none ∧ ofInterfaces = true then
    overrides.foldl (fun param o => param.map (o.set { name := o.name }).rewrite) merged
  else merged

/-! ### The steps -/

open Registry

def setParam (params : Registry String ModelParam) (o : OverrideElement) :
    Registry String ModelParam :=
  match params.index o.name with
  | some ref => (params.modify ref o.set).link ModelParam.name ref
  | none => params

variable {r : Registry String ModelParam}

theorem setParam_spec (o : OverrideElement) (h : Valid ModelParam.name r) :
    Valid ModelParam.name (setParam r o) ∧ ∀ name, (setParam r o).find name =
      if name = o.name then (r.find name).map o.set else r.find name := by
  have hset : ∀ p : ModelParam, (o.set p).name = p.name := fun _ => rfl
  rw [setParam]
  cases hindex : r.index o.name with
  | none =>
    refine ⟨h, fun name => ?_⟩
    split_ifs with hname
    · rw [hname, find, hindex]
      rfl
    · rfl
  | some ref =>
    have hmodify := h.modify hset ref
    refine ⟨hmodify.link (h.lt_count ref (h.mem_order _ ref hindex)), fun name => ?_⟩
    rw [hmodify.find_link hindex, h.find_modify hindex]
    split_ifs with hname
    · rw [hname]
    · rfl

theorem inheritParam_spec (newParam : Bool × ModelParam) (h : Valid ModelParam.name r) :
    Valid ModelParam.name (inheritParam r newParam) ∧ ∀ name,
      (inheritParam r newParam).find name =
        if name = newParam.2.name then inheritOf newParam (r.find name) else r.find name := by
  have hmerge : ∀ p : ModelParam, (newParam.2.merge p).name = p.name := by
    intro p
    rw [ModelParam.merge]
    split_ifs <;> rfl
  rw [inheritParam]
  cases hindex : r.index newParam.2.name with
  | none =>
    refine ⟨h.add _, fun name => ?_⟩
    have hnone : r.find newParam.2.name = none := by rw [find, hindex, Option.map_none]
    have hname' : (newParam.2.inherited newParam.1).name = newParam.2.name := rfl
    rw [h.find_add, hname']
    split_ifs with hname
    · rw [hname, hnone]
      rfl
    · rfl
  | some ref =>
    refine ⟨h.modify hmerge ref, fun name => ?_⟩
    have hsome : r.find newParam.2.name = some (r.objects ref) := by
      rw [find, hindex, Option.map_some]
    rw [h.find_modify hindex]
    split_ifs with hname
    · rw [hname, hsome]
      rfl
    · rfl

theorem overrideParam_spec (o : ModelParam) (h : Valid ModelParam.name r) :
    Valid ModelParam.name (overrideParam r o) ∧ ∀ name,
      (overrideParam r o).find name =
        if name = o.name then (r.find name).map o.rewrite else r.find name := by
  have hrewrite : ∀ p : ModelParam, (o.rewrite p).name = p.name := fun _ => rfl
  rw [overrideParam]
  cases hindex : r.index o.name with
  | none =>
    refine ⟨h, fun name => ?_⟩
    split_ifs with hname
    · rw [hname, find, hindex]
      rfl
    · rfl
  | some ref =>
    -- the order of the list does not matter to the change of the object
    have hmodify := h.modify hrewrite ref
    dsimp only
    rw [unlist_modify hrewrite]
    refine ⟨hmodify.unlist_link hindex, fun name => ?_⟩
    rw [hmodify.find_unlist_link hindex, h.find_modify hindex]
    split_ifs with hname
    · rw [hname]
    · rfl

/-! ### The names of the list -/

theorem names_setParam (o : OverrideElement) (h : Valid ModelParam.name r) :
    (setParam r o).names ModelParam.name =
      r.names ModelParam.name ++
        if o.name ∈ r.names ModelParam.name then [o.name] else [] := by
  have hset : ∀ p : ModelParam, (o.set p).name = p.name := fun _ => rfl
  rw [setParam]
  cases hindex : r.index o.name with
  | none =>
    have hnot : o.name ∉ r.names ModelParam.name := by
      rw [h.mem_names_iff, hindex]
      rintro ⟨ref, hnone⟩
      nomatch hnone
    rw [if_neg hnot, List.append_nil]
  | some ref =>
    rw [if_pos ((h.mem_names_iff o.name).mpr ⟨ref, hindex⟩), names_link, names_modify hset,
      nameOf_modify hset, h.nameOf_eq o.name ref hindex]

theorem nodup_inheritParam (newParam : Bool × ModelParam) (h : Valid ModelParam.name r) :
    ((inheritParam r newParam).names ModelParam.name).Nodup ↔
      (r.names ModelParam.name).Nodup := by
  have hmerge : ∀ p : ModelParam, (newParam.2.merge p).name = p.name := by
    intro p
    rw [ModelParam.merge]
    split_ifs <;> rfl
  rw [inheritParam]
  cases hindex : r.index newParam.2.name with
  | none =>
    have hnot : newParam.2.name ∉ r.names ModelParam.name := by
      rw [h.mem_names_iff, hindex]
      rintro ⟨ref, hnone⟩
      nomatch hnone
    have hname : (newParam.2.inherited newParam.1).name = newParam.2.name := rfl
    rw [h.names_add, hname, ← List.concat_eq_append, List.nodup_concat, and_iff_right hnot]
  | some ref => rw [names_modify hmerge]

theorem nodup_overrideParam (o : ModelParam) (h : Valid ModelParam.name r) :
    ((overrideParam r o).names ModelParam.name).Nodup ↔ (r.names ModelParam.name).Nodup := by
  have hrewrite : ∀ p : ModelParam, (o.rewrite p).name = p.name := fun _ => rfl
  rw [overrideParam]
  cases hindex : r.index o.name with
  | none => rfl
  | some ref =>
    have hmem : o.name ∈ (r.modify ref o.rewrite).names ModelParam.name := by
      rw [names_modify hrewrite]
      exact (h.mem_names_iff o.name).mpr ⟨ref, hindex⟩
    have hname : (((r.modify ref o.rewrite).unlist ModelParam.name o.name).objects ref).name =
        o.name :=
      (nameOf_modify hrewrite ref ref).trans (h.nameOf_eq o.name ref hindex)
    dsimp only
    rw [unlist_modify hrewrite, names_link, hname, names_unlist]
    have hperm := (List.perm_append_singleton o.name _).trans (List.perm_cons_erase hmem).symm
    rw [hperm.nodup_iff, names_modify hrewrite]

theorem nodup_foldl {α : Type} {step : Registry String ModelParam → α → Registry String ModelParam}
    (hstep : ∀ r a, Valid ModelParam.name r → Valid ModelParam.name (step r a) ∧
      (((step r a).names ModelParam.name).Nodup ↔ (r.names ModelParam.name).Nodup))
    (as : List α) (h : Valid ModelParam.name r) :
    ((as.foldl step r).names ModelParam.name).Nodup ↔ (r.names ModelParam.name).Nodup := by
  induction as generalizing r with
  | nil => rfl
  | cons a as ih =>
    obtain ⟨hvalid, hnodup⟩ := hstep r a h
    rw [List.foldl_cons, ih hvalid, hnodup]

/-! ### Reading a definition -/

/-- An override of a name that the definition does not have is kept for later. -/
def keepsOverrides (s : ModelService) : Bool :=
  !s.inheritedParameters && (!s.implServices.isEmpty || s.engineName = "group")

theorem foldl_addParam (s : ModelService) (params : List ModelParam) :
    params.foldl ModelService.addParam s =
      { s with params := params.foldl (Registry.add ModelParam.name) s.params } := by
  induction params generalizing s with
  | nil => rfl
  | cons param params ih =>
    rw [List.foldl_cons, ih]
    rfl

theorem createOverrideDef_of_mem {s : ModelService} {o : OverrideElement}
    (h : Valid ModelParam.name s.params) (hmem : o.name ∈ s.params.names ModelParam.name) :
    createOverrideDef s o = { s with params := setParam s.params o } := by
  obtain ⟨ref, hindex⟩ := (h.mem_names_iff o.name).mp hmem
  rw [createOverrideDef, setParam, hindex]

theorem createOverrideDef_of_not_mem {s : ModelService} {o : OverrideElement}
    (h : Valid ModelParam.name s.params) (hmem : o.name ∉ s.params.names ModelParam.name) :
    setParam s.params o = s.params ∧ createOverrideDef s o =
      { s with
        overrideParameters := s.overrideParameters ++
          if keepsOverrides s then [o.set { name := o.name }] else [] } := by
  have hindex : s.params.index o.name = none := by
    by_contra hne
    exact hmem ((h.mem_names_iff o.name).mpr (Option.ne_none_iff_exists'.mp hne))
  rw [createOverrideDef, setParam, hindex]
  refine ⟨rfl, ?_⟩
  dsimp only
  rw [← keepsOverrides]
  split_ifs
  · rfl
  · rw [List.append_nil]

theorem mem_names_setParam_iff (o : OverrideElement) (h : Valid ModelParam.name r)
    (name : String) :
    name ∈ (setParam r o).names ModelParam.name ↔ name ∈ r.names ModelParam.name := by
  rw [names_setParam o h, List.mem_append]
  split_ifs with hmem
  · rw [List.mem_singleton]
    constructor
    · rintro (hname | rfl)
      · exact hname
      · exact hmem
    · exact .inl
  · rw [or_iff_left List.not_mem_nil]

theorem names_foldl_setParam (overrides : List OverrideElement) (own : List String)
    (h : Valid ModelParam.name r) (hown : ∀ name, name ∈ r.names ModelParam.name ↔ name ∈ own) :
    (overrides.foldl setParam r).names ModelParam.name =
      r.names ModelParam.name ++ (overrides.map (·.name)).filter (· ∈ own) := by
  induction overrides generalizing r with
  | nil => exact (List.append_nil _).symm
  | cons o overrides ih =>
    have hown' := fun name => (mem_names_setParam_iff o h name).trans (hown name)
    rw [List.foldl_cons, ih (setParam_spec o h).1 hown', names_setParam o h, List.map_cons,
      List.filter_cons]
    by_cases hmem : o.name ∈ own
    · rw [if_pos ((hown o.name).mpr hmem), if_pos (decide_eq_true hmem), List.append_assoc]
      rfl
    · rw [if_neg (mt (hown o.name).mp hmem), if_neg (by simpa using hmem), List.append_nil]

theorem foldl_createOverrideDef (overrides : List OverrideElement) (own : List String)
    (s : ModelService) (h : Valid ModelParam.name s.params)
    (hown : ∀ name, name ∈ s.params.names ModelParam.name ↔ name ∈ own) :
    overrides.foldl createOverrideDef s =
      { s with
        params := overrides.foldl setParam s.params
        overrideParameters := s.overrideParameters ++
          if keepsOverrides s then
            (overrides.filter fun o => o.name ∉ own).map fun o => o.set { name := o.name }
          else [] } := by
  induction overrides generalizing s with
  | nil =>
    rw [List.filter_nil, List.map_nil, ite_self, List.append_nil]
    rfl
  | cons o overrides ih =>
    rw [List.foldl_cons, List.foldl_cons, List.filter_cons]
    by_cases hmem : o.name ∈ own
    · have hown' := fun name => (mem_names_setParam_iff o h name).trans (hown name)
      have hlate : ¬decide (o.name ∉ own) = true := by simpa using hmem
      rw [createOverrideDef_of_mem h ((hown o.name).mpr hmem), if_neg hlate]
      exact ih { s with params := setParam s.params o } (setParam_spec o h).1 hown'
    · obtain ⟨hsame, hdef⟩ := createOverrideDef_of_not_mem h (mt (hown o.name).mp hmem)
      have hlate : decide (o.name ∉ own) = true := by simpa using hmem
      have hkeeps : ∀ overrideParameters, keepsOverrides
          { s with overrideParameters := overrideParameters } = keepsOverrides s := fun _ => rfl
      have hrest := fun overrideParameters =>
        ih { s with overrideParameters := overrideParameters } h hown
      rw [hdef, hsame, if_pos hlate, List.map_cons, hrest, hkeeps]
      cases hkept : keepsOverrides s with
      | true => simp [hkeeps, hkept]
      | false => simp [hkeeps, hkept]

/-- A definition that has been read: its parameters are those that it adds, with the overrides of
their names. -/
structure IsRead (delegator : Option Delegator) (e : ServiceElement) (s : ModelService) : Prop where
  valid : Valid ModelParam.name s.params
  find_eq : ∀ name, s.params.find name =
    (e.overrides.filter fun o => o.name = name).foldl (fun param o => param.map o.set)
      ((e.ownParams delegator).filter fun param => param.name = name).getLast?
  names_eq : s.params.names ModelParam.name = (e.ownParams delegator).map ModelParam.name ++
    (e.overrides.map (·.name)).filter (· ∈ (e.ownParams delegator).map ModelParam.name)
  overrideParameters_eq : s.overrideParameters =
    if keepsOverrides (newModelService e) then
      (e.overrides.filter fun o => o.name ∉ (e.ownParams delegator).map ModelParam.name).map
        fun o => o.set { name := o.name }
    else []
  inheritedParameters_eq : s.inheritedParameters = false
  engineName_eq : s.engineName = (newModelService e).engineName
  implServices_eq : s.implServices = (newModelService e).implServices
  internalGroup_eq : s.internalGroup = (newModelService e).internalGroup
  location_eq : s.location = (newModelService e).location

theorem foldl_some_eq_getLast? {P : Type} (l : List P) (p : Option P) :
    l.foldl (fun _ p => some p) p = l.getLast?.or p := by
  induction l generalizing p with
  | nil => rfl
  | cons q l ih => rw [List.foldl_cons, ih, List.getLast?_cons, Option.or_some, Option.some_or]

theorem names_foldl_add (params : List ModelParam) (h : Valid ModelParam.name r) :
    (params.foldl (Registry.add ModelParam.name) r).names ModelParam.name =
      r.names ModelParam.name ++ params.map ModelParam.name := by
  induction params generalizing r with
  | nil => exact (List.append_nil _).symm
  | cons param params ih =>
    rw [List.foldl_cons, ih (h.add param), h.names_add, List.append_assoc, List.map_cons]
    rfl

theorem isRead_createModelService (delegator : Option Delegator) (e : ServiceElement) :
    IsRead delegator e (createModelService delegator e) := by
  have hempty : Valid ModelParam.name (Registry.empty {} : Registry String ModelParam) :=
    valid_empty _
  obtain ⟨hvalid, hfind⟩ := hempty.find_foldl (Registry.add ModelParam.name)
    ModelParam.name (fun param _ => some param) (fun r param h => ⟨h.add param, h.find_add param⟩)
    (e.ownParams delegator)
  have hnames := names_foldl_add (e.ownParams delegator) hempty
  have hown : ∀ name, name ∈ ((e.ownParams delegator).foldl (Registry.add ModelParam.name)
      (.empty {})).names ModelParam.name ↔ name ∈ (e.ownParams delegator).map ModelParam.name := by
    intro name
    rw [hnames]
    rfl
  obtain ⟨hvalid', hfind'⟩ := hvalid.find_foldl setParam OverrideElement.name
    (fun o param => param.map o.set) (fun r o h => setParam_spec o h) e.overrides
  have hread : createModelService delegator e = _ :=
    (congrArg (e.overrides.foldl createOverrideDef) (foldl_addParam (newModelService e)
      (e.ownParams delegator))).trans
      (foldl_createOverrideDef e.overrides _ _ hvalid hown)
  rw [hread]
  refine ⟨hvalid', fun name => ?_, ?_, rfl, rfl, rfl, rfl, rfl, rfl⟩
  · have hnew : (newModelService e).params = .empty {} := rfl
    dsimp only
    rw [hnew, hfind', hfind]
    have hfirst := foldl_some_eq_getLast?
      ((e.ownParams delegator).filter fun param => param.name = name) none
    rw [Option.or_none] at hfirst
    rw [← hfirst]
    rfl
  · exact (names_foldl_setParam e.overrides _ hvalid hown).trans (congrArg (· ++ _) hnames)

/-! ### Both tables -/

def inheritedParams {E : Type} (dctx : Option (String → Except E (Option (List ModelParam))))
    (implServices : List ModelServiceIface) : List (Bool × ModelParam) :=
  match dctx with
  | none => []
  | some getModelService => implServices.flatMap fun iface =>
    match getModelService iface.service with
    | .ok (some params) => params.map (iface.optional, ·)
    | _ => []

theorem interfaceParams_eq_ok {E : Type}
    {getModelService : String → Except E (Option (List ModelParam))}
    {implServices : List ModelServiceIface} {inherited : List (Bool × ModelParam)}
    (h : interfaceParams getModelService implServices = .ok inherited) :
    inherited = inheritedParams (some getModelService) implServices := by
  induction implServices generalizing inherited with
  | nil => exact (Except.ok.inj h).symm
  | cons iface implServices ih =>
    rw [interfaceParams] at h
    cases hmodel : getModelService iface.service with
    | error e =>
      rw [hmodel] at h
      nomatch h
    | ok model =>
      rw [hmodel] at h
      change (interfaceParams getModelService implServices).map _ = _ at h
      cases hrest : interfaceParams getModelService implServices with
      | error e =>
        rw [hrest] at h
        nomatch h
      | ok rest =>
        rw [hrest] at h
        obtain rfl := Except.ok.inj h
        rw [ih hrest, inheritedParams, inheritedParams, List.flatMap_cons, hmodel]
        cases model with
        | none => rfl
        | some params => rfl

/-- The parameters of a service in its list and in its map: one of each name, the same in both, and
those that are decided. `validate` takes what it requires and what it allows from them. -/
structure Consistent (s : ModelService) (decided : String → Option ModelParam) : Prop where
  nodup : (s.contextParamList.map ModelParam.name).Nodup
  same : ∀ ref, ref ∈ s.params.order ↔ ∃ name, s.params.index name = some ref
  named : ∀ name param, s.getParam name = some param → param.name = name
  decides : ∀ name, s.getParam name = decided name
  required : ∀ mode name, requiredInfo mode s.contextParamList name =
    ((decided name).filter fun param => param.isFor mode && !param.optional).map ModelParam.type
  allowed : ∀ mode name, optionalInfo mode s.contextParamList name =
    ((decided name).filter fun param => param.isFor mode && param.optional).map ModelParam.type

def decidedFor {E : Type} (delegator : Option Delegator) (e : ServiceElement)
    (getGroupModel : String → Option (List ModelServiceIface))
    (dctx : Option (String → Except E (Option (List ModelParam)))) (name : String) :
    Option ModelParam :=
  decided delegator e (keepsOverrides (newModelService e))
    (inheritedParams dctx ((newModelService e).interfaces getGroupModel)) name

variable {E : Type} {delegator : Option Delegator} {e : ServiceElement}
  {getGroupModel : String → Option (List ModelServiceIface)}
  {dctx : Option (String → Except E (Option (List ModelParam)))} {s : ModelService}

theorem params_interfaceUpdate
    (h : (createModelService delegator e).interfaceUpdate getGroupModel dctx = .ok s) :
    s.params = (createModelService delegator e).overrideParameters.foldl overrideParam
      ((inheritedParams dctx ((newModelService e).interfaces getGroupModel)).foldl inheritParam
        (createModelService delegator e).params) := by
  have hread := isRead_createModelService delegator e
  have hinterfaces : (createModelService delegator e).interfaces getGroupModel =
      (newModelService e).interfaces getGroupModel := by
    rw [ModelService.interfaces, ModelService.interfaces, hread.engineName_eq,
      hread.implServices_eq, hread.internalGroup_eq, hread.location_eq]
  rw [ModelService.interfaceUpdate, hread.inheritedParameters_eq, if_neg Bool.false_ne_true,
    hinterfaces] at h
  cases dctx with
  | none =>
    obtain rfl := Except.ok.inj h
    rfl
  | some getModelService =>
    dsimp only at h
    cases hparams : interfaceParams getModelService
        ((newModelService e).interfaces getGroupModel) with
    | error e =>
      rw [hparams] at h
      nomatch h
    | ok inherited =>
      rw [hparams] at h
      obtain rfl := Except.ok.inj h
      rw [interfaceParams_eq_ok hparams]

theorem filter_overrideParameters (own : List String) (overrides : List OverrideElement)
    (name : String) :
    (((overrides.filter fun o => o.name ∉ own).map fun o => o.set { name := o.name }).filter
        fun o => o.name = name) =
      if name ∈ own then []
      else (overrides.filter fun o => o.name = name).map fun o => o.set { name := o.name } := by
  rw [List.filter_map]
  have hset : ((fun o : ModelParam => decide (o.name = name)) ∘
      fun o : OverrideElement => o.set { name := o.name }) = fun o => decide (o.name = name) := rfl
  rw [hset, List.filter_filter]
  split_ifs with hname
  · rw [List.map_eq_nil_iff, List.filter_eq_nil_iff]
    intro o _ h
    simp only [Bool.and_eq_true, decide_eq_true_eq] at h
    exact h.2 (h.1 ▸ hname)
  · refine congrArg (List.map _) (List.filter_congr fun o _ => ?_)
    rw [Bool.and_eq_left_iff_imp]
    intro h
    rw [decide_eq_true_eq] at h ⊢
    exact h ▸ hname

theorem find_params (name : String) (inherited : List (Bool × ModelParam)) :
    Valid ModelParam.name ((createModelService delegator e).overrideParameters.foldl overrideParam
      (inherited.foldl inheritParam (createModelService delegator e).params)) ∧
    ((createModelService delegator e).overrideParameters.foldl overrideParam
      (inherited.foldl inheritParam (createModelService delegator e).params)).find name =
      decided delegator e (keepsOverrides (newModelService e)) inherited name := by
  have hread := isRead_createModelService delegator e
  obtain ⟨hvalid, hfind⟩ := hread.valid.find_foldl inheritParam
    (fun newParam => newParam.2.name) inheritOf (fun r newParam h => inheritParam_spec newParam h)
    inherited
  obtain ⟨hvalid', hfind'⟩ := hvalid.find_foldl overrideParam ModelParam.name
    (fun o param => param.map o.rewrite) (fun r o h => overrideParam_spec o h)
    (createModelService delegator e).overrideParameters
  refine ⟨hvalid', ?_⟩
  have hown : ((e.ownParams delegator).filter fun param => param.name = name).getLast? = none ↔
      name ∉ (e.ownParams delegator).map ModelParam.name := by
    rw [List.getLast?_eq_none_iff, List.filter_eq_nil_iff, List.mem_map]
    simp
  rw [hfind', hfind, hread.find_eq, hread.overrideParameters_eq, decided]
  cases keepsOverrides (newModelService e) with
  | false =>
    rw [if_neg Bool.false_ne_true, List.filter_nil, List.foldl_nil]
    exact (if_neg fun h => Bool.false_ne_true h.2).symm
  | true =>
    rw [if_pos rfl, filter_overrideParameters]
    by_cases hmem : name ∈ (e.ownParams delegator).map ModelParam.name
    · rw [if_pos hmem, if_neg fun h => hown.mp h.1 hmem]
      rfl
    · rw [if_neg hmem, if_pos ⟨hown.mpr hmem, rfl⟩, List.foldl_map]

/-- **The map is right**: it has what the declarations come to. -/
theorem getParam_interfaceUpdate
    (h : (createModelService delegator e).interfaceUpdate getGroupModel dctx = .ok s)
    (name : String) :
    s.getParam name = decidedFor delegator e getGroupModel dctx name := by
  rw [ModelService.getParam, params_interfaceUpdate h]
  exact (find_params name _).2

theorem nodup_params (inherited : List (Bool × ModelParam)) :
    (((createModelService delegator e).overrideParameters.foldl overrideParam
      (inherited.foldl inheritParam (createModelService delegator e).params)).names
        ModelParam.name).Nodup ↔
    ((e.ownParams delegator).map ModelParam.name).Nodup ∧
      ∀ o ∈ e.overrides, o.name ∉ (e.ownParams delegator).map ModelParam.name := by
  have hread := isRead_createModelService delegator e
  have hvalid := (hread.valid.find_foldl inheritParam
    (fun newParam => newParam.2.name) inheritOf (fun r newParam h => inheritParam_spec newParam h)
    inherited).1
  rw [nodup_foldl (fun r o h => ⟨(overrideParam_spec o h).1, nodup_overrideParam o h⟩) _ hvalid,
    nodup_foldl (fun r newParam h => ⟨(inheritParam_spec newParam h).1,
      nodup_inheritParam newParam h⟩) _ hread.valid,
    hread.names_eq, List.nodup_append]
  constructor
  · rintro ⟨hown, -, hdisjoint⟩
    refine ⟨hown, fun o ho hmem => ?_⟩
    refine hdisjoint o.name hmem o.name (List.mem_filter.mpr ⟨List.mem_map_of_mem ho, ?_⟩) rfl
    exact decide_eq_true hmem
  · rintro ⟨hown, hfresh⟩
    have hnil : (e.overrides.map (·.name)).filter
        (· ∈ (e.ownParams delegator).map ModelParam.name) = [] := by
      rw [List.filter_eq_nil_iff]
      intro name hname hmem
      obtain ⟨o, ho, rfl⟩ := List.mem_map.mp hname
      exact hfresh o ho (of_decide_eq_true hmem)
    rw [hnil]
    exact ⟨hown, List.nodup_nil, fun _ _ _ h => absurd h List.not_mem_nil⟩

/-- **The list and the map agree exactly if no name is declared again**, and no override is of a
parameter that the definition has. -/
theorem readers_consistent_iff
    (h : (createModelService delegator e).interfaceUpdate getGroupModel dctx = .ok s) :
    Consistent s (decidedFor delegator e getGroupModel dctx) ↔
    ((e.ownParams delegator).map ModelParam.name).Nodup ∧
      ∀ o ∈ e.overrides, o.name ∉ (e.ownParams delegator).map ModelParam.name := by
  have hparams := params_interfaceUpdate h
  have hgetParam := getParam_interfaceUpdate h
  rw [← nodup_params (inheritedParams dctx ((newModelService e).interfaces getGroupModel)),
    ← hparams]
  have hvalid : Valid ModelParam.name s.params := by
    rw [hparams]
    exact (find_params "" _).1
  constructor
  · exact fun hconsistent => hconsistent.nodup
  · intro hnodup
    have hnamed : ∀ name param, s.getParam name = some param → param.name = name := by
      intro name param hparam
      obtain ⟨ref, hindex, rfl⟩ := Option.map_eq_some_iff.mp hparam
      exact hvalid.nameOf_eq name ref hindex
    have hlisted : ∀ name param,
        param ∈ s.contextParamList ∧ param.name = name ↔ s.getParam name = some param := by
      intro name param
      rw [ModelService.contextParamList, hvalid.mem_listed_iff hnodup]
      constructor
      · rintro ⟨hfind, rfl⟩
        exact hfind
      · intro hfind
        have hname := hnamed name param hfind
        exact ⟨hname.symm ▸ hfind, hname⟩
    refine ⟨hnodup, hvalid.mem_order_iff hnodup, hnamed, hgetParam, fun mode name => ?_,
      fun mode name => ?_⟩
    · rw [← hgetParam]
      exact infoOf_eq hnodup (hlisted name)
    · rw [← hgetParam]
      exact infoOf_eq hnodup (hlisted name)

def sampleDctx : Option (String → Except Unit (Option (List ModelParam))) :=
  some fun _ => .ok (some [{ name := "partyId", type := "String", mode := IN_PARAM }])

def sampleElement : ServiceElement where
  attributes := [{ name := "note", type := "String", mode := IN_PARAM }]
  overrides := [{ name := "partyId", type := "Long" }]
  implements := [⟨"iface", false⟩]

theorem readers_consistent_iff_sample : ∃ s,
    (createModelService none sampleElement).interfaceUpdate (fun _ => none) sampleDctx = .ok s ∧
    Consistent s (decidedFor none sampleElement (fun _ => none) sampleDctx) := by
  refine ⟨_, rfl, (readers_consistent_iff rfl).mpr ⟨?_, ?_⟩⟩
  · decide
  · decide

def redeclaredElement : ServiceElement where
  attributes := [{ name := "note", type := "String", mode := IN_PARAM },
    { name := "note", type := "String", mode := OUT_PARAM }]

theorem not_consistent_redeclared : ∃ s,
    (createModelService none redeclaredElement).interfaceUpdate (fun _ => none) sampleDctx =
      .ok s ∧
    (s.getParam "note").map ModelParam.mode = some OUT_PARAM ∧
    requiredInfo IN_PARAM s.contextParamList "note" = some "String" ∧
    ¬Consistent s (decidedFor none redeclaredElement (fun _ => none) sampleDctx) := by
  refine ⟨_, rfl, by decide, by decide, fun h => ?_⟩
  have hnodup := h.nodup
  revert hnodup
  decide

end OfficeAuto.Service.Model
