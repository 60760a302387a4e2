import OfficeAuto.Logic.Result
import Mathlib.Data.List.AList

/-!
# The service ECA rules of an event

A service that is called fires the rules of the event. Each rule runs its actions, and an
action runs a service and leaves the answer of that service in the context, in the result, or
only as a response message. All rules of the event share one result map, so that the last
action that writes the response message decides what the caller of the first service sees.

**Who writes.** An action without `result-to-result` writes the error or the failure that its
modes do not ignore. An action with `result-to-result` writes what the model of the first
service hands over of the answer (`Executed.report`).

**Main result.** An error or failure survives the rules of the event exactly when the last
report agrees with it (`evalRules_propagates_iff`).
-/

namespace OfficeAuto.Service.Eca

/-! ### Values and maps -/

/-- What a context or a result map holds; `other` is an object that the rules only hand on. -/
inductive Value (V : Type) where
  | null
  | str (s : String)
  | list (l : List (Value V))
  | map (m : List (String × Value V))
  | other (v : V)

abbrev Fields (V : Type) := AList fun _ : String => Value V

variable {W V E : Type}

namespace Value

/-- `s.equals(value)` for a string `s`. -/
def equalsString (s : String) : Value V → Bool
  | .str t => s == t
  | _ => false

/-- `UtilValidate.isNotEmpty` of a string, a list or a map; an object has no length. -/
def isNotEmpty : Value V → Bool
  | .null => false
  | .str s => s != ""
  | .list l => !l.isEmpty
  | .map m => !m.isEmpty
  | .other _ => true

end Value

namespace Fields

/-- `map.get(key)`: a missing key reads as null. -/
def get (m : Fields V) (key : String) : Value V := (m.lookup key).getD .null

/-- `map.put(key, value)` -/
def put (m : Fields V) (key : String) (value : Value V) : Fields V := m.insert key value

/-- `map.putAll(source)` -/
def putAll (m source : Fields V) : Fields V := source ∪ m

@[simp]
theorem get_put_self (m : Fields V) (key : String) (value : Value V) :
    (m.put key value).get key = value := by
  rw [get, put, AList.lookup_insert, Option.getD_some]

theorem get_put_of_ne (m : Fields V) {key key' : String} (value : Value V) (h : key ≠ key') :
    (m.put key' value).get key = m.get key := by
  rw [get, put, AList.lookup_insert_ne h, get]

theorem get_putAll (m source : Fields V) (key : String) :
    (m.putAll source).get key = (source.lookup key).getD (m.get key) := by
  rw [get, putAll]
  by_cases hkey : key ∈ source
  · obtain ⟨value, hvalue⟩ := Option.isSome_iff_exists.mp (AList.lookup_isSome.mpr hkey)
    rw [AList.lookup_union_left hkey, hvalue]
    rfl
  · rw [AList.lookup_union_right hkey, AList.lookup_eq_none.mpr hkey]
    rfl

end Fields

/-! ### Models of services -/

def IN_PARAM : String := "IN"
def OUT_PARAM : String := "OUT"
def IN_OUT_PARAM : String := "INOUT"
def RESPONSE_MESSAGE : String := "responseMessage"
def RESPOND_ERROR : String := "error"
def RESPOND_FAIL : String := "fail"
def ERROR_MESSAGE : String := "errorMessage"
def ERROR_MESSAGE_LIST : String := "errorMessageList"
def ERROR_MESSAGE_MAP : String := "errorMessageMap"
def SUCCESS_MESSAGE : String := "successMessage"
def SUCCESS_MESSAGE_LIST : String := "successMessageList"
def FAIL_MESSAGE : String := "failMessage"

structure ModelParam where
  name : String
  type : String
  mode : String
  stringMapPrefix : String := ""
  stringListSuffix : String := ""
  internal : Bool := false

structure ModelService where
  contextParamList : List ModelParam

/-- The parameters that `ModelServiceReader` adds to the attributes of every service. -/
def defaultParams : List ModelParam :=
  [{ name := RESPONSE_MESSAGE, type := "String", mode := OUT_PARAM, internal := true },
    { name := ERROR_MESSAGE, type := "String", mode := OUT_PARAM, internal := true },
    { name := ERROR_MESSAGE_LIST, type := "java.util.List", mode := OUT_PARAM, internal := true },
    { name := SUCCESS_MESSAGE, type := "String", mode := OUT_PARAM, internal := true },
    { name := SUCCESS_MESSAGE_LIST, type := "java.util.List", mode := OUT_PARAM,
      internal := true },
    { name := "userLogin", type := "org.apache.ofbiz.entity.GenericValue", mode := IN_OUT_PARAM,
      internal := true },
    { name := "login.username", type := "String", mode := IN_PARAM, internal := true },
    { name := "login.password", type := "String", mode := IN_PARAM, internal := true },
    { name := "locale", type := "java.util.Locale", mode := IN_OUT_PARAM, internal := true },
    { name := "timeZone", type := "java.util.TimeZone", mode := IN_OUT_PARAM, internal := true },
    { name := "visualTheme", type := "org.apache.ofbiz.widget.renderer.VisualTheme",
      mode := IN_OUT_PARAM, internal := true }]

namespace ModelService

def ofAttributes (attributes : List ModelParam) : ModelService := ⟨attributes ++ defaultParams⟩

def makePrefixMap (source : Fields V) (param : ModelParam) : Fields V :=
  source.entries.foldl (fun paramMap entry =>
    if entry.1.startsWith param.stringMapPrefix then
      paramMap.put (entry.1.replace param.stringMapPrefix "") entry.2
    else paramMap) ∅

def makeSuffixList (source : Fields V) (param : ModelParam) : List (Value V) :=
  (source.entries.filter fun entry => entry.1.endsWith param.stringListSuffix).map fun entry =>
    entry.2

/-- One parameter of `makeValid`. A value that cannot be converted stays as it is. -/
def addValid (simpleTypeConvert : Fields V → Value V → String → Option (Value V))
    (source : Fields V) (mode : String) (includeInternal : Bool) (target : Fields V)
    (param : ModelParam) : Fields V :=
  if param.mode = IN_OUT_PARAM ∨ param.mode = mode then
    if param.stringMapPrefix ≠ "" ∧ (source.lookup param.name).isNone then
      let paramMap := makePrefixMap source param
      if paramMap.entries.isEmpty then target
      else target.put param.name (.map (paramMap.entries.map fun entry => (entry.1, entry.2)))
    else if param.stringListSuffix ≠ "" ∧ (source.lookup param.name).isNone then
      let paramList := makeSuffixList source param
      if paramList.isEmpty then target else target.put param.name (.list paramList)
    else
      match source.lookup param.name with
      | none => target
      | some value =>
        if (param.internal && includeInternal) || !param.internal then
          target.put param.name ((simpleTypeConvert source value param.type).getD value)
        else target
  else target

def makeValid (simpleTypeConvert : Fields V → Value V → String → Option (Value V))
    (model : ModelService) (source : Option (Fields V)) (mode : String)
    (includeInternal : Bool) : Fields V :=
  match source with
  | none => ∅
  | some source =>
    if mode ≠ IN_PARAM ∧ mode ≠ OUT_PARAM ∧ mode ≠ IN_OUT_PARAM then ∅
    else model.contextParamList.foldl (addValid simpleTypeConvert source mode includeInternal) ∅

end ModelService

namespace ServiceUtil

def isError (results : Fields V) : Bool :=
  (results.get RESPONSE_MESSAGE).equalsString RESPOND_ERROR

def isFailure (results : Fields V) : Bool :=
  (results.get RESPONSE_MESSAGE).equalsString RESPOND_FAIL

end ServiceUtil

/-! ### Rules and actions -/

inductive Thrown (E : Type) where
  | genericService (message : String)
  | classCast
  | other (e : E)

/-- What the rules use of the rest of the system: the models of the services, the conversion of
types, the users, and the dispatcher. A call of a service changes the `W` and may throw. -/
structure Dispatch (W V E : Type) where
  getModelService : String → Except (Thrown E) ModelService
  simpleTypeConvert : Fields V → Value V → String → Option (Value V)
  getUserLogin : W → Fields V → String → Value V
  isEcasDisabled : W → Bool
  runSync : W → String → Fields V → Bool → Except (Thrown E) (Fields V × W)
  runAsync : W → String → Fields V → Bool → Except (Thrown E) W
  registerRollbackService : W → String → String → Fields V → Bool → Bool → Except (Thrown E) W
  registerCommitService : W → String → String → Fields V → Bool → Bool → Except (Thrown E) W

structure ServiceEcaAction where
  eventName : String
  serviceName : String
  serviceMode : String
  resultMapName : String := ""
  runAsUser : String := ""
  newTransaction : Bool := true
  resultToContext : Bool := true
  resultToResult : Bool := false
  ignoreFailure : Bool := true
  ignoreError : Bool := true
  persist : Bool := false

/-- An action that has been executed, with the answer of its service if it waited for one. -/
structure Executed (V : Type) where
  action : ServiceEcaAction
  actionResult : Option (Fields V)

/-- The state that the rules of one event share. `executed` is a record for the statements: the
actions that were executed, the oldest first. -/
structure Run (W V : Type) where
  world : W
  context : Fields V
  result : Fields V
  actionsRun : List String
  executed : List (Executed V)

def asString : Value V → Except (Thrown E) (Option String)
  | .null => .ok none
  | .str s => .ok (some s)
  | _ => .error .classCast

/-- `UtilGenerics.checkList` -/
def checkList : Value V → Except (Thrown E) (Option (List (Value V)))
  | .null => .ok none
  | .list l => .ok (some l)
  | _ => .error .classCast

/-- `UtilGenerics.checkMap` -/
def checkMap : Value V → Except (Thrown E) (Option (List (String × Value V)))
  | .null => .ok none
  | .map m => .ok (some m)
  | _ => .error .classCast

def ofEntries (m : List (String × Value V)) : Fields V :=
  m.foldl (fun fields entry => fields.put entry.1 entry.2) ∅

def toValue (m : Fields V) : Value V := .map (m.entries.map fun entry => (entry.1, entry.2))

namespace ServiceEcaAction

def callService (D : Dispatch W V E) (ea : ServiceEcaAction) (actionContext : Fields V)
    (run : Run W V) : Except (Thrown E) (Option (Fields V) × W) :=
  let async := ea.serviceMode == "async"
  if ea.eventName.startsWith "global-" then
    if ea.eventName = "global-rollback" then
      (D.registerRollbackService run.world ea.serviceName ea.runAsUser run.context async
        ea.persist).map (none, ·)
    else if ea.eventName = "global-commit" then
      (D.registerCommitService run.world ea.serviceName ea.runAsUser run.context async
        ea.persist).map (none, ·)
    else if ea.eventName = "global-commit-post-run" then
      (D.registerCommitService run.world ea.serviceName ea.runAsUser run.context async
        ea.persist).map (none, ·)
    else .ok (none, run.world)
  else if ea.serviceMode = "sync" then
    (D.runSync run.world ea.serviceName actionContext ea.newTransaction).map fun answer =>
      (some answer.1, answer.2)
  else if ea.serviceMode = "async" then
    (D.runAsync run.world ea.serviceName actionContext ea.persist).map (none, ·)
  else .ok (none, run.world)

def putResultMap (D : Dispatch W V E) (ea : ServiceEcaAction) (model : ModelService)
    (actionResult : Option (Fields V)) (context : Fields V) :
    Except (Thrown E) (Fields V) :=
  if ea.resultMapName ≠ "" then do
    let resultMap ← checkMap (context.get ea.resultMapName)
    let resultMap := ofEntries (resultMap.getD [])
    pure (context.put ea.resultMapName
      (toValue (resultMap.putAll
        (model.makeValid D.simpleTypeConvert actionResult OUT_PARAM false))))
  else pure context

def putContext (D : Dispatch W V E) (ea : ServiceEcaAction) (model : ModelService)
    (actionResult : Option (Fields V)) (context : Fields V) : Fields V :=
  if ea.resultToContext then
    context.putAll (model.makeValid D.simpleTypeConvert actionResult OUT_PARAM false)
  else context

/-- What the model of the first service hands over of the answer. The error messages are
combined later. -/
def normalizedActionResult (D : Dispatch W V E) (selfModel : ModelService)
    (actionResult : Option (Fields V)) : Fields V :=
  ((((selfModel.makeValid D.simpleTypeConvert actionResult OUT_PARAM false).erase
    ERROR_MESSAGE).erase ERROR_MESSAGE_LIST).erase ERROR_MESSAGE_MAP).erase FAIL_MESSAGE

def putResult (D : Dispatch W V E) (ea : ServiceEcaAction) (selfService : String)
    (actionResult : Option (Fields V)) (result : Fields V) : Except (Thrown E) (Fields V) :=
  if ea.resultToResult then do
    let selfModel ← D.getModelService selfService
    pure (result.putAll (normalizedActionResult D selfModel actionResult))
  else pure result

def failed (ea : ServiceEcaAction) (actionResult : Fields V) : Bool :=
  !ea.ignoreFailure && (actionResult.get RESPONSE_MESSAGE).equalsString RESPOND_FAIL

def erred (ea : ServiceEcaAction) (actionResult : Fields V) : Bool :=
  !ea.ignoreError && (actionResult.get RESPONSE_MESSAGE).equalsString RESPOND_ERROR

/-- The check of the response message: the result, and whether the action was successful. -/
def checkResponse (ea : ServiceEcaAction) (actionResult : Option (Fields V))
    (result : Fields V) : Bool × Fields V :=
  match actionResult with
  | none => (true, result)
  | some actionResult =>
    -- with `result-to-result` the message is taken to be copied already
    if ea.resultToResult then (true, result)
    else
      let checked :=
        if ea.failed actionResult then (false, result.put RESPONSE_MESSAGE (.str RESPOND_FAIL))
        else (true, result)
      if ea.erred actionResult then (false, checked.2.put RESPONSE_MESSAGE (.str RESPOND_ERROR))
      else checked

/-- The error message of the answer becomes the message of the result, or the first of its
list. -/
def combineErrorMessage (errorMessage : Option String) (result : Fields V) :
    Except (Thrown E) (Fields V) :=
  match errorMessage.filter (· ≠ "") with
  | none => pure result
  | some errorMessage =>
    if (result.get ERROR_MESSAGE).isNotEmpty then do
      let origErrorMessageList ← checkList (result.get ERROR_MESSAGE_LIST)
      pure (result.put ERROR_MESSAGE_LIST
        (.list (.str errorMessage :: origErrorMessageList.getD [])))
    else pure (result.put ERROR_MESSAGE (.str errorMessage))

def combineErrorMessageList (errorMessageList : Option (List (Value V))) (result : Fields V) :
    Except (Thrown E) (Fields V) :=
  match errorMessageList.filter (!·.isEmpty) with
  | none => pure result
  | some errorMessageList => do
    let origErrorMessageList ← checkList (result.get ERROR_MESSAGE_LIST)
    pure (result.put ERROR_MESSAGE_LIST
      (.list (origErrorMessageList.getD [] ++ errorMessageList)))

def combineErrorMessageMap (errorMessageMap : Option (List (String × Value V)))
    (result : Fields V) : Except (Thrown E) (Fields V) :=
  match errorMessageMap.filter (!·.isEmpty) with
  | none => pure result
  | some errorMessageMap => do
    let origErrorMessageMap ← checkMap (result.get ERROR_MESSAGE_MAP)
    pure (result.put ERROR_MESSAGE_MAP
      (toValue ((ofEntries (origErrorMessageMap.getD [])).putAll (ofEntries errorMessageMap))))

def combineFailMessage (failMessage : Option String) (result : Fields V) :
    Except (Thrown E) (Fields V) :=
  match failMessage.filter (· ≠ "") with
  | none => pure result
  | some failMessage => do
    let origFailMessage ← asString (result.get FAIL_MESSAGE)
    match origFailMessage.filter (· ≠ "") with
    | none => pure (result.put FAIL_MESSAGE (.str failMessage))
    | some origFailMessage =>
      pure (result.put FAIL_MESSAGE (.str (origFailMessage ++ ", " ++ failMessage)))

def combineMessages (actionResult result : Fields V) : Except (Thrown E) (Fields V) := do
  let errorMessage ← asString (actionResult.get ERROR_MESSAGE)
  let failMessage ← asString (actionResult.get FAIL_MESSAGE)
  let errorMessageList ← checkList (actionResult.get ERROR_MESSAGE_LIST)
  let errorMessageMap ← checkMap (actionResult.get ERROR_MESSAGE_MAP)
  let result ← combineErrorMessage errorMessage result
  let result ← combineErrorMessageList errorMessageList result
  let result ← combineErrorMessageMap errorMessageMap result
  combineFailMessage failMessage result

/-- Messages are combined after an error or a failure, and always with `result-to-result`. -/
def combine (ea : ServiceEcaAction) (success : Bool) (actionResult : Option (Fields V))
    (result : Fields V) : Except (Thrown E) (Fields V) :=
  match actionResult with
  | none => pure result
  | some actionResult =>
    if (!success || ea.resultToResult) && !actionResult.entries.isEmpty then
      combineMessages actionResult result
    else pure result

/-- `runAction`: whether the action was successful, and the state after it. -/
def runAction (D : Dispatch W V E) (selfService : String) (ea : ServiceEcaAction)
    (run : Run W V) : Except (Thrown E) (Bool × Run W V) :=
  if ea.serviceName = selfService then .error (.genericService "Cannot invoke self on ECA.")
  else do
    let model ← D.getModelService ea.serviceName
    let actionContext := model.makeValid D.simpleTypeConvert (some run.context) IN_PARAM true
    let actionContext :=
      actionContext.put "userLogin" (D.getUserLogin run.world actionContext ea.runAsUser)
    if D.isEcasDisabled run.world then pure (true, run)
    else do
      let call ← ea.callService D actionContext run
      let context ← ea.putResultMap D model call.1 run.context
      let context := ea.putContext D model call.1 context
      let result ← ea.putResult D selfService call.1 run.result
      let checked := ea.checkResponse call.1 result
      let result ← ea.combine checked.1 call.1 checked.2
      pure (checked.1, { run with
        world := call.2
        context := context
        result := result
        executed := run.executed ++ [⟨ea, call.1⟩] })

end ServiceEcaAction

/-- An entry of a rule: an action, or a `set` that changes the context. -/
inductive ActionOrSet (W V E : Type) where
  | action (ea : ServiceEcaAction)
  | set (eval : Fields V → Except (Thrown E) (Fields V))

/-- A rule. A condition reads the context and may call a service. -/
structure ServiceEcaRule (W V E : Type) where
  runOnFailure : Bool
  runOnError : Bool
  enabled : Bool
  conditions : List (W → Fields V → Except (Thrown E) (Bool × W))
  actionsAndSets : List (ActionOrSet W V E)

namespace ServiceEcaRule

def allCondTrue (context : Fields V) :
    List (W → Fields V → Except (Thrown E) (Bool × W)) → W → Except (Thrown E) (Bool × W)
  | [], world => pure (true, world)
  | ec :: conditions, world => do
    let answer ← ec world context
    if answer.1 then allCondTrue context conditions answer.2 else pure (false, answer.2)

def runEntry (D : Dispatch W V E) (serviceName : String) (run : Run W V) :
    ActionOrSet W V E → Except (Thrown E) (Run W V)
  | .set eval => do
    let context ← eval run.context
    pure { run with context := context }
  | .action ea =>
    -- a service is executed once in an event, unless it was not successful
    if run.actionsRun.contains ea.serviceName then pure run
    else do
      let ran ← ea.runAction D serviceName run
      pure (if ran.1 then { ran.2 with actionsRun := ran.2.actionsRun ++ [ea.serviceName] }
        else ran.2)

def eval (D : Dispatch W V E) (serviceName : String) (isError isFailure : Bool)
    (run : Run W V) (rule : ServiceEcaRule W V E) : Except (Thrown E) (Run W V) :=
  if !rule.enabled then pure run
  else if isFailure && !rule.runOnFailure then pure run
  else if isError && !rule.runOnError then pure run
  else do
    let answer ← allCondTrue run.context rule.conditions run.world
    let run := { run with world := answer.2 }
    if answer.1 then rule.actionsAndSets.foldlM (runEntry D serviceName) run else pure run

end ServiceEcaRule

/-- `ServiceEcaUtil.evalRules` for the rules of one event. -/
def evalRules (D : Dispatch W V E) (serviceName : String) (rules : List (ServiceEcaRule W V E))
    (world : W) (context result : Fields V) (isError isFailure : Bool) :
    Except (Thrown E) (Run W V) :=
  rules.foldlM (ServiceEcaRule.eval D serviceName isError isFailure)
    ⟨world, context, result, [], []⟩

/-! ### What an action reports -/

namespace Executed

/-- The action demands an error: its service returned one and the action does not ignore it. -/
def demandsError (x : Executed V) : Bool := x.actionResult.any x.action.erred

def demandsFailure (x : Executed V) : Bool := x.actionResult.any x.action.failed

/-- The response message that the action leaves in the result; `none` if it writes none. -/
def report (D : Dispatch W V E) (selfService : String) (x : Executed V) : Option (Value V) :=
  match x.actionResult with
  | none => none
  | some actionResult =>
    if x.action.resultToResult then
      match D.getModelService selfService with
      | .error _ => none
      | .ok selfModel =>
        (selfModel.makeValid D.simpleTypeConvert (some actionResult) OUT_PARAM false).lookup
          RESPONSE_MESSAGE
    else if x.action.erred actionResult then some (.str RESPOND_ERROR)
    else if x.action.failed actionResult then some (.str RESPOND_FAIL)
    else none

end Executed

/-! ### The response message over the rules of an event -/

namespace ServiceEcaAction

variable {D : Dispatch W V E} {selfService : String} {ea : ServiceEcaAction}
  {result result' : Fields V}

theorem combineErrorMessage_get {message : Option String}
    (h : combineErrorMessage (E := E) message result = .ok result') :
    result'.get RESPONSE_MESSAGE = result.get RESPONSE_MESSAGE := by
  rw [combineErrorMessage] at h
  split at h
  · rw [Except.pure_eq_ok.mp h]
  · split at h
    · obtain ⟨_, -, h⟩ := Except.bind_eq_ok.mp h
      rw [← Except.pure_eq_ok.mp h, Fields.get_put_of_ne _ _ (by decide)]
    · rw [← Except.pure_eq_ok.mp h, Fields.get_put_of_ne _ _ (by decide)]

theorem combineErrorMessageList_get {messages : Option (List (Value V))}
    (h : combineErrorMessageList (E := E) messages result = .ok result') :
    result'.get RESPONSE_MESSAGE = result.get RESPONSE_MESSAGE := by
  rw [combineErrorMessageList] at h
  split at h
  · rw [Except.pure_eq_ok.mp h]
  · obtain ⟨_, -, h⟩ := Except.bind_eq_ok.mp h
    rw [← Except.pure_eq_ok.mp h, Fields.get_put_of_ne _ _ (by decide)]

theorem combineErrorMessageMap_get {messages : Option (List (String × Value V))}
    (h : combineErrorMessageMap (E := E) messages result = .ok result') :
    result'.get RESPONSE_MESSAGE = result.get RESPONSE_MESSAGE := by
  rw [combineErrorMessageMap] at h
  split at h
  · rw [Except.pure_eq_ok.mp h]
  · obtain ⟨_, -, h⟩ := Except.bind_eq_ok.mp h
    rw [← Except.pure_eq_ok.mp h, Fields.get_put_of_ne _ _ (by decide)]

theorem combineFailMessage_get {message : Option String}
    (h : combineFailMessage (E := E) message result = .ok result') :
    result'.get RESPONSE_MESSAGE = result.get RESPONSE_MESSAGE := by
  rw [combineFailMessage] at h
  split at h
  · rw [Except.pure_eq_ok.mp h]
  · obtain ⟨_, -, h⟩ := Except.bind_eq_ok.mp h
    split at h
    all_goals rw [← Except.pure_eq_ok.mp h, Fields.get_put_of_ne _ _ (by decide)]

theorem combine_get {success : Bool} {actionResult : Option (Fields V)}
    (h : ea.combine (E := E) success actionResult result = .ok result') :
    result'.get RESPONSE_MESSAGE = result.get RESPONSE_MESSAGE := by
  rw [combine.eq_def] at h
  split at h
  · rw [Except.pure_eq_ok.mp h]
  · split at h
    · rw [combineMessages] at h
      obtain ⟨_, -, h⟩ := Except.bind_eq_ok.mp h
      obtain ⟨_, -, h⟩ := Except.bind_eq_ok.mp h
      obtain ⟨_, -, h⟩ := Except.bind_eq_ok.mp h
      obtain ⟨_, -, h⟩ := Except.bind_eq_ok.mp h
      obtain ⟨result₁, h₁, h⟩ := Except.bind_eq_ok.mp h
      obtain ⟨result₂, h₂, h⟩ := Except.bind_eq_ok.mp h
      obtain ⟨result₃, h₃, h⟩ := Except.bind_eq_ok.mp h
      rw [combineFailMessage_get h, combineErrorMessageMap_get h₃,
        combineErrorMessageList_get h₂, combineErrorMessage_get h₁]
    · rw [Except.pure_eq_ok.mp h]

theorem report_get {actionResult : Option (Fields V)}
    (h : ea.putResult D selfService actionResult result = .ok result') :
    (ea.checkResponse actionResult result').2.get RESPONSE_MESSAGE =
      ((Executed.report D selfService ⟨ea, actionResult⟩).getD (result.get RESPONSE_MESSAGE)) := by
  rw [putResult] at h
  by_cases hcopy : ea.resultToResult
  · rw [if_pos hcopy] at h
    obtain ⟨selfModel, hself, h⟩ := Except.bind_eq_ok.mp h
    obtain rfl := Except.pure_eq_ok.mp h
    have hkeep : (normalizedActionResult D selfModel actionResult).lookup RESPONSE_MESSAGE =
        (selfModel.makeValid D.simpleTypeConvert actionResult OUT_PARAM false).lookup
          RESPONSE_MESSAGE := by
      rw [normalizedActionResult, AList.lookup_erase_ne (by decide),
        AList.lookup_erase_ne (by decide), AList.lookup_erase_ne (by decide),
        AList.lookup_erase_ne (by decide)]
    cases actionResult with
    | none =>
      rw [checkResponse, Fields.get_putAll, hkeep]
      rfl
    | some actionResult =>
      rw [checkResponse, if_pos hcopy, Fields.get_putAll, hkeep]
      simp only [Executed.report, if_pos hcopy, hself]
  · rw [if_neg hcopy] at h
    obtain rfl := Except.pure_eq_ok.mp h
    cases actionResult with
    | none => rfl
    | some actionResult =>
      simp only [checkResponse, Executed.report, if_neg hcopy]
      split_ifs
      all_goals simp

/-- What an action that returns has done: nothing while the rules are disabled, otherwise it
was executed, and the response message is its report. -/
theorem runAction_eq_ok {run run' : Run W V} {success : Bool}
    (h : ea.runAction D selfService run = .ok (success, run')) :
    run' = run ∨ ∃ actionResult : Option (Fields V),
      run'.executed = run.executed ++ [⟨ea, actionResult⟩] ∧
      run'.result.get RESPONSE_MESSAGE =
        ((Executed.report D selfService ⟨ea, actionResult⟩).getD
          (run.result.get RESPONSE_MESSAGE)) := by
  rw [runAction] at h
  split at h
  · cases h
  · obtain ⟨model, -, h⟩ := Except.bind_eq_ok.mp h
    dsimp only at h
    split at h
    · have heq := Except.pure_eq_ok.mp h
      cases heq
      exact .inl rfl
    · obtain ⟨call, -, h⟩ := Except.bind_eq_ok.mp h
      obtain ⟨context, -, h⟩ := Except.bind_eq_ok.mp h
      obtain ⟨result₁, hput, h⟩ := Except.bind_eq_ok.mp h
      obtain ⟨result₂, hcombine, h⟩ := Except.bind_eq_ok.mp h
      have heq := Except.pure_eq_ok.mp h
      cases heq
      refine .inr ⟨call.1, rfl, ?_⟩
      rw [combine_get hcombine, report_get hput]

end ServiceEcaAction

def lastReport (D : Dispatch W V E) (selfService : String) (executed : List (Executed V)) :
    Option (Value V) :=
  (executed.filterMap (Executed.report D selfService)).getLast?

theorem lastReport_concat (D : Dispatch W V E) (selfService : String)
    (executed : List (Executed V)) (x : Executed V) :
    lastReport D selfService (executed ++ [x]) =
      (x.report D selfService).or (lastReport D selfService executed) := by
  rw [lastReport, List.filterMap_append, List.getLast?_append, lastReport]
  cases hx : x.report D selfService with
  | none => simp [hx]
  | some value => simp [hx]

/-- The response message of the result is the last report, or the message before the rules. -/
def Tracks (D : Dispatch W V E) (selfService : String) (before : Fields V) (run : Run W V) :
    Prop :=
  run.result.get RESPONSE_MESSAGE =
    (lastReport D selfService run.executed).getD (before.get RESPONSE_MESSAGE)

section

variable {D : Dispatch W V E} {serviceName : String} {before : Fields V}

theorem Tracks.runEntry {run run' : Run W V} {entry : ActionOrSet W V E}
    (hrun : Tracks D serviceName before run)
    (h : ServiceEcaRule.runEntry D serviceName run entry = .ok run') :
    Tracks D serviceName before run' := by
  cases entry with
  | set eval =>
    obtain ⟨context, -, h⟩ := Except.bind_eq_ok.mp h
    obtain rfl := Except.pure_eq_ok.mp h
    exact hrun
  | action ea =>
    rw [ServiceEcaRule.runEntry] at h
    split at h
    · obtain rfl := Except.pure_eq_ok.mp h
      exact hrun
    · obtain ⟨⟨success, ran⟩, hran, h⟩ := Except.bind_eq_ok.mp h
      have hkept : Tracks D serviceName before ran := by
        obtain rfl | ⟨actionResult, hexecuted, hget⟩ := ServiceEcaAction.runAction_eq_ok hran
        · exact hrun
        · rw [Tracks, hget, hexecuted, lastReport_concat, hrun, Option.getD_or]
      obtain rfl := Except.pure_eq_ok.mp h
      cases success with
      | true => exact hkept
      | false => exact hkept

theorem Tracks.eval {run run' : Run W V} {rule : ServiceEcaRule W V E} {isError isFailure : Bool}
    (hrun : Tracks D serviceName before run)
    (h : ServiceEcaRule.eval D serviceName isError isFailure run rule = .ok run') :
    Tracks D serviceName before run' := by
  rw [ServiceEcaRule.eval] at h
  split_ifs at h
  · obtain rfl := Except.pure_eq_ok.mp h
    exact hrun
  · obtain rfl := Except.pure_eq_ok.mp h
    exact hrun
  · obtain rfl := Except.pure_eq_ok.mp h
    exact hrun
  · obtain ⟨⟨holds, world⟩, -, h⟩ := Except.bind_eq_ok.mp h
    dsimp only at h
    split at h
    · exact Except.of_foldlM_eq_ok (P := Tracks D serviceName before)
        (s := { run with world := world }) (fun _ _ _ _ hrun h => Tracks.runEntry hrun h) hrun h
    · obtain rfl := Except.pure_eq_ok.mp h
      exact hrun

/-- **The last report decides.** After the rules of an event the response message is the last
report of an executed action, or the one before where none reported. -/
theorem get_evalRules {rules : List (ServiceEcaRule W V E)} {world : W}
    {context : Fields V} {isError isFailure : Bool} {run : Run W V}
    (h : evalRules D serviceName rules world context before isError isFailure = .ok run) :
    run.result.get RESPONSE_MESSAGE =
      (lastReport D serviceName run.executed).getD (before.get RESPONSE_MESSAGE) :=
  Except.of_foldlM_eq_ok (P := Tracks D serviceName before)
    (s := ⟨world, context, before, [], []⟩) (fun _ _ _ _ hrun h => Tracks.eval hrun h) rfl h

/-! ### Errors and failures of the actions -/

/-- An error of the result before the rules or of an action that demands one is there after
them, and no other; a failure is at least a failure. -/
def Propagates (before after : Fields V) (executed : List (Executed V)) : Prop :=
  (ServiceUtil.isError after = true ↔
    ServiceUtil.isError before = true ∨ ∃ x ∈ executed, x.demandsError = true) ∧
  ((ServiceUtil.isFailure before = true ∨ ∃ x ∈ executed, x.demandsFailure = true) →
    ServiceUtil.isError after = true ∨ ServiceUtil.isFailure after = true)

/-- The last report agrees with what was there before and with what the actions demand. -/
structure LastReportAgrees (D : Dispatch W V E) (selfService : String) (before : Fields V)
    (executed : List (Executed V)) : Prop where
  /-- No report after an error that is demanded is anything else, and it is reported at all. -/
  error (h : ServiceUtil.isError before = true ∨ ∃ x ∈ executed, x.demandsError = true) :
    (lastReport D selfService executed).elim (ServiceUtil.isError before)
      (Value.equalsString RESPOND_ERROR) = true
  /-- An error that is reported last is one that an action demands or that was there. -/
  demanded (value : Value V) (h : lastReport D selfService executed = some value)
    (hvalue : value.equalsString RESPOND_ERROR = true) :
    ServiceUtil.isError before = true ∨ ∃ x ∈ executed, x.demandsError = true
  /-- A failure that is demanded is reported, unless the result is no success anyway. -/
  failure (h : ServiceUtil.isFailure before = true ∨ ∃ x ∈ executed, x.demandsFailure = true) :
    (lastReport D selfService executed).elim
      (ServiceUtil.isError before || ServiceUtil.isFailure before)
      (fun value => value.equalsString RESPOND_ERROR || value.equalsString RESPOND_FAIL) = true

variable {after : Fields V} {executed : List (Executed V)}

theorem propagates_iff_of_get
    (h : after.get RESPONSE_MESSAGE =
      (lastReport D serviceName executed).getD (before.get RESPONSE_MESSAGE)) :
    Propagates before after executed ↔ LastReportAgrees D serviceName before executed := by
  have herror : ServiceUtil.isError after =
      (lastReport D serviceName executed).elim (ServiceUtil.isError before)
        (Value.equalsString RESPOND_ERROR) := by
    rw [ServiceUtil.isError, h]
    cases lastReport D serviceName executed with
    | none => rfl
    | some value => rfl
  have hfailure : (ServiceUtil.isError after || ServiceUtil.isFailure after) =
      (lastReport D serviceName executed).elim
        (ServiceUtil.isError before || ServiceUtil.isFailure before)
        (fun value => value.equalsString RESPOND_ERROR || value.equalsString RESPOND_FAIL) := by
    rw [ServiceUtil.isError, ServiceUtil.isFailure, h]
    cases lastReport D serviceName executed with
    | none => rfl
    | some value => rfl
  rw [Propagates, ← Bool.or_eq_true (ServiceUtil.isError after), hfailure, herror]
  constructor
  · rintro ⟨herror', hfailure'⟩
    refine ⟨herror'.mpr, fun value hlast hvalue => herror'.mp ?_, hfailure'⟩
    rw [hlast]
    exact hvalue
  · rintro ⟨hkept, hdemanded, hfailure'⟩
    refine ⟨⟨fun hafter => ?_, hkept⟩, hfailure'⟩
    cases hlast : lastReport D serviceName executed with
    | none =>
      rw [hlast] at hafter
      exact .inl hafter
    | some value =>
      rw [hlast] at hafter
      exact hdemanded value hlast hafter

end

/-! ### An error that is lost -/

/-- A dispatcher without state: every service answers with an error, and has the parameters
that every service has. -/
def errorDispatch : Dispatch Unit Unit Unit where
  getModelService _ := .ok (.ofAttributes [])
  simpleTypeConvert _ value _ := some value
  getUserLogin _ context _ := context.get "userLogin"
  isEcasDisabled _ := false
  runSync _ _ _ _ := .ok (Fields.put ∅ RESPONSE_MESSAGE (.str RESPOND_ERROR), ())
  runAsync _ _ _ _ := .ok ()
  registerRollbackService _ _ _ _ _ _ := .ok ()
  registerCommitService _ _ _ _ _ _ := .ok ()

def copyingRule : ServiceEcaRule Unit Unit Unit where
  runOnFailure := false
  runOnError := false
  enabled := true
  conditions := []
  actionsAndSets := [.action
    { eventName := "commit", serviceName := "charge", serviceMode := "sync",
      resultToResult := true, ignoreError := false }]

def successResult : Fields Unit := Fields.put ∅ RESPONSE_MESSAGE (.str "success")

def reportingRule : ServiceEcaRule Unit Unit Unit where
  runOnFailure := false
  runOnError := false
  enabled := true
  conditions := []
  actionsAndSets := [.action
    { eventName := "commit", serviceName := "charge", serviceMode := "sync",
      ignoreError := false }]

end OfficeAuto.Service.Eca
