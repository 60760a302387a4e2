import Mathlib.Data.Int.Notation
import OfficeAuto.Entity.TransactionUtil
import OfficeAuto.Logic.Exits
import OfficeAuto.Minilang.Conditional

/-!
# Simple methods

A simple method is a script: a list of operations over an environment, run as an event or as a
service. Loops, conditionals, returns and calls of other simple methods are interpreted here
(`exec`), on a budget that bounds the nesting and the passes of the loops; the other operations,
the objects of the environment and the texts of the messages are those of a `Machine`.

A method may begin a transaction of its own. At the end it makes a response of the messages that
the operations have left in the environment, and then commits or rolls back
(`SimpleMethod.exec`).
-/

namespace OfficeAuto.Minilang

open OfficeAuto.Entity (Thread Throwable)

/-! ### Contexts -/

/-- The classes that the interpreter tests for or casts to. -/
inductive JavaClass
  | string
  | list
  | map
  | collection
  | iterator
  | entityListIterator
  | locale
  | genericValue
  | delegator
  | security
  | localDispatcher
  | httpServletRequest
  | httpServletResponse
  deriving DecidableEq

/-- A text, or a reference to an object, whose contents are in the world. -/
inductive Value (ω : Type)
  | string (s : String)
  | object (o : ω)
  deriving DecidableEq

/-- What each name gets. A name without an entry and one with the value null get the same. -/
abbrev Env (ω : Type) := String → Option (Value ω)

/-- An event has a request. -/
inductive MethodType (ω : Type)
  | event (request : Value ω)
  | service

structure MethodContext (ω : Type) where
  methodType : MethodType ω
  env : Env ω
  results : Env ω
  parameters : Option (Value ω)
  locale : Option (Value ω)
  userLogin : Option (Value ω)
  delegator : Option (Value ω)
  security : Option (Value ω)
  dispatcher : Option (Value ω)
  response : Option (Value ω)

structure State (ω W α : Type) where
  context : MethodContext ω
  world : W
  thread : Thread α

namespace State

variable {ω W α : Type}

def env (s : State ω W α) : Env ω := s.context.env

def putEnv (name : String) (value : Option (Value ω)) (s : State ω W α) : State ω W α :=
  { s with context := { s.context with env := Function.update s.context.env name value } }

def putResult (name : String) (value : Option (Value ω)) (s : State ω W α) : State ω W α :=
  { s with context := { s.context with results := Function.update s.context.results name value } }

end State

/-! ### Scripts -/

/-- A text with expressions in it, as a function of the environment. -/
abbrev FlexibleString (ω : Type) := Env ω → String

structure CallSimpleMethod where
  methodName : String
  xmlResource : String
  isFunction : Bool
  resultToFieldList : List (String × String)

/-- An operation of a script, with the number of its line where its exceptions show it. An operation
of the kind `Λ` is one without operations under it. -/
inductive Operation (Λ κ ω : Type)
  | simple (operation : Λ)
  | masterIf (condition : Conditional κ) (thenSubOps : List (Operation Λ κ ω))
      (elseIfs : List (Conditional κ × List (Operation Λ κ ω)))
      (elseSubOps : List (Operation Λ κ ω))
  | while (condition : Conditional κ) (thenSubOps : List (Operation Λ κ ω))
  | loop (line : ℕ) (count : FlexibleString ω) (field : Option String)
      (subOps : List (Operation Λ κ ω))
  | iterate (list entry : Option String) (subOps : List (Operation Λ κ ω))
  | iterateMap (line : ℕ) (map key value : Option String) (subOps : List (Operation Λ κ ω))
  | break (line : ℕ)
  | continue (line : ℕ)
  | checkErrors (errorCode errorListName : FlexibleString ω)
  | return (responseCode : FlexibleString ω)
  | callSimpleMethod (line : ℕ) (call : CallSimpleMethod)

structure SimpleMethod (O : Type) where
  methodName : String
  fromLocation : String
  shortDescription : String
  defaultErrorCode : String
  defaultSuccessCode : String
  eventRequestName : String
  eventSessionName : String
  eventResponseName : String
  eventResponseCodeName : String
  eventErrorMessageName : String
  eventErrorMessageListName : String
  eventEventMessageName : String
  eventEventMessageListName : String
  serviceResponseMessageName : String
  serviceErrorMessageName : String
  serviceErrorMessageListName : String
  serviceErrorMessageMapName : String
  serviceSuccessMessageName : String
  serviceSuccessMessageListName : String
  loginRequired : Bool
  useTransaction : Bool
  methodOperations : List O

/-- The constructor, for the attributes of the element; one that is missing is empty. -/
def SimpleMethod.new {O : Type} (getAttribute : String → String) (fromLocation : String)
    (methodOperations : List O) : SimpleMethod O :=
  let elementAttribute (name defaultValue : String) :=
    if getAttribute name = "" then defaultValue else getAttribute name
  { methodName := getAttribute "method-name"
    fromLocation
    shortDescription := getAttribute "short-description"
    defaultErrorCode := elementAttribute "default-error-code" "error"
    defaultSuccessCode := elementAttribute "default-success-code" "success"
    eventRequestName := elementAttribute "event-request-object-name" "request"
    eventSessionName := elementAttribute "event-session-object-name" "session"
    eventResponseName := elementAttribute "event-response-object-name" "response"
    eventResponseCodeName := elementAttribute "event-response-code-name" "_response_code_"
    eventErrorMessageName := elementAttribute "event-error-message-name" "_error_message_"
    eventErrorMessageListName :=
      elementAttribute "event-error-message-list-name" "_error_message_list_"
    eventEventMessageName := elementAttribute "event-event-message-name" "_event_message_"
    eventEventMessageListName :=
      elementAttribute "event-event-message-list-name" "_event_message_list_"
    serviceResponseMessageName :=
      elementAttribute "service-response-message-name" "responseMessage"
    serviceErrorMessageName := elementAttribute "service-error-message-name" "errorMessage"
    serviceErrorMessageListName :=
      elementAttribute "service-error-message-list-name" "errorMessageList"
    serviceErrorMessageMapName :=
      elementAttribute "service-error-message-map-name" "errorMessageMap"
    serviceSuccessMessageName := elementAttribute "service-success-message-name" "successMessage"
    serviceSuccessMessageListName :=
      elementAttribute "service-success-message-list-name" "successMessageList"
    loginRequired := getAttribute "login-required" != "false"
    useTransaction := getAttribute "use-transaction" != "false"
    methodOperations }

/-- What the scripts work with: the objects, the other operations and conditions, the texts of the
messages, the methods of the resources, and how the transaction manager ends a commit. The message
of an exception stands for the exception. -/
structure Machine (Λ κ ω W α : Type) where
  instanceOf : JavaClass → ω → Bool
  castException : JavaClass → Value ω → String
  size : W → ω → ℕ
  toString : W → ω → String
  elements : W → ω → List (Option (Value ω))
  entries : W → ω → List (Option (Value ω) × Option (Value ω))
  next : ω → W → Except String (Option (Option (Value ω))) × W
  close : ω → W → W
  setAttribute : Value ω → String → Value ω → W → W
  getSession : Value ω → Option (Value ω)
  makeMapWritable : Env ω → W → Value ω × W
  integer : ℕ → Value ω
  intValue : String → Except String ℤ
  nullField : Value ω
  getMessage : String → Option String → Option (Value ω) → String
  getSimpleMethod : String → String → Except String (Option (SimpleMethod (Operation Λ κ ω)))
  reference : SimpleMethod (Operation Λ κ ω) → Value ω
  check : κ → State ω W α → Except String Bool
  run : Λ → SimpleMethod (Operation Λ κ ω) → State ω W α → Except String Bool × State ω W α
  answer : State ω W α → TransactionManager.Answer α

/-! ### Messages and responses -/

namespace SimpleMethod

variable {O ω : Type} (m : SimpleMethod O)

def getShortDescription : String :=
  m.shortDescription ++ " [" ++ m.fromLocation ++ "#" ++ m.methodName ++ "]"

/-- The message of an exception of an element. -/
def located (tag : String) (line : ℕ) (text : String) : String :=
  text ++ " Method = " ++ m.methodName ++ ", File = " ++ m.fromLocation ++ ", Element = <" ++ tag ++
    ">, Line " ++ toString line

def errorMessageListName : MethodType ω → String
  | .event _ => m.eventErrorMessageListName
  | .service => m.serviceErrorMessageListName

/-- The name of the response code of an event, or of the response message of a service. -/
def responseName : MethodType ω → String
  | .event _ => m.eventResponseCodeName
  | .service => m.serviceResponseMessageName

/-- What is done with a message at the end: an error message joins the exception of the script, and
errors force an error. -/
inductive Slot
  | errorMessage
  | errors (javaClass : JavaClass)
  | messages (javaClass : JavaClass)

/-- The messages that a method looks for at its end, by their names, and where they go. -/
def slots : MethodType ω → List (Slot × String × String)
  | .event _ =>
    [(.errorMessage, m.eventErrorMessageName, "_ERROR_MESSAGE_"),
      (.errors .list, m.eventErrorMessageListName, "_ERROR_MESSAGE_LIST_"),
      (.messages .string, m.eventEventMessageName, "_EVENT_MESSAGE_"),
      (.messages .list, m.eventEventMessageListName, "_EVENT_MESSAGE_LIST_")]
  | .service =>
    [(.errorMessage, m.serviceErrorMessageName, "errorMessage"),
      (.errors .list, m.serviceErrorMessageListName, "errorMessageList"),
      (.errors .map, m.serviceErrorMessageMapName, "errorMessageMap"),
      (.messages .string, m.serviceSuccessMessageName, "successMessage"),
      (.messages .list, m.serviceSuccessMessageListName, "successMessageList")]

/-- `"null".equalsIgnoreCase` -/
def isNull (code : String) : Bool := code.toList.map Char.toLower == "null".toList

/-- The response for what the scripts have put under its name. -/
def responseOf (forceError : Bool) (code : Option String) (methodType : MethodType ω) :
    Option String :=
  if code.getD "" = "" then some (if forceError then m.defaultErrorCode else m.defaultSuccessCode)
  else
    match methodType with
    | .event _ => if isNull (code.getD "") then none else code
    | .service => code

end SimpleMethod

namespace Machine

variable {Λ κ ω W α : Type} (M : Machine Λ κ ω W α) (m : SimpleMethod (Operation Λ κ ω))

/-- Null can be cast to every class. -/
def cast (javaClass : JavaClass) : Option (Value ω) → Except String (Option (Value ω))
  | none => .ok none
  | some (.string s) =>
    if javaClass = .string then .ok (some (.string s))
    else .error (M.castException javaClass (.string s))
  | some (.object o) =>
    if M.instanceOf javaClass o && javaClass != .string then .ok (some (.object o))
    else .error (M.castException javaClass (.object o))

def castString (value : Option (Value ω)) : Except String (Option String) :=
  (M.cast .string value).map fun value =>
    match value with
    | some (.string s) => some s
    | _ => none

def isNotEmpty (world : W) : Value ω → Bool
  | .string s => s != ""
  | .object o => M.size world o != 0

def textOf (world : W) : Value ω → String
  | .string s => s
  | .object o => M.toString world o

/-- A message goes to the request of an event or to the results of a service. -/
def put (key : String) (value : Value ω) (s : State ω W α) : State ω W α :=
  match s.context.methodType with
  | .event request => { s with world := M.setAttribute request key value s.world }
  | .service => s.putResult key (some value)

/-- What has been gathered at the end of a script: the state, whether there is an error, and the
summary of the errors. -/
structure Gathered (ω W α : Type) where
  state : State ω W α
  forceError : Bool
  summaryError : String

def gather (errorMsg : String) (slot : SimpleMethod.Slot) (name key : String)
    (g : Gathered ω W α) : Except String (Gathered ω W α) :=
  match slot with
  | .errorMessage => do
    let tempErrorMsg ← M.castString (g.state.env name)
    if errorMsg != "" || tempErrorMsg.getD "" != "" then
      let errorMsg := errorMsg ++ tempErrorMsg.getD "null"
      return ⟨M.put key (.string errorMsg) g.state, true, g.summaryError ++ errorMsg⟩
    else return g
  | .errors javaClass => do
    match ← M.cast javaClass (g.state.env name) with
    | none => return g
    | some errors =>
      if M.isNotEmpty g.state.world errors then
        return ⟨M.put key errors g.state, true,
          g.summaryError ++ "; " ++ M.textOf g.state.world errors⟩
      else return g
  | .messages javaClass => do
    match ← M.cast javaClass (g.state.env name) with
    | none => return g
    | some messages =>
      if M.isNotEmpty g.state.world messages then
        return { g with state := M.put key messages g.state }
      else return g

/-- An exception leaves what has been put before it. -/
def gatherAll (errorMsg : String) :
    List (SimpleMethod.Slot × String × String) → Gathered ω W α → Option String × Gathered ω W α
  | [], g => (none, g)
  | (slot, name, key) :: slots, g =>
    match M.gather errorMsg slot name key g with
    | .error e => (some e, g)
    | .ok g' => gatherAll errorMsg slots g'

/-- The response and the summary of the errors, or an exception: a message has a wrong class. -/
def report (errorMsg : String) (s : State ω W α) :
    Except String (Option String × String) × State ω W α :=
  match M.gatherAll errorMsg (m.slots s.context.methodType) ⟨s, false, ""⟩ with
  | (some e, g) => (.error e, g.state)
  | (none, g) =>
    match M.castString (g.state.env (m.responseName s.context.methodType)) with
    | .error e => (.error e, g.state)
    | .ok code =>
      let response := m.responseOf g.forceError code s.context.methodType
      (.ok (response, g.summaryError),
        match s.context.methodType with
        | .event _ => g.state
        | .service => g.state.putResult "responseMessage" (response.map .string))

end Machine

/-! ### A method around its operations -/

/-- `getMessage` of an exception; one of the entities shows the one that it wraps. -/
def messageOf : Throwable → String
  | .mk .genericEntity text (some cause) => text ++ " (" ++ messageOf cause ++ ")"
  | .mk _ text _ => text

namespace Machine

variable {Λ κ ω W α : Type} (M : Machine Λ κ ω W α) (m : SimpleMethod (Operation Λ κ ω))

def returnError (errorMsg : String) (s : State ω W α) : State ω W α :=
  match s.context.methodType with
  | .event _ => M.put "_ERROR_MESSAGE_" (.string errorMsg) s
  | .service =>
    M.put "responseMessage" (.string "error") (M.put "errorMessage" (.string errorMsg) s)

/-- The entries of the environment that every script finds. -/
def bindEnv (s : State ω W α) : State ω W α :=
  let context := s.context
  let userLogin := if context.userLogin.isSome then [("userLogin", context.userLogin)] else []
  let event := match context.methodType with
    | .event request =>
      [(m.eventRequestName, some request), (m.eventSessionName, M.getSession request),
        (m.eventResponseName, context.response)]
    | .service => []
  (userLogin ++
    [("nullField", some M.nullField), ("delegator", context.delegator),
      ("security", context.security), ("dispatcher", context.dispatcher),
      ("locale", context.locale), ("parameters", context.parameters)] ++ event ++
    [("simpleMethod", some (M.reference m)), ("methodName", some (.string m.methodName)),
      ("methodShortDescription", some (.string m.getShortDescription))]).foldl
    (fun s entry => s.putEnv entry.1 entry.2) s

def begin (s : State ω W α) : Except String Bool × State ω W α :=
  if m.useTransaction then
    (s.thread.begin.1.mapError messageOf, { s with thread := s.thread.begin.2 })
  else (.ok false, s)

/-- The text for an exception of the operations. -/
def errorMsg (exit : Exit String) (s : State ω W α) : String :=
  match exit with
  | .next => ""
  | .stop => ""
  | .breakLoop e | .continueLoop e | .threw e =>
    M.getMessage "simpleMethod.error_running" none s.context.locale ++ ": " ++ e

def endTransaction (beganTransaction finished : Bool) (response : Option String)
    (summaryError : String) (s : State ω W α) : State ω W α :=
  if !finished && response == some m.defaultErrorCode then
    let causeMessage := "Error in simple-method [" ++ m.getShortDescription ++ "]: " ++ summaryError
    { s with thread := s.thread.rollback beganTransaction causeMessage none }
  else { s with thread := (s.thread.commit beganTransaction (M.answer s)).2 }

/-- The end of a method whose operations have ended. A message of a wrong class is an exception
that no one catches, and then the transaction stays open. -/
def finish (beganTransaction : Bool) (r : Exit String × State ω W α) :
    Except String (Option String) × State ω W α :=
  match M.report m (M.errorMsg r.1 r.2) r.2 with
  | (.error e, s) => (.error e, s)
  | (.ok (response, summaryError), s) =>
    (.ok response, M.endTransaction m beganTransaction r.1.isNext response summaryError s)

/-- `exec` of a method, around the run of its operations: what it returns, or the exception that
it throws. -/
def execMethod (runSubOps : Command String (State ω W α)) (s : State ω W α) :
    Outcome (Except String (Option String) × State ω W α) :=
  if m.loginRequired && s.context.userLogin.isNone then
    .done (.ok (some m.defaultErrorCode),
      M.returnError (M.getMessage "simpleMethod.must_logged_process" (some m.shortDescription)
        s.context.locale ++ ".") s)
  else
    match begin m (M.bindEnv m s) with
    | (.error e, s') =>
      .done (.ok (some m.defaultErrorCode),
        M.returnError (M.getMessage "simpleMethod.error_begin_transaction" none s'.context.locale ++
          ": " ++ e) s')
    | (.ok beganTransaction, s') =>
      (runSubOps s').bind fun r => .done (M.finish m beganTransaction r)

/-! ### Operations -/

/-- The context of a called method with an environment of its own. -/
def localContext (s : State ω W α) : Except String (MethodContext ω) × State ω W α :=
  let localEnv := Function.update (Function.update s.env m.eventResponseCodeName none)
    m.serviceResponseMessageName none
  let (parameters, world) := M.makeMapWritable localEnv s.world
  let context : Except String (MethodContext ω) := do
    let locale ← M.cast .locale (localEnv "locale")
    let dispatcher ← M.cast .localDispatcher (localEnv "dispatcher")
    let delegator ← M.cast .delegator (localEnv "delegator")
    let security ← M.cast .security (localEnv "security")
    let userLogin ← M.cast .genericValue (localEnv "userLogin")
    let (methodType, response) ← match s.context.methodType with
      | .service => pure (MethodType.service, none)
      | .event _ => do
        let request ← M.cast .httpServletRequest (localEnv "request")
        let response ← M.cast .httpServletResponse (localEnv "response")
        match request with
        | none => throw "null"
        | some request => pure (MethodType.event request, response)
    return ⟨methodType, fun _ => none, fun _ => none, some parameters, locale, userLogin, delegator,
      security, dispatcher, response⟩
  (context, { s with world })

/-- What the caller makes of a method that has run: `s` is the state in which it was called. -/
def afterCall (call : CallSimpleMethod) (simpleMethodToCall : SimpleMethod (Operation Λ κ ω))
    (s : State ω W α) (r : Except String (Option String) × State ω W α) :
    Exit String × State ω W α :=
  let caller := if call.isFunction then { r.2 with context := s.context } else r.2
  let responseName := m.responseName s.context.methodType
  match r.1 with
  | .error e => (.threw e, caller)
  | .ok returnVal =>
    if returnVal = some simpleMethodToCall.defaultErrorCode then
      (.stop, caller.putEnv responseName (some (.string m.defaultErrorCode)))
    else
      match M.castString (r.2.env responseName) with
      | .error e => (.threw e, caller)
      | .ok code =>
        if code = some m.defaultErrorCode then (.stop, caller)
        else if call.isFunction then
          (.next, call.resultToFieldList.foldl (fun s resultToField =>
            match r.2.context.results resultToField.1 with
            | none => s
            | some value => s.putEnv resultToField.2 (some value)) caller)
        else (.next, caller)

/-- `call-simple-method`, for the run of the method that is called. -/
def callSimpleMethod (line : ℕ) (call : CallSimpleMethod)
    (exec : SimpleMethod (Operation Λ κ ω) → State ω W α →
      Outcome (Except String (Option String) × State ω W α)) : Command String (State ω W α) :=
  fun s =>
    let located := m.located "call-simple-method" line
    if call.methodName = "" then .done (.threw (located "method-name attribute is empty"), s)
    else
      match M.getSimpleMethod call.xmlResource call.methodName with
      | .error e => .done (.threw e, s)
      | .ok none =>
        .done (.threw (located ("Could not find <simple-method name=\"" ++ call.methodName ++
          "\"> in XML document " ++ call.xmlResource)), s)
      | .ok (some simpleMethodToCall) =>
        match if call.isFunction then M.localContext m s else (.ok s.context, s) with
        | (.error e, s') => .done (.threw e, s')
        | (.ok context, s') =>
          (exec simpleMethodToCall { s' with context }).bind fun r =>
            .done (M.afterCall m call simpleMethodToCall s r)

end Machine

end OfficeAuto.Minilang
