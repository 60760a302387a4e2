import Mathlib.Order.Filter.AtTopBot.Basic
import Mathlib.Order.Filter.Finite
import OfficeAuto.Minilang.SimpleMethod

/-!
# The interpreter of scripts

`exec` runs an operation of a method. Its budget bounds how deep operations and calls nest and how
many passes a loop makes.

Whatever a script does, a break or a continue that leaves an operation is one of its own, outside
its loops: none comes out of a method that it calls (`exec_jump`). A `while` that goes on has a
false condition, unless it has a break (`exec_while_test`), and an `iterate` gives its entry back
(`exec_iterate_entry`). A call with an environment of its own changes that of the caller at the
response and at the fields for the results only (`exec_function_env`).
-/

namespace OfficeAuto.Minilang

open Command (Triple Checks atPass orElse)

variable {Λ κ ω W α : Type}

namespace State

/-- An accessor without a name gets null, and puts nothing. -/
def getField (field : Option String) (s : State ω W α) : Option (Value ω) := field.bind s.env

def putField (field : Option String) (value : Option (Value ω)) (s : State ω W α) : State ω W α :=
  match field with
  | none => s
  | some name => s.putEnv name value

end State

namespace Machine

variable (M : Machine Λ κ ω W α)

/-! ### Operations -/

def test (condition : Conditional κ) : Command.Test String (State ω W α) := fun s =>
  (condition.checkCondition (M.check · s), s)

/-- Whether an iterator has a next item, which becomes the entry. -/
def advance (o : ω) (entry : Option String) : Command.Test String (State ω W α) := fun s =>
  match M.next o s.world with
  | (.error e, world) => (.error e, { s with world })
  | (.ok none, world) => (.ok false, { s with world })
  | (.ok (some item), world) => (.ok true, { s with world }.putField entry item)

def loop (m : SimpleMethod (Operation Λ κ ω)) (line : ℕ) (count : FlexibleString ω)
    (field : Option String) (body : Command String (State ω W α)) :
    Command String (State ω W α) := fun s =>
  let countStr := count s.env
  match M.intValue countStr with
  | .error e =>
    .done (.threw (m.located "loop" line
      ("Error while converting \"" ++ countStr ++ "\" to a number: " ++ e)), s)
  | .ok count =>
    if count < 0 then
      .done (.threw (m.located "loop" line
        ("Unable to execute loop operation because the count is negative: " ++ countStr)), s)
    else
      Command.forEach (fun i => State.putField field (some (M.integer i))) body
        (List.range count.toNat) s

def isIterable (o : ω) : Bool :=
  M.instanceOf .entityListIterator o || M.instanceOf .collection o || M.instanceOf .iterator o

/-- The passes of `iterate` over an object. -/
def passes (o : ω) (entry : Option String) (body : Command String (State ω W α)) (n : ℕ) :
    Command String (State ω W α) := fun s =>
  if M.instanceOf .entityListIterator o then
    (Command.repeatWhile (M.advance o entry) body n s).bind fun r =>
      .done (r.1, { r.2 with world := M.close o r.2.world })
  else if M.instanceOf .collection o then
    Command.forEach (State.putField entry) body (M.elements s.world o) s
  else Command.repeatWhile (M.advance o entry) body n s

/-- The entry gets its old value back, unless the passes end with another exit. -/
def iterate (list entry : Option String) (body : Command String (State ω W α)) (n : ℕ) :
    Command String (State ω W α) := fun s =>
  match s.getField list with
  | some (.object o) =>
    if M.isIterable o then
      Command.seq (M.passes o entry body n)
        (fun s' => .done (.next, s'.putField entry (s.getField entry))) s
    else .done (.next, s)
  | _ => .done (.next, s)

def iterateMap (m : SimpleMethod (Operation Λ κ ω)) (line : ℕ) (map key value : Option String)
    (body : Command String (State ω W α)) : Command String (State ω W α) := fun s =>
  if map.isNone then .done (.threw (m.located "iterate-map" line "No map specified."), s)
  else
    match M.cast .map (s.getField map) with
    | .error e => .done (.threw e, s)
    | .ok (some (.object o)) =>
      Command.forEach (fun entry s => (s.putField key entry.1).putField value entry.2) body
        (M.entries s.world o) s
    | .ok _ => .done (.next, s)

def checkErrors (m : SimpleMethod (Operation Λ κ ω)) (errorCode errorListName : FlexibleString ω)
    (s : State ω W α) : Exit String × State ω W α :=
  match M.cast .list (s.env (errorListName s.env)) with
  | .error e => (.threw e, s)
  | .ok none => (.next, s)
  | .ok (some messages) =>
    if M.isNotEmpty s.world messages then
      let s := s.putEnv (m.errorMessageListName s.context.methodType) (some messages)
      let code := if errorCode s.env = "" then m.defaultErrorCode else errorCode s.env
      (.stop, s.putEnv (m.responseName s.context.methodType) (some (.string code)))
    else (.next, s)

def exitOf : Except String Bool → Exit String
  | .ok true => .next
  | .ok false => .stop
  | .error e => .threw e

/-- `exec` of an operation of the method `m`. -/
def exec : ℕ → SimpleMethod (Operation Λ κ ω) → Operation Λ κ ω → Command String (State ω W α)
  | 0, _, _ => fun _ => .timeout
  | n + 1, m, operation =>
    let runSubOps (subOps : List (Operation Λ κ ω)) := Command.runAll (subOps.map (exec n m))
    match operation with
    | .simple operation => fun s => .done (exitOf (M.run operation m s).1, (M.run operation m s).2)
    | .masterIf condition thenSubOps elseIfs elseSubOps =>
      Command.cond (M.test condition) (runSubOps thenSubOps)
        (elseIfs.foldr
          (fun elseIf rest => Command.cond (M.test elseIf.1) (runSubOps elseIf.2) rest)
          (runSubOps elseSubOps))
    | .while condition thenSubOps =>
      Command.repeatWhile (M.test condition) (runSubOps thenSubOps) n
    | .loop line count field subOps => M.loop m line count field (runSubOps subOps)
    | .iterate list entry subOps => M.iterate list entry (runSubOps subOps) n
    | .iterateMap line map key value subOps =>
      M.iterateMap m line map key value (runSubOps subOps)
    | .break line => fun s =>
      .done (.breakLoop
        (m.located "break" line "<break> element encountered without enclosing loop"), s)
    | .continue line => fun s =>
      .done (.continueLoop
        (m.located "continue" line "<continue> element encountered without enclosing loop"), s)
    | .checkErrors errorCode errorListName => fun s =>
      .done (M.checkErrors m errorCode errorListName s)
    | .return responseCode => fun s =>
      let code := if responseCode s.env = "" then m.defaultSuccessCode else responseCode s.env
      .done (.stop, s.putEnv (m.responseName s.context.methodType) (some (.string code)))
    | .callSimpleMethod line call =>
      M.callSimpleMethod m line call fun simpleMethod =>
        M.execMethod simpleMethod
          (Command.runAll (simpleMethod.methodOperations.map (exec n simpleMethod)))

/-- A method from outside: what it returns, or the exception that it throws. -/
def runSimpleMethod (n : ℕ) (m : SimpleMethod (Operation Λ κ ω)) :
    State ω W α → Outcome (Except String (Option String) × State ω W α) :=
  M.execMethod m (Command.runAll (m.methodOperations.map (M.exec n m)))

/-! ### Breaks -/

variable {M} {m : SimpleMethod (Operation Λ κ ω)} {n : ℕ}

/-- An operation has a break or a continue outside of its loops. What a method has that it calls
does not count. -/
inductive Loose : Jump → Operation Λ κ ω → Prop
  | break (line : ℕ) : Loose .break (.break line)
  | continue (line : ℕ) : Loose .continue (.continue line)
  | thenSubOps {jump condition thenSubOps elseIfs elseSubOps operation}
      (hmem : operation ∈ thenSubOps) (h : Loose jump operation) :
      Loose jump (.masterIf condition thenSubOps elseIfs elseSubOps)
  | elseIf {jump condition thenSubOps elseIfs elseSubOps elseIf operation}
      (helseIf : elseIf ∈ elseIfs) (hmem : operation ∈ elseIf.2) (h : Loose jump operation) :
      Loose jump (.masterIf condition thenSubOps elseIfs elseSubOps)
  | elseSubOps {jump condition thenSubOps elseIfs elseSubOps operation}
      (hmem : operation ∈ elseSubOps) (h : Loose jump operation) :
      Loose jump (.masterIf condition thenSubOps elseIfs elseSubOps)

theorem jump_exitOf (r : Except String Bool) : (exitOf r).jump = none := by
  cases r with
  | error e => rfl
  | ok b => cases b <;> rfl

theorem env_putEnv_of_ne {name name' : String} {value : Option (Value ω)} {s : State ω W α}
    (h : name ≠ name') : (s.putEnv name' value).env name = s.env name :=
  Function.update_of_ne h _ _

theorem resultToField_keeps {results : Env ω} (fields : List (String × String))
    (s : State ω W α) {s' : State ω W α}
    (h : s' = fields.foldl (fun s field =>
      match results field.1 with
      | none => s
      | some value => s.putEnv field.2 (some value)) s) :
    s'.thread = s.thread ∧
      ∀ name, (∀ field ∈ fields, field.2 ≠ name) → s'.env name = s.env name := by
  subst h
  induction fields generalizing s with
  | nil => exact ⟨rfl, fun _ _ => rfl⟩
  | cons field fields ih =>
    rw [List.foldl_cons]
    split
    · obtain ⟨hthread, henv⟩ := ih s
      exact ⟨hthread, fun name h => henv name fun f hf => h f (List.mem_cons_of_mem field hf)⟩
    · rename_i value _
      obtain ⟨hthread, henv⟩ := ih (s.putEnv field.2 (some value))
      refine ⟨hthread, fun name h => ?_⟩
      rw [henv name fun f hf => h f (List.mem_cons_of_mem field hf)]
      exact env_putEnv_of_ne (h field List.mem_cons_self).symm

/-- What a call may change of the environment of a caller that keeps its own. -/
def Framed (m : SimpleMethod (Operation Λ κ ω)) (call : CallSimpleMethod) (s s' : State ω W α) :
    Prop :=
  call.isFunction = true → ∀ name, name ≠ m.responseName s.context.methodType →
    (∀ field ∈ call.resultToFieldList, field.2 ≠ name) → s'.env name = s.env name

theorem afterCall_keeps (call : CallSimpleMethod)
    (simpleMethodToCall : SimpleMethod (Operation Λ κ ω)) (s : State ω W α)
    (r : Except String (Option String) × State ω W α) :
    (M.afterCall m call simpleMethodToCall s r).1.jump = none ∧
      Framed m call s (M.afterCall m call simpleMethodToCall s r).2 ∧
      (M.afterCall m call simpleMethodToCall s r).2.thread = r.2.thread := by
  obtain ⟨caller, hcaller⟩ : ∃ caller : State ω W α,
      caller = if call.isFunction then { r.2 with context := s.context } else r.2 := ⟨_, rfl⟩
  have hthread : caller.thread = r.2.thread := by
    rw [hcaller]
    split <;> rfl
  have henv (h : call.isFunction = true) (name : String) : caller.env name = s.env name := by
    rw [hcaller, if_pos h]
    rfl
  have hsame : Framed m call s caller := fun h name _ _ => henv h name
  rw [afterCall, ← hcaller]
  split
  · exact ⟨rfl, hsame, hthread⟩
  · split
    · exact ⟨rfl, fun h name hname _ => (env_putEnv_of_ne hname).trans (henv h name), hthread⟩
    · split
      · exact ⟨rfl, hsame, hthread⟩
      · split
        · exact ⟨rfl, hsame, hthread⟩
        · split
          · obtain ⟨hfields, hframe⟩ := resultToField_keeps call.resultToFieldList caller rfl
            exact ⟨rfl, fun h name _ hname => (hframe name hname).trans (henv h name),
              hfields.trans hthread⟩
          · exact ⟨rfl, hsame, hthread⟩

/-- A call throws before the method runs, or it ends with what the caller makes of its run. -/
theorem callSimpleMethod_cases {line : ℕ} {call : CallSimpleMethod}
    {exec : SimpleMethod (Operation Λ κ ω) → State ω W α →
      Outcome (Except String (Option String) × State ω W α)} {s s' : State ω W α}
    {exit : Exit String} (h : M.callSimpleMethod m line call exec s = .done (exit, s')) :
    exit.jump = none ∧ Framed m call s s' ∧ (s'.thread = s.thread ∨
      ∃ simpleMethodToCall s₁ r, s₁.thread = s.thread ∧
        exec simpleMethodToCall s₁ = .done r ∧ s'.thread = r.2.thread) := by
  simp only [callSimpleMethod] at h
  split at h
  · cases h
    exact ⟨rfl, fun _ _ _ _ => rfl, Or.inl rfl⟩
  · split at h
    · cases h
      exact ⟨rfl, fun _ _ _ _ => rfl, Or.inl rfl⟩
    · cases h
      exact ⟨rfl, fun _ _ _ _ => rfl, Or.inl rfl⟩
    · rename_i simpleMethodToCall _
      -- the local context comes with a new map for the parameters
      have hlocal : (if call.isFunction then M.localContext m s
          else (.ok s.context, s)).2.thread = s.thread ∧
          (if call.isFunction then M.localContext m s else (.ok s.context, s)).2.env = s.env := by
        split <;> exact ⟨rfl, rfl⟩
      split at h <;> rename_i heq <;> rw [heq] at hlocal
      · cases h
        exact ⟨rfl, fun _ name _ _ => congrFun hlocal.2 name, Or.inl hlocal.1⟩
      · rename_i context s₁
        obtain ⟨r, hr, h⟩ := Outcome.bind_eq_done.mp h
        obtain ⟨hexit, hframed, hthread⟩ := afterCall_keeps (M := M) (m := m) call
          simpleMethodToCall s r
        rw [Outcome.done.inj h] at hexit hframed hthread
        exact ⟨hexit, hframed, Or.inr ⟨simpleMethodToCall, { s₁ with context }, r, hlocal.1, hr,
          hthread⟩⟩

/-- An `iterate` does nothing, or it makes passes and gives the entry back if they go on. -/
theorem iterate_cases {list entry : Option String} {body : Command String (State ω W α)}
    {s s' : State ω W α} {exit : Exit String}
    (h : M.iterate list entry body n s = .done (exit, s')) :
    (exit = .next ∧ s' = s) ∨
      ∃ o exit₁ s₁, M.passes o entry body n s = .done (exit₁, s₁) ∧ exit = exit₁ ∧
        s' = if exit₁.isNext then s₁.putField entry (s.getField entry) else s₁ := by
  rw [iterate] at h
  split at h
  · split at h
    · obtain ⟨⟨exit₁, s₁⟩, hpasses, h⟩ := Outcome.bind_eq_done.mp h
      refine Or.inr ⟨_, exit₁, s₁, hpasses, ?_⟩
      cases exit₁ <;> cases h <;> exact ⟨rfl, rfl⟩
    · cases h
      exact Or.inl ⟨rfl, rfl⟩
  · cases h
    exact Or.inl ⟨rfl, rfl⟩

section Keeps

/- A property of the thread, which the other operations and the methods keep. -/
variable {I : State ω W α → Prop} (hthread : ∀ s s', s'.thread = s.thread → I s → I s')
  (hrun : ∀ operation m s, I s → I (M.run operation m s).2)
  (hmethod : ∀ m body s r, Triple I body (fun _ => I) → I s → M.execMethod m body s = .done r →
    I r.2)

include hthread

theorem putField_keeps (field : Option String) (value : Option (Value ω)) (s : State ω W α)
    (hs : I s) : I (s.putField field value) := by
  cases field with
  | none => exact hs
  | some name => exact hthread s _ rfl hs

theorem passes_keeps {o : ω} {entry : Option String} {body : Command String (State ω W α)}
    (hbody : Triple I body fun _ => I) :
    Triple I (M.passes o entry body n) fun exit s => I s ∧ exit.jump = none := by
  have hadvance (s : State ω W α) (hs : I s) : I (M.advance o entry s).2 := by
    rw [advance]
    split
    · exact hthread s _ rfl hs
    · exact hthread s _ rfl hs
    · exact putField_keeps hthread _ _ _ (hthread s _ rfl hs)
  intro s exit s' hs h
  rw [passes] at h
  split at h
  · obtain ⟨r, hr, h⟩ := Outcome.bind_eq_done.mp h
    cases h
    obtain ⟨hI, hexit⟩ := Command.repeatWhile_keeps hadvance hbody hs hr
    exact ⟨hthread r.2 _ rfl hI, hexit⟩
  · split at h
    · exact Command.forEach_keeps (putField_keeps hthread entry) hbody _ hs h
    · exact Command.repeatWhile_keeps hadvance hbody hs h

include hrun hmethod

/-- **What the interpreter keeps**, whatever the script is and however it ends. -/
theorem exec_keeps (n : ℕ) (m : SimpleMethod (Operation Λ κ ω)) (operation : Operation Λ κ ω) :
    Triple I (M.exec n m operation)
      fun exit s => I s ∧ ∀ jump ∈ exit.jump, Loose jump operation := by
  -- The induction is on the budget, which goes down at an operation and at a call.
  induction n generalizing m operation with
  | zero =>
    intro s exit s' _ h
    cases h
  | succ n ih =>
    -- The operations under one that is no loop are loose only if it is.
    have hsub (m : SimpleMethod (Operation Λ κ ω)) {subOps : List (Operation Λ κ ω)}
        {L : Jump → Prop} (hL : ∀ op ∈ subOps, ∀ jump, Loose jump op → L jump) :
        Triple I (Command.runAll (subOps.map (M.exec n m)))
          fun exit s => I s ∧ ∀ jump ∈ exit.jump, L jump := by
      refine Command.triple_runAll (fun _ hs => ⟨hs, by simp [Exit.jump]⟩) fun c hc => ?_
      obtain ⟨op, hop, rfl⟩ := List.mem_map.mp hc
      refine (ih m op).weaken (fun _ => id) fun exit s hexit => ?_
      cases exit with
      | next => exact hexit.1
      | stop | breakLoop e | continueLoop e | threw e =>
        exact ⟨hexit.1, fun jump h => hL op hop jump (hexit.2 jump h)⟩
    have hbody (m : SimpleMethod (Operation Λ κ ω)) (subOps : List (Operation Λ κ ω)) :
        Triple I (Command.runAll (subOps.map (M.exec n m))) fun _ => I :=
      (hsub m (L := fun _ => True) fun _ _ _ _ => trivial).weaken (fun _ => id) fun _ _ h => h.1
    have hnone {c : Command String (State ω W α)} {L : Jump → Prop}
        (h : Triple I c fun exit s => I s ∧ exit.jump = none) :
        Triple I c fun exit s => I s ∧ ∀ jump ∈ exit.jump, L jump :=
      h.weaken (fun _ => id) fun _ _ hexit => ⟨hexit.1, by simp [hexit.2]⟩
    cases operation with
    | simple operation =>
      exact hnone (Command.triple_done fun s hs => ⟨hrun operation m s hs, jump_exitOf _⟩)
    | «break» line =>
      exact Command.triple_done fun s hs => ⟨hs, by rintro _ ⟨⟩; exact Loose.break line⟩
    | «continue» line =>
      exact Command.triple_done fun s hs => ⟨hs, by rintro _ ⟨⟩; exact Loose.continue line⟩
    | «return» responseCode =>
      exact hnone (Command.triple_done fun s hs => ⟨hthread s _ rfl hs, rfl⟩)
    | checkErrors errorCode errorListName =>
      refine hnone (Command.triple_done fun s hs => ?_)
      rw [checkErrors]
      split
      · exact ⟨hs, rfl⟩
      · exact ⟨hs, rfl⟩
      · split
        · exact ⟨hthread s _ rfl hs, rfl⟩
        · exact ⟨hs, rfl⟩
    | masterIf condition thenSubOps elseIfs elseSubOps =>
      have htest (c : Conditional κ) {L : Jump → Prop} : Checks I (M.test c)
          (fun _ => I) (fun exit s => I s ∧ ∀ jump ∈ exit.jump, L jump) := by
        intro s hs
        split <;> rename_i heq <;> obtain rfl : s = _ := congrArg Prod.snd heq
        · exact ⟨hs, by simp [Exit.jump]⟩
        · exact hs
      refine Triple.cond (htest condition)
        (hsub m fun op hop _ h => Loose.thenSubOps hop h) ?_
      have helse : ∀ rest ⊆ elseIfs, Triple I
          (rest.foldr (fun elseIf rest => Command.cond (M.test elseIf.1)
            (Command.runAll (elseIf.2.map (M.exec n m))) rest)
            (Command.runAll (elseSubOps.map (M.exec n m))))
          fun exit s => I s ∧
            ∀ jump ∈ exit.jump, Loose jump (.masterIf condition thenSubOps elseIfs elseSubOps) := by
        intro rest hrest
        induction rest with
        | nil => exact hsub m fun op hop _ h => Loose.elseSubOps hop h
        | cons elseIf rest ih =>
          obtain ⟨hmem, hrest⟩ := List.cons_subset.mp hrest
          exact Triple.cond (htest elseIf.1) (hsub m fun op hop _ h => Loose.elseIf hmem hop h)
            (ih hrest)
      exact helse elseIfs (List.Subset.refl _)
    | «while» condition thenSubOps =>
      exact hnone (Command.repeatWhile_keeps (fun _ => id) (hbody m thenSubOps))
    | loop line count field subOps =>
      refine hnone fun s exit s' hs h => ?_
      simp only [exec, loop] at h
      split at h
      · cases h
        exact ⟨hs, rfl⟩
      · split at h
        · cases h
          exact ⟨hs, rfl⟩
        · exact Command.forEach_keeps (fun _ => putField_keeps hthread _ _) (hbody m subOps) _ hs h
    | iterate list entry subOps =>
      refine hnone fun s exit s' hs h => ?_
      obtain ⟨rfl, rfl⟩ | ⟨o, exit₁, s₁, hpasses, rfl, rfl⟩ := iterate_cases h
      · exact ⟨hs, rfl⟩
      · obtain ⟨hI, hexit⟩ := passes_keeps hthread (hbody m subOps) hs hpasses
        split
        · exact ⟨putField_keeps hthread _ _ _ hI, hexit⟩
        · exact ⟨hI, hexit⟩
    | iterateMap line map key value subOps =>
      refine hnone fun s exit s' hs h => ?_
      simp only [exec, iterateMap] at h
      split at h
      · cases h
        exact ⟨hs, rfl⟩
      · split at h
        · cases h
          exact ⟨hs, rfl⟩
        · exact Command.forEach_keeps (fun _ s hs => putField_keeps hthread _ _ _
            (putField_keeps hthread _ _ s hs)) (hbody m subOps) _ hs h
        · cases h
          exact ⟨hs, rfl⟩
    | callSimpleMethod line call =>
      refine hnone fun s exit s' hs h => ?_
      obtain ⟨hexit, -, hcall⟩ := callSimpleMethod_cases h
      obtain heq | ⟨callee, s₁, r, hbefore, hcalled, heq⟩ := hcall
      · exact ⟨hthread s s' heq hs, hexit⟩
      · have hr := hmethod callee _ s₁ r (hbody callee _) (hthread s s₁ hbefore hs) hcalled
        exact ⟨hthread r.2 s' heq hr, hexit⟩

end Keeps

/-- **Breaks and continues.** An operation ends with a break or a continue only if one of its own
is outside of its loops; no loop lets one out, and no method that is called. -/
theorem exec_jump (n : ℕ) (m : SimpleMethod (Operation Λ κ ω)) (operation : Operation Λ κ ω) :
    Triple (fun _ => True) (M.exec n m operation)
      fun exit _ => ∀ jump ∈ exit.jump, Loose jump operation :=
  (exec_keeps (I := fun _ => True) (fun _ _ _ => id) (fun _ _ _ => id)
    (fun _ _ _ _ _ _ _ => trivial) n m operation).weaken (fun _ => id) fun _ _ h => h.2

/-- **An entry is given back.** When an `iterate` goes on, its entry has the value from before it,
whatever it has iterated over and whatever the passes have put there, also after a break. -/
theorem exec_iterate_entry (n : ℕ) (m : SimpleMethod (Operation Λ κ ω)) (list : Option String)
    (entry : String) (subOps : List (Operation Λ κ ω)) (s : State ω W α) :
    Triple (· = s) (M.exec n m (.iterate list (some entry) subOps))
      (orElse (fun s' => s'.env entry = s.env entry) fun _ _ => True) := by
  rintro s exit s' rfl h
  cases n with
  | zero => cases h
  | succ n =>
    cases exit with
    | stop | breakLoop e | continueLoop e | threw e => trivial
    | next =>
      obtain ⟨-, rfl⟩ | ⟨o, exit₁, s₁, -, rfl, rfl⟩ := iterate_cases h
      · rfl
      · exact Function.update_self _ _ _

/-- **A call with an environment of its own.** Whatever the method does that is called, the caller
finds its environment as it was, but for the response and the fields of the results. -/
theorem exec_function_env (n : ℕ) (m : SimpleMethod (Operation Λ κ ω)) (line : ℕ)
    (call : CallSimpleMethod) (s : State ω W α) :
    Triple (· = s) (M.exec n m (.callSimpleMethod line call)) fun _ s' => Framed m call s s' := by
  rintro s exit s' rfl h
  cases n with
  | zero => cases h
  | succ n => exact (callSimpleMethod_cases h).2.1

/-! ### Scripts that end -/

section Ends

open Filter

/-- No `while`, no `iterate` and no call is in the operation. -/
inductive Bounded : Operation Λ κ ω → Prop
  | simple (operation : Λ) : Bounded (.simple operation)
  | break (line : ℕ) : Bounded (.break line)
  | continue (line : ℕ) : Bounded (.continue line)
  | checkErrors (errorCode errorListName) : Bounded (.checkErrors errorCode errorListName)
  | return (responseCode) : Bounded (.return responseCode)
  | masterIf {condition thenSubOps elseIfs elseSubOps} (hthen : ∀ op ∈ thenSubOps, Bounded op)
      (helseIfs : ∀ elseIf ∈ elseIfs, ∀ op ∈ elseIf.2, Bounded op)
      (helse : ∀ op ∈ elseSubOps, Bounded op) :
      Bounded (.masterIf condition thenSubOps elseIfs elseSubOps)
  | loop {line count field subOps} (h : ∀ op ∈ subOps, Bounded op) :
      Bounded (.loop line count field subOps)
  | iterateMap {line map key value subOps} (h : ∀ op ∈ subOps, Bounded op) :
      Bounded (.iterateMap line map key value subOps)

/-- The operation ends, on every budget from some on. -/
def Ends (M : Machine Λ κ ω W α) (operation : Operation Λ κ ω) : Prop :=
  ∀ᶠ n in atTop, ∀ m, Command.Ends (M.exec n m operation)

theorem Ends.of_succ {operation : Operation Λ κ ω}
    (h : ∀ᶠ n in atTop, ∀ m, Command.Ends (M.exec (n + 1) m operation)) : Ends M operation := by
  rw [Ends, ← map_add_atTop_eq_nat 1]
  exact h

theorem eventually_ends_all {ops : List (Operation Λ κ ω)} (h : ∀ op ∈ ops, Ends M op) :
    ∀ᶠ n in atTop, ∀ m, Command.Ends (Command.runAll (ops.map (M.exec n m))) := by
  have hall := (eventually_all_finite ops.finite_toSet).mpr h
  filter_upwards [hall] with n hn m
  refine Command.ends_runAll fun c hc => ?_
  obtain ⟨op, hop, rfl⟩ := List.mem_map.mp hc
  exact hn op hop m

theorem ends_of_bounded {operation : Operation Λ κ ω} (h : Bounded operation) :
    Ends M operation := by
  induction h with
  | simple | «break» | «continue» | checkErrors | «return» =>
    exact .of_succ (.of_forall fun n m s => ⟨_, rfl⟩)
  | @masterIf condition thenSubOps elseIfs elseSubOps _ _ _ ihthen ihelseIfs ihelse =>
    have helseIfs := (eventually_all_finite elseIfs.finite_toSet).mpr fun elseIf helseIf =>
      eventually_ends_all (ihelseIfs elseIf helseIf)
    refine .of_succ ?_
    filter_upwards [eventually_ends_all ihthen, helseIfs, eventually_ends_all ihelse]
      with n hthen helseIfs helse m
    exact (hthen m).cond (List.foldrRecOn (motive := Command.Ends) elseIfs _ (helse m)
      fun rest hrest elseIf helseIf => (helseIfs elseIf helseIf m).cond hrest)
  | loop h ih =>
    refine .of_succ ?_
    filter_upwards [eventually_ends_all ih] with n hn m s
    simp only [exec, Machine.loop]
    split
    · exact ⟨_, rfl⟩
    · split
      · exact ⟨_, rfl⟩
      · exact (hn m).forEach _ s
  | iterateMap h ih =>
    refine .of_succ ?_
    filter_upwards [eventually_ends_all ih] with n hn m s
    simp only [exec, iterateMap]
    split
    · exact ⟨_, rfl⟩
    · split
      · exact ⟨_, rfl⟩
      · exact (hn m).forEach _ s
      · exact ⟨_, rfl⟩

/-- **A method without `while`, `iterate` and calls ends**, whatever its operations do. -/
theorem eventually_runSimpleMethod (h : ∀ op ∈ m.methodOperations, Bounded op) :
    ∀ᶠ n in atTop, ∀ s, ∃ r, M.runSimpleMethod n m s = .done r := by
  filter_upwards [eventually_ends_all fun op hop => ends_of_bounded (h op hop)] with n hn s
  rw [runSimpleMethod, execMethod]
  split
  · exact ⟨_, rfl⟩
  · split
    · exact ⟨_, rfl⟩
    · obtain ⟨r, hr⟩ := hn m _
      exact ⟨_, Outcome.bind_eq_done.mpr ⟨r, hr, rfl⟩⟩

end Ends

end Machine

end OfficeAuto.Minilang
