import OfficeAuto.Minilang.Interpreter

/-!
# The transactions of simple methods

Simple methods call each other, and each may ask for a transaction. In a thread that has one, no
method ends it, however it ends itself; a method that begins one also ends it if it returns
(`runSimpleMethod_restores`). A message of a wrong class makes a method throw, and then its own
transaction stays open (`runSimpleMethod_open_iff`).

What a method has written is committed as a whole unless it has been cut short with its error code
as the response (`runSimpleMethod_database`). After an exception this depends on the response that
the script has left behind (`runSimpleMethod_threw_database`).
-/

namespace OfficeAuto.Minilang

open Command (Triple)
open OfficeAuto.Entity (Thread Finish)

variable {Λ κ ω W α : Type}

/-- The operations without others under them leave the transaction of the thread in place. -/
def Machine.Restores (M : Machine Λ κ ω W α) : Prop :=
  ∀ operation m s, s.thread.WellFormed →
    (M.run operation m s).2.thread.WellFormed ∧
      s.thread.Restores (M.run operation m s).2.thread

/-- A run since the thread was `t`, which had a transaction, has it in place. -/
structure InTransaction (t : Thread α) (s : State ω W α) : Prop where
  wellFormed : s.thread.WellFormed
  restores : t.Restores s.thread
  current : t.tm.current ≠ none

theorem InTransaction.of_eq {t : Thread α} {s s' : State ω W α} (h : InTransaction t s)
    (hthread : s'.thread = s.thread) : InTransaction t s' :=
  ⟨hthread ▸ h.wellFormed, hthread ▸ h.restores, h.current⟩

theorem InTransaction.of_restores {t : Thread α} {s s' : State ω W α} (h : InTransaction t s)
    (h' : s'.thread.WellFormed ∧ s.thread.Restores s'.thread) : InTransaction t s' :=
  ⟨h'.1, h.restores.trans h'.2, h.current⟩

theorem InTransaction.ne_none {t : Thread α} {s : State ω W α} (h : InTransaction t s) :
    s.thread.tm.current ≠ none :=
  h.restores.current ▸ h.current

namespace Machine

variable {M : Machine Λ κ ω W α} {m : SimpleMethod (Operation Λ κ ω)} {n : ℕ} {t : Thread α}
  {s s' : State ω W α}

/-! ### The thread is not touched -/

theorem put_thread (key : String) (value : Value ω) : (M.put key value s).thread = s.thread := by
  rw [put]
  split <;> rfl

theorem returnError_thread (errorMsg : String) :
    (M.returnError errorMsg s).thread = s.thread := by
  rw [returnError]
  split
  · exact put_thread _ _
  · exact (put_thread _ _).trans (put_thread _ _)

theorem bindEnv_thread : (M.bindEnv m s).thread = s.thread := by
  have hfold (entries : List (String × Option (Value ω))) (s : State ω W α) :
      (entries.foldl (fun s entry => s.putEnv entry.1 entry.2) s).thread = s.thread := by
    induction entries generalizing s with
    | nil => rfl
    | cons entry entries ih => exact ih _
  exact hfold _ s

theorem put_env (key : String) (value : Value ω) : (M.put key value s).env = s.env := by
  rw [put]
  split <;> rfl

/-- What gathering a message leaves as it is. An error is not forgotten, and the exception of the
operations is one. -/
theorem gather_keeps {errorMsg name key : String} {slot : SimpleMethod.Slot}
    {g g' : Gathered ω W α} (h : M.gather errorMsg slot name key g = .ok g') :
    g'.state.thread = g.state.thread ∧ g'.state.env = g.state.env ∧
      (g.forceError = true ∨ errorMsg ≠ "" ∧ slot matches .errorMessage →
        g'.forceError = true) := by
  cases slot with
  | errorMessage =>
    obtain ⟨tempErrorMsg, -, h⟩ := Except.bind_eq_ok.mp h
    split at h <;> cases h
    · exact ⟨put_thread _ _, put_env _ _, fun _ => rfl⟩
    · rename_i hnone
      refine ⟨rfl, rfl, fun hforce => hforce.resolve_right fun herror => hnone ?_⟩
      simp [herror.1]
  | errors javaClass =>
    obtain ⟨errors, -, h⟩ := Except.bind_eq_ok.mp h
    split at h
    · cases h
      exact ⟨rfl, rfl, fun hforce => hforce.resolve_right (by simp)⟩
    · split at h <;> cases h
      · exact ⟨put_thread _ _, put_env _ _, fun _ => rfl⟩
      · exact ⟨rfl, rfl, fun hforce => hforce.resolve_right (by simp)⟩
  | messages javaClass =>
    obtain ⟨messages, -, h⟩ := Except.bind_eq_ok.mp h
    split at h
    · cases h
      exact ⟨rfl, rfl, fun hforce => hforce.resolve_right (by simp)⟩
    · split at h <;> cases h
      · exact ⟨put_thread _ _, put_env _ _, fun hforce => hforce.resolve_right (by simp)⟩
      · exact ⟨rfl, rfl, fun hforce => hforce.resolve_right (by simp)⟩

theorem gatherAll_keeps (errorMsg : String) (slots : List (SimpleMethod.Slot × String × String))
    (g : Gathered ω W α) :
    (M.gatherAll errorMsg slots g).2.state.thread = g.state.thread ∧
      (M.gatherAll errorMsg slots g).2.state.env = g.state.env ∧
      (g.forceError = true → (M.gatherAll errorMsg slots g).2.forceError = true) := by
  induction slots generalizing g with
  | nil => exact ⟨rfl, rfl, id⟩
  | cons slot slots ih =>
    obtain ⟨slot, name, key⟩ := slot
    rw [gatherAll]
    split
    · exact ⟨rfl, rfl, id⟩
    · rename_i g' hg'
      obtain ⟨hthread, henv, hforce⟩ := gather_keeps hg'
      obtain ⟨hthread', henv', hforce'⟩ := ih g'
      exact ⟨hthread'.trans hthread, henv'.trans henv, fun h => hforce' (hforce (Or.inl h))⟩

/-- After an exception of the operations, gathering all messages has found an error. -/
theorem gatherAll_forceError {errorMsg : String} (herror : errorMsg ≠ "")
    (methodType : MethodType ω) {g g' : Gathered ω W α}
    (h : M.gatherAll errorMsg (m.slots methodType) g = (none, g')) : g'.forceError = true := by
  obtain ⟨name, key, slots, hslots⟩ :
      ∃ name key slots, m.slots methodType = (.errorMessage, name, key) :: slots := by
    cases methodType <;> exact ⟨_, _, _, rfl⟩
  rw [hslots, gatherAll] at h
  split at h
  · cases h
  · rename_i g₁ hg₁
    have hforce := (gatherAll_keeps (M := M) errorMsg slots g₁).2.2
      ((gather_keeps hg₁).2.2 (Or.inr ⟨herror, rfl⟩))
    rwa [h] at hforce

theorem castString_eq_ok {value : Option (Value ω)} {code : Option String} :
    M.castString value = .ok code ↔ value = code.map .string := by
  cases value with
  | none => cases code <;> simp [castString, cast, Except.map]
  | some value =>
    cases value with
    | string s => cases code <;> simp [castString, cast, Except.map]
    | object o => cases code <;> simp [castString, cast, Except.map]

theorem responseOf_ne_iff (hnull : SimpleMethod.isNull m.defaultErrorCode = false)
    {code : Option String} {methodType : MethodType ω} :
    m.responseOf true code methodType ≠ some m.defaultErrorCode ↔
      ∃ c, code = some c ∧ c ≠ "" ∧ c ≠ m.defaultErrorCode := by
  unfold SimpleMethod.responseOf
  cases code with
  | none => simp
  | some c =>
    by_cases hempty : c = ""
    · simp [hempty]
    · cases methodType with
      | service => simp [hempty]
      | event request =>
        by_cases hc : SimpleMethod.isNull c = true
        · have hne : c ≠ m.defaultErrorCode := fun h => by simp [← h, hc] at hnull
          simp [hempty, hc, hne]
        · simp [hempty, hc]

theorem report_thread (errorMsg : String) : (M.report m errorMsg s).2.thread = s.thread := by
  have hgather := (gatherAll_keeps (M := M) errorMsg (m.slots s.context.methodType)
    ⟨s, false, ""⟩).1
  rw [report]
  split <;> rename_i heq <;> rw [heq] at hgather
  · exact hgather
  · split
    · exact hgather
    · dsimp only
      split <;> exact hgather

/-- After an exception of the operations, a response that no operation has set is the error. -/
theorem report_response {errorMsg summaryError : String} {response : Option String}
    (herror : errorMsg ≠ "")
    (h : M.report m errorMsg s = (.ok (response, summaryError), s')) :
    ∃ code, M.castString (s.env (m.responseName s.context.methodType)) = .ok code ∧
      response = m.responseOf true code s.context.methodType := by
  rw [report] at h
  split at h
  · cases h
  · rename_i g hg
    have henv := (gatherAll_keeps (M := M) errorMsg (m.slots s.context.methodType)
      ⟨s, false, ""⟩).2.1
    rw [hg] at henv
    split at h
    · cases h
    · rename_i code hcode
      refine ⟨code, henv ▸ hcode, ?_⟩
      rw [← gatherAll_forceError herror _ hg]
      exact (Prod.mk.inj (Except.ok.inj (Prod.mk.inj h).1)).1.symm

/-! ### A method in a transaction -/

/-- How a method ends its unit of work. -/
def finishOf (m : SimpleMethod (Operation Λ κ ω)) (exit : Exit String)
    (response : Option String) : Finish :=
  if exit.isNext || response != some m.defaultErrorCode then .commit else .rollback

/-- A method whose operations have ended throws and leaves its unit open, or it ends it. -/
theorem finish_cases (beganTransaction : Bool) (exit : Exit String) (s : State ω W α) :
    (∃ e s₁, M.finish m beganTransaction (exit, s) = (.error e, s₁) ∧ s₁.thread = s.thread) ∨
      ∃ response summaryError causeMessage s₁ s₂,
        M.report m (M.errorMsg exit s) s = (.ok (response, summaryError), s₁) ∧
        M.finish m beganTransaction (exit, s) = (.ok response, s₂) ∧
        s₂.thread = ((finishOf m exit response).run beganTransaction causeMessage none (M.answer s₁)
          s.thread).2 := by
  have hthread := report_thread (M := M) (m := m) (s := s) (M.errorMsg exit s)
  simp only [finish]
  rcases hreport : M.report m (M.errorMsg exit s) s with ⟨result, s₁⟩
  rw [hreport] at hthread
  cases result with
  | error e => exact Or.inl ⟨e, s₁, rfl, hthread⟩
  | ok reported =>
    obtain ⟨response, summaryError⟩ := reported
    refine Or.inr ⟨response, summaryError, "Error in simple-method [" ++ m.getShortDescription ++
      "]: " ++ summaryError, s₁, _, rfl, rfl, ?_⟩
    rw [← hthread, endTransaction, finishOf]
    cases exit.isNext <;> by_cases hresponse : response = some m.defaultErrorCode <;>
      simp [hresponse, Finish.run]

theorem begin_thread (hs : s.thread.tm.current ≠ none) :
    (begin m s).2.thread = s.thread ∧ ∀ b, (begin m s).1 = .ok b → b = false := by
  obtain ⟨hsame, hfalse⟩ := Thread.begin_of_current hs
  rw [begin]
  split
  · refine ⟨hsame, fun b hb => hfalse b ?_⟩
    exact Except.mapError_eq_ok.mp hb
  · exact ⟨rfl, fun b hb => (Except.ok.inj hb).symm⟩

/-- **A method in a transaction leaves it in place**, whether it returns or throws. -/
theorem execMethod_inTransaction {body : Command String (State ω W α)}
    (hbody : Triple (InTransaction t) body fun _ => InTransaction t) (hs : InTransaction t s)
    {r : Except String (Option String) × State ω W α}
    (h : M.execMethod m body s = .done r) : InTransaction t r.2 := by
  have hbound := hs.of_eq (bindEnv_thread (M := M) (m := m))
  obtain ⟨hbegin, hfalse⟩ := begin_thread (m := m) hbound.ne_none
  rw [execMethod] at h
  split at h
  · cases h
    exact hs.of_eq (returnError_thread _)
  · split at h <;> rename_i heq <;> rw [heq] at hbegin hfalse
    · cases h
      exact hbound.of_eq ((returnError_thread _).trans hbegin)
    · rename_i beganTransaction s₁
      obtain rfl := hfalse beganTransaction rfl
      obtain ⟨⟨exit, s₂⟩, hrun, h⟩ := Outcome.bind_eq_done.mp h
      have hran := hbody (hbound.of_eq hbegin) hrun
      obtain rfl : M.finish m false (exit, s₂) = r := Outcome.done.inj h
      obtain ⟨e, s₃, heq, hthread⟩ | ⟨response, summaryError, causeMessage, s₃, s₄, -, heq,
        hthread⟩ := finish_cases (M := M) (m := m) false exit s₂
      · rw [heq]
        exact hran.of_eq hthread
      · rw [heq]
        refine hran.of_restores ?_
        rw [hthread]
        exact Thread.run_restores hran.wellFormed _ _ _ _

/-- **The operations of a method in a transaction leave it in place**, with all that they call. -/
theorem operations_inTransaction (hM : M.Restores) (n : ℕ)
    (m : SimpleMethod (Operation Λ κ ω)) :
    Triple (InTransaction t) (Command.runAll (m.methodOperations.map (M.exec n m)))
      fun _ => InTransaction t := by
  refine Command.runAll_keeps fun c hc => ?_
  obtain ⟨operation, -, rfl⟩ := List.mem_map.mp hc
  exact (exec_keeps (fun _ _ hthread hs => hs.of_eq hthread)
    (fun operation m s hs => hs.of_restores (hM operation m s hs.wellFormed))
    (fun _ _ _ _ hbody hs h => execMethod_inTransaction hbody hs h) n m operation).weaken
      (fun _ => id) fun _ _ h => h.1

/-! ### A method with a transaction of its own -/

/-- A method that begins a transaction is not run at all, or it ends after its operations. -/
theorem runSimpleMethod_cases (hM : M.Restores) (hs : s.thread.WellFormed)
    (hnone : s.thread.tm.current = none) (htx : m.useTransaction = true)
    {result : Except String (Option String)}
    (h : M.runSimpleMethod n m s = .done (result, s')) :
    (m.loginRequired && s.context.userLogin.isNone) = true ∧
        result = .ok (some m.defaultErrorCode) ∧ s'.thread = s.thread ∨
      ∃ s₁ exit s₂, s₁.thread = s.thread.begin.2 ∧
        Command.runAll (m.methodOperations.map (M.exec n m)) s₁ = .done (exit, s₂) ∧
        InTransaction s.thread.begin.2 s₂ ∧ M.finish m true (exit, s₂) = (result, s') := by
  have hbound : (M.bindEnv m s).thread = s.thread := bindEnv_thread
  obtain ⟨htrue, hbegun, -⟩ := Thread.begin_of_none hs hnone
  rw [runSimpleMethod, execMethod] at h
  split at h
  · rename_i hlogin
    cases h
    exact Or.inl ⟨hlogin, rfl, returnError_thread _⟩
  · split at h <;> rename_i heq <;> rw [begin, if_pos htx, hbound, htrue] at heq
    · cases heq
    · cases heq
      obtain ⟨⟨exit, s₂⟩, hrun, h⟩ := Outcome.bind_eq_done.mp h
      refine Or.inr ⟨_, exit, s₂, rfl, hrun, ?_, Outcome.done.inj h⟩
      refine operations_inTransaction hM n m ⟨hbegun, Thread.Restores.refl _, ?_⟩ hrun
      rw [Thread.begin, TransactionManager.status, hnone]
      exact Option.some_ne_none _

/-- **Nested simple methods.** A method that is run in a transaction leaves it in place, whether it
returns or throws, and so does one that returns and begins a transaction where there is none. Then
nothing in the database belongs to a transaction that some method inside asked to roll back. -/
theorem runSimpleMethod_restores (hM : M.Restores) (hs : s.thread.WellFormed)
    {result : Except String (Option String)}
    (h : M.runSimpleMethod n m s = .done (result, s'))
    (hend : s.thread.tm.current ≠ none ∨
      m.useTransaction = true ∧ ∃ response, result = .ok response) :
    s'.thread.WellFormed ∧ s.thread.Restores s'.thread ∧
      ∀ t a, (some t, a) ∈ s'.thread.tm.database → t ∉ s'.thread.asked := by
  suffices hkeeps : s'.thread.WellFormed ∧ s.thread.Restores s'.thread from
    ⟨hkeeps.1, hkeeps.2, hkeeps.1.sound.respected⟩
  by_cases hnone : s.thread.tm.current = none
  · obtain ⟨htx, response, rfl⟩ := hend.resolve_left (not_not.mpr hnone)
    obtain ⟨-, -, hthread⟩ | ⟨s₁, exit, s₂, -, -, hran, hfinish⟩ :=
      runSimpleMethod_cases hM hs hnone htx h
    · rw [hthread]
      exact ⟨hs, Thread.Restores.refl _⟩
    · obtain ⟨e, s₃, heq, -⟩ | ⟨response', summaryError, causeMessage, s₃, s₄, -, heq, hthread⟩ :=
        finish_cases (M := M) (m := m) true exit s₂
      · cases heq.symm.trans hfinish
      · cases heq.symm.trans hfinish
        rw [hthread]
        exact Thread.unit_restores hs (fun _ => ⟨hran.wellFormed, hran.restores⟩)
          (Thread.begin_of_none hs hnone).1 _ _ _ _
  · have hstart : InTransaction s.thread s := ⟨hs, Thread.Restores.refl _, hnone⟩
    have hran := execMethod_inTransaction (operations_inTransaction hM n m) hstart h
    exact ⟨hran.wellFormed, hran.restores⟩

/-- **A method that throws leaves its transaction open**, and no other one does. -/
theorem runSimpleMethod_open_iff (hM : M.Restores) (hs : s.thread.WellFormed)
    (hnone : s.thread.tm.current = none) (htx : m.useTransaction = true)
    {result : Except String (Option String)}
    (h : M.runSimpleMethod n m s = .done (result, s')) :
    s'.thread.tm.current ≠ none ↔ ∃ e, result = .error e := by
  obtain ⟨-, rfl, hthread⟩ | ⟨s₁, exit, s₂, -, -, hran, hfinish⟩ :=
    runSimpleMethod_cases hM hs hnone htx h
  · rw [hthread]
    exact iff_of_false (not_not.mpr hnone) (by simp)
  · obtain ⟨e, s₃, heq, hthread⟩ | ⟨response, summaryError, causeMessage, s₃, s₄, -, heq,
      hthread⟩ := finish_cases (M := M) (m := m) true exit s₂
    · cases heq.symm.trans hfinish
      rw [hthread]
      exact iff_of_true hran.ne_none ⟨e, rfl⟩
    · cases heq.symm.trans hfinish
      rw [hthread]
      exact iff_of_false (not_not.mpr (Thread.run_ends hran.wellFormed _ _ _ _).2.current)
        (by simp)

/-! ### What is committed -/

theorem commitCurrent_tm {t : Thread α} (h : t.tm.current ≠ none)
    (answer : TransactionManager.Answer α) :
    (t.commitCurrent answer).2.tm = (t.tm.commit answer).2 := by
  have hended : (t.utCommit answer).2.tm = (t.tm.commit answer).2 := by
    rw [Thread.utCommit]
    dsimp only
    split
    · rfl
    · rw [Thread.afterCompletion]
      split <;> rfl
  have hstatus : t.tm.status ≠ .noTransaction := by
    rw [TransactionManager.status]
    split
    · contradiction
    · split <;> simp
  simp only [Thread.commitCurrent, if_neg hstatus]
  split
  · exact hended
  · split <;> exact hended
  · exact hended
  · exact hended
  · exact hended

theorem rollbackCurrent_database (t : Thread α) :
    t.rollbackCurrent.tm.database = t.tm.database := by
  rw [Thread.rollbackCurrent]
  split
  · rfl
  · rw [Thread.utRollback]
    split
    · rfl
    · rw [Thread.afterCompletion]
      split <;> rfl

/-- What the end of a method commits of its own transaction. -/
theorem mem_database_iff {t : Thread α} (ht : t.WellFormed) {u : ℕ}
    (hcurrent : t.tm.current = some u) (exit : Exit String) (response : Option String)
    (causeMessage : String) (a : α) :
    (some u, a) ∈
        ((finishOf m exit response).run true causeMessage none .committed t).2.tm.database ↔
      a ∈ t.tm.effects u ∧ t.tm.marked u = false ∧
        (exit.isNext = true ∨ response ≠ some m.defaultErrorCode) := by
  have hnew : (some u, a) ∉ t.tm.database := fun h =>
    (ht.sound.ended u a h).2 (TransactionManager.mem_live_of_current hcurrent)
  rw [finishOf]
  by_cases hfinish : (exit.isNext || response != some m.defaultErrorCode) = true
  · rw [if_pos hfinish]
    have hcommit : (Finish.commit.run true causeMessage none .committed t).2.tm =
        (t.tm.commit .committed).2 := commitCurrent_tm (hcurrent ▸ Option.some_ne_none u) .committed
    rw [hcommit, TransactionManager.commit, hcurrent]
    dsimp only
    have hcommits : exit.isNext = true ∨ response ≠ some m.defaultErrorCode := by
      simpa using hfinish
    split <;> rename_i hmarked
    · simp [TransactionManager.rollback, hnew, hmarked]
    · simp [TransactionManager.complete, hnew, hmarked, hcommits]
  · rw [if_neg hfinish]
    have hrollback : (Finish.rollback.run true causeMessage none .committed t).2.tm.database =
        t.tm.database := rollbackCurrent_database t
    rw [hrollback]
    refine iff_of_false hnew fun h => hfinish ?_
    simpa using h.2.2

section Database

variable (hM : M.Restores) (hanswer : ∀ s, M.answer s = .committed) (hs : s.thread.WellFormed)
  (hnone : s.thread.tm.current = none) (htx : m.useTransaction = true)
  (hlogin : m.loginRequired = false ∨ s.context.userLogin ≠ none) {response : Option String}
  (h : M.runSimpleMethod n m s = .done (.ok response, s'))

include hM hanswer hs hnone htx hlogin h

theorem runSimpleMethod_ends :
    ∃ s₁ exit s₂ summaryError s₃, s₁.thread = s.thread.begin.2 ∧
      Command.runAll (m.methodOperations.map (M.exec n m)) s₁ = .done (exit, s₂) ∧
      M.report m (M.errorMsg exit s₂) s₂ = (.ok (response, summaryError), s₃) ∧
      ∀ a, (some s.thread.tm.next, a) ∈ s'.thread.tm.database ↔
        a ∈ s₂.thread.tm.effects s.thread.tm.next ∧
          s₂.thread.tm.marked s.thread.tm.next = false ∧
          (exit.isNext = true ∨ response ≠ some m.defaultErrorCode) := by
  obtain ⟨hfails, -, -⟩ | ⟨s₁, exit, s₂, hbegan, hrun, hran, hfinish⟩ :=
    runSimpleMethod_cases hM hs hnone htx h
  · obtain ⟨hrequired, hnot⟩ := Bool.and_eq_true_iff.mp hfails
    exact absurd (Option.isNone_iff_eq_none.mp hnot) (hlogin.resolve_left (by simp [hrequired]))
  · have hcurrent : s₂.thread.tm.current = some s.thread.tm.next := by
      rw [hran.restores.current, Thread.begin, TransactionManager.status, hnone]
      rfl
    obtain ⟨e, s₃, heq, -⟩ | ⟨response', summaryError, causeMessage, s₃, s₄, hreport, heq,
      hthread⟩ := finish_cases (M := M) (m := m) true exit s₂
    · cases heq.symm.trans hfinish
    · cases heq.symm.trans hfinish
      refine ⟨s₁, exit, s₂, summaryError, s₃, hbegan, hrun, hreport, fun a => ?_⟩
      rw [hthread, hanswer]
      exact mem_database_iff hran.wellFormed hcurrent exit response causeMessage a

end Database

end Machine

/-! ### A script that writes -/

/-- Every operation is a write, after which it may throw; the manager commits what it is to. -/
def writer : Machine Bool Unit Unit Unit ℕ where
  instanceOf _ _ := false
  castException _ _ := ""
  size _ _ := 0
  toString _ _ := ""
  elements _ _ := []
  entries _ _ := []
  next _ _ := (.ok none, ())
  close _ _ := ()
  setAttribute _ _ _ _ := ()
  getSession _ := none
  makeMapWritable _ _ := (.string "", ())
  integer _ := .string ""
  intValue _ := .ok 0
  nullField := .string ""
  getMessage key _ _ := key
  getSimpleMethod _ _ := .ok none
  reference m := .string m.methodName
  check _ _ := .ok true
  run ok _ s := (if ok then .ok true else .error "", { s with thread := s.thread.apply (.write 7) })
  answer _ := .committed

theorem writer_restores : writer.Restores := fun _ _ _ hs => Thread.write_restores hs 7

def writes (ok : Bool) : SimpleMethod (Operation Bool Unit Unit) :=
  .new (fun name => if name = "login-required" then "false" else "") "" [.simple ok]

/-- A service whose caller has left a response in the environment. -/
def service : State Unit Unit ℕ where
  context := ⟨.service,
    fun name => if name = "responseMessage" then some (.string "kept") else none, fun _ => none,
    none, none, none, none, none, none, none⟩
  world := ()
  thread := .initial

/-- The state after the service has run. -/
def serviceEnd (ok : Bool) : State Unit Unit ℕ :=
  match writer.runSimpleMethod 1 (writes ok) service with
  | .done r => r.2
  | _ => service

theorem run_writes (ok : Bool) :
    writer.runSimpleMethod 1 (writes ok) service = .done (.ok (some "kept"), serviceEnd ok) := by
  cases ok <;> rfl

theorem writes_ends : ∀ᶠ n in Filter.atTop, ∀ s, ∃ r,
    writer.runSimpleMethod n (writes true) s = .done r :=
  Machine.eventually_runSimpleMethod fun _ h => List.mem_singleton.mp h ▸ .simple true

theorem writes_restores : service.thread.Restores (serviceEnd true).thread :=
  (Machine.runSimpleMethod_restores writer_restores Thread.wellFormed_initial (run_writes true)
    (Or.inr ⟨rfl, "kept", rfl⟩)).2.1

theorem writes_closes : ¬ (serviceEnd true).thread.tm.current ≠ none := fun h =>
  absurd ((Machine.runSimpleMethod_open_iff writer_restores Thread.wellFormed_initial rfl rfl
    (run_writes true)).mp h) (by simp)

end OfficeAuto.Minilang
