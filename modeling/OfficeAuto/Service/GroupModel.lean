import OfficeAuto.Logic.MachineInt
import OfficeAuto.Logic.Series
import OfficeAuto.Service.ServiceEca

/-!
# Service groups

A group invokes some of its members, by its send mode: all of them, the one whose turn it is, a
random one, or those that are tried until one is available. `Right` says for each mode which
members a run is to invoke. The members change a world, so the calls of a run are recorded by a
world that logs them (`logged`).

Three of the modes fall short, and `runs_right_iff` says exactly when a history of runs is right.
The mode `all` puts the answers into one map, so that a later answer takes the place of a failure.
The mode `first-available` has no end of the loop where a member has run. And the counter of
`round-robin` becomes negative after `2 ^ 31` runs.
-/

namespace OfficeAuto.Service.Group

open Eca MachineInt Series

/-! ### The code -/

inductive Thrown (E : Type) where
  | genericService (message : String)
  | arithmetic
  | indexOutOfBounds
  | other (e : E)

abbrev Answer (V E : Type) := Except (Thrown E) (Fields V)

structure GroupServiceModel where
  serviceName : String
  serviceMode : String
  resultToContext : Bool

/-- What a member uses of the dispatcher and of the models `M` of the services. A service that is
run changes the `W`, also where it throws. -/
structure Dispatcher (W V E M : Type) where
  getModelService : String → W → Except (Thrown E) M
  makeValid : M → Fields V → String → Except (Thrown E) (Fields V)
  getParameterNames : M → String → Bool → List String
  runSync : M → Fields V → W → Answer V E × W
  runAsync : M → Fields V → Bool → W → Except (Thrown E) Unit × W

variable {W V E M : Type}

def GroupServiceModel.invoke (D : Dispatcher W V E M) (service : GroupServiceModel)
    (context : Fields V) (w : W) : Answer V E × W :=
  match D.getModelService service.serviceName w with
  | .error e => (.error e, w)
  | .ok model =>
    match D.makeValid model context IN_PARAM with
    | .error e => (.error e, w)
    | .ok thisContext =>
      if service.serviceMode = "async" then
        let requiredOut := D.getParameterNames model OUT_PARAM false
        if 0 < requiredOut.length then D.runSync model thisContext w
        else
          match D.runAsync model thisContext false w with
          | (.error e, w) => (.error e, w)
          | (.ok (), w) => (.ok ∅, w)
      else D.runSync model thisContext w

structure GroupModel where
  groupName : String
  sendMode : String
  services : List GroupServiceModel
  lastServiceRan : ℤ

namespace GroupModel

def new (groupName sendMode : String) (services : List GroupServiceModel) : GroupModel where
  groupName := groupName
  sendMode := sendMode
  services := services
  lastServiceRan := -1

variable (invoke : GroupServiceModel → Fields V → W → Answer V E × W)

def runAllLoop (result runContext : Fields V) : List GroupServiceModel → W → Answer V E × W
  | [], w => (.ok result, w)
  | model :: services, w =>
    match invoke model runContext w with
    | (.error e, w) => (.error e, w)
    | (.ok thisResult, w) =>
      -- a failure is no error: it is put into the result, where a later answer covers its message
      if ServiceUtil.isError thisResult then (.ok thisResult, w)
      else
        runAllLoop (result.putAll thisResult)
          (if model.resultToContext then runContext.putAll thisResult else runContext) services w

def runAll (g : GroupModel) (context : Fields V) (w : W) : Answer V E × W :=
  runAllLoop invoke ∅ context g.services w

def runIndex (g : GroupModel) (context : Fields V) (index : ℤ) (w : W) : Answer V E × W :=
  if 0 ≤ index then
    match g.services[index.toNat]? with
    | some model => invoke model context w
    | none => (.error .indexOutOfBounds, w)
  else (.error .indexOutOfBounds, w)

/-- The loop of `runOne`. Other exceptions than a `GenericServiceException` are not caught. -/
def runOneLoop (context : Fields V) :
    Option (Fields V) → List GroupServiceModel → W → Answer V E × W
  | some result, [], w => (.ok result, w)
  | none, [], w =>
    (.error (.genericService "All services failed to run; none available."), w)
  | result, model :: services, w =>
    match invoke model context w with
    -- the loop is not left after a service that has run
    | (.ok result, w) => runOneLoop context (some result) services w
    | (.error (.genericService _), w) => runOneLoop context result services w
    | (.error e, w) => (.error e, w)

def runOne (g : GroupModel) (context : Fields V) (w : W) : Answer V E × W :=
  runOneLoop invoke context none g.services w

/-- `randomIndex` is the index that `Math.random` gives. -/
def run (g : GroupModel) (context : Fields V) (randomIndex : ℕ) (w : W) :
    (Answer V E × W) × GroupModel :=
  if g.sendMode = "all" then (runAll invoke g context w, g)
  else if g.sendMode = "round-robin" then
    let g := { g with lastServiceRan := int (g.lastServiceRan + 1) }
    -- the remainder by the size of an empty list throws, after the counter has been set
    if g.services.length = 0 then ((.error .arithmetic, w), g)
    else (runIndex invoke g context (g.lastServiceRan.tmod g.services.length) w, g)
  else if g.sendMode = "random" then (runIndex invoke g context randomIndex w, g)
  else if g.sendMode = "first-available" then (runOne invoke g context w, g)
  else if g.sendMode = "none" then ((.ok ∅, w), g)
  else ((.error (.genericService "This mode is not currently supported"), w), g)

end GroupModel

/-! ### Histories -/

abbrev Call (V E : Type) := GroupServiceModel × Answer V E

def logged (invoke : GroupServiceModel → Fields V → W → Answer V E × W)
    (model : GroupServiceModel) (context : Fields V) (s : W × List (Call V E)) :
    Answer V E × W × List (Call V E) :=
  ((invoke model context s.1).1, (invoke model context s.1).2,
    s.2 ++ [(model, (invoke model context s.1).1)])

/-- What a run is given: the context, and the random index, and the world at that time. -/
structure Request (W V : Type) where
  context : Fields V
  randomIndex : ℕ
  world : W

/-- The calls of a run, and what it comes to. -/
structure Record (V E : Type) where
  calls : List (Call V E)
  result : Answer V E

def GroupModel.record (D : Dispatcher W V E M) (g : GroupModel) (request : Request W V) :
    Record V E × GroupModel :=
  let out := g.run (logged (GroupServiceModel.invoke D)) request.context request.randomIndex
    (request.world, [])
  (⟨out.1.2.2, out.1.1⟩, out.2)

def GroupModel.runs (D : Dispatcher W V E M) :
    GroupModel → List (Request W V) → List (Record V E)
  | _, [] => []
  | g, request :: requests => (g.record D request).1 :: runs D (g.record D request).2 requests

/-! ### What a run is to do -/

def EndsAll : Answer V E → Prop
  | .error _ => True
  | .ok result => ServiceUtil.isError result = true

instance : DecidablePred (EndsAll (V := V) (E := E))
  | .error _ => .isTrue trivial
  | .ok result => inferInstanceAs (Decidable (ServiceUtil.isError result = true))

def Fails : Answer V E → Prop
  | .error _ => False
  | .ok result => ServiceUtil.isFailure result = true

def Available : Answer V E → Prop
  | .error (.genericService _) => False
  | _ => True

instance : DecidablePred (Available (V := V) (E := E))
  | .error (.genericService _) => .isFalse id
  | .error .arithmetic => .isTrue trivial
  | .error .indexOutOfBounds => .isTrue trivial
  | .error (.other _) => .isTrue trivial
  | .ok _ => .isTrue trivial

/-- The members that run number `n` of a group is to invoke, and what it is to come to. -/
structure Right (sendMode : String) (services : List GroupServiceModel) (n : ℕ)
    (request : Request W V) (record : Record V E) : Prop where
  all : sendMode = "all" → UpToFirst EndsAll services record.calls ∧
    ((∃ call ∈ record.calls, EndsAll call.2 ∨ Fails call.2) →
      EndsAll record.result ∨ Fails record.result)
  roundRobin : sendMode = "round-robin" →
    record.calls.map Prod.fst = services[n % services.length]?.toList
  random : sendMode = "random" →
    record.calls.map Prod.fst = services[request.randomIndex]?.toList
  firstAvailable : sendMode = "first-available" → UpToFirst Available services record.calls
  none : sendMode ∉ ["all", "round-robin", "random", "first-available"] → record.calls = []

/-! ### All members -/

variable {D : Dispatcher W V E M} {services : List GroupServiceModel}

/-- A member of the mode `all` is called with the context that the earlier ones leave. -/
def callOfAll (D : Dispatcher W V E M) (model : GroupServiceModel) (s : Fields V × W) :
    Answer V E × Fields V × W :=
  let (answer, w) := model.invoke D s.1 s.2
  match answer with
  | .error e => (.error e, s.1, w)
  | .ok thisResult =>
    (.ok thisResult, if model.resultToContext then s.1.putAll thisResult else s.1, w)

def callsOfAll (D : Dispatcher W V E M) (services : List GroupServiceModel)
    (request : Request W V) : List (Call V E) :=
  series EndsAll (callOfAll D) services (request.context, request.world)

def merged (result : Fields V) : List (Answer V E) → Answer V E
  | [] => .ok result
  | .error e :: _ => .error e
  | .ok thisResult :: answers =>
    if ServiceUtil.isError thisResult then .ok thisResult
    else merged (result.putAll thisResult) answers

def reported : Answer V E → Option (Value V)
  | .error _ => none
  | .ok result => result.lookup RESPONSE_MESSAGE

/-- No answer is a failure, or one ends the run, or the last response message is a failure's. -/
def FailureKept (answers : List (Answer V E)) : Prop :=
  (∀ a ∈ answers, ¬Fails a) ∨ (∃ a ∈ answers, EndsAll a) ∨
    ∃ v ∈ (answers.filterMap reported).getLast?, v.equalsString RESPOND_FAIL = true

theorem runAllLoop_logged (result runContext : Fields V) (w : W) (log : List (Call V E)) :
    let calls := series EndsAll (callOfAll D) services (runContext, w)
    let out := GroupModel.runAllLoop (logged (GroupServiceModel.invoke D)) result runContext
      services (w, log)
    out.1 = merged result (calls.map Prod.snd) ∧ out.2.2 = log ++ calls := by
  induction services generalizing result runContext w log with
  | nil => exact ⟨rfl, (List.append_nil log).symm⟩
  | cons model services ih =>
    rw [series, GroupModel.runAllLoop, logged, callOfAll]
    rcases model.invoke D runContext w with ⟨_ | thisResult, w'⟩
    · exact ⟨rfl, rfl⟩
    · by_cases herror : ServiceUtil.isError thisResult = true
      · have hends : EndsAll (.ok thisResult : Answer V E) := herror
        dsimp only
        rw [if_pos hends, if_pos herror, List.map_singleton, merged, if_pos herror]
        exact ⟨rfl, rfl⟩
      · have hends : ¬EndsAll (.ok thisResult : Answer V E) := herror
        dsimp only
        rw [if_neg hends, if_neg herror, List.map_cons, merged, if_neg herror]
        obtain ⟨hresult, hlog⟩ := ih (result.putAll thisResult)
          (if model.resultToContext then runContext.putAll thisResult else runContext) w'
          (log ++ [(model, .ok thisResult)])
        exact ⟨hresult, hlog.trans (List.append_cons log _ _).symm⟩

theorem endsAll_merged {answers : List (Answer V E)} (result : Fields V)
    (h : ∃ a ∈ answers, EndsAll a) : EndsAll (merged result answers) := by
  induction answers generalizing result with
  | nil =>
    obtain ⟨a, ha, -⟩ := h
    exact absurd ha List.not_mem_nil
  | cons a answers ih =>
    cases a with
    | error e => exact trivial
    | ok thisResult =>
      rw [merged]
      split_ifs with herror
      · exact herror
      · refine ih _ ?_
        obtain ⟨a, ha, hends⟩ := h
        rcases List.mem_cons.mp ha with rfl | ha
        · exact absurd hends herror
        · exact ⟨a, ha, hends⟩

theorem get_merged {answers : List (Answer V E)} (h : ∀ a ∈ answers, ¬EndsAll a)
    (result : Fields V) :
    ∃ r, merged result answers = .ok r ∧ r.get RESPONSE_MESSAGE =
      (answers.filterMap reported).getLast?.getD (result.get RESPONSE_MESSAGE) := by
  induction answers generalizing result with
  | nil => exact ⟨result, rfl, rfl⟩
  | cons a answers ih =>
    rw [List.forall_mem_cons] at h
    cases a with
    | error e => exact absurd trivial h.1
    | ok thisResult =>
      obtain ⟨r, hr, hget⟩ := ih h.2 (result.putAll thisResult)
      refine ⟨r, ?_, ?_⟩
      · have herror : ¬ServiceUtil.isError thisResult = true := h.1
        rw [merged, if_neg herror, hr]
      · rw [hget, Fields.get_putAll, List.filterMap_cons]
        have hreported : reported (.ok thisResult : Answer V E) =
            thisResult.lookup RESPONSE_MESSAGE := rfl
        rw [hreported]
        cases thisResult.lookup RESPONSE_MESSAGE with
        | none => rfl
        | some v => rw [List.getLast?_cons, Option.getD_some, Option.getD_some]

/-- **A failure is kept** in the merged answers under this condition only. -/
theorem failureKept_iff (answers : List (Answer V E)) :
    ((∃ a ∈ answers, EndsAll a ∨ Fails a) →
      EndsAll (merged ∅ answers) ∨ Fails (merged ∅ answers)) ↔ FailureKept answers := by
  rw [FailureKept]
  by_cases hends : ∃ a ∈ answers, EndsAll a
  · exact iff_of_true (fun _ => .inl (endsAll_merged ∅ hends)) (.inr (.inl hends))
  · rw [or_iff_right (a := ∃ a ∈ answers, EndsAll a) hends]
    have hnot : ∀ a ∈ answers, ¬EndsAll a := fun a ha h => hends ⟨a, ha, h⟩
    obtain ⟨r, hr, hget⟩ := get_merged hnot (∅ : Fields V)
    have hnull : (∅ : Fields V).get RESPONSE_MESSAGE = .null := rfl
    rw [hnull] at hget
    have hfails : (EndsAll (.ok r : Answer V E) ∨ Fails (.ok r : Answer V E)) ↔
        ∃ v ∈ (answers.filterMap reported).getLast?, v.equalsString RESPOND_FAIL = true := by
      have herror : EndsAll (.ok r : Answer V E) ↔
          (r.get RESPONSE_MESSAGE).equalsString RESPOND_ERROR = true := Iff.rfl
      have hfailure : Fails (.ok r : Answer V E) ↔
          (r.get RESPONSE_MESSAGE).equalsString RESPOND_FAIL = true := Iff.rfl
      rw [herror, hfailure, hget]
      cases hlast : (answers.filterMap reported).getLast? with
      | none => simp [Value.equalsString]
      | some v =>
        obtain ⟨a, ha, hav⟩ := List.mem_filterMap.mp (List.mem_of_getLast? hlast)
        have hnotError : ¬v.equalsString RESPOND_ERROR = true := by
          cases a with
          | error e => nomatch hav
          | ok thisResult =>
            have hthis := hnot _ ha
            rwa [EndsAll, ServiceUtil.isError, Fields.get,
              show thisResult.lookup RESPONSE_MESSAGE = some v from hav, Option.getD_some] at hthis
        simp [hnotError]
    rw [hr, hfails]
    constructor
    · intro h
      by_cases hfail : ∃ a ∈ answers, Fails a
      · obtain ⟨a, ha, hf⟩ := hfail
        exact .inr (h ⟨a, ha, .inr hf⟩)
      · exact .inl fun a ha hf => hfail ⟨a, ha, hf⟩
    · rintro (hnone | hkept) ⟨a, ha, h⟩
      · exact absurd (h.resolve_left (hnot a ha)) (hnone a ha)
      · exact hkept

/-! ### The first available member -/

def Throws : Answer V E → Prop
  | .error (.genericService _) => False
  | .error _ => True
  | .ok _ => False

instance : DecidablePred (Throws (V := V) (E := E))
  | .error (.genericService _) => .isFalse id
  | .error .arithmetic => .isTrue trivial
  | .error .indexOutOfBounds => .isTrue trivial
  | .error (.other _) => .isTrue trivial
  | .ok _ => .isFalse id

/-- The members up to the first one that is available, with their answers. -/
def callsOfFirst (D : Dispatcher W V E M) (services : List GroupServiceModel)
    (request : Request W V) : List (Call V E) :=
  series Available (fun model => model.invoke D request.context) services request.world

/-- No member before the last one is available, unless it throws an exception that is not
caught. -/
def NoneLeftOut (D : Dispatcher W V E M) (services : List GroupServiceModel)
    (request : Request W V) : Prop :=
  ∀ call ∈ callsOfFirst D services request, (∃ result, call.2 = .ok result) →
    (callsOfFirst D services request).length = services.length

theorem runOneLoop_logged (context : Fields V) (result : Option (Fields V)) (w : W)
    (log : List (Call V E)) :
    (GroupModel.runOneLoop (logged (GroupServiceModel.invoke D)) context result services
      (w, log)).2.2 =
      log ++ series Throws (fun model => model.invoke D context) services w := by
  induction services generalizing result w log with
  | nil => cases result <;> exact (List.append_nil log).symm
  | cons model services ih =>
    rw [series, GroupModel.runOneLoop, logged]
    rcases model.invoke D context w with ⟨(message | _ | _ | _) | thisResult, w'⟩
    · exact (ih result w' _).trans (List.append_cons log _ _).symm
    · rfl
    · rfl
    · rfl
    · exact (ih (some thisResult) w' _).trans (List.append_cons log _ _).symm

theorem upToFirst_runOne_iff (request : Request W V) :
    UpToFirst Available services
        (series Throws (fun model => model.invoke D request.context) services request.world) ↔
      NoneLeftOut D services request := by
  have hle : ∀ a : Answer V E, Throws a → Available a := by
    intro a h
    rcases a with (_ | _ | _ | _) | _
    · exact h
    all_goals trivial
  have hreturns : ∀ a : Answer V E, (Available a ∧ ¬Throws a) ↔ ∃ result, a = .ok result := by
    intro a
    rcases a with (_ | _ | _ | _) | _ <;> simp [Available, Throws]
  rw [upToFirst_series_iff hle, NoneLeftOut, callsOfFirst]
  refine forall₂_congr fun call _ => ?_
  rw [← hreturns, or_iff_not_imp_left, and_imp]

/-! ### Taking turns -/

def turn (services : List GroupServiceModel) (n : ℕ) : List GroupServiceModel :=
  if services.length = 0 then []
  else if 0 ≤ (int n).tmod services.length then
    services[((int n).tmod services.length).toNat]?.toList
  else []

theorem turn_of_tmod {n index : ℕ} (hne : services.length ≠ 0)
    (h : (int n).tmod services.length = index) : turn services n = services[index]?.toList := by
  rw [turn, if_neg hne, h, if_pos (Int.natCast_nonneg index), Int.toNat_natCast]

theorem turn_of_lt {n : ℕ} (h : n < 2 ^ 31) :
    turn services n = services[n % services.length]?.toList := by
  by_cases hnil : services.length = 0
  · rw [turn, if_pos hnil, List.length_eq_zero_iff.mp hnil]
    rfl
  · refine turn_of_tmod hnil ?_
    rw [int_eq (by omega) (by omega), Int.ofNat_tmod]

theorem turn_of_ge {n : ℕ} (hge : 2 ^ 31 ≤ n) (hlt : n < 2 ^ 32) (hne : services.length ≠ 0) :
    turn services n =
      if services.length ∣ 2 ^ 32 - n then services[0]?.toList else [] := by
  -- the counter has wrapped around once
  obtain ⟨k, hk, hkge, hklt⟩ := int_spec n
  obtain rfl : k = 1 := by omega
  have hint : int n = -((2 ^ 32 - n : ℕ) : ℤ) := by omega
  have htmod : (int n).tmod services.length = -(((2 ^ 32 - n) % services.length : ℕ) : ℤ) := by
    rw [hint, Int.neg_tmod, Int.ofNat_tmod]
  by_cases hdvd : services.length ∣ 2 ^ 32 - n
  · rw [if_pos hdvd]
    refine turn_of_tmod hne ?_
    rw [htmod, Nat.mod_eq_zero_of_dvd hdvd]
    rfl
  · have hpos : 0 < (2 ^ 32 - n) % services.length :=
      Nat.pos_of_ne_zero fun h => hdvd (Nat.dvd_of_mod_eq_zero h)
    rw [turn, if_neg hne, htmod, if_neg (by omega), if_neg hdvd]

/-- **The first runs of a group take turns** exactly if they are not too many. -/
theorem forall_turn_iff {count : ℕ} :
    (∀ n < count, turn services n = services[n % services.length]?.toList) ↔
      services.length ≤ 1 ∨ count ≤ 2 ^ 31 ∨ count = 2 ^ 31 + 1 ∧ services.length ∣ 2 ^ 31 := by
  by_cases hnil : services.length = 0
  · refine iff_of_true (fun n _ => ?_) (.inl (by omega))
    rw [turn, if_pos hnil, List.length_eq_zero_iff.mp hnil]
    rfl
  have hmember : ∀ n, services[n % services.length]?.toList ≠ [] := by
    intro n
    rw [List.getElem?_eq_getElem (Nat.mod_lt n (by omega))]
    exact List.cons_ne_nil _ _
  have hhalf : 2 ^ 32 - 2 ^ 31 = 2 ^ 31 := by decide
  constructor
  · intro h
    by_contra hnot
    rw [not_or, not_or, not_le, not_le, not_and] at hnot
    obtain ⟨hsize, hcount, hlast⟩ := hnot
    -- run number `2 ^ 31` is the first with a counter below zero, and takes its turn only if the
    -- size divides it; then the run after it does not
    have hdvd : services.length ∣ 2 ^ 31 := by
      by_contra hdvd
      have hturn := h (2 ^ 31) hcount
      rw [turn_of_ge le_rfl (by decide) hnil, hhalf, if_neg hdvd] at hturn
      exact hmember _ hturn.symm
    have hmore : count ≠ 2 ^ 31 + 1 := fun heq => hlast heq hdvd
    have hnext := h (2 ^ 31 + 1) (by omega)
    have hdvd' : ¬services.length ∣ 2 ^ 32 - (2 ^ 31 + 1) := by
      intro hdvd'
      have hone : services.length ∣ 1 := (Nat.dvd_add_right hdvd').mp hdvd
      exact absurd (Nat.le_of_dvd one_pos hone) (by omega)
    rw [turn_of_ge (by decide) (by decide) hnil, if_neg hdvd'] at hnext
    exact hmember _ hnext.symm
  · rintro (hone | hcount | ⟨hcount, hdvd⟩) n hn
    · have hlength : services.length = 1 := by omega
      rw [hlength, Nat.mod_one]
      refine turn_of_tmod hnil ?_
      rw [hlength]
      exact Int.tmod_one _
    · exact turn_of_lt (by omega)
    · obtain hlt | rfl : n < 2 ^ 31 ∨ n = 2 ^ 31 := by omega
      · exact turn_of_lt hlt
      · rw [turn_of_ge le_rfl (by decide) hnil, hhalf, if_pos hdvd, Nat.mod_eq_zero_of_dvd hdvd]

/-! ### Runs -/

namespace GroupModel

def next (g : GroupModel) : GroupModel :=
  if g.sendMode = "round-robin" then { g with lastServiceRan := int (g.lastServiceRan + 1) } else g

def after (groupName sendMode : String) (services : List GroupServiceModel) (n : ℕ) :
    GroupModel :=
  { new groupName sendMode services with
    lastServiceRan := if sendMode = "round-robin" then int (n - 1) else -1 }

theorem run_snd (invoke : GroupServiceModel → Fields V → W → Answer V E × W) (g : GroupModel)
    (context : Fields V) (randomIndex : ℕ) (w : W) :
    (g.run invoke context randomIndex w).2 = g.next := by
  rw [run, next]
  by_cases hmode : g.sendMode = "round-robin"
  · have hall : g.sendMode ≠ "all" := by
      rw [hmode]
      decide
    rw [if_neg hall, if_pos hmode, if_pos hmode]
    dsimp only
    split_ifs
    · rfl
    · rfl
  · rw [if_neg hmode, if_neg hmode]
    split_ifs <;> rfl

theorem next_after (groupName sendMode : String) (n : ℕ) :
    (after groupName sendMode services n).next = after groupName sendMode services (n + 1) := by
  have hcounter : int (int ((n : ℤ) - 1) + 1) = int (((n + 1 : ℕ) : ℤ) - 1) := by
    rw [int_add_int]
    exact congrArg int (by omega)
  have hmode : (after groupName sendMode services n).sendMode = sendMode := rfl
  rw [next, hmode]
  by_cases h : sendMode = "round-robin"
  · rw [if_pos h, after, after, if_pos h, if_pos h]
    exact congrArg (GroupModel.mk groupName sendMode services) hcounter
  · rw [if_neg h, after, after, if_neg h, if_neg h]

theorem runs_getElem? (groupName sendMode : String) (k : ℕ) (requests : List (Request W V))
    (n : ℕ) :
    (runs D (after groupName sendMode services k) requests)[n]? =
      (requests[n]?).map fun request =>
        ((after groupName sendMode services (k + n)).record D request).1 := by
  induction requests generalizing k n with
  | nil => rfl
  | cons request requests ih =>
    have hnext : ((after groupName sendMode services k).record D request).2 =
        after groupName sendMode services (k + 1) :=
      (run_snd _ _ _ _ _).trans (next_after groupName sendMode k)
    rw [runs, hnext]
    cases n with
    | zero => rfl
    | succ n =>
      rw [List.getElem?_cons_succ, List.getElem?_cons_succ, ih, Nat.add_assoc, Nat.add_comm 1 n]

variable {g : GroupModel} {request : Request W V}

theorem record_calls : (g.record D request).1.calls =
    (g.run (logged (GroupServiceModel.invoke D)) request.context request.randomIndex
      (request.world, [])).1.2.2 := rfl

theorem record_all (request : Request W V) (h : g.sendMode = "all") :
    (g.record D request).1.calls = callsOfAll D g.services request ∧
      (g.record D request).1.result =
        merged ∅ ((callsOfAll D g.services request).map Prod.snd) := by
  rw [record, run, if_pos h]
  obtain ⟨hresult, hcalls⟩ := runAllLoop_logged (D := D) ∅ request.context request.world []
  exact ⟨hcalls, hresult⟩

theorem record_firstAvailable (h : g.sendMode = "first-available") :
    (g.record D request).1.calls =
      series Throws (fun model => model.invoke D request.context) g.services request.world := by
  have hmodes : g.sendMode ≠ "all" ∧ g.sendMode ≠ "round-robin" ∧ g.sendMode ≠ "random" := by
    rw [h]
    decide
  rw [record_calls, run, if_neg hmodes.1, if_neg hmodes.2.1, if_neg hmodes.2.2, if_pos h]
  exact runOneLoop_logged request.context none request.world []

theorem runIndex_logged (index : ℤ) :
    (g.runIndex (logged (GroupServiceModel.invoke D)) request.context index
      (request.world, [])).2.2.map Prod.fst =
      if 0 ≤ index then g.services[index.toNat]?.toList else [] := by
  rw [runIndex]
  split_ifs
  · cases g.services[index.toNat]? with
    | none => rfl
    | some model => rfl
  · rfl

theorem record_random (h : g.sendMode = "random") :
    (g.record D request).1.calls.map Prod.fst = g.services[request.randomIndex]?.toList := by
  have hmodes : g.sendMode ≠ "all" ∧ g.sendMode ≠ "round-robin" := by
    rw [h]
    decide
  rw [record_calls, run, if_neg hmodes.1, if_neg hmodes.2, if_pos h]
  exact (runIndex_logged _).trans (if_pos (Int.natCast_nonneg _))

theorem run_roundRobin (invoke : GroupServiceModel → Fields V → W → Answer V E × W)
    (h : g.sendMode = "round-robin") (context : Fields V) (randomIndex : ℕ) (w : W) :
    (g.run invoke context randomIndex w).1 =
      if g.services.length = 0 then (.error .arithmetic, w)
      else g.runIndex invoke context
        ((int (g.lastServiceRan + 1)).tmod g.services.length) w := by
  have hall : g.sendMode ≠ "all" := by
    rw [h]
    decide
  rw [run, if_neg hall, if_pos h]
  dsimp only
  split_ifs
  · rfl
  · rfl

theorem record_roundRobin (groupName : String) (n : ℕ) :
    ((after groupName "round-robin" services n).record D request).1.calls.map Prod.fst =
      turn services n := by
  have hcounter : int ((after groupName "round-robin" services n).lastServiceRan + 1) = int n := by
    rw [after, if_pos rfl, int_add_int, sub_add_cancel]
  have hservices : (after groupName "round-robin" services n).services = services := rfl
  rw [record_calls, run_roundRobin _ rfl, hcounter, hservices, turn]
  by_cases hnil : services.length = 0
  · rw [if_pos hnil, if_pos hnil]
    exact List.map_nil
  · rw [if_neg hnil, if_neg hnil]
    rw [runIndex_logged, hservices]

theorem record_none (h : g.sendMode ∉ ["all", "round-robin", "random", "first-available"]) :
    (g.record D request).1.calls = [] := by
  simp only [List.mem_cons, List.not_mem_nil, or_false, not_or] at h
  rw [record_calls, run, if_neg h.1, if_neg h.2.1, if_neg h.2.2.1, if_neg h.2.2.2]
  split_ifs
  · rfl
  · rfl

end GroupModel

/-- When the runs of a group are right. -/
structure Meets (D : Dispatcher W V E M) (sendMode : String) (services : List GroupServiceModel)
    (requests : List (Request W V)) : Prop where
  all : sendMode = "all" →
    ∀ request ∈ requests, FailureKept ((callsOfAll D services request).map Prod.snd)
  firstAvailable : sendMode = "first-available" →
    ∀ request ∈ requests, NoneLeftOut D services request
  roundRobin : sendMode = "round-robin" → services.length ≤ 1 ∨ requests.length ≤ 2 ^ 31 ∨
    requests.length = 2 ^ 31 + 1 ∧ services.length ∣ 2 ^ 31

theorem request_right_iff (groupName sendMode : String) (n : ℕ) (request : Request W V) :
    Right sendMode services n request
        ((GroupModel.after groupName sendMode services n).record D request).1 ↔
      (sendMode = "all" → FailureKept ((callsOfAll D services request).map Prod.snd)) ∧
      (sendMode = "first-available" → NoneLeftOut D services request) ∧
      (sendMode = "round-robin" → turn services n = services[n % services.length]?.toList) := by
  have hservices : (GroupModel.after groupName sendMode services n).services = services := rfl
  have hkept : (∃ call ∈ callsOfAll D services request, EndsAll call.2 ∨ Fails call.2) ↔
      ∃ a ∈ (callsOfAll D services request).map Prod.snd, EndsAll a ∨ Fails a := by
    constructor
    · rintro ⟨call, hcall, h⟩
      exact ⟨call.2, List.mem_map_of_mem hcall, h⟩
    · rintro ⟨a, ha, h⟩
      obtain ⟨call, hcall, rfl⟩ := List.mem_map.mp ha
      exact ⟨call, hcall, h⟩
  constructor
  · intro h
    refine ⟨?_, ?_, ?_⟩
    · intro hmode
      obtain ⟨hcalls, hresult⟩ := GroupModel.record_all (D := D) request
        (g := GroupModel.after groupName sendMode services n) hmode
      have hall := (h.all hmode).2
      rwa [hcalls, hresult, hservices, hkept, failureKept_iff] at hall
    · intro hmode
      have hfirst := h.firstAvailable hmode
      rwa [GroupModel.record_firstAvailable hmode, hservices, upToFirst_runOne_iff] at hfirst
    · rintro rfl
      exact (GroupModel.record_roundRobin groupName n).symm.trans (h.roundRobin rfl)
  · rintro ⟨hall, hfirst, hturn⟩
    refine ⟨?_, ?_, ?_, ?_, ?_⟩
    · intro hmode
      obtain ⟨hcalls, hresult⟩ := GroupModel.record_all (D := D) request
        (g := GroupModel.after groupName sendMode services n) hmode
      rw [hcalls, hresult, hservices, hkept, failureKept_iff]
      exact ⟨upToFirst_series, hall hmode⟩
    · rintro rfl
      exact (GroupModel.record_roundRobin groupName n).trans (hturn rfl)
    · intro hmode
      exact GroupModel.record_random hmode
    · intro hmode
      rw [GroupModel.record_firstAvailable hmode, hservices, upToFirst_runOne_iff]
      exact hfirst hmode
    · intro hmode
      exact GroupModel.record_none hmode

theorem new_eq_after (groupName sendMode : String) :
    GroupModel.new groupName sendMode services =
      GroupModel.after groupName sendMode services 0 := by
  rw [GroupModel.after]
  split_ifs
  · rfl
  · rfl

/-- **A history of runs is right exactly if** no answer covers a failure, no member is left out
that is available, and the turns are not too many. -/
theorem runs_right_iff (D : Dispatcher W V E M) (groupName sendMode : String)
    (services : List GroupServiceModel) (requests : List (Request W V)) :
    (∀ n request record, requests[n]? = some request →
      ((GroupModel.new groupName sendMode services).runs D requests)[n]? = some record →
      Right sendMode services n request record) ↔
    Meets D sendMode services requests := by
  have hrecord : ∀ n request, requests[n]? = some request →
      ((GroupModel.new groupName sendMode services).runs D requests)[n]? =
        some ((GroupModel.after groupName sendMode services n).record D request).1 := by
    intro n request hrequest
    rw [new_eq_after, GroupModel.runs_getElem?, hrequest, Nat.zero_add]
    rfl
  constructor
  · intro h
    have hruns := fun n request hrequest => (request_right_iff groupName sendMode n request).mp
      (h n request _ hrequest (hrecord n request hrequest))
    refine ⟨?_, ?_, ?_⟩
    · intro hmode request hmem
      obtain ⟨n, hrequest⟩ := List.mem_iff_getElem?.mp hmem
      exact (hruns n request hrequest).1 hmode
    · intro hmode request hmem
      obtain ⟨n, hrequest⟩ := List.mem_iff_getElem?.mp hmem
      exact (hruns n request hrequest).2.1 hmode
    · intro hmode
      refine forall_turn_iff.mp fun n hn => ?_
      exact (hruns n _ (List.getElem?_eq_getElem hn)).2.2 hmode
  · intro h n request record hrequest hget
    obtain rfl := Option.some.inj ((hrecord n request hrequest).symm.trans hget)
    have hmem := List.mem_of_getElem? hrequest
    have hn : n < requests.length := (List.getElem?_eq_some_iff.mp hrequest).1
    exact (request_right_iff groupName sendMode n request).mpr
      ⟨fun hmode => h.all hmode request hmem,
      fun hmode => h.firstAvailable hmode request hmem,
      fun hmode => forall_turn_iff.mpr (h.roundRobin hmode) n hn⟩

def steady (result : Fields V) : Dispatcher Unit V E Unit where
  getModelService _ _ := .ok ()
  makeValid _ context _ := .ok context
  getParameterNames _ _ _ := []
  runSync _ _ w := (.ok result, w)
  runAsync _ _ _ w := (.ok (), w)

theorem not_right_firstAvailable :
    ¬∀ n request record, ([⟨∅, 0, ()⟩] : List (Request Unit Unit))[n]? = some request →
      ((GroupModel.new "group" "first-available"
        [⟨"first", "sync", false⟩, ⟨"second", "sync", false⟩]).runs
          (steady ∅ : Dispatcher Unit Unit Unit Unit) [⟨∅, 0, ()⟩])[n]? = some record →
      Right "first-available" [⟨"first", "sync", false⟩, ⟨"second", "sync", false⟩] n request
        record := by
  intro h
  have hright := (h 0 _ _ rfl rfl).firstAvailable rfl
  have hcalls : [(⟨"second", "sync", false⟩, (.ok ∅ : Answer Unit Unit))] =
      ([] : List (Call Unit Unit)) := (upToFirst_cons_of_stop trivial).mp hright
  exact List.cons_ne_nil _ _ hcalls

end OfficeAuto.Service.Group
