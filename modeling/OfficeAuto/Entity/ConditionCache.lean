import Mathlib.Data.List.Basic

/-!
# The cache of conditions

The entity engine caches lists of rows by the condition that they were found with, for an entity
and for the views on it. When a row is written, `AbstractEntityConditionCache.storeHook` has to
remove the conditions whose lists may change: those that the old row or the new one matches. For a
view it has the rows that the conversion makes of the two.

The hook is written over any conditions and rows. A comparison that throws ends the update with the
hook, and is left out.

**The hook is sound** (`IsSound`) on an update if no condition stays that one of the rows matches.
The conditions that stay are those that one row alone matches, and the hook is sound where there is
none (`isSound_iff`).
-/

namespace OfficeAuto.Entity.ConditionCache

variable {N κ ρ : Type*}

/-! ### The hook on one entity -/

section Hook

variable (mapMatches : κ → Option ρ → Bool)

/-- `while (newValueIter.hasNext() && !shouldRemove)` without old values. -/
def matchesNew (condition : κ) : List (Option ρ) → Bool
  | [] => false
  | newValue :: newValues =>
    if mapMatches condition newValue then true else matchesNew condition newValues

def matchesNewOrNull (condition : κ) : List (Option ρ) → Bool
  | [] => false
  | newValue :: newValues =>
    if newValue.isNone || mapMatches condition newValue then true
    else matchesNewOrNull condition newValues

def matchesOld (condition : κ) (newValues : Option (List (Option ρ))) :
    Bool → List (Option ρ) → Bool × Bool
  | oldMatched, [] => (oldMatched, false)
  | oldMatched, oldValue :: oldValues =>
    if mapMatches condition oldValue then
      match newValues with
      | none => (true, true)
      | some values =>
        if matchesNewOrNull mapMatches condition values then (true, true)
        else matchesOld condition newValues true oldValues
    else matchesOld condition newValues oldMatched oldValues

/-- `shouldRemove` of a cached condition. Without a condition all rows were cached. -/
def shouldRemove (isPK : Bool) (oldValues newValues : Option (List (Option ρ))) :
    Option κ → Bool
  | none => true
  | some condition =>
    match oldValues with
    | none => matchesNew mapMatches condition (newValues.getD [])
    | some oldValues =>
      let (oldMatched, remove) := matchesOld mapMatches condition newValues false oldValues
      remove || (!oldMatched && isPK)

def storeHookOf (isPK : Bool) (oldValues newValues : Option (List (Option ρ)))
    (cached : List (Option κ)) : List (Option κ) :=
  cached.filter fun condition => !shouldRemove mapMatches isPK oldValues newValues condition

end Hook

/-! ### The hook -/

/-- What the models of the entities say of a row: its entity, the views on an entity, and the rows
that the conversion to a view makes. -/
structure Models (N ρ : Type*) where
  entityName : ρ → N
  viewConvertors : N → List N
  convertToViewValues : N → ρ → List ρ
  not_mem_viewConvertors : ∀ entityName, entityName ∉ viewConvertors entityName

section StoreHook

variable [DecidableEq N] (models : Models N ρ) (mapMatches : κ → Option ρ → Bool)

def getModelCheckValid : Option ρ → Option ρ → Option N
  | oldEntity, some newEntity =>
    let entityName := models.entityName newEntity
    if oldEntity.any fun oldEntity => entityName != models.entityName oldEntity then none
    else some entityName
  | oldEntity, none => oldEntity.map models.entityName

def convert (targetEntityName : N) (entity : Option ρ) : Option (List (Option ρ)) :=
  entity.map fun entity => (models.convertToViewValues targetEntityName entity).map some

def hookOn (isPK : Bool) (target : N) (oldValues newValues : Option (List (Option ρ)))
    (caches : N → List (Option κ)) : N → List (Option κ) :=
  Function.update caches target (storeHookOf mapMatches isPK oldValues newValues (caches target))

def hookOnViews (isPK : Bool) (oldEntity newEntity : Option ρ) (targets : List N)
    (caches : N → List (Option κ)) : N → List (Option κ) :=
  targets.foldl (fun caches target => hookOn mapMatches isPK target
    (convert models target oldEntity) (convert models target newEntity) caches) caches

/-- **`storeHook`** -/
def storeHook (isPK : Bool) (oldEntity newEntity : Option ρ) (caches : N → List (Option κ)) :
    Option (N → List (Option κ)) :=
  (getModelCheckValid models oldEntity newEntity).map fun entityName =>
    hookOnViews models mapMatches isPK oldEntity newEntity (models.viewConvertors entityName)
      (hookOn mapMatches isPK entityName (some [oldEntity]) (some [newEntity]) caches)

end StoreHook

/-! ### Sound updates -/

/-- The values of one side of an update for an entity: the row itself, or its conversions. -/
def valuesOf [DecidableEq N] (models : Models N ρ) (entityName target : N) (entity : Option ρ) :
    Option (List (Option ρ)) :=
  if target = entityName then some [entity] else convert models target entity

def SomeMatch (mapMatches : κ → Option ρ → Bool) (condition : Option κ)
    (values : Option (List (Option ρ))) : Prop :=
  ∃ rows, values = some rows ∧ ∃ row, some row ∈ rows ∧ ∀ c, condition = some c →
    mapMatches c (some row) = true

/-- **No condition stays that one of the rows matches.** -/
def IsSound [DecidableEq N] (models : Models N ρ) (mapMatches : κ → Option ρ → Bool)
    (isPK : Bool) (oldEntity newEntity : Option ρ) (caches : N → List (Option κ)) : Prop :=
  ∀ entityName after, getModelCheckValid models oldEntity newEntity = some entityName →
    storeHook models mapMatches isPK oldEntity newEntity caches = some after →
    ∀ target ∈ entityName :: models.viewConvertors entityName, ∀ condition ∈ caches target,
      SomeMatch mapMatches condition (valuesOf models entityName target oldEntity) ∨
        SomeMatch mapMatches condition (valuesOf models entityName target newEntity) →
      condition ∉ after target

/-- **One side alone matches**: some old value and no new one, all of them being there; or no old
value, in an update that is not by a key. -/
def OneSided (mapMatches : κ → Option ρ → Bool) (isPK : Bool)
    (oldValues newValues : Option (List (Option ρ))) (condition : κ) : Prop :=
  ∃ olds, oldValues = some olds ∧
    (((∃ old ∈ olds, mapMatches condition old = true) ∧
      ∃ news, newValues = some news ∧
        ∀ new ∈ news, new ≠ none ∧ mapMatches condition new = false) ∨
    (isPK = false ∧ ∀ old ∈ olds, mapMatches condition old = false))

/-! ### What is removed -/

section Remove

variable {mapMatches : κ → Option ρ → Bool} {condition : κ} {isPK : Bool}

theorem matchesNew_eq_any (newValues : List (Option ρ)) :
    matchesNew mapMatches condition newValues = newValues.any (mapMatches condition) := by
  induction newValues with
  | nil => rfl
  | cons newValue newValues ih =>
    rw [matchesNew, ih, List.any_cons]
    cases mapMatches condition newValue <;> rfl

theorem matchesNewOrNull_eq_any (newValues : List (Option ρ)) :
    matchesNewOrNull mapMatches condition newValues =
      newValues.any fun new => new.isNone || mapMatches condition new := by
  induction newValues with
  | nil => rfl
  | cons newValue newValues ih =>
    rw [matchesNewOrNull, ih, List.any_cons]
    cases newValue.isNone || mapMatches condition newValue <;> rfl

theorem matchesOld_eq (newValues : Option (List (Option ρ))) (oldMatched : Bool)
    (oldValues : List (Option ρ)) :
    matchesOld mapMatches condition newValues oldMatched oldValues =
      (oldMatched || oldValues.any (mapMatches condition),
        oldValues.any (mapMatches condition) && newValues.all fun news => news.any fun new =>
          new.isNone || mapMatches condition new) := by
  induction oldValues generalizing oldMatched with
  | nil => simp [matchesOld]
  | cons oldValue oldValues ih =>
    by_cases hold : mapMatches condition oldValue = true
    · cases newValues with
      | none =>
        rw [matchesOld, if_pos hold]
        simp [hold]
      | some news =>
        rw [matchesOld, if_pos hold, matchesNewOrNull_eq_any]
        by_cases hnews : (news.any fun new => new.isNone || mapMatches condition new) = true
        · rw [if_pos hnews]
          simp only [hnews, hold, List.any_cons, Bool.true_or, Bool.or_true, Option.all_some,
            Bool.and_self]
        · rw [if_neg hnews, ih]
          simp only [Bool.not_eq_true] at hnews
          simp only [hnews, hold, List.any_cons, Bool.true_or, Bool.or_true, Option.all_some,
            Bool.and_false]
    · have hskip : matchesOld mapMatches condition newValues oldMatched (oldValue :: oldValues) =
          matchesOld mapMatches condition newValues oldMatched oldValues := by
        cases newValues <;> rw [matchesOld, if_neg hold]
      rw [hskip, ih]
      simp [hold]

/-- **A condition stays** if there are no old values and no new one matches it, or if it is
one-sided. -/
theorem shouldRemove_eq_false_iff (oldValues newValues : Option (List (Option ρ))) :
    shouldRemove mapMatches isPK oldValues newValues (some condition) = false ↔
      (oldValues = none ∧ (newValues.getD []).any (mapMatches condition) = false) ∨
        OneSided mapMatches isPK oldValues newValues condition := by
  cases oldValues with
  | none => simp [shouldRemove, matchesNew_eq_any, OneSided]
  | some olds =>
    rw [shouldRemove]
    dsimp only
    rw [matchesOld_eq]
    by_cases hold : olds.any (mapMatches condition) = true
    · have hexists := List.any_eq_true.mp hold
      have hno : ¬ ∀ old ∈ olds, mapMatches condition old = false := by
        obtain ⟨old, hmem, hmatch⟩ := hexists
        exact fun h => Bool.false_ne_true ((h old hmem).symm.trans hmatch)
      cases newValues with
      | none => simp [hold, OneSided, hno]
      | some news => simp [hold, OneSided, hexists, hno]
    · have hnone : ∀ old ∈ olds, mapMatches condition old = false := by simpa using hold
      have hno : ¬ ∃ old ∈ olds, mapMatches condition old = true := by
        rintro ⟨old, hmem, hmatch⟩
        exact Bool.false_ne_true ((hnone old hmem).symm.trans hmatch)
      rw [Bool.not_eq_true] at hold
      simp only [hold, Bool.or_self, Bool.false_and, Bool.not_false, Bool.true_and, Bool.false_or,
        OneSided, Option.some.injEq, exists_eq_left', hno, false_and, false_or]
      simpa using fun _ => hnone

end Remove

/-! ### What stays in the caches -/

section Stays

variable [DecidableEq N] {models : Models N ρ} {mapMatches : κ → Option ρ → Bool} {isPK : Bool}
  {oldEntity newEntity : Option ρ} {caches : N → List (Option κ)} {condition : Option κ}

theorem mem_storeHookOf {oldValues newValues : Option (List (Option ρ))}
    {cached : List (Option κ)} :
    condition ∈ storeHookOf mapMatches isPK oldValues newValues cached ↔
      condition ∈ cached ∧
        shouldRemove mapMatches isPK oldValues newValues condition = false := by
  rw [storeHookOf, List.mem_filter, Bool.not_eq_true']

theorem mem_hookOnViews {targets : List N} {target : N} :
    condition ∈ hookOnViews models mapMatches isPK oldEntity newEntity targets caches target ↔
      condition ∈ caches target ∧ (target ∈ targets → shouldRemove mapMatches isPK
        (convert models target oldEntity) (convert models target newEntity) condition = false) := by
  induction targets generalizing caches with
  | nil => simp [hookOnViews]
  | cons first targets ih =>
    rw [hookOnViews, List.foldl_cons, ← hookOnViews, ih, hookOn]
    by_cases htarget : target = first
    · subst htarget
      rw [Function.update_self, mem_storeHookOf]
      simp only [List.mem_cons, true_or, true_imp_iff]
      tauto
    · rw [Function.update_of_ne htarget]
      simp [htarget]

theorem mem_storeHook {entityName target : N} {after : N → List (Option κ)}
    (hcheck : getModelCheckValid models oldEntity newEntity = some entityName)
    (hafter : storeHook models mapMatches isPK oldEntity newEntity caches = some after)
    (htarget : target ∈ entityName :: models.viewConvertors entityName) :
    condition ∈ after target ↔ condition ∈ caches target ∧
      shouldRemove mapMatches isPK (valuesOf models entityName target oldEntity)
        (valuesOf models entityName target newEntity) condition = false := by
  rw [storeHook, hcheck, Option.map_some, Option.some.injEq] at hafter
  rw [← hafter, mem_hookOnViews, hookOn]
  by_cases hentity : target = entityName
  · subst hentity
    have hview := models.not_mem_viewConvertors target
    simp [valuesOf, hview, mem_storeHookOf]
  · have hview : target ∈ models.viewConvertors entityName :=
      (List.mem_cons.mp htarget).resolve_left hentity
    simp [valuesOf, hentity, hview]

/-- **The hook is sound** on an update exactly if no condition that one of the rows matches is
one-sided. -/
theorem isSound_iff (models : Models N ρ) (mapMatches : κ → Option ρ → Bool) (isPK : Bool)
    (oldEntity newEntity : Option ρ) (caches : N → List (Option κ)) :
    IsSound models mapMatches isPK oldEntity newEntity caches ↔
      ∀ entityName, getModelCheckValid models oldEntity newEntity = some entityName →
        ∀ target ∈ entityName :: models.viewConvertors entityName,
          ∀ condition, some condition ∈ caches target →
            SomeMatch mapMatches (some condition) (valuesOf models entityName target oldEntity) ∨
              SomeMatch mapMatches (some condition)
                (valuesOf models entityName target newEntity) →
            ¬ OneSided mapMatches isPK (valuesOf models entityName target oldEntity)
              (valuesOf models entityName target newEntity) condition := by
  constructor
  · intro h entityName hcheck target htarget condition hcached hmatch hone
    obtain ⟨after, hafter⟩ : ∃ after, storeHook models mapMatches isPK oldEntity newEntity caches =
        some after := by simp [storeHook, hcheck]
    refine h entityName after hcheck hafter target htarget _ hcached hmatch ?_
    exact (mem_storeHook hcheck hafter htarget).mpr
      ⟨hcached, (shouldRemove_eq_false_iff _ _).mpr (.inr hone)⟩
  · intro h entityName after hcheck hafter target htarget condition hcached hmatch hstays
    obtain ⟨-, hremove⟩ := (mem_storeHook hcheck hafter htarget).mp hstays
    cases condition with
    | none => exact Bool.false_ne_true hremove.symm
    | some condition =>
      obtain ⟨hold, hnone⟩ | hone := (shouldRemove_eq_false_iff _ _).mp hremove
      · -- without old values, a new one that matches removes
        obtain ⟨rows, hrows, -⟩ | ⟨rows, hrows, row, hmem, hrow⟩ := hmatch
        · exact absurd (hold.symm.trans hrows) (Option.some_ne_none rows).symm
        · rw [hrows, Option.getD_some, List.any_eq_false] at hnone
          exact hnone _ hmem (hrow condition rfl)
      · exact h entityName hcheck target htarget condition hcached hmatch hone

end Stays

/-! ### A row that comes to match -/

section Example

def numbers : Models Unit ℕ where
  entityName _ := ()
  viewConvertors _ := []
  convertToViewValues _ _ := []
  not_mem_viewConvertors _ := List.not_mem_nil

theorem not_isSound_changed :
    ¬ IsSound numbers (fun n row => row == some n) false (some 0) (some 1) fun _ => [some 1] := by
  intro h
  refine h () (fun _ => [some 1]) rfl ?_ () List.mem_cons_self (some 1) List.mem_cons_self ?_
    List.mem_cons_self
  · exact congrArg some (funext fun _ => rfl)
  · exact .inr ⟨_, rfl, 1, List.mem_cons_self, fun c hc => Option.some.inj hc ▸ rfl⟩

end Example

end OfficeAuto.Entity.ConditionCache
