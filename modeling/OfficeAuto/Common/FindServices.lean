import OfficeAuto.Logic.EntryList
import OfficeAuto.Logic.MarkedPass
import OfficeAuto.Logic.Result
import Mathlib.Data.List.ReduceOption

/-!
# The conditions of a search form

`createConditionList` makes the conditions of a query from the parameters of a search form. The name
of a parameter is that of a field, to which `_fld0` or `_fld1` may be added for the two ends of a
range, and then `_value`, `_op` or `_ic` for the value, the operator and whether the case of letters
is ignored. The parameters whose names agree up to this last suffix are a group, with one condition.

The loop goes over the parameters in the order in which the map returns them, and leaves out those
that it has marked. With a group it marks, besides the parameters of the group, the one that is
named as the field. For the end of a range this is a parameter of another group, whose condition is
lost if it has no other parameter and is not met before.
`createConditionList_forall_perm_iff` says exactly which maps have the same conditions in every
order.
-/

namespace OfficeAuto.Common.FindServices

abbrev Name := List Char

/-! ### Names -/

def endsWith (name suffix : Name) : Bool := suffix.isSuffixOf name

def groupName (parameterName : Name) : Name :=
  if endsWith parameterName "_ic".toList || endsWith parameterName "_op".toList then
    parameterName.take (parameterName.length - 3)
  else if endsWith parameterName "_value".toList then
    parameterName.take (parameterName.length - 6)
  else parameterName

def isRange (group : Name) : Bool :=
  endsWith group "_fld0".toList || endsWith group "_fld1".toList

def fieldName (group : Name) : Name :=
  if isRange group then group.take (group.length - 5) else group

/-! ### The parameters -/

/-- The parameters in the order in which the map returns them; a value may be `null`. -/
abbrev Parameters (V : Type) := EntryList Name (Option V)

section Model

variable {F V C : Type}

def containsKey (parameters : Parameters V) (key : Name) : Bool := (parameters.get key).isSome

/-- `parameters.get(key)`, which is `null` also where there is no such key. -/
def valueOf (parameters : Parameters V) (key : Name) : Option V := (parameters.get key).join

def names (parameters : Parameters V) : List Name := parameters.entries.map Prod.fst

/-- `queryStringMap.put(mapKey, parameters.get(mapKey))` for all the keys -/
def putAll (parameters : Parameters V) (queryStringMap : Name → Option (Option V))
    (keys : List Name) : Name → Option (Option V) :=
  keys.foldl (fun m mapKey => Function.update m mapKey (some (valueOf parameters mapKey)))
    queryStringMap

def keys (parameters : Parameters V) (group : Name) : List Name :=
  -- for the end of a range the last one is a parameter of another group
  ([group ++ "_ic".toList, group ++ "_op".toList, group ++ "_value".toList] ++
    (if isRange group then [group] else []) ++ [fieldName group]).filter (containsKey parameters)

/-- What the loop uses of the values, the fields and the conditions, which it does not make
itself: `asString` is the cast to a string, and `createSingleCondition` throws where a value does
not convert to the type of the field. -/
structure Setting (F V C : Type) where
  getName : F → Name
  asString : V → Option Name
  isEmpty : V → Bool
  createSingleCondition : F → Option Name → Option V → Bool → Except String C

variable (S : Setting F V C) (fieldList : List F) (parameters : Parameters V)

namespace Setting

/-- `fieldMap.get(fieldName)`: the last field of this name. -/
def modelField (fieldName : Name) : Option F :=
  fieldList.findRev? fun modelField => S.getName modelField = fieldName

def ignoreCase (group : Name) : Bool :=
  (valueOf parameters (group ++ "_ic".toList)).bind S.asString = some "Y".toList

def operation (group : Name) : Except String (Option Name) :=
  match valueOf parameters (group ++ "_op".toList) with
  | none => .ok none
  | some value =>
    match S.asString value with
    | none => .error "java.lang.ClassCastException"
    | some operation => .ok (some operation)

def fieldValue (group : Name) : Option V :=
  valueOf parameters (group ++ "_value".toList) <|> valueOf parameters (fieldName group)

def groupCondition (group : Name) : Except String (Option C) := do
  let operation ← S.operation parameters group
  match S.modelField fieldList (fieldName group) with
  | none => return none
  | some modelField =>
    if (fieldValue parameters group).all S.isEmpty ∧ operation ≠ some "empty".toList then
      return none
    else
      let condition ← S.createSingleCondition modelField operation (fieldValue parameters group)
        (S.ignoreCase parameters group)
      return some condition

/-- The variables that the loop changes. -/
structure Pass (V C : Type) where
  processed : List Name
  result : List C
  queryStringMap : Name → Option (Option V)

def visit (s : Pass V C) (group : Name) : Except String (Pass V C) := do
  let condition ← S.groupCondition fieldList parameters group
  return {
    -- marked also if the group has no condition
    processed := s.processed ++ keys parameters group
    result := s.result ++ condition.toList
    queryStringMap :=
      if condition.isSome then putAll parameters s.queryStringMap (keys parameters group)
      else s.queryStringMap }

/-- **`createConditionList`**, with the map of the query string as it is in the end. -/
def createConditionList (queryStringMap : Name → Option (Option V)) :
    Except String (List C × (Name → Option (Option V))) := do
  let s ← (names parameters).foldlM
    (fun s parameterName =>
      if s.processed.contains parameterName then .ok s
      else S.visit fieldList parameters s (groupName parameterName))
    ⟨[], [], queryStringMap⟩
  return (s.result, s.queryStringMap)

end Setting

/-! ### What is marked -/

def pass : MarkedPass Name Name where
  groupOf := groupName
  extra := fieldName

section Names

variable {name group suffix suffix' : Name}

theorem endsWith_append : endsWith (group ++ suffix) suffix = true :=
  List.isSuffixOf_iff_suffix.mpr (List.suffix_append group suffix)

theorem eq_append_of_endsWith (h : endsWith name suffix = true) :
    name = name.take (name.length - suffix.length) ++ suffix := by
  obtain ⟨group, rfl⟩ := List.isSuffixOf_iff_suffix.mp h
  rw [List.length_append, Nat.add_sub_cancel, List.take_left]

theorem not_endsWith (h : endsWith name suffix = true)
    (hne : endsWith suffix suffix' = false ∧ endsWith suffix' suffix = false) :
    endsWith name suffix' = false := by
  refine Bool.eq_false_iff.mpr fun h' => ?_
  rw [endsWith, List.isSuffixOf_iff_suffix] at h h'
  rcases Nat.le_total suffix'.length suffix.length with hle | hle
  · exact Bool.eq_false_iff.mp hne.1
      (List.isSuffixOf_iff_suffix.mpr (List.suffix_of_suffix_length_le h' h hle))
  · exact Bool.eq_false_iff.mp hne.2
      (List.isSuffixOf_iff_suffix.mpr (List.suffix_of_suffix_length_le h h' hle))

theorem groupName_append_ic : groupName (group ++ "_ic".toList) = group := by
  rw [groupName, endsWith_append, Bool.true_or, if_pos rfl, List.length_append]
  exact List.take_left' rfl

theorem groupName_append_op : groupName (group ++ "_op".toList) = group := by
  rw [groupName, endsWith_append, Bool.or_true, if_pos rfl, List.length_append]
  exact List.take_left' rfl

theorem groupName_append_value : groupName (group ++ "_value".toList) = group := by
  have hends : endsWith (group ++ "_value".toList) "_value".toList = true := endsWith_append
  rw [groupName, not_endsWith hends (by decide), not_endsWith hends (by decide), hends,
    Bool.or_false, if_neg Bool.false_ne_true, if_pos rfl, List.length_append]
  exact List.take_left' rfl

theorem groupName_of_isRange (h : isRange group = true) : groupName group = group := by
  rw [groupName]
  rcases Bool.or_eq_true_iff.mp h with h | h
  · rw [not_endsWith h (by decide), not_endsWith h (by decide), not_endsWith h (by decide)]
    rfl
  · rw [not_endsWith h (by decide), not_endsWith h (by decide), not_endsWith h (by decide)]
    rfl

theorem groupName_eq_cases (h : groupName name = group) :
    name = group ++ "_ic".toList ∨ name = group ++ "_op".toList ∨ name = group ++ "_value".toList ∨
      name = group := by
  rw [groupName] at h
  split_ifs at h with hends hvalue
  · rcases Bool.or_eq_true_iff.mp hends with hends | hends
    · exact .inl (h ▸ eq_append_of_endsWith hends)
    · exact .inr (.inl (h ▸ eq_append_of_endsWith hends))
  · exact .inr (.inr (.inl (h ▸ eq_append_of_endsWith hvalue)))
  · exact .inr (.inr (.inr h))

end Names

variable {parameters}

theorem containsKey_iff {key : Name} :
    containsKey parameters key = true ↔ key ∈ names parameters := by
  rw [containsKey, EntryList.get, Option.isSome_iff_exists]
  constructor
  · rintro ⟨value, hvalue⟩
    exact List.mem_map_of_mem (EntryList.mem_of_lookup hvalue)
  · intro h
    obtain ⟨e, he, rfl⟩ := List.mem_map.mp h
    exact ⟨e.2, EntryList.lookup_of_mem parameters.nodup he⟩

/-- **The marked parameters** are those of the group and the one named as the field. -/
theorem mem_keys {group key : Name} :
    key ∈ keys parameters group ↔ key ∈ names parameters ∧ pass.Marks group key := by
  rw [keys, List.mem_filter, containsKey_iff, and_comm]
  refine and_congr_right fun _ => ?_
  rw [List.mem_append, List.mem_append, List.mem_singleton]
  constructor
  · -- the names that the source collects, one by one
    rintro ((h | h) | h)
    · left
      rcases List.mem_cons.mp h with rfl | h
      · exact groupName_append_ic
      rcases List.mem_cons.mp h with rfl | h
      · exact groupName_append_op
      · rw [List.mem_singleton] at h
        exact h ▸ groupName_append_value
    · split_ifs at h with hrange
      · rw [List.mem_singleton] at h
        subst h
        exact .inl (groupName_of_isRange hrange)
      · exact absurd h List.not_mem_nil
    · exact .inr h
  · rintro (h | h)
    · rcases groupName_eq_cases h with rfl | rfl | rfl | rfl
      · exact .inl (.inl List.mem_cons_self)
      · exact .inl (.inl (List.mem_cons_of_mem _ List.mem_cons_self))
      · exact .inl (.inl (List.mem_cons_of_mem _ (List.mem_cons_of_mem _ List.mem_cons_self)))
      · by_cases hrange : isRange key = true
        · rw [if_pos hrange]
          exact .inl (.inr List.mem_cons_self)
        · exact .inr (if_neg hrange).symm
    · exact .inr h

/-! ### What the groups contribute -/

namespace Setting

variable {S fieldList}

theorem groupCondition_of_perm {parameters' : Parameters V}
    (h : parameters'.entries.Perm parameters.entries) :
    S.groupCondition fieldList parameters' = S.groupCondition fieldList parameters := by
  have hvalue : valueOf parameters' = valueOf parameters := by
    funext key
    rw [valueOf, valueOf, EntryList.get_of_perm h]
  funext group
  have hoperation : S.operation parameters' group = S.operation parameters group := by
    rw [operation, operation, hvalue]
  have hfield : fieldValue parameters' group = fieldValue parameters group := by
    rw [fieldValue, fieldValue, hvalue]
  have hcase : S.ignoreCase parameters' group = S.ignoreCase parameters group := by
    rw [ignoreCase, ignoreCase, hvalue]
  rw [groupCondition, groupCondition, hoperation, hfield, hcase]

theorem foldlM_visit (groups : List Name) (s : Pass V C) :
    (groups.foldlM (S.visit fieldList parameters) s).map Pass.result =
      (groups.mapM (S.groupCondition fieldList parameters)).map (s.result ++ ·.reduceOption) := by
  induction groups generalizing s with
  | nil =>
    rw [List.foldlM_nil, List.mapM_nil]
    exact congrArg Except.ok (List.append_nil s.result).symm
  | cons group groups ih =>
    rw [List.foldlM_cons, List.mapM_cons, visit]
    cases hcondition : S.groupCondition fieldList parameters group with
    | error e => rfl
    | ok condition =>
      refine (ih _).trans ?_
      cases List.mapM (S.groupCondition fieldList parameters) groups with
      | error e => rfl
      | ok conditions =>
        show Except.ok (s.result ++ condition.toList ++ conditions.reduceOption) =
          Except.ok (s.result ++ (condition :: conditions).reduceOption)
        rw [List.append_assoc]
        cases condition with
        | none => rw [List.reduceOption_cons_of_none, Option.toList_none, List.nil_append]
        | some c => rw [List.reduceOption_cons_of_some, Option.toList_some, List.singleton_append]

/-- **The conditions that the loop makes** are those of the groups that it treats. -/
theorem createConditionList_eq (queryStringMap : Name → Option (Option V)) :
    (S.createConditionList fieldList parameters queryStringMap).map Prod.fst =
      ((pass.visited [] (names parameters)).mapM (S.groupCondition fieldList parameters)).map
        List.reduceOption := by
  -- what a visit adds to `processed` is what the group marks, among the parameters
  have htreat : ∀ s g s', S.visit fieldList parameters s g = .ok s' →
      ∀ a ∈ names parameters, s'.processed.contains a = true ↔
        s.processed.contains a = true ∨ pass.Marks g a := by
    intro s g s' h a ha
    obtain ⟨condition, -, h⟩ := Except.bind_eq_ok.mp h
    rw [← Except.pure_eq_ok.mp h, List.contains_iff_mem, List.contains_iff_mem, List.mem_append,
      mem_keys, and_iff_right ha]
  have hloop : (names parameters).foldlM
      (fun s parameterName =>
        if s.processed.contains parameterName then .ok s
        else S.visit fieldList parameters s (pass.groupOf parameterName))
      ⟨[], [], queryStringMap⟩ =
      (pass.visited [] (names parameters)).foldlM (S.visit fieldList parameters)
        ⟨[], [], queryStringMap⟩ :=
    MarkedPass.foldlM_eq_foldlM_visited htreat (List.Subset.refl _) fun a _ =>
      iff_of_false Bool.false_ne_true fun ⟨g, hg, _⟩ => List.not_mem_nil hg
  -- the parameter map that is returned beside the conditions is left out
  have hresult : (S.createConditionList fieldList parameters queryStringMap).map Prod.fst =
      ((pass.visited [] (names parameters)).foldlM (S.visit fieldList parameters)
        ⟨[], [], queryStringMap⟩).map Pass.result := by
    rw [← hloop, createConditionList]
    exact Except.map_bind_pure _ _ _
  rw [hresult, foldlM_visit]
  rfl

end Setting

/-! ### Every group's condition once -/

def groups (parameters : Parameters V) : List Name := pass.groups (names parameters)

/-- The group has a parameter that is not named as the field of another group. -/
def HasOwn (parameters : Parameters V) (group : Name) : Prop :=
  ∃ q ∈ names parameters, groupName q = group ∧
    ∀ p ∈ names parameters, groupName p ≠ group → q ≠ fieldName (groupName p)

namespace Setting

/-- The conditions are those of all groups of the parameters, in some order. -/
def EachOnce (parameters : Parameters V) (conditions : List C) : Prop :=
  ∃ cs, (groups parameters).mapM (S.groupCondition fieldList parameters) = .ok cs ∧
    conditions.Perm cs.reduceOption

def operationText (parameters : Parameters V) (group : Name) : Option Name :=
  (valueOf parameters (group ++ "_op".toList)).bind S.asString

def HasValue (parameters : Parameters V) (group : Name) : Prop :=
  (fieldValue parameters group).all S.isEmpty = true →
    S.operationText parameters group = some "empty".toList

instance (parameters : Parameters V) (group : Name) : Decidable (S.HasValue parameters group) :=
  inferInstanceAs (Decidable (_ → _))

/-- The field is one of the list, and there is something to compare it with. -/
def HasCondition (parameters : Parameters V) (group : Name) : Prop :=
  (S.modelField fieldList (fieldName group)).isSome ∧ S.HasValue parameters group

/-- Nothing throws: an operator is a string, and a condition can be made. -/
structure IsReadable (parameters : Parameters V) (group : Name) : Prop where
  isString : ∀ value, valueOf parameters (group ++ "_op".toList) = some value →
    (S.asString value).isSome
  isCreated : S.HasValue parameters group →
    ∀ modelField, S.modelField fieldList (fieldName group) = some modelField →
      ∃ condition, S.createSingleCondition modelField (S.operationText parameters group)
        (fieldValue parameters group) (S.ignoreCase parameters group) = .ok condition

variable {S fieldList}

theorem operation_eq_ok {group : Name} {operation : Option Name} :
    S.operation parameters group = .ok operation ↔
      (∀ value, valueOf parameters (group ++ "_op".toList) = some value →
        (S.asString value).isSome) ∧ S.operationText parameters group = operation := by
  rw [Setting.operation, operationText]
  cases valueOf parameters (group ++ "_op".toList) with
  | none => simp
  | some value =>
    cases hstring : S.asString value with
    | none => simp [hstring]
    | some text => simp [hstring]

theorem groupCondition_of_isString {group : Name}
    (h : ∀ value, valueOf parameters (group ++ "_op".toList) = some value →
      (S.asString value).isSome) :
    S.groupCondition fieldList parameters group =
      match S.modelField fieldList (fieldName group) with
      | none => .ok none
      | some modelField =>
        if S.HasValue parameters group then
          (S.createSingleCondition modelField (S.operationText parameters group)
            (fieldValue parameters group) (S.ignoreCase parameters group)).map some
        else .ok none := by
  rw [groupCondition, operation_eq_ok.mpr ⟨h, rfl⟩]
  cases S.modelField fieldList (fieldName group) with
  | none => rfl
  | some modelField =>
    refine (ite_congr (propext ?_) (fun _ => rfl) fun _ => rfl).trans (ite_not _ _ _)
    rw [HasValue, Classical.not_imp]

/-- **The condition of a group is made** exactly if nothing throws. -/
theorem groupCondition_isOk_iff {group : Name} :
    (∃ condition, S.groupCondition fieldList parameters group = .ok condition) ↔
      S.IsReadable fieldList parameters group := by
  constructor
  · rintro ⟨condition, h⟩
    obtain ⟨operation, hoperation, -⟩ := Except.bind_eq_ok.mp h
    have hstring := (operation_eq_ok.mp hoperation).1
    refine ⟨hstring, fun hvalue modelField hfield => ?_⟩
    rw [groupCondition_of_isString hstring, hfield] at h
    dsimp only at h
    rw [if_pos hvalue] at h
    obtain ⟨c, hc, -⟩ := Except.map_eq_ok.mp h
    exact ⟨c, hc⟩
  · intro h
    rw [groupCondition_of_isString h.isString]
    cases hfield : S.modelField fieldList (fieldName group) with
    | none => exact ⟨none, rfl⟩
    | some modelField =>
      by_cases hvalue : S.HasValue parameters group
      · obtain ⟨c, hc⟩ := h.isCreated hvalue modelField hfield
        exact ⟨some c, (if_pos hvalue).trans (Except.map_eq_ok.mpr ⟨c, hc, rfl⟩)⟩
      · exact ⟨none, if_neg hvalue⟩

theorem isSome_of_groupCondition {group : Name} {condition : Option C}
    (h : S.groupCondition fieldList parameters group = .ok condition) :
    condition.isSome ↔ S.HasCondition fieldList parameters group := by
  have hreadable := groupCondition_isOk_iff.mp ⟨condition, h⟩
  rw [groupCondition_of_isString hreadable.isString] at h
  rw [HasCondition]
  cases hfield : S.modelField fieldList (fieldName group) with
  | none =>
    rw [hfield] at h
    cases h
    simp
  | some modelField =>
    rw [hfield] at h
    dsimp only at h
    split_ifs at h with hvalue
    · obtain ⟨c, -, rfl⟩ := Except.map_eq_ok.mp h
      simp [hvalue]
    · cases h
      simp [hvalue]

def contribution (S : Setting F V C) (fieldList : List F) (parameters : Parameters V)
    (group : Name) : Option C :=
  (S.groupCondition fieldList parameters group).toOption.join

theorem mapM_groupCondition {gs : List Name}
    (h : ∀ group ∈ gs, S.IsReadable fieldList parameters group) :
    (gs.mapM (S.groupCondition fieldList parameters)).map List.reduceOption =
      .ok (gs.filterMap (S.contribution fieldList parameters)) := by
  have hok : ∀ group ∈ gs, S.groupCondition fieldList parameters group =
      .ok (S.contribution fieldList parameters group) := by
    intro group hgroup
    obtain ⟨condition, hcondition⟩ := groupCondition_isOk_iff.mpr (h group hgroup)
    rw [contribution, hcondition]
    rfl
  rw [Except.mapM_eq_ok_map hok]
  exact congrArg Except.ok List.filterMap_map

theorem exists_eachOnce_iff (hreadable : ∀ group ∈ groups parameters,
      S.IsReadable fieldList parameters group) {parameters' : Parameters V}
    (hperm : parameters'.entries.Perm parameters.entries)
    (queryStringMap : Name → Option (Option V)) :
    (∃ conditions newMap,
      S.createConditionList fieldList parameters' queryStringMap = .ok (conditions, newMap) ∧
        S.EachOnce fieldList parameters conditions) ↔
      ((pass.visited [] (names parameters')).filterMap
        (S.contribution fieldList parameters)).Perm
          ((groups parameters).filterMap (S.contribution fieldList parameters)) := by
  have hvisited : ∀ group ∈ pass.visited [] (names parameters'), group ∈ groups parameters :=
    List.Subset.trans MarkedPass.visited_subset_groups
      (MarkedPass.groups_subset_of_perm (hperm.map Prod.fst))
  have hlist : (S.createConditionList fieldList parameters' queryStringMap).map Prod.fst =
      .ok ((pass.visited [] (names parameters')).filterMap
        (S.contribution fieldList parameters)) := by
    rw [createConditionList_eq, groupCondition_of_perm hperm]
    exact mapM_groupCondition fun group hgroup => hreadable group (hvisited group hgroup)
  obtain ⟨r, hr, hfst⟩ := Except.map_eq_ok.mp hlist
  obtain ⟨cs, hcs, hreduce⟩ := Except.map_eq_ok.mp (mapM_groupCondition hreadable)
  constructor
  · rintro ⟨conditions, newMap, hresult, cs', hcs', hconditions⟩
    rw [hr] at hresult
    cases hresult
    rw [hcs] at hcs'
    cases hcs'
    rw [← hreduce, ← hfst]
    exact hconditions
  · intro h
    refine ⟨r.1, r.2, hr, cs, hcs, ?_⟩
    rw [hreduce, hfst]
    exact h

/-- **The conditions are the same in every order of the parameters**, one for each group that has
one, exactly if nothing throws and each of these groups has a parameter that is not named as the
field of another group. -/
theorem createConditionList_forall_perm_iff (S : Setting F V C) (fieldList : List F)
    (parameters : Parameters V) :
    (∀ parameters' : Parameters V, parameters'.entries.Perm parameters.entries →
      ∀ queryStringMap, ∃ conditions newMap,
        S.createConditionList fieldList parameters' queryStringMap = .ok (conditions, newMap) ∧
          S.EachOnce fieldList parameters conditions) ↔
      (∀ group ∈ groups parameters, S.IsReadable fieldList parameters group) ∧
        ∀ group ∈ groups parameters, S.HasCondition fieldList parameters group →
          HasOwn parameters group := by
  have hsome : ∀ group ∈ groups parameters, S.IsReadable fieldList parameters group →
      ((S.contribution fieldList parameters group).isSome ↔
        S.HasCondition fieldList parameters group) := by
    intro group _ hreadable
    obtain ⟨condition, hcondition⟩ := groupCondition_isOk_iff.mpr hreadable
    rw [contribution, hcondition]
    exact isSome_of_groupCondition hcondition
  constructor
  · intro h
    -- one order is enough to see that no group throws
    have hreadable : ∀ group ∈ groups parameters, S.IsReadable fieldList parameters group := by
      intro group hgroup
      obtain ⟨-, -, -, cs, hcs, -⟩ := h parameters (List.Perm.refl _) fun _ => none
      exact groupCondition_isOk_iff.mp (Except.exists_of_mapM_eq_ok hcs hgroup)
    refine ⟨hreadable, fun group hgroup hcondition => ?_⟩
    refine MarkedPass.forall_perm_filterMap_iff (S.contribution fieldList parameters) |>.mp ?_ group
      hgroup ((hsome group hgroup (hreadable group hgroup)).mpr hcondition)
    -- every order of the names is the one of some map with these entries
    intro items' hitems
    obtain ⟨parameters', hperm, rfl⟩ := EntryList.exists_perm hitems
    exact (exists_eachOnce_iff hreadable hperm fun _ => none).mp (h parameters' hperm _)
  · rintro ⟨hreadable, hown⟩ parameters' hperm queryStringMap
    refine (exists_eachOnce_iff hreadable hperm queryStringMap).mpr ?_
    refine MarkedPass.forall_perm_filterMap_iff (S.contribution fieldList parameters) |>.mpr
      (fun group hgroup hcontribution => ?_) _ (hperm.map Prod.fst)
    exact hown group hgroup ((hsome group hgroup (hreadable group hgroup)).mp hcontribution)

end Setting

end Model

/-! ### A date and the beginning of a range -/

section BirthDate

abbrev Call := Name × Option Name × Option Name × Bool

def calls : Setting Name Name Call where
  getName := id
  asString := some
  isEmpty := List.isEmpty
  createSingleCondition modelField operation fieldValue ignoreCase :=
    .ok (modelField, operation, fieldValue, ignoreCase)

theorem nodup_rangeFirst : ["birthDate_fld0_value".toList, "birthDate".toList].Nodup := by decide

theorem nodup_dateFirst : ["birthDate".toList, "birthDate_fld0_value".toList].Nodup := by decide

def rangeFirst : Parameters Name where
  entries := [("birthDate_fld0_value".toList, some "1990-01-01".toList),
    ("birthDate".toList, some "1990-05-05".toList)]
  nodup := nodup_rangeFirst

def dateFirst : Parameters Name where
  entries := [("birthDate".toList, some "1990-05-05".toList),
    ("birthDate_fld0_value".toList, some "1990-01-01".toList)]
  nodup := nodup_dateFirst

theorem createConditionList_birthDate :
    dateFirst.entries.Perm rangeFirst.entries ∧
      ((calls.createConditionList ["birthDate".toList] dateFirst fun _ => none).map Prod.fst =
        .ok [("birthDate".toList, none, some "1990-05-05".toList, false),
          ("birthDate".toList, none, some "1990-01-01".toList, false)]) ∧
      ((calls.createConditionList ["birthDate".toList] rangeFirst fun _ => none).map Prod.fst =
        .ok [("birthDate".toList, none, some "1990-01-01".toList, false)]) ∧
      ¬∀ parameters' : Parameters Name, parameters'.entries.Perm rangeFirst.entries →
        ∀ queryStringMap, ∃ conditions newMap,
          calls.createConditionList ["birthDate".toList] parameters' queryStringMap =
              .ok (conditions, newMap) ∧
            calls.EachOnce ["birthDate".toList] rangeFirst conditions := by
  have hresult : (calls.createConditionList ["birthDate".toList] rangeFirst fun _ => none).map
      Prod.fst = .ok [("birthDate".toList, none, some "1990-01-01".toList, false)] := by rfl
  refine ⟨List.Perm.swap _ _ _, by rfl, hresult, fun hall => ?_⟩
  obtain ⟨conditions, newMap, h, cs, hcs, hperm⟩ :=
    hall rangeFirst (List.Perm.refl _) fun _ => none
  have hgroups : (groups rangeFirst).mapM (calls.groupCondition ["birthDate".toList] rangeFirst) =
      .ok [some ("birthDate".toList, none, some "1990-01-01".toList, false),
        some ("birthDate".toList, none, some "1990-05-05".toList, false)] := by rfl
  rw [hgroups] at hcs
  cases hcs
  rw [h] at hresult
  cases hresult
  exact absurd hperm.length_eq (by decide)

end BirthDate

end OfficeAuto.Common.FindServices
