import Mathlib.Data.List.Induction
import Mathlib.Data.List.Nodup

/-!
# Parameters of services

`ModelService.validate` takes from the parameters of a service, in their order, which names it
requires and which it allows in a mode, each with a type. Where no name is listed twice, a name has
the type of its parameter, and is required or allowed as that says (`infoOf_eq`).
-/

namespace OfficeAuto.Service.Model

def IN_PARAM : String := "IN"
def OUT_PARAM : String := "OUT"
def IN_OUT_PARAM : String := "INOUT"

/-- An absent text is empty. -/
structure ModelParam where
  name : String := ""
  type : String := ""
  mode : String := ""
  formLabel : String := ""
  entityName : String := ""
  fieldName : String := ""
  stringMapPrefix : String := ""
  stringListSuffix : String := ""
  defaultValue : String := ""
  optional : Bool := false
  overrideOptional : Bool := false
  formDisplay : Bool := true
  overrideFormDisplay : Bool := false
  allowHtml : String := ""
  internal : Bool := false
  deriving DecidableEq

def ModelParam.isFor (param : ModelParam) (mode : String) : Bool :=
  IN_OUT_PARAM = param.mode ∨ mode = param.mode

/-- The names and types of the parameters that are wanted; a later one takes the place of an earlier
one. -/
def infoOf (wanted : ModelParam → Bool) (contextParamList : List ModelParam) :
    String → Option String :=
  contextParamList.foldl (fun info modelParam =>
    if wanted modelParam then Function.update info modelParam.name (some modelParam.type)
    else info) fun _ => none

def requiredInfo (mode : String) : List ModelParam → String → Option String :=
  infoOf fun modelParam => modelParam.isFor mode && !modelParam.optional

def optionalInfo (mode : String) : List ModelParam → String → Option String :=
  infoOf fun modelParam => modelParam.isFor mode && modelParam.optional

variable {wanted : ModelParam → Bool} {params : List ModelParam}

theorem infoOf_append (params : List ModelParam) (param : ModelParam) (name : String) :
    infoOf wanted (params ++ [param]) name =
      if wanted param = true ∧ name = param.name then some param.type
      else infoOf wanted params name := by
  rw [infoOf, List.foldl_append, List.foldl_cons, List.foldl_nil, ← infoOf, ite_and]
  split_ifs with hwanted hname
  · rw [hname, Function.update_self]
  · rw [Function.update_of_ne hname]
  · rfl

theorem exists_of_infoOf {name type : String} (h : infoOf wanted params name = some type) :
    ∃ param ∈ params, wanted param = true ∧ param.name = name ∧ param.type = type := by
  induction params using List.reverseRecOn with
  | nil => cases h
  | append_singleton params param ih =>
    rw [infoOf_append] at h
    split_ifs at h with hlast
    · exact ⟨param, List.mem_append_right _ List.mem_cons_self, hlast.1, hlast.2.symm,
        Option.some.inj h⟩
    · obtain ⟨param', hmem, hparam'⟩ := ih h
      exact ⟨param', List.mem_append_left _ hmem, hparam'⟩

theorem infoOf_ne_none {param : ModelParam} (hmem : param ∈ params) (h : wanted param = true) :
    infoOf wanted params param.name ≠ none := by
  induction params using List.reverseRecOn with
  | nil => exact absurd hmem List.not_mem_nil
  | append_singleton params param' ih =>
    rw [infoOf_append]
    split_ifs with hlast
    · exact Option.some_ne_none _
    · rcases List.mem_append.mp hmem with hmem | hmem
      · exact ih hmem
      · obtain rfl := List.mem_singleton.mp hmem
        exact absurd ⟨h, rfl⟩ hlast

theorem infoOf_eq_find? (hnodup : (params.map ModelParam.name).Nodup) (name : String) :
    infoOf wanted params name =
      ((params.find? fun param => param.name = name).filter wanted).map ModelParam.type := by
  induction params using List.reverseRecOn with
  | nil => rfl
  | append_singleton params param ih =>
    rw [List.map_append, List.nodup_append] at hnodup
    obtain ⟨hnodup, -, hdisjoint⟩ := hnodup
    rw [infoOf_append, List.find?_append, ih hnodup]
    by_cases hname : name = param.name
    · have hnone : (params.find? fun param => param.name = name) = none := by
        rw [List.find?_eq_none]
        intro param' hmem hname'
        have hsame : param'.name = param.name := (of_decide_eq_true hname').trans hname
        exact hdisjoint _ (List.mem_map_of_mem hmem) _ (List.mem_singleton_self _) hsame
      rw [hnone, Option.none_or, List.find?_singleton, if_pos (decide_eq_true hname.symm),
        Option.filter_some]
      by_cases hwanted : wanted param = true
      · rw [if_pos ⟨hwanted, hname⟩, if_pos hwanted]
        rfl
      · rw [if_neg fun h => hwanted h.1, if_neg hwanted]
        rfl
    · have hother : ¬decide (param.name = name) = true := by simpa using Ne.symm hname
      rw [List.find?_singleton, if_neg hother, Option.or_none, if_neg fun h => hname h.2]

/-- **What is wanted of a name** is what its only parameter says. -/
theorem infoOf_eq (hnodup : (params.map ModelParam.name).Nodup) {name : String}
    {decided : Option ModelParam}
    (h : ∀ param, param ∈ params ∧ param.name = name ↔ decided = some param) :
    infoOf wanted params name = (decided.filter wanted).map ModelParam.type := by
  have hfind : (params.find? fun param => param.name = name) = decided := by
    cases hfound : params.find? fun param => param.name = name with
    | none =>
      refine (Option.eq_none_iff_forall_ne_some.mpr fun param hdecided => ?_).symm
      obtain ⟨hmem, hname⟩ := (h param).mpr hdecided
      exact List.find?_eq_none.mp hfound param hmem (decide_eq_true hname)
    | some param =>
      have hname := List.find?_some hfound
      rw [decide_eq_true_eq] at hname
      exact ((h param).mp ⟨List.mem_of_find?_eq_some hfound, hname⟩).symm
  rw [infoOf_eq_find? hnodup, hfind]

end OfficeAuto.Service.Model
