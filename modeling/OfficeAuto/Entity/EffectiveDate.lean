import OfficeAuto.Entity.Agreement

/-!
# Effective dates

A value that has a from date and a thru date is active from the one until before the other, and
a date that is null is no bound. `EntityUtil` asks this of a value (`isValueActive`) and of the
values of a list (`filterByDate`), and `EntityDateFilterCondition` writes it as a condition
(`makeCondition`), which is evaluated in memory here. `makeRangeCondition` is the condition for
dates that lie in a range.

The three agree (`effectiveDates_agree`). The range condition is the disjunction of the criteria
that its documentation lists. An interval that begins before the range and ends at its end or
after it meets none of them, and one that ends where the range begins meets one.
-/

namespace OfficeAuto

/-! ### Timestamps -/

namespace Timestamp

def compareTo (t u : Timestamp) : Ordering :=
  (compare t.getTime u.getTime).then (compare t.nanosBelow u.nanosBelow)

def before (t u : Timestamp) : Bool := (t.compareTo u).isLT

def after (t u : Timestamp) : Bool := (t.compareTo u).isGT

def nanos (t : Timestamp) : ℤ := t.getTime * 1000000 + t.nanosBelow

theorem compareTo_cases (t u : Timestamp) :
    (t.compareTo u = .lt ∧ t.nanos < u.nanos) ∨ (t.compareTo u = .eq ∧ t.nanos = u.nanos) ∨
      (t.compareTo u = .gt ∧ u.nanos < t.nanos) := by
  have ht := t.nanos_lt
  have hu := u.nanos_lt
  rw [compareTo, nanos, nanos]
  obtain htime | htime | htime := lt_trichotomy t.getTime u.getTime
  · rw [compare_lt_iff_lt.mpr htime]
    exact Or.inl ⟨rfl, by omega⟩
  · rw [compare_eq_iff_eq.mpr htime]
    obtain hnanos | hnanos | hnanos := lt_trichotomy t.nanosBelow u.nanosBelow
    · rw [compare_lt_iff_lt.mpr hnanos]
      exact Or.inl ⟨rfl, by omega⟩
    · rw [compare_eq_iff_eq.mpr hnanos]
      exact Or.inr (Or.inl ⟨rfl, by omega⟩)
    · rw [compare_gt_iff_gt.mpr hnanos]
      exact Or.inr (Or.inr ⟨rfl, by omega⟩)
  · rw [compare_gt_iff_gt.mpr htime]
    exact Or.inr (Or.inr ⟨rfl, by omega⟩)

theorem before_iff {t u : Timestamp} : t.before u = true ↔ t.nanos < u.nanos := by
  rw [before]
  obtain ⟨h, hn⟩ | ⟨h, hn⟩ | ⟨h, hn⟩ := compareTo_cases t u
  · exact iff_of_true (by rw [h]; rfl) hn
  · exact iff_of_false (by rw [h]; decide) (by omega)
  · exact iff_of_false (by rw [h]; decide) (by omega)

theorem after_iff {t u : Timestamp} : t.after u = true ↔ u.nanos < t.nanos := by
  rw [after]
  obtain ⟨h, hn⟩ | ⟨h, hn⟩ | ⟨h, hn⟩ := compareTo_cases t u
  · exact iff_of_false (by rw [h]; decide) (by omega)
  · exact iff_of_false (by rw [h]; decide) (by omega)
  · exact iff_of_true (by rw [h]; rfl) hn

theorem nanos_inj {t u : Timestamp} : t.nanos = u.nanos ↔ t = u := by
  refine ⟨fun h => ?_, fun h => by rw [h]⟩
  obtain ⟨time, nanosBelow, hlong, ht⟩ := t
  obtain ⟨time', nanosBelow', hlong', hu⟩ := u
  rw [nanos, nanos] at h
  dsimp only at h
  obtain rfl : time = time' := by omega
  obtain rfl : nanosBelow = nanosBelow' := by omega
  rfl

end Timestamp

namespace Entity.EffectiveDate

/-! ### Values -/

/-- A value: the name of its entity, the fields that the entity has, and what they hold. -/
structure DatedValue where
  entityName : List Char
  isField : FieldName → Bool
  fields : Row

inductive DateException
  | illegalArgument (message : List Char)
  | classCast
  deriving DecidableEq

/-- A cast to `java.sql.Timestamp`. -/
def toTimestamp : Option Value → Except DateException (Option Timestamp)
  | none => .ok none
  | some (.timestamp t) => .ok (some t)
  | some _ => .error .classCast

/-- `GenericEntity.get` -/
def DatedValue.get (value : DatedValue) (name : FieldName) :
    Except DateException (Option Value) :=
  if value.isField name then .ok (value.fields name)
  else .error (.illegalArgument ("The field name (or key) [".toList ++ name ++
    "] is not valid for entity [".toList ++ value.entityName ++ "].".toList))

def DatedValue.getTimestamp (value : DatedValue) (name : FieldName) :
    Except DateException (Option Timestamp) :=
  (value.get name).bind toTimestamp

def DatedValue.dangerousTimestamp (value : DatedValue) (name : FieldName) :
    Except DateException (Option Timestamp) :=
  toTimestamp (value.fields name)

/-! ### The filter and the predicate -/

def isActive (moment : Timestamp) (fromDate thruDate : Option Timestamp) : Bool :=
  (thruDate.all fun thruDate => thruDate.after moment) &&
    fromDate.all fun fromDate => fromDate.before moment || fromDate = moment

def testDates (read : DatedValue → FieldName → Except DateException (Option Timestamp))
    (moment : Timestamp) (fromDateName thruDateName : FieldName) (datedValue : DatedValue) :
    Except DateException Bool := do
  let fromDate ← read datedValue fromDateName
  let thruDate ← read datedValue thruDateName
  pure (isActive moment fromDate thruDate)

def isValueActive (datedValue : DatedValue) (moment : Timestamp)
    (fromDateName thruDateName : FieldName) : Except DateException Bool :=
  testDates DatedValue.getTimestamp moment fromDateName thruDateName datedValue

def collect (test : DatedValue → Except DateException Bool) :
    List DatedValue → Except DateException (List DatedValue)
  | [] => .ok []
  | datedValue :: datedValues => do
    let active ← test datedValue
    let result ← collect test datedValues
    pure (if active then datedValue :: result else result)

def notAField (name : FieldName) (datedValue : DatedValue) : DateException :=
  .illegalArgument ("\"".toList ++ name ++ "\" is not a field of ".toList ++
    datedValue.entityName)

def filterAt (moment : Timestamp) (fromDateName thruDateName : FieldName) (allAreSame : Bool)
    (datedValues : List DatedValue) : Except DateException (List DatedValue) :=
  if allAreSame then
    match datedValues with
    | [] => .ok []
    | first :: _ =>
      -- the fields are those of the first value
      if first.isField fromDateName = false then .error (notAField fromDateName first)
      else if first.isField thruDateName = false then .error (notAField thruDateName first)
      else collect (testDates DatedValue.dangerousTimestamp moment fromDateName thruDateName)
        datedValues
  else collect (testDates DatedValue.getTimestamp moment fromDateName thruDateName) datedValues

def filterByDate (datedValues : Option (List DatedValue)) (moment : Option Timestamp)
    (fromDateName thruDateName : Option FieldName) (allAreSame : Bool) :
    Except DateException (Option (List DatedValue)) :=
  match datedValues, moment with
  | none, _ => .ok none
  | some datedValues, none => .ok (some datedValues)
  | some datedValues, some moment =>
    (filterAt moment (fromDateName.getD "fromDate".toList) (thruDateName.getD "thruDate".toList)
      allAreSame datedValues).map some

/-! ### The conditions -/

theorem valid_value {v : Value} {operator : ComparableOperator}
    (h : (Operand.value v).isNull = true) : operator = .equals ∨ operator = .notEqual :=
  absurd h Bool.false_ne_true

theorem valid_null {rhs : Operand} (_ : rhs.isNull = true) :
    ComparableOperator.equals = .equals ∨ ComparableOperator.equals = .notEqual :=
  Or.inl rfl

def compareField (name : FieldName) (operator : ComparableOperator) (t : Timestamp) :
    EntityCondition :=
  .comparable ⟨name, operator, .value (.timestamp t), valid_value⟩

def isNull (name : FieldName) : EntityCondition := .comparable ⟨name, .equals, .null, valid_null⟩

/-- `EntityDateFilterCondition.makeCondition` -/
def makeCondition (moment : Timestamp) (fromDateName thruDateName : FieldName) :
    EntityCondition :=
  .joined
    (.joined (isNull thruDateName) .or (compareField thruDateName .greaterThan moment))
    .and
    (.joined (isNull fromDateName) .or (compareField fromDateName .lessThanEqualTo moment))

/-- `EntityDateFilterCondition.makeRangeCondition` -/
def makeRangeCondition (rangeStart rangeEnd : Timestamp) (fromDateName thruDateName : FieldName) :
    EntityCondition :=
  .list [
    -- fromDate is equal to or after rangeStart but before rangeEnd
    .joined (compareField fromDateName .greaterThanEqualTo rangeStart) .and
      (compareField fromDateName .lessThan rangeEnd),
    -- thruDate is equal to or after rangeStart but before rangeEnd
    .joined (compareField thruDateName .greaterThanEqualTo rangeStart) .and
      (compareField thruDateName .lessThan rangeEnd),
    -- fromDate is null and thruDate is equal to or after rangeStart
    .joined (isNull fromDateName) .and
      (compareField thruDateName .greaterThanEqualTo rangeStart),
    -- thruDate is null and fromDate is before rangeEnd
    .joined (isNull thruDateName) .and (compareField fromDateName .lessThan rangeEnd),
    -- fromDate is null and thruDate is null
    .joined (isNull thruDateName) .and (isNull fromDateName)] .or

/-! ### Agreement -/

/-- The value has both fields, and they hold the dates. -/
structure HasDates (datedValue : DatedValue) (fromDateName thruDateName : FieldName)
    (fromDate thruDate : Option Timestamp) : Prop where
  fromField : datedValue.isField fromDateName = true
  thruField : datedValue.isField thruDateName = true
  fromDate : datedValue.fields fromDateName = fromDate.map .timestamp
  thruDate : datedValue.fields thruDateName = thruDate.map .timestamp

section Agreement

variable {perl : Perl5} {datedValue : DatedValue} {fromDateName thruDateName : FieldName}
  {fromDate thruDate : Option Timestamp} {moment : Timestamp}

theorem toTimestamp_map (t : Option Timestamp) : toTimestamp (t.map .timestamp) = .ok t := by
  obtain _ | t := t <;> rfl

theorem testDates_getTimestamp
    (h : HasDates datedValue fromDateName thruDateName fromDate thruDate) :
    testDates DatedValue.getTimestamp moment fromDateName thruDateName datedValue =
      .ok (isActive moment fromDate thruDate) := by
  rw [testDates, DatedValue.getTimestamp, DatedValue.getTimestamp, DatedValue.get,
    if_pos h.fromField, DatedValue.get, if_pos h.thruField, h.fromDate, h.thruDate, Except.bind,
    Except.bind, toTimestamp_map, toTimestamp_map]
  rfl

theorem testDates_dangerousTimestamp
    (h : HasDates datedValue fromDateName thruDateName fromDate thruDate) :
    testDates DatedValue.dangerousTimestamp moment fromDateName thruDateName datedValue =
      .ok (isActive moment fromDate thruDate) := by
  rw [testDates, DatedValue.dangerousTimestamp, DatedValue.dangerousTimestamp, h.fromDate,
    h.thruDate, toTimestamp_map, toTimestamp_map]
  rfl

theorem collect_eq {test : DatedValue → Except DateException Bool} {active : DatedValue → Bool}
    {datedValues : List DatedValue} (h : ∀ v ∈ datedValues, test v = .ok (active v)) :
    collect test datedValues = .ok (datedValues.filter active) := by
  induction datedValues with
  | nil => rfl
  | cons datedValue datedValues ih =>
    rw [collect, h _ List.mem_cons_self, ih fun v hv => h v (List.mem_cons_of_mem _ hv),
      List.filter_cons]
    rfl

/-! ### The conditions on a value -/

theorem mapMatches_joined {row : Row} {l r : EntityCondition} {op : EntityJoinOperator}
    {a b : Bool} (hl : l.mapMatches perl row = .ok a) (hr : r.mapMatches perl row = .ok b) :
    (EntityCondition.joined l op r).mapMatches perl row =
      .ok (match op with | .and => a && b | .or => a || b) := by
  rw [EntityCondition.mapMatches, hl, hr]
  cases op <;> cases a <;> cases b <;> rfl

theorem mapMatches_isNull {row : Row} {name : FieldName} {date : Option Timestamp}
    (h : row name = date.map .timestamp) :
    (isNull name).mapMatches perl row = .ok date.isNone := by
  rw [isNull, EntityCondition.mapMatches, h]
  obtain _ | date := date <;> rfl

theorem mapMatches_compareField {row : Row} {name : FieldName} {date : Option Timestamp}
    {t : Timestamp} (h : row name = date.map .timestamp) :
    (compareField name .greaterThan t).mapMatches perl row =
        .ok (date.any fun date => date.after t) ∧
      (compareField name .lessThan t).mapMatches perl row =
        .ok (date.any fun date => date.before t) ∧
      (compareField name .lessThanEqualTo t).mapMatches perl row =
        .ok (date.any fun date => !date.after t) ∧
      (compareField name .greaterThanEqualTo t).mapMatches perl row =
        .ok (date.any fun date => !date.before t) := by
  simp only [compareField, EntityCondition.mapMatches, h]
  obtain _ | date := date
  · exact ⟨rfl, rfl, rfl, rfl⟩
  · have hle (o : Ordering) : o.isLE = !o.isGT := by cases o <;> rfl
    have hge (o : Ordering) : o.isGE = !o.isLT := by cases o <;> rfl
    exact ⟨rfl, rfl, congrArg Except.ok (hle _), congrArg Except.ok (hge _)⟩

theorem mapMatchesList_or {row : Row} {cs : List EntityCondition} {bs : List Bool}
    (h : List.Forall₂ (fun c b => c.mapMatches perl row = .ok b) cs bs) :
    EntityCondition.mapMatchesList perl row .or cs = .ok (bs.any id) := by
  induction h with
  | nil => rfl
  | @cons c b cs bs hc hcs ih =>
    rw [EntityCondition.mapMatchesList, hc, List.any_cons]
    cases b with
    | true => rfl
    | false => exact ih

theorem mapMatches_makeCondition
    (h : HasDates datedValue fromDateName thruDateName fromDate thruDate) :
    (makeCondition moment fromDateName thruDateName).mapMatches perl datedValue.fields =
      .ok (isActive moment fromDate thruDate) := by
  have hafter := (@mapMatches_compareField perl _ _ _ moment h.thruDate).1
  have hle := (@mapMatches_compareField perl _ _ _ moment h.fromDate).2.2.1
  rw [makeCondition, mapMatches_joined (mapMatches_joined (mapMatches_isNull h.thruDate) hafter)
    (mapMatches_joined (mapMatches_isNull h.fromDate) hle)]
  have hnotAfter (t : Timestamp) :
      (!t.after moment) = (t.before moment || decide (t = moment)) := by
    rw [Bool.eq_iff_iff, Bool.not_eq_true', ← Bool.not_eq_true, Timestamp.after_iff,
      Bool.or_eq_true, Timestamp.before_iff, decide_eq_true_iff, ← Timestamp.nanos_inj]
    omega
  simp only [hnotAfter]
  obtain _ | f := fromDate <;> obtain _ | t := thruDate <;> rfl

/-! ### Ranges -/

def MeetsCriteria (rangeStart rangeEnd : Timestamp) (fromDate thruDate : Option Timestamp) : Prop :=
  (∃ f, fromDate = some f ∧ rangeStart.nanos ≤ f.nanos ∧ f.nanos < rangeEnd.nanos) ∨
  (∃ t, thruDate = some t ∧ rangeStart.nanos ≤ t.nanos ∧ t.nanos < rangeEnd.nanos) ∨
  (fromDate = none ∧ ∃ t, thruDate = some t ∧ rangeStart.nanos ≤ t.nanos) ∨
  (thruDate = none ∧ ∃ f, fromDate = some f ∧ f.nanos < rangeEnd.nanos) ∨
  (fromDate = none ∧ thruDate = none)

def MeetsRange (rangeStart rangeEnd : Timestamp) (fromDate thruDate : Option Timestamp) : Prop :=
  ∃ moment, isActive moment fromDate thruDate = true ∧
    rangeStart.nanos ≤ moment.nanos ∧ moment.nanos < rangeEnd.nanos

def CoversRange (rangeStart rangeEnd : Timestamp) (fromDate thruDate : Option Timestamp) : Prop :=
  ∃ f t, fromDate = some f ∧ thruDate = some t ∧ f.nanos < rangeStart.nanos ∧
    rangeEnd.nanos ≤ t.nanos

theorem mapMatches_makeRangeCondition {rangeStart rangeEnd : Timestamp}
    (h : HasDates datedValue fromDateName thruDateName fromDate thruDate) :
    (makeRangeCondition rangeStart rangeEnd fromDateName thruDateName).mapMatches perl
        datedValue.fields = .ok true ↔
      MeetsCriteria rangeStart rangeEnd fromDate thruDate := by
  have hfromNull := @mapMatches_isNull perl _ _ _ h.fromDate
  have hthruNull := @mapMatches_isNull perl _ _ _ h.thruDate
  obtain ⟨-, hfromLt, -, -⟩ := @mapMatches_compareField perl _ _ _ rangeEnd h.fromDate
  obtain ⟨-, -, -, hfromGe⟩ := @mapMatches_compareField perl _ _ _ rangeStart h.fromDate
  obtain ⟨-, hthruLt, -, -⟩ := @mapMatches_compareField perl _ _ _ rangeEnd h.thruDate
  obtain ⟨-, -, -, hthruGe⟩ := @mapMatches_compareField perl _ _ _ rangeStart h.thruDate
  rw [makeRangeCondition, EntityCondition.mapMatches, mapMatchesList_or
    (.cons (mapMatches_joined hfromGe hfromLt) (.cons (mapMatches_joined hthruGe hthruLt)
      (.cons (mapMatches_joined hfromNull hthruGe) (.cons (mapMatches_joined hthruNull hfromLt)
        (.cons (mapMatches_joined hthruNull hfromNull) .nil)))))]
  have hnotBefore (t : Timestamp) : (!t.before rangeStart) = true ↔
      rangeStart.nanos ≤ t.nanos := by
    rw [Bool.not_eq_true', ← Bool.not_eq_true, Timestamp.before_iff, Int.not_lt]
  rw [Except.ok.injEq, MeetsCriteria]
  obtain _ | f := fromDate <;> obtain _ | t := thruDate <;>
    simp [hnotBefore, Timestamp.before_iff]

theorem isActive_iff : isActive moment fromDate thruDate = true ↔
    (∀ t, thruDate = some t → moment.nanos < t.nanos) ∧
      ∀ f, fromDate = some f → f.nanos ≤ moment.nanos := by
  have hfrom (f : Timestamp) : (f.before moment || decide (f = moment)) = true ↔
      f.nanos ≤ moment.nanos := by
    rw [Bool.or_eq_true, Timestamp.before_iff, decide_eq_true_iff, ← Timestamp.nanos_inj]
    omega
  obtain _ | f := fromDate <;> obtain _ | t := thruDate <;>
    simp [isActive, Timestamp.after_iff, hfrom]

theorem meetsRange_iff {rangeStart rangeEnd : Timestamp}
    (hdates : ∀ f t, fromDate = some f → thruDate = some t → f.nanos < t.nanos)
    (hrange : rangeStart.nanos < rangeEnd.nanos) :
    MeetsRange rangeStart rangeEnd fromDate thruDate ↔
      (∀ t, thruDate = some t → rangeStart.nanos < t.nanos) ∧
        ∀ f, fromDate = some f → f.nanos < rangeEnd.nanos := by
  constructor
  · rintro ⟨moment, hactive, hlow, hhigh⟩
    obtain ⟨hthru, hfrom⟩ := isActive_iff.mp hactive
    exact ⟨fun t ht => lt_of_le_of_lt hlow (hthru t ht),
      fun f hf => lt_of_le_of_lt (hfrom f hf) hhigh⟩
  · rintro ⟨hthru, hfrom⟩
    -- The later one of the two beginnings is in both.
    by_cases hlater : ∃ f, fromDate = some f ∧ rangeStart.nanos ≤ f.nanos
    · obtain ⟨f, hf, hle⟩ := hlater
      refine ⟨f, isActive_iff.mpr ⟨fun t ht => hdates f t hf ht, fun f' hf' => ?_⟩, hle,
        hfrom f hf⟩
      rw [Option.some.inj (hf'.symm.trans hf)]
    · refine ⟨rangeStart, isActive_iff.mpr ⟨hthru, fun f hf => ?_⟩, le_rfl, hrange⟩
      exact Int.le_of_lt (Int.not_le.mp fun hle => hlater ⟨f, hf, hle⟩)

theorem meetsCriteria_iff {rangeStart rangeEnd : Timestamp}
    (hdates : ∀ f t, fromDate = some f → thruDate = some t → f.nanos < t.nanos)
    (hrange : rangeStart.nanos < rangeEnd.nanos) :
    MeetsCriteria rangeStart rangeEnd fromDate thruDate ↔
      (MeetsRange rangeStart rangeEnd fromDate thruDate ∧
        ¬CoversRange rangeStart rangeEnd fromDate thruDate) ∨ thruDate = some rangeStart := by
  rw [meetsRange_iff hdates hrange, MeetsCriteria, CoversRange]
  have hsame (t : Timestamp) : t = rangeStart ↔ t.nanos = rangeStart.nanos :=
    Timestamp.nanos_inj.symm
  obtain _ | f := fromDate <;> obtain _ | t := thruDate
  · simp
  · simp [hsame]
    omega
  · simp
  · have hlt := hdates f t rfl rfl
    simp [hsame]
    omega

theorem filterAt_eq {datedValues : List DatedValue} {allAreSame : Bool}
    {fromDate thruDate : DatedValue → Option Timestamp}
    (h : ∀ v ∈ datedValues, HasDates v fromDateName thruDateName (fromDate v) (thruDate v)) :
    filterAt moment fromDateName thruDateName allAreSame datedValues =
      .ok (datedValues.filter fun v => isActive moment (fromDate v) (thruDate v)) := by
  cases allAreSame with
  | false =>
    exact (if_neg Bool.false_ne_true).trans (collect_eq fun v hv => testDates_getTimestamp (h v hv))
  | true =>
    refine (if_pos rfl).trans ?_
    cases datedValues with
    | nil => rfl
    | cons first rest =>
      have hfirst := h first List.mem_cons_self
      have hne : ¬true = false := Bool.false_ne_true.symm
      dsimp only
      rw [hfirst.fromField, hfirst.thruField, if_neg hne, if_neg hne,
        collect_eq fun v hv => testDates_dangerousTimestamp (h v hv)]

/-- **The three tests agree** on values that have the dates. The range condition matches a value
exactly if one of its criteria is met, which is an activity in the range but for the values that
cover it and those that end as it begins. -/
theorem effectiveDates_agree (perl : Perl5) {datedValues : List DatedValue} (allAreSame : Bool)
    (h : ∀ v ∈ datedValues, ∃ fromDate thruDate,
      HasDates v fromDateName thruDateName fromDate thruDate) :
    (∀ moment, ∃ active : DatedValue → Bool,
      (∀ v ∈ datedValues,
        isValueActive v moment fromDateName thruDateName = .ok (active v) ∧
        (makeCondition moment fromDateName thruDateName).mapMatches perl v.fields =
          .ok (active v)) ∧
      filterByDate (some datedValues) (some moment) (some fromDateName) (some thruDateName)
        allAreSame = .ok (some (datedValues.filter active))) ∧
    ∀ v ∈ datedValues, ∀ fromDate thruDate,
      HasDates v fromDateName thruDateName fromDate thruDate → ∀ rangeStart rangeEnd,
        ((makeRangeCondition rangeStart rangeEnd fromDateName thruDateName).mapMatches perl
            v.fields = .ok true ↔ MeetsCriteria rangeStart rangeEnd fromDate thruDate) ∧
        ((∀ f t, fromDate = some f → thruDate = some t → f.nanos < t.nanos) →
          rangeStart.nanos < rangeEnd.nanos →
          (MeetsCriteria rangeStart rangeEnd fromDate thruDate ↔
            (MeetsRange rangeStart rangeEnd fromDate thruDate ∧
              ¬CoversRange rangeStart rangeEnd fromDate thruDate) ∨
            thruDate = some rangeStart)) := by
  refine ⟨fun moment => ?_, fun v hv fromDate thruDate hdates rangeStart rangeEnd =>
    ⟨mapMatches_makeRangeCondition hdates, meetsCriteria_iff⟩⟩
  choose! fromDate thruDate hdates using h
  refine ⟨fun v => isActive moment (fromDate v) (thruDate v), fun v hv =>
    ⟨testDates_getTimestamp (hdates v hv), mapMatches_makeCondition (hdates v hv)⟩, ?_⟩
  rw [filterByDate, Option.getD_some, Option.getD_some, filterAt_eq hdates]
  rfl

end Agreement

/-! ### A value that covers the range -/

theorem isLong_of_digit : Decimal.IsLong 0 ∧ Decimal.IsLong 3 ∧ Decimal.IsLong 5 ∧
    Decimal.IsLong 9 := by decide

def zero : Timestamp := .ofMillis 0 isLong_of_digit.1

def three : Timestamp := .ofMillis 3 isLong_of_digit.2.1

def five : Timestamp := .ofMillis 5 isLong_of_digit.2.2.1

def nine : Timestamp := .ofMillis 9 isLong_of_digit.2.2.2

def covering : DatedValue where
  entityName := "PartyRole".toList
  isField name := name == ['f'] || name == ['t']
  fields name := if name = ['f'] then some (.timestamp zero) else some (.timestamp nine)

theorem hasDates_covering : HasDates covering ['f'] ['t'] (some zero) (some nine) :=
  ⟨rfl, rfl, rfl, rfl⟩

theorem effectiveDates_agree_covering :
    ¬(makeRangeCondition three five ['f'] ['t']).mapMatches plainPerl5 covering.fields =
      .ok true := fun hmatches => by
  have hdates : ∀ v ∈ [covering], ∃ fromDate thruDate,
      HasDates v ['f'] ['t'] fromDate thruDate := fun v hv => by
    rw [List.mem_singleton.mp hv]
    exact ⟨_, _, hasDates_covering⟩
  obtain ⟨hcriteria, hordered⟩ := (effectiveDates_agree plainPerl5 true hdates).2 covering
    List.mem_cons_self _ _ hasDates_covering three five
  have hlt : ∀ f t, some zero = some f → some nine = some t → f.nanos < t.nanos := by
    intro f t hf ht
    rw [← Option.some.inj hf, ← Option.some.inj ht]
    decide
  obtain ⟨-, hcovers⟩ | hend := (hordered hlt (by decide)).mp (hcriteria.mp hmatches)
  · exact hcovers ⟨zero, nine, rfl, rfl, by decide, by decide⟩
  · exact absurd hend (by decide)

theorem not_matches_covering : ¬∀ (v : DatedValue) (fromDate thruDate : Option Timestamp)
    (rangeStart rangeEnd : Timestamp), HasDates v ['f'] ['t'] fromDate thruDate →
    ((makeRangeCondition rangeStart rangeEnd ['f'] ['t']).mapMatches plainPerl5 v.fields =
        .ok true ↔
      MeetsRange rangeStart rangeEnd fromDate thruDate) := fun h => by
  have hmeets : MeetsRange three five (some zero) (some nine) :=
    ⟨three, by decide, by decide, by decide⟩
  have hnot : (makeRangeCondition three five ['f'] ['t']).mapMatches plainPerl5 covering.fields =
      .ok false := rfl
  have hmatches := (h covering _ _ three five hasDates_covering).mpr hmeets
  rw [hnot] at hmatches
  exact Bool.false_ne_true (Except.ok.inj hmatches)

end Entity.EffectiveDate

end OfficeAuto
