import OfficeAuto.Service.RecurrenceRule

/-!
# Temporal expressions

The classes of `TemporalExpressions`: ranges of dates, days, hours, minutes and months, a day in
a month, a frequency, and the set operations over them. `includesDate` says whether a date is
one of an expression, `first` seeks one from a date on, and `next` one after it. A context goes
through the calls of `next` with which members of an intersection tell those behind them that
the hour or the day has changed already.

The calendar class is not part of the repository. A calendar is its time in milliseconds, and a
`SettableCalendar` is what `get`, `add` and `set` make of it, with the time zone and the rules
of the calendar as they are. The loops of the source are not bounded, and some do not end; each
of them is evaluated on a budget, and a larger budget keeps what a smaller one has come to
(`includesDate_le`, `first_le`, `next_le`).

The members of an intersection or a union are a list here, in the order of their `TreeSet`.
-/

namespace OfficeAuto.Service

/-! ### The calendar -/

/-- A calendar whose fields can be set: the time after `set(field, value)`. -/
structure SettableCalendar extends Calendar where
  set : CalendarField → ℤ → ℤ → ℤ

/-! ### Loops of the source -/

section Loops

variable (n : ℕ)

def seek (test : ℤ → Outcome Bool) (step : ℤ → ℤ) (cal : ℤ) : Outcome ℤ :=
  Outcome.loop (fun t => (test t).bind fun b => .done (if b then .inr t else .inl (step t))) n cal

def meetsBefore (stop test : ℤ → Outcome Bool) (step : ℤ → ℤ) (cal : ℤ) : Outcome Bool :=
  Outcome.loop (fun t => (stop t).bind fun b =>
    if b then .done (.inr false)
    else (test t).bind fun c => .done (if c then .inr true else .inl (step t))) n cal

end Loops

/-! ### Ranges of dates -/

/-- `org.apache.ofbiz.base.util.DateRange`; its constructor puts the dates in order. -/
structure DateRange where
  start : ℤ
  stop : ℤ
  start_le_stop : start ≤ stop

def DateRange.includesDate (range : DateRange) (date : ℤ) : Bool :=
  if range.start = range.stop then date == range.start
  else decide (range.start ≤ date) && decide (date ≤ range.stop)

/-! ### A day in the month -/

/-- `DayInMonth`: for example the second Monday, or with `-1` the last Friday. -/
structure DayInMonth where
  dayOfWeek : ℤ
  occurrence : ℤ
  isDay : 1 ≤ dayOfWeek ∧ dayOfWeek ≤ 7
  isOccurrence : -5 ≤ occurrence ∧ occurrence ≠ 0 ∧ occurrence ≤ 5

namespace DayInMonth

variable (K : SettableCalendar) (n : ℕ) (e : DayInMonth)

/-- `cal.get(Calendar.DAY_OF_WEEK) == this.dayOfWeek` -/
def isDayOfWeek (cal : ℤ) : Bool := K.get .dayOfWeek cal == e.dayOfWeek

def alignDayOfWeek (cal : ℤ) : Outcome ℤ :=
  let firstOfMonth := K.set .dayOfMonth 1 cal
  if 0 < e.occurrence then
    (seek n (fun t => .done (e.isDayOfWeek K t)) (K.add .dayOfMonth 1) firstOfMonth).bind
      fun day => .done (K.add .dayOfMonth ((e.occurrence - 1) * 7) day)
  else
    -- a negative occurrence is counted from the last day of the month
    let lastOfMonth := K.add .dayOfMonth (-1) (K.add .month 1 firstOfMonth)
    (seek n (fun t => .done (e.isDayOfWeek K t)) (K.add .dayOfMonth (-1)) lastOfMonth).bind
      fun day => .done (K.add .dayOfMonth ((e.occurrence + 1) * 7) day)

def alignNextMonth (month cal : ℤ) : Outcome ℤ :=
  let firstOfMonth := K.set .dayOfMonth 1 cal
  e.alignDayOfWeek K n
    (if K.get .month firstOfMonth = month then K.add .month 1 firstOfMonth else firstOfMonth)

def includesDate (cal : ℤ) : Outcome Bool :=
  if e.isDayOfWeek K cal then
    (e.alignDayOfWeek K n cal).bind fun next =>
      .done (K.get .dayOfMonth cal == K.get .dayOfMonth next &&
        K.get .month next == K.get .month cal)
  else .done false

def first (cal : ℤ) : Outcome ℤ :=
  (e.alignDayOfWeek K n cal).bind fun first =>
    -- the day of this month is over, and the next month has one of its own
    if first < cal then e.alignNextMonth K n (K.get .month cal) first else .done first

def next (cal : ℤ) : Outcome ℤ :=
  (e.alignDayOfWeek K n cal).bind fun next =>
    if next ≤ cal then e.alignNextMonth K n (K.get .month cal) next else .done next

end DayInMonth

/-! ### Ranges of field values -/

/-- A range of the values of a field. It may begin with a greater value than it ends with. -/
structure FieldRange (low high : ℤ) where
  start : ℤ
  stop : ℤ
  isStart : low ≤ start ∧ start ≤ high
  isStop : low ≤ stop ∧ stop ≤ high

/-- `includesDate` of an hour, minute, day of week or month range: the field is walked from the
start of the range to its end. `toStart` goes to the start. -/
def FieldRange.includesDate {low high : ℤ} (K : SettableCalendar) (n : ℕ) (field : CalendarField)
    (toStart : ℤ → Outcome ℤ) (step : ℤ → ℤ) (r : FieldRange low high) (cal : ℤ) : Outcome Bool :=
  let value := K.get field cal
  -- the ends are in the range, also where it wraps around the end of the week, day or year
  if value = r.start ∨ value = r.stop then .done true
  else (toStart cal).bind
    (meetsBefore n (fun t => .done (K.get field t == r.stop))
      (fun t => .done (K.get field t == value)) step)

/-- Flags that a call of `next` leaves for the calls after it. -/
structure ExpressionContext where
  hourBumped : Bool
  dayBumped : Bool
  monthBumped : Bool
  deriving DecidableEq

def ExpressionContext.new : ExpressionContext := ⟨false, false, false⟩

/-- `DayOfMonthRange` -/
structure DayOfMonthRange where
  start : ℤ
  stop : ℤ
  isRange : 1 ≤ start ∧ start ≤ stop ∧ stop ≤ 31

namespace DayOfMonthRange

variable (K : SettableCalendar) (n : ℕ) (r : DayOfMonthRange)

def includesDate (cal : ℤ) : Outcome Bool :=
  let dom := K.get .dayOfMonth cal
  .done (decide (r.start ≤ dom) && decide (dom ≤ r.stop))

def first (cal : ℤ) : Outcome ℤ := seek n (r.includesDate K) (K.add .dayOfMonth 1) cal

def next (cal : ℤ) : Outcome ℤ :=
  seek n (r.includesDate K) (K.add .dayOfMonth 1) (K.add .dayOfMonth 1 cal)

end DayOfMonthRange

/-- `DayOfWeekRange`, from Sunday to Saturday. -/
structure DayOfWeekRange where
  range : FieldRange 1 7

namespace DayOfWeekRange

variable (K : SettableCalendar) (n : ℕ) (r : DayOfWeekRange)

def includesDate (cal : ℤ) : Outcome Bool :=
  r.range.includesDate K n .dayOfWeek
    (seek n (fun t => .done (K.get .dayOfWeek t == r.range.start)) (K.add .dayOfMonth 1))
    (K.add .dayOfMonth 1) cal

def first (cal : ℤ) : Outcome ℤ := seek n (r.includesDate K n) (K.add .dayOfMonth 1) cal

def next (cal : ℤ) (context : ExpressionContext) : Outcome (ℤ × ExpressionContext) :=
  (r.includesDate K n cal).bind fun b =>
    -- the flag is taken back by the expression that reads it
    if b && context.dayBumped then .done (cal, { context with dayBumped := false })
    else
      (seek n (r.includesDate K n) (K.add .dayOfMonth 1)
        (if b then K.add .dayOfMonth 1 cal else cal)).bind fun next =>
          .done (next, if K.get .month cal ≠ K.get .month next then
            { context with monthBumped := true } else context)

end DayOfWeekRange

/-- `HourRange` -/
structure HourRange where
  range : FieldRange 0 23

namespace HourRange

variable (K : SettableCalendar) (n : ℕ) (r : HourRange)

def includesDate (cal : ℤ) : Outcome Bool :=
  r.range.includesDate K n .hourOfDay (fun t => .done (K.set .hourOfDay r.range.start t))
    (K.add .hourOfDay 1) cal

def first (cal : ℤ) : Outcome ℤ := seek n (r.includesDate K n) (K.add .hourOfDay 1) cal

def next (cal : ℤ) (context : ExpressionContext) : Outcome (ℤ × ExpressionContext) :=
  (r.includesDate K n cal).bind fun b =>
    if b && context.hourBumped then .done (cal, context)
    else
      (seek n (r.includesDate K n) (K.add .hourOfDay 1)
        (if b then K.add .hourOfDay 1 cal else cal)).bind fun next =>
          .done (next, if K.get .dayOfMonth cal ≠ K.get .dayOfMonth next then
            { context with dayBumped := true } else context)

end HourRange

/-- `MinuteRange` -/
structure MinuteRange where
  range : FieldRange 0 59

namespace MinuteRange

variable (K : SettableCalendar) (n : ℕ) (r : MinuteRange)

def includesDate (cal : ℤ) : Outcome Bool :=
  r.range.includesDate K n .minute (fun t => .done (K.set .minute r.range.start t))
    (K.add .minute 1) cal

def first (cal : ℤ) : Outcome ℤ := seek n (r.includesDate K n) (K.add .minute 1) cal

def next (cal : ℤ) (context : ExpressionContext) : Outcome (ℤ × ExpressionContext) :=
  (r.includesDate K n cal).bind fun b =>
    (seek n (r.includesDate K n) (K.add .minute 1) (if b then K.add .minute 1 cal else cal)).bind
      fun next =>
        .done (next, if K.get .hourOfDay cal ≠ K.get .hourOfDay next then
          { context with hourBumped := true } else context)

end MinuteRange

/-- `MonthRange`, from January to the thirteenth month that some calendars have. -/
structure MonthRange where
  range : FieldRange 0 12

namespace MonthRange

variable (K : SettableCalendar) (n : ℕ) (r : MonthRange)

def includesDate (cal : ℤ) : Outcome Bool :=
  r.range.includesDate K n .month
    (seek n (fun t => .done (K.get .month t == r.range.start)) (K.add .month 1))
    (K.add .month 1) cal

def first (cal : ℤ) : Outcome ℤ :=
  seek n (r.includesDate K n) (K.add .month 1) (K.set .dayOfMonth 1 cal)

def next (cal : ℤ) : Outcome ℤ :=
  seek n (r.includesDate K n) (K.add .month 1) (K.add .month 1 (K.set .dayOfMonth 1 cal))

end MonthRange

/-! ### Frequencies -/

inductive FrequencyType
  | second
  | minute
  | hour
  | dayOfMonth
  | month
  | year
  deriving DecidableEq

def FrequencyType.field : FrequencyType → CalendarField
  | second => .second
  | minute => .minute
  | hour => .hourOfDay
  | dayOfMonth => .dayOfMonth
  | month => .month
  | year => .year

/-- The milliseconds by which `prepareCal` divides; months and years are not skipped. -/
def FrequencyType.divisor : FrequencyType → Option ℤ
  | second => some 1000
  | minute => some 60000
  | hour => some 3600000
  | dayOfMonth => some 86400000
  | month => none
  | year => none

/-- `Frequency` -/
structure Frequency where
  start : ℤ
  freqType : FrequencyType
  freqCount : ℤ
  isCount : 1 ≤ freqCount ∧ freqCount < 2 ^ 31

namespace Frequency

variable (K : SettableCalendar) (n : ℕ) (f : Frequency)

def step (cal : ℤ) : ℤ := K.add f.freqType.field f.freqCount cal

def stepBack (cal : ℤ) : ℤ := K.add f.freqType.field (-f.freqCount) cal

def prepareCal (cal : ℤ) : Outcome ℤ :=
  let deltaMillis := cal - f.start
  if deltaMillis < 1000 then .done f.start
  else
    match f.freqType.divisor with
    | none => .done f.start
    | some divisor =>
      let units := deltaMillis / divisor
      let units := units - units % f.freqCount
      seek n (fun t => .done (decide (t ≤ cal))) (f.stepBack K)
        (K.add f.freqType.field (units.bmod (2 ^ 32)) f.start)

def first (cal : ℤ) : Outcome ℤ :=
  (f.prepareCal K n cal).bind (seek n (fun t => .done (decide (cal ≤ t))) (f.step K))

def includesDate (cal : ℤ) : Outcome Bool :=
  (f.first K n cal).bind fun next => .done (next == cal)

def next (cal : ℤ) : Outcome ℤ :=
  (f.first K n cal).bind fun next => .done (if next = cal then f.step K next else next)

end Frequency

/-! ### Expressions without members -/

inductive SimpleExpression
  | dateRange (range : DateRange)
  | dayInMonth (e : DayInMonth)
  | dayOfMonthRange (r : DayOfMonthRange)
  | dayOfWeekRange (r : DayOfWeekRange)
  | frequency (f : Frequency)
  | hourRange (r : HourRange)
  | minuteRange (r : MinuteRange)
  | monthRange (r : MonthRange)
  | null

namespace SimpleExpression

variable (K : SettableCalendar) (n : ℕ)

def includesDate : SimpleExpression → ℤ → Outcome Bool
  | dateRange range, cal => .done (range.includesDate cal)
  | dayInMonth e, cal => e.includesDate K n cal
  | dayOfMonthRange r, cal => r.includesDate K cal
  | dayOfWeekRange r, cal => r.includesDate K n cal
  | frequency f, cal => f.includesDate K n cal
  | hourRange r, cal => r.includesDate K n cal
  | minuteRange r, cal => r.includesDate K n cal
  | monthRange r, cal => r.includesDate K n cal
  | null, _ => .done false

def stepBack : SimpleExpression → ℤ → ℤ
  | dateRange _ | null => id
  | dayInMonth _ | dayOfMonthRange _ | dayOfWeekRange _ => K.add .dayOfMonth (-1)
  | frequency f => f.stepBack K
  | hourRange _ => K.add .hourOfDay (-1)
  | minuteRange _ => K.add .minute (-1)
  | monthRange _ => K.add .month (-1)

def isSubstitutionCandidate (e : SimpleExpression) (expressionToTest : ℤ → Outcome Bool)
    (cal : ℤ) : Outcome Bool :=
  match e with
  | dateRange range => .done (range.includesDate cal)
  | null => .done false
  | e => meetsBefore n (e.includesDate K n) expressionToTest (e.stepBack K) (e.stepBack K cal)

def first : SimpleExpression → ℤ → Outcome (Option ℤ)
  | dateRange range, cal => .done (if range.includesDate cal then some cal else none)
  | dayInMonth e, cal => (e.first K n cal).bind fun t => .done (some t)
  | dayOfMonthRange r, cal => (r.first K n cal).bind fun t => .done (some t)
  | dayOfWeekRange r, cal => (r.first K n cal).bind fun t => .done (some t)
  | frequency f, cal => (f.first K n cal).bind fun t => .done (some t)
  | hourRange r, cal => (r.first K n cal).bind fun t => .done (some t)
  | minuteRange r, cal => (r.first K n cal).bind fun t => .done (some t)
  | monthRange r, cal => (r.first K n cal).bind fun t => .done (some t)
  | null, _ => .done none

def next : SimpleExpression → ℤ → ExpressionContext → Outcome (Option ℤ × ExpressionContext)
  | dateRange range, cal, context =>
    .done (if range.includesDate cal then some cal else none, context)
  | dayInMonth e, cal, context => (e.next K n cal).bind fun t => .done (some t, context)
  | dayOfMonthRange r, cal, context => (r.next K n cal).bind fun t => .done (some t, context)
  | dayOfWeekRange r, cal, context =>
    (r.next K n cal context).bind fun p => .done (some p.1, p.2)
  | frequency f, cal, context => (f.next K n cal).bind fun t => .done (some t, context)
  | hourRange r, cal, context => (r.next K n cal context).bind fun p => .done (some p.1, p.2)
  | minuteRange r, cal, context => (r.next K n cal context).bind fun p => .done (some p.1, p.2)
  | monthRange r, cal, context => (r.next K n cal).bind fun t => .done (some t, context)
  | null, _, context => .done (none, context)

end SimpleExpression

/-! ### Trees of expressions -/

/-- A temporal expression; the members of an intersection and a union in the order of
iteration. -/
inductive TemporalExpression
  | simple (e : SimpleExpression)
  | difference (included excluded : TemporalExpression)
  | intersection (expressionSet : List TemporalExpression)
  | substitution (included excluded substitute : TemporalExpression)
  | union (expressionSet : List TemporalExpression)

namespace TemporalExpression

theorem inductionOn {motive : TemporalExpression → Prop} (simple : ∀ e, motive (simple e))
    (difference : ∀ included excluded, motive included → motive excluded →
      motive (difference included excluded))
    (intersection : ∀ es, (∀ e ∈ es, motive e) → motive (intersection es))
    (substitution : ∀ included excluded substitute, motive included → motive excluded →
      motive substitute → motive (substitution included excluded substitute))
    (union : ∀ es, (∀ e ∈ es, motive e) → motive (union es)) (e : TemporalExpression) :
    motive e :=
  TemporalExpression.rec (motive_1 := motive) (motive_2 := fun es => ∀ e ∈ es, motive e)
    simple difference intersection substitution union
    (fun _ he => absurd he List.not_mem_nil)
    (fun _ _ hhead htail _ he => (List.mem_cons.mp he).elim (fun h => h ▸ hhead) (htail _)) e

variable (K : SettableCalendar) (n : ℕ)

mutual

def includesDate : TemporalExpression → ℤ → Outcome Bool
  | simple e, cal => e.includesDate K n cal
  | difference included excluded, cal => (includesDate included cal).bind fun b =>
    if b then (includesDate excluded cal).bind fun c => .done !c else .done false
  | intersection es, cal => allInclude es cal
  | substitution included excluded substitute, cal => (includesDate included cal).bind fun b =>
    if b then .done true
    else isSubstitutionCandidate substitute (fun t => includesDate excluded t) cal
  | union es, cal => anyIncludes es cal

def allInclude : List TemporalExpression → ℤ → Outcome Bool
  | [], _ => .done true
  | e :: es, cal => (includesDate e cal).bind fun b =>
    if b then allInclude es cal else .done false

def anyIncludes : List TemporalExpression → ℤ → Outcome Bool
  | [], _ => .done false
  | e :: es, cal => (includesDate e cal).bind fun b =>
    if b then .done true else anyIncludes es cal

def isSubstitutionCandidate : TemporalExpression → (ℤ → Outcome Bool) → ℤ → Outcome Bool
  | simple e, expressionToTest, cal => e.isSubstitutionCandidate K n expressionToTest cal
  | difference included excluded, expressionToTest, cal =>
    (isSubstitutionCandidate included expressionToTest cal).bind fun b =>
      if b then (isSubstitutionCandidate excluded expressionToTest cal).bind fun c => .done !c
      else .done false
  | intersection es, expressionToTest, cal => allCandidates es expressionToTest cal
  | substitution _ _ substitute, expressionToTest, cal =>
    isSubstitutionCandidate substitute expressionToTest cal
  | union es, expressionToTest, cal => anyCandidate es expressionToTest cal

def allCandidates : List TemporalExpression → (ℤ → Outcome Bool) → ℤ → Outcome Bool
  | [], _, _ => .done true
  | e :: es, expressionToTest, cal =>
    (isSubstitutionCandidate e expressionToTest cal).bind fun b =>
      if b then allCandidates es expressionToTest cal else .done false

def anyCandidate : List TemporalExpression → (ℤ → Outcome Bool) → ℤ → Outcome Bool
  | [], _, _ => .done false
  | e :: es, expressionToTest, cal =>
    (isSubstitutionCandidate e expressionToTest cal).bind fun b =>
      if b then .done true else anyCandidate es expressionToTest cal

end

def skipExcluded {σ : Type} (excluded : ℤ → Outcome Bool)
    (next : ℤ → σ → Outcome (Option ℤ × σ)) (start : Option ℤ × σ) : Outcome (Option ℤ × σ) :=
  Outcome.loop (fun s =>
    match s.1 with
    | none => .done (.inr s)
    | some t => (excluded t).bind fun b =>
      if b then (next t s.2).bind fun s' => .done (.inl s') else .done (.inr s)) n start

def earlier (result next : Option ℤ) : Option ℤ :=
  match next, result with
  | none, _ => result
  | some t, none => some t
  | some t, some r => if t < r then some t else some r

mutual

def nextIn : TemporalExpression → ℤ → ExpressionContext → Outcome (Option ℤ × ExpressionContext)
  | simple e, cal, context => e.next K n cal context
  | difference included excluded, cal, context =>
    (nextIn included cal context).bind
      (skipExcluded n (includesDate K n excluded) fun t c => nextIn included t c)
  | intersection es, cal, context => nextOfAll es cal context
  | substitution included excluded substitute, cal, context =>
    (nextIn included cal context).bind fun p =>
      match p.1 with
      | none => .done p
      | some t => (includesDate K n excluded t).bind fun b =>
        if b then nextIn substitute t p.2 else .done p
  | union es, cal, context => nextOfAny es cal none context

def nextOfAll :
    List TemporalExpression → ℤ → ExpressionContext → Outcome (Option ℤ × ExpressionContext)
  | [], cal, context => .done (some cal, context)
  | e :: es, cal, context => (nextIn e cal context).bind fun p =>
    match p.1 with
    | none => .done p
    | some t => nextOfAll es t p.2

/-- The loop of a union: the earliest of the next dates, with the result so far. -/
def nextOfAny : List TemporalExpression → ℤ → Option ℤ → ExpressionContext →
    Outcome (Option ℤ × ExpressionContext)
  | [], _, result, context => .done (result, context)
  | e :: es, cal, result, context => (nextIn e cal context).bind fun p =>
    nextOfAny es cal (earlier result p.1) p.2

end

def next (e : TemporalExpression) (cal : ℤ) : Outcome (Option ℤ) :=
  (nextIn K n e cal .new).bind fun p => .done p.1

mutual

def first : TemporalExpression → ℤ → Outcome (Option ℤ)
  | simple e, cal => e.first K n cal
  | difference included excluded, cal => (first included cal).bind fun r =>
    (skipExcluded n (includesDate K n excluded)
      (fun t _ => (next K n included t).bind fun r => .done (r, ())) (r, ())).bind
        fun p => .done p.1
  | intersection es, cal => (firstOfAll es cal).bind fun r =>
    match r with
    | none => .done none
    | some t => (allInclude K n es t).bind fun b => .done (if b then some t else none)
  | substitution included excluded substitute, cal => (first included cal).bind fun r =>
    match r with
    | none => .done none
    | some t => (includesDate K n excluded t).bind fun b =>
      if b then first substitute t else .done (some t)
  | union es, cal => firstOfAny es es cal

def firstOfAll : List TemporalExpression → ℤ → Outcome (Option ℤ)
  | [], cal => .done (some cal)
  | e :: es, cal => (first e cal).bind fun r =>
    match r with
    | none => .done none
    | some t => firstOfAll es t

/-- The loop of a union: the date of the first member whose date the union, with the members
`all`, includes. -/
def firstOfAny : List TemporalExpression → List TemporalExpression → ℤ → Outcome (Option ℤ)
  | [], _, _ => .done none
  | e :: es, all, cal => (first e cal).bind fun r =>
    match r with
    | none => firstOfAny es all cal
    | some t => (anyIncludes K n all t).bind fun b =>
      if b then .done (some t) else firstOfAny es all cal

end

end TemporalExpression

/-! ### Larger budgets -/

section Budget

open Outcome

variable {K : SettableCalendar} {n m : ℕ} {cal : ℤ}

theorem seek_le {test test' : ℤ → Outcome Bool} {step : ℤ → ℤ}
    (htest : ∀ t, Le (test t) (test' t)) (h : n ≤ m) :
    Le (seek n test step cal) (seek m test' step cal) :=
  loop_le (fun t => (htest t).bind fun _ => Le.refl _) h

theorem meetsBefore_le {stop stop' test test' : ℤ → Outcome Bool} {step : ℤ → ℤ}
    (hstop : ∀ t, Le (stop t) (stop' t)) (htest : ∀ t, Le (test t) (test' t)) (h : n ≤ m) :
    Le (meetsBefore n stop test step cal) (meetsBefore m stop' test' step cal) := by
  refine loop_le (fun t => (hstop t).bind fun b => ?_) h
  cases b with
  | true => exact Le.refl _
  | false => exact (htest t).bind fun _ => Le.refl _

theorem skipExcluded_le {σ : Type} {excluded excluded' : ℤ → Outcome Bool}
    {next next' : ℤ → σ → Outcome (Option ℤ × σ)} {s : Option ℤ × σ}
    (hexcluded : ∀ t, Le (excluded t) (excluded' t)) (hnext : ∀ t c, Le (next t c) (next' t c))
    (h : n ≤ m) :
    Le (TemporalExpression.skipExcluded n excluded next s)
      (TemporalExpression.skipExcluded m excluded' next' s) := by
  refine loop_le (fun s => ?_) h
  obtain ⟨_ | t, c⟩ := s
  · exact Le.refl _
  · refine (hexcluded t).bind fun b => ?_
    cases b with
    | false => exact Le.refl _
    | true => exact (hnext t c).bind fun _ => Le.refl _

namespace DayInMonth

variable (e : DayInMonth)

theorem alignDayOfWeek_le (h : n ≤ m) :
    Le (e.alignDayOfWeek K n cal) (e.alignDayOfWeek K m cal) := by
  unfold alignDayOfWeek
  split_ifs
  · exact (seek_le (fun _ => Le.refl _) h).bind fun _ => Le.refl _
  · exact (seek_le (fun _ => Le.refl _) h).bind fun _ => Le.refl _

theorem includesDate_le (h : n ≤ m) : Le (e.includesDate K n cal) (e.includesDate K m cal) :=
  Le.ite ((e.alignDayOfWeek_le h).bind fun _ => Le.refl _) (Le.refl _)

theorem first_le (h : n ≤ m) : Le (e.first K n cal) (e.first K m cal) := by
  refine (e.alignDayOfWeek_le h).bind fun t => ?_
  split_ifs
  · exact e.alignDayOfWeek_le h
  · exact Le.refl _

theorem next_le (h : n ≤ m) : Le (e.next K n cal) (e.next K m cal) := by
  refine (e.alignDayOfWeek_le h).bind fun t => ?_
  split_ifs
  · exact e.alignDayOfWeek_le h
  · exact Le.refl _

end DayInMonth

theorem FieldRange.includesDate_le {low high : ℤ} (r : FieldRange low high)
    {field : CalendarField} {toStart toStart' : ℤ → Outcome ℤ} {step : ℤ → ℤ}
    (hstart : ∀ t, Le (toStart t) (toStart' t)) (h : n ≤ m) :
    Le (r.includesDate K n field toStart step cal)
      (r.includesDate K m field toStart' step cal) := by
  dsimp only [FieldRange.includesDate]
  split_ifs
  · exact Le.refl _
  · exact (hstart cal).bind fun _ => meetsBefore_le (fun _ => Le.refl _) (fun _ => Le.refl _) h

theorem DayOfWeekRange.includesDate_le (r : DayOfWeekRange) (h : n ≤ m) :
    Le (r.includesDate K n cal) (r.includesDate K m cal) :=
  r.range.includesDate_le (fun _ => seek_le (fun _ => Le.refl _) h) h

theorem HourRange.includesDate_le (r : HourRange) (h : n ≤ m) :
    Le (r.includesDate K n cal) (r.includesDate K m cal) :=
  r.range.includesDate_le (fun _ => Le.refl _) h

theorem MinuteRange.includesDate_le (r : MinuteRange) (h : n ≤ m) :
    Le (r.includesDate K n cal) (r.includesDate K m cal) :=
  r.range.includesDate_le (fun _ => Le.refl _) h

theorem MonthRange.includesDate_le (r : MonthRange) (h : n ≤ m) :
    Le (r.includesDate K n cal) (r.includesDate K m cal) :=
  r.range.includesDate_le (fun _ => seek_le (fun _ => Le.refl _) h) h

namespace Frequency

variable (f : Frequency)

theorem prepareCal_le (h : n ≤ m) : Le (f.prepareCal K n cal) (f.prepareCal K m cal) := by
  dsimp only [prepareCal]
  split_ifs
  · exact Le.refl _
  · cases f.freqType.divisor with
    | none => exact Le.refl _
    | some divisor => exact seek_le (fun _ => Le.refl _) h

theorem first_le (h : n ≤ m) : Le (f.first K n cal) (f.first K m cal) :=
  (f.prepareCal_le h).bind fun _ => seek_le (fun _ => Le.refl _) h

end Frequency

namespace SimpleExpression

theorem includesDate_le (e : SimpleExpression) (h : n ≤ m) :
    Le (e.includesDate K n cal) (e.includesDate K m cal) := by
  cases e with
  | dateRange range => exact Le.refl _
  | dayInMonth e => exact e.includesDate_le h
  | dayOfMonthRange r => exact Le.refl _
  | dayOfWeekRange r => exact r.includesDate_le h
  | frequency f => exact (f.first_le h).bind fun _ => Le.refl _
  | hourRange r => exact r.includesDate_le h
  | minuteRange r => exact r.includesDate_le h
  | monthRange r => exact r.includesDate_le h
  | null => exact Le.refl _

theorem isSubstitutionCandidate_le (e : SimpleExpression) {test test' : ℤ → Outcome Bool}
    (htest : ∀ t, Le (test t) (test' t)) (h : n ≤ m) :
    Le (e.isSubstitutionCandidate K n test cal) (e.isSubstitutionCandidate K m test' cal) := by
  cases e with
  | dateRange range => exact Le.refl _
  | null => exact Le.refl _
  | _ => exact meetsBefore_le (fun _ => includesDate_le _ h) htest h

theorem first_le (e : SimpleExpression) (h : n ≤ m) : Le (e.first K n cal) (e.first K m cal) := by
  cases e with
  | dateRange range => exact Le.refl _
  | dayInMonth e => exact (e.first_le h).bind fun _ => Le.refl _
  | dayOfMonthRange r => exact (seek_le (fun _ => Le.refl _) h).bind fun _ => Le.refl _
  | dayOfWeekRange r =>
    exact (seek_le (fun _ => r.includesDate_le h) h).bind fun _ => Le.refl _
  | frequency f => exact (f.first_le h).bind fun _ => Le.refl _
  | hourRange r =>
    exact (seek_le (fun _ => r.includesDate_le h) h).bind fun _ => Le.refl _
  | minuteRange r =>
    exact (seek_le (fun _ => r.includesDate_le h) h).bind fun _ => Le.refl _
  | monthRange r =>
    exact (seek_le (fun _ => r.includesDate_le h) h).bind fun _ => Le.refl _
  | null => exact Le.refl _

theorem next_le (e : SimpleExpression) {context : ExpressionContext} (h : n ≤ m) :
    Le (e.next K n cal context) (e.next K m cal context) := by
  cases e with
  | dateRange range => exact Le.refl _
  | dayInMonth e => exact (e.next_le h).bind fun _ => Le.refl _
  | dayOfMonthRange r => exact (seek_le (fun _ => Le.refl _) h).bind fun _ => Le.refl _
  | dayOfWeekRange r =>
    refine ((r.includesDate_le h).bind fun b => ?_).bind fun _ => Le.refl _
    exact Le.ite (Le.refl _) ((seek_le (fun _ => r.includesDate_le h) h).bind fun _ => Le.refl _)
  | frequency f => exact ((f.first_le h).bind fun _ => Le.refl _).bind fun _ => Le.refl _
  | hourRange r =>
    refine ((r.includesDate_le h).bind fun b => ?_).bind fun _ => Le.refl _
    exact Le.ite (Le.refl _) ((seek_le (fun _ => r.includesDate_le h) h).bind fun _ => Le.refl _)
  | minuteRange r =>
    refine ((r.includesDate_le h).bind fun b => ?_).bind fun _ => Le.refl _
    exact (seek_le (fun _ => r.includesDate_le h) h).bind fun _ => Le.refl _
  | monthRange r =>
    exact (seek_le (fun _ => r.includesDate_le h) h).bind fun _ => Le.refl _
  | null => exact Le.refl _

end SimpleExpression

namespace TemporalExpression

/-- What `includesDate_le` says of one expression, together with its use as a substitute. -/
def Kept (K : SettableCalendar) (n m : ℕ) (e : TemporalExpression) : Prop :=
  (∀ cal, Le (e.includesDate K n cal) (e.includesDate K m cal)) ∧
    ∀ test test' : ℤ → Outcome Bool, (∀ t, Le (test t) (test' t)) → ∀ cal,
      Le (e.isSubstitutionCandidate K n test cal) (e.isSubstitutionCandidate K m test' cal)

section Members

variable {es : List TemporalExpression} (hes : ∀ e ∈ es, Kept K n m e)
include hes

theorem allInclude_le : Le (allInclude K n es cal) (allInclude K m es cal) := by
  induction es with
  | nil => exact Le.refl _
  | cons e es ih =>
    exact ((hes e List.mem_cons_self).1 cal).bind fun _ =>
      Le.ite (ih fun e he => hes e (List.mem_cons_of_mem _ he)) (Le.refl _)

theorem anyIncludes_le : Le (anyIncludes K n es cal) (anyIncludes K m es cal) := by
  induction es with
  | nil => exact Le.refl _
  | cons e es ih =>
    exact ((hes e List.mem_cons_self).1 cal).bind fun _ =>
      Le.ite (Le.refl _) (ih fun e he => hes e (List.mem_cons_of_mem _ he))

variable {test test' : ℤ → Outcome Bool} (htest : ∀ t, Le (test t) (test' t))
include htest

theorem allCandidates_le : Le (allCandidates K n es test cal) (allCandidates K m es test' cal) := by
  induction es with
  | nil => exact Le.refl _
  | cons e es ih =>
    exact ((hes e List.mem_cons_self).2 _ _ htest cal).bind fun _ =>
      Le.ite (ih fun e he => hes e (List.mem_cons_of_mem _ he)) (Le.refl _)

theorem anyCandidate_le : Le (anyCandidate K n es test cal) (anyCandidate K m es test' cal) := by
  induction es with
  | nil => exact Le.refl _
  | cons e es ih =>
    exact ((hes e List.mem_cons_self).2 _ _ htest cal).bind fun _ =>
      Le.ite (Le.refl _) (ih fun e he => hes e (List.mem_cons_of_mem _ he))

end Members

theorem kept (e : TemporalExpression) (h : n ≤ m) : Kept K n m e := by
  induction e using TemporalExpression.inductionOn with
  | simple e =>
    exact ⟨fun _ => e.includesDate_le h, fun _ _ htest _ => e.isSubstitutionCandidate_le htest h⟩
  | difference included excluded hincluded hexcluded =>
    refine ⟨fun cal => (hincluded.1 cal).bind fun _ => Le.ite ?_ (Le.refl _),
      fun test test' htest cal => (hincluded.2 _ _ htest cal).bind fun _ =>
        Le.ite ?_ (Le.refl _)⟩
    · exact (hexcluded.1 cal).bind fun _ => Le.refl _
    · exact (hexcluded.2 _ _ htest cal).bind fun _ => Le.refl _
  | intersection es hes =>
    exact ⟨fun _ => allInclude_le hes, fun _ _ htest _ => allCandidates_le hes htest⟩
  | substitution included excluded substitute hincluded hexcluded hsubstitute =>
    exact ⟨fun cal => (hincluded.1 cal).bind fun _ =>
        Le.ite (Le.refl _) (hsubstitute.2 _ _ hexcluded.1 cal), hsubstitute.2⟩
  | union es hes =>
    exact ⟨fun _ => anyIncludes_le hes, fun _ _ htest _ => anyCandidate_le hes htest⟩

theorem includesDate_le (e : TemporalExpression) (h : n ≤ m) :
    Le (e.includesDate K n cal) (e.includesDate K m cal) :=
  (kept e h).1 cal

section Members

variable {es : List TemporalExpression}

theorem nextOfAll_le
    (hes : ∀ e ∈ es, ∀ cal context, Le (nextIn K n e cal context) (nextIn K m e cal context))
    {context : ExpressionContext} :
    Le (nextOfAll K n es cal context) (nextOfAll K m es cal context) := by
  induction es generalizing cal context with
  | nil => exact Le.refl _
  | cons e es ih =>
    refine (hes e List.mem_cons_self cal context).bind fun p => ?_
    obtain ⟨_ | t, context'⟩ := p
    · exact Le.refl _
    · exact ih fun e he => hes e (List.mem_cons_of_mem _ he)

theorem nextOfAny_le
    (hes : ∀ e ∈ es, ∀ cal context, Le (nextIn K n e cal context) (nextIn K m e cal context))
    {result : Option ℤ} {context : ExpressionContext} :
    Le (nextOfAny K n es cal result context) (nextOfAny K m es cal result context) := by
  induction es generalizing result context with
  | nil => exact Le.refl _
  | cons e es ih =>
    exact (hes e List.mem_cons_self cal context).bind fun _ =>
      ih fun e he => hes e (List.mem_cons_of_mem _ he)

theorem firstOfAll_le (hes : ∀ e ∈ es, ∀ cal, Le (first K n e cal) (first K m e cal)) :
    Le (firstOfAll K n es cal) (firstOfAll K m es cal) := by
  induction es generalizing cal with
  | nil => exact Le.refl _
  | cons e es ih =>
    refine (hes e List.mem_cons_self cal).bind fun r => ?_
    cases r with
    | none => exact Le.refl _
    | some t => exact ih fun e he => hes e (List.mem_cons_of_mem _ he)

theorem firstOfAny_le (hes : ∀ e ∈ es, ∀ cal, Le (first K n e cal) (first K m e cal))
    (all : List TemporalExpression) (h : n ≤ m) :
    Le (firstOfAny K n es all cal) (firstOfAny K m es all cal) := by
  induction es with
  | nil => exact Le.refl _
  | cons e es ih =>
    have hrest := ih fun e he => hes e (List.mem_cons_of_mem _ he)
    refine (hes e List.mem_cons_self cal).bind fun r => ?_
    cases r with
    | none => exact hrest
    | some t =>
      exact (anyIncludes_le fun e _ => kept e h).bind fun _ => Le.ite (Le.refl _) hrest

end Members

theorem nextIn_le (e : TemporalExpression) (h : n ≤ m) (cal : ℤ) (context : ExpressionContext) :
    Le (nextIn K n e cal context) (nextIn K m e cal context) := by
  induction e using TemporalExpression.inductionOn generalizing cal context with
  | simple e => exact e.next_le h
  | difference included excluded hincluded hexcluded =>
    exact (hincluded cal context).bind fun _ =>
      skipExcluded_le (fun _ => includesDate_le excluded h) hincluded h
  | intersection es hes => exact nextOfAll_le hes
  | substitution included excluded substitute hincluded hexcluded hsubstitute =>
    refine (hincluded cal context).bind fun p => ?_
    obtain ⟨_ | t, context'⟩ := p
    · exact Le.refl _
    · exact (includesDate_le excluded h).bind fun _ => Le.ite (hsubstitute t context') (Le.refl _)
  | union es hes => exact nextOfAny_le hes

theorem next_le (e : TemporalExpression) (h : n ≤ m) : Le (e.next K n cal) (e.next K m cal) :=
  (nextIn_le e h cal _).bind fun _ => Le.refl _

theorem first_le (e : TemporalExpression) (h : n ≤ m) (cal : ℤ) :
    Le (e.first K n cal) (e.first K m cal) := by
  induction e using TemporalExpression.inductionOn generalizing cal with
  | simple e => exact e.first_le h
  | difference included excluded hincluded hexcluded =>
    refine (hincluded cal).bind fun r => (skipExcluded_le (fun _ => includesDate_le excluded h)
      (fun _ _ => ?_) h).bind fun _ => Le.refl _
    exact (next_le included h).bind fun _ => Le.refl _
  | intersection es hes =>
    refine (firstOfAll_le hes).bind fun r => ?_
    cases r with
    | none => exact Le.refl _
    | some t => exact (allInclude_le fun e _ => kept e h).bind fun _ => Le.refl _
  | substitution included excluded substitute hincluded hexcluded hsubstitute =>
    refine (hincluded cal).bind fun r => ?_
    cases r with
    | none => exact Le.refl _
    | some t =>
      exact (includesDate_le excluded h).bind fun _ => Le.ite (hsubstitute t) (Le.refl _)
  | union es hes => exact firstOfAny_le hes es h

end TemporalExpression

end Budget

end OfficeAuto.Service
