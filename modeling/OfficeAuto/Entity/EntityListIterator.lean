import OfficeAuto.Logic.CallTree
import OfficeAuto.Logic.ResultSet
import OfficeAuto.Logic.Transition

/-!
# Entity list iterators

`EntityListIterator`, the rows of a query as values, over a scrollable result set. The model is
of an iterator that is open: `closed` is set by `close`, and after an `SQLException`, of which a
list of rows has none.

**Answers.** After any calls, `answersRight_iff` says for each of `hasNext`, the loop of `hasNext`
and `next`, `getCompleteList`, `getPartialList` and `getResultsSizeAfterPartialList` exactly when
its answer is right.

* `hasNext` takes an iterator that has made no value yet for one without rows, unless the cursor
  is before the first row or on it. `first`, `last` and `absolute` move the cursor and make no
  value.
* `getCompleteList` goes back to the first row only if a value has been made.
* `getPartialList` takes a start of `0` for `1`, and counts a negative one from the end.
-/

namespace OfficeAuto.Entity

/-- The result set, the `long` that `selectCountByCondition` answers for the query where there is
a `genericDAO`, and what the calls have left. -/
structure EntityListIterator (α : Type) where
  resultSet : ResultSet α
  genericDAO : Option Int64
  haveMadeValue : Bool
  haveShowHasNextWarning : Bool
  resultSize : Option Int32

namespace EntityListIterator

variable {α : Type}

def create (resultSet : ResultSet α) (genericDAO : Option Int64) : EntityListIterator α :=
  ⟨resultSet, genericDAO, false, false, none⟩

def moved (it : EntityListIterator α) (move : Bool × ResultSet α) : Bool × EntityListIterator α :=
  (move.1, { it with resultSet := move.2 })

def beforeFirst (it : EntityListIterator α) : EntityListIterator α :=
  { it with resultSet := it.resultSet.beforeFirst }

def afterLast (it : EntityListIterator α) : EntityListIterator α :=
  { it with resultSet := it.resultSet.afterLast }

def first (it : EntityListIterator α) : Bool × EntityListIterator α :=
  it.moved it.resultSet.first

def last (it : EntityListIterator α) : Bool × EntityListIterator α :=
  it.moved it.resultSet.last

def absolute (it : EntityListIterator α) (rowNum : Int32) : Bool × EntityListIterator α :=
  if rowNum = 0 then (true, it.beforeFirst) else it.moved (it.resultSet.absolute rowNum)

def currentIndex (it : EntityListIterator α) : Int32 := it.resultSet.getRow

def currentGenericValue (it : EntityListIterator α) : Option α × EntityListIterator α :=
  (it.resultSet.row, { it with haveMadeValue := true })

def next (it : EntityListIterator α) : Option α × EntityListIterator α :=
  if (it.moved it.resultSet.next).1 then (it.moved it.resultSet.next).2.currentGenericValue
  else (none, (it.moved it.resultSet.next).2)

def previous (it : EntityListIterator α) : Option α × EntityListIterator α :=
  if (it.moved it.resultSet.previous).1 then (it.moved it.resultSet.previous).2.currentGenericValue
  else (none, (it.moved it.resultSet.previous).2)

def hasNext (it : EntityListIterator α) : Bool × EntityListIterator α :=
  (if it.resultSet.isLast || it.resultSet.isAfterLast then false
    else it.haveMadeValue || it.resultSet.isBeforeFirst || it.resultSet.isFirst,
   { it with haveShowHasNextWarning := true })

def hasPrevious (it : EntityListIterator α) : Bool × EntityListIterator α :=
  (if it.resultSet.isFirst || it.resultSet.isBeforeFirst then false
    else it.haveMadeValue || it.resultSet.isAfterLast || it.resultSet.isLast, it)

@[grind] def remaining : ℕ → EntityListIterator α → Outcome (List α × EntityListIterator α)
  | 0, _ => .timeout
  | budget + 1, it =>
    match it.next.1 with
    | none => .done ([], it.next.2)
    | some nextValue =>
      (remaining budget it.next.2).bind fun rest => .done (nextValue :: rest.1, rest.2)

def getCompleteList (budget : ℕ) (it : EntityListIterator α) :
    Outcome (List α × EntityListIterator α) :=
  remaining budget (if it.haveMadeValue && !it.resultSet.isBeforeFirst then it.beforeFirst else it)

/-- The loop of `getPartialList`: the values up to the first `null`, and at most `number`. -/
@[grind] def listNext : ℕ → EntityListIterator α → List α × EntityListIterator α
  | 0, it => ([], it)
  | number + 1, it =>
    match it.next.1 with
    | none => ([], it.next.2)
    | some nextValue =>
      (nextValue :: (listNext number it.next.2).1, (listNext number it.next.2).2)

def getPartialList (start number : Int32) (it : EntityListIterator α) :
    List α × EntityListIterator α :=
  if number = 0 then ([], it)
  else
    -- "just in case the caller missed the 1 based thingy"
    let start := if start = 0 then 1 else start
    if (it.absolute (start - 1)).1 then
      listNext number.toInt.toNat (it.absolute (start - 1)).2
    else ([], (it.absolute (start - 1)).2)

def getResultsSizeAfterPartialList (it : EntityListIterator α) : Int32 × EntityListIterator α :=
  match it.genericDAO with
  | some count =>
    (it.resultSize.getD count.toInt32,
     { it with resultSize := some (it.resultSize.getD count.toInt32) })
  | none => (if it.last.1 then it.last.2.currentIndex else 0, it.last.2)

/-- A client's `while (it.hasNext()) { .. it.next() .. }`, with what `next` returns. -/
@[grind] def iterate : ℕ → EntityListIterator α → Outcome (List (Option α))
  | 0, _ => .timeout
  | budget + 1, it =>
    if it.hasNext.1 then
      (iterate budget it.hasNext.2.next.2).bind fun values =>
        .done (it.hasNext.2.next.1 :: values)
    else .done []

/-! ### Calls -/

inductive Call
  | beforeFirst
  | afterLast
  | first
  | last
  | absolute (rowNum : Int32)
  | next
  | previous
  | hasNext
  | hasPrevious
  | getCompleteList
  | getPartialList (start number : Int32)
  | getResultsSizeAfterPartialList
  deriving DecidableEq

def Step (it : EntityListIterator α) (call : Call) (it' : EntityListIterator α) : Prop :=
  match call with
  | .beforeFirst => it' = it.beforeFirst
  | .afterLast => it' = it.afterLast
  | .first => it' = it.first.2
  | .last => it' = it.last.2
  | .absolute rowNum => it' = (it.absolute rowNum).2
  | .next => it' = it.next.2
  | .previous => it' = it.previous.2
  | .hasNext => it' = it.hasNext.2
  | .hasPrevious => it' = it.hasPrevious.2
  | .getCompleteList => ∃ budget list, it.getCompleteList budget = .done (list, it')
  | .getPartialList start number => it' = (it.getPartialList start number).2
  | .getResultsSizeAfterPartialList => it' = it.getResultsSizeAfterPartialList.2

def system (α : Type) : System (EntityListIterator α) Call where
  init it := ∃ rows h genericDAO, it = create (.ofRows rows h) genericDAO
  step := Step

/-! ### What the calls keep -/

variable {it it' : EntityListIterator α}

/-- A value has been made only if there are rows, and the size is only kept for a
`genericDAO`. -/
structure Sound (it : EntityListIterator α) : Prop where
  rows_ne : it.haveMadeValue = true → 0 < it.resultSet.rows.length
  resultSize : ∀ size, it.resultSize = some size →
    ∃ count, it.genericDAO = some count ∧ size = count.toInt32

theorem Sound.move (h : it.Sound) (position : ℕ) :
    { it with resultSet := it.resultSet.moveTo position : EntityListIterator α }.Sound :=
  ⟨h.rows_ne, h.resultSize⟩

theorem Sound.absolute (h : it.Sound) (rowNum : Int32) : (it.absolute rowNum).2.Sound := by
  rw [EntityListIterator.absolute]
  by_cases hzero : rowNum = 0
  · rw [if_pos hzero]
    exact h.move 0
  · rw [if_neg hzero, moved, ResultSet.absolute]
    split_ifs <;> exact h.move _

theorem Sound.currentGenericValue (h : it.Sound) (hrow : it.resultSet.onRow = true) :
    it.currentGenericValue.2.Sound := by
  obtain ⟨hlow, hhigh⟩ := ResultSet.onRow_iff.mp hrow
  have hpos : 0 < it.resultSet.rows.length := by omega
  exact ⟨fun _ => hpos, h.resultSize⟩

theorem Sound.next (h : it.Sound) : it.next.2.Sound := by
  rw [EntityListIterator.next]
  by_cases hmoved : (it.moved it.resultSet.next).1 = true
  · rw [if_pos hmoved]
    exact (h.move _).currentGenericValue hmoved
  · rw [if_neg hmoved]
    exact h.move _

theorem Sound.previous (h : it.Sound) : it.previous.2.Sound := by
  rw [EntityListIterator.previous]
  by_cases hmoved : (it.moved it.resultSet.previous).1 = true
  · rw [if_pos hmoved]
    exact (h.move _).currentGenericValue hmoved
  · rw [if_neg hmoved]
    exact h.move _

/-! ### The rows after the cursor -/

theorem next_fst : it.next.1 = it.resultSet.rows[it.resultSet.position]? := by
  rw [next]
  by_cases hlt : it.resultSet.position < it.resultSet.rows.length
  · have hrow : (it.moved it.resultSet.next).1 = true :=
      ResultSet.onRow_moveTo_iff.mpr ⟨by omega, by omega⟩
    rw [if_pos hrow]
    exact ResultSet.row_of_position (ResultSet.position_moveTo (by omega))
  · have hrow : ¬(it.moved it.resultSet.next).1 = true := fun h =>
      hlt (ResultSet.onRow_moveTo_iff.mp h).2
    rw [if_neg hrow, List.getElem?_eq_none (by omega)]

theorem next_of_lt (h : it.resultSet.position < it.resultSet.rows.length) :
    it.next.2 = { it with
      resultSet := it.resultSet.moveTo (it.resultSet.position + 1), haveMadeValue := true } := by
  have hrow : (it.moved it.resultSet.next).1 = true :=
    ResultSet.onRow_moveTo_iff.mpr ⟨by omega, by omega⟩
  rw [next, if_pos hrow]
  rfl

theorem rest_next (h : it.resultSet.position < it.resultSet.rows.length) {value : α}
    (hnext : it.next.1 = some value) :
    it.resultSet.rest = value :: it.next.2.resultSet.rest := by
  rw [next_of_lt h]
  exact ResultSet.rest_eq_cons (next_fst.symm.trans hnext)

theorem lt_of_next {value : α} (h : it.next.1 = some value) :
    it.resultSet.position < it.resultSet.rows.length :=
  (List.getElem?_eq_some_iff.mp (next_fst.symm.trans h)).1

theorem rest_eq_nil_of_next (h : it.next.1 = none) : it.resultSet.rest = [] :=
  ResultSet.rest_eq_nil (List.getElem?_eq_none_iff.mp (next_fst.symm.trans h))

theorem listNext_fst (number : ℕ) :
    (listNext number it).1 = it.resultSet.rest.take number := by
  induction number generalizing it with
  | zero => rfl
  | succ number ih =>
    rw [listNext]
    cases hnext : it.next.1 with
    | none => rw [rest_eq_nil_of_next hnext, List.take_nil]
    | some value =>
      rw [rest_next (lt_of_next hnext) hnext, List.take_succ_cons]
      exact congrArg (value :: ·) ih

theorem Sound.listNext (h : it.Sound) (number : ℕ) :
    (EntityListIterator.listNext number it).2.Sound := by
  induction number generalizing it with
  | zero => exact h
  | succ number ih =>
    rw [EntityListIterator.listNext]
    cases it.next.1 with
    | none => exact h.next
    | some value => exact ih h.next

theorem Sound.getPartialList (h : it.Sound) (start number : Int32) :
    (it.getPartialList start number).2.Sound := by
  rw [EntityListIterator.getPartialList]
  by_cases hnumber : number = 0
  · rw [if_pos hnumber]
    exact h
  · rw [if_neg hnumber]
    dsimp only
    by_cases hrow : (it.absolute ((if start = 0 then 1 else start) - 1)).1 = true
    · rw [if_pos hrow]
      exact (h.absolute _).listNext _
    · rw [if_neg hrow]
      exact h.absolute _

def SameQuery (it it' : EntityListIterator α) : Prop :=
  it'.resultSet.rows = it.resultSet.rows ∧ it'.genericDAO = it.genericDAO

theorem sameQuery_next : it.SameQuery it.next.2 := by
  rw [next]
  split_ifs <;> exact ⟨rfl, rfl⟩

theorem sameQuery_listNext (number : ℕ) : it.SameQuery (listNext number it).2 := by
  induction number generalizing it with
  | zero => exact ⟨rfl, rfl⟩
  | succ number ih =>
    rw [listNext]
    cases it.next.1 with
    | none => exact sameQuery_next
    | some value => exact ⟨ih.1.trans sameQuery_next.1, ih.2.trans sameQuery_next.2⟩

theorem sameQuery_absolute (rowNum : Int32) : it.SameQuery (it.absolute rowNum).2 := by
  rw [absolute]
  by_cases hzero : rowNum = 0
  · rw [if_pos hzero]
    exact ⟨rfl, rfl⟩
  · rw [if_neg hzero, moved, ResultSet.absolute]
    split_ifs <;> exact ⟨rfl, rfl⟩

theorem sameQuery_getPartialList (start number : Int32) :
    it.SameQuery (it.getPartialList start number).2 := by
  rw [getPartialList]
  by_cases hnumber : number = 0
  · rw [if_pos hnumber]
    exact ⟨rfl, rfl⟩
  · rw [if_neg hnumber]
    dsimp only
    by_cases hrow : (it.absolute ((if start = 0 then 1 else start) - 1)).1 = true
    · rw [if_pos hrow]
      exact ⟨(sameQuery_listNext _).1.trans (sameQuery_absolute _).1,
        (sameQuery_listNext _).2.trans (sameQuery_absolute _).2⟩
    · rw [if_neg hrow]
      exact sameQuery_absolute _

theorem of_remaining {budget : ℕ} {list : List α} (hsound : it.Sound)
    (h : remaining budget it = .done (list, it')) : list = it.resultSet.rest ∧ it'.Sound := by
  induction budget generalizing it list with
  | zero => injection h
  | succ budget ih =>
    rw [remaining] at h
    cases hnext : it.next.1 with
    | none =>
      rw [hnext] at h
      obtain ⟨rfl, rfl⟩ := Prod.mk.inj (Outcome.done.inj h)
      exact ⟨(rest_eq_nil_of_next hnext).symm, hsound.next⟩
    | some value =>
      rw [hnext] at h
      obtain ⟨⟨list', last⟩, hrest, hcons⟩ := Outcome.bind_eq_done.mp h
      obtain ⟨rfl, rfl⟩ := Prod.mk.inj (Outcome.done.inj hcons)
      obtain ⟨rfl, hlast⟩ := ih hsound.next hrest
      exact ⟨(rest_next (lt_of_next hnext) hnext).symm, hlast⟩

theorem exists_remaining (it : EntityListIterator α) :
    ∃ budget list it', remaining budget it = .done (list, it') := by
  generalize hrest : it.resultSet.rest = rest
  induction rest generalizing it with
  | nil =>
    have hnext : it.next.1 = none :=
      next_fst.trans (List.getElem?_eq_none (ResultSet.rest_eq_nil_iff.mp hrest))
    exact ⟨1, [], it.next.2, by rw [remaining, hnext]⟩
  | cons value rest ih =>
    have hlt : it.resultSet.position < it.resultSet.rows.length := by
      by_contra hle
      rw [ResultSet.rest_eq_nil (by omega)] at hrest
      exact List.cons_ne_nil _ _ hrest.symm
    have hnext : it.next.1 = some it.resultSet.rows[it.resultSet.position] :=
      next_fst.trans (List.getElem?_eq_getElem hlt)
    rw [rest_next hlt hnext] at hrest
    obtain ⟨budget, list, it', h⟩ := ih it.next.2 (List.cons.inj hrest).2
    refine ⟨budget + 1, it.resultSet.rows[it.resultSet.position] :: list, it', ?_⟩
    rw [remaining, hnext]
    exact Outcome.bind_eq_done.mpr ⟨_, h, rfl⟩

theorem getD_resultSize (h : it.Sound) {count : Int64} (hdao : it.genericDAO = some count) :
    it.resultSize.getD count.toInt32 = count.toInt32 := by
  cases hkept : it.resultSize with
  | none => rfl
  | some size =>
    obtain ⟨count', hcount, rfl⟩ := h.resultSize size hkept
    rw [Option.getD_some, Option.some.inj (hcount.symm.trans hdao)]

theorem Sound.step {call : Call} (h : it.Sound) (hstep : it.Step call it') : it'.Sound := by
  cases call with
  | getCompleteList =>
    obtain ⟨budget, list, hlist⟩ := hstep
    rw [EntityListIterator.getCompleteList] at hlist
    refine (of_remaining ?_ hlist).2
    split_ifs
    · exact h.move 0
    · exact h
  | getPartialList start number => exact hstep ▸ h.getPartialList start number
  | getResultsSizeAfterPartialList =>
    obtain rfl := hstep
    rw [EntityListIterator.getResultsSizeAfterPartialList]
    cases hdao : it.genericDAO with
    | none => exact h.move _
    | some count =>
      refine ⟨h.rows_ne, fun size hsize => ⟨count, rfl, ?_⟩⟩
      obtain rfl := Option.some.inj hsize
      exact getD_resultSize h hdao
  | absolute rowNum => exact hstep ▸ h.absolute rowNum
  | next => exact hstep ▸ h.next
  | previous => exact hstep ▸ h.previous
  | beforeFirst => exact hstep ▸ h.move 0
  | afterLast => exact hstep ▸ h.move _
  | first => exact hstep ▸ h.move 1
  | last => exact hstep ▸ h.move _
  | hasNext => exact hstep ▸ ⟨h.rows_ne, h.resultSize⟩
  | hasPrevious => exact hstep ▸ h

theorem sound_of_reachable (h : (system α).Reachable it) : it.Sound := by
  refine h.invariant ?_ fun it call it' _ hsound hstep => hsound.step hstep
  rintro _ ⟨rows, hlength, genericDAO, rfl⟩
  exact ⟨fun hmade => absurd hmade Bool.false_ne_true,
    fun size hsize => absurd hsize.symm (Option.some_ne_none size)⟩

/-! ### The answers -/

/-- What a client asks an iterator. `iterate` is the loop of `hasNext` and `next`. -/
inductive Question
  | hasNext
  | iterate
  | getCompleteList
  | getPartialList (start number : Int32)
  | getResultsSizeAfterPartialList
  deriving DecidableEq

def rowsFrom (rows : List α) (start number : ℤ) : List α :=
  (rows.take (start + number - 1).toNat).drop (start - 1).toNat

/-- `hasNext` holds when the following `next` returns a row; the loop returns the rows after the
cursor, each once; the lists are the rows that are asked for, and the size is their number. -/
def AnswersRight (it : EntityListIterator α) : Question → Prop
  | .hasNext => it.hasNext.1 = true ↔ it.hasNext.2.next.1.isSome = true
  | .iterate => ∃ budget, it.iterate budget = .done (it.resultSet.rest.map some)
  | .getCompleteList => ∃ budget it', it.getCompleteList budget = .done (it.resultSet.rows, it')
  | .getPartialList start number =>
    (it.getPartialList start number).1 =
      rowsFrom it.resultSet.rows start.toInt number.toInt
  | .getResultsSizeAfterPartialList =>
    it.getResultsSizeAfterPartialList.1.toInt = it.resultSet.rows.length

/-- No value has been made, and the cursor is on a row between the first and the last. -/
def Unseen (it : EntityListIterator α) : Prop :=
  it.haveMadeValue = false ∧ 1 < it.resultSet.position ∧
    it.resultSet.position < it.resultSet.rows.length

/-- The starts and numbers of `getPartialList` whose rows are right. From `0` on, the list has a
row too many unless the rows end before. A negative start counts from the end: it is right where
there are not so many rows and none are asked for from `1` on, and where the rows at the end
happen to repeat the first ones. -/
def PartialListRight (rows : List α) (start number : ℤ) : Prop :=
  number ≤ 0 ∨ 1 ≤ start ∨ rows = [] ∨ (start = 0 ∧ rows.length < number) ∨
    (start < 0 ∧ rows.length + start < 1 ∧ start + number ≤ 1) ∨
    (start < 0 ∧ 1 ≤ rows.length + start ∧ number = 1 - 2 * start ∧
      rows.drop (rows.length + start).toNat = rows.take (-start).toNat)

def RightWhen (it : EntityListIterator α) : Question → Prop
  | .hasNext => ¬it.Unseen
  | .iterate => ¬it.Unseen
  | .getCompleteList =>
    it.haveMadeValue = true ∨ it.resultSet.position = 0 ∨ it.resultSet.rows = []
  | .getPartialList start number =>
    PartialListRight it.resultSet.rows start.toInt number.toInt
  | .getResultsSizeAfterPartialList =>
    ∀ count, it.genericDAO = some count → count.toInt32.toInt = it.resultSet.rows.length

/-! ### `hasNext` and the loop -/

theorem hasNext_iff (h : it.Sound) : it.hasNext.1 = true ↔
    it.resultSet.position < it.resultSet.rows.length ∧ ¬it.Unseen := by
  have hle := it.resultSet.position_le
  have hmade := h.rows_ne
  rw [hasNext, Unseen]
  by_cases hrows : it.resultSet.rows.length = 0
  · have hempty : it.resultSet.rows.isEmpty = true := List.isEmpty_iff_length_eq_zero.mpr hrows
    have hnone : it.haveMadeValue = false := by
      by_contra hsome
      exact absurd (hmade (Bool.not_eq_false _ ▸ hsome)) (by omega)
    simp [ResultSet.isLast, ResultSet.isAfterLast, ResultSet.isBeforeFirst, ResultSet.isFirst,
      hempty, hnone, hrows]
  · have hempty : it.resultSet.rows.isEmpty = false :=
      Bool.eq_false_iff.mpr fun h => hrows (List.isEmpty_iff_length_eq_zero.mp h)
    simp only [ResultSet.isLast, ResultSet.isAfterLast, ResultSet.isBeforeFirst,
      ResultSet.isFirst, hempty, Bool.not_false, Bool.true_and, Bool.or_eq_true, beq_iff_eq,
      Bool.if_false_left, Bool.and_eq_true, Bool.not_eq_true']
    cases it.haveMadeValue <;> simp <;> omega

theorem next_isSome_iff : it.hasNext.2.next.1.isSome = true ↔
    it.resultSet.position < it.resultSet.rows.length := by
  rw [next_fst, Option.isSome_iff_exists]
  exact ⟨fun ⟨_, h⟩ => (List.getElem?_eq_some_iff.mp h).1,
    fun h => ⟨_, List.getElem?_eq_getElem h⟩⟩

theorem not_unseen_next (h : it.resultSet.position < it.resultSet.rows.length) :
    ¬it.hasNext.2.next.2.Unseen := by
  have hlt : it.hasNext.2.resultSet.position < it.hasNext.2.resultSet.rows.length := h
  rw [next_of_lt hlt]
  exact fun hunseen => absurd hunseen.1.symm Bool.false_ne_true

theorem exists_iterate (h : it.Sound) (hseen : ¬it.Unseen) :
    ∃ budget, it.iterate budget = .done (it.resultSet.rest.map some) := by
  generalize hrest : it.resultSet.rest = rest
  induction rest generalizing it with
  | nil =>
    have hhas : ¬it.hasNext.1 = true := fun hhas =>
      absurd ((hasNext_iff h).mp hhas).1 (Nat.not_lt.mpr (ResultSet.rest_eq_nil_iff.mp hrest))
    exact ⟨1, if_neg hhas⟩
  | cons row rest ih =>
    have hlt : it.resultSet.position < it.resultSet.rows.length := by
      by_contra hle
      rw [ResultSet.rest_eq_nil (by omega)] at hrest
      exact List.cons_ne_nil _ _ hrest.symm
    have hhas := (hasNext_iff h).mpr ⟨hlt, hseen⟩
    have hnext : it.hasNext.2.next.1 = some it.resultSet.rows[it.resultSet.position] :=
      next_fst.trans (List.getElem?_eq_getElem hlt)
    have hcons : it.resultSet.rest =
        it.resultSet.rows[it.resultSet.position] :: it.hasNext.2.next.2.resultSet.rest :=
      @rest_next _ it.hasNext.2 hlt _ hnext
    obtain ⟨hrow, htail⟩ := List.cons.inj (hrest.symm.trans hcons)
    have hsound : it.hasNext.2.Sound := ⟨h.rows_ne, h.resultSize⟩
    obtain ⟨budget, hloop⟩ := ih hsound.next (not_unseen_next hlt) htail.symm
    refine ⟨budget + 1, ?_⟩
    rw [iterate, if_pos hhas, hloop, hnext, ← hrow]
    rfl

theorem iterate_of_unseen (h : it.Sound) (hunseen : it.Unseen) {budget : ℕ}
    {values : List (Option α)} (hloop : it.iterate budget = .done values) : values = [] := by
  obtain _ | budget := budget
  · injection hloop
  · have hhas : ¬it.hasNext.1 = true := fun hhas => ((hasNext_iff h).mp hhas).2 hunseen
    rw [iterate, if_neg hhas] at hloop
    exact (Outcome.done.inj hloop).symm

/-! ### The lists -/

theorem getCompleteList_iff (h : it.Sound) {list : List α} :
    (∃ budget it', it.getCompleteList budget = .done (list, it')) ↔
      list = if it.haveMadeValue = true ∧ 0 < it.resultSet.position then it.resultSet.rows
        else it.resultSet.rest := by
  have hback : it.haveMadeValue = true → (it.resultSet.isBeforeFirst = false ↔
      0 < it.resultSet.position) := fun hmade => by
    have hempty : it.resultSet.rows.isEmpty = false := Bool.eq_false_iff.mpr fun hempty =>
      absurd (h.rows_ne hmade) (by rw [List.isEmpty_iff_length_eq_zero.mp hempty]; omega)
    rw [ResultSet.isBeforeFirst, hempty, Bool.not_false, Bool.true_and, beq_eq_false_iff_ne]
    exact Nat.pos_iff_ne_zero.symm
  have key : ∀ start : EntityListIterator α, start.Sound →
      ((∃ budget it', remaining budget start = .done (list, it')) ↔
        list = start.resultSet.rest) := fun start hstart => by
    constructor
    · rintro ⟨budget, it', hlist⟩
      exact (of_remaining hstart hlist).1
    · rintro rfl
      obtain ⟨budget, list, it', hlist⟩ := exists_remaining start
      exact ⟨budget, it', (of_remaining hstart hlist).1 ▸ hlist⟩
  simp only [getCompleteList]
  by_cases hmoved : it.haveMadeValue = true ∧ 0 < it.resultSet.position
  · rw [if_pos hmoved, if_pos (by rw [hmoved.1, (hback hmoved.1).mpr hmoved.2]; rfl)]
    exact key _ (h.move 0)
  · rw [if_neg hmoved, if_neg (fun hand => hmoved ?_)]
    · exact key _ h
    · obtain ⟨hmade, hnot⟩ := Bool.and_eq_true_iff.mp hand
      exact ⟨hmade, (hback hmade).mp (Bool.not_eq_true' _ ▸ hnot)⟩

theorem toInt_sub_one {n : Int32} (h : -2 ^ 31 < n.toInt) : (n - 1).toInt = n.toInt - 1 := by
  have hone : (1 : Int32).toInt = 1 := rfl
  have hlt := n.toInt_lt
  rw [Int32.toInt_sub, hone, Int.bmod_eq_of_le (by omega) (by omega)]

theorem toInt_sub_one_of_min {n : Int32} (h : n.toInt = -2 ^ 31) :
    (n - 1).toInt = 2 ^ 31 - 1 := by
  have hone : (1 : Int32).toInt = 1 := rfl
  rw [Int32.toInt_sub, hone, h]
  rfl

theorem absolute_cases (rowNum : Int32) :
    ((it.absolute rowNum).1 = true ∧ 0 ≤ rowNum.toInt ∧
        rowNum.toInt ≤ it.resultSet.rows.length ∧
        (it.absolute rowNum).2.resultSet.rest = it.resultSet.rows.drop rowNum.toInt.toNat) ∨
      ((it.absolute rowNum).1 = true ∧ rowNum.toInt < 0 ∧
        0 ≤ it.resultSet.rows.length + rowNum.toInt ∧
        (it.absolute rowNum).2.resultSet.rest =
          it.resultSet.rows.drop (it.resultSet.rows.length + 1 + rowNum.toInt).toNat) ∨
      ((it.absolute rowNum).1 = false ∧
        (it.resultSet.rows.length < rowNum.toInt ∨
          it.resultSet.rows.length + rowNum.toInt < 0)) := by
  have hmove : ∀ position : ℕ, position ≤ it.resultSet.rows.length →
      (it.resultSet.moveTo position).rest = it.resultSet.rows.drop position := fun position h => by
    rw [ResultSet.rest, ResultSet.rows_moveTo, ResultSet.position_moveTo (by omega)]
  by_cases hzero : rowNum = 0
  · refine Or.inl ?_
    rw [absolute, if_pos hzero, hzero]
    exact ⟨rfl, Int.le_refl _, Int.natCast_nonneg _, hmove 0 (Nat.zero_le _)⟩
  · have hne : rowNum.toInt ≠ 0 := fun h => hzero (Int32.toInt_inj.mp h)
    rw [absolute, if_neg hzero, moved, ResultSet.absolute]
    by_cases hpos : 0 ≤ rowNum.toInt
    · rw [if_pos hpos]
      by_cases hle : rowNum.toInt ≤ it.resultSet.rows.length
      · exact Or.inl ⟨ResultSet.onRow_moveTo_iff.mpr (by omega), hpos, hle, hmove _ (by omega)⟩
      · refine Or.inr (Or.inr ⟨Bool.eq_false_iff.mpr fun h => ?_, Or.inl (by omega)⟩)
        have := ResultSet.onRow_moveTo_iff.mp h
        omega
    · rw [if_neg hpos]
      by_cases hle : 0 ≤ it.resultSet.rows.length + rowNum.toInt
      · exact Or.inr (Or.inl ⟨ResultSet.onRow_moveTo_iff.mpr (by omega), by omega, hle,
          hmove _ (by omega)⟩)
      · refine Or.inr (Or.inr ⟨Bool.eq_false_iff.mpr fun h => ?_, Or.inr (by omega)⟩)
        have := ResultSet.onRow_moveTo_iff.mp h
        omega

theorem getPartialList_fst (start number : Int32) : (it.getPartialList start number).1 =
    if 0 ≤ start.toInt then
      (it.resultSet.rows.drop (start.toInt - 1).toNat).take number.toInt.toNat
    else if 1 ≤ it.resultSet.rows.length + start.toInt then
      (it.resultSet.rows.drop (it.resultSet.rows.length + start.toInt).toNat).take
        number.toInt.toNat
    else [] := by
  have hlength := it.resultSet.length_lt
  rw [getPartialList]
  by_cases hnumber : number = 0
  · rw [if_pos hnumber, hnumber]
    simp
  rw [if_neg hnumber]
  dsimp only
  by_cases hnonneg : 0 ≤ start.toInt
  · -- A start of `0` is `1`, whose rows are those from the first on.
    have hbefore : ((if start = 0 then 1 else start) - 1 : Int32).toInt.toNat =
        (start.toInt - 1).toNat ∧ 0 ≤ ((if start = 0 then 1 else start) - 1 : Int32).toInt := by
      by_cases hzero : start = 0
      · rw [if_pos hzero, hzero]
        exact ⟨rfl, Int.le_refl _⟩
      · have hne : start.toInt ≠ 0 := fun h => hzero (Int32.toInt_inj.mp h)
        rw [if_neg hzero, toInt_sub_one (by omega)]
        exact ⟨rfl, by omega⟩
    rw [if_pos hnonneg, ← hbefore.1]
    obtain ⟨hrow, -, -, hrest⟩ | ⟨-, hneg, -⟩ | ⟨hrow, hout⟩ :=
      it.absolute_cases ((if start = 0 then 1 else start) - 1)
    · rw [if_pos hrow, listNext_fst, hrest]
    · omega
    · rw [if_neg (by rw [hrow]; exact Bool.false_ne_true),
        List.drop_eq_nil_of_le (by omega), List.take_nil]
  · have hstart : (if start = 0 then (1 : Int32) else start) = start :=
      if_neg fun hzero => hnonneg (by rw [hzero]; exact Int.le_refl _)
    rw [if_neg hnonneg, hstart]
    have hlow := start.le_toInt
    by_cases hmin : start.toInt = -2 ^ 31
    · -- The number before the least `int` is the greatest one.
      have hbefore := toInt_sub_one_of_min hmin
      have hout : ¬1 ≤ (it.resultSet.rows.length : ℤ) + start.toInt := by omega
      rw [if_neg hout]
      obtain ⟨hrow, -, hle, hrest⟩ | ⟨-, hneg, -⟩ | ⟨hrow, -⟩ := it.absolute_cases (start - 1)
      · rw [if_pos hrow, listNext_fst, hrest, List.drop_eq_nil_of_le (by omega), List.take_nil]
      · omega
      · rw [if_neg (by rw [hrow]; exact Bool.false_ne_true)]
    · have hbefore := toInt_sub_one (by omega : -2 ^ 31 < start.toInt)
      obtain ⟨-, hpos, -⟩ | ⟨hrow, -, hle, hrest⟩ | ⟨hrow, hout⟩ := it.absolute_cases (start - 1)
      · omega
      · rw [if_pos hrow, listNext_fst, hrest, if_pos (by omega), hbefore]
        congr 3
        omega
      · rw [if_neg (by rw [hrow]; exact Bool.false_ne_true), if_neg (by omega)]

theorem take_drop_eq_take_iff {rows : List α} {start number : ℤ} (hnumber : 0 < number)
    (hneg : start < 0) (hlen : 1 ≤ rows.length + start) :
    (rows.drop (rows.length + start).toNat).take number.toNat =
        rows.take (start + number - 1).toNat ↔
      number = 1 - 2 * start ∧
        rows.drop (rows.length + start).toNat = rows.take (-start).toNat := by
  constructor
  · intro heq
    have hlength := congrArg List.length heq
    rw [List.length_take, List.length_drop, List.length_take] at hlength
    have hsize : number = 1 - 2 * start := by omega
    have hall : (rows.drop (rows.length + start).toNat).take number.toNat =
        rows.drop (rows.length + start).toNat :=
      List.take_of_length_le (by rw [List.length_drop]; omega)
    rw [hall, show (start + number - 1).toNat = (-start).toNat by omega] at heq
    exact ⟨hsize, heq⟩
  · rintro ⟨hsize, heq⟩
    have hall : (rows.drop (rows.length + start).toNat).take number.toNat =
        rows.drop (rows.length + start).toNat :=
      List.take_of_length_le (by rw [List.length_drop]; omega)
    rw [hall, heq, show (start + number - 1).toNat = (-start).toNat by omega]

theorem partialListRight_iff (rows : List α) (start number : ℤ) :
    (if 0 ≤ start then (rows.drop (start - 1).toNat).take number.toNat
      else if 1 ≤ rows.length + start then
        (rows.drop (rows.length + start).toNat).take number.toNat
      else []) = rowsFrom rows start number ↔ PartialListRight rows start number := by
  rw [rowsFrom, List.drop_take, PartialListRight]
  by_cases hnumber : number ≤ 0
  · have hnone : number.toNat = 0 := by omega
    have hrows : (start + number - 1).toNat - (start - 1).toNat = 0 := by omega
    rw [hrows, hnone]
    simp [hnumber]
  by_cases hpos : 1 ≤ start
  · have hrows : (start + number - 1).toNat - (start - 1).toNat = number.toNat := by omega
    rw [if_pos (by omega), hrows]
    simp [hpos]
  have hfirst : (start - 1).toNat = 0 := by omega
  rw [hfirst, List.drop_zero, Nat.sub_zero]
  by_cases hzero : start = 0
  · rw [if_pos (by omega), List.take_eq_take_iff]
    have hempty : rows = [] ↔ rows.length = 0 := List.length_eq_zero_iff.symm
    rw [hempty]
    omega
  rw [if_neg (by omega)]
  by_cases hlen : 1 ≤ (rows.length : ℤ) + start
  · have hne : rows ≠ [] := fun h => by
      rw [h, List.length_nil] at hlen
      omega
    rw [if_pos hlen, take_drop_eq_take_iff (by omega) (by omega) hlen]
    constructor
    · rintro ⟨hsize, heq⟩
      exact Or.inr (Or.inr (Or.inr (Or.inr (Or.inr ⟨by omega, hlen, hsize, heq⟩))))
    · rintro (h | h | h | h | h | ⟨-, -, hsize, heq⟩)
      · exact absurd h hnumber
      · exact absurd h hpos
      · exact absurd h hne
      · exact absurd h.1 hzero
      · omega
      · exact ⟨hsize, heq⟩
  · rw [if_neg hlen, eq_comm, List.take_eq_nil_iff]
    constructor
    · rintro (h | h)
      · exact Or.inr (Or.inr (Or.inr (Or.inr (Or.inl (by omega)))))
      · exact Or.inr (Or.inr (Or.inl h))
    · rintro (h | h | h | h | h | h)
      · exact absurd h hnumber
      · exact absurd h hpos
      · exact Or.inr h
      · exact absurd h.1 hzero
      · exact Or.inl (by omega)
      · exact absurd h.2.1 hlen

theorem currentIndex_last :
    (if it.last.1 then it.last.2.currentIndex else 0).toInt = it.resultSet.rows.length := by
  have hlength := it.resultSet.length_lt
  have hposition : (it.resultSet.moveTo it.resultSet.rows.length).position =
      it.resultSet.rows.length := ResultSet.position_moveTo (by omega)
  by_cases hrow : (it.resultSet.moveTo it.resultSet.rows.length).onRow = true
  · have hlast : it.last.1 = true := hrow
    have hindex : it.last.2.currentIndex =
        Int32.ofNat (it.resultSet.moveTo it.resultSet.rows.length).position := if_pos hrow
    rw [if_pos hlast, hindex, hposition, Int32.toInt_ofNat_of_lt hlength]
  · have hempty : it.resultSet.rows.length = 0 := by
      rw [ResultSet.onRow_moveTo_iff] at hrow
      omega
    rw [hempty]
    exact congrArg Int32.toInt (if_neg hrow)

theorem resultsSize_iff (h : it.Sound) :
    it.getResultsSizeAfterPartialList.1.toInt = it.resultSet.rows.length ↔
      ∀ count, it.genericDAO = some count → count.toInt32.toInt = it.resultSet.rows.length := by
  rw [getResultsSizeAfterPartialList]
  cases hdao : it.genericDAO with
  | none => exact iff_of_true currentIndex_last fun count hcount =>
      absurd hcount.symm (Option.some_ne_none count)
  | some count =>
    dsimp only
    rw [getD_resultSize h hdao]
    constructor
    · exact fun hright count' hcount => Option.some.inj hcount ▸ hright
    · exact fun hright => hright count rfl

/-- **After any calls, each answer is right exactly under its condition** (`RightWhen`). -/
theorem answersRight_iff (h : (system α).Reachable it) (question : Question) :
    it.AnswersRight question ↔ it.RightWhen question := by
  have hsound := sound_of_reachable h
  cases question with
  | hasNext =>
    rw [AnswersRight, RightWhen, hasNext_iff hsound, next_isSome_iff]
    constructor
    · exact fun hright hunseen => (hright.mpr hunseen.2.2).2 hunseen
    · exact fun hseen => ⟨fun hlt => hlt.1, fun hlt => ⟨hlt, hseen⟩⟩
  | iterate =>
    constructor
    · rintro ⟨budget, hloop⟩ hunseen
      have hrest := List.map_eq_nil_iff.mp (iterate_of_unseen hsound hunseen hloop)
      exact absurd (ResultSet.rest_eq_nil_iff.mp hrest) (Nat.not_le.mpr hunseen.2.2)
    · exact exists_iterate hsound
  | getCompleteList =>
    rw [AnswersRight, RightWhen, getCompleteList_iff hsound]
    by_cases hback : it.haveMadeValue = true ∧ 0 < it.resultSet.position
    · rw [if_pos hback]
      exact ⟨fun _ => Or.inl hback.1, fun _ => rfl⟩
    · rw [if_neg hback, eq_comm, ResultSet.rest_eq_rows_iff]
      constructor
      · rintro (hposition | hrows)
        · exact Or.inr (Or.inl hposition)
        · exact Or.inr (Or.inr hrows)
      · rintro (hmade | hposition | hrows)
        · exact Or.inl (by_contra fun hne => hback ⟨hmade, Nat.pos_of_ne_zero hne⟩)
        · exact Or.inl hposition
        · exact Or.inr hrows
  | getPartialList start number =>
    rw [AnswersRight, RightWhen, getPartialList_fst]
    exact partialListRight_iff _ _ _
  | getResultsSizeAfterPartialList =>
    rw [AnswersRight, RightWhen]
    exact resultsSize_iff hsound

/-! ### A query with four rows -/

theorem length_fourRows : [1, 2, 3, 4].length < 2 ^ 31 := by decide

def onSecondRow : EntityListIterator ℕ :=
  ((create (.ofRows [1, 2, 3, 4] length_fourRows) none).absolute 2).2

theorem reachable_onSecondRow : (system ℕ).Reachable onSecondRow :=
  .tail (e := .absolute 2) (.init ⟨_, length_fourRows, none, rfl⟩) rfl

theorem answersRight_onSecondRow :
    ¬onSecondRow.AnswersRight .hasNext ∧ onSecondRow.AnswersRight (.getPartialList 2 2) :=
  ⟨fun h => (answersRight_iff reachable_onSecondRow .hasNext).mp h ⟨rfl, by decide, by decide⟩,
    (answersRight_iff reachable_onSecondRow (.getPartialList 2 2)).mpr
      (Or.inr (Or.inl (by decide)))⟩

theorem not_answersRight_onSecondRow : ¬∀ (it : EntityListIterator ℕ) (question : Question),
    (system ℕ).Reachable it → it.AnswersRight question := fun h =>
  absurd ((h onSecondRow .hasNext reachable_onSecondRow).mpr (by decide)) (by decide)

end EntityListIterator

end OfficeAuto.Entity
