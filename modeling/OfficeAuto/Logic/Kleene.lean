import Mathlib.Data.List.Basic

/-!
# Strong Kleene logic

The three truth values of a language with missing data, with the strong Kleene connectives:
a conjunction is `false` as soon as one side is, a disjunction is `true` as soon as one side
is, and everything not so decided is `unknown`. A query language selects what evaluates to
`true`, so the laws below are stated about being `true` (and, for negation, about being
`false`): `true` is compositional for the conjunctions and disjunctions, of two operands or
of a list of them, and only negation has to look at the difference between `false` and
`unknown`.
-/

/-- The three truth values. -/
inductive Kleene
  | false
  | unknown
  | true
  deriving DecidableEq, Repr

namespace Kleene

def ofBool : Bool → Kleene
  | .true => .true
  | .false => .false

def ofOption : Option Bool → Kleene
  | some b => ofBool b
  | none => .unknown

def not : Kleene → Kleene
  | .false => .true
  | .unknown => .unknown
  | .true => .false

def and : Kleene → Kleene → Kleene
  | .false, _ => .false
  | _, .false => .false
  | .true, .true => .true
  | _, _ => .unknown

def or : Kleene → Kleene → Kleene
  | .true, _ => .true
  | _, .true => .true
  | .false, .false => .false
  | _, _ => .unknown

def disj (ts : List Kleene) : Kleene := ts.foldr or .false

@[simp]
theorem ofBool_eq_true {b : Bool} : ofBool b = .true ↔ b = .true := by
  cases b <;> simp [ofBool]

@[simp]
theorem ofBool_eq_false {b : Bool} : ofBool b = .false ↔ b = .false := by
  cases b <;> simp [ofBool]

@[simp]
theorem ofOption_eq_true {o : Option Bool} : ofOption o = .true ↔ o = some .true := by
  cases o <;> simp [ofOption]

@[simp]
theorem ofOption_eq_false {o : Option Bool} : ofOption o = .false ↔ o = some .false := by
  cases o <;> simp [ofOption]

@[simp]
theorem not_eq_true {t : Kleene} : t.not = .true ↔ t = .false := by
  cases t <;> simp [not]

@[simp]
theorem and_eq_true {s t : Kleene} : s.and t = .true ↔ s = .true ∧ t = .true := by
  cases s <;> cases t <;> simp [and]

@[simp]
theorem or_eq_true {s t : Kleene} : s.or t = .true ↔ s = .true ∨ t = .true := by
  cases s <;> cases t <;> simp [or]

@[simp]
theorem or_eq_false {s t : Kleene} : s.or t = .false ↔ s = .false ∧ t = .false := by
  cases s <;> cases t <;> simp [or]

@[simp]
theorem disj_nil : disj [] = .false := rfl

@[simp]
theorem disj_cons (t : Kleene) (ts : List Kleene) : disj (t :: ts) = t.or (disj ts) := rfl

theorem disj_eq_true {ts : List Kleene} : disj ts = .true ↔ ∃ t ∈ ts, t = .true := by
  induction ts with
  | nil => simp
  | cons t ts ih => simp only [disj_cons, or_eq_true, List.mem_cons, exists_eq_or_imp, ih]

end Kleene
