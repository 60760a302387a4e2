import Mathlib.Data.List.Count
import OfficeAuto.Logic.Result

/-!
# Combined conditions

The conditions of a script are combined by `and`, `or`, `xor` and `not`. They are checked from
left to right, and no further than the answer needs; a check may throw. A combination of nothing
is true, `not` looks at its first condition only, and `xor` asks for exactly one.

What a check answers is the boolean meaning of the condition, whatever the conditions would be that
it does not reach (`checkCondition_eq_holds`).
-/

namespace OfficeAuto.Minilang

/-- A condition over those of the kind `κ`, which look at fields. -/
inductive Conditional (κ : Type)
  | field (condition : κ)
  | and (subConditions : List (Conditional κ))
  | or (subConditions : List (Conditional κ))
  | xor (subConditions : List (Conditional κ))
  | not (subConditions : List (Conditional κ))

namespace Conditional

variable {κ ε : Type}

/-! ### Checks -/

mutual

def checkCondition (check : κ → Except ε Bool) : Conditional κ → Except ε Bool
  | field condition => check condition
  | and [] => .ok true
  | and subConditions => checkAnd check subConditions
  | or [] => .ok true
  | or subConditions => checkOr check subConditions
  | xor [] => .ok true
  | xor subConditions => checkXor check false subConditions
  | not [] => .ok true
  | not (subCond :: _) => do return !(← checkCondition check subCond)

def checkAnd (check : κ → Except ε Bool) : List (Conditional κ) → Except ε Bool
  | [] => .ok true
  | subCond :: rest => do
    if ← checkCondition check subCond then checkAnd check rest else return false

def checkOr (check : κ → Except ε Bool) : List (Conditional κ) → Except ε Bool
  | [] => .ok false
  | subCond :: rest => do
    if ← checkCondition check subCond then return true else checkOr check rest

/-- A second condition that is true ends the check. -/
def checkXor (check : κ → Except ε Bool) (trueFound : Bool) :
    List (Conditional κ) → Except ε Bool
  | [] => .ok trueFound
  | subCond :: rest => do
    if ← checkCondition check subCond then
      if trueFound then return false else checkXor check true rest
    else checkXor check trueFound rest

end

/-! ### Meaning -/

mutual

/-- What a condition means, where `v` says which fields meet theirs. -/
def holds (v : κ → Bool) : Conditional κ → Bool
  | field condition => v condition
  | and subConditions => (holdsEach v subConditions).all id
  | or subConditions => subConditions.isEmpty || (holdsEach v subConditions).any id
  | xor subConditions => subConditions.isEmpty || (holdsEach v subConditions).count true == 1
  | not [] => true
  | not (subCond :: _) => !holds v subCond

def holdsEach (v : κ → Bool) : List (Conditional κ) → List Bool
  | [] => []
  | subCond :: rest => holds v subCond :: holdsEach v rest

end

/-- What a check comes to is the meaning `f`, and it throws what the check of a field throws. -/
structure Answers (check : κ → Except ε Bool) (r : Except ε Bool) (f : (κ → Bool) → Bool) :
    Prop where
  ok : ∀ b, r = .ok b → ∀ v, (∀ k a, check k = .ok a → v k = a) → f v = b
  error : ∀ e, r = .error e → ∃ k, check k = .error e

variable {check : κ → Except ε Bool} {r r₁ r₂ : Except ε Bool} {f g f₁ f₂ : (κ → Bool) → Bool}

theorem answers_const (b : Bool) : Answers check (.ok b) fun _ => b where
  ok _ h _ _ := Except.ok.inj h
  error _ h := absurd h (by simp)

theorem Answers.congr (h : Answers check r f) (hfg : ∀ v, f v = g v) : Answers check r g where
  ok b hb v hv := (hfg v).symm.trans (h.ok b hb v hv)
  error := h.error

/-- A check whose answer decides which one comes next. -/
theorem Answers.branch (h : Answers check r f) (h₁ : Answers check r₁ f₁)
    (h₂ : Answers check r₂ f₂) :
    Answers check (do if ← r then r₁ else r₂) fun v => if f v then f₁ v else f₂ v where
  ok b hb v hv := by
    obtain ⟨a, ha, hb⟩ := Except.bind_eq_ok.mp hb
    simp only [h.ok a ha v hv]
    cases a with
    | true => exact h₁.ok b hb v hv
    | false => exact h₂.ok b hb v hv
  error e he := by
    cases hr : r with
    | error e' =>
      rw [hr] at he
      obtain rfl : e' = e := Except.error.inj he
      exact h.error e' hr
    | ok a =>
      rw [hr] at he
      cases a with
      | true => exact h₁.error e he
      | false => exact h₂.error e he

mutual

theorem answers_checkCondition (check : κ → Except ε Bool) : ∀ c : Conditional κ,
    Answers check (checkCondition check c) fun v => holds v c
  | field condition => by
    rw [checkCondition]
    exact ⟨fun b hb v hv => hv condition b hb, fun e he => ⟨condition, he⟩⟩
  | and [] => answers_const true
  | and (c :: cs) => answers_checkAnd check (c :: cs)
  | or [] => answers_const true
  | or (c :: cs) => answers_checkOr check (c :: cs)
  | xor [] => answers_const true
  | xor (c :: cs) => (answers_checkXor check (c :: cs) false).congr fun v => by simp [holds]
  | not [] => answers_const true
  | not (c :: cs) => by
    have hnot : checkCondition check (not (c :: cs)) =
        (do if ← checkCondition check c then .ok false else .ok true) := by
      rw [checkCondition]
      refine congrArg _ (funext fun b => ?_)
      cases b <;> rfl
    rw [hnot]
    refine ((answers_checkCondition check c).branch (answers_const false)
      (answers_const true)).congr fun v => ?_
    cases h : holds v c <;> simp [holds, h]

theorem answers_checkAnd (check : κ → Except ε Bool) : ∀ cs : List (Conditional κ),
    Answers check (checkAnd check cs) fun v => (holdsEach v cs).all id
  | [] => answers_const true
  | c :: cs =>
    ((answers_checkCondition check c).branch (answers_checkAnd check cs)
      (answers_const false)).congr fun v => by cases h : holds v c <;> simp [holdsEach, h]

theorem answers_checkOr (check : κ → Except ε Bool) : ∀ cs : List (Conditional κ),
    Answers check (checkOr check cs) fun v => (holdsEach v cs).any id
  | [] => answers_const false
  | c :: cs =>
    ((answers_checkCondition check c).branch (answers_const true)
      (answers_checkOr check cs)).congr fun v => by cases h : holds v c <;> simp [holdsEach, h]

theorem answers_checkXor (check : κ → Except ε Bool) : ∀ (cs : List (Conditional κ))
    (trueFound : Bool), Answers check (checkXor check trueFound cs)
      fun v => trueFound.toNat + (holdsEach v cs).count true == 1
  | [], trueFound =>
    (answers_const trueFound).congr fun v => by cases trueFound <;> simp [holdsEach]
  | c :: cs, true =>
    ((answers_checkCondition check c).branch (answers_const false)
      (answers_checkXor check cs true)).congr fun v => by
        cases h : holds v c <;> simp [holdsEach, h]
  | c :: cs, false =>
    ((answers_checkCondition check c).branch (answers_checkXor check cs true)
      (answers_checkXor check cs false)).congr fun v => by
        cases h : holds v c <;> simp [holdsEach, h]

end

/-- **Combined conditions.** An answer is the boolean meaning of the condition for every value that
the fields which are not reached could have; an exception is the one of a field. -/
theorem checkCondition_eq_holds (check : κ → Except ε Bool) (c : Conditional κ) :
    (∀ b, checkCondition check c = .ok b → ∀ v : κ → Bool,
      (∀ k a, check k = .ok a → v k = a) → holds v c = b) ∧
    ∀ e, checkCondition check c = .error e → ∃ k, check k = .error e :=
  ⟨(answers_checkCondition check c).ok, (answers_checkCondition check c).error⟩

end Conditional

end OfficeAuto.Minilang
