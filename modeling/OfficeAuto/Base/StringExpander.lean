import Mathlib.Algebra.Ring.Int.Defs
import Mathlib.Algebra.Ring.Nat
import Mathlib.Data.List.Forall2
import OfficeAuto.Logic.CallTree
import OfficeAuto.Text.Search
import OfficeAuto.Text.Split

/-!
# Splitting a string into its expressions

A `FlexibleStringExpander` is a string that is split into constants and expressions `${…}`.
`getStrElems` goes from one `${` to the next. It seeks the closing brace, counts the opening
braces before it, and makes of the text between them a Groovy script, an amount of a currency,
a nested expression, whose text is split in turn, or a variable. A `\${` is not an expression;
it stands for the text without its backslash.

The elements keep the array of characters of the whole string, with an offset and a length.

Where the braces of an expression do not match, the end of the expression is set to the *length*
of the text. `Closes` says that this does not happen on the way, and that the scripts compile;
the elements are then those of a segmentation of the text (`Splits`), which the texts of the
elements make up, with the backslashes put back (`getStrElems_splits`).
-/

namespace OfficeAuto.Base

open Text

def openBracket : List Char := ['$', '{']

def closeBracket : List Char := ['}']

/-- The elements and containers of a split string. -/
inductive Expander
  | constSimple (chars : List Char)
  | constOffset (chars : List Char) (offset : ℕ) (length : ℤ)
  | script (chars : List Char) (offset : ℕ) (length : ℤ) (language script : List Char)
  | curr (chars : List Char) (offset : ℕ) (length : ℤ) (codeExpr : Expander)
  | nestedVar (chars : List Char) (offset : ℕ) (length : ℤ) (childElems : List Expander)
  | var (chars : List Char) (offset : ℕ) (length : ℤ)
  | elements (chars : List Char) (offset : ℕ) (length : ℤ) (childElems : List Expander)

/-- `new String(chars, offset, length)`; `none` is the index-out-of-bounds exception. -/
def newString (chars : List Char) (offset : ℕ) (length : ℤ) : Option (List Char) :=
  if 0 ≤ length ∧ offset + length ≤ chars.length then
    some (slice chars offset (offset + length.toNat))
  else none

namespace Expander

def nullExpr : Expander := constSimple []

def getOriginal : Expander → Option (List Char)
  | constSimple chars => some chars
  | constOffset chars offset length => newString chars offset length
  | script chars offset length _ _ => newString chars offset length
  | curr chars offset length _ => newString chars offset length
  | nestedVar chars offset length _ => newString chars offset length
  | var chars offset length => newString chars offset length
  | elements chars offset length _ => newString chars offset length

def elems : Expander → List Expander
  | elements _ _ _ childElems => childElems
  | e => [e]

def isConst : Expander → Bool
  | constSimple _ => true
  | constOffset _ _ _ => true
  | _ => false

def isExpression : Expander → Bool
  | script _ _ _ _ _ => true
  | curr _ _ _ _ => true
  | nestedVar _ _ _ _ => true
  | var _ _ _ => true
  | _ => false

end Expander

abbrev ExprCache := List Char → Option Expander

/-! ### Splitting -/

section Split

-- whether Groovy compiles a script, and the array of characters
variable (compiles : List Char → Bool) (chars : List Char)

/-- The scan for the matching bracket: `stop` is the candidate, and `ptr` the next opening brace.
A pass moves `ptr` on, so that `n` is the length of the text. -/
def matchBracket (expression : List Char) : ℕ → Option ℕ → Option ℕ → Option ℕ
  | n + 1, some stop, some ptr =>
    if ptr < stop then
      matchBracket expression n (indexOfFrom closeBracket expression (stop + 1))
        (indexOfFrom ['{'] expression (ptr + 1))
    else some stop
  | _, stop, _ => stop

def isEscaped (start : ℕ) : Bool :=
  0 < start && chars[start - 1]? == some '\\'

def isScript (expression : List Char) (start : ℕ) : Bool :=
  indexOfFrom "groovy:".toList expression (start + 2) == some (start + 2)

/-- The closing brace of an expression, whose first one is `stop`: the first for a script that is
not escaped, and the matching one for all others. -/
def expressionEnd (expression : List Char) (start stop : ℕ) : Option ℕ :=
  if isScript expression start && !isEscaped chars start then some stop
  else matchBracket expression expression.length (some stop)
    (indexOfFrom ['{'] expression (start + 2))

def currencyPlace (subExpression : List Char) : Option (ℕ × ℕ) :=
  match indexOfFrom "?currency(".toList subExpression 0 with
  | none => none
  | some currencyPos =>
    if 0 < currencyPos then
      (indexOfFrom [')'] subExpression (currencyPos + 10)).map fun closeParen =>
        (currencyPos, closeParen)
    else none

def newScriptElem (start : ℕ) (length : ℤ) (parseStart : ℕ) (parseLength : ℤ) :
    Outcome Expander :=
  match newString chars (start + 2) (parseStart - start - 3),
      newString chars parseStart parseLength with
  | some language, some script =>
    if language == "groovy".toList && !compiles script then .threw
    else .done (.script chars start length language script)
  | _, _ => .threw

abbrev Splitter := ℕ → ℕ → ExprCache → Outcome (List Expander × ExprCache)

def parse (getStrElems : Splitter) (offset length : ℕ) (cache : ExprCache) :
    Outcome (Expander × ExprCache) :=
  (getStrElems offset length cache).bind fun r =>
    .done (match r.1 with
      | [strElem] => strElem
      | strElems => .elements chars offset length strElems, r.2)

def getInstanceAt (getStrElems : Splitter) (expression : List Char) (offset length : ℕ)
    (useCache : Bool) (cache : ExprCache) : Outcome (Expander × ExprCache) :=
  if length = 0 then .done (.nullExpr, cache)
  else if !useCache then parse chars getStrElems offset length cache
  else if indexOfFrom openBracket expression 0 = none then
    .done (if chars.length = length then .constSimple chars
      else .constOffset chars offset length, cache)
  else
    match if chars.length = length then some chars else newString chars offset length with
    | none => .threw
    | some key =>
      match cache key with
      | some fse => .done (fse, cache)
      | none => (parse chars getStrElems offset length cache).bind fun r =>
        .done (r.1, fun k => if k = key then some r.1 else r.2 k)

def newCurrElem (getStrElems : Splitter) (start : ℕ) (length : ℤ) (parseStart : ℕ)
    (parseLength : ℤ) (cache : ExprCache) : Outcome (Expander × ExprCache) :=
  match newString chars parseStart parseLength with
  | none => .threw
  | some parse =>
    match currencyPlace parse with
    | none => .threw
    | some (currencyPos, closeParen) =>
      (getInstanceAt chars getStrElems parse (parseStart + currencyPos + 10)
        (closeParen - currencyPos - 10) true cache).bind fun r =>
          .done (.curr chars start length r.1, r.2)

/-- The element of an expression from `start` to its closing brace at `stop`. -/
def newElem (getStrElems : Splitter) (expression : List Char) (length start stop : ℕ)
    (cache : ExprCache) : Outcome (Expander × ExprCache) :=
  let count : ℤ := min (stop + 1 : ℤ) (start + length) - start
  let parseLength : ℕ := min (stop - 2) (start + length) - start
  match substring expression (start + 2) stop with
  | none => .threw
  | some subExpression =>
    if (currencyPlace subExpression).isSome then
      newCurrElem chars getStrElems start count (start + 2) (stop - start - 1) cache
    else if (indexOfFrom openBracket subExpression 0).isSome then
      (getStrElems (start + 2) parseLength cache).bind fun r =>
        .done (.nestedVar chars start count r.1, r.2)
    else
      match newString chars (start + 2) parseLength with
      | none => .threw
      | some _ => .done (.var chars start count, cache)

/-- The element at `start`, the first closing brace after which is `stop`, with the position of
its end. -/
def strElem (getStrElems : Splitter) (expression : List Char) (length start stop : ℕ)
    (cache : ExprCache) : Outcome (Expander × ℕ × ExprCache) :=
  if isScript expression start && !isEscaped chars start then
    (newScriptElem compiles chars start (min (stop + 1 : ℤ) (start + length) - start) (start + 9)
      (stop - start - 9)).bind fun e => .done (e, stop, cache)
  else
    -- where the braces do not match, the end is the length of the text
    let stop' := (expressionEnd chars expression start stop).getD length
    if isEscaped chars start then
      .done (.constOffset chars start (stop' + 1 - start), stop', cache)
    else
      (newElem chars getStrElems expression length start stop' cache).bind fun r =>
        .done (r.1, stop', r.2)

def constBefore (currentInd start : ℕ) : List Expander :=
  if currentInd < start then
    [.constOffset chars currentInd
      ((if isEscaped chars start then (start - 1 : ℤ) else start) - currentInd)]
  else []

def constAfter (currentInd limit : ℕ) : List Expander :=
  if currentInd < limit then [.constOffset chars currentInd (limit - currentInd)] else []

def getStrElemsBy (loop : ℕ → ℕ → ℕ → List Expander → ExprCache →
    Outcome (List Expander × ExprCache)) (offset length : ℕ) (cache : ExprCache) :
    Outcome (List Expander × ExprCache) :=
  if chars.length < length + offset then .threw
  else if indexOfFrom openBracket (chars.take (length + offset)) offset = none then
    .done ([.constOffset chars offset length], cache)
  else loop offset length offset [] cache

def splitLoop : ℕ → ℕ → ℕ → ℕ → List Expander → ExprCache → Outcome (List Expander × ExprCache)
  | 0, _, _, _, _, _ => .timeout
  | n + 1, offset, length, currentInd, strElems, cache =>
    let expression := chars.take (length + offset)
    let leave := .done (strElems ++ constAfter chars currentInd (length + offset), cache)
    match indexOfFrom openBracket expression currentInd with
    | none => leave
    | some start =>
      match indexOfFrom closeBracket expression start with
      | none => leave
      | some stop =>
        (strElem compiles chars (getStrElemsBy chars (splitLoop n)) expression length start stop
          cache).bind fun r =>
            splitLoop n offset length (min (r.2.1 + 1) (length + offset))
              (strElems ++ constBefore chars currentInd start ++ [r.1]) r.2.2

/-- **`getStrElems`**, on a budget for the depth of its loops. -/
def getStrElems (n : ℕ) : Splitter :=
  getStrElemsBy chars (splitLoop compiles chars n)

end Split

/-- **`getInstance`**. -/
def getInstance (compiles : List Char → Bool) (n : ℕ) (expression : Option (List Char))
    (useCache : Bool) (cache : ExprCache) : Outcome (Expander × ExprCache) :=
  match expression with
  | none => .done (.nullExpr, cache)
  | some [] => .done (.nullExpr, cache)
  | some chars =>
    getInstanceAt chars (getStrElems compiles chars n) chars 0 chars.length useCache cache

/-! ### Segmentations -/

/-- A piece of a split text. -/
inductive Segment
  | literal (text : List Char)
  | escaped (text : List Char)
  | expression (text : List Char)

namespace Segment

def text : Segment → List Char
  | literal text => text
  | escaped text => text
  | expression text => text

def source : Segment → List Char
  | escaped text => '\\' :: text
  | segment => segment.text

def IsBraced (text : List Char) : Prop :=
  ∃ body, text = openBracket ++ body ++ closeBracket

/-- An element is made from a piece: it has its text, an expression is an expression in its
braces, and all else is a constant. -/
def Shows : Segment → Expander → Prop
  | literal text, e => e.getOriginal = some text ∧ e.isConst
  | escaped text, e => e.getOriginal = some text ∧ e.isConst ∧ IsBraced text
  | expression text, e => e.getOriginal = some text ∧ e.isExpression ∧ IsBraced text

end Segment

/-- **The elements split the text**: their texts make it up, with a backslash before each of the
escaped expressions. -/
def Splits (text : List Char) (strElems : List Expander) : Prop :=
  ∃ segments : List Segment, text = segments.flatMap Segment.source ∧
    List.Forall₂ Segment.Shows segments strElems

theorem Splits.append {text₁ text₂ : List Char} {strElems₁ strElems₂ : List Expander}
    (h₁ : Splits text₁ strElems₁) (h₂ : Splits text₂ strElems₂) :
    Splits (text₁ ++ text₂) (strElems₁ ++ strElems₂) := by
  obtain ⟨segments₁, rfl, hshows₁⟩ := h₁
  obtain ⟨segments₂, rfl, hshows₂⟩ := h₂
  exact ⟨segments₁ ++ segments₂, by simp, List.rel_append hshows₁ hshows₂⟩

theorem Splits.nil : Splits [] [] :=
  ⟨[], rfl, .nil⟩

theorem Splits.literal {text : List Char} {e : Expander} (h : e.getOriginal = some text)
    (hconst : e.isConst) : Splits text [e] :=
  ⟨[.literal text], by simp [Segment.source, Segment.text], .cons ⟨h, hconst⟩ .nil⟩

theorem Splits.escaped {text : List Char} {e : Expander} (h : e.getOriginal = some text)
    (hconst : e.isConst) (hbraced : Segment.IsBraced text) : Splits ('\\' :: text) [e] :=
  ⟨[.escaped text], by simp [Segment.source], .cons ⟨h, hconst, hbraced⟩ .nil⟩

theorem Splits.expression {text : List Char} {e : Expander} (h : e.getOriginal = some text)
    (hexpression : e.isExpression) (hbraced : Segment.IsBraced text) : Splits text [e] :=
  ⟨[.expression text], by simp [Segment.source, Segment.text],
    .cons ⟨h, hexpression, hbraced⟩ .nil⟩

theorem Splits.elems_of_single {text : List Char} {e : Expander} (h : Splits text [e]) :
    e.elems = [e] := by
  obtain ⟨segments, -, hshows⟩ := h
  obtain ⟨segment, _, hshow, -, rfl⟩ := List.forall₂_cons_right_iff.mp hshows
  have hkind : e.isConst = true ∨ e.isExpression = true := by
    rcases segment with _ | _ | _
    · exact .inl hshow.2
    · exact .inl hshow.2.1
    · exact .inr hshow.2.1
  rcases e with _ | _ | _ | _ | _ | _ | _ <;> first
    | rfl
    | simp [Expander.isConst, Expander.isExpression] at hkind

def ExprCache.Sound (cache : ExprCache) : Prop :=
  ∀ key fse, cache key = some fse → Splits key fse.elems

/-! ### Texts whose expressions close -/

/-- The text from `currentInd` to `limit` closes: at each `${` that the splitter comes to, there
is no closing brace behind it, or it has a matching one, where an expression that is not escaped
closes inside, in the code of a currency, or as a nested expression, and is compiled if it is a
script. -/
inductive Closes (compiles : List Char → Bool) (chars : List Char) : ℕ → ℕ → Prop
  | rest {limit currentInd : ℕ}
      (h : ∀ start, indexOfFrom openBracket (chars.take limit) currentInd = some start →
        indexOfFrom closeBracket (chars.take limit) start = none) :
      Closes compiles chars limit currentInd
  | expression {limit currentInd start first stop : ℕ}
      (hstart : indexOfFrom openBracket (chars.take limit) currentInd = some start)
      (hfirst : indexOfFrom closeBracket (chars.take limit) start = some first)
      (hstop : expressionEnd chars (chars.take limit) start first = some stop)
      (hscript : isEscaped chars start = false → isScript (chars.take limit) start = true →
        compiles (slice chars (start + 9) stop) = true)
      (hcode : isEscaped chars start = false → isScript (chars.take limit) start = false →
        ∀ currencyPos closeParen,
          currencyPlace (slice chars (start + 2) stop) = some (currencyPos, closeParen) →
          Closes compiles chars (start + 2 + closeParen) (start + 2 + currencyPos + 10))
      (hnested : isEscaped chars start = false → isScript (chars.take limit) start = false →
        currencyPlace (slice chars (start + 2) stop) = none →
        (indexOfFrom openBracket (slice chars (start + 2) stop) 0).isSome = true →
        Closes compiles chars stop (start + 2))
      (hrest : Closes compiles chars limit (stop + 1)) :
      Closes compiles chars limit currentInd

/-! ### Where expressions start and end -/

section Places

variable {chars : List Char} {limit currentInd start first stop : ℕ}

theorem newString_slice {i j : ℕ} (hij : i ≤ j) (hj : j ≤ chars.length) :
    newString chars i ((j : ℤ) - i) = some (slice chars i j) := by
  have hlen : ((j : ℤ) - i).toNat = j - i := by omega
  rw [newString, if_pos (by omega), hlen, Nat.add_sub_cancel' hij]

theorem slice_of_prefix_take {pattern : List Char} {i : ℕ} (hne : pattern ≠ [])
    (h : pattern <+: (chars.take limit).drop i) :
    i + pattern.length ≤ limit ∧ i + pattern.length ≤ chars.length ∧
      slice chars i (i + pattern.length) = pattern := by
  have hle := le_length_of_prefix hne h
  rw [List.length_take] at hle
  refine ⟨by omega, by omega, ?_⟩
  rw [← slice_take (s := chars) (k := limit) (by omega)]
  exact slice_of_prefix h

theorem matchBracket_spec {expression : List Char} {P : ℕ → Prop}
    (hP : ∀ i j, P i → indexOfFrom closeBracket expression (i + 1) = some j → P j) (n : ℕ)
    {candidate ptr : Option ℕ} (h : ∀ i, candidate = some i → P i)
    (hstop : matchBracket expression n candidate ptr = some stop) : P stop := by
  induction n generalizing candidate ptr with
  | zero =>
    unfold matchBracket at hstop
    exact h stop hstop
  | succ n ih =>
    rcases candidate with _ | i
    · simp [matchBracket] at hstop
    rcases ptr with _ | ptr
    · exact h stop hstop
    rw [matchBracket] at hstop
    split_ifs at hstop
    · exact ih (fun j hj => hP i j (h i rfl) hj) hstop
    · exact h stop hstop

theorem expressionEnd_spec
    (hfirst : indexOfFrom closeBracket (chars.take limit) start = some first)
    (hstop : expressionEnd chars (chars.take limit) start first = some stop) :
    first ≤ stop ∧ closeBracket <+: (chars.take limit).drop stop := by
  have hplace := prefix_of_indexOfFrom hfirst
  unfold expressionEnd at hstop
  split_ifs at hstop
  · obtain rfl := Option.some.inj hstop
    exact ⟨le_rfl, hplace⟩
  · refine matchBracket_spec (P := fun i => first ≤ i ∧ closeBracket <+: (chars.take limit).drop i)
      (fun i j hi hj => ⟨?_, prefix_of_indexOfFrom hj⟩) _ (fun i hi => ?_) hstop
    · have := le_of_indexOfFrom hj
      omega
    · obtain rfl := Option.some.inj hi
      exact ⟨le_rfl, hplace⟩

theorem places (hstart : indexOfFrom openBracket (chars.take limit) currentInd = some start)
    (hfirst : indexOfFrom closeBracket (chars.take limit) start = some first)
    (hstop : expressionEnd chars (chars.take limit) start first = some stop) :
    currentInd ≤ start ∧ start + 2 ≤ first ∧ first ≤ stop ∧ stop < limit ∧
      stop < chars.length ∧ Segment.IsBraced (slice chars start (stop + 1)) := by
  have hind := le_of_indexOfFrom hstart
  obtain ⟨hlimit, hlen, hopen⟩ := slice_of_prefix_take (by simp [openBracket])
    (prefix_of_indexOfFrom hstart)
  obtain ⟨hle, hplace⟩ := expressionEnd_spec hfirst hstop
  obtain ⟨hlimit', hlen', hclose⟩ := slice_of_prefix_take (by simp [closeBracket]) hplace
  simp only [openBracket, closeBracket, List.length_cons, List.length_nil, zero_add] at *
  have hbrace : start + 2 ≤ first := by
    have hge := le_of_indexOfFrom hfirst
    have hdollar := getElem?_of_prefix (prefix_of_indexOfFrom hstart) (k := 0) (by simp)
    have hopen' := getElem?_of_prefix (prefix_of_indexOfFrom hstart) (k := 1) (by simp)
    have hclose' := getElem?_of_prefix (prefix_of_indexOfFrom hfirst) (k := 0) (by simp)
    by_contra hlt
    obtain rfl | rfl : first = start ∨ first = start + 1 := by omega
    · simp_all
    · simp_all
  refine ⟨hind, hbrace, hle, by omega, by omega, slice chars (start + 2) stop, ?_⟩
  rw [openBracket, closeBracket, ← hopen, ← hclose,
    slice_append_slice (by omega) (by omega), slice_append_slice (by omega) (by omega)]

theorem currencyPlace_spec {subExpression : List Char} {currencyPos closeParen : ℕ}
    (h : currencyPlace subExpression = some (currencyPos, closeParen)) :
    currencyPos + 10 ≤ closeParen ∧ closeParen < subExpression.length := by
  unfold currencyPlace at h
  split at h
  · simp at h
  split_ifs at h
  obtain ⟨paren, hparen, heq⟩ := Option.map_eq_some_iff.mp h
  obtain ⟨rfl, rfl⟩ := Prod.mk.inj heq
  have hlt := le_length_of_prefix (by simp) (prefix_of_indexOfFrom hparen)
  exact ⟨le_of_indexOfFrom hparen, hlt⟩

theorem currencyPlace_append {subExpression : List Char} {place : ℕ × ℕ}
    (h : currencyPlace subExpression = some place) (rest : List Char) :
    currencyPlace (subExpression ++ rest) = some place := by
  unfold currencyPlace at *
  split at h
  · simp at h
  rename_i currencyPos hpos
  split_ifs at h with hlt
  obtain ⟨paren, hparen, rfl⟩ := Option.map_eq_some_iff.mp h
  have hle := le_length_of_prefix (by simp) (prefix_of_indexOfFrom hpos)
  simp only [indexOfFrom_append hpos rest (Nat.zero_le _), hlt, if_true]
  rw [indexOfFrom_append hparen rest (by simpa using hle), Option.map_some]

end Places

/-! ### What the elements show -/

section Elements

variable {compiles : List Char → Bool} {chars : List Char}

theorem Splits.constOffset {i j : ℕ} (hij : i ≤ j) (hj : j ≤ chars.length) :
    Splits (slice chars i j) [.constOffset chars i ((j : ℤ) - i)] :=
  Splits.literal (newString_slice hij hj) rfl

theorem splits_constAfter {i limit : ℕ} (hlimit : limit ≤ chars.length) (hi : i ≤ limit) :
    Splits (slice chars i limit) (constAfter chars i limit) := by
  unfold constAfter
  split_ifs with hlt
  · exact Splits.constOffset hi hlimit
  · obtain rfl : i = limit := by omega
    rw [slice_self]
    exact Splits.nil

theorem splits_constBefore {i start stop : ℕ} {e : Expander} (hi : i ≤ start)
    (hstart : start ≤ stop) (hstop : stop ≤ chars.length)
    (he : e.getOriginal = some (slice chars start stop))
    (hkind : if isEscaped chars start then e.isConst = true else e.isExpression = true)
    (hbraced : Segment.IsBraced (slice chars start stop)) :
    Splits (slice chars i stop) (constBefore chars i start ++ [e]) := by
  by_cases hlt : i < start
  · have hcut : slice chars i start ++ slice chars start stop = slice chars i stop :=
      slice_append_slice hi hstart
    by_cases hescaped : isEscaped chars start
    · -- the backslash belongs to neither of the elements
      rw [if_pos hescaped] at hkind
      obtain ⟨-, hbackslash⟩ : 0 < start ∧ chars[start - 1]? = some '\\' := by
        simpa [isEscaped] using hescaped
      have hslash : slice chars (start - 1) start = ['\\'] := by
        have hsucc := slice_succ hbackslash
        rwa [Nat.sub_add_cancel (by omega)] at hsucc
      have hbefore : slice chars i (start - 1) ++ ['\\'] = slice chars i start := by
        rw [← hslash, slice_append_slice (by omega) (by omega)]
      have hcast : ((start - 1 : ℕ) : ℤ) = (start : ℤ) - 1 := by omega
      have hconst : Splits (slice chars i (start - 1))
          [.constOffset chars i (((start - 1 : ℕ) : ℤ) - i)] :=
        Splits.constOffset (by omega) (by omega)
      have hboth := hconst.append (Splits.escaped he hkind hbraced)
      rw [List.append_cons, hbefore, hcut, hcast] at hboth
      simpa [constBefore, hlt, hescaped] using hboth
    · rw [if_neg hescaped] at hkind
      have hconst : Splits (slice chars i start) [.constOffset chars i ((start : ℤ) - i)] :=
        Splits.constOffset hi (by omega)
      have hboth := hconst.append (Splits.expression he hkind hbraced)
      rw [hcut] at hboth
      simpa [constBefore, hlt, hescaped] using hboth
  · obtain rfl : i = start := by omega
    simp only [constBefore, lt_irrefl, if_false, List.nil_append]
    split_ifs at hkind
    · exact Splits.literal he hkind
    · exact Splits.expression he hkind hbraced

def Parsed (split : Splitter) (chars : List Char) (offset limit : ℕ) : Prop :=
  ∀ cache : ExprCache, cache.Sound → ∃ strElems cache',
    split offset (limit - offset) cache = .done (strElems, cache') ∧ cache'.Sound ∧
      Splits (slice chars offset limit) strElems

theorem parse_spec {split : Splitter} {offset limit : ℕ} (hparsed : Parsed split chars offset limit)
    {cache : ExprCache} (hcache : cache.Sound) :
    ∃ fse cache', parse chars split offset (limit - offset) cache = .done (fse, cache') ∧
      cache'.Sound ∧ Splits (slice chars offset limit) fse.elems := by
  obtain ⟨strElems, cache', hsplit, hcache', hsplits⟩ := hparsed cache hcache
  unfold parse
  rw [hsplit]
  refine ⟨_, cache', rfl, hcache', ?_⟩
  rcases strElems with _ | ⟨e, _ | ⟨e', rest⟩⟩
  · exact hsplits
  · dsimp only
    rwa [hsplits.elems_of_single]
  · exact hsplits

theorem getInstanceAt_spec {split : Splitter} {offset limit : ℕ} (expression : List Char)
    (hle : offset ≤ limit) (hlimit : limit ≤ chars.length)
    (hparsed : Parsed split chars offset limit) (useCache : Bool) {cache : ExprCache}
    (hcache : cache.Sound) :
    ∃ fse cache', getInstanceAt chars split expression offset (limit - offset) useCache cache =
        .done (fse, cache') ∧
      cache'.Sound ∧ Splits (slice chars offset limit) fse.elems := by
  have hlen : (slice chars offset limit).length = limit - offset := length_slice hlimit
  have hkey : (if chars.length = limit - offset then some chars
      else newString chars offset ((limit - offset : ℕ) : ℤ)) =
        some (slice chars offset limit) := by
    split_ifs with hwhole
    · obtain ⟨rfl, rfl⟩ : offset = 0 ∧ limit = chars.length := by omega
      rw [slice_zero_length]
    · rw [Nat.cast_sub hle, newString_slice hle hlimit]
  unfold getInstanceAt
  rw [hkey]
  split_ifs with hzero hcached hconst hwhole
  · refine ⟨.nullExpr, cache, rfl, hcache, ?_⟩
    rw [List.eq_nil_of_length_eq_zero (hlen.trans hzero)]
    exact Splits.literal rfl rfl
  · exact parse_spec hparsed hcache
  · obtain ⟨rfl, rfl⟩ : offset = 0 ∧ limit = chars.length := by omega
    refine ⟨_, cache, rfl, hcache, ?_⟩
    rw [slice_zero_length]
    exact Splits.literal rfl rfl
  · refine ⟨_, cache, rfl, hcache, ?_⟩
    rw [Nat.cast_sub hle]
    exact Splits.constOffset hle hlimit
  · dsimp only
    split
    · rename_i fse hfse
      exact ⟨fse, cache, rfl, hcache, hcache _ fse hfse⟩
    · obtain ⟨fse, cache', hparse, hcache', hsplits⟩ := parse_spec hparsed hcache
      rw [hparse]
      refine ⟨fse, _, rfl, fun key e he => ?_, hsplits⟩
      dsimp only at he
      split_ifs at he with heq
      · rw [heq, ← Option.some.inj he]
        exact hsplits
      · exact hcache' key e he

theorem newElem_spec {split : Splitter} {limit length start stop : ℕ} (hstart : start + 2 ≤ stop)
    (hstop : stop < limit) (hlimit : limit ≤ chars.length) (hlength : limit ≤ start + length)
    (hcode : ∀ currencyPos closeParen,
      currencyPlace (slice chars (start + 2) stop) = some (currencyPos, closeParen) →
      Parsed split chars (start + 2 + currencyPos + 10) (start + 2 + closeParen))
    (hnested : currencyPlace (slice chars (start + 2) stop) = none →
      (indexOfFrom openBracket (slice chars (start + 2) stop) 0).isSome = true →
      Parsed split chars (start + 2) stop)
    {cache : ExprCache} (hcache : cache.Sound) :
    ∃ e cache', newElem chars split (chars.take limit) length start stop cache =
        .done (e, cache') ∧
      cache'.Sound ∧ e.getOriginal = some (slice chars start (stop + 1)) ∧
      e.isExpression = true := by
  have hsub : substring (chars.take limit) (start + 2) stop =
      some (slice chars (start + 2) stop) := by
    have hlen : (chars.take limit).length = limit := by simp [hlimit]
    rw [substring, if_pos (by omega)]
    exact congrArg some (slice_take (by omega))
  have hcount : min (stop + 1 : ℤ) (start + length) - start = ((stop + 1 : ℕ) : ℤ) - start := by
    omega
  have hparseLength : min (stop - 2) (start + length) - start = stop - (start + 2) := by
    omega
  have horiginal : newString chars start (((stop + 1 : ℕ) : ℤ) - start) =
      some (slice chars start (stop + 1)) := newString_slice (by omega) (by omega)
  unfold newElem
  simp only [hsub, hcount, hparseLength]
  split_ifs with hcurrency hopen
  · -- the constructor looks for the code in the text up to and including the closing brace
    obtain ⟨⟨currencyPos, closeParen⟩, hplace⟩ := Option.isSome_iff_exists.mp hcurrency
    obtain ⟨hpos, hparen⟩ := currencyPlace_spec hplace
    rw [length_slice (by omega)] at hparen
    have hparse : newString chars (start + 2) ((stop : ℤ) - start - 1) =
        some (slice chars (start + 2) (stop + 1)) := by
      have hcast : (stop : ℤ) - start - 1 = ((stop + 1 : ℕ) : ℤ) - (start + 2 : ℕ) := by omega
      rw [hcast, newString_slice (by omega) (by omega)]
    have hplace' := currencyPlace_append hplace (slice chars stop (stop + 1))
    rw [slice_append_slice (by omega) (by omega)] at hplace'
    have hlen : closeParen - currencyPos - 10 =
        start + 2 + closeParen - (start + 2 + currencyPos + 10) := by omega
    unfold newCurrElem
    simp only [hparse, hplace', hlen]
    obtain ⟨fse, cache', hfse, hcache', -⟩ := getInstanceAt_spec
      (slice chars (start + 2) (stop + 1)) (by omega) (by omega)
      (hcode currencyPos closeParen hplace) true hcache
    rw [hfse]
    exact ⟨_, cache', rfl, hcache', horiginal, rfl⟩
  · have hplace : currencyPlace (slice chars (start + 2) stop) = none := by
      simpa using hcurrency
    obtain ⟨strElems, cache', hsplit, hcache', -⟩ := hnested hplace hopen cache hcache
    rw [hsplit]
    exact ⟨_, cache', rfl, hcache', horiginal, rfl⟩
  · have hvar : newString chars (start + 2) ((stop - (start + 2) : ℕ) : ℤ) =
        some (slice chars (start + 2) stop) := by
      rw [Nat.cast_sub hstart, newString_slice hstart (by omega)]
    rw [hvar]
    exact ⟨_, cache, rfl, hcache, horiginal, rfl⟩

theorem script_le {limit start first : ℕ}
    (hscript : isScript (chars.take limit) start = true) (hbrace : start + 2 ≤ first)
    (hfirst : indexOfFrom closeBracket (chars.take limit) start = some first) :
    start + 9 ≤ first := by
  have hprefix := prefix_of_indexOfFrom (beq_iff_eq.mp hscript)
  have hclose := getElem?_of_prefix (prefix_of_indexOfFrom hfirst) (k := 0) (by simp [closeBracket])
  by_contra hlt
  -- one of the characters of the prefix would be the brace
  obtain ⟨k, hk, rfl⟩ : ∃ k < 7, first = start + 2 + k := ⟨first - (start + 2), by omega, by omega⟩
  have hat := getElem?_of_prefix hprefix (k := k) hk
  rw [Nat.add_zero, hat] at hclose
  have hmem : '}' ∈ "groovy:".toList := List.mem_of_getElem? hclose
  exact absurd hmem (by decide)

theorem strElem_spec {split : Splitter} {limit length currentInd start first stop : ℕ}
    (hlimit : limit ≤ chars.length) (hlength : limit ≤ start + length)
    (hstart : indexOfFrom openBracket (chars.take limit) currentInd = some start)
    (hfirst : indexOfFrom closeBracket (chars.take limit) start = some first)
    (hstop : expressionEnd chars (chars.take limit) start first = some stop)
    (hscript : isEscaped chars start = false → isScript (chars.take limit) start = true →
      compiles (slice chars (start + 9) stop) = true)
    (hcode : isEscaped chars start = false → isScript (chars.take limit) start = false →
      ∀ currencyPos closeParen,
        currencyPlace (slice chars (start + 2) stop) = some (currencyPos, closeParen) →
        Parsed split chars (start + 2 + currencyPos + 10) (start + 2 + closeParen))
    (hnested : isEscaped chars start = false → isScript (chars.take limit) start = false →
      currencyPlace (slice chars (start + 2) stop) = none →
      (indexOfFrom openBracket (slice chars (start + 2) stop) 0).isSome = true →
      Parsed split chars (start + 2) stop)
    {cache : ExprCache} (hcache : cache.Sound) :
    ∃ e cache', strElem compiles chars split (chars.take limit) length start first cache =
        .done (e, stop, cache') ∧
      cache'.Sound ∧ e.getOriginal = some (slice chars start (stop + 1)) ∧
      (if isEscaped chars start then e.isConst = true else e.isExpression = true) := by
  obtain ⟨-, hbrace, hle, hlt, -, -⟩ := places hstart hfirst hstop
  have horiginal : newString chars start (((stop + 1 : ℕ) : ℤ) - start) =
      some (slice chars start (stop + 1)) := newString_slice (by omega) (by omega)
  unfold strElem
  by_cases hkind : (isScript (chars.take limit) start && !isEscaped chars start) = true
  · obtain ⟨his, hescaped⟩ : isScript (chars.take limit) start = true ∧
        isEscaped chars start = false := by simpa using hkind
    obtain rfl : first = stop := by simpa [expressionEnd, hkind] using hstop
    have hnine := script_le his hbrace hfirst
    have hlanguage : newString chars (start + 2) (((start + 9 : ℕ) : ℤ) - start - 3) =
        some (slice chars (start + 2) (start + 8)) := by
      have hcast : ((start + 9 : ℕ) : ℤ) - start - 3 = ((start + 8 : ℕ) : ℤ) - (start + 2 : ℕ) := by
        omega
      rw [hcast, newString_slice (by omega) (by omega)]
    have hbody : newString chars (start + 9) ((first : ℤ) - start - 9) =
        some (slice chars (start + 9) first) := by
      have hcast : (first : ℤ) - start - 9 = (first : ℤ) - (start + 9 : ℕ) := by omega
      rw [hcast, newString_slice hnine (by omega)]
    have hcount : min (first + 1 : ℤ) (start + length) - start =
        ((first + 1 : ℕ) : ℤ) - start := by omega
    rw [if_pos hkind, newScriptElem, hlanguage, hbody, hcount]
    simp only [hscript hescaped his, Bool.not_true, Bool.and_false, Bool.false_eq_true, if_false]
    refine ⟨_, cache, rfl, hcache, horiginal, ?_⟩
    rw [if_neg (by simp [hescaped])]
    rfl
  · rw [if_neg hkind, hstop, Option.getD_some]
    by_cases hescaped : isEscaped chars start = true
    · rw [if_pos hescaped]
      refine ⟨_, cache, rfl, hcache, ?_, ?_⟩
      · rw [← horiginal, Nat.cast_succ]
        rfl
      · rw [if_pos hescaped]
        rfl
    · have hnot : isEscaped chars start = false := by simpa using hescaped
      have his : isScript (chars.take limit) start = false := by simpa [hnot] using hkind
      obtain ⟨e, cache', he, hcache', horig, hexpression⟩ := newElem_spec (by omega) hlt hlimit
        hlength (hcode hnot his) (hnested hnot his) hcache
      rw [if_neg hescaped, he]
      refine ⟨e, cache', rfl, hcache', horig, ?_⟩
      rwa [if_neg hescaped]

/-- On every budget that is large enough, the loop splits the text from `currentInd` on. -/
def Looped (compiles : List Char → Bool) (chars : List Char) (limit currentInd : ℕ) : Prop :=
  ∃ N, ∀ n ≥ N, ∀ offset ≤ currentInd, ∀ (strElems : List Expander) (cache : ExprCache),
    cache.Sound → ∃ newElems cache',
      splitLoop compiles chars n offset (limit - offset) currentInd strElems cache =
          .done (strElems ++ newElems, cache') ∧
        cache'.Sound ∧ Splits (slice chars currentInd limit) newElems

theorem parsed_of_looped {limit offset : ℕ} (hoffset : offset ≤ limit)
    (hlimit : limit ≤ chars.length) (h : Looped compiles chars limit offset) :
    ∃ N, ∀ n ≥ N, Parsed (getStrElems compiles chars n) chars offset limit := by
  obtain ⟨N, hN⟩ := h
  refine ⟨N, fun n hn cache hcache => ?_⟩
  have hlen : limit - offset + offset = limit := by omega
  unfold getStrElems getStrElemsBy
  rw [hlen, if_neg (by omega)]
  split_ifs with hnone
  · refine ⟨_, cache, rfl, hcache, ?_⟩
    rw [Nat.cast_sub hoffset]
    exact Splits.constOffset hoffset hlimit
  · obtain ⟨newElems, cache', hloop, hcache', hsplits⟩ := hN n hn offset le_rfl [] cache hcache
    exact ⟨newElems, cache', hloop, hcache', hsplits⟩

theorem exists_budget {p : Prop} {Q : ℕ → Prop} (h : p → ∃ N, ∀ n ≥ N, Q n) :
    ∃ N, ∀ n ≥ N, p → Q n := by
  by_cases hp : p
  · obtain ⟨N, hN⟩ := h hp
    exact ⟨N, fun n hn _ => hN n hn⟩
  · exact ⟨0, fun n _ hp' => absurd hp' hp⟩

/-- **The loop over the expressions splits the text.** -/
theorem looped_of_closes {limit currentInd : ℕ} (h : Closes compiles chars limit currentInd) :
    currentInd ≤ limit → limit ≤ chars.length → Looped compiles chars limit currentInd := by
  -- the induction is on the way of the splitter, through the text and into its expressions
  induction h with
  | @rest limit currentInd h =>
    intro hind hlimit
    refine ⟨1, fun n hn offset hoffset strElems cache hcache => ?_⟩
    obtain ⟨n, rfl⟩ := Nat.exists_eq_add_of_le' hn
    have hlen : limit - offset + offset = limit := by omega
    refine ⟨constAfter chars currentInd limit, cache, ?_, hcache,
      splits_constAfter hlimit hind⟩
    rw [splitLoop, hlen]
    split
    · rfl
    · rename_i start hstart
      rw [h start hstart]
  | @expression limit currentInd start first stop hstart hfirst hstop hscript _ _ _ hcode hnested
      hrest =>
    intro hind hlimit
    obtain ⟨hle, hbrace, hstop', hlt, hlen, hbraced⟩ := places hstart hfirst hstop
    have hsub : (slice chars (start + 2) stop).length = stop - (start + 2) :=
      length_slice (by omega)
    obtain ⟨N₁, hN₁⟩ := hrest (by omega) hlimit
    obtain ⟨N₂, hN₂⟩ : ∃ N, ∀ n ≥ N, isEscaped chars start = false →
        isScript (chars.take limit) start = false → ∀ currencyPos closeParen,
          currencyPlace (slice chars (start + 2) stop) = some (currencyPos, closeParen) →
          Parsed (getStrElems compiles chars n) chars (start + 2 + currencyPos + 10)
            (start + 2 + closeParen) := by
      rcases hplace : currencyPlace (slice chars (start + 2) stop) with _ | ⟨pos, paren⟩
      · exact ⟨0, fun n _ _ _ currencyPos closeParen h => absurd h (by simp)⟩
      · obtain ⟨hpos, hparen⟩ := currencyPlace_spec hplace
        obtain ⟨N, hN⟩ := exists_budget (p := isEscaped chars start = false ∧
          isScript (chars.take limit) start = false) fun hkind =>
            parsed_of_looped (by omega) (by omega)
              (hcode hkind.1 hkind.2 pos paren hplace (by omega) (by omega))
        refine ⟨N, fun n hn hescaped his currencyPos closeParen h => ?_⟩
        obtain ⟨rfl, rfl⟩ := Prod.mk.inj (Option.some.inj h)
        exact hN n hn ⟨hescaped, his⟩
    obtain ⟨N₃, hN₃⟩ := exists_budget (p := isEscaped chars start = false ∧
      isScript (chars.take limit) start = false ∧
      currencyPlace (slice chars (start + 2) stop) = none ∧
      (indexOfFrom openBracket (slice chars (start + 2) stop) 0).isSome = true) fun hkind =>
        parsed_of_looped (by omega) (by omega)
          (hnested hkind.1 hkind.2.1 hkind.2.2.1 hkind.2.2.2 (by omega) (by omega))
    refine ⟨max N₁ (max N₂ N₃) + 1, fun n hn offset hoffset strElems cache hcache => ?_⟩
    obtain ⟨n, rfl⟩ := Nat.exists_eq_add_of_le' (Nat.one_le_of_lt hn)
    have hsum : limit - offset + offset = limit := by omega
    have hlength : limit ≤ start + (limit - offset) := by omega
    obtain ⟨e, cache₁, he, hcache₁, horiginal, hkind⟩ := strElem_spec hlimit hlength hstart hfirst
      hstop hscript (hN₂ n (by omega))
      (fun h₁ h₂ h₃ h₄ => hN₃ n (by omega) ⟨h₁, h₂, h₃, h₄⟩) hcache
    obtain ⟨rest, cache₂, hloop, hcache₂, hsplits⟩ := hN₁ n (by omega) offset (by omega)
      (strElems ++ constBefore chars currentInd start ++ [e]) cache₁ hcache₁
    refine ⟨constBefore chars currentInd start ++ [e] ++ rest, cache₂, ?_, hcache₂, ?_⟩
    · have hmin : min (stop + 1) limit = stop + 1 := by omega
      rw [splitLoop, hsum]
      simp only [hstart, hfirst]
      rw [show getStrElemsBy chars (splitLoop compiles chars n) = getStrElems compiles chars n
        from rfl, he]
      simpa [Outcome.bind, hmin] using hloop
    · have hbefore := splits_constBefore hle (by omega) (by omega) horiginal hkind hbraced
      have hboth := hbefore.append hsplits
      rwa [slice_append_slice (i := currentInd) (j := stop + 1) (k := limit) (by omega)
        (by omega)] at hboth

end Elements

/-! ### Main results -/

/-- **The splitter splits every text that closes**, also a part of one, without an exception: the
texts of its elements are the input without the backslashes of the escaped expressions.
`getInstance` gives such a split, from a cache of splits. -/
theorem getStrElems_splits (compiles : List Char → Bool) (chars : List Char) :
    (∀ offset length : ℕ, offset + length ≤ chars.length →
      Closes compiles chars (offset + length) offset → ∃ N, ∀ n ≥ N, ∀ cache : ExprCache,
        cache.Sound → ∃ strElems cache',
          getStrElems compiles chars n offset length cache = .done (strElems, cache') ∧
            cache'.Sound ∧ Splits (slice chars offset (offset + length)) strElems) ∧
    (Closes compiles chars chars.length 0 → ∃ N, ∀ n ≥ N, ∀ (useCache : Bool)
      (cache : ExprCache), cache.Sound → ∃ fse cache',
        getInstance compiles n (some chars) useCache cache = .done (fse, cache') ∧
          cache'.Sound ∧ Splits chars fse.elems) := by
  have hparsed (offset length : ℕ) (hle : offset + length ≤ chars.length)
      (hcloses : Closes compiles chars (offset + length) offset) :=
    parsed_of_looped (Nat.le_add_right offset length) hle
      (looped_of_closes hcloses (Nat.le_add_right offset length) hle)
  constructor
  · intro offset length hle hcloses
    obtain ⟨N, hN⟩ := hparsed offset length hle hcloses
    refine ⟨N, fun n hn cache hcache => ?_⟩
    have h := hN n hn cache hcache
    rwa [Nat.add_sub_cancel_left] at h
  · intro hcloses
    obtain ⟨N, hN⟩ := hparsed 0 chars.length (by omega) (by rwa [Nat.zero_add])
    refine ⟨N, fun n hn useCache cache hcache => ?_⟩
    obtain ⟨fse, cache', hfse, hcache', hsplits⟩ := getInstanceAt_spec chars (Nat.zero_le _)
      (by omega) (hN n hn) useCache hcache
    rw [Nat.zero_add, slice_zero_length] at hsplits
    rw [Nat.zero_add, Nat.sub_zero] at hfse
    rcases chars with _ | ⟨c, chars⟩
    · exact ⟨.nullExpr, cache, rfl, hcache, Splits.literal rfl rfl⟩
    · exact ⟨fse, cache', hfse, hcache', hsplits⟩

example : Closes (fun _ => true) ['$', '{', 'a', '}'] 4 0 :=
  @Closes.expression _ _ 4 0 0 3 3 (by decide) (by decide) (by decide) (by decide)
    (fun _ _ _ _ h => nomatch (show currencyPlace ['a'] = none from by decide).symm.trans h)
    (fun _ _ _ h => absurd h (by decide))
    (.rest fun _ h => nomatch (show indexOfFrom openBracket ['$', '{', 'a', '}'] 4 = none from
      by decide).symm.trans h)

theorem getOriginal_getStrElems_escaped :
    (match getStrElems (fun _ => true) ['\\', '$', '{', 'a', '}'] 2 0 5 fun _ => none with
      | .done (strElems, _) => some (strElems.map Expander.getOriginal)
      | _ => none) = some [some [], some ['$', '{', 'a', '}']] := by
  decide

end OfficeAuto.Base
