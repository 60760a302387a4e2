import OfficeAuto.Entity.Condition
import OfficeAuto.Logic.Kleene

/-!
# The SQL text of a condition

`makeWhereString` writes the tree of a condition as the text of a WHERE clause, with a
parameter for each value. A text is kept here as the list of its words, and a parameter together
with the value that is bound to it. Lists and binary expressions are written in parentheses, and
their empty members are left out; of an empty condition nothing is written at all, and then the
statement has no WHERE clause.

What a text selects is its reading in SQL: `parse` reads the grammar of search conditions, where AND
binds stronger than OR, and `Sql.eval` evaluates in three-valued logic. A text that is no search
condition is an error of the statement, which then selects nothing. `parse_makeWhereString` says
that a text is read as the tree it was written from (`toSql`).
-/

namespace OfficeAuto.Entity

/-! ### Texts -/

/-- A word of a WHERE text. -/
inductive Token
  | column (name : FieldName)
  | param (value : Option Value)
  | comparable (op : ComparableOperator)
  | collection (op : CollectionOperator)
  | join (op : EntityJoinOperator)
  | isNull
  | isNotNull
  | never
  | comma
  | lparen
  | rparen
  deriving DecidableEq, Repr

def Operand.addValue : Operand → Token
  | .null | .nullField => .param none
  | .value v => .param (some v)
  | .field name => .column name

def makeRHSWhereString (op : ComparableOperator) (rhs : Operand) : List Token :=
  match op, rhs.isNull with
  | .equals, true => [.isNull]
  | .notEqual, true => [.isNotNull]
  | _, _ => [.comparable op, rhs.addValue]

def ComparableExpr.makeWhereString (e : ComparableExpr) : List Token :=
  .column e.lhs :: makeRHSWhereString e.operator e.rhs

def appendValues (separator : Token) : List (Option Value) → List Token
  | [] => []
  | [v] => [.param v]
  | v :: vs => .param v :: separator :: appendValues separator vs

def CollectionExpr.makeWhereString (e : CollectionExpr) : List Token :=
  match e.operator, e.rhs with
  -- `1=0`: no value is in the empty list
  | .isIn, [] => [.never]
  | .between, vs => .column e.lhs :: .collection .between :: appendValues (.join .and) vs
  | op, vs => .column e.lhs :: .collection op :: .lparen :: appendValues .comma vs ++ [.rparen]

def addSqlValue (op : EntityJoinOperator) : Bool → List (List Token) → List Token
  | hadSomething, [] => if hadSomething then [.rparen] else []
  | hadSomething, text :: texts =>
    -- the bracket is opened with the first text that is not empty
    (if hadSomething then .join op else .lparen) :: text ++ addSqlValue op true texts

namespace EntityCondition

mutual

/-- **`makeWhereString`.** -/
def makeWhereString : EntityCondition → List Token
  | .comparable e => e.makeWhereString
  | .collection e => e.makeWhereString
  | .joined l op r => addSqlValue op false
      ((if l.isEmpty then [] else [l.makeWhereString]) ++
        (if r.isEmpty then [] else [r.makeWhereString]))
  | .list cs op => addSqlValue op false (whereStrings cs)

def whereStrings : List EntityCondition → List (List Token)
  | [] => []
  | c :: cs => (if c.isEmpty then [] else [c.makeWhereString]) ++ whereStrings cs

end

end EntityCondition

/-! ### Search conditions -/

inductive SqlOperand
  | column (name : FieldName)
  | param (value : Option Value)
  deriving DecidableEq, Repr

/-- A search condition of SQL. -/
inductive Sql
  | compare (op : ComparableOperator) (lhs : FieldName) (rhs : SqlOperand)
  | isNull (lhs : FieldName)
  | isNotNull (lhs : FieldName)
  | isIn (lhs : FieldName) (values : List (Option Value))
  | notIn (lhs : FieldName) (values : List (Option Value))
  | between (lhs : FieldName) (lower upper : Option Value)
  | never
  | and (l r : Sql)
  | or (l r : Sql)
  deriving DecidableEq, Repr

def SqlOperand.eval (row : Row) : SqlOperand → Option Value
  | .column name => row name
  | .param v => v

/-- A comparison by order: null, and values that are not comparable, give no answer. -/
def sqlCompare (keeps : Ordering → Bool) (u v : Option Value) : Kleene :=
  match u, v with
  -- values of two types are left without an answer, as null is
  | some u, some v => .ofOption ((u.compareTo v).map keeps)
  | _, _ => .unknown

def sqlLike (u v : Option Value) : Kleene :=
  match u, v with
  | some (.string s), some (.string p) => .ofBool (Glob.accepts (fun _ => true) (likeItems p) s)
  | _, _ => .unknown

def ComparableOperator.sql (u v : Option Value) : ComparableOperator → Kleene
  | .equals => sqlCompare Ordering.isEq u v
  | .notEqual => (sqlCompare Ordering.isEq u v).not
  | .lessThan => sqlCompare Ordering.isLT u v
  | .greaterThan => sqlCompare Ordering.isGT u v
  | .lessThanEqualTo => sqlCompare Ordering.isLE u v
  | .greaterThanEqualTo => sqlCompare Ordering.isGE u v
  | .like => sqlLike u v
  | .notLike => (sqlLike u v).not

def sqlIn (u : Option Value) (vs : List (Option Value)) : Kleene :=
  .disj (vs.map (sqlCompare Ordering.isEq u))

/-- **The truth value of a search condition on a row.** -/
def Sql.eval (row : Row) : Sql → Kleene
  | .compare op lhs rhs => op.sql (row lhs) (rhs.eval row)
  | .isNull lhs => .ofBool (row lhs).isNone
  | .isNotNull lhs => .ofBool (row lhs).isSome
  | .isIn lhs vs => sqlIn (row lhs) vs
  | .notIn lhs vs => (sqlIn (row lhs) vs).not
  | .between lhs lower upper =>
    (sqlCompare Ordering.isGE (row lhs) lower).and (sqlCompare Ordering.isLE (row lhs) upper)
  | .never => .false
  | .and l r => (l.eval row).and (r.eval row)
  | .or l r => (l.eval row).or (r.eval row)

/-! ### Reading -/

def parseValues : List Token → Option (List (Option Value) × List Token)
  | .param v :: .rparen :: ts => some ([v], ts)
  | .param v :: .comma :: ts => (parseValues ts).map fun p => (v :: p.1, p.2)
  | _ => none

def parsePredicate (lhs : FieldName) : List Token → Option (Sql × List Token)
  | .isNull :: ts => some (.isNull lhs, ts)
  | .isNotNull :: ts => some (.isNotNull lhs, ts)
  | .comparable op :: .column name :: ts => some (.compare op lhs (.column name), ts)
  | .comparable op :: .param v :: ts => some (.compare op lhs (.param v), ts)
  | .collection .isIn :: .lparen :: ts => (parseValues ts).map fun p => (.isIn lhs p.1, p.2)
  | .collection .notIn :: .lparen :: ts => (parseValues ts).map fun p => (.notIn lhs p.1, p.2)
  | .collection .between :: .param lower :: .join .and :: .param upper :: ts =>
    some (.between lhs lower upper, ts)
  | _ => none

mutual

/-- A search condition: terms with OR between them. The first argument is the fuel. -/
def parseSearch : ℕ → List Token → Option (Sql × List Token)
  | 0, _ => none
  | n + 1, ts => do
    let (s, rest) ← parseTerm n ts
    match rest with
    | .join .or :: rest => do
      let (t, rest) ← parseSearch n rest
      some (.or s t, rest)
    | rest => some (s, rest)

def parseTerm : ℕ → List Token → Option (Sql × List Token)
  | 0, _ => none
  | n + 1, ts => do
    let (s, rest) ← parseFactor n ts
    match rest with
    | .join .and :: rest => do
      let (t, rest) ← parseTerm n rest
      some (.and s t, rest)
    | rest => some (s, rest)

def parseFactor : ℕ → List Token → Option (Sql × List Token)
  | n + 1, .lparen :: ts => do
    let (s, rest) ← parseSearch n ts
    match rest with
    | .rparen :: rest => some (s, rest)
    | _ => none
  | _ + 1, .never :: ts => some (.never, ts)
  | _ + 1, .column lhs :: ts => parsePredicate lhs ts
  | _, _ => none

end

def parse (text : List Token) : Option Sql :=
  match parseSearch (3 * text.length + 2) text with
  | some (s, []) => some s
  | _ => none

/-- **What a statement with a WHERE text selects.** Without a text it selects every row, and with
a text that is no search condition none. -/
def selects (row : Row) : List Token → Bool
  | [] => true
  | text => match parse text with
    | none => false
    | some s => s.eval row = .true

/-! ### The search condition of a tree -/

def ComparableExpr.toSql (e : ComparableExpr) : Sql :=
  match e.operator, e.rhs with
  | .equals, .null | .equals, .nullField => .isNull e.lhs
  | .notEqual, .null | .notEqual, .nullField => .isNotNull e.lhs
  | op, .null | op, .nullField => .compare op e.lhs (.param none)
  | op, .value v => .compare op e.lhs (.param (some v))
  | op, .field name => .compare op e.lhs (.column name)

def CollectionExpr.toSql (e : CollectionExpr) : Sql :=
  match e.operator, e.rhs with
  | .isIn, [] => .never
  | .isIn, vs => .isIn e.lhs vs
  | .notIn, vs => .notIn e.lhs vs
  | .between, [lower, upper] => .between e.lhs lower upper
  | .between, _ => .never

def joinSql (op : EntityJoinOperator) (s : Sql) : List Sql → Sql
  | [] => s
  | t :: ts => match op with
    | .and => .and s (joinSql .and t ts)
    | .or => .or s (joinSql .or t ts)

namespace EntityCondition

mutual

/-- **The search condition of a tree**, of which there is none if the tree is empty. -/
def toSql : EntityCondition → Option Sql
  | .comparable e => some e.toSql
  | .collection e => some e.toSql
  | .joined l op r => match l.toSql.toList ++ r.toSql.toList with
    | [] => none
    | s :: ss => some (joinSql op s ss)
  | .list cs op => match toSqls cs with
    | [] => none
    | s :: ss => some (joinSql op s ss)

def toSqls : List EntityCondition → List Sql
  | [] => []
  | c :: cs => c.toSql.toList ++ toSqls cs

def HasText : EntityCondition → Prop
  | .comparable _ => True
  | .collection e => ¬ (e.operator = .notIn ∧ e.rhs = [])
  | .joined l _ r => l.HasText ∧ r.HasText
  | .list cs _ => AllHaveText cs

def AllHaveText : List EntityCondition → Prop
  | [] => True
  | c :: cs => c.HasText ∧ AllHaveText cs

end

end EntityCondition

/-! ### Texts are read as they were written -/

/-- The text is a factor that reads as a search condition, whatever follows it. -/
def Reads (text : List Token) (s : Sql) : Prop :=
  text ≠ [] ∧ ∀ n rest, 3 * text.length ≤ n → parseFactor n (text ++ rest) = some (s, rest)

theorem reads_column {lhs : FieldName} {text : List Token} {s : Sql}
    (h : ∀ rest, parsePredicate lhs (text ++ rest) = some (s, rest)) :
    Reads (.column lhs :: text) s := by
  refine ⟨List.cons_ne_nil _ _, fun n rest hn => ?_⟩
  obtain ⟨n, rfl⟩ : ∃ k, n = k + 1 := ⟨n - 1, by simp at hn; omega⟩
  exact h rest

theorem ComparableExpr.reads (e : ComparableExpr) : Reads e.makeWhereString e.toSql := by
  obtain ⟨lhs, op, rhs, -⟩ := e
  refine reads_column fun rest => ?_
  cases op <;> cases rhs <;> rfl

theorem parseValues_appendValues {vs : List (Option Value)} (hvs : vs ≠ []) (rest : List Token) :
    parseValues (appendValues .comma vs ++ .rparen :: rest) = some (vs, rest) := by
  induction vs with
  | nil => exact absurd rfl hvs
  | cons v vs ih =>
    cases vs with
    | nil => rfl
    | cons w vs =>
      rw [appendValues, List.cons_append, List.cons_append, parseValues,
        ih (List.cons_ne_nil _ _)]
      · rfl
      · exact List.cons_ne_nil _ _

theorem CollectionExpr.reads {e : CollectionExpr} (he : ¬ (e.operator = .notIn ∧ e.rhs = [])) :
    Reads e.makeWhereString e.toSql := by
  obtain ⟨lhs, op, vs, hvalid⟩ := e
  cases op with
  | isIn =>
    cases vs with
    | nil =>
      refine ⟨List.cons_ne_nil _ _, fun n rest hn => ?_⟩
      obtain ⟨n, rfl⟩ : ∃ k, n = k + 1 := ⟨n - 1, by simp [makeWhereString] at hn; omega⟩
      rfl
    | cons v vs =>
      refine reads_column fun rest => ?_
      have h := parseValues_appendValues (List.cons_ne_nil v vs) rest
      simp [parsePredicate, h, toSql]
  | notIn =>
    cases vs with
    | nil => exact absurd ⟨rfl, rfl⟩ he
    | cons v vs =>
      refine reads_column fun rest => ?_
      have h := parseValues_appendValues (List.cons_ne_nil v vs) rest
      simp [parsePredicate, h, toSql]
  | between =>
    obtain ⟨lower, upper, rfl⟩ := List.length_eq_two.mp (hvalid rfl)
    exact reads_column fun rest => rfl

section Join

variable {op : EntityJoinOperator} {text : List Token} {texts : List (List Token)} {s : Sql}
  {ss : List Sql}

theorem parseTerm_addSqlValue (hs : Reads text s) (hss : List.Forall₂ Reads texts ss) :
    ∀ n rest, 3 * (text ++ addSqlValue .and true texts).length + 1 ≤ n →
      parseTerm n (text ++ addSqlValue .and true texts ++ rest) =
        some (joinSql .and s ss, .rparen :: rest) := by
  induction hss generalizing text s with
  | nil =>
    intro n rest hn
    obtain ⟨n, rfl⟩ : ∃ k, n = k + 1 := ⟨n - 1, by omega⟩
    rw [List.length_append] at hn
    rw [List.append_assoc, parseTerm, hs.2 n _ (by omega)]
    rfl
  | @cons text' s' texts ss hs' _ ih =>
    intro n rest hn
    obtain ⟨n, rfl⟩ : ∃ k, n = k + 1 := ⟨n - 1, by omega⟩
    have hlen := hs.1
    rw [← List.length_pos_iff] at hlen
    rw [List.length_append, addSqlValue, if_pos rfl, List.cons_append, List.length_cons] at hn
    rw [List.append_assoc, parseTerm, hs.2 n _ (by omega), addSqlValue, if_pos rfl]
    have hrest := ih hs' n rest (by omega)
    simp only [List.cons_append, Option.bind_eq_bind, Option.bind_some, hrest]
    rfl

theorem parseSearch_addSqlValue (hs : Reads text s) (hss : List.Forall₂ Reads texts ss) :
    ∀ n rest, 3 * (text ++ addSqlValue .or true texts).length + 2 ≤ n →
      parseSearch n (text ++ addSqlValue .or true texts ++ rest) =
        some (joinSql .or s ss, .rparen :: rest) := by
  induction hss generalizing text s with
  | nil =>
    intro n rest hn
    obtain ⟨n, rfl⟩ : ∃ k, n = k + 2 := ⟨n - 2, by omega⟩
    rw [List.length_append] at hn
    rw [List.append_assoc, parseSearch, parseTerm, hs.2 n _ (by omega)]
    rfl
  | @cons text' s' texts ss hs' _ ih =>
    intro n rest hn
    obtain ⟨n, rfl⟩ : ∃ k, n = k + 2 := ⟨n - 2, by omega⟩
    have hlen := hs.1
    rw [← List.length_pos_iff] at hlen
    rw [List.length_append, addSqlValue, if_pos rfl, List.cons_append, List.length_cons] at hn
    rw [List.append_assoc, parseSearch, parseTerm, hs.2 n _ (by omega), addSqlValue, if_pos rfl]
    have hrest := ih hs' (n + 1) rest (by omega)
    simp only [List.cons_append, Option.bind_eq_bind, Option.bind_some, hrest]
    rfl

/-- **A list in parentheses is a factor**, whatever stands in it. -/
theorem reads_addSqlValue (hs : Reads text s) (hss : List.Forall₂ Reads texts ss) :
    Reads (addSqlValue op false (text :: texts)) (joinSql op s ss) := by
  refine ⟨List.cons_ne_nil _ _, fun n rest hn => ?_⟩
  have hlen : (addSqlValue op false (text :: texts)).length =
      (text ++ addSqlValue op true texts).length + 1 := rfl
  rw [hlen] at hn
  obtain ⟨n, rfl⟩ : ∃ k, n = k + 1 := ⟨n - 1, by omega⟩
  have htext : addSqlValue op false (text :: texts) ++ rest =
      .lparen :: (text ++ addSqlValue op true texts ++ rest) := rfl
  have hread : parseSearch n (text ++ addSqlValue op true texts ++ rest) =
      some (joinSql op s ss, .rparen :: rest) := by
    cases op with
    | or => exact parseSearch_addSqlValue hs hss n rest (by omega)
    | and =>
      obtain ⟨n, rfl⟩ : ∃ k, n = k + 1 := ⟨n - 1, by omega⟩
      rw [parseSearch, parseTerm_addSqlValue hs hss n rest (by omega)]
      rfl
  rw [htext, parseFactor, hread]
  rfl

end Join

namespace EntityCondition

theorem makeWhereString_joined (l r : EntityCondition) (op : EntityJoinOperator) :
    (joined l op r).makeWhereString = (list [l, r] op).makeWhereString := by
  simp only [makeWhereString, whereStrings, List.append_nil]

theorem toSql_joined (l r : EntityCondition) (op : EntityJoinOperator) :
    (joined l op r).toSql = (list [l, r] op).toSql := by
  simp only [toSql, toSqls, List.append_nil]

theorem hasText_joined {l r : EntityCondition} {op : EntityJoinOperator} :
    (joined l op r).HasText ↔ (list [l, r] op).HasText := by
  simp only [HasText, AllHaveText, and_true]

theorem isEmpty_joined (l r : EntityCondition) (op : EntityJoinOperator) :
    (joined l op r).isEmpty = (list [l, r] op).isEmpty := by
  simp only [isEmpty, allEmpty, Bool.and_true]

theorem hasText_list {cs : List EntityCondition} {op : EntityJoinOperator} :
    (list cs op).HasText ↔ ∀ c ∈ cs, c.HasText := by
  rw [HasText]
  induction cs with
  | nil => simp [AllHaveText]
  | cons c cs ih => rw [AllHaveText, ih, List.forall_mem_cons]

/-- What is written of a tree: nothing if it is empty, and otherwise its search condition. -/
def Written (c : EntityCondition) : Prop :=
  (c.isEmpty = true ∧ c.toSql = none ∧ c.makeWhereString = []) ∨
    (c.isEmpty = false ∧ ∃ s, c.toSql = some s ∧ Reads c.makeWhereString s)

theorem reads_whereStrings {cs : List EntityCondition} (h : ∀ c ∈ cs, c.Written) :
    List.Forall₂ Reads (whereStrings cs) (toSqls cs) ∧
      (whereStrings cs = [] ↔ allEmpty cs = true) := by
  induction cs with
  | nil => exact ⟨List.Forall₂.nil, by simp [whereStrings, allEmpty]⟩
  | cons c cs ih =>
    obtain ⟨hc, hcs⟩ := List.forall_mem_cons.mp h
    obtain ⟨hall, hnil⟩ := ih hcs
    rcases hc with ⟨hempty, hsql, -⟩ | ⟨hempty, s, hsql, hreads⟩
    · simpa [whereStrings, toSqls, hempty, hsql, allEmpty, hall] using hnil
    · simpa [whereStrings, toSqls, hempty, hsql, allEmpty] using ⟨hreads, hall⟩

theorem written_list {cs : List EntityCondition} {op : EntityJoinOperator}
    (h : ∀ c ∈ cs, c.Written) : (list cs op).Written := by
  obtain ⟨hall, hnil⟩ := reads_whereStrings h
  unfold Written
  rw [isEmpty, makeWhereString, toSql]
  cases htexts : whereStrings cs with
  | nil =>
    rw [htexts, List.forall₂_nil_left_iff] at hall
    rw [hall]
    exact Or.inl ⟨hnil.mp htexts, rfl, rfl⟩
  | cons text texts =>
    have hempty : allEmpty cs = false := by
      rw [← Bool.not_eq_true, ← hnil, htexts]
      exact List.cons_ne_nil _ _
    rw [htexts, List.forall₂_cons_left_iff] at hall
    obtain ⟨s, ss, hs, hss, hsqls⟩ := hall
    rw [hsqls]
    exact Or.inr ⟨hempty, joinSql op s ss, rfl, reads_addSqlValue hs hss⟩

/-- **Every tree is written as its search condition**, if it can be written. -/
theorem written_of_hasText {c : EntityCondition} (hc : c.HasText) : c.Written := by
  induction c using EntityCondition.induction with
  | comparable e => exact Or.inr ⟨rfl, e.toSql, rfl, e.reads⟩
  | collection e => exact Or.inr ⟨rfl, e.toSql, rfl, CollectionExpr.reads hc⟩
  | joined l op r hl hr =>
    have hlist : (list [l, r] op).Written := written_list fun c hmem => by
      rw [HasText] at hc
      rcases List.mem_pair.mp hmem with rfl | rfl
      · exact hl hc.1
      · exact hr hc.2
    unfold Written at hlist ⊢
    rwa [isEmpty_joined, toSql_joined, makeWhereString_joined]
  | list cs op ih => exact written_list fun c hmem => ih c hmem (hasText_list.mp hc c hmem)

theorem selects_of_parse {row : Row} {text : List Token} {s : Sql} (hne : text ≠ [])
    (h : parse text = some s) : selects row text = decide (s.eval row = .true) := by
  cases text with
  | nil => exact absurd rfl hne
  | cons t ts =>
    rw [selects, h]
    exact List.cons_ne_nil t ts

/-- **The text of a tree selects what its search condition is true of**, and every row if the
tree is empty. -/
theorem selects_makeWhereString {c : EntityCondition} (hc : c.HasText) (row : Row) :
    selects row c.makeWhereString = true ↔ ∀ s ∈ c.toSql, s.eval row = .true := by
  rcases written_of_hasText hc with ⟨-, hsql, htext⟩ | ⟨-, s, hsql, hne, hread⟩
  · rw [hsql, htext]
    simp [selects]
  · have hparse : parse c.makeWhereString = some s := by
      have hfactor := hread (3 * c.makeWhereString.length) [] (Nat.le_refl _)
      rw [List.append_nil] at hfactor
      rw [parse, parseSearch, parseTerm, hfactor]
      rfl
    rw [hsql, selects_of_parse hne hparse]
    simp

end EntityCondition

end OfficeAuto.Entity
