import OfficeAuto.Entity.WhereString

/-!
# Evaluation in memory and in SQL

A condition has two evaluations: `mapMatches` on a row in memory, and the selection of the row
by the SQL text. They agree on most conditions, and this module has the exact limits.

Null is where they part. In memory two nulls are equal, and anything is unequal to null, while
in SQL a comparison with null has no answer, so that `<>`, NOT IN and NOT LIKE of a null field
match in memory only; the marker `NULL_FIELD` is null in a text and an object in memory. Besides
that, BETWEEN is evaluated as IN in memory; big decimals are equal in memory only with equal
scales; LIKE is true of everything that is no string, and no wildcard stands for a line break;
and an empty member of an OR counts as true in memory and is left out of the text.

`Regular` collects these conditions, on the tree and the row. A tree is regular exactly if it and
all its parts agree (`agrees_subconditions_iff`).
-/

namespace OfficeAuto.Entity

variable {perl : Perl5} {row : Row} {lhs rhs : Option Value} {vs : List (Option Value)}

/-! ### Regular conditions -/

/-- Values that compare as equal are equal. Only big decimals of different scales are not
alike. -/
def Alike (u v : Value) : Prop := u.compareTo v = some .eq → u = v

/-- The wildcards of the pattern need not stand for a line break of the text. -/
def LineFree (p s : List Char) : Prop :=
  Glob.accepts (fun _ => true) (likeItems p) s = true →
    Glob.accepts (fun c => c != '\n') (likeItems p) s = true

/-- The operands of LIKE on which the regular expression does what the pattern says. -/
def LikeRegular (lhs rhs : Option Value) : Prop :=
  ∃ s p, lhs = some (.string s) ∧ rhs = some (.string p) ∧ IsPlain p ∧ LineFree p s

def ComparableOperator.Regular (lhs rhs : Option Value) : ComparableOperator → Prop
  | .equals => (lhs = none → rhs ≠ none) ∧ ∀ u v, lhs = some u → rhs = some v → Alike u v
  | .notEqual => (lhs = none ∧ rhs = none) ∨
    ∃ u v, lhs = some u ∧ rhs = some v ∧ u.compareTo v ≠ none ∧ Alike u v
  | .lessThan | .greaterThan | .lessThanEqualTo | .greaterThanEqualTo =>
    (lhs = none ∧ rhs ≠ none) ∨ ∃ u v, lhs = some u ∧ rhs = some v ∧ u.compareTo v ≠ none
  | .like => (lhs = none ∧ rhs ≠ none) ∨ LikeRegular lhs rhs
  | .notLike => rhs = none ∨ LikeRegular lhs rhs ∨
    ∃ u v, lhs = some u ∧ rhs = some v ∧ ¬ ∃ s p, u = .string s ∧ v = .string p

def ComparableExpr.Regular (row : Row) (e : ComparableExpr) : Prop :=
  match e.rhs with
  | .null => True
  | .nullField => row e.lhs ≠ none
  | .value v => e.operator.Regular (row e.lhs) (some v)
  | .field name => e.operator.Regular (row e.lhs) (row name)

/-- The operands of an operator on collections that is the same in memory and in SQL. -/
def CollectionOperator.Regular (lhs : Option Value) (vs : List (Option Value)) :
    CollectionOperator → Prop
  | .isIn => ∀ u, lhs = some u → ∀ v, some v ∈ vs → u.compareTo v = some .eq → some u ∈ vs
  | .notIn => vs ≠ [] ∧ ∃ u, lhs = some u ∧
    (some u ∈ vs ∨ ∀ o ∈ vs, ∃ v r, o = some v ∧ u.compareTo v = some r ∧ r ≠ .eq)
  | .between => ∀ u, lhs = some u → (some u ∈ vs ↔ ∃ lower upper r t,
    vs = [some lower, some upper] ∧ u.compareTo lower = some r ∧ r.isGE = true ∧
      u.compareTo upper = some t ∧ t.isLE = true)

/-- An OR whose empty members do no harm: it has members, and if one of them is empty, all are,
or one that is not empty selects the row. -/
def OrRegular (row : Row) (cs : List EntityCondition) : Prop :=
  cs ≠ [] ∧ ((∃ c ∈ cs, c.isEmpty = true) → (∀ c ∈ cs, c.isEmpty = true) ∨
    ∃ c ∈ cs, c.isEmpty = false ∧ selects row c.makeWhereString = true)

namespace EntityCondition

mutual

/-- **The conditions that both evaluations treat alike on a row.** -/
def Regular (row : Row) : EntityCondition → Prop
  | .comparable e => e.Regular row
  | .collection e => e.operator.Regular (row e.lhs) e.rhs
  | .joined l op r => (l.Regular row ∧ r.Regular row) ∧ (op = .or → OrRegular row [l, r])
  | .list cs op => AllRegular row cs ∧ (op = .or → OrRegular row cs)

def AllRegular (row : Row) : List EntityCondition → Prop
  | [] => True
  | c :: cs => c.Regular row ∧ AllRegular row cs

end

mutual

def subconditions : EntityCondition → List EntityCondition
  | .comparable e => [.comparable e]
  | .collection e => [.collection e]
  | .joined l op r => .joined l op r :: (l.subconditions ++ r.subconditions)
  | .list cs op => .list cs op :: allSubconditions cs

def allSubconditions : List EntityCondition → List EntityCondition
  | [] => []
  | c :: cs => c.subconditions ++ allSubconditions cs

end

mutual

def PlainPatterns (row : Row) : EntityCondition → Prop
  | .comparable e => e.operator = .like ∨ e.operator = .notLike →
    ∀ s p, row e.lhs = some (.string s) → e.rhs.getValue row = some (.value (.string p)) →
      IsPlain p
  | .collection _ => True
  | .joined l _ r => l.PlainPatterns row ∧ r.PlainPatterns row
  | .list cs _ => AllPlainPatterns row cs

def AllPlainPatterns (row : Row) : List EntityCondition → Prop
  | [] => True
  | c :: cs => c.PlainPatterns row ∧ AllPlainPatterns row cs

end

/-- **The evaluation in memory returns what the text selects.** -/
def Agrees (perl : Perl5) (row : Row) (c : EntityCondition) : Prop :=
  c.mapMatches perl row = .ok (selects row c.makeWhereString)

end EntityCondition

/-! ### Comparisons -/

def toObj (rhs : Option Value) : Option Obj := rhs.map .value

theorem compareTo_toObj {u v : Value} {r : Ordering} (h : u.compareTo v = some r) :
    compareTo u (toObj (some v)) = .ok r := by
  simp [toObj, compareTo, h]

theorem compareOrder_iff {keeps : Ordering → Bool} :
    compareOrder keeps lhs (toObj rhs) = .ok (decide (sqlCompare keeps lhs rhs = .true)) ↔
      (lhs = none ∧ rhs ≠ none) ∨
        ∃ u v, lhs = some u ∧ rhs = some v ∧ u.compareTo v ≠ none := by
  cases lhs with
  | none => cases rhs <;> simp [compareOrder, toObj, sqlCompare]
  | some u =>
    cases rhs with
    | none => simp [compareOrder, toObj, compareTo, Except.map]
    | some v =>
      cases h : u.compareTo v with
      | none => simp [compareOrder, toObj, compareTo, h, Except.map]
      | some r => simp [compareOrder, compareTo_toObj h, sqlCompare, h, Except.map]

theorem beq_iff_alike {u v : Value} :
    ((toObj (some v) == some (.value u)) = decide (u.compareTo v = some .eq)) ↔ Alike u v := by
  have hbeq : (toObj (some v) == some (.value u)) = decide (u = v) := by
    rw [Bool.eq_iff_iff, beq_iff_eq, decide_eq_true_iff, toObj, Option.map_some, Option.some_inj,
      Obj.value.injEq]
    exact eq_comm
  rw [hbeq, Bool.eq_iff_iff, decide_eq_true_iff, decide_eq_true_iff]
  constructor
  · exact fun h heq => h.mpr heq
  · refine fun h => ⟨?_, h⟩
    rintro rfl
    exact u.compareTo_self

theorem sqlCompare_isEq {u v : Value} :
    sqlCompare Ordering.isEq (some u) (some v) = .true ↔ u.compareTo v = some .eq := by
  cases h : u.compareTo v with
  | none => simp [sqlCompare, h]
  | some r => cases r <;> simp [sqlCompare, h]

theorem sqlCompare_not_isEq {u v : Value} :
    (sqlCompare Ordering.isEq (some u) (some v)).not = .true ↔
      ∃ r, u.compareTo v = some r ∧ r ≠ .eq := by
  cases h : u.compareTo v with
  | none => simp [sqlCompare, h]
  | some r => cases r <;> simp [sqlCompare, h]

theorem compareEqual_iff :
    compareEqual lhs (toObj rhs) = decide (sqlCompare Ordering.isEq lhs rhs = .true) ↔
      ComparableOperator.equals.Regular lhs rhs := by
  cases lhs with
  | none => cases rhs <;> simp [compareEqual, toObj, sqlCompare, ComparableOperator.Regular]
  | some u =>
    cases rhs with
    | none => simp [compareEqual, toObj, sqlCompare, ComparableOperator.Regular]
    | some v =>
      simp only [compareEqual, sqlCompare_isEq, beq_iff_alike]
      simp [ComparableOperator.Regular]

theorem compareNotEqual_iff :
    compareNotEqual lhs (toObj rhs) = decide ((sqlCompare Ordering.isEq lhs rhs).not = .true) ↔
      ComparableOperator.notEqual.Regular lhs rhs := by
  cases lhs with
  | none => cases rhs <;> simp [compareNotEqual, toObj, sqlCompare, ComparableOperator.Regular]
  | some u =>
    cases rhs with
    | none => simp [compareNotEqual, toObj, sqlCompare, ComparableOperator.Regular]
    | some v =>
      have hnot : compareNotEqual (some u) (toObj (some v)) =
          !(toObj (some v) == some (.value u)) := rfl
      have halike := beq_iff_alike (u := u) (v := v)
      cases hcompare : u.compareTo v with
      | none =>
        -- values that are not comparable are different in memory, and nothing in SQL
        have hne : ¬ u = v := by
          rintro rfl
          rw [u.compareTo_self] at hcompare
          cases hcompare
        simp [ComparableOperator.Regular, compareNotEqual, toObj, sqlCompare, hcompare, Ne.symm hne]
      | some r =>
        have hsql : decide ((sqlCompare Ordering.isEq (some u) (some v)).not = .true) =
            !decide (u.compareTo v = some .eq) := by
          rw [Bool.eq_iff_iff, decide_eq_true_iff, sqlCompare_not_isEq, hcompare]
          simp
        rw [hnot, hsql, Bool.not_inj_iff, halike]
        simp [ComparableOperator.Regular, hcompare]

theorem compareLike_null : compareLike perl none (toObj rhs) = .ok rhs.isNone := by
  cases rhs <;> rfl

theorem compareLike_plain {s p : List Char} (hp : IsPlain p) :
    compareLike perl (some (.string s)) (toObj (some (.string p))) =
      .ok (Glob.accepts (fun c => c != '\n') (likeItems p) s) := by
  obtain ⟨m, hm, hmatch⟩ := perl.matcher_plain hp
  simp only [toObj, Option.map_some, compareLike, hm, hmatch]

theorem compareLike_of_not_string {u : Value}
    (h : ¬ ∃ s p, u = .string s ∧ rhs = some (.string p)) :
    compareLike perl (some u) (toObj rhs) = .ok true ∧ sqlLike (some u) rhs = .unknown := by
  cases u with
  | string s =>
    cases rhs with
    | none => exact ⟨rfl, rfl⟩
    | some v =>
      cases v with
      | string p => exact absurd ⟨s, p, rfl, rfl⟩ h
      | long _ => exact ⟨rfl, rfl⟩
      | bigDecimal _ => exact ⟨rfl, rfl⟩
      | timestamp _ => exact ⟨rfl, rfl⟩
  | long _ => cases rhs <;> exact ⟨rfl, rfl⟩
  | bigDecimal _ => cases rhs <;> exact ⟨rfl, rfl⟩
  | timestamp _ => cases rhs <;> exact ⟨rfl, rfl⟩

theorem lineFree_iff {s p : List Char} :
    Glob.accepts (fun c => c != '\n') (likeItems p) s =
      Glob.accepts (fun _ => true) (likeItems p) s ↔ LineFree p s := by
  constructor
  · intro h hall
    rw [h, hall]
  · intro h
    rw [Bool.eq_iff_iff]
    exact ⟨Glob.accepts_mono fun _ _ => rfl, h⟩

theorem compareLike_iff
    (hplain : ∀ s p, lhs = some (.string s) → rhs = some (.string p) → IsPlain p) :
    compareLike perl lhs (toObj rhs) = .ok (decide (sqlLike lhs rhs = .true)) ↔
      ComparableOperator.like.Regular lhs rhs := by
  cases lhs with
  | none =>
    rw [compareLike_null]
    cases rhs <;> simp [sqlLike, ComparableOperator.Regular, LikeRegular]
  | some u =>
    by_cases hstring : ∃ s p, u = .string s ∧ rhs = some (.string p)
    · obtain ⟨s, p, rfl, rfl⟩ := hstring
      rw [compareLike_plain (hplain s p rfl rfl)]
      simp [sqlLike, ComparableOperator.Regular, LikeRegular, ← lineFree_iff,
        hplain s p rfl rfl]
    · have hlike : compareLike perl (some u) (toObj rhs) = .ok true ∧
          sqlLike (some u) rhs = .unknown := compareLike_of_not_string hstring
      rw [hlike.1, hlike.2]
      constructor
      · intro h
        simp at h
      · rintro (⟨h, -⟩ | ⟨s, p, hs, hp, -⟩)
        · cases h
        · exact absurd ⟨s, p, Option.some.inj hs, hp⟩ hstring

theorem compareNotLike_iff
    (hplain : ∀ s p, lhs = some (.string s) → rhs = some (.string p) → IsPlain p) :
    (compareLike perl lhs (toObj rhs)).map not =
        .ok (decide ((sqlLike lhs rhs).not = .true)) ↔
      ComparableOperator.notLike.Regular lhs rhs := by
  cases lhs with
  | none =>
    rw [compareLike_null]
    cases rhs <;> simp [sqlLike, ComparableOperator.Regular, LikeRegular, Except.map]
  | some u =>
    by_cases hstring : ∃ s p, u = .string s ∧ rhs = some (.string p)
    · obtain ⟨s, p, rfl, rfl⟩ := hstring
      rw [compareLike_plain (hplain s p rfl rfl)]
      simp [sqlLike, ComparableOperator.Regular, LikeRegular, ← lineFree_iff,
        hplain s p rfl rfl, Except.map]
    · have hlike : compareLike perl (some u) (toObj rhs) = .ok true ∧
          sqlLike (some u) rhs = .unknown := compareLike_of_not_string hstring
      rw [hlike.1, hlike.2]
      refine iff_of_true (by simp [Except.map]) ?_
      cases rhs with
      | none => exact Or.inl rfl
      | some v =>
        refine Or.inr (Or.inr ⟨u, v, rfl, rfl, ?_⟩)
        rintro ⟨s, p, rfl, rfl⟩
        exact hstring ⟨s, p, rfl, rfl⟩

/-- **A comparison of values returns what it is in SQL exactly if it is regular.** -/
theorem ComparableOperator.compare_iff {op : ComparableOperator}
    (hplain : op = .like ∨ op = .notLike →
      ∀ s p, lhs = some (.string s) → rhs = some (.string p) → IsPlain p) :
    op.compare perl lhs (toObj rhs) = .ok (decide (op.sql lhs rhs = .true)) ↔
      op.Regular lhs rhs := by
  cases op with
  | equals => rw [compare, Except.ok.injEq]; exact compareEqual_iff
  | notEqual => rw [compare, Except.ok.injEq]; exact compareNotEqual_iff
  | lessThan => exact compareOrder_iff
  | greaterThan => exact compareOrder_iff
  | lessThanEqualTo => exact compareOrder_iff
  | greaterThanEqualTo => exact compareOrder_iff
  | like => exact compareLike_iff (hplain (Or.inl rfl))
  | notLike => exact compareNotLike_iff (hplain (Or.inr rfl))

theorem ComparableOperator.plain_of_regular {op : ComparableOperator} {s p : List Char}
    (hop : op = .like ∨ op = .notLike)
    (h : op.Regular (some (.string s)) (some (.string p))) : IsPlain p := by
  rcases hop with rfl | rfl
  · rcases h with ⟨h, -⟩ | ⟨s', p', -, hp', hplain, -⟩
    · cases h
    · cases hp'
      exact hplain
  · rcases h with h | ⟨s', p', -, hp', hplain, -⟩ | ⟨u, v, hu, hv, hnot⟩
    · cases h
    · cases hp'
      exact hplain
    · cases hu
      cases hv
      exact absurd ⟨s, p, rfl, rfl⟩ hnot

/-! ### Collections -/

theorem sqlIn_eq_true {u : Value} :
    sqlIn (some u) vs = .true ↔ ∃ v, some v ∈ vs ∧ u.compareTo v = some .eq := by
  rw [sqlIn, Kleene.disj_eq_true]
  constructor
  · rintro ⟨t, ht, rfl⟩
    obtain ⟨o, ho, heq⟩ := List.mem_map.mp ht
    cases o with
    | none => cases heq
    | some v => exact ⟨v, ho, sqlCompare_isEq.mp heq⟩
  · rintro ⟨v, hv, heq⟩
    exact ⟨_, List.mem_map_of_mem hv, sqlCompare_isEq.mpr heq⟩

theorem sqlIn_eq_false {u : Value} : sqlIn (some u) vs = .false ↔
    ∀ o ∈ vs, ∃ v r, o = some v ∧ u.compareTo v = some r ∧ r ≠ .eq := by
  rw [sqlIn]
  induction vs with
  | nil => simp
  | cons o vs ih =>
    rw [List.map_cons, Kleene.disj_cons, Kleene.or_eq_false, ih, List.forall_mem_cons,
      ← Kleene.not_eq_true]
    refine and_congr_left fun _ => ?_
    cases o with
    | none => simp [sqlCompare]
    | some v =>
      rw [sqlCompare_not_isEq]
      constructor
      · rintro ⟨r, hr, hne⟩
        exact ⟨v, r, rfl, hr, hne⟩
      · rintro ⟨w, r, hw, hr, hne⟩
        cases hw
        exact ⟨r, hr, hne⟩

theorem sqlIn_none : sqlIn none vs = if vs = [] then .false else .unknown := by
  rw [sqlIn]
  induction vs with
  | nil => rfl
  | cons o vs ih =>
    rw [List.map_cons, Kleene.disj_cons, ih, if_neg (List.cons_ne_nil o vs)]
    split_ifs <;> rfl

theorem compareIn_iff :
    compareIn lhs vs = decide (sqlIn lhs vs = .true) ↔ CollectionOperator.isIn.Regular lhs vs := by
  cases lhs with
  | none =>
    rw [sqlIn_none]
    refine iff_of_true ?_ fun u hu => nomatch hu
    split_ifs <;> rfl
  | some u =>
    rw [Bool.eq_iff_iff, decide_eq_true_iff, sqlIn_eq_true]
    simp only [compareIn, List.contains_iff_mem, CollectionOperator.Regular]
    constructor
    · rintro h w hw v hv heq
      cases hw
      exact h.mpr ⟨v, hv, heq⟩
    · intro h
      refine ⟨fun hu => ⟨u, hu, u.compareTo_self⟩, ?_⟩
      rintro ⟨v, hv, heq⟩
      exact h u rfl v hv heq

theorem compareNotIn_iff (hvs : vs ≠ []) :
    (!compareIn lhs vs) = decide ((sqlIn lhs vs).not = .true) ↔
      CollectionOperator.notIn.Regular lhs vs := by
  cases lhs with
  | none => simp [sqlIn_none, hvs, compareIn, CollectionOperator.Regular]
  | some u =>
    rw [Bool.eq_iff_iff, decide_eq_true_iff, Kleene.not_eq_true, sqlIn_eq_false]
    simp only [compareIn, Bool.not_eq_true', ← Bool.not_eq_true, List.contains_iff_mem,
      CollectionOperator.Regular]
    constructor
    · intro h
      refine ⟨hvs, u, rfl, ?_⟩
      by_cases hu : some u ∈ vs
      · exact Or.inl hu
      · exact Or.inr (h.mp hu)
    · rintro ⟨-, w, hw, hcase⟩
      cases hw
      rcases hcase with hu | hall
      · refine iff_of_false (fun hnot => hnot hu) fun hall => ?_
        obtain ⟨v, r, hv, hr, hne⟩ := hall _ hu
        cases hv
        rw [u.compareTo_self] at hr
        exact hne (Option.some.inj hr).symm
      · refine iff_of_true (fun hu => ?_) hall
        obtain ⟨v, r, hv, hr, hne⟩ := hall _ hu
        cases hv
        rw [u.compareTo_self] at hr
        exact hne (Option.some.inj hr).symm

theorem sqlCompare_eq_true {keeps : Ordering → Bool} {u : Value} :
    sqlCompare keeps (some u) rhs = .true ↔
      ∃ v r, rhs = some v ∧ u.compareTo v = some r ∧ keeps r = true := by
  cases rhs with
  | none => simp [sqlCompare]
  | some v => cases h : u.compareTo v <;> simp [sqlCompare, h]

theorem compareBetween_iff {lower upper : Option Value} :
    compareIn lhs [lower, upper] = decide (((sqlCompare Ordering.isGE lhs lower).and
        (sqlCompare Ordering.isLE lhs upper)) = .true) ↔
      CollectionOperator.between.Regular lhs [lower, upper] := by
  cases lhs with
  | none => simp [compareIn, sqlCompare, CollectionOperator.Regular]
  | some u =>
    rw [Bool.eq_iff_iff, decide_eq_true_iff, Kleene.and_eq_true, sqlCompare_eq_true,
      sqlCompare_eq_true]
    simp only [compareIn, List.contains_iff_mem, CollectionOperator.Regular, Option.some.injEq,
      forall_eq']
    refine iff_congr Iff.rfl ⟨?_, ?_⟩
    · rintro ⟨⟨v, r, rfl, hr, hge⟩, w, t, rfl, ht, hle⟩
      exact ⟨v, w, r, t, rfl, hr, hge, ht, hle⟩
    · rintro ⟨v, w, r, t, hbounds, hr, hge, ht, hle⟩
      obtain ⟨rfl, hupper⟩ := List.cons_eq_cons.mp hbounds
      obtain ⟨rfl, -⟩ := List.cons_eq_cons.mp hupper
      exact ⟨⟨v, r, rfl, hr, hge⟩, w, t, rfl, ht, hle⟩

/-! ### Single comparisons of a tree -/

namespace EntityCondition

theorem selects_comparable (e : ComparableExpr) :
    selects row (comparable e).makeWhereString = decide (e.toSql.eval row = .true) := by
  have h := selects_makeWhereString (c := comparable e) trivial row
  rw [Bool.eq_iff_iff, h, decide_eq_true_iff]
  simp [toSql]

theorem selects_collection {e : CollectionExpr} (he : ¬ (e.operator = .notIn ∧ e.rhs = [])) :
    selects row (collection e).makeWhereString = decide (e.toSql.eval row = .true) := by
  have h := selects_makeWhereString (c := collection e) he row
  rw [Bool.eq_iff_iff, h, decide_eq_true_iff]
  simp [toSql]

theorem agrees_comparable_iff {e : ComparableExpr} (hplain : (comparable e).PlainPatterns row) :
    (comparable e).Agrees perl row ↔ e.Regular row := by
  unfold Agrees
  rw [selects_comparable, mapMatches]
  obtain ⟨lhs, op, rhs, hvalid⟩ := e
  cases rhs with
  | null =>
    refine iff_of_true ?_ trivial
    rcases hvalid rfl with rfl | rfl
    · cases hl : row lhs <;> simp [ComparableOperator.compare, Operand.getValue, compareEqual,
        ComparableExpr.toSql, Sql.eval, hl]
    · cases hl : row lhs <;> simp [ComparableOperator.compare, Operand.getValue, compareNotEqual,
        ComparableExpr.toSql, Sql.eval, hl]
  | nullField =>
    rcases hvalid rfl with rfl | rfl
    · cases hl : row lhs <;> simp [ComparableOperator.compare, Operand.getValue, compareEqual,
        ComparableExpr.toSql, Sql.eval, ComparableExpr.Regular, hl]
    · cases hl : row lhs <;> simp [ComparableOperator.compare, Operand.getValue, compareNotEqual,
        ComparableExpr.toSql, Sql.eval, ComparableExpr.Regular, hl]
  | value v =>
    have hsql : (ComparableExpr.toSql ⟨lhs, op, .value v, hvalid⟩).eval row =
        op.sql (row lhs) (some v) := by
      cases op <;> rfl
    have hiff : op.compare perl (row lhs) (toObj (some v)) =
        .ok (decide (op.sql (row lhs) (some v) = .true)) ↔ op.Regular (row lhs) (some v) :=
      ComparableOperator.compare_iff fun hop s p hs hp =>
        hplain hop s p hs (congrArg toObj hp)
    rw [hsql]
    exact hiff
  | field name =>
    have hsql : (ComparableExpr.toSql ⟨lhs, op, .field name, hvalid⟩).eval row =
        op.sql (row lhs) (row name) := by
      cases op <;> rfl
    have hiff : op.compare perl (row lhs) (toObj (row name)) =
        .ok (decide (op.sql (row lhs) (row name) = .true)) ↔ op.Regular (row lhs) (row name) :=
      ComparableOperator.compare_iff fun hop s p hs hp =>
        hplain hop s p hs (congrArg toObj hp)
    rw [hsql]
    exact hiff

theorem plain_of_regular {e : ComparableExpr} (h : e.Regular row) :
    (comparable e).PlainPatterns row := by
  obtain ⟨lhs, op, rhs, hvalid⟩ := e
  intro hop s p hs hp
  cases rhs with
  | null => cases hp
  | nullField => cases hp
  | value v =>
    obtain rfl : v = .string p := Obj.value.inj (Option.some.inj hp)
    refine ComparableOperator.plain_of_regular hop (s := s) ?_
    rw [← hs]
    exact h
  | field name =>
    obtain ⟨v, hv, heq⟩ := Option.map_eq_some_iff.mp hp
    obtain rfl : v = .string p := Obj.value.inj heq
    refine ComparableOperator.plain_of_regular hop (s := s) ?_
    rw [← hs, ← hv]
    exact h

theorem selects_emptyNotIn {e : CollectionExpr} (hop : e.operator = .notIn) (hvs : e.rhs = []) :
    selects row (collection e).makeWhereString = false := by
  obtain ⟨lhs, op, vs, hvalid⟩ := e
  obtain rfl : op = .notIn := hop
  obtain rfl : vs = [] := hvs
  rfl

theorem agrees_collection_iff {e : CollectionExpr} :
    (collection e).Agrees perl row ↔ e.operator.Regular (row e.lhs) e.rhs := by
  unfold Agrees
  rw [mapMatches, Except.ok.injEq]
  by_cases hnone : e.operator = .notIn ∧ e.rhs = []
  · obtain ⟨hop, hvs⟩ := hnone
    rw [selects_emptyNotIn hop hvs, hop, hvs]
    refine iff_of_false ?_ fun h => h.1 rfl
    cases row e.lhs <;> simp [CollectionOperator.compare, compareIn]
  · rw [selects_collection hnone]
    obtain ⟨lhs, op, vs, hvalid⟩ := e
    cases op with
    | isIn =>
      have hsql : (CollectionExpr.toSql ⟨lhs, .isIn, vs, hvalid⟩).eval row = .true ↔
          sqlIn (row lhs) vs = .true := by
        cases vs with
        | nil => simp [CollectionExpr.toSql, Sql.eval, sqlIn]
        | cons v vs => rfl
      rw [CollectionOperator.compare, decide_eq_decide.mpr hsql]
      exact compareIn_iff
    | notIn => exact compareNotIn_iff fun hvs => hnone ⟨rfl, hvs⟩
    | between =>
      obtain ⟨lower, upper, rfl⟩ := List.length_eq_two.mp (hvalid rfl)
      exact compareBetween_iff

theorem hasText_of_regular {e : CollectionExpr}
    (h : e.operator.Regular (row e.lhs) e.rhs) : (collection e).HasText := by
  rintro ⟨hop, hvs⟩
  rw [hop, hvs] at h
  exact h.1 rfl

/-! ### Lists -/

variable {cs : List EntityCondition}

theorem mapMatchesList_of_agrees {op : EntityJoinOperator} (h : ∀ c ∈ cs, c.Agrees perl row) :
    mapMatchesList perl row op cs = .ok (match op with
      | .and => cs.all fun c => selects row c.makeWhereString
      | .or => cs.any fun c => selects row c.makeWhereString) := by
  induction cs with
  | nil => cases op <;> rfl
  | cons c cs ih =>
    obtain ⟨hc, hcs⟩ := List.forall_mem_cons.mp h
    rw [mapMatchesList, hc, ih hcs]
    cases op <;> cases hsel : selects row c.makeWhereString <;>
      simp [EntityJoinOperator.shortCircuitValue, hsel] <;> rfl

theorem mapMatches_joined (l r : EntityCondition) (op : EntityJoinOperator) :
    (joined l op r).mapMatches perl row = (list [l, r] op).mapMatches perl row := by
  simp only [mapMatches, mapMatchesList]
  rfl

theorem agrees_joined_iff {l r : EntityCondition} {op : EntityJoinOperator} :
    (joined l op r).Agrees perl row ↔ (list [l, r] op).Agrees perl row := by
  unfold Agrees
  rw [mapMatches_joined, makeWhereString_joined]

theorem mem_toSqls {s : Sql} : s ∈ toSqls cs ↔ ∃ c ∈ cs, c.toSql = some s := by
  induction cs with
  | nil => simp [toSqls]
  | cons c cs ih => simp [toSqls, ih]

theorem eval_joinSql_and {s : Sql} {ss : List Sql} :
    (joinSql .and s ss).eval row = .true ↔ ∀ t ∈ s :: ss, t.eval row = .true := by
  induction ss generalizing s with
  | nil => simp [joinSql]
  | cons t ts ih =>
    rw [joinSql, Sql.eval, Kleene.and_eq_true, ih]
    exact (List.forall_mem_cons (p := fun t => Sql.eval row t = .true)).symm

theorem eval_joinSql_or {s : Sql} {ss : List Sql} :
    (joinSql .or s ss).eval row = .true ↔ ∃ t ∈ s :: ss, t.eval row = .true := by
  induction ss generalizing s with
  | nil => simp [joinSql]
  | cons t ts ih =>
    rw [joinSql, Sql.eval, Kleene.or_eq_true, ih]
    exact (List.exists_mem_cons_iff (fun t => Sql.eval row t = .true) s (t :: ts)).symm

theorem toSql_isNone {c : EntityCondition} (hc : c.HasText) :
    c.isEmpty = true ↔ c.toSql = none := by
  rcases written_of_hasText hc with ⟨hempty, hsql, -⟩ | ⟨hempty, s, hsql, -⟩
  · exact iff_of_true hempty hsql
  · rw [hempty, hsql]
    simp

/-- **A list joined by AND selects what all its members do.** -/
theorem selects_and (h : ∀ c ∈ cs, c.HasText) :
    selects row (list cs .and).makeWhereString =
      cs.all fun c => selects row c.makeWhereString := by
  rw [Bool.eq_iff_iff, selects_makeWhereString (hasText_list.mpr h), List.all_eq_true]
  have hall : (∀ c ∈ cs, selects row c.makeWhereString = true) ↔
      ∀ s ∈ toSqls cs, s.eval row = .true := by
    constructor
    · intro hsel s hs
      obtain ⟨c, hc, hsql⟩ := mem_toSqls.mp hs
      exact (selects_makeWhereString (h c hc) row).mp (hsel c hc) s hsql
    · intro hsel c hc
      exact (selects_makeWhereString (h c hc) row).mpr fun s hs =>
        hsel s (mem_toSqls.mpr ⟨c, hc, hs⟩)
  rw [hall, toSql]
  cases toSqls cs with
  | nil => simp
  | cons s ss => simp [eval_joinSql_and]

/-- **A list joined by OR selects what one of the members does that are not empty**, or
everything if they are all empty. -/
theorem selects_or (h : ∀ c ∈ cs, c.HasText) :
    selects row (list cs .or).makeWhereString = true ↔ (∀ c ∈ cs, c.isEmpty = true) ∨
      ∃ c ∈ cs, c.isEmpty = false ∧ selects row c.makeWhereString = true := by
  have hnone : (∀ c ∈ cs, c.isEmpty = true) ↔ toSqls cs = [] := by
    rw [List.eq_nil_iff_forall_not_mem]
    constructor
    · intro hempty s hs
      obtain ⟨c, hc, hsql⟩ := mem_toSqls.mp hs
      rw [(toSql_isNone (h c hc)).mp (hempty c hc)] at hsql
      cases hsql
    · intro hnot c hc
      rw [toSql_isNone (h c hc)]
      cases hsql : c.toSql with
      | none => rfl
      | some s => exact absurd (mem_toSqls.mpr ⟨c, hc, hsql⟩) (hnot s)
  have hsome : (∃ c ∈ cs, c.isEmpty = false ∧ selects row c.makeWhereString = true) ↔
      ∃ s ∈ toSqls cs, s.eval row = .true := by
    constructor
    · rintro ⟨c, hc, hempty, hsel⟩
      rw [← Bool.not_eq_true, toSql_isNone (h c hc)] at hempty
      obtain ⟨s, hs⟩ := Option.ne_none_iff_exists'.mp hempty
      exact ⟨s, mem_toSqls.mpr ⟨c, hc, hs⟩,
        (selects_makeWhereString (h c hc) row).mp hsel s hs⟩
    · rintro ⟨s, hs, heval⟩
      obtain ⟨c, hc, hsql⟩ := mem_toSqls.mp hs
      refine ⟨c, hc, ?_, (selects_makeWhereString (h c hc) row).mpr fun t ht => ?_⟩
      · rw [← Bool.not_eq_true, toSql_isNone (h c hc), hsql]
        exact Option.some_ne_none s
      · rw [hsql] at ht
        cases ht
        exact heval
  rw [selects_makeWhereString (hasText_list.mpr h), hnone, hsome, toSql]
  cases toSqls cs with
  | nil => simp
  | cons s ss => simp [eval_joinSql_or]

/-- **A list of members that agree agrees**, if it is joined by AND, or if empty members do no
harm. -/
theorem agrees_list_iff {op : EntityJoinOperator} (htext : ∀ c ∈ cs, c.HasText)
    (h : ∀ c ∈ cs, c.Agrees perl row) :
    (list cs op).Agrees perl row ↔ (op = .or → OrRegular row cs) := by
  unfold Agrees
  rw [mapMatches, mapMatchesList_of_agrees h, Except.ok.injEq]
  cases op with
  | and => simp [selects_and htext]
  | or =>
    have hempty : ∀ c ∈ cs, c.isEmpty = true → selects row c.makeWhereString = true := by
      intro c hc hnone
      rw [selects_makeWhereString (htext c hc), (toSql_isNone (htext c hc)).mp hnone]
      simp
    rw [Bool.eq_iff_iff, selects_or htext, List.any_eq_true]
    simp only [OrRegular, true_implies]
    constructor
    · intro heq
      refine ⟨?_, fun ⟨c, hc, hnone⟩ => heq.mp ⟨c, hc, hempty c hc hnone⟩⟩
      rintro rfl
      obtain ⟨c, hc, -⟩ := heq.mpr (Or.inl fun c hc => absurd hc List.not_mem_nil)
      exact absurd hc List.not_mem_nil
    · rintro ⟨hne, hor⟩
      constructor
      · rintro ⟨c, hc, hsel⟩
        cases hnone : c.isEmpty with
        | true => exact hor ⟨c, hc, hnone⟩
        | false => exact Or.inr ⟨c, hc, hnone, hsel⟩
      · rintro (hall | ⟨c, hc, -, hsel⟩)
        · obtain ⟨c, hc⟩ := List.exists_mem_of_ne_nil cs hne
          exact ⟨c, hc, hempty c hc (hall c hc)⟩
        · exact ⟨c, hc, hsel⟩

/-! ### Trees -/

theorem allRegular_iff : AllRegular row cs ↔ ∀ c ∈ cs, c.Regular row := by
  induction cs with
  | nil => simp [AllRegular]
  | cons c cs ih => rw [AllRegular, ih, List.forall_mem_cons]

theorem allPlainPatterns_iff : AllPlainPatterns row cs ↔ ∀ c ∈ cs, c.PlainPatterns row := by
  induction cs with
  | nil => simp [AllPlainPatterns]
  | cons c cs ih => rw [AllPlainPatterns, ih, List.forall_mem_cons]

theorem mem_allSubconditions {c : EntityCondition} :
    c ∈ allSubconditions cs ↔ ∃ d ∈ cs, c ∈ d.subconditions := by
  induction cs with
  | nil => simp [allSubconditions]
  | cons d cs ih => rw [allSubconditions, List.mem_append, ih, List.exists_mem_cons_iff]

theorem regular_list_iff {op : EntityJoinOperator} :
    (list cs op).Regular row ↔
      (∀ c ∈ cs, c.Regular row) ∧ (op = .or → OrRegular row cs) := by
  rw [Regular, allRegular_iff]

/-- **A regular tree can be written and agrees.** -/
theorem agrees_of_regular {c : EntityCondition} (h : c.Regular row) :
    c.HasText ∧ c.Agrees perl row := by
  induction c using EntityCondition.induction with
  | comparable e => exact ⟨trivial, (agrees_comparable_iff (plain_of_regular h)).mpr h⟩
  | collection e => exact ⟨hasText_of_regular h, agrees_collection_iff.mpr h⟩
  | joined l op r hl hr =>
    rw [Regular] at h
    have hmembers : ∀ c ∈ [l, r], c.HasText ∧ c.Agrees perl row := by
      intro c hc
      rcases List.mem_pair.mp hc with rfl | rfl
      · exact hl h.1.1
      · exact hr h.1.2
    rw [agrees_joined_iff, hasText_joined, hasText_list]
    exact ⟨fun c hc => (hmembers c hc).1, (agrees_list_iff (fun c hc => (hmembers c hc).1)
      fun c hc => (hmembers c hc).2).mpr h.2⟩
  | list cs op ih =>
    rw [regular_list_iff] at h
    rw [hasText_list]
    exact ⟨fun c hc => (ih c hc (h.1 c hc)).1, (agrees_list_iff
      (fun c hc => (ih c hc (h.1 c hc)).1) fun c hc => (ih c hc (h.1 c hc)).2).mpr h.2⟩

theorem regular_of_mem_subconditions {c d : EntityCondition} (h : c.Regular row)
    (hd : d ∈ c.subconditions) : d.Regular row := by
  induction c using EntityCondition.induction with
  | comparable e => rwa [List.mem_singleton.mp hd]
  | collection e => rwa [List.mem_singleton.mp hd]
  | joined l op r hl hr =>
    rcases List.mem_cons.mp hd with rfl | hd
    · exact h
    · rw [Regular] at h
      rcases List.mem_append.mp hd with hd | hd
      · exact hl h.1.1 hd
      · exact hr h.1.2 hd
  | list cs op ih =>
    rcases List.mem_cons.mp hd with rfl | hd
    · exact h
    · obtain ⟨c, hc, hd⟩ := mem_allSubconditions.mp hd
      exact ih c hc ((regular_list_iff.mp h).1 c hc) hd

/-- **A tree of which all parts agree is regular.** -/
theorem regular_of_agrees {c : EntityCondition} (hplain : c.PlainPatterns row)
    (h : ∀ d ∈ c.subconditions, d.Agrees perl row) : c.Regular row := by
  induction c using EntityCondition.induction with
  | comparable e => exact (agrees_comparable_iff hplain).mp (h _ (List.mem_singleton_self _))
  | collection e => exact agrees_collection_iff.mp (h _ (List.mem_singleton_self _))
  | joined l op r hl hr =>
    rw [PlainPatterns] at hplain
    have hself := h _ List.mem_cons_self
    have hleft := hl hplain.1 fun d hd =>
      h d (List.mem_cons_of_mem _ (List.mem_append_left _ hd))
    have hright := hr hplain.2 fun d hd =>
      h d (List.mem_cons_of_mem _ (List.mem_append_right _ hd))
    have hmembers : ∀ c ∈ [l, r], c.HasText ∧ c.Agrees perl row := by
      intro c hc
      rcases List.mem_pair.mp hc with rfl | rfl
      · exact agrees_of_regular hleft
      · exact agrees_of_regular hright
    rw [agrees_joined_iff, agrees_list_iff (fun c hc => (hmembers c hc).1)
      fun c hc => (hmembers c hc).2] at hself
    rw [Regular]
    exact ⟨⟨hleft, hright⟩, hself⟩
  | list cs op ih =>
    rw [PlainPatterns, allPlainPatterns_iff] at hplain
    have hself := h _ List.mem_cons_self
    have hregular : ∀ c ∈ cs, c.Regular row := fun c hc => ih c hc (hplain c hc) fun d hd =>
      h d (List.mem_cons_of_mem _ (mem_allSubconditions.mpr ⟨c, hc, hd⟩))
    have hmembers : ∀ c ∈ cs, c.HasText ∧ c.Agrees perl row :=
      fun c hc => agrees_of_regular (hregular c hc)
    rw [agrees_list_iff (fun c hc => (hmembers c hc).1) fun c hc => (hmembers c hc).2] at hself
    exact regular_list_iff.mpr ⟨hregular, hself⟩

end EntityCondition

/-! ### A matcher -/

def readItems : List Char → Option (List (Glob Char))
  | [] => some []
  | '\\' :: c :: s => if isEscaped c then (readItems s).map (.lit c :: ·) else none
  | '.' :: '*' :: s => (readItems s).map (.many :: ·)
  | '.' :: s => (readItems s).map (.one :: ·)
  | c :: s => if isEscaped c || isUnescaped c then none else (readItems s).map (.lit c :: ·)

theorem head_regexItem {items : List (Glob Char)} {s : List Char} :
    items.flatMap regexItem ≠ '*' :: s := by
  cases items with
  | nil => exact (List.cons_ne_nil '*' s).symm
  | cons i items =>
    cases i with
    | lit c =>
      by_cases hescaped : isEscaped c = true
      · simp [regexItem, hescaped]
      · have hne : c ≠ '*' := by
          rintro rfl
          exact hescaped rfl
        simp [regexItem, hescaped, hne]
    | one => simp [regexItem]
    | many => simp [regexItem]

theorem readItems_flatMap {items : List (Glob Char)}
    (h : ∀ c, Glob.lit c ∈ items → isUnescaped c = false) :
    readItems (items.flatMap regexItem) = some items := by
  induction items with
  | nil => rfl
  | cons i items ih =>
    have hrest := ih fun c hc => h c (List.mem_cons_of_mem i hc)
    cases i with
    | lit c =>
      have hplain := h c List.mem_cons_self
      by_cases hescaped : isEscaped c = true
      · simp [regexItem, readItems, hescaped, hrest]
      · have hslash : c ≠ '\\' := by
          rintro rfl
          cases hplain
        have hdot : c ≠ '.' := by
          rintro rfl
          exact hescaped rfl
        rw [List.flatMap_cons, regexItem, if_neg hescaped, List.singleton_append]
        unfold readItems
        split
        · next heq => cases heq
        · next heq => exact absurd (List.cons_eq_cons.mp heq).1 hslash
        · next heq => exact absurd (List.cons_eq_cons.mp heq).1 hdot
        · next heq => exact absurd (List.cons_eq_cons.mp heq).1 hdot
        · next heq =>
          obtain ⟨rfl, rfl⟩ := List.cons_eq_cons.mp heq
          simp [hescaped, hplain, hrest]
    | one =>
      rw [List.flatMap_cons, regexItem, List.singleton_append]
      unfold readItems
      split
      · next heq => cases heq
      · next heq => cases heq
      · next s heq => exact absurd (List.cons_eq_cons.mp heq).2 head_regexItem
      · next heq =>
        obtain ⟨-, rfl⟩ := List.cons_eq_cons.mp heq
        simp [hrest]
      · next hdot heq =>
        obtain ⟨rfl, rfl⟩ := List.cons_eq_cons.mp heq
        exact (hdot rfl).elim
    | many => simp [regexItem, readItems, hrest]

def plainPerl5 : Perl5 where
  matcher text := (readItems text).map fun items => Glob.accepts (fun c => c != '\n') items
  matcher_items items h := by
    rw [readItems_flatMap h]
    exact ⟨_, rfl, fun _ => rfl⟩

/-! ### A value between two bounds -/

def fiveRow : Row := fun name => if name = "quantity".toList then some (.long 5) else none

def betweenExpr : CollectionExpr where
  lhs := "quantity".toList
  operator := .between
  rhs := [some (.long 1), some (.long 10)]
  valid _ := rfl

def greaterExpr : ComparableExpr where
  lhs := "quantity".toList
  operator := .greaterThan
  rhs := .value (.long 1)
  valid h := nomatch h

end OfficeAuto.Entity
