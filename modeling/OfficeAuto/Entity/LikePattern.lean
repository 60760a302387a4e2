import OfficeAuto.Entity.Agreement
import OfficeAuto.Logic.Decision

/-!
# LIKE in memory

In a pattern of LIKE a percent sign stands for any text, an underscore for any symbol, and every
other symbol for itself (`IsLike`). `compareLike` translates the pattern into a regular expression.
The translation leaves the symbols `\`, `|`, parentheses, brackets and braces as they are, so that
they keep their meaning in regular expressions, and its wildcards do not stand for a line break.

A pattern without the symbols that are left alone is decided on every text that does not need a
wildcard for a line break, and on no other one (`decides_compareLike`). A symbol is one `char` of a
Java string.
-/

namespace OfficeAuto.Entity

/-! ### Patterns -/

/-- **A text is like a pattern**, if the wildcards stand for the symbols of `Any`. -/
inductive IsLike (Any : Char → Prop) : List Char → List Char → Prop
  | nil : IsLike Any [] []
  | percent {p u s : List Char} (hany : ∀ c ∈ u, Any c) (h : IsLike Any p s) :
    IsLike Any ('%' :: p) (u ++ s)
  | underscore {p s : List Char} {c : Char} (hany : Any c) (h : IsLike Any p s) :
    IsLike Any ('_' :: p) (c :: s)
  | self {p s : List Char} {c : Char} (hpercent : c ≠ '%') (hunderscore : c ≠ '_')
    (h : IsLike Any p s) : IsLike Any (c :: p) (c :: s)

/-- The text is like the pattern, but not without a wildcard for a line break. -/
def OverLineBreak (sqlLike s : List Char) : Prop :=
  IsLike (fun _ => True) sqlLike s ∧ ¬ IsLike (· ≠ '\n') sqlLike s

theorem isLike_nil {Any : Char → Prop} {s : List Char} : IsLike Any [] s ↔ s = [] := by
  constructor
  · rintro ⟨⟩
    rfl
  · rintro rfl
    exact .nil

theorem isLike_percent {Any : Char → Prop} {p s : List Char} :
    IsLike Any ('%' :: p) s ↔ ∃ u v, s = u ++ v ∧ (∀ c ∈ u, Any c) ∧ IsLike Any p v := by
  constructor
  · rintro (_ | ⟨hany, h⟩ | _ | ⟨hpercent, -, -⟩)
    · exact ⟨_, _, rfl, hany, h⟩
    · exact absurd rfl hpercent
  · rintro ⟨u, v, rfl, hany, h⟩
    exact .percent hany h

theorem isLike_underscore {Any : Char → Prop} {p s : List Char} :
    IsLike Any ('_' :: p) s ↔ ∃ c v, s = c :: v ∧ Any c ∧ IsLike Any p v := by
  constructor
  · rintro (_ | _ | ⟨hany, h⟩ | ⟨-, hunderscore, -⟩)
    · exact ⟨_, _, rfl, hany, h⟩
    · exact absurd rfl hunderscore
  · rintro ⟨c, v, rfl, hany, h⟩
    exact .underscore hany h

theorem isLike_self {Any : Char → Prop} {c : Char} (hpercent : c ≠ '%') (hunderscore : c ≠ '_')
    {p s : List Char} : IsLike Any (c :: p) s ↔ ∃ v, s = c :: v ∧ IsLike Any p v := by
  constructor
  · intro h
    cases h with
    | percent => exact absurd rfl hpercent
    | underscore => exact absurd rfl hunderscore
    | self _ _ h => exact ⟨_, rfl, h⟩
  · rintro ⟨v, rfl, h⟩
    exact .self hpercent hunderscore h

theorem accepts_likeItems {any : Char → Bool} {sqlLike s : List Char} :
    Glob.accepts any (likeItems sqlLike) s = true ↔ IsLike (any · = true) sqlLike s := by
  induction sqlLike generalizing s with
  | nil => exact Glob.accepts_nil.trans isLike_nil.symm
  | cons c p ih =>
    by_cases hpercent : c = '%'
    · subst hpercent
      have hitem : likeItems ('%' :: p) = .many :: likeItems p := rfl
      rw [hitem, Glob.accepts_many, isLike_percent]
      simp only [ih]
    · by_cases hunderscore : c = '_'
      · subst hunderscore
        have hitem : likeItems ('_' :: p) = .one :: likeItems p := rfl
        rw [hitem, Glob.accepts_one, isLike_underscore]
        simp only [ih]
      · have hitem : likeItems (c :: p) = .lit c :: likeItems p := by
          simp [likeItems, likeItem, hpercent, hunderscore]
        rw [hitem, Glob.accepts_lit, isLike_self hpercent hunderscore]
        simp only [ih]

theorem isLike_of_inLine {sqlLike s : List Char} (h : IsLike (· ≠ '\n') sqlLike s) :
    IsLike (fun _ => True) sqlLike s := by
  induction h with
  | nil => exact .nil
  | percent _ _ ih => exact .percent (fun _ _ => trivial) ih
  | underscore _ _ ih => exact .underscore trivial ih
  | self hpercent hunderscore _ ih => exact .self hpercent hunderscore ih

/-! ### The comparison -/

theorem compareLike_inLine (perl : Perl5) {sqlLike : List Char} (hplain : IsPlain sqlLike)
    (s : List Char) :
    Decides (compareLike perl (some (.string s)) (some (.value (.string sqlLike))))
      (IsLike (· ≠ '\n') sqlLike s) := by
  refine ⟨_, compareLike_plain hplain, ?_⟩
  rw [accepts_likeItems]
  simp

/-- **Where `compareLike` decides `LIKE`**: on plain patterns, exactly on the texts that need no
wildcard for a line break. -/
theorem decides_compareLike (perl : Perl5) (sqlLike s : List Char) :
    (IsPlain sqlLike ∧ ¬ OverLineBreak sqlLike s →
      Decides (compareLike perl (some (.string s)) (some (.value (.string sqlLike))))
        (IsLike (fun _ => True) sqlLike s)) ∧
    (IsPlain sqlLike ∧ OverLineBreak sqlLike s →
      ¬ Decides (compareLike perl (some (.string s)) (some (.value (.string sqlLike))))
        (IsLike (fun _ => True) sqlLike s)) := by
  constructor
  · rintro ⟨hplain, hinLine⟩
    refine (compareLike_inLine perl hplain s).congr ⟨isLike_of_inLine, fun h => ?_⟩
    exact by_contra fun hno => hinLine ⟨h, hno⟩
  · rintro ⟨hplain, hlike, hno⟩ hdecides
    obtain ⟨r, hr, hiff⟩ := compareLike_inLine perl hplain s
    obtain ⟨r', hr', hiff'⟩ := hdecides
    obtain rfl : r = r' := Except.ok.inj (hr.symm.trans hr')
    exact hno (hiff.mp (hiff'.mpr hlike))

theorem not_decides_lineBreak :
    ¬ Decides (compareLike plainPerl5 (some (.string ['a', '\n', 'b']))
        (some (.value (.string ['a', '%', 'b']))))
      (IsLike (fun _ => True) ['a', '%', 'b'] ['a', '\n', 'b']) := by
  have hlike : IsLike (fun _ => True) ['a', '%', 'b'] ['a', '\n', 'b'] := by
    rw [isLike_self (by decide) (by decide)]
    refine ⟨['\n', 'b'], rfl, isLike_percent.mpr ⟨['\n'], ['b'], rfl, fun _ _ => trivial, ?_⟩⟩
    exact .self (by decide) (by decide) .nil
  have hfalse : compareLike plainPerl5 (some (.string ['a', '\n', 'b']))
      (some (.value (.string ['a', '%', 'b']))) = .ok false := rfl
  rintro ⟨r, hr, hiff⟩
  rw [hfalse] at hr
  exact absurd ((Except.ok.inj hr).trans (hiff.mpr hlike)) Bool.false_ne_true

end OfficeAuto.Entity
