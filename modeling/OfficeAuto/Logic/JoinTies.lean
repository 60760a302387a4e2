import Mathlib.Data.List.Basic

/-!
# Fields that a join makes equal

A join has rows for its members, linked by pairs of keys. The right member of an optional link may
be missing, and what is no right member is there. A member *forces* another one if every join that
has the first has the second, and a field is *tied* to another one if the keys between forced
members make them equal.

In every join with a member, the fields that are tied to one of its fields have its value
(`JoinLink.Tied.eq`); and for a field that is not tied to it there is a join in which it has not
(`JoinLink.exists_isJoin_of_not_tied`).
-/

/-- A link between two members, with the pairs of fields that have to be equal. -/
structure JoinLink (M F : Type*) where
  left : M
  right : M
  optional : Bool
  keys : List (F × F)

namespace JoinLink

variable {M F V : Type*}

/-- The rows of a link: the keys are there and equal. Only an optional link joins nothing on its
right. -/
def Joins (link : JoinLink M F) (rows : M → Option (F → Option V)) : Prop :=
  match rows link.left, rows link.right with
  | some l, some r => ∀ key ∈ link.keys, l key.1 = r key.2 ∧ l key.1 ≠ none
  | _, none => link.optional = true
  | none, some _ => False

/-- A join: all of its links are, from the members that are the right one of no link. -/
structure IsJoin (links : List (JoinLink M F)) (rows : M → Option (F → Option V)) : Prop where
  joins : ∀ link ∈ links, link.Joins rows
  root : ∀ b, (∀ link ∈ links, link.right ≠ b) → rows b ≠ none

/-- The members that are in every join with a member. -/
inductive Forced (links : List (JoinLink M F)) (a : M) : M → Prop
  | refl : Forced links a a
  | root {b} : (∀ link ∈ links, link.right ≠ b) → Forced links a b
  | left {link} : link ∈ links → Forced links a link.right → Forced links a link.left
  | right {link} : link ∈ links → link.optional = false → Forced links a link.right

/-- The fields that the keys make equal to a field of a member. -/
inductive Tied (links : List (JoinLink M F)) (a : M) (f : F) : M → F → Prop
  | refl : Tied links a f a f
  | right {link key} : link ∈ links → key ∈ link.keys → Forced links a link.right →
      Tied links a f link.left key.1 → Tied links a f link.right key.2
  | left {link key} : link ∈ links → key ∈ link.keys → Forced links a link.right →
      Tied links a f link.right key.2 → Tied links a f link.left key.1

variable {links : List (JoinLink M F)} {rows : M → Option (F → Option V)} {a b : M} {f g : F}
  {row : F → Option V}

theorem Forced.exists_row (h : Forced links a b) (hjoin : IsJoin links rows)
    (ha : rows a = some row) : ∃ r, rows b = some r := by
  induction h with
  | refl => exact ⟨row, ha⟩
  | root h => exact Option.ne_none_iff_exists'.mp (hjoin.root _ h)
  | @left link hlink _ ih =>
    obtain ⟨r, hr⟩ := ih
    have hjoins := hjoin.joins link hlink
    rw [Joins, hr] at hjoins
    cases hl : rows link.left with
    | none => simp [hl] at hjoins
    | some l => exact ⟨l, rfl⟩
  | @right link hlink hoptional =>
    have hjoins := hjoin.joins link hlink
    cases hr : rows link.right with
    | none => cases hl : rows link.left <;> simp [Joins, hl, hr, hoptional] at hjoins
    | some r => exact ⟨r, rfl⟩

theorem key_eq {link : JoinLink M F} {key : F × F} {l r : F → Option V} (hjoin : IsJoin links rows)
    (hlink : link ∈ links) (hkey : key ∈ link.keys) (hl : rows link.left = some l)
    (hr : rows link.right = some r) : l key.1 = r key.2 := by
  have hjoins := hjoin.joins link hlink
  simp only [Joins, hl, hr] at hjoins
  exact (hjoins key hkey).1

/-- **Tied fields are equal** in every join. -/
theorem Tied.eq (h : Tied links a f b g) (hjoin : IsJoin links rows) (ha : rows a = some row) :
    (rows b).bind (· g) = row f := by
  induction h with
  | refl => rw [ha, Option.bind_some]
  | @right link key hlink hkey hforced _ ih =>
    obtain ⟨r, hr⟩ := hforced.exists_row hjoin ha
    obtain ⟨l, hl⟩ := (Forced.left hlink hforced).exists_row hjoin ha
    rw [hl, Option.bind_some] at ih
    rw [hr, Option.bind_some, ← key_eq hjoin hlink hkey hl hr, ih]
  | @left link key hlink hkey hforced _ ih =>
    obtain ⟨r, hr⟩ := hforced.exists_row hjoin ha
    obtain ⟨l, hl⟩ := (Forced.left hlink hforced).exists_row hjoin ha
    rw [hr, Option.bind_some] at ih
    rw [hl, Option.bind_some, key_eq hjoin hlink hkey hl hr, ih]

open Classical in
/-- The forced members, with one value in the tied fields and another one in the rest. -/
noncomputable def tiedRows (links : List (JoinLink M F)) (a : M) (f : F) (u v : V) :
    M → Option (F → Option V) := fun b =>
  if Forced links a b then some fun g => some (if Tied links a f b g then u else v) else none

theorem isJoin_tiedRows (links : List (JoinLink M F)) (a : M) (f : F) (u v : V) :
    IsJoin links (tiedRows links a f u v) := by
  refine ⟨fun link hlink => ?_, fun b hb => ?_⟩
  · by_cases hr : Forced links a link.right
    · have hl : Forced links a link.left := .left hlink hr
      simp only [Joins, tiedRows, if_pos hl, if_pos hr]
      intro key hkey
      have hiff : Tied links a f link.left key.1 ↔ Tied links a f link.right key.2 :=
        ⟨.right hlink hkey hr, .left hlink hkey hr⟩
      by_cases htied : Tied links a f link.right key.2
      · simp [hiff, htied]
      · simp [hiff, htied]
    · have hoptional : link.optional = true := by
        by_contra hinner
        exact hr (.right hlink (Bool.eq_false_iff.mpr hinner))
      have hnone : tiedRows links a f u v link.right = none := if_neg hr
      rw [Joins, hnone]
      cases tiedRows links a f u v link.left <;> exact hoptional
  · rw [tiedRows, if_pos (Forced.root hb)]
    exact Option.some_ne_none _

/-- **A field that is not tied** differs in some join. -/
theorem exists_isJoin_of_not_tied (h : ¬ Tied links a f b g) {u v : V} (huv : u ≠ v) :
    ∃ rows : M → Option (F → Option V), IsJoin links rows ∧ ∃ row, rows a = some row ∧
      (rows b).bind (· g) ≠ row f := by
  refine ⟨tiedRows links a f u v, isJoin_tiedRows links a f u v, _, if_pos .refl, ?_⟩
  rw [if_pos Tied.refl]
  by_cases hb : Forced links a b
  · simp only [tiedRows, if_pos hb, Option.bind_some, if_neg h]
    exact fun heq => huv (Option.some.inj heq).symm
  · rw [tiedRows, if_neg hb]
    exact (Option.some_ne_none u).symm

theorem isJoin_const (links : List (JoinLink M F)) (u : V) :
    IsJoin links (fun _ => some fun _ => some u) :=
  ⟨fun _ _ _ _ => ⟨rfl, Option.some_ne_none u⟩, fun _ _ => Option.some_ne_none _⟩

end JoinLink
