import Mathlib.Data.List.Nodup
import Mathlib.Data.List.Perm.Basic
import Mathlib.Data.Option.Basic

/-!
# Maps in the order of iteration

A map as the list of its entries, in the order in which an iterator returns them. Each key is there
once, so that `get` finds the value of any entry (`lookup_of_mem`), and entries can be left out
without another one in their place (`lookup_filter`).
-/

structure EntryList (K V : Type*) where
  entries : List (K × V)
  nodup : (entries.map Prod.fst).Nodup

namespace EntryList

variable {K V : Type*} [BEq K]

def get (m : EntryList K V) (key : K) : Option V := m.entries.lookup key

variable [LawfulBEq K]

theorem lookup_cons_of_ne {e : K × V} {key : K} (h : key ≠ e.1) (es : List (K × V)) :
    (e :: es).lookup key = es.lookup key := by
  obtain ⟨k, v⟩ := e
  rw [List.lookup_cons, beq_false_of_ne h]

theorem lookup_cons_self (e : K × V) (es : List (K × V)) : (e :: es).lookup e.1 = some e.2 := by
  obtain ⟨k, v⟩ := e
  exact List.lookup_cons_self

theorem lookup_eq_none {es : List (K × V)} {key : K} (h : key ∉ es.map Prod.fst) :
    es.lookup key = none := by
  refine List.lookup_eq_none_iff.mpr fun e he => bne_iff_ne.mpr fun heq => ?_
  exact h (heq ▸ List.mem_map_of_mem he)

theorem mem_of_lookup {es : List (K × V)} {key : K} {value : V} (h : es.lookup key = some value) :
    (key, value) ∈ es := by
  obtain ⟨l, r, rfl, -⟩ := List.lookup_eq_some_iff.mp h
  exact List.mem_append_right l List.mem_cons_self

theorem lookup_of_mem {es : List (K × V)} (hnodup : (es.map Prod.fst).Nodup) {e : K × V}
    (he : e ∈ es) : es.lookup e.1 = some e.2 := by
  induction es with
  | nil => exact absurd he List.not_mem_nil
  | cons f es ih =>
    rw [List.map_cons, List.nodup_cons] at hnodup
    rcases List.mem_cons.mp he with rfl | he
    · exact lookup_cons_self e es
    · have hne : e.1 ≠ f.1 := fun heq => hnodup.1 (heq ▸ List.mem_map_of_mem he)
      rw [lookup_cons_of_ne hne, ih hnodup.2 he]

theorem get_of_perm {m m' : EntryList K V} (h : m'.entries.Perm m.entries) : m'.get = m.get := by
  funext key
  rw [get, get]
  by_cases hkey : key ∈ m.entries.map Prod.fst
  · obtain ⟨e, he, rfl⟩ := List.mem_map.mp hkey
    rw [lookup_of_mem m.nodup he, lookup_of_mem m'.nodup (h.mem_iff.mpr he)]
  · rw [lookup_eq_none hkey, lookup_eq_none fun hkey' => hkey ((h.map Prod.fst).mem_iff.mp hkey')]

omit [BEq K] [LawfulBEq K] in
theorem exists_perm {m : EntryList K V} {keys : List K} (h : keys.Perm (m.entries.map Prod.fst)) :
    ∃ m' : EntryList K V, m'.entries.Perm m.entries ∧ m'.entries.map Prod.fst = keys := by
  have hrel : List.Forall₂ (fun key (e : K × V) => key = e.1) (m.entries.map Prod.fst) m.entries :=
    List.forall₂_map_left_iff.mpr (List.forall₂_same.mpr fun _ _ => rfl)
  obtain ⟨es, hes, hperm⟩ := List.perm_comp_forall₂ h hrel
  have hkeys : es.map Prod.fst = keys := by
    rw [← List.forall₂_eq_eq_eq, List.forall₂_map_left_iff]
    exact hes.flip.imp fun _ _ heq => heq.symm
  exact ⟨⟨es, hkeys ▸ h.nodup_iff.mpr m.nodup⟩, hperm, hkeys⟩

/-- **A key has the value that the map without the other entries gives it.** -/
theorem lookup_filter {es : List (K × V)} (hnodup : (es.map Prod.fst).Nodup) (p : V → Bool)
    (key : K) : (es.filter fun e => p e.2).lookup key = (es.lookup key).filter p := by
  induction es with
  | nil => rfl
  | cons e es ih =>
    rw [List.map_cons, List.nodup_cons] at hnodup
    rw [List.filter_cons]
    rcases eq_or_ne key e.1 with rfl | hne
    · rw [lookup_cons_self]
      split_ifs with hvalue
      · rw [lookup_cons_self, Option.filter_some_pos hvalue]
      · rw [ih hnodup.2, lookup_eq_none hnodup.1, Option.filter_none,
          Option.filter_some_neg (eq_false_of_ne_true hvalue)]
    · rw [lookup_cons_of_ne hne, ← ih hnodup.2]
      split_ifs
      · exact lookup_cons_of_ne hne _
      · rfl

end EntryList
