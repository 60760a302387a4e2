import Mathlib.Data.Finmap

/-!
# Map contexts

A `MapContext` is a stack of maps that reads like one map: a key has the value of the topmost map
that contains it, also if that value is null. Every view walks the stack by itself. `get` and
`containsKey` stop at the first map with the key, `values`, `entrySet` and `containsValue` skip
the entries whose key they have met before, `keySet` and `size` collect all keys.

The members of a stack may be map contexts again. What a view reads of one is a `MapTree`, and
the single map it stands for is its `overlay`; **the views agree with it** (`agrees_overlay`).
-/

namespace OfficeAuto.Base

variable {K V : Type*}

/-- The entries of a hash map, in the order of its iterator; a value may be null. -/
abbrev Entries (K V : Type*) := AList fun _ : K => Option V

abbrev Entry (K V : Type*) := Sigma fun _ : K => Option V

/-- A map as its views read it. -/
inductive MapTree (K V : Type*)
  | hashMap (entries : Entries K V)
  | mapContext (stackList : List (MapTree K V))

namespace MapTree

theorem inductionOn {motive : MapTree K V → Prop} (hashMap : ∀ entries, motive (.hashMap entries))
    (mapContext : ∀ stackList, (∀ curMap ∈ stackList, motive curMap) →
      motive (.mapContext stackList)) (t : MapTree K V) : motive t :=
  MapTree.rec (motive_1 := motive) (motive_2 := fun ts => ∀ t ∈ ts, motive t) hashMap mapContext
    (fun _ h => absurd h List.not_mem_nil)
    (fun _ _ hhead htail => List.forall_mem_cons.mpr ⟨hhead, htail⟩) t

variable [DecidableEq K]

/-! ### The views -/

mutual

def containsKey (key : K) : MapTree K V → Bool
  | .hashMap entries => (entries.lookup key).isSome
  | .mapContext stackList => containsKeyIn key stackList

def containsKeyIn (key : K) : List (MapTree K V) → Bool
  | [] => false
  | curMap :: rest => if containsKey key curMap then true else containsKeyIn key rest

end

mutual

def get (key : K) : MapTree K V → Option V
  | .hashMap entries => (entries.lookup key).join
  | .mapContext stackList => getIn key stackList

def getIn (key : K) : List (MapTree K V) → Option V
  | [] => none
  | curMap :: rest => if containsKey key curMap then get key curMap else getIn key rest

end

mutual

def isEmpty : MapTree K V → Bool
  | .hashMap entries => entries.entries.isEmpty
  | .mapContext stackList => isEmptyIn stackList

def isEmptyIn : List (MapTree K V) → Bool
  | [] => true
  | curMap :: rest => if !isEmpty curMap then false else isEmptyIn rest

end

mutual

def keySet : MapTree K V → Finset K
  | .hashMap entries => entries.keys.toFinset
  | .mapContext stackList => keySetIn stackList ∅

def keySetIn : List (MapTree K V) → Finset K → Finset K
  | [], resultSet => resultSet
  | curMap :: rest, resultSet => keySetIn rest (resultSet ∪ keySet curMap)

end

def size : MapTree K V → ℕ
  | .hashMap entries => entries.entries.length
  | .mapContext stackList => (keySet (.mapContext stackList)).card

/-- The walk over the entries of a stack that skips the keys it has met before; `visit` is what
it does with an entry. -/
def walk {β : Type*} (visit : β → Entry K V → β) (stackEntries : List (List (Entry K V)))
    (b : β) : β :=
  (stackEntries.flatten.foldl (fun (acc : Finset K × β) curEntry =>
    if curEntry.1 ∈ acc.1 then acc
    else (insert curEntry.1 acc.1, visit acc.2 curEntry)) (∅, b)).2

/-- `ListSet.add` -/
def listSetAdd [DecidableEq V] (listImpl : List (Entry K V)) (obj : Entry K V) : List (Entry K V) :=
  if listImpl.contains obj then listImpl else listImpl ++ [obj]

mutual

def entrySet [DecidableEq V] : MapTree K V → List (Entry K V)
  | .hashMap entries => entries.entries
  | .mapContext stackList => walk listSetAdd (entrySets stackList) []

def entrySets [DecidableEq V] : List (MapTree K V) → List (List (Entry K V))
  | [] => []
  | curMap :: rest => entrySet curMap :: entrySets rest

end

def values [DecidableEq V] : MapTree K V → List (Option V)
  | .hashMap entries => entries.entries.map Sigma.snd
  | .mapContext stackList =>
    walk (fun resultValues curEntry => resultValues ++ [curEntry.2]) (entrySets stackList) []

def containsValue [DecidableEq V] (value : Option V) : MapTree K V → Bool
  | .hashMap entries => entries.entries.any fun curEntry => curEntry.2 == value
  | .mapContext stackList =>
    walk (fun found curEntry => found || curEntry.2 == value) (entrySets stackList) false

/-! ### The single map -/

mutual

def overlay : MapTree K V → Finmap fun _ : K => Option V
  | .hashMap entries => entries.toFinmap
  | .mapContext stackList => overlayIn stackList

def overlayIn : List (MapTree K V) → Finmap fun _ : K => Option V
  | [] => ∅
  | curMap :: rest => overlay curMap ∪ overlayIn rest

end

/-- The views of a map are those of a single map. -/
structure Agrees [DecidableEq V] (t : MapTree K V) (m : Finmap fun _ : K => Option V) : Prop where
  get : ∀ key, t.get key = (m.lookup key).join
  containsKey : ∀ key, t.containsKey key = true ↔ key ∈ m
  containsValue : ∀ value, t.containsValue value = true ↔ ∃ key, m.lookup key = some value
  size : t.size = m.keys.card
  isEmpty : t.isEmpty = true ↔ m = ∅
  keySet : t.keySet = m.keys
  values : (t.values : Multiset (Option V)) = m.entries.map Sigma.snd
  entrySet : (t.entrySet : Multiset (Entry K V)) = m.entries

/-! ### Walks over the entries -/

/-- The first entries of their keys, for the keys that are not seen yet. -/
def visible (seen : Finset K) : List (Entry K V) → List (Entry K V)
  | [] => []
  | e :: es => if e.1 ∈ seen then visible seen es else e :: visible (insert e.1 seen) es

theorem foldl_walk {β : Type*} (visit : β → Entry K V → β) (es : List (Entry K V))
    (seen : Finset K) (b : β) :
    (es.foldl (fun (acc : Finset K × β) curEntry =>
      if curEntry.1 ∈ acc.1 then acc
      else (insert curEntry.1 acc.1, visit acc.2 curEntry)) (seen, b)).2 =
      (visible seen es).foldl visit b := by
  induction es generalizing seen b with
  | nil => rfl
  | cons e es ih =>
    by_cases hseen : e.1 ∈ seen
    · simpa [visible, hseen] using ih seen b
    · simpa [visible, hseen] using ih (insert e.1 seen) (visit b e)

theorem walk_eq {β : Type*} (visit : β → Entry K V → β) (stackEntries : List (List (Entry K V)))
    (b : β) : walk visit stackEntries b = (visible ∅ stackEntries.flatten).foldl visit b :=
  foldl_walk visit _ ∅ b

theorem dlookup_visible (seen : Finset K) (es : List (Entry K V)) (key : K) :
    (visible seen es).dlookup key = if key ∈ seen then none else es.dlookup key := by
  induction es generalizing seen with
  | nil => simp [visible]
  | cons e es ih =>
    obtain ⟨k, v⟩ := e
    by_cases hseen : k ∈ seen
    · by_cases hkey : key ∈ seen
      · simp [visible, hseen, ih, hkey]
      · have hne : key ≠ k := fun h => hkey (h ▸ hseen)
        simp [visible, hseen, ih, hkey, List.dlookup_cons_ne es ⟨k, v⟩ hne]
    · by_cases heq : key = k
      · subst heq
        simp [visible, hseen]
      · by_cases hkey : key ∈ seen <;>
          simp [visible, hseen, ih, hkey, heq, List.dlookup_cons_ne es ⟨k, v⟩ heq]

theorem nodupKeys_visible (seen : Finset K) (es : List (Entry K V)) :
    (visible seen es).NodupKeys := by
  induction es generalizing seen with
  | nil => exact List.nodupKeys_nil
  | cons e es ih =>
    by_cases hseen : e.1 ∈ seen
    · simpa [visible, hseen] using ih seen
    · -- the key of the entry is seen from here on
      have hnew : e.1 ∉ (visible (insert e.1 seen) es).keys := by
        rw [← List.dlookup_eq_none, dlookup_visible, if_pos (Finset.mem_insert_self _ _)]
      simpa [visible, hseen] using ⟨hnew, ih (insert e.1 seen)⟩

/-! ### The views agree -/

theorem lookup_union (m₁ m₂ : Finmap fun _ : K => Option V) (key : K) :
    (m₁ ∪ m₂).lookup key = (m₁.lookup key).or (m₂.lookup key) := by
  by_cases h : key ∈ m₁
  · obtain ⟨v, hv⟩ := Finmap.mem_iff.mp h
    rw [Finmap.lookup_union_left h, hv, Option.some_or]
  · rw [Finmap.lookup_union_right h, Finmap.lookup_eq_none.mpr h, Option.none_or]

theorem lookup_overlayIn (stackList : List (MapTree K V)) (key : K) :
    (overlayIn stackList).lookup key =
      stackList.findSome? fun curMap => curMap.overlay.lookup key := by
  induction stackList with
  | nil => rfl
  | cons curMap rest ih =>
    rw [overlayIn, lookup_union, ih, List.findSome?_cons]
    cases curMap.overlay.lookup key <;> rfl

theorem containsKey_iff (t : MapTree K V) (key : K) :
    t.containsKey key = true ↔ key ∈ t.overlay := by
  induction t using MapTree.inductionOn with
  | hashMap entries =>
    rw [containsKey, overlay, ← Finmap.lookup_isSome]
    rfl
  | mapContext stackList ih =>
    rw [containsKey, overlay]
    induction stackList with
    | nil => simp [containsKeyIn, overlayIn, Finmap.notMem_empty]
    | cons curMap rest ih' =>
      rw [List.forall_mem_cons] at ih
      rw [containsKeyIn, overlayIn, Finmap.mem_union, ← ih.1, ← ih' ih.2]
      cases curMap.containsKey key <;> simp

theorem get_eq (t : MapTree K V) (key : K) : t.get key = (t.overlay.lookup key).join := by
  induction t using MapTree.inductionOn with
  | hashMap entries =>
    rw [get, overlay]
    rfl
  | mapContext stackList ih =>
    rw [get, overlay]
    induction stackList with
    | nil => simp [getIn, overlayIn]
    | cons curMap rest ih' =>
      rw [List.forall_mem_cons] at ih
      rw [getIn, overlayIn, ih.1, ih' ih.2]
      by_cases hkey : curMap.containsKey key
      · rw [if_pos hkey, Finmap.lookup_union_left ((containsKey_iff curMap key).mp hkey)]
      · rw [if_neg hkey, Finmap.lookup_union_right (mt (containsKey_iff curMap key).mpr hkey)]

theorem keySet_eq (t : MapTree K V) : t.keySet = t.overlay.keys := by
  induction t using MapTree.inductionOn with
  | hashMap entries =>
    rw [keySet, overlay]
    exact List.toFinset_eq entries.keys_nodup |>.symm
  | mapContext stackList ih =>
    have hloop (resultSet : Finset K) :
        keySetIn stackList resultSet = resultSet ∪ (overlayIn stackList).keys := by
      induction stackList generalizing resultSet with
      | nil => simp [keySetIn, overlayIn]
      | cons curMap rest ih' =>
        rw [List.forall_mem_cons] at ih
        rw [keySetIn, overlayIn, ih' ih.2, ih.1, Finmap.keys_union, Finset.union_assoc]
    rw [keySet, overlay, hloop, Finset.empty_union]

theorem eq_empty_iff (m : Finmap fun _ : K => Option V) : m = ∅ ↔ ∀ key, m.lookup key = none :=
  ⟨fun h key => h ▸ Finmap.lookup_empty key,
    fun h => Finmap.ext_lookup fun key => by rw [h key, Finmap.lookup_empty]⟩

theorem isEmpty_iff (t : MapTree K V) : t.isEmpty = true ↔ t.overlay = ∅ := by
  induction t using MapTree.inductionOn with
  | hashMap entries =>
    rw [isEmpty, overlay, ← Finmap.empty_toFinmap, AList.toFinmap_eq, List.isEmpty_iff]
    exact List.perm_nil.symm
  | mapContext stackList ih =>
    rw [isEmpty, overlay]
    induction stackList with
    | nil => simp [isEmptyIn, overlayIn]
    | cons curMap rest ih' =>
      rw [List.forall_mem_cons] at ih
      have hunion : curMap.overlay ∪ overlayIn rest = ∅ ↔
          curMap.overlay = ∅ ∧ overlayIn rest = ∅ := by
        simp only [eq_empty_iff, lookup_union, Option.or_eq_none_iff, forall_and]
      rw [isEmptyIn, overlayIn, hunion, ← ih.1, ← ih' ih.2]
      cases curMap.isEmpty <;> simp

theorem size_eq (t : MapTree K V) : t.size = t.overlay.keys.card := by
  rw [← keySet_eq]
  cases t with
  | hashMap entries =>
    rw [size, keySet, List.toFinset_card_of_nodup entries.keys_nodup]
    exact (List.length_map ..).symm
  | mapContext stackList => rw [size]

/-! ### The entries agree -/

variable [DecidableEq V]

theorem foldl_listSetAdd {es listImpl : List (Entry K V)} (h : (listImpl ++ es).Nodup) :
    es.foldl listSetAdd listImpl = listImpl ++ es := by
  induction es generalizing listImpl with
  | nil => simp
  | cons e es ih =>
    have hnew : e ∉ listImpl := fun he =>
      List.disjoint_of_nodup_append h he List.mem_cons_self
    have hrest : (listImpl ++ [e] ++ es).Nodup := by simpa using h
    simpa [listSetAdd, hnew] using ih hrest

theorem entrySet_mapContext (stackList : List (MapTree K V)) :
    entrySet (.mapContext stackList) = visible ∅ (entrySets stackList).flatten := by
  have hnodup : ([] ++ visible ∅ (entrySets stackList).flatten).Nodup :=
    (nodupKeys_visible ∅ _).nodup
  rw [entrySet, walk_eq, foldl_listSetAdd hnodup]
  rfl

theorem values_eq (t : MapTree K V) : t.values = t.entrySet.map Sigma.snd := by
  cases t with
  | hashMap entries => rw [values, entrySet]
  | mapContext stackList =>
    rw [values, walk_eq, entrySet_mapContext]
    have hfold (es : List (Entry K V)) (vs : List (Option V)) :
        es.foldl (fun resultValues curEntry => resultValues ++ [curEntry.2]) vs =
          vs ++ es.map Sigma.snd := by
      induction es generalizing vs with
      | nil => simp
      | cons e es ih => simp [ih]
    exact hfold _ []

theorem containsValue_eq (t : MapTree K V) (value : Option V) :
    t.containsValue value = t.entrySet.any fun curEntry => curEntry.2 == value := by
  cases t with
  | hashMap entries => rw [containsValue, entrySet]
  | mapContext stackList =>
    rw [containsValue, walk_eq, entrySet_mapContext]
    have hfold (es : List (Entry K V)) (found : Bool) :
        es.foldl (fun found curEntry => found || curEntry.2 == value) found =
          (found || es.any fun curEntry => curEntry.2 == value) := by
      induction es generalizing found with
      | nil => simp
      | cons e es ih => simp [ih, Bool.or_assoc]
    exact hfold _ false

theorem entrySet_spec (t : MapTree K V) :
    t.entrySet.NodupKeys ∧ ∀ key, t.entrySet.dlookup key = t.overlay.lookup key := by
  induction t using MapTree.inductionOn with
  | hashMap entries =>
    rw [entrySet, overlay]
    exact ⟨entries.nodupKeys, fun key => rfl⟩
  | mapContext stackList ih =>
    rw [entrySet_mapContext, overlay]
    refine ⟨nodupKeys_visible _ _, fun key => ?_⟩
    rw [dlookup_visible, if_neg (Finset.notMem_empty key)]
    induction stackList with
    | nil => rfl
    | cons curMap rest ih' =>
      rw [List.forall_mem_cons] at ih
      rw [entrySets, List.flatten_cons, List.dlookup_append, overlayIn, lookup_union,
        ih.1.2 key, ih' ih.2]

theorem entries_overlay (t : MapTree K V) :
    (t.entrySet : Multiset (Entry K V)) = t.overlay.entries := by
  obtain ⟨hnodup, hlookup⟩ := entrySet_spec t
  have hmap : (⟨t.entrySet, hnodup⟩ : Entries K V).toFinmap = t.overlay :=
    Finmap.ext_lookup hlookup
  exact congrArg Finmap.entries hmap

/-- **The views of a stack of maps agree with one map.** -/
theorem agrees_overlay (t : MapTree K V) : t.Agrees t.overlay where
  get := get_eq t
  containsKey := containsKey_iff t
  containsValue value := by
    obtain ⟨hnodup, hlookup⟩ := entrySet_spec t
    rw [containsValue_eq, List.any_eq_true]
    constructor
    · rintro ⟨⟨key, v⟩, hmem, hv⟩
      obtain rfl : v = value := by simpa using hv
      exact ⟨key, (hlookup key).symm.trans (List.mem_dlookup hnodup hmem)⟩
    · rintro ⟨key, hkey⟩
      exact ⟨⟨key, value⟩, List.of_mem_dlookup ((hlookup key).trans hkey), by simp⟩
  size := size_eq t
  isEmpty := isEmpty_iff t
  keySet := keySet_eq t
  values := by rw [values_eq, ← Multiset.map_coe, entries_overlay]
  entrySet := entries_overlay t

end MapTree

end OfficeAuto.Base
