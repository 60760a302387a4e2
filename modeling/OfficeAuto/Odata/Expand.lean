import Mathlib.Data.List.TakeWhile
import Mathlib.Logic.Relation
import OfficeAuto.Logic.CallTree

/-!
# `$expand` with `$levels`

How `OfbizOdataProcessor.addExpandItem` and `addExpandNavigation`, and `addExpandItem` of
`DraftReaderAndWriter`, expand navigation properties. Each reads the related rows of an entity
with a nested expand option, and the reader expands that option on the rows that it has read:
the recursion is over the rows.

For `$levels=n` with `n > 1` the nested option contains the expand item itself, with its levels
set to `expandLevel--`: the value before the decrement. So the level never goes down, and a
collection is expanded for as long as there are related rows. The expansion ends within its
levels when the rows do not go deeper (`expandsWithin_iff_rowsWithin`).
-/

namespace OfficeAuto.Odata

/-! ### Expand options and related rows -/

/-- An expand item: `*`, or a path with its levels, its other options and its own `$expand`.
The navigation property is missing if the path starts with something else. -/
inductive ExpandItem (N Q : Type)
  | star (levelsOption : Option ℕ)
  | path (edmNavigationProperty : Option N) (levelsOption : Option ℕ) (options : Q)
      (expandOption : Option (List (ExpandItem N Q)))

/-- Who expands: `OfbizOdataProcessor`, or `DraftReaderAndWriter`. -/
inductive ExpandReader
  | live
  | draft
  deriving DecidableEq

/-- The entity data model and the rows: the navigation properties `N` of the entity types `T`,
and what a reader finds for an entity of `V`, a navigation property and the options of the
expand item. -/
structure ExpandData (V T N Q : Type) where
  navigationNames : T → List N
  isCollection : N → Bool
  type : N → T
  /-- The condition under which `getExpandData` of `DraftReaderAndWriter` reads drafts. -/
  readsDraft : V → N → Bool
  related : ExpandReader → V → N → Option Q → List V

variable {V T N Q : Type} (D : ExpandData V T N Q)

/-- `expandLevel`, which is 1 without a levels option. The value of `$levels=max` is 0. -/
def expandLevel (levelsOption : Option ℕ) : ℕ := levelsOption.getD 1

def ExpandItem.isStar : ExpandItem N Q → Bool
  | .star _ => true
  | .path .. => false

def ExpandItem.setLevels (n : ℕ) : ExpandItem N Q → ExpandItem N Q
  | .star _ => .star (some n)
  | .path nav _ options expandOption => .path nav (some n) options expandOption

def nestedExpandOption (reader : ExpandReader) (nav : N) (item : ExpandItem N Q) :
    Option (List (ExpandItem N Q)) :=
  match item with
  | .star levels =>
    -- `addExpandNavigation`, whatever the property: `setValue(expandLevel--)` sets the old value
    if 1 < expandLevel levels then some [item.setLevels (expandLevel levels)] else none
  | .path _ levels _ nested =>
    if D.isCollection nav then
      match reader with
      | .live =>
        if 1 < expandLevel levels then
          some (item.setLevels (expandLevel levels) :: nested.getD [])
        else nested
      | .draft =>
        if nested.isNone && decide (1 < expandLevel levels) then
          some [item.setLevels (expandLevel levels)]
        else nested
    else nested

def relatedReader (reader : ExpandReader) (v : V) (nav : N) : ExpandReader :=
  match reader with
  | .live => .live
  | .draft => if D.readsDraft v nav then .draft else .live

/-! ### The expansion -/

/-- A call of `addExpandOption`: the reader, the entity type, the option and the entities. -/
structure ExpandCall (V T N Q : Type) where
  reader : ExpandReader
  edmEntityType : T
  expandOption : Option (List (ExpandItem N Q))
  entities : List V

def itemsBeforeStar (items : List (ExpandItem N Q)) : List (ExpandItem N Q) :=
  items.takeWhile fun item => !item.isStar

/-- The items that are expanded. Only the live reader takes a star, and only as first item. -/
def expandedItems (reader : ExpandReader) (expandOption : Option (List (ExpandItem N Q))) :
    List (ExpandItem N Q) :=
  match reader with
  | .live =>
    match expandOption with
    | none => []
    | some (.star levels :: _) => [.star levels]
    | some items => itemsBeforeStar items
  | .draft => itemsBeforeStar (expandOption.getD [])

/-- The item after the expanded ones throws: a star without a resource path, or the first item
of an empty list. -/
def throwsAfter (reader : ExpandReader) (expandOption : Option (List (ExpandItem N Q))) : Bool :=
  match reader with
  | .live =>
    match expandOption with
    | none => false
    | some [] => true
    | some (.star _ :: _) => false
    | some items => items.any ExpandItem.isStar
  | .draft => (expandOption.getD []).any ExpandItem.isStar

/-- The navigation properties of an item on an entity type, with the options for the rows. -/
def ExpandItem.navigations (item : ExpandItem N Q) (edmEntityType : T) : List (N × Option Q) :=
  match item with
  | .star _ => (D.navigationNames edmEntityType).map fun nav => (nav, none)
  | .path none _ _ _ => []
  | .path (some nav) _ options _ => [(nav, some options)]

def relatedCall (reader : ExpandReader) (item : ExpandItem N Q) (nav : N × Option Q) (v : V) :
    ExpandCall V T N Q :=
  let related := relatedReader D reader v nav.1
  ⟨related, D.type nav.1, nestedExpandOption D reader nav.1 item, D.related related v nav.1 nav.2⟩

/-- The link of an entity along a navigation property of an item, with the call for its rows. A
property that is no collection gets a link only to a row. -/
def addExpandItem (reader : ExpandReader) (item : ExpandItem N Q) (nav : N × Option Q) (v : V) :
    List (ExpandItem N Q × ExpandCall V T N Q) :=
  let call := relatedCall D reader item nav v
  if D.isCollection nav.1 || !call.entities.isEmpty then [(item, call)] else []

/-- `addExpandOption`: the live reader takes one item at a time for all entities, the draft
reader one entity at a time. Each related call is labelled with the item that it comes from. -/
def addExpandOption : Procedure (ExpandCall V T N Q) (ExpandItem N Q) where
  calls call :=
    let items := expandedItems call.reader call.expandOption
    match call.reader with
    | .live =>
      items.flatMap fun item =>
        (item.navigations D call.edmEntityType).flatMap fun nav =>
          call.entities.flatMap fun v => addExpandItem D .live item nav v
    | .draft =>
      (if throwsAfter .draft call.expandOption then call.entities.take 1
        else call.entities).flatMap fun v =>
        items.flatMap fun item =>
          (item.navigations D call.edmEntityType).flatMap fun nav =>
            addExpandItem D .draft item nav v
  throws call := !call.entities.isEmpty && throwsAfter call.reader call.expandOption

def ExpandItem.level : ExpandItem N Q → ℕ
  | .star levels | .path _ levels _ _ => max 1 (expandLevel levels)

def WithinLevels (ls : List (ExpandItem N Q)) : Prop :=
  ∀ item m, List.Sublist (List.replicate m item) ls → m ≤ item.level

/-- **The expansion of an entity** ends, and nests each item within its levels. -/
def ExpandsWithin (reader : ExpandReader) (edmEntityType : T)
    (expandOption : List (ExpandItem N Q)) (v : V) : Prop :=
  (addExpandOption D).Meets WithinLevels ⟨reader, edmEntityType, some expandOption, [v]⟩

/-! ### How deep the rows go -/

/-- An entity of an entity type, with who expands it. -/
structure Spot (V T : Type) where
  reader : ExpandReader
  edmEntityType : T
  entity : V

def Links (item : ExpandItem N Q) (s : Spot V T) (nav : N × Option Q) : Prop :=
  nav ∈ item.navigations D s.edmEntityType ∧ addExpandItem D s.reader item nav s.entity ≠ []

/-- A row that an item leads to from an entity along a navigation property. -/
def RelatedRow (item : ExpandItem N Q) (s : Spot V T) (nav : N × Option Q) (s' : Spot V T) : Prop :=
  nav ∈ item.navigations D s.edmEntityType ∧ s'.reader = relatedReader D s.reader s.entity nav.1 ∧
    s'.edmEntityType = D.type nav.1 ∧ s'.entity ∈ D.related s'.reader s.entity nav.1 nav.2

/-- The rows along a navigation property are expanded with the item itself. -/
def Repeats (reader : ExpandReader) (nav : N) : ExpandItem N Q → Prop
  | .star levels => reader = .live ∧ 1 < expandLevel levels
  | .path _ levels _ nested =>
    D.isCollection nav = true ∧ 1 < expandLevel levels ∧ (reader = .draft → nested = none)

/-- From an entity, an item leads along its navigation properties through `m` links, over rows
that are expanded with the item itself. -/
inductive Depth (item : ExpandItem N Q) : Spot V T → ℕ → Prop
  | one {s : Spot V T} {nav : N × Option Q} (h : Links D item s nav) : Depth item s 1
  | succ {s s' : Spot V T} {nav : N × Option Q} {m : ℕ} (hrep : Repeats D s.reader nav.1 item)
      (hrow : RelatedRow D item s nav s') (h : Depth item s' m) : Depth item s (m + 1)

/-- The expansion of an item on an entity leads to that of an item of the nested option on one
of the rows. -/
def Leads (p q : ExpandItem N Q × Spot V T) : Prop :=
  ∃ nav, RelatedRow D p.1 p.2 nav q.2 ∧
    q.1 ∈ expandedItems q.2.reader (nestedExpandOption D p.2.reader nav.1 p.1)

/-- The related rows do not go deeper along an item than its levels, from wherever the expansion
of the item starts. -/
def RowsWithin (reader : ExpandReader) (edmEntityType : T)
    (expandOption : List (ExpandItem N Q)) (v : V) : Prop :=
  ∀ first ∈ expandedItems reader (some expandOption), ∀ item s,
    Relation.ReflTransGen (Leads D) (first, ⟨reader, edmEntityType, v⟩) (item, s) →
      ¬ Depth D item s (item.level + 1)

/-! ### The items of a nested option -/

section

variable {D}

theorem mem_of_mem_itemsBeforeStar {items : List (ExpandItem N Q)} {item : ExpandItem N Q}
    (h : item ∈ itemsBeforeStar items) : item ∈ items :=
  (List.takeWhile_sublist _).subset h

theorem exists_mem_of_mem_expandedItems {reader : ExpandReader}
    {expandOption : Option (List (ExpandItem N Q))} {item : ExpandItem N Q}
    (h : item ∈ expandedItems reader expandOption) :
    ∃ items, expandOption = some items ∧ item ∈ items := by
  match reader, expandOption, h with
  | .draft, some items, h => exact ⟨items, rfl, mem_of_mem_itemsBeforeStar h⟩
  | .live, some (.star levels :: rest), h =>
    obtain rfl := List.mem_singleton.mp h
    exact ⟨_, rfl, List.mem_cons_self⟩
  | .live, some (.path nav levels options nested :: rest), h =>
    exact ⟨_, rfl, mem_of_mem_itemsBeforeStar h⟩

theorem isStar_eq_false_of_mem {expandOption : Option (List (ExpandItem N Q))}
    {item : ExpandItem N Q} (h : item ∈ expandedItems .draft expandOption) :
    item.isStar = false := by
  simpa using List.mem_takeWhile_imp h

theorem expandLevel_eq {levels : Option ℕ} (h : 1 < expandLevel levels) :
    some (expandLevel levels) = levels := by
  cases levels with
  | none => exact absurd h (Nat.lt_irrefl 1)
  | some n => rfl

theorem sizeOf_lt_of_mem_nested {nav : Option N} {levels : Option ℕ} {options : Q}
    {nested : Option (List (ExpandItem N Q))} {items : List (ExpandItem N Q)}
    (h : nested = some items) {item : ExpandItem N Q} (hmem : item ∈ items) :
    sizeOf item < sizeOf (ExpandItem.path nav levels options nested) := by
  have hlt := List.sizeOf_lt_of_mem hmem
  rw [h, ExpandItem.path.sizeOf_spec, Option.some.sizeOf_spec]
  omega

/-- **The items of the nested option**: the item itself, or an item of its own `$expand`. -/
theorem eq_or_lt_of_mem_nestedExpandOption {reader reader' : ExpandReader} {nav : N}
    {item item' : ExpandItem N Q}
    (hstar : reader = .draft → item.isStar = false)
    (h : item' ∈ expandedItems reader' (nestedExpandOption D reader nav item)) :
    item' = item ∧ Repeats D reader nav item ∨ sizeOf item' < sizeOf item := by
  obtain ⟨items, hitems, hmem⟩ := exists_mem_of_mem_expandedItems h
  match item with
  | .star levels =>
    have hlive : reader = .live := by
      cases reader with
      | live => rfl
      | draft => exact absurd (hstar rfl) (by simp [ExpandItem.isStar])
    dsimp only [nestedExpandOption] at hitems
    split at hitems
    · next hlevel =>
      rw [ExpandItem.setLevels, expandLevel_eq hlevel] at hitems
      obtain rfl := Option.some.inj hitems
      exact Or.inl ⟨List.mem_singleton.mp hmem, hlive, hlevel⟩
    · cases hitems
  | .path path levels options nested =>
    dsimp only [nestedExpandOption] at hitems
    split at hitems
    · next hcollection =>
      cases reader with
      | live =>
        dsimp only at hitems
        split at hitems
        · next hlevel =>
          rw [ExpandItem.setLevels, expandLevel_eq hlevel] at hitems
          obtain rfl := Option.some.inj hitems
          obtain rfl | hmem := List.mem_cons.mp hmem
          · exact Or.inl ⟨rfl, hcollection, hlevel, fun h => by cases h⟩
          · cases nested with
            | none => cases hmem
            | some own => exact Or.inr (sizeOf_lt_of_mem_nested rfl hmem)
        · exact Or.inr (sizeOf_lt_of_mem_nested hitems hmem)
      | draft =>
        dsimp only at hitems
        split at hitems
        · next hcond =>
          rw [Bool.and_eq_true, decide_eq_true_eq, Option.isNone_iff_eq_none] at hcond
          rw [ExpandItem.setLevels, expandLevel_eq hcond.2] at hitems
          obtain rfl := Option.some.inj hitems
          exact Or.inl ⟨List.mem_singleton.mp hmem, hcollection, hcond.2, fun _ => hcond.1⟩
        · exact Or.inr (sizeOf_lt_of_mem_nested hitems hmem)
    · exact Or.inr (sizeOf_lt_of_mem_nested hitems hmem)

theorem mem_nestedExpandOption_of_repeats {reader : ExpandReader} {v : V} {nav : N}
    {item : ExpandItem N Q} (h : Repeats D reader nav item) :
    item ∈ expandedItems (relatedReader D reader v nav) (nestedExpandOption D reader nav item) := by
  match item, h with
  | .star levels, h =>
    obtain ⟨rfl, hlevel⟩ := h
    rw [nestedExpandOption, if_pos hlevel, ExpandItem.setLevels, expandLevel_eq hlevel]
    exact List.mem_singleton.mpr rfl
  | .path path levels options nested, ⟨hcollection, hlevel, hdraft⟩ =>
    have hfirst (reader' : ExpandReader) (rest : List (ExpandItem N Q)) :
        ExpandItem.path path levels options nested ∈
          expandedItems reader' (some (.path path levels options nested :: rest)) := by
      cases reader' <;> exact List.mem_cons_self
    cases reader with
    | live =>
      dsimp only [nestedExpandOption]
      rw [if_pos hcollection, if_pos hlevel, ExpandItem.setLevels, expandLevel_eq hlevel]
      exact hfirst _ _
    | draft =>
      obtain rfl := hdraft rfl
      dsimp only [nestedExpandOption]
      rw [if_pos hcollection, if_pos (by simpa using hlevel), ExpandItem.setLevels,
        expandLevel_eq hlevel]
      exact hfirst _ _

/-! ### The calls -/

def ExpandCall.Expands (call : ExpandCall V T N Q) (item : ExpandItem N Q) (s : Spot V T) : Prop :=
  item ∈ expandedItems call.reader call.expandOption ∧ s.reader = call.reader ∧
    s.edmEntityType = call.edmEntityType ∧ s.entity ∈ call.entities

variable {item item' : ExpandItem N Q} {s s' : Spot V T} {nav : N × Option Q}
  {call call' : ExpandCall V T N Q}

theorem eq_of_mem_addExpandItem {reader : ExpandReader} {v : V}
    {next : ExpandItem N Q × ExpandCall V T N Q} (h : next ∈ addExpandItem D reader item nav v) :
    next = (item, relatedCall D reader item nav v) := by
  dsimp only [addExpandItem] at h
  split at h
  · exact List.mem_singleton.mp h
  · cases h

theorem exists_of_mem_calls (h : (item, call') ∈ (addExpandOption D).calls call) :
    ∃ s nav, call.Expands item s ∧ Links D item s nav ∧
      call' = relatedCall D s.reader item nav s.entity := by
  obtain ⟨reader, edmEntityType, expandOption, entities⟩ := call
  cases reader with
  | live =>
    obtain ⟨item₁, hitem, h⟩ := List.mem_flatMap.mp h
    obtain ⟨nav, hnav, h⟩ := List.mem_flatMap.mp h
    obtain ⟨v, hv, h⟩ := List.mem_flatMap.mp h
    obtain ⟨rfl, rfl⟩ := Prod.mk.inj (eq_of_mem_addExpandItem h)
    exact ⟨⟨.live, edmEntityType, v⟩, nav, ⟨hitem, rfl, rfl, hv⟩,
      ⟨hnav, List.ne_nil_of_mem h⟩, rfl⟩
  | draft =>
    obtain ⟨v, hv, h⟩ := List.mem_flatMap.mp h
    obtain ⟨item₁, hitem, h⟩ := List.mem_flatMap.mp h
    obtain ⟨nav, hnav, h⟩ := List.mem_flatMap.mp h
    obtain ⟨rfl, rfl⟩ := Prod.mk.inj (eq_of_mem_addExpandItem h)
    have hv' : v ∈ entities := by
      split at hv
      · exact List.mem_of_mem_take hv
      · exact hv
    exact ⟨⟨.draft, edmEntityType, v⟩, nav, ⟨hitem, rfl, rfl, hv'⟩,
      ⟨hnav, List.ne_nil_of_mem h⟩, rfl⟩

theorem mem_calls (hthrow : (addExpandOption D).throws call = false)
    (hexp : call.Expands item s) (hlinks : Links D item s nav) :
    (item, relatedCall D s.reader item nav s.entity) ∈ (addExpandOption D).calls call := by
  obtain ⟨reader, edmEntityType, expandOption, entities⟩ := call
  obtain ⟨reader', edmEntityType', v⟩ := s
  obtain ⟨hitem, rfl, rfl, hv⟩ := hexp
  obtain ⟨hnav, hne⟩ := hlinks
  obtain ⟨next, hnext⟩ := List.exists_mem_of_ne_nil _ hne
  obtain rfl := eq_of_mem_addExpandItem hnext
  cases reader' with
  | live =>
    exact List.mem_flatMap.mpr ⟨item, hitem, List.mem_flatMap.mpr
      ⟨nav, hnav, List.mem_flatMap.mpr ⟨v, hv, hnext⟩⟩⟩
  | draft =>
    have hno : throwsAfter .draft expandOption = false := by
      cases entities with
      | nil => cases hv
      | cons _ _ => exact hthrow
    refine List.mem_flatMap.mpr ⟨v, ?_, List.mem_flatMap.mpr ⟨item, hitem, List.mem_flatMap.mpr
      ⟨nav, hnav, hnext⟩⟩⟩
    rw [hno, if_neg Bool.false_ne_true]
    exact hv

theorem expands_relatedCall (hnav : nav ∈ item.navigations D s.edmEntityType) :
    (relatedCall D s.reader item nav s.entity).Expands item' s' ↔
      RelatedRow D item s nav s' ∧
        item' ∈ expandedItems s'.reader (nestedExpandOption D s.reader nav.1 item) := by
  constructor
  · rintro ⟨hitem, hreader, htype, hv⟩
    obtain ⟨reader', edmEntityType', v'⟩ := s'
    obtain rfl := hreader
    exact ⟨⟨hnav, rfl, htype, hv⟩, hitem⟩
  · rintro ⟨⟨_, hreader, htype, hv⟩, hitem⟩
    obtain ⟨reader', edmEntityType', v'⟩ := s'
    obtain rfl := hreader
    exact ⟨hitem, rfl, htype, hv⟩

theorem RelatedRow.links (h : RelatedRow D item s nav s') : Links D item s nav := by
  obtain ⟨hnav, hreader, _, hv⟩ := h
  refine ⟨hnav, ?_⟩
  rw [hreader] at hv
  have hrows : (relatedCall D s.reader item nav s.entity).entities.isEmpty = false := by
    rw [List.isEmpty_eq_false_iff]
    exact List.ne_nil_of_mem hv
  dsimp only [addExpandItem]
  rw [hrows, Bool.not_false, Bool.or_true, if_pos rfl]
  exact List.cons_ne_nil _ _

/-! ### The depth of the recursion -/

variable {p q : ExpandItem N Q × Spot V T} {m : ℕ}

def Proper (p : ExpandItem N Q × Spot V T) : Prop :=
  p.2.reader = .draft → p.1.isStar = false

theorem ExpandCall.Expands.proper (h : call.Expands item s) : Proper (item, s) := by
  intro hdraft
  have hmem := h.1
  rw [← h.2.1, hdraft] at hmem
  exact isStar_eq_false_of_mem hmem

theorem Leads.proper (h : Leads D p q) : Proper q := by
  obtain ⟨nav, _, hmem⟩ := h
  intro hdraft
  rw [hdraft] at hmem
  exact isStar_eq_false_of_mem hmem

theorem Leads.repeats_or_lt (hp : Proper p) (h : Leads D p q) :
    (q.1 = p.1 ∧ ∃ nav, Repeats D p.2.reader nav.1 p.1 ∧ RelatedRow D p.1 p.2 nav q.2) ∨
      sizeOf q.1 < sizeOf p.1 := by
  obtain ⟨nav, hrow, hmem⟩ := h
  obtain ⟨heq, hrep⟩ | hlt := eq_or_lt_of_mem_nestedExpandOption hp hmem
  · exact Or.inl ⟨heq, nav, hrep, hrow⟩
  · exact Or.inr hlt

theorem sizeOf_le_of_leads (hp : Proper p) (h : Relation.ReflTransGen (Leads D) p q) :
    sizeOf q.1 ≤ sizeOf p.1 := by
  induction h using Relation.ReflTransGen.head_induction_on with
  | refl => exact Nat.le_refl _
  | @head p r hpr _ ih =>
    have hle := ih hpr.proper
    obtain ⟨heq, _⟩ | hlt := hpr.repeats_or_lt hp
    · exact heq ▸ hle
    · omega

theorem Depth.of_succ (h : Depth D item s (m + 2)) : Depth D item s (m + 1) := by
  induction m generalizing s with
  | zero =>
    cases h with
    | succ _ hrow _ => exact Depth.one hrow.links
  | succ m ih =>
    cases h with
    | succ hrep hrow h => exact Depth.succ hrep hrow (ih h)

theorem Depth.of_leads (hp : Proper p) (h : Relation.ReflTransGen (Leads D) p q)
    (heq : q.1 = p.1) (hdepth : Depth D q.1 q.2 (m + 1)) : Depth D p.1 p.2 (m + 1) := by
  induction h using Relation.ReflTransGen.head_induction_on with
  | refl => exact hdepth
  | @head p r hpr hrq ih =>
    have hle := sizeOf_le_of_leads hpr.proper hrq
    obtain ⟨hr, nav, hrep, hrow⟩ | hlt := hpr.repeats_or_lt hp
    · have hdepth' := ih hpr.proper (heq.trans hr.symm)
      rw [hr] at hdepth'
      exact (Depth.succ hrep hrow hdepth').of_succ
    · rw [heq] at hle
      omega

/-! ### Termination -/

theorem acc_leads (hp : Proper p) (h : ∀ q, Relation.ReflTransGen (Leads D) p q →
    ¬ Depth D q.1 q.2 (q.1.level + 1)) : Acc (fun q p => Leads D p q) p := by
  induction hn : sizeOf p.1 using Nat.strong_induction_on generalizing p with
  | _ n ihsize =>
    -- the item repeats on rows from where there are fewer and fewer links
    have hrows (k : ℕ) : ∀ p', p'.1 = p.1 → Proper p' → Relation.ReflTransGen (Leads D) p p' →
        ¬ Depth D p'.1 p'.2 (k + 1) → Acc (fun q p => Leads D p q) p' := by
      induction k with
      | zero =>
        intro p' _ _ _ hdepth
        refine Acc.intro _ fun q hq => ?_
        obtain ⟨nav, hrow, _⟩ := hq
        exact absurd (Depth.one hrow.links) hdepth
      | succ k ihrows =>
        intro p' heq hp' hreach hdepth
        refine Acc.intro _ fun q hq => ?_
        have hreach' := hreach.tail hq
        obtain ⟨heq', nav, hrep, hrow⟩ | hlt := hq.repeats_or_lt hp'
        · refine ihrows q (heq'.trans heq) hq.proper hreach' fun hdepth' => hdepth ?_
          rw [heq'] at hdepth'
          exact Depth.succ hrep hrow hdepth'
        · rw [heq, hn] at hlt
          exact ihsize _ hlt hq.proper (fun q' hq' => h q' (hreach'.trans hq')) rfl
    exact hrows _ p rfl hp Relation.ReflTransGen.refl
      (h p Relation.ReflTransGen.refl)

theorem acc_relatedCall (h : Acc (fun q p => Leads D p q) p)
    (hnav : nav ∈ p.1.navigations D p.2.edmEntityType) :
    Acc (addExpandOption D).Sub (relatedCall D p.2.reader p.1 nav p.2.entity) := by
  induction h generalizing nav with
  | intro p _ ih =>
    refine Acc.intro _ fun call' hsub => ?_
    obtain ⟨item, hmem⟩ := hsub
    obtain ⟨s, nav', hexp, hlinks, rfl⟩ := exists_of_mem_calls hmem
    obtain ⟨hrow, hitem⟩ := (expands_relatedCall hnav).mp hexp
    exact ih (item, s) ⟨nav, hrow, hitem⟩ hlinks.1

theorem acc_call
    (h : ∀ item s, call.Expands item s → Acc (fun q p => Leads D p q) (item, s)) :
    Acc (addExpandOption D).Sub call := by
  refine Acc.intro _ fun call' hsub => ?_
  obtain ⟨item, hmem⟩ := hsub
  obtain ⟨s, nav, hexp, hlinks, rfl⟩ := exists_of_mem_calls hmem
  exact acc_relatedCall (h item s hexp) hlinks.1

/-! ### Nesting -/

theorem exists_depth_of_sublist {ls : List (ExpandItem N Q)}
    (h : (addExpandOption D).Reaches call ls call')
    (hsub : List.Sublist (List.replicate (m + 1) item) ls) :
    ∃ p s, call.Expands p.1 p.2 ∧ Relation.ReflTransGen (Leads D) p (item, s) ∧
      Depth D item s (m + 1) := by
  induction h generalizing m with
  | nil => cases hsub
  | @cons call call₁ _ label ls hmem _ ih =>
    obtain ⟨s₁, nav, hexp, hlinks, rfl⟩ := exists_of_mem_calls hmem
    -- the expansions of the rows come after that of the label
    have hleads (p : ExpandItem N Q × Spot V T)
        (hp : (relatedCall D s₁.reader label nav s₁.entity).Expands p.1 p.2) :
        Leads D (label, s₁) p :=
      ⟨nav, (expands_relatedCall hlinks.1).mp hp⟩
    rw [List.replicate_succ] at hsub
    cases hsub with
    | cons _ hsub =>
      rw [← List.replicate_succ] at hsub
      obtain ⟨p, s, hp, hreach, hdepth⟩ := ih hsub
      exact ⟨(label, s₁), s, hexp, hreach.head (hleads p hp), hdepth⟩
    | cons_cons _ hsub =>
      refine ⟨(item, s₁), s₁, hexp, Relation.ReflTransGen.refl, ?_⟩
      cases m with
      | zero => exact Depth.one hlinks
      | succ m =>
        obtain ⟨p, s, hp, hreach, hdepth⟩ := ih hsub
        have hle := sizeOf_le_of_leads (hleads p hp).proper hreach
        obtain ⟨heq, nav', hrep, hrow⟩ | hlt := (hleads p hp).repeats_or_lt hexp.proper
        · have hdepth' := Depth.of_leads (hleads p hp).proper hreach heq.symm hdepth
          rw [heq] at hdepth'
          exact Depth.succ hrep hrow hdepth'
        · exact absurd hlt (Nat.not_lt.mpr hle)

theorem exists_reaches_of_leads (hthrow : (addExpandOption D).NoThrow call)
    (hp : call.Expands p.1 p.2) (h : Relation.ReflTransGen (Leads D) p q) :
    ∃ ls call', (addExpandOption D).Reaches call ls call' ∧ call'.Expands q.1 q.2 := by
  induction h with
  | refl => exact ⟨[], call, Procedure.Reaches.nil call, hp⟩
  | @tail q r _ hqr ih =>
    obtain ⟨ls, call', hreach, hq⟩ := ih
    obtain ⟨nav, hrow, hmem⟩ := hqr
    have hcall := mem_calls (hthrow ls call' hreach) hq hrow.links
    exact ⟨ls ++ [q.1], relatedCall D q.2.reader q.1 nav q.2.entity,
      hreach.trans (Procedure.Reaches.cons hcall (Procedure.Reaches.nil _)),
      (expands_relatedCall hrow.1).mpr ⟨hrow, hmem⟩⟩

theorem exists_reaches_of_depth (hthrow : (addExpandOption D).NoThrow call)
    (hexp : call.Expands item s) (h : Depth D item s m) :
    ∃ call', (addExpandOption D).Reaches call (List.replicate m item) call' := by
  induction h generalizing call with
  | one hlinks =>
    have hcall := mem_calls (hthrow [] call (Procedure.Reaches.nil call)) hexp hlinks
    exact ⟨_, Procedure.Reaches.cons hcall (Procedure.Reaches.nil _)⟩
  | @succ s s' nav m hrep hrow _ ih =>
    have hcall := mem_calls (hthrow [] call (Procedure.Reaches.nil call)) hexp hrow.links
    have hmem : item ∈ expandedItems s'.reader (nestedExpandOption D s.reader nav.1 item) := by
      rw [hrow.2.1]
      exact mem_nestedExpandOption_of_repeats hrep
    obtain ⟨call', hreach⟩ := ih (hthrow.sub hcall)
      ((expands_relatedCall hrow.1).mpr ⟨hrow, hmem⟩)
    exact ⟨call', Procedure.Reaches.cons hcall hreach⟩

variable {reader : ExpandReader} {edmEntityType : T} {expandOption : List (ExpandItem N Q)} {v : V}

theorem RowsWithin.expandsWithin (h : RowsWithin D reader edmEntityType expandOption v) :
    ExpandsWithin D reader edmEntityType expandOption v := by
  have hspot (item : ExpandItem N Q) (s : Spot V T)
      (hexp : (⟨reader, edmEntityType, some expandOption, [v]⟩ :
        ExpandCall V T N Q).Expands item s) : s = ⟨reader, edmEntityType, v⟩ := by
    obtain ⟨reader', edmEntityType', v'⟩ := s
    obtain ⟨_, rfl, rfl, hv⟩ := hexp
    obtain rfl := List.mem_singleton.mp hv
    rfl
  refine Procedure.Meets.of_acc (acc_call fun item s hexp => ?_)
    fun ls call' hreach item m hsub => ?_
  · obtain rfl := hspot item s hexp
    exact acc_leads hexp.proper fun q hq => h item hexp.1 q.1 q.2 hq
  · by_contra hlt
    have hmore : List.Sublist (List.replicate (item.level + 1) item) (List.replicate m item) :=
      (List.replicate_sublist_replicate item).mpr (Nat.lt_of_not_le hlt)
    obtain ⟨p, s, hp, hpq, hdepth⟩ := exists_depth_of_sublist hreach (hmore.trans hsub)
    obtain ⟨item₀, s₀⟩ := p
    obtain rfl := hspot item₀ s₀ hp
    exact h item₀ hp.1 item s hpq hdepth

theorem ExpandsWithin.rowsWithin (h : ExpandsWithin D reader edmEntityType expandOption v)
    (hthrow : (addExpandOption D).NoThrow ⟨reader, edmEntityType, some expandOption, [v]⟩) :
    RowsWithin D reader edmEntityType expandOption v := by
  intro item₀ hmem item s hreach hdepth
  obtain ⟨ls, call', hcalls, hexp⟩ := exists_reaches_of_leads hthrow
    (p := (item₀, ⟨reader, edmEntityType, v⟩))
    ⟨hmem, rfl, rfl, List.mem_singleton.mpr rfl⟩ hreach
  obtain ⟨call'', hcalls'⟩ := exists_reaches_of_depth
    (fun ls' k' hk' => hthrow (ls ++ ls') k' (hcalls.trans hk')) hexp hdepth
  have hgood := h.forall_reaches hthrow (hcalls.trans hcalls')
  exact absurd (hgood item (item.level + 1) (List.sublist_append_right _ _))
    (Nat.not_succ_le_self _)

end

variable (reader : ExpandReader) (edmEntityType : T) (expandOption : List (ExpandItem N Q)) (v : V)

/-- **When the expansion ends within its levels.** It does if the related rows do not go deeper;
and only then, unless it is cut short by the exception for a star without a resource path. -/
theorem expandsWithin_iff_rowsWithin :
    (RowsWithin D reader edmEntityType expandOption v →
      ExpandsWithin D reader edmEntityType expandOption v) ∧
    ((addExpandOption D).NoThrow ⟨reader, edmEntityType, some expandOption, [v]⟩ →
      ExpandsWithin D reader edmEntityType expandOption v →
      RowsWithin D reader edmEntityType expandOption v) :=
  ⟨RowsWithin.expandsWithin, fun hthrow h => h.rowsWithin hthrow⟩

/-! ### Two levels -/

def childrenOf (V : Type) (rows : V → List V) : ExpandData V Unit Unit Unit where
  navigationNames _ := [()]
  isCollection _ := true
  type _ := ()
  readsDraft _ _ := false
  related _ v _ _ := rows v

def childrenItem : ExpandItem Unit Unit := .path (some ()) (some 2) () none

theorem noThrow_childrenOf (rows : V → List V) (vs : List V) :
    (addExpandOption (childrenOf V rows)).NoThrow ⟨.live, (), some [childrenItem], vs⟩ := by
  intro ls call' hreach
  generalize hcall : (⟨.live, (), some [childrenItem], vs⟩ : ExpandCall V Unit Unit Unit) = call
    at hreach
  induction hreach generalizing vs with
  | nil call =>
    subst hcall
    exact Bool.and_false _
  | @cons call call₁ _ item ls hmem _ ih =>
    subst hcall
    obtain ⟨s, nav, hexp, hlinks, rfl⟩ := exists_of_mem_calls hmem
    obtain ⟨reader, edmEntityType, v⟩ := s
    obtain ⟨hitem, rfl, rfl, hv⟩ := hexp
    obtain rfl := List.mem_singleton.mp hitem
    exact ih (rows v) rfl

theorem not_expandsWithin_twoLevels :
    (∀ n, (addExpandOption (childrenOf Unit fun _ => [()])).run n
      ⟨.live, (), some [childrenItem], [()]⟩ = .timeout) ∧
    ¬ ExpandsWithin (childrenOf ℕ fun v => if v < 3 then [v + 1] else []) .live ()
      [childrenItem] 0 := by
  constructor
  · intro n
    induction n with
    | zero => rfl
    | succ n ih =>
      rw [Procedure.run]
      have hcalls : (addExpandOption (childrenOf Unit fun _ => [()])).calls
          ⟨.live, (), some [childrenItem], [()]⟩ =
          [(childrenItem, ⟨.live, (), some [childrenItem], [()]⟩)] := rfl
      rw [hcalls, Procedure.runCalls, ih]
      rfl
  · intro h
    -- the rows 1 and 2 are expanded with the item itself
    have hrep : Repeats (childrenOf ℕ fun v => if v < 3 then [v + 1] else []) .live ()
        childrenItem :=
      ⟨rfl, by decide, fun h => by cases h⟩
    have hrow (v : ℕ) (hv : v < 3) : RelatedRow
        (childrenOf ℕ fun v => if v < 3 then [v + 1] else []) childrenItem
        ⟨.live, (), v⟩ ((), some ()) ⟨.live, (), v + 1⟩ :=
      ⟨List.mem_singleton.mpr rfl, rfl, rfl, by simp [childrenOf, hv]⟩
    refine h.rowsWithin (noThrow_childrenOf _ _) childrenItem (List.mem_singleton.mpr rfl)
      childrenItem ⟨.live, (), 0⟩ Relation.ReflTransGen.refl ?_
    exact Depth.succ hrep (hrow 0 (by decide)) (Depth.succ hrep (hrow 1 (by decide))
      (Depth.one (hrow 2 (by decide)).links))

end OfficeAuto.Odata
