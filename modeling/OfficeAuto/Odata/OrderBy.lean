import Mathlib.Algebra.Order.Field.Basic
import Mathlib.Algebra.Order.Ring.Rat
import Mathlib.Algebra.Order.Field.Power
import OfficeAuto.Entity.Value
import OfficeAuto.Logic.Comparator
import OfficeAuto.Text.Split

/-!
# Ordering in memory

`Util.orderbyEntityCollection` sorts entities by the properties of `$orderby` if the database
cannot. Its comparator goes through the items until one tells two entities apart. It finds the class
of the values in the name of the property's type, and casts them to it.

With values of these classes the comparator is the lexicographic order by the items, each in its
direction and with missing values last. A value of another class, such as the `Boolean` of a
boolean property or the `Long` of an `Edm.Int64`, cannot be cast. The comparator is a total preorder
of the entities exactly if there is no such value (`orderbyEntityCollection_iff`).
-/

namespace OfficeAuto.Odata.OrderBy

open Decimal Comparator

/-! ### Values -/

/-- The value of a property; a value of no class that the comparator knows is an object. -/
inductive PropertyValue (V : Type)
  | string (s : List Char)
  | integer (n : ℤ)
  | bigDecimal (b : BigDecimal)
  | timestamp (t : Timestamp)
  | object (value : V)
  deriving DecidableEq

/-- The classes that the comparator casts to. -/
inductive ValueClass
  | string
  | integer
  | bigDecimal
  | timestamp
  deriving DecidableEq

inductive OrderByException
  | nullPointer
  | classCast
  | odata (message : List Char)
  deriving DecidableEq

variable {V E : Type}

def PropertyValue.javaClass : PropertyValue V → Option ValueClass
  | string _ => some .string
  | integer _ => some .integer
  | bigDecimal _ => some .bigDecimal
  | timestamp _ => some .timestamp
  | object _ => none

def columnClass (type : List Char) : ValueClass :=
  if "Decimal".toList <:+: type then .bigDecimal
  else if "Date".toList <:+: type then .timestamp
  else if "Int".toList <:+: type then .integer
  else .string

def compareAs : ValueClass → PropertyValue V → PropertyValue V → Except OrderByException Ordering
  | .bigDecimal, .bigDecimal v₁, .bigDecimal v₂ => .ok (compareDecimal v₁ v₂)
  | .timestamp, .timestamp v₁, .timestamp v₂ =>
    .ok ((compare v₁.getTime v₂.getTime).then (compare v₁.nanosBelow v₂.nanosBelow))
  | .integer, .integer v₁, .integer v₂ => .ok (compare v₁ v₂)
  | .string, .string v₁, .string v₂ => .ok (compare (v₁.flatMap utf16) (v₂.flatMap utf16))
  | _, _, _ => .error .classCast

/-! ### Items -/

/-- An item of `$orderby` at a property. The name of a property has no dash and no blank. -/
structure OrderByItem where
  property : List Char
  descending : Bool
  dash_not_mem : '-' ∉ property
  blank_not_mem : ' ' ∉ property

/-- An expression of `$orderby`: a property, a path, or one that is ignored. -/
inductive OrderByExpression
  | property (item : OrderByItem)
  | path
  | ignored

def nullsLastText : List Char := " NULLS LAST".toList

def orderByText (item : OrderByItem) : List Char :=
  (if item.descending then ['-'] else []) ++ item.property ++ nullsLastText

def retrieveSimpleOrderByOption :
    List OrderByExpression → Except OrderByException (List (List Char))
  | [] => .ok []
  | .property item :: orderItemList =>
    (retrieveSimpleOrderByOption orderItemList).map (orderByText item :: ·)
  | .ignored :: orderItemList => retrieveSimpleOrderByOption orderItemList
  | .path :: _ => .error (.odata "Only support one segment order by".toList)

/-! ### The comparator -/

/-- `ob.replace(" NULLS LAST", "").replace("-", "")`. -/
def propertyName (ob : List Char) : List Char :=
  (Text.splitOnSeq nullsLastText 0 ob).flatten.filter (· ≠ '-')

section

variable (value : E → List Char → Option (PropertyValue V))
  (typeOf : List Char → Option (List Char))

def compareAt (ob : List Char) (e₁ e₂ : E) : Except OrderByException Ordering :=
  let desc := ob.head? = some '-'
  let ob := propertyName ob
  match value e₁ ob, value e₂ ob with
  | none, none => .ok .eq
  -- null is the last one in both directions
  | none, some _ => .ok .gt
  | some _, none => .ok .lt
  | some v₁, some v₂ =>
    match typeOf ob with
    | none => .error .nullPointer
    | some type =>
      -- the type of the property is read only where both values are there
      if desc then compareAs (columnClass type) v₂ v₁ else compareAs (columnClass type) v₁ v₂

def compareEntities : List (List Char) → E → E → Except OrderByException Ordering
  | [], _, _ => .ok .eq
  | ob :: orderby, e₁, e₂ => do
    let compare ← compareAt value typeOf ob e₁ e₂
    if compare = .eq then compareEntities orderby e₁ e₂ else pure compare

/-- **`Util.orderbyEntityCollection`.** -/
def orderbyEntityCollection (orderByOption : List OrderByExpression) (entities : List E) :
    Except OrderByException (List E) :=
  if entities.isEmpty then .ok entities
  else do
    let orderby ← retrieveSimpleOrderByOption orderByOption
    sortM (compareEntities value typeOf orderby) entities

/-! ### The order that is meant -/

def quantity (b : BigDecimal) : ℚ := b.unscaled * (10 : ℚ) ^ (-b.scale)

def naturalOrder : ValueClass → PropertyValue V → PropertyValue V → Ordering
  | .string, v₁, v₂ => compare (text v₁) (text v₂)
  | .integer, v₁, v₂ => compare (number v₁) (number v₂)
  | .bigDecimal, v₁, v₂ => compare (amount v₁) (amount v₂)
  | .timestamp, v₁, v₂ => (compare (millis v₁) (millis v₂)).then (compare (nanos v₁) (nanos v₂))
where
  text : PropertyValue V → List ℕ
    | .string s => s.flatMap utf16
    | _ => []
  number : PropertyValue V → ℤ
    | .integer n => n
    | _ => 0
  amount : PropertyValue V → ℚ
    | .bigDecimal b => quantity b
    | _ => 0
  millis : PropertyValue V → ℤ
    | .timestamp t => t.getTime
    | _ => 0
  nanos : PropertyValue V → ℕ
    | .timestamp t => t.nanosBelow
    | _ => 0

def OrderByItem.valueClass (item : OrderByItem) : ValueClass :=
  columnClass ((typeOf item.property).getD [])

/-- The order by an item: in its direction, and with missing values last. -/
def OrderByItem.order (item : OrderByItem) (e₁ e₂ : E) : Ordering :=
  nullsLast (directed item.descending (naturalOrder (item.valueClass typeOf)))
    (value e₁ item.property) (value e₂ item.property)

def itemsOrder (items : List OrderByItem) : E → E → Ordering :=
  lexicographic (items.map fun item => item.order value typeOf)

/-- The values of the entities at the items have the classes that they are cast to. -/
def WellTyped (items : List OrderByItem) (entities : List E) : Prop :=
  ∀ e ∈ entities, ∀ item ∈ items, ∀ v, value e item.property = some v →
    ∃ type, typeOf item.property = some type ∧ v.javaClass = some (columnClass type)

end

/-! ### Big decimals -/

theorem quantity_eq (b : BigDecimal) {m : ℤ} (h : b.scale ≤ m) :
    quantity b = ((b.unscaled * 10 ^ (m - b.scale).toNat : ℤ) : ℚ) * (10 : ℚ) ^ (-m) := by
  have hpow : ((10 : ℚ) ^ (m - b.scale).toNat) = (10 : ℚ) ^ (m - b.scale) := by
    rw [← zpow_natCast, Int.toNat_of_nonneg (by omega)]
  have hsum : m - b.scale + -m = -b.scale := by omega
  push_cast
  rw [quantity, hpow, mul_assoc, ← zpow_add₀ (by norm_num), hsum]

theorem compareDecimal_eq (a b : BigDecimal) :
    compareDecimal a b = compare (quantity a) (quantity b) := by
  have hmono : StrictMono fun n : ℤ => (n : ℚ) * (10 : ℚ) ^ (-max a.scale b.scale) :=
    Int.cast_strictMono.mul_const (zpow_pos (by norm_num) _)
  have ha := quantity_eq a (le_max_left a.scale b.scale)
  have hb := quantity_eq b (le_max_right a.scale b.scale)
  have hda : (max a.scale b.scale - a.scale).toNat = (b.scale - a.scale).toNat := by omega
  have hdb : (max a.scale b.scale - b.scale).toNat = (a.scale - b.scale).toNat := by omega
  rw [ha, hb, hda, hdb, compareDecimal, ← cmp_eq_compare, ← cmp_eq_compare]
  exact (hmono.cmp_map_eq _ _).symm

/-! ### Classes -/

/-- **Values of the class are compared in its order.** -/
theorem compareAs_eq {cls : ValueClass} {v₁ v₂ : PropertyValue V} (h₁ : v₁.javaClass = some cls)
    (h₂ : v₂.javaClass = some cls) : compareAs cls v₁ v₂ = .ok (naturalOrder cls v₁ v₂) := by
  cases v₁ with
  | object v => cases h₁
  | string s =>
    cases h₁
    cases v₂ <;> cases h₂
    rfl
  | integer n =>
    cases h₁
    cases v₂ <;> cases h₂
    rfl
  | bigDecimal b =>
    cases h₁
    cases v₂ <;> cases h₂
    exact congrArg Except.ok (compareDecimal_eq _ _)
  | timestamp t =>
    cases h₁
    cases v₂ <;> cases h₂
    rfl

theorem compareAs_self {cls : ValueClass} {v : PropertyValue V} {o : Ordering}
    (h : compareAs cls v v = .ok o) : v.javaClass = some cls := by
  cases v <;> cases cls <;> first | rfl | cases h

instance transCmp_naturalOrder (cls : ValueClass) :
    Std.TransCmp (naturalOrder cls : PropertyValue V → PropertyValue V → Ordering) := by
  cases cls with
  | string => exact @transCmp_on _ (List ℕ) compare inferInstance naturalOrder.text
  | integer => exact @transCmp_on _ ℤ compare inferInstance naturalOrder.number
  | bigDecimal => exact @transCmp_on _ ℚ compare inferInstance naturalOrder.amount
  | timestamp =>
    have hmillis := @transCmp_on (PropertyValue V) ℤ compare inferInstance naturalOrder.millis
    have hnanos := @transCmp_on (PropertyValue V) ℕ compare inferInstance naturalOrder.nanos
    exact inferInstanceAs (Std.TransCmp (compareLex
      (fun v₁ v₂ : PropertyValue V => compare (naturalOrder.millis v₁) (naturalOrder.millis v₂))
      fun v₁ v₂ => compare (naturalOrder.nanos v₁) (naturalOrder.nanos v₂)))

/-! ### Texts of items -/

theorem not_nullsLastText {name : List Char} (h : ' ' ∉ name) :
    ¬ nullsLastText <:+: name ++ nullsLastText.dropLast := by
  rintro ⟨before, after, heq⟩
  have hlength := congrArg List.length heq
  have hall : nullsLastText.length = 11 := rfl
  have hdrop : nullsLastText.dropLast.length = 10 := rfl
  simp only [List.length_append, hall, hdrop] at hlength
  have hblank : (before ++ nullsLastText ++ after)[before.length]? = some ' ' := by
    rw [List.append_assoc, List.getElem?_append_right (Nat.le_refl _), Nat.sub_self]
    rfl
  rw [heq, List.getElem?_append_left (by omega)] at hblank
  exact h (List.mem_of_getElem? hblank)

/-- **The name of an item is read off its text.** -/
theorem propertyName_orderByText (item : OrderByItem) :
    propertyName (orderByText item) = item.property := by
  have hblank : ' ' ∉ (if item.descending then ['-'] else []) ++ item.property := by
    rw [List.mem_append, not_or]
    refine ⟨?_, item.blank_not_mem⟩
    cases item.descending <;> decide
  have hcut := @Text.splitOnSeq_append Char _ nullsLastText _ [] (by decide)
    (not_nullsLastText hblank)
  rw [List.append_nil] at hcut
  rw [propertyName, orderByText, hcut, Text.splitOnSeq, List.flatten_cons, List.flatten_cons,
    List.flatten_nil, List.append_nil, List.append_nil, List.filter_append]
  have hproperty : item.property.filter (· ≠ '-') = item.property := by
    refine List.filter_eq_self.mpr fun c hc => decide_eq_true fun hdash => ?_
    exact item.dash_not_mem (hdash ▸ hc)
  rw [hproperty]
  cases item.descending <;> rfl

theorem head_orderByText (item : OrderByItem) :
    (orderByText item).head? = some '-' ↔ item.descending = true := by
  cases hdesc : item.descending with
  | true =>
    rw [orderByText, hdesc]
    exact iff_of_true rfl rfl
  | false =>
    rw [orderByText, hdesc, if_neg Bool.false_ne_true, List.nil_append]
    refine iff_of_false (fun h => ?_) Bool.false_ne_true
    cases hproperty : item.property with
    | nil =>
      rw [hproperty] at h
      exact absurd h (by decide)
    | cons c s =>
      rw [hproperty] at h
      obtain rfl : c = '-' := Option.some.inj h
      exact item.dash_not_mem (hproperty ▸ List.mem_cons_self)

theorem retrieveSimpleOrderByOption_property (items : List OrderByItem) :
    retrieveSimpleOrderByOption (items.map .property) = .ok (items.map orderByText) := by
  induction items with
  | nil => rfl
  | cons item items ih =>
    rw [List.map_cons, retrieveSimpleOrderByOption, ih]
    rfl

/-! ### The comparator -/

section

variable {value : E → List Char → Option (PropertyValue V)}
  {typeOf : List Char → Option (List Char)} {items : List OrderByItem} {item : OrderByItem}
  {entities : List E} {e e₁ e₂ : E}

theorem compareAt_orderByText (item : OrderByItem) (e₁ e₂ : E) :
    compareAt value typeOf (orderByText item) e₁ e₂ =
      match value e₁ item.property, value e₂ item.property with
      | none, none => .ok .eq
      | none, some _ => .ok .gt
      | some _, none => .ok .lt
      | some v₁, some v₂ =>
        match typeOf item.property with
        | none => .error .nullPointer
        | some type =>
          if item.descending then compareAs (columnClass type) v₂ v₁
          else compareAs (columnClass type) v₁ v₂ := by
  unfold compareAt
  simp only [propertyName_orderByText, head_orderByText]

/-- **A round of the comparator is the order by the item**, for values of the class. -/
theorem compareAt_eq (h : WellTyped value typeOf items entities) (hitem : item ∈ items)
    (h₁ : e₁ ∈ entities) (h₂ : e₂ ∈ entities) :
    compareAt value typeOf (orderByText item) e₁ e₂ = .ok (item.order value typeOf e₁ e₂) := by
  rw [compareAt_orderByText, OrderByItem.order, OrderByItem.valueClass]
  cases hv₁ : value e₁ item.property with
  | none => cases value e₂ item.property <;> rfl
  | some v₁ =>
    cases hv₂ : value e₂ item.property with
    | none => rfl
    | some v₂ =>
      obtain ⟨type, htype, hclass₁⟩ := h e₁ h₁ item hitem v₁ hv₁
      obtain ⟨type', htype', hclass₂⟩ := h e₂ h₂ item hitem v₂ hv₂
      obtain rfl : type = type' := Option.some.inj (htype.symm.trans htype')
      rw [htype]
      dsimp only [Option.getD_some, nullsLast, directed]
      split_ifs
      · exact compareAs_eq hclass₂ hclass₁
      · exact compareAs_eq hclass₁ hclass₂

/-- **The comparator is the order by the items**, for values of the classes. -/
theorem compareEntities_eq (h : WellTyped value typeOf items entities) (h₁ : e₁ ∈ entities)
    (h₂ : e₂ ∈ entities) :
    compareEntities value typeOf (items.map orderByText) e₁ e₂ =
      .ok (itemsOrder value typeOf items e₁ e₂) := by
  induction items with
  | nil => rfl
  | cons item items ih =>
    have hrest : WellTyped value typeOf items entities := fun e he item hitem =>
      h e he item (List.mem_cons_of_mem _ hitem)
    have hfirst := compareAt_eq h List.mem_cons_self h₁ h₂
    rw [List.map_cons, compareEntities, hfirst, itemsOrder, List.map_cons, lexicographic]
    cases horder : item.order value typeOf e₁ e₂ with
    | eq => exact ih hrest
    | lt => rfl
    | gt => rfl

theorem compareAt_self {o : Ordering}
    (h : compareAt value typeOf (orderByText item) e e = .ok o) :
    o = .eq ∧ ∀ v, value e item.property = some v →
      ∃ type, typeOf item.property = some type ∧ v.javaClass = some (columnClass type) := by
  rw [compareAt_orderByText] at h
  cases hv : value e item.property with
  | none =>
    rw [hv] at h
    cases h
    exact ⟨rfl, fun v hv => by cases hv⟩
  | some v =>
    cases htype : typeOf item.property with
    | none =>
      simp only [hv, htype] at h
      cases h
    | some type =>
      simp only [hv, htype, ite_self] at h
      have hclass := compareAs_self h
      have hself : naturalOrder (columnClass type) v v = .eq := Std.ReflCmp.compare_self
      rw [compareAs_eq hclass hclass, hself, Except.ok.injEq] at h
      refine ⟨h.symm, fun v' hv' => ⟨type, rfl, ?_⟩⟩
      obtain rfl : v = v' := Option.some.inj hv'
      exact hclass

/-- **An entity that is compared with itself** has values of the classes. -/
theorem values_of_compareEntities_self {o : Ordering}
    (h : compareEntities value typeOf (items.map orderByText) e e = .ok o) :
    ∀ item ∈ items, ∀ v, value e item.property = some v →
      ∃ type, typeOf item.property = some type ∧ v.javaClass = some (columnClass type) := by
  induction items with
  | nil => exact fun item hitem => absurd hitem List.not_mem_nil
  | cons item items ih =>
    rw [List.map_cons, compareEntities, Except.bind_eq_ok] at h
    obtain ⟨o', hfirst, hrest⟩ := h
    obtain ⟨rfl, hvalues⟩ := compareAt_self hfirst
    rw [if_pos rfl] at hrest
    exact List.forall_mem_cons.mpr ⟨hvalues, ih hrest⟩

theorem transCmp_itemsOrder (value : E → List Char → Option (PropertyValue V))
    (typeOf : List Char → Option (List Char)) (items : List OrderByItem) :
    Std.TransCmp (itemsOrder value typeOf items) := by
  refine transCmp_lexicographic fun cmp hcmp => ?_
  obtain ⟨item, -, rfl⟩ := List.mem_map.mp hcmp
  exact transCmp_on
    (transCmp_nullsLast (transCmp_directed (transCmp_naturalOrder _) item.descending)) _

/-- **The comparator and the sort.** The comparator is a total preorder, the lexicographic one with
missing values last, and the sort returns the entities in it, exactly if the values have the classes
that they are cast to. -/
theorem orderbyEntityCollection_iff (value : E → List Char → Option (PropertyValue V))
    (typeOf : List Char → Option (List Char)) (items : List OrderByItem) (entities : List E) :
    (IsTotalPreorder (compareEntities value typeOf (items.map orderByText)) entities ∧
      (∀ e₁ ∈ entities, ∀ e₂ ∈ entities,
        compareEntities value typeOf (items.map orderByText) e₁ e₂ =
          .ok (itemsOrder value typeOf items e₁ e₂)) ∧
      ∃ sorted, orderbyEntityCollection value typeOf (items.map .property) entities = .ok sorted ∧
        sorted.Perm entities ∧
        sorted.Pairwise fun e₁ e₂ => (itemsOrder value typeOf items e₁ e₂).isLE = true) ↔
    WellTyped value typeOf items entities := by
  constructor
  · rintro ⟨htotal, -, -⟩ e he
    obtain ⟨o, ho, -⟩ := htotal.total e he e he
    exact values_of_compareEntities_self ho
  · intro h
    have horder : ∀ e₁ ∈ entities, ∀ e₂ ∈ entities,
        compareEntities value typeOf (items.map orderByText) e₁ e₂ =
          .ok (itemsOrder value typeOf items e₁ e₂) :=
      fun e₁ h₁ e₂ h₂ => compareEntities_eq h h₁ h₂
    have htotal := isTotalPreorder_of_eq (transCmp_itemsOrder value typeOf items) horder
    obtain ⟨sorted, hsort, hperm, hsorted⟩ := exists_sortM htotal
    refine ⟨htotal, horder, sorted, ?_, hperm, ?_⟩
    · unfold orderbyEntityCollection
      split_ifs with hempty
      · rw [List.isEmpty_iff.mp hempty] at hperm ⊢
        rw [List.perm_nil.mp hperm]
      · rw [retrieveSimpleOrderByOption_property]
        exact hsort
    · refine hsorted.imp_of_mem fun {e₁ e₂} h₁ h₂ hle => ?_
      obtain ⟨o, ho, hle⟩ := hle
      rw [horder e₁ (hperm.mem_iff.mp h₁) e₂ (hperm.mem_iff.mp h₂), Except.ok.injEq] at ho
      exact ho ▸ hle

end

/-! ### A boolean property -/

def isActive : OrderByItem := ⟨"isActive".toList, false, by decide, by decide⟩

def activeOf (e : Bool) (_ : List Char) : Option (PropertyValue Bool) := some (.object e)

theorem compareEntities_boolean :
    ¬ IsTotalPreorder (compareEntities activeOf (fun _ => some "Edm.Boolean".toList)
        ([isActive].map orderByText)) [true, false] := by
  intro h
  obtain ⟨o, ho, -⟩ := h.total true (by decide) false (by decide)
  have hthrows : compareEntities activeOf (fun _ => some "Edm.Boolean".toList)
      ([isActive].map orderByText) true false = .error .classCast := rfl
  rw [hthrows] at ho
  cases ho

end OfficeAuto.Odata.OrderBy
