import Mathlib.Tactic.Linarith
import Mathlib.Tactic.Ring
import OfficeAuto.Entity.ContextValue
import OfficeAuto.Logic.Keyed

/-!
# Values as XML documents

`XmlSerializer.serialize` writes an object as an XML document, with an element for each object
whose tag names its class, and `XmlSerializer.deserialize` makes an object from such a
document. The context of a job is stored and loaded through the two.

The XML parser and serializer, and the texts of timestamps, belong to Java libraries: `XmlLibrary`
and `TimestampFormat` say what the pair relies on. White space between the elements of a document,
which the writer adds, is skipped by the reader and not modelled.

What comes back is the value with its timestamps as their texts are read (`reread`) and its
decimals rounded to ten digits after the point, filled into new collections (`restore`).
`deserialize_serialize_iff` says when it is the same value.
-/

namespace OfficeAuto

open Decimal ContextValue

/-! ### Documents -/

/-- An element with its attributes and the elements within it. -/
inductive Element
  | node (tagName : String) (attributes : List (String × List Char)) (children : List Element)

namespace Element

mutual

/-- The values of all attributes of an element and of the elements within it. -/
def texts : Element → List (List Char)
  | node _ attributes children => attributes.map Prod.snd ++ textsOfAll children

def textsOfAll : List Element → List (List Char)
  | [] => []
  | e :: es => texts e ++ textsOfAll es

end

def getAttribute (attributes : List (String × List Char)) (name : String) : List Char :=
  (attributes.lookup name).getD []

end Element

/-- `UtilXml.writeXmlDocument` and `readXmlDocument`. Attribute values come through if they
consist of the characters that the documents carry, printable ASCII characters among them; a
document with any other character is not well formed, and writing or reading it throws. -/
structure XmlLibrary where
  Content : Type
  carries : Char → Bool
  writeXmlDocument : Element → Content
  readXmlDocument : Content → Option Element
  carries_ascii : ∀ c, ' ' ≤ c → c ≤ '~' → carries c = true
  read_write : ∀ e, (∀ s ∈ e.texts, s.all carries = true) →
    readXmlDocument (writeXmlDocument e) = some e
  read_write_none : ∀ e, (∃ s ∈ e.texts, s.all carries = false) →
    readXmlDocument (writeXmlDocument e) = none

/-- `Timestamp.toString`, `DatatypeConverter.parseDate` with the milliseconds of its calendar,
and `Timestamp.valueOf`; `none` is their exception. -/
structure TimestampFormat where
  toString : Timestamp → List Char
  parseDate : List Char → Option {m : ℤ // IsLong m}
  valueOf : List Char → Option Timestamp
  toString_ascii : ∀ t, ∀ c ∈ toString t, ' ' ≤ c ∧ c ≤ '~'

/-! ### Leaves -/

def divideHalfUp (n : ℤ) (d : ℕ) : ℤ := n.sign * ((2 * n.natAbs + d) / (2 * d) : ℕ)

def setScale (b : BigDecimal) (newScale : ℤ) : BigDecimal :=
  if b.scale ≤ newScale then ⟨b.unscaled * 10 ^ (newScale - b.scale).toNat, newScale⟩
  else ⟨divideHalfUp b.unscaled (10 ^ (b.scale - newScale).toNat), newScale⟩

/-- `Integer.valueOf`. -/
def readInteger (s : List Char) : Option {n : ℤ // IsInteger n} :=
  (readInt s).bind fun n => if h : IsInteger n then some ⟨n, h⟩ else none

/-- `Long.valueOf`. -/
def readLongValue (s : List Char) : Option {n : ℤ // IsLong n} :=
  (readInt s).bind fun n => if h : IsLong n then some ⟨n, h⟩ else none

def makeElement (elementName : String) (value : List Char) : Element :=
  .node elementName [("value", value)] []

def nullElement : Element :=
  .node "null" [("xsi:nil", "true".toList),
    ("xmlns:xsi", "http://www.w3.org/2001/XMLSchema-instance".toList)] []

namespace TimestampFormat

variable (F : TimestampFormat)

def text (t : Timestamp) : List Char := (F.toString t).map fun c => if c = ' ' then 'T' else c

/-- The case of `sql-Timestamp`: `parseDate` first, which keeps milliseconds, and `valueOf` if
it throws. -/
def read (valStr : List Char) : Option Timestamp :=
  match F.parseDate valStr with
  | some m => some (Timestamp.ofMillis m.1 m.2)
  | none => F.valueOf valStr

end TimestampFormat

def serializeLeaf (F : TimestampFormat) : Leaf → Element
  | .string s => makeElement "std-String" s
  | .integer n _ => makeElement "std-Integer" (showInt n)
  | .long n _ => makeElement "std-Long" (showInt n)
  | .boolean b => makeElement "std-Boolean" (if b then "true".toList else "false".toList)
  | .bigDecimal b => makeElement "std-BigDecimal" (setScale b 10).toString
  | .timestamp t => makeElement "sql-Timestamp" (F.text t)

def deserializeLeaf (F : TimestampFormat) (tagName : String) (valStr : List Char) :
    Option Leaf :=
  if tagName = "std-String" then some (.string valStr)
  else if tagName = "std-Integer" then (readInteger valStr).map fun n => .integer n.1 n.2
  else if tagName = "std-Long" then (readLongValue valStr).map fun n => .long n.1 n.2
  else if tagName = "std-BigDecimal" then (BigDecimal.parse valStr).map .bigDecimal
  else if tagName = "std-Boolean" then some (.boolean (valStr.map Char.toLower = "true".toList))
  else if tagName = "sql-Timestamp" then (F.read valStr).map .timestamp
  else none

def leafTags : List String :=
  ["std-String", "std-Integer", "std-Long", "std-BigDecimal", "std-Boolean", "sql-Timestamp"]

/-! ### Collections and maps -/

/-- The tag of a collection. A class that extends none of the others is a `Collection`. -/
def CollectionClass.tag : CollectionClass → String
  | .arrayList => "col-ArrayList"
  | .linkedList => "col-LinkedList"
  | .stack => "col-Stack"
  | .vector => "col-Vector"
  | .treeSet => "col-TreeSet"
  | .hashSet => "col-HashSet"
  | .otherList | .otherSet => "col-Collection"

def newCollection (tagName : String) : Option CollectionClass :=
  if tagName = "col-ArrayList" then some .arrayList
  else if tagName = "col-LinkedList" then some .linkedList
  else if tagName = "col-Stack" then some .stack
  else if tagName = "col-Vector" then some .vector
  else if tagName = "col-TreeSet" then some .treeSet
  else if tagName = "col-HashSet" then some .hashSet
  else if tagName = "col-Collection" then some .linkedList
  else none

def MapClass.tag : MapClass → String
  | .hashMap => "map-HashMap"
  | .properties => "map-Properties"
  | .hashtable => "map-Hashtable"
  | .weakHashMap => "map-WeakHashMap"
  | .treeMap => "map-TreeMap"
  | .otherMap => "map-Map"

def newMap (tagName : String) : Option MapClass :=
  if tagName = "map-HashMap" then some .hashMap
  else if tagName = "map-Properties" then some .properties
  else if tagName = "map-Hashtable" then some .hashtable
  else if tagName = "map-WeakHashMap" then some .weakHashMap
  else if tagName = "map-TreeMap" then some .treeMap
  else if tagName = "map-Map" then some .hashMap
  else none

/-- Whether two objects are comparable in their natural order. A tree compares a new key with
itself if it is the first one, and with the keys on its path otherwise; all keys of a tree are
of one class, so that it does not matter which. -/
def isComparable (x y : ContextValue) : Bool := (naturalCompare x y).isSome

def naturallyEqual (x y : ContextValue) : Bool := naturalCompare x y = some .eq

/-- `add` of a collection that has been made with its empty constructor. -/
def CollectionClass.keying : CollectionClass → Keying ContextValue
  | .treeSet => ⟨fun x => isComparable x x, isComparable, naturallyEqual, fun old _ => old⟩
  | .hashSet => ⟨fun _ => true, fun _ _ => true, equals, fun old _ => old⟩
  | _ => ⟨fun _ => true, fun _ _ => true, fun _ _ => false, fun old _ => old⟩

def isNull : ContextValue → Bool
  | .null => true
  | _ => false

/-- `put` of a map that has been made with its empty constructor: a known key keeps its object
and gets the new value. -/
def MapClass.keying : MapClass → Keying (ContextValue × ContextValue)
  | .treeMap => ⟨fun e => isComparable e.1 e.1, fun e f => isComparable e.1 f.1,
      fun e f => naturallyEqual e.1 f.1, fun old new => (old.1, new.2)⟩
  | .hashtable | .properties => ⟨fun e => !isNull e.1 && !isNull e.2, fun _ _ => true,
      fun e f => equals e.1 f.1, fun old new => (old.1, new.2)⟩
  | _ => ⟨fun _ => true, fun _ _ => true, fun e f => equals e.1 f.1,
      fun old new => (old.1, new.2)⟩

/-! ### The serializer -/

mutual

def serializeSingle (F : TimestampFormat) : ContextValue → Element
  | .null => nullElement
  | .leaf l => serializeLeaf F l
  | .collection c xs => .node c.tag [] (serializeMembers F xs)
  | .map c es => .node c.tag [] (serializeEntries F es)

def serializeMembers (F : TimestampFormat) : List ContextValue → List Element
  | [] => []
  | x :: xs => serializeSingle F x :: serializeMembers F xs

def serializeEntries (F : TimestampFormat) :
    List (ContextValue × ContextValue) → List Element
  | [] => []
  | (k, v) :: es =>
    .node "map-Entry" [] [.node "map-Key" [] [serializeSingle F k],
      .node "map-Value" [] [serializeSingle F v]] :: serializeEntries F es

end

def serialize (X : XmlLibrary) (F : TimestampFormat) (v : ContextValue) : X.Content :=
  X.writeXmlDocument (.node "ofbiz-ser" [] [serializeSingle F v])

/-! ### The deserializer -/

mutual

def deserializeSingle (F : TimestampFormat) : Element → Option ContextValue
  | .node tagName attributes children =>
    if tagName = "null" then some .null
    else if tagName ∈ leafTags then
      (deserializeLeaf F tagName (Element.getAttribute attributes "value")).map .leaf
    else
      match newCollection tagName with
      | some c =>
        (deserializeMembers F children).bind fun xs =>
          (c.keying.insertAll [] xs).map (.collection c)
      | none =>
        match newMap tagName with
        | some c =>
          (deserializeEntries F children).bind fun es =>
            (c.keying.insertAll [] es).map (.map c)
        | none => none

def deserializeMembers (F : TimestampFormat) : List Element → Option (List ContextValue)
  | [] => some []
  | e :: es =>
    (deserializeSingle F e).bind fun x => (deserializeMembers F es).map (x :: ·)

def deserializeEntries (F : TimestampFormat) :
    List Element → Option (List (ContextValue × ContextValue))
  | [] => some []
  | .node tagName _ parts :: es =>
    if tagName = "map-Entry" then
      (deserializePart F "map-Key" parts).bind fun k =>
        (deserializePart F "map-Value" parts).bind fun v =>
          (deserializeEntries F es).map ((k, v) :: ·)
    else deserializeEntries F es

/-- The object within the first part of a name, which is a `NullPointerException` where there
is none. -/
def deserializePart (F : TimestampFormat) (name : String) : List Element → Option ContextValue
  | [] => none
  | .node tagName _ children :: es =>
    if tagName = name then deserializeFirst F children else deserializePart F name es

def deserializeFirst (F : TimestampFormat) : List Element → Option ContextValue
  | [] => none
  | e :: _ => deserializeSingle F e

end

/-- `deserialize`; a document with another root element, for which XStream is asked, is never
written by `serialize`. -/
def deserialize (X : XmlLibrary) (F : TimestampFormat) (content : X.Content) :
    Option ContextValue :=
  (X.readXmlDocument content).bind fun root =>
    match root with
    | .node tagName _ children =>
      if tagName = "ofbiz-ser" then
        match children with
        | [] => some .null
        | e :: _ => deserializeSingle F e
      else none

/-! ### What the pair does to a value -/

def rereadLeaf (F : TimestampFormat) : Leaf → Option Leaf
  | .timestamp t => (F.read (F.text t)).map .timestamp
  | l => some l

def roundLeaf : Leaf → Leaf
  | .bigDecimal b => .bigDecimal (setScale b 10)
  | l => l

def CollectionClass.restored : CollectionClass → CollectionClass
  | .otherList | .otherSet => .linkedList
  | c => c

def MapClass.restored : MapClass → MapClass
  | .otherMap => .hashMap
  | c => c

mutual

def reread (F : TimestampFormat) : ContextValue → Option ContextValue
  | .null => some .null
  | .leaf l => (rereadLeaf F l).map .leaf
  | .collection c xs => (rereadMembers F xs).map (.collection c)
  | .map c es => (rereadEntries F es).map (.map c)

def rereadMembers (F : TimestampFormat) : List ContextValue → Option (List ContextValue)
  | [] => some []
  | x :: xs => (reread F x).bind fun y => (rereadMembers F xs).map (y :: ·)

def rereadEntries (F : TimestampFormat) :
    List (ContextValue × ContextValue) → Option (List (ContextValue × ContextValue))
  | [] => some []
  | (k, v) :: es =>
    (reread F k).bind fun k' => (reread F v).bind fun v' =>
      (rereadEntries F es).map ((k', v') :: ·)

end

mutual

/-- The value with its decimals rounded, filled into new collections and maps. -/
def restore : ContextValue → Option ContextValue
  | .null => some .null
  | .leaf l => some (.leaf (roundLeaf l))
  | .collection c xs =>
    (restoreMembers xs).bind fun ys =>
      (c.restored.keying.insertAll [] ys).map (.collection c.restored)
  | .map c es =>
    (restoreEntries es).bind fun fs => (c.restored.keying.insertAll [] fs).map (.map c.restored)

def restoreMembers : List ContextValue → Option (List ContextValue)
  | [] => some []
  | x :: xs => (restore x).bind fun y => (restoreMembers xs).map (y :: ·)

def restoreEntries :
    List (ContextValue × ContextValue) → Option (List (ContextValue × ContextValue))
  | [] => some []
  | (k, v) :: es =>
    (restore k).bind fun k' => (restore v).bind fun v' => (restoreEntries es).map ((k', v') :: ·)

end

theorem readInteger_showInt {n : ℤ} (h : IsInteger n) : readInteger (showInt n) = some ⟨n, h⟩ := by
  rw [readInteger, readInt_showInt, Option.bind_some, dif_pos h]

theorem readLongValue_showInt {n : ℤ} (h : IsLong n) :
    readLongValue (showInt n) = some ⟨n, h⟩ := by
  rw [readLongValue, readInt_showInt, Option.bind_some, dif_pos h]

theorem deserializeSingle_serializeLeaf (F : TimestampFormat) (l : Leaf) :
    deserializeSingle F (serializeLeaf F l)
      = (rereadLeaf F l).map fun m => .leaf (roundLeaf m) := by
  cases l with
  | string s => simp [serializeLeaf, makeElement, deserializeSingle, leafTags, deserializeLeaf,
      Element.getAttribute, rereadLeaf, roundLeaf]
  | integer n h => simp [serializeLeaf, makeElement, deserializeSingle, leafTags, deserializeLeaf,
      Element.getAttribute, rereadLeaf, roundLeaf, readInteger_showInt h]
  | long n h => simp [serializeLeaf, makeElement, deserializeSingle, leafTags, deserializeLeaf,
      Element.getAttribute, rereadLeaf, roundLeaf, readLongValue_showInt h]
  | boolean b =>
    cases b <;> simp [serializeLeaf, makeElement, deserializeSingle, leafTags, deserializeLeaf,
      Element.getAttribute, rereadLeaf, roundLeaf]
  | bigDecimal b => simp [serializeLeaf, makeElement, deserializeSingle, leafTags,
      deserializeLeaf, Element.getAttribute, rereadLeaf, roundLeaf, BigDecimal.parse_toString]
  | timestamp t =>
    simp [serializeLeaf, makeElement, deserializeSingle, leafTags, deserializeLeaf,
      Element.getAttribute, rereadLeaf]
    cases F.read (F.text t) <;> simp [roundLeaf]

theorem deserializeSingle_collection (F : TimestampFormat) (c : CollectionClass)
    (children : List Element) :
    deserializeSingle F (.node c.tag [] children) =
      (deserializeMembers F children).bind fun xs =>
        (c.restored.keying.insertAll [] xs).map (.collection c.restored) := by
  have hnull : c.tag ≠ "null" := by cases c <;> decide
  have hleaf : c.tag ∉ leafTags := by cases c <;> decide
  have hnew : newCollection c.tag = some c.restored := by cases c <;> decide
  rw [deserializeSingle, if_neg hnull, if_neg hleaf, hnew]

theorem deserializeSingle_map (F : TimestampFormat) (c : MapClass) (children : List Element) :
    deserializeSingle F (.node c.tag [] children) =
      (deserializeEntries F children).bind fun es =>
        (c.restored.keying.insertAll [] es).map (.map c.restored) := by
  have hnull : c.tag ≠ "null" := by cases c <;> decide
  have hleaf : c.tag ∉ leafTags := by cases c <;> decide
  have hcollection : newCollection c.tag = none := by cases c <;> decide
  have hnew : newMap c.tag = some c.restored := by cases c <;> decide
  rw [deserializeSingle, if_neg hnull, if_neg hleaf, hcollection, hnew]

theorem deserializeEntries_cons (F : TimestampFormat) (k v : Element) (es : List Element) :
    deserializeEntries F (.node "map-Entry" []
        [.node "map-Key" [] [k], .node "map-Value" [] [v]] :: es) =
      (deserializeSingle F k).bind fun k' => (deserializeSingle F v).bind fun v' =>
        (deserializeEntries F es).map ((k', v') :: ·) := by
  rw [deserializeEntries, if_pos rfl]
  simp only [deserializePart, if_pos, deserializeFirst, String.reduceEq, if_false]

/-- **What comes back from the elements is the value reread and restored.** -/
theorem deserializeSingle_serializeSingle (F : TimestampFormat) (v : ContextValue) :
    deserializeSingle F (serializeSingle F v) = (reread F v).bind restore := by
  induction v using ContextValue.inductionOn with
  | null => simp [serializeSingle, nullElement, deserializeSingle, reread, restore]
  | leaf l =>
    rw [serializeSingle, deserializeSingle_serializeLeaf, reread]
    cases rereadLeaf F l <;> simp [restore]
  | collection c xs ih =>
    have hxs : deserializeMembers F (serializeMembers F xs)
        = (rereadMembers F xs).bind restoreMembers := by
      induction xs with
      | nil => rfl
      | cons x xs ihxs =>
        have hx := ih x List.mem_cons_self
        have hrest := ihxs fun y hy => ih y (List.mem_cons_of_mem x hy)
        rw [serializeMembers, deserializeMembers, rereadMembers, hx, hrest]
        cases reread F x with
        | none => rfl
        | some y =>
          cases rereadMembers F xs with
          | none => cases h : restore y <;> simp [h]
          | some ys => simp [restoreMembers]
    rw [serializeSingle, deserializeSingle_collection, hxs, reread]
    cases rereadMembers F xs <;> simp [restore]
  | map c es ih =>
    have hes : deserializeEntries F (serializeEntries F es)
        = (rereadEntries F es).bind restoreEntries := by
      induction es with
      | nil => rfl
      | cons e es ihes =>
        obtain ⟨k, v⟩ := e
        obtain ⟨hk, hv⟩ := ih (k, v) List.mem_cons_self
        have hrest := ihes fun f hf => ih f (List.mem_cons_of_mem (k, v) hf)
        rw [serializeEntries, deserializeEntries_cons, rereadEntries, hk, hv, hrest]
        cases reread F k with
        | none => rfl
        | some k' =>
          cases reread F v with
          | none => cases h : restore k' <;> simp [h]
          | some v' =>
            cases rereadEntries F es with
            | none => cases h : restore k' <;> cases h' : restore v' <;> simp [h, h']
            | some fs => simp [restoreEntries]
    rw [serializeSingle, deserializeSingle_map, hes, reread]
    cases rereadEntries F es <;> simp [restore]

/-! ### Rounding -/

def IsExact (b : BigDecimal) : Prop := (10 : ℤ) ^ (b.scale - 10).toNat ∣ b.unscaled

theorem divideHalfUp_mul (n : ℤ) {d : ℕ} (hd : 0 < d) : divideHalfUp (n * d) d = n := by
  have hpos : (0 : ℤ) < d := by exact_mod_cast hd
  have hsign : (n * d).sign = n.sign := by
    rw [Int.sign_mul, Int.sign_eq_one_of_pos hpos, mul_one]
  have hquot : (2 * (n * d).natAbs + d) / (2 * d) = n.natAbs := by
    rw [Int.natAbs_mul, Int.natAbs_natCast]
    apply Nat.div_eq_of_lt_le
    · nlinarith
    · nlinarith
  rw [divideHalfUp, hsign, hquot, Int.sign_mul_natAbs]

theorem scale_setScale (b : BigDecimal) (newScale : ℤ) :
    (setScale b newScale).scale = newScale := by
  unfold setScale
  split_ifs <;> rfl

theorem ten_zpow_ne_zero (n : ℤ) : (10 : ℚ) ^ n ≠ 0 := zpow_ne_zero n (by norm_num)

theorem decimalValue_setScale {b : BigDecimal} (h : IsExact b) :
    decimalValue (setScale b 10) = decimalValue b := by
  unfold decimalValue setScale
  split_ifs with hle
  · rw [div_eq_div_iff (ten_zpow_ne_zero _) (ten_zpow_ne_zero _)]
    have hpow : ((10 : ℚ) ^ (10 - b.scale).toNat) * 10 ^ b.scale = 10 ^ (10 : ℤ) := by
      rw [← zpow_natCast, ← zpow_add₀ (by norm_num)]
      congr 1
      omega
    rw [Int.cast_mul, Int.cast_pow, Int.cast_ofNat, mul_assoc, hpow]
  · obtain ⟨q, hq⟩ := h
    have hpos : 0 < 10 ^ (b.scale - 10).toNat := Nat.pow_pos (by decide)
    have hdiv : divideHalfUp b.unscaled (10 ^ (b.scale - 10).toNat) = q := by
      rw [hq, mul_comm]
      exact_mod_cast divideHalfUp_mul q hpos
    rw [div_eq_div_iff (ten_zpow_ne_zero _) (ten_zpow_ne_zero _)]
    have hpow : (10 : ℚ) ^ b.scale = 10 ^ (b.scale - 10).toNat * 10 ^ (10 : ℤ) := by
      rw [← zpow_natCast, ← zpow_add₀ (by norm_num)]
      congr 1
      omega
    simp only [hdiv]
    rw [hq, hpow]
    push_cast
    ring

theorem isExact_of_decimalValue {b e : BigDecimal} (he : e.scale = 10)
    (h : decimalValue b = decimalValue e) : IsExact b := by
  by_cases hle : b.scale ≤ 10
  · have hzero : (b.scale - 10).toNat = 0 := by omega
    rw [IsExact, hzero, pow_zero]
    exact one_dvd _
  · refine ⟨e.unscaled, ?_⟩
    unfold decimalValue at h
    rw [div_eq_div_iff (ten_zpow_ne_zero _) (ten_zpow_ne_zero _), he] at h
    have hpow : (10 : ℚ) ^ b.scale = 10 ^ (b.scale - 10).toNat * 10 ^ (10 : ℤ) := by
      rw [← zpow_natCast, ← zpow_add₀ (by norm_num)]
      congr 1
      omega
    rw [hpow, ← mul_assoc] at h
    have h' := mul_right_cancel₀ (ten_zpow_ne_zero 10) h
    rw [mul_comm]
    exact_mod_cast h'

/-! ### When a value is stored -/

/-- A string of characters that a document carries; an exact decimal; any other leaf. -/
def Leaf.Storable (X : XmlLibrary) : Leaf → Prop
  | .string s => s.all X.carries = true
  | .bigDecimal b => IsExact b
  | _ => True

/-- A value that the pair restores, its timestamps apart. Its leaves are storable; no set is of
a class that is restored as a list; no set has a member and no map a key twice, numbers as
numbers; the members of tree sets and the keys of tree maps are comparable in their natural
order; and no hash table holds a `null`. -/
inductive Storable (X : XmlLibrary) : ContextValue → Prop
  | null : Storable X .null
  | leaf {l : Leaf} (h : l.Storable X) : Storable X (.leaf l)
  | collection {c : CollectionClass} {xs : List ContextValue} (hxs : ∀ x ∈ xs, Storable X x)
      (hclass : c ≠ .otherSet)
      (hdistinct : c.isSet = true → xs.Pairwise fun x y => ¬ Same x y)
      (horder : c = .treeSet → ∀ x ∈ xs, ∀ y ∈ xs, isComparable x y = true) :
      Storable X (.collection c xs)
  | map {c : MapClass} {es : List (ContextValue × ContextValue)}
      (hkeys : ∀ e ∈ es, Storable X e.1) (hvalues : ∀ e ∈ es, Storable X e.2)
      (hdistinct : es.Pairwise fun e f => ¬ Same e.1 f.1)
      (horder : c = .treeMap → ∀ e ∈ es, ∀ f ∈ es, isComparable e.1 f.1 = true)
      (hnull : c = .hashtable ∨ c = .properties →
        ∀ e ∈ es, isNull e.1 = false ∧ isNull e.2 = false) :
      Storable X (.map c es)

/-- When the pair gives the value back: its timestamps can be read again, which leaves it the
same value, and then it is storable. -/
def HoldsWhen (X : XmlLibrary) (F : TimestampFormat) (v : ContextValue) : Prop :=
  ∃ u, reread F v = some u ∧ Same v u ∧ Storable X u

/-! ### The members of what is restored -/

theorem restoreMembers_iff {xs ys : List ContextValue} :
    restoreMembers xs = some ys ↔ List.Forall₂ (fun x y => restore x = some y) xs ys :=
  List.rebuild_iff (by rw [restoreMembers]) fun x xs => by rw [restoreMembers]

def RestoresEntry (e f : ContextValue × ContextValue) : Prop :=
  restore e.1 = some f.1 ∧ restore e.2 = some f.2

theorem restoreEntries_iff {es fs : List (ContextValue × ContextValue)} :
    restoreEntries es = some fs ↔ List.Forall₂ RestoresEntry es fs :=
  List.rebuildPairs_iff (by rw [restoreEntries]) fun k v es => by rw [restoreEntries]

theorem restore_collection {c : CollectionClass} {xs : List ContextValue} {w : ContextValue} :
    restore (.collection c xs) = some w ↔ ∃ ys zs,
      List.Forall₂ (fun x y => restore x = some y) xs ys ∧
        c.restored.keying.insertAll [] ys = some zs ∧ w = .collection c.restored zs := by
  rw [restore]
  simp only [Option.bind_eq_some_iff, Option.map_eq_some_iff, restoreMembers_iff]
  constructor
  · rintro ⟨ys, hys, zs, hzs, rfl⟩
    exact ⟨ys, zs, hys, hzs, rfl⟩
  · rintro ⟨ys, zs, hys, hzs, rfl⟩
    exact ⟨ys, hys, zs, hzs, rfl⟩

theorem restore_map {c : MapClass} {es : List (ContextValue × ContextValue)} {w : ContextValue} :
    restore (.map c es) = some w ↔ ∃ fs gs, List.Forall₂ RestoresEntry es fs ∧
      c.restored.keying.insertAll [] fs = some gs ∧ w = .map c.restored gs := by
  rw [restore]
  simp only [Option.bind_eq_some_iff, Option.map_eq_some_iff, restoreEntries_iff]
  constructor
  · rintro ⟨fs, hfs, gs, hgs, rfl⟩
    exact ⟨fs, gs, hfs, hgs, rfl⟩
  · rintro ⟨fs, gs, hfs, hgs, rfl⟩
    exact ⟨fs, hfs, gs, hgs, rfl⟩

theorem merge_collection_lt (c : CollectionClass) (x y : ContextValue) :
    size (c.keying.merge y x) < size y + size x := by
  have hx := size_pos x
  cases c <;> simp only [CollectionClass.keying] <;> omega

def entrySize (e : ContextValue × ContextValue) : ℕ := size e.1 + size e.2

theorem merge_map_lt (c : MapClass) (e f : ContextValue × ContextValue) :
    entrySize (c.keying.merge f e) < entrySize f + entrySize e := by
  have hk := size_pos e.1
  have hv := size_pos f.2
  unfold entrySize
  cases c <;> simp only [MapClass.keying] <;> omega

theorem rounded_roundLeaf (l : Leaf) : (roundLeaf l).Rounded := by
  cases l with
  | bigDecimal b => exact scale_setScale b 10
  | _ => exact trivial

theorem rounded_of_restore {v w : ContextValue} (h : restore v = some w) : Rounded w := by
  induction v using ContextValue.inductionOn generalizing w with
  | null =>
    obtain rfl : ContextValue.null = w := Option.some.inj h
    exact fun l hl => absurd hl List.not_mem_nil
  | leaf l =>
    obtain rfl : ContextValue.leaf (roundLeaf l) = w := Option.some.inj h
    intro m hm
    rw [List.mem_singleton.mp hm]
    exact rounded_roundLeaf l
  | collection c xs ih =>
    obtain ⟨ys, zs, hys, hzs, rfl⟩ := restore_collection.mp h
    have hmem : ∀ y ∈ ys, Rounded y := fun y hy => by
      obtain ⟨x, hx, hxy⟩ := hys.flip.exists_left hy
      exact ih x hx hxy
    have hround := Keying.mem_insertAll (P := Rounded)
      (fun x y hy _ => by cases c <;> exact hy) (by simp) hmem hzs
    intro l hl
    obtain ⟨z, hz, hlz⟩ := mem_leaves_collection.mp hl
    exact hround z hz l hlz
  | map c es ih =>
    obtain ⟨fs, gs, hfs, hgs, rfl⟩ := restore_map.mp h
    have hmem : ∀ f ∈ fs, Rounded f.1 ∧ Rounded f.2 := fun f hf => by
      obtain ⟨e, he, hef⟩ := hfs.flip.exists_left hf
      exact ⟨(ih e he).1 hef.1, (ih e he).2 hef.2⟩
    have hround := Keying.mem_insertAll (P := fun f => Rounded f.1 ∧ Rounded f.2)
      (fun e f hf he => by cases c <;> exact ⟨hf.1, he.2⟩) (by simp) hmem hgs
    intro l hl
    obtain ⟨g, hg, hlg⟩ := mem_leaves_map.mp hl
    exact hlg.elim ((hround g hg).1 l) ((hround g hg).2 l)

theorem isSet_restored_le (c : CollectionClass) :
    (if c.restored.isSet then 2 else 1 : ℕ) ≤ if c.isSet then 2 else 1 := by
  cases c <;> decide

theorem sum_insertAll_le {c : CollectionClass} {ys zs : List ContextValue}
    (h : c.keying.insertAll [] ys = some zs) : (zs.map size).sum ≤ (ys.map size).sum := by
  simpa using Keying.insertAll_le (merge_collection_lt c) h

theorem sum_insertAll_entries_le {c : MapClass} {fs gs : List (ContextValue × ContextValue)}
    (h : c.keying.insertAll [] fs = some gs) :
    (gs.map entrySize).sum ≤ (fs.map entrySize).sum := by
  simpa using Keying.insertAll_le (merge_map_lt c) h

theorem size_collection (c : CollectionClass) (xs : List ContextValue) :
    size (.collection c xs) = (if c.isSet then 2 else 1) + (xs.map size).sum := by
  rw [size, sizeOfMembers_eq]

theorem size_map (c : MapClass) (es : List (ContextValue × ContextValue)) :
    size (.map c es) = 1 + (es.map entrySize).sum := by
  rw [size, sizeOfEntries_eq]
  rfl

theorem size_restore_le {v w : ContextValue} (h : restore v = some w) : size w ≤ size v := by
  induction v using ContextValue.inductionOn generalizing w with
  | null =>
    obtain rfl : ContextValue.null = w := Option.some.inj h
    exact le_refl _
  | leaf l =>
    obtain rfl : ContextValue.leaf (roundLeaf l) = w := Option.some.inj h
    exact le_refl _
  | collection c xs ih =>
    obtain ⟨ys, zs, hys, hzs, rfl⟩ := restore_collection.mp h
    have hle := (hys.imp_mem (S := fun x y => size y ≤ size x) fun x hx y => ih x hx).sum_le
      fun _ _ h => h
    rw [size_collection, size_collection]
    exact Nat.add_le_add (isSet_restored_le c) (le_trans (sum_insertAll_le hzs) hle)
  | map c es ih =>
    obtain ⟨fs, gs, hfs, hgs, rfl⟩ := restore_map.mp h
    have hle := (hfs.imp_mem (S := fun e f => entrySize f ≤ entrySize e) fun e he f hef =>
      Nat.add_le_add ((ih e he).1 hef.1) ((ih e he).2 hef.2)).sum_le fun _ _ h => h
    rw [size_map, size_map]
    exact Nat.add_le_add_left (le_trans (sum_insertAll_entries_le hgs) hle) 1

/-! ### New members of sets and new keys of maps -/

theorem isComparable_comm (x y : ContextValue) : isComparable x y = isComparable y x := by
  have hleaf : ∀ a b : Leaf, (a.compareTo b).isSome = (b.compareTo a).isSome := by
    intro a b
    cases a <;> cases b <;> rfl
  cases x with
  | leaf a =>
    cases y with
    | leaf b => exact hleaf a b
    | _ => rfl
  | _ => cases y <;> rfl

theorem naturallyEqual_iff {x y : ContextValue} (hx : Rounded x) (hy : Rounded y)
    (h : isComparable x y = true) : naturallyEqual x y = true ↔ Same x y := by
  rw [naturallyEqual, decide_eq_true_iff]
  exact naturalCompare_eq_iff hx hy h

theorem equals_iff {x y : ContextValue} (hx : Rounded x) (hy : Rounded y) (hdistinct : Distinct y) :
    equals x y = true ↔ Same x y :=
  ⟨fun h => same_of_equals h hdistinct, fun h => h.equals hx hy⟩

section Keys

variable {α : Type*} {k : α → ContextValue} {items : List α}

theorem pairwise_tree_iff (hround : ∀ a ∈ items, Rounded (k a)) :
    ((∀ a ∈ items, isComparable (k a) (k a) = true) ∧ items.Pairwise fun a b =>
        isComparable (k b) (k a) = true ∧ naturallyEqual (k b) (k a) = false) ↔
      items.Pairwise (fun a b => ¬ Same (k a) (k b)) ∧
        ∀ a ∈ items, ∀ b ∈ items, isComparable (k a) (k b) = true := by
  have hmerge : ∀ {a b}, a ∈ items → b ∈ items → isComparable (k b) (k a) = true →
      (naturallyEqual (k b) (k a) = false ↔ ¬ Same (k a) (k b)) := by
    intro a b ha hb hcomparable
    rw [← Bool.not_eq_true, naturallyEqual_iff (hround b hb) (hround a ha) hcomparable]
    exact not_congr ⟨Same.symm, Same.symm⟩
  constructor
  · rintro ⟨hself, hpair⟩
    refine ⟨hpair.imp_of_mem fun ha hb h => (hmerge ha hb h.1).mp h.2, ?_⟩
    exact List.Pairwise.forall_of_forall_of_flip hself
      (hpair.imp fun h => (isComparable_comm _ _).trans h.1) (hpair.imp fun h => h.1)
  · rintro ⟨hpair, hall⟩
    refine ⟨fun a ha => hall a ha a ha, hpair.imp_of_mem fun {a b} ha hb h => ?_⟩
    exact ⟨hall b hb a ha, (hmerge ha hb (hall b hb a ha)).mpr h⟩

theorem pairwise_hash_iff (hround : ∀ a ∈ items, Rounded (k a))
    (hdistinct : ∀ a ∈ items, Distinct (k a)) :
    (items.Pairwise fun a b => equals (k b) (k a) = false) ↔
      items.Pairwise fun a b => ¬ Same (k a) (k b) := by
  refine List.Pairwise.iff_of_mem fun {a b} ha hb => ?_
  rw [← Bool.not_eq_true, equals_iff (hround b hb) (hround a ha) (hdistinct a ha)]
  exact not_congr ⟨Same.symm, Same.symm⟩

end Keys

theorem fresh_collection_iff {c : CollectionClass} {ys : List ContextValue}
    (hround : ∀ y ∈ ys, Rounded y) (hdistinct : ∀ y ∈ ys, Distinct y) :
    c.restored.keying.Fresh ys ↔
      (c.restored.isSet = true → ys.Pairwise fun x y => ¬ Same x y) ∧
        (c = .treeSet → ∀ x ∈ ys, ∀ y ∈ ys, isComparable x y = true) := by
  cases c with
  | treeSet =>
    refine (pairwise_tree_iff (k := fun y => y) hround).trans ?_
    simp [CollectionClass.restored, CollectionClass.isSet]
  | hashSet =>
    have hhash := pairwise_hash_iff (k := fun y => y) hround hdistinct
    simpa [Keying.Fresh, CollectionClass.keying, CollectionClass.restored,
      CollectionClass.isSet] using hhash
  | _ =>
    refine iff_of_true ⟨fun _ _ => rfl, ?_⟩ ⟨fun h => absurd h (by decide), fun h => by cases h⟩
    exact List.pairwise_of_forall_mem_list fun _ _ _ _ => ⟨rfl, rfl⟩

theorem fresh_map_iff {c : MapClass} {fs : List (ContextValue × ContextValue)}
    (hround : ∀ f ∈ fs, Rounded f.1) (hdistinct : ∀ f ∈ fs, Distinct f.1) :
    c.restored.keying.Fresh fs ↔
      (fs.Pairwise fun e f => ¬ Same e.1 f.1) ∧
        (c = .treeMap → ∀ e ∈ fs, ∀ f ∈ fs, isComparable e.1 f.1 = true) ∧
        (c = .hashtable ∨ c = .properties →
          ∀ f ∈ fs, isNull f.1 = false ∧ isNull f.2 = false) := by
  have hhash := pairwise_hash_iff (k := Prod.fst) hround hdistinct
  cases c with
  | treeMap =>
    refine (pairwise_tree_iff (k := Prod.fst) hround).trans ?_
    simp
  | hashtable =>
    simp [Keying.Fresh, MapClass.keying, MapClass.restored, hhash, and_comm]
  | properties =>
    simp [Keying.Fresh, MapClass.keying, MapClass.restored, hhash, and_comm]
  | _ => simp [Keying.Fresh, MapClass.keying, MapClass.restored, hhash]

theorem isNull_congr {v w : ContextValue} (h : Same v w) : isNull v = isNull w := by
  cases v with
  | null =>
    obtain rfl : w = .null := h
    rfl
  | leaf l =>
    obtain ⟨b, rfl, -⟩ := h
    rfl
  | collection c xs =>
    obtain ⟨d, zs, rfl, -⟩ := same_collection.mp h
    rfl
  | map c es =>
    obtain ⟨d, gs, rfl, -⟩ := same_map.mp h
    rfl

theorem isComparable_congr {x x' y y' : ContextValue} (h : Same x x') (h' : Same y y') :
    isComparable x y = isComparable x' y' :=
  naturalCompare_isSome_congr h h'

theorem same_roundLeaf {X : XmlLibrary} {l : Leaf} (h : l.Storable X) : l.Same (roundLeaf l) := by
  cases l with
  | bigDecimal b => exact congrArg Sum.inr (decimalValue_setScale h).symm
  | _ => rfl

/-- **A storable value is restored as the same value.** -/
theorem Storable.exists_restore {X : XmlLibrary} {v : ContextValue} (h : Storable X v) :
    ∃ w, restore v = some w ∧ Same v w ∧ Distinct w := by
  induction h with
  | null => exact ⟨.null, rfl, Same.refl _, .null⟩
  | @leaf l h => exact ⟨.leaf (roundLeaf l), rfl, ⟨_, rfl, same_roundLeaf h⟩, .leaf _⟩
  | @collection c xs _ hclass hdistinct horder ih =>
    obtain ⟨ys, hys⟩ := List.exists_forall₂ ih
    have hsame := hys.imp_mem (S := Same) fun x _ y h => h.2.1
    have hpartner : ∀ y ∈ ys, ∃ x ∈ xs, restore x = some y ∧ Same x y ∧ Distinct y :=
      fun y hy => hys.flip.exists_left hy
    -- the other sets come back as lists, which `hclass` excludes
    have hset : c.isSet = c.restored.isSet := by
      cases c <;> first | rfl | exact absurd rfl hclass
    have hpair : c.restored.isSet = true → ys.Pairwise fun x y => ¬ Same x y := fun hc =>
      hsame.pairwise (fun x x' y y' h h' hnot hyy' => hnot (h.trans (hyy'.trans h'.symm)))
        (hdistinct (hset.trans hc))
    -- no member is merged with one before it, so that all of them are inserted
    have hfresh : c.restored.keying.Fresh ys := by
      refine (fresh_collection_iff (fun y hy => ?_) (fun y hy => ?_)).mpr
        ⟨hpair, fun hc y hy y' hy' => ?_⟩
      · obtain ⟨x, -, hx, -⟩ := hpartner y hy
        exact rounded_of_restore hx
      · obtain ⟨x, -, -, -, hy⟩ := hpartner y hy
        exact hy
      · obtain ⟨x, hx, -, hxy, -⟩ := hpartner y hy
        obtain ⟨x', hx', -, hxy', -⟩ := hpartner y' hy'
        rw [← isComparable_congr hxy hxy']
        exact horder hc x hx x' hx'
    refine ⟨.collection c.restored ys, restore_collection.mpr ⟨ys, ys, ?_, ?_, rfl⟩, ?_, ?_⟩
    · exact hys.imp_mem fun x _ y h => h.1
    · exact Keying.insertAll_of_fresh hfresh
    · refine same_collection.mpr ⟨c.restored, ys, rfl, hset, ?_⟩
      split_ifs
      · exact Matched.of_forall₂ hsame
      · exact hsame
    · refine .collection (fun y hy => ?_) hpair
      obtain ⟨x, -, -, -, hy⟩ := hpartner y hy
      exact hy
  | @map c es _ _ hdistinct horder hnull ihkeys ihvalues =>
    obtain ⟨fs, hfs⟩ := List.exists_forall₂ (R := fun e f : ContextValue × ContextValue =>
      (restore e.1 = some f.1 ∧ Same e.1 f.1 ∧ Distinct f.1) ∧
        restore e.2 = some f.2 ∧ Same e.2 f.2 ∧ Distinct f.2) fun e he => by
      obtain ⟨k, hk⟩ := ihkeys e he
      obtain ⟨v, hv⟩ := ihvalues e he
      exact ⟨(k, v), hk, hv⟩
    have hsame := hfs.imp_mem (S := SameEntry) fun e _ f h => ⟨h.1.2.1, h.2.2.1⟩
    have hpartner := fun f hf => hfs.flip.exists_left (x := f) hf
    have hpair : fs.Pairwise fun e f => ¬ Same e.1 f.1 :=
      hsame.pairwise (fun e e' f f' h h' hnot hff' =>
        hnot (h.1.trans (hff'.trans h'.1.symm))) hdistinct
    have hfresh : c.restored.keying.Fresh fs := by
      refine (fresh_map_iff (fun f hf => ?_) (fun f hf => ?_)).mpr
        ⟨hpair, fun hc f hf f' hf' => ?_, fun hc f hf => ?_⟩
      · obtain ⟨e, -, he, -⟩ := hpartner f hf
        exact rounded_of_restore he.1
      · obtain ⟨e, -, he, -⟩ := hpartner f hf
        exact he.2.2
      · obtain ⟨e, he, hef, -⟩ := hpartner f hf
        obtain ⟨e', he', hef', -⟩ := hpartner f' hf'
        rw [← isComparable_congr hef.2.1 hef'.2.1]
        exact horder hc e he e' he'
      · obtain ⟨e, he, hk, hv⟩ := hpartner f hf
        rw [← isNull_congr hk.2.1, ← isNull_congr hv.2.1]
        exact hnull hc e he
    refine ⟨.map c.restored fs, restore_map.mpr ⟨fs, fs, ?_, ?_, rfl⟩, ?_, ?_⟩
    · exact hfs.imp_mem fun e _ f h => ⟨h.1.1, h.2.1⟩
    · exact Keying.insertAll_of_fresh hfresh
    · exact same_map.mpr ⟨c.restored, fs, rfl, Matched.of_forall₂ hsame⟩
    · refine .map (fun f hf => ?_) (fun f hf => ?_) hpair
      · obtain ⟨e, -, he, -⟩ := hpartner f hf
        exact he.2.2
      · obtain ⟨e, -, -, he⟩ := hpartner f hf
        exact he.2.2

theorem Storable.of_restore {X : XmlLibrary} {v w : ContextValue} (h : Storable X v)
    (hw : restore v = some w) : Same v w ∧ Distinct w := by
  obtain ⟨w', hw', hsame, hdistinct⟩ := h.exists_restore
  obtain rfl := Option.some.inj (hw'.symm.trans hw)
  exact ⟨hsame, hdistinct⟩

theorem fresh_nil {α : Type*} (K : Keying α) : K.Fresh [] :=
  ⟨fun _ hx => absurd hx List.not_mem_nil, .nil⟩

/-- **A value that keeps its size when it is restored is storable**, if its leaves are: it has
lost neither a set nor a member. -/
theorem storable_of_size {X : XmlLibrary} {v w : ContextValue} (h : restore v = some w)
    (hsize : size v ≤ size w) (hleaves : ∀ l ∈ leaves v, l.Storable X) : Storable X v := by
  induction v using ContextValue.inductionOn generalizing w with
  | null => exact .null
  | leaf l => exact .leaf (hleaves l (List.mem_singleton.mpr rfl))
  | collection c xs ih =>
    obtain ⟨ys, zs, hys, hzs, rfl⟩ := restore_collection.mp h
    have hxs_le := hys.sum_le fun _ _ => size_restore_le
    have hzs_le := sum_insertAll_le hzs
    rw [size_collection, size_collection] at hsize
    -- a set that comes back as a list is smaller by one
    have hclass : c ≠ .otherSet := by
      rintro rfl
      simp [CollectionClass.restored, CollectionClass.isSet] at hsize
      omega
    have hset : c.isSet = c.restored.isSet := by
      cases c <;> first | rfl | exact absurd rfl hclass
    rw [hset] at hsize
    obtain ⟨hzs', hfresh⟩ := Keying.fresh_of_insertAll (merge_collection_lt _) (fresh_nil _) hzs
      (by rw [List.map_nil, List.sum_nil]; omega)
    obtain rfl : zs = ys := hzs'
    -- nothing has been merged, so that each member keeps its size too
    have hkept := hys.and_le (fun _ _ => size_restore_le) (by omega)
    have hstorable : ∀ x ∈ xs, Storable X x := fun x hx => by
      obtain ⟨y, -, hxy, hle⟩ := hkept.exists_left hx
      exact ih x hx hxy hle fun l hl => hleaves l (mem_leaves_collection.mpr ⟨x, hx, hl⟩)
    have hrestored := hys.imp_mem (S := fun x y => Same x y ∧ Distinct y ∧ Rounded y)
      fun x hx y hxy =>
        ⟨((hstorable x hx).of_restore hxy).1, ((hstorable x hx).of_restore hxy).2,
          rounded_of_restore hxy⟩
    have hpartner := fun y hy => hrestored.flip.exists_left (x := y) hy
    obtain ⟨hpair, horder⟩ := (fresh_collection_iff
      (fun y hy => (hpartner y hy).elim fun _ h => h.2.2.2)
      (fun y hy => (hpartner y hy).elim fun _ h => h.2.2.1)).mp hfresh
    refine .collection hstorable hclass (fun hc => ?_) fun hc x hx x' hx' => ?_
    · exact hrestored.flip.pairwise (fun y y' x x' h h' hnot hxx' =>
        hnot (h.1.symm.trans (hxx'.trans h'.1))) (hpair (hset ▸ hc))
    · obtain ⟨y, hy, hxy, -⟩ := hrestored.exists_left hx
      obtain ⟨y', hy', hxy', -⟩ := hrestored.exists_left hx'
      rw [isComparable_congr hxy hxy']
      exact horder hc y hy y' hy'
  | map c es ih =>
    obtain ⟨fs, gs, hfs, hgs, rfl⟩ := restore_map.mp h
    have hentry : ∀ e f, RestoresEntry e f → entrySize f ≤ entrySize e := fun e f hef =>
      Nat.add_le_add (size_restore_le hef.1) (size_restore_le hef.2)
    have hes_le := hfs.sum_le hentry
    have hgs_le := sum_insertAll_entries_le hgs
    rw [size_map, size_map] at hsize
    obtain ⟨hgs', hfresh⟩ := Keying.fresh_of_insertAll (merge_map_lt _) (fresh_nil _) hgs
      (by rw [List.map_nil, List.sum_nil]; omega)
    obtain rfl : gs = fs := hgs'
    have hkept := hfs.and_le hentry (by omega)
    have hstorable : ∀ e ∈ es, Storable X e.1 ∧ Storable X e.2 := fun e he => by
      obtain ⟨f, -, ⟨hk, hv⟩, hle⟩ := hkept.exists_left he
      have hk_le := size_restore_le hk
      have hv_le := size_restore_le hv
      unfold entrySize at hle
      exact ⟨(ih e he).1 hk (by omega) fun l hl => hleaves l (mem_leaves_map.mpr ⟨e, he, .inl hl⟩),
        (ih e he).2 hv (by omega) fun l hl => hleaves l (mem_leaves_map.mpr ⟨e, he, .inr hl⟩)⟩
    have hrestored := hfs.imp_mem
      (S := fun e f => SameEntry e f ∧ Distinct f.1 ∧ Rounded f.1) fun e he f hef =>
        ⟨⟨((hstorable e he).1.of_restore hef.1).1, ((hstorable e he).2.of_restore hef.2).1⟩,
          ((hstorable e he).1.of_restore hef.1).2, rounded_of_restore hef.1⟩
    have hpartner := fun f hf => hrestored.flip.exists_left (x := f) hf
    obtain ⟨hpair, horder, hnull⟩ := (fresh_map_iff
      (fun f hf => (hpartner f hf).elim fun _ h => h.2.2.2)
      (fun f hf => (hpartner f hf).elim fun _ h => h.2.2.1)).mp hfresh
    refine .map (fun e he => (hstorable e he).1) (fun e he => (hstorable e he).2) ?_
      (fun hc e he e' he' => ?_) fun hc e he => ?_
    · exact hrestored.flip.pairwise (fun f f' e e' h h' hnot hee' =>
        hnot (h.1.1.symm.trans (hee'.trans h'.1.1))) hpair
    · obtain ⟨f, hf, hef, -⟩ := hrestored.exists_left he
      obtain ⟨f', hf', hef', -⟩ := hrestored.exists_left he'
      rw [isComparable_congr hef.1 hef'.1]
      exact horder hc f hf f' hf'
    · obtain ⟨f, hf, hef, -⟩ := hrestored.exists_left he
      rw [isNull_congr hef.1, isNull_congr hef.2]
      exact hnull hc f hf

/-! ### Timestamps read again -/

variable {F : TimestampFormat}

theorem rereadMembers_iff {xs ys : List ContextValue} :
    rereadMembers F xs = some ys ↔ List.Forall₂ (fun x y => reread F x = some y) xs ys :=
  List.rebuild_iff (by rw [rereadMembers]) fun x xs => by rw [rereadMembers]

theorem rereadEntries_iff {es fs : List (ContextValue × ContextValue)} :
    rereadEntries F es = some fs ↔
      List.Forall₂ (fun e f => reread F e.1 = some f.1 ∧ reread F e.2 = some f.2) es fs :=
  List.rebuildPairs_iff (by rw [rereadEntries]) fun k v es => by rw [rereadEntries]

theorem size_reread {v u : ContextValue} (h : reread F v = some u) : size v = size u := by
  induction v using ContextValue.inductionOn generalizing u with
  | null =>
    obtain rfl : ContextValue.null = u := Option.some.inj h
    rfl
  | leaf l =>
    obtain ⟨m, -, rfl⟩ := Option.map_eq_some_iff.mp h
    rfl
  | collection c xs ih =>
    rw [reread] at h
    obtain ⟨ys, hys, rfl⟩ := Option.map_eq_some_iff.mp h
    rw [size_collection, size_collection,
      (rereadMembers_iff.mp hys).sum_eq fun x hx y hxy => ih x hx hxy]
  | map c es ih =>
    rw [reread] at h
    obtain ⟨fs, hfs, rfl⟩ := Option.map_eq_some_iff.mp h
    have hsum := (rereadEntries_iff.mp hfs).sum_eq (f := entrySize) (g := entrySize)
      fun e he f hef => by
        unfold entrySize
        rw [(ih e he).1 hef.1, (ih e he).2 hef.2]
    rw [size_map, size_map, hsum]

theorem exists_rereadLeaf {v u : ContextValue} (h : reread F v = some u) {m : Leaf}
    (hm : m ∈ leaves u) : ∃ l ∈ leaves v, rereadLeaf F l = some m := by
  induction v using ContextValue.inductionOn generalizing u with
  | null =>
    obtain rfl : ContextValue.null = u := Option.some.inj h
    exact absurd hm List.not_mem_nil
  | leaf l =>
    obtain ⟨m', hm', rfl⟩ := Option.map_eq_some_iff.mp h
    obtain rfl := List.mem_singleton.mp hm
    exact ⟨l, List.mem_singleton.mpr rfl, hm'⟩
  | collection c xs ih =>
    rw [reread] at h
    obtain ⟨ys, hys, rfl⟩ := Option.map_eq_some_iff.mp h
    obtain ⟨y, hy, hmy⟩ := mem_leaves_collection.mp hm
    obtain ⟨x, hx, hxy⟩ := (rereadMembers_iff.mp hys).flip.exists_left hy
    obtain ⟨l, hl, hlm⟩ := ih x hx hxy hmy
    exact ⟨l, mem_leaves_collection.mpr ⟨x, hx, hl⟩, hlm⟩
  | map c es ih =>
    rw [reread] at h
    obtain ⟨fs, hfs, rfl⟩ := Option.map_eq_some_iff.mp h
    obtain ⟨f, hf, hmf⟩ := mem_leaves_map.mp hm
    obtain ⟨e, he, hek, hev⟩ := (rereadEntries_iff.mp hfs).flip.exists_left hf
    obtain hmf | hmf := hmf
    · obtain ⟨l, hl, hlm⟩ := (ih e he).1 hek hmf
      exact ⟨l, mem_leaves_map.mpr ⟨e, he, Or.inl hl⟩, hlm⟩
    · obtain ⟨l, hl, hlm⟩ := (ih e he).2 hev hmf
      exact ⟨l, mem_leaves_map.mpr ⟨e, he, Or.inr hl⟩, hlm⟩

/-! ### The characters of a document -/

def Leaf.Carried (X : XmlLibrary) : Leaf → Prop
  | .string s => s.all X.carries = true
  | _ => True

variable {X : XmlLibrary}

theorem all_carries_of_ascii {s : List Char} (h : ∀ c ∈ s, ' ' ≤ c ∧ c ≤ '~') :
    s.all X.carries = true :=
  List.all_eq_true.mpr fun c hc => X.carries_ascii c (h c hc).1 (h c hc).2

theorem ascii_of_all {s : List Char} (h : (s.all fun c => ' ' ≤ c ∧ c ≤ '~') = true) :
    ∀ c ∈ s, ' ' ≤ c ∧ c ≤ '~' := by
  intro c hc
  simpa using List.all_eq_true.mp h c hc

theorem ascii_of_isDigit {c : Char} (h : c.isDigit = true) : ' ' ≤ c ∧ c ≤ '~' := by
  rw [Char.isDigit, Bool.and_eq_true, decide_eq_true_iff, decide_eq_true_iff] at h
  exact ⟨UInt32.le_trans (by decide : ' '.val ≤ '0'.val) h.1,
    UInt32.le_trans h.2 (by decide : '9'.val ≤ '~'.val)⟩

theorem forall_texts_makeElement {p : List Char → Prop} (elementName : String)
    (value : List Char) : (∀ s ∈ (makeElement elementName value).texts, p s) ↔ p value := by
  simp [makeElement, Element.texts, Element.textsOfAll]

theorem forall_texts_serializeLeaf (l : Leaf) :
    (∀ s ∈ (serializeLeaf F l).texts, s.all X.carries = true) ↔ l.Carried X := by
  have hshow : ∀ n : ℤ, (showInt n).all X.carries = true := fun n =>
    all_carries_of_ascii fun c hc =>
      (mem_showInt hc).elim ascii_of_isDigit fun h => by subst h; decide
  cases l with
  | string s =>
    rw [serializeLeaf, forall_texts_makeElement, Leaf.Carried]
  | integer n h =>
    rw [serializeLeaf, forall_texts_makeElement]
    exact iff_of_true (hshow n) trivial
  | long n h =>
    rw [serializeLeaf, forall_texts_makeElement]
    exact iff_of_true (hshow n) trivial
  | boolean b =>
    have htext : (if b then "true".toList else "false".toList).all X.carries = true :=
      all_carries_of_ascii (ascii_of_all (by cases b <;> decide))
    rw [serializeLeaf, forall_texts_makeElement]
    exact iff_of_true htext trivial
  | bigDecimal b =>
    have htext : (setScale b 10).toString.all X.carries = true :=
      all_carries_of_ascii fun c hc => (BigDecimal.mem_toString hc).elim ascii_of_isDigit
        fun h => by
          exact ascii_of_all (by decide : (['-', '.', 'E', '+'].all _) = true) c h
    rw [serializeLeaf, forall_texts_makeElement]
    exact iff_of_true htext trivial
  | timestamp t =>
    have htext : (F.text t).all X.carries = true :=
      all_carries_of_ascii fun c hc => by
        obtain ⟨d, hd, rfl⟩ := List.mem_map.mp hc
        split_ifs
        · decide
        · exact F.toString_ascii t d hd
    rw [serializeLeaf, forall_texts_makeElement]
    exact iff_of_true htext trivial

/-- **The document of a value is well formed if its strings are carried.** -/
theorem forall_texts_serializeSingle (v : ContextValue) :
    (∀ s ∈ (serializeSingle F v).texts, s.all X.carries = true) ↔
      ∀ l ∈ leaves v, l.Carried X := by
  induction v using ContextValue.inductionOn with
  | null =>
    have hnil : ("true".toList.all X.carries = true) ∧
        ("http://www.w3.org/2001/XMLSchema-instance".toList.all X.carries = true) :=
      ⟨all_carries_of_ascii (ascii_of_all (by decide)),
        all_carries_of_ascii (ascii_of_all (by decide))⟩
    simp only [serializeSingle, nullElement, Element.texts, Element.textsOfAll, leaves]
    simpa using hnil
  | leaf l =>
    simpa [serializeSingle, leaves] using forall_texts_serializeLeaf l
  | collection c xs ih =>
    have hxs : (∀ s ∈ Element.textsOfAll (serializeMembers F xs), s.all X.carries = true) ↔
        ∀ x ∈ xs, ∀ l ∈ leaves x, l.Carried X := by
      induction xs with
      | nil => simp [serializeMembers, Element.textsOfAll]
      | cons x xs ihxs =>
        rw [serializeMembers, Element.textsOfAll, List.forall_mem_append, List.forall_mem_cons,
          ih x List.mem_cons_self, ihxs fun y hy => ih y (List.mem_cons_of_mem x hy)]
    rw [serializeSingle, Element.texts, List.map_nil, List.nil_append, hxs]
    simp only [mem_leaves_collection, forall_exists_index, and_imp]
    exact ⟨fun h l x hx hl => h x hx l hl, fun h x hx l hl => h l x hx hl⟩
  | map c es ih =>
    have hes : (∀ s ∈ Element.textsOfAll (serializeEntries F es), s.all X.carries = true) ↔
        ∀ e ∈ es, (∀ l ∈ leaves e.1, l.Carried X) ∧ ∀ l ∈ leaves e.2, l.Carried X := by
      induction es with
      | nil => simp [serializeEntries, Element.textsOfAll]
      | cons e es ihes =>
        obtain ⟨k, v⟩ := e
        obtain ⟨hk, hv⟩ := ih (k, v) List.mem_cons_self
        rw [serializeEntries, Element.textsOfAll, List.forall_mem_append, List.forall_mem_cons,
          ihes fun f hf => ih f (List.mem_cons_of_mem (k, v) hf), ← hk, ← hv]
        simp only [Element.texts, Element.textsOfAll, List.map_nil, List.nil_append,
          List.append_nil, List.forall_mem_append]
    rw [serializeSingle, Element.texts, List.map_nil, List.nil_append, hes]
    simp only [mem_leaves_map, forall_exists_index, and_imp]
    constructor
    · intro h l e he hl
      exact hl.elim ((h e he).1 l) ((h e he).2 l)
    · exact fun h e he => ⟨fun l hl => h l e he (Or.inl hl), fun l hl => h l e he (Or.inr hl)⟩

theorem deserialize_serialize_eq_some {v w : ContextValue} :
    deserialize X F (serialize X F v) = some w ↔
      (∀ l ∈ leaves v, l.Carried X) ∧ ∃ u, reread F v = some u ∧ restore u = some w := by
  have htexts : (Element.node "ofbiz-ser" [] [serializeSingle F v]).texts
      = (serializeSingle F v).texts := by
    simp [Element.texts, Element.textsOfAll]
  rw [deserialize, serialize]
  by_cases hcarried : ∀ l ∈ leaves v, l.Carried X
  · have hread := X.read_write (.node "ofbiz-ser" [] [serializeSingle F v])
      (htexts ▸ forall_texts_serializeSingle v |>.mpr hcarried)
    rw [hread, Option.bind_some]
    simp only [if_pos, deserializeSingle_serializeSingle, Option.bind_eq_some_iff]
    exact (and_iff_right hcarried).symm
  · have hnot := mt (forall_texts_serializeSingle (F := F) v).mp hcarried
    simp only [not_forall, Bool.not_eq_true] at hnot
    obtain ⟨s, hs, hbad⟩ := hnot
    have hread := X.read_write_none (.node "ofbiz-ser" [] [serializeSingle F v])
      ⟨s, htexts ▸ hs, hbad⟩
    rw [hread, Option.bind_none]
    exact iff_of_false (by simp) fun h => hcarried h.1

theorem Storable.leaf_storable {v : ContextValue} (h : Storable X v) :
    ∀ l ∈ leaves v, l.Storable X := by
  induction h with
  | null => exact fun l hl => absurd hl List.not_mem_nil
  | leaf h => exact fun l hl => List.mem_singleton.mp hl ▸ h
  | collection _ _ _ _ ih =>
    intro l hl
    obtain ⟨x, hx, hlx⟩ := mem_leaves_collection.mp hl
    exact ih x hx l hlx
  | map _ _ _ _ _ ihkeys ihvalues =>
    intro l hl
    obtain ⟨e, he, hle⟩ := mem_leaves_map.mp hl
    exact hle.elim (ihkeys e he l) (ihvalues e he l)

/-- A leaf of a reread value is storable if the leaf that it comes from is carried and, as a
decimal, has been restored as the same number. -/
theorem storable_of_rereadLeaf {l m : Leaf} {w : ContextValue} (hm : rereadLeaf F l = some m)
    (hcarried : l.Carried X) (hw : Rounded w) (hsame : ∃ m' ∈ leaves w, l.Same m') :
    m.Storable X := by
  cases l with
  | string s =>
    obtain rfl := Option.some.inj hm
    exact hcarried
  | bigDecimal b =>
    obtain rfl := Option.some.inj hm
    obtain ⟨m', hm', hb⟩ := hsame
    have hround : m'.Rounded := hw m' hm'
    cases m' with
    | bigDecimal e => exact isExact_of_decimalValue hround (Sum.inr.inj hb)
    | _ => cases hb
  | timestamp t =>
    obtain ⟨u, -, rfl⟩ := Option.map_eq_some_iff.mp hm
    exact trivial
  | _ =>
    obtain rfl := Option.some.inj hm
    exact trivial

theorem carried_of_same {l m : Leaf} (h : l.Same m) (hm : m.Storable X) : l.Carried X := by
  cases l with
  | string s =>
    cases m with
    | string t =>
      obtain rfl : s = t := Leaf.string.inj (Sum.inl.inj h)
      exact hm
    | bigDecimal b => cases h
    | _ => exact absurd (Sum.inl.inj h) (by simp)
  | _ => exact trivial

/-- **The pair gives a value back exactly if it is readable, unchanged by rereading, and
storable.** -/
theorem deserialize_serialize_iff (X : XmlLibrary) (F : TimestampFormat) (v : ContextValue) :
    (∃ w, deserialize X F (serialize X F v) = some w ∧ Same v w) ↔ HoldsWhen X F v := by
  simp only [deserialize_serialize_eq_some]
  constructor
  · rintro ⟨w, ⟨hcarried, u, hu, hw⟩, hsame⟩
    have hsize : size u ≤ size w := le_of_eq ((size_reread hu).symm.trans hsame.size_eq)
    have hstorable : Storable X u := storable_of_size hw hsize fun m hm => by
      obtain ⟨l, hl, hlm⟩ := exists_rereadLeaf hu hm
      exact storable_of_rereadLeaf hlm (hcarried l hl) (rounded_of_restore hw)
        (hsame.exists_leaf hl)
    have huw : Same u w := (hstorable.of_restore hw).1
    exact ⟨u, hu, hsame.trans huw.symm, hstorable⟩
  · rintro ⟨u, hu, hvu, hstorable⟩
    obtain ⟨w, hw, huw, -⟩ := hstorable.exists_restore
    refine ⟨w, ⟨fun l hl => ?_, u, hu, hw⟩, hvu.trans huw⟩
    obtain ⟨m, hm, hlm⟩ := hvu.exists_leaf hl
    exact carried_of_same hlm (hstorable.leaf_storable m hm)

def isXmlChar (c : Char) : Bool :=
  c = '\t' || c = '\n' || c = '\r' || (' ' ≤ c && c ≠ '\uFFFE' && c ≠ '\uFFFF')

def plainXml : XmlLibrary where
  Content := Element
  carries := isXmlChar
  writeXmlDocument e := e
  readXmlDocument e := if e.texts.all fun s => s.all isXmlChar then some e else none
  carries_ascii c hlow hhigh := by
    have hne : ∀ d : Char, '~' < d → c ≠ d := fun d hd h =>
      absurd (h ▸ hhigh) (Char.not_le.mpr hd)
    simp [isXmlChar, hlow, hne '\uFFFE' (by decide), hne '\uFFFF' (by decide)]
  read_write e h := if_pos (List.all_eq_true.mpr h)
  read_write_none e h := by
    obtain ⟨s, hs, hbad⟩ := h
    refine if_neg fun hall => ?_
    rw [List.all_eq_true.mp hall s hs] at hbad
    exact absurd hbad (by decide)

def millisFormat : TimestampFormat where
  toString t := showInt t.getTime
  parseDate s := readLongValue s
  valueOf _ := none
  toString_ascii t c hc := (mem_showInt hc).elim ascii_of_isDigit fun h => by subst h; decide

def sampleContext : ContextValue :=
  .map .hashMap [(.leaf (.string "jobName".toList), .leaf (.string "purge".toList)),
    (.leaf (.string "limits".toList), .collection .treeSet
      [.leaf (.bigDecimal ⟨1, 0⟩), .leaf (.bigDecimal ⟨25, 1⟩)])]

theorem sampleContext_storable : Storable plainXml sampleContext := by
  have hstring : ∀ s : List Char, s.all isXmlChar = true →
      Storable plainXml (.leaf (.string s)) := fun s hs => .leaf hs
  have hname := hstring "jobName".toList (by decide)
  have hvalue := hstring "purge".toList (by decide)
  have hlimits := hstring "limits".toList (by decide)
  have hset : Storable plainXml (.collection .treeSet
      [.leaf (.bigDecimal ⟨1, 0⟩), .leaf (.bigDecimal ⟨25, 1⟩)]) := by
    refine .collection ?_ (by decide) (fun _ => ?_) fun _ => by decide
    · rw [List.forall_mem_cons, List.forall_mem_singleton]
      exact ⟨.leaf (one_dvd _), .leaf (one_dvd _)⟩
    · refine List.pairwise_pair.mpr ?_
      rintro ⟨b, hb, hsame⟩
      obtain rfl := ContextValue.leaf.inj hb
      have hvalue : decimalValue ⟨1, 0⟩ = decimalValue ⟨25, 1⟩ := Sum.inr.inj hsame
      norm_num [decimalValue] at hvalue
  refine .map ?_ ?_ (List.pairwise_pair.mpr ?_) (by decide) (by decide)
  · rw [List.forall_mem_cons, List.forall_mem_singleton]
    exact ⟨hname, hlimits⟩
  · rw [List.forall_mem_cons, List.forall_mem_singleton]
    exact ⟨hvalue, hset⟩
  · rintro ⟨b, hb, hsame⟩
    obtain rfl := ContextValue.leaf.inj hb
    exact absurd (Leaf.string.inj (Sum.inl.inj hsame)) (by decide)

theorem deserialize_serialize_sampleContext :
    ∃ w, deserialize plainXml millisFormat (serialize plainXml millisFormat sampleContext)
      = some w ∧ Same sampleContext w :=
  (deserialize_serialize_iff plainXml millisFormat sampleContext).mpr
    ⟨sampleContext, rfl, Same.refl _, sampleContext_storable⟩

theorem not_deserialize_serialize_decimal :
    ¬ ∃ w, deserialize plainXml millisFormat (serialize plainXml millisFormat
      (.leaf (.bigDecimal ⟨1, 11⟩))) = some w ∧ Same (.leaf (.bigDecimal ⟨1, 11⟩)) w := by
  rintro ⟨w, hw, hsame⟩
  obtain ⟨-, u, hu, hw⟩ := deserialize_serialize_eq_some.mp hw
  obtain rfl := Option.some.inj hu
  obtain ⟨m, hm, hvalue⟩ := hsame.exists_leaf (List.mem_singleton.mpr rfl)
  obtain rfl := Option.some.inj hw
  obtain rfl := List.mem_singleton.mp hm
  have hexact : IsExact ⟨1, 11⟩ :=
    isExact_of_decimalValue (scale_setScale _ 10) (Sum.inr.inj hvalue)
  exact absurd hexact (by unfold IsExact; decide)

end OfficeAuto
