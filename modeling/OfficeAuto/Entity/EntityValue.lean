import Mathlib.Data.List.Perm.Subperm
import OfficeAuto.Base.MapComparator
import OfficeAuto.Entity.Condition
import OfficeAuto.Logic.EntryList

/-!
# Values of entities: hash codes and order

A `GenericEntity` is a map of fields with the name of its entity. Its hash code is cached behind a
flag that a change of the fields is to raise. `set` and `reset` raise it, and `refreshFromValue`
takes the flag and the code from the other value along with its fields. `remove` and `clear` change
the fields without raising the flag.

In a run whose calls of `remove` and `clear` change fields only where no code is cached, **equal
values have equal hash codes**. `compareTo` compares the fields of the key first, then the others,
without those that the engine adds itself; on values of one entity whose fields can be compared it
is **a total preorder, which returns zero exactly if all the fields that it looks at agree**. A
missing field counts as null there (`hashCode_compareTo`).
-/

namespace OfficeAuto.Entity.EntityValue

open Base.MapComparator Comparator

/-! ### Values and models -/

/-- The classes of the values: their hash codes, which of them are comparable at all, and what the
setter makes of a value for the type of a field. -/
structure ValueClasses (V : Type) extends Comparables V where
  hashCode : V → BitVec 32
  isComparable : V → Bool
  isComparable_of : ∀ v w, comparable v w → isComparable v = true
  convert : List Char → V → Except String V

structure ModelField where
  name : FieldName
  type : List Char
  isAutoCreatedInternal : Bool

structure ModelEntity where
  pks : List ModelField
  nopks : List ModelField

abbrev Fields (V : Type) := EntryList FieldName (Option V)

structure GenericEntity (V : Type) where
  entityName : Option (List Char)
  fields : Fields V
  generateHashCode : Bool
  cachedHashCode : BitVec 32
  mutable : Bool

variable {V : Type} (C : ValueClasses V)
  (reader : List Char → Option ModelEntity)

def ModelEntity.getField (model : ModelEntity) (name : FieldName) : Option ModelField :=
  (model.pks ++ model.nopks).find? fun field => field.name = name

/-! ### Equality and hash codes -/

def stringHash (s : List Char) : BitVec 32 :=
  (s.flatMap utf16).foldl (fun hash unit => 31 * hash + BitVec.ofNat 32 unit) 0

def fieldsEqual [DecidableEq V] (fields fields' : Fields V) : Bool :=
  fields.entries.length = fields'.entries.length &&
    fields.entries.all fun e => fields'.get e.1 = some e.2

def fieldsHash (fields : Fields V) : BitVec 32 :=
  fields.entries.foldr (fun e hash => (stringHash e.1 ^^^ e.2.elim 0 C.hashCode) + hash) 0

/-- **`equals`**; a value without the name of an entity has been reset, and throws. -/
def equals [DecidableEq V] (this that : GenericEntity V) : Bool :=
  this.entityName.isSome && this.entityName = that.entityName && fieldsEqual this.fields that.fields

def hashOf (entityName : Option (List Char)) (fields : Fields V) : BitVec 32 :=
  (entityName.elim 0 fun name => (stringHash name).sshiftRight 1) +
    (fieldsHash C fields).sshiftRight 1

/-- **`hashCode`**, and the value that has cached it. -/
def hashCode (this : GenericEntity V) : BitVec 32 × GenericEntity V :=
  if this.generateHashCode then
    (hashOf C this.entityName this.fields, { this with
      cachedHashCode := hashOf C this.entityName this.fields
      generateHashCode := false })
  else (this.cachedHashCode, this)

/-! ### Changes -/

/-- `HashMap.put` -/
def putField (fields : Fields V) (name : FieldName) (value : Option V) : Fields V where
  entries := (name, value) :: fields.entries.filter fun e => e.1 ≠ name
  nodup := by
    rw [List.map_cons, List.nodup_cons]
    refine ⟨fun hmem => ?_, (List.filter_sublist.map Prod.fst).nodup fields.nodup⟩
    obtain ⟨e, he, heq⟩ := List.mem_map.mp hmem
    exact of_decide_eq_true (List.mem_filter.mp he).2 heq

/-- `HashMap.remove` -/
def removeField (fields : Fields V) (name : FieldName) : Fields V where
  entries := fields.entries.filter fun e => e.1 ≠ name
  nodup := (List.filter_sublist.map Prod.fst).nodup fields.nodup

def noFields : Fields V := ⟨[], List.nodup_nil⟩

def assertIsMutable (this : GenericEntity V) : Except String Unit :=
  if this.mutable then .ok () else .error "java.lang.IllegalStateException"

def getModelEntity (this : GenericEntity V) : Except String ModelEntity :=
  match this.entityName.bind reader with
  | some model => .ok model
  | none => .error "java.lang.IllegalStateException"

def set (this : GenericEntity V) (name : FieldName) (value : Option V) (setIfNull : Bool) :
    Except String (GenericEntity V) := do
  assertIsMutable this
  let model ← getModelEntity reader this
  match model.getField name with
  | none => .error "java.lang.IllegalArgumentException"
  | some modelField =>
    if value.isSome || setIfNull then
      let value ← value.mapM (C.convert modelField.type)
      pure { this with fields := putField this.fields name value, generateHashCode := true }
    else pure this

def put (this : GenericEntity V) (key : FieldName) (value : Option V) :
    Except String (GenericEntity V) :=
  set C reader this key value true

def remove (this : GenericEntity V) (key : FieldName) : Except String (GenericEntity V) :=
  if this.mutable then .ok { this with fields := removeField this.fields key }
  else .error "java.lang.UnsupportedOperationException"

def clear (this : GenericEntity V) : Except String (GenericEntity V) :=
  if this.mutable then .ok { this with fields := noFields }
  else .error "java.lang.UnsupportedOperationException"

def reset (this : GenericEntity V) : Except String (GenericEntity V) := do
  assertIsMutable this
  pure ⟨none, noFields, true, 0, true⟩

def fieldValue (this : GenericEntity V) (name : FieldName) : Option V := (this.fields.get name).join

def getPrimaryKey (this : GenericEntity V) :
    Except String (Option (List Char) × List (FieldName × Option V)) := do
  let model ← getModelEntity reader this
  pure (this.entityName, model.pks.map fun pk => (pk.name, fieldValue this pk.name))

def refreshFromValue [DecidableEq V] (this newValue : GenericEntity V) :
    Except String (GenericEntity V) := do
  assertIsMutable this
  let thisPK ← getPrimaryKey reader this
  let newPK ← getPrimaryKey reader newValue
  if thisPK = newPK then
    pure { this with
      fields := newValue.fields
      generateHashCode := newValue.generateHashCode
      cachedHashCode := newValue.cachedHashCode }
  else .error "org.apache.ofbiz.entity.GenericEntityException"

def clone (this : GenericEntity V) : Except String (GenericEntity V) :=
  if this.entityName.isSome then .ok ⟨this.entityName, this.fields, true, 0, true⟩
  else .error "java.lang.IllegalArgumentException"

/-! ### Runs -/

/-- The calls on the values of a heap. -/
inductive Op (V : Type)
  | set (i : ℕ) (name : FieldName) (value : Option V) (setIfNull : Bool)
  | put (i : ℕ) (key : FieldName) (value : Option V)
  | remove (i : ℕ) (key : FieldName)
  | clear (i : ℕ)
  | reset (i : ℕ)
  | refreshFromValue (i j : ℕ)
  | clone (i : ℕ)
  | hashCode (i : ℕ)

def change (heap : List (GenericEntity V)) (i : ℕ)
    (call : GenericEntity V → Except String (GenericEntity V)) : List (GenericEntity V) :=
  match heap[i]? with
  | none => heap
  | some this =>
    match call this with
    | .ok this => heap.set i this
    | .error _ => heap

def step [DecidableEq V] (heap : List (GenericEntity V)) : Op V → List (GenericEntity V)
  | .set i name value setIfNull => change heap i fun this => set C reader this name value setIfNull
  | .put i key value => change heap i fun this => put C reader this key value
  | .remove i key => change heap i fun this => remove this key
  | .clear i => change heap i clear
  | .reset i => change heap i reset
  | .refreshFromValue i j =>
    match heap[j]? with
    | none => heap
    | some newValue => change heap i fun this => refreshFromValue reader this newValue
  | .clone i =>
    match (heap[i]?).map clone with
    | some (.ok newEntity) => heap ++ [newEntity]
    | _ => heap
  | .hashCode i => change heap i fun this => .ok (hashCode C this).2

def run [DecidableEq V] (heap : List (GenericEntity V)) (ops : List (Op V)) :
    List (GenericEntity V) :=
  ops.foldl (step C reader) heap

/-! ### Consistent hash codes -/

def Consistent (this : GenericEntity V) : Prop :=
  this.generateHashCode = false → this.cachedHashCode = hashOf C this.entityName this.fields

/-- The call does not remove fields of a value whose hash code is cached. -/
def Op.KeepsCached (heap : List (GenericEntity V)) : Op V → Prop
  | .remove i key => ∀ this, heap[i]? = some this → this.generateHashCode = false →
    key ∉ this.fields.entries.map Prod.fst
  | .clear i => ∀ this, heap[i]? = some this → this.generateHashCode = false →
    this.fields.entries = []
  | _ => True

def KeepsCached [DecidableEq V] (heap : List (GenericEntity V)) : List (Op V) → Prop
  | [] => True
  | op :: ops => op.KeepsCached heap ∧ KeepsCached (step C reader heap op) ops

section Consistent

variable {C reader} {this this' newValue : GenericEntity V} {heap : List (GenericEntity V)}

theorem consistent_of_generate (h : this.generateHashCode = true) : Consistent C this := by
  intro hcached
  rw [h] at hcached
  cases hcached

theorem Consistent.set {name : FieldName} {value : Option V} {setIfNull : Bool}
    (h : Consistent C this) (hset : set C reader this name value setIfNull = .ok this') :
    Consistent C this' := by
  obtain ⟨-, -, hset⟩ := Except.bind_eq_ok.mp hset
  obtain ⟨model, -, hset⟩ := Except.bind_eq_ok.mp hset
  cases hfield : model.getField name with
  | none =>
    rw [hfield] at hset
    cases hset
  | some modelField =>
    rw [hfield] at hset
    dsimp only at hset
    split_ifs at hset
    · obtain ⟨value, -, hset⟩ := Except.bind_eq_ok.mp hset
      rw [← Except.pure_eq_ok.mp hset]
      exact consistent_of_generate rfl
    · rwa [← Except.pure_eq_ok.mp hset]

theorem eq_of_entries {fields fields' : Fields V} (h : fields.entries = fields'.entries) :
    fields = fields' := by
  cases fields
  cases fields'
  cases h
  rfl

theorem removeField_of_not_mem {fields : Fields V} {key : FieldName}
    (h : key ∉ fields.entries.map Prod.fst) : removeField fields key = fields := by
  have hentries : (fields.entries.filter fun e => e.1 ≠ key) = fields.entries :=
    List.filter_eq_self.mpr fun e he => decide_eq_true fun heq => h (heq ▸ List.mem_map_of_mem he)
  exact eq_of_entries hentries

theorem Consistent.remove {key : FieldName} (h : Consistent C this)
    (hkey : this.generateHashCode = false → key ∉ this.fields.entries.map Prod.fst)
    (hremove : remove this key = .ok this') : Consistent C this' := by
  rw [EntityValue.remove] at hremove
  split_ifs at hremove
  obtain rfl := Except.ok.inj hremove
  intro hcached
  change this.cachedHashCode = hashOf C this.entityName (removeField this.fields key)
  rw [removeField_of_not_mem (hkey hcached), h hcached]

theorem Consistent.clear (h : Consistent C this)
    (hempty : this.generateHashCode = false → this.fields.entries = [])
    (hclear : clear this = .ok this') : Consistent C this' := by
  rw [EntityValue.clear] at hclear
  split_ifs at hclear
  obtain rfl := Except.ok.inj hclear
  intro hcached
  have hfields : this.fields = noFields := eq_of_entries (hempty hcached)
  change this.cachedHashCode = hashOf C this.entityName noFields
  rw [← hfields, h hcached]

theorem Consistent.refreshFromValue [DecidableEq V] (h : Consistent C newValue)
    (hrefresh : refreshFromValue reader this newValue = .ok this') : Consistent C this' := by
  obtain ⟨-, -, hrefresh⟩ := Except.bind_eq_ok.mp hrefresh
  obtain ⟨thisPK, hthis, hrefresh⟩ := Except.bind_eq_ok.mp hrefresh
  obtain ⟨newPK, hnew, hrefresh⟩ := Except.bind_eq_ok.mp hrefresh
  split_ifs at hrefresh with heq
  obtain ⟨model, -, hthis⟩ := Except.bind_eq_ok.mp hthis
  obtain ⟨model', -, hnew⟩ := Except.bind_eq_ok.mp hnew
  have hname : this.entityName = newValue.entityName := by
    rw [← Except.pure_eq_ok.mp hthis, ← Except.pure_eq_ok.mp hnew] at heq
    exact congrArg Prod.fst heq
  rw [← Except.pure_eq_ok.mp hrefresh]
  intro hcached
  exact (h hcached).trans (by rw [hname])

theorem Consistent.cached (h : Consistent C this) : Consistent C (hashCode C this).2 := by
  rw [hashCode]
  split_ifs
  · exact fun _ => rfl
  · exact h

/-- **The hash code of a consistent value is that of its fields.** -/
theorem Consistent.hashCode_eq (h : Consistent C this) :
    (hashCode C this).1 = hashOf C this.entityName this.fields := by
  rw [hashCode]
  split_ifs with hgenerate
  · rfl
  · exact h (eq_false_of_ne_true hgenerate)

theorem consistent_change {i : ℕ} {call : GenericEntity V → Except String (GenericEntity V)}
    (hheap : ∀ this ∈ heap, Consistent C this)
    (hcall : ∀ this this', heap[i]? = some this → Consistent C this → call this = .ok this' →
      Consistent C this') :
    ∀ this ∈ change heap i call, Consistent C this := by
  rw [change]
  cases hthis : heap[i]? with
  | none => exact hheap
  | some this =>
    dsimp only
    cases hresult : call this with
    | error e => exact hheap
    | ok this' =>
      intro that hthat
      rcases List.mem_or_eq_of_mem_set hthat with hthat | rfl
      · exact hheap that hthat
      · exact hcall this that hthis (hheap this (List.mem_of_getElem? hthis)) hresult

theorem consistent_step [DecidableEq V] {op : Op V} (hheap : ∀ this ∈ heap, Consistent C this)
    (hop : op.KeepsCached heap) : ∀ this ∈ step C reader heap op, Consistent C this := by
  cases op with
  | set i name value setIfNull =>
    exact consistent_change hheap fun this this' _ hthis hset => hthis.set hset
  | put i key value =>
    exact consistent_change hheap fun this this' _ hthis hset => hthis.set hset
  | remove i key =>
    exact consistent_change hheap fun this this' hi hthis hremove =>
      hthis.remove (hop this hi) hremove
  | clear i =>
    exact consistent_change hheap fun this this' hi hthis hclear => hthis.clear (hop this hi) hclear
  | reset i =>
    -- `reset` and `clone` raise the flag, so that nothing cached is left
    refine consistent_change hheap fun this this' _ _ hreset => ?_
    obtain ⟨-, -, hreset⟩ := Except.bind_eq_ok.mp hreset
    rw [← Except.pure_eq_ok.mp hreset]
    exact consistent_of_generate rfl
  | refreshFromValue i j =>
    rw [step]
    cases hj : heap[j]? with
    | none => exact hheap
    | some newValue =>
      have hnew := hheap newValue (List.mem_of_getElem? hj)
      exact consistent_change hheap fun this this' _ _ hrefresh => hnew.refreshFromValue hrefresh
  | clone i =>
    rw [step]
    cases hresult : (heap[i]?).map clone with
    | none => exact hheap
    | some result =>
      cases result with
      | error e => exact hheap
      | ok newEntity =>
        intro this hthis
        rcases List.mem_append.mp hthis with hthis | hthis
        · exact hheap this hthis
        · -- only the new value is new to the heap
          rw [List.mem_singleton.mp hthis]
          obtain ⟨value, -, hclone⟩ := Option.map_eq_some_iff.mp hresult
          rw [clone] at hclone
          split_ifs at hclone
          rw [← Except.ok.inj hclone]
          exact consistent_of_generate rfl
  | hashCode i =>
    change ∀ this ∈ change heap i fun this => .ok (EntityValue.hashCode C this).2, Consistent C this
    refine consistent_change hheap fun this this' _ hthis hhash => ?_
    rw [← Except.ok.inj hhash]
    exact hthis.cached

/-- **What a run keeps.** -/
theorem consistent_run [DecidableEq V] {ops : List (Op V)}
    (hheap : ∀ this ∈ heap, Consistent C this) (hops : KeepsCached C reader heap ops) :
    ∀ this ∈ run C reader heap ops, Consistent C this := by
  induction ops generalizing heap with
  | nil => exact hheap
  | cons op ops ih => exact ih (consistent_step hheap hops.1) hops.2

theorem fieldsHash_eq [DecidableEq V] {fields fields' : Fields V}
    (h : fieldsEqual fields fields' = true) : fieldsHash C fields = fieldsHash C fields' := by
  rw [fieldsEqual, Bool.and_eq_true, decide_eq_true_eq, List.all_eq_true] at h
  obtain ⟨hlength, hget⟩ := h
  have hsubset : fields.entries ⊆ fields'.entries := fun e he =>
    EntryList.mem_of_lookup (of_decide_eq_true (hget e he))
  have hperm : fields.entries.Perm fields'.entries :=
    ((List.Nodup.of_map Prod.fst fields.nodup).subperm hsubset).perm_of_length_le
      (Nat.le_of_eq hlength.symm)
  refine hperm.foldr_eq' ?_ 0
  intro e _ e' _ hash
  rw [← BitVec.add_assoc, ← BitVec.add_assoc, BitVec.add_comm (stringHash e.1 ^^^ _)]

theorem hashCode_eq_of_equals [DecidableEq V] (hthis : Consistent C this)
    (hthat : Consistent C this') (h : equals this this' = true) :
    (hashCode C this).1 = (hashCode C this').1 := by
  rw [equals, Bool.and_eq_true, Bool.and_eq_true, decide_eq_true_eq] at h
  rw [hthis.hashCode_eq, hthat.hashCode_eq, hashOf, hashOf, h.1.2, fieldsHash_eq h.2]

end Consistent

/-! ### The order -/

def compareUnits : List ℕ → List ℕ → ℤ
  | [], [] => 0
  | [], t => -t.length
  | s, [] => s.length
  | a :: s, b :: t => if a = b then compareUnits s t else (a : ℤ) - b

def compareToFields (this that : GenericEntity V) (name : FieldName) : Except String ℤ :=
  let thisVal := fieldValue this name
  let thatVal := fieldValue that name
  -- the cast of the value of this
  if thisVal.any fun thisVal => !C.isComparable thisVal then
    .error "java.lang.ClassCastException"
  else
    match thisVal, thatVal with
    | none, none => .ok 0
    | none, some _ => .ok 1
    | some _, none => .ok (-1)
    | some thisVal, some thatVal => C.compareTo thisVal thatVal

def compareLoop (this that : GenericEntity V) : List FieldName → Except String ℤ
  | [] => .ok 0
  | name :: names => do
    let tempResult ← compareToFields C this that name
    if tempResult ≠ 0 then pure tempResult else compareLoop this that names

/-- The fields that are compared: those of the key, and the others that are not automatic. -/
def ModelEntity.comparedFields (model : ModelEntity) : List FieldName :=
  model.pks.map ModelField.name ++
    (model.nopks.filter fun field => !field.isAutoCreatedInternal).map ModelField.name

/-- **`compareTo`** -/
def compareTo (this : GenericEntity V) (that : Option (GenericEntity V)) : Except String ℤ :=
  match that with
  | none => .ok (-1)
  | some that =>
    match this.entityName, that.entityName with
    | some thisName, some thatName =>
      let tempResult := compareUnits (thisName.flatMap utf16) (thatName.flatMap utf16)
      if tempResult ≠ 0 then .ok tempResult
      else do
        let model ← getModelEntity reader this
        compareLoop C this that model.comparedFields
    | _, _ => .error "java.lang.NullPointerException"

def compareSign (this that : GenericEntity V) : Except String Ordering :=
  (compareTo C reader this (some that)).map fun n => compare n 0

/-- The order that is meant: by the fields one after the other, null last. -/
def fieldsOrder (names : List FieldName) : GenericEntity V → GenericEntity V → Ordering :=
  lexicographic (names.map fun name this that =>
    nullsLast C.order (fieldValue this name) (fieldValue that name))

section Order

variable {C reader} {this that : GenericEntity V} {values : List (GenericEntity V)}
  {names : List FieldName} {name : FieldName}

/-- The values of fields can be compared with each other, where they are not null. -/
def AreComparable (C : ValueClasses V) (names : List FieldName) (values : List (GenericEntity V)) :
    Prop :=
  ∀ name ∈ names, ∀ this ∈ values, ∀ that ∈ values, ∀ v w, fieldValue this name = some v →
    fieldValue that name = some w → C.comparable v w

theorem compareUnits_self (s : List ℕ) : compareUnits s s = 0 := by
  induction s with
  | nil => rfl
  | cons a s ih => rw [compareUnits, if_pos rfl, ih]

theorem transCmp_fieldsOrder (names : List FieldName) : Std.TransCmp (fieldsOrder C names) :=
  transCmp_lexicographic fun cmp hcmp => by
    obtain ⟨name, -, rfl⟩ := List.mem_map.mp hcmp
    exact transCmp_on (transCmp_nullsLast C.transCmp_order) fun this => fieldValue this name

theorem exists_compareToFields
    (hcast : ∀ v, fieldValue this name = some v → C.isComparable v = true)
    (h : ∀ v w, fieldValue this name = some v → fieldValue that name = some w → C.comparable v w) :
    ∃ n, compareToFields C this that name = .ok n ∧
      compare n 0 = nullsLast C.order (fieldValue this name) (fieldValue that name) := by
  rw [compareToFields]
  cases hthis : fieldValue this name with
  | none =>
    cases hthat : fieldValue that name with
    | none => exact ⟨0, rfl, rfl⟩
    | some w => exact ⟨1, rfl, rfl⟩
  | some v =>
    have hv : ¬(!C.isComparable v) = true := by
      rw [hcast v hthis]
      exact Bool.false_ne_true
    dsimp only [Option.any_some]
    rw [if_neg hv]
    cases hthat : fieldValue that name with
    | none => exact ⟨-1, rfl, rfl⟩
    | some w =>
      obtain ⟨n, hn, -, horder⟩ := C.compareTo_eq v w (h v w hthis hthat)
      exact ⟨n, hn, horder⟩

/-- **The loops return the lexicographic order.** -/
theorem exists_compareLoop_fields (h : AreComparable C names values) (hthis : this ∈ values)
    (hthat : that ∈ values) :
    ∃ n, compareLoop C this that names = .ok n ∧ compare n 0 = fieldsOrder C names this that := by
  induction names with
  | nil => exact ⟨0, rfl, rfl⟩
  | cons name names ih =>
    obtain ⟨hname, hnames⟩ := List.forall_mem_cons.mp h
    obtain ⟨m, hm, hmorder⟩ := ih hnames
    obtain ⟨n, hn, hnorder⟩ := exists_compareToFields
      (fun v hv => C.isComparable_of v v (hname this hthis this hthis v v hv hv))
      (hname this hthis that hthat)
    have hloop : compareLoop C this that (name :: names) = if n ≠ 0 then .ok n else .ok m := by
      rw [compareLoop, hn, ← hm]
      rfl
    have horder : fieldsOrder C (name :: names) this that =
        (nullsLast C.order (fieldValue this name) (fieldValue that name)).then
          (fieldsOrder C names this that) := rfl
    rw [hloop, horder, ← hnorder, ← hmorder]
    -- the loop goes on exactly if this field compares as equal
    by_cases hzero : n = 0
    · rw [if_neg (not_not.mpr hzero), hzero]
      exact ⟨m, rfl, rfl⟩
    · rw [if_pos hzero]
      exact ⟨n, rfl, (then_of_ne_eq (fun heq => hzero (compare_eq_iff_eq.mp heq)) _).symm⟩

theorem fieldsOrder_eq_iff : fieldsOrder C names this that = .eq ↔
    ∀ name ∈ names, nullsLast C.order (fieldValue this name) (fieldValue that name) = .eq := by
  induction names with
  | nil => exact iff_of_true rfl fun name hname => absurd hname List.not_mem_nil
  | cons name names ih =>
    rw [List.forall_mem_cons, ← ih]
    exact Ordering.then_eq_eq

variable {entityName : List Char} {model : ModelEntity}

theorem exists_compareTo (hname : ∀ this ∈ values, this.entityName = some entityName)
    (hmodel : reader entityName = some model)
    (h : AreComparable C model.comparedFields values) (hthis : this ∈ values)
    (hthat : that ∈ values) :
    ∃ n, compareTo C reader this (some that) = .ok n ∧
      compare n 0 = fieldsOrder C model.comparedFields this that := by
  obtain ⟨n, hn, horder⟩ := exists_compareLoop_fields h hthis hthat
  have hgetModel : getModelEntity reader this = .ok model := by
    rw [getModelEntity, hname this hthis, Option.bind_some, hmodel]
  refine ⟨n, ?_, horder⟩
  rw [compareTo, hname this hthis, hname that hthat]
  dsimp only
  rw [compareUnits_self, if_neg (not_not.mpr rfl), hgetModel]
  exact hn

end Order

/-- **Equal values have equal hash codes**, in runs that change no fields while the hash code is
cached, **and `compareTo` is a total preorder** of the values whose fields can be compared, zero
exactly if these agree. -/
theorem hashCode_compareTo [DecidableEq V] (C : ValueClasses V)
    (reader : List Char → Option ModelEntity) (created : List (GenericEntity V)) (ops : List (Op V))
    (hcreated : ∀ this ∈ created, this.generateHashCode = true)
    (hops : KeepsCached C reader created ops) (entityName : List Char) (model : ModelEntity)
    (hmodel : reader entityName = some model) (values : List (GenericEntity V))
    (hname : ∀ this ∈ values, this.entityName = some entityName)
    (hcomparable : AreComparable C model.comparedFields values) :
    (∀ this ∈ run C reader created ops, ∀ that ∈ run C reader created ops,
      equals this that = true → (hashCode C this).1 = (hashCode C that).1) ∧
    IsTotalPreorder (compareSign C reader) values ∧
    ∀ this ∈ values, ∀ that ∈ values, (compareTo C reader this (some that) = .ok 0 ↔
      ∀ name ∈ model.comparedFields,
        nullsLast C.order (fieldValue this name) (fieldValue that name) = .eq) := by
  have hconsistent := consistent_run (fun this hthis => consistent_of_generate
    (hcreated this hthis)) hops
  refine ⟨fun this hthis that hthat heq => hashCode_eq_of_equals (hconsistent this hthis)
    (hconsistent that hthat) heq, ?_, fun this hthis that hthat => ?_⟩
  · have hsign : ∀ this ∈ values, ∀ that ∈ values, compareSign C reader this that =
        .ok (fieldsOrder C model.comparedFields this that) := by
      intro this hthis that hthat
      obtain ⟨n, hn, horder⟩ := exists_compareTo hname hmodel hcomparable hthis hthat
      rw [compareSign, hn, ← horder]
      rfl
    exact isTotalPreorder_of_eq (transCmp_fieldsOrder model.comparedFields) hsign
  · obtain ⟨n, hn, horder⟩ := exists_compareTo hname hmodel hcomparable hthis hthat
    rw [hn, Except.ok.injEq, ← fieldsOrder_eq_iff, ← horder]
    exact compare_eq_iff_eq.symm

/-! ### A row with a stamp -/

section Stamp

def integerClasses : ValueClasses (ℤ ⊕ Bool) where
  toComparables := integersAndBooleans
  hashCode
    | .inl i => BitVec.ofInt 32 i
    | .inr b => if b then 1231 else 1237
  isComparable _ := true
  isComparable_of _ _ _ := rfl
  convert _ v := .ok v

def stampedModel : ModelEntity where
  pks := [⟨"periodId".toList, "id".toList, false⟩]
  nopks := [⟨"quantity".toList, "numeric".toList, false⟩,
    ⟨"lastUpdatedStamp".toList, "date-time".toList, true⟩]

def stampedReader (name : List Char) : Option ModelEntity :=
  if name = "Period".toList then some stampedModel else none

theorem nodup_stampedNames :
    ["periodId".toList, "quantity".toList, "lastUpdatedStamp".toList].Nodup := by decide

def stampedFields (quantity stamp : ℤ) : Fields (ℤ ⊕ Bool) where
  entries := [("periodId".toList, some (.inl 1)), ("quantity".toList, some (.inl quantity)),
    ("lastUpdatedStamp".toList, some (.inl stamp))]
  nodup := nodup_stampedNames

def stampedValue (quantity stamp : ℤ) : GenericEntity (ℤ ⊕ Bool) where
  entityName := some "Period".toList
  fields := stampedFields quantity stamp
  generateHashCode := true
  cachedHashCode := 0
  mutable := true

theorem isLeft_stampedValue {quantity stamp : ℤ} {name : FieldName} {v : ℤ ⊕ Bool}
    (h : fieldValue (stampedValue quantity stamp) name = some v) : v.isLeft = true := by
  have hall : ∀ e ∈ (stampedFields quantity stamp).entries, ∃ i, e.2 = some (.inl i) := by
    intro e he
    rcases List.mem_cons.mp he with rfl | he
    · exact ⟨1, rfl⟩
    · rcases List.mem_cons.mp he with rfl | he
      · exact ⟨quantity, rfl⟩
      · rw [List.mem_singleton.mp he]
        exact ⟨stamp, rfl⟩
  obtain ⟨i, hi⟩ := hall _ (EntryList.mem_of_lookup (Option.join_eq_some_iff.mp h))
  rw [Option.some.inj hi]
  rfl

theorem areComparable_stampedValue {values : List (GenericEntity (ℤ ⊕ Bool))}
    (hvalues : ∀ this ∈ values, ∃ quantity stamp, this = stampedValue quantity stamp) :
    AreComparable integerClasses stampedModel.comparedFields values := by
  intro name _ this hthis that hthat v w hv hw
  obtain ⟨quantity, stamp, rfl⟩ := hvalues this hthis
  obtain ⟨quantity', stamp', rfl⟩ := hvalues that hthat
  exact (isLeft_stampedValue hv).trans (isLeft_stampedValue hw).symm

theorem hashCode_compareTo_stamped :
    let created := [stampedValue 2 10, stampedValue 3 10]
    let ops : List (Op (ℤ ⊕ Bool)) :=
      [.hashCode 0, .set 0 "quantity".toList (some (.inl 3)) true, .clone 0]
    (∀ this ∈ run integerClasses stampedReader created ops,
      ∀ that ∈ run integerClasses stampedReader created ops, equals this that = true →
        (hashCode integerClasses this).1 = (hashCode integerClasses that).1) ∧
    IsTotalPreorder (compareSign integerClasses stampedReader) created ∧
    ∀ this ∈ created, ∀ that ∈ created,
      (compareTo integerClasses stampedReader this (some that) = .ok 0 ↔
        ∀ name ∈ stampedModel.comparedFields, nullsLast integerClasses.order
          (fieldValue this name) (fieldValue that name) = .eq) := by
  intro created ops
  have hvalues : ∀ this ∈ created, ∃ quantity stamp, this = stampedValue quantity stamp := by
    intro this hthis
    rcases List.mem_cons.mp hthis with rfl | hthis
    · exact ⟨2, 10, rfl⟩
    · exact ⟨3, 10, List.mem_singleton.mp hthis⟩
  refine hashCode_compareTo integerClasses stampedReader created ops ?_
    ⟨trivial, trivial, trivial, trivial⟩ "Period".toList stampedModel (if_pos rfl) created ?_
    (areComparable_stampedValue hvalues)
  · intro this hthis
    obtain ⟨quantity, stamp, rfl⟩ := hvalues this hthis
    rfl
  · intro this hthis
    obtain ⟨quantity, stamp, rfl⟩ := hvalues this hthis
    rfl

theorem compareTo_stamps :
    compareTo integerClasses stampedReader (stampedValue 2 10) (some (stampedValue 2 11)) = .ok 0 ∧
      fieldValue (stampedValue 2 10) "lastUpdatedStamp".toList ≠
        fieldValue (stampedValue 2 11) "lastUpdatedStamp".toList ∧
      equals (stampedValue 2 10) (stampedValue 2 11) = false := by
  decide +kernel

end Stamp

end OfficeAuto.Entity.EntityValue
