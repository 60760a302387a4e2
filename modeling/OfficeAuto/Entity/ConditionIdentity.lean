import OfficeAuto.Entity.ConditionTree
import Mathlib.Data.Finset.Dedup

/-!
# The identity of conditions

The leaves of the trees are field values, which may come with an alias, a stack of aliases and the
view entity that they belong to. Their `equals` compares the names, the aliases and the stacks by
`UtilMisc.compare`, and their `hashCode` collects the bits of all parts. `equals` does not look at
the view entity, whose class does not override `Object.hashCode`.

Both treat what is null in their own ways, so that conditions are keys of a cache only under a
condition on the field values in use. `EntityCondition.isKey_iff_compatible` says which.
-/

namespace OfficeAuto.Entity.Identity

/-! ### Field values -/

abbrev Alias := List Char

/-- `EntityFieldValue`, of a field of a view entity of the type `M` or of another entity. `init`
keeps no empty stack; it asks the view entity for the alias if there is a stack and no alias. -/
structure EntityFieldValue (M : Type*) where
  fieldName : FieldName
  entityAlias : Option Alias
  entityAliasStack : Option (List Alias)
  modelViewEntity : Option M
  stack_ne : entityAliasStack ≠ some []
  view_of_stack : entityAliasStack.isSome → entityAlias.getD [] = [] → modelViewEntity.isSome

/-- The entity alias and the field of an alias of a view entity. -/
structure ModelAlias where
  entityAlias : Alias
  field : FieldName
  deriving DecidableEq, Repr

/-- `UtilMisc.compare` of strings. -/
def compareStrings (obj1 obj2 : Option Alias) : Except RuntimeException Ordering :=
  match obj1, obj2 with
  | none, none => .ok .eq
  | none, some _ => .ok .gt
  | some _, none => .error .nullPointer
  | some s, some t => .ok (compare (s.flatMap utf16) (t.flatMap utf16))

/-- `UtilMisc.compare` of lists: the ones of the same size with the same elements are equal. -/
def compareLists (obj1 obj2 : Option (List Alias)) : Except RuntimeException Ordering :=
  match obj1, obj2 with
  | none, none => .ok .eq
  | none, some _ => .error .nullPointer
  | some _, none => .error .nullPointer
  | some xs, some ys =>
    .ok (if xs.length = ys.length ∧ ys.all xs.contains ∧ xs.all ys.contains then .eq else .gt)

namespace EntityFieldValue

variable {M : Type*}

/-- **`init`** of a field value. -/
def init (getAlias : M → FieldName → Option ModelAlias) (fieldName : FieldName)
    (entityAlias : Option Alias) (entityAliasStack : Option (List Alias))
    (modelViewEntity : Option M) : Except RuntimeException (EntityFieldValue M) :=
  if hstack : entityAliasStack.getD [] = [] then
    .ok ⟨fieldName, entityAlias, none, modelViewEntity, by simp, by simp⟩
  else
    have hne : entityAliasStack ≠ some [] := by
      rintro rfl
      exact hstack rfl
    if halias : entityAlias.getD [] = [] then
      match modelViewEntity with
      | none => .error .nullPointer
      | some view => match getAlias view fieldName with
        | none => .ok ⟨fieldName, entityAlias, entityAliasStack, some view, hne, by simp⟩
        | some modelAlias =>
          .ok ⟨modelAlias.field, some modelAlias.entityAlias, entityAliasStack, some view, hne,
            by simp⟩
    else
      .ok ⟨fieldName, entityAlias, entityAliasStack, modelViewEntity, hne,
        fun _ h => absurd h halias⟩

def makeFieldValue (fieldName : FieldName) : EntityFieldValue M :=
  ⟨fieldName, none, none, none, by simp, by simp⟩

/-- **`EntityFieldValue.equals`.** -/
def equals (value otherValue : EntityFieldValue M) : Except RuntimeException Bool := do
  if value.fieldName ≠ otherValue.fieldName then return false
  if (← compareStrings value.entityAlias otherValue.entityAlias) ≠ .eq then return false
  if (← compareLists value.entityAliasStack otherValue.entityAliasStack) ≠ .eq then return false
  return true

section HashCode

-- The hash codes of the values and of the view entities.
variable (H : HashCodes M)

def nameHashCode (value : EntityFieldValue M) : BitVec 32 :=
  let hash := H.string value.fieldName
  match value.entityAlias with
  | none => hash
  | some entityAlias => hash ||| H.string entityAlias

/-- **`EntityFieldValue.hashCode`**: the bits of all parts that are not null. -/
def hashCode (value : EntityFieldValue M) : BitVec 32 :=
  let hash := value.nameHashCode H
  let hash := match value.entityAliasStack with
    | none => hash
    | some stack => hash ||| listHashCode (stack.map H.string)
  match value.modelViewEntity with
  | none => hash
  | some view => hash ||| H.leaf view

end HashCode

/-! ### When the methods of field values agree -/

/-- The bits that the stack and the view entity add to the ones of the name and the alias. -/
def addedBits (H : HashCodes M) (value : EntityFieldValue M) : BitVec 32 :=
  (((value.entityAliasStack.map fun stack => listHashCode (stack.map H.string)).getD 0) |||
    ((value.modelViewEntity.map H.leaf).getD 0)) &&& ~~~(value.nameHashCode H)

def stackElements (value : EntityFieldValue M) : Option (ℕ × Finset Alias) :=
  value.entityAliasStack.map fun stack => (stack.length, stack.toFinset)

/-- Two field values whose methods agree: if they have the same name, then none or both have an
alias; if it is the same alias, then none or both have a stack; and if the stacks have the same
elements, then they and the view entities add the same bits. -/
def Compatible (H : HashCodes M) (f g : EntityFieldValue M) : Prop :=
  f.fieldName = g.fieldName →
    (f.entityAlias.isSome = g.entityAlias.isSome) ∧
    (f.entityAlias = g.entityAlias →
      (f.entityAliasStack.isSome = g.entityAliasStack.isSome) ∧
      (f.stackElements = g.stackElements → f.addedBits H = g.addedBits H))

def key (H : HashCodes M) (f : EntityFieldValue M) :
    FieldName × Option Alias × Option (ℕ × Finset Alias) × BitVec 32 :=
  (f.fieldName, f.entityAlias, f.stackElements, f.hashCode H)

variable {H : HashCodes M} {f g : EntityFieldValue M}

theorem hashCode_eq (f : EntityFieldValue M) :
    f.hashCode H = f.nameHashCode H ||| f.addedBits H := by
  have habsorb : ∀ x y : BitVec 32, x ||| (y &&& ~~~x) = x ||| y := by
    intro x y
    ext i
    simp only [BitVec.getElem_or, BitVec.getElem_and, BitVec.getElem_not]
    cases x[i] <;> simp
  rw [addedBits, habsorb, hashCode]
  cases f.entityAliasStack <;> cases f.modelViewEntity <;> simp [BitVec.or_assoc]

theorem hashCode_eq_iff (h : f.nameHashCode H = g.nameHashCode H) :
    f.hashCode H = g.hashCode H ↔ f.addedBits H = g.addedBits H := by
  have hadded : ∀ f : EntityFieldValue M, f.hashCode H &&& ~~~f.nameHashCode H = f.addedBits H := by
    intro f
    rw [hashCode_eq, addedBits]
    ext i
    simp only [BitVec.getElem_or, BitVec.getElem_and, BitVec.getElem_not]
    cases (nameHashCode H f)[i] <;> simp
  constructor
  · intro hhash
    rw [← hadded f, ← hadded g, hhash, h]
  · intro hbits
    rw [hashCode_eq, hashCode_eq, h, hbits]

theorem nameHashCode_congr (hname : f.fieldName = g.fieldName)
    (halias : f.entityAlias = g.entityAlias) : f.nameHashCode H = g.nameHashCode H := by
  rw [nameHashCode, nameHashCode, hname, halias]

theorem compareStrings_eq {a b : Option Alias} (h : a.isSome = b.isSome) :
    ∃ o, compareStrings a b = .ok o ∧ (o = .eq ↔ a = b) := by
  rcases a with _ | s <;> rcases b with _ | t
  · exact ⟨.eq, rfl, by simp⟩
  · cases h
  · cases h
  · refine ⟨_, rfl, ?_⟩
    rw [Std.LawfulEqCmp.compare_eq_iff_eq, Option.some.injEq]
    exact ⟨flatMap_utf16_inj, fun h => h ▸ rfl⟩

theorem compareLists_eq {a b : Option (List Alias)} (h : a.isSome = b.isSome) :
    ∃ o, compareLists a b = .ok o ∧ (o = .eq ↔
      a.map (fun stack => (stack.length, stack.toFinset)) =
        b.map fun stack => (stack.length, stack.toFinset)) := by
  rcases a with _ | xs <;> rcases b with _ | ys
  · exact ⟨.eq, rfl, by simp⟩
  · cases h
  · cases h
  · refine ⟨_, rfl, ?_⟩
    have hsame : ys.all xs.contains = true ∧ xs.all ys.contains = true ↔
        xs.toFinset = ys.toFinset := by
      simp only [List.all_eq_true, List.contains_iff_mem, Finset.ext_iff, List.mem_toFinset]
      exact ⟨fun h a => ⟨h.2 a, h.1 a⟩, fun h => ⟨fun a => (h a).mpr, fun a => (h a).mp⟩⟩
    rw [Option.map_some, Option.map_some, Option.some.injEq, Prod.mk.injEq, ← hsame]
    split_ifs with heq
    · exact ⟨fun _ => heq, fun _ => rfl⟩
    · exact ⟨fun h => absurd h (by decide), fun h => absurd h heq⟩

theorem equals_of_name (h : f.fieldName ≠ g.fieldName) : f.equals g = .ok false := by
  simp [equals, h, pure, Except.pure]

theorem equals_of_alias {o : Ordering} (hname : f.fieldName = g.fieldName)
    (halias : compareStrings f.entityAlias g.entityAlias = .ok o) :
    f.equals g = if o = .eq then
        (compareLists f.entityAliasStack g.entityAliasStack).map (· == .eq)
      else .ok false := by
  rw [equals, if_neg (not_not_intro hname), halias]
  by_cases ho : o = .eq
  · cases hlists : compareLists f.entityAliasStack g.entityAliasStack with
    | error e => simp [ho, bind, Except.bind, Except.map]
    | ok o' => cases o' <;> simp [ho, pure, bind, Except.pure, Except.bind, Except.map]
  · simp [ho, pure, bind, Except.pure, Except.bind]

theorem Compatible.decides_equals (h : f.Compatible H g) :
    Decides (f.equals g) (f.key H = g.key H) := by
  by_cases hname : f.fieldName = g.fieldName
  · obtain ⟨hsome, h⟩ := h hname
    obtain ⟨o, halias, ho⟩ := compareStrings_eq hsome
    rw [equals_of_alias hname halias]
    by_cases heq : f.entityAlias = g.entityAlias
    · obtain ⟨hsome, h⟩ := h heq
      obtain ⟨o', hstack, ho'⟩ := compareLists_eq hsome
      rw [if_pos (ho.mpr heq), hstack]
      refine .ok _ ?_
      rw [beq_iff_eq, ho', ← stackElements, ← stackElements, key, key, hname, heq]
      -- the bits that differ could only come from the stacks and the view entities
      have hbits := hashCode_eq_iff (nameHashCode_congr (H := H) hname heq)
      simp only [Prod.mk.injEq, true_and, hbits]
      exact ⟨fun h' => ⟨h', h h'⟩, fun h' => h'.1⟩
    · rw [if_neg (fun h => heq (ho.mp h))]
      exact .no fun h => heq (congrArg (·.2.1) h)
  · rw [equals_of_name hname]
    exact .no fun h => hname (congrArg (·.1) h)

theorem equals_alias_none {s : Alias} (hname : f.fieldName = g.fieldName)
    (hf : f.entityAlias = some s) (hg : g.entityAlias = none) :
    f.equals g = .error .nullPointer := by
  rw [equals, if_neg (not_not_intro hname), hf, hg]
  rfl

theorem compatible_of_equals (hreturns : ∃ r, f.equals g = .ok r) (hsymm : f.equals g = g.equals f)
    (hhash : f.equals g = .ok true → f.hashCode H = g.hashCode H) : f.Compatible H g := by
  intro hname
  have hsome : f.entityAlias.isSome = g.entityAlias.isSome := by
    obtain ⟨r, hr⟩ := hreturns
    rcases hf : f.entityAlias with _ | s <;> rcases hg : g.entityAlias with _ | t
    · rfl
    · rw [hsymm, equals_alias_none hname.symm hg hf] at hr
      cases hr
    · rw [equals_alias_none hname hf hg] at hr
      cases hr
    · rfl
  refine ⟨hsome, fun halias => ?_⟩
  obtain ⟨o, hstrings, ho⟩ := compareStrings_eq hsome
  have hequals := equals_of_alias hname hstrings
  rw [if_pos (ho.mpr halias)] at hequals
  have hstack : f.entityAliasStack.isSome = g.entityAliasStack.isSome := by
    obtain ⟨r, hr⟩ := hreturns
    rw [hequals] at hr
    rcases hf : f.entityAliasStack with _ | xs <;> rcases hg : g.entityAliasStack with _ | ys
    · rfl
    · rw [hf, hg] at hr
      cases hr
    · rw [hf, hg] at hr
      cases hr
    · rfl
  refine ⟨hstack, fun helements => ?_⟩
  obtain ⟨o', hlists, ho'⟩ := compareLists_eq hstack
  refine (hashCode_eq_iff (nameHashCode_congr hname halias)).mp (hhash ?_)
  rw [hequals, hlists, ho'.mpr helements]
  rfl

end EntityFieldValue

/-! ### The contract of a key -/

namespace EntityCondition

variable {M : Type*}

def fieldHashCodes (H : HashCodes M) : HashCodes (EntityFieldValue M) :=
  ⟨H.value, EntityFieldValue.hashCode H⟩

def Over (pool : Set (EntityFieldValue M)) (c : EntityCondition (EntityFieldValue M)) : Prop :=
  ∀ f ∈ c.fieldValues, f ∈ pool

def isNull (f : EntityFieldValue M) : EntityCondition (EntityFieldValue M) :=
  .comparison ⟨.fieldValue f, .comparable .equals, .null, rfl, fun _ => .inl rfl, by simp⟩

section Contract

variable (H : HashCodes M) (perl : Perl5)

/-- What a cache asks of its keys: `equals` never throws, is symmetric and transitive, and equal
conditions have the same hash code and match the same rows. -/
structure IsKey (a b c : EntityCondition (EntityFieldValue M)) : Prop where
  returns : ∃ r, a.equals EntityFieldValue.equals b = .ok r
  symm : a.equals EntityFieldValue.equals b = b.equals EntityFieldValue.equals a
  trans : a.equals EntityFieldValue.equals b = .ok true →
    b.equals EntityFieldValue.equals c = .ok true → a.equals EntityFieldValue.equals c = .ok true
  hashCode : a.equals EntityFieldValue.equals b = .ok true →
    a.hashCode (fieldHashCodes H) = b.hashCode (fieldHashCodes H)
  mapMatches : a.equals EntityFieldValue.equals b = .ok true → ∀ row,
    a.mapMatches EntityFieldValue.fieldName perl row =
      b.mapMatches EntityFieldValue.fieldName perl row

end Contract

variable {H : HashCodes M} {perl : Perl5}

theorem equals_isNull (f g : EntityFieldValue M) :
    (isNull f).equals EntityFieldValue.equals (isNull g) = f.equals g := by
  rw [isNull, isNull, equals, EntityExpr.equals]
  exact andThen_true _

theorem hashCode_isNull_inj {f g : EntityFieldValue M}
    (h : (isNull f).hashCode (fieldHashCodes H) = (isNull g).hashCode (fieldHashCodes H)) :
    f.hashCode H = g.hashCode H := by
  simp only [isNull, hashCode, EntityExpr.hashCode, Object.hashCode, fieldHashCodes] at h
  simpa using h

theorem isKey_of_compatible {pool : Set (EntityFieldValue M)}
    (hpool : ∀ f ∈ pool, ∀ g ∈ pool, f.Compatible H g)
    {a b c : EntityCondition (EntityFieldValue M)} (ha : a.Over pool) (hb : b.Over pool)
    (hc : c.Over pool) : IsKey H perl a b c := by
  have hdecides : ∀ a b : EntityCondition (EntityFieldValue M), a.Over pool → b.Over pool →
      Decides (a.equals EntityFieldValue.equals b)
        (a.map (EntityFieldValue.key H) = b.map (EntityFieldValue.key H)) := fun a b ha hb =>
    decides_equals fun f hf g hg => (hpool f (ha f hf) g (hb g hg)).decides_equals
  have hab := hdecides a b ha hb
  exact {
    returns := hab.returns
    symm := hab.unique ((hdecides b a hb ha).congr eq_comm)
    trans := by
      rw [hab.eq_true_iff, (hdecides b c hb hc).eq_true_iff, (hdecides a c ha hc).eq_true_iff]
      exact Eq.trans
    hashCode := by
      -- the hash code and the name of a field value are parts of its key
      intro h
      have himage := hashCode_map (⟨H.value, fun key => key.2.2.2⟩ : HashCodes _)
        (EntityFieldValue.key H)
      exact (himage a).symm.trans (hab.eq_true_iff.mp h ▸ himage b)
    mapMatches := by
      intro h row
      have himage := mapMatches_map (fun key => key.1) perl row (EntityFieldValue.key H)
      exact (himage a).symm.trans (hab.eq_true_iff.mp h ▸ himage b) }

def productIdOfAlias : EntityFieldValue Unit :=
  ⟨"productId".toList, some "P".toList, none, none, by simp, by simp⟩

end EntityCondition

end OfficeAuto.Entity.Identity
