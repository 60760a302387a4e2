import Mathlib.Data.List.Perm.Basic
import Mathlib.Data.List.Nodup

/-!
# Objects in a list and in an index

Objects that can be changed are kept twice: in a list, in the order in which they are linked, and in
an index by their names, in which the object of a name that was linked last is. The objects are
those of a memory, and the list and the index have references to it, so that a change shows in both.

Every reference of the index is in the list (`Valid`). The list has other objects too, unless its
names are distinct (`Valid.mem_order_iff`).
-/

/-- A memory with the objects made so far, and their list and their index. -/
structure Registry (N P : Type*) where
  objects : ℕ → P
  count : ℕ
  order : List ℕ
  index : N → Option ℕ

namespace Registry

variable {N P : Type*} {nameOf : P → N} {r : Registry N P}

/-! ### Operations -/

def find (r : Registry N P) (name : N) : Option P := (r.index name).map r.objects

def listed (r : Registry N P) : List P := r.order.map r.objects

def empty (dflt : P) : Registry N P where
  objects _ := dflt
  count := 0
  order := []
  index _ := none

def create (r : Registry N P) (p : P) : Registry N P where
  objects := Function.update r.objects r.count p
  count := r.count + 1
  order := r.order
  index := r.index

def link [DecidableEq N] (nameOf : P → N) (r : Registry N P) (ref : ℕ) : Registry N P where
  objects := r.objects
  count := r.count
  order := r.order ++ [ref]
  index := Function.update r.index (nameOf (r.objects ref)) (some ref)

def add [DecidableEq N] (nameOf : P → N) (r : Registry N P) (p : P) : Registry N P :=
  (r.create p).link nameOf r.count

def modify (r : Registry N P) (ref : ℕ) (f : P → P) : Registry N P where
  objects := Function.update r.objects ref (f (r.objects ref))
  count := r.count
  order := r.order
  index := r.index

def unlist [DecidableEq N] (nameOf : P → N) (r : Registry N P) (name : N) : Registry N P where
  objects := r.objects
  count := r.count
  order := r.order.eraseP fun ref => nameOf (r.objects ref) = name
  index := r.index

/-! ### Registries that are built up -/

/-- The references lead to objects, and the index to listed objects of the name. -/
structure Valid (nameOf : P → N) (r : Registry N P) : Prop where
  lt_count : ∀ ref ∈ r.order, ref < r.count
  mem_order : ∀ name ref, r.index name = some ref → ref ∈ r.order
  nameOf_eq : ∀ name ref, r.index name = some ref → nameOf (r.objects ref) = name
  index_ne_none : ∀ ref ∈ r.order, r.index (nameOf (r.objects ref)) ≠ none

theorem valid_empty (dflt : P) : Valid nameOf (empty dflt : Registry N P) where
  lt_count _ h := absurd h List.not_mem_nil
  mem_order _ _ h := nomatch h
  nameOf_eq _ _ h := nomatch h
  index_ne_none _ h := absurd h List.not_mem_nil

/-- **Distinct names**: the list has what the index has, and nothing else. -/
theorem Valid.mem_order_iff (h : Valid nameOf r) (hnodup : (r.listed.map nameOf).Nodup) (ref : ℕ) :
    ref ∈ r.order ↔ ∃ name, r.index name = some ref := by
  constructor
  · intro hmem
    obtain ⟨ref', hindex⟩ := Option.ne_none_iff_exists'.mp (h.index_ne_none ref hmem)
    have hmem' := h.mem_order _ _ hindex
    have hname := h.nameOf_eq _ _ hindex
    rw [listed, List.map_map] at hnodup
    have heq : ref' = ref := List.inj_on_of_nodup_map hnodup hmem' hmem hname
    exact ⟨_, heq ▸ hindex⟩
  · rintro ⟨name, hindex⟩
    exact h.mem_order name ref hindex

theorem Valid.mem_listed_iff (h : Valid nameOf r) (hnodup : (r.listed.map nameOf).Nodup) (p : P) :
    p ∈ r.listed ↔ r.find (nameOf p) = some p := by
  rw [listed, List.mem_map, find, Option.map_eq_some_iff]
  constructor
  · rintro ⟨ref, hmem, rfl⟩
    obtain ⟨name, hindex⟩ := (h.mem_order_iff hnodup ref).mp hmem
    exact ⟨ref, h.nameOf_eq name ref hindex ▸ hindex, rfl⟩
  · rintro ⟨ref, hindex, rfl⟩
    exact ⟨ref, h.mem_order _ _ hindex, rfl⟩

/-! ### The names in the list -/

def names (nameOf : P → N) (r : Registry N P) : List N := r.listed.map nameOf

theorem Valid.mem_names_iff (h : Valid nameOf r) (name : N) :
    name ∈ r.names nameOf ↔ ∃ ref, r.index name = some ref := by
  rw [names, listed, List.map_map, List.mem_map]
  constructor
  · rintro ⟨ref, hmem, rfl⟩
    exact Option.ne_none_iff_exists'.mp (h.index_ne_none ref hmem)
  · rintro ⟨ref, hindex⟩
    exact ⟨ref, h.mem_order name ref hindex, h.nameOf_eq name ref hindex⟩

/-! ### The operations keep them so -/

theorem objects_create (r : Registry N P) (p : P) (ref : ℕ) :
    (r.create p).objects ref = if ref = r.count then p else r.objects ref :=
  Function.update_apply r.objects _ _ _

theorem objects_modify (r : Registry N P) (ref : ℕ) (f : P → P) (ref' : ℕ) :
    (r.modify ref f).objects ref' = if ref' = ref then f (r.objects ref) else r.objects ref' :=
  Function.update_apply r.objects _ _ _

theorem Valid.objects_create (h : Valid nameOf r) (p : P) {ref : ℕ} (hmem : ref ∈ r.order) :
    (r.create p).objects ref = r.objects ref := by
  rw [Registry.objects_create, if_neg (Nat.ne_of_lt (h.lt_count ref hmem))]

theorem Valid.create (h : Valid nameOf r) (p : P) : Valid nameOf (r.create p) := by
  refine ⟨fun ref hmem => Nat.lt_succ_of_lt (h.lt_count ref hmem), h.mem_order, ?_, ?_⟩
  · intro name ref hindex
    rw [h.objects_create p (h.mem_order name ref hindex)]
    exact h.nameOf_eq name ref hindex
  · intro ref hmem
    rw [h.objects_create p hmem]
    exact h.index_ne_none ref hmem

theorem nameOf_modify {f : P → P} (hf : ∀ p, nameOf (f p) = nameOf p) (ref ref' : ℕ) :
    nameOf ((r.modify ref f).objects ref') = nameOf (r.objects ref') := by
  rw [objects_modify]
  split_ifs with heq
  · rw [heq, hf]
  · rfl

theorem Valid.modify (h : Valid nameOf r) {f : P → P} (hf : ∀ p, nameOf (f p) = nameOf p)
    (ref : ℕ) : Valid nameOf (r.modify ref f) := by
  refine ⟨h.lt_count, h.mem_order, ?_, ?_⟩
  · intro name ref' hindex
    rw [nameOf_modify hf]
    exact h.nameOf_eq name ref' hindex
  · intro ref' hmem
    rw [nameOf_modify hf]
    exact h.index_ne_none ref' hmem

theorem names_modify {f : P → P} (hf : ∀ p, nameOf (f p) = nameOf p) (r : Registry N P)
    (ref : ℕ) : (r.modify ref f).names nameOf = r.names nameOf := by
  rw [names, names, listed, listed, List.map_map, List.map_map]
  exact List.map_congr_left fun ref' _ => nameOf_modify hf ref ref'

variable [DecidableEq N]

theorem index_link (r : Registry N P) (ref : ℕ) (name : N) :
    (r.link nameOf ref).index name =
      if name = nameOf (r.objects ref) then some ref else r.index name :=
  Function.update_apply r.index _ _ _

theorem Valid.link (h : Valid nameOf r) {ref : ℕ} (hlt : ref < r.count) :
    Valid nameOf (r.link nameOf ref) := by
  refine ⟨?_, ?_, ?_, ?_⟩
  · intro ref' hmem
    rcases List.mem_append.mp hmem with hmem | hmem
    · exact h.lt_count ref' hmem
    · exact List.mem_singleton.mp hmem ▸ hlt
  · intro name ref' hindex
    rw [index_link] at hindex
    split_ifs at hindex with hname
    · exact List.mem_append_right _ (Option.some.inj hindex ▸ List.mem_singleton_self ref)
    · exact List.mem_append_left _ (h.mem_order name ref' hindex)
  · intro name ref' hindex
    rw [index_link] at hindex
    split_ifs at hindex with hname
    · exact hname.symm ▸ congrArg (fun ref => nameOf (r.objects ref)) (Option.some.inj hindex).symm
    · exact h.nameOf_eq name ref' hindex
  · intro ref' hmem
    rw [index_link]
    split_ifs with hname
    · exact Option.some_ne_none ref
    · rcases List.mem_append.mp hmem with hmem | hmem
      · exact h.index_ne_none ref' hmem
      · exact absurd (congrArg (fun ref => nameOf (r.objects ref)) (List.mem_singleton.mp hmem))
          hname

theorem Valid.add (h : Valid nameOf r) (p : P) : Valid nameOf (r.add nameOf p) :=
  (h.create p).link (Nat.lt_succ_self r.count)

theorem Valid.unlist_link (h : Valid nameOf r) {name : N} {ref : ℕ}
    (hindex : r.index name = some ref) : Valid nameOf ((r.unlist nameOf name).link nameOf ref) := by
  have hmem := h.mem_order name ref hindex
  have hname := h.nameOf_eq name ref hindex
  have hsame : ∀ name', ((r.unlist nameOf name).link nameOf ref).index name' = r.index name' := by
    intro name'
    rw [index_link]
    split_ifs with heq
    · rw [heq, Registry.unlist, hname, hindex]
    · rfl
  have hsub : ∀ ref' ∈ ((r.unlist nameOf name).link nameOf ref).order, ref' ∈ r.order := by
    intro ref' hmem'
    rcases List.mem_append.mp hmem' with hmem' | hmem'
    · exact List.mem_of_mem_eraseP hmem'
    · exact List.mem_singleton.mp hmem' ▸ hmem
  refine ⟨fun ref' hmem' => h.lt_count ref' (hsub ref' hmem'), ?_, ?_, ?_⟩
  · intro name' ref' hindex'
    rw [hsame] at hindex'
    by_cases heq : name' = name
    · rw [heq, hindex] at hindex'
      exact List.mem_append_right _ (Option.some.inj hindex' ▸ List.mem_singleton_self ref)
    · refine List.mem_append_left _ ?_
      have hother : nameOf (r.objects ref') ≠ name :=
        fun hother => heq ((h.nameOf_eq name' ref' hindex').symm.trans hother)
      exact (List.mem_eraseP_of_neg (by simpa using hother)).mpr (h.mem_order name' ref' hindex')
  · intro name' ref' hindex'
    rw [hsame] at hindex'
    exact h.nameOf_eq name' ref' hindex'
  · intro ref' hmem'
    rw [hsame]
    exact h.index_ne_none ref' (hsub ref' hmem')

/-! ### What is found -/

theorem Valid.find_add (h : Valid nameOf r) (p : P) (name : N) :
    (r.add nameOf p).find name = if name = nameOf p then some p else r.find name := by
  have hnew : (r.create p).objects r.count = p := by
    rw [Registry.objects_create, if_pos rfl]
  rw [find, Registry.add, index_link, hnew]
  split_ifs with hname
  · exact congrArg some hnew
  · rw [find]
    refine Option.map_congr fun ref hindex => ?_
    exact h.objects_create p (h.mem_order name ref hindex)

theorem Valid.find_modify (h : Valid nameOf r) {name : N} {ref : ℕ}
    (hindex : r.index name = some ref) (f : P → P) (name' : N) :
    (r.modify ref f).find name' = if name' = name then (r.find name).map f else r.find name' := by
  rw [find]
  split_ifs with hname
  · have hself : (r.modify ref f).index name' = some ref := hname ▸ hindex
    rw [hself, find, hindex, Option.map_some, Option.map_some, Option.map_some, objects_modify,
      if_pos rfl]
  · refine Option.map_congr fun ref' hindex' => ?_
    have hne : ref' ≠ ref := by
      rintro rfl
      exact hname ((h.nameOf_eq name' ref' hindex').symm.trans (h.nameOf_eq name ref' hindex))
    rw [objects_modify, if_neg hne]

theorem Valid.find_link (h : Valid nameOf r) {name : N} {ref : ℕ}
    (hindex : r.index name = some ref) (name' : N) :
    (r.link nameOf ref).find name' = r.find name' := by
  have hsame : (r.link nameOf ref).index name' = r.index name' := by
    rw [index_link]
    split_ifs with heq
    · rw [heq, h.nameOf_eq name ref hindex, hindex]
    · rfl
  rw [find, hsame]
  rfl

theorem Valid.find_unlist_link (h : Valid nameOf r) {name : N} {ref : ℕ}
    (hindex : r.index name = some ref) (name' : N) :
    ((r.unlist nameOf name).link nameOf ref).find name' = r.find name' := by
  rw [← h.find_link hindex name']
  rfl

theorem unlist_modify {f : P → P} (hf : ∀ p, nameOf (f p) = nameOf p) (r : Registry N P)
    (name : N) (ref : ℕ) :
    (r.unlist nameOf name).modify ref f = (r.modify ref f).unlist nameOf name := by
  have hnames : (fun ref' => decide (nameOf ((r.modify ref f).objects ref') = name)) =
      fun ref' => decide (nameOf (r.objects ref') = name) := by
    funext ref'
    rw [nameOf_modify hf]
  rw [unlist, unlist, hnames]
  rfl

/-- **Changes one after the other**, of which each changes what is found of one name. -/
theorem Valid.find_foldl {α : Type*} (step : Registry N P → α → Registry N P) (key : α → N)
    (change : α → Option P → Option P)
    (hstep : ∀ r a, Valid nameOf r → Valid nameOf (step r a) ∧ ∀ name,
      (step r a).find name = if name = key a then change a (r.find name) else r.find name)
    (as : List α) (h : Valid nameOf r) :
    Valid nameOf (as.foldl step r) ∧ ∀ name, (as.foldl step r).find name =
      (as.filter fun a => key a = name).foldl (fun p a => change a p) (r.find name) := by
  induction as generalizing r with
  | nil => exact ⟨h, fun _ => rfl⟩
  | cons a as ih =>
    obtain ⟨hvalid, hfind⟩ := hstep r a h
    obtain ⟨hvalid', hfind'⟩ := ih hvalid
    refine ⟨hvalid', fun name => ?_⟩
    rw [List.foldl_cons, hfind', hfind, List.filter_cons]
    by_cases hname : key a = name
    · rw [if_pos hname.symm, if_pos (decide_eq_true hname), List.foldl_cons]
    · rw [if_neg (Ne.symm hname), if_neg (mt of_decide_eq_true hname)]

/-! ### What is listed -/

theorem Valid.names_add (h : Valid nameOf r) (p : P) :
    (r.add nameOf p).names nameOf = r.names nameOf ++ [nameOf p] := by
  have hnew : (r.create p).objects r.count = p := by
    rw [Registry.objects_create, if_pos rfl]
  have hold : r.order.map (r.create p).objects = r.order.map r.objects :=
    List.map_congr_left fun ref hmem => h.objects_create p hmem
  rw [names, listed, Registry.add, Registry.link, List.map_append, List.map_append]
  change (r.order.map (r.create p).objects).map nameOf ++ [nameOf ((r.create p).objects r.count)] =
    _
  rw [hold, hnew, names, listed]

theorem names_link (r : Registry N P) (ref : ℕ) :
    (r.link nameOf ref).names nameOf = r.names nameOf ++ [nameOf (r.objects ref)] := by
  rw [names, listed, link, List.map_append, List.map_append]
  rfl

theorem names_unlist (r : Registry N P) (name : N) :
    (r.unlist nameOf name).names nameOf = (r.names nameOf).erase name := by
  rw [names, names, listed, listed, List.map_map, List.map_map, List.erase_eq_eraseP,
    List.eraseP_map]
  refine congrArg (List.map _) (congrArg (fun q => List.eraseP q r.order) (funext fun ref => ?_))
  rw [Bool.eq_iff_iff, decide_eq_true_eq, Function.comp_apply, beq_iff_eq, eq_comm]
  rfl

end Registry
