import OfficeAuto.Base.MapContext

/-!
# Map contexts that share their maps

Map contexts share maps: `standAloneStack` and `createMapContext` copy the stack and not the
maps, and any map can be pushed. Here the maps are objects of a `Heap`, and `tree` reads one of
them, down to a depth, as its views do.

A write goes to the map on top of the stack, or on top of its stack, and so on. A put is an
`insert` in the single map of the object, whatever its maps are shared with (`overlay_put`). A
map that is pushed, put into and popped leaves no trace in the objects that do not share what was
written (`tree_pushPutsPop`), unless the stack was empty: `pop` always leaves a map in it.
-/

namespace OfficeAuto.Base

variable {K V : Type*}

/-! ### Objects and writes -/

/-- An object: a hash map, or a map context with the references of its stack. -/
inductive MapObject (K V : Type*)
  | hashMap (entries : Entries K V)
  | mapContext (stackList : List ℕ)

def MapObject.members : MapObject K V → List ℕ
  | hashMap _ => []
  | mapContext stackList => stackList

/-- The objects by their references; none is held that does not exist. -/
structure Heap (K V : Type*) where
  objects : List (MapObject K V)
  closed : ∀ o ∈ objects, ∀ r ∈ o.members, r < objects.length

namespace Heap

def stackOf (h : Heap K V) (r : ℕ) : Option (List ℕ) :=
  match h.objects[r]? with
  | some (.mapContext stackList) => some stackList
  | _ => none

theorem stackOf_eq_some {h : Heap K V} {r : ℕ} {stackList : List ℕ} :
    h.stackOf r = some stackList ↔ h.objects[r]? = some (.mapContext stackList) := by
  unfold stackOf
  split
  · rename_i heq
    simp [heq]
  · rename_i hne
    exact iff_of_false (by simp) fun heq => hne stackList heq

theorem lt_of_mem_stackOf {h : Heap K V} {r : ℕ} {stackList : List ℕ}
    (hs : h.stackOf r = some stackList) : ∀ m ∈ stackList, m < h.objects.length :=
  h.closed _ (List.mem_of_getElem? (stackOf_eq_some.mp hs))

def set (h : Heap K V) (r : ℕ) (o : MapObject K V) (ho : ∀ m ∈ o.members, m < h.objects.length) :
    Heap K V where
  objects := h.objects.set r o
  closed o' ho' := by
    rw [List.length_set]
    rcases List.mem_or_eq_of_mem_set ho' with hold | rfl
    · exact h.closed o' hold
    · exact ho

def alloc (h : Heap K V) : Heap K V where
  objects := h.objects ++ [.hashMap ∅]
  closed o ho m hm := by
    rw [List.length_append]
    rcases List.mem_append.mp ho with hold | hnew
    · exact Nat.lt_add_right _ (h.closed o hold m hm)
    · rw [List.mem_singleton.mp hnew] at hm
      exact absurd hm List.not_mem_nil

/-- The hash map that a write goes to: the map on top of the stack, or on top of its stack, and
so on. There is none if a stack is empty, or if the recursion is deeper than `n`. -/
def top (h : Heap K V) : ℕ → ℕ → Option ℕ
  | 0, _ => none
  | n + 1, r =>
    match h.objects[r]? with
    | some (.hashMap _) => some r
    | some (.mapContext (currentMap :: _)) => h.top n currentMap
    | _ => none

/-- The entries that a write goes to, with the heap after it; `none` is an exception. -/
def write (h : Heap K V) (n r : ℕ) (f : Entries K V → Entries K V) :
    Option (Entries K V × Heap K V) :=
  match h.top n r with
  | none => none
  | some p =>
    match h.objects[p]? with
    | some (.hashMap entries) => some (entries, h.set p (.hashMap (f entries)) fun _ hm =>
        absurd hm List.not_mem_nil)
    | _ => none

def pushMap (h : Heap K V) (r existingMap : ℕ) : Option (Heap K V) :=
  match hs : h.stackOf r with
  | none => none
  | some stackList =>
    if hmap : existingMap < h.objects.length then
      some (h.set r (.mapContext (existingMap :: stackList))
        (List.forall_mem_cons.mpr ⟨hmap, lt_of_mem_stackOf hs⟩))
    else none

def push (h : Heap K V) (r : ℕ) : Option (Heap K V) :=
  h.alloc.pushMap r h.objects.length

def pop (h : Heap K V) (r : ℕ) : Option (Option ℕ × Heap K V) :=
  match hs : h.stackOf r with
  | some (first :: second :: rest) =>
    some (some first, h.set r (.mapContext (second :: rest)) fun m hm =>
      lt_of_mem_stackOf hs m (List.mem_cons_of_mem _ hm))
  | some _ => some (none, h)
  | none => none

variable [DecidableEq K]

def put (h : Heap K V) (n r : ℕ) (key : K) (value : Option V) : Option (Option V × Heap K V) :=
  (h.write n r fun entries => entries.insert key value).map fun w => ((w.1.lookup key).join, w.2)

def remove (h : Heap K V) (n r : ℕ) (key : K) : Option (Option V × Heap K V) :=
  (h.write n r fun entries => entries.erase key).map fun w => ((w.1.lookup key).join, w.2)

end Heap

/-- The operations on an object. -/
inductive MapOp (K V : Type*)
  | put (key : K) (value : Option V)
  | remove (key : K)
  | push
  | pushMap (existingMap : ℕ)
  | pop

namespace Heap

section Runs

variable [DecidableEq K]

/-- An operation on the object `r`; one that throws leaves the heap as it is. -/
def exec (h : Heap K V) (n r : ℕ) : MapOp K V → Heap K V
  | .put key value => (h.put n r key value).elim h Prod.snd
  | .remove key => (h.remove n r key).elim h Prod.snd
  | .push => (h.push r).getD h
  | .pushMap existingMap => (h.pushMap r existingMap).getD h
  | .pop => (h.pop r).elim h Prod.snd

def run (h : Heap K V) (n : ℕ) (ops : List (ℕ × MapOp K V)) : Heap K V :=
  ops.foldl (fun h op => h.exec n op.1 op.2) h

end Runs

/-! ### Objects as trees -/

def trees (f : ℕ → Option (MapTree K V)) : List ℕ → Option (List (MapTree K V))
  | [] => some []
  | r :: rs => (f r).bind fun t => (trees f rs).map (t :: ·)

def tree (h : Heap K V) : ℕ → ℕ → Option (MapTree K V)
  | 0, _ => none
  | d + 1, r =>
    match h.objects[r]? with
    | some (.hashMap entries) => some (.hashMap entries)
    | some (.mapContext stackList) => (trees (h.tree d) stackList).map .mapContext
    | none => none

/-! ### What an object depends on -/

def IsMember (h : Heap K V) (m r : ℕ) : Prop :=
  ∃ stackList, h.stackOf r = some stackList ∧ m ∈ stackList

/-- The objects below an object: itself, the members of its stack, of theirs, and so on. -/
def Below (h : Heap K V) : ℕ → ℕ → Prop :=
  Relation.ReflTransGen h.IsMember

theorem lt_of_below {h : Heap K V} {q r : ℕ} (hqr : h.Below q r) (hr : r < h.objects.length) :
    q < h.objects.length := by
  induction hqr with
  | refl => exact hr
  | tail _ hmem ih =>
    obtain ⟨stackList, hs, hm⟩ := hmem
    exact ih (lt_of_mem_stackOf hs _ hm)

theorem trees_congr {f g : ℕ → Option (MapTree K V)} {rs : List ℕ} (h : ∀ r ∈ rs, f r = g r) :
    trees f rs = trees g rs := by
  induction rs with
  | nil => rfl
  | cons r rs ih =>
    rw [List.forall_mem_cons] at h
    rw [trees, trees, h.1, ih h.2]

theorem tree_congr {h h' : Heap K V} (d : ℕ) {r : ℕ}
    (heq : ∀ q, h.Below q r → h'.objects[q]? = h.objects[q]?) : h'.tree d r = h.tree d r := by
  induction d generalizing r with
  | zero => rfl
  | succ d ih =>
    rw [tree, tree, heq r .refl]
    cases ho : h.objects[r]? with
    | none => rfl
    | some o =>
      cases o with
      | hashMap entries => rfl
      | mapContext stackList =>
        have hmembers : trees (h'.tree d) stackList = trees (h.tree d) stackList :=
          trees_congr fun m hm => ih fun q hq =>
            heq q (.tail hq ⟨stackList, stackOf_eq_some.mpr ho, hm⟩)
        simp only [hmembers]

def shape (h : Heap K V) (r : ℕ) : Option (Option (List ℕ)) :=
  h.objects[r]?.map fun o =>
    match o with
    | .hashMap _ => none
    | .mapContext stackList => some stackList

theorem top_eq (h : Heap K V) (n r : ℕ) :
    h.top (n + 1) r =
      match h.shape r with
      | some none => some r
      | some (some (currentMap :: _)) => h.top n currentMap
      | _ => none := by
  rw [top, shape]
  rcases h.objects[r]? with _ | ⟨_ | ⟨_ | ⟨currentMap, rest⟩⟩⟩ <;> rfl

theorem shape_of_stackOf {h : Heap K V} {r : ℕ} {stackList : List ℕ}
    (hs : h.stackOf r = some stackList) : h.shape r = some (some stackList) := by
  rw [shape, stackOf_eq_some.mp hs]
  rfl

theorem isMember_of_shape {h : Heap K V} {m r : ℕ} {rest : List ℕ}
    (hs : h.shape r = some (some (m :: rest))) : h.IsMember m r := by
  refine ⟨m :: rest, ?_, List.mem_cons_self⟩
  rw [stackOf_eq_some]
  revert hs
  unfold shape
  rcases h.objects[r]? with _ | ⟨_ | _⟩ <;> simp

theorem top_congr {h h' : Heap K V} (n : ℕ) {r : ℕ}
    (heq : ∀ q, h.Below q r → h'.shape q = h.shape q) : h'.top n r = h.top n r := by
  induction n generalizing r with
  | zero => rfl
  | succ n ih =>
    rw [top_eq, top_eq, heq r .refl]
    split
    · rfl
    · rename_i currentMap rest hs
      -- the top of a context is that of its first member, and what is below that is below it
      exact ih fun q hq => heq q (.tail hq (isMember_of_shape hs))
    · rfl

theorem below_top {h : Heap K V} {n r p : ℕ} (htop : h.top n r = some p) : h.Below p r := by
  induction n generalizing r with
  | zero => simp [top] at htop
  | succ n ih =>
    rw [top_eq] at htop
    split at htop
    · exact Option.some.inj htop ▸ .refl
    · rename_i currentMap rest hs
      exact .tail (ih htop) (isMember_of_shape hs)
    · simp at htop

/-! ### A map that is pushed, put into and popped -/

section PushPop

variable {h h' : Heap K V} {c m n : ℕ} {stackList : List ℕ}

def IsPushed (h h' : Heap K V) (c m n : ℕ) (stackList : List ℕ) : Prop :=
  ∃ objects : List (MapObject K V),
    h'.objects = objects.set c (.mapContext (m :: stackList)) ∧
      (objects = h.objects ∨ ∃ p old new, h.top (n - 1) m = some p ∧
        h.objects[p]? = some (.hashMap old) ∧ objects = h.objects.set p (.hashMap new))

theorem isPushed_pushMap (hs : h.stackOf c = some stackList) (hm : m < h.objects.length)
    (n : ℕ) : ∃ h', h.pushMap c m = some h' ∧ IsPushed h h' c m n stackList := by
  unfold pushMap
  split
  · rename_i hnone
    exact absurd (hnone.symm.trans hs) (by simp)
  · rename_i stackList' heq
    obtain rfl : stackList = stackList' := Option.some.inj (hs.symm.trans heq)
    rw [dif_pos hm]
    exact ⟨_, rfl, h.objects, rfl, .inl rfl⟩

theorem shape_of_isPushed
    (hp : IsPushed h h' c m n stackList) {q : ℕ} (hqc : q ≠ c) : h'.shape q = h.shape q := by
  obtain ⟨objects, hobjects, rfl | ⟨p, old, new, -, hold, rfl⟩⟩ := hp
  · rw [shape, hobjects, List.getElem?_set_ne (Ne.symm hqc), shape]
  · rw [shape, hobjects, List.getElem?_set_ne (Ne.symm hqc), shape]
    by_cases hqp : q = p
    · subst hqp
      rw [List.getElem?_set_self (List.getElem?_eq_some_iff.mp hold).1, hold]
      rfl
    · rw [List.getElem?_set_ne (Ne.symm hqp)]

theorem stackOf_of_isPushed (hs : h.stackOf c = some stackList)
    (hp : IsPushed h h' c m n stackList) : h'.stackOf c = some (m :: stackList) := by
  have hc := (List.getElem?_eq_some_iff.mp (stackOf_eq_some.mp hs)).1
  obtain ⟨objects, hobjects, rfl | ⟨p, old, new, -, -, rfl⟩⟩ := hp <;>
    simp [stackOf_eq_some, hobjects, hc]

theorem isPushed_write (hs : h.stackOf c = some stackList) (hcm : ¬ h.Below c m)
    (hp : IsPushed h h' c m n stackList) (f : Entries K V → Entries K V) :
    ∀ w ∈ h'.write n c f, IsPushed h w.2 c m n stackList := by
  intro w hw
  rcases n with _ | n
  · simp [write, top] at hw
  have htop : h'.top (n + 1) c = h.top n m := by
    rw [top_eq, shape_of_stackOf (stackOf_of_isPushed hs hp)]
    refine top_congr n fun q hq => shape_of_isPushed hp fun hqc => hcm (hqc ▸ hq)
  unfold write at hw
  rw [htop] at hw
  split at hw
  · simp at hw
  rename_i p hpm
  have hpc : p ≠ c := fun hpc => hcm (hpc ▸ below_top hpm)
  split at hw
  · rename_i entries hentries
    obtain rfl := Option.mem_some_iff.mp hw
    obtain ⟨objects, hobjects, rfl | ⟨p', old, new, hpm', hold, rfl⟩⟩ := hp
    · refine ⟨h.objects.set p (.hashMap (f entries)), ?_, .inr ⟨p, entries, _, hpm, ?_, rfl⟩⟩
      · simp only [set]
        rw [hobjects, List.set_comm _ _ hpc.symm]
      · rwa [hobjects, List.getElem?_set_ne hpc.symm] at hentries
    · obtain rfl : p' = p := Option.some.inj (hpm'.symm.trans hpm)
      refine ⟨h.objects.set p' (.hashMap (f entries)), ?_, .inr ⟨p', old, _, hpm, hold, rfl⟩⟩
      simp only [set]
      rw [hobjects, List.set_comm _ _ hpc.symm, List.set_set]
  · simp at hw

theorem isPushed_puts [DecidableEq K] (hs : h.stackOf c = some stackList) (hcm : ¬ h.Below c m)
    (hp : IsPushed h h' c m n stackList) (puts : List (K × Option V)) :
    IsPushed h (h'.run n (puts.map fun e => (c, .put e.1 e.2))) c m n stackList := by
  induction puts generalizing h' with
  | nil => exact hp
  | cons e puts ih =>
    have hnext : IsPushed h (h'.exec n c (.put e.1 e.2)) c m n stackList := by
      cases hw : h'.write n c fun entries => entries.insert e.1 e.2 with
      | none => simpa [exec, put, hw] using hp
      | some w => simpa [exec, put, hw] using isPushed_write hs hcm hp _ w hw
    exact ih hnext

theorem objects_pop (hs : h.stackOf c = some stackList) (hne : stackList ≠ [])
    (hcm : ¬ h.Below c m) (hp : IsPushed h h' c m n stackList) :
    ∃ h'', h'.pop c = some (some m, h'') ∧
      (h''.objects = h.objects ∨ ∃ p new, h.Below p m ∧
        h''.objects = h.objects.set p (.hashMap new)) := by
  obtain ⟨hc, hget⟩ := List.getElem?_eq_some_iff.mp (stackOf_eq_some.mp hs)
  have hs' := stackOf_of_isPushed hs hp
  obtain ⟨second, rest, rfl⟩ := List.exists_cons_of_ne_nil hne
  unfold pop
  split
  · rename_i first' second' rest' heq
    obtain ⟨rfl, rfl, rfl⟩ : m = first' ∧ second = second' ∧ rest = rest' := by
      simpa using hs'.symm.trans heq
    refine ⟨_, rfl, ?_⟩
    obtain ⟨objects, hobjects, rfl | ⟨p, old, new, hpm, hold, rfl⟩⟩ := hp
    · refine .inl ?_
      simp only [set]
      rw [hobjects, List.set_set, ← hget, List.set_getElem_self]
    · have hpc : p ≠ c := fun hpc => hcm (hpc ▸ below_top hpm)
      refine .inr ⟨p, new, below_top hpm, ?_⟩
      simp only [set]
      rw [hobjects, List.set_set, List.set_comm _ _ hpc, ← hget, List.set_getElem_self]
  · rename_i hshort heq
    exact absurd (heq.symm.trans hs') (fun h => hshort _ _ _ (Option.some.inj h))
  · rename_i heq
    exact absurd (heq.symm.trans hs') (by simp)

def pushPutsPop (c : ℕ) (first : MapOp K V) (puts : List (K × Option V)) :
    List (ℕ × MapOp K V) :=
  (c, first) :: puts.map (fun e => (c, .put e.1 e.2)) ++ [(c, .pop)]

theorem tree_pushMapPutsPop [DecidableEq K] (hs : h.stackOf c = some stackList)
    (hne : stackList ≠ []) (hm : m < h.objects.length) (hcm : ¬ h.Below c m) (n : ℕ)
    (puts : List (K × Option V)) (d : ℕ) {r : ℕ}
    (hr : ∀ q, h.Below q m → ¬ h.Below q r) :
    (h.run n (pushPutsPop c (.pushMap m) puts)).tree d r = h.tree d r := by
  obtain ⟨h₁, hpush, hp⟩ := isPushed_pushMap hs hm n
  obtain ⟨h₂, hpop, hobjects⟩ := objects_pop hs hne hcm (isPushed_puts hs hcm hp puts)
  have hrun : h.run n (pushPutsPop c (.pushMap m) puts) = h₂ := by
    have hfirst : h.exec n c (.pushMap m) = h₁ := by simp [exec, hpush]
    have hlast : (h₁.run n (puts.map fun e => (c, .put e.1 e.2))).exec n c .pop = h₂ := by
      simp [exec, hpop]
    simp only [run, pushPutsPop, List.cons_append, List.foldl_cons, List.foldl_append,
      List.foldl_nil, hfirst]
    exact hlast
  rw [hrun]
  refine tree_congr d fun q hq => ?_
  obtain heq | ⟨p, new, hpm, heq⟩ := hobjects
  · rw [heq]
  · have hpq : p ≠ q := fun hpq => hr q (hpq ▸ hpm) hq
    rw [heq, List.getElem?_set_ne hpq]

theorem getElem?_alloc {q : ℕ} (hq : q < h.objects.length) :
    h.alloc.objects[q]? = h.objects[q]? := by
  rw [alloc, List.getElem?_append_left hq]

theorem stackOf_alloc {q : ℕ} (hq : q < h.objects.length) : h.alloc.stackOf q = h.stackOf q := by
  rw [stackOf, stackOf, getElem?_alloc hq]

theorem below_of_alloc {q r : ℕ} (hqr : h.alloc.Below q r) (hr : r < h.objects.length) :
    h.Below q r := by
  induction hqr with
  | refl => exact .refl
  | tail _ hmem ih =>
    obtain ⟨stackList, hs, hm⟩ := hmem
    rw [stackOf_alloc hr] at hs
    exact .tail (ih (lt_of_mem_stackOf hs _ hm)) ⟨stackList, hs, hm⟩

theorem eq_of_below_alloc {q : ℕ} (hq : h.alloc.Below q h.objects.length) :
    q = h.objects.length := by
  obtain heq | ⟨_, _, stackList, hs, -⟩ := Relation.ReflTransGen.cases_tail hq
  · exact heq.symm
  · simp [stackOf, alloc] at hs

/-- **A new map leaves no trace** once it is popped, in any object. -/
theorem tree_pushPutsPop [DecidableEq K] (hs : h.stackOf c = some stackList)
    (hne : stackList ≠ []) (n : ℕ) (puts : List (K × Option V)) (d : ℕ) {r : ℕ}
    (hr : r < h.objects.length) :
    (h.run n (pushPutsPop c .push puts)).tree d r = h.tree d r := by
  have hc := (List.getElem?_eq_some_iff.mp (stackOf_eq_some.mp hs)).1
  have hs' : h.alloc.stackOf c = some stackList := (stackOf_alloc hc).trans hs
  have hnew {q r : ℕ} (hq : h.alloc.Below q h.objects.length) (hr : r < h.objects.length) :
      ¬ h.alloc.Below q r := fun hqr =>
    absurd (lt_of_below (below_of_alloc hqr hr) hr) (eq_of_below_alloc hq ▸ lt_irrefl _)
  have hlt : h.objects.length < h.alloc.objects.length := by simp [alloc]
  have hrun : h.run n (pushPutsPop c .push puts) =
      h.alloc.run n (pushPutsPop c (.pushMap h.objects.length) puts) := by
    obtain ⟨h₁, hpush, -⟩ := isPushed_pushMap hs' hlt n
    have hfirst : h.exec n c .push = h.alloc.exec n c (.pushMap h.objects.length) := by
      simp [exec, push, hpush]
    simp only [run, pushPutsPop, List.cons_append, List.foldl_cons, hfirst]
  have hcnew : ¬ h.alloc.Below c h.objects.length := fun h =>
    absurd (eq_of_below_alloc h) hc.ne
  rw [hrun, tree_pushMapPutsPop hs' hne hlt hcnew n puts d fun q hq => hnew hq hr]
  exact tree_congr d fun q hq => getElem?_alloc (lt_of_below hq hr)

end PushPop

/-! ### What a put does -/

theorem trees_rel {R : MapTree K V → MapTree K V → Prop} {f g : ℕ → Option (MapTree K V)}
    {rs : List ℕ} {ts : List (MapTree K V)}
    (hfg : ∀ r ∈ rs, ∀ t, f r = some t → ∃ t', g r = some t' ∧ R t t') (h : trees f rs = some ts) :
    ∃ ts', trees g rs = some ts' ∧ List.Forall₂ R ts ts' := by
  induction rs generalizing ts with
  | nil =>
    obtain rfl : [] = ts := Option.some.inj h
    exact ⟨[], rfl, .nil⟩
  | cons r rs ih =>
    rw [List.forall_mem_cons] at hfg
    simp only [trees, Option.bind_eq_some_iff, Option.map_eq_some_iff] at h
    obtain ⟨t, ht, ts, hts, rfl⟩ := h
    obtain ⟨t', ht', hR⟩ := hfg.1 t ht
    obtain ⟨ts', hts', hRs⟩ := ih hfg.2 hts
    exact ⟨t' :: ts', by simp [trees, ht', hts'], .cons hR hRs⟩

section Put

variable [DecidableEq K] {h h' : Heap K V} {p : ℕ} {entries : Entries K V} {key : K}
  {value : Option V}

theorem lookup_tree_set (hp : h.objects[p]? = some (.hashMap entries))
    (hset : h'.objects = h.objects.set p (.hashMap (entries.insert key value))) (d : ℕ) {r : ℕ}
    {t : MapTree K V} (ht : h.tree d r = some t) :
    ∃ t', h'.tree d r = some t' ∧
      ∀ k ≠ key, t'.overlay.lookup k = t.overlay.lookup k := by
  induction d generalizing r t with
  | zero => simp [tree] at ht
  | succ d ih =>
    have hplt := (List.getElem?_eq_some_iff.mp hp).1
    by_cases hr : r = p
    · subst hr
      have ht' : t = .hashMap entries := by simpa [tree, hp, eq_comm] using ht
      refine ⟨.hashMap (entries.insert key value), by simp [tree, hset, hplt], fun k hk => ?_⟩
      rw [ht', MapTree.overlay, MapTree.overlay, ← Finmap.insert_toFinmap,
        Finmap.lookup_insert_of_ne _ hk]
    · have hget : h'.objects[r]? = h.objects[r]? := by
        rw [hset, List.getElem?_set_ne (Ne.symm hr)]
      rw [tree, hget]
      rw [tree] at ht
      cases ho : h.objects[r]? with
      | none => simp [ho] at ht
      | some o =>
        cases o with
        | hashMap entries' =>
          refine ⟨t, by simpa [ho] using ht, fun k _ => rfl⟩
        | mapContext stackList =>
          simp only [ho, Option.map_eq_some_iff] at ht ⊢
          obtain ⟨ts, hts, rfl⟩ := ht
          obtain ⟨ts', hts', hlookup⟩ := trees_rel (fun r _ t ht => ih ht) hts
          refine ⟨.mapContext ts', ⟨ts', hts', rfl⟩, fun k hk => ?_⟩
          rw [MapTree.overlay, MapTree.overlay, MapTree.lookup_overlayIn,
            MapTree.lookup_overlayIn]
          clear hts hts'
          induction hlookup with
          | nil => rfl
          | cons hhead _ ihtail => rw [List.findSome?_cons, List.findSome?_cons, hhead k hk, ihtail]

theorem lookup_tree_top (hp : h.objects[p]? = some (.hashMap entries))
    (hset : h'.objects = h.objects.set p (.hashMap (entries.insert key value))) {n : ℕ} {r : ℕ}
    (htop : h.top n r = some p) (d : ℕ) {t' : MapTree K V} (ht' : h'.tree d r = some t') :
    t'.overlay.lookup key = some value := by
  have hplt := (List.getElem?_eq_some_iff.mp hp).1
  induction n generalizing r d t' with
  | zero => simp [top] at htop
  | succ n ih =>
    cases d with
    | zero => simp [tree] at ht'
    | succ d =>
      by_cases hr : r = p
      · subst hr
        obtain rfl : .hashMap (entries.insert key value) = t' := by
          simpa [tree, hset, hplt] using ht'
        rw [MapTree.overlay, ← Finmap.insert_toFinmap, Finmap.lookup_insert]
      · have hget : h'.objects[r]? = h.objects[r]? := by
          rw [hset, List.getElem?_set_ne (Ne.symm hr)]
        rw [top] at htop
        split at htop
        · exact absurd (Option.some.inj htop) hr
        · rename_i currentMap rest ho
          simp only [tree, hget, ho, trees, Option.map_eq_some_iff,
            Option.bind_eq_some_iff] at ht'
          obtain ⟨_, ⟨t, ht, ts, _, rfl⟩, rfl⟩ := ht'
          have hkey := ih htop d ht
          rw [MapTree.overlay, MapTree.lookup_overlayIn, List.findSome?_cons, hkey]
        · simp at htop

/-- **A put is an insert** in the single map, whatever the maps of the stack are shared with. -/
theorem overlay_put {n c : ℕ} {old : Option V} (hput : h.put n c key value = some (old, h'))
    {d : ℕ} {t : MapTree K V} (ht : h.tree d c = some t) :
    ∃ t', h'.tree d c = some t' ∧ t'.overlay = t.overlay.insert key value := by
  unfold put write at hput
  split at hput
  · simp at hput
  rename_i p htop
  split at hput
  · rename_i entries hp
    have hset : h'.objects = h.objects.set p (.hashMap (entries.insert key value)) := by
      simp only [Option.map_some, Option.some.injEq, Prod.mk.injEq] at hput
      rw [← hput.2]
      rfl
    obtain ⟨t', ht', hother⟩ := lookup_tree_set hp hset d ht
    refine ⟨t', ht', Finmap.ext_lookup fun k => ?_⟩
    by_cases hk : k = key
    · rw [hk, Finmap.lookup_insert, lookup_tree_top hp hset htop d ht']
    · rw [Finmap.lookup_insert_of_ne _ hk, hother k hk]
  · simp at hput

/-- The map that is put into stands twice in the stack. -/
def twice : Heap ℕ ℕ where
  objects := [.mapContext [1, 1], .hashMap ∅]
  closed := by simp [MapObject.members]

theorem overlay_put_twice : ∃ h' t, twice.put 2 0 0 (some 1) = some (none, h') ∧
    h'.tree 2 0 = some t ∧ t.overlay.lookup 0 = some (some 1) := by
  obtain ⟨t, ht, hoverlay⟩ := overlay_put (show twice.put 2 0 0 (some 1) = some (none, _) from rfl)
    (d := 2) rfl
  exact ⟨_, t, rfl, ht, hoverlay ▸ Finmap.lookup_insert _⟩

end Put

/-- **A map context is an overlay.** In every state, the views of an object agree with its single
map; and in a stack that is not empty, a map that is pushed, put into and popped leaves an object
as it was, if it is a new one or shares nothing with the object. -/
theorem views_overlay [DecidableEq K] [DecidableEq V] (h : Heap K V) (n : ℕ) :
    (∀ (ops : List (ℕ × MapOp K V)) (d r : ℕ) (t : MapTree K V),
      (h.run n ops).tree d r = some t → t.Agrees t.overlay) ∧
    ∀ (c : ℕ) (stackList : List ℕ) (puts : List (K × Option V)),
      h.stackOf c = some stackList → stackList ≠ [] → ∀ d r : ℕ, r < h.objects.length →
        (h.run n (pushPutsPop c .push puts)).tree d r = h.tree d r ∧
        ∀ m < h.objects.length, ¬ h.Below c m → (∀ q, h.Below q m → ¬ h.Below q r) →
          (h.run n (pushPutsPop c (.pushMap m) puts)).tree d r = h.tree d r :=
  ⟨fun _ _ _ t _ => MapTree.agrees_overlay t,
    fun _ _ puts hs hne d _ hr => ⟨tree_pushPutsPop hs hne n puts d hr,
      fun _ hm hcm hshare => tree_pushMapPutsPop hs hne hm hcm n puts d hshare⟩⟩

def getMapContext : Heap ℕ ℕ where
  objects := [.mapContext []]
  closed := by simp [MapObject.members]

theorem get_pushPutsPop_getMapContext :
    (getMapContext.tree 2 0).map (MapTree.get 0) = some none ∧
      ((getMapContext.run 2 (pushPutsPop 0 .push [(0, some 1)])).tree 2 0).map (MapTree.get 0) =
        some (some 1) := by
  decide

end Heap

end OfficeAuto.Base
