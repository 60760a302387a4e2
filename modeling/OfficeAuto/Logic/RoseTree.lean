import Mathlib.Data.List.Basic

/-!
# Forests rebuilt from their preorder

A forest is written as the list of its nodes in preorder, and each node knows the name of its
parent. The steps of `step` make a forest of such a list: there is a stack of open nodes, and a
node closes the open nodes above its parent. A node that begins a tree may be refused.

Names need not be unique. It is enough that a name has a level (`Placed`): then no open node above
the parent has the parent's name, and the forest comes back (`steps_preorders`). Conversely, the
nodes of a forest that was rebuilt are the ones that were read, in their order
(`preorders_step`).
-/

universe u

/-- Trees with any number of children. -/
inductive RoseTree (α : Type u)
  | node (root : α) (children : List (RoseTree α))

namespace RoseTree

variable {α β : Type*}

def root : RoseTree α → α
  | node a _ => a

theorem inductionOn {motive : RoseTree α → Prop}
    (node : ∀ a cs, (∀ c ∈ cs, motive c) → motive (.node a cs)) : ∀ t, motive t
  | .node a cs => node a cs fun c _ => inductionOn node c

mutual

def preorder : RoseTree α → List α
  | node a cs => a :: preorders cs

def preorders : List (RoseTree α) → List α
  | [] => []
  | t :: ts => t.preorder ++ preorders ts

end

mutual

def map (f : α → β) : RoseTree α → RoseTree β
  | node a cs => node (f a) (maps f cs)

def maps (f : α → β) : List (RoseTree α) → List (RoseTree β)
  | [] => []
  | t :: ts => t.map f :: maps f ts

end

theorem preorders_append (ts us : List (RoseTree α)) :
    preorders (ts ++ us) = preorders ts ++ preorders us := by
  induction ts with
  | nil => rfl
  | cons t ts ih => rw [List.cons_append, preorders, preorders, ih, List.append_assoc]

theorem preorders_singleton (t : RoseTree α) : preorders [t] = t.preorder := by
  rw [preorders, preorders, List.append_nil]

theorem maps_eq (f : α → β) (ts : List (RoseTree α)) : maps f ts = ts.map (map f) := by
  induction ts with
  | nil => rfl
  | cons t ts ih => rw [maps, List.map_cons, ih]

theorem preorders_eq (ts : List (RoseTree α)) : preorders ts = ts.flatMap preorder := by
  induction ts with
  | nil => rfl
  | cons t ts ih => rw [preorders, List.flatMap_cons, ih]

theorem map_map {γ : Type*} (g : β → γ) (f : α → β) (t : RoseTree α) :
    (t.map f).map g = t.map (g ∘ f) := by
  induction t using inductionOn with
  | node a cs ih =>
    rw [map, map, map, maps_eq, maps_eq, maps_eq, List.map_map]
    exact congrArg _ (List.map_congr_left ih)

theorem maps_maps {γ : Type*} (g : β → γ) (f : α → β) (ts : List (RoseTree α)) :
    maps g (maps f ts) = maps (g ∘ f) ts := by
  rw [maps_eq, maps_eq, maps_eq, List.map_map]
  exact List.map_congr_left fun t _ => map_map g f t

theorem root_mem_preorder (t : RoseTree α) : t.root ∈ t.preorder := by
  cases t
  exact List.mem_cons_self

theorem preorder_map (f : α → β) (t : RoseTree α) : (t.map f).preorder = t.preorder.map f := by
  induction t using inductionOn with
  | node a cs ih =>
    rw [map, preorder, preorder, List.map_cons, maps_eq, preorders_eq, preorders_eq,
      List.flatMap_map, List.map_flatMap]
    exact congrArg _ (List.flatMap_congr ih)

theorem preorders_maps (f : α → β) (ts : List (RoseTree α)) :
    preorders (maps f ts) = (preorders ts).map f := by
  rw [maps_eq, preorders_eq, preorders_eq, List.flatMap_map, List.map_flatMap]
  exact List.flatMap_congr fun t _ => preorder_map f t

end RoseTree

/-! ### The stack of open nodes -/

namespace Rebuild

open RoseTree

variable {α N : Type*} [DecidableEq N]

abbrev Stack (α : Type*) := List (α × List (RoseTree α))

/-- Nodes are closed until the top one has the name; the tree that was closed last is still to join
its parent. -/
def popTo (name : α → N) (n : N) (closed : List (RoseTree α)) : Stack α → Option (Stack α)
  | [] => none
  | (a, cs) :: stack =>
    if name a = n then some ((a, cs ++ closed) :: stack)
    else popTo name n [node a (cs ++ closed)] stack

def closeAll (closed : List (RoseTree α)) : Stack α → List (RoseTree α)
  | [] => closed
  | (a, cs) :: stack => closeAll [node a (cs ++ closed)] stack

def push (isParent : α → Bool) (a : α) : Stack α → Stack α
  | [] => []
  | (p, cs) :: stack =>
    if isParent a then (a, []) :: (p, cs) :: stack else (p, cs ++ [node a []]) :: stack

/-- How nodes are linked: their names, the names of their parents, which may have children and
which have a parent. -/
structure Links (α N : Type*) where
  name : α → N
  parentName : α → N
  isParent : α → Bool
  isChild : α → Bool

/-- The trees that are complete, and the open nodes of the last one. -/
structure State (α : Type*) where
  trees : List (RoseTree α)
  stack : Stack α

def State.finish (s : State α) : List (RoseTree α) := s.trees ++ closeAll [] s.stack

variable (links : Links α N)

def opens (s : State α) (a : α) : Bool := s.stack.isEmpty || !links.isChild a

def step (s : State α) (a : α) (mayOpen : Bool) : Option (State α) :=
  if opens links s a then
    if mayOpen then
      some (if links.isParent a then ⟨s.finish, [(a, [])]⟩ else ⟨s.finish ++ [node a []], []⟩)
    else none
  else (popTo links.name (links.parentName a) [] s.stack).map fun stack =>
    ⟨s.trees, push links.isParent a stack⟩

/-! ### The nodes of a forest that was rebuilt -/

variable {links}

theorem closeAll_of_popTo {name : α → N} {n : N} {closed : List (RoseTree α)}
    {stack stack' : Stack α} (h : popTo name n closed stack = some stack') :
    closeAll [] stack' = closeAll closed stack := by
  induction stack generalizing closed with
  | nil => cases h
  | cons top stack ih =>
    obtain ⟨a, cs⟩ := top
    rw [popTo] at h
    split_ifs at h
    · rw [← Option.some.inj h, closeAll, closeAll, List.append_nil]
    · rw [closeAll, ← ih h]

theorem popTo_ne_nil {name : α → N} {n : N} {closed : List (RoseTree α)} {stack stack' : Stack α}
    (h : popTo name n closed stack = some stack') : stack' ≠ [] := by
  induction stack generalizing closed with
  | nil => cases h
  | cons top stack ih =>
    rw [popTo] at h
    split_ifs at h
    · rw [← Option.some.inj h]
      exact List.cons_ne_nil _ _
    · exact ih h

theorem push_ne_nil {isParent : α → Bool} {a : α} {stack : Stack α} (h : stack ≠ []) :
    push isParent a stack ≠ [] := by
  obtain ⟨⟨p, cs⟩, stack, rfl⟩ := List.exists_cons_of_ne_nil h
  rw [push]
  split_ifs <;> exact List.cons_ne_nil _ _

theorem exists_closeAll (closed : List (RoseTree α)) {stack : Stack α} (h : stack ≠ []) :
    ∃ t, closeAll closed stack = [t] := by
  induction stack generalizing closed with
  | nil => exact absurd rfl h
  | cons top stack ih =>
    rw [closeAll]
    rcases eq_or_ne stack [] with rfl | hne
    · exact ⟨_, rfl⟩
    · exact ih _ hne

theorem preorders_closeAll (closed : List (RoseTree α)) (stack : Stack α) :
    preorders (closeAll closed stack) = preorders (closeAll [] stack) ++ preorders closed := by
  induction stack generalizing closed with
  | nil => rw [closeAll, closeAll, preorders, List.nil_append]
  | cons top stack ih =>
    obtain ⟨a, cs⟩ := top
    rw [closeAll, closeAll, ih, ih [node a (cs ++ [])], preorders_singleton, preorders_singleton,
      preorder, preorder, List.append_nil, preorders_append, List.append_assoc, List.cons_append]

theorem preorders_push (isParent : α → Bool) (a : α) {stack : Stack α} (h : stack ≠ []) :
    preorders (closeAll [] (push isParent a stack)) = preorders (closeAll [] stack) ++ [a] := by
  obtain ⟨⟨p, cs⟩, stack, rfl⟩ := List.exists_cons_of_ne_nil h
  have hleaf : (node a [] : RoseTree α).preorder = [a] := by rw [preorder, preorders]
  rw [push]
  split_ifs
  · rw [closeAll, preorders_closeAll, List.append_nil, preorders_singleton, hleaf]
  · rw [closeAll, closeAll, preorders_closeAll, preorders_closeAll [node p (cs ++ [])],
      preorders_singleton, preorders_singleton, preorder, preorder, List.append_nil,
      List.append_nil, preorders_append, preorders_singleton, hleaf, List.append_assoc,
      List.cons_append]

theorem preorders_step {s s' : State α} {a : α} {mayOpen : Bool}
    (h : step links s a mayOpen = some s') :
    preorders s'.finish = preorders s.finish ++ [a] := by
  have hleaf : (node a [] : RoseTree α).preorder = [a] := by rw [preorder, preorders]
  rw [step] at h
  split_ifs at h
  · obtain rfl := Option.some.inj h
    rw [State.finish, closeAll, closeAll, List.append_nil, preorders_append, preorders_singleton,
      hleaf]
  · obtain rfl := Option.some.inj h
    rw [State.finish, closeAll, List.append_nil, preorders_append, preorders_singleton, hleaf]
  · obtain ⟨stack, hpop, rfl⟩ := Option.map_eq_some_iff.mp h
    rw [State.finish, State.finish, preorders_append, preorders_append,
      preorders_push _ _ (popTo_ne_nil hpop), closeAll_of_popTo hpop, List.append_assoc]

theorem step_of_opens {s : State α} {a : α} (h : opens links s a = true) (mayOpen : Bool) :
    step links s a mayOpen =
      if mayOpen then
        some (if links.isParent a then ⟨s.finish, [(a, [])]⟩ else ⟨s.finish ++ [node a []], []⟩)
      else none := by
  rw [step, if_pos h]

theorem mayOpen_of_step {s s' : State α} {a : α} {mayOpen : Bool}
    (h : step links s a mayOpen = some s') (ha : links.isChild a = false) : mayOpen = true := by
  have hopens : opens links s a = true := by simp [opens, ha]
  rw [step, if_pos hopens] at h
  split_ifs at h with hmay
  · exact hmay
  · exact hmay

/-! ### Forests with levels -/

section Levels

variable (links) (level : N → ℕ) {γ : Type*} (value : γ → α) (mayOpen : γ → Bool)

def steps (s : State α) (gs : List γ) : Option (State α) :=
  gs.foldlM (fun s g => step links s (value g) (mayOpen g)) s

/-- A tree whose names have the levels of their nodes, and whose children are linked to their
parents. -/
inductive Placed : ℕ → RoseTree γ → Prop
  | node (k : ℕ) (g : γ) (cs : List (RoseTree γ)) (hlevel : level (links.name (value g)) = k)
      (hparent : cs ≠ [] → links.isParent (value g) = true)
      (hname : ∀ c ∈ cs, links.parentName (value c.root) = links.name (value g))
      (hchild : ∀ c ∈ cs, links.isChild (value c.root) = true)
      (hplaced : ∀ c ∈ cs, Placed (k + 1) c) : Placed k (.node g cs)

/-- The stack becomes the other one when open nodes above the level are closed. -/
inductive Closes (k : ℕ) : Stack α → Stack α → Prop
  | refl (stack : Stack α) : Closes k stack stack
  | step {a p : α} {as ps : List (RoseTree α)} {stack stack' : Stack α}
      (hlevel : k < level (links.name a))
      (h : Closes k ((p, ps ++ [.node a as]) :: stack) stack') :
      Closes k ((a, as) :: (p, ps) :: stack) stack'

end Levels

section

variable {level : N → ℕ} {k : ℕ}

omit [DecidableEq N] in
theorem Closes.mono {l : ℕ} (hkl : k ≤ l) {stack stack' : Stack α}
    (h : Closes links level l stack stack') : Closes links level k stack stack' := by
  induction h with
  | refl => exact .refl _
  | step hlevel _ ih => exact .step (Nat.lt_of_le_of_lt hkl hlevel) ih

omit [DecidableEq N] in
theorem Closes.close {stack₀ stack : Stack α} {a p : α} {as ps : List (RoseTree α)}
    (h : Closes links level k stack₀ ((a, as) :: (p, ps) :: stack))
    (hlevel : k < level (links.name a)) :
    Closes links level k stack₀ ((p, ps ++ [.node a as]) :: stack) := by
  generalize htop : (a, as) :: (p, ps) :: stack = top at h
  induction h with
  | refl =>
    subst htop
    exact .step hlevel (.refl _)
  | step hlevel' _ ih => exact .step hlevel' (ih htop)

theorem Closes.popTo {n : N} (hn : level n ≤ k) {stack stack' : Stack α}
    (h : Closes links level k stack stack') :
    popTo links.name n [] stack = popTo links.name n [] stack' := by
  induction h with
  | refl => rfl
  | @step a p as ps stack stack' hlevel _ ih =>
    have hne : links.name a ≠ n := by
      rintro rfl
      exact absurd hlevel (Nat.not_lt.mpr hn)
    rw [← ih, Rebuild.popTo, if_neg hne, List.append_nil, Rebuild.popTo, Rebuild.popTo,
      List.append_nil]

omit [DecidableEq N] in
theorem Closes.closeAll {stack stack' : Stack α} (h : Closes links level k stack stack') :
    closeAll [] stack = closeAll [] stack' := by
  induction h with
  | refl => rfl
  | step _ _ ih =>
    rw [← ih, Rebuild.closeAll, List.append_nil, Rebuild.closeAll, Rebuild.closeAll,
      List.append_nil]

theorem step_child {trees : List (RoseTree α)} {a p : α} {ps : List (RoseTree α)}
    {stack₀ stack : Stack α} (h : Closes links level k stack₀ ((p, ps) :: stack))
    (hp : level (links.name p) = k) (hname : links.parentName a = links.name p)
    (hchild : links.isChild a = true) (mayOpen : Bool) :
    step links ⟨trees, stack₀⟩ a mayOpen =
      some ⟨trees, push links.isParent a ((p, ps) :: stack)⟩ := by
  have hsome : stack₀ ≠ [] := by
    cases h <;> exact List.cons_ne_nil _ _
  have hopens : opens links ⟨trees, stack₀⟩ a = false := by
    simp [opens, hchild, hsome]
  have hpop : popTo links.name (links.parentName a) [] stack₀ = some ((p, ps) :: stack) := by
    rw [hname, h.popTo (Nat.le_of_eq hp), Rebuild.popTo, if_pos rfl, List.append_nil]
  rw [step, hopens, hpop]
  rfl

variable {γ : Type*} {value : γ → α} {mayOpen : γ → Bool}

theorem steps_trees {trees : List (RoseTree α)} {cs : List (RoseTree γ)} {p : α}
    (hcs : ∀ c ∈ cs, ∀ {stack₀ stack : Stack α} {ps : List (RoseTree α)},
      Closes links level k stack₀ ((p, ps) :: stack) → ∃ stack₁,
        steps links value mayOpen ⟨trees, stack₀⟩ c.preorder = some ⟨trees, stack₁⟩ ∧
          Closes links level k stack₁ ((p, ps ++ [c.map value]) :: stack))
    {stack₀ stack : Stack α} {ps : List (RoseTree α)}
    (h : Closes links level k stack₀ ((p, ps) :: stack)) :
    ∃ stack₁, steps links value mayOpen ⟨trees, stack₀⟩ (preorders cs) = some ⟨trees, stack₁⟩ ∧
      Closes links level k stack₁ ((p, ps ++ maps value cs) :: stack) := by
  induction cs generalizing stack₀ ps with
  | nil => exact ⟨stack₀, rfl, by rwa [maps, List.append_nil]⟩
  | cons c cs ih =>
    obtain ⟨stack₁, hsteps, hcloses⟩ := hcs c List.mem_cons_self h
    obtain ⟨stack₂, hsteps', hcloses'⟩ := ih (fun c hc => hcs c (List.mem_cons_of_mem _ hc)) hcloses
    refine ⟨stack₂, ?_, by rwa [List.append_assoc, List.singleton_append] at hcloses'⟩
    rw [preorders, steps, List.foldlM_append]
    exact Option.bind_eq_some_iff.mpr ⟨_, hsteps, hsteps'⟩

/-- **The nodes of a tree** join the parent of its root, and leave at most nodes of the tree
open. -/
theorem steps_tree {t : RoseTree γ} (ht : Placed links level value (k + 1) t)
    {trees : List (RoseTree α)} {p : α} (hp : level (links.name p) = k)
    (hname : links.parentName (value t.root) = links.name p)
    (hchild : links.isChild (value t.root) = true) {stack₀ stack : Stack α}
    {ps : List (RoseTree α)} (h : Closes links level k stack₀ ((p, ps) :: stack)) :
    ∃ stack₁, steps links value mayOpen ⟨trees, stack₀⟩ t.preorder = some ⟨trees, stack₁⟩ ∧
      Closes links level k stack₁ ((p, ps ++ [t.map value]) :: stack) := by
  induction t using RoseTree.inductionOn generalizing k p ps stack₀ stack with
  | node g cs ih =>
    cases ht with
    | node _ _ _ hlevel hparent hnames hchilds hplaced =>
      have hstep : step links ⟨trees, stack₀⟩ (value g) (mayOpen g) =
          some ⟨trees, push links.isParent (value g) ((p, ps) :: stack)⟩ :=
        step_child h hp hname hchild _
      have hfirst : ∀ {s}, steps links value mayOpen
          ⟨trees, push links.isParent (value g) ((p, ps) :: stack)⟩ (preorders cs) = some s →
          steps links value mayOpen ⟨trees, stack₀⟩ (RoseTree.node g cs).preorder = some s :=
        fun hsteps => Option.bind_eq_some_iff.mpr ⟨_, hstep, hsteps⟩
      rw [map]
      by_cases hisParent : links.isParent (value g) = true
      · -- the node stays open for its children
        rw [push, if_pos hisParent] at hfirst
        obtain ⟨stack₁, hsteps, hcloses⟩ := steps_trees
          (fun c hc => ih c hc (hplaced c hc) hlevel (hnames c hc) (hchilds c hc))
          (Closes.refl ((value g, []) :: (p, ps) :: stack))
        exact ⟨stack₁, hfirst hsteps, (hcloses.mono (Nat.le_succ k)).close (by omega)⟩
      · obtain rfl : cs = [] := by
          by_contra hne
          exact hisParent (hparent hne)
        rw [push, if_neg hisParent] at hfirst
        exact ⟨_, hfirst rfl, .refl _⟩

theorem steps_root {t : RoseTree γ} (ht : Placed links level value 0 t)
    (hchild : links.isChild (value t.root) = false) (hmay : mayOpen t.root = true) (s : State α) :
    ∃ s', steps links value mayOpen s t.preorder = some s' ∧
      s'.finish = s.finish ++ [t.map value] := by
  cases ht with
  | node _ g cs hlevel hparent hnames hchilds hplaced =>
    have hopens : opens links s (value g) = true := by
      have hroot : links.isChild (value g) = false := hchild
      simp [opens, hroot]
    have hstep := step_of_opens hopens (mayOpen g)
    rw [if_pos (show mayOpen g = true from hmay)] at hstep
    have hfirst : ∀ {s' s''}, step links s (value g) (mayOpen g) = some s' →
        steps links value mayOpen s' (preorders cs) = some s'' →
        steps links value mayOpen s (RoseTree.node g cs).preorder = some s'' :=
      fun hstep hsteps => Option.bind_eq_some_iff.mpr ⟨_, hstep, hsteps⟩
    rw [map]
    by_cases hisParent : links.isParent (value g) = true
    · rw [if_pos hisParent] at hstep
      obtain ⟨stack, hsteps, hcloses⟩ := steps_trees
        (fun c hc => steps_tree (hplaced c hc) hlevel (hnames c hc) (hchilds c hc))
        (Closes.refl [(value g, [])])
      refine ⟨_, hfirst hstep hsteps, ?_⟩
      rw [State.finish, hcloses.closeAll, List.nil_append, closeAll, closeAll, List.append_nil]
    · obtain rfl : cs = [] := by
        by_contra hne
        exact hisParent (hparent hne)
      rw [if_neg hisParent] at hstep
      exact ⟨_, hfirst hstep rfl, by rw [State.finish, closeAll, List.append_nil, maps]⟩

/-- **A forest comes back** from its nodes in preorder. -/
theorem steps_preorders {ts : List (RoseTree γ)} (hplaced : ∀ t ∈ ts, Placed links level value 0 t)
    (hchild : ∀ t ∈ ts, links.isChild (value t.root) = false)
    (hmay : ∀ t ∈ ts, mayOpen t.root = true) (s : State α) :
    ∃ s', steps links value mayOpen s (preorders ts) = some s' ∧
      s'.finish = s.finish ++ maps value ts := by
  induction ts generalizing s with
  | nil => exact ⟨s, rfl, by rw [maps, List.append_nil]⟩
  | cons t ts ih =>
    obtain ⟨s₁, hsteps, hfinish⟩ := steps_root (hplaced t List.mem_cons_self)
      (hchild t List.mem_cons_self) (hmay t List.mem_cons_self) s
    obtain ⟨s₂, hsteps', hfinish'⟩ := ih (fun u hu => hplaced u (List.mem_cons_of_mem _ hu))
      (fun u hu => hchild u (List.mem_cons_of_mem _ hu))
      (fun u hu => hmay u (List.mem_cons_of_mem _ hu)) s₁
    refine ⟨s₂, ?_, by rw [hfinish', hfinish, List.append_assoc, List.singleton_append, maps]⟩
    rw [preorders, steps, List.foldlM_append]
    exact Option.bind_eq_some_iff.mpr ⟨_, hsteps, hsteps'⟩

end

end Rebuild
