import OfficeAuto.Logic.Loop

/-!
# Commands with exits

A command of a structured language does not only go on with what follows it. It may stop the
procedure that it is part of, break off or continue the innermost loop, or throw. An exit to a
loop carries what it becomes where no loop is around it.

**Triples.** A triple says what holds at each exit of a command (`Command.Triple`), whatever its
budget. The rules are those of sequences, conditionals and loops; the rule of a loop asks for one
invariant at the three exits after which the next pass begins.
-/

/-- How a command ends. -/
inductive Exit (ε : Type*)
  | next
  | stop
  | breakLoop (e : ε)
  | continueLoop (e : ε)
  | threw (e : ε)

/-- What a loop makes of the exit of a pass: how it ends, unless another pass may begin. -/
def Exit.afterPass {ε : Type*} : Exit ε → Option (Exit ε)
  | next => none
  | continueLoop _ => none
  | breakLoop _ => some next
  | stop => some stop
  | threw e => some (threw e)

def Exit.isNext {ε : Type*} : Exit ε → Bool
  | next => true
  | _ => false

/-- The jumps to the innermost loop. -/
inductive Jump
  | «break»
  | «continue»

def Exit.jump {ε : Type*} : Exit ε → Option Jump
  | breakLoop _ => some .break
  | continueLoop _ => some .continue
  | _ => none

/-- A command, on a budget: its exit and the state after it. -/
abbrev Command (ε σ : Type*) := σ → Outcome (Exit ε × σ)

namespace Command

open Outcome

variable {ε σ α : Type*}

/-! ### Sequences and loops -/

/-- The second command, if the first one goes on with it. -/
def seq (c d : Command ε σ) : Command ε σ := fun s =>
  (c s).bind fun r =>
    match r.1 with
    | .next => d r.2
    | exit => .done (exit, r.2)

def runAll : List (Command ε σ) → Command ε σ
  | [], s => .done (.next, s)
  | c :: cs, s => seq c (runAll cs) s

/-- A test, which may change the state or throw. -/
abbrev Test (ε σ : Type*) := σ → Except ε Bool × σ

/-- A command for each answer of a test. -/
def cond (test : Test ε σ) (c d : Command ε σ) : Command ε σ := fun s =>
  match test s with
  | (.error e, s') => .done (.threw e, s')
  | (.ok true, s') => c s'
  | (.ok false, s') => d s'

/-- What a loop goes on with after a pass. -/
def endPass (r : Exit ε × σ) : σ ⊕ Exit ε × σ :=
  match r.1.afterPass with
  | none => .inl r.2
  | some exit => .inr (exit, r.2)

/-- One turn of a loop that makes passes while a test holds. -/
def turn (test : Test ε σ) (body : Command ε σ) (s : σ) : Outcome (σ ⊕ Exit ε × σ) :=
  match test s with
  | (.error e, s') => .done (.inr (.threw e, s'))
  | (.ok false, s') => .done (.inr (.next, s'))
  | (.ok true, s') => (body s').bind fun r => .done (endPass r)

/-- The budget bounds the number of the passes. -/
def repeatWhile (test : Test ε σ) (body : Command ε σ) (n : ℕ) : Command ε σ :=
  Outcome.loop (turn test body) n

/-- One pass for each item, in order. -/
def forEach (enter : α → σ → σ) (body : Command ε σ) : List α → Command ε σ
  | [], s => .done (.next, s)
  | a :: as, s => (body (enter a s)).bind fun r =>
    match r.1.afterPass with
    | none => forEach enter body as r.2
    | some exit => .done (exit, r.2)

/-! ### Triples -/

/-- Every end of the command from a state with `P` is one that `Q` allows. -/
def Triple (P : σ → Prop) (c : Command ε σ) (Q : Exit ε → σ → Prop) : Prop :=
  ∀ ⦃s exit s'⦄, P s → c s = .done (exit, s') → Q exit s'

/-- `R` where the command goes on, and `Q` at the other exits. -/
def orElse (R : σ → Prop) (Q : Exit ε → σ → Prop) : Exit ε → σ → Prop
  | .next => R
  | exit => Q exit

/-- `I` where the next pass may begin, and `Q` at the exit that the loop makes of the others. -/
def atPass (I : σ → Prop) (Q : Exit ε → σ → Prop) (exit : Exit ε) : σ → Prop :=
  match exit.afterPass with
  | none => I
  | some exit => Q exit

variable {P P' R I : σ → Prop} {Q Q' : Exit ε → σ → Prop} {c d body : Command ε σ}

theorem Triple.weaken (h : Triple P c Q) (hP : ∀ s, P' s → P s)
    (hQ : ∀ exit s, Q exit s → Q' exit s) : Triple P' c Q' :=
  fun s exit s' hs hc => hQ exit s' (h (hP s hs) hc)

theorem triple_done {f : σ → Exit ε × σ} (h : ∀ s, P s → Q (f s).1 (f s).2) :
    Triple P (fun s => .done (f s)) Q := by
  intro s exit s' hs hc
  have heq : f s = (exit, s') := by simpa using hc
  have hQ := h s hs
  rwa [heq] at hQ

theorem Triple.seq (hc : Triple P c (orElse R Q)) (hd : Triple R d Q) :
    Triple P (Command.seq c d) Q := by
  intro s exit s' hs hrun
  obtain ⟨⟨exit₁, s₁⟩, h₁, hrest⟩ := bind_eq_done.mp hrun
  have hR := hc hs h₁
  cases exit₁ with
  | next => exact hd hR hrest
  | stop | breakLoop e | continueLoop e | threw e =>
    cases hrest
    exact hR

/-- What a test comes to from a state with `P`: `R` for its answer, or `Q` if it throws. -/
def Checks (P : σ → Prop) (test : Test ε σ) (R : Bool → σ → Prop) (Q : Exit ε → σ → Prop) : Prop :=
  ∀ s, P s → match test s with
    | (.error e, s') => Q (.threw e) s'
    | (.ok b, s') => R b s'

theorem Triple.cond {test : Test ε σ} {R : Bool → σ → Prop} (htest : Checks P test R Q)
    (hc : Triple (R true) c Q) (hd : Triple (R false) d Q) :
    Triple P (Command.cond test c d) Q := by
  intro s exit s' hs hrun
  have hanswer := htest s hs
  rw [Command.cond] at hrun
  split at hrun <;> rename_i heq <;> rw [heq] at hanswer
  · cases hrun
    exact hanswer
  · exact hc hanswer hrun
  · exact hd hanswer hrun

/-- **The rule of a loop with a test.** -/
theorem Triple.repeatWhile {test : Test ε σ} {R : Bool → σ → Prop} {n : ℕ}
    (htest : Checks I test R Q) (hend : ∀ s, R false s → Q .next s)
    (hbody : Triple (R true) body (atPass I Q)) :
    Triple I (Command.repeatWhile test body n) Q := by
  -- A turn that makes a pass ends at an exit of the body.
  have hturn (s : σ) (b : σ ⊕ Exit ε × σ) (hs : I s) (h : turn test body s = .done b) :
      Sum.elim I (fun r => Q r.1 r.2) b := by
    have hanswer := htest s hs
    rw [turn] at h
    split at h <;> rename_i heq <;> rw [heq] at hanswer
    · cases h
      exact hanswer
    · cases h
      exact hend _ hanswer
    · obtain ⟨⟨exit, s'⟩, hrun, hb⟩ := bind_eq_done.mp h
      obtain rfl : endPass (exit, s') = b := by simpa using hb
      have hexit := hbody hanswer hrun
      cases exit with
      | next | continueLoop e => exact hexit
      | stop | breakLoop e | threw e => exact hexit
  intro s exit s' hs hrun
  have hloop := of_loop_eq_done (Q := fun r : Exit ε × σ => Q r.1 r.2)
    (fun s s' hI h => hturn s (.inl s') hI h) (fun s r hI h => hturn s (.inr r) hI h) hs hrun
  exact hloop

/-- **The rule of a loop over items.** The invariant is about the items that are left. -/
theorem Triple.forEach {enter : α → σ → σ} {I : List α → σ → Prop}
    (hend : ∀ s, I [] s → Q .next s)
    (hbody : ∀ a as, Triple (fun t => ∃ s, I (a :: as) s ∧ enter a s = t) body
      (atPass (I as) Q)) (as : List α) :
    Triple (I as) (Command.forEach enter body as) Q := by
  -- The induction is on the items; a break leaves some of them.
  induction as with
  | nil =>
    intro s exit s' hs hrun
    cases hrun
    exact hend s hs
  | cons a as ih =>
    intro s exit s' hs hrun
    obtain ⟨⟨exit₁, s₁⟩, h₁, hrest⟩ := bind_eq_done.mp hrun
    have hexit := hbody a as ⟨s, hs, rfl⟩ h₁
    cases exit₁ with
    | next | continueLoop e => exact ih hexit hrest
    | stop | breakLoop e | threw e =>
      cases hrest
      exact hexit

theorem triple_runAll {cs : List (Command ε σ)} (hI : ∀ s, I s → Q .next s)
    (h : ∀ c ∈ cs, Triple I c (orElse I Q)) : Triple I (runAll cs) Q := by
  induction cs with
  | nil => exact triple_done fun s hs => hI s hs
  | cons c cs ih =>
    exact (h c List.mem_cons_self).seq (ih fun d hd => h d (List.mem_cons_of_mem c hd))

/-! ### Properties of every exit -/

section Keeps

variable {test : Test ε σ} {n : ℕ}

/-- **A property that every command of a sequence keeps.** -/
theorem runAll_keeps {cs : List (Command ε σ)} (h : ∀ c ∈ cs, Triple I c fun _ => I) :
    Triple I (runAll cs) fun _ => I := by
  refine triple_runAll (fun _ => id) fun c hc => (h c hc).weaken (fun _ => id) fun exit s hs => ?_
  cases exit with
  | next | stop | breakLoop e | continueLoop e | threw e => exact hs

theorem atPass_keeps {exit : Exit ε} {s : σ} (h : I s) :
    atPass I (fun exit s => I s ∧ exit.jump = none) exit s := by
  cases exit with
  | next | continueLoop e => exact h
  | stop | breakLoop e | threw e => exact ⟨h, rfl⟩

/-- **A loop keeps what its passes keep**, and it catches all their breaks and continues. -/
theorem repeatWhile_keeps (htest : ∀ s, I s → I (test s).2) (hbody : Triple I body fun _ => I) :
    Triple I (Command.repeatWhile test body n) fun exit s => I s ∧ exit.jump = none := by
  refine Triple.repeatWhile (R := fun _ => I) (fun s hs => ?_) (fun _ hs => ⟨hs, rfl⟩)
    (hbody.weaken (fun _ => id) fun _ _ => atPass_keeps)
  have htested := htest s hs
  split <;> rename_i heq <;> rw [heq] at htested
  · exact ⟨htested, rfl⟩
  · exact htested

theorem forEach_keeps {enter : α → σ → σ} (henter : ∀ a s, I s → I (enter a s))
    (hbody : Triple I body fun _ => I) (as : List α) :
    Triple I (Command.forEach enter body as) fun exit s => I s ∧ exit.jump = none := by
  refine Triple.forEach (I := fun _ => I) (fun _ hs => ⟨hs, rfl⟩) (fun a _ => ?_) as
  refine hbody.weaken ?_ fun _ _ => atPass_keeps
  rintro _ ⟨s, hs, rfl⟩
  exact henter a s hs

end Keeps

/-! ### Commands that end -/

/-- The command ends from every state. -/
def Ends (c : Command ε σ) : Prop := ∀ s, ∃ r, c s = .done r

theorem Ends.seq (hc : Ends c) (hd : Ends d) : Ends (Command.seq c d) := by
  intro s
  obtain ⟨⟨exit, s'⟩, hc⟩ := hc s
  cases exit with
  | next =>
    obtain ⟨r, hd⟩ := hd s'
    exact ⟨r, bind_eq_done.mpr ⟨_, hc, hd⟩⟩
  | stop | breakLoop e | continueLoop e | threw e =>
    exact ⟨_, bind_eq_done.mpr ⟨_, hc, rfl⟩⟩

theorem Ends.cond {test : Test ε σ} (hc : Ends c) (hd : Ends d) :
    Ends (Command.cond test c d) := by
  intro s
  rw [Command.cond]
  split
  · exact ⟨_, rfl⟩
  · exact hc _
  · exact hd _

theorem Ends.forEach {enter : α → σ → σ} (hbody : Ends body) (as : List α) :
    Ends (Command.forEach enter body as) := by
  induction as with
  | nil => exact fun s => ⟨_, rfl⟩
  | cons a as ih =>
    intro s
    obtain ⟨⟨exit, s'⟩, hrun⟩ := hbody (enter a s)
    cases exit with
    | next | continueLoop e =>
      obtain ⟨r, hrest⟩ := ih s'
      exact ⟨r, bind_eq_done.mpr ⟨_, hrun, hrest⟩⟩
    | stop | breakLoop e | threw e => exact ⟨_, bind_eq_done.mpr ⟨_, hrun, rfl⟩⟩

theorem ends_runAll {cs : List (Command ε σ)} (h : ∀ c ∈ cs, Ends c) : Ends (runAll cs) := by
  induction cs with
  | nil => exact fun s => ⟨_, rfl⟩
  | cons c cs ih =>
    rw [List.forall_mem_cons] at h
    exact h.1.seq (ih h.2)

end Command
