import OfficeAuto.Logic.Transition
import OfficeAuto.Text.Decimal

/-!
# Optimistic concurrency

A row carries an ETag, the time of its last update, and a client that has read the row sends the
ETag back in the `If-Match` header of a request that modifies the row. `checkIfMatch` compares the
two. It is called by the delete of an entity set's entity and by the actions bound to one, on the
row that the request has read before; the row is written later, and the requests of other clients
run in between.

**What is protected.** A modification is protected if the header is the ETag of the row that is
overwritten, and the row is the one that the client had read (`Modified.IsProtected`). In a run
whose writes all meet a condition (`Guarded`) every modification is protected
(`isProtected_of_reachable`). Updates are not checked at all, so they do not meet it.
-/

namespace OfficeAuto.Odata.AnnotationCheck

open Decimal (showInt showInt_injective)

variable {κ α : Type*}

/-! ### ETags -/

/-- A row as it is stored: the milliseconds of its `lastUpdatedStamp`, and the other fields. -/
structure Row (α : Type*) where
  lastUpdatedStamp : Option Int
  fields : α
  deriving DecidableEq

def Row.getGenericValueETag (row : Row α) : Option (List Char) :=
  row.lastUpdatedStamp.map showInt

theorem Row.lastUpdatedStamp_eq {row row' : Row α}
    (h : row.getGenericValueETag = row'.getGenericValueETag) :
    row.lastUpdatedStamp = row'.lastUpdatedStamp :=
  Option.map_injective showInt_injective h

/-! ### Requests -/

/-- The terms that annotate entity sets, as far as they are asked for. -/
inductive Term
  | optimisticConcurrency
  | other
  deriving DecidableEq

/-- The status of an answer. -/
inductive Status
  | ok
  | notFound
  | preconditionRequired
  | preconditionFailed
  deriving DecidableEq

/-- An entity set. `getEntitySet` may fail, and the columns that are read may leave out
`lastUpdatedStamp`. -/
structure EntitySet where
  getEntitySet : Option (List Term)
  selectsStamp : Bool

def EntitySet.select (edmEntitySet : EntitySet) (row : Row α) : Row α :=
  { row with
    lastUpdatedStamp := if edmEntitySet.selectsStamp then row.lastUpdatedStamp else none }

/-- What an action is bound to: an entity or a collection of an entity set, or something else. -/
inductive ActionBinding
  | entity
  | collection
  | notEntitySet
  deriving DecidableEq

/-- The modifying requests for a row. A function says what becomes of the fields. -/
inductive Operation (α : Type*)
  | updateEntity (change : α → α)
  | updateRelatedEntity (change : α → α)
  | deleteEntity
  | deleteRelatedEntity
  | boundAction (binding : ActionBinding) (change : α → Option α)

def Operation.apply (fields : α) : Operation α → Option α
  | updateEntity change | updateRelatedEntity change => some (change fields)
  | deleteEntity | deleteRelatedEntity => none
  | boundAction _ change => change fields

/-- A request, and the row that its client has read before. -/
structure Request (κ α : Type*) where
  edmEntitySet : EntitySet
  key : κ
  ifMatch : Option (List Char) := none
  ifNoneMatch : Option (List Char) := none
  operation : Operation α
  basedOn : Option (Row α) := none

namespace Request

variable (request : Request κ α)

def requiredPrecondition : Except Status Unit :=
  if request.ifMatch.isNone && request.ifNoneMatch.isNone then
    match request.edmEntitySet.getEntitySet with
    | none => .ok ()
    | some terms =>
      if .optimisticConcurrency ∈ terms then .error .preconditionRequired else .ok ()
  else .ok ()

def matchEtag (genericValue : Row α) : Except Status Unit :=
  match genericValue.getGenericValueETag with
  | none => .ok ()
  | some currEtag =>
    let checkResult := match request.ifMatch with
      | some ifMatch => ifMatch == currEtag
      | none => request.ifNoneMatch != some currEtag
    if checkResult then .ok () else .error .preconditionFailed

/-- **`checkIfMatch`.** -/
def checkIfMatch (entity : Row α) : Except Status Unit := do
  request.requiredPrecondition
  if request.ifMatch.isSome || request.ifNoneMatch.isSome then request.matchEtag entity

/-- What a request does with the row that it reads, before it writes. An update of an entity set's
entity reads nothing. -/
def admission (found : Option (Row α)) : Except Status Unit :=
  match request.operation, found with
  | .updateEntity _, _ => .ok ()
  | _, none => .error .notFound
  | .deleteEntity, some entity | .boundAction .entity _, some entity =>
    request.checkIfMatch (request.edmEntitySet.select entity)
  | .updateRelatedEntity _, some _ | .deleteRelatedEntity, some _
  | .boundAction .collection _, some _ | .boundAction .notEntitySet _, some _ => .ok ()

end Request

def Operation.isChecked : Operation α → Bool
  | deleteEntity | boundAction .entity _ => true
  | _ => false

theorem Request.ifMatch_of_checkIfMatch {request : Request κ α} {entity : Row α}
    (h : request.checkIfMatch entity = .ok ()) (hmatch : request.ifMatch ≠ none)
    (hetag : entity.getGenericValueETag ≠ none) :
    request.ifMatch = entity.getGenericValueETag := by
  obtain ⟨ifMatch, hifMatch⟩ := Option.ne_none_iff_exists'.mp hmatch
  obtain ⟨currEtag, hcurr⟩ := Option.ne_none_iff_exists'.mp hetag
  have hrequired : request.requiredPrecondition = .ok () := by
    rw [requiredPrecondition, hifMatch]
    rfl
  have hcheck : request.matchEtag entity = .ok () := by
    rw [checkIfMatch, hrequired, hifMatch] at h
    exact h
  rw [matchEtag, hcurr, hifMatch] at hcheck
  rw [hifMatch, hcurr]
  by_contra hne
  have hfalse : (ifMatch == currEtag) = false := beq_false_of_ne fun heq => hne (congrArg some heq)
  simp [hfalse] at hcheck

theorem Request.admit_of_isChecked {request : Request κ α} (entity : Row α)
    (h : request.operation.isChecked = true) : request.admission (some entity) =
      request.checkIfMatch (request.edmEntitySet.select entity) := by
  obtain ⟨edmEntitySet, key, ifMatch, ifNoneMatch, operation, basedOn⟩ := request
  cases operation with
  | deleteEntity => rfl
  | boundAction binding change =>
    cases binding with
    | entity => rfl
    | collection => cases h
    | notEntitySet => cases h
  | updateEntity change => cases h
  | updateRelatedEntity change => cases h
  | deleteRelatedEntity => cases h

/-! ### Runs -/

/-- How far a request is. -/
inductive Phase (κ α : Type*)
  | idle
  | received (request : Request κ α)
  | admitted (request : Request κ α) (found : Option (Row α))
  | answered (status : Status)

/-- A request has overwritten or deleted a row. -/
structure Modified (κ α : Type*) where
  request : Request κ α
  row : Row α

/-- The rows, the clock in milliseconds and the requests. For the statements, the state keeps all
rows that were ever stored and all modifications. -/
structure State (κ α : Type*) where
  rows : κ → Option (Row α)
  clock : Int
  phases : ℕ → Phase κ α
  stored : List (κ × Row α)
  modified : List (Modified κ α)

inductive Event (κ α : Type*)
  | receive (i : ℕ) (request : Request κ α)
  | read (i : ℕ)
  | write (i : ℕ)
  /-- Something else in the application stores or removes a row. -/
  | other (key : κ) (fields : Option α)
  | tick (clock : Int)

namespace State

variable [DecidableEq κ] (hasStamp : κ → Bool) (s : State κ α)

def setPhase (i : ℕ) (phase : Phase κ α) : State κ α :=
  { s with phases := Function.update s.phases i phase }

/-- A row is stored with the time of the clock, if its entity has the column. -/
def stamp (key : κ) (fields : α) : Row α :=
  ⟨if hasStamp key then some s.clock else none, fields⟩

def put (key : κ) (fields : Option α) : State κ α :=
  { s with
    rows := Function.update s.rows key (fields.map (s.stamp hasStamp key))
    stored := (fields.map fun fields => (key, s.stamp hasStamp key fields)).toList ++ s.stored }

def next : Event κ α → State κ α
  | .receive i request => s.setPhase i (.received request)
  | .read i =>
    match s.phases i with
    | .received request =>
      match request.admission (s.rows request.key) with
      | .error status => s.setPhase i (.answered status)
      | .ok _ => s.setPhase i (.admitted request (s.rows request.key))
    | _ => s
  | .write i =>
    match s.phases i with
    | .admitted request _ =>
      match s.rows request.key with
      | none => s.setPhase i (.answered .notFound)
      | some row =>
        let written := s.put hasStamp request.key (request.operation.apply row.fields)
        { written.setPhase i (.answered .ok) with modified := ⟨request, row⟩ :: s.modified }
    | _ => s
  | .other key fields => s.put hasStamp key fields
  | .tick clock => { s with clock := clock }

/-- A request is received once, and its client has read what it is based on. -/
def Enabled : Event κ α → Prop
  | .receive i request => s.phases i = .idle ∧
      ∀ row, request.basedOn = some row → (request.key, row) ∈ s.stored
  | _ => True

end State

def system [DecidableEq κ] (hasStamp : κ → Bool) : System (State κ α) (Event κ α) where
  init s := (∀ key row, s.rows key = some row ↔ (key, row) ∈ s.stored) ∧
    (∀ i, s.phases i = .idle) ∧ s.modified = []
  step s e s' := s.Enabled e ∧ s' = s.next hasStamp e

/-- The header is the ETag of the overwritten row. If the client had it from a row, this is the
row. -/
def Modified.IsProtected (m : Modified κ α) : Prop :=
  m.request.ifMatch ≠ none ∧ m.request.ifMatch = m.row.getGenericValueETag ∧
    ∀ row, m.request.basedOn = some row → row.getGenericValueETag = m.request.ifMatch → row = m.row

def State.IsFresh (s : State κ α) (key : κ) : Prop :=
  ∀ row, (key, row) ∈ s.stored → ∀ stamp, row.lastUpdatedStamp = some stamp → stamp < s.clock

/-- The condition on a write: the request has been checked against an `If-Match` header and an
ETag, the row was not updated after it was read for the check, and the clock has advanced since
the last update. -/
def Guarded (s : State κ α) : Event κ α → Prop
  | .write i => ∀ request found row, s.phases i = .admitted request found →
      s.rows request.key = some row →
        request.operation.isChecked = true ∧ request.ifMatch ≠ none ∧
        request.edmEntitySet.selectsStamp = true ∧
        (∃ entity stamp, found = some entity ∧ entity.lastUpdatedStamp = some stamp ∧
          row.lastUpdatedStamp = some stamp) ∧ s.IsFresh request.key
  | .other key _ => s.IsFresh key
  | _ => True

/-! ### The invariant -/

def Phase.IsSound (s : State κ α) : Phase κ α → Prop
  | .received request => ∀ row, request.basedOn = some row → (request.key, row) ∈ s.stored
  | .admitted request found =>
    (∀ row, request.basedOn = some row → (request.key, row) ∈ s.stored) ∧
      request.admission found = .ok ()
  | _ => True

/-- The invariant: the ETag tells the rows of a key apart. -/
structure State.Inv (s : State κ α) : Prop where
  rows : ∀ key row, s.rows key = some row → (key, row) ∈ s.stored
  unique : ∀ key row row', (key, row) ∈ s.stored → (key, row') ∈ s.stored →
    row.getGenericValueETag ≠ none → row.getGenericValueETag = row'.getGenericValueETag → row = row'
  phases : ∀ i, (s.phases i).IsSound s
  modified : ∀ m ∈ s.modified, m.IsProtected

theorem Phase.IsSound.mono {s s' : State κ α} {phase : Phase κ α} (h : phase.IsSound s)
    (hstored : ∀ e ∈ s.stored, e ∈ s'.stored) : phase.IsSound s' := by
  cases phase with
  | idle => trivial
  | received request => exact fun row hrow => hstored _ (h row hrow)
  | admitted request found => exact ⟨fun row hrow => hstored _ (h.1 row hrow), h.2⟩
  | answered status => trivial

namespace State

variable {s : State κ α}

/-- **A step of a request alone.** -/
theorem Inv.setPhase (h : s.Inv) {i : ℕ} {phase : Phase κ α} (hphase : phase.IsSound s) :
    (s.setPhase i phase).Inv where
  rows := h.rows
  unique := h.unique
  phases j := by
    show (Function.update s.phases i phase j).IsSound _
    by_cases hj : j = i
    · subst hj
      rw [Function.update_self]
      exact hphase.mono fun _ he => he
    · rw [Function.update_of_ne hj]
      exact (h.phases j).mono fun _ he => he
  modified := h.modified

/-- **A guarded write is protected.** -/
theorem Inv.isProtected (h : s.Inv) {i : ℕ} (hguarded : Guarded s (.write i))
    {request : Request κ α} {found : Option (Row α)} {row : Row α}
    (hphase : s.phases i = .admitted request found) (hrow : s.rows request.key = some row) :
    Modified.IsProtected ⟨request, row⟩ := by
  obtain ⟨hchecked, hmatch, hselects, ⟨entity, stamp, rfl, hentity, hstamp⟩, -⟩ :=
    hguarded request found row hphase hrow
  have hsound := h.phases i
  rw [hphase] at hsound
  obtain ⟨hbased, hadmit⟩ := hsound
  have hselect : (request.edmEntitySet.select entity).getGenericValueETag =
      row.getGenericValueETag := by
    rw [EntitySet.select, if_pos hselects, Row.getGenericValueETag, Row.getGenericValueETag,
      hentity, hstamp]
  have hetag : row.getGenericValueETag ≠ none := by
    rw [Row.getGenericValueETag, hstamp]
    exact Option.some_ne_none _
  rw [Request.admit_of_isChecked entity hchecked] at hadmit
  have hheader := Request.ifMatch_of_checkIfMatch hadmit hmatch (hselect ▸ hetag)
  rw [hselect] at hheader
  refine ⟨hmatch, hheader, fun based hbasedOn hbasedEtag => ?_⟩
  have heq := hbasedEtag.trans hheader
  exact h.unique request.key based row (hbased based hbasedOn) (h.rows _ _ hrow)
    (heq ▸ hetag) heq

variable [DecidableEq κ] {hasStamp : κ → Bool}

theorem mem_put {key : κ} {fields : Option α} {e : κ × Row α} :
    e ∈ (s.put hasStamp key fields).stored ↔
      (∃ value, fields = some value ∧ e = (key, s.stamp hasStamp key value)) ∨ e ∈ s.stored := by
  rw [put, List.mem_append, Option.mem_toList, Option.map_eq_some_iff]
  simp only [eq_comm (b := e)]

/-- **A row is stored** at a new time: its ETag is that of no row before. -/
theorem Inv.put (h : s.Inv) {key : κ} (hfresh : s.IsFresh key) (fields : Option α) :
    (s.put hasStamp key fields).Inv where
  rows key' row hrow := by
    change Function.update s.rows key _ key' = some row at hrow
    by_cases hkey : key' = key
    · subst hkey
      rw [Function.update_self] at hrow
      obtain ⟨value, hvalue, rfl⟩ := Option.map_eq_some_iff.mp hrow
      exact mem_put.mpr (.inl ⟨value, hvalue, rfl⟩)
    · rw [Function.update_of_ne hkey] at hrow
      exact mem_put.mpr (.inr (h.rows key' row hrow))
  unique key' row row' hmem hmem' hetag heq := by
    -- the new row has the time of the clock, which none of the old rows has
    have hnew {value : α} {old : Row α} (hold : (key, old) ∈ s.stored)
        (hetag : (s.stamp hasStamp key value).getGenericValueETag ≠ none) :
        (s.stamp hasStamp key value).getGenericValueETag ≠ old.getGenericValueETag := by
      intro heq
      have hstamp := Row.lastUpdatedStamp_eq heq
      by_cases hhas : hasStamp key = true
      · rw [stamp, if_pos hhas] at hstamp
        exact absurd (hfresh old hold s.clock hstamp.symm) (Int.lt_irrefl _)
      · rw [stamp, if_neg hhas] at hetag
        exact hetag rfl
    rcases mem_put.mp hmem with ⟨value, hvalue, hrow⟩ | hold
    · obtain ⟨rfl, rfl⟩ := Prod.mk.inj hrow
      rcases mem_put.mp hmem' with ⟨value', hvalue', hrow'⟩ | hold'
      · rw [(Prod.mk.inj hrow').2, Option.some.inj (hvalue.symm.trans hvalue')]
      · exact absurd heq (hnew hold' hetag)
    · rcases mem_put.mp hmem' with ⟨value', hvalue', hrow'⟩ | hold'
      · obtain ⟨rfl, rfl⟩ := Prod.mk.inj hrow'
        exact absurd heq.symm (hnew hold (heq ▸ hetag))
      · exact h.unique key' row row' hold hold' hetag heq
  phases i := (h.phases i).mono fun _ he => mem_put.mpr (.inr he)
  modified := h.modified

/-- **Every guarded step keeps the invariant.** -/
theorem Inv.next (h : s.Inv) {e : Event κ α} (henabled : s.Enabled e) (hguarded : Guarded s e) :
    (s.next hasStamp e).Inv := by
  cases e with
  | receive i request => exact h.setPhase henabled.2
  | read i =>
    rw [State.next]
    split
    · rename_i request hphase
      have hsound := h.phases i
      rw [hphase] at hsound
      split
      · exact h.setPhase trivial
      · rename_i hadmit
        exact h.setPhase ⟨hsound, hadmit⟩
    · exact h
  | write i =>
    rw [State.next]
    split
    · rename_i request found hphase
      split
      · exact h.setPhase trivial
      · rename_i row hrow
        obtain ⟨-, -, -, -, hfresh⟩ := hguarded request found row hphase hrow
        have hput : (s.put hasStamp request.key (request.operation.apply row.fields)).Inv :=
          h.put hfresh _
        have hwritten : ((s.put hasStamp request.key
            (request.operation.apply row.fields)).setPhase i (.answered .ok)).Inv :=
          hput.setPhase trivial
        refine ⟨hwritten.rows, hwritten.unique, hwritten.phases, fun m hm => ?_⟩
        rcases List.mem_cons.mp hm with rfl | hm
        · exact h.isProtected hguarded hphase hrow
        · exact h.modified m hm
    · exact h
  | other key fields => exact h.put hguarded fields
  | tick clock =>
    exact ⟨h.rows, h.unique, fun i => (h.phases i).mono fun _ he => he, h.modified⟩

end State

/-- **Optimistic concurrency** in the runs whose writes meet the condition: every modification is
one of the row that its client had read. -/
theorem isProtected_of_reachable [DecidableEq κ] (hasStamp : κ → Bool) {s : State κ α}
    (h : ((system hasStamp).restrict Guarded).Reachable s) :
    ∀ m ∈ s.modified, m.IsProtected := by
  refine (h.invariant (P := State.Inv) (fun s hinit => ?_) fun s e s' _ hinv hstep => ?_).modified
  · obtain ⟨hrows, hphases, hmodified⟩ := hinit
    refine ⟨fun key row => (hrows key row).mp, fun key row row' hmem hmem' _ _ => ?_, fun i => ?_,
      fun m hm => ?_⟩
    · exact Option.some.inj (((hrows key row).mpr hmem).symm.trans ((hrows key row').mpr hmem'))
    · rw [hphases i]
      trivial
    · rw [hmodified] at hm
      exact absurd hm List.not_mem_nil
  · obtain ⟨⟨henabled, rfl⟩, hguarded⟩ := hstep
    exact hinv.next henabled hguarded

/-! ### Two clients of a row -/

def startState : State Unit ℕ where
  rows := fun _ => some ⟨some 5, 0⟩
  clock := 6
  phases := fun _ => .idle
  stored := [((), ⟨some 5, 0⟩)]
  modified := []

def clientRequest (operation : Operation ℕ) : Request Unit ℕ where
  edmEntitySet := ⟨some [.optimisticConcurrency], true⟩
  key := ()
  ifMatch := some ['5']
  operation := operation
  basedOn := some ⟨some 5, 0⟩

theorem system_init_startState : (system fun _ => true).init startState := by
  refine ⟨fun key row => ?_, fun i => rfl, rfl⟩
  simp only [startState, List.mem_singleton, Prod.mk.injEq, Option.some.injEq]
  exact ⟨fun h => ⟨trivial, h.symm⟩, fun h => h.2.symm⟩

def deletedState : State Unit ℕ :=
  ((startState.next (fun _ => true) (.receive 0 (clientRequest .deleteEntity))).next
    (fun _ => true) (.read 0)).next (fun _ => true) (.write 0)

theorem isProtected_deletedState :
    ((system fun _ => true).restrict Guarded).Reachable deletedState ∧
      ∀ m ∈ deletedState.modified, m.IsProtected := by
  have hbased : startState.Enabled (.receive 0 (clientRequest .deleteEntity)) :=
    ⟨rfl, fun row hrow => by rw [← Option.some.inj hrow]; exact List.mem_cons_self⟩
  have hreach : ((system fun _ => true).restrict Guarded).Reachable deletedState := by
    refine .tail (.tail (.tail (.init system_init_startState)
      (e := .receive 0 (clientRequest .deleteEntity)) ⟨⟨hbased, rfl⟩, trivial⟩)
      (e := .read 0) ⟨⟨trivial, rfl⟩, trivial⟩) (e := .write 0) ⟨⟨trivial, rfl⟩, ?_⟩
    rintro request found row hphase hrow
    obtain ⟨rfl, rfl⟩ := Phase.admitted.inj hphase
    obtain rfl := Option.some.inj hrow
    refine ⟨rfl, Option.some_ne_none _, rfl, ⟨_, 5, rfl, rfl, rfl⟩, fun row hrow stamp hstamp => ?_⟩
    obtain ⟨-, rfl⟩ := Prod.mk.inj (List.mem_singleton.mp hrow)
    rw [← Option.some.inj hstamp]
    decide
  exact ⟨hreach, isProtected_of_reachable (fun _ => true) hreach⟩

def updatedState : State Unit ℕ :=
  (startState.next (fun _ => true) (.other () (some 1))).next (fun _ => true) (.tick 7)

def overwrittenState : State Unit ℕ :=
  ((updatedState.next (fun _ => true) (.receive 0 (clientRequest (.updateEntity fun _ => 2)))).next
    (fun _ => true) (.read 0)).next (fun _ => true) (.write 0)

theorem updateEntity_notProtected :
    (system fun _ => true).Reachable overwrittenState ∧
    ∃ m ∈ overwrittenState.modified,
      m.request.edmEntitySet.getEntitySet = some [.optimisticConcurrency] ∧
      m.request.ifMatch = some ['5'] ∧ m.row.getGenericValueETag = some ['6'] ∧
      ¬ m.IsProtected := by
  refine ⟨?_, ⟨clientRequest (.updateEntity fun _ => 2), ⟨some 6, 1⟩⟩, List.mem_cons_self, rfl,
    rfl, rfl, fun h => ?_⟩
  · have hupdated : (system fun _ => true).Reachable updatedState :=
      .tail (.tail (.init system_init_startState) (e := .other () (some 1)) ⟨trivial, rfl⟩)
        (e := .tick 7) ⟨trivial, rfl⟩
    have hbased : updatedState.Enabled
        (.receive 0 (clientRequest (.updateEntity fun _ => 2))) := by
      refine ⟨rfl, fun row hrow => ?_⟩
      rw [← Option.some.inj hrow]
      exact List.mem_cons_of_mem _ List.mem_cons_self
    exact .tail (.tail (.tail hupdated (e := .receive 0 _) ⟨hbased, rfl⟩)
      (e := .read 0) ⟨trivial, rfl⟩) (e := .write 0) ⟨trivial, rfl⟩
  · exact absurd h.2.1 (by decide)

end OfficeAuto.Odata.AnnotationCheck
