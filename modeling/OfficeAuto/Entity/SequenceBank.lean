import Mathlib.Algebra.Order.Ring.Int
import OfficeAuto.Logic.Allocation
import OfficeAuto.Logic.Transition

/-!
# Sequence banks

`SequenceUtil.SequenceBank`: each server takes identifiers of a sequence from a bank in its
memory, `curSeqId` up to `maxSeqId`, and fills the bank from the row of the sequence in
`SequenceValueItem`. The methods of a bank are synchronized, and the only access to the row is
the one transaction of `fillBank`, so a step of the system is a call on one bank. The outcome
of its transaction is part of the step.

The row holds an exact number, of which `getLong` reads what a `long` can hold; in memory the
arithmetic is that of `long`. A `stagger` is any `long` from 1 on, since `Math.random` is multiplied
by a `staggerMax` without an upper bound. For a large one `curSeqId + stagger` or `stagger * 10`
overflows: a check passes that should not, or the row is decreased. The banks are an allocation of
identifiers in blocks, and `returned_nodup_of_fits` proves that no identifier is returned twice in
the runs without such an overflow.
-/

namespace OfficeAuto.Entity

/-! ### Banks -/

def long (n : ℤ) : ℤ := n.bmod (2 ^ 64)

def IsLong (n : ℤ) : Prop := -2 ^ 63 ≤ n ∧ n < 2 ^ 63

instance : DecidablePred IsLong := fun _ => inferInstanceAs (Decidable (_ ∧ _))

def defaultBankSize : ℤ := 10

def maxBankSize : ℤ := 5000

def startSeqId : ℤ := 10000

structure SequenceBank where
  bankSize : ℤ
  curSeqId : ℤ
  maxSeqId : ℤ
  deriving DecidableEq

/-- The bank that `getBank` makes for the `sequence-bank-size` of an entity. -/
def getBank (sequenceBankSize : Option ℤ) : SequenceBank :=
  match sequenceBankSize with
  | none => ⟨defaultBankSize, 0, 0⟩
  | some bankSize => ⟨if maxBankSize < bankSize then maxBankSize else bankSize, 0, 0⟩

namespace SequenceBank

def fillSize (bank : SequenceBank) (stagger : ℤ) : ℤ :=
  let bankSize := if 1 < stagger then long (stagger * defaultBankSize) else bank.bankSize
  if maxBankSize < bankSize then maxBankSize else bankSize

def Available (bank : SequenceBank) (stagger : ℤ) : Prop :=
  long (bank.curSeqId + stagger) ≤ bank.maxSeqId

instance (bank : SequenceBank) (stagger : ℤ) : Decidable (bank.Available stagger) :=
  inferInstanceAs (Decidable (_ ≤ _))

def reset (bank : SequenceBank) : SequenceBank :=
  { bank with curSeqId := 0, maxSeqId := 0 }

end SequenceBank

/-- How a fill ends: it is committed; an exception is caught and it is rolled back; it is
committed, and an exception of `commit` or `resume` is caught. -/
inductive FillOutcome
  | committed
  | rolledBack
  | committedButFailed
  deriving DecidableEq

/-- `fillBank`, on the row of the sequence. A missing row is inserted with the start value. -/
def fillBank (row : Option ℤ) (bank : SequenceBank) (stagger : ℤ) (outcome : FillOutcome) :
    Option ℤ × SequenceBank :=
  if bank.Available stagger then (row, bank)
  else
    let seqId := row.getD startSeqId
    let bankSize := bank.fillSize stagger
    -- a value that `getLong` cannot read is an `SQLException`
    if IsLong seqId then
      match outcome with
      | .committed => (some (seqId + bankSize),
          { bank with curSeqId := seqId, maxSeqId := long (seqId + bankSize) })
      | .rolledBack => (row, bank.reset)
      | .committedButFailed => (some (seqId + bankSize), bank.reset)
    else (row, bank.reset)

/-- The row, the bank and the result after a call of `getNextSeqId`. -/
structure NextSeqId where
  row : Option ℤ
  bank : SequenceBank
  retSeqId : Option ℤ
  deriving DecidableEq

def takeSeqId (row : Option ℤ) (bank : SequenceBank) (stagger : ℤ) : NextSeqId :=
  ⟨row, { bank with curSeqId := long (bank.curSeqId + stagger) }, some bank.curSeqId⟩

def getNextSeqId (row : Option ℤ) (bank : SequenceBank) (stagger : ℤ) (outcome : FillOutcome) :
    NextSeqId :=
  if bank.Available stagger then takeSeqId row bank stagger
  else
    let filled := fillBank row bank stagger outcome
    if filled.2.Available stagger then takeSeqId filled.1 filled.2 stagger
    else ⟨filled.1, filled.2, none⟩

def refresh (row : Option ℤ) (bank : SequenceBank) (staggerMax : ℤ) (outcome : FillOutcome) :
    Option ℤ × SequenceBank :=
  fillBank row { bank with curSeqId := bank.maxSeqId } staggerMax outcome

/-! ### Servers that share the row -/

section System

variable {ι : Type} [DecidableEq ι]

/-- The row of the sequence, the bank of each server, and what has been returned so far. -/
structure SequenceState (ι : Type) where
  row : Option ℤ
  bank : ι → SequenceBank
  returned : List ℤ

inductive SequenceAct
  | getNextSeqId (staggerMax stagger : ℤ) (outcome : FillOutcome)
  | refresh (staggerMax : ℤ) (outcome : FillOutcome)
  deriving DecidableEq

def Drawn (staggerMax stagger : ℤ) : Prop :=
  1 ≤ stagger ∧ stagger < 2 ^ 63 ∧ (staggerMax ≤ 1 → stagger = 1)

instance (staggerMax stagger : ℤ) : Decidable (Drawn staggerMax stagger) :=
  inferInstanceAs (Decidable (_ ∧ _))

def SequenceState.set (s : SequenceState ι) (i : ι) (row : Option ℤ) (bank : SequenceBank) :
    SequenceState ι :=
  { s with row := row, bank := Function.update s.bank i bank }

def SequenceState.give (s : SequenceState ι) (retSeqId : Option ℤ) : SequenceState ι :=
  { s with returned := retSeqId.toList ++ s.returned }

def sequenceStep (s : SequenceState ι) : ι × SequenceAct → Option (SequenceState ι)
  | (i, .getNextSeqId staggerMax stagger outcome) =>
    if Drawn staggerMax stagger then
      let next := getNextSeqId s.row (s.bank i) stagger outcome
      some ((s.set i next.row next.bank).give next.retSeqId)
    else none
  | (i, .refresh staggerMax outcome) =>
    let filled := refresh s.row (s.bank i) staggerMax outcome
    some (s.set i filled.1 filled.2)

/-- Any number of servers, in any interleaving, over a row with any value or none. -/
def sequenceBanks (sequenceBankSize : ι → Option ℤ) :
    System (SequenceState ι) (ι × SequenceAct) :=
  .ofStep (fun s => (∀ i, s.bank i = getBank (sequenceBankSize i)) ∧ s.returned = [])
    sequenceStep

/-! ### Arithmetic of `long` -/

theorem long_of_isLong {n : ℤ} (h : IsLong n) : long n = n := by
  obtain ⟨hlow, hhigh⟩ := h
  rw [long, Int.bmod_eq_of_le (by omega) (by omega)]

theorem isLong_long (n : ℤ) : IsLong (long n) := by
  have hlow := Int.le_bmod (x := n) (m := 2 ^ 64) (by decide)
  have hhigh := Int.bmod_lt (x := n) (m := 2 ^ 64) (by decide)
  rw [IsLong, long]
  constructor <;> omega

theorem long_le {n : ℤ} (h : -2 ^ 63 ≤ n) : long n ≤ n := by
  by_cases hhigh : n < 2 ^ 63
  · exact (long_of_isLong ⟨h, hhigh⟩).le
  · exact ((isLong_long n).2.trans_le (not_lt.mp hhigh)).le

/-! ### Runs without an overflow -/

def FillFits (stagger : ℤ) : Prop :=
  1 < stagger → 0 < long (stagger * defaultBankSize)

/-- The call does not overflow: neither the sum that the check of the bank compares, nor after
a fill the one that the second check compares, nor the increment of the fill. -/
def Fits (s : SequenceState ι) : ι × SequenceAct → Prop
  | (i, .getNextSeqId _ stagger outcome) =>
    (s.bank i).curSeqId + stagger < 2 ^ 63 ∧
    (¬ (s.bank i).Available stagger → outcome ≠ .rolledBack →
      FillFits stagger ∧ s.row.getD startSeqId + stagger < 2 ^ 63)
  | (i, .refresh staggerMax outcome) =>
    ¬ { s.bank i with curSeqId := (s.bank i).maxSeqId : SequenceBank }.Available staggerMax →
      outcome ≠ .rolledBack → FillFits staggerMax

instance (stagger : ℤ) : Decidable (FillFits stagger) :=
  inferInstanceAs (Decidable (_ → _))

instance (s : SequenceState ι) : (e : ι × SequenceAct) → Decidable (Fits s e)
  | (_, .getNextSeqId _ _ _) => inferInstanceAs (Decidable (_ ∧ (_ → _ → _)))
  | (_, .refresh _ _) => inferInstanceAs (Decidable (_ → _ → _))

/-- What a bank holds in memory. -/
structure SequenceBank.Ok (bank : SequenceBank) : Prop where
  size : 0 < bank.bankSize
  cur : IsLong bank.curSeqId
  max : IsLong bank.maxSeqId

def SequenceBank.free (bank : SequenceBank) : Set ℤ :=
  {seqId | bank.curSeqId ≤ seqId ∧ seqId < bank.maxSeqId}

def SequenceState.allocation (s : SequenceState ι) : Allocation ι ℤ where
  bound := s.row.getD startSeqId
  free i := (s.bank i).free
  issued := s.returned

/-- The invariant of the runs without an overflow. -/
structure SequenceInv (s : SequenceState ι) : Prop where
  ok : ∀ i, (s.bank i).Ok
  sound : s.allocation.Sound

variable {s : SequenceState ι} {i : ι}

theorem set_bank_free (row : Option ℤ) (bank : SequenceBank) :
    (fun j => ((s.set i row bank).bank j).free) =
      Function.update (fun j => (s.bank j).free) i bank.free := by
  funext j
  by_cases h : j = i
  · subst h
    simp [SequenceState.set]
  · simp [SequenceState.set, h]

theorem SequenceInv.set_ok (h : SequenceInv s) {row : Option ℤ} {bank : SequenceBank}
    (hbank : bank.Ok) (j : ι) : ((s.set i row bank).bank j).Ok := by
  by_cases hj : j = i
  · subst hj
    simpa [SequenceState.set] using hbank
  · simpa [SequenceState.set, hj] using h.ok j

theorem allocation_set_self (bank : SequenceBank) :
    (s.set i s.row bank).allocation = s.allocation.discard i bank.free :=
  congrArg (fun free => (⟨s.row.getD startSeqId, free, s.returned⟩ : Allocation ι ℤ))
    (set_bank_free s.row bank)

theorem allocation_set_some (seqId : ℤ) (bank : SequenceBank) :
    (s.set i (some seqId) bank).allocation = s.allocation.reserve i bank.free seqId :=
  congrArg (fun free => (⟨seqId, free, s.returned⟩ : Allocation ι ℤ))
    (set_bank_free (some seqId) bank)

omit [DecidableEq ι] in
theorem allocation_give (retSeqId : ℤ) :
    (s.give (some retSeqId)).allocation = s.allocation.issue retSeqId :=
  rfl

theorem SequenceInv.discard (h : SequenceInv s) {bank : SequenceBank} (hbank : bank.Ok)
    (hfree : bank.free ⊆ (s.bank i).free) : SequenceInv (s.set i s.row bank) := by
  refine ⟨h.set_ok hbank, ?_⟩
  rw [allocation_set_self]
  exact h.sound.discard hfree

theorem SequenceInv.reserve (h : SequenceInv s) {bank : SequenceBank} (hbank : bank.Ok)
    {size : ℤ} (hsize : 0 ≤ size)
    (hfree : ∀ seqId ∈ bank.free,
      s.row.getD startSeqId ≤ seqId ∧ seqId < s.row.getD startSeqId + size) :
    SequenceInv (s.set i (some (s.row.getD startSeqId + size)) bank) := by
  refine ⟨h.set_ok hbank, ?_⟩
  rw [allocation_set_some]
  exact h.sound.reserve (Int.le_add_of_nonneg_right hsize) hfree

theorem SequenceBank.Ok.reset {bank : SequenceBank} (h : bank.Ok) : bank.reset.Ok :=
  ⟨h.size, (by decide : IsLong 0), (by decide : IsLong 0)⟩

theorem SequenceBank.free_self (bankSize seqId : ℤ) :
    SequenceBank.free ⟨bankSize, seqId, seqId⟩ = ∅ :=
  Set.eq_empty_of_forall_notMem fun _ hmem => not_lt_of_ge hmem.1 hmem.2

theorem SequenceBank.Ok.fillSize_pos {bank : SequenceBank} (h : bank.Ok) {stagger : ℤ}
    (hfits : FillFits stagger) : 0 < bank.fillSize stagger := by
  have hsize : 0 < if 1 < stagger then long (stagger * defaultBankSize) else bank.bankSize := by
    split_ifs with hstagger
    · exact hfits hstagger
    · exact h.size
  rw [SequenceBank.fillSize]
  by_cases hmax : maxBankSize < if 1 < stagger then long (stagger * defaultBankSize)
      else bank.bankSize
  · exact (if_pos hmax).symm ▸ (by decide : 0 < maxBankSize)
  · exact (if_neg hmax).symm ▸ hsize

/-- **A fill keeps the invariant**, unless the row would be decreased. -/
theorem SequenceInv.fillBank (h : SequenceInv s) {bank : SequenceBank} (hbank : bank.Ok)
    (hfree : bank.free ⊆ (s.bank i).free) {stagger : ℤ} {outcome : FillOutcome}
    (hfits : ¬ bank.Available stagger → outcome ≠ .rolledBack → FillFits stagger) :
    SequenceInv (s.set i (fillBank s.row bank stagger outcome).1
      (fillBank s.row bank stagger outcome).2) := by
  have hempty : bank.reset.free ⊆ (s.bank i).free := by
    rw [SequenceBank.reset, SequenceBank.free_self]
    exact Set.empty_subset _
  dsimp only [Entity.fillBank]
  split_ifs with havailable hlong
  · exact h.discard hbank hfree
  · cases outcome with
    | committed =>
      have hsize := hbank.fillSize_pos (hfits havailable (by decide))
      have hok : SequenceBank.Ok ⟨bank.bankSize, s.row.getD startSeqId,
          long (s.row.getD startSeqId + bank.fillSize stagger)⟩ :=
        ⟨hbank.size, hlong, isLong_long _⟩
      refine h.reserve hok hsize.le ?_
      have hlow := hlong.1
      have hmax := long_le (n := s.row.getD startSeqId + bank.fillSize stagger) (by omega)
      exact fun seqId hmem => ⟨hmem.1, hmem.2.trans_le hmax⟩
    | rolledBack => exact h.discard hbank.reset hempty
    | committedButFailed =>
      have hsize := hbank.fillSize_pos (hfits havailable (by decide))
      refine h.reserve hbank.reset hsize.le ?_
      rw [SequenceBank.reset, SequenceBank.free_self]
      exact fun _ hmem => absurd hmem (Set.notMem_empty _)
  · exact h.discard hbank.reset hempty

/-- **A bank in which the identifiers are available** returns one that it holds. -/
theorem SequenceInv.take (h : SequenceInv s) {stagger : ℤ} (hstagger : 1 ≤ stagger)
    (havailable : (s.bank i).Available stagger)
    (hfits : (s.bank i).curSeqId + stagger < 2 ^ 63) :
    SequenceInv ((s.set i s.row (takeSeqId s.row (s.bank i) stagger).bank).give
      (some (s.bank i).curSeqId)) := by
  have hok := h.ok i
  have hsum : IsLong ((s.bank i).curSeqId + stagger) := by
    have hlow := hok.cur.1
    exact ⟨by omega, hfits⟩
  have hnext : (takeSeqId s.row (s.bank i) stagger).bank =
      ⟨(s.bank i).bankSize, (s.bank i).curSeqId + stagger, (s.bank i).maxSeqId⟩ := by
    rw [takeSeqId, long_of_isLong hsum]
  rw [SequenceBank.Available, long_of_isLong hsum] at havailable
  have hbank : SequenceBank.Ok
      ⟨(s.bank i).bankSize, (s.bank i).curSeqId + stagger, (s.bank i).maxSeqId⟩ :=
    ⟨hok.size, hsum, hok.max⟩
  rw [hnext]
  refine ⟨@SequenceInv.set_ok _ _ s i h s.row _ hbank, ?_⟩
  have hmem : (s.bank i).curSeqId ∈ s.allocation.free i := ⟨le_rfl, by omega⟩
  have hkept : SequenceBank.free
      ⟨(s.bank i).bankSize, (s.bank i).curSeqId + stagger, (s.bank i).maxSeqId⟩ ⊆
      s.allocation.free i := fun seqId hseq => by
    have hle : (s.bank i).curSeqId + stagger ≤ seqId := hseq.1
    exact ⟨by omega, hseq.2⟩
  have hissued := h.sound.issue hmem hkept fun hcur => by
    have hle : (s.bank i).curSeqId + stagger ≤ (s.bank i).curSeqId := hcur.1
    omega
  rw [allocation_give, allocation_set_self]
  exact hissued

theorem fillBank_curSeqId {row : Option ℤ} {bank : SequenceBank} {stagger : ℤ}
    {outcome : FillOutcome} (h : ¬ bank.Available stagger) :
    (fillBank row bank stagger outcome).2.curSeqId = 0 ∨
      outcome = .committed ∧
        (fillBank row bank stagger outcome).2.curSeqId = row.getD startSeqId := by
  dsimp only [fillBank]
  rw [if_neg h]
  split_ifs
  · cases outcome with
    | committed => exact Or.inr ⟨rfl, rfl⟩
    | rolledBack => exact Or.inl rfl
    | committedButFailed => exact Or.inl rfl
  · exact Or.inl rfl

theorem set_set (row row' : Option ℤ) (bank bank' : SequenceBank) :
    (s.set i row bank).set i row' bank' = s.set i row' bank' := by
  simp [SequenceState.set]

theorem set_bank_self (row : Option ℤ) (bank : SequenceBank) :
    (s.set i row bank).bank i = bank := by
  simp [SequenceState.set]

/-- **A call of `getNextSeqId` keeps the invariant**, with or without a fill. -/
theorem SequenceInv.getNextSeqId (h : SequenceInv s) {staggerMax stagger : ℤ}
    {outcome : FillOutcome} (hdrawn : Drawn staggerMax stagger)
    (hcur : (s.bank i).curSeqId + stagger < 2 ^ 63)
    (hfill : ¬ (s.bank i).Available stagger → outcome ≠ .rolledBack →
      FillFits stagger ∧ s.row.getD startSeqId + stagger < 2 ^ 63) :
    SequenceInv ((s.set i (getNextSeqId s.row (s.bank i) stagger outcome).row
      (getNextSeqId s.row (s.bank i) stagger outcome).bank).give
        (getNextSeqId s.row (s.bank i) stagger outcome).retSeqId) := by
  by_cases havailable : (s.bank i).Available stagger
  · rw [Entity.getNextSeqId, if_pos havailable]
    exact h.take hdrawn.1 havailable hcur
  have hfits : ¬ (s.bank i).Available stagger → outcome ≠ .rolledBack → FillFits stagger :=
    fun hnot houtcome => (hfill hnot houtcome).1
  have hfilled := h.fillBank (h.ok i) subset_rfl hfits
  have hstart :
      (Entity.fillBank s.row (s.bank i) stagger outcome).2.curSeqId + stagger < 2 ^ 63 := by
    obtain hzero | ⟨rfl, hrow⟩ : (Entity.fillBank s.row (s.bank i) stagger outcome).2.curSeqId = 0 ∨
        outcome = .committed ∧ (Entity.fillBank s.row (s.bank i) stagger outcome).2.curSeqId =
          s.row.getD startSeqId := fillBank_curSeqId havailable
    · have hhigh := hdrawn.2.1
      rw [hzero]
      omega
    · rw [hrow]
      exact (hfill havailable (by decide)).2
  dsimp only [Entity.getNextSeqId]
  rw [if_neg havailable]
  split_ifs with hagain
  · have htaken := hfilled.take (i := i) hdrawn.1
      (by rwa [set_bank_self]) (by rwa [set_bank_self])
    rw [set_bank_self, set_set] at htaken
    exact htaken
  · exact hfilled

/-- **The invariant is kept** by every call without an overflow. -/
theorem SequenceInv.step (h : SequenceInv s) {act : SequenceAct} {s' : SequenceState ι}
    (hstep : sequenceStep s (i, act) = some s') (hfits : Fits s (i, act)) :
    SequenceInv s' := by
  cases act with
  | getNextSeqId staggerMax stagger outcome =>
    dsimp only [sequenceStep] at hstep
    split_ifs at hstep with hdrawn
    obtain rfl := Option.some.inj hstep
    exact h.getNextSeqId hdrawn hfits.1 hfits.2
  | refresh staggerMax outcome =>
    obtain rfl := Option.some.inj hstep
    have hok : SequenceBank.Ok { s.bank i with curSeqId := (s.bank i).maxSeqId } :=
      ⟨(h.ok i).size, (h.ok i).max, (h.ok i).max⟩
    have hfree : SequenceBank.free { s.bank i with curSeqId := (s.bank i).maxSeqId } ⊆
        (s.bank i).free := by
      rw [SequenceBank.free_self]
      exact Set.empty_subset _
    exact h.fillBank hok hfree hfits

theorem getBank_ok {sequenceBankSize : Option ℤ} (h : ∀ n ∈ sequenceBankSize, 0 < n) :
    (getBank sequenceBankSize).Ok ∧ (getBank sequenceBankSize).free = ∅ := by
  cases sequenceBankSize with
  | none => exact ⟨⟨by decide, by decide, by decide⟩, SequenceBank.free_self _ _⟩
  | some bankSize =>
    refine ⟨⟨?_, (by decide : IsLong 0), (by decide : IsLong 0)⟩, SequenceBank.free_self _ _⟩
    rw [getBank]
    split_ifs
    · exact (by decide : 0 < maxBankSize)
    · exact h bankSize rfl

/-- **No identifier is returned twice**, by whatever server, in the runs without an overflow. -/
theorem returned_nodup_of_fits {sequenceBankSize : ι → Option ℤ}
    (hsize : ∀ i, ∀ n ∈ sequenceBankSize i, 0 < n)
    (h : ((sequenceBanks sequenceBankSize).restrict Fits).Reachable s) : s.returned.Nodup := by
  have hinv : SequenceInv s := by
    refine h.invariant (P := SequenceInv) ?_ ?_
    · rintro s ⟨hbank, hreturned⟩
      have hempty : ∀ j, (s.bank j).free = ∅ := fun j =>
        (hbank j).symm ▸ (getBank_ok (hsize j)).2
      refine ⟨fun j => (hbank j).symm ▸ (getBank_ok (hsize j)).1, ?_⟩
      constructor <;> simp [SequenceState.allocation, hempty, hreturned]
    · rintro s ⟨i, act⟩ s' - hs ⟨hstep, hfits⟩
      exact hs.step hstep hfits
  exact hinv.sound.nodup

end System

/-! ### Two servers and one server -/

def fittingRun : List (Bool × SequenceAct) :=
  [(false, .getNextSeqId 1 1 .committed), (true, .getNextSeqId 20 7 .rolledBack),
    (true, .getNextSeqId 20 7 .committed), (false, .refresh 1 .committed),
    (false, .getNextSeqId 1 1 .committed), (true, .getNextSeqId 1 1 .committed)]

def fittingStep (s : SequenceState Bool) (e : Bool × SequenceAct) :
    Option (SequenceState Bool) :=
  if Fits s e then sequenceStep s e else none

theorem returned_nodup_of_fits_fittingRun :
    ∃ s, fittingRun.foldlM fittingStep ⟨some 20000, fun _ => getBank none, []⟩ = some s ∧
      s.returned = [20017, 20080, 20010, 20000] ∧ s.returned.Nodup := by
  have hreturned : (fittingRun.foldlM fittingStep
      ⟨some 20000, fun _ => getBank none, []⟩).map SequenceState.returned =
      some [20017, 20080, 20010, 20000] := by decide
  obtain ⟨s, hrun, hs⟩ := Option.map_eq_some_iff.mp hreturned
  have hinit : ((sequenceBanks fun _ : Bool => none).restrict Fits).Reachable
      ⟨some 20000, fun _ => getBank none, []⟩ := System.Reachable.init ⟨fun _ => rfl, rfl⟩
  have hreach : ((sequenceBanks fun _ : Bool => none).restrict Fits).Reachable s := by
    refine hinit.foldlM (fun e _ t t' ht => ?_) hrun
    rw [fittingStep] at ht
    split_ifs at ht with hfits
    exact ⟨ht, hfits⟩
  exact ⟨s, hrun, hs, returned_nodup_of_fits (fun i n hn => by cases hn) hreach⟩

/-- One server. Its fourth call draws a stagger whose tenfold is -1536 as a `long`: the row
goes back by that much. -/
def overflowRun : List (Unit × SequenceAct) :=
  [((), .getNextSeqId 1000 1000 .committed), ((), .getNextSeqId 4000 2464 .committed),
    ((), .getNextSeqId 1 1 .committed),
    ((), .getNextSeqId (2 ^ 61) 1844674407370955008 .committed),
    ((), .getNextSeqId 1 1 .committed)]

/-- **An identifier can be returned twice**, even by one server. -/
theorem returned_twice :
    ¬ ∀ s, (sequenceBanks fun _ : Unit => some 10).Reachable s → s.returned.Nodup := by
  intro hall
  have hreturned : (overflowRun.foldlM sequenceStep
      ⟨none, fun _ => getBank (some 10), []⟩).map SequenceState.returned =
      some [13464, 13464, 11000, 10000] := by decide
  obtain ⟨s, hrun, hs⟩ := Option.map_eq_some_iff.mp hreturned
  have hinit : (sequenceBanks fun _ : Unit => some 10).Reachable
      ⟨none, fun _ => getBank (some 10), []⟩ := System.Reachable.init ⟨fun _ => rfl, rfl⟩
  have hnodup := hall s (hinit.foldlM (fun _ _ _ _ ht => ht) hrun)
  rw [hs] at hnodup
  exact absurd hnodup (by decide)

end OfficeAuto.Entity
