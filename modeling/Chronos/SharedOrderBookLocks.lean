import Chronos.SharedOrderBook

/-!
# The locks of the shared order book

What a thread holds and still owes follows from the instructions it has left:
an instruction fits a mode and leads to the next. The locks are held by the
threads whose modes say so, the lock of the levels by one thread alone or by
others together. The spin lock is only waited for by a thread that has
the levels' lock, so some operation can always go on.
-/

set_option autoImplicit false

namespace Chronos.SharedOrderBook
open OrderBook (HotData ColdData)

inductive Hold where
  | free
  | shared
  | alone
  deriving DecidableEq

inductive Stage where
  | out
  | locked
  | writing
  | written
  deriving DecidableEq

structure Mode where
  cold : Hold := .free
  hot : Stage := .out
  cleared : Bool := false
  dirty : Bool := false
  trim : Bool := false
  deriving DecidableEq

def Copies (rest : List Instr) : Prop :=
  ∃ t tail, rest = .copyBid::.copyAsk::.store (.lastUpdateTime t)::.bump::tail

def Clears (rest : List Instr) : Prop :=
  ∃ tail, rest = .store (.hasBids false)::.store (.hasAsks false)::.store (.bestBidPrice 0)::
    .store (.bestBidQuantity 0)::.store (.bestAskPrice 0)::.store (.bestAskQuantity 0)::.bump::tail

def Fits (m : Mode) (rest : List Instr) : Instr → Prop
  | .lockCold | .lockShared => m.cold = .free ∧ m.hot = .out
  | .unlockCold => m.cold = .alone ∧ m.hot = .out
  | .unlockShared => m.cold = .shared ∧ m.hot = .out
  | .lockHot => m.cold ≠ .free ∧ m.hot = .out
  | .unlockHot => m.cold ≠ .free ∧ m.hot = .written
  | .change _ | .countUpdate _ => m.cold = .alone ∧ m.hot = .out
  | .answer _ => m.cold ≠ .free
  | .bump => m.cold ≠ .free ∧
    (m.hot = .locked ∧ (Copies rest ∨ m.cleared = true ∧ Clears rest) ∨ m.hot = .writing)
  | .copyBid | .copyAsk | .store _ => m.cold ≠ .free ∧ m.hot = .writing

def Mode.next (m : Mode) : Instr → Mode
  | .lockCold => { m with cold := .alone }
  | .unlockCold => { m with cold := .free, cleared := false }
  | .lockShared => { m with cold := .shared }
  | .unlockShared => { m with cold := .free }
  | .lockHot => { m with hot := .locked }
  | .unlockHot => { m with hot := .out }
  | .change .trimDepth => { m with cleared := false, trim := false }
  | .change .clear => { m with cleared := true, dirty := true }
  | .change (.rebuild _) => { m with cleared := false, dirty := true }
  | .change _ => { m with cleared := false, dirty := true, trim := true }
  | .bump => if m.hot = .locked then { m with hot := .writing }
    else { m with hot := .written, dirty := false }
  | _ => m

def Typed : Mode → List Instr → Prop
  | m, [] => m = {}
  | m, i::rest => Fits m rest i ∧ Typed (m.next i) rest

/-- Every operation takes its locks in order and gives back what it takes. -/
theorem program_typed (op : Op) : Typed {} (program op) := by
  cases op with
  | update tick =>
    have hc : levelChange tick = .updateBidLevel tick.price tick.quantity ∨
        levelChange tick = .updateAskLevel tick.price tick.quantity := by
      unfold levelChange
      split_ifs <;> simp
    rcases hc with hc | hc <;>
      simp [program, alone, updateHotData, hc, Typed, Fits, Mode.next, Copies]
  | clear => simp [program, Typed, Fits, Mode.next, Clears]
  | rebuildFromSnapshot snapshot nowUs =>
    simp [program, alone, updateHotData, Typed, Fits, Mode.next, Copies]
  | cold q => simp [program, Typed, Fits, Mode.next]

theorem typed_nested (m : Mode) (rest : List Instr) (h : Typed m rest) (hhot : m.hot ≠ .out) :
    m.cold ≠ .free := by
  cases rest with
  | nil =>
    obtain rfl : m = {} := h
    exact absurd rfl hhot
  | cons i rest =>
    have hf := h.1
    cases i <;> simp only [Fits] at hf <;> simp_all

theorem typed_stores (m : Mode) (xs : List Store) (rest : List Instr) (hcold : m.cold ≠ .free)
    (hhot : m.hot = .writing) (h : Typed m rest) : Typed m (xs.map .store++rest) := by
  induction xs with
  | nil => exact h
  | cons x xs ih => exact ⟨⟨hcold,hhot⟩,ih⟩

variable {n : ℕ}

theorem typed_follow (s : State n) (m : Mode) (i : Instr) (rest : List Instr) (h : Typed m (i::rest)) :
    Typed (m.next i) (s.follow rest i) := by
  cases i with
  | copyBid => exact typed_stores m _ rest h.1.1 h.1.2 h.2
  | copyAsk => exact typed_stores m _ rest h.1.1 h.1.2 h.2
  | _ => exact h.2

structure Locks (m : Fin n → Mode) (s : State n) : Prop where
  typed : ∀ i, Typed (m i) (s.threads i).rest
  alone : ∀ i, s.coldOwner = some i ↔ (m i).cold = .alone
  shared : ∀ i, i ∈ s.coldSharers ↔ (m i).cold = .shared
  apart : s.coldOwner ≠ none → s.coldSharers = ∅
  spin : ∀ i, s.hotOwner = some i ↔ (m i).hot ≠ .out

/-- The locks after a thread has moved from one mode to another. -/
structure Moves (s s' : State n) (i : Fin n) (before after : Mode) : Prop where
  alone : ∀ j, s'.coldOwner = some j ↔ if j = i then after.cold = .alone else s.coldOwner = some j
  shared : ∀ j, j ∈ s'.coldSharers ↔ if j = i then after.cold = .shared else j ∈ s.coldSharers
  apart : s'.coldOwner ≠ none → s'.coldSharers = ∅
  spin : ∀ j, s'.hotOwner = some j ↔ if j = i then after.hot ≠ .out else s.hotOwner = some j

theorem locks_update (m : Fin n → Mode) (s s' : State n) (i : Fin n) (p : Place) (m' : Mode)
    (h : Locks m s) (hthreads : s'.threads = Function.update s.threads i p) (htyped : Typed m' p.rest)
    (hmoves : Moves s s' i (m i) m') : Locks (Function.update m i m') s' := by
  constructor
  case typed =>
    intro j
    rw [hthreads]
    by_cases hj : j = i
    · subst hj
      simpa using htyped
    · simpa [hj] using h.typed j
  case alone =>
    intro j
    rw [hmoves.alone j]
    by_cases hj : j = i
    · simp [hj]
    · simpa [hj] using h.alone j
  case shared =>
    intro j
    rw [hmoves.shared j]
    by_cases hj : j = i
    · simp [hj]
    · simpa [hj] using h.shared j
  case apart => exact hmoves.apart
  case spin =>
    intro j
    rw [hmoves.spin j]
    by_cases hj : j = i
    · simp [hj]
    · simpa [hj] using h.spin j

section Exec
variable (m : Fin n → Mode) (s : State n) (i : Fin n) (h : Locks m s)
include h

theorem moves_same (s' : State n) (m' : Mode) (hown : s'.coldOwner = s.coldOwner)
    (hshare : s'.coldSharers = s.coldSharers) (hhot : s'.hotOwner = s.hotOwner)
    (hc : m'.cold = (m i).cold) (hs : m'.hot ≠ .out ↔ (m i).hot ≠ .out) : Moves s s' i (m i) m' := by
  constructor
  case alone =>
    intro j
    rw [hown, hc, ← h.alone i]
    split_ifs with hj
    · rw [hj]
    · rfl
  case shared =>
    intro j
    rw [hshare, hc, ← h.shared i]
    split_ifs with hj
    · rw [hj]
    · rfl
  case apart =>
    rw [hown, hshare]
    exact h.apart
  case spin =>
    intro j
    rw [hhot, hs, ← h.spin i]
    split_ifs with hj
    · rw [hj]
    · rfl

theorem owner_of_alone (hi : (m i).cold = .alone) : s.coldOwner = some i ∧ s.coldSharers = ∅ := by
  have ho := (h.alone i).mpr hi
  exact ⟨ho,h.apart (by simp [ho])⟩

theorem exec_moves (instr : Instr) (rest : List Instr) (hopen : s.Open instr)
    (hfits : Fits (m i) rest instr) :
    Moves s (s.exec i instr) i (m i) ((m i).next instr) := by
  have hal := h.alone i
  have hsh := h.shared i
  have hsp := h.spin i
  have hap := h.apart
  cases instr with
  | lockCold | lockShared =>
    constructor <;> simp only [State.Open, State.exec, Mode.next, Fits] at * <;> grind
  | unlockCold | unlockShared =>
    constructor <;> simp only [State.exec, Mode.next, Fits] at * <;> grind
  | lockHot | unlockHot =>
    constructor <;> simp only [State.Open, State.exec, Mode.next, Fits] at * <;> grind
  | change c => cases c <;> exact moves_same m s i h _ _ rfl rfl rfl rfl Iff.rfl
  | bump =>
    refine moves_same m s i h _ _ rfl rfl rfl ?_ ?_
    · unfold Mode.next
      split_ifs <;> rfl
    · simp only [Mode.next, Fits] at *
      grind
  | countUpdate | answer | copyBid | copyAsk | store => exact moves_same m s i h _ _ rfl rfl rfl rfl Iff.rfl

end Exec
def modes (m : Fin n → Mode) : Option (Fin n × Instr) → Fin n → Mode
  | some (i,instr) => Function.update m i ((m i).next instr)
  | none => m

theorem locks_place (m : Fin n → Mode) (s : State n) (i : Fin n) (p : Place) (h : Locks m s)
    (hp : Typed (m i) p.rest) : Locks m (s.place i p) := by
  have hsame := moves_same m s i h (s.place i p) (m i) rfl rfl rfl rfl Iff.rfl
  have hlocks := locks_update m s (s.place i p) i p (m i) h rfl hp hsame
  rwa [Function.update_eq_self] at hlocks

theorem rest_of_not_busy (p : Place) (h : p.busy = false) : p.rest = [] := by
  cases p <;> first | rfl | cases h

theorem mode_of_rest (m : Fin n → Mode) (s : State n) (i : Fin n) (h : Locks m s)
    (hr : (s.threads i).rest = []) : m i = {} := by
  have htyped := h.typed i
  rw [hr] at htyped
  exact htyped

theorem stepped_locks (m : Fin n → Mode) (s s' : State n) (a : Action n) (label : Option (Fin n × Instr))
    (hs : Stepped s a label s') (h : Locks m s) : Locks (modes m label) s' := by
  cases hs with
  | still a => exact h
  | start i op hidle =>
    refine locks_place m s i _ h ?_
    rw [mode_of_rest m s i h (by rw [hidle]; rfl)]
    exact program_typed op
  | finish i changed hop =>
    refine locks_place m _ i .idle ⟨h.typed,h.alone,h.shared,h.apart,h.spin⟩ ?_
    exact mode_of_rest m s i h (by rw [hop]; rfl)
  | exec i changed instr rest hop hopen =>
    have htyped := h.typed i
    rw [hop] at htyped
    have hmoves := exec_moves m s i h instr rest hopen htyped.1
    refine locks_update m s _ i (.op (s.changes changed instr) (s.follow rest instr)) _ h ?_
      (typed_follow s (m i) instr rest htyped) ⟨hmoves.alone,hmoves.shared,hmoves.apart,hmoves.spin⟩
    cases instr <;> rfl
  | read a i p returns hi hp =>
    refine locks_place m _ i p ⟨h.typed,h.alone,h.shared,h.apart,h.spin⟩ ?_
    rw [rest_of_not_busy p hp]
    exact mode_of_rest m s i h (rest_of_not_busy _ hi)

theorem initial_locks : Locks (fun _ : Fin n => {}) ({} : State n) where
  typed _ := rfl
  alone _ := by simp
  shared _ := by simp
  apart := fun h => absurd rfl h
  spin _ := by simp

section Progress

theorem open_of (m : Mode) (s : State n) (instr : Instr) (rest : List Instr) (hf : Fits m rest instr)
    (hcold : m.cold ≠ .free ∨ s.coldOwner = none ∧ s.coldSharers = ∅)
    (hhot : m.hot ≠ .out ∨ s.hotOwner = none) : s.Open instr := by
  cases instr with
  | lockCold => exact hcold.resolve_left (fun h => h hf.1)
  | lockShared => exact (hcold.resolve_left (fun h => h hf.1)).1
  | lockHot => exact hhot.resolve_left (fun h => h hf.2)
  | _ => trivial

/-- The owner of the spin lock if it has one, otherwise a holder of the
levels' lock, otherwise any operation at all. -/
theorem some_open (m : Fin n → Mode) (s : State n) (h : Locks m s) (i : Fin n)
    (hi : (s.threads i).busy = true) :
    ∃ j, (s.threads j).busy = true ∧ ∀ instr rest, (s.threads j).rest = instr::rest → s.Open instr := by
  have hbusy (j : Fin n) (hj : m j ≠ {}) : (s.threads j).busy = true := by
    by_contra hc
    exact hj (mode_of_rest m s j h (rest_of_not_busy _ (by simpa using hc)))
  have hfits (j : Fin n) (instr : Instr) (rest : List Instr) (hr : (s.threads j).rest = instr::rest) :
      Fits (m j) rest instr := by
    have htyped := h.typed j
    rw [hr] at htyped
    exact htyped.1
  cases hhot : s.hotOwner with
  | some j =>
    have hj := (h.spin j).mp hhot
    have hcold := typed_nested (m j) _ (h.typed j) hj
    exact ⟨j,hbusy j (fun hm => hj (by rw [hm])),fun instr rest hr =>
      open_of (m j) s instr rest (hfits j instr rest hr) (Or.inl hcold) (Or.inl hj)⟩
  | none =>
    by_cases hheld : ∃ j, (m j).cold ≠ .free
    · obtain ⟨j,hj⟩ := hheld
      exact ⟨j,hbusy j (fun hm => hj (by rw [hm])),fun instr rest hr =>
        open_of (m j) s instr rest (hfits j instr rest hr) (Or.inl hj) (Or.inr hhot)⟩
    · have hall : ∀ j, (m j).cold = .free := fun j => by_contra fun hj => hheld ⟨j,hj⟩
      have hown : s.coldOwner = none := by
        cases ho : s.coldOwner with
        | none => rfl
        | some j =>
          have hj := (h.alone j).mp ho
          rw [hall j] at hj
          cases hj
      have hshare : s.coldSharers = ∅ := by
        apply Finset.eq_empty_of_forall_notMem
        intro j hj
        have hcold := (h.shared j).mp hj
        rw [hall j] at hcold
        cases hcold
      exact ⟨i,hi,fun instr rest hr =>
        open_of (m i) s instr rest (hfits i instr rest hr) (Or.inr ⟨hown,hshare⟩) (Or.inr hhot)⟩

/-- The stores a branch of `updateHotData` stands for are counted with it. -/
def weight : Instr → ℕ
  | .copyBid | .copyAsk => 4
  | _ => 1

def Place.work : Place → ℕ
  | .op _ rest => (rest.map weight).sum+1
  | _ => 0

def work (s : State n) : ℕ := ∑ i, (s.threads i).work

theorem stores_weight (xs : List Store) : ((xs.map Instr.store).map weight).sum = xs.length := by
  induction xs with
  | nil => rfl
  | cons x xs ih => simp_all [weight, Nat.add_comm]

theorem follow_weight (s : State n) (instr : Instr) (rest : List Instr) :
    ((s.follow rest instr).map weight).sum < ((instr::rest).map weight).sum := by
  have hbid : (bidStores s.book.coldData).length ≤ 3 := by
    unfold bidStores
    split <;> simp
  have hask : (askStores s.book.coldData).length ≤ 3 := by
    unfold askStores
    split <;> simp
  cases instr with
  | copyBid =>
    rw [State.follow, List.map_append, List.sum_append, stores_weight]
    simp only [List.map_cons, List.sum_cons, weight]
    omega
  | copyAsk =>
    rw [State.follow, List.map_append, List.sum_append, stores_weight]
    simp only [List.map_cons, List.sum_cons, weight]
    omega
  | _ => simp [State.follow, weight]

theorem work_place (s s' : State n) (i : Fin n) (p : Place)
    (h : s'.threads = Function.update s.threads i p) (hp : p.work < (s.threads i).work) :
    work s' < work s := by
  apply Finset.sum_lt_sum
  · intro j hj
    rw [h]
    by_cases hji : j = i
    · subst hji
      simpa using hp.le
    · simp [hji]
  · exact ⟨i,Finset.mem_univ i,by rw [h]; simpa using hp⟩

variable [NearestDivision.NearestDiv]

/-- A step of an operation that need not wait brings the whole nearer to its end. -/
theorem open_work (s : State n) (i : Fin n) (hi : (s.threads i).busy = true)
    (hopen : ∀ instr rest, (s.threads i).rest = instr::rest → s.Open instr) :
    work (s.step (.step i)) < work s := by
  cases hplace : s.threads i with
  | op changed rest =>
    cases rest with
    | nil =>
      refine work_place s _ i .idle ?_ ?_
      · rw [State.step, hplace]
        rfl
      · rw [hplace]
        exact Nat.succ_pos _
    | cons instr rest =>
      have ho := hopen instr rest (by rw [hplace]; rfl)
      refine work_place s _ i (.op (s.changes changed instr) (s.follow rest instr)) ?_ ?_
      · rw [State.step, hplace, State.threadStep, State.opStep, if_pos ho]
        cases instr <;> rfl
      · rw [hplace]
        exact Nat.succ_lt_succ (follow_weight s instr rest)
  | _ => rw [hplace] at hi; cases hi

/-- No deadlock: whatever is under way, the operations can all be brought to
their end by steps of their own threads alone. -/
theorem can_finish (m : Fin n → Mode) (s : State n) (h : Locks m s) :
    ∃ is : List (Fin n), ∀ i, ((Schedule.run State.step (is.map .step) s).threads i).busy = false := by
  induction hw : work s using Nat.strong_induction_on generalizing m s with
  | _ w ih =>
    by_cases hbusy : ∃ i, (s.threads i).busy = true
    · obtain ⟨i,hi⟩ := hbusy
      obtain ⟨j,hj,hopen⟩ := some_open m s h i hi
      obtain ⟨label,hstepped⟩ := step_stepped s (.step j)
      obtain ⟨is,his⟩ := ih _ (hw ▸ open_work s j hj hopen) _ _ (stepped_locks m s _ _ label hstepped h) rfl
      exact ⟨j::is,his⟩
    · exact ⟨[],fun i => Bool.eq_false_of_not_eq_true (fun hi => hbusy ⟨i,hi⟩)⟩

end Progress
end Chronos.SharedOrderBook
