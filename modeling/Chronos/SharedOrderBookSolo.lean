import Chronos.SharedOrderBookReads

/-!
# One thread alone

With nobody else under way an operation of the shared book never waits, and
its instructions come to what the sequential book does.
-/

set_option autoImplicit false

namespace Chronos.SharedOrderBook
open OrderedLevels BookLadder
open OrderBook (HotData ColdData)

def effect (b : OrderBook) : Instr → OrderBook
  | .change c => c.apply b
  | .countUpdate isBid => b.countUpdate isBid
  | .bump => { b with hotData := { b.hotData with version := OrderBook.bump b.hotData.version } }
  | .copyBid => { b with hotData := storeAll (bidStores b.coldData) b.hotData }
  | .copyAsk => { b with hotData := storeAll (askStores b.coldData) b.hotData }
  | .store x => { b with hotData := x.apply b.hotData }
  | _ => b

def sequential (b : OrderBook) : Op → OrderBook
  | .update tick => b.update tick
  | .clear => b.clear
  | .rebuildFromSnapshot snapshot nowUs => b.rebuildFromSnapshot snapshot nowUs
  | .cold _ => b

theorem updateHotData_effect (b : OrderBook) (t : ℕ) :
    (updateHotData t).foldl effect b = b.updateHotData t := by
  cases hb : b.coldData.bids.entries <;> cases ha : b.coldData.asks.entries <;>
    simp [updateHotData, effect, storeAll, bidStores, askStores, OrderBook.updateHotData, hb, ha,
      Store.apply]

theorem program_effect (b : OrderBook) (op : Op) : (program op).foldl effect b = sequential b op := by
  cases op with
  | update tick =>
    rw [program, List.foldl_append, List.foldl_append, updateHotData_effect, List.foldl_append]
    by_cases hs : tick.side = .bid
    · simp [alone, effect, sequential, levelChange, OrderBook.update, Change.apply, hs]
    · simp [alone, effect, sequential, levelChange, OrderBook.update, Change.apply, hs]
  | clear => rfl
  | rebuildFromSnapshot snapshot nowUs =>
    rw [program, List.foldl_append, updateHotData_effect]
    rfl
  | cold q => rfl

theorem stores_effect (xs : List Store) (b : OrderBook) :
    (xs.map Instr.store).foldl effect b = { b with hotData := storeAll xs b.hotData } := by
  induction xs generalizing b with
  | nil => rfl
  | cons x xs ih => exact ih (effect b (.store x))

variable {n : ℕ}

theorem exec_effect (s : State n) (i : Fin n) (instr : Instr) (rest : List Instr) :
    (s.follow rest instr).foldl effect (s.exec i instr).book = (instr::rest).foldl effect s.book := by
  cases instr with
  | copyBid =>
    rw [State.follow, List.foldl_append, stores_effect]
    rfl
  | copyAsk =>
    rw [State.follow, List.foldl_append, stores_effect]
    rfl
  | _ => rfl

section Division
variable [NearestDivision.NearestDiv]

/-- The rest of the only operation under way runs to its end. -/
theorem solo_rest (m : Fin n → Mode) (s : State n) (i : Fin n) (changed : ℕ) (rest : List Instr)
    (hl : Locks m s) (honly : ∀ j, j ≠ i → (s.threads j).busy = false)
    (hop : s.threads i = .op changed rest) :
    ∃ k, (Schedule.run State.step (List.replicate k (.step i)) s).book = rest.foldl effect s.book ∧
      ∀ j, ((Schedule.run State.step (List.replicate k (.step i)) s).threads j).busy = false := by
  induction hw : (rest.map weight).sum using Nat.strong_induction_on generalizing m s changed rest with
  | _ w ih =>
    cases rest with
    | nil =>
      refine ⟨1,?_⟩
      have hstep : s.step (.step i) = State.place { s with completed := max s.completed changed } i .idle := by
        rw [State.step, hop]
        rfl
      rw [List.replicate_one, Schedule.run, Schedule.run, hstep]
      exact ⟨rfl,(Function.forall_update_iff s.threads (fun _ x => x.busy = false)).mpr ⟨rfl,honly⟩⟩
    | cons instr rest =>
      obtain ⟨j,hj,hopen⟩ := some_open m s hl i (by rw [hop]; rfl)
      obtain rfl : j = i := by
        by_contra hne
        rw [honly j hne] at hj
        cases hj
      have ho := hopen instr rest (by rw [hop]; rfl)
      have hstep : s.step (.step j) =
          (s.exec j instr).place j (.op (s.changes changed instr) (s.follow rest instr)) := by
        rw [State.step, hop, State.threadStep, State.opStep, if_pos ho]
      have hthreads : (s.exec j instr).threads = s.threads := by cases instr <;> rfl
      obtain ⟨label,hs⟩ := step_stepped s (.step j)
      have hlocks := stepped_locks m s _ _ label hs hl
      rw [hstep] at hlocks
      obtain ⟨k,hbook,hidle⟩ := ih _ (hw ▸ follow_weight s instr rest) _ _
        (s.changes changed instr) (s.follow rest instr) hlocks
        (fun l hl' => by simpa [State.place, hthreads, hl'] using honly l hl')
        (by simp [State.place]) rfl
      refine ⟨k+1,?_⟩
      rw [List.replicate_succ, Schedule.run, hstep]
      exact ⟨hbook.trans (exec_effect s j instr rest),hidle⟩

/-- From any reachable state with no operation under way, an operation run by
one thread alone comes to its end and does to the book what the sequential
operation does. -/
theorem solo_sequential (actions : List (Action n)) (i : Fin n) (op : Op)
    (hok : Schedule.Allowed State.step FewBumps actions {})
    (hidle : ∀ j, ((Schedule.run State.step actions ({} : State n)).threads j).busy = false)
    (hi : (Schedule.run State.step actions ({} : State n)).threads i = .idle) :
    ∃ k, (Schedule.run State.step (actions++.start i op::List.replicate k (.step i)) {}).book =
        sequential (Schedule.run State.step actions ({} : State n)).book op ∧
      ∀ j, ((Schedule.run State.step
        (actions++.start i op::List.replicate k (.step i)) {}).threads j).busy = false := by
  obtain ⟨m,r,h⟩ := run_inv actions hok
  generalize hs : Schedule.run State.step actions ({} : State n) = s at h hidle hi
  have hstart : s.step (.start i op) = s.place i (.op 0 (program op)) := by
    rw [State.step, State.begin, hi]
  obtain ⟨label,hstepped⟩ := step_stepped s (.start i op)
  have hlocks := stepped_locks m s _ _ label hstepped h.locks
  rw [hstart] at hlocks
  obtain ⟨k,hbook,hend⟩ := solo_rest _ (s.place i (.op 0 (program op))) i 0 (program op) hlocks
    (fun j hj => by simpa [State.place, hj] using hidle j) (by simp [State.place])
  refine ⟨k,?_⟩
  rw [Schedule.run_append, hs, Schedule.run, hstart, hbook]
  exact ⟨program_effect s.book op,hend⟩

end Division

/-- A clear by the reader, after the writer's update is complete. -/
theorem clear_sequential :
    ∃ k, (Schedule.run State.step
        (readDuringCopy (0 : Fin 2) 1++.start 1 .clear::List.replicate k (.step 1)) {}).book =
        (Schedule.run State.step (readDuringCopy (0 : Fin 2) 1) {}).book.clear ∧
      ∀ j, ((Schedule.run State.step
        (readDuringCopy (0 : Fin 2) 1++.start 1 .clear::List.replicate k (.step 1)) {}).threads j).busy =
          false :=
  solo_sequential (readDuringCopy (0 : Fin 2) 1) 1 .clear readDuringCopy_few readDuringCopy_idle rfl

end Chronos.SharedOrderBook
