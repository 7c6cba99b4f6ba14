import Chronos.SharedOrderBookReads

/-!
# How deep the shared order book gets

An update trims the sides under another hold of the lock than the one under
which it added its level, so between the two a side may be longer than it
should. What it is too long by is at most the number of updates that have
added their level and not trimmed yet: whoever trims takes away the others'
surplus as well.
-/

set_option autoImplicit false

namespace Chronos.SharedOrderBook
open OrderedLevels BookLadder
open OrderBook (Restores)

def isAdd : Instr → Bool
  | .change (.updateBidLevel _ _) => true
  | .change (.updateAskLevel _ _) => true
  | _ => false

def isTrim : Instr → Bool
  | .change .trimDepth => true
  | _ => false

def adds (rest : List Instr) : ℕ := rest.countP isAdd

def trims (rest : List Instr) : ℕ := rest.countP isTrim

def Trimmed : List Instr → Prop
  | [] => True
  | i::rest => adds (i::rest) ≤ trims (i::rest) ∧ trims (i::rest) ≤ 1 ∧ Trimmed rest

def GoodOp : Op → Prop
  | .rebuildFromSnapshot snapshot _ => Restores snapshot.bids ∧ Restores snapshot.asks
  | _ => True

def GoodInstr : Instr → Prop
  | .change (.rebuild snapshot) => Restores snapshot.bids ∧ Restores snapshot.asks
  | _ => True

section Programs

theorem program_trimmed (op : Op) : Trimmed (program op) := by
  cases op with
  | update tick =>
    have hc : levelChange tick = .updateBidLevel tick.price tick.quantity ∨
        levelChange tick = .updateAskLevel tick.price tick.quantity := by
      unfold levelChange
      split_ifs <;> simp
    rcases hc with hc | hc <;>
      simp [program, alone, updateHotData, hc, Trimmed, adds, trims, isAdd, isTrim, List.countP_cons]
  | _ => simp [program, alone, updateHotData, Trimmed, adds, trims, isAdd, isTrim]

theorem program_good (op : Op) (h : GoodOp op) : ∀ i ∈ program op, GoodInstr i := by
  cases op with
  | update tick =>
    have hc : GoodInstr (.change (levelChange tick)) := by
      unfold levelChange
      split_ifs <;> trivial
    have hall : ∀ i ∈ (program (.update tick)).tail.tail, GoodInstr i := by
      simp [program, alone, updateHotData, GoodInstr]
    exact List.forall_mem_cons.mpr ⟨trivial,List.forall_mem_cons.mpr ⟨hc,hall⟩⟩
  | rebuildFromSnapshot snapshot nowUs =>
    have hall : ∀ i ∈ (program (.rebuildFromSnapshot snapshot nowUs)).tail.tail, GoodInstr i := by
      simp [program, alone, updateHotData, GoodInstr]
    exact List.forall_mem_cons.mpr ⟨trivial,List.forall_mem_cons.mpr ⟨h,hall⟩⟩
  | _ => simp [program, GoodInstr]

theorem trimmed_le (rest : List Instr) (h : Trimmed rest) : adds rest ≤ trims rest ∧ trims rest ≤ 1 := by
  cases rest with
  | nil => simp [adds, trims]
  | cons i rest => exact ⟨h.1,h.2.1⟩

theorem stores_quiet (xs : List Store) (rest : List Instr) :
    adds (xs.map .store++rest) = adds rest ∧ trims (xs.map .store++rest) = trims rest := by
  induction xs with
  | nil => exact ⟨rfl,rfl⟩
  | cons x xs ih => simp_all [adds, trims, isAdd, isTrim]

theorem trimmed_stores (xs : List Store) (rest : List Instr) (h : Trimmed rest) :
    Trimmed (xs.map .store++rest) := by
  induction xs with
  | nil => exact h
  | cons x xs ih =>
    obtain ⟨ha,ht⟩ := stores_quiet (x::xs) rest
    have hle := trimmed_le rest h
    refine ⟨?_,?_,ih⟩
    · exact (ha.trans_le hle.1).trans_eq ht.symm
    · exact ht.trans_le hle.2

end Programs

/-- One side, when `surplus` levels may be too many. -/
structure SideBounded (before : Decimal → Decimal → Prop) (surplus : ℕ)
    (xs : List (Decimal × Decimal)) : Prop where
  depth : xs.length ≤ maxDepth+surplus
  ordered : Ordered before xs
  positive : ∀ x ∈ xs, 0 < x.2

section Side
variable {before : Decimal → Decimal → Prop} [DecidableRel before]

omit [DecidableRel before] in
theorem SideBounded.mono (k k' : ℕ) (xs : List (Decimal × Decimal)) (h : SideBounded before k xs)
    (hk : k ≤ k') : SideBounded before k' xs := ⟨h.depth.trans (by omega),h.ordered,h.positive⟩

omit [DecidableRel before] in
theorem trim_bounded (m : SortedMap before Decimal) (k : ℕ) (h : SideBounded before k m.entries) :
    SideBounded before 0 (OrderBook.trim m).entries := by
  refine ⟨?_,SortedMap.ordered _,fun x hx => h.positive x ?_⟩
  · rw [OrderBook.trim_entries]
    exact List.length_take_le _ _
  · rw [OrderBook.trim_entries] at hx
    exact List.mem_of_mem_take hx

theorem put_length (k v : Decimal) (xs : List (Decimal × Decimal)) :
    (put before k v xs).length ≤ xs.length+1 := by
  induction xs with
  | nil => simp [put]
  | cons x xs ih =>
    unfold put
    split_ifs <;> simp_all

variable [IsStrictTotalOrder Decimal before]

theorem updateLevel_bounded (m : SortedMap before Decimal) (s : OrderBook.Statistics)
    (price quantity : Decimal) (k : ℕ) (h : SideBounded before k m.entries) :
    SideBounded before (k+1) (OrderBook.updateLevel m s price quantity).1.entries := by
  have hd := h.depth
  by_cases hq : 0 < quantity
  · rw [OrderBook.updateLevel, if_pos hq]
    refine ⟨(put_length price quantity m.entries).trans (by omega),SortedMap.ordered _,fun x hx => ?_⟩
    rcases put_mem before price quantity m.entries x hx with rfl | hx
    · exact hq
    · exact h.positive x hx
  · rw [OrderBook.updateLevel, if_neg hq]
    split_ifs
    · have hl : (remove price m.entries).length ≤ m.entries.length := List.eraseP_sublist.length_le
      exact ⟨hl.trans (by omega),SortedMap.ordered _,fun x hx => h.positive x (List.mem_of_mem_eraseP hx)⟩
    · exact h.mono k (k+1) _ (Nat.le_succ k)

theorem assignAll_bounded (ls : List PriceLevel) (h : Restores ls) :
    SideBounded before 0 (OrderBook.assignAll ls : SortedMap before Decimal).entries := by
  have hs : SideSound before (OrderBook.assignAll ls : SortedMap before Decimal).entries :=
    (OrderBook.assignAll_sound ls).mpr h
  exact ⟨hs.depth,hs.ordered,hs.positive⟩

end Side

structure Bounded (surplus : ℕ) (b : OrderBook) : Prop where
  bids : SideBounded (· > ·) surplus b.coldData.bids.entries
  asks : SideBounded (· < ·) surplus b.coldData.asks.entries

theorem change_bounded (c : Change) (b : OrderBook) (k : ℕ) (h : Bounded k b)
    (hc : GoodInstr (.change c)) : Bounded (k+adds [.change c]) (c.apply b) := by
  cases c with
  | updateBidLevel price quantity =>
    exact ⟨updateLevel_bounded _ _ price quantity k h.bids,h.asks.mono k (k+1) _ (Nat.le_succ k)⟩
  | updateAskLevel price quantity =>
    exact ⟨h.bids.mono k (k+1) _ (Nat.le_succ k),updateLevel_bounded _ _ price quantity k h.asks⟩
  | clear =>
    exact ⟨⟨Nat.zero_le _,List.Pairwise.nil,fun _ hx => absurd hx List.not_mem_nil⟩,
      ⟨Nat.zero_le _,List.Pairwise.nil,fun _ hx => absurd hx List.not_mem_nil⟩⟩
  | rebuild snapshot =>
    exact ⟨(assignAll_bounded snapshot.bids hc.1).mono 0 _ _ (Nat.zero_le _),
      (assignAll_bounded snapshot.asks hc.2).mono 0 _ _ (Nat.zero_le _)⟩
  | trimDepth =>
    exact ⟨(trim_bounded _ k h.bids).mono 0 _ _ (Nat.zero_le _),
      (trim_bounded _ k h.asks).mono 0 _ _ (Nat.zero_le _)⟩

/-- A trim takes the surplus of every thread away. -/
theorem trimDepth_bounded (b : OrderBook) (k : ℕ) (h : Bounded k b) :
    Bounded 0 (Change.trimDepth.apply b) := ⟨trim_bounded _ k h.bids,trim_bounded _ k h.asks⟩

variable {n : ℕ}

theorem sum_moved (f : Place → ℕ) (threads : Fin n → Place) (i : Fin n) (p : Place) :
    ∑ j, f (Function.update threads i p j)+f (threads i) = ∑ j, f (threads j)+f p := by
  have hi := Finset.mem_univ i
  rw [← Finset.add_sum_erase _ _ hi, ← Finset.add_sum_erase _ (fun j => f (threads j)) hi]
  have hrest : ∑ j ∈ Finset.univ.erase i, f (Function.update threads i p j) =
      ∑ j ∈ Finset.univ.erase i, f (threads j) := by
    apply Finset.sum_congr rfl
    intro j hj
    rw [Function.update_of_ne (Finset.ne_of_mem_erase hj)]
  rw [hrest, Function.update_self]
  omega

def pending (s : State n) : ℕ := ∑ i, adds (s.threads i).rest

def due (s : State n) : ℕ := ∑ i, trims (s.threads i).rest

/-- A list of levels no deeper than the operations under way when it was
read can have made it. -/
def FewLevels (a : ColdReturn) : Prop :=
  ∀ l, a.answer = .levels l → l.length ≤ maxDepth+a.underway ∧ ∀ x ∈ l, 0 < x.quantity

structure DepthFacts (s : State n) : Prop where
  trimmed : ∀ i, Trimmed (s.threads i).rest
  good : ∀ i, ∀ instr ∈ (s.threads i).rest, GoodInstr instr
  bounded : ∃ k, Bounded k s.book ∧ k+pending s ≤ due s
  answers : ∀ a ∈ s.coldReturns, FewLevels a

theorem due_le (s : State n) (h : DepthFacts s) : due s ≤ s.underway := by
  rw [State.underway, Finset.card_filter]
  apply Finset.sum_le_sum
  intro i _
  cases hb : (s.threads i).busy with
  | true => simpa using (trimmed_le _ (h.trimmed i)).2
  | false => simp [rest_of_not_busy _ hb, trims]

theorem bounded_now (s : State n) (h : DepthFacts s) : Bounded s.underway s.book := by
  obtain ⟨k,hk,hle⟩ := h.bounded
  have hdue := due_le s h
  exact ⟨hk.bids.mono k _ _ (by omega),hk.asks.mono k _ _ (by omega)⟩

theorem answer_few (s : State n) (q : ColdQuery) (h : DepthFacts s) : FewLevels ⟨q,q.ask s.book,s.underway⟩ := by
  have hnow := bounded_now s h
  have hside (xs : List (Decimal × Decimal)) (maxLevels : ℕ) (hd : xs.length ≤ maxDepth+s.underway)
      (hp : ∀ x ∈ xs, 0 < x.2) :
      (levelsOf xs maxLevels).length ≤ maxDepth+s.underway ∧
        ∀ x ∈ levelsOf xs maxLevels, 0 < x.quantity := by
    refine ⟨?_,fun x hx => ?_⟩
    · rw [levelsOf, List.length_map]
      exact (List.length_take_le' _ _).trans hd
    · obtain ⟨y,hy,rfl⟩ := List.mem_map.mp hx
      exact hp y (List.mem_of_mem_take hy)
  intro l hl
  cases q with
  | bidLevels maxLevels =>
    obtain rfl : s.book.getBidLevels maxLevels = l := ColdAnswer.levels.inj hl
    rw [OrderBook.getBidLevels_eq]
    exact hside _ _ hnow.bids.depth hnow.bids.positive
  | askLevels maxLevels =>
    obtain rfl : s.book.getAskLevels maxLevels = l := ColdAnswer.levels.inj hl
    rw [OrderBook.getAskLevels_eq]
    exact hside _ _ hnow.asks.depth hnow.asks.positive
  | _ => cases hl

theorem follow_facts (s : State n) (i : Instr) (rest : List Instr) (ht : Trimmed rest)
    (hg : ∀ j ∈ rest, GoodInstr j) :
    Trimmed (s.follow rest i) ∧ (∀ j ∈ s.follow rest i, GoodInstr j) ∧
      adds (s.follow rest i) = adds rest ∧ trims (s.follow rest i) = trims rest := by
  have hstores (xs : List Store) : ∀ j ∈ xs.map Instr.store++rest, GoodInstr j := by
    intro j hj
    rcases List.mem_append.mp hj with hj | hj
    · obtain ⟨x,-,rfl⟩ := List.mem_map.mp hj
      trivial
    · exact hg j hj
  cases i with
  | copyBid => exact ⟨trimmed_stores _ rest ht,hstores _,stores_quiet _ rest⟩
  | copyAsk => exact ⟨trimmed_stores _ rest ht,hstores _,stores_quiet _ rest⟩
  | _ => exact ⟨ht,hg,rfl,rfl⟩

/-- The threads after one has moved, where it owes a trim for each level it
is still to add. -/
theorem depth_moved (s s' : State n) (i : Fin n) (p : Place) (h : DepthFacts s)
    (hthreads : s'.threads = Function.update s.threads i p) (ht : Trimmed p.rest)
    (hg : ∀ instr ∈ p.rest, GoodInstr instr) (hanswers : ∀ a ∈ s'.coldReturns, FewLevels a)
    (hbounded : ∃ k, Bounded k s'.book ∧ k+pending s' ≤ due s') : DepthFacts s' := by
  refine ⟨?_,?_,hbounded,hanswers⟩
  · rw [hthreads]
    exact (Function.forall_update_iff s.threads (fun _ x => Trimmed x.rest)).mpr
      ⟨ht,fun j _ => h.trimmed j⟩
  · rw [hthreads]
    exact (Function.forall_update_iff s.threads (fun _ x => ∀ instr ∈ x.rest, GoodInstr instr)).mpr
      ⟨hg,fun j _ => h.good j⟩

theorem sums_moved (s s' : State n) (i : Fin n) (p : Place)
    (hthreads : s'.threads = Function.update s.threads i p) :
    pending s'+adds (s.threads i).rest = pending s+adds p.rest ∧
      due s'+trims (s.threads i).rest = due s+trims p.rest := by
  unfold pending due
  rw [hthreads]
  exact ⟨sum_moved (fun x => adds x.rest) s.threads i p,sum_moved (fun x => trims x.rest) s.threads i p⟩

theorem exec_depth (s : State n) (i : Fin n) (changed : ℕ) (instr : Instr) (rest : List Instr)
    (h : DepthFacts s) (hop : s.threads i = .op changed (instr::rest)) :
    DepthFacts ((s.exec i instr).place i (.op (s.changes changed instr) (s.follow rest instr))) := by
  have ht := h.trimmed i
  have hg := h.good i
  rw [hop] at ht hg
  obtain ⟨htf,hgf,ha,htr⟩ := follow_facts s instr rest ht.2.2 (List.forall_mem_cons.mp hg).2
  have hthreads : (s.exec i instr).threads = s.threads := by cases instr <;> rfl
  have hmoved : ((s.exec i instr).place i (.op (s.changes changed instr) (s.follow rest instr))).threads =
      Function.update s.threads i (.op (s.changes changed instr) (s.follow rest instr)) := by
    rw [← hthreads]
    rfl
  obtain ⟨hpend,hdue⟩ := sums_moved s _ i _ hmoved
  rw [hop] at hpend hdue
  simp only [Place.rest, ha, htr] at hpend hdue
  obtain ⟨k,hk,hle⟩ := h.bounded
  have hsame (hb : Bounded k (s.exec i instr).book) (hna : isAdd instr = false)
      (hnt : isTrim instr = false) (hans : ∀ a ∈ (s.exec i instr).coldReturns, FewLevels a) :
      DepthFacts ((s.exec i instr).place i (.op (s.changes changed instr) (s.follow rest instr))) := by
    refine depth_moved s _ i _ h hmoved htf hgf hans ⟨k,hb,?_⟩
    simp only [adds, trims, List.countP_cons, hna, hnt] at hpend hdue
    simp only [Bool.false_eq_true, if_false, Nat.add_zero] at hpend hdue
    omega
  cases instr with
  | change c =>
    refine depth_moved s _ i _ h hmoved htf hgf h.answers ?_
    by_cases htrim : c = .trimDepth
    · subst htrim
      refine ⟨0,trimDepth_bounded s.book k hk,?_⟩
      rw [Nat.zero_add]
      apply Finset.sum_le_sum
      intro j _
      rw [hmoved]
      refine (Function.forall_update_iff s.threads (fun _ x => adds x.rest ≤ trims x.rest)).mpr
        ⟨?_,fun l _ => (trimmed_le _ (h.trimmed l)).1⟩ j
      exact (trimmed_le _ htf).1
    · refine ⟨_,change_bounded c s.book k hk (List.forall_mem_cons.mp hg).1,?_⟩
      have hadds : adds (.change c::rest) = adds rest+adds [.change c] := by
        simp [adds, List.countP_cons]
      have htrims : trims (.change c::rest) = trims rest := by
        cases c <;> simp_all [trims, isTrim]
      omega
  | answer q =>
    refine hsame hk rfl rfl (fun a hm => ?_)
    rcases List.mem_append.mp hm with hm | hm
    · exact h.answers a hm
    · obtain rfl := List.mem_singleton.mp hm
      exact answer_few s q h
  | _ => exact hsame ⟨hk.bids,hk.asks⟩ rfl rfl h.answers

def GoodAction : Action n → Prop
  | .start _ op => GoodOp op
  | _ => True

theorem depth_still (s s' : State n) (i : Fin n) (p : Place) (h : DepthFacts s)
    (hthreads : s'.threads = Function.update s.threads i p) (hbook : s'.book = s.book)
    (hcold : s'.coldReturns = s.coldReturns) (hi : (s.threads i).rest = []) (ht : Trimmed p.rest)
    (hg : ∀ instr ∈ p.rest, GoodInstr instr) : DepthFacts s' := by
  obtain ⟨k,hk,hle⟩ := h.bounded
  obtain ⟨hpend,hdue⟩ := sums_moved s s' i p hthreads
  rw [hi] at hpend hdue
  have hp := trimmed_le _ ht
  refine depth_moved s s' i p h hthreads ht hg (by rw [hcold]; exact h.answers) ⟨k,hbook ▸ hk,?_⟩
  simp only [adds, trims, List.countP_nil] at *
  omega

theorem stepped_depth (s s' : State n) (a : Action n) (label : Option (Fin n × Instr))
    (hs : Stepped s a label s') (ha : GoodAction a) (h : DepthFacts s) : DepthFacts s' := by
  cases hs with
  | still a => exact h
  | start i op hidle =>
    exact depth_still s _ i _ h rfl rfl rfl (by rw [hidle]; rfl) (program_trimmed op) (program_good op ha)
  | finish i changed hop =>
    exact depth_still s _ i .idle h rfl rfl rfl (by rw [hop]; rfl) trivial
      (fun _ hx => absurd hx List.not_mem_nil)
  | exec i changed instr rest hop hopen => exact exec_depth s i changed instr rest h hop
  | read a i p returns hi hp =>
    have hrest := rest_of_not_busy p hp
    refine depth_still s _ i p h rfl rfl rfl (rest_of_not_busy _ hi) ?_ ?_
    · rw [hrest]
      trivial
    · rw [hrest]
      exact fun _ hx => absurd hx List.not_mem_nil

theorem initial_depth : DepthFacts ({} : State n) where
  trimmed _ := trivial
  good _ _ hx := absurd hx List.not_mem_nil
  bounded :=
    ⟨0,⟨⟨Nat.zero_le _,List.Pairwise.nil,fun _ hx => absurd hx List.not_mem_nil⟩,
      ⟨Nat.zero_le _,List.Pairwise.nil,fun _ hx => absurd hx List.not_mem_nil⟩⟩,by
        simp [pending, due, adds, trims, Place.rest]⟩
  answers _ hx := absurd hx List.not_mem_nil

section Run
variable [NearestDivision.NearestDiv]

theorem run_depth (actions : List (Action n)) (hgood : ∀ a ∈ actions, GoodAction a) :
    DepthFacts (Schedule.run State.step actions ({} : State n)) := by
  refine Schedule.invariant State.step (fun _ a => GoodAction a) DepthFacts (fun s a ha h => ?_) actions
    {} ((Schedule.allowed_actions State.step GoodAction actions {}).mpr hgood) initial_depth
  obtain ⟨label,hs⟩ := step_stepped s a
  exact stepped_depth s _ a label hs ha h

/-- At any moment a side is too deep by at most one level for each operation
under way; its levels are in order and positive. No query returns more than
the operations under way when it read allow. -/
theorem depth_bounded (actions : List (Action n)) (hgood : ∀ a ∈ actions, GoodAction a) :
    Bounded (Schedule.run State.step actions ({} : State n)).underway
      (Schedule.run State.step actions ({} : State n)).book ∧
    ∀ a ∈ (Schedule.run State.step actions ({} : State n)).coldReturns, FewLevels a := by
  have h := run_depth actions hgood
  exact ⟨bounded_now _ h,h.answers⟩

end Run

def fullBids : OrderBookSnapshot :=
  { bids := (List.range maxDepth).map fun k => { price := .ofInt (k+1), quantity := .ofInt 1 } }

def readBeforeTrim (writer reader : Fin n) : List (Action n) :=
  .start writer (.rebuildFromSnapshot fullBids 0)::List.replicate 17 (.step writer)++
    .start writer (.update firstBid)::List.replicate 3 (.step writer)++
    .start reader (.cold (.bidLevels 30))::List.replicate 2 (.step reader)

theorem fullBids_restores : Restores fullBids.bids := ⟨by decide +kernel,by decide +kernel⟩

theorem readBeforeTrim_good : ∀ a ∈ readBeforeTrim (0 : Fin 2) 1, GoodAction a := by
  intro a ha
  simp only [readBeforeTrim, List.mem_append, List.mem_cons, List.mem_replicate] at ha
  rcases ha with ((rfl | ⟨-,rfl⟩) | rfl | ⟨-,rfl⟩) | rfl | ⟨-,rfl⟩
  · exact ⟨fullBids_restores,⟨Nat.zero_le _,trivial⟩⟩
  all_goals trivial

/-- The reader is given one level more than the maximal depth. -/
theorem readBeforeTrim_bounded :
    (Bounded (Schedule.run State.step (readBeforeTrim (0 : Fin 2) 1) {}).underway
        (Schedule.run State.step (readBeforeTrim (0 : Fin 2) 1) {}).book ∧
      ∀ a ∈ (Schedule.run State.step (readBeforeTrim (0 : Fin 2) 1) {}).coldReturns, FewLevels a) ∧
    (Schedule.run State.step (readBeforeTrim (0 : Fin 2) 1) {}).underway = 2 ∧
    (Schedule.run State.step (readBeforeTrim (0 : Fin 2) 1) {}).coldReturns.length = 1 ∧
    (Schedule.run State.step (readBeforeTrim (0 : Fin 2) 1) {}).book.coldData.bids.size = maxDepth+1 :=
  ⟨depth_bounded (readBeforeTrim (0 : Fin 2) 1) readBeforeTrim_good,by decide +kernel,by decide +kernel,
    by decide +kernel⟩

end Chronos.SharedOrderBook
