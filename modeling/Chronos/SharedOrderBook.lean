import Chronos.OptimisticRead
import Chronos.SnapshotRebuild

/-!
# The map-based order book under any number of threads

Every operation of the book takes its locks one after the other: the levels
are guarded by a lock that is held alone or shared, the copy of the best
levels by a spin lock and a version number. Below an operation is the list of
its steps. The work done under one hold of the levels' lock is one step,
since nobody else can look; the copy of the best levels is read without any
lock, so each of its stores is a step of its own, and so is each load of an
optimistic read. A thread that waits for a lock stays where it is.

The state also keeps every pair of ladders the book has held, oldest first.
-/

set_option autoImplicit false

namespace Chronos.SharedOrderBook
open OrderedLevels BookLadder OptimisticRead
open OrderBook (HotData ColdData hotBid hotAsk)

inductive Store where
  | bestBidPrice (v : Decimal)
  | bestBidQuantity (v : Decimal)
  | hasBids (v : Bool)
  | bestAskPrice (v : Decimal)
  | bestAskQuantity (v : Decimal)
  | hasAsks (v : Bool)
  | lastUpdateTime (v : ℕ)

def Store.apply (h : HotData) : Store → HotData
  | .bestBidPrice v => { h with bestBidPrice := v }
  | .bestBidQuantity v => { h with bestBidQuantity := v }
  | .hasBids v => { h with hasBids := v }
  | .bestAskPrice v => { h with bestAskPrice := v }
  | .bestAskQuantity v => { h with bestAskQuantity := v }
  | .hasAsks v => { h with hasAsks := v }
  | .lastUpdateTime v => { h with lastUpdateTime := v }

inductive ColdQuery where
  | bidLevel (level : ℕ)
  | askLevel (level : ℕ)
  | bidLevels (maxLevels : ℕ)
  | askLevels (maxLevels : ℕ)
  | snapshot
  | empty
  | bidDepth
  | askDepth
  | statistics

inductive ColdAnswer where
  | level (l : Option PriceLevel)
  | levels (l : List PriceLevel)
  | snapshot (s : OrderBookSnapshot)
  | empty (b : Bool)
  | depth (n : ℕ)
  | statistics (s : OrderBook.Statistics)

def ColdQuery.ask (b : OrderBook) : ColdQuery → ColdAnswer
  | .bidLevel i => .level (b.getBidLevel i)
  | .askLevel i => .level (b.getAskLevel i)
  | .bidLevels n => .levels (b.getBidLevels n)
  | .askLevels n => .levels (b.getAskLevels n)
  | .snapshot => .snapshot b.generateSnapshot
  | .empty => .empty b.empty
  | .bidDepth => .depth b.coldData.bids.size
  | .askDepth => .depth b.coldData.asks.size
  | .statistics => .statistics b.coldData.statistics

inductive Change where
  | updateBidLevel (price quantity : Decimal)
  | updateAskLevel (price quantity : Decimal)
  | clear
  | rebuild (snapshot : OrderBookSnapshot)
  | trimDepth

def Change.apply (b : OrderBook) : Change → OrderBook
  | .updateBidLevel price quantity => b.updateBidLevel price quantity
  | .updateAskLevel price quantity => b.updateAskLevel price quantity
  | .clear => { b with coldData := { b.coldData with bids := .empty, asks := .empty } }
  | .rebuild s => { b with coldData := { b.coldData with
      bids := OrderBook.assignAll s.bids, asks := OrderBook.assignAll s.asks } }
  | .trimDepth => b.trimDepth

inductive Instr where
  | lockCold
  | unlockCold
  | lockShared
  | unlockShared
  | lockHot
  | unlockHot
  | change (c : Change)
  | countUpdate (isBid : Bool)
  | answer (q : ColdQuery)
  | bump
  | copyBid
  | copyAsk
  | store (s : Store)

inductive Op where
  | update (tick : Tick)
  | clear
  | rebuildFromSnapshot (snapshot : OrderBookSnapshot) (nowUs : ℕ)
  | cold (q : ColdQuery)

def updateHotData (receiveTimestampUs : ℕ) : List Instr :=
  [.lockShared, .lockHot, .bump, .copyBid, .copyAsk,
    .store (.lastUpdateTime receiveTimestampUs), .bump, .unlockHot, .unlockShared]

def alone (i : Instr) : List Instr := [.lockCold, i, .unlockCold]

def levelChange (tick : Tick) : Change :=
  if tick.side = .bid then .updateBidLevel tick.price tick.quantity
  else .updateAskLevel tick.price tick.quantity

def program : Op → List Instr
  | .update tick =>
    alone (.change (levelChange tick))++(updateHotData tick.receiveTimestampUs++
      (alone (.change .trimDepth)++alone (.countUpdate (tick.side = .bid))))
  | .clear =>
    [.lockCold, .change .clear, .lockHot, .bump, .store (.hasBids false), .store (.hasAsks false),
      .store (.bestBidPrice 0), .store (.bestBidQuantity 0), .store (.bestAskPrice 0),
      .store (.bestAskQuantity 0), .bump, .unlockHot, .unlockCold]
  | .rebuildFromSnapshot snapshot nowUs =>
    alone (.change (.rebuild snapshot))++updateHotData nowUs
  | .cold q => [.lockShared, .answer q, .unlockShared]

def bidStores (c : ColdData) : List Store :=
  match c.bids.entries with
  | x::_ => [.bestBidPrice x.1, .bestBidQuantity x.2, .hasBids true]
  | [] => [.hasBids false]

def askStores (c : ColdData) : List Store :=
  match c.asks.entries with
  | x::_ => [.bestAskPrice x.1, .bestAskQuantity x.2, .hasAsks true]
  | [] => [.hasAsks false]

inductive HotQuery where
  | bestBid
  | bestAsk
  | midPrice
  | spread
  | bestBidAsk
  deriving DecidableEq

inductive HotAnswer where
  | value (v : Option Decimal)
  | pair (bid ask : Option Decimal)
  deriving DecidableEq

section Queries
variable [NearestDivision.NearestDiv]

def bestReading (has : HotData → Bool) (price : HotData → Decimal)
    (next : Option Decimal → Reading HotData HotAnswer) : Reading HotData HotAnswer :=
  .load fun d => if has d then .load fun d => next (some (price d)) else next none

def quoteReading (f : Decimal → Decimal → Decimal) : Reading HotData HotAnswer :=
  .load fun d => if d.hasBids then
      .load fun d => if d.hasAsks then
          .load fun d => let bid := d.bestBidPrice
          .load fun d => .done (.value (some (f bid d.bestAskPrice)))
        else .done (.value none)
    else .done (.value none)

def HotQuery.reading : HotQuery → Reading HotData HotAnswer
  | .bestBid => bestReading HotData.hasBids HotData.bestBidPrice (fun bid => .done (.value bid))
  | .bestAsk => bestReading HotData.hasAsks HotData.bestAskPrice (fun ask => .done (.value ask))
  | .midPrice => quoteReading (fun bid ask => (bid+ask)/Decimal.ofInt 2)
  | .spread => quoteReading (fun bid ask => ask-bid)
  | .bestBidAsk =>
    bestReading HotData.hasBids HotData.bestBidPrice (fun bid =>
      bestReading HotData.hasAsks HotData.bestAskPrice (fun ask => .done (.pair bid ask)))

def HotQuery.on (l : Ladders) : HotQuery → HotAnswer
  | .bestBid => .value l.bestBid
  | .bestAsk => .value l.bestAsk
  | .midPrice => .value (l.quote (fun bid ask => (bid+ask)/Decimal.ofInt 2))
  | .spread => .value (l.quote (fun bid ask => ask-bid))
  | .bestBidAsk => .pair l.bestBid l.bestAsk

end Queries

/-- Where a thread stands: what is left of its operation and the number of
the ladders its own change left, or how far its optimistic read has come,
with the number of attempts left. -/
inductive Place where
  | idle
  | op (changed : ℕ) (rest : List Instr)
  | look (q : HotQuery) (retries completed : ℕ)
  | reading (q : HotQuery) (retries completed version : ℕ) (rest : Reading HotData HotAnswer)
  | fallback (q : HotQuery) (completed : ℕ) (rest : Reading HotData HotAnswer)

def Place.busy : Place → Bool
  | .op _ _ => true
  | _ => false

/-- An optimistic read that has returned: the newest ladders left by an
operation that was complete when it began, and how many ladders the book
had held when it ended. -/
structure HotReturn where
  query : HotQuery
  answer : HotAnswer
  validated : Bool
  completed : ℕ
  held : ℕ

/-- An answer given under the levels' lock, with the number of operations
under way when it was read, the query among them. -/
structure ColdReturn where
  query : ColdQuery
  answer : ColdAnswer
  underway : ℕ

structure State (n : ℕ) where
  book : OrderBook := {}
  coldOwner : Option (Fin n) := none
  coldSharers : Finset (Fin n) := ∅
  hotOwner : Option (Fin n) := none
  threads : Fin n → Place := fun _ => .idle
  ladders : List Ladders := [{}]
  completed : ℕ := 0
  bumps : ℕ := 0
  hotReturns : List HotReturn := []
  coldReturns : List ColdReturn := []

inductive Action (n : ℕ) where
  | start (thread : Fin n) (op : Op)
  | ask (thread : Fin n) (q : HotQuery)
  | step (thread : Fin n)

variable {n : ℕ}

namespace State

def place (s : State n) (i : Fin n) (p : Place) : State n :=
  { s with threads := Function.update s.threads i p }

def storeHot (s : State n) (x : Store) : State n :=
  { s with book := { s.book with hotData := x.apply s.book.hotData } }

def bump (s : State n) : State n :=
  { s with
    book := { s.book with hotData := { s.book.hotData with
      version := OrderBook.bump s.book.hotData.version } }
    bumps := s.bumps+1 }

def change (s : State n) (c : Change) : State n :=
  { s with book := c.apply s.book, ladders := s.ladders++[(c.apply s.book).view] }

def underway (s : State n) : ℕ := (Finset.univ.filter (fun i => (s.threads i).busy = true)).card

def Open (s : State n) : Instr → Prop
  | .lockCold => s.coldOwner = none ∧ s.coldSharers = ∅
  | .lockShared => s.coldOwner = none
  | .lockHot => s.hotOwner = none
  | _ => True

instance Open.decidable (s : State n) : ∀ i, Decidable (s.Open i)
  | .lockCold => inferInstanceAs (Decidable (_ ∧ _))
  | .lockShared => inferInstanceAs (Decidable (_ = _))
  | .lockHot => inferInstanceAs (Decidable (_ = _))
  | .unlockCold | .unlockShared | .unlockHot | .change _ | .countUpdate _ | .answer _ | .bump
  | .copyBid | .copyAsk | .store _ => inferInstanceAs (Decidable True)

def exec (s : State n) (i : Fin n) : Instr → State n
  | .lockCold => { s with coldOwner := some i }
  | .unlockCold => { s with coldOwner := none }
  | .lockShared => { s with coldSharers := insert i s.coldSharers }
  | .unlockShared => { s with coldSharers := s.coldSharers.erase i }
  | .lockHot => { s with hotOwner := some i }
  | .unlockHot => { s with hotOwner := none }
  | .change c => s.change c
  | .countUpdate isBid => { s with book := s.book.countUpdate isBid }
  | .answer q => { s with coldReturns := s.coldReturns++[⟨q,q.ask s.book,s.underway⟩] }
  | .bump => s.bump
  | .copyBid | .copyAsk => s
  | .store x => s.storeHot x

/-- The instructions that follow an instruction: the branches of
`updateHotData` are chosen where they stand. -/
def follow (s : State n) (rest : List Instr) : Instr → List Instr
  | .copyBid => (bidStores s.book.coldData).map .store++rest
  | .copyAsk => (askStores s.book.coldData).map .store++rest
  | _ => rest

def changes (s : State n) (changed : ℕ) : Instr → ℕ
  | .change .trimDepth => changed
  | .change _ => s.ladders.length
  | _ => changed

def opStep (s : State n) (i : Fin n) (changed : ℕ) : List Instr → State n
  | [] => place { s with completed := max s.completed changed } i .idle
  | instr::rest =>
    if s.Open instr then (s.exec i instr).place i (.op (s.changes changed instr) (s.follow rest instr))
    else s

def hotReturn (s : State n) (i : Fin n) (q : HotQuery) (answer : HotAnswer) (validated : Bool)
    (completed : ℕ) : State n :=
  place { s with hotReturns :=
    s.hotReturns++[⟨q,answer,validated,completed,s.ladders.length⟩] } i .idle

variable [NearestDivision.NearestDiv]

def threadStep (s : State n) (i : Fin n) : Place → State n
  | .idle => s
  | .op changed rest => s.opStep i changed rest
  | .look q 0 k => s.place i (.fallback q k q.reading)
  | .look q (retries+1) k =>
    if s.book.hotData.version%2 = 1 then s.place i (.look q retries k)
    else s.place i (.reading q retries k s.book.hotData.version q.reading)
  | .reading q retries k version (.done answer) =>
    if s.book.hotData.version = version then s.hotReturn i q answer true k
    else s.place i (.look q retries k)
  | .reading q retries k version rest =>
    s.place i (.reading q retries k version (rest.advance s.book.hotData))
  | .fallback q k (.done answer) => s.hotReturn i q answer false k
  | .fallback q k rest => s.place i (.fallback q k (rest.advance s.book.hotData))

def begin (s : State n) (i : Fin n) (p : Place) : State n :=
  match s.threads i with
  | .idle => s.place i p
  | _ => s

def step (s : State n) : Action n → State n
  | .start i op => s.begin i (.op 0 (program op))
  | .ask i q => s.begin i (.look q OrderBook.maxRetries s.completed)
  | .step i => s.threadStep i (s.threads i)

end State

def Place.rest : Place → List Instr
  | .op _ rest => rest
  | _ => []

/-- What an action can do: nothing, if a lock is not free or the thread has
something else under way; begin or end an operation; execute an instruction,
which is then the label of the step; move an optimistic read on. -/
inductive Stepped (s : State n) : Action n → Option (Fin n × Instr) → State n → Prop where
  | still (a : Action n) : Stepped s a none s
  | start (i : Fin n) (op : Op) (h : s.threads i = .idle) :
    Stepped s (.start i op) none (s.place i (.op 0 (program op)))
  | finish (i : Fin n) (changed : ℕ) (h : s.threads i = .op changed []) :
    Stepped s (.step i) none (State.place { s with completed := max s.completed changed } i .idle)
  | exec (i : Fin n) (changed : ℕ) (instr : Instr) (rest : List Instr)
    (h : s.threads i = .op changed (instr::rest)) (hopen : s.Open instr) :
    Stepped s (.step i) (some (i,instr))
      ((s.exec i instr).place i (.op (s.changes changed instr) (s.follow rest instr)))
  | read (a : Action n) (i : Fin n) (p : Place) (returns : List HotReturn)
    (h : (s.threads i).busy = false) (hp : p.busy = false) :
    Stepped s a none (State.place { s with hotReturns := returns } i p)

section Stepped
variable [NearestDivision.NearestDiv]

theorem threadStep_stepped (s : State n) (i : Fin n) :
    ∃ label, Stepped s (.step i) label (s.threadStep i (s.threads i)) := by
  have hread (p : Place) (hp : p.busy = false) (hi : (s.threads i).busy = false) :
      ∃ label, Stepped s (.step i) label (s.place i p) := ⟨none,.read _ i p s.hotReturns hi hp⟩
  cases hplace : s.threads i with
  | idle => exact ⟨none,.still _⟩
  | op changed rest =>
    cases rest with
    | nil => exact ⟨none,.finish i changed hplace⟩
    | cons instr rest =>
      rw [State.threadStep, State.opStep]
      split_ifs with hopen
      · exact ⟨_,.exec i changed instr rest hplace hopen⟩
      · exact ⟨none,.still _⟩
  | look q retries k =>
    cases retries with
    | zero => exact hread _ rfl (by rw [hplace]; rfl)
    | succ retries =>
      rw [State.threadStep]
      split_ifs
      · exact hread _ rfl (by rw [hplace]; rfl)
      · exact hread _ rfl (by rw [hplace]; rfl)
  | reading q retries k version rest =>
    cases rest with
    | load next => exact hread (.reading q retries k version _) rfl (by rw [hplace]; rfl)
    | done answer =>
      rw [State.threadStep]
      split_ifs
      · exact ⟨none,.read _ i .idle _ (by rw [hplace]; rfl) rfl⟩
      · exact hread _ rfl (by rw [hplace]; rfl)
  | fallback q k rest =>
    cases rest with
    | load next => exact hread (.fallback q k _) rfl (by rw [hplace]; rfl)
    | done answer => exact ⟨none,.read _ i .idle _ (by rw [hplace]; rfl) rfl⟩

theorem step_stepped (s : State n) (a : Action n) : ∃ label, Stepped s a label (s.step a) := by
  cases a with
  | step i => exact threadStep_stepped s i
  | start i op =>
    rw [State.step, State.begin]
    split
    · rename_i hidle
      exact ⟨none,.start i op hidle⟩
    · exact ⟨none,.still _⟩
  | ask i q =>
    rw [State.step, State.begin]
    split
    · rename_i hidle
      exact ⟨none,.read _ i _ s.hotReturns (by rw [hidle]; rfl) rfl⟩
    · exact ⟨none,.still _⟩

end Stepped
end Chronos.SharedOrderBook
