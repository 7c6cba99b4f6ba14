import Chronos.SharedOrderBookLocks

/-!
# What readers of the shared order book find

While a thread writes the copy of the best levels, the stores it has left
complete it; while nobody does, the copy is the top of some ladders the book
has held, no older than those of any operation that has returned. It is that
of the present ladders, unless some operation has changed the levels and has
its own copying still before it. A validated read therefore answers for one
pair of ladders between its beginning and its end.
-/

set_option autoImplicit false

namespace Chronos.SharedOrderBook
open OrderedLevels BookLadder OptimisticRead
open OrderBook (HotData ColdData hotBid hotAsk HotFirst)

def top (l : Ladders) : Option (Decimal × Decimal) × Option (Decimal × Decimal) :=
  (l.bids.head?,l.asks.head?)

def shown (h : HotData) : Option (Decimal × Decimal) × Option (Decimal × Decimal) :=
  (hotBid h,hotAsk h)

def storeAll (xs : List Store) (h : HotData) : HotData := xs.foldl Store.apply h

def finish (c : ColdData) : List Instr → HotData → HotData
  | [], h => h
  | .bump::_, h => h
  | .store x::rest, h => finish c rest (x.apply h)
  | .copyBid::rest, h => finish c rest (storeAll (bidStores c) h)
  | .copyAsk::rest, h => finish c rest (storeAll (askStores c) h)
  | _::rest, h => finish c rest h

theorem finish_stores (c : ColdData) (xs : List Store) (rest : List Instr) (h : HotData) :
    finish c (xs.map .store++rest) h = finish c rest (storeAll xs h) := by
  induction xs generalizing h with
  | nil => rfl
  | cons x xs ih => exact ih (x.apply h)

theorem copies_shown (c : ColdData) (rest : List Instr) (h : HotData) (hr : Copies rest) :
    shown (finish c rest h) = (c.bids.entries.head?,c.asks.entries.head?) := by
  obtain ⟨t,tail,rfl⟩ := hr
  cases hb : c.bids.entries <;> cases ha : c.asks.entries <;>
    simp [finish, storeAll, bidStores, askStores, hb, ha, Store.apply, shown, hotBid, hotAsk]

theorem clears_shown (c : ColdData) (rest : List Instr) (h : HotData) (hr : Clears rest) :
    shown (finish c rest h) = (none,none) := by
  obtain ⟨tail,rfl⟩ := hr
  rfl

section Top

theorem trim_top (b : OrderBook) : top b.trimDepth.view = top b.view := by
  have ht (xs : List (Decimal × Decimal)) : (xs.take maxDepth).head? = xs.head? := by
    cases xs <;> rfl
  simp [top, OrderBook.view, OrderBook.trimDepth, OrderBook.trim_entries, ht]

theorem hotFirst_iff (b : OrderBook) : HotFirst b ↔ shown b.hotData = top b.view :=
  ⟨fun h => Prod.ext h.bid h.ask,fun h => ⟨congrArg Prod.fst h,congrArg Prod.snd h⟩⟩

end Top

/-- The ladders an operation's own change left are among those of the book,
and not newer than the copy once it has been renewed. -/
def Numbered (reflected held : ℕ) (m : Mode) : Place → Prop
  | .op changed _ => changed < held ∧ (m.dirty = false → changed ≤ reflected)
  | _ => True

def Completes (b : OrderBook) (m : Mode) (p : Place) : Prop :=
  m.hot = .writing → shown (finish b.coldData p.rest b.hotData) = top b.view

variable {n : ℕ}

/-- The copy of the best levels against the ladders the book has held;
`reflected` is the number of those it was last copied from. -/
structure HotFacts (m : Fin n → Mode) (reflected : ℕ) (s : State n) : Prop where
  present : s.ladders.getLast? = some s.book.view
  version : s.book.hotData.version = s.bumps
  parity : s.bumps%2 = 1 ↔ ∃ i, (m i).hot = .writing
  writing : ∀ i, Completes s.book (m i) (s.threads i)
  quiet : s.bumps%2 = 0 → ∃ l, s.ladders[reflected]? = some l ∧ shown s.book.hotData = top l
  cleared : ∀ i, (m i).cleared = true → (m i).cold = .alone ∧ s.book.view = {}
  current : (∃ l, s.ladders[reflected]? = some l ∧ top l = top s.book.view) ∨ ∃ i, (m i).dirty = true
  numbered : ∀ i, Numbered reflected s.ladders.length (m i) (s.threads i)
  completed : s.completed ≤ reflected
  bound : reflected < s.ladders.length

theorem forall_moved (P : Mode → Place → Prop) (m : Fin n → Mode) (threads : Fin n → Place)
    (i : Fin n) (m' : Mode) (p : Place) (hi : P m' p) (h : ∀ j, j ≠ i → P (m j) (threads j)) :
    ∀ j, P (Function.update m i m' j) (Function.update threads i p j) := by
  intro j
  by_cases hj : j = i
  · subst hj
    simpa using hi
  · simpa [hj] using h j hj

theorem dirty_moved (m : Fin n → Mode) (i : Fin n) (m' : Mode) (hd : m'.dirty = (m i).dirty) :
    (∃ j, (Function.update m i m' j).dirty = true) ↔ ∃ j, (m j).dirty = true := by
  have hsame : ∀ j, (Function.update m i m' j).dirty = (m j).dirty := by
    intro j
    by_cases hj : j = i
    · subst hj
      simpa using hd
    · simp [hj]
  simp only [hsame]

section Keep
variable (m : Fin n → Mode) (r : ℕ) (s : State n) (i : Fin n)

theorem facts_keep (s' : State n) (p : Place) (m' : Mode) (h : HotFacts m r s)
    (hthreads : s'.threads = Function.update s.threads i p) (hbook : s'.book = s.book)
    (hladders : s'.ladders = s.ladders) (hbumps : s'.bumps = s.bumps) (hdone : s'.completed ≤ r)
    (hhot : m'.hot = .writing ↔ (m i).hot = .writing) (hdirty : m'.dirty = (m i).dirty)
    (hcleared : m'.cleared = true → m'.cold = .alone ∧ s.book.view = {})
    (hnumbered : Numbered r s.ladders.length m' p) (hwriting : Completes s.book m' p) :
    HotFacts (Function.update m i m') r s' := by
  constructor
  case present => rw [hladders, hbook]; exact h.present
  case version => rw [hbook, hbumps]; exact h.version
  case parity =>
    rw [hbumps, h.parity, Function.exists_update_iff m (fun _ x => x.hot = .writing)]
    grind
  case writing =>
    rw [hthreads, hbook]
    exact forall_moved _ m s.threads i m' p hwriting (fun j _ => h.writing j)
  case quiet => rw [hbumps, hladders, hbook]; exact h.quiet
  case cleared =>
    rw [hbook]
    exact (Function.forall_update_iff m
      (fun _ x => x.cleared = true → x.cold = .alone ∧ s.book.view = {})).mpr
      ⟨hcleared,fun j _ => h.cleared j⟩
  case current =>
    rw [hladders, hbook, dirty_moved m i m' hdirty]
    exact h.current
  case numbered =>
    rw [hthreads, hladders]
    exact forall_moved _ m s.threads i m' p hnumbered (fun j _ => h.numbered j)
  case completed => exact hdone
  case bound => rw [hladders]; exact h.bound

/-- While a thread holds the levels' lock alone and not the spin lock, the
spin lock is free. -/
theorem alone_out (hl : Locks m s) (hc : (m i).cold = .alone) (hh : (m i).hot = .out) (j : Fin n) :
    (m j).hot = .out := by
  by_contra hj
  have hcold := typed_nested (m j) _ (hl.typed j) hj
  obtain ⟨ho,hs⟩ := owner_of_alone m s i hl hc
  cases hjc : (m j).cold with
  | free => exact hcold hjc
  | shared =>
    have hmem := (hl.shared j).mpr hjc
    simp [hs] at hmem
  | alone =>
    have hj' := (hl.alone j).mpr hjc
    rw [ho] at hj'
    obtain rfl : i = j := by simpa using hj'
    exact hj hh

theorem none_writing (h : HotFacts m r s) (hout : ∀ j, (m j).hot ≠ .writing) : s.bumps%2 = 0 := by
  have hp := h.parity
  by_contra hodd
  obtain ⟨j,hj⟩ := hp.mp (by omega)
  exact hout j hj

theorem facts_levels (b : OrderBook) (changed : ℕ) (rest : List Instr) (m' : Mode) (hl : Locks m s)
    (h : HotFacts m r s) (hcold : (m i).cold = .alone) (hout : (m i).hot = .out) (hm : m'.hot = .out)
    (hb : b.hotData = s.book.hotData) (hcleared : m'.cleared = true → m'.cold = .alone ∧ b.view = {})
    (htop : m'.dirty = true ∨ m'.dirty = (m i).dirty ∧ top b.view = top s.book.view)
    (hchanged : changed ≤ s.ladders.length ∧ (m'.dirty = false → changed ≤ r)) :
    HotFacts (Function.update m i m') r
      (State.place { s with book := b, ladders := s.ladders++[b.view] } i (.op changed rest)) := by
  have hall := alone_out m s i hl hcold hout
  have heven := none_writing m r s h (fun j hj => by rw [hall j] at hj; cases hj)
  have hall' : ∀ j, (Function.update m i m' j).hot ≠ .writing :=
    (Function.forall_update_iff m (fun _ x => x.hot ≠ .writing)).mpr
      ⟨by rw [hm]; decide,fun j _ => by rw [hall j]; decide⟩
  have hold : (s.ladders++[b.view])[r]? = s.ladders[r]? := List.getElem?_append_left h.bound
  have hlen : (s.ladders++[b.view]).length = s.ladders.length+1 := by simp
  constructor
  case present => exact List.getLast?_concat
  case version => exact (congrArg HotData.version hb).trans h.version
  case parity =>
    refine iff_of_false (fun hodd => absurd (hodd.symm.trans heven) (by decide)) ?_
    exact fun ⟨j,hj⟩ => hall' j hj
  case writing => exact fun j hj => absurd hj (hall' j)
  case quiet =>
    intro he
    obtain ⟨l,hlad,hshow⟩ := h.quiet he
    exact ⟨l,hold.trans hlad,(congrArg shown hb).trans hshow⟩
  case cleared =>
    refine (Function.forall_update_iff m
      (fun _ x => x.cleared = true → x.cold = .alone ∧ b.view = {})).mpr ⟨hcleared,fun j hj hc => ?_⟩
    have halone := (hl.alone j).mpr (h.cleared j hc).1
    rw [(owner_of_alone m s i hl hcold).1] at halone
    exact absurd (Option.some.inj halone).symm hj
  case current =>
    rcases htop with hd | ⟨hd,htop⟩
    · exact Or.inr ⟨i,by simpa using hd⟩
    · rw [dirty_moved m i m' hd]
      rcases h.current with ⟨l,hlad,hcur⟩ | hj
      · exact Or.inl ⟨l,hold.trans hlad,hcur.trans htop.symm⟩
      · exact Or.inr hj
  case numbered =>
    refine forall_moved _ m s.threads i m' _ ⟨?_,hchanged.2⟩ (fun j _ => ?_)
    · exact (Nat.lt_succ_of_le hchanged.1).trans_eq hlen.symm
    · have hj := h.numbered j
      cases hp : s.threads j with
      | op changed rest =>
        rw [hp] at hj
        exact ⟨(Nat.lt_succ_of_lt hj.1).trans_eq hlen.symm,hj.2⟩
      | _ => trivial
  case completed => exact h.completed
  case bound => exact (Nat.lt_succ_of_lt h.bound).trans_eq hlen.symm

theorem change_hot (b : OrderBook) (c : Change) : (c.apply b).hotData = b.hotData := by
  cases c <;> rfl

theorem facts_change (c : Change) (changed : ℕ) (rest : List Instr) (hl : Locks m s)
    (h : HotFacts m r s) (hn : Numbered r s.ladders.length (m i) (.op changed rest))
    (hf : Fits (m i) rest (.change c)) :
    HotFacts (Function.update m i ((m i).next (.change c))) r
      ((s.change c).place i (.op (s.changes changed (.change c)) rest)) := by
  have hlevels := facts_levels m r s i (c.apply s.book) (s.changes changed (.change c)) rest
    ((m i).next (.change c)) hl h hf.1 hf.2 (by cases c <;> exact hf.2) (change_hot s.book c)
  cases c with
  | trimDepth =>
    exact hlevels (fun hc => absurd hc (by simp [Mode.next])) (Or.inr ⟨rfl,trim_top s.book⟩)
      ⟨hn.1.le,hn.2⟩
  | clear =>
    exact hlevels (fun _ => ⟨hf.1,rfl⟩) (Or.inl rfl)
      ⟨le_refl _,fun hd => absurd hd (by simp [Mode.next])⟩
  | _ =>
    exact hlevels (fun hc => absurd hc (by simp [Mode.next])) (Or.inl rfl)
      ⟨le_refl _,fun hd => absurd hd (by simp [Mode.next])⟩

/-- Nobody else is between the increments of the version. -/
theorem writer_unique (hl : Locks m s) (hi : (m i).hot ≠ .out) (j : Fin n) (hj : (m j).hot ≠ .out) :
    j = i := by
  have h := (hl.spin i).mpr hi
  rw [(hl.spin j).mpr hj] at h
  exact Option.some.inj h

/-- A step that touches the copy of the best levels, by the owner of the spin
lock, and leaves a version that is odd again. -/
theorem facts_write (s' : State n) (p : Place) (m' : Mode) (hl : Locks m s) (h : HotFacts m r s)
    (hi : (m i).hot ≠ .out) (hthreads : s'.threads = Function.update s.threads i p)
    (hcold : s'.book.coldData = s.book.coldData) (hladders : s'.ladders = s.ladders)
    (hdone : s'.completed = s.completed) (hversion : s'.book.hotData.version = s'.bumps)
    (hodd : s'.bumps%2 = 1) (hhot : m'.hot = .writing) (hdirty : m'.dirty = (m i).dirty)
    (hcleared : m'.cleared = true → m'.cold = .alone ∧ s.book.view = {})
    (hnumbered : Numbered r s.ladders.length m' p) (hwriting : Completes s'.book m' p) :
    HotFacts (Function.update m i m') r s' := by
  have hview : s'.book.view = s.book.view := by rw [OrderBook.view, OrderBook.view, hcold]
  constructor
  case present => rw [hladders, hview]; exact h.present
  case version => exact hversion
  case parity => exact iff_of_true hodd ⟨i,by simpa using hhot⟩
  case writing =>
    rw [hthreads]
    refine forall_moved _ m s.threads i m' p hwriting (fun j hji hj => absurd ?_ hji)
    exact writer_unique m s i hl hi j (by rw [hj]; decide)
  case quiet => exact fun he => absurd (hodd.symm.trans he) (by decide)
  case cleared =>
    rw [hview]
    exact (Function.forall_update_iff m
      (fun _ x => x.cleared = true → x.cold = .alone ∧ s.book.view = {})).mpr
      ⟨hcleared,fun j _ => h.cleared j⟩
  case current =>
    rw [hladders, hview, dirty_moved m i m' hdirty]
    exact h.current
  case numbered =>
    rw [hthreads, hladders]
    exact forall_moved _ m s.threads i m' p hnumbered (fun j _ => h.numbered j)
  case completed => exact hdone.trans_le h.completed
  case bound => rw [hladders]; exact h.bound

theorem facts_store (x : Store) (changed : ℕ) (rest : List Instr) (hl : Locks m s)
    (h : HotFacts m r s) (hop : s.threads i = .op changed (.store x::rest))
    (hf : Fits (m i) rest (.store x)) :
    HotFacts (Function.update m i (m i)) r ((s.storeHot x).place i (.op changed rest)) := by
  have hversion : (x.apply s.book.hotData).version = s.book.hotData.version := by cases x <;> rfl
  have hwriting := h.writing i
  have hnumbered := h.numbered i
  rw [hop] at hwriting hnumbered
  exact facts_write m r s i _ (.op changed rest) (m i) hl h (by rw [hf.2]; decide) rfl rfl rfl rfl
    (hversion.trans h.version) (h.parity.mpr ⟨i,hf.2⟩) hf.2 rfl (h.cleared i) hnumbered hwriting

theorem bump_version (h : HotFacts m r s) (hfew : s.bumps+1 < 2^64) :
    s.bump.book.hotData.version = s.bumps+1 := by
  have hv := h.version
  change (s.book.hotData.version+1)%2^64 = s.bumps+1
  rw [hv, Nat.mod_eq_of_lt hfew]

theorem facts_begin (changed : ℕ) (rest : List Instr) (hl : Locks m s) (h : HotFacts m r s)
    (hn : Numbered r s.ladders.length (m i) (.op changed rest)) (hlocked : (m i).hot = .locked)
    (hstores : Copies rest ∨ (m i).cleared = true ∧ Clears rest) (hfew : s.bumps+1 < 2^64) :
    HotFacts (Function.update m i { m i with hot := .writing }) r
      (s.bump.place i (.op changed rest)) := by
  have heven : s.bumps%2 = 0 := by
    apply none_writing m r s h
    intro j hj
    obtain rfl := writer_unique m s i hl (by rw [hlocked]; decide) j (by rw [hj]; decide)
    rw [hlocked] at hj
    cases hj
  have hodd : (s.bumps+1)%2 = 1 := by omega
  refine facts_write m r s i _ (.op changed rest) _ hl h (by rw [hlocked]; decide) rfl rfl rfl rfl
    (bump_version m r s h hfew) hodd rfl rfl (h.cleared i) hn (fun _ => ?_)
  rcases hstores with hr | ⟨hc,hr⟩
  · exact copies_shown s.book.coldData rest _ hr
  · refine (clears_shown s.book.coldData rest _ hr).trans ?_
    exact (congrArg top (h.cleared i hc).2).symm

theorem facts_end (changed : ℕ) (rest : List Instr) (hl : Locks m s) (h : HotFacts m r s)
    (hop : s.threads i = .op changed (.bump::rest)) (hwriting : (m i).hot = .writing)
    (hfew : s.bumps+1 < 2^64) :
    HotFacts (Function.update m i { m i with hot := .written, dirty := false }) (s.ladders.length-1)
      (s.bump.place i (.op changed rest)) := by
  have hodd : s.bumps%2 = 1 := h.parity.mpr ⟨i,hwriting⟩
  have hbound := h.bound
  have hlast : s.ladders[s.ladders.length-1]? = some s.book.view := by
    rw [← List.getLast?_eq_getElem?]
    exact h.present
  have hnone : ∀ j, (Function.update m i { m i with hot := .written, dirty := false } j).hot ≠ .writing := by
    refine (Function.forall_update_iff m (fun _ x => x.hot ≠ .writing)).mpr
      ⟨by simp,fun j hji hj => absurd ?_ hji⟩
    exact writer_unique m s i hl (by rw [hwriting]; decide) j (by rw [hj]; decide)
  constructor
  case present => exact h.present
  case version => exact bump_version m r s h hfew
  case parity =>
    have heven : ¬(s.bumps+1)%2 = 1 := by omega
    exact iff_of_false heven (fun ⟨j,hj⟩ => hnone j hj)
  case writing => exact fun j hj => absurd hj (hnone j)
  case quiet =>
    have hshown := h.writing i hwriting
    rw [hop] at hshown
    exact fun _ => ⟨s.book.view,hlast,hshown⟩
  case cleared =>
    exact (Function.forall_update_iff m
      (fun _ x => x.cleared = true → x.cold = .alone ∧ s.book.view = {})).mpr
      ⟨h.cleared i,fun j _ => h.cleared j⟩
  case current => exact Or.inl ⟨s.book.view,hlast,rfl⟩
  case numbered =>
    have hlow (k : ℕ) (hk : k < s.ladders.length) : k ≤ s.ladders.length-1 := by omega
    have hi := h.numbered i
    rw [hop] at hi
    refine forall_moved _ m s.threads i _ _ ⟨hi.1,fun _ => hlow _ hi.1⟩ (fun j _ => ?_)
    have hj := h.numbered j
    cases hp : s.threads j with
    | op changed rest =>
      rw [hp] at hj
      exact ⟨hj.1,fun _ => hlow _ hj.1⟩
    | _ => trivial
  case completed =>
    have hdone := h.completed
    change s.completed ≤ s.ladders.length-1
    omega
  case bound =>
    change s.ladders.length-1 < s.ladders.length
    omega

theorem facts_count (isBid : Bool) (changed : ℕ) (rest : List Instr) (hl : Locks m s)
    (h : HotFacts m r s) (hn : Numbered r s.ladders.length (m i) (.op changed rest))
    (hf : Fits (m i) rest (.countUpdate isBid)) :
    HotFacts (Function.update m i (m i)) r
      (State.place { s with book := s.book.countUpdate isBid } i (.op changed rest)) := by
  have hout := alone_out m s i hl hf.1 hf.2
  constructor
  case writing =>
    refine forall_moved _ m s.threads i (m i) _ ?_ (fun j _ => ?_)
    all_goals
      intro hj
      rw [hout] at hj
      cases hj
  case numbered => exact forall_moved _ m s.threads i (m i) _ hn (fun j _ => h.numbered j)
  case present => exact h.present
  case version => exact h.version
  case parity => rw [Function.update_eq_self]; exact h.parity
  case quiet => exact h.quiet
  case cleared => rw [Function.update_eq_self]; exact h.cleared
  case current => rw [Function.update_eq_self]; exact h.current
  case completed => exact h.completed
  case bound => exact h.bound

/-- An instruction of a thread that need not wait. The copy is only renewed. -/
theorem exec_facts (changed : ℕ) (instr : Instr) (rest : List Instr) (hl : Locks m s)
    (h : HotFacts m r s) (hop : s.threads i = .op changed (instr::rest))
    (hfew : (s.exec i instr).bumps < 2^64) :
    ∃ r', r ≤ r' ∧ HotFacts (Function.update m i ((m i).next instr)) r'
      ((s.exec i instr).place i (.op (s.changes changed instr) (s.follow rest instr))) := by
  have htyped := hl.typed i
  have hn := h.numbered i
  have hw := h.writing i
  rw [hop] at htyped hn hw
  have hf := htyped.1
  have hcleared := h.cleared i
  cases instr with
  | change c => exact ⟨r,le_refl _,facts_change m r s i c changed rest hl h hn hf⟩
  | store x => exact ⟨r,le_refl _,facts_store m r s i x changed rest hl h hop hf⟩
  | bump =>
    rcases hf.2 with ⟨hlocked,hstores⟩ | hwriting
    · rw [Mode.next, if_pos hlocked]
      exact ⟨r,le_refl _,facts_begin m r s i changed rest hl h hn hlocked hstores hfew⟩
    · rw [Mode.next, if_neg (by rw [hwriting]; decide)]
      exact ⟨_,Nat.le_sub_one_of_lt h.bound,facts_end m r s i changed rest hl h hop hwriting hfew⟩
  | countUpdate isBid => exact ⟨r,le_refl _,facts_count m r s i isBid changed rest hl h hn hf⟩
  | copyBid =>
    refine ⟨r,le_refl _,facts_keep m r s i _ _ _ h rfl rfl rfl rfl h.completed Iff.rfl rfl hcleared hn ?_⟩
    intro hwr
    exact (congrArg shown (finish_stores s.book.coldData _ rest _)).trans (hw hwr)
  | copyAsk =>
    refine ⟨r,le_refl _,facts_keep m r s i _ _ _ h rfl rfl rfl rfl h.completed Iff.rfl rfl hcleared hn ?_⟩
    intro hwr
    exact (congrArg shown (finish_stores s.book.coldData _ rest _)).trans (hw hwr)
  | answer q =>
    exact ⟨r,le_refl _,facts_keep m r s i _ _ _ h rfl rfl rfl rfl h.completed Iff.rfl rfl hcleared hn hw⟩
  | lockCold | lockShared =>
    refine ⟨r,le_refl _,facts_keep m r s i _ _ _ h rfl rfl rfl rfl h.completed Iff.rfl rfl ?_ hn hw⟩
    intro hc
    have halone := (hcleared hc).1
    rw [hf.1] at halone
    cases halone
  | unlockCold =>
    exact ⟨r,le_refl _,facts_keep m r s i _ _ _ h rfl rfl rfl rfl h.completed Iff.rfl rfl
      (fun hc => absurd hc (by simp [Mode.next])) hn hw⟩
  | unlockShared =>
    refine ⟨r,le_refl _,facts_keep m r s i _ _ _ h rfl rfl rfl rfl h.completed Iff.rfl rfl ?_ hn hw⟩
    intro hc
    have halone := (hcleared hc).1
    rw [hf.1] at halone
    cases halone
  | lockHot | unlockHot =>
    refine ⟨r,le_refl _,facts_keep m r s i _ _ _ h rfl rfl rfl rfl h.completed ?_ rfl hcleared hn ?_⟩
    · exact iff_of_false (by simp [Mode.next]) (by rw [hf.2]; decide)
    · exact fun hwr => absurd hwr (by simp [Mode.next])

end Keep

theorem stepped_facts (m : Fin n → Mode) (r : ℕ) (s s' : State n) (a : Action n) (label : Option (Fin n × Instr))
    (hs : Stepped s a label s') (hl : Locks m s) (h : HotFacts m r s) (hfew : s'.bumps < 2^64) :
    ∃ r', r ≤ r' ∧ HotFacts (modes m label) r' s' := by
  have hplace (i : Fin n) (p : Place) (completed : ℕ) (returns : List HotReturn) (hdone : completed ≤ r)
      (hr : (s.threads i).rest = []) (hn : Numbered r s.ladders.length (m i) p) :
      HotFacts m r (State.place { s with completed := completed, hotReturns := returns } i p) := by
    have hmode := mode_of_rest m s i hl hr
    have hkeep := facts_keep m r s i
      (State.place { s with completed := completed, hotReturns := returns } i p) p (m i) h rfl rfl rfl
      rfl hdone Iff.rfl rfl (h.cleared i) hn (fun hw => by rw [hmode] at hw; cases hw)
    rwa [Function.update_eq_self] at hkeep
  cases hs with
  | still a => exact ⟨r,le_refl _,h⟩
  | start i op hidle =>
    have hn : Numbered r s.ladders.length (m i) (.op 0 (program op)) :=
      ⟨Nat.zero_lt_of_lt h.bound,fun _ => Nat.zero_le _⟩
    exact ⟨r,le_refl _,hplace i _ _ _ h.completed (by rw [hidle]; rfl) hn⟩
  | finish i changed hop =>
    have hn := h.numbered i
    rw [hop, mode_of_rest m s i hl (by rw [hop]; rfl)] at hn
    exact ⟨r,le_refl _,hplace i .idle _ _ (max_le h.completed (hn.2 rfl)) (by rw [hop]; rfl) trivial⟩
  | exec i changed instr rest hop hopen => exact exec_facts m r s i changed instr rest hl h hop hfew
  | read a i p returns hi hp =>
    refine ⟨r,le_refl _,hplace i p _ _ h.completed (rest_of_not_busy _ hi) ?_⟩
    cases p with
    | op => cases hp
    | _ => trivial

theorem initial_facts : HotFacts (fun _ : Fin n => {}) 0 ({} : State n) where
  present := rfl
  version := rfl
  parity := iff_of_false (fun h => Nat.zero_ne_one h) (by simp)
  writing := fun i hi => by cases hi
  quiet := fun _ => ⟨{},rfl,rfl⟩
  cleared := fun i hi => by cases hi
  current := Or.inl ⟨{},rfl,rfl⟩
  numbered := fun _ => trivial
  completed := le_refl _
  bound := Nat.zero_lt_one

def hotCell (h : HotData) : Cell HotData := ⟨h.version,h⟩

/-- The copy is only stored into while its version is odd. -/
theorem stepped_cell (m : Fin n → Mode) (r : ℕ) (s s' : State n) (a : Action n) (label : Option (Fin n × Instr))
    (hs : Stepped s a label s') (hl : Locks m s) (h : HotFacts m r s) (hfew : s'.bumps < 2^64) :
    Disciplined (hotCell s.book.hotData) (hotCell s'.book.hotData) := by
  have hsame (h' : HotData) (heq : h' = s.book.hotData) :
      Disciplined (hotCell s.book.hotData) (hotCell h') := ⟨by rw [heq],fun _ => Or.inr (by rw [heq])⟩
  cases hs with
  | exec i changed instr rest hop hopen =>
    have htyped := hl.typed i
    rw [hop] at htyped
    cases instr with
    | bump =>
      have hv := (bump_version m r s h hfew).trans (congrArg Nat.succ h.version.symm)
      exact ⟨(Nat.le_succ _).trans_eq hv.symm,fun heq => absurd (hv.symm.trans heq) (Nat.succ_ne_self _)⟩
    | store x =>
      have hodd : s.book.hotData.version%2 = 1 :=
        h.version.symm ▸ h.parity.mpr ⟨i,htyped.1.2⟩
      have hv : (x.apply s.book.hotData).version = s.book.hotData.version := by cases x <;> rfl
      exact ⟨hv.ge,fun _ => Or.inl hodd⟩
    | change c => exact hsame _ (change_hot s.book c)
    | _ => exact hsame _ rfl
  | _ => exact hsame _ rfl

theorem stepped_ladders (s s' : State n) (a : Action n) (label : Option (Fin n × Instr)) (hs : Stepped s a label s') :
    ∃ more, s'.ladders = s.ladders++more := by
  cases hs with
  | exec i changed instr rest hop hopen =>
    cases instr with
    | change c => exact ⟨_,rfl⟩
    | _ => exact ⟨[],(List.append_nil _).symm⟩
  | _ => exact ⟨[],(List.append_nil _).symm⟩

section Reads
variable [NearestDivision.NearestDiv]

/-- A query on a copy that shows the top of some ladders answers for them. -/
theorem reading_on (q : HotQuery) (d : HotData) (l : Ladders) (h : shown d = top l) :
    q.reading.result d = q.on l := by
  have hbid : l.bids.head? = hotBid d := (congrArg Prod.fst h).symm
  have hask : l.asks.head? = hotAsk d := (congrArg Prod.snd h).symm
  cases q <;> cases hb : d.hasBids <;> cases ha : d.hasAsks <;>
    simp [HotQuery.reading, HotQuery.on, bestReading, quoteReading, Ladders.bestBid,
      Ladders.bestAsk, Ladders.quote, hbid, hask, hotBid, hotAsk, hb, ha]

def ReadSound (s : State n) (r : ℕ) : Place → Prop
  | .look _ _ k => k ≤ r
  | .reading q _ k version rest =>
    Faithful (hotCell s.book.hotData) q.reading version rest ∧ k ≤ r
  | _ => True

/-- The answer is that for one of the pairs of ladders the book had held by the
end of the read, none older than the newest an operation left that was
complete when it began. The pair may be superseded already at the beginning,
by an operation that has not copied its own yet. -/
def Answers (ladders : List Ladders) (a : HotReturn) : Prop :=
  ∃ k l, a.completed ≤ k ∧ k < a.held ∧ ladders[k]? = some l ∧ a.answer = a.query.on l

structure Inv (m : Fin n → Mode) (r : ℕ) (s : State n) : Prop where
  locks : Locks m s
  facts : HotFacts m r s
  few : s.bumps < 2^64
  readers : ∀ i, ReadSound s r (s.threads i)
  returned : ∀ a ∈ s.hotReturns, a.validated = true → Answers s.ladders a

theorem answers_append (ladders more : List Ladders) (a : HotReturn) (h : Answers ladders a) :
    Answers (ladders++more) a := by
  obtain ⟨k,l,hlow,hhigh,hget,ha⟩ := h
  refine ⟨k,l,hlow,hhigh,?_,ha⟩
  rw [List.getElem?_append_left (List.getElem?_eq_some_iff.mp hget).1]
  exact hget

theorem readSound_step (s s' : State n) (r r' : ℕ) (p : Place) (hr : r ≤ r')
    (hd : Disciplined (hotCell s.book.hotData) (hotCell s'.book.hotData)) (h : ReadSound s r p) :
    ReadSound s' r' p := by
  cases p with
  | look q retries k => exact le_trans h hr
  | reading q retries k version rest => exact ⟨write_faithful _ _ _ _ _ hd h.1,h.2.trans hr⟩
  | _ => trivial

theorem stepped_inv (m : Fin n → Mode) (r : ℕ) (s s' : State n) (a : Action n) (label : Option (Fin n × Instr))
    (i : Fin n) (p : Place) (hs : Stepped s a label s') (h : Inv m r s) (hfew : s'.bumps < 2^64)
    (hthreads : s'.threads = Function.update s.threads i p) (hp : ReadSound s r p)
    (hreturns : ∀ a ∈ s'.hotReturns, a.validated = true → Answers s.ladders a) :
    ∃ m' r', Inv m' r' s' := by
  obtain ⟨r',hr,hfacts⟩ := stepped_facts m r s s' a label hs h.locks h.facts hfew
  have hd := stepped_cell m r s s' a label hs h.locks h.facts hfew
  obtain ⟨more,hmore⟩ := stepped_ladders s s' a label hs
  refine ⟨modes m label,r',stepped_locks m s s' a label hs h.locks,hfacts,hfew,?_,?_⟩
  · rw [hthreads]
    refine (Function.forall_update_iff s.threads (fun _ x => ReadSound s' r' x)).mpr
      ⟨readSound_step s s' r r' p hr hd hp,fun j _ => readSound_step s s' r r' _ hr hd (h.readers j)⟩
  · intro a ha hv
    rw [hmore]
    exact answers_append s.ladders more a (hreturns a ha hv)

/-- The second version load finds the version of the first. -/
theorem return_answers (m : Fin n → Mode) (r : ℕ) (s : State n) (q : HotQuery) (k version : ℕ)
    (answer : HotAnswer) (h : Inv m r s)
    (hr : Faithful (hotCell s.book.hotData) q.reading version (.done answer)) (hk : k ≤ r)
    (hv : s.book.hotData.version = version) :
    Answers s.ladders ⟨q,answer,true,k,s.ladders.length⟩ := by
  obtain ⟨ha,heven⟩ := validated (hotCell s.book.hotData) q.reading version answer hr hv
  have hbumps : s.bumps%2 = 0 := h.facts.version ▸ heven
  obtain ⟨l,hget,hshown⟩ := h.facts.quiet hbumps
  exact ⟨r,l,hk,h.facts.bound,hget,ha.trans (reading_on q s.book.hotData l hshown)⟩

theorem threadStep_inv (m : Fin n → Mode) (r : ℕ) (s : State n) (i : Fin n) (h : Inv m r s)
    (hfew : (s.threadStep i (s.threads i)).bumps < 2^64) :
    ∃ m' r', Inv m' r' (s.threadStep i (s.threads i)) := by
  have hi := h.readers i
  have hread (p : Place) (hbusy : (s.threads i).busy = false) (hpb : p.busy = false)
      (hp : ReadSound s r p) : ∃ m' r', Inv m' r' (s.place i p) :=
    stepped_inv m r s _ _ none i p (Stepped.read (.step i) i p s.hotReturns hbusy hpb) h h.few rfl hp h.returned
  have hreturn (a : HotReturn) (hbusy : (s.threads i).busy = false)
      (ha : a.validated = true → Answers s.ladders a) :
      ∃ m' r', Inv m' r' (State.place { s with hotReturns := s.hotReturns++[a] } i .idle) := by
    refine stepped_inv m r s _ _ none i .idle (Stepped.read (.step i) i .idle _ hbusy rfl) h h.few rfl trivial ?_
    intro b hb
    rcases List.mem_append.mp hb with hb | hb
    · exact h.returned b hb
    · obtain rfl := List.mem_singleton.mp hb
      exact ha
  cases hplace : s.threads i with
  | idle => exact ⟨m,r,h⟩
  | op changed rest =>
    rw [hplace] at hfew
    cases rest with
    | nil => exact stepped_inv m r s _ _ none i .idle (Stepped.finish i changed hplace) h h.few rfl trivial h.returned
    | cons instr rest =>
      rw [State.threadStep, State.opStep] at hfew ⊢
      split_ifs at hfew ⊢ with hopen
      · refine stepped_inv m r s _ _ _ i (.op (s.changes changed instr) (s.follow rest instr))
          (Stepped.exec i changed instr rest hplace hopen) h hfew ?_ trivial ?_
        · cases instr <;> rfl
        · cases instr <;> exact h.returned
      · exact ⟨m,r,h⟩
  | look q retries k =>
    rw [hplace] at hi hread
    cases retries with
    | zero => exact hread (.fallback q k q.reading) rfl rfl trivial
    | succ retries =>
      rw [State.threadStep]
      split_ifs with hv
      · exact hread (.look q retries k) rfl rfl hi
      · exact hread (.reading q retries k _ q.reading) rfl rfl
          ⟨begin_faithful (hotCell s.book.hotData) q.reading (Nat.mod_two_ne_one.mp hv),hi⟩
  | reading q retries k version rest =>
    rw [hplace] at hi hread hreturn
    cases rest with
    | load next =>
      exact hread (.reading q retries k version _) rfl rfl ⟨advance_faithful _ _ _ _ hi.1,hi.2⟩
    | done answer =>
      rw [State.threadStep]
      split_ifs with hv
      · exact hreturn _ rfl (fun _ => return_answers m r s q k version answer h hi.1 hi.2 hv)
      · exact hread (.look q retries k) rfl rfl hi.2
  | fallback q k rest =>
    rw [hplace] at hread hreturn
    cases rest with
    | load next => exact hread (.fallback q k _) rfl rfl trivial
    | done answer => exact hreturn _ rfl (fun hv => by cases hv)

def FewBumps (s : State n) (a : Action n) : Prop := (s.step a).bumps < 2^64

instance FewBumps.decidable (s : State n) (a : Action n) : Decidable (FewBumps s a) :=
  inferInstanceAs (Decidable (_ < _))

omit [NearestDivision.NearestDiv] in
theorem stepped_bumps (s s' : State n) (a : Action n) (label : Option (Fin n × Instr))
    (hs : Stepped s a label s') : s'.bumps ≤ s.bumps+1 := by
  cases hs with
  | exec i changed instr rest hop hopen => cases instr <;> simp [State.place, State.exec, State.bump,
      State.change, State.storeHot]
  | _ => exact Nat.le_succ _

theorem few_of_length (actions : List (Action n)) (s : State n) (h : s.bumps+actions.length < 2^64) :
    Schedule.Allowed State.step FewBumps actions s := by
  induction actions generalizing s with
  | nil => trivial
  | cons a actions ih =>
    obtain ⟨label,hs⟩ := step_stepped s a
    have hone := stepped_bumps s _ a label hs
    rw [List.length_cons] at h
    exact ⟨by unfold FewBumps; omega,ih (s.step a) (by omega)⟩

theorem step_inv (s : State n) (a : Action n) (hfew : FewBumps s a) (h : ∃ m r, Inv m r s) :
    ∃ m r, Inv m r (s.step a) := by
  obtain ⟨m,r,h⟩ := h
  cases a with
  | step i => exact threadStep_inv m r s i h hfew
  | start i op =>
    rw [State.step, State.begin]
    split
    · rename_i hidle
      exact stepped_inv m r s _ _ none i _ (Stepped.start i op hidle) h h.few rfl trivial h.returned
    · exact ⟨m,r,h⟩
  | ask i q =>
    rw [State.step, State.begin]
    split
    · rename_i hidle
      exact stepped_inv m r s _ _ none i _ (Stepped.read (.ask i q) i _ s.hotReturns (by rw [hidle]; rfl) rfl) h
        h.few rfl h.facts.completed h.returned
    · exact ⟨m,r,h⟩

omit [NearestDivision.NearestDiv] in
theorem initial_inv [NearestDivision.NearestDiv] : ∃ m r, Inv m r ({} : State n) :=
  ⟨_,0,initial_locks,initial_facts,Nat.two_pow_pos 64,fun _ => trivial,fun _ h => absurd h List.not_mem_nil⟩

theorem run_inv (actions : List (Action n)) (hok : Schedule.Allowed State.step FewBumps actions {}) :
    ∃ m r, Inv m r (Schedule.run State.step actions ({} : State n)) :=
  Schedule.invariant State.step FewBumps (fun s => ∃ m r, Inv m r s) step_inv actions {} hok initial_inv

/-- Any number of threads, every interleaving: a validated query answers for
one pair of ladders the book has held, and misses no operation that was
complete when it began. -/
theorem validated_reads_linearizable (actions : List (Action n))
    (hok : Schedule.Allowed State.step FewBumps actions {}) :
    ∀ a ∈ (Schedule.run State.step actions {}).hotReturns, a.validated = true →
      Answers (Schedule.run State.step actions {}).ladders a := by
  obtain ⟨m,r,h⟩ := run_inv actions hok
  exact h.returned

/-- With no operation under way the locks are free and the copy of the best
levels is current. -/
structure Settled (s : State n) : Prop where
  cold : s.coldOwner = none ∧ s.coldSharers = ∅
  hot : s.hotOwner = none
  even : s.book.hotData.version%2 = 0
  first : HotFirst s.book

omit [NearestDivision.NearestDiv] in
theorem inv_settled [NearestDivision.NearestDiv] (m : Fin n → Mode) (r : ℕ) (s : State n)
    (h : Inv m r s) (hidle : ∀ i, (s.threads i).busy = false) : Settled s := by
  have hmode : ∀ i, m i = {} := fun i => mode_of_rest m s i h.locks (rest_of_not_busy _ (hidle i))
  have heven := none_writing m r s h.facts (fun j => by rw [hmode j]; decide)
  obtain ⟨l,hget,hshown⟩ := h.facts.quiet heven
  constructor
  case cold =>
    constructor
    · cases ho : s.coldOwner with
      | none => rfl
      | some i =>
        have hi := (h.locks.alone i).mp ho
        rw [hmode i] at hi
        cases hi
    · apply Finset.eq_empty_of_forall_notMem
      intro i hi
      have hc := (h.locks.shared i).mp hi
      rw [hmode i] at hc
      cases hc
  case hot =>
    cases ho : s.hotOwner with
    | none => rfl
    | some i =>
      have hi := (h.locks.spin i).mp ho
      rw [hmode i] at hi
      exact absurd rfl hi
  case even => exact h.facts.version ▸ heven
  case first =>
    rw [hotFirst_iff, hshown]
    rcases h.facts.current with ⟨l',hget',htop⟩ | ⟨i,hi⟩
    · obtain rfl : l = l' := by simpa [hget] using hget'
      exact htop
    · rw [hmode i] at hi
      cases hi

/-- No deadlock, and nothing left behind: whatever is under way can be brought
to its end by steps of its own threads, and a state with no operation under
way is settled. -/
theorem operations_settle (actions : List (Action n))
    (hok : Schedule.Allowed State.step FewBumps actions {}) :
    ((∀ i, ((Schedule.run State.step actions {}).threads i).busy = false) →
      Settled (Schedule.run State.step actions {})) ∧
    ∃ is : List (Fin n), ∀ i, ((Schedule.run State.step (is.map .step)
      (Schedule.run State.step actions {})).threads i).busy = false := by
  obtain ⟨m,r,h⟩ := run_inv actions hok
  exact ⟨inv_settled m r _ h,can_finish m _ h.locks⟩

end Reads

def firstBid : Tick := { price := .ofInt 100, quantity := .ofInt 1 }

def readDuringCopy (writer reader : Fin n) : List (Action n) :=
  [.start writer (.update firstBid), .ask reader .bestBid]++List.replicate 8 (.step writer)++
    List.replicate 2 (.step reader)++List.replicate 17 (.step writer)++List.replicate 4 (.step reader)

theorem readDuringCopy_few : Schedule.Allowed State.step FewBumps (readDuringCopy (0 : Fin 2) 1) {} :=
  few_of_length (readDuringCopy (0 : Fin 2) 1) {} (by decide)

theorem readDuringCopy_idle :
    ∀ i, ((Schedule.run State.step (readDuringCopy (0 : Fin 2) 1) {}).threads i).busy = false := by
  decide +kernel

theorem readDuringCopy_answers :
    (Schedule.run State.step (readDuringCopy (0 : Fin 2) 1) {}).hotReturns.length = 1 ∧
    ∀ a ∈ (Schedule.run State.step (readDuringCopy (0 : Fin 2) 1) {}).hotReturns,
      a.validated = true → Answers (Schedule.run State.step (readDuringCopy (0 : Fin 2) 1) {}).ladders a :=
  ⟨by decide +kernel,validated_reads_linearizable (readDuringCopy (0 : Fin 2) 1) readDuringCopy_few⟩

def halfCopied (writer reader : Fin n) : List (Action n) :=
  [.start writer (.update firstBid), .ask reader .bestBid]++List.replicate 8 (.step writer)

theorem halfCopied_few : Schedule.Allowed State.step FewBumps (halfCopied (0 : Fin 2) 1) {} :=
  few_of_length (halfCopied (0 : Fin 2) 1) {} (by decide)

/-- An update stopped in the middle of its copy can be brought to its end;
once it is, the book is settled. -/
theorem readDuringCopy_settles :
    (¬Settled (Schedule.run State.step (halfCopied (0 : Fin 2) 1) {}) ∧
      ∃ is : List (Fin 2), ∀ i, ((Schedule.run State.step (is.map .step)
        (Schedule.run State.step (halfCopied (0 : Fin 2) 1) {})).threads i).busy = false) ∧
    Settled (Schedule.run State.step (readDuringCopy (0 : Fin 2) 1) {}) := by
  have hmid := operations_settle (halfCopied (0 : Fin 2) 1) halfCopied_few
  have hend := operations_settle (readDuringCopy (0 : Fin 2) 1) readDuringCopy_few
  refine ⟨⟨fun h => ?_,hmid.2⟩,hend.1 readDuringCopy_idle⟩
  exact absurd h.even (by decide +kernel)

end Chronos.SharedOrderBook
