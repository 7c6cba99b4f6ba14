import Chronos.GridStrategy

/-!
# The orders the grid knows

The slots of the grid with the live and the issued identifiers are a slot
register. A tick offers new names to free slots, a fill moves a name to the
neighbouring slot, the timer clears stale slots, and what becomes of the
known names is read off the register.
-/

set_option autoImplicit false

namespace Chronos.GridStrategy
variable {F : Type} [Doubles F]

def register (s : GridStrategy F) : SlotRegister Slot ℕ := ⟨idAt s.levels,s.live,s.issued⟩

/-- The non-zero identifiers in the levels are exactly the live orders. -/
def Knows (s : GridStrategy F) : Prop :=
  ∀ id, (id ≠ 0 ∧ ∃ slot, idAt s.levels slot = id) ↔ id ∈ s.live

theorem length_of_prices {levels levels' : List GridLevel} (h : prices levels = prices levels') :
    levels.length = levels'.length := by
  have hlength := congrArg List.length h
  rwa [prices, prices, List.length_map, List.length_map] at hlength

theorem idAt_inside (levels : List GridLevel) (slot : Slot) (h : idAt levels slot ≠ 0) :
    slot.1 < levels.length := by
  by_contra hout
  rw [idAt, List.getElem?_eq_none (not_lt.mp hout)] at h
  exact h rfl

section Placing
variable (s : GridStrategy F) (slot : Slot) (price : Decimal) (oid : ℕ)

theorem placeAt_register (h : slot.1 < s.levels.length) :
    (s.placeAt slot.2 slot.1 price oid).register = s.register.put slot oid := by
  by_cases hoid : oid = 0
  · rw [placeAt, SlotRegister.put, if_pos hoid, if_pos hoid]
    rfl
  · rw [placeAt, SlotRegister.put, if_neg hoid, if_neg hoid, register]
    show SlotRegister.mk (idAt (setIdAt s.levels slot oid)) _ _ = _
    rw [setIdAt_idAt s.levels slot oid h]
    rfl

theorem placeAt_prices : prices (s.placeAt slot.2 slot.1 price oid).levels = prices s.levels := by
  by_cases hoid : oid = 0
  · rw [placeAt, if_pos hoid]
  · rw [placeAt, if_neg hoid]
    exact setIdAt_prices s.levels slot oid

theorem placed_spec (h : slot.1 < s.levels.length) :
    ((s.placeAt slot.2 slot.1 price oid).countTick oid).register = s.register.put slot oid ∧
      prices ((s.placeAt slot.2 slot.1 price oid).countTick oid).levels = prices s.levels := by
  rw [← placeAt_register s slot price oid h, ← placeAt_prices s slot price oid, countTick]
  split_ifs <;> exact ⟨rfl,rfl⟩

omit [Doubles F] in
theorem cancelAt_spec (cancelled : ℕ → Bool) (h : slot.1 < s.levels.length) :
    (s.cancelAt cancelled slot).register = s.register.clear slot (cancelled (idAt s.levels slot)) ∧
      prices (s.cancelAt cancelled slot).levels = prices s.levels := by
  constructor
  · show SlotRegister.mk (idAt (setIdAt s.levels slot 0)) _ _ = _
    rw [setIdAt_idAt s.levels slot 0 h]
    rfl
  · exact setIdAt_prices s.levels slot 0

end Placing

section Levels

def positions (n : ℕ) : List Slot := (List.range n).flatMap (fun i => [(i,.buy),(i,.sell)])

theorem positions_nodup (n : ℕ) : (positions n).Nodup := by
  rw [positions, List.nodup_flatMap]
  constructor
  · intro i _
    simp
  · refine List.nodup_range.pairwise_of_forall_ne ?_
    intro i _ j _ hij
    simp [List.disjoint_left, hij]

theorem positions_mem (n : ℕ) (slot : Slot) : slot ∈ positions n ↔ slot.1 < n := by
  obtain ⟨i,side⟩ := slot
  cases side <;> simp [positions]

/-- A loop over the levels whose body treats the two slots of a level as `g`
does is the fold of `g`. -/
theorem levels_fold {S : Type} (abstract : S → SlotRegister Slot ℕ) (inv : S → Prop) (f : S → ℕ → S)
    (g : SlotRegister Slot ℕ → Slot → SlotRegister Slot ℕ) (n : ℕ)
    (hstep : ∀ s, ∀ i < n, inv s →
      inv (f s i) ∧ abstract (f s i) = g (g (abstract s) (i,.buy)) (i,.sell)) (s : S) (hs : inv s) :
    abstract ((List.range n).foldl f s) = (positions n).foldl g (abstract s) := by
  have hfold : ∀ (is : List ℕ) (s : S), (∀ i ∈ is, i < n) → inv s →
      abstract (is.foldl f s) = (is.flatMap (fun i => [(i,.buy),(i,.sell)])).foldl g (abstract s) := by
    intro is
    induction is with
    | nil => exact fun _ _ _ => rfl
    | cons i is ih =>
      intro s his hs
      obtain ⟨hi,his⟩ := List.forall_mem_cons.mp his
      obtain ⟨hinv,habstract⟩ := hstep s i hi hs
      rw [List.foldl_cons, ih (f s i) his hinv, habstract]
      rfl
  exact hfold _ s (fun i hi => List.mem_range.mp hi) hs

end Levels

section Tick
variable (midVal : F) (answer : Slot → ℕ) (cancelled : ℕ → Bool)

def wanted (ps : List Decimal) (slot : Slot) : Bool :=
  let levelPrice : F := toDouble ((ps[slot.1]?).getD 0)
  match slot.2 with
  | .buy => levelPrice < midVal
  | .sell => levelPrice > midVal

def stale (ps : List Decimal) (slot : Slot) : Bool :=
  let price : F := toDouble ((ps[slot.1]?).getD 0)
  match slot.2 with
  | .buy => price > midVal
  | .sell => price < midVal

theorem tickBuy_spec (loop : TickLoop F) (i : ℕ) (hi : i < loop.strategy.levels.length) :
    (tickBuy midVal answer loop i).strategy.register =
        loop.strategy.register.putFree (wanted midVal (prices loop.strategy.levels)) answer (i,.buy) ∧
      prices (tickBuy midVal answer loop i).strategy.levels = prices loop.strategy.levels := by
  rw [SlotRegister.putFree]
  by_cases h : toDouble (priceAt loop.strategy.levels i) < midVal ∧ idAt loop.strategy.levels (i,.buy) = 0
  · rw [if_pos ⟨decide_eq_true h.1,h.2⟩]
    simp only [tickBuy, if_pos h]
    exact placed_spec loop.strategy (i,.buy) _ _ hi
  · rw [if_neg (fun hw => h ⟨of_decide_eq_true hw.1,hw.2⟩)]
    simp only [tickBuy, if_neg h, and_self]

theorem tickSell_spec (loop : TickLoop F) (i : ℕ) (hi : i < loop.strategy.levels.length) :
    (tickSell midVal answer loop i).strategy.register =
        loop.strategy.register.putFree (wanted midVal (prices loop.strategy.levels)) answer (i,.sell) ∧
      prices (tickSell midVal answer loop i).strategy.levels = prices loop.strategy.levels := by
  rw [SlotRegister.putFree]
  by_cases h : toDouble (priceAt loop.strategy.levels i) > midVal ∧ idAt loop.strategy.levels (i,.sell) = 0
  · rw [if_pos ⟨decide_eq_true h.1,h.2⟩]
    simp only [tickSell, if_pos h]
    exact placed_spec loop.strategy (i,.sell) _ _ hi
  · rw [if_neg (fun hw => h ⟨of_decide_eq_true hw.1,hw.2⟩)]
    simp only [tickSell, if_neg h, and_self]

theorem timerBuy_spec (s : GridStrategy F) (i : ℕ) (hi : i < s.levels.length) :
    (timerBuy midVal cancelled s i).register =
        s.register.clearIf (stale midVal (prices s.levels)) cancelled (i,.buy) ∧
      prices (timerBuy midVal cancelled s i).levels = prices s.levels := by
  rw [SlotRegister.clearIf]
  by_cases h : toDouble (priceAt s.levels i) > midVal ∧ idAt s.levels (i,.buy) ≠ 0
  · rw [if_pos ⟨decide_eq_true h.1,h.2⟩]
    simp only [timerBuy, if_pos h]
    exact cancelAt_spec s (i,.buy) cancelled hi
  · rw [if_neg (fun hw => h ⟨of_decide_eq_true hw.1,hw.2⟩)]
    simp only [timerBuy, if_neg h, and_self]

theorem timerSell_spec (s : GridStrategy F) (i : ℕ) (hi : i < s.levels.length) :
    (timerSell midVal cancelled s i).register =
        s.register.clearIf (stale midVal (prices s.levels)) cancelled (i,.sell) ∧
      prices (timerSell midVal cancelled s i).levels = prices s.levels := by
  rw [SlotRegister.clearIf]
  by_cases h : toDouble (priceAt s.levels i) < midVal ∧ idAt s.levels (i,.sell) ≠ 0
  · rw [if_pos ⟨decide_eq_true h.1,h.2⟩]
    simp only [timerSell, if_pos h]
    exact cancelAt_spec s (i,.sell) cancelled hi
  · rw [if_neg (fun hw => h ⟨of_decide_eq_true hw.1,hw.2⟩)]
    simp only [timerSell, if_neg h, and_self]

theorem onTick_idle (s : GridStrategy F) (mid : Option Decimal) (h : s.initialized = true → mid = none) :
    s.onTick mid answer = s := by
  cases hinit : s.initialized with
  | false => simp only [onTick, hinit, Bool.not_false, if_true]
  | true =>
    rw [h hinit, onTick]
    split_ifs <;> rfl

theorem onTimer_idle (s : GridStrategy F) (mid : Option Decimal) (h : s.initialized = true → mid = none) :
    s.onTimer mid cancelled = s := by
  cases hinit : s.initialized with
  | false => simp only [onTimer, hinit, Bool.not_false, if_true]
  | true =>
    rw [h hinit, onTimer]
    split_ifs <;> rfl

theorem onTick_register (s : GridStrategy F) (mid : Decimal) (hinit : s.initialized = true) :
    (s.onTick (some mid) answer).register = (positions s.levels.length).foldl
      (SlotRegister.putFree (wanted (toDouble mid : F) (prices s.levels)) answer) s.register := by
  rw [onTick, hinit]
  refine levels_fold (fun loop : TickLoop F => loop.strategy.register)
    (fun loop => prices loop.strategy.levels = prices s.levels) _ _ _ ?_ { strategy := s } rfl
  intro loop i hi hp
  obtain ⟨hbuy,hp1⟩ := tickBuy_spec (toDouble mid) answer loop i (length_of_prices hp ▸ hi)
  obtain ⟨hsell,hp2⟩ := tickSell_spec (toDouble mid) answer (tickBuy (toDouble mid) answer loop i) i
    (length_of_prices (hp1.trans hp) ▸ hi)
  rw [hp] at hp1 hbuy
  rw [hp1] at hp2 hsell
  exact ⟨hp2,hsell.trans (by rw [hbuy])⟩

theorem onTimer_register (s : GridStrategy F) (mid : Decimal) (hinit : s.initialized = true) :
    (s.onTimer (some mid) cancelled).register = (positions s.levels.length).foldl
      (SlotRegister.clearIf (stale (toDouble mid : F) (prices s.levels)) cancelled) s.register := by
  rw [onTimer, hinit]
  refine levels_fold register (fun t => prices t.levels = prices s.levels) _ _ _ ?_ s rfl
  intro t i hi hp
  obtain ⟨hbuy,hp1⟩ := timerBuy_spec (toDouble mid) cancelled t i (length_of_prices hp ▸ hi)
  obtain ⟨hsell,hp2⟩ := timerSell_spec (toDouble mid) cancelled (timerBuy (toDouble mid) cancelled t i) i
    (length_of_prices (hp1.trans hp) ▸ hi)
  rw [hp] at hp1 hbuy
  rw [hp1] at hp2 hsell
  exact ⟨hp2,hsell.trans (by rw [hbuy])⟩

end Tick

section Fill
variable (s : GridStrategy F) (orderId : ℕ) (midVal : F) (oid : ℕ)

def neighbour (n : ℕ) (slot : Slot) : Option Slot :=
  match slot.2 with
  | .buy => if slot.1+1 < n then some (slot.1+1,.sell) else none
  | .sell => if slot.1 > 0 then some (slot.1-1,.buy) else none

theorem neighbour_other (n : ℕ) (slot next : Slot) (h : next ∈ neighbour n slot) : next ≠ slot := by
  rintro rfl
  obtain ⟨i,side⟩ := next
  cases side <;> simp [neighbour] at h

def filled (slot : Slot) : GridStrategy F :=
  match slot.2 with
  | .buy => s.buyFilled midVal oid slot.1
  | .sell => s.sellFilled midVal oid slot.1

theorem filled_register (slot : Slot) (h : slot.1 < s.levels.length) :
    (s.filled midVal oid slot).register = s.register.move slot false (neighbour s.levels.length slot) oid := by
  have hcleared : SlotRegister.mk (idAt (setIdAt s.levels slot 0)) s.live s.issued =
      s.register.clear slot false := by
    rw [setIdAt_idAt s.levels slot 0 h]
    rfl
  have hlength := setIdAt_length s.levels slot 0
  obtain ⟨i,side⟩ := slot
  cases side with
  | buy =>
    show (s.buyFilled midVal oid i).register = _
    simp only [buyFilled, neighbour, hlength]
    by_cases hnext : i+1 < s.levels.length
    · rw [if_pos hnext, if_pos hnext, SlotRegister.move, ← hcleared]
      exact placeAt_register _ (i+1,.sell) _ oid (hlength ▸ hnext)
    · rw [if_neg hnext, if_neg hnext]
      exact hcleared
  | sell =>
    show (s.sellFilled midVal oid i).register = _
    simp only [sellFilled, neighbour]
    by_cases hnext : i > 0
    · rw [if_pos hnext, if_pos hnext, SlotRegister.move, ← hcleared]
      exact placeAt_register _ (i-1,.buy) _ oid (hlength ▸ (Nat.sub_le i 1).trans_lt h)
    · rw [if_neg hnext, if_neg hnext]
      exact hcleared

theorem fillLevels_unmatched (is : List ℕ) (h : orderId ≠ 0 → ∀ slot, idAt s.levels slot ≠ orderId) :
    s.fillLevels orderId midVal oid is = s := by
  induction is with
  | nil => rfl
  | cons i is ih =>
    rw [fillLevels, if_neg (fun hbuy => h hbuy.1 (i,.buy) hbuy.2.symm),
      if_neg (fun hsell => h hsell.1 (i,.sell) hsell.2.symm), ih]

/-- The loop finds the slot of the order, which no other slot holds. -/
theorem fillLevels_matched (is : List ℕ) (slot : Slot) (hmem : slot.1 ∈ is) (hid : orderId ≠ 0)
    (hslot : idAt s.levels slot = orderId) (honly : ∀ other, idAt s.levels other = orderId → other = slot) :
    s.fillLevels orderId midVal oid is = s.filled midVal oid slot := by
  induction is with
  | nil => cases hmem
  | cons i is ih =>
    rw [fillLevels]
    by_cases hbuy : orderId = idAt s.levels (i,.buy)
    · rw [if_pos ⟨hid,hbuy⟩, ← honly (i,.buy) hbuy.symm]
      rfl
    rw [if_neg (fun h => hbuy h.2)]
    by_cases hsell : orderId = idAt s.levels (i,.sell)
    · rw [if_pos ⟨hid,hsell⟩, ← honly (i,.sell) hsell.symm]
      rfl
    rw [if_neg (fun h => hsell h.2)]
    refine ih ((List.mem_cons.mp hmem).resolve_left ?_)
    rintro rfl
    obtain ⟨i,side⟩ := slot
    cases side with
    | buy => exact hbuy hslot.symm
    | sell => exact hsell hslot.symm

variable (complete : Bool) (mid : Option Decimal)

theorem fill_unmatched (h : orderId ≠ 0 → ∀ slot, idAt s.levels slot ≠ orderId) :
    (s.step (.fill orderId complete mid oid)).register =
      { s.register with live := if complete then s.live.erase orderId else s.live } := by
  exact congrArg register (fillLevels_unmatched (s.settle orderId complete) orderId _ oid _ h)

theorem fill_matched (slot : Slot) (hid : orderId ≠ 0) (hslot : idAt s.levels slot = orderId)
    (hs : s.register.Sound) : (s.step (.fill orderId complete mid oid)).register =
      s.register.move slot complete (neighbour s.levels.length slot) oid := by
  have hheld : idAt s.levels slot ≠ 0 := fun hzero => hid (hslot.symm.trans hzero)
  have hinside := idAt_inside s.levels slot hheld
  have honly : ∀ other, idAt s.levels other = orderId → other = slot := fun other hother =>
    (hs.distinct slot other hheld (hslot.trans hother.symm)).symm
  show ((s.settle orderId complete).fillLevels orderId _ oid _).register = _
  rw [fillLevels_matched (s.settle orderId complete) orderId _ oid
    (List.range (s.settle orderId complete).levels.length) slot (List.mem_range.mpr hinside) hid hslot honly,
    filled_register (s.settle orderId complete) _ oid slot hinside]
  subst hslot
  cases complete <;> rfl

end Fill

section Callbacks

def Fresh (s : GridStrategy F) : Action → Prop
  | .tick _ answer => (∀ slot, answer slot ≠ 0 → answer slot ∉ s.issued) ∧
      ∀ slot other, answer slot ≠ 0 → answer slot = answer other → slot = other
  | .fill _ _ _ oid => oid ≠ 0 → oid ∉ s.issued
  | _ => True

/-- An order of the grid fills completely, and moves to a slot that is free; no
cancellation by the timer is refused. -/
def Kept (s : GridStrategy F) : Action → Prop
  | .fill orderId complete _ oid => ∀ slot, orderId ≠ 0 → idAt s.levels slot = orderId →
      complete ∧ ∀ next ∈ neighbour s.levels.length slot, idAt s.levels next = 0 ∨ oid = 0
  | .timer (some mid) cancelled => s.initialized → ∀ slot,
      stale (toDouble mid : F) (prices s.levels) slot → idAt s.levels slot ≠ 0 →
        cancelled (idAt s.levels slot)
  | _ => True

variable (s : GridStrategy F)

theorem onTick_kept (mid : Option Decimal) (answer : Slot → ℕ) (hfresh : s.Fresh (.tick mid answer))
    (hs : s.register.Sound) : (s.onTick mid answer).register.Sound ∧
      (s.register.Knows → (s.onTick mid answer).register.Knows) := by
  by_cases hidle : s.initialized = true → mid = none
  · rw [onTick_idle answer s mid hidle]
    exact ⟨hs,id⟩
  · obtain ⟨hinit,hmid⟩ := Classical.not_imp.mp hidle
    obtain ⟨mid,rfl⟩ := Option.ne_none_iff_exists'.mp hmid
    rw [onTick_register answer s mid hinit]
    exact SlotRegister.putFrees_kept _ answer _ (positions_nodup _) s.register
      (fun slot _ => hfresh.1 slot) hfresh.2 hs

theorem step_sound (a : Action) (hfresh : s.Fresh a) (hs : s.register.Sound) :
    (s.step a).register.Sound := by
  cases a with
  | load => exact hs
  | unload => exact hs
  | tick mid answer => exact (s.onTick_kept mid answer hfresh hs).1
  | fill orderId complete mid oid =>
    by_cases h : orderId ≠ 0 → ∀ slot, idAt s.levels slot ≠ orderId
    · rw [fill_unmatched s orderId oid complete mid h]
      refine ⟨hs.distinct,hs.held,?_⟩
      show (if complete then s.live.erase orderId else s.live) ⊆ s.issued
      split_ifs
      · exact (Finset.erase_subset ..).trans hs.live
      · exact hs.live
    · obtain ⟨hid,h⟩ := Classical.not_imp.mp h
      obtain ⟨slot,hslot⟩ := not_forall_not.mp h
      rw [fill_matched s orderId oid complete mid slot hid hslot hs]
      exact SlotRegister.move_sound slot complete _ oid hfresh hs
  | timer mid cancelled =>
    show (s.onTimer mid cancelled).register.Sound
    by_cases hidle : s.initialized = true → mid = none
    · rwa [onTimer_idle cancelled s mid hidle]
    · obtain ⟨hinit,hmid⟩ := Classical.not_imp.mp hidle
      obtain ⟨mid,rfl⟩ := Option.ne_none_iff_exists'.mp hmid
      rw [onTimer_register cancelled s mid hinit]
      exact SlotRegister.clearIfs_sound _ cancelled _ s.register hs

theorem fill_knows_iff (orderId : ℕ) (complete : Bool) (mid : Option Decimal) (oid : ℕ)
    (hfresh : s.Fresh (.fill orderId complete mid oid)) (hs : s.register.Sound) (hk : s.Knows) :
    (s.step (.fill orderId complete mid oid)).register.Knows ↔ s.Kept (.fill orderId complete mid oid) := by
  have hregister : s.register.Knows := hk
  by_cases h : orderId ≠ 0 → ∀ slot, idAt s.levels slot ≠ orderId
  · have hdead : orderId ∉ s.live := by
      intro hlive
      obtain ⟨hid,slot,hslot⟩ := (hk orderId).mpr hlive
      exact h hid slot hslot
    rw [fill_unmatched s orderId oid complete mid h, Finset.erase_eq_of_notMem hdead, ite_self]
    exact iff_of_true hregister (fun slot hid hslot => absurd hslot (h hid slot))
  · obtain ⟨hid,h⟩ := Classical.not_imp.mp h
    obtain ⟨slot,hslot⟩ := not_forall_not.mp h
    have hheld : s.register.slots slot ≠ 0 := fun hzero => hid (hslot.symm.trans hzero)
    rw [fill_matched s orderId oid complete mid slot hid hslot hs,
      SlotRegister.move_knows_iff slot complete _ oid hheld (neighbour_other _ slot) hfresh hs hregister]
    constructor
    · intro hmoved other _ hother
      rw [hs.distinct other slot (fun hzero => hid (hother.symm.trans hzero)) (hother.trans hslot.symm)]
      exact hmoved
    · exact fun hkept => hkept slot hid hslot

theorem timer_knows_iff (mid : Option Decimal) (cancelled : ℕ → Bool) (hs : s.register.Sound)
    (hk : s.register.Knows) :
    (s.onTimer mid cancelled).register.Knows ↔ s.Kept (.timer mid cancelled) := by
  by_cases hidle : s.initialized = true → mid = none
  · rw [onTimer_idle cancelled s mid hidle]
    refine iff_of_true hk ?_
    cases mid with
    | none => trivial
    | some mid => exact fun hinit => absurd (hidle hinit) (Option.some_ne_none mid)
  · obtain ⟨hinit,hmid⟩ := Classical.not_imp.mp hidle
    obtain ⟨mid,rfl⟩ := Option.ne_none_iff_exists'.mp hmid
    rw [onTimer_register cancelled s mid hinit, SlotRegister.clearIfs_knows_iff _ _ _ _ hs hk]
    constructor
    · intro hall _ slot hstale hheld
      exact hall slot ((positions_mem _ slot).mpr (idAt_inside s.levels slot hheld)) hstale hheld
    · exact fun hkept slot _ hstale hheld => hkept hinit slot hstale hheld

theorem step_knows_iff (a : Action) (hfresh : s.Fresh a) (hs : s.register.Sound) (hk : s.Knows) :
    (s.step a).Knows ↔ s.Kept a := by
  cases a with
  | load => exact iff_of_true hk trivial
  | unload => exact iff_of_true hk trivial
  | tick mid answer => exact iff_of_true ((s.onTick_kept mid answer hfresh hs).2 hk) trivial
  | fill orderId complete mid oid => exact s.fill_knows_iff orderId complete mid oid hfresh hs hk
  | timer mid cancelled => exact s.timer_knows_iff mid cancelled hs hk

end Callbacks

section Runs
variable (cfg : Config F)

theorem new_idAt (slot : Slot) : idAt (new cfg).levels slot = 0 := by
  rw [idAt, new, List.getElem?_map]
  cases (List.range (cfg.gridLevels+1).toNat)[slot.1]? with
  | none => rfl
  | some i => cases slot.2 <;> rfl

theorem new_sound : (new cfg).register.Sound where
  distinct slot _ h _ := absurd (new_idAt cfg slot) h
  held slot h := absurd (new_idAt cfg slot) h
  live := Finset.Subset.refl _

theorem new_knows : (new cfg).Knows := by
  intro id
  constructor
  · rintro ⟨hid,slot,hslot⟩
    exact absurd (hslot.symm.trans (new_idAt cfg slot)) hid
  · exact fun h => absurd h (Finset.notMem_empty id)

/-- The grid knows its orders in every state of a run exactly if every order of
the grid that fills does so completely and moves to a free slot, and no
cancellation of a stale order is refused. -/
theorem orders_known_iff (actions : List Action) (hfresh : Schedule.Allowed step Fresh actions (new cfg)) :
    (∀ n, Knows (Schedule.run step (actions.take n) (new cfg))) ↔
      Schedule.Allowed step Kept actions (new cfg) :=
  Schedule.invariant_iff_within step Fresh Kept (fun s => s.register.Sound) Knows step_sound
    step_knows_iff actions (new cfg) hfresh (new_sound cfg) (new_knows cfg)

end Runs

section Instances

instance Doubles.rational : Doubles ℚ where
  ltDecidable := inferInstance
  round v := if v < 0 then -(⌊1/2-v⌋ : ℚ) else (⌊v+1/2⌋ : ℚ)
  toDouble value := (value.raw : ℚ)/2^32
  toDecimal value := Decimal.wrap ((value*2^32).num.tdiv (value*2^32).den)

def smallGrid : Config ℚ where
  gridLow := 90
  gridHigh := 110
  gridLevels := 2
  quantity := 1
  symbolId := 1

def dollars (n : ℤ) : Decimal := Decimal.wrap (n*2^32)

def firstOrders (slot : Slot) : ℕ := if slot = (0,.buy) then 1 else if slot = (2,.sell) then 2 else 0

def opening : List Action := [.load,.tick (some (dollars 100)) firstOrders]

theorem opening_fresh : Schedule.Allowed step Fresh opening (new smallGrid) := by
  refine ⟨trivial,⟨fun _ _ => Finset.notMem_empty _,?_⟩,trivial⟩
  intro slot other hslot heq
  simp only [firstOrders] at hslot heq
  split_ifs at hslot heq <;> simp_all

theorem opening_levels : (Schedule.run step opening (new smallGrid)).levels =
    [⟨dollars 90,1,0⟩,⟨dollars 100,0,0⟩,⟨dollars 110,0,2⟩] := by decide +kernel

def buyFill (complete : Bool) : List Action := opening++[.fill 1 complete (some (dollars 100)) 3]

theorem buyFill_fresh (complete : Bool) : Schedule.Allowed step Fresh (buyFill complete) (new smallGrid) := by
  rw [buyFill, Schedule.allowed_append]
  refine ⟨opening_fresh,?_,trivial⟩
  show 3 ≠ 0 → 3 ∉ (Schedule.run step opening (new smallGrid)).issued
  decide +kernel

def firstTrade : List Action := buyFill true++[.timer (some (dollars 105)) (fun _ => true)]

theorem firstTrade_known : Knows (Schedule.run step firstTrade (new smallGrid)) := by
  have hfresh : Schedule.Allowed step Fresh firstTrade (new smallGrid) := by
    rw [firstTrade, Schedule.allowed_append]
    exact ⟨buyFill_fresh true,trivial,trivial⟩
  have hkept : Schedule.Allowed step Kept firstTrade (new smallGrid) := by
    rw [firstTrade, buyFill, Schedule.allowed_append, Schedule.allowed_append]
    refine ⟨⟨⟨trivial,trivial,trivial⟩,?_,trivial⟩,fun _ _ _ _ => rfl,trivial⟩
    rintro ⟨i,side⟩ _ hslot
    rw [opening_levels] at hslot ⊢
    rcases i with _ | _ | _ | i <;> cases side <;> simp [idAt, neighbour, GridLevel.orderId] at hslot ⊢
  exact (orders_known_iff smallGrid firstTrade hfresh).mpr hkept 4

/-- A partial fill, of which the rest stays in the book. -/
theorem partialFill_forgets : Schedule.Allowed step Fresh (buyFill false) (new smallGrid) ∧
    ¬Knows (Schedule.run step (buyFill false) (new smallGrid)) := by
  have hlevels : (Schedule.run step (buyFill false) (new smallGrid)).levels =
      [⟨dollars 90,0,0⟩,⟨dollars 100,0,3⟩,⟨dollars 110,0,2⟩] := by decide +kernel
  have hlive : 1 ∈ (Schedule.run step (buyFill false) (new smallGrid)).live := by decide +kernel
  constructor
  · exact buyFill_fresh false
  · intro h
    obtain ⟨_,⟨i,side⟩,hslot⟩ := (h 1).mpr hlive
    rw [hlevels] at hslot
    rcases i with _ | _ | _ | i <;> cases side <;> simp [idAt, GridLevel.orderId] at hslot

end Instances
end Chronos.GridStrategy
