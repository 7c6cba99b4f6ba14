import Chronos.PositionPersistence

/-!
# What saving and loading keeps

An open position comes back field by field. A flat one is not written, and
with it goes the profit it had realized. From then on both managers move
alike: the loaded one holds the same quantities and average prices, and its
realized profits lack what the flat symbols had at the save.
-/

set_option autoImplicit false

namespace Chronos.PositionManager
open KeyedTable PositionConservation

structure Representable (f : Fill Decimal) : Prop where
  symbolId : f.symbolId < 2^32
  receiveTimestampUs : f.receiveTimestampUs < 2^64

def realizedOf (pm : PositionManager) (symbolId : ℕ) : Decimal :=
  match pm.getPosition symbolId with
  | some p => p.realizedPnl
  | none => 0

def flatPnl (pm : PositionManager) (symbolId : ℕ) : Decimal :=
  match pm.getPosition symbolId with
  | some p => if p.quantity = 0 then p.realizedPnl else 0
  | none => 0

section Keys

structure EntryKeyed (k : ℕ) (p : Position Decimal) : Prop where
  symbolId : p.symbolId = k
  key : k < 2^32
  lastUpdateUs : p.lastUpdateUs < 2^64

def Keyed (t : Table ℕ (Position Decimal)) : Prop := ∀ k p, t.find k = some p → EntryKeyed k p

variable [NearestDivision.NearestDiv]

theorem move_keyed (k : ℕ) (p : Position Decimal) (f : Fill Decimal) (hf : Representable f)
    (h : EntryKeyed k p) : EntryKeyed k (movePosition p f) := by
  unfold movePosition
  split_ifs <;> exact ⟨h.symbolId,h.key,hf.receiveTimestampUs⟩

theorem update_keyed (t : Table ℕ (Position Decimal)) (f : Fill Decimal) (hf : Representable f)
    (h : Keyed t) : Keyed (updatePositions t f).1 := by
  unfold updatePositions
  split_ifs
  · exact h
  intro k p hp
  simp only [Table.find_assign] at hp
  split_ifs at hp with hk
  · subst hk
    obtain rfl := Option.some.inj hp
    cases hfind : t.find f.symbolId with
    | none => exact ⟨rfl,hf.symbolId,hf.receiveTimestampUs⟩
    | some pos => exact move_keyed _ pos f hf (h _ pos hfind)
  · exact h k p hp

theorem fills_keyed (fills : List (Fill Decimal)) (h : ∀ f ∈ fills, Representable f)
    (t : Table ℕ (Position Decimal)) (ht : Keyed t) : Keyed (fillPositions fills t) := by
  induction fills generalizing t with
  | nil => exact ht
  | cons f fs ih =>
    exact ih (fun g hg => h g (by simp [hg])) _ (update_keyed t f (h f (by simp)) ht)

end Keys

section Restored
variable {F : Type} (trunc : F → ℤ)

theorem readPosition_entryJson (p : Position Decimal) :
    readPosition trunc (entryJson p) = .ok (some { p with
      symbolId := ((p.symbolId : ℤ)%2^32).toNat
      lastUpdateUs := ((p.lastUpdateUs : ℤ)%2^64).toNat }) := by
  have hfields : (entryJson p : Json F).field "symbol_id" = some (.integer p.symbolId) ∧
      (entryJson p : Json F).field "quantity_raw" = some (.integer p.quantity.raw) ∧
      (entryJson p : Json F).field "average_price_raw" = some (.integer p.averagePrice.raw) ∧
      (entryJson p : Json F).field "realized_pnl_raw" = some (.integer p.realizedPnl.raw) ∧
      (entryJson p : Json F).field "last_update_us" = some (.integer p.lastUpdateUs) := by
    simp [entryJson, Json.field, Json.fieldIn]
  obtain ⟨hsymbol,hquantity,haverage,hrealized,hupdate⟩ := hfields
  have htimes : lastUpdate trunc (entryJson p) = .ok ((p.lastUpdateUs : ℤ)%2^64).toNat := by
    rw [lastUpdate, hupdate]
    rfl
  have hraw : ∀ d : Decimal, getInt64 trunc (.integer d.raw) = .ok d :=
    fun d => congrArg Except.ok (Decimal.wrap_self d)
  rw [readPosition, hsymbol, hquantity, haverage, hrealized]
  simp only [hraw, htimes]
  rfl

theorem readPosition_entry (k : ℕ) (p : Position Decimal) (h : EntryKeyed k p) :
    readPosition trunc (entryJson p) = .ok (some p) := by
  have hid : ((p.symbolId : ℤ)%2^32).toNat = p.symbolId := by
    have := h.symbolId
    have := h.key
    omega
  have htime : ((p.lastUpdateUs : ℤ)%2^64).toNat = p.lastUpdateUs := by
    have := h.lastUpdateUs
    omega
  rw [readPosition_entryJson, hid, htime]

theorem loadEntries_written (xs : List (ℕ × Position Decimal)) (hd : (xs.map Prod.fst).Nodup)
    (h : ∀ x ∈ xs, EntryKeyed x.1 x.2) (t : Table ℕ (Position Decimal)) :
    ∃ t', loadEntries trunc (xs.map (fun x => entryJson x.2)) t = (t',.ok ()) ∧
      ∀ k, t'.find k = (Table.lookup k xs).or (t.find k) := by
  induction xs generalizing t with
  | nil => exact ⟨t,rfl,fun k => rfl⟩
  | cons x xs ih =>
    obtain ⟨hx,hs⟩ := List.nodup_cons.mp hd
    have hkeyed := h x (by simp)
    obtain ⟨t',hload,hfind⟩ := ih hs (fun y hy => h y (by simp [hy])) (t.assign x.2.symbolId x.2)
    refine ⟨t',?_,fun k => ?_⟩
    · rw [List.map_cons, loadEntries, readPosition_entry trunc x.1 x.2 hkeyed]
      exact hload
    · rw [hfind, Table.find_assign, hkeyed.symbolId, Table.lookup]
      split_ifs with hk
      · subst hk
        have hnone : Table.lookup x.1 xs = none := by
          by_contra hc
          obtain ⟨v,hv⟩ := Option.ne_none_iff_exists'.mp hc
          exact hx (List.mem_map.mpr ⟨_,(Table.lookup_mem _ v xs hs).mp hv,rfl⟩)
        rw [hnone]
        rfl
      · rfl

variable [NearestDivision.NearestDiv]

theorem restored (pm target : PositionManager) (h : Keyed pm.positions) :
    (target.fromJson trunc pm.toJson).2 = .ok true ∧
      ∀ s, (target.fromJson trunc pm.toJson).1.getPosition s =
        (pm.getPosition s).filter (fun p => p.quantity ≠ 0) := by
  have hd : ((pm.positions.entries.filter (fun x => x.2.quantity ≠ 0)).map Prod.fst).Nodup :=
    pm.positions.distinct.sublist (List.filter_sublist.map Prod.fst)
  have hkeyed : ∀ x ∈ pm.positions.entries.filter (fun x => x.2.quantity ≠ 0), EntryKeyed x.1 x.2 :=
    fun x hx => h x.1 x.2 ((pm.positions.find_mem x.1 x.2).mpr (List.mem_filter.mp hx).1)
  obtain ⟨t,hload,hfind⟩ := loadEntries_written trunc _ hd hkeyed .empty
  simp only [toJson, fromJson, hload]
  refine ⟨trivial,fun s => ?_⟩
  change t.find s = (Table.lookup s pm.positions.entries).filter _
  rw [hfind, Table.find_empty, Option.or_none]
  exact Table.lookup_filterValue (fun p => p.quantity ≠ 0) s _ pm.positions.distinct

end Restored

section Resumed
variable [NearestDivision.NearestDiv]

/-- The positions of a symbol in the manager that went on and in the one that
was loaded, for the profit the symbol lost at the save. -/
inductive Resumed (lost : Decimal) (s : ℕ) : Option (Position Decimal) → Option (Position Decimal) → Prop
  | absent (h : lost = 0) : Resumed lost s none none
  | flat (p : Position Decimal) (hq : p.quantity = 0) (hp : p.realizedPnl = lost)
      (hs : p.symbolId = s) : Resumed lost s (some p) none
  | present (q : Position Decimal) :
      Resumed lost s (some { q with realizedPnl := q.realizedPnl+lost }) (some q)

theorem move_shift (q : Position Decimal) (lost : Decimal) (f : Fill Decimal) :
    movePosition { q with realizedPnl := q.realizedPnl+lost } f =
      { movePosition q f with realizedPnl := (movePosition q f).realizedPnl+lost } := by
  have hpnl : ∀ price reduced : Decimal,
      calcRealizedPnLOnReduce { q with realizedPnl := q.realizedPnl+lost } price reduced =
        calcRealizedPnLOnReduce q price reduced := fun _ _ => rfl
  unfold movePosition
  simp only
  split_ifs
  · rfl
  · rfl
  · simp only [reducePosition, hpnl, add_right_comm]
  · simp only [flipPosition, hpnl, add_right_comm]

theorem update_resumed (t u : Table ℕ (Position Decimal)) (f : Fill Decimal) (lost : ℕ → Decimal)
    (h : ∀ s, Resumed (lost s) s (t.find s) (u.find s)) (s : ℕ) :
    Resumed (lost s) s ((updatePositions t f).1.find s) ((updatePositions u f).1.find s) := by
  unfold updatePositions
  split_ifs with hz
  · exact h s
  simp only [Table.find_assign]
  split_ifs with hs
  · subst hs
    have hold := h f.symbolId
    cases ht : t.find f.symbolId with
    | none =>
      rw [ht] at hold
      cases hu : u.find f.symbolId with
      | none =>
        rw [hu] at hold
        cases hold with
        | absent h0 =>
          have hnew : Resumed (lost f.symbolId) f.symbolId _ _ := .present (createPosition f)
          rwa [h0, show ({ createPosition f with
            realizedPnl := (createPosition f).realizedPnl+0 } : Position Decimal) = createPosition f by
              rw [add_zero], ← h0] at hnew
      | some q =>
        rw [hu] at hold
        cases hold
    | some p =>
      rw [ht] at hold
      cases hu : u.find f.symbolId with
      | none =>
        rw [hu] at hold
        cases hold with
        | flat p hq hp hsym =>
          have hmove : movePosition p f =
              { createPosition f with realizedPnl := (createPosition f).realizedPnl+lost f.symbolId } := by
            rw [movePosition, if_pos ((signOf_zero _).mpr hq), reopenPosition, createPosition, hp, hsym,
              zero_add]
          simp only
          rw [hmove]
          exact .present _
      | some q =>
        rw [hu] at hold
        cases hold with
        | present q =>
          simp only
          rw [move_shift]
          exact .present _
  · exact h s

theorem fills_resumed (fills : List (Fill Decimal)) (t u : Table ℕ (Position Decimal))
    (lost : ℕ → Decimal) (h : ∀ s, Resumed (lost s) s (t.find s) (u.find s)) (s : ℕ) :
    Resumed (lost s) s ((fillPositions fills t).find s) ((fillPositions fills u).find s) := by
  induction fills generalizing t u with
  | nil => exact h s
  | cons f fs ih => exact ih _ _ (update_resumed t u f lost h)

/-- One manager goes on like another, less a realized profit of each symbol. -/
structure ResumesAs (pm loaded : PositionManager) (lost : ℕ → Decimal) : Prop where
  quantity : ∀ s, loaded.quantityOf s = pm.quantityOf s
  position : ∀ s q, loaded.getPosition s = some q →
    pm.getPosition s = some { q with realizedPnl := q.realizedPnl+lost s }
  realized : ∀ s, pm.realizedOf s = loaded.realizedOf s+lost s
  total : ∀ symbols : Finset ℕ, ∑ s ∈ symbols, pm.realizedOf s =
    ∑ s ∈ symbols, loaded.realizedOf s+∑ s ∈ symbols, lost s

omit [NearestDivision.NearestDiv] in
theorem resumesAs_of_resumed (pm loaded : PositionManager) (lost : ℕ → Decimal)
    (h : ∀ s, Resumed (lost s) s (pm.getPosition s) (loaded.getPosition s)) :
    ResumesAs pm loaded lost := by
  have hrealized : ∀ s, pm.realizedOf s = loaded.realizedOf s+lost s := by
    intro s
    have hs := h s
    unfold realizedOf
    cases hp : pm.getPosition s <;> cases hl : loaded.getPosition s <;> rw [hp, hl] at hs <;>
      cases hs <;> simp_all
  constructor
  case quantity =>
    intro s
    have hs := h s
    unfold quantityOf
    cases hp : pm.getPosition s <;> cases hl : loaded.getPosition s <;> rw [hp, hl] at hs <;>
      cases hs <;> simp_all
  case position =>
    intro s q hq
    have hs := h s
    rw [hq] at hs
    cases hp : pm.getPosition s <;> rw [hp] at hs <;> cases hs
    rfl
  case realized => exact hrealized
  case total =>
    intro symbols
    rw [← Finset.sum_add_distrib]
    exact Finset.sum_congr rfl (fun s _ => hrealized s)

omit [NearestDivision.NearestDiv] in
theorem resumed_at_load (pm loaded : PositionManager) (hkeyed : Keyed pm.positions)
    (h : ∀ s, loaded.getPosition s = (pm.getPosition s).filter (fun p => p.quantity ≠ 0)) (s : ℕ) :
    Resumed (pm.flatPnl s) s (pm.getPosition s) (loaded.getPosition s) := by
  rw [h s]
  unfold flatPnl
  cases hp : pm.getPosition s with
  | none => exact .absent rfl
  | some p =>
    by_cases hq : p.quantity = 0
    · simp only [hq, if_true, Option.filter_some, ne_eq, not_true_eq_false, decide_false,
        Bool.false_eq_true, if_false]
      exact .flat p hq rfl (hkeyed s p hp).symbolId
    · simp only [hq, if_false, Option.filter_some, ne_eq, not_false_eq_true, decide_true, if_true]
      have hnew : Resumed 0 s _ _ := .present p
      rwa [add_zero] at hnew

end Resumed

section Persistence
variable {F : Type} (trunc : F → ℤ) [NearestDivision.NearestDiv]

/-- Every reachable manager, loaded into any other: the load succeeds, gives
the open positions as they were and no flat one; and whatever is filled from
then on, the two differ by the profit the flat symbols had realized. -/
theorem open_positions_restored (fills : List (Fill Decimal)) (h : ∀ f ∈ fills, Representable f)
    (target : PositionManager) :
    (target.fromJson trunc (run fills {}).toJson).2 = .ok true ∧
      (∀ s, (target.fromJson trunc (run fills {}).toJson).1.getPosition s =
        ((run fills {}).getPosition s).filter (fun p => p.quantity ≠ 0)) ∧
      ∀ further : List (Fill Decimal), ResumesAs (run further (run fills {}))
        (run further (target.fromJson trunc (run fills {}).toJson).1) (run fills {}).flatPnl := by
  have hkeyed : Keyed (run fills {}).positions := by
    rw [run_positions]
    exact fills_keyed fills h .empty (fun k p hp => by cases hp)
  obtain ⟨hok,hget⟩ := restored trunc (run fills {}) target hkeyed
  refine ⟨hok,hget,fun further => resumesAs_of_resumed _ _ _ fun s => ?_⟩
  have hload := resumed_at_load (run fills {}) _ hkeyed hget
  have hrun := fills_resumed further _ _ _ hload s
  rwa [← run_positions, ← run_positions] at hrun

end Persistence

def closedTrade : List (Fill Decimal) :=
  [{ symbolId := 1, fillQuantity := .ofInt 1, fillPrice := .ofInt 100 },
   { symbolId := 1, fillQuantity := .ofInt 1, fillPrice := .ofInt 110, side := .sell }]

/-- Ten were realized; after the load nothing was. -/
theorem closedTrade_profit_lost :
    (run closedTrade {}).realizedOf 1 = .ofInt 10 ∧
      ((({} : PositionManager).fromJson (id : ℤ → ℤ) (run closedTrade {}).toJson).1).realizedOf 1 = 0 ∧
      ((({} : PositionManager).fromJson (id : ℤ → ℤ) (run closedTrade {}).toJson).1).getPosition 1 ≠
        (run closedTrade {}).getPosition 1 := by
  refine ⟨by decide +kernel,by decide +kernel,by decide +kernel⟩

def openTrade : List (Fill Decimal) :=
  closedTrade++[{ symbolId := 2, fillQuantity := .ofInt 3, fillPrice := .ofInt 50 }]

theorem openTrade_restored :
    ((({} : PositionManager).fromJson (id : ℤ → ℤ) (run openTrade {}).toJson).1).quantityOf 2 = .ofInt 3 ∧
    ResumesAs (run closedTrade (run openTrade {}))
      (run closedTrade (({} : PositionManager).fromJson (id : ℤ → ℤ) (run openTrade {}).toJson).1)
      (run openTrade {}).flatPnl := by
  have hrep : ∀ f ∈ openTrade, Representable f := by
    simp only [openTrade, closedTrade, List.cons_append, List.nil_append, List.forall_mem_cons]
    exact ⟨⟨by decide,by decide⟩,⟨by decide,by decide⟩,⟨by decide,by decide⟩,fun f hf => by cases hf⟩
  exact ⟨by decide +kernel,(open_positions_restored id openTrade hrep {}).2.2 closedTrade⟩

end Chronos.PositionManager
