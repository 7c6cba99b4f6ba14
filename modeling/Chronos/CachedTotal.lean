import Chronos.PortfolioValue
import Chronos.PositionRoundTrip

/-!
# The cached portfolio value

Every exit of `updatePosition`, `clear` and `fromJson` leaves the cache at the
sum of the values held, cut off at the largest Decimal. Over values that are
not negative the saturating loop has this closed form, so the order in which
the hash map is visited, which may change between any two calls, drops out.
-/

set_option autoImplicit false

namespace Chronos.CachedTotal
open NearestDivision KeyedTable PositionConservation PositionLimit PortfolioValue PositionManager

section Values
variable [NearestDiv]

structure Valued (p : Position Decimal) : Prop where
  quantity : -2^63 < p.quantity.raw
  price : 0 ≤ p.averagePrice.raw
  value : exposure p.quantity.raw p.averagePrice.raw < 2^63

theorem valued_nonneg (p : Position Decimal) (h : Valued p) : 0 ≤ (notional p).raw := by
  rw [notional_raw p h.quantity h.price h.value]
  exact exposure_nonneg _ _ h.price

omit [NearestDiv] in
theorem saturatingAdd_capped (raw add : ℤ) (hmax : raw ≤ int64Max) (hadd : 0 ≤ add) :
    saturatingAdd raw add = min (raw+add) int64Max := by
  unfold saturatingAdd
  split_ifs <;> omega

/-- The closed form of the loop of `recalcTotalValue`. -/
theorem recalcRaw_capped (xs : List (ℕ × Position Decimal)) (raw : ℤ) (h0 : 0 ≤ raw)
    (hmax : raw ≤ int64Max) (h : ∀ x ∈ xs, 0 ≤ (notional x.2).raw) :
    recalcRaw xs raw = min (raw+sumNotional xs) int64Max ∧ 0 ≤ sumNotional xs := by
  induction xs generalizing raw with
  | nil =>
    constructor
    · simpa [recalcRaw, sumNotional] using hmax
    · simp [sumNotional]
  | cons x xs ih =>
    have hx := h x (by simp)
    have hsum : sumNotional (x::xs) = (notional x.2).raw+sumNotional xs := by simp [sumNotional]
    have hstep : (if x.2.quantity = 0 then raw else saturatingAdd raw (notional x.2).raw) =
        min (raw+(notional x.2).raw) int64Max := by
      split_ifs with hz
      · rw [notional_flat _ hz, add_zero, min_eq_left hmax]
      · exact saturatingAdd_capped raw _ hmax hx
    have h0' : 0 ≤ min (raw+(notional x.2).raw) int64Max := by omega
    obtain ⟨hi,hrest⟩ := ih _ h0' (min_le_right _ _) (fun y hy => h y (by simp [hy]))
    rw [recalcRaw, hstep, hi, hsum]
    constructor <;> omega

/-- Without current prices `getTotalValue` adds the same products, and wraps. -/
theorem addValues_empty (xs : List (ℕ × Position Decimal)) (total : Decimal) :
    addValues .empty xs total = Decimal.wrap (total.raw+sumNotional xs) := by
  induction xs generalizing total with
  | nil => simp [addValues, sumNotional]
  | cons x xs ih =>
    have hsum : sumNotional (x::xs) = (notional x.2).raw+sumNotional xs := by simp [sumNotional]
    have hstep : (if x.2.quantity = 0 then total
        else total+magnitude x.2.quantity*markPrice .empty x.1 x.2) =
        Decimal.wrap (total.raw+(notional x.2).raw) := by
      split_ifs with hz
      · rw [notional_flat _ hz, add_zero, Decimal.wrap_self]
      · rfl
    rw [addValues, hstep, ih, Decimal.wrap_add_left, hsum, add_assoc]

theorem sumNotional_perm (xs ys : List (ℕ × Position Decimal)) (h : xs.Perm ys) :
    sumNotional xs = sumNotional ys := (h.map _).sum_eq

end Values

section Moves
variable [NearestDiv]

/-- No Decimal operation of the fill overflows: none of the averaging, where
it is done, and not the product the recalculation forms of the position. -/
structure Fitting (pos : Position Decimal) (f : Fill Decimal) : Prop where
  averaging : 0 < pos.quantity.raw*exactSigned f → FillInRange pos f
  product : exposure (movePosition pos f).quantity.raw (movePosition pos f).averagePrice.raw < 2^63

theorem movePosition_valued (pos : Position Decimal) (f : Fill Decimal) (hf : 0 < f.fillQuantity.raw)
    (hp : 0 < f.fillPrice.raw) (h : Valued pos) (hr : Fitting pos f) : Valued (movePosition pos f) := by
  have habs := exactSigned_abs f hf
  have hlt : |exactSigned f| < 2^63 := by
    rw [habs]
    exact f.fillQuantity.fits.2
  have hmixed : pos.quantity.raw*exactSigned f ≤ 0 → -2^63 < (movePosition pos f).quantity.raw := by
    intro hle
    obtain ⟨hlow,hhigh⟩ := mixed_sum_fits _ _ hlt h.quantity pos.quantity.fits.2 hle
    rw [moved_quantity_fits pos f hf ⟨le_of_lt hlow,hhigh⟩]
    exact hlow
  rcases moved_average pos f hf h.quantity with ⟨hz,hav⟩ | ⟨hsame,hav⟩ | ⟨hopp,-,hav⟩ | ⟨hopp,-,hav⟩
  · exact ⟨hmixed (by rw [hz, zero_mul]),by rw [hav]; exact le_of_lt hp,hr.product⟩
  · have hrange := hr.averaging hsame
    have hquantity := moved_quantity_raw pos f hf hrange
    have hsum := abs_le.mp (abs_add_le pos.quantity.raw (exactSigned f))
    have hlimit := hrange.quantity hsame
    refine ⟨by rw [hquantity]; omega,?_,hr.product⟩
    rw [hav, average_raw pos f hf (le_of_lt hp) h.price hrange hsame]
    exact averagedRaw_nonneg pos f hf (le_of_lt hp) h.price
  · refine ⟨hmixed (le_of_lt hopp),?_,hr.product⟩
    rcases hav with hav | hav
    · rw [hav]
      exact h.price
    · rw [hav]
      exact le_refl _
  · exact ⟨hmixed (le_of_lt hopp),by rw [hav]; exact le_of_lt hp,hr.product⟩

/-- The cache is the sum of the values, as far as a Decimal holds it. -/
structure Cached (pm : PositionManager) : Prop where
  valued : ∀ x ∈ pm.positions.entries, Valued x.2
  cached : pm.totalValueRaw = min (sumNotional pm.positions.entries) int64Max

theorem recalc_cached (pm : PositionManager) (h : ∀ x ∈ pm.positions.entries, Valued x.2) :
    Cached pm.recalcTotalValue := by
  have hcapped := (recalcRaw_capped pm.positions.entries 0 (le_refl _) (by decide)
    (fun x hx => valued_nonneg x.2 (h x hx))).1
  rw [zero_add] at hcapped
  exact ⟨h,hcapped⟩

theorem new_cached : Cached {} where
  valued x hx := by cases hx
  cached := by simp [sumNotional, Table.empty, int64Max]

omit [NearestDiv] in
theorem assign_entries (t : Table ℕ (Position Decimal)) (k : ℕ) (p : Position Decimal)
    (P : Position Decimal → Prop) (hp : P p) (h : ∀ x ∈ t.entries, P x.2) :
    ∀ x ∈ (t.assign k p).entries, P x.2 := by
  intro x hx
  have hfind := (Table.find_mem _ x.1 x.2).mpr hx
  rw [Table.find_assign] at hfind
  split_ifs at hfind with hk
  · rw [← Option.some.inj hfind]
    exact hp
  · exact h x ((Table.find_mem t x.1 x.2).mp hfind)

theorem flat_valued : Valued {} where
  quantity := by decide
  price := le_refl _
  value := lt_of_eq_of_lt (quot_zero Decimal.one (by decide)) (by decide)

theorem updatePosition_cached (pm : PositionManager) (f : Fill Decimal) (hf : 0 < f.fillQuantity)
    (hp : 0 < f.fillPrice) (hr : Fitting (positionAt pm f.symbolId) f) (h : Cached pm) :
    Cached (pm.updatePosition f).1 := by
  have hmoved : ∀ pos, Valued pos → Fitting pos f → Valued (movePosition pos f) := fun pos =>
    movePosition_valued pos f ((Decimal.lt_iff _ _).mp hf) ((Decimal.lt_iff _ _).mp hp)
  have hz := ne_of_gt hf
  simp only [updatePosition, if_neg hz, updatePositions]
  apply recalc_cached
  apply assign_entries _ _ _ _ _ h.valued
  unfold positionAt getPosition at hr
  cases hpos : pm.positions.find f.symbolId with
  | none =>
    rw [hpos] at hr
    have hopen := hmoved {} flat_valued hr
    exact ⟨hopen.quantity,hopen.price,hopen.value⟩
  | some pos =>
    rw [hpos] at hr
    exact hmoved pos (h.valued _ ((Table.find_mem _ _ _).mp hpos)) hr

end Moves

section Loading
variable {F : Type} (trunc : F → ℤ)

/-- What holds of the quantity and the price of every position written holds
of every position read back. -/
theorem loadEntries_keep (P : Decimal → Decimal → Prop) (xs : List (ℕ × Position Decimal))
    (t : Table ℕ (Position Decimal)) (hx : ∀ x ∈ xs, P x.2.quantity x.2.averagePrice)
    (ht : ∀ x ∈ t.entries, P x.2.quantity x.2.averagePrice) :
    ∃ t', loadEntries trunc (xs.map (fun x => entryJson x.2)) t = (t',.ok ()) ∧
      ∀ x ∈ t'.entries, P x.2.quantity x.2.averagePrice := by
  induction xs generalizing t with
  | nil => exact ⟨t,rfl,ht⟩
  | cons x xs ih =>
    rw [List.map_cons, loadEntries, readPosition_entryJson]
    exact ih _ (fun y hy => hx y (by simp [hy]))
      (assign_entries t _ _ (fun p => P p.quantity p.averagePrice) (hx x (by simp)) ht)

variable [NearestDiv]

theorem load_cached (pm target : PositionManager) (h : Cached pm) :
    Cached (target.fromJson trunc pm.toJson).1 := by
  obtain ⟨t,hload,ht⟩ := loadEntries_keep trunc (fun q a => Valued { quantity := q, averagePrice := a })
    (pm.positions.entries.filter (fun x => x.2.quantity ≠ 0)) .empty
    (fun x hx => ⟨(h.valued x (List.mem_filter.mp hx).1).quantity,
      (h.valued x (List.mem_filter.mp hx).1).price,(h.valued x (List.mem_filter.mp hx).1).value⟩)
    (fun x hx => by cases hx)
  simp only [toJson, fromJson, hload]
  exact recalc_cached _ (fun x hx => ⟨(ht x hx).quantity,(ht x hx).price,(ht x hx).value⟩)

/-- The states that fills, clears and loads of saved states lead to. Between
any two of them the hash map may change the order it is visited in. -/
inductive Reachable : PositionManager → Prop
  | new : Reachable {}
  | update (pm : PositionManager) (f : Fill Decimal) (h : Reachable pm) (hf : 0 < f.fillQuantity)
      (hp : 0 < f.fillPrice) (hr : Fitting (positionAt pm f.symbolId) f) :
      Reachable (pm.updatePosition f).1
  | clear (pm : PositionManager) (h : Reachable pm) : Reachable pm.clear
  | load (pm target : PositionManager) (h : Reachable pm) :
      Reachable (target.fromJson trunc pm.toJson).1
  | rehash (pm : PositionManager) (t : Table ℕ (Position Decimal)) (h : Reachable pm)
      (hperm : t.entries.Perm pm.positions.entries) : Reachable { pm with positions := t }

theorem reachable_cached (pm : PositionManager) (h : Reachable trunc pm) : Cached pm := by
  induction h with
  | new => exact new_cached
  | update pm f h hf hp hr ih => exact updatePosition_cached pm f hf hp hr ih
  | clear pm h ih => exact new_cached
  | load pm target h ih => exact load_cached trunc pm target ih
  | rehash pm t h hperm ih =>
    exact ⟨fun x hx => ih.valued x (hperm.mem_iff.mp hx),
      ih.cached.trans (by rw [sumNotional_perm _ _ hperm])⟩

/-- In every reachable state the cache is the sum of |quantity| times average
price over the symbols, and what `getTotalValue` gives without prices, as
long as the sum is a Decimal; beyond that it is the largest Decimal. And any
order of the entries would have given it. -/
theorem cache_is_total (pm : PositionManager) (h : Reachable trunc pm) :
    (sumNotional pm.positions.entries ≤ int64Max →
      pm.getTotalValueCached.raw = sumNotional pm.positions.entries ∧
        pm.getTotalValue .empty = pm.getTotalValueCached) ∧
    (int64Max < sumNotional pm.positions.entries → pm.getTotalValueCached.raw = int64Max) ∧
    ∀ xs, xs.Perm pm.positions.entries → Decimal.wrap (recalcRaw xs 0) = pm.getTotalValueCached := by
  have hc := reachable_cached trunc pm h
  have hnonneg : ∀ x ∈ pm.positions.entries, 0 ≤ (notional x.2).raw :=
    fun x hx => valued_nonneg x.2 (hc.valued x hx)
  have hsum := (recalcRaw_capped pm.positions.entries 0 (le_refl _) (by decide) hnonneg).2
  have hmax : 0 ≤ int64Max ∧ int64Max < 2^63 := by decide
  have hraw : pm.getTotalValueCached.raw = pm.totalValueRaw := by
    apply Decimal.wrap_raw_of_fits
    rw [hc.cached]
    exact ⟨by omega,by omega⟩
  refine ⟨fun hle => ?_,fun hgt => ?_,fun xs hperm => ?_⟩
  · have hcached : pm.totalValueRaw = sumNotional pm.positions.entries :=
      hc.cached.trans (min_eq_left hle)
    refine ⟨hraw.trans hcached,?_⟩
    rw [getTotalValue, addValues_empty, getTotalValueCached, hcached, Decimal.zero_raw, zero_add]
  · rw [hraw, hc.cached, min_eq_right (le_of_lt hgt)]
  · have hxs := (recalcRaw_capped xs 0 (le_refl _) (by decide)
      (fun x hx => hnonneg x (hperm.mem_iff.mp hx))).1
    rw [getTotalValueCached, hc.cached, hxs, zero_add, sumNotional_perm _ _ hperm]

end Loading

/-- Three units bought at ten and five of another symbol sold at twelve. -/
theorem longAndShort_cached : ∃ pm, Reachable (id : ℤ → ℤ) pm ∧ pm.positions.entries.length = 2 ∧
    pm.getTotalValueCached = .ofInt 90 ∧ pm.getTotalValue .empty = pm.getTotalValueCached := by
  let long : Fill Decimal := { symbolId := 1, fillQuantity := .ofInt 3, fillPrice := .ofInt 10 }
  let short : Fill Decimal :=
    { symbolId := 2, fillQuantity := .ofInt 5, fillPrice := .ofInt 12, side := .sell }
  have h1 : Reachable (id : ℤ → ℤ) (updatePosition {} long).1 :=
    .update {} long .new (by decide) (by decide) ⟨fun h => absurd h (by decide),by decide +kernel⟩
  have h2 : Reachable (id : ℤ → ℤ) ((updatePosition {} long).1.updatePosition short).1 :=
    .update _ short h1 (by decide) (by decide) ⟨fun h => absurd h (by decide),by decide +kernel⟩
  exact ⟨_,h2,by decide +kernel,by decide +kernel,((cache_is_total id _ h2).1 (by decide +kernel)).2⟩

end Chronos.CachedTotal
