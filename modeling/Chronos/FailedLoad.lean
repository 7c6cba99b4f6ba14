import Chronos.PositionPersistence

/-!
# Loads that fail

The map is cleared before the first entry is read, and an entry with a field
of the wrong type throws and leaves what was read before it. The cached total
is recomputed at the end only. So a failed load changes nothing exactly when
the manager already held what the entries before the failing one say.
-/

set_option autoImplicit false

namespace Chronos.PositionManager
open KeyedTable

structure Unchanged (pm pm' : PositionManager) : Prop where
  positions : ∀ s, pm'.getPosition s = pm.getPosition s
  total : pm'.totalValueRaw = pm.totalValueRaw

section Loading
variable {F : Type} (trunc : F → ℤ)

def IsNumber : Json F → Prop
  | .integer _ | .float _ => True
  | _ => False

def IsBool : Json F → Prop
  | .bool _ => True
  | _ => False

def number : Json F → ℤ
  | .integer z => z
  | .float x => trunc x
  | .bool b => b.toNat
  | _ => 0

/-- The four fields without which an entry is skipped. -/
structure Complete (entry : Json F) (symbolId quantity averagePrice realizedPnl : Json F) : Prop where
  symbolId : entry.field "symbol_id" = some symbolId
  quantity : entry.field "quantity_raw" = some quantity
  averagePrice : entry.field "average_price_raw" = some averagePrice
  realizedPnl : entry.field "realized_pnl_raw" = some realizedPnl

structure WellTyped (entry : Json F) : Prop where
  symbolId : ∀ v, entry.field "symbol_id" = some v → IsNumber v ∨ IsBool v
  quantity : ∀ v, entry.field "quantity_raw" = some v → IsNumber v
  averagePrice : ∀ v, entry.field "average_price_raw" = some v → IsNumber v
  realizedPnl : ∀ v, entry.field "realized_pnl_raw" = some v → IsNumber v
  lastUpdate : ∀ v, entry.field "last_update_us" = some v → IsNumber v

def Readable (entry : Json F) : Prop :=
  ∀ symbolId quantity averagePrice realizedPnl,
    Complete entry symbolId quantity averagePrice realizedPnl → WellTyped entry

def Says (entry : Json F) (p : Position Decimal) : Prop :=
  ∃ symbolId quantity averagePrice realizedPnl,
    Complete entry symbolId quantity averagePrice realizedPnl ∧
      p = { symbolId := (number trunc symbolId%2^32).toNat
            quantity := .wrap (number trunc quantity)
            averagePrice := .wrap (number trunc averagePrice)
            realizedPnl := .wrap (number trunc realizedPnl)
            lastUpdateUs := match entry.field "last_update_us" with
              | some v => (number trunc v%2^64).toNat
              | none => 0 }

/-- The manager holds for each symbol what the last entry for it says. -/
def HeldAsSaid (pm : PositionManager) (entries : List (Json F)) : Prop :=
  ∀ s p, pm.getPosition s = some p ↔ ∃ before entry rest, entries = before++entry::rest ∧
    Says trunc entry p ∧ p.symbolId = s ∧ ∀ e ∈ rest, ∀ q, Says trunc e q → q.symbolId ≠ s

/-- When the load fails, the manager holds what the entries before the first
of a wrong type say. -/
def HeldBefore (pm : PositionManager) (j : Json F) : Prop :=
  ∀ before entry rest, j = .array (before++entry::rest) → (∀ e ∈ before, Readable e) →
    ¬Readable entry → HeldAsSaid trunc pm before

def Converts (entry : Json F) : Prop := ∃ p, readPosition trunc entry = .ok p

def positionsOf (entries : List (Json F)) : List (Position Decimal) :=
  entries.filterMap (fun entry => match readPosition trunc entry with
    | .ok p => p
    | .error _ => none)

def lastOf (ps : List (Position Decimal)) (s : ℕ) : Option (Position Decimal) :=
  ps.reverse.find? (fun p => p.symbolId = s)

section Values

theorem getInt64_number (v : Json F) (h : IsNumber v) : getInt64 trunc v = .ok (.wrap (number trunc v)) := by
  cases v with
  | integer z => rfl
  | float x => rfl
  | _ => exact h.elim

theorem getUInt64_number (v : Json F) (h : IsNumber v) :
    getUInt64 trunc v = .ok (number trunc v%2^64).toNat := by
  cases v with
  | integer z => rfl
  | float x => rfl
  | _ => exact h.elim

theorem getUInt32_number (v : Json F) (h : IsNumber v ∨ IsBool v) :
    getUInt32 trunc v = .ok (number trunc v%2^32).toNat := by
  cases v with
  | integer z => rfl
  | float x => rfl
  | bool b => cases b <;> rfl
  | _ => exact (h.elim id id).elim

theorem getInt64_isNumber (v : Json F) (d : Decimal) (h : getInt64 trunc v = .ok d) : IsNumber v := by
  cases v with
  | integer z => trivial
  | float x => trivial
  | _ => cases h

theorem getUInt64_isNumber (v : Json F) (n : ℕ) (h : getUInt64 trunc v = .ok n) : IsNumber v := by
  cases v with
  | integer z => trivial
  | float x => trivial
  | _ => cases h

theorem getUInt32_isNumber (v : Json F) (n : ℕ) (h : getUInt32 trunc v = .ok n) : IsNumber v ∨ IsBool v := by
  cases v with
  | integer z => exact Or.inl trivial
  | float x => exact Or.inl trivial
  | bool b => exact Or.inr trivial
  | _ => cases h

end Values

section Entries
variable {entry symbolId quantity averagePrice realizedPnl : Json F}

theorem readPosition_complete (h : Complete entry symbolId quantity averagePrice realizedPnl) :
    readPosition trunc entry = (do
      let symbolId ← getUInt32 trunc symbolId
      let quantity ← getInt64 trunc quantity
      let averagePrice ← getInt64 trunc averagePrice
      let realizedPnl ← getInt64 trunc realizedPnl
      let lastUpdateUs ← lastUpdate trunc entry
      return some { symbolId, quantity, averagePrice, realizedPnl, lastUpdateUs }) := by
  rw [readPosition, h.symbolId, h.quantity, h.averagePrice, h.realizedPnl]

theorem lastUpdate_typed (h : WellTyped entry) : lastUpdate trunc entry =
    .ok (match entry.field "last_update_us" with
      | some v => (number trunc v%2^64).toNat
      | none => 0) := by
  rw [lastUpdate]
  cases hv : entry.field "last_update_us" with
  | none => rfl
  | some v => exact getUInt64_number trunc v (h.lastUpdate v hv)

theorem readPosition_typed (hc : Complete entry symbolId quantity averagePrice realizedPnl)
    (ht : WellTyped entry) : ∃ p, readPosition trunc entry = .ok (some p) ∧ Says trunc entry p := by
  refine ⟨_,?_,symbolId,quantity,averagePrice,realizedPnl,hc,rfl⟩
  rw [readPosition_complete trunc hc, getUInt32_number trunc _ (ht.symbolId _ hc.symbolId),
    getInt64_number trunc _ (ht.quantity _ hc.quantity),
    getInt64_number trunc _ (ht.averagePrice _ hc.averagePrice),
    getInt64_number trunc _ (ht.realizedPnl _ hc.realizedPnl), lastUpdate_typed trunc ht]
  rfl

theorem readPosition_skipped
    (h : ∀ symbolId quantity averagePrice realizedPnl : Json F,
      ¬Complete entry symbolId quantity averagePrice realizedPnl) :
    readPosition trunc entry = .ok none := by
  rw [readPosition]
  split
  case h_1 a b c d ha hb hc hd => exact absurd ⟨ha,hb,hc,hd⟩ (h a b c d)
  case h_2 => rfl

theorem wellTyped_of_read (hc : Complete entry symbolId quantity averagePrice realizedPnl)
    (p : Option (Position Decimal)) (h : readPosition trunc entry = .ok p) : WellTyped entry := by
  rw [readPosition_complete trunc hc] at h
  cases h1 : getUInt32 trunc symbolId with
  | error e => rw [h1] at h; cases h
  | ok id =>
  cases h2 : getInt64 trunc quantity with
  | error e => rw [h1, h2] at h; cases h
  | ok q =>
  cases h3 : getInt64 trunc averagePrice with
  | error e => rw [h1, h2, h3] at h; cases h
  | ok a =>
  cases h4 : getInt64 trunc realizedPnl with
  | error e => rw [h1, h2, h3, h4] at h; cases h
  | ok r =>
  cases h5 : lastUpdate trunc entry with
  | error e => rw [h1, h2, h3, h4, h5] at h; cases h
  | ok t =>
    constructor
    case symbolId =>
      intro v hv
      cases hc.symbolId.symm.trans hv
      exact getUInt32_isNumber trunc _ _ h1
    case quantity =>
      intro v hv
      cases hc.quantity.symm.trans hv
      exact getInt64_isNumber trunc _ _ h2
    case averagePrice =>
      intro v hv
      cases hc.averagePrice.symm.trans hv
      exact getInt64_isNumber trunc _ _ h3
    case realizedPnl =>
      intro v hv
      cases hc.realizedPnl.symm.trans hv
      exact getInt64_isNumber trunc _ _ h4
    case lastUpdate =>
      intro v hv
      rw [lastUpdate, hv] at h5
      exact getUInt64_isNumber trunc _ _ h5

theorem readable_iff (entry : Json F) : Readable entry ↔ Converts trunc entry := by
  constructor
  · intro h
    by_cases hc : ∃ symbolId quantity averagePrice realizedPnl : Json F,
        Complete entry symbolId quantity averagePrice realizedPnl
    · obtain ⟨a,b,c,d,hc⟩ := hc
      obtain ⟨p,hp,-⟩ := readPosition_typed trunc hc (h a b c d hc)
      exact ⟨some p,hp⟩
    · exact ⟨none,readPosition_skipped trunc (fun a b c d hc' => hc ⟨a,b,c,d,hc'⟩)⟩
  · rintro ⟨p,hp⟩ a b c d hc
    exact wellTyped_of_read trunc hc p hp

theorem says_iff (entry : Json F) (h : Readable entry) (p : Position Decimal) :
    Says trunc entry p ↔ readPosition trunc entry = .ok (some p) := by
  constructor
  · rintro ⟨a,b,c,d,hc,rfl⟩
    have ht := h a b c d hc
    rw [readPosition_complete trunc hc, getUInt32_number trunc _ (ht.symbolId _ hc.symbolId),
      getInt64_number trunc _ (ht.quantity _ hc.quantity),
      getInt64_number trunc _ (ht.averagePrice _ hc.averagePrice),
      getInt64_number trunc _ (ht.realizedPnl _ hc.realizedPnl), lastUpdate_typed trunc ht]
    rfl
  · intro hp
    by_cases hc : ∃ symbolId quantity averagePrice realizedPnl : Json F,
        Complete entry symbolId quantity averagePrice realizedPnl
    · obtain ⟨a,b,c,d,hc⟩ := hc
      obtain ⟨q,hq,hsaid⟩ := readPosition_typed trunc hc (h a b c d hc)
      cases hp.symm.trans hq
      exact hsaid
    · have hskip := readPosition_skipped trunc (fun a b c d hc' => hc ⟨a,b,c,d,hc'⟩)
      cases hp.symm.trans hskip

end Entries

theorem lastOf_cons (p : Position Decimal) (ps : List (Position Decimal)) (s : ℕ) :
    lastOf (p::ps) s = (lastOf ps s).or (if p.symbolId = s then some p else none) := by
  rw [lastOf, List.reverse_cons, List.find?_append, ← lastOf]
  by_cases hs : p.symbolId = s <;> simp [hs]

theorem positionsOf_cons (entry : Json F) (entries : List (Json F)) (p : Option (Position Decimal))
    (h : readPosition trunc entry = .ok p) :
    positionsOf trunc (entry::entries) = p.toList++positionsOf trunc entries := by
  cases p <;> simp [positionsOf, h]

theorem lastOf_none (entries : List (Json F)) (h : ∀ e ∈ entries, Readable e) (s : ℕ) :
    lastOf (positionsOf trunc entries) s = none ↔
      ∀ e ∈ entries, ∀ q, Says trunc e q → q.symbolId ≠ s := by
  induction entries with
  | nil => exact iff_of_true rfl (List.forall_mem_nil _)
  | cons entry entries ih =>
    have hrest := ih (fun e he => h e (List.mem_cons_of_mem entry he))
    have hentry := h entry List.mem_cons_self
    obtain ⟨p,hp⟩ := (readable_iff trunc entry).mp hentry
    rw [positionsOf_cons trunc entry entries p hp, List.forall_mem_cons, ← hrest]
    cases p with
    | none =>
      refine (and_iff_right ?_).symm
      intro q hq
      cases hp.symm.trans ((says_iff trunc entry hentry q).mp hq)
    | some p =>
      rw [Option.toList_some, List.singleton_append, lastOf_cons, Option.or_eq_none_iff, and_comm]
      refine and_congr_left' ?_
      rw [ite_eq_right_iff]
      constructor
      · intro hne q hq hs
        cases hp.symm.trans ((says_iff trunc entry hentry q).mp hq)
        cases hne hs
      · intro hne hs
        exact absurd hs (hne p ((says_iff trunc entry hentry p).mpr hp))

theorem lastOf_some (entries : List (Json F)) (h : ∀ e ∈ entries, Readable e) (s : ℕ)
    (p : Position Decimal) : lastOf (positionsOf trunc entries) s = some p ↔
      ∃ before entry rest, entries = before++entry::rest ∧ Says trunc entry p ∧ p.symbolId = s ∧
        ∀ e ∈ rest, ∀ q, Says trunc e q → q.symbolId ≠ s := by
  induction entries with
  | nil =>
    refine iff_of_false (fun hnone => by cases hnone) ?_
    rintro ⟨before,entry,rest,hsplit,-⟩
    simp at hsplit
  | cons first entries ih =>
    have hreadable : ∀ e ∈ entries, Readable e := fun e he => h e (List.mem_cons_of_mem first he)
    have hfirst := h first List.mem_cons_self
    obtain ⟨r,hr⟩ := (readable_iff trunc first).mp hfirst
    have hcons : lastOf (positionsOf trunc (first::entries)) s = some p ↔
        lastOf (positionsOf trunc entries) s = some p ∨
          lastOf (positionsOf trunc entries) s = none ∧ Says trunc first p ∧ p.symbolId = s := by
      rw [positionsOf_cons trunc first entries r hr, says_iff trunc first hfirst, hr]
      cases r with
      | none => simp
      | some q =>
        rw [Option.toList_some, List.singleton_append, lastOf_cons, Option.or_eq_some_iff]
        refine or_congr_right (and_congr_right' ?_)
        constructor
        · intro hq
          split_ifs at hq with hs
          cases hq
          exact ⟨rfl,hs⟩
        · rintro ⟨hq,hs⟩
          cases hq
          exact if_pos hs
    rw [hcons, ih hreadable, lastOf_none trunc entries hreadable]
    constructor
    · rintro (⟨before,entry,rest,hsplit,hsaid⟩ | ⟨hrest,hsaid,hs⟩)
      · exact ⟨first::before,entry,rest,by rw [hsplit]; rfl,hsaid⟩
      · exact ⟨[],first,entries,rfl,hsaid,hs,hrest⟩
    · rintro ⟨before,entry,rest,hsplit,hsaid,hs,hrest⟩
      cases before with
      | nil =>
        cases hsplit
        exact Or.inr ⟨hrest,hsaid,hs⟩
      | cons x before =>
        cases hsplit
        exact Or.inl ⟨before,entry,rest,rfl,hsaid,hs,hrest⟩

/-- A table of the last positions is one that holds what the entries say. -/
theorem heldAsSaid_iff (pm : PositionManager) (entries : List (Json F)) (h : ∀ e ∈ entries, Readable e) :
    HeldAsSaid trunc pm entries ↔ ∀ s, pm.getPosition s = lastOf (positionsOf trunc entries) s := by
  constructor
  · intro hheld s
    apply Option.ext
    intro p
    rw [hheld s p, lastOf_some trunc entries h]
  · intro hlast s p
    rw [hlast s, lastOf_some trunc entries h]

theorem loadEntries_append (before rest : List (Json F)) (h : ∀ e ∈ before, Converts trunc e)
    (t : Table ℕ (Position Decimal)) :
    ∃ t', loadEntries trunc (before++rest) t = loadEntries trunc rest t' ∧
      ∀ s, t'.find s = (lastOf (positionsOf trunc before) s).or (t.find s) := by
  induction before generalizing t with
  | nil => exact ⟨t,rfl,fun s => rfl⟩
  | cons entry before ih =>
    have hrest : ∀ e ∈ before, Converts trunc e := fun e he => h e (by simp [he])
    obtain ⟨p,hp⟩ := h entry (by simp)
    rw [List.cons_append, loadEntries, hp]
    cases p with
    | none =>
      have hsame : positionsOf trunc (entry::before) = positionsOf trunc before := by
        simp [positionsOf, hp]
      rw [hsame]
      exact ih hrest t
    | some p =>
      have hcons : positionsOf trunc (entry::before) = p::positionsOf trunc before := by
        simp [positionsOf, hp]
      obtain ⟨t',hload,hfind⟩ := ih hrest (t.assign p.symbolId p)
      refine ⟨t',hload,fun s => ?_⟩
      rw [hfind, hcons, lastOf_cons, Table.find_assign, Option.or_assoc]
      split_ifs <;> rfl

theorem loadEntries_throws (before rest : List (Json F)) (entry : Json F)
    (h : ∀ e ∈ before, Converts trunc e) (hbad : ¬Converts trunc entry) :
    ∃ t e, loadEntries trunc (before++entry::rest) .empty = (t,.error e) ∧
      ∀ s, t.find s = lastOf (positionsOf trunc before) s := by
  obtain ⟨t,hload,hfind⟩ := loadEntries_append trunc before (entry::rest) h .empty
  cases hread : readPosition trunc entry with
  | ok p => exact absurd ⟨p,hread⟩ hbad
  | error e =>
    refine ⟨t,e,?_,fun s => ?_⟩
    · rw [hload, loadEntries, hread]
    · rw [hfind, Table.find_empty, Option.or_none]

/-- A list of entries converts, or it has a first one that does not. -/
theorem first_failure (entries : List (Json F)) :
    (∀ e ∈ entries, Converts trunc e) ∨ ∃ before entry rest, entries = before++entry::rest ∧
      (∀ e ∈ before, Converts trunc e) ∧ ¬Converts trunc entry := by
  induction entries with
  | nil => exact Or.inl (List.forall_mem_nil _)
  | cons x xs ih =>
    by_cases hx : Converts trunc x
    · rcases ih with hall | ⟨before,entry,rest,rfl,hbefore,hbad⟩
      · exact Or.inl (List.forall_mem_cons.mpr ⟨hx,hall⟩)
      · exact Or.inr ⟨x::before,entry,rest,rfl,List.forall_mem_cons.mpr ⟨hx,hbefore⟩,hbad⟩
    · exact Or.inr ⟨[],x,xs,rfl,List.forall_mem_nil _,hx⟩

variable [NearestDivision.NearestDiv] (pm : PositionManager)

/-- Nothing changes when `fromJson` returns false or throws. -/
def FromJsonAtomic (j : Json F) : Prop :=
  (pm.fromJson trunc j).2 ≠ .ok true → Unchanged pm (pm.fromJson trunc j).1

def LoadAtomic (parse : String → Option (Json F)) (file : Option String) : Prop :=
  (pm.loadPositions trunc parse file).2 = false → Unchanged pm (pm.loadPositions trunc parse file).1

theorem fromJson_converts (entries : List (Json F)) (h : ∀ e ∈ entries, Converts trunc e) :
    (pm.fromJson trunc (.array entries)).2 = .ok true := by
  obtain ⟨t,hload,-⟩ := loadEntries_append trunc entries [] h .empty
  rw [List.append_nil] at hload
  simp only [fromJson, hload, loadEntries]

theorem fromJson_throws (before rest : List (Json F)) (entry : Json F)
    (h : ∀ e ∈ before, Converts trunc e) (hbad : ¬Converts trunc entry) :
    (∃ e, (pm.fromJson trunc (.array (before++entry::rest))).2 = .error e) ∧
      (pm.fromJson trunc (.array (before++entry::rest))).1.totalValueRaw = pm.totalValueRaw ∧
      ∀ s, (pm.fromJson trunc (.array (before++entry::rest))).1.getPosition s =
        lastOf (positionsOf trunc before) s := by
  obtain ⟨t,e,hload,hfind⟩ := loadEntries_throws trunc before rest entry h hbad
  rw [fromJson, hload]
  exact ⟨⟨e,rfl⟩,rfl,hfind⟩

theorem fromJson_atomic (j : Json F) : FromJsonAtomic trunc pm j ↔ HeldBefore trunc pm j := by
  constructor
  · rintro h before entry rest rfl hbefore hbad
    obtain ⟨⟨e,he⟩,-,hget⟩ := fromJson_throws trunc pm before rest entry
      (fun e he => (readable_iff trunc e).mp (hbefore e he)) ((readable_iff trunc entry).not.mp hbad)
    rw [heldAsSaid_iff trunc pm before hbefore]
    intro s
    rw [← (h (by rw [he]; simp)).positions s, hget]
  · intro h hfail
    cases j with
    | array entries =>
      rcases first_failure trunc entries with hall | ⟨before,entry,rest,rfl,hbefore,hbad⟩
      · exact absurd (fromJson_converts trunc pm entries hall) hfail
      · obtain ⟨-,htotal,hget⟩ := fromJson_throws trunc pm before rest entry hbefore hbad
        have hreadable : ∀ e ∈ before, Readable e := fun e he => (readable_iff trunc e).mpr (hbefore e he)
        have hheld := h before entry rest rfl hreadable ((readable_iff trunc entry).not.mpr hbad)
        rw [heldAsSaid_iff trunc pm before hreadable] at hheld
        exact ⟨fun s => (hget s).trans (hheld s).symm,htotal⟩
    | _ => exact ⟨fun _ => rfl,rfl⟩

/-- `loadPositions` reports as false what `fromJson` did not end with true. -/
theorem load_parsed (parse : String → Option (Json F)) (text : String) (j : Json F)
    (hp : parse text = some j) : LoadAtomic trunc pm parse (some text) ↔ FromJsonAtomic trunc pm j := by
  rw [LoadAtomic, FromJsonAtomic]
  simp only [loadPositions, hp]
  obtain ⟨pm',r⟩ := pm.fromJson trunc j
  cases r with
  | error e => simp
  | ok ok => cases ok <;> simp

/-- A load that fails changes nothing exactly when the manager holds what the
entries before the first with a field of a wrong type say. -/
theorem failed_load_iff_held (j : Json F) :
    (FromJsonAtomic trunc pm j ↔ HeldBefore trunc pm j) ∧
      ∀ (parse : String → Option (Json F)) (file : Option String), LoadAtomic trunc pm parse file ↔
        ∀ text j, file = some text → parse text = some j → HeldBefore trunc pm j := by
  refine ⟨fromJson_atomic trunc pm j,fun parse file => ?_⟩
  cases file with
  | none => exact ⟨fun _ _ _ h => (by cases h),fun _ _ => ⟨fun _ => rfl,rfl⟩⟩
  | some text =>
    cases hp : parse text with
    | none =>
      have hload : pm.loadPositions trunc parse (some text) = (pm,false) := by simp [loadPositions, hp]
      rw [LoadAtomic, hload]
      refine ⟨fun _ t k ht hk => ?_,fun _ _ => ⟨fun _ => rfl,rfl⟩⟩
      obtain rfl := Option.some.inj ht
      rw [hp] at hk
      cases hk
    | some k =>
      rw [load_parsed trunc pm parse text k hp, fromJson_atomic]
      constructor
      · intro h t i ht hi
        obtain rfl := Option.some.inj ht
        obtain rfl := Option.some.inj (hp.symm.trans hi)
        exact h
      · exact fun h => h text k rfl hp

end Loading

def oneHeld : PositionManager :=
  run [{ symbolId := 1, fillQuantity := .ofInt 1, fillPrice := .ofInt 100 }] {}

def wrongType : Json ℤ := .array
  [entryJson { symbolId := 2, quantity := .ofInt 5, averagePrice := .ofInt 7 },
   .object [("symbol_id",.integer 3),("quantity_raw",.string "5"),("average_price_raw",.integer 7),
     ("realized_pnl_raw",.integer 0)]]

/-- The load throws, symbol 1 is gone, symbol 2 is there and the cached total
is still that of symbol 1. -/
theorem wrongType_replaces_positions : ¬FromJsonAtomic id oneHeld wrongType ∧
    (oneHeld.fromJson id wrongType).1.getPosition 1 = none ∧
    ((oneHeld.fromJson id wrongType).1.getPosition 2).isSome = true ∧
    (oneHeld.fromJson id wrongType).1.getTotalValueCached = .ofInt 100 := by
  have hfail : (match (oneHeld.fromJson id wrongType).2 with
    | .error _ => true
    | .ok _ => false) = true := by decide +kernel
  have hgone : (oneHeld.fromJson id wrongType).1.getPosition 1 = none := by decide +kernel
  refine ⟨fun h => ?_,hgone,by decide +kernel,by decide +kernel⟩
  have hsame := (h (fun hok => by rw [hok] at hfail; cases hfail)).positions 1
  rw [hgone] at hsame
  exact absurd hsame (by decide +kernel)

end Chronos.PositionManager
