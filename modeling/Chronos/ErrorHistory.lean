import Chronos.Schedule

/-!
# The error history

`ErrorHandler` keeps the latest errors in a vector. While the vector grows,
the write index is its length; once it is full the index is the place of the
oldest error. A write outside the vector and a remainder by zero are
undefined, and nothing is known of the handler afterwards.
-/

set_option autoImplicit false

namespace Chronos

inductive ErrorSeverity where
  | debug
  | info
  | warning
  | error
  | critical
  deriving DecidableEq

def ErrorSeverity.level : ErrorSeverity → ℕ
  | .debug => 0
  | .info => 1
  | .warning => 2
  | .error => 3
  | .critical => 4

/-- An error; `C` stands for the fields the history does not look at. -/
structure Error (C : Type) where
  severity : ErrorSeverity
  content : C

structure ErrorHandler (C : Type) where
  errorHistory : List (Error C) := []
  historyWriteIndex : ℕ := 0
  maxHistorySize : ℕ := 1000
  minimumSeverity : ErrorSeverity := .debug

namespace ErrorHandler
variable {C : Type}

section Calls
variable (h : ErrorHandler C)

def addToHistory (e : Error C) : Option (ErrorHandler C) :=
  if h.errorHistory.length < h.maxHistorySize then
    some { h with
      errorHistory := h.errorHistory++[e]
      historyWriteIndex := h.errorHistory.length+1 }
  else if h.historyWriteIndex < h.errorHistory.length ∧ h.maxHistorySize ≠ 0 then
    some { h with
      errorHistory := h.errorHistory.set h.historyWriteIndex e
      historyWriteIndex := (h.historyWriteIndex+1)%h.maxHistorySize }
  else none

def reportError (e : Error C) : Option (ErrorHandler C) :=
  if e.severity.level < h.minimumSeverity.level then some h else h.addToHistory e

def getRecentErrors (maxCount : ℕ) : List (Error C) :=
  let size := h.errorHistory.length
  (List.range (min maxCount size)).filterMap
    (fun i => h.errorHistory[(h.historyWriteIndex+size-1-i)%size]?)

def clearHistory : ErrorHandler C := { h with errorHistory := [], historyWriteIndex := 0 }

def setMaxHistorySize (size : ℕ) : ErrorHandler C :=
  if size < h.errorHistory.length then
    { h with
      maxHistorySize := size
      errorHistory := h.errorHistory.take size
      historyWriteIndex := 0 }
  else { h with maxHistorySize := size }

def setMinimumSeverity (severity : ErrorSeverity) : ErrorHandler C :=
  { h with minimumSeverity := severity }

end Calls

inductive Action (C : Type) where
  | reportError (e : Error C)
  | setMaxHistorySize (size : ℕ)
  | clearHistory
  | setMinimumSeverity (severity : ErrorSeverity)

def step (h : ErrorHandler C) : Action C → Option (ErrorHandler C)
  | .reportError e => h.reportError e
  | .setMaxHistorySize size => some (h.setMaxHistorySize size)
  | .clearHistory => some h.clearHistory
  | .setMinimumSeverity severity => some (h.setMinimumSeverity severity)

/-- The errors a history is for: the latest ones, newest first, as many as it
may hold. -/
def keep (h : ErrorHandler C) (latest : List (Error C)) : Action C → List (Error C)
  | .reportError e =>
    if e.severity.level < h.minimumSeverity.level then latest else (e::latest).take h.maxHistorySize
  | .setMaxHistorySize size => latest.take size
  | .clearHistory => []
  | .setMinimumSeverity _ => latest

end ErrorHandler

/-- A handler, until something undefined happens, beside the errors it is to hold. -/
structure ErrorLog (C : Type) where
  handler : Option (ErrorHandler C) := some {}
  latest : List (Error C) := []

namespace ErrorLog
variable {C : Type}

def step (s : ErrorLog C) (a : ErrorHandler.Action C) : ErrorLog C where
  handler := s.handler.bind (fun h => h.step a)
  latest := (s.handler.map (fun h => h.keep s.latest a)).getD s.latest

/-- Nothing undefined has happened, no more is held than may be, and every query
gives the latest errors. -/
structure Holds (h : ErrorHandler C) (latest : List (Error C)) : Prop where
  bounded : latest.length ≤ h.maxHistorySize
  recent : ∀ n, h.getRecentErrors n = latest.take n

def Keeps (s : ErrorLog C) : Prop := ∃ h, s.handler = some h ∧ Holds h s.latest

/-- An error that is kept finds room to grow and the history in the order of its
reports, or else the write index inside. The maximum is lowered when the first
places hold the latest errors. -/
def InPlace (s : ErrorLog C) (a : ErrorHandler.Action C) : Prop :=
  ∀ h, s.handler = some h → match a with
    | .reportError e => h.minimumSeverity.level ≤ e.severity.level →
      if h.errorHistory.length < h.maxHistorySize then
        h.errorHistory.rotate h.historyWriteIndex = h.errorHistory
      else h.historyWriteIndex < h.errorHistory.length
    | .setMaxHistorySize size => size < h.errorHistory.length →
      h.errorHistory.take size =
        (h.errorHistory.rotate h.historyWriteIndex).drop (h.errorHistory.length-size)
    | _ => True

end ErrorLog

namespace ErrorHandler
variable {C : Type} (h : ErrorHandler C)

structure Bounded : Prop where
  index : h.historyWriteIndex ≤ h.errorHistory.length
  length : h.errorHistory.length ≤ h.maxHistorySize

def inOrder : List (Error C) := h.errorHistory.rotate h.historyWriteIndex

theorem filterMap_get (l : List (Error C)) (n : ℕ) :
    (List.range n).filterMap (fun i => l[i]?) = l.take n := by
  induction n with
  | zero => rfl
  | succ n ih =>
    rw [List.range_succ, List.filterMap_append, ih, List.take_add_one, List.filterMap_cons]
    cases l[n]? <;> rfl

theorem getRecentErrors_eq (n : ℕ) (hb : h.Bounded) :
    h.getRecentErrors n = h.inOrder.reverse.take n := by
  have hindex := hb.index
  have hget : ∀ i ∈ List.range (min n h.errorHistory.length),
      h.errorHistory[(h.historyWriteIndex+h.errorHistory.length-1-i)%h.errorHistory.length]? =
        h.inOrder.reverse[i]? := by
    intro i hi
    have hlt := (lt_min_iff.mp (List.mem_range.mp hi)).2
    rw [List.getElem?_reverse (by simpa [inOrder] using hlt), inOrder, List.length_rotate,
      List.getElem?_rotate (by omega)]
    congr 2
    omega
  have hlength : h.inOrder.reverse.length = h.errorHistory.length := by simp [inOrder]
  calc
    h.getRecentErrors n = (List.range (min n h.errorHistory.length)).filterMap
        (fun i => h.inOrder.reverse[i]?) := List.filterMap_congr hget
    _ = h.inOrder.reverse.take (min n h.errorHistory.length) := filterMap_get _ _
    _ = h.inOrder.reverse.take n := by rw [← hlength, ← List.take_take, List.take_length]

/-- The queries show the history in the order of the reports. -/
theorem holds_iff (latest : List (Error C)) (hb : h.Bounded) :
    ErrorLog.Holds h latest ↔ h.inOrder.reverse = latest := by
  constructor
  · intro hh
    have hall := hh.recent (h.errorHistory.length+latest.length)
    rwa [getRecentErrors_eq h _ hb, List.take_of_length_le (by simp [inOrder]),
      List.take_of_length_le (by omega)] at hall
  · rintro rfl
    exact ⟨by simpa [inOrder] using hb.length,fun n => getRecentErrors_eq h n hb⟩

/-- Overwriting the oldest error puts the new one at the end. -/
theorem rotate_set (l : List (Error C)) (e : Error C) (i : ℕ) (hi : i < l.length) :
    (l.set i e).rotate ((i+1)%l.length) = (l.rotate i).drop 1++[e] := by
  obtain ⟨before,oldest,after,rfl,rfl⟩ : ∃ (before : List (Error C)) (oldest : Error C)
      (after : List (Error C)), l = before++oldest::after ∧ before.length = i :=
    ⟨l.take i,l[i],l.drop (i+1),by simp,List.length_take_of_le (le_of_lt hi)⟩
  have hset : (before++oldest::after).set before.length e = (before++[e])++after := by simp
  have hlength : (before++oldest::after).length = ((before++[e])++after).length := by simp
  rw [hset, hlength, List.rotate_mod, List.rotate_append_length_eq,
    show before.length+1 = (before++[e]).length by simp, List.rotate_append_length_eq]
  simp

section Steps
variable (e : Error C) (latest : List (Error C))

theorem addToHistory_bounded (hb : h.Bounded) (h' : ErrorHandler C) (hadd : h.addToHistory e = some h') :
    h'.Bounded := by
  have hindex := hb.index
  have hlength := hb.length
  unfold addToHistory at hadd
  split_ifs at hadd with hgrow hfull
  · cases hadd
    exact ⟨by simp,by simp; omega⟩
  · cases hadd
    have hmod := Nat.mod_lt (h.historyWriteIndex+1) (Nat.pos_of_ne_zero hfull.2)
    exact ⟨by simp; omega,by simpa using hlength⟩

theorem step_bounded (a : Action C) (hb : h.Bounded) (h' : ErrorHandler C) (hstep : h.step a = some h') :
    h'.Bounded := by
  have hlength := hb.length
  cases a with
  | reportError e =>
    simp only [step, reportError] at hstep
    split_ifs at hstep
    · cases hstep
      exact hb
    · exact addToHistory_bounded h e hb h' hstep
  | setMaxHistorySize size =>
    simp only [step, setMaxHistorySize, Option.some.injEq] at hstep
    split_ifs at hstep with hlt
    · cases hstep
      exact ⟨Nat.zero_le _,List.length_take_le _ _⟩
    · cases hstep
      exact ⟨hb.index,not_lt.mp hlt⟩
  | clearHistory =>
    cases hstep
    exact ⟨le_rfl,Nat.zero_le _⟩
  | setMinimumSeverity severity =>
    cases hstep
    exact ⟨hb.index,hb.length⟩

/-- An error that finds room is the latest one if the others stand in order. -/
theorem grow_holds (hb : h.Bounded) (hgrow : h.errorHistory.length < h.maxHistorySize)
    (hh : h.inOrder.reverse = latest) :
    (∃ h', h.addToHistory e = some h' ∧ ErrorLog.Holds h' ((e::latest).take h.maxHistorySize)) ↔
      h.inOrder = h.errorHistory := by
  have hadd : h.addToHistory e = some { h with
      errorHistory := h.errorHistory++[e]
      historyWriteIndex := h.errorHistory.length+1 } := if_pos hgrow
  have htake : (e::latest).take h.maxHistorySize = e::latest := by
    rw [← hh]
    exact List.take_of_length_le (by simpa [inOrder] using hgrow)
  have hrotate : (h.errorHistory++[e]).rotate (h.errorHistory.length+1) = h.errorHistory++[e] := by
    rw [show h.errorHistory.length+1 = (h.errorHistory++[e]).length by simp, List.rotate_length]
  rw [hadd, htake]
  constructor
  · rintro ⟨h',hh',hholds⟩
    cases hh'
    rw [holds_iff _ _ (addToHistory_bounded h e hb _ hadd), inOrder, hrotate, List.reverse_append,
      ← hh] at hholds
    exact (List.reverse_injective (List.cons.inj hholds).2).symm
  · intro horder
    refine ⟨_,rfl,(holds_iff _ _ (addToHistory_bounded h e hb _ hadd)).mpr ?_⟩
    rw [inOrder, hrotate, List.reverse_append, ← hh, horder]
    rfl

/-- In a full history the new error takes the place of the oldest. -/
theorem overwrite_holds (hb : h.Bounded) (hfull : ¬h.errorHistory.length < h.maxHistorySize)
    (hh : h.inOrder.reverse = latest) :
    (∃ h', h.addToHistory e = some h' ∧ ErrorLog.Holds h' ((e::latest).take h.maxHistorySize)) ↔
      h.historyWriteIndex < h.errorHistory.length := by
  have hlength : h.errorHistory.length = h.maxHistorySize := le_antisymm hb.length (not_lt.mp hfull)
  constructor
  · rintro ⟨h',hh',-⟩
    rw [addToHistory, if_neg hfull] at hh'
    split_ifs at hh' with hinside
    exact hinside.1
  · intro hinside
    have hadd : h.addToHistory e = some { h with
        errorHistory := h.errorHistory.set h.historyWriteIndex e
        historyWriteIndex := (h.historyWriteIndex+1)%h.maxHistorySize } := by
      rw [addToHistory, if_neg hfull, if_pos ⟨hinside,by omega⟩]
    refine ⟨_,hadd,(holds_iff _ _ (addToHistory_bounded h e hb _ hadd)).mpr ?_⟩
    obtain ⟨n,hn⟩ : ∃ n, h.maxHistorySize = n+1 := ⟨h.maxHistorySize-1,by omega⟩
    have hrest : latest.take n = (h.inOrder.drop 1).reverse := by
      rw [← hh, List.take_reverse, inOrder, List.length_rotate, hlength, hn, Nat.add_sub_cancel_left]
    rw [inOrder, ← hlength, rotate_set _ e _ hinside, List.reverse_append, hlength, hn,
      List.take_succ_cons, hrest]
    rfl

theorem setMaxHistorySize_holds (size : ℕ) (hb : h.Bounded) (hh : h.inOrder.reverse = latest) :
    ErrorLog.Holds (h.setMaxHistorySize size) (latest.take size) ↔ (size < h.errorHistory.length →
      h.errorHistory.take size = h.inOrder.drop (h.errorHistory.length-size)) := by
  have hbounded := step_bounded h (.setMaxHistorySize size) hb _ rfl
  have htake : latest.take size = (h.inOrder.drop (h.errorHistory.length-size)).reverse := by
    rw [← hh, List.take_reverse, inOrder, List.length_rotate]
  rw [holds_iff _ _ hbounded, htake, setMaxHistorySize]
  split_ifs with hlt
  · simp only [inOrder, List.rotate_zero, List.reverse_inj, hlt, true_imp_iff]
  · rw [Nat.sub_eq_zero_of_le (not_lt.mp hlt)]
    exact ⟨fun _ hf => absurd hf hlt,fun _ => rfl⟩

end Steps
end ErrorHandler

namespace ErrorLog
open ErrorHandler
variable {C : Type}

def Bounded (s : ErrorLog C) : Prop := ∀ h, s.handler = some h → h.Bounded

theorem bounded_step (s : ErrorLog C) (a : ErrorHandler.Action C) (hb : s.Bounded) :
    (s.step a).Bounded := by
  intro h' hstep
  obtain ⟨h,hs,hh⟩ := Option.bind_eq_some_iff.mp hstep
  exact step_bounded h a (hb h hs) h' hh

theorem keeps_step (s : ErrorLog C) (a : ErrorHandler.Action C) (hb : s.Bounded) (hk : s.Keeps) :
    (s.step a).Keeps ↔ InPlace s a := by
  obtain ⟨h,hs,hh⟩ := hk
  have hbh := hb h hs
  have hh' := hh
  rw [holds_iff h s.latest hbh] at hh
  have hstep : (s.step a).Keeps ↔ ∃ h', h.step a = some h' ∧ Holds h' (h.keep s.latest a) := by
    simp [Keeps, ErrorLog.step, hs]
  have hplace : ∀ P : ErrorHandler C → Prop, (∀ h', s.handler = some h' → P h') ↔ P h := by
    intro P
    exact ⟨fun hp => hp h hs,fun hp h' hs' => Option.some.inj (hs.symm.trans hs') ▸ hp⟩
  rw [hstep, InPlace, hplace]
  cases a with
  | reportError e =>
    simp only [ErrorHandler.step, reportError, keep]
    by_cases hsev : e.severity.level < h.minimumSeverity.level
    · rw [if_pos hsev, if_pos hsev]
      exact ⟨fun _ hle => absurd hsev (not_lt.mpr hle),fun _ => ⟨h,rfl,hh'⟩⟩
    rw [if_neg hsev, if_neg hsev]
    split_ifs with hgrow
    · rw [grow_holds h e s.latest hbh hgrow hh]
      exact ⟨fun ho _ => ho,fun ho => ho (not_lt.mp hsev)⟩
    · rw [overwrite_holds h e s.latest hbh hgrow hh]
      exact ⟨fun ho _ => ho,fun ho => ho (not_lt.mp hsev)⟩
  | setMaxHistorySize size =>
    have hsize := setMaxHistorySize_holds h s.latest size hbh hh
    simp only [ErrorHandler.step, keep, Option.some.injEq, exists_eq_left']
    exact hsize
  | clearHistory =>
    refine iff_of_true ⟨_,rfl,(holds_iff _ _ (step_bounded h .clearHistory hbh _ rfl)).mpr ?_⟩ trivial
    simp [clearHistory, inOrder, keep]
  | setMinimumSeverity severity =>
    exact iff_of_true ⟨_,rfl,⟨hh'.bounded,hh'.recent⟩⟩ trivial

/-- The history keeps what it is for throughout a run if and only if every
report and every new maximum find the entries in place. -/
theorem keeps_iff_inPlace (actions : List (ErrorHandler.Action C)) :
    (∀ n, Keeps (Schedule.run step (actions.take n) {})) ↔
      Schedule.Allowed step InPlace actions {} := by
  refine Schedule.invariant_iff step (fun _ _ => True) InPlace Bounded Keeps bounded_step
    (fun s a _ hb hk => keeps_step s a hb hk) actions {}
    (Schedule.allowed_of_forall step _ (fun _ _ => trivial) actions {}) ?_ ?_
  · intro h hs
    cases hs
    exact ⟨le_rfl,Nat.zero_le _⟩
  · exact ⟨{},rfl,Nat.zero_le _,fun n => by simp [getRecentErrors]⟩

def threeErrors : List (ErrorHandler.Action ℕ) :=
  [.setMaxHistorySize 2,.reportError ⟨.error,0⟩,.reportError ⟨.error,1⟩,.reportError ⟨.error,2⟩]

/-- The first error that finds the history full is written behind its end. -/
theorem threeErrors_undefined : (Schedule.run step threeErrors {}).handler.isNone = true ∧
    ¬Keeps (Schedule.run step threeErrors {}) := by
  refine ⟨rfl,?_⟩
  rintro ⟨h,hs,-⟩
  cases hs

end ErrorLog
end Chronos
