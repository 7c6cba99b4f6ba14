import Chronos.OptimisticRead
import Chronos.RiskParameterUpdate

/-!
# Threads over the shared risk parameters

Any number of threads run `updateParameters`, and any number read the four
limits of one `checkOrder`, one access at a time in any order. The read
retries a hundred times and then reads without looking at the version.

The writing side was not made for two writers: the version is raised by a
load and a store, and both writers fill the one dark buffer. Calls that do
not overlap keep the two copies of the parameters together; overlapping ones
may leave the version odd for good.
-/

set_option autoImplicit false

namespace Chronos.RiskParameterUpdate
open OptimisticRead RiskEngine

def gatherReading : Reading HotParams CheckInfo :=
  .load fun hp => let orderValue := hp.maxOrderValue
  .load fun hp => let positionValue := hp.maxPositionValue
  .load fun hp => let totalPositionValue := hp.maxTotalPositionValue
  .load fun hp => .done ⟨orderValue,positionValue,totalPositionValue,hp.minAvailableCapital⟩

/-- Where a thread stands in `readHotParamsOptimistic`: about to load the
version, among the loads of the data, out of retries, among the loads that
are not checked any more. -/
inductive Place where
  | idle
  | attempt (retry : ℕ)
  | reading (retry version : ℕ) (rest : Reading HotParams CheckInfo)
  | exhausted
  | fallback (rest : Reading HotParams CheckInfo)

/-- The store, the calls under way and the readers; `published` lists the
parameters of all calls begun and `returned` what the reads gave. -/
structure State (F : Type) where
  store : ParameterStore F
  updaters : ℕ → Option (Call F × List Access) := fun _ => none
  readers : ℕ → Place := fun _ => .idle
  published : List (RiskParameters F) := []
  returned : List CheckInfo := []

inductive Action (F : Type) where
  | update (thread : ℕ) (params : RiskParameters F) (nowUs : ℕ)
  | check (thread : ℕ)

section Step
variable {F : Type} (toDecimal : F → Decimal)

def initial (defaults : RiskParameters F) : State F where
  store := initialStore toDecimal defaults

def setUpdater (s : State F) (t : ℕ) (call : Option (Call F × List Access)) : State F :=
  { s with updaters := Function.update s.updaters t call }

def setReader (s : State F) (t : ℕ) (p : Place) : State F :=
  { s with readers := Function.update s.readers t p }

def updateStep (s : State F) (t : ℕ) (params : RiskParameters F) (nowUs : ℕ) : State F :=
  match s.updaters t with
  | none =>
    setUpdater { s with published := s.published++[params] } t
      (some ({ params := params, nowUs := nowUs },updateParameters))
  | some (_,[]) => setUpdater s t none
  | some (c,a::rest) =>
    let (store,c) := access toDecimal (s.store,c) a
    setUpdater { s with store := store } t (some (c,rest))

def retried (retry : ℕ) : Place := if retry+1 < maxRetries then .attempt (retry+1) else .exhausted

def returns (s : State F) (t : ℕ) (info : CheckInfo) : State F :=
  setReader { s with returned := s.returned++[info] } t .idle

def checkStep (s : State F) (t : ℕ) : State F :=
  let hp := s.store.hotParams
  match s.readers t with
  | .idle => setReader s t (.attempt 0)
  | .attempt retry =>
    if hp.version%2 = 1 then setReader s t (retried retry)
    else setReader s t (.reading retry hp.version gatherReading)
  | .reading retry version (.done info) =>
    if hp.version = version then returns s t info else setReader s t (retried retry)
  | .reading retry version rest => setReader s t (.reading retry version (rest.advance hp))
  | .exhausted => setReader s t (.fallback (gatherReading.advance hp))
  | .fallback (.done info) => returns s t info
  | .fallback rest => setReader s t (.fallback (rest.advance hp))

def step (s : State F) : Action F → State F
  | .update t params nowUs => updateStep toDecimal s t params nowUs
  | .check t => checkStep s t

/-- A read that runs alone is the read of the sequential engine. -/
theorem solo_check (e : RiskEngine) (s : State F) (t : ℕ) (ht : s.readers t = .idle)
    (hp : s.store.hotParams = e.hotParams) (hv : e.hotParams.version%2 = 0) :
    (Schedule.run (step toDecimal) (List.replicate 7 (.check t)) s).returned =
      s.returned++[e.readHotParamsOptimistic gather] := by
  simp [List.replicate, Schedule.run, step, checkStep, setReader, returns, Reading.advance,
    gatherReading, gather, ht, hp, hv]

end Step

section Alone
variable {F : Type}

/-- A call begins only when no other call is under way. -/
def Alone (s : State F) : Action F → Prop
  | .update t _ _ => s.updaters t = none → ∀ u, s.updaters u = none
  | .check _ => True

theorem checkStep_kept (s : State F) (t : ℕ) : (checkStep s t).store = s.store ∧
    (checkStep s t).updaters = s.updaters ∧ (checkStep s t).published = s.published := by
  simp only [checkStep]
  split <;> (try split_ifs) <;> exact ⟨rfl,rfl,rfl⟩

def UpdatersBelow (n : ℕ) (_ : State F) : Action F → Prop
  | .update t _ _ => t < n
  | .check _ => True

instance (n : ℕ) (s : State F) (a : Action F) : Decidable (UpdatersBelow n s a) :=
  match a with
  | .update t _ _ => inferInstanceAs (Decidable (t < n))
  | .check _ => inferInstanceAs (Decidable True)

variable (toDecimal : F → Decimal)

theorem updateStep_other (s : State F) (t u : ℕ) (params : RiskParameters F) (nowUs : ℕ) (h : u ≠ t) :
    (updateStep toDecimal s t params nowUs).updaters u = s.updaters u := by
  unfold updateStep
  split <;> exact Function.update_of_ne h _ _

theorem step_below (n : ℕ) (s : State F) (a : Action F) (ha : UpdatersBelow n s a)
    (h : ∀ t, n ≤ t → s.updaters t = none) : ∀ t, n ≤ t → (step toDecimal s a).updaters t = none := by
  intro t hn
  cases a with
  | update u params nowUs =>
    have hlt : u < n := ha
    exact (updateStep_other toDecimal s u t params nowUs (by omega)).trans (h t hn)
  | check u => exact (congrFun (checkStep_kept s u).2.1 t).trans (h t hn)

def OtherOutside (s : State F) : Action F → Prop
  | .update t _ _ => t < 2 ∧ (s.updaters (1-t)).isNone = true
  | .check _ => True

instance (s : State F) (a : Action F) : Decidable (OtherOutside s a) :=
  match a with
  | .update t _ _ => inferInstanceAs (Decidable (t < 2 ∧ (s.updaters (1-t)).isNone = true))
  | .check _ => inferInstanceAs (Decidable True)

theorem otherOutside_alone (s : State F) (a : Action F) (ha : OtherOutside s a)
    (h : ∀ t, 2 ≤ t → s.updaters t = none) : Alone s a := by
  cases a with
  | update t params nowUs =>
    intro hnone u
    obtain ⟨ht,hother⟩ := ha
    by_cases hu : u = t
    · rw [hu]
      exact hnone
    · by_cases hone : u = 1-t
      · rw [hone]
        exact Option.isNone_iff_eq_none.mp hother
      · exact h u (by omega)
  | check t => trivial

/-- At most one call is under way, and the store is coherent when it is over. -/
structure Serial (s : State F) : Prop where
  one : ∀ t u, s.updaters t ≠ none → s.updaters u ≠ none → t = u
  idle : (∀ t, s.updaters t = none) → Coherent toDecimal s.store
  busy : ∀ t c rest, s.updaters t = some (c,rest) → Coherent toDecimal (finish toDecimal s.store c rest)

theorem begin_serial (s : State F) (t : ℕ) (params : RiskParameters F) (nowUs : ℕ)
    (ha : ∀ u, s.updaters u = none) (h : Serial toDecimal s) :
    Serial toDecimal (setUpdater { s with published := s.published++[params] } t
      (some ({ params := params, nowUs := nowUs },updateParameters))) := by
  have hother : ∀ u, u ≠ t → (Function.update s.updaters t
      (some (({ params := params, nowUs := nowUs } : Call F),updateParameters))) u = none := by
    intro u hu
    rw [Function.update_of_ne hu]
    exact ha u
  constructor
  case one =>
    intro u v hu hv
    have hut : u = t := not_not.mp (fun hne => hu (hother u hne))
    have hvt : v = t := not_not.mp (fun hne => hv (hother v hne))
    exact hut.trans hvt.symm
  case idle =>
    intro hall
    exact absurd (hall t) (by simp [setUpdater])
  case busy =>
    intro u c rest hu
    by_cases hut : u = t
    · subst hut
      obtain ⟨rfl,rfl⟩ : _ = c ∧ _ = rest := by simpa [setUpdater] using hu
      exact update_coherent toDecimal s.store _ (h.idle ha)
    · exact absurd ((hother u hut).symm.trans hu) (by simp)

theorem return_serial (s : State F) (t : ℕ) (c : Call F) (ht : s.updaters t = some (c,[]))
    (h : Serial toDecimal s) : Serial toDecimal (setUpdater s t none) := by
  have hnone : ∀ u, (setUpdater s t none).updaters u = none := by
    intro u
    by_cases hut : u = t
    · simp [setUpdater, hut]
    · have hu : s.updaters u = none := not_not.mp (fun hne => hut (h.one u t hne (by simp [ht])))
      simpa [setUpdater, hut] using hu
  constructor
  case one => exact fun u v hu => absurd (hnone u) hu
  case idle => exact fun _ => h.busy t c [] ht
  case busy =>
    intro u c' rest hu
    exact absurd ((hnone u).symm.trans hu) (by simp)

theorem access_serial (s : State F) (t : ℕ) (c : Call F) (a : Access) (rest : List Access)
    (ht : s.updaters t = some (c,a::rest)) (h : Serial toDecimal s) :
    Serial toDecimal (setUpdater { s with store := (access toDecimal (s.store,c) a).1 } t
      (some ((access toDecimal (s.store,c) a).2,rest))) := by
  have hother : ∀ u, u ≠ t → s.updaters u = none :=
    fun u hu => not_not.mp (fun hne => hu (h.one u t hne (by simp [ht])))
  constructor
  case one =>
    intro u v hu hv
    have key : ∀ x, (Function.update s.updaters t
        (some ((access toDecimal (s.store,c) a).2,rest))) x ≠ none → x = t := by
      intro x hx
      by_contra hne
      exact hx (by rw [Function.update_of_ne hne]; exact hother x hne)
    exact (key u hu).trans (key v hv).symm
  case idle =>
    intro hall
    exact absurd (hall t) (by simp [setUpdater])
  case busy =>
    intro u c' rest' hu
    by_cases hut : u = t
    · subst hut
      obtain ⟨rfl,rfl⟩ : _ = c' ∧ _ = rest' := by simpa [setUpdater] using hu
      exact h.busy u c (a::rest) ht
    · have hn : (setUpdater { s with store := (access toDecimal (s.store,c) a).1 } t
          (some ((access toDecimal (s.store,c) a).2,rest))).updaters u = none := by
        simpa [setUpdater, hut] using hother u hut
      exact absurd (hn.symm.trans hu) (by simp)

theorem step_serial (s : State F) (a : Action F) (ha : Alone s a) (h : Serial toDecimal s) :
    Serial toDecimal (step toDecimal s a) := by
  cases a with
  | update t params nowUs =>
    change Serial toDecimal (updateStep toDecimal s t params nowUs)
    unfold updateStep
    split
    case h_1 ht => exact begin_serial toDecimal s t params nowUs (ha ht) h
    case h_2 c ht => exact return_serial toDecimal s t c ht h
    case h_3 c a rest ht => exact access_serial toDecimal s t c a rest ht h
  | check t =>
    obtain ⟨hs,hu,-⟩ := checkStep_kept s t
    constructor
    case one => exact hu ▸ h.one
    case idle => exact hs.symm ▸ hu.symm ▸ h.idle
    case busy => exact hs.symm ▸ hu.symm ▸ h.busy

/-- Calls that do not overlap: once all have returned, the version is even and
the hot words are the conversion of the parameters handed out. -/
theorem separate_updates_coherent (defaults : RiskParameters F) (actions : List (Action F))
    (hok : Schedule.Allowed (step toDecimal) Alone actions (initial toDecimal defaults))
    (hdone : ∀ t, (Schedule.run (step toDecimal) actions (initial toDecimal defaults)).updaters t = none) :
    Coherent toDecimal (Schedule.run (step toDecimal) actions (initial toDecimal defaults)).store := by
  have h0 : Serial toDecimal (initial toDecimal defaults) := by
    constructor
    case one => exact fun t u ht => absurd rfl ht
    case idle => exact fun _ => initial_coherent toDecimal defaults
    case busy => exact fun t c rest ht => absurd ht (by simp [initial])
  exact (Schedule.invariant (step toDecimal) Alone (Serial toDecimal) (step_serial toDecimal) actions
    _ hok h0).idle hdone

end Alone

section Runs

def defaultParameters : RiskParameters ℤ := ⟨100000,500000,100,1000000,10000,20⟩

def smallParameters : RiskParameters ℤ := ⟨1000,5000,10,10000,100,20⟩

def turns (thread count : ℕ) (params : RiskParameters ℤ) : List (Action ℤ) :=
  List.replicate count (.update thread params 0)

def overlappingUpdates : List (Action ℤ) :=
  turns 0 23 smallParameters++turns 1 24 defaultParameters++turns 0 29 smallParameters++
    turns 1 28 defaultParameters

theorem overlappingUpdates_version_odd :
    let s := Schedule.run (step Decimal.ofInt) overlappingUpdates
      (initial Decimal.ofInt defaultParameters)
    (∀ t, s.updaters t = none) ∧ s.store.hotParams.version = 3 ∧ ¬Coherent Decimal.ofInt s.store := by
  have hv : (Schedule.run (step Decimal.ofInt) overlappingUpdates
      (initial Decimal.ofInt defaultParameters)).store.hotParams.version = 3 := by decide +kernel
  refine ⟨?_,hv,fun h => absurd h.even (by rw [hv]; decide)⟩
  intro t
  match t with
  | 0 => exact Option.isNone_iff_eq_none.mp (by decide +kernel)
  | 1 => exact Option.isNone_iff_eq_none.mp (by decide +kernel)
  | t+2 =>
    exact Schedule.invariant (step Decimal.ofInt) (UpdatersBelow 2)
      (fun s => ∀ t, 2 ≤ t → s.updaters t = none) (step_below Decimal.ofInt 2) overlappingUpdates _
      (by decide +kernel) (fun _ _ => rfl) (t+2) (by omega)

def separateUpdates : List (Action ℤ) := turns 0 52 smallParameters++turns 1 52 defaultParameters

theorem separateUpdates_coherent : Coherent Decimal.ofInt
    (Schedule.run (step Decimal.ofInt) separateUpdates (initial Decimal.ofInt defaultParameters)).store := by
  have hkeep := step_below (F := ℤ) Decimal.ofInt 2
  have htwo : ∀ (s : State ℤ) (a : Action ℤ), OtherOutside s a → UpdatersBelow 2 s a := by
    intro s a ha
    cases a with
    | update t params nowUs => exact ha.1
    | check t => trivial
  refine separate_updates_coherent Decimal.ofInt defaultParameters separateUpdates ?_ ?_
  · exact Schedule.allowed_of_invariant _ OtherOutside Alone (fun s => ∀ t, 2 ≤ t → s.updaters t = none)
      (fun s a ha => hkeep s a (htwo s a ha)) otherOutside_alone separateUpdates _ (by decide +kernel)
      (fun _ _ => rfl)
  · intro t
    match t with
    | 0 => exact Option.isNone_iff_eq_none.mp (by decide +kernel)
    | 1 => exact Option.isNone_iff_eq_none.mp (by decide +kernel)
    | t+2 =>
      exact Schedule.invariant (step Decimal.ofInt) (UpdatersBelow 2)
        (fun s => ∀ t, 2 ≤ t → s.updaters t = none) hkeep separateUpdates _ (by decide +kernel)
        (fun _ _ => rfl) (t+2) (by omega)

end Runs
end Chronos.RiskParameterUpdate
