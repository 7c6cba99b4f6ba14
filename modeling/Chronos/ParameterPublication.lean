import Chronos.RiskParameterUpdate

/-!
# Updates by one thread

Two cold buffers, the active pointer, the write index and the hot copy are
changed in a fixed order by each call of `updateParameters`. When one thread
makes all the calls, each leaves the five of them in agreement, and until its
swap a call writes to the buffer that is not read.
-/

set_option autoImplicit false

namespace Chronos.RiskParameterUpdate
open RiskParameters HotParams
variable {F : Type} (toDecimal : F → Decimal)

def publish (m : ParameterStore F) (update : RiskParameters F × ℕ) : ParameterStore F :=
  finish toDecimal m { params := update.1, nowUs := update.2 } updateParameters

def publishAll (defaults : RiskParameters F) (updates : List (RiskParameters F × ℕ)) :
    ParameterStore F :=
  Schedule.run (publish toDecimal) updates (initialStore toDecimal defaults)

def lastParameters (defaults : RiskParameters F) (updates : List (RiskParameters F × ℕ)) :
    RiskParameters F :=
  (updates.getLast?.map Prod.fst).getD defaults

/-- What the store holds when its last set is `p`, after `n` updates. -/
structure Holds (m : ParameterStore F) (p : RiskParameters F) (n : ℕ) : Prop where
  parameters : getParameters m = p
  limits : m.hotParams = { buildHot toDecimal p with version := m.hotParams.version }
  even : m.hotParams.version%2 = 0
  version : m.hotParams.version = 2*n%2^64
  apart : m.activeCold ≠ m.writeIdx

theorem swap_indices (m : ParameterStore F) (c : Call F) :
    (finish toDecimal m c swapColdBuffers).activeCold = m.writeIdx ∧
      (finish toDecimal m c swapColdBuffers).writeIdx =
        if m.writeIdx = .zero then .one else .zero := by
  cases h : m.writeIdx <;>
    simp [finish, swapColdBuffers, eachWord, Schedule.run, access, Word.all, setBuffer, h]

theorem publish_indices (m : ParameterStore F) (update : RiskParameters F × ℕ) :
    (publish toDecimal m update).activeCold = m.writeIdx ∧
      (publish toDecimal m update).writeIdx = if m.writeIdx = .zero then .one else .zero := by
  rw [publish, finish, updateParameters, Schedule.run_append, Schedule.run_append, prepare_run,
    openCopy_run]
  exact swap_indices toDecimal _ _

theorem turned_ne (i : ColdIndex) : i ≠ if i = .zero then .one else .zero := by
  cases i <;> decide

theorem initial_holds (defaults : RiskParameters F) :
    Holds toDecimal (initialStore toDecimal defaults) defaults 0 := by
  constructor
  case parameters => rfl
  case limits => rfl
  case even => rfl
  case version => rfl
  case apart => exact fun h => by cases h

theorem publish_holds (m : ParameterStore F) (p : RiskParameters F) (n : ℕ)
    (update : RiskParameters F × ℕ) (h : Holds toDecimal m p n) :
    Holds toDecimal (publish toDecimal m update) update.1 (n+1) := by
  obtain ⟨hhot,hparams⟩ := finish_update toDecimal m { params := update.1, nowUs := update.2 }
  obtain ⟨hactive,hwrite⟩ := publish_indices toDecimal m update
  have hversion : (publish toDecimal m update).hotParams.version = 2*(n+1)%2^64 := by
    have hnext : (publish toDecimal m update).hotParams.version =
        ((m.hotParams.version+1)%2^64+1)%2^64 := congrArg HotParams.version hhot
    rw [hnext, h.version]
    omega
  constructor
  case parameters => exact hparams
  case limits =>
    rw [publish, hhot]
  case even => omega
  case version => exact hversion
  case apart =>
    rw [hactive, hwrite]
    exact turned_ne m.writeIdx

/-- Nothing but the last set and the number of updates is left of a sequence
of calls. -/
theorem publishAll_holds (defaults : RiskParameters F) (updates : List (RiskParameters F × ℕ)) :
    Holds toDecimal (publishAll toDecimal defaults updates) (lastParameters defaults updates)
      updates.length := by
  induction updates using List.reverseRecOn with
  | nil => exact initial_holds toDecimal defaults
  | append_singleton updates update ih =>
    have hlast : lastParameters defaults (updates++[update]) = update.1 := by
      simp [lastParameters]
    rw [publishAll, Schedule.run_append, hlast, List.length_append, List.length_singleton]
    exact publish_holds toDecimal _ _ _ update ih

section BeforeTheSwap

def KeepsIndices (a : Access) : Prop := a ≠ .storeActive ∧ a ≠ .storeWriteIdx

structure Directed (x : ParameterStore F × Call F) : Prop where
  buffer : x.2.buffer = x.1.writeIdx
  apart : x.1.activeCold ≠ x.1.writeIdx

def activeBuffer (m : ParameterStore F) : ColdIndex × ColdParams F :=
  (m.activeCold,m.coldBuffers m.activeCold)

theorem setBuffer_active (m : ParameterStore F) (i : ColdIndex) (p : ColdParams F)
    (h : m.activeCold ≠ i) : activeBuffer (setBuffer m i p) = activeBuffer m := by
  have hother : Function.update m.coldBuffers i p m.activeCold = m.coldBuffers m.activeCold :=
    Function.update_of_ne h p m.coldBuffers
  exact congrArg (Prod.mk m.activeCold) hother

theorem access_directed (x : ParameterStore F × Call F) (a : Access) (ha : KeepsIndices a)
    (h : Directed x) : Directed (access toDecimal x a) ∧
      activeBuffer (access toDecimal x a).1 = activeBuffer x.1 := by
  obtain ⟨hbuffer,hapart⟩ := h
  have hne : x.1.activeCold ≠ x.2.buffer := hbuffer ▸ hapart
  cases a with
  | loadWriteIdx => exact ⟨⟨rfl,hapart⟩,rfl⟩
  | storeParam f => exact ⟨⟨hbuffer,hapart⟩,setBuffer_active _ _ _ hne⟩
  | storeTime => exact ⟨⟨hbuffer,hapart⟩,setBuffer_active _ _ _ hne⟩
  | convert w => exact ⟨⟨hbuffer,hapart⟩,rfl⟩
  | storeHot w => exact ⟨⟨hbuffer,hapart⟩,setBuffer_active _ _ _ hne⟩
  | loadVersion => exact ⟨⟨hbuffer,hapart⟩,rfl⟩
  | storeDarkVersion => exact ⟨⟨hbuffer,hapart⟩,setBuffer_active _ _ _ hne⟩
  | storeVersion => exact ⟨⟨hbuffer,hapart⟩,rfl⟩
  | loadHot w => exact ⟨⟨hbuffer,hapart⟩,rfl⟩
  | storeShared w => exact ⟨⟨hbuffer,hapart⟩,rfl⟩
  | storeActive => exact absurd rfl ha.1
  | storeWriteIdx => exact absurd rfl ha.2
  | loadShared w => exact ⟨⟨hbuffer,hapart⟩,rfl⟩

theorem run_directed (as : List Access) (x : ParameterStore F × Call F)
    (has : ∀ a ∈ as, KeepsIndices a) (h : Directed x) :
    activeBuffer (Schedule.run (access toDecimal) as x).1 = activeBuffer x.1 := by
  induction as generalizing x with
  | nil => rfl
  | cons a as ih =>
    obtain ⟨ha,has⟩ := List.forall_mem_cons.mp has
    obtain ⟨hdirected,hactive⟩ := access_directed toDecimal x a ha h
    exact (ih _ has hdirected).trans hactive

def beforeSwap : List Access :=
  prepare++(.loadVersion::.storeVersion::copyHot)++[.loadVersion,.storeVersion,.loadWriteIdx]

theorem updateParameters_swap : updateParameters =
    beforeSwap++.storeActive::.loadWriteIdx::.storeWriteIdx::.loadWriteIdx::
      eachWord .loadShared .storeHot := rfl

theorem beforeSwap_keeps : ∀ a ∈ beforeSwap, KeepsIndices a := by
  simp [beforeSwap, prepare, copyHot, eachWord, Field.all, Word.all, KeepsIndices]

theorem beforeSwap_of_split (before rest : List Access) (h : before++rest = updateParameters)
    (hactive : Access.storeActive ∉ before) : ∃ more, beforeSwap = before++more := by
  rw [updateParameters_swap] at h
  rcases List.append_eq_append_iff.mp h with ⟨more,hmore,_⟩ | ⟨more,hmore,hrest⟩
  · exact ⟨more,hmore⟩
  · cases more with
    | nil => exact ⟨[],by simpa using hmore.symm⟩
    | cons a more =>
      obtain ⟨rfl,_⟩ := List.cons.inj hrest
      exact absurd (hmore ▸ by simp) hactive

/-- Until its swap a call writes to the buffer that is not read. -/
theorem beforeSwap_active (m : ParameterStore F) (hm : m.activeCold ≠ m.writeIdx) (c : Call F)
    (before rest : List Access) (h : before++rest = updateParameters)
    (hactive : Access.storeActive ∉ before) :
    activeBuffer (Schedule.run (access toDecimal) before (m,c)).1 = activeBuffer m := by
  obtain ⟨more,hmore⟩ := beforeSwap_of_split before rest h hactive
  cases before with
  | nil => rfl
  | cons a before =>
    -- the first access finds the write buffer
    obtain ⟨ha,_⟩ : a = .loadWriteIdx ∧ _ := List.cons.inj (h.trans updateParameters_swap)
    subst ha
    refine run_directed toDecimal before _ (fun a ha => beforeSwap_keeps a ?_) ⟨rfl,hm⟩
    rw [hmore]
    simp [ha]

end BeforeTheSwap

/-- After any sequence of calls by one thread the last set is returned, the
hot words are its conversion, the version is twice the number of updates
modulo `2^64`, the buffers are apart, and the next call leaves the buffer that
is read alone until its swap. -/
theorem updates_published (defaults : RiskParameters F) (updates : List (RiskParameters F × ℕ)) :
    Holds toDecimal (publishAll toDecimal defaults updates) (lastParameters defaults updates)
        updates.length ∧
      ∀ (c : Call F) (before rest : List Access), before++rest = updateParameters →
        Access.storeActive ∉ before →
        activeBuffer (Schedule.run (access toDecimal) before
          (publishAll toDecimal defaults updates,c)).1 =
            activeBuffer (publishAll toDecimal defaults updates) := by
  have hholds := publishAll_holds toDecimal defaults updates
  exact ⟨hholds,fun c before rest =>
    beforeSwap_active toDecimal _ hholds.apart c before rest⟩

section Wrap

def someParameters : RiskParameters ℤ := ⟨100000,500000,100,1000000,10000,20⟩

def manyUpdates : List (RiskParameters ℤ × ℕ) := List.replicate (2^63) (someParameters,0)

theorem manyUpdates_version :
    (publishAll Decimal.ofInt someParameters manyUpdates).hotParams.version ≠
      2*manyUpdates.length := by
  have hversion := (publishAll_holds Decimal.ofInt someParameters manyUpdates).version
  have hlength : manyUpdates.length = 2^63 := List.length_replicate
  rw [hversion, hlength]
  decide

end Wrap
end Chronos.RiskParameterUpdate
