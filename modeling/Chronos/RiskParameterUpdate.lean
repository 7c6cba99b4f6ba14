import Chronos.RiskEngine
import Chronos.Schedule

/-!
# Publishing risk parameters, one access at a time

`updateParameters` fills the dark cold buffer, converts it, copies the five
converted words over `hot_params_` between two version stores and swaps the
buffers. Each increment of the version is a load and a store, each copied
word likewise. The code has no branch, so a call is a fixed list of accesses
that works on a few local values; any number of threads run such calls.

The original parameters are binary floating-point numbers. Their type and
their conversion are parameters here: nothing depends on the rounding.
-/

set_option autoImplicit false

namespace Chronos

structure RiskParameters (F : Type) where
  maxOrderValue : F
  maxPositionValue : F
  maxOrdersPerSecond : ℕ
  maxTotalPositionValue : F
  minAvailableCapital : F
  maxDrawdownPercent : F
  deriving DecidableEq

namespace RiskParameters
variable {F : Type}

inductive Field where
  | maxOrderValue
  | maxPositionValue
  | maxOrdersPerSecond
  | maxTotalPositionValue
  | minAvailableCapital
  | maxDrawdownPercent
  deriving DecidableEq

def Field.all : List Field := [.maxOrderValue,.maxPositionValue,.maxOrdersPerSecond,
  .maxTotalPositionValue,.minAvailableCapital,.maxDrawdownPercent]

def copyField (src dst : RiskParameters F) : Field → RiskParameters F
  | .maxOrderValue => { dst with maxOrderValue := src.maxOrderValue }
  | .maxPositionValue => { dst with maxPositionValue := src.maxPositionValue }
  | .maxOrdersPerSecond => { dst with maxOrdersPerSecond := src.maxOrdersPerSecond }
  | .maxTotalPositionValue => { dst with maxTotalPositionValue := src.maxTotalPositionValue }
  | .minAvailableCapital => { dst with minAvailableCapital := src.minAvailableCapital }
  | .maxDrawdownPercent => { dst with maxDrawdownPercent := src.maxDrawdownPercent }

end RiskParameters

namespace HotParams

inductive Word where
  | maxOrderValue
  | maxPositionValue
  | maxTotalPositionValue
  | minAvailableCapital
  | maxOrdersPerSecond
  deriving DecidableEq

def Word.all : List Word := [.maxOrderValue,.maxPositionValue,.maxTotalPositionValue,
  .minAvailableCapital,.maxOrdersPerSecond]

def copyWord (src dst : HotParams) : Word → HotParams
  | .maxOrderValue => { dst with maxOrderValue := src.maxOrderValue }
  | .maxPositionValue => { dst with maxPositionValue := src.maxPositionValue }
  | .maxTotalPositionValue => { dst with maxTotalPositionValue := src.maxTotalPositionValue }
  | .minAvailableCapital => { dst with minAvailableCapital := src.minAvailableCapital }
  | .maxOrdersPerSecond => { dst with maxOrdersPerSecond := src.maxOrdersPerSecond }

theorem copyWord_version (src dst : HotParams) (w : Word) :
    (copyWord src dst w).version = dst.version := by
  cases w <;> rfl

end HotParams

structure ColdParams (F : Type) where
  params : RiskParameters F
  hot : HotParams := {}
  updateTimeUs : ℕ := 0

inductive ColdIndex where
  | zero
  | one
  deriving DecidableEq

structure ParameterStore (F : Type) where
  hotParams : HotParams
  coldBuffers : ColdIndex → ColdParams F
  activeCold : ColdIndex := .zero
  writeIdx : ColdIndex := .one

namespace RiskParameterUpdate
open RiskParameters HotParams
variable {F : Type} (toDecimal : F → Decimal)

def buildHot (p : RiskParameters F) : HotParams where
  maxOrderValue := toDecimal p.maxOrderValue
  maxPositionValue := toDecimal p.maxPositionValue
  maxTotalPositionValue := toDecimal p.maxTotalPositionValue
  minAvailableCapital := toDecimal p.minAvailableCapital
  maxOrdersPerSecond := p.maxOrdersPerSecond

def initialStore (defaults : RiskParameters F) : ParameterStore F where
  hotParams := buildHot toDecimal defaults
  coldBuffers _ := { params := defaults, hot := buildHot toDecimal defaults }

def getParameters (m : ParameterStore F) : RiskParameters F := (m.coldBuffers m.activeCold).params

inductive Access where
  | loadWriteIdx
  | storeParam (f : Field)
  | storeTime
  | convert (w : Word)
  | storeHot (w : Word)
  | loadVersion
  | storeDarkVersion
  | storeVersion
  | loadHot (w : Word)
  | storeShared (w : Word)
  | storeActive
  | storeWriteIdx
  | loadShared (w : Word)

/-- The arguments and the local values of a call: the buffer a pointer stands
for, a loaded version and the word under way in a copy. -/
structure Call (F : Type) where
  params : RiskParameters F
  nowUs : ℕ
  buffer : ColdIndex := .zero
  version : ℕ := 0
  word : HotParams := {}

def setBuffer (m : ParameterStore F) (i : ColdIndex) (c : ColdParams F) : ParameterStore F :=
  { m with coldBuffers := Function.update m.coldBuffers i c }

def access (x : ParameterStore F × Call F) (a : Access) : ParameterStore F × Call F :=
  let m := x.1
  let c := x.2
  let dark := m.coldBuffers c.buffer
  match a with
  | .loadWriteIdx => (m,{ c with buffer := m.writeIdx })
  | .storeParam f => (setBuffer m c.buffer { dark with params := copyField c.params dark.params f },c)
  | .storeTime => (setBuffer m c.buffer { dark with updateTimeUs := c.nowUs },c)
  | .convert w => (m,{ c with word := copyWord (buildHot toDecimal dark.params) c.word w })
  | .storeHot w => (setBuffer m c.buffer { dark with hot := copyWord c.word dark.hot w },c)
  | .loadVersion => (m,{ c with version := m.hotParams.version })
  | .storeDarkVersion =>
    (setBuffer m c.buffer { dark with hot := { dark.hot with version := (c.version+1)%2^64 } },c)
  | .storeVersion =>
    ({ m with hotParams := { m.hotParams with version := (c.version+1)%2^64 } },c)
  | .loadHot w => (m,{ c with word := copyWord dark.hot c.word w })
  | .storeShared w => ({ m with hotParams := copyWord c.word m.hotParams w },c)
  | .storeActive => ({ m with activeCold := c.buffer },c)
  | .storeWriteIdx => ({ m with writeIdx := if c.buffer = .zero then .one else .zero },c)
  | .loadShared w => (m,{ c with word := copyWord m.hotParams c.word w })

def eachWord (read write : Word → Access) : List Access := Word.all.flatMap (fun w => [read w,write w])

def swapColdBuffers : List Access :=
  .loadWriteIdx::.storeActive::.loadWriteIdx::.storeWriteIdx::.loadWriteIdx::eachWord .loadShared .storeHot

def prepare : List Access :=
  .loadWriteIdx::(Field.all.map .storeParam).append
    (.storeTime::.loadWriteIdx::(eachWord .convert .storeHot).append [.loadVersion,.storeDarkVersion])

def copyHot : List Access := eachWord .loadHot .storeShared

def updateParameters : List Access :=
  prepare++(.loadVersion::.storeVersion::copyHot)++(.loadVersion::.storeVersion::swapColdBuffers)

def finish (m : ParameterStore F) (c : Call F) (rest : List Access) : ParameterStore F :=
  (Schedule.run (access toDecimal) rest (m,c)).1

/-- What `updateParameters` leaves to its callers: an even version, and the
hot words are the conversion of what `getParameters` returns. -/
structure Coherent (m : ParameterStore F) : Prop where
  even : m.hotParams.version%2 = 0
  words : m.hotParams = { buildHot toDecimal (getParameters m) with version := m.hotParams.version }

theorem prepare_run (m : ParameterStore F) (c : Call F) :
    Schedule.run (access toDecimal) prepare (m,c) =
      (setBuffer m m.writeIdx
        { params := c.params
          updateTimeUs := c.nowUs
          hot := { buildHot toDecimal c.params with version := (m.hotParams.version+1)%2^64 } },
        { c with
          buffer := m.writeIdx
          version := m.hotParams.version
          word := { buildHot toDecimal c.params with version := c.word.version } }) := by
  simp [prepare, eachWord, Schedule.run, access, Field.all, Word.all, setBuffer, copyField, copyWord,
    buildHot]

theorem copyHot_run (m : ParameterStore F) (c : Call F) :
    Schedule.run (access toDecimal) copyHot (m,c) =
      ({ m with hotParams := { (m.coldBuffers c.buffer).hot with version := m.hotParams.version } },
        { c with word := { (m.coldBuffers c.buffer).hot with version := c.word.version } }) := by
  simp [copyHot, eachWord, Schedule.run, access, Word.all, copyWord]

theorem openCopy_run (m : ParameterStore F) (c : Call F) :
    Schedule.run (access toDecimal) (.loadVersion::.storeVersion::copyHot) (m,c) =
      ({ m with hotParams :=
          { (m.coldBuffers c.buffer).hot with version := (m.hotParams.version+1)%2^64 } },
        { c with
          version := m.hotParams.version
          word := { (m.coldBuffers c.buffer).hot with version := c.word.version } }) :=
  copyHot_run toDecimal _ _

/-- The swap leaves the hot words alone and activates the buffer just filled. -/
theorem swap_run (m : ParameterStore F) (c : Call F) :
    (finish toDecimal m c swapColdBuffers).hotParams = m.hotParams ∧
      getParameters (finish toDecimal m c swapColdBuffers) = (m.coldBuffers m.writeIdx).params := by
  cases h : m.writeIdx <;>
    simp [finish, swapColdBuffers, eachWord, Schedule.run, access, Word.all, setBuffer, copyWord,
      getParameters, h]

/-- A call that nobody disturbs publishes its own parameters. -/
theorem finish_update (m : ParameterStore F) (c : Call F) :
    (finish toDecimal m c updateParameters).hotParams =
        { buildHot toDecimal c.params with version := ((m.hotParams.version+1)%2^64+1)%2^64 } ∧
      getParameters (finish toDecimal m c updateParameters) = c.params := by
  rw [finish, updateParameters, Schedule.run_append, Schedule.run_append, prepare_run, openCopy_run]
  refine (swap_run toDecimal _ _).imp (fun h => h.trans ?_) (fun h => h.trans ?_)
  · simp [access, setBuffer]
  · simp [access, setBuffer]

theorem update_coherent (m : ParameterStore F) (c : Call F) (h : Coherent toDecimal m) :
    Coherent toDecimal (finish toDecimal m c updateParameters) := by
  obtain ⟨hw,hp⟩ := finish_update toDecimal m c
  have he := h.even
  constructor
  case even =>
    rw [hw]
    change ((m.hotParams.version+1)%2^64+1)%2^64%2 = 0
    omega
  case words => rw [hp, hw]

theorem initial_coherent (defaults : RiskParameters F) :
    Coherent toDecimal (initialStore toDecimal defaults) := ⟨rfl,rfl⟩

end RiskParameterUpdate
end Chronos
