import Chronos.Json
import Chronos.PositionConservation

/-!
# Saving and loading positions

`toJson` writes an array with one object for each position that is not flat.
`fromJson` clears the map, reads the entries one after the other and skips
those that lack a field; a field of the wrong type throws. The file is given
by its text, and the parser of the text is a parameter.
-/

set_option autoImplicit false

namespace Chronos.PositionManager
open KeyedTable

inductive TypeError where
  | notANumber
  deriving DecidableEq

section Conversion
variable {F : Type} (trunc : F → ℤ)

def getInt64 : Json F → Except TypeError Decimal
  | .integer z => .ok (Decimal.wrap z)
  | .float x => .ok (Decimal.wrap (trunc x))
  | _ => .error .notANumber

def getUInt64 : Json F → Except TypeError ℕ
  | .integer z => .ok (z%2^64).toNat
  | .float x => .ok (trunc x%2^64).toNat
  | _ => .error .notANumber

def getUInt32 : Json F → Except TypeError ℕ
  | .integer z => .ok (z%2^32).toNat
  | .float x => .ok (trunc x%2^32).toNat
  | .bool b => .ok b.toNat
  | _ => .error .notANumber

def entryJson (pos : Position Decimal) : Json F := .object
  [("symbol_id",.integer pos.symbolId),
    ("quantity_raw",.integer pos.quantity.raw),
    ("average_price_raw",.integer pos.averagePrice.raw),
    ("realized_pnl_raw",.integer pos.realizedPnl.raw),
    ("last_update_us",.integer pos.lastUpdateUs)]

def toJson (pm : PositionManager) : Json F :=
  .array ((pm.positions.entries.filter (fun x => x.2.quantity ≠ 0)).map (fun x => entryJson x.2))

def lastUpdate (entry : Json F) : Except TypeError ℕ :=
  match entry.field "last_update_us" with
  | some v => getUInt64 trunc v
  | none => .ok 0

def readPosition (entry : Json F) : Except TypeError (Option (Position Decimal)) :=
  match entry.field "symbol_id",entry.field "quantity_raw",entry.field "average_price_raw",
    entry.field "realized_pnl_raw" with
  | some symbolId,some quantity,some averagePrice,some realizedPnl => do
    let symbolId ← getUInt32 trunc symbolId
    let quantity ← getInt64 trunc quantity
    let averagePrice ← getInt64 trunc averagePrice
    let realizedPnl ← getInt64 trunc realizedPnl
    let lastUpdateUs ← lastUpdate trunc entry
    return some { symbolId, quantity, averagePrice, realizedPnl, lastUpdateUs }
  | _,_,_,_ => .ok none

/-- The loop, from the map it starts with; what it assigned before an entry
threw stays. -/
def loadEntries : List (Json F) → Table ℕ (Position Decimal) →
    Table ℕ (Position Decimal) × Except TypeError Unit
  | [], t => (t,.ok ())
  | entry::entries, t =>
    match readPosition trunc entry with
    | .error e => (t,.error e)
    | .ok none => loadEntries entries t
    | .ok (some p) => loadEntries entries (t.assign p.symbolId p)

variable [NearestDivision.NearestDiv]

def fromJson (pm : PositionManager) : Json F → PositionManager × Except TypeError Bool
  | .array entries =>
    match loadEntries trunc entries .empty with
    | (positions,.ok ()) => (recalcTotalValue { pm with positions := positions },.ok true)
    | (positions,.error e) => ({ pm with positions := positions },.error e)
  | _ => (pm,.ok false)

/-- `loadPositions`, for the text of the file, if it can be opened, and the
parser, which fails where the library's throws. -/
def loadPositions (parse : String → Option (Json F)) (pm : PositionManager) :
    Option String → PositionManager × Bool
  | none => (pm,false)
  | some text =>
    match parse text with
    | none => (pm,false)
    | some j =>
      match pm.fromJson trunc j with
      | (pm',.ok ok) => (pm',ok)
      | (pm',.error _) => (pm',false)

end Conversion

end Chronos.PositionManager
