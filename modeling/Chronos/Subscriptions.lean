import Chronos.KeyedTable

/-!
# Symbol numbers of an adapter

`ThinMuxAdapter` numbers the symbols it subscribes to, from one on, each
adapter for itself. A symbol that was unsubscribed keeps its number in the
map, and a new subscription gives it another one.
-/

set_option autoImplicit false

namespace Chronos.MarketDataProtocols
open KeyedTable

def BinanceJsonProtocol.normalizeSymbol (raw : String) : String := raw.map Char.toLower

def OKXJsonProtocol.normalizeSymbol (raw : String) : String :=
  raw.map (fun c => if c.toUpper = '_' then '-' else c.toUpper)

namespace ThinMuxAdapter

structure SubState where
  subscribed : List String := []
  symbolToId : Table String ℕ := .empty
  nextSymbolId : ℕ := 1

section Calls
variable (normalizeSymbol : String → String) (sub : SubState)

def subscribe (symbol : String) : SubState :=
  let norm := normalizeSymbol symbol
  if sub.subscribed.contains norm then sub
  else {
    subscribed := norm::sub.subscribed
    symbolToId := sub.symbolToId.assign norm sub.nextSymbolId
    nextSymbolId := (sub.nextSymbolId+1)%2^32 }

def unsubscribe (symbol : String) : SubState :=
  { sub with subscribed := sub.subscribed.filter (fun s => s ≠ normalizeSymbol symbol) }

def resolveSymbolId (symbol : String) : ℕ := (sub.symbolToId.find (normalizeSymbol symbol)).getD 0

end Calls
end ThinMuxAdapter
end Chronos.MarketDataProtocols
