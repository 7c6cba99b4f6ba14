import Chronos.Schedule
import Chronos.OrderGateway
import Chronos.Subscriptions

/-!
# Numbers of a symbol over whole histories

Two adapters number symbols in one map: `ThinMuxAdapter` when it subscribes,
`BinanceAdapter` also for the streams its URL names. Beside the adapter's
state the history keeps every number a symbol was seen with, how many were
assigned, and the symbols in the order they were first subscribed.
-/

set_option autoImplicit false

namespace Chronos
open KeyedTable MarketDataProtocols ThinMuxAdapter

namespace BinanceAdapter

def normalizeSymbol (symbol : String) : String := symbol.map Char.toLower

def behind (pattern : List Char) : List Char → Option (List Char)
  | [] => if pattern = [] then some [] else none
  | c::cs => if pattern.isPrefixOf (c::cs) then some ((c::cs).drop pattern.length)
    else behind pattern cs

def wsUrl (websocketUrl : String) : String :=
  if websocketUrl = "" then "wss://stream.binance.com:9443/ws" else websocketUrl

def wsPath (websocketUrl : String) : List Char :=
  let whole := (wsUrl websocketUrl).toList
  let url := if "wss://".toList.isPrefixOf whole then whole.drop 6
    else if "ws://".toList.isPrefixOf whole then whole.drop 5 else whole
  let path := url.dropWhile (fun c => c ≠ '/')
  if path = [] then "/ws".toList else path

def streamSymbol (stream : List Char) : Option String :=
  if '@' ∈ stream then some (normalizeSymbol (String.ofList (stream.takeWhile (fun c => c ≠ '@'))))
  else none

/-- The symbols `initialize` finds in a combined stream URL, in order. -/
def streamSymbols (websocketUrl : String) : List String :=
  let path := wsPath websocketUrl
  if (behind "streams=".toList path).isNone then []
  else match behind ['?'] path with
    | none => []
    | some query => match behind "streams=".toList query with
      | none => []
      | some streams => (streams.splitOn '/').filterMap streamSymbol

section Calls
variable (sub : SubState)

/-- `symbol_to_id_[sym] = next_symbol_id_++` -/
def number (norm : String) : SubState := {
  sub with
  symbolToId := sub.symbolToId.assign norm sub.nextSymbolId
  nextSymbolId := (sub.nextSymbolId+1)%2^32 }

def preRegister (sym : String) : SubState :=
  if sub.symbolToId.find sym = none then number sub sym else sub

def subscribe (symbol : String) (sent : Bool) : SubState :=
  let norm := normalizeSymbol symbol
  if sub.subscribed.contains norm then sub
  else
    let numbered := number sub norm
    if sent then { numbered with subscribed := norm::numbered.subscribed } else numbered

def unsubscribe (symbol : String) (sent : Bool) : SubState :=
  let norm := normalizeSymbol symbol
  if !sub.subscribed.contains norm then sub
  else if sent then { sub with subscribed := sub.subscribed.filter (fun s => s ≠ norm) } else sub

end Calls

example : streamSymbols "wss://stream.binance.com:9443/stream?streams=BTCUSDT@depth/ethusdt@trade" =
    ["btcusdt","ethusdt"] := by decide +kernel

end BinanceAdapter

namespace SymbolNumbers

/-- An adapter's numbering with its history. -/
structure History where
  sub : SubState := {}
  seen : List (String × ℕ) := []
  assigned : ℕ := 0
  firsts : List String := []

namespace History
variable (h : History)

def note (norm : String) (sub : SubState) : History := {
  h with
  sub := sub
  seen := h.seen++((sub.symbolToId.find norm).map (fun id => (norm,id))).toList
  assigned := if sub.nextSymbolId = h.sub.nextSymbolId then h.assigned else h.assigned+1 }

def asked (norm : String) : List String :=
  if norm ∈ h.firsts then h.firsts else h.firsts++[norm]

end History

inductive MuxCall where
  | subscribe (symbol : String)
  | unsubscribe (symbol : String)

def muxStep (normalizeSymbol : String → String) (h : History) : MuxCall → History
  | .subscribe symbol =>
    let norm := normalizeSymbol symbol
    { h.note norm (ThinMuxAdapter.subscribe normalizeSymbol h.sub symbol) with firsts := h.asked norm }
  | .unsubscribe symbol =>
    h.note (normalizeSymbol symbol) (ThinMuxAdapter.unsubscribe normalizeSymbol h.sub symbol)

/-- Each stream of the URL is a call of its own. -/
inductive BinanceCall where
  | preRegister (sym : String)
  | subscribe (symbol : String) (sent : Bool)
  | unsubscribe (symbol : String) (sent : Bool)

def binanceStep (h : History) : BinanceCall → History
  | .preRegister sym => h.note sym (BinanceAdapter.preRegister h.sub sym)
  | .subscribe symbol sent =>
    let norm := BinanceAdapter.normalizeSymbol symbol
    { h.note norm (BinanceAdapter.subscribe h.sub symbol sent) with firsts := h.asked norm }
  | .unsubscribe symbol sent =>
    h.note (BinanceAdapter.normalizeSymbol symbol) (BinanceAdapter.unsubscribe h.sub symbol sent)

def binanceCalls (websocketUrl : String) (calls : List BinanceCall) : List BinanceCall :=
  (BinanceAdapter.streamSymbols websocketUrl).map (fun sym => BinanceCall.preRegister sym)++calls

section Law
variable (c : GatewaySetup) (normalizeSymbol : String → String)

def configured : List String := c.symbols.map normalizeSymbol

/-- Numbers are kept and tell symbols apart; symbols first subscribed in the
order of the configuration have their place in it as number, and once they
all are, every number leads back to its symbol. -/
structure Stable (h : History) : Prop where
  kept : ∀ n id, (n,id) ∈ h.seen → h.sub.symbolToId.find n = some id
  injective : ∀ n m id, h.sub.symbolToId.find n = some id → h.sub.symbolToId.find m = some id → n = m
  placed : h.firsts <+: configured c normalizeSymbol →
    ∀ i n, h.firsts[i]? = some n → h.sub.symbolToId.find n = some (i+1)
  named : h.firsts = configured c normalizeSymbol → ∀ n id, h.sub.symbolToId.find n = some id →
    c.symbolIdToName id ∈ c.symbols ∧ normalizeSymbol (c.symbolIdToName id) = n

structure MayNumber (h : History) (n : String) (firsts : List String) : Prop where
  unnumbered : h.sub.symbolToId.find n = none ∧ h.assigned < 2^32 ∨
    h.sub.symbolToId.find n = some h.sub.nextSymbolId
  inTurn : n ∉ h.firsts → n ∈ firsts → firsts <+: configured c normalizeSymbol →
    h.sub.nextSymbolId = firsts.length
  onlyConfigured : firsts = configured c normalizeSymbol →
    n ∈ firsts ∧ ∀ m, h.sub.symbolToId.find m ≠ none → m ∈ firsts

def MuxOk (h : History) : MuxCall → Prop
  | .subscribe symbol => normalizeSymbol symbol ∉ h.sub.subscribed →
      MayNumber c normalizeSymbol h (normalizeSymbol symbol) (h.asked (normalizeSymbol symbol))
  | .unsubscribe _ => True

def BinanceOk (h : History) : BinanceCall → Prop
  | .preRegister sym => h.sub.symbolToId.find sym = none →
      MayNumber c BinanceAdapter.normalizeSymbol h sym h.firsts
  | .subscribe symbol _ => BinanceAdapter.normalizeSymbol symbol ∉ h.sub.subscribed →
      MayNumber c BinanceAdapter.normalizeSymbol h (BinanceAdapter.normalizeSymbol symbol)
        (h.asked (BinanceAdapter.normalizeSymbol symbol))
  | .unsubscribe _ _ => True

end Law

structure Recorded (h : History) : Prop where
  subscribed : ∀ n ∈ h.sub.subscribed, n ∈ h.firsts
  numbered : ∀ n ∈ h.firsts, h.sub.symbolToId.find n ≠ none
  found : ∀ n id, h.sub.symbolToId.find n = some id → (n,id) ∈ h.seen
  next : h.sub.nextSymbolId = (h.assigned+1)%2^32
  given : ∀ k < h.assigned, ∃ n, (n,(k+1)%2^32) ∈ h.seen
  range : ∀ p ∈ h.seen, ∃ k < h.assigned, p.2 = (k+1)%2^32

structure Rests (h h' : History) : Prop where
  find : ∀ m, h'.sub.symbolToId.find m = h.sub.symbolToId.find m
  nextId : h'.sub.nextSymbolId = h.sub.nextSymbolId
  assigned : h'.assigned = h.assigned
  firsts : h'.firsts = h.firsts
  subscribed : ∀ m ∈ h'.sub.subscribed, m ∈ h.sub.subscribed
  seen : ∃ more, h'.seen = h.seen++more ∧ ∀ p ∈ more, h.sub.symbolToId.find p.1 = some p.2

structure Numbers (h h' : History) (n : String) (order : List String) : Prop where
  find : ∀ m, h'.sub.symbolToId.find m = if n = m then some h.sub.nextSymbolId
    else h.sub.symbolToId.find m
  nextId : h'.sub.nextSymbolId = (h.sub.nextSymbolId+1)%2^32
  assigned : h'.assigned = h.assigned+1
  firsts : h'.firsts = order
  grown : order = h.firsts ∨ order = h.asked n
  subscribed : ∀ m ∈ h'.sub.subscribed, m ∈ h.sub.subscribed ∨ m = n ∧ n ∈ order
  seen : h'.seen = h.seen++[(n,h.sub.nextSymbolId)]

theorem mem_asked (h : History) (n m : String) : m ∈ h.asked n ↔ m ∈ h.firsts ∨ m = n := by
  rw [History.asked]
  split_ifs with hn
  · constructor
    · exact Or.inl
    · rintro (hm | rfl)
      · exact hm
      · exact hn
  · simp

theorem Numbers.order {h h' : History} {n : String} {order : List String} (hs : Numbers h h' n order) :
    order = h.firsts ∨ n ∉ h.firsts ∧ order = h.firsts++[n] := by
  rcases hs.grown with he | he
  · exact Or.inl he
  · rw [History.asked] at he
    split_ifs at he with hn
    · exact Or.inl he
    · exact Or.inr ⟨hn,he⟩

theorem Rests.recorded {h h' : History} (hs : Rests h h') (hr : Recorded h) : Recorded h' := by
  obtain ⟨more,hseen,hmore⟩ := hs.seen
  constructor
  · intro n hn
    rw [hs.firsts]
    exact hr.subscribed n (hs.subscribed n hn)
  · intro n hn
    rw [hs.find]
    exact hr.numbered n (hs.firsts ▸ hn)
  · intro n id hf
    rw [hs.find] at hf
    rw [hseen]
    exact List.mem_append_left _ (hr.found n id hf)
  · rw [hs.nextId, hs.assigned]
    exact hr.next
  · intro k hk
    obtain ⟨n,hn⟩ := hr.given k (hs.assigned ▸ hk)
    exact ⟨n,hseen ▸ List.mem_append_left _ hn⟩
  · intro p hp
    rw [hseen, List.mem_append] at hp
    rw [hs.assigned]
    rcases hp with hp | hp
    · exact hr.range p hp
    · exact hr.range p (hr.found p.1 p.2 (hmore p hp))

theorem Numbers.recorded {h h' : History} {n : String} {order : List String}
    (hs : Numbers h h' n order) (hr : Recorded h) : Recorded h' := by
  constructor
  · intro m hm
    rw [hs.firsts]
    rcases hs.subscribed m hm with hm | ⟨rfl,hm⟩
    · have hfirst := hr.subscribed m hm
      rcases hs.order with he | ⟨-,he⟩
      · exact he ▸ hfirst
      · exact he ▸ List.mem_append_left _ hfirst
    · exact hm
  · intro m hm
    rw [hs.firsts] at hm
    rw [hs.find]
    split_ifs with hn
    · simp
    · rcases hs.order with he | ⟨-,he⟩
      · exact hr.numbered m (he ▸ hm)
      · rw [he, List.mem_append, List.mem_singleton] at hm
        exact hr.numbered m (hm.resolve_right (fun e => hn e.symm))
  · intro m id hf
    rw [hs.find] at hf
    rw [hs.seen, List.mem_append]
    split_ifs at hf with hn
    · exact Or.inr (by simp [← hn, Option.some.inj hf])
    · exact Or.inl (hr.found m id hf)
  · rw [hs.nextId, hs.assigned, hr.next]
    omega
  · intro k hk
    rw [hs.assigned] at hk
    rw [hs.seen]
    rcases Nat.lt_succ_iff_lt_or_eq.mp hk with hk | rfl
    · obtain ⟨m,hm⟩ := hr.given k hk
      exact ⟨m,List.mem_append_left _ hm⟩
    · exact ⟨n,List.mem_append_right _ (by simp [hr.next])⟩
  · intro p hp
    rw [hs.seen, List.mem_append, List.mem_singleton] at hp
    rw [hs.assigned]
    rcases hp with hp | rfl
    · obtain ⟨k,hk,he⟩ := hr.range p hp
      exact ⟨k,by omega,he⟩
    · exact ⟨h.assigned,by omega,hr.next⟩

section Steps
variable (c : GatewaySetup) (normalizeSymbol : String → String)

theorem Rests.stable {h h' : History} (hs : Rests h h') (hg : Stable c normalizeSymbol h) :
    Stable c normalizeSymbol h' := by
  obtain ⟨more,hseen,hmore⟩ := hs.seen
  constructor
  · intro n id hn
    rw [hseen, List.mem_append] at hn
    rw [hs.find]
    rcases hn with hn | hn
    · exact hg.kept n id hn
    · exact hmore (n,id) hn
  · intro n m id hn hm
    rw [hs.find] at hn hm
    exact hg.injective n m id hn hm
  · intro hp i n hn
    rw [hs.firsts] at hp hn
    rw [hs.find]
    exact hg.placed hp i n hn
  · intro hp n id hn
    rw [hs.firsts] at hp
    rw [hs.find] at hn
    exact hg.named hp n id hn

/-- When no symbol is renumbered, fewer than `2^32` numbers were given or the
next one belongs to somebody. -/
theorem unnumbered_of_kept {h h' : History} {n : String} {order : List String}
    (hr : Recorded h) (hg : Stable c normalizeSymbol h) (hs : Numbers h h' n order)
    (hg' : Stable c normalizeSymbol h') :
    h.sub.symbolToId.find n = none ∧ h.assigned < 2^32 ∨
      h.sub.symbolToId.find n = some h.sub.nextSymbolId := by
  have hnew : h'.sub.symbolToId.find n = some h.sub.nextSymbolId := by rw [hs.find, if_pos rfl]
  cases hf : h.sub.symbolToId.find n with
  | none =>
    refine Or.inl ⟨rfl,?_⟩
    by_contra hbig
    obtain ⟨m,hm⟩ := hr.given (h.assigned-2^32) (by omega)
    have hnext : (h.assigned-2^32+1)%2^32 = h.sub.nextSymbolId := by
      rw [hr.next]
      omega
    rw [hnext] at hm
    have hkept := hg'.kept m _ (hs.seen ▸ List.mem_append_left _ hm)
    have heq := hg'.injective n m _ hnew hkept
    have hfm := hg.kept m _ hm
    rw [← heq, hf] at hfm
    cases hfm
  | some id =>
    have hkept := hg'.kept n id (hs.seen ▸ List.mem_append_left _ (hr.found n id hf))
    rw [hnew] at hkept
    exact Or.inr hkept.symm

/-- A new number is nobody else's. -/
theorem next_unused {h : History} {n m : String} (hr : Recorded h)
    (hg : Stable c normalizeSymbol h)
    (hn : h.sub.symbolToId.find n = none ∧ h.assigned < 2^32 ∨
      h.sub.symbolToId.find n = some h.sub.nextSymbolId)
    (hm : h.sub.symbolToId.find m = some h.sub.nextSymbolId) : n = m := by
  rcases hn with ⟨-,hsmall⟩ | hn
  · obtain ⟨k,hk,he⟩ := hr.range _ (hr.found m _ hm)
    have hnext := hr.next
    dsimp only at he
    omega
  · exact hg.injective n m _ hn hm

theorem find_kept {h h' : History} {n m : String} {order : List String} {id : ℕ}
    (hs : Numbers h h' n order)
    (hn : h.sub.symbolToId.find n = none ∧ h.assigned < 2^32 ∨
      h.sub.symbolToId.find n = some h.sub.nextSymbolId)
    (hm : h.sub.symbolToId.find m = some id) : h'.sub.symbolToId.find m = some id := by
  rw [hs.find]
  split_ifs with he
  · subst he
    rcases hn with ⟨hn,-⟩ | hn
    · rw [hn] at hm
      cases hm
    · rw [← hn, hm]
  · exact hm

/-- A symbol at its place in the configuration is the name of its number. -/
theorem name_of_place (i : ℕ) (n : String)
    (hn : (configured c normalizeSymbol)[i]? = some n) :
    c.symbolIdToName (i+1) ∈ c.symbols ∧ normalizeSymbol (c.symbolIdToName (i+1)) = n := by
  rw [configured, List.getElem?_map, Option.map_eq_some_iff] at hn
  obtain ⟨raw,hraw,rfl⟩ := hn
  have hi := (List.getElem?_eq_some_iff.mp hraw).1
  have hname : c.symbolIdToName (i+1) = raw := by
    rw [GatewaySetup.symbolIdToName, if_neg (by omega), Nat.add_sub_cancel,
      List.getD_eq_getElem?_getD, hraw, Option.getD_some]
  rw [hname]
  exact ⟨List.mem_of_getElem? hraw,rfl⟩

theorem mem_configured {c : GatewaySetup} {normalizeSymbol : String → String} {id : ℕ} {n : String}
    (hn : c.symbolIdToName id ∈ c.symbols ∧ normalizeSymbol (c.symbolIdToName id) = n) :
    n ∈ configured c normalizeSymbol :=
  List.mem_map.mpr ⟨_,hn.1,hn.2⟩

theorem mayNumber_of_stable {h h' : History} {n : String} {order : List String}
    (hr : Recorded h) (hg : Stable c normalizeSymbol h) (hs : Numbers h h' n order)
    (hg' : Stable c normalizeSymbol h') : MayNumber c normalizeSymbol h n order := by
  have hnew : h'.sub.symbolToId.find n = some h.sub.nextSymbolId := by rw [hs.find, if_pos rfl]
  constructor
  · exact unnumbered_of_kept c normalizeSymbol hr hg hs hg'
  · intro hn ho hp
    rcases hs.order with he | ⟨-,he⟩
    · exact absurd (he ▸ ho) hn
    · have hplaced := hg'.placed (hs.firsts ▸ hp) h.firsts.length n (by rw [hs.firsts, he]; simp)
      rw [hnew, Option.some.injEq] at hplaced
      rw [hplaced, he, List.length_append, List.length_singleton]
  · intro ho
    have hnamed := hg'.named (hs.firsts.trans ho)
    constructor
    · rw [ho]
      exact mem_configured (hnamed n _ hnew)
    · intro m hm
      have hm' : h'.sub.symbolToId.find m ≠ none := by
        rw [hs.find]
        split_ifs
        · simp
        · exact hm
      obtain ⟨id,hid⟩ := Option.ne_none_iff_exists'.mp hm'
      rw [ho]
      exact mem_configured (hnamed m id hid)

theorem placed_of_mayNumber {h h' : History} {n : String} {order : List String}
    (hg : Stable c normalizeSymbol h) (hs : Numbers h h' n order)
    (hok : MayNumber c normalizeSymbol h n order) (hp : order <+: configured c normalizeSymbol)
    (i : ℕ) (m : String) (hm : order[i]? = some m) : h'.sub.symbolToId.find m = some (i+1) := by
  rcases hs.order with he | ⟨hn,he⟩
  · subst he
    exact find_kept hs hok.unnumbered (hg.placed hp i m hm)
  · have hprefix : h.firsts <+: configured c normalizeSymbol :=
      (List.prefix_append h.firsts [n]).trans (he ▸ hp)
    rw [he] at hm
    rcases Nat.lt_or_ge i h.firsts.length with hi | hi
    · rw [List.getElem?_append_left hi] at hm
      exact find_kept hs hok.unnumbered (hg.placed hprefix i m hm)
    · rw [List.getElem?_append_right hi] at hm
      have hlast : i = h.firsts.length := by
        have hlt := (List.getElem?_eq_some_iff.mp hm).1
        rw [List.length_singleton] at hlt
        omega
      subst hlast
      rw [Nat.sub_self, List.getElem?_cons_zero, Option.some.injEq] at hm
      subst hm
      have hturn := hok.inTurn hn (by rw [he]; simp) hp
      rw [he, List.length_append, List.length_singleton] at hturn
      rw [hs.find, if_pos rfl, hturn]

theorem stable_of_mayNumber {h h' : History} {n : String} {order : List String}
    (hr : Recorded h) (hg : Stable c normalizeSymbol h) (hs : Numbers h h' n order)
    (hok : MayNumber c normalizeSymbol h n order) : Stable c normalizeSymbol h' := by
  constructor
  · intro m id hm
    rw [hs.seen, List.mem_append, List.mem_singleton] at hm
    rcases hm with hm | hm
    · exact find_kept hs hok.unnumbered (hg.kept m id hm)
    · obtain ⟨rfl,rfl⟩ := Prod.mk.inj hm
      rw [hs.find, if_pos rfl]
  · intro a b id ha hb
    rw [hs.find] at ha hb
    split_ifs at ha with hna
    · split_ifs at hb with hnb
      · exact hna.symm.trans hnb
      · rw [← hna]
        exact next_unused c normalizeSymbol hr hg hok.unnumbered (hb.trans ha.symm)
    · split_ifs at hb with hnb
      · rw [← hnb]
        exact (next_unused c normalizeSymbol hr hg hok.unnumbered (ha.trans hb.symm)).symm
      · exact hg.injective a b id ha hb
  · intro hp
    rw [hs.firsts] at hp ⊢
    exact placed_of_mayNumber c normalizeSymbol hg hs hok hp
  · intro ho m id hm
    rw [hs.firsts] at ho
    obtain ⟨hn,hall⟩ := hok.onlyConfigured ho
    have hmem : m ∈ order := by
      rw [hs.find] at hm
      split_ifs at hm with hnm
      · exact hnm ▸ hn
      · exact hall m (by rw [hm]; simp)
    obtain ⟨i,hi⟩ := List.mem_iff_getElem?.mp hmem
    have hplaced := placed_of_mayNumber c normalizeSymbol hg hs hok (ho ▸ List.prefix_rfl) i m hi
    rw [hm, Option.some.injEq] at hplaced
    rw [hplaced]
    exact name_of_place c normalizeSymbol i m (ho ▸ hi)

theorem numbers_stable_iff {h h' : History} {n : String} {order : List String}
    (hr : Recorded h) (hg : Stable c normalizeSymbol h) (hs : Numbers h h' n order) :
    Stable c normalizeSymbol h' ↔ MayNumber c normalizeSymbol h n order :=
  ⟨mayNumber_of_stable c normalizeSymbol hr hg hs,stable_of_mayNumber c normalizeSymbol hr hg hs⟩

end Steps

section Notes
variable {h : History} (n : String) {sub : SubState} {order : List String}

theorem note_rests (hmap : sub.symbolToId = h.sub.symbolToId)
    (hnext : sub.nextSymbolId = h.sub.nextSymbolId)
    (hsub : ∀ m ∈ sub.subscribed, m ∈ h.sub.subscribed) (horder : order = h.firsts) :
    Rests h { h.note n sub with firsts := order } := by
  refine ⟨fun m => by rw [History.note, hmap],hnext,if_pos hnext,horder,hsub,_,rfl,?_⟩
  intro p hp
  rw [Option.mem_toList, Option.map_eq_some_iff] at hp
  obtain ⟨id,hid,rfl⟩ := hp
  exact hmap ▸ hid

theorem note_numbers (hr : Recorded h)
    (hmap : sub.symbolToId = h.sub.symbolToId.assign n h.sub.nextSymbolId)
    (hnext : sub.nextSymbolId = (h.sub.nextSymbolId+1)%2^32)
    (hsub : ∀ m ∈ sub.subscribed, m ∈ h.sub.subscribed ∨ m = n ∧ n ∈ order)
    (horder : order = h.firsts ∨ order = h.asked n) :
    Numbers h { h.note n sub with firsts := order } n order := by
  refine ⟨fun m => by rw [History.note, hmap, Table.find_assign],hnext,if_neg ?_,rfl,horder,hsub,?_⟩
  · have hbound := hr.next
    rw [hnext]
    omega
  · rw [History.note, hmap, Table.find_assign, if_pos rfl]
    rfl

end Notes

section Mux
variable (normalizeSymbol : String → String) {h : History}

theorem mux_unsubscribe_rests (symbol : String) :
    Rests h (muxStep normalizeSymbol h (.unsubscribe symbol)) :=
  note_rests _ rfl rfl (fun _ hm => (List.mem_filter.mp hm).1) rfl

variable (hr : Recorded h) (symbol : String)
include hr

theorem mux_subscribe_rests (hn : normalizeSymbol symbol ∈ h.sub.subscribed) :
    Rests h (muxStep normalizeSymbol h (.subscribe symbol)) := by
  have hsub : ThinMuxAdapter.subscribe normalizeSymbol h.sub symbol = h.sub := by
    rw [ThinMuxAdapter.subscribe, if_pos (List.contains_iff_mem.mpr hn)]
  rw [muxStep, hsub]
  exact note_rests _ rfl rfl (fun _ hm => hm) (if_pos (hr.subscribed _ hn))

theorem mux_subscribe_numbers (hn : normalizeSymbol symbol ∉ h.sub.subscribed) :
    Numbers h (muxStep normalizeSymbol h (.subscribe symbol)) (normalizeSymbol symbol)
      (h.asked (normalizeSymbol symbol)) := by
  rw [muxStep, ThinMuxAdapter.subscribe, if_neg (by rwa [List.contains_iff_mem])]
  refine note_numbers _ hr rfl rfl ?_ (Or.inr rfl)
  intro m hm
  rcases List.mem_cons.mp hm with rfl | hm
  · exact Or.inr ⟨rfl,(mem_asked h _ _).mpr (Or.inr rfl)⟩
  · exact Or.inl hm

theorem mux_recorded (call : MuxCall) : Recorded (muxStep normalizeSymbol h call) := by
  cases call with
  | subscribe symbol =>
    by_cases hn : normalizeSymbol symbol ∈ h.sub.subscribed
    · exact (mux_subscribe_rests normalizeSymbol hr symbol hn).recorded hr
    · exact (mux_subscribe_numbers normalizeSymbol hr symbol hn).recorded hr
  | unsubscribe symbol => exact (mux_unsubscribe_rests normalizeSymbol symbol).recorded hr

theorem mux_stable_iff (c : GatewaySetup) (hg : Stable c normalizeSymbol h) (call : MuxCall) :
    Stable c normalizeSymbol (muxStep normalizeSymbol h call) ↔ MuxOk c normalizeSymbol h call := by
  cases call with
  | subscribe symbol =>
    by_cases hn : normalizeSymbol symbol ∈ h.sub.subscribed
    · have hrest := (mux_subscribe_rests normalizeSymbol hr symbol hn).stable c _ hg
      exact ⟨fun _ hnot => absurd hn hnot,fun _ => hrest⟩
    · rw [numbers_stable_iff c _ hr hg (mux_subscribe_numbers normalizeSymbol hr symbol hn)]
      exact ⟨fun hok _ => hok,fun hok => hok hn⟩
  | unsubscribe symbol =>
    exact ⟨fun _ => trivial,fun _ => (mux_unsubscribe_rests normalizeSymbol symbol).stable c _ hg⟩

end Mux

section Binance
variable {h : History} (symbol : String) (sent : Bool)

theorem preRegister_rests (hn : h.sub.symbolToId.find symbol ≠ none) :
    Rests h (binanceStep h (.preRegister symbol)) := by
  have hsub : BinanceAdapter.preRegister h.sub symbol = h.sub := if_neg hn
  rw [binanceStep, hsub]
  exact note_rests symbol rfl rfl (fun _ hm => hm) rfl

theorem binance_unsubscribe_rests : Rests h (binanceStep h (.unsubscribe symbol sent)) := by
  rw [binanceStep, BinanceAdapter.unsubscribe]
  split_ifs
  · exact note_rests _ rfl rfl (fun _ hm => hm) rfl
  · exact note_rests _ rfl rfl (fun _ hm => (List.mem_filter.mp hm).1) rfl
  · exact note_rests _ rfl rfl (fun _ hm => hm) rfl

variable (hr : Recorded h)
include hr

theorem preRegister_numbers (hn : h.sub.symbolToId.find symbol = none) :
    Numbers h (binanceStep h (.preRegister symbol)) symbol h.firsts := by
  rw [binanceStep, BinanceAdapter.preRegister, if_pos hn]
  exact note_numbers symbol hr rfl rfl (fun _ hm => Or.inl hm) (Or.inl rfl)

theorem binance_subscribe_rests (hn : BinanceAdapter.normalizeSymbol symbol ∈ h.sub.subscribed) :
    Rests h (binanceStep h (.subscribe symbol sent)) := by
  have hsub : BinanceAdapter.subscribe h.sub symbol sent = h.sub := by
    rw [BinanceAdapter.subscribe, if_pos (List.contains_iff_mem.mpr hn)]
  rw [binanceStep, hsub]
  exact note_rests _ rfl rfl (fun _ hm => hm) (if_pos (hr.subscribed _ hn))

theorem binance_subscribe_numbers
    (hn : BinanceAdapter.normalizeSymbol symbol ∉ h.sub.subscribed) :
    Numbers h (binanceStep h (.subscribe symbol sent)) (BinanceAdapter.normalizeSymbol symbol)
      (h.asked (BinanceAdapter.normalizeSymbol symbol)) := by
  rw [binanceStep, BinanceAdapter.subscribe, if_neg (by rwa [List.contains_iff_mem])]
  cases sent with
  | false => exact note_numbers _ hr rfl rfl (fun _ hm => Or.inl hm) (Or.inr rfl)
  | true =>
    refine note_numbers _ hr rfl rfl ?_ (Or.inr rfl)
    intro m hm
    rcases List.mem_cons.mp hm with rfl | hm
    · exact Or.inr ⟨rfl,(mem_asked h _ _).mpr (Or.inr rfl)⟩
    · exact Or.inl hm

theorem binance_recorded (call : BinanceCall) : Recorded (binanceStep h call) := by
  cases call with
  | preRegister sym =>
    by_cases hn : h.sub.symbolToId.find sym = none
    · exact (preRegister_numbers sym hr hn).recorded hr
    · exact (preRegister_rests sym hn).recorded hr
  | subscribe symbol sent =>
    by_cases hn : BinanceAdapter.normalizeSymbol symbol ∈ h.sub.subscribed
    · exact (binance_subscribe_rests symbol sent hr hn).recorded hr
    · exact (binance_subscribe_numbers symbol sent hr hn).recorded hr
  | unsubscribe symbol sent => exact (binance_unsubscribe_rests symbol sent).recorded hr

theorem binance_stable_iff (c : GatewaySetup) (hg : Stable c BinanceAdapter.normalizeSymbol h)
    (call : BinanceCall) :
    Stable c BinanceAdapter.normalizeSymbol (binanceStep h call) ↔ BinanceOk c h call := by
  cases call with
  | preRegister sym =>
    by_cases hn : h.sub.symbolToId.find sym = none
    · rw [numbers_stable_iff c _ hr hg (preRegister_numbers sym hr hn)]
      exact ⟨fun hok _ => hok,fun hok => hok hn⟩
    · have hrest := (preRegister_rests sym hn).stable c _ hg
      exact ⟨fun _ hnone => absurd hnone hn,fun _ => hrest⟩
  | subscribe symbol sent =>
    by_cases hn : BinanceAdapter.normalizeSymbol symbol ∈ h.sub.subscribed
    · have hrest := (binance_subscribe_rests symbol sent hr hn).stable c _ hg
      exact ⟨fun _ hnot => absurd hn hnot,fun _ => hrest⟩
    · rw [numbers_stable_iff c _ hr hg (binance_subscribe_numbers symbol sent hr hn)]
      exact ⟨fun hok _ => hok,fun hok => hok hn⟩
  | unsubscribe symbol sent =>
    exact ⟨fun _ => trivial,fun _ => (binance_unsubscribe_rests symbol sent).stable c _ hg⟩

end Binance

theorem recorded_new : Recorded {} := by
  constructor
  · intro n hn
    cases hn
  · intro n hn
    cases hn
  · intro n id hf
    cases hf
  · rfl
  · intro k hk
    cases hk
  · intro p hp
    cases hp

theorem stable_new (c : GatewaySetup) (normalizeSymbol : String → String) :
    Stable c normalizeSymbol {} := by
  constructor
  · intro n id hn
    cases hn
  · intro n m id hn
    cases hn
  · intro _ i n hn
    cases hn
  · intro _ n id hn
    cases hn

/-- Numbers stay what they were through every history exactly when each call
that gives one meets `MayNumber`. -/
theorem stable_throughout_iff (c : GatewaySetup) :
    (∀ (normalizeSymbol : String → String) (calls : List MuxCall),
      (∀ k, Stable c normalizeSymbol
        (Schedule.run (muxStep normalizeSymbol) (calls.take k) {})) ↔
      Schedule.Allowed (muxStep normalizeSymbol) (MuxOk c normalizeSymbol) calls {}) ∧
    ∀ (websocketUrl : String) (calls : List BinanceCall),
      (∀ k, Stable c BinanceAdapter.normalizeSymbol
        (Schedule.run binanceStep ((binanceCalls websocketUrl calls).take k) {})) ↔
      Schedule.Allowed binanceStep (BinanceOk c) (binanceCalls websocketUrl calls) {} := by
  constructor
  · intro normalizeSymbol calls
    refine Schedule.invariant_iff (muxStep normalizeSymbol) (fun _ _ => True)
      (MuxOk c normalizeSymbol) Recorded (Stable c normalizeSymbol)
      (fun h call hr => mux_recorded normalizeSymbol hr call)
      (fun h call _ hr hg => mux_stable_iff normalizeSymbol hr c hg call) calls {}
      (Schedule.allowed_of_forall _ _ (fun _ _ => trivial) _ _) recorded_new
      (stable_new c normalizeSymbol)
  · intro websocketUrl calls
    refine Schedule.invariant_iff binanceStep (fun _ _ => True) (BinanceOk c) Recorded
      (Stable c BinanceAdapter.normalizeSymbol) (fun h call hr => binance_recorded hr call)
      (fun h call _ hr hg => binance_stable_iff hr c hg call) (binanceCalls websocketUrl calls) {}
      (Schedule.allowed_of_forall _ _ (fun _ _ => trivial) _ _) recorded_new
      (stable_new c BinanceAdapter.normalizeSymbol)

def mainSetup : GatewaySetup := { symbols := ["BTCUSDT"] }

def againCalls : List MuxCall := [.subscribe "BTCUSDT",.unsubscribe "BTCUSDT",.subscribe "BTCUSDT"]

def streamUrl : String := "wss://stream.binance.com:9443/stream?streams=btcusdt@depth"

theorem streamUrl_symbols : BinanceAdapter.streamSymbols streamUrl = ["btcusdt"] := by decide +kernel

theorem streamUrl_calls : binanceCalls streamUrl [.subscribe "BTCUSDT" true] =
    [.preRegister "btcusdt",.subscribe "BTCUSDT" true] := by
  rw [binanceCalls, streamUrl_symbols]
  rfl

theorem mux_renumbers :
    let h := Schedule.run (muxStep BinanceJsonProtocol.normalizeSymbol) (againCalls.take 3) {}
    ("btcusdt",1) ∈ h.seen ∧ h.sub.symbolToId.find "btcusdt" = some 2 := by decide +kernel

theorem binance_renumbers :
    let h := Schedule.run binanceStep [.preRegister "btcusdt",.subscribe "BTCUSDT" true] {}
    ("btcusdt",1) ∈ h.seen ∧ h.sub.symbolToId.find "btcusdt" = some 2 := by decide +kernel

/-- Subscribed, unsubscribed and subscribed again, or named by the URL and then
subscribed, a symbol changes its number. -/
theorem resubscribed_renumbered :
    (¬∀ k, Stable mainSetup BinanceJsonProtocol.normalizeSymbol
      (Schedule.run (muxStep BinanceJsonProtocol.normalizeSymbol) (againCalls.take k) {})) ∧
    ¬∀ k, Stable mainSetup BinanceAdapter.normalizeSymbol
      (Schedule.run binanceStep
        ((binanceCalls streamUrl [.subscribe "BTCUSDT" true]).take k) {}) := by
  constructor
  · intro h
    have hkept := (h 3).kept _ _ mux_renumbers.1
    rw [mux_renumbers.2] at hkept
    cases hkept
  · intro h
    have hstable := h 2
    rw [streamUrl_calls, List.take_of_length_le (le_refl 2)] at hstable
    have hkept := hstable.kept _ _ binance_renumbers.1
    rw [binance_renumbers.2] at hkept
    cases hkept

end SymbolNumbers
end Chronos
