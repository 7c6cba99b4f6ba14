import Chronos.LegacyParsers

/-!
# Agreement of the older parsers with the protocols

A stream name selects what its payload is read as. Where both parsers select
the same, they emit the same ticks; where they differ, they agree only on
payloads from which neither selection takes a tick.
-/

set_option autoImplicit false

namespace Chronos.Emission
variable {T E A B C : Type}

theorem lift_bind_nonempty (r : Except E A) (f : A → Emission T E B) :
    (lift r >>= f).emitted ≠ [] ↔ ∃ a, r = .ok a ∧ (f a).emitted ≠ [] := by
  cases r with
  | error e =>
    constructor
    · intro h
      exact absurd (bind_of_error (lift (.error e)) f e rfl) h
    · rintro ⟨a,ha,-⟩
      cases ha
  | ok a =>
    rw [lift_bind_ok]
    constructor
    · intro h
      exact ⟨a,rfl,h⟩
    · rintro ⟨a',ha,h⟩
      cases ha
      exact h

theorem lift_bind_emitted_congr (r : Except E A) (f : A → Emission T E B) (g : A → Emission T E C)
    (h : ∀ a, r = .ok a → (f a).emitted = (g a).emitted) :
    (lift r >>= f).emitted = (lift r >>= g).emitted := by
  cases r with
  | error e => rw [bind_of_error _ f e rfl, bind_of_error _ g e rfl]
  | ok a => exact h a rfl

theorem each_emitted_congr (f g : A → Emission T E Unit) (as : List A)
    (hf : ∀ a ∈ as, (f a).Completes) (hg : ∀ a ∈ as, (g a).Completes)
    (h : ∀ a ∈ as, (f a).emitted = (g a).emitted) : (each f as).emitted = (each g as).emitted := by
  rw [each_emitted f as hf, each_emitted g as hg]
  exact List.flatMap_congr h

end Chronos.Emission

namespace Chronos.MarketDataProtocols
open Emission

section Ladders
variable {F : Type} (tick tick' : Tick) (side bids asks : Option (Json F))

def FirstLevel : Prop := ∃ level rest, side = some (.array (level::rest)) ∧ IsLevel level

theorem emitLevels_nonempty : (emitLevels tick side).emitted ≠ [] ↔ FirstLevel side := by
  rw [emitLevels, lift_bind_nonempty]
  simp only [getArray_ok, FirstLevel]
  constructor
  · rintro ⟨levels,hlevels,hne⟩
    cases levels with
    | nil => exact absurd rfl hne
    | cons level rest =>
      refine ⟨level,rest,hlevels,?_⟩
      rw [isLevel_iff]
      cases hread : readLevel level with
      | ok x => exact ⟨x,rfl⟩
      | error e =>
        rw [each, emitLevel, hread] at hne
        exact absurd rfl hne
  · rintro ⟨level,rest,hside,hlevel⟩
    obtain ⟨x,hx⟩ := (isLevel_iff level).mp hlevel
    refine ⟨_,hside,?_⟩
    rw [each, emitLevel, hx]
    exact List.cons_ne_nil _ _

theorem emitBook_nonempty :
    (emitLevels tick bids >>= fun _ => emitLevels tick' asks).emitted ≠ [] ↔
      FirstLevel bids ∨ bids = some (.array []) ∧ FirstLevel asks := by
  cases hr : (emitLevels tick bids).result with
  | ok u =>
    rw [bind_of_ok _ _ u hr, ne_eq, List.append_eq_nil_iff, not_and_or, ← ne_eq, ← ne_eq,
      emitLevels_nonempty, emitLevels_nonempty]
    have hladder : IsLadder bids := (emitLevels_completes tick bids).mp ⟨u,hr⟩
    obtain ⟨levels,hlevels,hall⟩ := hladder
    cases levels with
    | nil => simp [hlevels, FirstLevel]
    | cons level rest =>
      have hfirst : FirstLevel bids := ⟨level,rest,hlevels,hall level (by simp)⟩
      simp [hfirst]
  | error e =>
    rw [bind_of_error _ _ e hr, emitLevels_nonempty]
    have hne : bids ≠ some (.array []) := by
      rintro rfl
      cases hr
    simp [hne]

theorem emitLevels_flags (h : tick.flags = 0) : (emitLevels tick side).EmitsOnly (fun t => t.flags = 0) := by
  apply lift_bind_emitsOnly
  intro levels
  apply each_emitsOnly
  intro level
  apply lift_bind_emitsOnly
  intro x t ht
  rw [List.mem_singleton.mp ht]
  exact h

end Ladders

namespace BinanceJsonProtocol
variable {F : Type}

inductive Kind where
  | depth
  | trade
  | other
  deriving DecidableEq

def legacyKind (sn : String) : Kind :=
  if contains sn BinanceAdapter.depthStreamSuffix then .depth
  else if contains sn BinanceAdapter.tradeStreamSuffix then .trade
  else .other

def protocolKind (sn : String) : Kind :=
  if contains sn depthSuffix then .depth
  else if contains sn tradeSuffix then .trade
  else .other

section Yields
variable (resolveSymbolId : String → ℕ) (data : List (String × Json F))

def Resolved : Prop := ∃ s, Json.fieldIn "s" data = some (.string s) ∧ resolveSymbolId s ≠ 0

/-- A tick can be taken from the payload, read as the given kind. -/
def Yields : Kind → Prop
  | .depth => IsTime (Json.fieldIn "E" data) ∧ Resolved resolveSymbolId data ∧
      (FirstLevel (Json.fieldIn "b" data) ∨
        Json.fieldIn "b" data = some (.array []) ∧ FirstLevel (Json.fieldIn "a" data))
  | .trade => Resolved resolveSymbolId data ∧ TradeFields data
  | .other => False

end Yields

section Ticks
variable (recvTs : ℕ) (resolveSymbolId : String → ℕ) (data : List (String × Json F))

def ticks : Kind → List Tick
  | .depth => (parseDepthUpdate recvTs resolveSymbolId data).emitted
  | .trade => (parseTrade recvTs resolveSymbolId data).emitted
  | .other => []

theorem depth_nonempty :
    (parseDepthUpdate recvTs resolveSymbolId data).emitted ≠ [] ↔ Yields resolveSymbolId data .depth := by
  simp only [parseDepthUpdate, lift_bind_nonempty, getString_ok, Yields, Resolved, isTime_iff]
  constructor
  · rintro ⟨ms,hms,s,hs,hne⟩
    split_ifs at hne with hsid
    · exact absurd rfl hne
    · exact ⟨⟨ms,hms⟩,⟨s,hs,hsid⟩,(emitBook_nonempty _ _ _ _).mp hne⟩
  · rintro ⟨⟨ms,hms⟩,⟨s,hs,hsid⟩,hbook⟩
    refine ⟨ms,hms,s,hs,?_⟩
    rw [if_neg hsid]
    exact (emitBook_nonempty _ _ _ _).mpr hbook

theorem trade_nonempty :
    (parseTrade recvTs resolveSymbolId data).emitted ≠ [] ↔ Yields resolveSymbolId data .trade := by
  simp only [parseTrade, lift_bind_nonempty, getString_ok, Yields, Resolved]
  constructor
  · rintro ⟨s,hs,hne⟩
    split_ifs at hne with hsid
    · exact absurd rfl hne
    · simp only [lift_bind_nonempty, getString_ok, getBool_ok] at hne
      obtain ⟨p,hp,q,hq,ms,hms,m,hm,-⟩ := hne
      exact ⟨⟨s,hs,hsid⟩,⟨⟨p,hp⟩,⟨q,hq⟩,(isTime_iff _).mpr ⟨ms,hms⟩,⟨m,hm⟩⟩⟩
  · rintro ⟨⟨s,hs,hsid⟩,⟨⟨p,hp⟩,⟨q,hq⟩,htime,⟨m,hm⟩⟩⟩
    obtain ⟨ms,hms⟩ := (isTime_iff _).mp htime
    refine ⟨s,hs,?_⟩
    rw [if_neg hsid]
    simp only [lift_bind_nonempty, getString_ok, getBool_ok]
    exact ⟨p,hp,q,hq,ms,hms,m,hm,List.cons_ne_nil _ _⟩

theorem ticks_nonempty (kind : Kind) :
    ticks recvTs resolveSymbolId data kind ≠ [] ↔ Yields resolveSymbolId data kind := by
  cases kind with
  | depth => exact depth_nonempty recvTs resolveSymbolId data
  | trade => exact trade_nonempty recvTs resolveSymbolId data
  | other => exact ⟨fun h => h rfl,fun h => h.elim⟩

theorem ticks_flags (kind : Kind) (t : Tick) (ht : t ∈ ticks recvTs resolveSymbolId data kind) :
    (t.flags = 0 ∧ kind = .depth) ∨ (t.flags = 1 ∧ kind = .trade) := by
  cases kind with
  | depth =>
    refine Or.inl ⟨?_,rfl⟩
    have honly : (parseDepthUpdate recvTs resolveSymbolId data).EmitsOnly (fun t => t.flags = 0) := by
      apply lift_bind_emitsOnly
      intro ms
      apply lift_bind_emitsOnly
      intro s
      dsimp only
      split_ifs
      · exact pure_emitsOnly () _
      · exact bind_emitsOnly _ _ _ (emitLevels_flags _ _ rfl) (fun _ => emitLevels_flags _ _ rfl)
    exact honly t ht
  | trade =>
    refine Or.inr ⟨?_,rfl⟩
    have honly : (parseTrade recvTs resolveSymbolId data).EmitsOnly (fun t => t.flags = 1) := by
      apply lift_bind_emitsOnly
      intro s
      dsimp only
      split_ifs
      · exact pure_emitsOnly () _
      · apply lift_bind_emitsOnly
        intro p
        apply lift_bind_emitsOnly
        intro q
        apply lift_bind_emitsOnly
        intro ms
        apply lift_bind_emitsOnly
        intro m t ht
        rw [List.mem_singleton.mp ht]
    exact honly t ht
  | other => cases ht

/-- Two kinds give the same ticks only when they are one, or give none. -/
theorem ticks_eq_iff (kind kind' : Kind) :
    ticks recvTs resolveSymbolId data kind = ticks recvTs resolveSymbolId data kind' ↔
      kind = kind' ∨ ¬Yields resolveSymbolId data kind ∧ ¬Yields resolveSymbolId data kind' := by
  rw [← ticks_nonempty recvTs, ← ticks_nonempty recvTs, not_not, not_not]
  constructor
  · intro he
    by_cases hk : kind = kind'
    · exact Or.inl hk
    · right
      rw [← he, and_self]
      apply List.eq_nil_iff_forall_not_mem.mpr
      intro t ht
      have h := ticks_flags recvTs resolveSymbolId data kind t ht
      have h' := ticks_flags recvTs resolveSymbolId data kind' t (he ▸ ht)
      rcases h with ⟨h0,hkind⟩ | ⟨h1,hkind⟩
      · rcases h' with ⟨-,hkind'⟩ | ⟨h1,-⟩
        · exact hk (hkind.trans hkind'.symm)
        · omega
      · rcases h' with ⟨h0,-⟩ | ⟨-,hkind'⟩
        · omega
        · exact hk (hkind.trans hkind'.symm)
  · rintro (rfl | ⟨hnone,hnone'⟩)
    · rfl
    · rw [hnone, hnone']

theorem legacyStream_emitted (obj : List (String × Json F)) (sn : String)
    (hdata : Json.fieldIn "data" obj = some (.object data)) :
    (BinanceAdapter.parseStream recvTs resolveSymbolId obj (.string sn)).emitted =
      ticks recvTs resolveSymbolId data (legacyKind sn) := by
  rw [BinanceAdapter.parseStream, (getString_ok _ sn).mpr rfl, lift_bind_ok,
    (getObject_ok _ data).mpr hdata, lift_bind_ok, legacyKind]
  split_ifs
  · rfl
  · rfl
  · rfl
  · rfl

theorem parseStream_emitted (obj : List (String × Json F)) (sn : String)
    (hdata : Json.fieldIn "data" obj = some (.object data)) :
    (parseStream recvTs resolveSymbolId obj (.string sn)).emitted =
      ticks recvTs resolveSymbolId data (protocolKind sn) := by
  rw [parseStream, (getString_ok _ sn).mpr rfl, lift_bind_ok, (getObject_ok _ data).mpr hdata,
    lift_bind_ok, protocolKind]
  split_ifs
  · exact then_pure_emitted _ _
  · exact then_pure_emitted _ _
  · rfl

theorem event_emitted (obj : List (String × Json F)) (e : Json F) :
    (BinanceAdapter.parseEvent recvTs resolveSymbolId obj e).emitted =
      (parseEvent recvTs resolveSymbolId obj e).emitted := by
  apply lift_bind_emitted_congr
  intro event _
  split_ifs
  · rw [then_pure_emitted]
    rfl
  · rw [then_pure_emitted]
    rfl
  · rfl
  · rfl

end Ticks

/-- A message of the combined stream is read as the same by both, or no tick
can be taken from it as what either reads it. -/
def StreamAgrees (resolveSymbolId : String → ℕ) (doc : Json F) : Prop :=
  ∀ obj sn data, doc = .object obj → Json.fieldIn "stream" obj = some (.string sn) →
    Json.fieldIn "data" obj = some (.object data) →
    legacyKind sn = protocolKind sn ∨
      ¬Yields resolveSymbolId data (legacyKind sn) ∧ ¬Yields resolveSymbolId data (protocolKind sn)

section Agreement
variable (recvTs : ℕ) (resolveSymbolId : String → ℕ) (read : String → Option (Json F))

/-- Without a name and a payload neither parser emits anything. -/
theorem stream_unread (obj : List (String × Json F)) (stream : Json F)
    (h : ∀ sn data, stream = .string sn → Json.fieldIn "data" obj = some (.object data) → False) :
    (BinanceAdapter.parseStream recvTs resolveSymbolId obj stream).emitted = [] ∧
      (parseStream recvTs resolveSymbolId obj stream).emitted = [] := by
  constructor
  · by_contra hne
    simp only [BinanceAdapter.parseStream, ← ne_eq, lift_bind_nonempty, getString_ok, getObject_ok] at hne
    obtain ⟨sn,hsn,data,hdata,-⟩ := hne
    exact h sn data (Option.some.inj hsn) hdata
  · by_contra hne
    simp only [parseStream, ← ne_eq, lift_bind_nonempty, getString_ok, getObject_ok] at hne
    obtain ⟨sn,hsn,data,hdata,-⟩ := hne
    exact h sn data (Option.some.inj hsn) hdata

theorem stream_agree_iff (obj : List (String × Json F)) (stream : Json F)
    (hstream : Json.fieldIn "stream" obj = some stream) :
    (BinanceAdapter.parseStream recvTs resolveSymbolId obj stream).emitted =
        (parseStream recvTs resolveSymbolId obj stream).emitted ↔
      StreamAgrees resolveSymbolId (.object obj) := by
  by_cases h : ∃ sn data, stream = .string sn ∧ Json.fieldIn "data" obj = some (.object data)
  · obtain ⟨sn,data,rfl,hdata⟩ := h
    rw [legacyStream_emitted recvTs resolveSymbolId data obj sn hdata,
      parseStream_emitted recvTs resolveSymbolId data obj sn hdata, ticks_eq_iff]
    constructor
    · intro hk obj' sn' data' hobj hsn' hdata'
      cases hobj
      rw [hstream] at hsn'
      rw [hdata] at hdata'
      cases hsn'
      cases hdata'
      exact hk
    · intro hagrees
      exact hagrees obj sn data rfl hstream hdata
  · push Not at h
    obtain ⟨hlegacy,hprotocol⟩ := stream_unread recvTs resolveSymbolId obj stream
      (fun sn data hs hd => h sn data hs hd)
    rw [hlegacy, hprotocol]
    constructor
    · intro _ obj' sn data hobj hsn hdata
      cases hobj
      rw [hstream] at hsn
      exact absurd hdata (h sn data (Option.some.inj hsn))
    · intro _
      rfl

theorem document_agree_iff (obj : List (String × Json F)) :
    ((match Json.fieldIn "stream" obj with
      | some stream => BinanceAdapter.parseStream recvTs resolveSymbolId obj stream
      | none =>
        match Json.fieldIn "e" obj with
        | some e => BinanceAdapter.parseEvent recvTs resolveSymbolId obj e
        | none =>
          match Json.fieldIn "result" obj with
          | some _ => BinanceAdapter.parseResult obj
          | none => pure ()) : Emission Tick Thrown Unit).emitted =
      (parseDocument recvTs resolveSymbolId (.object obj)).emitted ↔
    StreamAgrees resolveSymbolId (.object obj) := by
  rw [parseDocument, (getObject_ok _ obj).mpr rfl, lift_bind_ok]
  cases hstream : Json.fieldIn "stream" obj with
  | some stream => exact stream_agree_iff recvTs resolveSymbolId obj stream hstream
  | none =>
    have hagrees : StreamAgrees resolveSymbolId (.object obj) := by
      intro obj' sn data hobj hsn
      cases hobj
      rw [hstream] at hsn
      cases hsn
    refine ⟨fun _ => hagrees,fun _ => ?_⟩
    cases Json.fieldIn "e" obj with
    | some e => exact event_emitted recvTs resolveSymbolId obj e
    | none =>
      cases Json.fieldIn "result" obj with
      | none => rfl
      | some result =>
        rw [BinanceAdapter.parseResult, then_pure_emitted]
        rfl

theorem binance_agree_iff (msg : String) :
    (BinanceAdapter.parseMessage recvTs resolveSymbolId read msg).emitted =
        (parse recvTs resolveSymbolId read msg).emitted ↔
      ∀ doc, read msg = some doc → StreamAgrees resolveSymbolId doc := by
  rw [BinanceAdapter.parseMessage, readDocument, parse]
  cases hread : read msg with
  | none =>
    constructor
    · intro _ doc hdoc
      cases hdoc
    · intro _
      rfl
  | some doc =>
    rw [lift_bind_ok]
    simp only [Option.some.injEq, forall_eq']
    cases hobj : getObject (some doc) with
    | ok obj =>
      rw [getObject_ok, Option.some.injEq] at hobj
      subst hobj
      exact document_agree_iff recvTs resolveSymbolId obj
    | error e =>
      rw [parseDocument, hobj]
      refine ⟨fun _ obj sn data hdoc => ?_,fun _ => rfl⟩
      rw [hdoc] at hobj
      cases hobj

end Agreement
end BinanceJsonProtocol

namespace OKXJsonProtocol
variable {F : Type} (recvTs : ℕ) (resolveSymbolId : String → ℕ)

theorem elements_agree (parse : List (String × Json F) → Emission Tick Thrown Unit)
    (elems : List (Json F)) (h : (each (element parse) elems).Completes) :
    (each (element (fun data => catching isSimdjsonError (parse data))) elems).emitted =
      (each (element parse) elems).emitted := by
  rw [each_completes] at h
  apply each_emitted_congr _ _ elems ?_ h
  · intro elem _
    apply lift_bind_emitted_congr
    intro data _
    rfl
  · intro elem helem
    obtain ⟨data,hdata,hc⟩ := (element_completes parse elem).mp (h elem helem)
    exact (element_completes _ elem).mpr ⟨data,hdata,catching_completes _ _ hc⟩

theorem data_agree (parse : List (String × Json F) → Emission Tick Thrown Unit)
    (data : Option (Json F)) (count : List (Json F) → ℕ)
    (h : (lift (getArray data) >>= fun elems =>
      each (element parse) elems >>= fun _ => pure (count elems)).Completes) :
    (lift (getArray data) >>= fun elems =>
        each (element (fun data => catching isSimdjsonError (parse data))) elems).emitted =
      (lift (getArray data) >>= fun elems =>
        each (element parse) elems >>= fun _ => pure (count elems)).emitted := by
  rw [lift_bind_completes] at h
  obtain ⟨elems,helems,h⟩ := h
  rw [then_pure_completes] at h
  rw [helems, lift_bind_ok, lift_bind_ok, then_pure_emitted]
  exact elements_agree parse elems h

theorem event_emitted (obj : List (String × Json F)) (event : Json F) :
    (OkxAdapter.parseEvent obj event).emitted = (parseEvent obj event).emitted := by
  apply lift_bind_emitted_congr
  intro name _
  split_ifs
  · rfl
  · apply lift_bind_emitted_congr
    intro msg _
    rfl
  · rfl

theorem push_emitted (obj : List (String × Json F)) (arg : Json F)
    (h : (parsePush recvTs resolveSymbolId obj arg).Completes) :
    (OkxAdapter.parsePush recvTs resolveSymbolId obj arg).emitted =
      (parsePush recvTs resolveSymbolId obj arg).emitted := by
  rw [parsePush, lift_bind_completes] at h
  obtain ⟨fields,hfields,h⟩ := h
  rw [lift_bind_completes] at h
  obtain ⟨channel,hchannel,h⟩ := h
  rw [lift_bind_completes] at h
  obtain ⟨id,hid,h⟩ := h
  rw [OkxAdapter.parsePush, parsePush, hfields, lift_bind_ok, lift_bind_ok, hchannel, lift_bind_ok,
    lift_bind_ok, hid, lift_bind_ok, lift_bind_ok]
  split_ifs at h ⊢
  · exact data_agree _ _ _ h
  · exact data_agree _ _ _ h
  · rfl

theorem okx_agree (read : String → Option (Json F)) (msg : String)
    (h : OKXTakes resolveSymbolId read msg) :
    (OkxAdapter.parseMessage recvTs resolveSymbolId read msg).emitted =
      (parse recvTs resolveSymbolId read msg).emitted := by
  have hc := (okx_completes resolveSymbolId read recvTs msg).mpr h
  rw [OkxAdapter.parseMessage, readDocument]
  unfold parse at hc ⊢
  cases hread : read msg with
  | none => rfl
  | some doc =>
    rw [hread] at hc
    rw [lift_bind_ok]
    apply lift_bind_emitted_congr
    intro obj hobj
    dsimp only at hc
    rw [parseDocument, hobj, lift_bind_ok] at hc
    cases hevent : Json.fieldIn "event" obj with
    | some event => exact event_emitted obj event
    | none =>
      cases harg : Json.fieldIn "arg" obj with
      | none => rfl
      | some arg =>
        simp only [hevent, harg] at hc
        exact push_emitted recvTs resolveSymbolId obj arg hc

end OKXJsonProtocol

/-- Of every text, `BinanceAdapter` and `BinanceJsonProtocol` emit the same
ticks exactly when the stream agrees; of every text the OKX protocol takes,
`OkxAdapter` emits the same as it does. -/
theorem parsers_agree_iff {F : Type} (resolveSymbolId : String → ℕ) (read : String → Option (Json F))
    (recvTs : ℕ) (msg : String) :
    ((BinanceAdapter.parseMessage recvTs resolveSymbolId read msg).emitted =
        (BinanceJsonProtocol.parse recvTs resolveSymbolId read msg).emitted ↔
      ∀ doc, read msg = some doc → BinanceJsonProtocol.StreamAgrees resolveSymbolId doc) ∧
    (OKXTakes resolveSymbolId read msg →
      (OkxAdapter.parseMessage recvTs resolveSymbolId read msg).emitted =
        (OKXJsonProtocol.parse recvTs resolveSymbolId read msg).emitted) :=
  ⟨BinanceJsonProtocol.binance_agree_iff recvTs resolveSymbolId read msg,
    OKXJsonProtocol.okx_agree recvTs resolveSymbolId read msg⟩

section Examples

def aggregate : List (String × Json Unit) := [("e",.string "aggTrade"),("E",.integer 1),
  ("s",.string "BTCUSDT"),("p",.string "100"),("q",.string "2"),("T",.integer 1),("m",.bool true)]

def aggregateMessage : Json Unit :=
  .object [("stream",.string "btcusdt@aggTrade"),("data",.object aggregate)]

def depthMessage : Json Unit := .object [("stream",.string "btcusdt@depth@100ms"),
  ("data",.object [("e",.string "depthUpdate"),("E",.integer 1),("s",.string "BTCUSDT"),
    ("b",.array [.array [.string "100",.string "2"]]),("a",.array [])])]

/-- Of the trade only the protocol emits a tick, of the update only the adapter. -/
theorem stream_names_disagree :
    (BinanceAdapter.parseMessage 0 (fun _ => 1) (fun _ => some aggregateMessage) "").emitted ≠
        (BinanceJsonProtocol.parse 0 (fun _ => 1) (fun _ => some aggregateMessage) "").emitted ∧
      (BinanceAdapter.parseMessage 0 (fun _ => 1) (fun _ => some depthMessage) "").emitted ≠
        (BinanceJsonProtocol.parse 0 (fun _ => 1) (fun _ => some depthMessage) "").emitted := by
  have hlegacy :
      (BinanceAdapter.parseMessage 0 (fun _ => 1) (fun _ => some aggregateMessage) "").emitted.length = 0 ∧
      (BinanceAdapter.parseMessage 0 (fun _ => 1) (fun _ => some depthMessage) "").emitted.length = 1 := by
    decide +kernel
  have hprotocol :
      (BinanceJsonProtocol.parse 0 (fun _ => 1) (fun _ => some aggregateMessage) "").emitted.length = 1 ∧
      (BinanceJsonProtocol.parse 0 (fun _ => 1) (fun _ => some depthMessage) "").emitted.length = 0 := by
    decide +kernel
  constructor
  · intro he
    have hlength := congrArg List.length he
    rw [hlegacy.1, hprotocol.1] at hlength
    cases hlength
  · intro he
    have hlength := congrArg List.length he
    rw [hlegacy.2, hprotocol.2] at hlength
    cases hlength

def bookPush : Json Unit := .object [
  ("arg",.object [("channel",.string "books5"),("instId",.string "BTC-USDT")]),
  ("data",.array [.object [("bids",.array [.array [.string "100",.string "2"]]),("asks",.array [])]])]

theorem bookPush_taken : OKXTakes (fun _ => 1) (fun _ => some bookPush) "" :=
  (okx_completes (fun _ => 1) (fun _ => some bookPush) 0 "").mp ⟨5,rfl⟩

theorem bookPush_agrees :
    (OkxAdapter.parseMessage 0 (fun _ => 1) (fun _ => some bookPush) "").emitted =
        (OKXJsonProtocol.parse 0 (fun _ => 1) (fun _ => some bookPush) "").emitted ∧
      (OKXJsonProtocol.parse 0 (fun _ => 1) (fun _ => some bookPush) "").emitted.length = 1 :=
  ⟨(parsers_agree_iff (fun _ => 1) (fun _ => some bookPush) 0 "").2 bookPush_taken,by decide +kernel⟩

end Examples
end Chronos.MarketDataProtocols
