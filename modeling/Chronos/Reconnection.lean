import Chronos.Schedule

/-!
# Losing and finding a connection

`BinanceAdapter` and `ThinMuxAdapter` each have a thread that starts and stops
the feed, one that reads, and one that waits to reconnect. They share a flag,
a status and the transport, here one access at a time. What the network does,
and how long a delay is, is left to the environment; heartbeats, callbacks and
subscriptions are left out.

A report is what the adapter tells of its connection: a `start` that returned
true, and in `ThinMuxAdapter` a reconnection that was counted.
-/

set_option autoImplicit false

namespace Chronos
namespace Reconnection

inductive Adapter where
  | binance
  | thinMux
  deriving DecidableEq

inductive ConnectionStatus where
  | disconnected
  | connecting
  | connected
  | reconnecting
  | error
  deriving DecidableEq

inductive StartPlace where
  | checkRunning
  | enable
  | setConnecting
  | connect
  | setConnected
  | setRunning
  | spawn
  deriving DecidableEq

inductive StopPlace where
  | checkRunning
  | clearRunning
  | disable
  | joinReader
  | disconnect
  | joinTimer
  | setDisconnected
  deriving DecidableEq

inductive ControlPlace where
  | outside
  | starting (p : StartPlace)
  | stopping (p : StopPlace)
  deriving DecidableEq

inductive ReaderPlace where
  | absent
  | loop
  | read
  | left
  | mayReconnect
  | setDisconnected
  | onDisconnected
  | startTimer
  | joinTimer
  | ended
  deriving DecidableEq

inductive TimerPlace where
  | absent
  | sleeping
  | woken
  | count
  | starting (p : StartPlace)
  | retry
  | ended
  deriving DecidableEq

inductive ReadOutcome where
  | message
  | empty
  | failed
  deriving DecidableEq

inductive Action where
  | start
  | stop
  | control (connects : Bool)
  | reader (outcome : ReadOutcome)
  | timer (connects : Bool)
  deriving DecidableEq

structure Report where
  connected : Bool
  reading : Bool
  deriving DecidableEq

end Reconnection

open Reconnection in
/-- After `std::terminate` nothing moves. `connectedSince` is history: the transport
was connected after the last disconnect that was told. -/
structure Reconnection where
  running : Bool := false
  shouldReconnect : Bool := true
  status : ConnectionStatus := .disconnected
  connected : Bool := false
  reconnectionAttempts : ℕ := 0
  reconnections : ℕ := 0
  control : ControlPlace := .outside
  reader : ReaderPlace := .absent
  timer : TimerPlace := .absent
  terminated : Bool := false
  connectedSince : Bool := false
  reports : List Report := []

namespace Reconnection

inductive StartResult where
  | next (p : StartPlace)
  | done (ok : Bool)

section Steps
variable (adapter : Adapter) (s : Reconnection)

def isReading : Bool := s.reader = .loop || s.reader = .read

def report : Reconnection := { s with reports := s.reports++[⟨s.connected,s.isReading⟩] }

def connectFailed : Reconnection :=
  match adapter with
  | .binance => { s with connected := false }
  | .thinMux => { s with connected := false, status := .error }

/-- Assigning to a thread that was not joined terminates the program. -/
def spawnReader : Reconnection × StartResult :=
  if s.reader = .absent then (({ s with reader := .loop }).report,.done true)
  else ({ s with terminated := true },.done false)

def startStep (connects : Bool) : StartPlace → Reconnection × StartResult
  | .checkRunning => if s.running then (s.report,.done true) else (s,.next .enable)
  | .enable => ({ s with shouldReconnect := true },.next .setConnecting)
  | .setConnecting => ({ s with status := .connecting },.next .connect)
  | .connect =>
    if connects then ({ s with connected := true, connectedSince := true },.next .setConnected)
    else (s.connectFailed adapter,.done false)
  | .setConnected => ({ s with status := .connected },.next .setRunning)
  | .setRunning => ({ s with running := true },.next .spawn)
  | .spawn => s.spawnReader

def stopStep : StopPlace → Reconnection
  | .checkRunning => { s with control := if s.running then .stopping .clearRunning else .outside }
  | .clearRunning => { s with running := false, control := .stopping .disable }
  | .disable => { s with shouldReconnect := false, control := .stopping .joinReader }
  | .joinReader =>
    if s.reader = .absent ∨ s.reader = .ended then
      { s with reader := .absent, control := .stopping .disconnect }
    else s
  | .disconnect => { s with connected := false, control := .stopping .joinTimer }
  | .joinTimer =>
    if s.timer = .absent ∨ s.timer = .ended then
      { s with timer := .absent, control := .stopping .setDisconnected }
    else s
  | .setDisconnected =>
    { s with status := .disconnected, connectedSince := false, control := .outside }

def controlStep (connects : Bool) : Reconnection :=
  match s.control with
  | .outside => s
  | .starting p =>
    match s.startStep adapter connects p with
    | (s,.next p) => { s with control := .starting p }
    | (s,.done _) => { s with control := .outside }
  | .stopping p => s.stopStep p

def goesOn : ReadOutcome → Bool
  | .message => true
  | .empty => adapter = .binance
  | .failed => false

def readerStep (outcome : ReadOutcome) : Reconnection :=
  match s.reader with
  | .absent => s
  | .loop => { s with reader :=
      if s.running ∧ (adapter = .thinMux → s.connected) then .read else .left }
  | .read => { s with
      connected := s.connected && outcome ≠ .failed
      reader := if s.connected ∧ goesOn adapter outcome then .loop else .left }
  | .left =>
    if s.running then { s with reader := match adapter with
      | .binance => .setDisconnected
      | .thinMux => .mayReconnect }
    else { s with reader := .ended }
  | .mayReconnect => { s with reader := if s.shouldReconnect then .setDisconnected else .ended }
  | .setDisconnected => { s with
      status := .disconnected
      connectedSince := false
      reader := match adapter with
        | .binance => .onDisconnected
        | .thinMux => .startTimer }
  | .onDisconnected => { s with reader := if s.shouldReconnect then .startTimer else .ended }
  | .startTimer => { s with reader := if s.shouldReconnect then .joinTimer else .ended }
  | .joinTimer =>
    if s.timer = .absent ∨ s.timer = .ended then { s with timer := .sleeping, reader := .ended }
    else s
  | .ended => s

def countPart : Reconnection :=
  let s := { s with
    reconnectionAttempts := s.reconnectionAttempts+1
    reconnections := s.reconnections+1 }
  match adapter with
  | .binance => { s with timer := .starting .checkRunning }
  | .thinMux => { s.report with timer := .ended }

/-- One step of `handleReconnection`, or `handleReconnect`. A failed attempt starts
the timer anew from the timer's own thread, which cannot join itself. -/
def timerStep (connects : Bool) : Reconnection :=
  match s.timer with
  | .absent => s
  | .sleeping => { s with timer := .woken }
  | .woken => { s with timer := if s.shouldReconnect then .count else .ended }
  | .count => s.countPart adapter
  | .starting p =>
    match s.startStep adapter connects p with
    | (s,.next p) => { s with timer := .starting p }
    | (s,.done true) => { s with reconnectionAttempts := 0, timer := .ended }
    | (s,.done false) => { s with timer := .retry }
  | .retry => if s.shouldReconnect then { s with terminated := true } else { s with timer := .ended }
  | .ended => s

def move : Action → Reconnection
  | .start => if s.control = .outside then { s with control := .starting .checkRunning } else s
  | .stop => if s.control = .outside then { s with control := .stopping .checkRunning } else s
  | .control connects => s.controlStep adapter connects
  | .reader outcome => s.readerStep adapter outcome
  | .timer connects => s.timerStep adapter connects

def step (a : Action) : Reconnection := if s.terminated then s else s.move adapter a

def isHandling : Bool :=
  s.reader = .left || s.reader = .mayReconnect || s.reader = .setDisconnected ||
    match s.control with
    | .stopping p => p ≠ .checkRunning
    | _ => false

/-- What is reported is so, and a feed that calls itself connected was connected
after the last disconnect and is connected, unless the next one is being handled. -/
structure Sound : Prop where
  reports : ∀ r ∈ s.reports, r.connected = true ∧ r.reading = true
  since : s.status = .connected → s.connectedSince = true
  status : s.status = .connected → s.connected = true ∨ s.isHandling = true

/-- No delay is over while reconnection is switched on, and `start` is called on a
running feed only while it reads. -/
def Orderly : Action → Prop
  | .control _ => s.control = .starting .checkRunning → s.running = true →
      s.connected = true ∧ s.isReading = true
  | .timer _ => s.timer = .woken → s.shouldReconnect = false
  | _ => True

instance Orderly.decidable : (a : Action) → Decidable (s.Orderly a)
  | .control _ => inferInstanceAs (Decidable (_ → _ → _ ∧ _))
  | .timer _ => inferInstanceAs (Decidable (_ → _))
  | .start => inferInstanceAs (Decidable True)
  | .stop => inferInstanceAs (Decidable True)
  | .reader _ => inferInstanceAs (Decidable True)

end Steps
section Invariant
variable (adapter : Adapter)

def Calm : TimerPlace → Prop
  | .absent | .sleeping | .woken | .ended => True
  | _ => False

def ReaderOk (s : Reconnection) : Prop :=
  match s.reader with
  | .absent => False
  | .loop | .read => s.status = .connected ∧ s.connected = true ∧ s.timer = .absent
  | .left | .mayReconnect | .setDisconnected => s.timer = .absent
  | .onDisconnected | .startTimer | .joinTimer => s.status = .disconnected ∧ s.timer = .absent
  | .ended => s.status = .disconnected ∧ Calm s.timer

structure Up (s : Reconnection) : Prop where
  running : s.running = true
  shouldReconnect : s.shouldReconnect = true
  reader : ReaderOk s

structure Down (s : Reconnection) : Prop where
  running : s.running = false
  reader : s.reader = .absent
  timer : s.timer = .absent
  connected : s.connected = false
  status : s.status ≠ .connected

structure Opening (s : Reconnection) : Prop where
  shouldReconnect : s.shouldReconnect = true
  reader : s.reader = .absent
  timer : s.timer = .absent
  connected : s.connected = true
  connectedSince : s.connectedSince = true

structure Halting (s : Reconnection) : Prop where
  running : s.running = false
  timer : Calm s.timer

def Placed (s : Reconnection) : Prop :=
  match s.control with
  | .outside => Up s ∨ Down s
  | .starting .checkRunning => Up s ∨ Down s
  | .starting .enable => Down s
  | .starting .setConnecting => Down s ∧ s.shouldReconnect = true
  | .starting .connect => Down s ∧ s.shouldReconnect = true
  | .starting .setConnected => Opening s ∧ s.running = false ∧ s.status ≠ .connected
  | .starting .setRunning => Opening s ∧ s.running = false ∧ s.status = .connected
  | .starting .spawn => Opening s ∧ s.running = true ∧ s.status = .connected
  | .stopping .checkRunning => Up s ∨ Down s
  | .stopping .clearRunning => Up s
  | .stopping .disable => Halting s
  | .stopping .joinReader => Halting s
  | .stopping .disconnect => Halting s ∧ s.reader = .absent
  | .stopping .joinTimer => Halting s ∧ s.reader = .absent ∧ s.connected = false
  | .stopping .setDisconnected =>
    Halting s ∧ s.reader = .absent ∧ s.connected = false ∧ s.timer = .absent

theorem up_calm (s : Reconnection) (h : Up s) : Calm s.timer := by
  have hreader := h.reader
  unfold ReaderOk at hreader
  cases hr : s.reader <;> rw [hr] at hreader
  case absent => exact hreader.elim
  case ended => exact hreader.2
  case loop | read => rw [hreader.2.2]; trivial
  case left | mayReconnect | setDisconnected => rw [hreader]; trivial
  case onDisconnected | startTimer | joinTimer => rw [hreader.2]; trivial

theorem timer_calm (s : Reconnection) (connects : Bool) (hcalm : Calm s.timer)
    (hok : s.timer = .woken → s.shouldReconnect = false) :
    ∃ t, Calm t ∧ (s.timer = .absent → t = .absent) ∧
      s.timerStep adapter connects = { s with timer := t } := by
  obtain ⟨running,shouldReconnect,status,connected,attempts,count,control,reader,timer,terminated,
    connectedSince,reports⟩ := s
  cases timer with
  | absent => exact ⟨.absent,trivial,fun _ => rfl,rfl⟩
  | sleeping => exact ⟨.woken,trivial,fun h => (by cases h),rfl⟩
  | woken =>
    have hoff : shouldReconnect = false := hok rfl
    subst hoff
    exact ⟨.ended,trivial,fun h => (by cases h),rfl⟩
  | ended => exact ⟨.ended,trivial,fun h => (by cases h),rfl⟩
  | count => exact hcalm.elim
  | starting p => exact hcalm.elim
  | retry => exact hcalm.elim

theorem reader_up (s : Reconnection) (outcome : ReadOutcome) (h : Up s) :
    Up (s.readerStep adapter outcome) := by
  obtain ⟨hrun,hshould,hreader⟩ := h
  obtain ⟨running,shouldReconnect,status,connected,attempts,count,control,reader,timer,terminated,
    connectedSince,reports⟩ := s
  dsimp only at hrun hshould
  subst hrun hshould
  cases reader with
  | absent => exact hreader.elim
  | loop =>
    obtain ⟨hstatus,hconnected,htimer⟩ := hreader
    dsimp only at hconnected
    subst hconnected
    exact ⟨rfl,rfl,by simpa [readerStep, ReaderOk] using ⟨hstatus,htimer⟩⟩
  | read =>
    obtain ⟨hstatus,hconnected,htimer⟩ := hreader
    dsimp only at hconnected
    subst hconnected
    refine ⟨rfl,rfl,?_⟩
    cases outcome with
    | message => exact ⟨hstatus,rfl,htimer⟩
    | empty =>
      cases adapter with
      | binance => exact ⟨hstatus,rfl,htimer⟩
      | thinMux => exact htimer
    | failed => exact htimer
  | left => exact ⟨rfl,rfl,by cases adapter <;> exact hreader⟩
  | mayReconnect => exact ⟨rfl,rfl,hreader⟩
  | setDisconnected => exact ⟨rfl,rfl,by cases adapter <;> exact ⟨rfl,hreader⟩⟩
  | onDisconnected => exact ⟨rfl,rfl,hreader⟩
  | startTimer => exact ⟨rfl,rfl,hreader⟩
  | joinTimer =>
    obtain ⟨hstatus,htimer⟩ := hreader
    dsimp only at htimer
    subst htimer
    exact ⟨rfl,rfl,hstatus,trivial⟩
  | ended => exact ⟨rfl,rfl,hreader⟩

theorem reader_halting (s : Reconnection) (outcome : ReadOutcome) (h : Halting s) :
    Halting (s.readerStep adapter outcome) := by
  obtain ⟨hrun,hcalm⟩ := h
  unfold readerStep
  cases s.reader with
  | joinTimer =>
    dsimp only
    split_ifs
    · exact ⟨hrun,trivial⟩
    · exact ⟨hrun,hcalm⟩
  | left =>
    dsimp only
    split_ifs
    · exact ⟨hrun,hcalm⟩
    · exact ⟨hrun,hcalm⟩
  | absent | loop | read | mayReconnect | setDisconnected | onDisconnected | startTimer | ended =>
    exact ⟨hrun,hcalm⟩

theorem reader_absent (s : Reconnection) (outcome : ReadOutcome) (h : s.reader = .absent) :
    s.readerStep adapter outcome = s := by
  unfold readerStep
  rw [h]

theorem reader_control (s : Reconnection) (outcome : ReadOutcome) :
    (s.readerStep adapter outcome).control = s.control ∧
      (s.readerStep adapter outcome).reports = s.reports ∧
      (s.readerStep adapter outcome).terminated = s.terminated := by
  unfold readerStep
  cases s.reader <;> dsimp only
  case left | joinTimer => split_ifs <;> exact ⟨rfl,rfl,rfl⟩
  all_goals exact ⟨rfl,rfl,rfl⟩

theorem reader_since (s : Reconnection) (outcome : ReadOutcome)
    (h : s.status = .connected → s.connectedSince = true) :
    (s.readerStep adapter outcome).status = .connected →
      (s.readerStep adapter outcome).connectedSince = true := by
  unfold readerStep
  cases s.reader <;> dsimp only
  case setDisconnected => exact fun hstatus => (by cases hstatus)
  case left | joinTimer => split_ifs <;> exact h
  all_goals exact h

def Truthful (s : Reconnection) : Prop := ∀ r ∈ s.reports, r.connected = true ∧ r.reading = true

structure Steady (s : Reconnection) : Prop where
  placed : Placed s
  truthful : Truthful s
  since : s.status = .connected → s.connectedSince = true
  alive : s.terminated = false

theorem report_truthful (s : Reconnection) (h : Truthful s) (hconnected : s.connected = true)
    (hreading : s.isReading = true) : Truthful s.report := by
  intro r hr
  rcases List.mem_append.mp hr with hr | hr
  · exact h r hr
  · rw [List.mem_singleton.mp hr]
    exact ⟨hconnected,hreading⟩

theorem up_control (s : Reconnection) (c : ControlPlace) (h : Up s) : Up { s with control := c } :=
  ⟨h.running,h.shouldReconnect,h.reader⟩

theorem down_control (s : Reconnection) (c : ControlPlace) (h : Down s) : Down { s with control := c } :=
  ⟨h.running,h.reader,h.timer,h.connected,h.status⟩

theorem start_steady (s : Reconnection) (connects : Bool) (p : StartPlace)
    (hc : s.control = .starting p) (h : Steady s) (hok : Orderly s (.control connects)) :
    Steady (s.controlStep adapter connects) := by
  obtain ⟨hplaced,htruthful,hsince,halive⟩ := h
  unfold Placed at hplaced
  rw [controlStep, hc]
  rw [hc] at hplaced
  cases p with
  | checkRunning =>
    dsimp only [startStep]
    rcases hplaced with hup | hdown
    · obtain ⟨hconnected,hreading⟩ := hok hc hup.running
      rw [if_pos hup.running]
      exact ⟨Or.inl ⟨hup.running,hup.shouldReconnect,hup.reader⟩,
        report_truthful s htruthful hconnected hreading,hsince,halive⟩
    · rw [if_neg (by rw [hdown.running]; decide)]
      exact ⟨down_control s _ hdown,htruthful,hsince,halive⟩
  | enable =>
    dsimp only [startStep] at hplaced ⊢
    obtain ⟨hrun,hreader,htimer,hconnected,hstatus⟩ := hplaced
    exact ⟨⟨⟨hrun,hreader,htimer,hconnected,hstatus⟩,rfl⟩,htruthful,hsince,halive⟩
  | setConnecting =>
    dsimp only [startStep]
    obtain ⟨⟨hrun,hreader,htimer,hconnected,-⟩,hshould⟩ := hplaced
    exact ⟨⟨⟨hrun,hreader,htimer,hconnected,fun h => (by cases h)⟩,hshould⟩,htruthful,
      fun h => (by cases h),halive⟩
  | connect =>
    dsimp only [startStep]
    obtain ⟨⟨hrun,hreader,htimer,hconnected,hstatus⟩,hshould⟩ := hplaced
    cases connects with
    | true =>
      exact ⟨⟨⟨hshould,hreader,htimer,rfl,rfl⟩,hrun,hstatus⟩,htruthful,fun _ => rfl,halive⟩
    | false =>
      cases adapter with
      | binance => exact ⟨Or.inr ⟨hrun,hreader,htimer,rfl,hstatus⟩,htruthful,hsince,halive⟩
      | thinMux =>
        exact ⟨Or.inr ⟨hrun,hreader,htimer,rfl,fun h => (by cases h)⟩,htruthful,
          fun h => (by cases h),halive⟩
  | setConnected =>
    dsimp only [startStep]
    obtain ⟨hopening,hrun,-⟩ := hplaced
    obtain ⟨hshould,hreader,htimer,hconnected,hopened⟩ := hopening
    exact ⟨⟨⟨hshould,hreader,htimer,hconnected,hopened⟩,hrun,rfl⟩,htruthful,fun _ => hopened,halive⟩
  | setRunning =>
    dsimp only [startStep]
    obtain ⟨⟨hshould,hreader,htimer,hconnected,hopened⟩,-,hstatus⟩ := hplaced
    exact ⟨⟨⟨hshould,hreader,htimer,hconnected,hopened⟩,rfl,hstatus⟩,htruthful,hsince,halive⟩
  | spawn =>
    dsimp only [startStep]
    obtain ⟨⟨hshould,hreader,htimer,hconnected,-⟩,hrun,hstatus⟩ := hplaced
    rw [spawnReader, if_pos hreader]
    exact ⟨Or.inl ⟨hrun,hshould,hstatus,hconnected,htimer⟩,
      report_truthful _ htruthful hconnected rfl,hsince,halive⟩

theorem stop_steady (s : Reconnection) (p : StopPlace) (hc : s.control = .stopping p)
    (h : Steady s) : Steady (s.stopStep p) := by
  obtain ⟨hplaced,htruthful,hsince,halive⟩ := h
  unfold Placed at hplaced
  rw [hc] at hplaced
  cases p with
  | checkRunning =>
    dsimp only [stopStep]
    rcases hplaced with hup | hdown
    · rw [if_pos hup.running]
      exact ⟨up_control s _ hup,htruthful,hsince,halive⟩
    · rw [if_neg (by rw [hdown.running]; decide)]
      exact ⟨Or.inr (down_control s _ hdown),htruthful,hsince,halive⟩
  | clearRunning => exact ⟨⟨rfl,up_calm s hplaced⟩,htruthful,hsince,halive⟩
  | disable =>
    dsimp only [stopStep] at hplaced ⊢
    exact ⟨⟨hplaced.running,hplaced.timer⟩,htruthful,hsince,halive⟩
  | joinReader =>
    dsimp only [stopStep] at hplaced ⊢
    split_ifs
    · exact ⟨⟨⟨hplaced.running,hplaced.timer⟩,rfl⟩,htruthful,hsince,halive⟩
    · exact ⟨by unfold Placed; rw [hc]; exact hplaced,htruthful,hsince,halive⟩
  | disconnect =>
    dsimp only [stopStep]
    obtain ⟨⟨hrun,htimer⟩,hreader⟩ := hplaced
    exact ⟨⟨⟨hrun,htimer⟩,hreader,rfl⟩,htruthful,hsince,halive⟩
  | joinTimer =>
    dsimp only [stopStep] at hplaced ⊢
    split_ifs
    · obtain ⟨⟨hrun,-⟩,hreader,hconnected⟩ := hplaced
      exact ⟨⟨⟨hrun,trivial⟩,hreader,hconnected,rfl⟩,htruthful,hsince,halive⟩
    · exact ⟨by unfold Placed; rw [hc]; exact hplaced,htruthful,hsince,halive⟩
  | setDisconnected =>
    dsimp only [stopStep]
    obtain ⟨⟨hrun,-⟩,hreader,hconnected,htimer⟩ := hplaced
    exact ⟨Or.inr ⟨hrun,hreader,htimer,hconnected,fun h => (by cases h)⟩,htruthful,
      fun h => (by cases h),halive⟩

structure Idle (s s' : Reconnection) : Prop where
  reader : s'.reader = .absent
  running : s'.running = s.running
  shouldReconnect : s'.shouldReconnect = s.shouldReconnect
  status : s'.status = s.status
  connected : s'.connected = s.connected
  connectedSince : s'.connectedSince = s.connectedSince
  timer : s.timer = .absent → s'.timer = .absent

theorem down_idle (s s' : Reconnection) (hi : Idle s s') (h : Down s) : Down s' where
  running := hi.running.trans h.running
  reader := hi.reader
  timer := hi.timer h.timer
  connected := hi.connected.trans h.connected
  status := hi.status ▸ h.status

theorem opening_idle (s s' : Reconnection) (hi : Idle s s') (h : Opening s) : Opening s' where
  shouldReconnect := hi.shouldReconnect.trans h.shouldReconnect
  reader := hi.reader
  timer := hi.timer h.timer
  connected := hi.connected.trans h.connected
  connectedSince := hi.connectedSince.trans h.connectedSince

/-- A step of another thread than the control thread: at each place it has to keep
a running or a halting feed, and where no reader is there it has to be idle. -/
theorem placed_kept (s s' : Reconnection) (hcontrol : s'.control = s.control)
    (hup : Up s → Up s') (hhalting : Halting s → Halting s')
    (hidle : s.reader = .absent → Idle s s') (h : Placed s) : Placed s' := by
  have hdown : Down s → Down s' := fun hd => down_idle s s' (hidle hd.reader) hd
  have hopening : Opening s → Opening s' := fun ho => opening_idle s s' (hidle ho.reader) ho
  unfold Placed at h ⊢
  rw [hcontrol]
  split at h
  case h_1 | h_2 | h_9 => exact h.imp hup hdown
  case h_3 => exact hdown h
  case h_4 | h_5 =>
    have hi := hidle h.1.reader
    exact ⟨hdown h.1,hi.shouldReconnect.trans h.2⟩
  case h_6 | h_7 | h_8 =>
    have hi := hidle h.1.reader
    rw [hi.running, hi.status]
    exact ⟨hopening h.1,h.2⟩
  case h_10 => exact hup h
  case h_11 | h_12 => exact hhalting h
  case h_13 => exact ⟨hhalting h.1,(hidle h.2).reader⟩
  case h_14 =>
    have hi := hidle h.2.1
    exact ⟨hhalting h.1,hi.reader,hi.connected.trans h.2.2⟩
  case h_15 =>
    have hi := hidle h.2.1
    exact ⟨hhalting h.1,hi.reader,hi.connected.trans h.2.2.1,hi.timer h.2.2.2⟩

theorem reader_steady (s : Reconnection) (outcome : ReadOutcome) (h : Steady s) :
    Steady (s.readerStep adapter outcome) := by
  obtain ⟨hplaced,htruthful,hsince,halive⟩ := h
  obtain ⟨hcontrol,hreports,hterminated⟩ := reader_control adapter s outcome
  refine ⟨?_,fun r hr => htruthful r (hreports ▸ hr),reader_since adapter s outcome hsince,
    hterminated.trans halive⟩
  refine placed_kept s _ hcontrol (reader_up adapter s outcome) (reader_halting adapter s outcome)
    (fun hreader => ?_) hplaced
  rw [reader_absent adapter s outcome hreader]
  exact ⟨hreader,rfl,rfl,rfl,rfl,rfl,fun ht => ht⟩

theorem timer_up (s : Reconnection) (t : TimerPlace) (h : Up s) (ht : Calm t)
    (habsent : s.timer = .absent → t = .absent) : Up { s with timer := t } := by
  refine ⟨h.running,h.shouldReconnect,?_⟩
  have hreader := h.reader
  unfold ReaderOk at hreader ⊢
  dsimp only
  split at hreader
  case h_1 => exact hreader
  case h_2 | h_3 => exact ⟨hreader.1,hreader.2.1,habsent hreader.2.2⟩
  case h_4 | h_5 | h_6 => exact habsent hreader
  case h_7 | h_8 | h_9 => exact ⟨hreader.1,habsent hreader.2⟩
  case h_10 => exact ⟨hreader.1,ht⟩

/-- The feed runs, is off, is being opened or is being stopped. -/
theorem placed_phase (s : Reconnection) (h : Placed s) :
    Up s ∨ Down s ∨ Opening s ∨ Halting s ∧ s.isHandling = true := by
  have hhandling : ∀ p, s.control = .stopping p → p ≠ .checkRunning → s.isHandling = true := by
    intro p hc hp
    simp [isHandling, hc, hp]
  unfold Placed at h
  split at h
  case h_1 | h_2 | h_9 => exact h.elim Or.inl (fun hd => Or.inr (Or.inl hd))
  case h_3 => exact Or.inr (Or.inl h)
  case h_4 | h_5 => exact Or.inr (Or.inl h.1)
  case h_6 | h_7 | h_8 => exact Or.inr (Or.inr (Or.inl h.1))
  case h_10 => exact Or.inl h
  case h_11 hc | h_12 hc => exact Or.inr (Or.inr (Or.inr ⟨h,hhandling _ hc (by decide)⟩))
  case h_13 hc | h_14 hc | h_15 hc =>
    exact Or.inr (Or.inr (Or.inr ⟨h.1,hhandling _ hc (by decide)⟩))

theorem placed_calm (s : Reconnection) (h : Placed s) : Calm s.timer := by
  rcases placed_phase s h with hup | hdown | hopening | ⟨hhalting,-⟩
  · exact up_calm s hup
  · rw [hdown.timer]
    trivial
  · rw [hopening.timer]
    trivial
  · exact hhalting.timer

theorem timer_steady (s : Reconnection) (connects : Bool) (h : Steady s)
    (hok : Orderly s (.timer connects)) : Steady (s.timerStep adapter connects) := by
  obtain ⟨hplaced,htruthful,hsince,halive⟩ := h
  obtain ⟨t,ht,habsent,hstep⟩ := timer_calm adapter s connects (placed_calm s hplaced) hok
  rw [hstep]
  exact ⟨placed_kept s { s with timer := t } rfl (fun hup => timer_up s t hup ht habsent)
    (fun hhalting => ⟨hhalting.running,ht⟩) (fun hreader => ⟨hreader,rfl,rfl,rfl,rfl,rfl,habsent⟩)
    hplaced,htruthful,hsince,halive⟩

theorem begin_steady (s : Reconnection) (c : ControlPlace)
    (hc : c = .starting .checkRunning ∨ c = .stopping .checkRunning) (h : Steady s) :
    Steady (if s.control = .outside then { s with control := c } else s) := by
  split_ifs with houtside
  · have hplaced := h.placed
    unfold Placed at hplaced
    rw [houtside] at hplaced
    rcases hc with rfl | rfl
    all_goals exact ⟨hplaced.imp (up_control s _) (down_control s _),h.truthful,h.since,h.alive⟩
  · exact h

theorem step_steady (s : Reconnection) (a : Action) (hok : Orderly s a) (h : Steady s) :
    Steady (step adapter s a) := by
  rw [step, if_neg (by rw [h.alive]; decide)]
  cases a with
  | start => exact begin_steady s _ (Or.inl rfl) h
  | stop => exact begin_steady s _ (Or.inr rfl) h
  | control connects =>
    cases hc : s.control with
    | outside =>
      have hsame : move adapter s (.control connects) = s := by rw [move, controlStep, hc]
      rw [hsame]
      exact h
    | starting p => exact start_steady adapter s connects p hc h hok
    | stopping p =>
      have hstop : move adapter s (.control connects) = s.stopStep p := by rw [move, controlStep, hc]
      rw [hstop]
      exact stop_steady s p hc h
  | reader outcome => exact reader_steady adapter s outcome h
  | timer connects => exact timer_steady adapter s connects h hok

theorem initial_steady : Steady {} :=
  ⟨Or.inr ⟨rfl,rfl,rfl,rfl,fun h => (by cases h)⟩,fun _ hr => (nomatch hr),fun h => (by cases h),rfl⟩

theorem up_status (s : Reconnection) (h : Up s) (hstatus : s.status = .connected) :
    s.connected = true ∨ s.isHandling = true := by
  have hreader := h.reader
  unfold ReaderOk at hreader
  cases hr : s.reader <;> rw [hr] at hreader
  case absent => exact hreader.elim
  case loop | read => exact Or.inl hreader.2.1
  case left | mayReconnect | setDisconnected => exact Or.inr (by simp [isHandling, hr])
  case onDisconnected | startTimer | joinTimer =>
    rw [hreader.1] at hstatus
    cases hstatus
  case ended =>
    rw [hreader.1] at hstatus
    cases hstatus

theorem placed_status (s : Reconnection) (h : Placed s) (hstatus : s.status = .connected) :
    s.connected = true ∨ s.isHandling = true := by
  rcases placed_phase s h with hup | hdown | hopening | ⟨-,hhandling⟩
  · exact up_status s hup hstatus
  · exact absurd hstatus hdown.status
  · exact Or.inl hopening.connected
  · exact Or.inr hhandling

/-- Whatever the network does and however the threads interleave, the adapters are
sound in every state of an orderly run. -/
theorem orderly_sound (actions : List Action)
    (hok : Schedule.Allowed (step adapter) Orderly actions {}) :
    Sound (Schedule.run (step adapter) actions {}) := by
  have hsteady := Schedule.invariant (step adapter) Orderly Steady (step_steady adapter) actions {} hok
    initial_steady
  exact ⟨hsteady.truthful,hsteady.since,placed_status _ hsteady.placed⟩

/-- A delay that ends while the feed runs leads to a false report, whoever else
keeps still. -/
theorem woken_reportsFalsely (s : Reconnection) (h : Up s) (hwoken : s.timer = .woken)
    (halive : s.terminated = false) (connects : Bool) :
    ¬Sound (Schedule.run (step adapter) [.timer connects,.timer connects,.timer connects] s) := by
  have hreader := h.reader
  obtain ⟨running,shouldReconnect,status,connected,attempts,count,control,reader,timer,terminated,
    connectedSince,reports⟩ := s
  dsimp only at hwoken halive
  subst hwoken halive
  have hrun : running = true := h.running
  have hshould : shouldReconnect = true := h.shouldReconnect
  subst hrun hshould
  cases reader
  case absent => exact hreader.elim
  case loop | read =>
    have hnone : TimerPlace.woken = .absent := hreader.2.2
    cases hnone
  case left | mayReconnect | setDisconnected =>
    have hnone : TimerPlace.woken = .absent := hreader
    cases hnone
  case onDisconnected | startTimer | joinTimer =>
    have hnone : TimerPlace.woken = .absent := hreader.2
    cases hnone
  case ended =>
    intro hsound
    cases adapter with
    | binance =>
      have hreport := hsound.reports ⟨connected,false⟩ (List.mem_append_right _ (List.mem_singleton_self _))
      exact Bool.false_ne_true hreport.2
    | thinMux =>
      have hreport := hsound.reports ⟨connected,false⟩ (List.mem_append_right _ (List.mem_singleton_self _))
      exact Bool.false_ne_true hreport.2

end Invariant

section Example

def lostFeed : List Action :=
  [Action.start]++List.replicate 7 (Action.control true)++[Action.reader .message,Action.reader .failed]++
    List.replicate 6 (Action.reader .failed)++List.replicate 6 (Action.timer true)

theorem lostFeed_reports (adapter : Adapter) :
    (Schedule.run (step adapter) lostFeed {}).reports = [⟨true,true⟩,⟨false,false⟩] := by
  cases adapter <;> decide

/-- After the delay `BinanceAdapter` finds itself running, calls this a successful
reconnection and resets its attempts; `ThinMuxAdapter` counts a reconnection.
Neither has a connection or a reader. -/
theorem lostFeed_unsound :
    (¬Sound (Schedule.run (step .binance) lostFeed {}) ∧
        (Schedule.run (step .binance) lostFeed {}).reconnectionAttempts = 0) ∧
      ¬Sound (Schedule.run (step .thinMux) lostFeed {}) ∧
        (Schedule.run (step .thinMux) lostFeed {}).reconnections = 1 := by
  have hunsound : ∀ adapter, ¬Sound (Schedule.run (step adapter) lostFeed {}) := by
    intro adapter hsound
    have hreport := hsound.reports ⟨false,false⟩ (by rw [lostFeed_reports]; decide)
    exact absurd hreport.1 (by decide)
  exact ⟨⟨hunsound .binance,by decide⟩,hunsound .thinMux,by decide⟩

def stoppedFeed : List Action :=
  [Action.start]++List.replicate 7 (Action.control true)++[Action.reader .message,Action.reader .failed]++
    List.replicate 6 (Action.reader .failed)++[Action.timer true,Action.stop]++List.replicate 5 (Action.control true)++
    [Action.timer true]++List.replicate 2 (Action.control true)++[Action.start]++List.replicate 7 (Action.control true)

theorem stoppedFeed_sound : (Schedule.run (step .binance) stoppedFeed {}).status = .connected ∧
    Sound (Schedule.run (step .binance) stoppedFeed {}) :=
  ⟨by decide,orderly_sound .binance stoppedFeed (by decide)⟩

end Example
end Reconnection
end Chronos
