import Chronos.ApiKeyEncryptor
import Chronos.CriticalSections

/-!
# The token validator

A token is accepted when it is the configured one and the limit of requests
per second is not used up. The second and the number of requests are two
atomic variables, so threads mix between any two accesses: the winner of the
exchange may store its zero long after others have counted, and a thread with
an old reading of the clock may set the second back.

The number of calls that were counted and that passed the limit, of exchanges
that were won, of zeros that were stored, and the answers are kept beside.
The counters of answers have 64 bits and are not reduced.
-/

set_option autoImplicit false

namespace Chronos
open ApiKeyEncryptor CriticalSections

structure TokenValidator where
  validToken : Bytes
  maxRequestsPerSecond : ℕ := 10
  currentSecond : ℕ := 0
  requestsThisSecond : ℕ := 0
  accepted : ℕ := 0
  rejected : ℕ := 0
  counted : ℕ := 0
  admitted : ℕ := 0
  compared : ℕ := 0
  rollovers : ℕ := 0
  clears : ℕ := 0
  answers : List (Bytes × Bool) := []

namespace TokenValidator

def difference : Bytes → Bytes → UInt8
  | a::as,b::bs => (a ^^^ b) ||| difference as bs
  | _,_ => 0

def constantTimeEquals (a b : Bytes) : Bool :=
  if a.length ≠ b.length then false else difference a b = 0

theorem or_eq_zero (x y : UInt8) (h : x ||| y = 0) : x = 0 ∧ y = 0 := by
  have hbits := congrArg UInt8.toNat h
  rw [UInt8.toNat_or] at hbits
  obtain ⟨hx,hy⟩ := Nat.or_eq_zero_iff.mp hbits
  exact ⟨UInt8.toNat.inj hx,UInt8.toNat.inj hy⟩

theorem difference_eq_zero (a b : Bytes) (hl : a.length = b.length) : difference a b = 0 ↔ a = b := by
  induction a generalizing b with
  | nil =>
    cases b with
    | nil => exact ⟨fun _ => rfl,fun _ => rfl⟩
    | cons y b => exact absurd hl (by simp)
  | cons x a ih =>
    cases b with
    | nil => exact absurd hl (by simp)
    | cons y b =>
      have htail := ih b (Nat.succ.inj hl)
      constructor
      · intro h
        obtain ⟨hhead,hrest⟩ := or_eq_zero _ _ h
        rw [UInt8.xor_eq_zero_iff.mp hhead, htail.mp hrest]
      · intro h
        obtain ⟨rfl,hrest⟩ := List.cons.inj h
        rw [difference, htail.mpr hrest, UInt8.xor_self]
        rfl

theorem constantTimeEquals_iff (a b : Bytes) : constantTimeEquals a b = true ↔ a = b := by
  unfold constantTimeEquals
  split_ifs with hl
  · exact ⟨fun h => h.elim,fun h => absurd (congrArg List.length h) hl⟩
  · rw [decide_eq_true_eq]
    exact difference_eq_zero a b (not_not.mp hl)

section Functions
variable (v : TokenValidator)

def nextRequest : ℕ := (v.requestsThisSecond+1)%2^32

def clear : TokenValidator := { v with requestsThisSecond := 0, clears := v.clears+1 }

def rollover (now : ℕ) : TokenValidator := { v with currentSecond := now, rollovers := v.rollovers+1 }

def count : TokenValidator :=
  { v with
    requestsThisSecond := v.nextRequest
    counted := v.counted+1
    admitted := if v.nextRequest ≤ v.maxRequestsPerSecond then v.admitted+1 else v.admitted }

def answer (token : Bytes) (ok : Bool) : TokenValidator :=
  { v with
    accepted := if ok then v.accepted+1 else v.accepted
    rejected := if ok then v.rejected else v.rejected+1
    answers := v.answers++[(token,ok)] }

def compare (token : Bytes) : TokenValidator :=
  { v.answer token (constantTimeEquals token v.validToken) with compared := v.compared+1 }

def checkRateLimit (now : ℕ) : TokenValidator × Bool :=
  let v := if v.currentSecond ≠ now then (v.rollover now).clear else v
  (v.count,v.nextRequest ≤ v.maxRequestsPerSecond)

def validate (token : Bytes) (now : ℕ) : TokenValidator :=
  let (v,passed) := v.checkRateLimit now
  if passed then v.compare token else v.answer token false

def resetRateLimit : TokenValidator := { v with currentSecond := 0 }.clear

end Functions

inductive Access where
  | load (token : Bytes) (now : ℕ)
  | exchange (token : Bytes) (now previous : ℕ)
  | clear
  | count (token : Bytes)
  | compare (token : Bytes)
  | refuse (token : Bytes)
  | forget

def perform (v : TokenValidator) : Access → TokenValidator × List Access
  | .load token now =>
    (v,if v.currentSecond ≠ now then [.exchange token now v.currentSecond] else [.count token])
  | .exchange token now previous =>
    if v.currentSecond = previous then (v.rollover now,[.clear,.count token]) else (v,[.count token])
  | .clear => (v.clear,[])
  | .count token =>
    (v.count,if v.nextRequest ≤ v.maxRequestsPerSecond then [.compare token] else [.refuse token])
  | .compare token => (v.compare token,[])
  | .refuse token => (v.answer token false,[])
  | .forget => ({ v with currentSecond := 0 },[])

inductive Call where
  | validate (token : Bytes) (now : ℕ)
  | reset

def Call.accesses : Call → List Access
  | .validate token now => [.load token now]
  | .reset => [.forget,.clear]

def Call.apply (v : TokenValidator) : Call → TokenValidator
  | .validate token now => v.validate token now
  | .reset => v.resetRateLimit

section Solo
variable (v : TokenValidator)

theorem count_solo (token : Bytes) : Completes perform v [.count token]
    (if v.nextRequest ≤ v.maxRequestsPerSecond then v.count.compare token else v.count.answer token false) := by
  by_cases hn : v.nextRequest ≤ v.maxRequestsPerSecond
  · have hcount : perform v (.count token) = (v.count,[.compare token]) := by
      rw [perform, if_pos hn]
    rw [if_pos hn]
    exact .goesOn hcount (.one rfl)
  · have hcount : perform v (.count token) = (v.count,[.refuse token]) := by
      rw [perform, if_neg hn]
    rw [if_neg hn]
    exact .goesOn hcount (.one rfl)

/-- A call without interference does what the function does. -/
theorem call_solo (c : Call) : Completes perform v c.accesses (c.apply v) := by
  cases c with
  | reset => exact .then rfl (.one rfl)
  | validate token now =>
    by_cases hs : v.currentSecond = now
    · have hload : perform v (.load token now) = (v,[.count token]) := by
        rw [perform, if_neg (not_not.mpr hs)]
      have happly : Call.apply v (.validate token now) =
          if v.nextRequest ≤ v.maxRequestsPerSecond then v.count.compare token
          else v.count.answer token false := by
        simp only [Call.apply, validate, checkRateLimit, if_neg (not_not.mpr hs), decide_eq_true_eq]
      rw [happly]
      exact .goesOn hload (v.count_solo token)
    · have hload : perform v (.load token now) = (v,[.exchange token now v.currentSecond]) := by
        rw [perform, if_pos hs]
      have hexchange : perform v (.exchange token now v.currentSecond) =
          (v.rollover now,[.clear,.count token]) := by rw [perform, if_pos rfl]
      have happly : Call.apply v (.validate token now) =
          if (v.rollover now).clear.nextRequest ≤ v.maxRequestsPerSecond then
            (v.rollover now).clear.count.compare token
          else (v.rollover now).clear.count.answer token false := by
        simp only [Call.apply, validate, checkRateLimit, if_pos hs, decide_eq_true_eq]
        rfl
      rw [happly]
      exact .goesOn hload (.goesOn hexchange (.then rfl ((v.rollover now).clear.count_solo token)))

end Solo

section Accounts

/-- Counted calls, answers, calls that passed the limit and were not compared
yet, and exchanges won before their zero was stored. -/
def account (v : TokenValidator) : ℤ × ℤ × ℤ × ℤ :=
  (v.counted,v.accepted+v.rejected,v.compared-v.admitted,v.rollovers-v.clears)

def owed : Access → ℤ × ℤ × ℤ × ℤ
  | .load _ _ => (1,1,0,0)
  | .exchange _ _ _ => (1,1,0,0)
  | .clear => (0,0,0,-1)
  | .count _ => (1,1,0,0)
  | .compare _ => (0,1,1,0)
  | .refuse _ => (0,1,0,0)
  | .forget => 0

def Call.owes : Call → ℤ × ℤ × ℤ × ℤ
  | .validate _ _ => (1,1,0,0)
  | .reset => (0,0,0,-1)

theorem accesses_owed (c : Call) : (c.accesses.map owed).sum = c.owes := by
  cases c <;> simp [Call.accesses, owed, Call.owes]

theorem answer_count (v : TokenValidator) (token : Bytes) (ok : Bool) :
    ((v.answer token ok).accepted : ℤ)+(v.answer token ok).rejected = v.accepted+v.rejected+1 := by
  cases ok <;> simp only [answer] <;> push_cast <;> ring

theorem perform_balanced : Balanced perform (fun _ => True) (fun _ => True) account owed := by
  intro v a _ _
  cases a with
  | load token now =>
    simp only [perform]
    split_ifs <;> simp [owed]
  | exchange token now previous =>
    simp only [perform]
    split_ifs
    · simp [account, rollover, owed]
      ring
    · simp [owed]
  | clear =>
    simp [perform, account, clear, owed]
    ring
  | count token =>
    simp only [perform]
    by_cases hn : v.nextRequest ≤ v.maxRequestsPerSecond
    · simp [account, count, owed, hn]
      ring
    · simp [account, count, owed, hn]
  | compare token =>
    have hcount := v.answer_count token (constantTimeEquals token v.validToken)
    simp only [perform, account, compare, owed, List.map_nil, List.sum_nil, add_zero, Prod.mk_add_mk,
      Prod.mk.injEq]
    refine ⟨rfl,hcount,?_,rfl⟩
    push_cast
    simp only [answer]
    ring
  | refuse token =>
    have hcount := v.answer_count token false
    simp only [perform, account, owed, List.map_nil, List.sum_nil, add_zero, Prod.mk_add_mk, Prod.mk.injEq]
    exact ⟨rfl,hcount,rfl,rfl⟩
  | forget => rfl

end Accounts

section Invariant
variable (token : Bytes) (limit : ℕ)

/-- Only while the 32-bit number of requests has not wrapped around does the
limit bound the calls admitted since `admitted` were and `clears` zeros had
been stored. -/
def Window (admitted clears : ℕ) (v : TokenValidator) : Prop :=
  v.counted < 2^32 → v.requestsThisSecond ≤ v.counted ∧
    v.admitted+limit*clears ≤ admitted+limit*v.clears+min v.requestsThisSecond limit

structure Kept (v : TokenValidator) : Prop where
  sameToken : v.validToken = token
  sameLimit : v.maxRequestsPerSecond = limit
  window : Window limit 0 0 v
  genuine : ∀ x ∈ v.answers, x.2 = true → x.1 = token
  accepted : v.accepted = v.answers.countP Prod.snd
  answered : v.accepted+v.rejected = v.answers.length
  compared : v.accepted ≤ v.compared

theorem new_kept : Kept token limit { validToken := token, maxRequestsPerSecond := limit } where
  sameToken := rfl
  sameLimit := rfl
  window _ := ⟨le_rfl,Nat.zero_le _⟩
  genuine _ hx := absurd hx List.not_mem_nil
  accepted := rfl
  answered := rfl
  compared := le_rfl

variable {token limit} (v : TokenValidator)

theorem clear_window (admitted clears : ℕ) (h : Window limit admitted clears v) :
    Window limit admitted clears v.clear := by
  intro hc
  have hadmitted := (h hc).2
  refine ⟨Nat.zero_le _,?_⟩
  show v.admitted+limit*clears ≤ admitted+limit*(v.clears+1)+min 0 limit
  have hmin : min v.requestsThisSecond limit ≤ limit := min_le_right _ _
  rw [Nat.mul_succ, Nat.zero_min, add_zero]
  omega

theorem count_window (admitted clears : ℕ) (hl : v.maxRequestsPerSecond = limit)
    (h : Window limit admitted clears v) : Window limit admitted clears v.count := by
  intro hc
  have hcounted : v.counted+1 < 2^32 := hc
  obtain ⟨hrequests,hadmitted⟩ := h (by omega)
  have hnext : v.nextRequest = v.requestsThisSecond+1 := Nat.mod_eq_of_lt (by omega)
  simp only [count, hnext, hl]
  refine ⟨by omega,?_⟩
  split_ifs with hn
  · rw [min_eq_left hn]
    rw [min_eq_left (by omega : v.requestsThisSecond ≤ limit)] at hadmitted
    omega
  · have hmono : min v.requestsThisSecond limit ≤ min (v.requestsThisSecond+1) limit :=
      min_le_min_right limit (Nat.le_succ _)
    omega

theorem clear_kept (h : Kept token limit v) : Kept token limit v.clear :=
  ⟨h.sameToken,h.sameLimit,clear_window v 0 0 h.window,h.genuine,h.accepted,h.answered,h.compared⟩

theorem count_kept (h : Kept token limit v) : Kept token limit v.count :=
  ⟨h.sameToken,h.sameLimit,count_window v 0 0 h.sameLimit h.window,h.genuine,h.accepted,h.answered,
    h.compared⟩

theorem answer_kept (w : TokenValidator) (t : Bytes) (ok : Bool) (compared : ℕ)
    (hok : ok = true → t = token) (hcompared : (v.answer t ok).accepted ≤ compared)
    (hw : w = { v.answer t ok with compared := compared }) (h : Kept token limit v) :
    Kept token limit w := by
  rw [hw]
  constructor
  case sameToken => exact h.sameToken
  case sameLimit => exact h.sameLimit
  case window => exact h.window
  case genuine =>
    intro x hx hx2
    rcases List.mem_append.mp hx with hx | hx
    · exact h.genuine x hx hx2
    · obtain rfl := List.mem_singleton.mp hx
      exact hok hx2
  case accepted =>
    simp only [answer, List.countP_append, List.countP_singleton, h.accepted]
    cases ok <;> simp
  case answered =>
    have hanswered := h.answered
    simp only [answer, List.length_append, List.length_singleton]
    cases ok
    · simp
      omega
    · simp
      omega
  case compared => exact hcompared

theorem compare_kept (t : Bytes) (h : Kept token limit v) : Kept token limit (v.compare t) := by
  apply answer_kept v _ t (constantTimeEquals t v.validToken) (v.compared+1) _ _ rfl h
  · intro hok
    rw [(constantTimeEquals_iff t v.validToken).mp hok, h.sameToken]
  · have hcompared := h.compared
    simp only [answer]
    split_ifs <;> omega

theorem refuse_kept (t : Bytes) (h : Kept token limit v) : Kept token limit (v.answer t false) :=
  answer_kept v _ t false v.compared (fun hok => Bool.noConfusion hok) h.compared rfl h

theorem second_kept (now rollovers : ℕ) (h : Kept token limit v) :
    Kept token limit { v with currentSecond := now, rollovers := rollovers } :=
  ⟨h.sameToken,h.sameLimit,h.window,h.genuine,h.accepted,h.answered,h.compared⟩

theorem perform_kept : Closed perform (Kept token limit) (fun _ => True) where
  keeps v a _ h := by
    cases a with
    | load t now => exact h
    | exchange t now previous =>
      simp only [perform]
      split_ifs
      · exact second_kept v now (v.rollovers+1) h
      · exact h
    | clear => exact clear_kept v h
    | count t => exact count_kept v h
    | compare t => exact compare_kept v t h
    | refuse t => exact refuse_kept v t h
    | forget => exact second_kept v 0 v.rollovers h
  goesOn _ _ _ _ _ _ := trivial

end Invariant

section Runs
variable {n : ℕ} (token : Bytes) (limit : ℕ)

def start (n : ℕ) : State n TokenValidator Access :=
  opened n { validToken := token, maxRequestsPerSecond := limit }

def act : State n TokenValidator Access → Move n Call → State n TokenValidator Access :=
  Move.step perform Call.accesses

def Call.isValidate : Call → Bool
  | .validate _ _ => true
  | .reset => false

theorem calls_owe (calls : List Call) : (calls.map Call.owes).sum =
    ((calls.countP Call.isValidate : ℤ),(calls.countP Call.isValidate : ℤ),0,
      -(calls.countP (fun c => !c.isValidate) : ℤ)) := by
  induction calls with
  | nil => rfl
  | cons c calls ih =>
    rw [List.map_cons, List.sum_cons, ih]
    cases c with
    | validate token now =>
      simp [Call.owes, Call.isValidate, List.countP_cons]
      ring
    | reset => simp [Call.owes, Call.isValidate]

/-- What a thread still owes is not negative, but for the zeros it will store. -/
theorem debt_bounds (as : List Access) : 0 ≤ ((as.map owed).sum).1 ∧ 0 ≤ ((as.map owed).sum).2.2.1 ∧
    ((as.map owed).sum).2.2.2 ≤ 0 := by
  induction as with
  | nil => exact ⟨le_rfl,le_rfl,le_rfl⟩
  | cons a as ih =>
    obtain ⟨hcounted,hcompared,hclears⟩ := ih
    rw [List.map_cons, List.sum_cons]
    cases a <;> simp only [owed, Prod.fst_add, Prod.snd_add, Prod.fst_zero, Prod.snd_zero] <;>
      exact ⟨by omega,by omega,by omega⟩

theorem debts_bounds (s : State n TokenValidator Access) : 0 ≤ (∑ i, debt owed s i).1 ∧
    0 ≤ (∑ i, debt owed s i).2.2.1 ∧ (∑ i, debt owed s i).2.2.2 ≤ 0 := by
  rw [Prod.fst_sum, Prod.snd_sum, Prod.snd_sum, Prod.fst_sum, Prod.snd_sum]
  exact ⟨Finset.sum_nonneg (fun i _ => (debt_bounds (s.rest i)).1),
    Finset.sum_nonneg (fun i _ => (debt_bounds (s.rest i)).2.1),
    Finset.sum_nonpos (fun i _ => (debt_bounds (s.rest i)).2.2)⟩

theorem run_account (moves : List (Move n Call))
    (hfits : Schedule.Allowed act Move.Fits moves (start token limit n)) :
    account (Schedule.run act moves (start token limit n)).shared+
        ∑ i, debt owed (Schedule.run act moves (start token limit n)) i =
      (((callsOf moves).countP Call.isValidate : ℤ),((callsOf moves).countP Call.isValidate : ℤ),0,
        -((callsOf moves).countP (fun c => !c.isValidate) : ℤ)) := by
  have htotal : total account owed (Schedule.run act moves (start token limit n)) =
      total account owed (start token limit n)+((callsOf moves).map Call.owes).sum :=
    moves_total closed_true perform_balanced accesses_owed moves _ (fun _ _ _ _ => trivial) hfits
      (opened_holds _ _ _ trivial)
  rw [calls_owe, total_quiet (start token limit n) (fun _ => rfl)] at htotal
  exact htotal.trans (zero_add _)

/-- Between any two accesses: only the configured token is accepted, the
answers are counted, and each zero that was stored lets the limit through once
more. A zero is stored after an exchange was won or by a reset. -/
structure Limited (v : TokenValidator) (calls : List Call) : Prop where
  genuine : ∀ x ∈ v.answers, x.2 = true → x.1 = token
  accepted : v.accepted = v.answers.countP Prod.snd
  answered : v.accepted+v.rejected = v.answers.length
  bounded : v.accepted ≤ limit*(v.clears+1)
  clears : v.clears ≤ v.rollovers+calls.countP (fun c => !c.isValidate)

theorem run_kept (moves : List (Move n Call)) :
    Kept token limit (Schedule.run act moves (start token limit n)).shared :=
  (moves_holds perform_kept moves (start token limit n) (fun _ _ _ _ => trivial)
    (opened_holds _ _ _ (new_kept token limit))).shared

theorem run_counted (moves : List (Move n Call))
    (hfits : Schedule.Allowed act Move.Fits moves (start token limit n)) :
    (Schedule.run act moves (start token limit n)).shared.counted ≤ (callsOf moves).countP Call.isValidate := by
  have hone := congrArg Prod.fst (run_account token limit moves hfits)
  have hdebts := (debts_bounds (Schedule.run act moves (start token limit n))).1
  simp only [account, Prod.fst_add] at hone
  omega

theorem run_limited (moves : List (Move n Call))
    (hfits : Schedule.Allowed act Move.Fits moves (start token limit n))
    (hfew : (callsOf moves).countP Call.isValidate < 2^32) :
    Limited token limit (Schedule.run act moves (start token limit n)).shared (callsOf moves) := by
  have hkept := run_kept token limit moves
  have hcounted := run_counted token limit moves hfits
  have haccount := run_account token limit moves hfits
  obtain ⟨-,hcompared,hclears⟩ := debts_bounds (Schedule.run act moves (start token limit n))
  generalize Schedule.run act moves (start token limit n) = s at hkept haccount hcounted hcompared hclears ⊢
  have hthree := congrArg (fun x => x.2.2.1) haccount
  have hfour := congrArg (fun x => x.2.2.2) haccount
  simp only [account, Prod.fst_add, Prod.snd_add] at hthree hfour
  refine ⟨hkept.genuine,hkept.accepted,hkept.answered,?_,by omega⟩
  have hadmitted := (hkept.window (by omega)).2
  rw [Nat.mul_zero, Nat.add_zero, Nat.zero_add] at hadmitted
  have hmin : min s.shared.requestsThisSecond limit ≤ limit := min_le_right _ _
  have hcomp := hkept.compared
  rw [Nat.mul_succ]
  omega

/-- Once every thread is outside, every call was answered. -/
theorem quiet_answered (moves : List (Move n Call))
    (hfits : Schedule.Allowed act Move.Fits moves (start token limit n))
    (hquiet : Quiet (Schedule.run act moves (start token limit n))) :
    (Schedule.run act moves (start token limit n)).shared.accepted+
        (Schedule.run act moves (start token limit n)).shared.rejected =
      (callsOf moves).countP Call.isValidate := by
  have haccount := run_account token limit moves hfits
  have hnone : ∑ i, debt owed (Schedule.run act moves (start token limit n)) i = 0 := by
    apply Finset.sum_eq_zero
    intro i _
    rw [debt, hquiet i]
    rfl
  rw [hnone, add_zero] at haccount
  have htwo := congrArg (fun x => x.2.1) haccount
  simp only [account] at htwo
  omega

/-- However the threads mix, the limit holds for each zero that was stored, and
no call goes without an answer. -/
theorem tokens_limited (moves : List (Move n Call))
    (hfits : Schedule.Allowed act Move.Fits moves (start token limit n))
    (hfew : (callsOf moves).countP Call.isValidate < 2^32) :
    Limited token limit (Schedule.run act moves (start token limit n)).shared (callsOf moves) ∧
      (Quiet (Schedule.run act moves (start token limit n)) →
        (Schedule.run act moves (start token limit n)).shared.answers.length =
          (callsOf moves).countP Call.isValidate) := by
  have hlimited := run_limited token limit moves hfits hfew
  exact ⟨hlimited,fun hquiet => hlimited.answered.symm.trans (quiet_answered token limit moves hfits hquiet)⟩

end Runs

section OneSecond
variable {n : ℕ} (second : ℕ)

theorem perform_window (limit admitted clears : ℕ) : Closed perform
    (fun v => v.maxRequestsPerSecond = limit ∧ Window limit admitted clears v) (fun _ => True) where
  keeps v a _ h := by
    cases a with
    | exchange t now previous =>
      simp only [perform]
      split_ifs <;> exact h
    | clear => exact ⟨h.1,clear_window v admitted clears h.2⟩
    | count t => exact ⟨h.1,count_window v admitted clears h.1 h.2⟩
    | _ => exact h
  goesOn _ _ _ _ _ _ := trivial

def Access.accepts : Access → ℤ
  | .compare _ => 1
  | _ => 0

theorem perform_accepts :
    Covered perform (fun v => (v.accepted : ℤ)-v.admitted) Access.accepts := by
  intro v a
  cases a with
  | load t now =>
    simp only [perform]
    split_ifs <;> simp [Access.accepts]
  | exchange t now previous =>
    simp only [perform]
    split_ifs <;> simp [Access.accepts, rollover]
  | count t =>
    simp only [perform]
    by_cases hn : v.nextRequest ≤ v.maxRequestsPerSecond
    · simp [count, hn, Access.accepts]
    · simp [count, hn, Access.accepts]
  | compare t =>
    simp only [perform, compare, answer, Access.accepts, List.map_nil, List.sum_nil, add_zero]
    split_ifs <;> omega
  | _ => simp [perform, clear, answer, Access.accepts]

def Access.zeros : Access → ℤ
  | .load _ now => if now = second then 0 else 2
  | .exchange _ now previous => if now = second ∧ previous ≠ second then 0 else 2
  | .clear => 1
  | .forget => 1
  | _ => 0

/-- The zeros stored, and one more while an exchange can set the second. -/
def zerosDue (v : TokenValidator) : ℤ := v.clears+if v.currentSecond = second then 0 else 1

theorem perform_zeros : Covered perform (zerosDue second) (Access.zeros second) := by
  intro v a
  cases a with
  | load t now =>
    simp only [perform]
    split_ifs with hs
    · by_cases hn : now = second
      · simp [Access.zeros, hn, hn ▸ hs]
      · simp [Access.zeros, hn]
    · simp only [Access.zeros, List.map_cons, List.map_nil, List.sum_cons, List.sum_nil]
      split_ifs <;> omega
  | exchange t now previous =>
    simp only [perform, Access.zeros]
    split_ifs with hwon hclock
    · obtain ⟨rfl,hprevious⟩ := hclock
      simp [zerosDue, rollover, Access.zeros, hwon, hprevious]
    · simp only [zerosDue, rollover, List.map_cons, List.map_nil, List.sum_cons, List.sum_nil, Access.zeros]
      split_ifs <;> omega
    · simp [Access.zeros]
    · simp [Access.zeros]
  | clear =>
    simp [perform, zerosDue, clear, Access.zeros]
    omega
  | count t =>
    simp only [perform]
    split_ifs
    · exact le_of_eq rfl
    · exact le_of_eq rfl
  | forget =>
    simp only [perform, zerosDue, Access.zeros, List.map_nil, List.sum_nil]
    split_ifs <;> omega
  | compare t => exact le_of_eq rfl
  | refuse t => exact le_of_eq rfl

def Call.InSecond : Call → Prop
  | .validate _ now => now = second
  | .reset => True

def left (s : State n TokenValidator Access) : ℕ := ∑ i, (s.rest i).length

def resets (moves : List (Move n Call)) : ℕ := (callsOf moves).countP (fun c => !c.isValidate)

theorem accesses_within (w : Access → ℤ) (most : ℤ) (hw : ∀ a, 0 ≤ w a ∧ w a ≤ most) (as : List Access) :
    0 ≤ (as.map w).sum ∧ (as.map w).sum ≤ most*as.length := by
  induction as with
  | nil => simp
  | cons a as ih =>
    obtain ⟨hlow,hhigh⟩ := hw a
    rw [List.map_cons, List.sum_cons, List.length_cons]
    push_cast
    exact ⟨by omega,by linarith⟩

theorem debts_within (w : Access → ℤ) (most : ℤ) (hw : ∀ a, 0 ≤ w a ∧ w a ≤ most)
    (s : State n TokenValidator Access) : 0 ≤ ∑ i, debt w s i ∧ ∑ i, debt w s i ≤ most*left s := by
  refine ⟨Finset.sum_nonneg (fun i _ => (accesses_within w most hw (s.rest i)).1),?_⟩
  rw [left, Nat.cast_sum, Finset.mul_sum]
  exact Finset.sum_le_sum (fun i _ => (accesses_within w most hw (s.rest i)).2)

/-- Only resets may store a zero of their own while the clocks show the second. -/
theorem calls_zeros (calls : List Call) (h : ∀ c ∈ calls, c.InSecond second) :
    (calls.map (fun c => (c.accesses.map (Access.zeros second)).sum)).sum =
      2*(calls.countP (fun c => !c.isValidate) : ℤ) := by
  induction calls with
  | nil => rfl
  | cons c calls ih =>
    have hrest := ih (fun d hd => h d (List.mem_cons_of_mem c hd))
    have hc := h c List.mem_cons_self
    rw [List.map_cons, List.sum_cons, hrest]
    cases c with
    | validate t now =>
      obtain rfl : now = second := hc
      simp [Call.accesses, Access.zeros, Call.isValidate]
    | reset =>
      simp [Call.accesses, Access.zeros, Call.isValidate]
      ring

section Stretch
variable (token : Bytes) (limit : ℕ) (before during : List (Move n Call))
  (hfits : Schedule.Allowed act Move.Fits (before++during) (start token limit n))
include hfits

theorem stretch_fits : Schedule.Allowed act Move.Fits during (Schedule.run act before (start token limit n)) :=
  ((Schedule.allowed_append act Move.Fits before during _).mp hfits).2

/-- What is accepted is admitted in the stretch, or was before. -/
theorem stretch_accepted :
    ((Schedule.run act (before++during) (start token limit n)).shared.accepted : ℤ)-
        (Schedule.run act (before++during) (start token limit n)).shared.admitted ≤
      (Schedule.run act before (start token limit n)).shared.accepted-
        (Schedule.run act before (start token limit n)).shared.admitted+
        left (Schedule.run act before (start token limit n)) := by
  have hcalls : ∀ c : Call, (c.accesses.map Access.accepts).sum = 0 := by
    intro c
    cases c <;> rfl
  have hw : ∀ a : Access, 0 ≤ a.accepts ∧ a.accepts ≤ 1 := by
    intro a
    cases a <;> simp [Access.accepts]
  have hnone : ((callsOf during).map (fun _ : Call => (0 : ℤ))).sum = 0 := by simp
  have htotal := moves_total_le perform_accepts hcalls during _ (stretch_fits token limit before during hfits)
  rw [hnone, add_zero] at htotal
  rw [Schedule.run_append]
  generalize Schedule.run act before (start token limit n) = s at htotal ⊢
  have hbegin := (debts_within Access.accepts 1 hw s).2
  have hend := (debts_within Access.accepts 1 hw (Schedule.run act during s)).1
  simp only [total] at htotal
  unfold act at hend ⊢
  omega

theorem stretch_zeros (hsecond : ∀ c ∈ callsOf during, c.InSecond second) :
    ((Schedule.run act (before++during) (start token limit n)).shared.clears : ℤ) ≤
      (Schedule.run act before (start token limit n)).shared.clears+1+
        2*left (Schedule.run act before (start token limit n))+2*resets during := by
  have hw : ∀ a : Access, 0 ≤ a.zeros second ∧ a.zeros second ≤ 2 := by
    intro a
    cases a with
    | load t now =>
      rw [Access.zeros]
      split_ifs <;> decide
    | exchange t now previous =>
      rw [Access.zeros]
      split_ifs <;> decide
    | _ => simp [Access.zeros]
  have htotal := moves_total_le (perform_zeros second) (fun _ => rfl) during _
    (stretch_fits token limit before during hfits)
  rw [calls_zeros second (callsOf during) hsecond] at htotal
  rw [Schedule.run_append, resets]
  generalize Schedule.run act before (start token limit n) = s at htotal ⊢
  have hbegin := (debts_within (Access.zeros second) 2 hw s).2
  have hend := (debts_within (Access.zeros second) 2 hw (Schedule.run act during s)).1
  simp only [total, zerosDue] at htotal
  unfold act at hend ⊢
  split_ifs at htotal <;> omega

/-- What is admitted in the stretch: the limit at first, and again for each zero. -/
theorem stretch_admitted (hfew : (callsOf (before++during)).countP Call.isValidate < 2^32) :
    (Schedule.run act (before++during) (start token limit n)).shared.admitted+
        limit*(Schedule.run act before (start token limit n)).shared.clears ≤
      (Schedule.run act before (start token limit n)).shared.admitted+
        limit*(Schedule.run act (before++during) (start token limit n)).shared.clears+limit := by
  have hcounted := run_counted token limit (before++during) hfits
  have hkept := run_kept (n := n) token limit before
  rw [Schedule.run_append] at hcounted ⊢
  generalize Schedule.run act before (start token limit n) = s at hcounted hkept ⊢
  have hbegin : Window limit s.shared.admitted s.shared.clears s.shared :=
    fun hc => ⟨(hkept.window hc).1,Nat.le_add_right _ _⟩
  have hend : Window limit s.shared.admitted s.shared.clears (Schedule.run act during s).shared :=
    (moves_holds (perform_window limit s.shared.admitted s.shared.clears) during s (fun _ _ _ _ => trivial)
      ⟨⟨hkept.sameLimit,hbegin⟩,fun _ _ _ => trivial⟩).shared.2
  have hadmitted := (hend (hcounted.trans_lt hfew)).2
  have hmin : min (Schedule.run act during s).shared.requestsThisSecond limit ≤ limit := min_le_right _ _
  omega

end Stretch

/-- A stretch of any run in which every clock that is read shows the second:
with nobody inside a call at its beginning and no reset, twice the limit. Each
access that a thread inside had still to make and each reset may cost one call
and two zeros more. -/
theorem one_second_limit (token : Bytes) (limit : ℕ) (before during : List (Move n Call))
    (hfits : Schedule.Allowed act Move.Fits (before++during) (start token limit n))
    (hfew : (callsOf (before++during)).countP Call.isValidate < 2^32)
    (hsecond : ∀ c ∈ callsOf during, c.InSecond second) :
    (Schedule.run act (before++during) (start token limit n)).shared.accepted ≤
      (Schedule.run act before (start token limit n)).shared.accepted+
        left (Schedule.run act before (start token limit n))+
        2*limit*(1+left (Schedule.run act before (start token limit n))+resets during) := by
  have haccepted := stretch_accepted token limit before during hfits
  have hzeros := stretch_zeros second token limit before during hfits hsecond
  have hadmitted := stretch_admitted token limit before during hfits hfew
  generalize Schedule.run act (before++during) (start token limit n) = t at haccepted hzeros hadmitted ⊢
  generalize Schedule.run act before (start token limit n) = s at haccepted hzeros hadmitted ⊢
  have hclears : t.shared.clears ≤ s.shared.clears+1+2*left s+2*resets during := by omega
  have hmul := Nat.mul_le_mul_left limit hclears
  have hring : limit*(s.shared.clears+1+2*left s+2*resets during)+limit =
      limit*s.shared.clears+2*limit*(1+left s+resets during) := by ring
  omega

def earlier (i : Fin n) : List (Move n Call) :=
  .call i (.validate [1] 8)::List.replicate 5 (.next i)++.call i .reset::List.replicate 2 (.next i)

def lateZero (first other : Fin n) : List (Move n Call) :=
  [.call first (.validate [1] 9),.next first,.next first,.call other (.validate [1] 9)]++
    List.replicate 3 (.next other)++List.replicate 3 (.next first)

theorem lateZero_fits : Schedule.Allowed act Move.Fits (lateZero (0 : Fin 2) 1) (start [1] 1 2) := by
  decide +kernel

/-- After an accepted call and a reset the bound is reached. -/
theorem lateZero_limit :
    (Schedule.run act (earlier (0 : Fin 2)) (start [1] 1 2)).shared.accepted = 1 ∧
    (Schedule.run act (earlier (0 : Fin 2)++lateZero 0 1) (start [1] 1 2)).shared.accepted = 1+2*1 ∧
    (Schedule.run act (earlier (0 : Fin 2)++lateZero 0 1) (start [1] 1 2)).shared.accepted ≤
      (Schedule.run act (earlier (0 : Fin 2)) (start [1] 1 2)).shared.accepted+
        left (Schedule.run act (earlier (0 : Fin 2)) (start [1] 1 2))+
        2*1*(1+left (Schedule.run act (earlier (0 : Fin 2)) (start [1] 1 2))+resets (lateZero (0 : Fin 2) 1)) :=
  ⟨by decide +kernel,by decide +kernel,one_second_limit 9 [1] 1 (earlier (0 : Fin 2)) (lateZero 0 1)
    (by decide +kernel) (by decide) (by
      intro c hc
      fin_cases hc <;> rfl)⟩

theorem lateZero_answered :
    (Schedule.run act (lateZero (0 : Fin 2) 1) (start [1] 1 2)).shared.answers.length = 2 :=
  (tokens_limited [1] 1 (lateZero (0 : Fin 2) 1) lateZero_fits (by decide)).2
    (fun i => by revert i; decide +kernel)

end OneSecond
end TokenValidator
end Chronos
