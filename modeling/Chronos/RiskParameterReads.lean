import Chronos.RiskParameterThreads

/-!
# Reading the limits of one check

One thread publishes parameters, any number read. A read that is validated
by an unchanged version saw one parameter set. The read that follows the
last retry is not validated: it is of one parameter set when no copy is
under way at its first load and none begins before its last, and it may mix
two sets when the publishing thread is stopped in the middle of its copy.
-/

set_option autoImplicit false

namespace Chronos.RiskParameterUpdate
open OptimisticRead RiskEngine HotParams

def isStoreVersion : Access → Bool
  | .storeVersion => true
  | _ => false

def isStoreShared : Access → Bool
  | .storeShared _ => true
  | _ => false

def isLoadVersion : Access → Bool
  | .loadVersion => true
  | _ => false

def opens (rest : List Access) : ℕ := rest.countP isStoreVersion

def loadsFirst (a : Access) : List Access → Bool
  | [] => true
  | b::_ => !isStoreVersion b || isLoadVersion a

def Bracketed : List Access → Bool
  | [] => true
  | a::rest => (!isStoreShared a || opens rest == 1) && loadsFirst a rest && Bracketed rest

theorem update_bracketed : Bracketed updateParameters = true ∧ opens updateParameters = 2 := by
  decide

section Writer
variable {F : Type} (toDecimal : F → Decimal)

theorem access_hot (x : ParameterStore F × Call F) (a : Access) (hv : isStoreVersion a = false)
    (hs : isStoreShared a = false) : (access toDecimal x a).1.hotParams = x.1.hotParams := by
  cases a with
  | storeVersion => cases hv
  | storeShared w => cases hs
  | _ => rfl

theorem access_params (x : ParameterStore F × Call F) (a : Access) :
    (access toDecimal x a).2.params = x.2.params := by
  cases a <;> rfl

theorem opens_cons (a : Access) (rest : List Access) :
    opens (a::rest) = opens rest+if isStoreVersion a then 1 else 0 := List.countP_cons

theorem bracketed_cons (a : Access) (rest : List Access) : Bracketed (a::rest) = true ↔
    (isStoreShared a = true → opens rest = 1) ∧ loadsFirst a rest = true ∧ Bracketed rest = true := by
  rw [Bracketed]
  cases isStoreShared a <;> simp [and_assoc]

theorem finish_hot (m : ParameterStore F) (c : Call F) (rest : List Access)
    (hb : Bracketed rest = true) (ho : opens rest = 0) :
    (finish toDecimal m c rest).hotParams = m.hotParams := by
  induction rest generalizing m c with
  | nil => rfl
  | cons a rest ih =>
    obtain ⟨hshared,-,hrest⟩ := (bracketed_cons a rest).mp hb
    rw [opens_cons] at ho
    have hv : isStoreVersion a = false := by
      by_contra h
      simp [h] at ho
    have hr : opens rest = 0 := by omega
    have hs : isStoreShared a = false := by
      by_contra h
      have := hshared (by simpa using h)
      omega
    exact (ih _ _ hrest hr).trans (access_hot toDecimal (m,c) a hv hs)

def Converted (sets : List (RiskParameters F)) (hp : HotParams) : Prop :=
  ∃ p ∈ sets, hp = { buildHot toDecimal p with version := hp.version }

structure Publishing (defaults : RiskParameters F) (published : List (RiskParameters F))
    (m : ParameterStore F) (c : Call F) (rest : List Access) : Prop where
  bracketed : Bracketed rest = true
  bound : opens rest ≤ 2
  count : m.hotParams.version+opens rest = 2*published.length
  loaded : ∀ b bs, rest = b::bs → isStoreVersion b = true → c.version = m.hotParams.version
  mine : c.params ∈ published
  ends : (finish toDecimal m c rest).hotParams =
    { buildHot toDecimal c.params with version := (finish toDecimal m c rest).hotParams.version }
  before : opens rest = 2 → Converted toDecimal (defaults::published) m.hotParams

variable (defaults : RiskParameters F) (published : List (RiskParameters F))

/-- With an even version the hot words belong to one set: the old one before
the copy, the new one after it. -/
theorem publishing_converted (m : ParameterStore F) (c : Call F) (rest : List Access)
    (h : Publishing toDecimal defaults published m c rest) (he : m.hotParams.version%2 = 0) :
    Converted toDecimal (defaults::published) m.hotParams := by
  have hcount := h.count
  have hbound := h.bound
  rcases (show opens rest = 2 ∨ opens rest = 0 by omega) with ho | ho
  · exact h.before ho
  · refine ⟨c.params,List.mem_cons_of_mem _ h.mine,?_⟩
    rw [← finish_hot toDecimal m c rest h.bracketed ho]
    exact h.ends

def cell (hp : HotParams) : Cell HotParams := ⟨hp.version,hp⟩

/-- What one access does to the hot words: a version store raises the
version, and the data changes under an odd version only. -/
structure Effect (hp hp' : HotParams) (a : Access) : Prop where
  disciplined : Disciplined (cell hp) (cell hp')
  raised : hp'.version = hp.version+if isStoreVersion a then 1 else 0
  kept : isStoreVersion a = false → hp.version%2 = 0 → hp' = hp

theorem access_effect (m : ParameterStore F) (c : Call F) (a : Access) (rest : List Access)
    (hfew : published.length < 2^63) (h : Publishing toDecimal defaults published m c (a::rest)) :
    Effect m.hotParams (access toDecimal (m,c) a).1.hotParams a := by
  have hcount := h.count
  rw [opens_cons] at hcount
  by_cases hv : isStoreVersion a = true
  · -- the store of the version this thread has just loaded
    have hl := h.loaded a rest rfl hv
    obtain rfl : a = .storeVersion := by
      cases a with
      | storeVersion => rfl
      | _ => cases hv
    have hraised : (access toDecimal (m,c) .storeVersion).1.hotParams.version =
        m.hotParams.version+1 := by
      change (c.version+1)%2^64 = _
      simp only [hv, if_true] at hcount
      rw [hl, Nat.mod_eq_of_lt (by omega)]
    refine ⟨⟨?_,?_⟩,hraised,fun hf => absurd hf (by simp [isStoreVersion])⟩
    · exact (Nat.le_succ _).trans_eq hraised.symm
    · intro he
      exact absurd (hraised.symm.trans he) (by simp [cell])
  have hv : isStoreVersion a = false := by simpa using hv
  by_cases hs : isStoreShared a = true
  · -- a word of the copy
    have hodd : m.hotParams.version%2 = 1 := by
      have := ((bracketed_cons a rest).mp h.bracketed).1 hs
      simp only [hv, Bool.false_eq_true, if_false] at hcount
      omega
    obtain ⟨w,rfl⟩ : ∃ w, a = .storeShared w := by
      cases a with
      | storeShared w => exact ⟨w,rfl⟩
      | _ => cases hs
    have hsame : (access toDecimal (m,c) (.storeShared w)).1.hotParams.version =
        m.hotParams.version := copyWord_version _ _ w
    exact ⟨⟨hsame.ge,fun _ => Or.inl hodd⟩,hsame,fun _ he => by omega⟩
  · have hkept := access_hot toDecimal (m,c) a hv (by simpa using hs)
    rw [hkept]
    exact ⟨⟨le_refl _,fun _ => Or.inr rfl⟩,by simp [hv],fun _ _ => rfl⟩

theorem access_publishing (m : ParameterStore F) (c : Call F) (a : Access) (rest : List Access)
    (hfew : published.length < 2^63) (h : Publishing toDecimal defaults published m c (a::rest)) :
    Publishing toDecimal defaults published (access toDecimal (m,c) a).1
      (access toDecimal (m,c) a).2 rest := by
  have he := access_effect toDecimal defaults published m c a rest hfew h
  obtain ⟨hshared,hfirst,hrest⟩ := (bracketed_cons a rest).mp h.bracketed
  have hcount := h.count
  have hbound := h.bound
  have hraised := he.raised
  rw [opens_cons] at hcount hbound
  constructor
  case bracketed => exact hrest
  case bound => omega
  case count => omega
  case loaded =>
    intro b bs hb hv
    subst hb
    obtain rfl : a = .loadVersion := by
      have hl : isLoadVersion a = true := by simpa [loadsFirst, hv] using hfirst
      cases a with
      | loadVersion => rfl
      | _ => cases hl
    rfl
  case mine => exact (access_params toDecimal (m,c) a).symm ▸ h.mine
  case ends => exact (access_params toDecimal (m,c) a).symm ▸ h.ends
  case before =>
    intro ho
    have hv : isStoreVersion a = false := by
      by_contra hc
      rw [if_pos (by simpa using hc)] at hbound
      omega
    simp only [hv, Bool.false_eq_true, if_false] at hcount
    rw [he.kept hv (by omega)]
    exact h.before (by rw [opens_cons, hv]; exact ho)

end Writer

section Reads
variable {F : Type}

def ReaderSound (hp : HotParams) : Place → Prop
  | .reading _ version rest => Faithful (cell hp) gatherReading version rest
  | .fallback rest => hp.version%2 = 0 ∧ rest.result hp = gather hp
  | _ => True

def InFallback : Place → Prop
  | .fallback _ => True
  | _ => False

/-- Unchecked reads and copies keep apart: the first unchecked load finds an
even version, and no version is stored while an unchecked read is under way.
The 64-bit version does not come round. -/
def Undisturbed (s : State F) : Action F → Prop
  | .update t _ _ => match s.updaters t with
    | none => s.published.length+1 < 2^63
    | some (_,.storeVersion::_) => ∀ u, ¬InFallback (s.readers u)
    | _ => True
  | .check t => match s.readers t with
    | .exhausted => s.store.hotParams.version%2 = 0
    | _ => True

variable (toDecimal : F → Decimal) (defaults : RiskParameters F)

def OfOneSet (published : List (RiskParameters F)) (info : CheckInfo) : Prop :=
  ∃ p ∈ defaults::published, info = gather (buildHot toDecimal p)

structure Untorn (s : State F) : Prop where
  single : ∀ t, 1 ≤ t → s.updaters t = none
  few : s.published.length < 2^63
  idle : s.updaters 0 = none → s.store.hotParams.version = 2*s.published.length ∧
    Converted toDecimal (defaults::s.published) s.store.hotParams
  busy : ∀ c rest, s.updaters 0 = some (c,rest) →
    Publishing toDecimal defaults s.published s.store c rest
  readers : ∀ t, ReaderSound s.store.hotParams (s.readers t)
  returned : ∀ info ∈ s.returned, OfOneSet toDecimal defaults s.published info

theorem untorn_converted (s : State F) (h : Untorn toDecimal defaults s)
    (he : s.store.hotParams.version%2 = 0) :
    Converted toDecimal (defaults::s.published) s.store.hotParams := by
  cases hu : s.updaters 0 with
  | none => exact (h.idle hu).2
  | some x => exact publishing_converted toDecimal defaults s.published s.store x.1 x.2 (h.busy _ _ hu) he

theorem gather_converted (published : List (RiskParameters F)) (hp : HotParams)
    (h : Converted toDecimal (defaults::published) hp) :
    OfOneSet toDecimal defaults published (gather hp) := by
  obtain ⟨p,hp,he⟩ := h
  exact ⟨p,hp,he ▸ rfl⟩

theorem setReader_untorn (s : State F) (t : ℕ) (p : Place) (hp : ReaderSound s.store.hotParams p)
    (h : Untorn toDecimal defaults s) : Untorn toDecimal defaults (setReader s t p) := by
  constructor
  case readers =>
    exact (Function.forall_update_iff _ fun _ => ReaderSound s.store.hotParams).mpr
      ⟨hp,fun u _ => h.readers u⟩
  case single => exact h.single
  case few => exact h.few
  case idle => exact h.idle
  case busy => exact h.busy
  case returned => exact h.returned

theorem returns_untorn (s : State F) (t : ℕ) (info : CheckInfo)
    (hi : info = gather s.store.hotParams) (he : s.store.hotParams.version%2 = 0)
    (h : Untorn toDecimal defaults s) : Untorn toDecimal defaults (returns s t info) := by
  have hset := gather_converted toDecimal defaults _ _ (untorn_converted toDecimal defaults s h he)
  refine setReader_untorn toDecimal defaults { s with returned := s.returned++[info] } t .idle trivial ?_
  constructor
  case returned =>
    intro i hm
    rcases List.mem_append.mp hm with hm | hm
    · exact h.returned i hm
    · obtain rfl := List.mem_singleton.mp hm
      exact hi ▸ hset
  case single => exact h.single
  case few => exact h.few
  case idle => exact h.idle
  case busy => exact h.busy
  case readers => exact h.readers

theorem retried_sound (hp : HotParams) (retry : ℕ) : ReaderSound hp (retried retry) := by
  unfold retried
  split_ifs <;> trivial

theorem check_untorn (s : State F) (t : ℕ) (hd : Undisturbed s (.check t))
    (h : Untorn toDecimal defaults s) : Untorn toDecimal defaults (checkStep s t) := by
  have hr := h.readers t
  unfold checkStep
  simp only [Undisturbed] at hd
  cases ht : s.readers t with
  | idle => exact setReader_untorn toDecimal defaults s t _ trivial h
  | attempt retry =>
    simp only
    split_ifs with hv
    · exact setReader_untorn toDecimal defaults s t _ (retried_sound _ _) h
    · exact setReader_untorn toDecimal defaults s t _
        (begin_faithful (cell s.store.hotParams) gatherReading (Nat.mod_two_ne_one.mp hv)) h
  | reading retry version rest =>
    rw [ht] at hr
    cases rest with
    | done info =>
      simp only
      split_ifs with hv
      · obtain ⟨hi,he⟩ := validated (cell s.store.hotParams) gatherReading version info hr hv
        exact returns_untorn toDecimal defaults s t info hi he h
      · exact setReader_untorn toDecimal defaults s t _ (retried_sound _ _) h
    | load next =>
      exact setReader_untorn toDecimal defaults s t _
        (advance_faithful (cell s.store.hotParams) gatherReading _ version hr) h
  | exhausted =>
    rw [ht] at hd
    exact setReader_untorn toDecimal defaults s t _
      ⟨hd,Reading.result_advance gatherReading s.store.hotParams⟩ h
  | fallback rest =>
    rw [ht] at hr
    cases rest with
    | done info => exact returns_untorn toDecimal defaults s t info hr.2 hr.1 h
    | load next =>
      exact setReader_untorn toDecimal defaults s t _
        ⟨hr.1,(Reading.result_advance (.load next) s.store.hotParams).trans hr.2⟩ h

theorem converted_append (published more : List (RiskParameters F)) (hp : HotParams)
    (h : Converted toDecimal (defaults::published) hp) :
    Converted toDecimal (defaults::(published++more)) hp := by
  obtain ⟨p,hp,he⟩ := h
  exact ⟨p,List.mem_append_left more hp,he⟩

theorem oneSet_append (published more : List (RiskParameters F)) (info : CheckInfo)
    (h : OfOneSet toDecimal defaults published info) :
    OfOneSet toDecimal defaults (published++more) info := by
  obtain ⟨p,hp,he⟩ := h
  exact ⟨p,List.mem_append_left more hp,he⟩

theorem begin_publishing (s : State F) (params : RiskParameters F) (nowUs : ℕ)
    (h0 : s.updaters 0 = none) (h : Untorn toDecimal defaults s) :
    Publishing toDecimal defaults (s.published++[params]) s.store { params := params, nowUs := nowUs }
      updateParameters := by
  obtain ⟨hb,ho⟩ := update_bracketed
  obtain ⟨hversion,hconverted⟩ := h.idle h0
  constructor
  case bracketed => exact hb
  case bound => exact ho.le
  case count =>
    rw [ho, hversion, List.length_append, List.length_singleton]
    ring
  case loaded =>
    intro b bs he hv
    obtain rfl : Access.loadWriteIdx = b := (List.cons.inj he).1
    cases hv
  case mine => exact List.mem_append_right _ (List.mem_singleton_self params)
  case ends => rw [(finish_update toDecimal s.store _).1]
  case before => exact fun _ => converted_append toDecimal defaults _ _ _ hconverted

theorem begin_untorn (s : State F) (params : RiskParameters F) (nowUs : ℕ)
    (h0 : s.updaters 0 = none) (hroom : s.published.length+1 < 2^63) (h : Untorn toDecimal defaults s) :
    Untorn toDecimal defaults (setUpdater { s with published := s.published++[params] } 0
      (some ({ params := params, nowUs := nowUs },updateParameters))) := by
  constructor
  case single =>
    intro t ht
    simpa [setUpdater, Nat.ne_of_gt ht] using h.single t ht
  case few => simpa [setUpdater] using hroom
  case idle => exact fun hn => absurd hn (by simp [setUpdater])
  case busy =>
    intro c rest he
    obtain ⟨rfl,rfl⟩ : _ = c ∧ _ = rest := by simpa [setUpdater] using he
    exact begin_publishing toDecimal defaults s params nowUs h0 h
  case readers => exact h.readers
  case returned => exact fun info hi => oneSet_append toDecimal defaults _ _ _ (h.returned info hi)

theorem return_untorn (s : State F) (c : Call F) (h0 : s.updaters 0 = some (c,[]))
    (h : Untorn toDecimal defaults s) : Untorn toDecimal defaults (setUpdater s 0 none) := by
  have hp := h.busy c [] h0
  have hversion : s.store.hotParams.version = 2*s.published.length := hp.count
  constructor
  case single =>
    intro t ht
    simpa [setUpdater, Nat.ne_of_gt ht] using h.single t ht
  case few => exact h.few
  case idle =>
    have heven : s.store.hotParams.version%2 = 0 := by omega
    exact fun _ => ⟨hversion,publishing_converted toDecimal defaults _ _ c [] hp heven⟩
  case busy => exact fun c rest he => absurd he (by simp [setUpdater])
  case readers => exact h.readers
  case returned => exact h.returned

theorem effect_sound (hp hp' : HotParams) (a : Access) (p : Place) (he : Effect hp hp' a)
    (hf : isStoreVersion a = true → ¬InFallback p) (h : ReaderSound hp p) : ReaderSound hp' p := by
  cases p with
  | reading retry version rest => exact write_faithful _ _ _ _ _ he.disciplined h
  | fallback rest =>
    have hv : isStoreVersion a = false := by
      by_contra hc
      exact hf (by simpa using hc) trivial
    rw [he.kept hv h.1]
    exact h
  | idle => trivial
  | attempt retry => trivial
  | exhausted => trivial

theorem access_untorn (s : State F) (c : Call F) (a : Access) (rest : List Access)
    (h0 : s.updaters 0 = some (c,a::rest)) (hf : isStoreVersion a = true → ∀ u, ¬InFallback (s.readers u))
    (h : Untorn toDecimal defaults s) :
    Untorn toDecimal defaults (setUpdater { s with store := (access toDecimal (s.store,c) a).1 } 0
      (some ((access toDecimal (s.store,c) a).2,rest))) := by
  have hp := h.busy c (a::rest) h0
  have he := access_effect toDecimal defaults s.published s.store c a rest h.few hp
  constructor
  case single =>
    intro t ht
    simpa [setUpdater, Nat.ne_of_gt ht] using h.single t ht
  case few => exact h.few
  case idle => exact fun hn => absurd hn (by simp [setUpdater])
  case busy =>
    intro c' rest' hs
    obtain ⟨rfl,rfl⟩ : _ = c' ∧ _ = rest' := by simpa [setUpdater] using hs
    exact access_publishing toDecimal defaults s.published s.store c a rest h.few hp
  case readers => exact fun t => effect_sound _ _ a _ he (fun hv => hf hv t) (h.readers t)
  case returned => exact h.returned

theorem step_untorn (s : State F) (a : Action F) (ha : UpdatersBelow 1 s a) (hd : Undisturbed s a)
    (h : Untorn toDecimal defaults s) : Untorn toDecimal defaults (step toDecimal s a) := by
  cases a with
  | update t params nowUs =>
    obtain rfl : t = 0 := Nat.lt_one_iff.mp ha
    simp only [Undisturbed] at hd
    change Untorn toDecimal defaults (updateStep toDecimal s 0 params nowUs)
    unfold updateStep
    split
    case h_1 h0 =>
      rw [h0] at hd
      exact begin_untorn toDecimal defaults s params nowUs h0 hd h
    case h_2 c h0 => exact return_untorn toDecimal defaults s c h0 h
    case h_3 c a rest h0 =>
      refine access_untorn toDecimal defaults s c a rest h0 (fun hv => ?_) h
      obtain rfl : a = .storeVersion := by
        cases a with
        | storeVersion => rfl
        | _ => cases hv
      rw [h0] at hd
      exact hd
  | check t => exact check_untorn toDecimal defaults s t hd h

/-- One publishing thread and any number of checks: in every run in which the
unchecked reads keep apart from the copies, each check uses the limits of one
parameter set. -/
theorem limits_of_one_set (actions : List (Action F))
    (hok : Schedule.Allowed (step toDecimal) (fun s a => UpdatersBelow 1 s a ∧ Undisturbed s a) actions
      (initial toDecimal defaults)) :
    ∀ info ∈ (Schedule.run (step toDecimal) actions (initial toDecimal defaults)).returned,
      OfOneSet toDecimal defaults
        (Schedule.run (step toDecimal) actions (initial toDecimal defaults)).published info := by
  have h0 : Untorn toDecimal defaults (initial toDecimal defaults) := by
    constructor
    case single => exact fun _ _ => rfl
    case few => exact Nat.two_pow_pos 63
    case idle => exact fun _ => ⟨rfl,defaults,List.mem_singleton_self _,rfl⟩
    case busy => exact fun c rest hn => absurd hn (by simp [initial])
    case readers => exact fun _ => trivial
    case returned => exact fun info hi => absurd hi List.not_mem_nil
  exact (Schedule.invariant (step toDecimal) _ (Untorn toDecimal defaults)
    (fun s a ha h => step_untorn toDecimal defaults s a ha.1 ha.2 h) actions _ hok h0).returned

end Reads

section Runs

theorem checkStep_other {F : Type} (s : State F) (t u : ℕ) (h : u ≠ t) :
    (checkStep s t).readers u = s.readers u := by
  simp only [checkStep]
  split <;> (try split_ifs) <;> exact Function.update_of_ne h _ _

def stalledCopy : List (Action ℤ) := turns 0 26 smallParameters++List.replicate 106 (.check 0)

theorem stalledCopy_mixes_limits :
    let s := Schedule.run (step Decimal.ofInt) stalledCopy (initial Decimal.ofInt defaultParameters)
    Schedule.Allowed (step Decimal.ofInt) (UpdatersBelow 1) stalledCopy
        (initial Decimal.ofInt defaultParameters) ∧
      ∃ info ∈ s.returned, ¬OfOneSet Decimal.ofInt defaultParameters s.published info := by
  intro s
  have hp : s.published = [smallParameters] := by decide +kernel
  have horder : s.returned.map CheckInfo.maxOrderValue = [Decimal.ofInt 1000] := by decide +kernel
  have hposition : s.returned.map CheckInfo.maxPositionValue = [Decimal.ofInt 500000] := by
    decide +kernel
  refine ⟨by decide +kernel,?_⟩
  obtain ⟨info,hr⟩ : ∃ info, s.returned = [info] := by
    cases hr : s.returned with
    | nil => simp [hr] at horder
    | cons info more =>
      have hm : more = [] := by simpa [hr] using (congrArg List.length horder)
      exact ⟨info,hm ▸ rfl⟩
  rw [hr] at horder hposition
  refine ⟨info,hr ▸ List.mem_singleton_self info,?_⟩
  rintro ⟨p,hm,rfl⟩
  rw [hp] at hm
  rcases List.mem_cons.mp hm with rfl | hm
  · exact absurd horder (by decide +kernel)
  · obtain rfl := List.mem_singleton.mp hm
    exact absurd hposition (by decide +kernel)

def checkDuringCopy : List (Action ℤ) :=
  turns 0 26 smallParameters++List.replicate 3 (.check 0)++turns 0 26 smallParameters++
    List.replicate 6 (.check 0)

def checked : Place → Bool
  | .exhausted | .fallback _ => false
  | _ => true

def Checked (s : State ℤ) : Action ℤ → Prop
  | .update t _ _ => t < 1 ∧ s.published.length+1 < 2^63 ∧ checked (s.readers 0) = true
  | .check t => t < 1 ∧ checked (s.readers 0) = true

instance (s : State ℤ) (a : Action ℤ) : Decidable (Checked s a) :=
  match a with
  | .update t _ _ =>
    inferInstanceAs (Decidable (t < 1 ∧ s.published.length+1 < 2^63 ∧ checked (s.readers 0) = true))
  | .check t => inferInstanceAs (Decidable (t < 1 ∧ checked (s.readers 0) = true))

theorem checked_readers (s : State ℤ) (a : Action ℤ) (ha : Checked s a)
    (h : ∀ u, 1 ≤ u → s.readers u = .idle) : ∀ u, 1 ≤ u → (step Decimal.ofInt s a).readers u = .idle := by
  intro u hu
  cases a with
  | update t params nowUs =>
    change (updateStep Decimal.ofInt s t params nowUs).readers u = .idle
    unfold updateStep
    split <;> exact h u hu
  | check t => exact (checkStep_other s t u (by have := ha.1; omega)).trans (h u hu)

theorem checked_undisturbed (s : State ℤ) (a : Action ℤ) (ha : Checked s a)
    (h : ∀ u, 1 ≤ u → s.readers u = .idle) : UpdatersBelow 1 s a ∧ Undisturbed s a := by
  cases a with
  | update t params nowUs =>
    refine ⟨ha.1,?_⟩
    simp only [Undisturbed]
    split
    · exact ha.2.1
    · intro u hf
      rcases Nat.eq_zero_or_pos u with rfl | hu
      · have hc := ha.2.2
        cases hr : s.readers 0 <;> simp_all [InFallback, checked]
      · rw [h u hu] at hf
        exact hf
    · trivial
  | check t =>
    obtain rfl : t = 0 := Nat.lt_one_iff.mp ha.1
    refine ⟨trivial,?_⟩
    simp only [Undisturbed]
    split
    · rename_i hr
      have hc := ha.2
      rw [hr] at hc
      cases hc
    · trivial

theorem checkDuringCopy_limits :
    let s := Schedule.run (step Decimal.ofInt) checkDuringCopy (initial Decimal.ofInt defaultParameters)
    s.returned.map CheckInfo.maxOrderValue = [Decimal.ofInt 1000] ∧
      ∀ info ∈ s.returned, OfOneSet Decimal.ofInt defaultParameters s.published info := by
  refine ⟨by decide +kernel,limits_of_one_set Decimal.ofInt defaultParameters checkDuringCopy ?_⟩
  exact Schedule.allowed_of_invariant _ Checked _ (fun s => ∀ u, 1 ≤ u → s.readers u = .idle)
    checked_readers checked_undisturbed checkDuringCopy _ (by decide +kernel) (fun _ _ => rfl)

end Runs
end Chronos.RiskParameterUpdate
