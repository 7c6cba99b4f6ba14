import Chronos.MpmcQueueSafety

/-!
# A queue with one consumer

One thread pops and the others push. Then the tickets are claimed in order by
that thread alone, a pop that gives up found the ticket in front unpublished,
and between two pops everything claimed was returned.
-/

set_option autoImplicit false

namespace Chronos
open TicketRing

namespace MpmcQueue

theorem filter_of_nodup {B : Type} (l : List (ℕ × B)) (h : (l.map Prod.fst).Nodup) (q : ℕ) (b : B)
    (hb : (q,b) ∈ l) : l.filter (fun x => x.1 = q) = [(q,b)] := by
  obtain ⟨before,after,rfl⟩ := List.append_of_mem hb
  have hother : ∀ x ∈ before++after, x.1 ≠ q := by
    rw [List.map_append, List.map_cons] at h
    have hperm := (List.nodup_middle.mp h)
    rw [← List.map_append, List.nodup_cons] at hperm
    intro x hx he
    exact hperm.1 (List.mem_map.mpr ⟨x,hx,he⟩)
  have hbefore : before.filter (fun x => x.1 = q) = [] :=
    List.filter_eq_nil_iff.mpr (fun x hx => by simpa using hother x (List.mem_append_left _ hx))
  have hafter : after.filter (fun x => x.1 = q) = [] :=
    List.filter_eq_nil_iff.mpr (fun x hx => by simpa using hother x (List.mem_append_right _ hx))
  rw [List.filter_append, List.filter_cons_of_pos (by simp), hbefore, hafter]
  rfl

section Steps
variable {V : Type} (c : Capacity) (s : State V) (a : Action V)

def isPop : Place V → Bool
  | .popLoad | .popSeq _ | .popSwap _ | .popCopy _ | .popStore _ _ => true
  | _ => false

def isPush : Place V → Bool
  | .pushLoad _ | .pushSeq _ _ | .pushSwap _ _ | .pushCopy _ _ | .pushStore _ => true
  | _ => false

theorem isPush_of_isPop (p : Place V) (h : isPop p = true) : isPush p = false := by
  cases p <;> first | rfl | exact absurd h (by simp [isPop])

theorem pushSeqStep_eq (t : ℕ) (val : V) (pos : ℕ) :
    ∃ p, pushSeqStep c s t val pos = goto s t p ∧ isPop p = false := by
  simp only [pushSeqStep]
  split_ifs
  · exact ⟨_,rfl,rfl⟩
  · exact ⟨_,rfl,rfl⟩
  · exact ⟨_,rfl,rfl⟩

theorem popSeqStep_eq (t pos : ℕ) : popSeqStep c s t pos = goto s t (.popSwap pos) ∨
    popSeqStep c s t pos = goto s t .popLoad ∨ popSeqStep c s t pos = goto s t .idle := by
  simp only [popSeqStep]
  split_ifs
  · exact Or.inl rfl
  · exact Or.inr (Or.inr rfl)
  · exact Or.inr (Or.inl rfl)

theorem popSeqStep_tickets (t pos : ℕ) : (popSeqStep c s t pos).tickets = s.tickets := by
  rcases popSeqStep_eq c s t pos with h | h | h <;> rw [h] <;> rfl

theorem step_pushSeq (val : V) (pos : ℕ) (h : s.threads a.thread = .pushSeq val pos) :
    step c s a = pushSeqStep c s a.thread val pos := by rw [step, h]

theorem step_popSeq (pos : ℕ) (h : s.threads a.thread = .popSeq pos) :
    step c s a = popSeqStep c s a.thread pos := by rw [step, h]

theorem step_shape : ∃ (s' : State V) (p : Place V), step c s a = goto s' a.thread p ∧
    s'.threads = s.threads ∧ s'.begun ≤ s.begun+1 := by
  cases ht : s.threads a.thread with
  | pushSeq val pos =>
    obtain ⟨p,hp,-⟩ := pushSeqStep_eq c s a.thread val pos
    exact ⟨s,p,(step_pushSeq c s a val pos ht).trans hp,rfl,Nat.le_succ _⟩
  | popSeq pos =>
    have hstep := step_popSeq c s a pos ht
    rcases popSeqStep_eq c s a.thread pos with hp | hp | hp
    · exact ⟨s,_,hstep.trans hp,rfl,Nat.le_succ _⟩
    · exact ⟨s,_,hstep.trans hp,rfl,Nat.le_succ _⟩
    · exact ⟨s,_,hstep.trans hp,rfl,Nat.le_succ _⟩
  | pushSwap val pos =>
    simp only [step, ht, pushSwapStep]
    split_ifs
    · exact ⟨_,_,rfl,rfl,Nat.le_succ _⟩
    · exact ⟨_,_,rfl,rfl,Nat.le_succ _⟩
  | popSwap pos =>
    simp only [step, ht, popSwapStep]
    split_ifs
    · exact ⟨_,_,rfl,rfl,Nat.le_succ _⟩
    · exact ⟨_,_,rfl,rfl,Nat.le_succ _⟩
  | idle =>
    rw [step, ht]
    exact ⟨_,_,rfl,rfl,le_rfl⟩
  | pushLoad val =>
    rw [step, ht]
    exact ⟨_,_,rfl,rfl,Nat.le_succ _⟩
  | pushCopy val pos =>
    rw [step, ht]
    exact ⟨_,_,rfl,rfl,Nat.le_succ _⟩
  | pushStore pos =>
    rw [step, ht]
    exact ⟨_,_,rfl,rfl,Nat.le_succ _⟩
  | popLoad =>
    rw [step, ht]
    exact ⟨_,_,rfl,rfl,Nat.le_succ _⟩
  | popCopy pos =>
    rw [step, ht]
    exact ⟨_,_,rfl,rfl,Nat.le_succ _⟩
  | popStore pos val =>
    rw [step, ht]
    exact ⟨_,_,rfl,rfl,Nat.le_succ _⟩

theorem step_threads (u : ℕ) (h : u ≠ a.thread) : (step c s a).threads u = s.threads u := by
  obtain ⟨s',p,hstep,hthreads,-⟩ := step_shape c s a
  rw [hstep]
  simp only [goto, Function.update_of_ne h, hthreads]

theorem step_begun : (step c s a).begun ≤ s.begun+1 := by
  obtain ⟨s',p,hstep,-,hbegun⟩ := step_shape c s a
  rw [hstep]
  exact hbegun

theorem published_update (stage : ℕ → Stage) (q₀ : ℕ) (st : Stage)
    (hst : st.isPublished = (stage q₀).isPublished) (q : ℕ) :
    (Function.update stage q₀ st q).isPublished = (stage q).isPublished := by
  by_cases hq : q = q₀
  · rw [hq, Function.update_self, hst]
  · rw [Function.update_of_ne hq]

/-- The store of a push publishes its ticket; no other step does. -/
theorem step_published_iff (hinv : Invariant c s) (q : ℕ) :
    ((step c s a).tickets.stage q).isPublished = true ↔
      (s.tickets.stage q).isPublished = true ∨ s.threads a.thread = .pushStore q := by
  cases ht : s.threads a.thread with
  | pushSeq val pos =>
    obtain ⟨p,hp,-⟩ := pushSeqStep_eq c s a.thread val pos
    rw [step_pushSeq c s a val pos ht, hp]
    simp [goto]
  | popSeq pos =>
    rw [step_popSeq c s a pos ht, popSeqStep_tickets]
    simp
  | idle => simp [step, ht, beginStep, goto]
  | pushLoad val => simp [step, ht, goto]
  | popLoad => simp [step, ht, goto]
  | pushSwap val pos =>
    have huntaken := (hinv.sound.untaken _).mpr le_rfl
    simp only [step, ht, pushSwapStep, reduceCtorEq, or_false]
    split_ifs
    · rw [← Bool.eq_iff_iff]
      exact published_update s.tickets.stage s.tickets.head .taken (by rw [huntaken]; rfl) q
    · exact Iff.rfl
  | pushCopy val pos =>
    have hstage := hinv.hands.owns a.thread pos .taken (by rw [ht]; rfl)
    simp only [step, ht, reduceCtorEq, or_false]
    rw [← Bool.eq_iff_iff]
    exact published_update s.tickets.stage pos .written (by rw [hstage]; rfl) q
  | pushStore pos =>
    simp only [step, ht, pushStoreStep, goto, setSlot, Tickets.advance, Place.pushStore.injEq,
      Function.update_apply]
    split_ifs with hq
    · simp [hq, Stage.isPublished]
    · simp [Ne.symm hq]
  | popSwap pos =>
    simp only [step, ht, popSwapStep, reduceCtorEq, or_false]
    split_ifs with hswap
    · have hknown := hinv.known a.thread
      rw [ht] at hknown
      have htail : pos = s.tickets.tail := hswap.1.symm.trans hinv.memory.tail
      rw [← Bool.eq_iff_iff]
      exact published_update s.tickets.stage s.tickets.tail .claimed
        (by rw [← htail, hknown.2]; rfl) q
    · exact Iff.rfl
  | popCopy pos =>
    have hstage := hinv.hands.owns a.thread pos .claimed (by rw [ht]; rfl)
    simp only [step, ht, reduceCtorEq, or_false]
    rw [← Bool.eq_iff_iff]
    exact published_update s.tickets.stage pos .copied (by rw [hstage]; rfl) q
  | popStore pos val =>
    have hstage := hinv.hands.owns a.thread pos .copied (by rw [ht]; rfl)
    simp only [step, ht, reduceCtorEq, or_false]
    rw [← Bool.eq_iff_iff]
    exact published_update s.tickets.stage pos .released (by rw [hstage]; rfl) q

theorem step_published (hinv : Invariant c s) (q : ℕ) (h : (s.tickets.stage q).isPublished = true) :
    ((step c s a).tickets.stage q).isPublished = true :=
  (step_published_iff c s a hinv q).mpr (Or.inl h)

/-- A thread that pushes leaves the tail and what was returned alone. -/
theorem push_step (hplace : isPop (s.threads a.thread) = false) (val : V) (hreq : a.request = .push val) :
    (step c s a).tail = s.tail ∧ (step c s a).returned = s.returned ∧
      isPop ((step c s a).threads a.thread) = false := by
  cases ht : s.threads a.thread with
  | pushSeq val pos =>
    obtain ⟨p,hp,hpop⟩ := pushSeqStep_eq c s a.thread val pos
    rw [step_pushSeq c s a val pos ht, hp]
    simp [goto, hpop]
  | idle => simp [step, ht, beginStep, goto, hreq, isPop]
  | pushLoad val => simp [step, ht, goto, isPop]
  | pushSwap val pos =>
    simp only [step, ht, pushSwapStep]
    split_ifs <;> simp [goto, isPop]
  | pushCopy val pos => simp [step, ht, pushCopyStep, goto, setSlot, isPop]
  | pushStore pos => simp [step, ht, pushStoreStep, goto, setSlot, isPop]
  | popLoad => simp [ht, isPop] at hplace
  | popSeq pos => simp [ht, isPop] at hplace
  | popSwap pos => simp [ht, isPop] at hplace
  | popCopy pos => simp [ht, isPop] at hplace
  | popStore pos val => simp [ht, isPop] at hplace

end Steps

section SinglePopper
variable {V : Type} (c : Capacity) (s : State V) (a : Action V)

/-- Thread zero is the only one that pops, and it does not push. The position
it looks at is the tail, since nobody else moves the tail. -/
structure SinglePopper : Prop where
  invariant : Invariant c s
  pushers : ∀ t, t ≠ 0 → isPop (s.threads t) = false
  popper : isPush (s.threads 0) = false
  front : ∀ pos, s.threads 0 = .popSeq pos ∨ s.threads 0 = .popSwap pos → pos = s.tail

theorem push_singlePopper (val : V) (ht : a.thread ≠ 0) (hreq : a.request = .push val)
    (hf : FewOperations c s a) (h : SinglePopper c s) : SinglePopper c (step c s a) := by
  obtain ⟨htail,-,hpop⟩ := push_step c s a (h.pushers a.thread ht) val hreq
  have hzero := step_threads c s a 0 (Ne.symm ht)
  constructor
  case invariant => exact step_invariant c s a hf h.invariant
  case pushers =>
    intro u hu
    by_cases hut : u = a.thread
    · rw [hut]
      exact hpop
    · rw [step_threads c s a u hut]
      exact h.pushers u hu
  case popper =>
    rw [hzero]
    exact h.popper
  case front =>
    rw [hzero, htail]
    exact h.front

inductive PopStep (s s' : State V) : Prop where
  | waits (source : hand (s.threads 0) = none) (target : hand (s'.threads 0) = none)
      (inside : isPop (s'.threads 0) = true)
      (front : ∀ pos, s'.threads 0 = .popSeq pos ∨ s'.threads 0 = .popSwap pos → pos = s.tail)
      (tail : s'.tail = s.tail) (returned : s'.returned = s.returned)
  | givesUp (pos : ℕ) (place : s.threads 0 = .popSeq pos) (idle : s'.threads 0 = .idle)
      (unpublished : (s.tickets.stage s.tail).isPublished = false) (tail : s'.tail = s.tail)
      (returned : s'.returned = s.returned)
  | claims (pos : ℕ) (place : s.threads 0 = .popSwap pos) (target : s'.threads 0 = .popCopy pos)
      (tail : s'.tail = s.tail+1) (returned : s'.returned = s.returned)
  | copies (pos : ℕ) (val : Option V) (place : s.threads 0 = .popCopy pos)
      (target : s'.threads 0 = .popStore pos val) (tail : s'.tail = s.tail)
      (returned : s'.returned = s.returned)
  | stores (pos : ℕ) (val : Option V) (place : s.threads 0 = .popStore pos val)
      (idle : s'.threads 0 = .idle) (tail : s'.tail = s.tail)
      (returned : s'.returned = s.returned++[(pos,val)])

theorem goto_threads (t : ℕ) (p : Place V) : (goto s t p).threads t = p := by simp [goto]

theorem goto_waits (p : Place V) (hfrom : hand (s.threads 0) = none) (hto : hand p = none)
    (hin : isPop p = true) (hfront : ∀ pos, p = .popSeq pos ∨ p = .popSwap pos → pos = s.tail) :
    PopStep s (goto s 0 p) := by
  have hp := goto_threads s 0 p
  exact .waits hfrom (by rw [hp]; exact hto) (by rw [hp]; exact hin) (by rw [hp]; exact hfront) rfl rfl

theorem pop_step (spurious : Bool) (h : SinglePopper c s) : PopStep s (step c s ⟨0,.pop,spurious⟩) := by
  cases ht : s.threads 0 with
  | idle =>
    have hstep : step c s ⟨0,.pop,spurious⟩ = goto { s with begun := s.begun+1 } 0 .popLoad := by
      rw [step, ht]
      rfl
    have hp := goto_threads { s with begun := s.begun+1 } 0 .popLoad
    rw [hstep]
    exact .waits (by rw [ht]; rfl) (by rw [hp]; rfl) (by rw [hp]; rfl) (by rw [hp]; simp) rfl rfl
  | popLoad =>
    have hstep : step c s ⟨0,.pop,spurious⟩ = goto s 0 (.popSeq s.tail) := by rw [step, ht]
    rw [hstep]
    exact goto_waits s _ (by rw [ht]; rfl) rfl rfl (by simp)
  | popSeq pos =>
    have hstep := step_popSeq c s ⟨0,.pop,spurious⟩ pos ht
    have hfront := h.front pos (Or.inl ht)
    rcases popSeqStep_eq c s 0 pos with hp | hp | hp
    · rw [hstep, hp]
      exact goto_waits s _ (by rw [ht]; rfl) rfl rfl (by simp [hfront])
    · rw [hstep, hp]
      exact goto_waits s _ (by rw [ht]; rfl) rfl rfl (by simp)
    · have hidle : (step c s ⟨0,.pop,spurious⟩).threads 0 = .idle := by
        rw [hstep, hp, goto_threads]
      have hempty := invariant_empty c s h.invariant ⟨0,.pop,spurious⟩ pos ht hidle
      refine .givesUp pos ht hidle (by rw [← hfront]; exact hempty) ?_ ?_
      · rw [hstep, hp]
        rfl
      · rw [hstep, hp]
        rfl
  | popSwap pos =>
    have hstep : step c s ⟨0,.pop,spurious⟩ = popSwapStep s 0 pos spurious := by rw [step, ht]
    have hfront := h.front pos (Or.inr ht)
    have hsmall := (counters_small c s h.invariant).2
    have htail := h.invariant.memory.tail
    rw [hstep, popSwapStep]
    split_ifs
    · refine .claims pos ht (by simp [goto]) ?_ rfl
      rw [hfront]
      exact Nat.mod_eq_of_lt (by omega)
    · exact goto_waits s _ (by rw [ht]; rfl) rfl rfl (by simp)
  | popCopy pos =>
    have hstep : step c s ⟨0,.pop,spurious⟩ = popCopyStep c s 0 pos := by rw [step, ht]
    rw [hstep]
    exact .copies pos (s.slots (mask c pos)).data ht (by simp only [popCopyStep, goto_threads]) rfl rfl
  | popStore pos val =>
    have hstep : step c s ⟨0,.pop,spurious⟩ = popStoreStep c s 0 pos val := by rw [step, ht]
    rw [hstep]
    exact .stores pos val ht (by simp only [popStoreStep, goto_threads]) rfl rfl
  | pushLoad val => exact absurd h.popper (by simp [ht, isPush])
  | pushSeq val pos => exact absurd h.popper (by simp [ht, isPush])
  | pushSwap val pos => exact absurd h.popper (by simp [ht, isPush])
  | pushCopy val pos => exact absurd h.popper (by simp [ht, isPush])
  | pushStore pos => exact absurd h.popper (by simp [ht, isPush])

theorem pop_singlePopper (spurious : Bool) (hf : FewOperations c s ⟨0,.pop,spurious⟩)
    (h : SinglePopper c s) : SinglePopper c (step c s ⟨0,.pop,spurious⟩) := by
  have hpop := pop_step c s spurious h
  constructor
  case invariant => exact step_invariant c s _ hf h.invariant
  case pushers =>
    intro u hu
    rw [step_threads c s _ u hu]
    exact h.pushers u hu
  case popper =>
    cases hpop with
    | waits _ _ inside _ _ _ => exact isPush_of_isPop _ inside
    | givesUp _ _ idle _ _ _ => rw [idle]; rfl
    | claims _ _ target _ _ => rw [target]; rfl
    | copies _ _ _ target _ _ => rw [target]; rfl
    | stores _ _ _ idle _ _ => rw [idle]; rfl
  case front =>
    cases hpop with
    | waits _ _ _ front tail _ => rw [tail]; exact front
    | givesUp _ _ idle _ _ _ => simp [idle]
    | claims _ _ target _ _ => simp [target]
    | copies _ _ _ target _ _ => simp [target]
    | stores _ _ _ idle _ _ => simp [idle]

def InOrder : Prop :=
  match hand (s.threads 0) with
  | none => s.returned.map Prod.fst = List.range s.tail
  | some (pos,_) => pos+1 = s.tail ∧ s.returned.map Prod.fst = List.range pos

theorem push_inOrder (val : V) (ht : a.thread ≠ 0) (hreq : a.request = .push val)
    (h : SinglePopper c s) (ho : InOrder s) : InOrder (step c s a) := by
  obtain ⟨htail,hreturned,-⟩ := push_step c s a (h.pushers a.thread ht) val hreq
  unfold InOrder
  rw [step_threads c s a 0 (Ne.symm ht), htail, hreturned]
  exact ho

theorem pop_inOrder (spurious : Bool) (h : SinglePopper c s) (ho : InOrder s) :
    InOrder (step c s ⟨0,.pop,spurious⟩) := by
  unfold InOrder at ho ⊢
  cases pop_step c s spurious h with
  | waits source target _ _ tail returned =>
    rw [source] at ho
    rw [target, tail, returned]
    exact ho
  | givesUp pos place idle _ tail returned =>
    rw [place] at ho
    rw [idle, tail, returned]
    exact ho
  | claims pos place target tail returned =>
    have hfront := h.front pos (Or.inr place)
    rw [place] at ho
    rw [target, tail, returned]
    exact ⟨congrArg (·+1) hfront,hfront ▸ ho⟩
  | copies pos val place target tail returned =>
    rw [place] at ho
    rw [target, tail, returned]
    exact ho
  | stores pos val place idle tail returned =>
    rw [place] at ho
    obtain ⟨hpos,horder⟩ := ho
    rw [idle, tail, returned, List.map_append, horder, ← hpos, List.range_succ]
    rfl

/-- While the popping thread is outside, every claimed ticket was returned, with the value
pushed under it and only once. -/
theorem returned_of_claimed (h : SinglePopper c s) (hidle : s.threads 0 = .idle) (q : ℕ)
    (hq : q < s.tail) :
    ∃ val, s.pushed[q]? = some val ∧ s.returned.filter (fun x => x.1 = q) = [(q,some val)] := by
  have hclaimed := (h.invariant.sound.claimed q).mpr (by rw [← h.invariant.memory.tail]; exact hq)
  have hreleased : s.tickets.stage q = .released := by
    by_contra hr
    have hin : (s.tickets.stage q).inHand = true := by
      revert hclaimed hr
      cases s.tickets.stage q <;> simp [Stage.isClaimed, Stage.inHand]
    obtain ⟨t,ht⟩ := h.invariant.hands.owned q hin
    have hpop : isPop (s.threads t) = true := by
      revert ht hclaimed
      cases s.tickets.stage q <;> cases s.threads t <;> simp [hand, isPop, Stage.isClaimed]
    by_cases h0 : t = 0
    · rw [h0, hidle] at hpop
      exact Bool.noConfusion hpop
    · rw [h.pushers t h0] at hpop
      exact absurd hpop (by decide)
  obtain ⟨v,hv⟩ := h.invariant.returns.complete q hreleased
  obtain ⟨val,rfl,hval⟩ := invariant_returns c s h.invariant q v hv
  exact ⟨val,hval,filter_of_nodup s.returned h.invariant.returns.distinct q _ hv⟩

end SinglePopper
end MpmcQueue
end Chronos
