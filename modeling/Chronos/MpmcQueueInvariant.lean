import Chronos.MpmcQueue

/-!
# What the slots, the counters and the threads agree on

The sequence number of a slot shows the ticket whose turn it is and whether
that ticket is published. A thread between its compare-exchange and its store
holds its ticket alone, and the ticket's stage tells which of the two steps
comes next. What a thread saw before the exchange can only become more true.
-/

set_option autoImplicit false

namespace Chronos.MpmcQueue
open TicketRing

section Places
variable {V : Type}

def hand : Place V → Option (ℕ × Stage)
  | .pushCopy _ pos => some (pos,.taken)
  | .pushStore pos => some (pos,.written)
  | .popCopy pos => some (pos,.claimed)
  | .popStore pos _ => some (pos,.copied)
  | _ => none

def isActive : Place V → Bool
  | .pushLoad _ | .pushSeq _ _ | .pushSwap _ _ | .popLoad | .popSeq _ | .popSwap _ => true
  | _ => false

theorem hand_inHand (p : Place V) (q : ℕ) (st : Stage) (h : hand p = some (q,st)) :
    st.inHand = true := by
  cases p <;> simp only [hand, Option.some.injEq, Prod.mk.injEq, reduceCtorEq] at h <;>
    rw [← h.2] <;> rfl

/-- What a thread knows of the shared state at each place. -/
def Known (c : Capacity) (s : State V) : Place V → Prop
  | .pushSeq _ pos => pos ≤ s.tickets.head
  | .pushSwap _ pos => pos ≤ s.tickets.head ∧ pos ≤ s.tickets.turn (pos%c.size)
  | .pushCopy val pos => s.pushed[pos]? = some val
  | .popSeq pos => pos ≤ s.tickets.tail
  | .popSwap pos => pos ≤ s.tickets.tail ∧ (s.tickets.stage pos).isPublished = true
  | .popStore pos val => val.isSome = true ∧ s.pushed[pos]? = val
  | _ => True

structure Later (s s' : State V) : Prop where
  head : s.tickets.head ≤ s'.tickets.head
  tail : s.tickets.tail ≤ s'.tickets.tail
  turn : ∀ i, s.tickets.turn i ≤ s'.tickets.turn i
  published : ∀ q, (s.tickets.stage q).isPublished = true → (s'.tickets.stage q).isPublished = true
  pushed : ∀ (q : ℕ) (x : V), s.pushed[q]? = some x → s'.pushed[q]? = some x

theorem known_later (c : Capacity) (s s' : State V) (p : Place V) (h : Later s s')
    (hk : Known c s p) : Known c s' p := by
  cases p with
  | idle => trivial
  | pushLoad val => trivial
  | pushSeq val pos => exact le_trans hk h.head
  | pushSwap val pos => exact ⟨hk.1.trans h.head,hk.2.trans (h.turn _)⟩
  | pushCopy val pos => exact h.pushed pos val hk
  | pushStore pos => trivial
  | popLoad => trivial
  | popSeq pos => exact le_trans hk h.tail
  | popSwap pos => exact ⟨hk.1.trans h.tail,h.published pos hk.2⟩
  | popCopy pos => trivial
  | popStore pos val =>
    obtain ⟨x,rfl⟩ := Option.isSome_iff_exists.mp hk.1
    exact ⟨rfl,h.pushed pos x hk.2⟩

end Places

section Invariants
variable {V : Type}

structure Memory (c : Capacity) (s : State V) : Prop where
  head : s.head = s.tickets.head
  tail : s.tail = s.tickets.tail
  length : s.pushed.length = s.tickets.head
  seq : ∀ i, i < c.size → (s.slots i).seq =
    if (s.tickets.stage (s.tickets.turn i)).isPublished then s.tickets.turn i+1 else s.tickets.turn i
  data : ∀ i, i < c.size → (s.tickets.stage (s.tickets.turn i)).isWritten = true →
    (s.slots i).data = s.pushed[s.tickets.turn i]?

structure Hands (s : State V) : Prop where
  owns : ∀ t q st, hand (s.threads t) = some (q,st) → s.tickets.stage q = st
  owned : ∀ q, (s.tickets.stage q).inHand = true →
    ∃ t, hand (s.threads t) = some (q,s.tickets.stage q)
  alone : ∀ t u q st st', hand (s.threads t) = some (q,st) → hand (s.threads u) = some (q,st') → t = u

structure Returns (s : State V) : Prop where
  sound : ∀ x ∈ s.returned, s.tickets.stage x.1 = .released ∧ x.2.isSome = true ∧
    s.pushed[x.1]? = x.2
  complete : ∀ q, s.tickets.stage q = .released → ∃ v, (q,v) ∈ s.returned
  distinct : (s.returned.map Prod.fst).Nodup

def Budget (s : State V) : Prop :=
  ∃ active : Finset ℕ, (∀ t, t ∈ active ↔ isActive (s.threads t) = true) ∧
    s.tickets.head+s.tickets.tail+active.card ≤ s.begun

structure Invariant (c : Capacity) (s : State V) : Prop where
  sound : Sound c.size s.tickets
  memory : Memory c s
  hands : Hands s
  known : ∀ t, Known c s (s.threads t)
  returns : Returns s
  budget : Budget s
  few : s.begun < 2^62

theorem initial_invariant (c : Capacity) : Invariant c (initial V) where
  sound := initial_sound c.size
  memory := ⟨rfl,rfl,rfl,fun _ _ => rfl,fun _ _ h => absurd h (by simp [initial, Stage.isWritten])⟩
  hands := ⟨fun _ _ _ h => absurd h (by simp [initial, hand]),
    fun _ h => absurd h (by simp [initial, Stage.inHand]),
    fun _ _ _ _ _ h => absurd h (by simp [initial, hand])⟩
  known _ := trivial
  returns := ⟨fun _ h => absurd h (by simp [initial]),fun _ h => absurd h (by simp [initial]),
    List.nodup_nil⟩
  budget := ⟨∅,fun t => by simp [initial, isActive],by simp [initial]⟩
  few := by simp [initial]

section Frame
variable (s s' : State V) (t : ℕ) (p : Place V)

theorem hands_restage (q : ℕ) (st : Stage) (hthreads : s'.threads = Function.update s.threads t p)
    (hstage : s'.tickets.stage = Function.update s.tickets.stage q st)
    (hfrom : hand (s.threads t) = none ∧ (s.tickets.stage q).inHand = false ∨
      ∃ st₀, hand (s.threads t) = some (q,st₀))
    (hto : hand p = some (q,st) ∨ hand p = none ∧ st.inHand = false) (h : Hands s) : Hands s' := by
  have hother : ∀ u st₀, u ≠ t → hand (s.threads u) ≠ some (q,st₀) := by
    intro u st₀ hu hq
    rcases hfrom with ⟨-,hn⟩ | ⟨st₁,ht⟩
    · rw [h.owns u q st₀ hq, hand_inHand _ _ _ hq] at hn
      exact absurd hn (by decide)
    · exact hu (h.alone u t q st₀ st₁ hq ht)
  have hself : ∀ q₀ st₀, hand p = some (q₀,st₀) → q₀ = q ∧ st₀ = st := by
    intro q₀ st₀ hp
    rcases hto with hp' | ⟨hp',-⟩
    · rw [hp', Option.some.injEq, Prod.mk.injEq] at hp
      exact ⟨hp.1.symm,hp.2.symm⟩
    · rw [hp'] at hp
      exact absurd hp (by simp)
  constructor
  case owns =>
    intro u q₀ st₀ hu
    simp only [hthreads, hstage, Function.update_apply] at hu ⊢
    by_cases hut : u = t
    · rw [if_pos hut] at hu
      obtain ⟨rfl,rfl⟩ := hself q₀ st₀ hu
      rw [if_pos rfl]
    · rw [if_neg hut] at hu
      have hne : q₀ ≠ q := fun he => hother u st₀ hut (he ▸ hu)
      rw [if_neg hne]
      exact h.owns u q₀ st₀ hu
  case owned =>
    intro q₀ hq
    simp only [hthreads, hstage, Function.update_apply] at hq ⊢
    by_cases hqq : q₀ = q
    · rw [if_pos hqq] at hq ⊢
      rcases hto with hp | ⟨-,hst⟩
      · exact ⟨t,by rw [if_pos rfl, hp, hqq]⟩
      · rw [hst] at hq
        exact absurd hq (by decide)
    · rw [if_neg hqq] at hq ⊢
      obtain ⟨u,hu⟩ := h.owned q₀ hq
      have hut : u ≠ t := by
        rintro rfl
        rcases hfrom with ⟨hn,-⟩ | ⟨st₁,ht⟩
        · rw [hn] at hu
          exact absurd hu (by simp)
        · rw [ht, Option.some.injEq, Prod.mk.injEq] at hu
          exact hqq hu.1.symm
      exact ⟨u,by rw [if_neg hut, hu]⟩
  case alone =>
    intro u v q₀ st₀ st₁ hu hv
    simp only [hthreads, Function.update_apply] at hu hv
    by_cases hut : u = t <;> by_cases hvt : v = t
    · rw [hut, hvt]
    · rw [if_pos hut] at hu
      rw [if_neg hvt] at hv
      exact absurd ((hself q₀ st₀ hu).1 ▸ hv) (hother v st₁ hvt)
    · rw [if_neg hut] at hu
      rw [if_pos hvt] at hv
      exact absurd ((hself q₀ st₁ hv).1 ▸ hu) (hother u st₀ hut)
    · rw [if_neg hut] at hu
      rw [if_neg hvt] at hv
      exact h.alone u v q₀ st₀ st₁ hu hv

theorem known_move (c : Capacity) (hthreads : s'.threads = Function.update s.threads t p)
    (hl : Later s s') (hp : Known c s' p) (h : ∀ u, Known c s (s.threads u)) (u : ℕ) :
    Known c s' (s'.threads u) := by
  rw [hthreads, Function.update_apply]
  split_ifs
  · exact hp
  · exact known_later c s s' _ hl (h u)

theorem budget_move (hthreads : s'.threads = Function.update s.threads t p)
    (hcount : s'.tickets.head+s'.tickets.tail+(isActive p).toNat+s.begun ≤
      s.tickets.head+s.tickets.tail+(isActive (s.threads t)).toNat+s'.begun)
    (h : Budget s) : Budget s' := by
  obtain ⟨active,hmem,hle⟩ := h
  have ht := hmem t
  cases hp : isActive p with
  | true =>
    refine ⟨insert t active,fun u => ?_,?_⟩
    · by_cases hu : u = t
      · simp [hthreads, hu, hp]
      · simp [hthreads, hu, hmem]
    · cases hs : isActive (s.threads t) with
      | true =>
        rw [Finset.insert_eq_of_mem (ht.mpr hs)]
        simp only [hp, hs, Bool.toNat_true] at hcount
        omega
      | false =>
        rw [Finset.card_insert_of_notMem (fun hm => by simp [hs, ht] at hm)]
        simp only [hp, hs, Bool.toNat_true, Bool.toNat_false] at hcount
        omega
  | false =>
    refine ⟨active.erase t,fun u => ?_,?_⟩
    · by_cases hu : u = t
      · simp [hthreads, hu, hp]
      · simp [hthreads, hu, hmem]
    · cases hs : isActive (s.threads t) with
      | true =>
        have hc := Finset.card_erase_add_one (ht.mpr hs)
        simp only [hp, hs, Bool.toNat_true, Bool.toNat_false] at hcount
        omega
      | false =>
        rw [Finset.erase_eq_of_notMem (fun hm => by simp [hs, ht] at hm)]
        simp only [hp, hs, Bool.toNat_false] at hcount
        omega

theorem returns_keep (hreturned : s'.returned = s.returned)
    (hreleased : ∀ q, s'.tickets.stage q = .released ↔ s.tickets.stage q = .released)
    (hpushed : ∀ (q : ℕ) (x : V), s.pushed[q]? = some x → s'.pushed[q]? = some x)
    (h : Returns s) : Returns s' := by
  constructor
  case sound =>
    intro x hx
    rw [hreturned] at hx
    obtain ⟨h1,h2,h3⟩ := h.sound x hx
    obtain ⟨y,hy⟩ := Option.isSome_iff_exists.mp h2
    rw [hy] at h3
    exact ⟨(hreleased x.1).mpr h1,h2,by rw [hy, hpushed x.1 y h3]⟩
  case complete =>
    intro q hq
    rw [hreturned]
    exact h.complete q ((hreleased q).mp hq)
  case distinct =>
    rw [hreturned]
    exact h.distinct

end Frame
end Invariants

end Chronos.MpmcQueue
