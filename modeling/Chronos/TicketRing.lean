import Mathlib

/-!
# Ticket rings

Tickets are drawn from two counters, one for the writers and one for the
readers, and a ticket is served by the place of its residue. Each ticket
passes the same stages in the same order. A place has a turn: the earliest of
its tickets that is not released. Tickets before the turn are released and
tickets after it are untaken, so at any time one ticket at most is at work
in a place.
-/

set_option autoImplicit false

namespace Chronos.TicketRing

inductive Stage where
  | untaken
  | taken
  | written
  | published
  | claimed
  | copied
  | released
  deriving DecidableEq

namespace Stage

def isWritten : Stage → Bool
  | untaken | taken => false
  | _ => true

def isPublished : Stage → Bool
  | untaken | taken | written => false
  | _ => true

def isClaimed : Stage → Bool
  | claimed | copied | released => true
  | _ => false

def isCopied : Stage → Bool
  | copied | released => true
  | _ => false

def inHand : Stage → Bool
  | taken | written | claimed | copied => true
  | _ => false

end Stage

structure Tickets where
  head : ℕ := 0
  tail : ℕ := 0
  stage : ℕ → Stage := fun _ => .untaken
  turn : ℕ → ℕ := id

namespace Tickets

def take (r : Tickets) : Tickets :=
  { r with head := r.head+1, stage := Function.update r.stage r.head .taken }

def claim (r : Tickets) : Tickets :=
  { r with tail := r.tail+1, stage := Function.update r.stage r.tail .claimed }

def advance (r : Tickets) (q : ℕ) (st : Stage) : Tickets :=
  { r with stage := Function.update r.stage q st }

def release (n : ℕ) (r : Tickets) (q : ℕ) : Tickets :=
  { r with
    stage := Function.update r.stage q .released
    turn := Function.update r.turn (q%n) (q+n) }

end Tickets

structure Sound (n : ℕ) (r : Tickets) : Prop where
  untaken : ∀ q, r.stage q = .untaken ↔ r.head ≤ q
  claimed : ∀ q, (r.stage q).isClaimed = true ↔ q < r.tail
  earlier : ∀ q, q < r.turn (q%n) → r.stage q = .released
  later : ∀ q, r.turn (q%n) < q → r.stage q = .untaken
  place : ∀ i, i < n → r.turn i%n = i
  current : ∀ i, i < n → r.stage (r.turn i) ≠ .released

theorem round_apart (n q p : ℕ) (h : q%n = p%n) (hlt : q < p) : q+n ≤ p := by
  have hq := Nat.div_add_mod q n
  have hp := Nat.div_add_mod p n
  have hd : q/n < p/n := by
    by_contra hc
    have := Nat.mul_le_mul_left n (not_lt.mp hc)
    omega
  have := Nat.mul_le_mul_left n hd
  rw [Nat.succ_eq_add_one, Nat.mul_add] at this
  omega

section Rules
variable (n : ℕ) (r : Tickets)

theorem initial_sound : Sound n {} where
  untaken q := ⟨fun _ => Nat.zero_le q,fun _ => rfl⟩
  claimed q := ⟨fun h => absurd h (by simp [Stage.isClaimed]),fun h => absurd h (Nat.not_lt_zero q)⟩
  earlier q h := absurd h (Nat.not_lt.mpr (Nat.mod_le q n))
  later _ _ := rfl
  place i h := Nat.mod_eq_of_lt h
  current _ _ := by simp

/-- A ticket at work has the turn of its place. -/
theorem turn_of_busy (h : Sound n r) (q : ℕ) (hu : r.stage q ≠ .untaken)
    (hr : r.stage q ≠ .released) : r.turn (q%n) = q := by
  rcases lt_trichotomy (r.turn (q%n)) q with hlt | he | hgt
  · exact absurd (h.later q hlt) hu
  · exact he
  · exact absurd (h.earlier q hgt) hr

/-- The ticket whose turn it is may change its stage, and the counters may
move past it, as long as both still tell the stage apart. -/
theorem restage_sound (h : Sound n r) (q head tail : ℕ) (st : Stage) (hturn : r.turn (q%n) = q)
    (hr : st ≠ .released) (hhead : ∀ p, p ≠ q → (r.head ≤ p ↔ head ≤ p))
    (hu : st = .untaken ↔ head ≤ q) (htail : ∀ p, p ≠ q → (p < r.tail ↔ p < tail))
    (hc : st.isClaimed = true ↔ q < tail) :
    Sound n { r with head := head, tail := tail, stage := Function.update r.stage q st } := by
  constructor
  case untaken =>
    intro p
    simp only [Function.update_apply]
    split_ifs with he
    · exact he ▸ hu
    · exact (h.untaken p).trans (hhead p he)
  case claimed =>
    intro p
    simp only [Function.update_apply]
    split_ifs with he
    · exact he ▸ hc
    · exact (h.claimed p).trans (htail p he)
  case earlier =>
    intro p hp
    have hne : p ≠ q := by
      rintro rfl
      exact absurd (hturn ▸ hp) (lt_irrefl _)
    simp only [Function.update_apply, if_neg hne]
    exact h.earlier p hp
  case later =>
    intro p hp
    have hne : p ≠ q := by
      rintro rfl
      exact absurd (hturn ▸ hp) (lt_irrefl _)
    simp only [Function.update_apply, if_neg hne]
    exact h.later p hp
  case place => exact h.place
  case current =>
    intro i hi
    simp only [Function.update_apply]
    split_ifs with he
    · exact hr
    · exact h.current i hi

theorem advance_sound (h : Sound n r) (q : ℕ) (st : Stage) (hu : r.stage q ≠ .untaken)
    (hr : r.stage q ≠ .released) (hu' : st ≠ .untaken) (hr' : st ≠ .released)
    (hc : st.isClaimed = (r.stage q).isClaimed) : Sound n (r.advance q st) := by
  refine restage_sound n r h q r.head r.tail st (turn_of_busy n r h q hu hr) hr'
    (fun _ _ => Iff.rfl) ?_ (fun _ _ => Iff.rfl) ?_
  · exact ⟨fun hf => absurd hf hu',fun hf => absurd ((h.untaken q).mpr hf) hu⟩
  · rw [hc]
    exact h.claimed q

theorem take_sound (h : Sound n r) (hturn : r.turn (r.head%n) = r.head) : Sound n r.take := by
  have hc := h.claimed r.head
  rw [(h.untaken r.head).mpr (le_refl _)] at hc
  refine restage_sound n r h r.head (r.head+1) r.tail .taken hturn (by simp) (fun p hp => by omega)
    ?_ (fun _ _ => Iff.rfl) hc
  exact ⟨fun hf => absurd hf (by simp),fun hf => absurd hf (by omega)⟩

theorem claim_sound (h : Sound n r) (hp : r.stage r.tail = .published) : Sound n r.claim := by
  have hu := h.untaken r.tail
  rw [hp] at hu
  refine restage_sound n r h r.tail r.head (r.tail+1) .claimed
    (turn_of_busy n r h r.tail (by simp [hp]) (by simp [hp])) (by simp) (fun _ _ => Iff.rfl) ?_
    (fun p hp => by omega) ⟨fun _ => by omega,fun _ => rfl⟩
  exact ⟨fun hf => absurd hf (by simp),fun hf => absurd (hu.mpr hf) (by simp)⟩

/-- A released ticket hands its place to the ticket one round later. -/
theorem release_sound (h : Sound n r) (hn : 0 < n) (q : ℕ) (hq : r.stage q = .copied) :
    Sound n (r.release n q) := by
  have hturn := turn_of_busy n r h q (by simp [hq]) (by simp [hq])
  have hnext : r.stage (q+n) = .untaken := by
    apply h.later
    rw [Nat.add_mod_right, hturn]
    omega
  constructor
  case untaken =>
    intro p
    have hu := h.untaken p
    simp only [Tickets.release, Function.update_apply]
    split_ifs with he
    · subst he
      rw [hq] at hu
      simpa using hu
    · exact hu
  case claimed =>
    intro p
    have hc := h.claimed p
    simp only [Tickets.release, Function.update_apply]
    split_ifs with he
    · subst he
      rw [hq] at hc
      simpa [Stage.isClaimed] using hc
    · exact hc
  case earlier =>
    intro p hp
    simp only [Tickets.release, Function.update_apply] at hp ⊢
    by_cases he : p = q
    · rw [if_pos he]
    · rw [if_neg he]
      split_ifs at hp with hm
      · apply h.earlier
        rw [hm, hturn]
        by_contra hc
        have := round_apart n q p hm.symm (by omega)
        omega
      · exact h.earlier p hp
  case later =>
    intro p hp
    simp only [Tickets.release, Function.update_apply] at hp ⊢
    have he : p ≠ q := by
      rintro rfl
      simp at hp
    rw [if_neg he]
    apply h.later
    split_ifs at hp with hm
    · rw [hm, hturn]
      omega
    · exact hp
  case place =>
    intro i hi
    simp only [Tickets.release, Function.update_apply]
    split_ifs with he
    · rw [Nat.add_mod_right, he]
    · exact h.place i hi
  case current =>
    intro i hi
    simp only [Tickets.release, Function.update_apply]
    by_cases he : i = q%n
    · rw [if_pos he, if_neg (by omega), hnext]
      simp
    · have hne : r.turn i ≠ q := fun ht => he (by rw [← h.place i hi, ht])
      rw [if_neg he, if_neg hne]
      exact h.current i hi

/-- The readers never pass the writers, and the writers are never more than a
round ahead. -/
theorem counters_bounded (h : Sound n r) (hn : 0 < n) : r.tail ≤ r.head ∧ r.head ≤ r.tail+n := by
  constructor
  · by_contra hc
    have hu := (h.untaken r.head).mpr (le_refl _)
    have hcl := (h.claimed r.head).mpr (by omega)
    rw [hu] at hcl
    exact absurd hcl (by simp [Stage.isClaimed])
  · by_contra hc
    have hnc : ¬(r.stage r.tail).isClaimed = true := fun hf => absurd ((h.claimed _).mp hf) (lt_irrefl _)
    have hle : r.turn (r.tail%n) ≤ r.tail := by
      by_contra hf
      rw [h.earlier r.tail (by omega)] at hnc
      exact hnc rfl
    have hlater : r.stage (r.tail+n) ≠ .untaken := fun hf => absurd ((h.untaken _).mp hf) (by omega)
    exact hlater (h.later _ (by rw [Nat.add_mod_right]; omega))

/-- The tickets written and not yet copied out occupy different places. -/
theorem unconsumed_card (h : Sound n r) (hn : 0 < n) (tickets : Finset ℕ)
    (hw : ∀ q ∈ tickets, (r.stage q).isWritten = true ∧ (r.stage q).isCopied = false) :
    tickets.card ≤ n := by
  have hturn : ∀ q ∈ tickets, r.turn (q%n) = q := by
    intro q hq
    obtain ⟨h1,h2⟩ := hw q hq
    apply turn_of_busy n r h q
    · intro he
      simp [he, Stage.isWritten] at h1
    · intro he
      simp [he, Stage.isCopied] at h2
  have hinj : Set.InjOn (fun q => q%n) (tickets : Set ℕ) := by
    intro p hp q hq he
    rw [← hturn p hp, ← hturn q hq]
    exact congrArg r.turn he
  have hsub : tickets.image (fun q => q%n) ⊆ Finset.range n := by
    intro i hi
    obtain ⟨q,-,rfl⟩ := Finset.mem_image.mp hi
    exact Finset.mem_range.mpr (Nat.mod_lt q hn)
  calc
    tickets.card = (tickets.image (fun q => q%n)).card := (Finset.card_image_of_injOn hinj).symm
    _ ≤ (Finset.range n).card := Finset.card_le_card hsub
    _ = n := Finset.card_range n

end Rules

end Chronos.TicketRing
