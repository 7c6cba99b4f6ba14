import Mathlib

/-!
# Computations that emit and may throw

What was emitted before a throw stays emitted. A computation returns when it
reaches its end; a loop returns when every turn does, and then it has emitted
what its turns emitted, one after the other.
-/

set_option autoImplicit false

namespace Chronos

structure Emission (T E A : Type) where
  emitted : List T
  result : Except E A

namespace Emission
variable {T E A B : Type}

instance : Monad (Emission T E) where
  pure a := ⟨[],.ok a⟩
  bind x f := match x.result with
    | .ok a => ⟨x.emitted++(f a).emitted,(f a).result⟩
    | .error e => ⟨x.emitted,.error e⟩

def emit (t : T) : Emission T E Unit := ⟨[t],.ok ()⟩

def lift (r : Except E A) : Emission T E A := ⟨[],r⟩

def each (f : A → Emission T E Unit) : List A → Emission T E Unit
  | [] => pure ()
  | a::as => do
    f a
    each f as

def Completes (x : Emission T E A) : Prop := ∃ a, x.result = .ok a

def Emits (x : Emission T E A) (P : List T → Prop) : Prop := x.Completes → P x.emitted

@[simp] theorem pure_emitted (a : A) : (pure a : Emission T E A).emitted = [] := rfl

@[simp] theorem pure_result (a : A) : (pure a : Emission T E A).result = .ok a := rfl

@[simp] theorem pure_completes (a : A) : (pure a : Emission T E A).Completes := ⟨a,rfl⟩

@[simp] theorem emit_completes (t : T) : (emit t : Emission T E Unit).Completes := ⟨(),rfl⟩

theorem bind_of_ok (x : Emission T E A) (f : A → Emission T E B) (a : A) (h : x.result = .ok a) :
    x >>= f = ⟨x.emitted++(f a).emitted,(f a).result⟩ := by
  obtain ⟨us,r⟩ := x
  obtain rfl : r = .ok a := h
  rfl

theorem bind_completes (x : Emission T E A) (f : A → Emission T E B) :
    (x >>= f).Completes ↔ ∃ a, x.result = .ok a ∧ (f a).Completes := by
  constructor
  · rintro ⟨b,hb⟩
    cases hx : x.result with
    | error e =>
      obtain ⟨us,r⟩ := x
      obtain rfl : r = .error e := hx
      cases hb
    | ok a =>
      rw [bind_of_ok x f a hx] at hb
      exact ⟨a,rfl,b,hb⟩
  · rintro ⟨a,ha,b,hb⟩
    rw [bind_of_ok x f a ha]
    exact ⟨b,hb⟩

theorem lift_bind_completes (r : Except E A) (f : A → Emission T E B) :
    (lift r >>= f).Completes ↔ ∃ a, r = .ok a ∧ (f a).Completes := bind_completes _ _

theorem bind_emits (x : Emission T E A) (f : A → Emission T E B) (P : List T → Prop)
    (h : ∀ a, x.result = .ok a → (f a).Emits (fun later => P (x.emitted++later))) :
    (x >>= f).Emits P := by
  intro hc
  obtain ⟨a,ha,hfa⟩ := (bind_completes x f).mp hc
  rw [bind_of_ok x f a ha]
  exact h a ha hfa

theorem lift_bind_emits (r : Except E A) (f : A → Emission T E B) (P : List T → Prop)
    (h : ∀ a, r = .ok a → (f a).Emits P) : (lift r >>= f).Emits P := bind_emits _ _ _ h

@[simp] theorem lift_bind_ok (a : A) (f : A → Emission T E B) :
    ((lift (.ok a) : Emission T E A) >>= f) = f a := rfl

theorem each_completes (f : A → Emission T E Unit) (as : List A) :
    (each f as).Completes ↔ ∀ a ∈ as, (f a).Completes := by
  induction as with
  | nil => simp [each]
  | cons a as ih =>
    rw [each, bind_completes, List.forall_mem_cons, ← ih]
    exact ⟨fun ⟨u,ha,hrest⟩ => ⟨⟨u,ha⟩,hrest⟩,fun ⟨⟨u,ha⟩,hrest⟩ => ⟨u,ha,hrest⟩⟩

theorem each_emitted (f : A → Emission T E Unit) (as : List A) (h : ∀ a ∈ as, (f a).Completes) :
    (each f as).emitted = as.flatMap (fun a => (f a).emitted) := by
  induction as with
  | nil => rfl
  | cons a as ih =>
    obtain ⟨u,ha⟩ := h a (by simp)
    rw [each, bind_of_ok _ _ u ha, ih (fun b hb => h b (by simp [hb])), List.flatMap_cons]

theorem each_emits_length (f : A → Emission T E Unit) (n : A → ℕ) (as : List A)
    (h : ∀ a ∈ as, (f a).Emits (fun ts => ts.length = n a)) :
    (each f as).Emits (fun ts => ts.length = (as.map n).sum) := by
  intro hc
  rw [each_completes] at hc
  rw [each_emitted f as hc, List.length_flatMap]
  exact congrArg List.sum (List.map_congr_left (fun a ha => h a ha (hc a ha)))

end Emission
end Chronos
