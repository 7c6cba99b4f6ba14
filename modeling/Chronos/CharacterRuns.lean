import Mathlib

/-!
# Runs of characters

A run is a longest stretch of characters of one class. A text is cut into its
runs, or rewritten run by run. Runs of a smaller class lie within those of the
larger one.
-/

set_option autoImplicit false

namespace Chronos.CharacterRuns
variable {A : Type}

def runsFrom (p : A → Bool) : List A → List A → List (List A)
  | run, [] => if run.isEmpty then [] else [run]
  | run, c::s =>
    if p c then runsFrom p (run++[c]) s
    else (if run.isEmpty then [] else [run])++runsFrom p [] s

def runs (p : A → Bool) (s : List A) : List (List A) := runsFrom p [] s

def mapRunsFrom (p : A → Bool) (g : List A → List A) : List A → List A → List A
  | run, [] => g run
  | run, c::s => if p c then mapRunsFrom p g (run++[c]) s else g run++c::mapRunsFrom p g [] s

def mapRuns (p : A → Bool) (g : List A → List A) (s : List A) : List A := mapRunsFrom p g [] s

section Runs
variable (p : A → Bool)

@[simp] theorem runs_nil : runs p [] = [] := rfl

theorem runsFrom_in (run s : List A) (c : A) (hc : p c = true) :
    runsFrom p run (c::s) = runsFrom p (run++[c]) s := if_pos hc

theorem runsFrom_out (run s : List A) (c : A) (hc : p c = false) :
    runsFrom p run (c::s) = (if run.isEmpty then [] else [run])++runsFrom p [] s :=
  if_neg (by rw [hc]; exact Bool.false_ne_true)

theorem runsFrom_all (run s : List A) (h : ∀ c ∈ s, p c = true) :
    runsFrom p run s = runsFrom p (run++s) [] := by
  induction s generalizing run with
  | nil => rw [List.append_nil]
  | cons c s ih =>
    rw [runsFrom_in p run s c (h c List.mem_cons_self), ih (run++[c]) (fun d hd => h d (List.mem_cons_of_mem c hd)),
      List.append_assoc]
    rfl

theorem runs_all (s : List A) (h : ∀ c ∈ s, p c = true) (hs : s ≠ []) : runs p s = [s] := by
  rw [runs, runsFrom_all p [] s h, List.nil_append, runsFrom,
    if_neg (by simpa [List.isEmpty_iff] using hs)]

theorem runs_none (s : List A) (h : ∀ c ∈ s, p c = false) : runs p s = [] := by
  unfold runs
  induction s with
  | nil => rfl
  | cons c s ih =>
    rw [runsFrom_out p [] s c (h c List.mem_cons_self), ih (fun d hd => h d (List.mem_cons_of_mem c hd))]
    rfl

theorem runsFrom_append_cons (run s t : List A) (c : A) (hc : p c = false) :
    runsFrom p run (s++c::t) = runsFrom p run s++runs p t := by
  induction s generalizing run with
  | nil => exact runsFrom_out p run t c hc
  | cons d s ih =>
    rw [List.cons_append]
    cases hd : p d with
    | true => rw [runsFrom_in p run _ d hd, runsFrom_in p run s d hd, ih (run++[d])]
    | false => rw [runsFrom_out p run _ d hd, runsFrom_out p run s d hd, ih [], List.append_assoc]

theorem runs_append_cons (s t : List A) (c : A) (hc : p c = false) :
    runs p (s++c::t) = runs p s++runs p t := runsFrom_append_cons p [] s t c hc

theorem runs_cons (s : List A) (c : A) (hc : p c = false) : runs p (c::s) = runs p s :=
  runs_append_cons p [] s c hc

/-- Two texts side by side, when no run goes on from one into the other. -/
theorem runs_append_left (s t : List A) (h : ∀ c ∈ s.getLast?, p c = false) :
    runs p (s++t) = runs p s++runs p t := by
  rcases s.eq_nil_or_concat with rfl | ⟨front,c,rfl⟩
  · rfl
  · have hc : p c = false := h c (by simp)
    rw [List.concat_eq_append, List.append_assoc, List.singleton_append, runs_append_cons p front t c hc,
      runs_append_cons p front [] c hc, runs_nil, List.append_nil]

theorem runs_append_right (s t : List A) (h : ∀ c ∈ t.head?, p c = false) :
    runs p (s++t) = runs p s++runs p t := by
  cases t with
  | nil => rw [List.append_nil, runs_nil, List.append_nil]
  | cons c t =>
    have hc : p c = false := h c rfl
    rw [runs_append_cons p s t c hc, runs_cons p t c hc]

theorem length_runsFrom (run s : List A) : ∀ r ∈ runsFrom p run s, r.length ≤ run.length+s.length := by
  induction s generalizing run with
  | nil =>
    intro r hr
    rw [runsFrom] at hr
    split_ifs at hr
    · exact absurd hr List.not_mem_nil
    · rw [List.mem_singleton.mp hr, List.length_nil, add_zero]
  | cons c s ih =>
    intro r hr
    rw [runsFrom] at hr
    split_ifs at hr with hc he
    · have hle := ih (run++[c]) r hr
      rw [List.length_append, List.length_singleton] at hle
      rw [List.length_cons]
      omega
    · have hle := ih [] r hr
      rw [List.length_nil] at hle
      rw [List.length_cons]
      omega
    · rcases List.mem_append.mp hr with hr | hr
      · rw [List.mem_singleton.mp hr]
        exact Nat.le_add_right _ _
      · have hle := ih [] r hr
        rw [List.length_nil] at hle
        rw [List.length_cons]
        omega

theorem length_runs (s : List A) : ∀ r ∈ runs p s, r.length ≤ s.length := by
  intro r hr
  have hle := length_runsFrom p [] s r hr
  rwa [List.length_nil, Nat.zero_add] at hle

theorem runsFrom_spec (run s : List A) (hrun : ∀ c ∈ run, p c = true) :
    ∀ r ∈ runsFrom p run s, r ≠ [] ∧ ∀ c ∈ r, p c = true := by
  have hclose : ∀ r ∈ (if run.isEmpty then [] else [run]), r ≠ [] ∧ ∀ c ∈ r, p c = true := by
    intro r hr
    split_ifs at hr with he
    · exact absurd hr List.not_mem_nil
    · rw [List.mem_singleton.mp hr]
      exact ⟨fun h => he (List.isEmpty_iff.mpr h),hrun⟩
  induction s generalizing run with
  | nil => exact hclose
  | cons c s ih =>
    intro r hr
    cases hc : p c with
    | true =>
      rw [runsFrom_in p run s c hc] at hr
      have hrun' : ∀ d ∈ run++[c], p d = true := by
        intro d hd
        rcases List.mem_append.mp hd with hd | hd
        · exact hrun d hd
        · rw [List.mem_singleton.mp hd]
          exact hc
      refine ih (run++[c]) hrun' (fun r hr => ?_) r hr
      rw [if_neg (by simp), List.mem_singleton] at hr
      rw [hr]
      exact ⟨by simp,hrun'⟩
    | false =>
      rw [runsFrom_out p run s c hc] at hr
      rcases List.mem_append.mp hr with hr | hr
      · exact hclose r hr
      · exact ih [] (fun d hd => absurd hd List.not_mem_nil) (fun r hr => absurd hr List.not_mem_nil) r hr

theorem runs_spec (s : List A) : ∀ r ∈ runs p s, r ≠ [] ∧ ∀ c ∈ r, p c = true :=
  runsFrom_spec p [] s (fun _ hd => absurd hd List.not_mem_nil)

theorem runsFrom_within (p' : A → Bool) (hsub : ∀ c, p' c = true → p c = true) (run s : List A)
    (hrun : ∀ c ∈ run, p c = true) :
    runs p' (run++s) = (runsFrom p run s).flatMap (runs p') := by
  induction s generalizing run with
  | nil =>
    rw [List.append_nil, runsFrom]
    split_ifs with he
    · rw [List.isEmpty_iff.mp he]
      rfl
    · exact (List.flatMap_singleton (runs p') run).symm
  | cons c s ih =>
    rw [runsFrom]
    split_ifs with hc he
    · have hrun' : ∀ d ∈ run++[c], p d = true := by
        intro d hd
        rcases List.mem_append.mp hd with hd | hd
        · exact hrun d hd
        · rw [List.mem_singleton.mp hd]
          exact hc
      have hone := ih (run++[c]) hrun'
      rwa [List.append_assoc] at hone
    · have hc' : p' c = false := by
        rw [Bool.eq_false_iff]
        exact fun h => hc (hsub c h)
      rw [runs_append_cons p' run s c hc', List.isEmpty_iff.mp he]
      exact ih [] (fun d hd => absurd hd List.not_mem_nil)
    · have hc' : p' c = false := by
        rw [Bool.eq_false_iff]
        exact fun h => hc (hsub c h)
      have hrest := ih [] (fun d hd => absurd hd List.not_mem_nil)
      rw [List.nil_append] at hrest
      rw [runs_append_cons p' run s c hc', List.flatMap_append, List.flatMap_singleton, hrest]

/-- The runs of a smaller class are found run by run. -/
theorem runs_within (p' : A → Bool) (hsub : ∀ c, p' c = true → p c = true) (s : List A) :
    runs p' s = (runs p s).flatMap (runs p') :=
  runsFrom_within p p' hsub [] s (fun _ hd => absurd hd List.not_mem_nil)

end Runs

section Map
variable (p : A → Bool) (g : List A → List A)

theorem mapRunsFrom_in (run s : List A) (c : A) (hc : p c = true) :
    mapRunsFrom p g run (c::s) = mapRunsFrom p g (run++[c]) s := if_pos hc

theorem mapRunsFrom_out (run s : List A) (c : A) (hc : p c = false) :
    mapRunsFrom p g run (c::s) = g run++c::mapRuns p g s :=
  if_neg (by rw [hc]; exact Bool.false_ne_true)

theorem mapRunsFrom_append_cons (run s t : List A) (c : A) (hc : p c = false) :
    mapRunsFrom p g run (s++c::t) = mapRunsFrom p g run s++c::mapRuns p g t := by
  induction s generalizing run with
  | nil => exact mapRunsFrom_out p g run t c hc
  | cons d s ih =>
    rw [List.cons_append]
    cases hd : p d with
    | true => rw [mapRunsFrom_in p g run _ d hd, mapRunsFrom_in p g run s d hd, ih (run++[d])]
    | false =>
      have hrest : mapRuns p g (s++c::t) = mapRuns p g s++c::mapRuns p g t := ih []
      rw [mapRunsFrom_out p g run _ d hd, mapRunsFrom_out p g run s d hd, hrest, List.append_assoc,
        List.cons_append]

theorem mapRunsFrom_all (run s : List A) (h : ∀ c ∈ s, p c = true) :
    mapRunsFrom p g run s = g (run++s) := by
  induction s generalizing run with
  | nil => rw [List.append_nil]; rfl
  | cons c s ih =>
    rw [mapRunsFrom_in p g run s c (h c List.mem_cons_self),
      ih (run++[c]) (fun d hd => h d (List.mem_cons_of_mem c hd)), List.append_assoc]
    rfl

variable (hg : g [] = [])
include hg

theorem mapRuns_cons (s : List A) (c : A) (hc : p c = false) : mapRuns p g (c::s) = c::mapRuns p g s := by
  rw [mapRuns, mapRunsFrom_out p g [] s c hc, hg, List.nil_append]

theorem mapRuns_run (run rest : List A) (hrun : ∀ c ∈ run, p c = true)
    (hrest : ∀ c ∈ rest.head?, p c = false) : mapRuns p g (run++rest) = g run++mapRuns p g rest := by
  cases rest with
  | nil =>
    have hnil : mapRuns p g [] = [] := hg
    rw [List.append_nil, hnil, List.append_nil]
    exact mapRunsFrom_all p g [] run hrun
  | cons c rest =>
    have hc : p c = false := hrest c rfl
    rw [mapRuns, mapRunsFrom_append_cons p g [] run rest c hc, mapRunsFrom_all p g [] run hrun,
      mapRuns_cons p g hg rest c hc, List.nil_append]

theorem runs_mapRunsFrom (run s : List A) :
    runs p (mapRunsFrom p g run s) = (runsFrom p run s).flatMap (fun r => runs p (g r)) := by
  induction s generalizing run with
  | nil =>
    rw [mapRunsFrom, runsFrom]
    split_ifs with he
    · rw [List.isEmpty_iff.mp he, hg]
      rfl
    · exact (List.flatMap_singleton (fun r => runs p (g r)) run).symm
  | cons c s ih =>
    rw [mapRunsFrom, runsFrom]
    split_ifs with hc he
    · exact ih (run++[c])
    · rw [runs_append_cons p _ _ c (by simpa using hc), ih [], List.isEmpty_iff.mp he, hg]
      rfl
    · rw [runs_append_cons p _ _ c (by simpa using hc), ih [], List.flatMap_append, List.flatMap_singleton]

/-- The runs of a rewritten text are those of the rewritten runs. -/
theorem runs_mapRuns (s : List A) : runs p (mapRuns p g s) = (runs p s).flatMap (fun r => runs p (g r)) :=
  runs_mapRunsFrom p g hg [] s

end Map
end Chronos.CharacterRuns
