import Chronos.CharacterRuns

/-!
# Searching for a pattern

The patterns are built from a greedy repetition of a class and the edge of a
word. At a place of the text a pattern has a list of ends, in the order in
which a backtracking matcher finds them; the first one is the match. A search
goes through the text from left to right and behind each match. The matcher
is taken not to run out of stack.

Two kinds of pattern match whole runs: a repetition finds the runs that are
long enough, and between edges those that lie in the class besides.
-/

set_option autoImplicit false

namespace Chronos.PatternSearch
open CharacterRuns
variable {A : Type}

structure Place (A : Type) where
  before : List A
  after : List A

def Place.move (t : Place A) (k : ℕ) : Place A := ⟨(t.after.take k).reverse++t.before,t.after.drop k⟩

def startsWith (p : A → Bool) (s : List A) : Bool := s.head?.any p

inductive Pattern (A : Type) where
  /-- `[p]{n,}` -/
  | atLeast (n : ℕ) (p : A → Bool)
  /-- `\b`, for the given word characters -/
  | edge (word : A → Bool)
  | seq (first second : Pattern A)

/-- How far the pattern reaches from a place, the preferred end first. -/
def Pattern.ends : Pattern A → Place A → List ℕ
  | .atLeast n p, t => (List.range' n ((t.after.takeWhile p).length+1-n)).reverse
  | .edge word, t => if startsWith word t.before ≠ startsWith word t.after then [0] else []
  | .seq first second, t => (first.ends t).flatMap (fun k => (second.ends (t.move k)).map (k+·))

theorem ends_edge (word : A → Bool) (t : Place A) : (Pattern.edge word).ends t =
    if startsWith word t.before ≠ startsWith word t.after then [0] else [] := rfl

theorem ends_seq (first second : Pattern A) (t : Place A) : (Pattern.seq first second).ends t =
    (first.ends t).flatMap (fun k => (second.ends (t.move k)).map (k+·)) := rfl

def replaceAll (r : Pattern A) (f : List A → List A) : ℕ → Place A → List A
  | 0, t => t.after
  | turns+1, t =>
    match t.after, (r.ends t).head? with
    | [], _ => []
    | _, some (k+1) => f (t.after.take (k+1))++replaceAll r f turns (t.move (k+1))
    | c::_, _ => c::replaceAll r f turns (t.move 1)

def found (r : Pattern A) : List A → List A → Bool
  | before, [] => !(r.ends ⟨before,[]⟩).isEmpty
  | before, c::s => !(r.ends ⟨before,c::s⟩).isEmpty || found r (c::before) s

section Class
variable (p : A → Bool)

theorem takeWhile_run (run rest : List A) (hrun : ∀ c ∈ run, p c = true) (hrest : startsWith p rest = false) :
    (run++rest).takeWhile p = run := by
  rw [List.takeWhile_append_of_pos hrun]
  cases rest with
  | nil => simp
  | cons c rest =>
    have hc : p c = false := by simpa [startsWith] using hrest
    rw [List.takeWhile_cons_of_neg (by simp [hc]), List.append_nil]

theorem takeWhile_outside (s : List A) (h : startsWith p s = false) : s.takeWhile p = [] :=
  takeWhile_run p [] s (fun _ hd => absurd hd List.not_mem_nil) h

theorem startsWith_run (run rest : List A) (hrun : ∀ c ∈ run, p c = true) (hne : run ≠ []) :
    startsWith p (run++rest) = true := by
  cases run with
  | nil => exact absurd rfl hne
  | cons c run => simp [startsWith, hrun c List.mem_cons_self]

theorem head_outside (s : List A) (h : startsWith p s = false) : ∀ c ∈ s.head?, p c = false := by
  intro c hc
  rw [startsWith, Option.mem_def.mp hc] at h
  exact h

theorem split_run (s : List A) : s = s.takeWhile p++s.dropWhile p ∧ (∀ c ∈ s.takeWhile p, p c = true) ∧
    startsWith p (s.dropWhile p) = false := by
  refine ⟨(List.takeWhile_append_dropWhile).symm,fun c hc => List.mem_takeWhile_imp hc,?_⟩
  cases hd : s.dropWhile p with
  | nil => rfl
  | cons c rest =>
    have hne : s.dropWhile p ≠ [] := by rw [hd]; exact List.cons_ne_nil c rest
    have hnot := List.head_dropWhile_not p hne
    simp only [hd, List.head_cons] at hnot
    simp [startsWith, hnot]

end Class

/-- A pattern that matches the runs of a class which qualify, as a whole. -/
structure MatchesRuns (r : Pattern A) (p : A → Bool) (qualifies : List A → Bool) : Prop where
  outside : ∀ before s, startsWith p s = false → r.ends ⟨before,s⟩ = []
  whole : ∀ before run rest, startsWith p before = false → (∀ c ∈ run, p c = true) → run ≠ [] →
    startsWith p rest = false →
      (r.ends ⟨before,run++rest⟩).head? = if qualifies run then some run.length else none
  inside : ∀ before front run rest, startsWith p before = false → (∀ c ∈ front++run, p c = true) →
    front ≠ [] → startsWith p rest = false → qualifies (front++run) = false →
      r.ends ⟨front.reverse++before,run++rest⟩ = []

section Repetition
variable (n : ℕ) (p : A → Bool)

theorem ends_atLeast (t : Place A) : ((Pattern.atLeast n p).ends t).head? =
    if n ≤ (t.after.takeWhile p).length then some (t.after.takeWhile p).length else none := by
  rw [Pattern.ends, List.head?_reverse]
  split_ifs with hn
  · obtain ⟨k,hk⟩ := Nat.exists_eq_add_of_le hn
    rw [hk, show n+k+1-n = k+1 by omega, List.range'_concat, List.getLast?_concat]
    simp
  · rw [show (t.after.takeWhile p).length+1-n = 0 by omega]
    rfl

theorem ends_atLeast_short (t : Place A) (h : (t.after.takeWhile p).length < n) :
    (Pattern.atLeast n p).ends t = [] := by
  rw [Pattern.ends, show (t.after.takeWhile p).length+1-n = 0 by omega]
  rfl

/-- A repetition finds the runs that are long enough. -/
theorem atLeast_matchesRuns (hn : 0 < n) :
    MatchesRuns (.atLeast n p) p (fun run => decide (n ≤ run.length)) where
  outside before s hs := ends_atLeast_short n p _ (by
    rw [takeWhile_outside p s hs]
    exact hn)
  whole before run rest _ hrun _ hrest := by
    rw [ends_atLeast, takeWhile_run p run rest hrun hrest]
    simp only [decide_eq_true_eq]
  inside before front run rest _ hrun _ hrest hq := ends_atLeast_short n p _ (by
    rw [takeWhile_run p run rest (fun c hc => hrun c (List.mem_append_right front hc)) hrest]
    rw [decide_eq_false_iff_not, List.length_append] at hq
    omega)

end Repetition

section Words
variable (n : ℕ) (p word : A → Bool)

def wordPattern : Pattern A := .seq (.edge word) (.seq (.atLeast n p) (.edge word))

def edgeAfter (t : Place A) (k : ℕ) : Bool := startsWith word (t.move k).before ≠ startsWith word (t.move k).after

theorem ends_inner (t : Place A) : (Pattern.seq (.atLeast n p) (.edge word)).ends t =
    ((Pattern.atLeast n p).ends t).filter (edgeAfter word t) := by
  rw [ends_seq]
  induction (Pattern.atLeast n p).ends t with
  | nil => rfl
  | cons k ks ih =>
    rw [List.flatMap_cons, ih, ends_edge]
    by_cases he : edgeAfter word t k = true
    · have he' : startsWith word (t.move k).before ≠ startsWith word (t.move k).after := of_decide_eq_true he
      rw [if_pos he', List.filter_cons_of_pos he]
      rfl
    · have he' : ¬(startsWith word (t.move k).before ≠ startsWith word (t.move k).after) :=
        fun h => he (decide_eq_true h)
      rw [if_neg he', List.filter_cons_of_neg he]
      rfl

theorem ends_word (t : Place A) : (wordPattern n p word).ends t =
    if startsWith word t.before ≠ startsWith word t.after then
      ((Pattern.atLeast n p).ends t).filter (edgeAfter word t) else [] := by
  rw [wordPattern, ends_seq, ends_edge]
  split_ifs
  · have hmove : t.move 0 = t := rfl
    rw [List.flatMap_singleton, hmove, ends_inner]
    simp
  · rfl

theorem head_filter (l : List ℕ) (f : ℕ → Bool) (k : ℕ) (h : ∀ j ∈ l, f j = true ↔ j = k) :
    (l.filter f).head? = if k ∈ l then some k else none := by
  induction l with
  | nil => rfl
  | cons j l ih =>
    have hrest := ih (fun i hi => h i (List.mem_cons_of_mem j hi))
    by_cases hj : f j = true
    · obtain rfl := (h j List.mem_cons_self).mp hj
      rw [List.filter_cons_of_pos hj, if_pos List.mem_cons_self]
      rfl
    · have hne : j ≠ k := fun he => hj ((h j List.mem_cons_self).mpr he)
      rw [List.filter_cons_of_neg hj, hrest]
      simp [Ne.symm hne]

variable {p word}

/-- Inside a run of word characters an edge is only at its end. -/
theorem edgeAfter_run (before run rest : List A) (hrun : ∀ c ∈ run, word c = true)
    (hrest : startsWith word rest = false) (k : ℕ) (hk : 0 < k) (hle : k ≤ run.length) :
    edgeAfter word ⟨before,run++rest⟩ k = true ↔ k = run.length := by
  have hfront : run.take k ≠ [] := by
    intro he
    have hlength := congrArg List.length he
    rw [List.length_take, List.length_nil] at hlength
    omega
  have hbefore : startsWith word ((Place.mk before (run++rest)).move k).before = true := by
    have htake : (run++rest).take k = run.take k := List.take_append_of_le_length hle
    rw [Place.move, htake]
    apply startsWith_run
    · intro c hc
      exact hrun c (List.mem_of_mem_take (List.mem_reverse.mp hc))
    · simpa using hfront
  have hafter : ((Place.mk before (run++rest)).move k).after = run.drop k++rest :=
    List.drop_append_of_le_length hle
  rw [edgeAfter, hbefore, hafter, decide_eq_true_eq]
  constructor
  · intro hedge
    by_contra hne
    have hdrop : run.drop k ≠ [] := by
      intro he
      have hlength := congrArg List.length he
      rw [List.length_drop, List.length_nil] at hlength
      omega
    exact hedge (startsWith_run word (run.drop k) rest
      (fun c hc => hrun c (List.mem_of_mem_drop hc)) hdrop).symm
  · rintro rfl
    rw [List.drop_length, List.nil_append, hrest]
    exact Bool.noConfusion

theorem takeWhile_le (hsub : ∀ c, p c = true → word c = true) (run rest : List A)
    (hrest : startsWith word rest = false) :
    ((run++rest).takeWhile p).length ≤ run.length ∧
      (run.length ≤ ((run++rest).takeWhile p).length ↔ run.all p = true) := by
  have hrest' : startsWith p rest = false := by
    rw [Bool.eq_false_iff]
    intro h
    cases rest with
    | nil => exact Bool.noConfusion h
    | cons c rest =>
      have hc : word c = false := by simpa [startsWith] using hrest
      rw [hsub c (by simpa [startsWith] using h)] at hc
      exact Bool.noConfusion hc
  induction run with
  | nil =>
    rw [List.nil_append, takeWhile_outside p rest hrest']
    exact ⟨le_rfl,by simp⟩
  | cons c run ih =>
    rw [List.cons_append]
    by_cases hc : p c = true
    · rw [List.takeWhile_cons_of_pos hc, List.length_cons, List.length_cons, List.all_cons, hc, Bool.true_and]
      exact ⟨Nat.succ_le_succ ih.1,Nat.succ_le_succ_iff.trans ih.2⟩
    · rw [List.takeWhile_cons_of_neg hc, List.all_cons, Bool.eq_false_iff.mpr hc, Bool.false_and]
      exact ⟨Nat.zero_le _,by simp⟩

/-- Between edges a repetition finds the words that lie in the class and are
long enough. -/
theorem word_matchesRuns (hn : 0 < n) (hsub : ∀ c, p c = true → word c = true) :
    MatchesRuns (wordPattern n p word) word (fun run => run.all p && decide (n ≤ run.length)) where
  outside before s hs := by
    have hnone := takeWhile_le hsub [] s hs
    rw [ends_word, ends_atLeast_short n p ⟨before,s⟩ (by
      have hle : (s.takeWhile p).length ≤ 0 := hnone.1
      exact lt_of_le_of_lt hle hn)]
    split_ifs <;> rfl
  whole before run rest hbefore hrun hne hrest := by
    obtain ⟨hle,hall⟩ := takeWhile_le hsub run rest hrest
    have hstart : startsWith word (run++rest) = true := startsWith_run word run rest hrun hne
    have hedge : startsWith word before ≠ startsWith word (run++rest) := by
      rw [hbefore, hstart]
      exact Bool.noConfusion
    have hmem (j : ℕ) : j ∈ (Pattern.atLeast n p).ends ⟨before,run++rest⟩ ↔
        n ≤ j ∧ j ≤ ((run++rest).takeWhile p).length := by
      rw [Pattern.ends, List.mem_reverse, List.mem_range'_1]
      dsimp only
      omega
    rw [ends_word, if_pos hedge, head_filter _ _ run.length (fun j hj =>
      edgeAfter_run before run rest hrun hrest j (by have := (hmem j).mp hj; omega)
        (((hmem j).mp hj).2.trans hle))]
    simp only [hmem, hall, Bool.and_eq_true, decide_eq_true_eq, and_comm]
  inside before front run rest _ hrun hfront hrest _ := by
    rcases run.eq_nil_or_concat with rfl | hne
    · have hnone := takeWhile_le hsub [] rest hrest
      rw [ends_word, ends_atLeast_short n p ⟨front.reverse++before,[]++rest⟩ (by
        have hle : (rest.takeWhile p).length ≤ 0 := hnone.1
        exact lt_of_le_of_lt hle hn)]
      split_ifs <;> rfl
    · have hrun' : run ≠ [] := by
        obtain ⟨l,c,rfl⟩ := hne
        simp
      have hbefore : startsWith word (front.reverse++before) = true :=
        startsWith_run word front.reverse before
          (fun c hc => hrun c (List.mem_append_left run (List.mem_reverse.mp hc))) (by simpa using hfront)
      have hafter : startsWith word (run++rest) = true :=
        startsWith_run word run rest (fun c hc => hrun c (List.mem_append_right front hc)) hrun'
      rw [ends_word, if_neg (by rw [hbefore, hafter]; exact fun h => h rfl)]

end Words

section Replace
variable {r : Pattern A} {p : A → Bool} {qualifies : List A → Bool} (f : List A → List A)

def rewriteRun (qualifies : List A → Bool) (f : List A → List A) (run : List A) : List A :=
  if qualifies run then f run else run

theorem replaceAll_keep (turns : ℕ) (before s : List A) (c : A) (h : r.ends ⟨before,c::s⟩ = []) :
    replaceAll r f (turns+1) ⟨before,c::s⟩ = c::replaceAll r f turns ⟨c::before,s⟩ := by
  rw [replaceAll]
  simp only [h]
  rfl

theorem replaceAll_match (turns : ℕ) (before run rest : List A) (hne : run ≠ [])
    (h : (r.ends ⟨before,run++rest⟩).head? = some run.length) :
    replaceAll r f (turns+1) ⟨before,run++rest⟩ =
      f run++replaceAll r f turns ⟨run.reverse++before,rest⟩ := by
  obtain ⟨k,hk⟩ := Nat.exists_eq_succ_of_ne_zero (fun h0 => hne (List.length_eq_zero_iff.mp h0))
  have htake : (run++rest).take (k+1) = run := List.take_left' hk
  have hdrop : (run++rest).drop (k+1) = rest := List.drop_left' hk
  rw [hk] at h
  cases hs : run++rest with
  | nil => exact absurd (List.append_eq_nil_iff.mp hs).1 hne
  | cons c s =>
    rw [hs] at h htake hdrop
    rw [replaceAll]
    simp only [h, Place.move, Nat.succ_eq_add_one, htake, hdrop]

variable (hr : MatchesRuns r p qualifies)
include hr

theorem none_in_run (before front run rest : List A) (c : A) (hbefore : startsWith p before = false)
    (hrun : ∀ d ∈ front++c::run, p d = true) (hrest : startsWith p rest = false)
    (hq : qualifies (front++c::run) = false) : r.ends ⟨front.reverse++before,c::(run++rest)⟩ = [] := by
  cases front with
  | nil =>
    have hwhole := hr.whole before (c::run) rest hbefore hrun (List.cons_ne_nil c run) hrest
    rw [show qualifies (c::run) = false from hq] at hwhole
    exact List.head?_eq_none_iff.mp hwhole
  | cons d front =>
    exact hr.inside before (d::front) (c::run) rest hbefore hrun (List.cons_ne_nil d front) hrest hq

theorem replaceAll_copy (before front run rest : List A) (hbefore : startsWith p before = false)
    (hrun : ∀ c ∈ front++run, p c = true) (hrest : startsWith p rest = false)
    (hq : qualifies (front++run) = false) (turns : ℕ) :
    replaceAll r f (run.length+turns) ⟨front.reverse++before,run++rest⟩ =
      run++replaceAll r f turns ⟨(front++run).reverse++before,rest⟩ := by
  induction run generalizing front with
  | nil => rw [List.append_nil, List.length_nil, Nat.zero_add]; rfl
  | cons c run ih =>
    have hnone := none_in_run hr before front run rest c hbefore hrun hrest hq
    have hmove : front++c::run = (front++[c])++run := by rw [List.append_assoc]; rfl
    rw [hmove] at hrun hq
    have hrest' := ih (front++[c]) hrun hq
    rw [List.reverse_append, List.reverse_singleton, List.singleton_append, List.cons_append] at hrest'
    rw [List.length_cons, show run.length+1+turns = (run.length+turns)+1 by omega, List.cons_append,
      replaceAll_keep f _ _ _ c hnone, hrest', hmove, List.cons_append]

/-- The loop over the matches rewrites the runs that qualify, and nothing else. -/
theorem replaceAll_eq (hq : qualifies [] = false) (turns : ℕ) (before s : List A) (hturns : s.length ≤ turns)
    (h : startsWith p before = false ∨ startsWith p s = false) :
    replaceAll r f turns ⟨before,s⟩ = mapRuns p (rewriteRun qualifies f) s := by
  have hg : rewriteRun qualifies f [] = [] := by
    rw [rewriteRun, if_neg (by rw [hq]; exact Bool.false_ne_true)]
  induction turns using Nat.strong_induction_on generalizing before s with
  | _ turns ih =>
    cases s with
    | nil =>
      have hnil : mapRuns p (rewriteRun qualifies f) [] = [] := hg
      rw [hnil]
      cases turns <;> rfl
    | cons c s =>
      obtain ⟨turns,rfl⟩ := Nat.exists_eq_add_of_lt (lt_of_lt_of_le (Nat.succ_pos s.length) hturns)
      rw [Nat.zero_add] at hturns ih ⊢
      rw [List.length_cons] at hturns
      by_cases hc : p c = true
      · have hbefore : startsWith p before = false := by
          rcases h with h | h
          · exact h
          · simp [startsWith, hc] at h
        obtain ⟨hsplit,hrun,hrest⟩ := split_run p (c::s)
        have hne : (c::s).takeWhile p ≠ [] := by
          rw [List.takeWhile_cons_of_pos hc]
          exact List.cons_ne_nil _ _
        have hlength := congrArg List.length hsplit
        rw [List.length_cons, List.length_append] at hlength
        have hpos : 0 < ((c::s).takeWhile p).length := List.length_pos_iff.mpr hne
        have hwhole := hr.whole before _ _ hbefore hrun hne hrest
        generalize (c::s).takeWhile p = run at hsplit hrun hne hlength hpos hwhole
        generalize (c::s).dropWhile p = rest at hsplit hrest hlength hwhole
        rw [hsplit, mapRuns_run p _ hg run rest hrun (head_outside p rest hrest)]
        by_cases hqual : qualifies run = true
        · rw [if_pos hqual] at hwhole
          rw [replaceAll_match f turns before run rest hne hwhole,
            ih turns (Nat.lt_succ_self _) _ rest (by omega) (Or.inr hrest), rewriteRun, if_pos hqual]
        · have hfalse : qualifies run = false := Bool.eq_false_iff.mpr hqual
          obtain ⟨more,hmore⟩ := Nat.exists_eq_add_of_le (show run.length ≤ turns+1 by omega)
          have hcopy := replaceAll_copy f hr before [] run rest hbefore hrun hrest hfalse more
          rw [List.reverse_nil, List.nil_append, List.nil_append, ← hmore] at hcopy
          rw [hcopy, ih more (by omega) _ rest (by omega) (Or.inr hrest), rewriteRun, if_neg hqual]
      · have hc' : p c = false := Bool.eq_false_iff.mpr hc
        have hnone : r.ends ⟨before,c::s⟩ = [] := hr.outside before (c::s) (by simp [startsWith, hc'])
        rw [replaceAll_keep f turns before s c hnone, mapRuns_cons p _ hg s c hc',
          ih turns (Nat.lt_succ_self _) (c::before) s (by omega) (Or.inl (by simp [startsWith, hc']))]

theorem found_run (before front run rest : List A) (hbefore : startsWith p before = false)
    (hrun : ∀ c ∈ front++run, p c = true) (hrest : startsWith p rest = false)
    (hq : qualifies (front++run) = false) :
    found r (front.reverse++before) (run++rest) = found r ((front++run).reverse++before) rest := by
  induction run generalizing front with
  | nil => rw [List.append_nil]; rfl
  | cons c run ih =>
    have hnone := none_in_run hr before front run rest c hbefore hrun hrest hq
    have hmove : front++c::run = (front++[c])++run := by rw [List.append_assoc]; rfl
    rw [hmove] at hrun hq
    have hrest' := ih (front++[c]) hrun hq
    rw [List.reverse_append, List.reverse_singleton, List.singleton_append, List.cons_append] at hrest'
    rw [List.cons_append, found, hmove, ← hrest', hnone]
    rfl

theorem not_found (before s : List A) (hs : ∀ run ∈ runs p s, qualifies run = false)
    (h : startsWith p before = false ∨ startsWith p s = false) : found r before s = false := by
  induction hn : s.length using Nat.strong_induction_on generalizing before s with
  | _ size ih =>
    cases s with
    | nil =>
      rw [found, hr.outside before [] rfl]
      rfl
    | cons c s =>
      rw [List.length_cons] at hn
      by_cases hc : p c = true
      · have hbefore : startsWith p before = false := by
          rcases h with h | h
          · exact h
          · simp [startsWith, hc] at h
        obtain ⟨hsplit,hrun,hrest⟩ := split_run p (c::s)
        have hne : (c::s).takeWhile p ≠ [] := by
          rw [List.takeWhile_cons_of_pos hc]
          exact List.cons_ne_nil _ _
        have hlength := congrArg List.length hsplit
        rw [List.length_cons, List.length_append] at hlength
        have hpos : 0 < ((c::s).takeWhile p).length := List.length_pos_iff.mpr hne
        generalize (c::s).takeWhile p = run at hsplit hrun hne hlength hpos
        generalize (c::s).dropWhile p = rest at hsplit hrest hlength
        have hruns : runs p (run++rest) = run::runs p rest := by
          rw [runs_append_right p run rest (head_outside p rest hrest), runs_all p run hrun hne]
          rfl
        rw [hsplit, hruns] at hs
        have hcopy := found_run hr before [] run rest hbefore hrun hrest (hs run List.mem_cons_self)
        rw [List.reverse_nil, List.nil_append, List.nil_append] at hcopy
        rw [hsplit, hcopy]
        exact ih rest.length (by omega) _ rest (fun run' hrun' => hs run' (List.mem_cons_of_mem run hrun'))
          (Or.inr hrest) rfl
      · have hc' : p c = false := Bool.eq_false_iff.mpr hc
        have hnone : r.ends ⟨before,c::s⟩ = [] := hr.outside before (c::s) (by simp [startsWith, hc'])
        rw [runs_cons p s c hc'] at hs
        rw [found, hnone, ih s.length (by omega) (c::before) s hs (Or.inl (by simp [startsWith, hc'])) rfl]
        rfl

end Replace
end Chronos.PatternSearch
