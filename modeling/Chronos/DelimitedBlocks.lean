import Mathlib

/-!
# Delimited blocks

A pass over a text looks for an opening marker, then for the closing one, masks
what lies between and goes on after it; later passes look for other markers in
what is left. Markers share at most their edges. Then the blocks of all passes
can be read off the text before the first pass: masking makes no marker, and a
block that covers a part of a marker covers its core.
-/

set_option autoImplicit false

namespace Chronos.DelimitedBlocks

section Reading
variable (opens closes : ℕ → Prop) (m n : ℕ)

/-- The blocks closed from a position on, each by the first closing marker
after its opening marker. -/
inductive Closed : ℕ → ℕ → ℕ → Prop where
  | first {pos p e : ℕ} (hopen : IsLeast {p | pos ≤ p ∧ opens p} p)
      (hclose : IsLeast {q | p+m ≤ q ∧ closes q} e) : Closed pos (p+m) e
  | next {pos p e a b : ℕ} (hopen : IsLeast {p | pos ≤ p ∧ opens p} p)
      (hclose : IsLeast {q | p+m ≤ q ∧ closes q} e) (hrest : Closed (e+n) a b) : Closed pos a b

variable {opens closes m n}

theorem Closed.marks {pos a e : ℕ} (h : Closed opens closes m n pos a e) :
    ∃ p, pos ≤ p ∧ opens p ∧ p+m = a ∧ a ≤ e ∧ closes e := by
  induction h with
  | @first pos p e hopen hclose => exact ⟨p,hopen.1.1,hopen.1.2,rfl,hclose.1.1,hclose.1.2⟩
  | @next pos p e a b hopen hclose _ ih =>
    obtain ⟨q,hpos,hmarks⟩ := ih
    have hfirst := hopen.1.1
    have hsecond := hclose.1.1
    exact ⟨q,by omega,hmarks⟩

/-- Between two blocks lie the markers of both. -/
theorem Closed.apart {pos a e a' e' : ℕ} (h : Closed opens closes m n pos a e)
    (h' : Closed opens closes m n pos a' e') :
    (a = a' ∧ e = e') ∨ e+n+m ≤ a' ∨ e'+n+m ≤ a := by
  induction h generalizing a' e' with
  | @first pos p e hopen hclose =>
    cases h' with
    | first hopen' hclose' =>
      obtain rfl := hopen.unique hopen'
      exact Or.inl ⟨rfl,hclose.unique hclose'⟩
    | next hopen' hclose' hrest' =>
      obtain rfl := hopen.unique hopen'
      obtain rfl := hclose.unique hclose'
      obtain ⟨q,hq,_,ha,_⟩ := hrest'.marks
      exact Or.inr (Or.inl (by omega))
  | @next pos p e a b hopen hclose hrest ih =>
    cases h' with
    | first hopen' hclose' =>
      obtain rfl := hopen.unique hopen'
      obtain rfl := hclose.unique hclose'
      obtain ⟨q,hq,_,ha,_⟩ := hrest.marks
      exact Or.inr (Or.inr (by omega))
    | next hopen' hclose' hrest' =>
      obtain rfl := hopen.unique hopen'
      obtain rfl := hclose.unique hclose'
      exact ih hrest'

theorem Closed.mono {opens' closes' : ℕ → Prop} {pos a e : ℕ} (h : Closed opens closes m n pos a e)
    (hopens : ∀ p, pos ≤ p → (opens p ↔ opens' p)) (hcloses : ∀ q, pos ≤ q → (closes q ↔ closes' q)) :
    Closed opens' closes' m n pos a e := by
  have hleast : ∀ (P P' : ℕ → Prop) (pos start p : ℕ), pos ≤ start → (∀ p, pos ≤ p → (P p ↔ P' p)) →
      IsLeast {p | start ≤ p ∧ P p} p → IsLeast {p | start ≤ p ∧ P' p} p := by
    intro P P' pos start p hstart hiff hp
    have hset : {p | start ≤ p ∧ P p} = {p | start ≤ p ∧ P' p} :=
      Set.ext (fun p => and_congr_right (fun h => hiff p (hstart.trans h)))
    rwa [← hset]
  induction h with
  | @first pos p e hopen hclose =>
    exact .first (hleast _ _ pos pos p le_rfl hopens hopen)
      (hleast _ _ pos _ e (hopen.1.1.trans (Nat.le_add_right _ _)) hcloses hclose)
  | @next pos p e a b hopen hclose _ ih =>
    have hstart : pos ≤ p+m := hopen.1.1.trans (Nat.le_add_right _ _)
    have hlater : pos ≤ e+n := (hstart.trans hclose.1.1).trans (Nat.le_add_right _ _)
    exact .next (hleast _ _ pos pos p le_rfl hopens hopen) (hleast _ _ pos _ e hstart hcloses hclose)
      (ih (fun p hp => hopens p (hlater.trans hp)) (fun q hq => hcloses q (hlater.trans hq)))

theorem closed_congr {opens' closes' : ℕ → Prop} (pos a e : ℕ)
    (hopens : ∀ p, pos ≤ p → (opens p ↔ opens' p)) (hcloses : ∀ q, pos ≤ q → (closes q ↔ closes' q)) :
    Closed opens closes m n pos a e ↔ Closed opens' closes' m n pos a e :=
  ⟨fun h => h.mono hopens hcloses,fun h => h.mono (fun p hp => (hopens p hp).symm)
    (fun q hq => (hcloses q hq).symm)⟩

theorem closed_iff_next {pos p e : ℕ} (hopen : IsLeast {p | pos ≤ p ∧ opens p} p)
    (hclose : IsLeast {q | p+m ≤ q ∧ closes q} e) (a b : ℕ) :
    Closed opens closes m n pos a b ↔ (a = p+m ∧ b = e) ∨ Closed opens closes m n (e+n) a b := by
  constructor
  · intro h
    cases h with
    | first hopen' hclose' =>
      obtain rfl := hopen.unique hopen'
      exact Or.inl ⟨rfl,hclose'.unique hclose⟩
    | next hopen' hclose' hrest =>
      obtain rfl := hopen.unique hopen'
      obtain rfl := hclose.unique hclose'
      exact Or.inr hrest
  · rintro (⟨rfl,rfl⟩ | hrest)
    · exact .first hopen hclose
    · exact .next hopen hclose hrest

theorem not_closed {pos a b : ℕ} (h : ∀ p e, IsLeast {p | pos ≤ p ∧ opens p} p →
    ¬IsLeast {q | p+m ≤ q ∧ closes q} e) : ¬Closed opens closes m n pos a b := by
  intro hclosed
  cases hclosed with
  | first hopen hclose => exact h _ _ hopen hclose
  | next hopen hclose _ => exact h _ _ hopen hclose

end Reading

section Occurrences
variable {α : Type}

def OccursAt (marker s : List α) (p : ℕ) : Prop := marker <+: s.drop p

theorem occursAt_iff (marker s : List α) (p : ℕ) :
    OccursAt marker s p ↔ ∀ (i : ℕ) (x : α), marker[i]? = some x → s[p+i]? = some x := by
  rw [OccursAt, List.prefix_iff_getElem?]
  constructor
  · intro h i x hx
    obtain ⟨hi,rfl⟩ := List.getElem?_eq_some_iff.mp hx
    rw [← List.getElem?_drop]
    exact h i hi
  · intro h i hi
    rw [List.getElem?_drop]
    exact h i _ (List.getElem?_eq_getElem hi)

theorem OccursAt.length_le {marker s : List α} {p : ℕ} (h : OccursAt marker s p) (hm : marker ≠ []) :
    p+marker.length ≤ s.length := by
  have hle := List.IsPrefix.length_le h
  have hpos := List.length_pos_iff.mpr hm
  rw [List.length_drop] at hle
  omega

theorem OccursAt.comparable {marker marker' s : List α} {p d : ℕ} (h : OccursAt marker s p)
    (h' : OccursAt marker' s (p+d)) : marker.drop d <+: marker' ∨ marker' <+: marker.drop d := by
  have hdrop : marker.drop d <+: s.drop (p+d) := by
    rw [← List.drop_drop]
    exact h.drop d
  rcases Nat.le_total (marker.drop d).length marker'.length with hle | hle
  · exact Or.inl (List.prefix_of_prefix_length_le hdrop h' hle)
  · exact Or.inr (List.prefix_of_prefix_length_le h' hdrop hle)

end Occurrences

/-- Pairs of markers, with the width of the edge they may share. The core is what
lies between the edges; `kept` characters are not masked. -/
structure Delimiters (α K : Type) where
  opening : K → List α
  closing : K → List α
  width : ℕ
  kept : α → Bool

namespace Delimiters
variable {α K : Type} (d : Delimiters α K)

def IsMarker (marker : List α) : Prop := ∃ k, marker = d.opening k ∨ marker = d.closing k

/-- Markers whose cores are never covered by another marker, by one character
or by characters that are kept. -/
structure WellFormed : Prop where
  long : ∀ marker, d.IsMarker marker → 2*d.width < marker.length
  core : ∀ marker, d.IsMarker marker → ∀ c, ∃ i x,
    d.width ≤ i ∧ i+d.width < marker.length ∧ marker[i]? = some x ∧ x ≠ c
  solid : ∀ marker, d.IsMarker marker → ∀ c ∈ marker, d.kept c = false
  apart : ∀ marker marker', d.IsMarker marker → d.IsMarker marker' → ∀ i < marker.length,
    marker.drop i <+: marker' ∨ marker' <+: marker.drop i →
      (i = 0 ∧ marker = marker') ∨ marker.length ≤ i+d.width

variable {d}

theorem isMarker_opening (k : K) : d.IsMarker (d.opening k) := ⟨k,Or.inl rfl⟩

theorem isMarker_closing (k : K) : d.IsMarker (d.closing k) := ⟨k,Or.inr rfl⟩

/-- Two markers of a text share an edge at most. -/
theorem WellFormed.occurs_apart (hd : d.WellFormed) {marker marker' s : List α} {p q : ℕ}
    (hm : d.IsMarker marker) (hm' : d.IsMarker marker') (h : OccursAt marker s p)
    (h' : OccursAt marker' s q) (hle : p ≤ q) :
    (p = q ∧ marker = marker') ∨ p+marker.length ≤ q+d.width := by
  obtain ⟨i,rfl⟩ := Nat.exists_eq_add_of_le hle
  by_cases hi : i < marker.length
  · rcases hd.apart marker marker' hm hm' i hi (h.comparable h') with ⟨hzero,heq⟩ | hlong
    · exact Or.inl ⟨by rw [hzero]; rfl,heq⟩
    · exact Or.inr (by omega)
  · exact Or.inr (by omega)

/-- A marker that ends before another one does ends at its left edge at the latest. -/
theorem WellFormed.ends_apart (hd : d.WellFormed) {marker marker' s : List α} {p q : ℕ}
    (hm : d.IsMarker marker) (hm' : d.IsMarker marker') (h : OccursAt marker s p)
    (h' : OccursAt marker' s q) (hlt : p+marker.length < q+marker'.length) :
    p+marker.length ≤ q+d.width := by
  rcases Nat.le_total p q with hle | hle
  · rcases hd.occurs_apart hm hm' h h' hle with ⟨heq,hsame⟩ | hapart
    · rw [heq, hsame] at hlt
      exact absurd hlt (Nat.lt_irrefl _)
    · exact hapart
  · have hlong := hd.long marker hm
    rcases hd.occurs_apart hm' hm h' h hle with ⟨heq,hsame⟩ | hapart
    · rw [heq, hsame] at hlt
      exact absurd hlt (Nat.lt_irrefl _)
    · omega

end Delimiters

section Edges
variable {α : Type}

def edged (width : ℕ) (edge : α) (word : List α) : List α :=
  List.replicate width edge++(word++List.replicate width edge)

variable {width : ℕ} {edge : α} {word word' : List α}

theorem length_edged : (edged width edge word).length = width+(word.length+width) := by
  rw [edged, List.length_append, List.length_append, List.length_replicate]

theorem edged_left (j : ℕ) (h : j < width) : (edged width edge word)[j]? = some edge := by
  rw [edged, List.getElem?_append_left (by rwa [List.length_replicate]), List.getElem?_replicate, if_pos h]

theorem edged_word (j : ℕ) (h : j < word.length) :
    (edged width edge word)[width+j]? = some word[j] := by
  rw [edged, List.getElem?_append_right (by rw [List.length_replicate]; omega), List.length_replicate,
    Nat.add_sub_cancel_left, List.getElem?_append_left h, List.getElem?_eq_getElem h]

theorem edged_right (j : ℕ) (h : j < width) :
    (edged width edge word)[width+(word.length+j)]? = some edge := by
  rw [edged, List.getElem?_append_right (by rw [List.length_replicate]; omega), List.length_replicate,
    Nat.add_sub_cancel_left, List.getElem?_append_right (by omega), Nat.add_sub_cancel_left,
    List.getElem?_replicate, if_pos h]

theorem comparable_getElem? {l l' : List α} (h : l <+: l' ∨ l' <+: l) (j : ℕ) (hj : j < l.length)
    (hj' : j < l'.length) : l[j]? = l'[j]? := by
  rcases h with h | h
  · rw [List.prefix_iff_getElem?.mp h j hj, List.getElem?_eq_getElem hj]
  · rw [List.prefix_iff_getElem?.mp h j hj', List.getElem?_eq_getElem hj']

theorem edged_length_le (hwidth : 0 < width) (hword' : edge ∉ word')
    (h : edged width edge word <+: edged width edge word' ∨
      edged width edge word' <+: edged width edge word) : word'.length ≤ word.length := by
  by_contra hlt
  have hagree := comparable_getElem? h (width+word.length) (by rw [length_edged]; omega)
    (by rw [length_edged]; omega)
  have hright : (edged width edge word)[width+word.length]? = some edge := edged_right 0 hwidth
  rw [hright, edged_word _ (not_le.mp hlt)] at hagree
  exact hword' (Option.some.inj hagree ▸ List.getElem_mem _)

theorem edged_apart (hwidth : 0 < width) (hlength : 0 < word.length) (hword : edge ∉ word)
    (hword' : edge ∉ word') (i : ℕ)
    (h : (edged width edge word).drop i <+: edged width edge word' ∨
      edged width edge word' <+: (edged width edge word).drop i) :
    (i = 0 ∧ edged width edge word = edged width edge word') ∨
      (edged width edge word).length ≤ i+width := by
  by_cases hzero : i = 0
  · subst hzero
    rw [List.drop_zero] at h
    have hlength : word.length = word'.length :=
      le_antisymm (edged_length_le hwidth hword h.symm) (edged_length_le hwidth hword' h)
    have hlengths : (edged width edge word).length = (edged width edge word').length := by
      rw [length_edged, length_edged, hlength]
    refine Or.inl ⟨rfl,?_⟩
    rcases h with h | h
    · exact h.eq_of_length hlengths
    · exact (h.eq_of_length hlengths.symm).symm
  · refine Or.inr ?_
    by_contra hinside
    rw [length_edged] at hinside
    -- a place of the word, against the left edge of the other marker
    obtain ⟨j,hj,k,hk,hjk⟩ : ∃ j < width, ∃ k < word.length, i+j = width+k :=
      ⟨width-i,by omega,i-width,by omega,by omega⟩
    have hagree := comparable_getElem? h j (by rw [List.length_drop, length_edged]; omega)
      (by rw [length_edged]; omega)
    rw [List.getElem?_drop, hjk, edged_word k hk, edged_left j hj] at hagree
    exact hword (Option.some.inj hagree ▸ List.getElem_mem _)

theorem Delimiters.wellFormed_of_edges {K : Type} (d : Delimiters α K) (edge : α)
    (hwidth : 0 < d.width) (hedge : d.kept edge = false)
    (h : ∀ marker, d.IsMarker marker → ∃ word, marker = edged d.width edge word ∧ edge ∉ word ∧
      (∀ c ∈ word, d.kept c = false) ∧ ∃ x ∈ word, ∃ y ∈ word, x ≠ y) : d.WellFormed := by
  constructor
  case long =>
    intro marker hm
    obtain ⟨word,rfl,_,_,x,hx,_⟩ := h marker hm
    have hpos := List.length_pos_of_mem hx
    rw [length_edged]
    omega
  case core =>
    intro marker hm c
    obtain ⟨word,rfl,_,_,x,hx,y,hy,hne⟩ := h marker hm
    obtain ⟨z,hz,hzc⟩ : ∃ z ∈ word, z ≠ c := by
      by_cases hxc : x = c
      · exact ⟨y,hy,fun hyc => hne (hxc.trans hyc.symm)⟩
      · exact ⟨x,hx,hxc⟩
    obtain ⟨j,hj,rfl⟩ := List.mem_iff_getElem.mp hz
    refine ⟨d.width+j,word[j],Nat.le_add_right _ _,?_,edged_word j hj,hzc⟩
    rw [length_edged]
    omega
  case solid =>
    intro marker hm c hc
    obtain ⟨word,rfl,_,hkept,_⟩ := h marker hm
    rw [edged, List.mem_append, List.mem_append, List.mem_replicate] at hc
    rcases hc with ⟨_,rfl⟩ | hc | ⟨_,rfl⟩
    · exact hedge
    · exact hkept c hc
    · exact hedge
  case apart =>
    intro marker marker' hm hm' i _ hcomparable
    obtain ⟨word,rfl,hword,_,x,hx,_⟩ := h marker hm
    obtain ⟨word',rfl,hword',_⟩ := h marker' hm'
    exact edged_apart hwidth (List.length_pos_of_mem hx) hword hword' i hcomparable

end Edges

section Blocks
variable {α K : Type} (d : Delimiters α K) (s : List α)

/-- What the blocks cover. -/
def hidden (blocks : Set (ℕ × ℕ)) : Set ℕ := {j | ∃ b ∈ blocks, b.1 ≤ j ∧ j < b.2}

structure Visible (blocks : Set (ℕ × ℕ)) (marker : List α) (p : ℕ) : Prop where
  occurs : OccursAt marker s p
  seen : ∀ j, p ≤ j → j < p+marker.length → j ∉ hidden blocks

def passBlocks (blocks : Set (ℕ × ℕ)) (k : K) : Set (ℕ × ℕ) :=
  {b | Closed (Visible s blocks (d.opening k)) (Visible s blocks (d.closing k)) (d.opening k).length
    (d.closing k).length 0 b.1 b.2}

def readBlocks (ks : List K) : Set (ℕ × ℕ) :=
  ks.foldl (fun blocks k => blocks ∪ passBlocks d s blocks k) ∅

theorem readBlocks_concat (ks : List K) (k : K) : readBlocks d s (ks++[k]) =
    readBlocks d s ks ∪ passBlocks d s (readBlocks d s ks) k := List.foldl_concat _ _ _ _

def Outer (blocks : Set (ℕ × ℕ)) (b : ℕ × ℕ) : Prop :=
  ∃ k p, p+(d.opening k).length = b.1 ∧ Visible s blocks (d.opening k) p ∧
    Visible s blocks (d.closing k) b.2

def Layered (blocks : Set (ℕ × ℕ)) : Prop :=
  ∀ j ∈ hidden blocks, ∃ b ∈ blocks, b.1 ≤ j ∧ j < b.2 ∧ Outer d s blocks b

variable {d s}

theorem mem_hidden_union (blocks more : Set (ℕ × ℕ)) (j : ℕ) :
    j ∈ hidden (blocks ∪ more) ↔ j ∈ hidden blocks ∨ j ∈ hidden more := by
  constructor
  · rintro ⟨b,hb | hb,hj⟩
    · exact Or.inl ⟨b,hb,hj⟩
    · exact Or.inr ⟨b,hb,hj⟩
  · rintro (⟨b,hb,hj⟩ | ⟨b,hb,hj⟩)
    · exact ⟨b,Or.inl hb,hj⟩
    · exact ⟨b,Or.inr hb,hj⟩

theorem Visible.union {blocks more : Set (ℕ × ℕ)} {marker : List α} {p : ℕ}
    (h : Visible s blocks marker p) (hmore : ∀ b ∈ more, p+marker.length ≤ b.1 ∨ b.2 ≤ p) :
    Visible s (blocks ∪ more) marker p := by
  refine ⟨h.occurs,fun j hp hj hmem => ?_⟩
  rcases (mem_hidden_union blocks more j).mp hmem with hold | ⟨b,hb,hfrom,hto⟩
  · exact h.seen j hp hj hold
  · have := hmore b hb
    omega

theorem covers_of_opening (hd : d.WellFormed) {blocks : Set (ℕ × ℕ)} {b b' : ℕ × ℕ} {k : K}
    {p j : ℕ} (hb : b ∈ blocks) (hp : p+(d.opening k).length = b.1)
    (hopen : OccursAt (d.opening k) s p) (hj : b.1 ≤ j ∧ j < b.2) {k' : K}
    (hclose' : Visible s blocks (d.closing k') b'.2) (hmeet : b'.1 < b.1 ∧ p < b'.2) :
    b'.1 ≤ j ∧ j < b'.2 := by
  refine ⟨by omega,?_⟩
  by_contra hout
  have hlong := hd.long _ (Delimiters.isMarker_closing k')
  -- the closing marker would begin inside the outer block, or reach into it
  have hreach : b.1 < b'.2+(d.closing k').length := by
    rcases hd.occurs_apart (Delimiters.isMarker_opening k) (Delimiters.isMarker_closing k') hopen
      hclose'.occurs hmeet.2.le with ⟨heq,_⟩ | hle
    · omega
    · omega
  exact hclose'.seen (max b.1 b'.2) (le_max_right _ _) (by omega) ⟨b,hb,le_max_left _ _,by omega⟩

theorem covers_of_closing (hd : d.WellFormed) {blocks : Set (ℕ × ℕ)} {b b' : ℕ × ℕ} {k : K}
    {p' j : ℕ} (hb : b ∈ blocks) (hclose : OccursAt (d.closing k) s b.2) (hj : b.1 ≤ j ∧ j < b.2)
    {k' : K} (hp' : p'+(d.opening k').length = b'.1) (hopen' : Visible s blocks (d.opening k') p')
    (hmeet : b'.1 < b.2+(d.closing k).length ∧ b.2 < b'.2) :
    b'.1 ≤ j ∧ j < b'.2 := by
  refine ⟨?_,by omega⟩
  by_contra hout
  have hlong := hd.long _ (Delimiters.isMarker_opening k')
  -- the opening marker would end inside the outer block, or begin in it
  have hreach : p' < b.2 := by
    by_contra hafter
    rcases hd.occurs_apart (Delimiters.isMarker_closing k) (Delimiters.isMarker_opening k') hclose
      hopen'.occurs (not_lt.mp hafter) with ⟨heq,hsame⟩ | hle
    · rw [← hsame] at hp'
      omega
    · omega
  exact hopen'.seen (min (b.2-1) (b'.1-1)) (by omega) (by omega) ⟨b,hb,by omega,by omega⟩

/-- The blocks of a pass are outer when they are read. -/
theorem passBlocks_outer {blocks : Set (ℕ × ℕ)} {k : K} {b : ℕ × ℕ}
    (hb : b ∈ passBlocks d s blocks k) : Outer d s (blocks ∪ passBlocks d s blocks k) b := by
  have hclosed : Closed _ _ _ _ 0 b.1 b.2 := hb
  obtain ⟨p,_,hopen,hp,hle,hclose⟩ := hclosed.marks
  refine ⟨k,p,hp,hopen.union (fun b' hb' => ?_),hclose.union (fun b' hb' => ?_)⟩
  · have hclosed' : Closed _ _ _ _ 0 b'.1 b'.2 := hb'
    rcases hclosed.apart hclosed' with ⟨hstart,_⟩ | hbefore | hafter <;> omega
  · have hclosed' : Closed _ _ _ _ 0 b'.1 b'.2 := hb'
    obtain ⟨_,_,_,_,hle',_⟩ := hclosed'.marks
    rcases hclosed.apart hclosed' with ⟨_,hstop⟩ | hbefore | hafter <;> omega

/-- One pass leaves all that is covered in blocks with visible markers. -/
theorem layered_pass (hd : d.WellFormed) (blocks : Set (ℕ × ℕ)) (k : K) (h : Layered d s blocks) :
    Layered d s (blocks ∪ passBlocks d s blocks k) := by
  intro j hj
  rcases (mem_hidden_union _ _ j).mp hj with hold | ⟨b,hb,hfrom,hto⟩
  · obtain ⟨b,hb,hfrom,hto,k',p,hp,hopen,hclose⟩ := h j hold
    by_cases hnew : ∃ b' ∈ passBlocks d s blocks k, b'.1 ≤ j ∧ j < b'.2
    · obtain ⟨b',hb',hfrom',hto'⟩ := hnew
      exact ⟨b',Or.inr hb',hfrom',hto',passBlocks_outer hb'⟩
    · refine ⟨b,Or.inl hb,hfrom,hto,k',p,hp,?_,?_⟩
      · refine hopen.union (fun b' hb' => ?_)
        obtain ⟨_,_,_,_,_,hclose'⟩ := Closed.marks hb'
        by_contra hmeet
        exact hnew ⟨b',hb',covers_of_opening hd hb hp hopen.occurs ⟨hfrom,hto⟩ hclose' (by omega)⟩
      · refine hclose.union (fun b' hb' => ?_)
        obtain ⟨p',_,hopen',hp',_,_⟩ := Closed.marks hb'
        by_contra hmeet
        exact hnew ⟨b',hb',covers_of_closing hd hb hclose.occurs ⟨hfrom,hto⟩ hp' hopen' (by omega)⟩
  · exact ⟨b,Or.inr hb,hfrom,hto,passBlocks_outer hb⟩

theorem layered_readBlocks (hd : d.WellFormed) (s : List α) (ks : List K) :
    Layered d s (readBlocks d s ks) := by
  induction ks using List.reverseRecOn with
  | nil =>
    rintro j ⟨b,hb,_⟩
    cases hb
  | append_singleton ks k ih =>
    rw [readBlocks_concat]
    exact layered_pass hd _ k ih

theorem readBlocks_closing (s : List α) (ks : List K) :
    ∀ b ∈ readBlocks d s ks, ∃ k, OccursAt (d.closing k) s b.2 := by
  induction ks using List.reverseRecOn with
  | nil => exact fun b hb => by cases hb
  | append_singleton ks k ih =>
    rw [readBlocks_concat]
    rintro b (hb | hb)
    · exact ih b hb
    · obtain ⟨_,_,_,_,_,hclose⟩ := Closed.marks hb
      exact ⟨k,hclose.occurs⟩

end Blocks

section Masking
variable {α K : Type} (d : Delimiters α K) (mask : α)

structure Masked (s : List α) (places : Set ℕ) (t : List α) : Prop where
  masked : ∀ j c, s[j]? = some c → j ∈ places → d.kept c = false → t[j]? = some mask
  other : ∀ j c, s[j]? = some c → j ∉ places ∨ d.kept c = true → t[j]? = some c
  ends : t.length = s.length

variable {d mask}

theorem masked_of_empty (s : List α) (places : Set ℕ) (h : ∀ j, j ∉ places) : Masked d mask s places s :=
  ⟨fun j _ _ hj _ => absurd hj (h j),fun _ _ hc _ => hc,rfl⟩

theorem hidden_empty (j : ℕ) : j ∉ hidden ∅ := by
  rintro ⟨b,hb,_⟩
  cases hb

theorem Masked.source {s t : List α} {places : Set ℕ} (h : Masked d mask s places t) {j : ℕ} {x : α}
    (hx : t[j]? = some x) : ∃ c, s[j]? = some c := by
  obtain ⟨hj,_⟩ := List.getElem?_eq_some_iff.mp hx
  exact ⟨_,List.getElem?_eq_getElem (h.ends ▸ hj)⟩

theorem Masked.trans {s t u : List α} {places more : Set ℕ} (h : Masked d mask s places t)
    (h' : Masked d mask t more u) : Masked d mask s (places ∪ more) u := by
  have hmask : ∀ j : ℕ, t[j]? = some mask → u[j]? = some mask := by
    intro j hj
    by_cases hplace : j ∈ more ∧ d.kept mask = false
    · exact h'.masked j mask hj hplace.1 hplace.2
    · refine h'.other j mask hj ?_
      rw [not_and, Bool.not_eq_false] at hplace
      exact (em (j ∈ more)).symm.imp_right hplace
  refine ⟨fun j c hc hj hkept => ?_,fun j c hc hj => ?_,h'.ends.trans h.ends⟩
  · by_cases hplace : j ∈ places
    · exact hmask j (h.masked j c hc hplace hkept)
    · exact h'.masked j c (h.other j c hc (Or.inl hplace)) (hj.resolve_left hplace) hkept
  · refine h'.other j c (h.other j c hc ?_) ?_
    · exact hj.imp_left (fun hout hin => hout (Or.inl hin))
    · exact hj.imp_left (fun hout hin => hout (Or.inr hin))

theorem Visible.masked {s t : List α} {blocks : Set (ℕ × ℕ)} {marker : List α} {p : ℕ}
    (h : Visible s blocks marker p) (ht : Masked d mask s (hidden blocks) t) : OccursAt marker t p := by
  rw [occursAt_iff]
  intro i x hx
  have hi := (List.getElem?_eq_some_iff.mp hx).1
  refine ht.other _ x ((occursAt_iff _ _ _).mp h.occurs i x hx) (Or.inl ?_)
  exact h.seen _ (Nat.le_add_right _ _) (by omega)

/-- Masking makes no marker and covers none in part. -/
theorem occursAt_masked (hd : d.WellFormed) {s t : List α} {blocks : Set (ℕ × ℕ)}
    (hlayered : Layered d s blocks) (ht : Masked d mask s (hidden blocks) t) (marker : List α)
    (hm : d.IsMarker marker) (p : ℕ) : OccursAt marker t p ↔ Visible s blocks marker p := by
  refine ⟨fun h => ?_,fun h => h.masked ht⟩
  have hchars := (occursAt_iff _ _ _).mp h
  have hseen : ∀ j, p ≤ j → j < p+marker.length → j ∉ hidden blocks := by
    intro j hpj hjp hj
    obtain ⟨b,hb,hfrom,hto,k,q,hq,hopen,hclose⟩ := hlayered j hj
    -- the core of the marker lies in the block
    have hleft : b.1 ≤ p+d.width := by
      rw [← hq]
      exact hd.ends_apart (Delimiters.isMarker_opening k) hm (hopen.masked ht) h (by omega)
    have hright : p+marker.length ≤ b.2+d.width := by
      rcases hd.occurs_apart hm (Delimiters.isMarker_closing k) h (hclose.masked ht) (by omega) with
        ⟨heq,_⟩ | hright
      · omega
      · exact hright
    obtain ⟨i,x,hi,hilong,hx,hne⟩ := hd.core marker hm mask
    have hplace : p+i ∈ hidden blocks := ⟨b,hb,by omega,by omega⟩
    have htext := hchars i x hx
    obtain ⟨c,hc⟩ := ht.source htext
    cases hkept : d.kept c with
    | false =>
      rw [ht.masked _ c hc hplace hkept] at htext
      exact hne (Option.some.inj htext).symm
    | true =>
      rw [ht.other _ c hc (Or.inr hkept)] at htext
      rw [Option.some.inj htext, hd.solid marker hm x (List.mem_of_getElem? hx)] at hkept
      cases hkept
  refine ⟨(occursAt_iff _ _ _).mpr (fun i x hx => ?_),hseen⟩
  have hi := (List.getElem?_eq_some_iff.mp hx).1
  have htext := hchars i x hx
  obtain ⟨c,hc⟩ := ht.source htext
  rwa [ht.other _ c hc (Or.inl (hseen _ (Nat.le_add_right _ _) (by omega))), ← hc] at htext

theorem masked_pass (hd : d.WellFormed) {s t u : List α} {blocks : Set (ℕ × ℕ)} (k : K)
    (hlayered : Layered d s blocks) (ht : Masked d mask s (hidden blocks) t)
    (hu : Masked d mask t (hidden {b | Closed (OccursAt (d.opening k) t) (OccursAt (d.closing k) t)
      (d.opening k).length (d.closing k).length 0 b.1 b.2}) u) :
    Masked d mask s (hidden (blocks ∪ passBlocks d s blocks k)) u := by
  have hblocks : {b : ℕ × ℕ | Closed (OccursAt (d.opening k) t) (OccursAt (d.closing k) t)
      (d.opening k).length (d.closing k).length 0 b.1 b.2} = passBlocks d s blocks k :=
    Set.ext (fun b => closed_congr 0 b.1 b.2
      (fun p _ => occursAt_masked hd hlayered ht _ (Delimiters.isMarker_opening k) p)
      (fun q _ => occursAt_masked hd hlayered ht _ (Delimiters.isMarker_closing k) q))
  rw [hblocks] at hu
  have hplaces : hidden (blocks ∪ passBlocks d s blocks k) =
      hidden blocks ∪ hidden (passBlocks d s blocks k) := Set.ext (mem_hidden_union _ _)
  rw [hplaces]
  exact ht.trans hu

/-- Passes that mask what they close mask the blocks read off the first text. -/
theorem masked_passes (hd : d.WellFormed) (pass : List α → K → List α)
    (hpass : ∀ t k, Masked d mask t (hidden {b | Closed (OccursAt (d.opening k) t)
      (OccursAt (d.closing k) t) (d.opening k).length (d.closing k).length 0 b.1 b.2}) (pass t k))
    (s : List α) (ks : List K) : Masked d mask s (hidden (readBlocks d s ks)) (ks.foldl pass s) := by
  induction ks using List.reverseRecOn with
  | nil => exact masked_of_empty s _ hidden_empty
  | append_singleton ks k ih =>
    rw [readBlocks_concat, List.foldl_concat]
    exact masked_pass hd k (layered_readBlocks hd s ks) ih (hpass _ k)

end Masking

section Exposure
variable {α K : Type} {d : Delimiters α K} {mask : α} {s t : List α} {blocks : Set (ℕ × ℕ)}

def RegionMasked (d : Delimiters α K) (mask : α) (s t : List α) (start stop : ℕ) : Prop :=
  ∀ (j : ℕ) (c : α), start ≤ j → j < stop → s[j]? = some c → d.kept c = false → t[j]? = some mask

def Secret (d : Delimiters α K) (mask : α) (s : List α) (start stop : ℕ) : Prop :=
  ∃ (j : ℕ) (c : α), start ≤ j ∧ j < stop ∧ s[j]? = some c ∧ d.kept c = false ∧ c ≠ mask

theorem visible_exposes (hd : d.WellFormed) (ht : Masked d mask s (hidden blocks) t) {marker : List α}
    (hm : d.IsMarker marker) {q : ℕ} (h : Visible s blocks marker q) (start stop : ℕ)
    (hstart : start ≤ q+d.width) (hstop : q+marker.length ≤ stop+d.width) :
    ¬RegionMasked d mask s t start stop := by
  intro hmasked
  obtain ⟨i,x,hi,hilong,hx,hne⟩ := hd.core marker hm mask
  have hs := (occursAt_iff _ _ _).mp h.occurs i x hx
  have hkept := hd.solid marker hm x (List.mem_of_getElem? hx)
  have hmask := hmasked (q+i) x (by omega) (by omega) hs hkept
  rw [ht.other _ x hs (Or.inl (h.seen _ (Nat.le_add_right _ _) (by omega)))] at hmask
  exact hne (Option.some.inj hmask)

/-- After a marker and up to another, or to the end of the text, all is masked
exactly when there is nothing to mask or one block covers it. -/
theorem regionMasked_iff (hd : d.WellFormed) (hlayered : Layered d s blocks)
    (ht : Masked d mask s (hidden blocks) t) {marker : List α} (hm : d.IsMarker marker) {p stop : ℕ}
    (h : OccursAt marker s p)
    (hstop : stop = s.length ∨ ∃ marker', d.IsMarker marker' ∧ OccursAt marker' s stop) :
    RegionMasked d mask s t (p+marker.length) stop ↔
      (Secret d mask s (p+marker.length) stop →
        ∃ b ∈ blocks, b.1 ≤ p+marker.length ∧ stop ≤ b.2) := by
  constructor
  · rintro hmasked ⟨j,c,hfrom,hto,hc,hkept,hne⟩
    have hj : j ∈ hidden blocks := by
      by_contra hout
      have hmask := hmasked j c hfrom hto hc hkept
      rw [ht.other j c hc (Or.inl hout)] at hmask
      exact hne (Option.some.inj hmask)
    obtain ⟨b,hb,hbfrom,hbto,k,q,hq,hopen,hclose⟩ := hlayered j hj
    have hopening : d.IsMarker (d.opening k) := Delimiters.isMarker_opening k
    have hclosing : d.IsMarker (d.closing k) := Delimiters.isMarker_closing k
    refine ⟨b,hb,?_,?_⟩
    · -- otherwise the opening marker of the block lies in the region
      by_contra hlate
      have hlong := hd.long _ hopening
      exact visible_exposes hd ht hopening hopen (p+marker.length) stop
        (hd.ends_apart hm hopening h hopen.occurs (by omega)) (by omega) hmasked
    · -- otherwise its closing marker does
      by_contra hearly
      refine visible_exposes hd ht hclosing hclose (p+marker.length) stop (by omega) ?_ hmasked
      rcases hstop with hends | ⟨marker',hm',h'⟩
      · have hlong := hd.long _ hclosing
        have hinside := hclose.occurs.length_le (List.ne_nil_of_length_pos (by omega))
        omega
      · rcases hd.occurs_apart hclosing hm' hclose.occurs h' (by omega) with ⟨heq,_⟩ | hright
        · omega
        · exact hright
  · intro hcovered j c hfrom hto hc hkept
    by_cases hj : j ∈ hidden blocks
    · exact ht.masked j c hc hj hkept
    · rw [ht.other j c hc (Or.inl hj)]
      by_contra hne
      obtain ⟨b,hb,hstart,hend⟩ := hcovered ⟨j,c,hfrom,hto,hc,hkept,fun heq => hne (by rw [heq])⟩
      exact hj ⟨b,hb,by omega,by omega⟩

end Exposure
end Chronos.DelimitedBlocks
