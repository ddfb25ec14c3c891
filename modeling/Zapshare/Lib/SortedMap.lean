import Mathlib.Data.List.Basic
import Mathlib.Tactic.Common

/-!
# Maps as sorted lists

A map as the list of its pairs, in the order of their keys. A pair that is assigned replaces the one
that has its key; one that is only offered is taken where there is none yet.

## Main results

* `SortedMap.lookup_assign`, `SortedMap.lookup_collect` — what is found under a key
* `SortedMap.sorted_assign`, `SortedMap.sorted_collect` — the order is kept
* `SortedMap.assignAll_of_sorted`, `SortedMap.collect_of_sorted` — a list in order is built again
-/

namespace SortedMap

variable {κ ν : Type*}

/-- Put the value under the key, in place of what was there. -/
def assign [LT κ] [DecidableLT κ] [DecidableEq κ] (k : κ) (v : ν) : List (κ × ν) → List (κ × ν)
  | [] => [(k, v)]
  | p :: m =>
    if k = p.1 then (k, v) :: m else if k < p.1 then (k, v) :: p :: m else p :: assign k v m

/-- Put the value under the key, where nothing is there yet. -/
def emplace [LT κ] [DecidableLT κ] [DecidableEq κ] (k : κ) (v : ν) (m : List (κ × ν)) :
    List (κ × ν) :=
  if (m.lookup k).isSome then m else assign k v m

/-- The keys ascend. -/
def Sorted [LT κ] (m : List (κ × ν)) : Prop := m.Pairwise fun p q => p.1 < q.1

section

variable [LT κ] {m : List (κ × ν)}

theorem sorted_nil : Sorted ([] : List (κ × ν)) := List.Pairwise.nil

theorem sorted_cons {p : κ × ν} : Sorted (p :: m) ↔ (∀ q ∈ m, p.1 < q.1) ∧ Sorted m :=
  List.pairwise_cons

/-- **A list in order is built again**, by any way of putting a pair behind smaller ones. -/
theorem foldl_of_sorted {put : List (κ × ν) → κ × ν → List (κ × ν)}
    (hput : ∀ m p, (∀ q ∈ m, q.1 < p.1) → put m p = m ++ [p]) (h : Sorted m) :
    m.foldl put [] = m := by
  suffices hgen : ∀ ps qs : List (κ × ν), Sorted (ps ++ qs) → qs.foldl put ps = ps ++ qs by
    exact hgen [] m h
  intro ps qs
  induction qs generalizing ps with
  | nil => simp
  | cons q qs ih =>
    intro hsorted
    have hsplit := List.pairwise_append.mp hsorted
    have hlast : put ps q = ps ++ [q] :=
      hput ps q fun p hp => hsplit.2.2 p hp q List.mem_cons_self
    rw [List.foldl_cons, hlast, ih (ps ++ [q]) (by simpa using hsorted)]
    simp

end

variable [LT κ] [DecidableLT κ] [DecidableEq κ]

/-- The pairs, assigned one after the other. -/
def assignAll (ps : List (κ × ν)) : List (κ × ν) := ps.foldl (fun m p => assign p.1 p.2 m) []

/-- The pairs, offered one after the other. -/
def collect (ps : List (κ × ν)) : List (κ × ν) := ps.foldl (fun m p => emplace p.1 p.2 m) []

variable {k k' : κ} {v : ν} {m : List (κ × ν)}

theorem mem_assign {p : κ × ν} (h : p ∈ assign k v m) : p = (k, v) ∨ p ∈ m := by
  induction m with
  | nil => exact Or.inl (List.mem_singleton.mp h)
  | cons q m ih =>
    rw [assign] at h
    split_ifs at h
    · rcases List.mem_cons.mp h with rfl | h
      · exact Or.inl rfl
      · exact Or.inr (List.mem_cons_of_mem q h)
    · exact List.mem_cons.mp h
    · rcases List.mem_cons.mp h with rfl | h
      · exact Or.inr List.mem_cons_self
      · exact (ih h).imp id (List.mem_cons_of_mem q)

theorem mem_emplace {p : κ × ν} (h : p ∈ emplace k v m) : p = (k, v) ∨ p ∈ m := by
  rw [emplace] at h
  split_ifs at h
  · exact Or.inr h
  · exact mem_assign h

omit [LT κ] [DecidableLT κ] [DecidableEq κ] in
/-- A map holds what was put into it, by any way of putting in one pair. -/
theorem mem_foldl {put : List (κ × ν) → κ × ν → List (κ × ν)}
    (hput : ∀ m q, ∀ p ∈ put m q, p = q ∨ p ∈ m) {ps : List (κ × ν)} :
    ∀ p ∈ ps.foldl put [], p ∈ ps := by
  suffices h : ∀ m : List (κ × ν), ∀ p ∈ ps.foldl put m, p ∈ m ∨ p ∈ ps by
    exact fun p hp => (h [] p hp).resolve_left List.not_mem_nil
  induction ps with
  | nil => exact fun m p hp => Or.inl hp
  | cons q ps ih =>
    intro m p hp
    rcases ih (put m q) p hp with hp | hp
    · rcases hput m q p hp with rfl | hp
      · exact Or.inr List.mem_cons_self
      · exact Or.inl hp
    · exact Or.inr (List.mem_cons_of_mem q hp)

/-- What is assigned was among the pairs. -/
theorem mem_assignAll {ps : List (κ × ν)} : ∀ p ∈ assignAll ps, p ∈ ps :=
  mem_foldl fun _ _ _ hp => mem_assign hp

/-- What is collected was offered. -/
theorem mem_collect {ps : List (κ × ν)} : ∀ p ∈ collect ps, p ∈ ps :=
  mem_foldl fun _ _ _ hp => mem_emplace hp

/-! ### Lookup -/

omit [LT κ] [DecidableLT κ] in
theorem lookup_cons_eq {k₀ : κ} {v₀ : ν} :
    ((k₀, v₀) :: m).lookup k = if k = k₀ then some v₀ else m.lookup k := by
  by_cases h : k = k₀
  · simp [h]
  · simp [List.lookup_cons, beq_eq_false_iff_ne.mpr h, h]

theorem lookup_assign : (assign k v m).lookup k' = if k' = k then some v else m.lookup k' := by
  induction m with
  | nil => rw [assign, lookup_cons_eq]
  | cons p m ih =>
    obtain ⟨k₀, v₀⟩ := p
    rw [assign]
    split_ifs with heq hlt hk hk
    all_goals simp only [lookup_cons_eq, ih]
    all_goals grind

theorem lookup_emplace :
    (emplace k v m).lookup k' = (m.lookup k').or (if k' = k then some v else none) := by
  rw [emplace]
  split_ifs with hsome hk hk
  · subst hk
    rw [Option.or_of_isSome hsome]
  · simp
  · subst hk
    rw [lookup_assign, if_pos rfl, Option.not_isSome_iff_eq_none.mp hsome, Option.none_or]
  · rw [lookup_assign, if_neg hk, Option.or_none]

/-- **Under a key is what was offered first.** -/
theorem lookup_collect (ps : List (κ × ν)) : (collect ps).lookup k = ps.lookup k := by
  suffices h : ∀ m : List (κ × ν),
      (ps.foldl (fun m p => emplace p.1 p.2 m) m).lookup k = (m.lookup k).or (ps.lookup k) by
    simpa [collect] using h []
  induction ps with
  | nil => simp
  | cons p ps ih =>
    intro m
    obtain ⟨k₀, v₀⟩ := p
    rw [List.foldl_cons, ih, lookup_emplace, lookup_cons_eq, Option.or_assoc]
    split_ifs <;> simp

/-! ### Order -/

variable [Std.Trichotomous (· < · : κ → κ → Prop)]
  [Trans (· < · : κ → κ → Prop) (· < · : κ → κ → Prop) (· < · : κ → κ → Prop)]

theorem sorted_assign (h : Sorted m) : Sorted (assign k v m) := by
  induction m with
  | nil => exact List.pairwise_singleton _ _
  | cons p m ih =>
    obtain ⟨hhead, htail⟩ := sorted_cons.mp h
    rw [assign]
    split_ifs with heq hlt
    · exact sorted_cons.mpr ⟨fun q hq => heq ▸ hhead q hq, htail⟩
    · refine sorted_cons.mpr ⟨fun q hq => ?_, h⟩
      rcases List.mem_cons.mp hq with rfl | hq
      · exact hlt
      · exact Trans.trans hlt (hhead q hq)
    · refine sorted_cons.mpr ⟨fun q hq => ?_, ih htail⟩
      rcases mem_assign hq with rfl | hq
      · by_contra hnot
        exact heq (Std.Trichotomous.trichotomous k p.1 hlt hnot)
      · exact hhead q hq

theorem sorted_emplace (h : Sorted m) : Sorted (emplace k v m) := by
  rw [emplace]
  split_ifs
  · exact h
  · exact sorted_assign h

theorem sorted_assignAll (ps : List (κ × ν)) : Sorted (assignAll ps) :=
  List.foldlRecOn ps _ sorted_nil fun _ h _ _ => sorted_assign h

theorem sorted_collect (ps : List (κ × ν)) : Sorted (collect ps) :=
  List.foldlRecOn ps _ sorted_nil fun _ h _ _ => sorted_emplace h

/-! ### Building a list in order -/

omit [Std.Trichotomous (· < · : κ → κ → Prop)]

variable [Std.Irrefl (· < · : κ → κ → Prop)]

/-- What is assigned behind all others goes to the end. -/
theorem assign_of_lt (h : ∀ p ∈ m, p.1 < k) : assign k v m = m ++ [(k, v)] := by
  induction m with
  | nil => rfl
  | cons p m ih =>
    have hp : p.1 < k := h p List.mem_cons_self
    have hne : k ≠ p.1 := by
      rintro rfl
      exact Std.Irrefl.irrefl _ hp
    have hnot : ¬ k < p.1 := fun hlt => Std.Irrefl.irrefl _ (Trans.trans hp hlt)
    rw [assign, if_neg hne, if_neg hnot, ih fun q hq => h q (List.mem_cons_of_mem p hq)]
    rfl

theorem emplace_of_lt (h : ∀ p ∈ m, p.1 < k) : emplace k v m = m ++ [(k, v)] := by
  have hnone : m.lookup k = none := by
    rw [List.lookup_eq_none_iff]
    intro p hp
    have hne : k ≠ p.1 := by
      rintro rfl
      exact Std.Irrefl.irrefl _ (h p hp)
    simpa using hne
  rw [emplace, hnone]
  exact assign_of_lt h

theorem assignAll_of_sorted (h : Sorted m) : assignAll m = m :=
  foldl_of_sorted (fun _ _ hlt => assign_of_lt hlt) h

theorem collect_of_sorted (h : Sorted m) : collect m = m :=
  foldl_of_sorted (fun _ _ hlt => emplace_of_lt hlt) h

end SortedMap
