import DocQuery.Proofs.Json.Tree

/-! # Trees without repeated members

Where no object repeats a key, normalizing only reorders members: the depth and the numbers stay.
-/
namespace DocQuery

namespace Members
variable {α : Type}

theorem insert_perm {key : String} (value : α) {ms : List (String × α)} (h : key ∉ ms.map (·.1)) :
    (insert key value ms).Perm ((key, value) :: ms) := by
  induction ms with
  | nil => exact .refl _
  | cons m ms ih =>
    obtain ⟨k, v⟩ := m
    simp only [List.map_cons, List.mem_cons, not_or] at h
    simp only [insert, if_neg h.1]
    split
    · exact .refl _
    · exact ((ih h.2).cons (k, v)).trans (.swap _ _ _)

theorem foldl_insert_perm (xs ms : List (String × α)) (h : ((xs ++ ms).map (·.1)).Nodup) :
    (xs.foldl (fun acc m => insert m.1 m.2 acc) ms).Perm (xs ++ ms) := by
  induction xs generalizing ms with
  | nil => exact .refl _
  | cons x xs ih =>
    obtain ⟨k, v⟩ := x
    simp only [List.cons_append, List.map_cons, List.nodup_cons] at h
    have hk : k ∉ ms.map (·.1) := fun hm => h.1 (by
      simp only [List.map_append, List.mem_append]
      exact .inr hm)
    have hp : (xs ++ insert k v ms).Perm ((k, v) :: (xs ++ ms)) :=
      ((insert_perm v hk).append_left xs).trans List.perm_middle
    have hn : ((xs ++ insert k v ms).map (·.1)).Nodup :=
      (hp.map (·.1)).nodup_iff.2 (List.nodup_cons.2 h)
    exact (ih _ hn).trans hp

theorem sort_perm {ms : List (String × α)} (h : (ms.map (·.1)).Nodup) : (sort ms).Perm ms := by
  simpa [sort] using foldl_insert_perm ms [] (by simpa using h)

theorem Sorted.nodup {ms : List (String × α)} (h : Sorted ms) : (ms.map (·.1)).Nodup :=
  List.Pairwise.imp (fun {a b} (hlt : a < b) (heq : a = b) => String.lt_irrefl b (heq ▸ hlt)) h

end Members

namespace Json

mutual
/-- No object repeats a key. -/
def Distinct : Json → Prop
  | array xs => DistinctItems xs
  | object ms => (ms.map (·.1)).Nodup ∧ DistinctMembers ms
  | _ => True
termination_by structural j => j
def DistinctItems : List Json → Prop
  | [] => True
  | x :: xs => x.Distinct ∧ DistinctItems xs
termination_by structural xs => xs
def DistinctMembers : List (String × Json) → Prop
  | [] => True
  | (_, x) :: ms => x.Distinct ∧ DistinctMembers ms
termination_by structural ms => ms
end

theorem distinctItems_iff {xs : List Json} : DistinctItems xs ↔ ∀ x ∈ xs, x.Distinct := by
  induction xs with
  | nil => simp [DistinctItems]
  | cons x xs ih => simp [DistinctItems, ih]

theorem distinct_of_mem {ms : List (String × Json)} (h : DistinctMembers ms) {m : String × Json}
    (hm : m ∈ ms) : m.2.Distinct := by
  induction ms with
  | nil => cases hm
  | cons m' ms ih =>
    obtain ⟨k, x⟩ := m'
    simp only [DistinctMembers] at h
    rcases List.mem_cons.1 hm with rfl | hm
    · exact h.1
    · exact ih h.2 hm

theorem mem_numbersItems {x : Number} {xs : List Json} :
    x ∈ numbersItems xs ↔ ∃ j ∈ xs, x ∈ j.numbers := by
  induction xs with
  | nil => simp [numbersItems]
  | cons j xs ih => simp [numbersItems, ih]

theorem mem_numbersMembers {x : Number} {ms : List (String × Json)} :
    x ∈ numbersMembers ms ↔ ∃ m ∈ ms, x ∈ m.2.numbers := by
  induction ms with
  | nil => simp [numbersMembers]
  | cons m ms ih => obtain ⟨k, j⟩ := m; simp [numbersMembers, ih]

theorem depthMembers_perm {ms ms' : List (String × Json)} (h : ms.Perm ms') :
    depthMembers ms = depthMembers ms' := by
  have hle : ∀ n, depthMembers ms ≤ n ↔ depthMembers ms' ≤ n := fun n => by
    simp only [depthMembers_le, h.mem_iff]
  exact Nat.le_antisymm ((hle _).2 (Nat.le_refl _)) ((hle _).1 (Nat.le_refl _))

theorem map_fst_normalizeMembers (ms : List (String × Json)) :
    (normalizeMembers ms).map (·.1) = ms.map (·.1) := by
  induction ms with
  | nil => rfl
  | cons m ms ih => obtain ⟨k, x⟩ := m; simp [normalizeMembers, ih]

theorem sort_normalizeMembers_perm {ms : List (String × Json)} (h : (ms.map (·.1)).Nodup) :
    (Members.sort (normalizeMembers ms)).Perm (normalizeMembers ms) :=
  Members.sort_perm (by rwa [map_fst_normalizeMembers])

mutual
theorem distinct_of_normal : (j : Json) → j.Normal → j.Distinct
  | null, _ => trivial
  | bool _, _ => trivial
  | number _, _ => trivial
  | string _, _ => trivial
  | array xs, h => distinctItems_of_normal xs (by simpa [Normal] using h)
  | object ms, h => by
    simp only [Normal] at h
    exact ⟨h.1.nodup, distinctMembers_of_normal ms h.2⟩
theorem distinctItems_of_normal : (xs : List Json) → NormalItems xs → DistinctItems xs
  | [], _ => trivial
  | x :: xs, h => ⟨distinct_of_normal x h.1, distinctItems_of_normal xs h.2⟩
theorem distinctMembers_of_normal :
    (ms : List (String × Json)) → NormalMembers ms → DistinctMembers ms
  | [], _ => trivial
  | (_, x) :: ms, h => ⟨distinct_of_normal x h.1, distinctMembers_of_normal ms h.2⟩
end

mutual
theorem depth_normalize : (j : Json) → j.Distinct → j.normalize.depth = j.depth
  | null, _ => rfl
  | bool _, _ => rfl
  | number _, _ => rfl
  | string _, _ => rfl
  | array xs, h => by
    simp only [normalize, depth, depth_normalizeItems xs (by simpa [Distinct] using h)]
  | object ms, h => by
    simp only [Distinct] at h
    simp only [normalize, depth, depthMembers_perm (sort_normalizeMembers_perm h.1),
      depth_normalizeMembers ms h.2]
theorem depth_normalizeItems :
    (xs : List Json) → DistinctItems xs → depthItems (normalizeItems xs) = depthItems xs
  | [], _ => rfl
  | x :: xs, h => by
    simp only [DistinctItems] at h
    simp only [normalizeItems, depthItems, depth_normalize x h.1, depth_normalizeItems xs h.2]
theorem depth_normalizeMembers :
    (ms : List (String × Json)) → DistinctMembers ms →
      depthMembers (normalizeMembers ms) = depthMembers ms
  | [], _ => rfl
  | (k, x) :: ms, h => by
    simp only [DistinctMembers] at h
    simp only [normalizeMembers, depthMembers, depth_normalize x h.1, depth_normalizeMembers ms h.2]
end

mutual
theorem mem_numbers_normalize {x : Number} :
    (j : Json) → j.Distinct → (x ∈ j.normalize.numbers ↔ x ∈ j.numbers)
  | null, _ => Iff.rfl
  | bool _, _ => Iff.rfl
  | number _, _ => Iff.rfl
  | string _, _ => Iff.rfl
  | array xs, h => by
    simpa only [normalize, numbers] using mem_numbers_normalizeItems xs (by simpa [Distinct] using h)
  | object ms, h => by
    simp only [Distinct] at h
    simp only [normalize, numbers, mem_numbersMembers,
      (sort_normalizeMembers_perm h.1).mem_iff]
    simpa only [mem_numbersMembers] using mem_numbers_normalizeMembers ms h.2
theorem mem_numbers_normalizeItems {x : Number} :
    (xs : List Json) → DistinctItems xs →
      (x ∈ numbersItems (normalizeItems xs) ↔ x ∈ numbersItems xs)
  | [], _ => Iff.rfl
  | j :: xs, h => by
    simp only [DistinctItems] at h
    simp only [normalizeItems, numbersItems, List.mem_append, mem_numbers_normalize j h.1,
      mem_numbers_normalizeItems xs h.2]
theorem mem_numbers_normalizeMembers {x : Number} :
    (ms : List (String × Json)) → DistinctMembers ms →
      (x ∈ numbersMembers (normalizeMembers ms) ↔ x ∈ numbersMembers ms)
  | [], _ => Iff.rfl
  | (k, j) :: ms, h => by
    simp only [DistinctMembers] at h
    simp only [normalizeMembers, numbersMembers, List.mem_append, mem_numbers_normalize j h.1,
      mem_numbers_normalizeMembers ms h.2]
end

end Json

end DocQuery
