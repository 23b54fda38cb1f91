import DocQuery.Json.Basic

/-! # Normal trees

Main statements: `normal_normalize` — sorting the members of every object gives a normal tree — and
`normalize_eq_self` — a normal tree is left alone. Trees have decidable equality.
-/
namespace DocQuery

namespace Members
variable {α : Type}

theorem lt_of_not_lt_of_ne {a b : String} (h : ¬ a < b) (hne : a ≠ b) : b < a := by
  rcases Classical.em (b < a) with h' | h'
  · exact h'
  · exact absurd (String.le_antisymm (String.not_lt.1 h') (String.not_lt.1 h)) hne

theorem mem_insert {key : String} {value : α} {ms : List (String × α)} {m : String × α}
    (h : m ∈ insert key value ms) : m = (key, value) ∨ m ∈ ms := by
  induction ms with
  | nil => simpa [insert] using h
  | cons x xs ih =>
    obtain ⟨k, v⟩ := x
    simp only [insert] at h
    split at h
    · simpa using h
    · split at h
      · rcases List.mem_cons.1 h with h | h <;> simp [h]
      · rcases List.mem_cons.1 h with h | h
        · simp [h]
        · rcases ih h with h | h <;> simp [h]

theorem sorted_cons {k : String} {v : α} {ms : List (String × α)} :
    Sorted ((k, v) :: ms) ↔ (∀ m ∈ ms, k < m.1) ∧ Sorted ms := by
  simp [Sorted, List.pairwise_cons]

theorem sorted_insert {key : String} {value : α} {ms : List (String × α)} (h : Sorted ms) :
    Sorted (insert key value ms) := by
  induction ms with
  | nil => simp [insert, Sorted]
  | cons x xs ih =>
    obtain ⟨k, v⟩ := x
    obtain ⟨hk, hs⟩ := sorted_cons.1 h
    simp only [insert]
    split
    · rename_i hlt
      refine sorted_cons.2 ⟨fun m hm => ?_, h⟩
      rcases List.mem_cons.1 hm with rfl | hm
      · exact hlt
      · exact String.lt_trans hlt (hk m hm)
    · split
      · rename_i _ heq
        subst heq
        exact sorted_cons.2 ⟨hk, hs⟩
      · rename_i hlt hne
        refine sorted_cons.2 ⟨fun m hm => ?_, ih hs⟩
        rcases mem_insert hm with rfl | hm
        · exact lt_of_not_lt_of_ne hlt hne
        · exact hk m hm

theorem sorted_foldl_insert (xs ms : List (String × α)) (h : Sorted ms) :
    Sorted (xs.foldl (fun acc m => insert m.1 m.2 acc) ms) := by
  induction xs generalizing ms with
  | nil => exact h
  | cons x xs ih => exact ih _ (sorted_insert h)

theorem sorted_sort (ms : List (String × α)) : Sorted (sort ms) :=
  sorted_foldl_insert ms [] (by simp [Sorted])

theorem insert_eq_append {key : String} {value : α} {ms : List (String × α)}
    (h : ∀ m ∈ ms, m.1 < key) : insert key value ms = ms ++ [(key, value)] := by
  induction ms with
  | nil => rfl
  | cons x xs ih =>
    obtain ⟨k, v⟩ := x
    have hk : k < key := h (k, v) (by simp)
    have h₁ : ¬ key < k := fun h' => String.lt_irrefl k (String.lt_trans hk h')
    have h₂ : key ≠ k := fun h' => String.lt_irrefl k (h' ▸ hk)
    simp [insert, h₁, h₂, ih fun m hm => h m (List.mem_cons_of_mem _ hm)]

theorem foldl_insert_eq_append (xs ms : List (String × α)) (h : Sorted (ms ++ xs)) :
    xs.foldl (fun acc m => insert m.1 m.2 acc) ms = ms ++ xs := by
  induction xs generalizing ms with
  | nil => simp
  | cons x xs ih =>
    have hlt : ∀ m ∈ ms, m.1 < x.1 := by
      intro m hm
      rw [Sorted, List.map_append, List.pairwise_append] at h
      exact h.2.2 m.1 (List.mem_map_of_mem hm) x.1 (by simp)
    simp only [List.foldl_cons]
    rw [insert_eq_append hlt, ih _ (by simpa using h)]
    simp

theorem sort_eq_self {ms : List (String × α)} (h : Sorted ms) : sort ms = ms := by
  simpa [sort] using foldl_insert_eq_append ms [] (by simpa using h)

end Members

namespace Json

theorem normalMembers_iff {ms : List (String × Json)} :
    NormalMembers ms ↔ ∀ m ∈ ms, m.2.Normal := by
  induction ms with
  | nil => simp [NormalMembers]
  | cons m ms ih => obtain ⟨k, v⟩ := m; simp [NormalMembers, ih]

theorem normalMembers_foldl_insert (xs ms : List (String × Json)) (hx : NormalMembers xs)
    (hm : NormalMembers ms) :
    NormalMembers (xs.foldl (fun acc m => Members.insert m.1 m.2 acc) ms) := by
  induction xs generalizing ms with
  | nil => exact hm
  | cons x xs ih =>
    rw [normalMembers_iff] at hx
    refine ih _ (normalMembers_iff.2 fun m h => hx m (by simp [h])) (normalMembers_iff.2 fun m h => ?_)
    rcases Members.mem_insert h with rfl | h
    · exact hx x (by simp)
    · exact normalMembers_iff.1 hm m h

mutual
theorem normal_normalize : (j : Json) → j.normalize.Normal
  | null => by simp [normalize, Normal]
  | bool _ => by simp [normalize, Normal]
  | number _ => by simp [normalize, Normal]
  | string _ => by simp [normalize, Normal]
  | array xs => by simpa [normalize, Normal] using normal_normalizeItems xs
  | object ms => by
    simp only [normalize, Normal]
    exact ⟨Members.sorted_sort _,
      normalMembers_foldl_insert _ _ (normal_normalizeMembers ms) (by simp [NormalMembers])⟩
theorem normal_normalizeItems : (xs : List Json) → NormalItems (normalizeItems xs)
  | [] => by simp [normalizeItems, NormalItems]
  | x :: xs => by
    simpa [normalizeItems, NormalItems] using ⟨normal_normalize x, normal_normalizeItems xs⟩
theorem normal_normalizeMembers :
    (ms : List (String × Json)) → NormalMembers (normalizeMembers ms)
  | [] => by simp [normalizeMembers, NormalMembers]
  | (_, x) :: ms => by
    simpa [normalizeMembers, NormalMembers] using ⟨normal_normalize x, normal_normalizeMembers ms⟩
end

mutual
theorem normalize_eq_self : (j : Json) → j.Normal → j.normalize = j
  | null, _ => rfl
  | bool _, _ => rfl
  | number _, _ => rfl
  | string _, _ => rfl
  | array xs, h => by
    simp only [normalize, normalizeItems_eq_self xs (by simpa [Normal] using h)]
  | object ms, h => by
    simp only [Normal] at h
    simp only [normalize, normalizeMembers_eq_self ms h.2, Members.sort_eq_self h.1]
theorem normalizeItems_eq_self : (xs : List Json) → NormalItems xs → normalizeItems xs = xs
  | [], _ => rfl
  | x :: xs, h => by
    simp only [NormalItems] at h
    simp only [normalizeItems, normalize_eq_self x h.1, normalizeItems_eq_self xs h.2]
theorem normalizeMembers_eq_self :
    (ms : List (String × Json)) → NormalMembers ms → normalizeMembers ms = ms
  | [], _ => rfl
  | (k, x) :: ms, h => by
    simp only [NormalMembers] at h
    simp only [normalizeMembers, normalize_eq_self x h.1, normalizeMembers_eq_self ms h.2]
end

theorem normalize_normalize (j : Json) : j.normalize.normalize = j.normalize :=
  normalize_eq_self _ (normal_normalize j)

mutual
theorem eq_of_compareBy {num : Number → Number → Bool} (hn : ∀ m n, num m n = true → m = n) :
    (a b : Json) → compareBy.tree num a b = true → a = b
  | null, b, h => by cases b <;> simp_all [compareBy.tree]
  | bool _, b, h => by cases b <;> simp_all [compareBy.tree]
  | number m, b, h => by
    cases b <;> simp_all [compareBy.tree]
    exact hn _ _ h
  | string _, b, h => by cases b <;> simp_all [compareBy.tree]
  | array xs, b, h => by
    cases b <;> simp [compareBy.tree] at h ⊢
    exact eq_of_compareBy_items hn xs _ h
  | object ms, b, h => by
    cases b <;> simp [compareBy.tree] at h ⊢
    exact eq_of_compareBy_members hn ms _ h
theorem eq_of_compareBy_items {num : Number → Number → Bool} (hn : ∀ m n, num m n = true → m = n) :
    (as bs : List Json) → compareBy.items num as bs = true → as = bs
  | [], bs, h => by cases bs <;> simp_all [compareBy.items]
  | a :: as, bs, h => by
    cases bs with
    | nil => simp [compareBy.items] at h
    | cons b bs =>
      simp only [compareBy.items, Bool.and_eq_true] at h
      rw [eq_of_compareBy hn a b h.1, eq_of_compareBy_items hn as bs h.2]
theorem eq_of_compareBy_members {num : Number → Number → Bool}
    (hn : ∀ m n, num m n = true → m = n) :
    (as bs : List (String × Json)) → compareBy.members num as bs = true → as = bs
  | [], bs, h => by cases bs <;> simp_all [compareBy.members]
  | (k, a) :: as, bs, h => by
    cases bs with
    | nil => simp [compareBy.members] at h
    | cons b bs =>
      obtain ⟨l, b⟩ := b
      simp only [compareBy.members, Bool.and_eq_true, beq_iff_eq] at h
      rw [h.1.1, eq_of_compareBy hn a b h.1.2, eq_of_compareBy_members hn as bs h.2]
end

mutual
theorem compareBy_self {num : Number → Number → Bool} (hn : ∀ n, num n n = true) :
    (a : Json) → compareBy.tree num a a = true
  | null => rfl
  | bool _ => by simp [compareBy.tree]
  | number m => by simp [compareBy.tree, hn]
  | string _ => by simp [compareBy.tree]
  | array xs => by simpa [compareBy.tree] using compareBy_items_self hn xs
  | object ms => by simpa [compareBy.tree] using compareBy_members_self hn ms
theorem compareBy_items_self {num : Number → Number → Bool} (hn : ∀ n, num n n = true) :
    (as : List Json) → compareBy.items num as as = true
  | [] => rfl
  | a :: as => by simp [compareBy.items, compareBy_self hn a, compareBy_items_self hn as]
theorem compareBy_members_self {num : Number → Number → Bool} (hn : ∀ n, num n n = true) :
    (as : List (String × Json)) → compareBy.members num as as = true
  | [] => rfl
  | (k, a) :: as => by
    simp [compareBy.members, compareBy_self hn a, compareBy_members_self hn as]
end

instance : DecidableEq Json := fun a b =>
  if h : compareBy (· == ·) a b = true then
    isTrue (eq_of_compareBy (fun _ _ h => by simpa using h) a b h)
  else
    isFalse fun e => h (e ▸ compareBy_self (fun n => by simp) a)

end Json

/-- A tree whose objects list their members in key order, without repetitions. -/
structure Value where
  tree : Json
  normal : tree.Normal

namespace Value

theorem ext {v w : Value} (h : v.tree = w.tree) : v = w := by
  cases v; cases w; simp_all

instance : DecidableEq Value := fun v w =>
  if h : v.tree = w.tree then isTrue (ext h) else isFalse fun e => h (e ▸ rfl)

def ofTree (j : Json) : Value := ⟨j.normalize, j.normal_normalize⟩

@[simp] theorem ofTree_tree (v : Value) : ofTree v.tree = v := ext (Json.normalize_eq_self _ v.normal)

@[simp] theorem tree_ofTree (j : Json) : (ofTree j).tree = j.normalize := rfl

def null : Value := ⟨.null, by simp [Json.Normal]⟩

instance : Inhabited Value := ⟨null⟩

def depth (v : Value) : Nat := v.tree.depth

def same (v w : Value) : Bool := v.tree.same w.tree

end Value

end DocQuery
