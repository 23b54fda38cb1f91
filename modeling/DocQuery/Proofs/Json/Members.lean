import Mathlib.Data.List.Basic
import Mathlib.Data.List.Nodup
import Mathlib.Data.List.Pairwise
import DocQuery.Json.Decode.Tree
import DocQuery.Proofs.Json.Distinct

/-! # Members of an object without repetitions

An object that repeats no key is known by what it holds under each key. A decoder whose steps for
different keys commute, and that passes over unknown keys, sees the members of the known keys alone,
in whatever order they are written: `foldMembers_pick`.
-/
namespace DocQuery

namespace Members
variable {α β : Type} {ms ms' : List (String × α)}

theorem find?_mapKey (g : String → α → β) (key : String) (ms : List (String × α)) :
    find? key (ms.map fun m => (m.1, g m.1 m.2)) = (find? key ms).map (g key) := by
  induction ms with
  | nil => rfl
  | cons m ms ih =>
    by_cases h : m.1 = key
    · simp [find?, h]
    · simp [find?, h, ih]

theorem find?_map (g : α → β) (key : String) (ms : List (String × α)) :
    find? key (ms.map fun m => (m.1, g m.2)) = (find? key ms).map g :=
  find?_mapKey (fun _ => g) key ms

theorem mem_of_find? {key : String} {a : α} {ms : List (String × α)} (h : find? key ms = some a) :
    (key, a) ∈ ms := by
  induction ms with
  | nil => cases h
  | cons m ms ih =>
    obtain ⟨k, v⟩ := m
    by_cases hk : k = key
    · simp only [find?, hk, if_true, Option.some.injEq] at h
      simp [hk, h]
    · exact List.mem_cons_of_mem _ (ih (by simpa [find?, hk] using h))

theorem find?_of_mem (hn : (ms.map (·.1)).Nodup) {key : String} {a : α} (h : (key, a) ∈ ms) :
    find? key ms = some a := by
  induction ms with
  | nil => cases h
  | cons m ms ih =>
    obtain ⟨k, v⟩ := m
    obtain ⟨hk, hms⟩ := List.nodup_cons.1 hn
    rcases List.mem_cons.1 h with heq | h
    · cases heq
      simp [find?]
    · have hne : k ≠ key := by
        rintro rfl
        exact hk (List.mem_map.2 ⟨(k, a), h, rfl⟩)
      simpa [find?, hne] using ih hms h

theorem find?_eq_some_iff (hn : (ms.map (·.1)).Nodup) {key : String} {a : α} :
    find? key ms = some a ↔ (key, a) ∈ ms :=
  ⟨mem_of_find?, find?_of_mem hn⟩

theorem find?_perm (hn : (ms.map (·.1)).Nodup) (hp : ms.Perm ms') (key : String) :
    find? key ms = find? key ms' := by
  have hn' : (ms'.map (·.1)).Nodup := (hp.map (·.1)).nodup_iff.1 hn
  apply Option.ext
  intro a
  rw [find?_eq_some_iff hn, find?_eq_some_iff hn', hp.mem_iff]

/-- The members of the given keys, in the order of those. -/
def pick (keys : List String) (ms : List (String × α)) : List (String × α) :=
  keys.filterMap fun k => (find? k ms).map fun v => (k, v)

theorem mem_pick {keys : List String} {m : String × α} :
    m ∈ pick keys ms ↔ m.1 ∈ keys ∧ find? m.1 ms = some m.2 := by
  obtain ⟨k, v⟩ := m
  simp only [pick, List.mem_filterMap, Option.map_eq_some_iff, Prod.mk.injEq]
  constructor
  · rintro ⟨k', hk', v', hv', rfl, rfl⟩
    exact ⟨hk', hv'⟩
  · rintro ⟨hk, hv⟩
    exact ⟨k, hk, v, hv, rfl, rfl⟩

theorem find?_pick (keys : List String) (key : String) :
    find? key (pick keys ms) = if key ∈ keys then find? key ms else none := by
  induction keys with
  | nil => rfl
  | cons k keys ih =>
    have hstep : pick (k :: keys) ms = ((find? k ms).map fun v => (k, v)).toList ++ pick keys ms := by
      cases hk : find? k ms <;> simp [pick, hk]
    rw [hstep]
    by_cases heq : k = key
    · subst heq
      cases hk : find? k ms with
      | none => simp [ih, hk]
      | some v => simp [find?]
    · cases find? k ms with
      | none => simp [ih, Ne.symm heq]
      | some v => simp [find?, heq, ih, Ne.symm heq]

theorem map_fst_pick_sublist (keys : List String) (ms : List (String × α)) :
    ((pick keys ms).map (·.1)).Sublist keys := by
  induction keys with
  | nil => exact .slnil
  | cons k keys ih =>
    cases hk : find? k ms with
    | none => simpa [pick, hk] using ih.cons k
    | some v => simpa [pick, hk] using ih.cons_cons k

theorem nodup_pick {keys : List String} (h : keys.Nodup) : ((pick keys ms).map (·.1)).Nodup :=
  h.sublist (map_fst_pick_sublist keys ms)

theorem pick_perm {keys : List String} (h : keys.Nodup) (hn : (ms.map (·.1)).Nodup) :
    ms.Perm (pick keys ms ++ ms.filter fun m => !keys.contains m.1) := by
  have hkeys : ((pick keys ms ++ ms.filter fun m => !keys.contains m.1).map (·.1)).Nodup := by
    rw [List.map_append, List.nodup_append]
    refine ⟨nodup_pick h, hn.sublist (List.filter_sublist.map _), ?_⟩
    rintro k hk k' hk' rfl
    obtain ⟨m, hm, rfl⟩ := List.mem_map.1 hk
    obtain ⟨m', hm', heq⟩ := List.mem_map.1 hk'
    have hnot := (List.mem_filter.1 hm').2
    rw [heq] at hnot
    simp [(mem_pick.1 hm).1] at hnot
  rw [List.perm_ext_iff_of_nodup (hn.of_map _) (hkeys.of_map _)]
  intro m
  rw [List.mem_append, mem_pick, find?_eq_some_iff hn, List.mem_filter]
  by_cases hk : m.1 ∈ keys <;> simp [hk]

end Members

namespace Json
variable {σ : Type} {step step' : σ → String → Json → Except Cause σ}

/-- The member of a key, of an object. -/
def member? (key : String) : Json → Option Json
  | .object ms => Members.find? key ms
  | _ => none

theorem toOption_foldMembers (st : σ) (ms : List (String × Json)) :
    (foldMembers step st ms).toOption =
      ms.foldl (fun o m => o.bind fun st => (step st m.1 m.2).toOption) (some st) := by
  have hnone : ∀ ms : List (String × Json),
      ms.foldl (fun o m => o.bind fun st => (step st m.1 m.2).toOption) none = none := by
    intro ms
    induction ms with
    | nil => rfl
    | cons m ms ih => simpa using ih
  induction ms generalizing st with
  | nil => rfl
  | cons m ms ih =>
    obtain ⟨k, v⟩ := m
    cases hstep : step st k v with
    | error c =>
      simp only [foldMembers, hstep, List.foldl_cons, Option.bind_some]
      exact (hnone ms).symm
    | ok st' =>
      have hrest := ih st'
      simpa [foldMembers, hstep, Except.toOption] using hrest

theorem foldMembers_cons (st : σ) (k : String) (j : Json) (ms : List (String × Json)) :
    foldMembers step st ((k, j) :: ms) = (step st k j).bind fun st => foldMembers step st ms := by
  simp only [foldMembers]
  cases step st k j <;> rfl

theorem foldMembers_append (st : σ) (ms ms' : List (String × Json)) :
    foldMembers step st (ms ++ ms') =
      (foldMembers step st ms).bind fun st => foldMembers step st ms' := by
  induction ms generalizing st with
  | nil => rfl
  | cons m ms ih =>
    obtain ⟨k, v⟩ := m
    rw [List.cons_append, foldMembers_cons, foldMembers_cons]
    cases step st k v with
    | error c => rfl
    | ok st' => exact ih st'

theorem foldMembers_ignored {ms : List (String × Json)}
    (h : ∀ m ∈ ms, ∀ st, step st m.1 m.2 = .ok st) (st : σ) : foldMembers step st ms = .ok st := by
  induction ms with
  | nil => rfl
  | cons m ms ih =>
    obtain ⟨k, v⟩ := m
    have hstep : step st k v = .ok st := h (k, v) List.mem_cons_self st
    rw [foldMembers_cons, hstep]
    exact ih fun m hm => h m (List.mem_cons_of_mem _ hm)

theorem foldMembers_congr {ms : List (String × Json)} (g : Json → Json)
    (h : ∀ m ∈ ms, ∀ st, (step' st m.1 (g m.2)).toOption = (step st m.1 m.2).toOption) (st : σ) :
    (foldMembers step' st (ms.map fun m => (m.1, g m.2))).toOption =
      (foldMembers step st ms).toOption := by
  simp only [toOption_foldMembers, List.foldl_map]
  generalize some st = o
  induction ms generalizing o with
  | nil => rfl
  | cons m ms ih =>
    have hstep : (o.bind fun st => (step' st m.1 (g m.2)).toOption) =
        o.bind fun st => (step st m.1 m.2).toOption := by
      cases o with
      | none => rfl
      | some st => exact h m List.mem_cons_self st
    rw [List.foldl_cons, List.foldl_cons, hstep]
    exact ih (fun m hm => h m (List.mem_cons_of_mem _ hm)) _

/-- Two members may be taken in either order. -/
def Commute (step : σ → String → Json → Except Cause σ) (m m' : String × Json) : Prop :=
  ∀ st, ((step st m.1 m.2).bind fun st => step st m'.1 m'.2).toOption =
    ((step st m'.1 m'.2).bind fun st => step st m.1 m.2).toOption

theorem toOption_bind {ε α β : Type} (x : Except ε α) (g : α → Except ε β) :
    (x.bind g).toOption = x.toOption.bind fun a => (g a).toOption := by
  cases x <;> rfl

theorem toOption_map {ε α β : Type} (x : Except ε α) (g : α → β) :
    (x.map g).toOption = x.toOption.map g := by
  cases x <;> rfl

theorem commute_fields {α β : Type} {k k' : String} {j j' : Json} (get : σ → Option α)
    (set : σ → α → σ) (get' : σ → Option β) (set' : σ → β → σ) {x : Except Cause α}
    {y : Except Cause β}
    (hx : ∀ st, step st k j =
      if (get st).isSome then .error (.duplicateField k) else x.map (set st))
    (hy : ∀ st, step st k' j' =
      if (get' st).isSome then .error (.duplicateField k') else y.map (set' st))
    (hget : ∀ st b, get (set' st b) = get st) (hget' : ∀ st a, get' (set st a) = get' st)
    (hset : ∀ st a b, set' (set st a) b = set (set' st b) a) : Commute step (k, j) (k', j') := by
  intro st
  simp only [hx, hy]
  cases hs : (get st).isSome <;> cases hs' : (get' st).isSome <;> cases x <;> cases y <;>
    simp [Except.bind, Except.map, Except.toOption, hget, hget', hset, hs, hs']

theorem foldMembers_perm {ms ms' : List (String × Json)} (hn : (ms.map (·.1)).Nodup)
    (hc : ∀ m ∈ ms, ∀ m' ∈ ms, m.1 ≠ m'.1 → Commute step m m') (hp : ms.Perm ms') (st : σ) :
    (foldMembers step st ms).toOption = (foldMembers step st ms').toOption := by
  rw [toOption_foldMembers, toOption_foldMembers]
  refine hp.foldl_eq' (fun m hm m' hm' o => ?_) (some st)
  by_cases heq : m.1 = m'.1
  · -- Keys do not repeat, so the two are one member.
    have hv : m.2 = m'.2 := by
      have hfind := Members.find?_of_mem hn hm
      rw [heq, Members.find?_of_mem hn hm'] at hfind
      exact (Option.some.inj hfind).symm
    rw [Prod.ext heq hv]
  · cases o with
    | none => rfl
    | some st =>
      have hswap := hc m hm m' hm' heq st
      rw [toOption_bind, toOption_bind] at hswap
      exact hswap

variable {keys : List String} {ms : List (String × Json)}

/-- Members of known keys commute if they do pairwise; others commute with all. -/
theorem commute_of_keys (hother : ∀ st k j, k ∉ keys → step st k j = .ok st)
    (hkeys : keys.Pairwise fun k k' => ∀ j j', (k, j) ∈ ms → (k', j') ∈ ms →
      Commute step (k, j) (k', j')) :
    ∀ m ∈ ms, ∀ m' ∈ ms, m.1 ≠ m'.1 → Commute step m m' := by
  have hignored : ∀ m m' : String × Json, m.1 ∉ keys → Commute step m m' := by
    intro m m' hm st
    rw [hother st m.1 m.2 hm]
    cases hs : step st m'.1 m'.2 with
    | error c => simp [Except.bind, hs]
    | ok st' => simp [Except.bind, hs, hother st' m.1 m.2 hm]
  intro m hm m' hm' hne
  by_cases hk : m.1 ∈ keys
  · by_cases hk' : m'.1 ∈ keys
    · have hsymm : Std.Symm fun k k' => ∀ j j', (k, j) ∈ ms → (k', j') ∈ ms →
          Commute step (k, j) (k', j') :=
        ⟨fun k k' h j j' hj hj' st => (h j' j hj' hj st).symm⟩
      exact hkeys.forall hk hk' hne m.2 m'.2 hm hm'
    · intro st
      exact (hignored m' m hk' st).symm
  · exact hignored m m' hk

/-- A decoder of the known keys sees no others, and no order. -/
theorem foldMembers_pick (hn : (ms.map (·.1)).Nodup) (hnodup : keys.Nodup)
    (hother : ∀ st k j, k ∉ keys → step st k j = .ok st)
    (hkeys : keys.Pairwise fun k k' => ∀ j j', (k, j) ∈ ms → (k', j') ∈ ms →
      Commute step (k, j) (k', j')) (st : σ) :
    (foldMembers step st ms).toOption = (foldMembers step st (Members.pick keys ms)).toOption := by
  have hp := Members.pick_perm hnodup hn
  rw [foldMembers_perm hn (commute_of_keys hother hkeys) hp, foldMembers_append]
  have hrest : ∀ st, foldMembers step st (ms.filter fun m => !keys.contains m.1) = .ok st := by
    refine foldMembers_ignored fun m hm st => hother st m.1 m.2 ?_
    simpa using (List.mem_filter.1 hm).2
  simp only [hrest]
  cases foldMembers step st (Members.pick keys ms) <;> rfl

theorem normalizeMembers_eq_map (ms : List (String × Json)) :
    normalizeMembers ms = ms.map fun m => (m.1, m.2.normalize) := by
  induction ms with
  | nil => rfl
  | cons m ms ih => obtain ⟨k, v⟩ := m; simp [normalizeMembers, ih]

theorem normalizeItems_eq_map (xs : List Json) : normalizeItems xs = xs.map normalize := by
  induction xs with
  | nil => rfl
  | cons x xs ih => simp [normalizeItems, ih]

theorem find?_normalized (hn : (ms.map (·.1)).Nodup) (key : String) :
    Members.find? key (Members.sort (normalizeMembers ms)) =
      (Members.find? key ms).map normalize := by
  have hn' : ((normalizeMembers ms).map (·.1)).Nodup := by rwa [map_fst_normalizeMembers]
  rw [← Members.find?_perm hn' (sort_normalizeMembers_perm hn).symm, normalizeMembers_eq_map,
    Members.find?_map]

theorem member?_normalize {j : Json} (hd : j.Distinct) (key : String) :
    j.normalize.member? key = (j.member? key).map normalize := by
  cases j with
  | object ms => exact find?_normalized hd.1 key
  | _ => rfl

theorem pick_normalized (hn : (ms.map (·.1)).Nodup) (keys : List String) :
    Members.pick keys (Members.sort (normalizeMembers ms)) =
      (Members.pick keys ms).map fun m => (m.1, m.2.normalize) := by
  simp only [Members.pick, find?_normalized hn, List.map_filterMap]
  apply List.filterMap_congr
  intro k _
  cases Members.find? k ms <;> rfl

end Json

end DocQuery
