import DocQuery.Proofs.Url.Server

/-! # Paths put together

The path of a text is the resolution of its pieces, and text behind a slash is resolved on top of what
stands before it. So the segments of a joined path are decided by a place, which the front alone
decides, and the pieces of the back.
-/
namespace DocQuery.Url

open Connection (dropFinalSlash dropFinalSlash_concat)

theorem of_mem_splitOnP {p : Char → Bool} {s q : List Char} (hq : q ∈ s.splitOnP p) {c : Char}
    (hc : c ∈ q) : c ∈ s ∧ p c = false := by
  induction s generalizing q with
  | nil =>
    rw [List.splitOnP_nil, List.mem_singleton] at hq
    rw [hq] at hc
    cases hc
  | cons d s ih =>
    have hlater : q ∈ s.splitOnP p → c ∈ d :: s ∧ p c = false := fun hq =>
      ⟨List.mem_cons_of_mem d (ih hq hc).1, (ih hq hc).2⟩
    rw [List.splitOnP_cons_eq_if_modifyHead] at hq
    split at hq
    · rcases List.mem_cons.1 hq with rfl | hq
      · cases hc
      · exact hlater hq
    · rename_i hd
      obtain ⟨q', qs, hs⟩ := List.exists_cons_of_ne_nil (List.splitOnP_ne_nil p s)
      rw [hs, List.modifyHead_cons] at hq
      rcases List.mem_cons.1 hq with rfl | hq
      · rcases List.mem_cons.1 hc with rfl | hc
        · exact ⟨List.mem_cons_self, eq_false_of_ne_true hd⟩
        · have hrest := ih (hs ▸ List.mem_cons_self) hc
          exact ⟨List.mem_cons_of_mem d hrest.1, hrest.2⟩
      · exact hlater (hs ▸ List.mem_cons_of_mem q' hq)

/-- The last piece is not empty behind a character that cuts nothing. -/
theorem exists_splitOnP_concat {p : Char → Bool} {c : Char} (hc : p c = false) (s : List Char) :
    ∃ qs q, (s ++ [c]).splitOnP p = qs ++ [q] ∧ q ≠ [] := by
  induction s with
  | nil => exact ⟨[], [c], List.splitOnP_eq_singleton (by simpa using hc), List.cons_ne_nil c []⟩
  | cons d s ih =>
    obtain ⟨qs, q, hs, hq⟩ := ih
    rw [List.cons_append, List.splitOnP_cons_eq_if_modifyHead, hs]
    split
    · exact ⟨[] :: qs, q, rfl, hq⟩
    · cases qs with
      | nil => exact ⟨[], d :: q, rfl, List.cons_ne_nil d q⟩
      | cons q' qs => exact ⟨(d :: q') :: qs, q, rfl, hq⟩

/-- The segments after raw ones that slashes end. -/
def closeAll (done ss : List Segment) : List Segment :=
  ss.foldl (fun done s => closeSegment done (encode inPathSet s)) done

theorem resolve_append {ts : List Segment} (h : ts ≠ []) (done ss : List Segment) :
    resolve done (ss ++ ts) = resolve (closeAll done ss) ts := by
  induction ss generalizing done with
  | nil => rfl
  | cons s ss ih =>
    obtain ⟨t, rest, hrest⟩ := List.exists_cons_of_ne_nil (List.append_ne_nil_of_right_ne_nil ss h)
    rw [List.cons_append, hrest, resolve, ← hrest, ih]
    · rfl
    · exact fun hnil => nomatch hnil

/-- Segments without an empty last one: the place below which others are put. -/
def stem (ss : List Segment) : List Segment := if ss.getLast? = some [] then ss.dropLast else ss

theorem stem_concat (ss : List Segment) (s : Segment) :
    stem (ss ++ [s]) = if s = [] then ss else ss ++ [s] := by
  simp [stem]

theorem Move.eq_of_into {s t : Segment} (h : Move.of s = .into t) : t = s := by
  unfold Move.of at h
  split at h
  · cases h
  · split at h
    · cases h
    · cases h
      rfl

/-- A last segment leaves the place that it would leave with a slash behind it. -/
theorem stem_lastSegment (done : List Segment) {s : Segment} (hs : s ≠ []) :
    stem (lastSegment done s) = closeSegment done s := by
  unfold lastSegment closeSegment
  cases hm : Move.of s with
  | here => simp [stem_concat]
  | up => simp [stem_concat]
  | into t =>
    obtain rfl := Move.eq_of_into hm
    simp [stem_concat, hs]

theorem lastSegment_nil (done : List Segment) : lastSegment done [] = done ++ [[]] := rfl

theorem encodeChar_ne_nil (set : Char → Bool) (c : Char) : encodeChar set c ≠ [] := by
  unfold encodeChar
  split
  · obtain ⟨b, bs, h⟩ := List.exists_cons_of_ne_nil (String.utf8EncodeChar_ne_nil (c := c))
    simp [h, encodeByte]
  · exact List.cons_ne_nil c []

theorem encode_eq_nil {set : Char → Bool} {s : List Char} : encode set s = [] ↔ s = [] := by
  cases s with
  | nil => simp [encode]
  | cons c s => simp [encode, encodeChar_ne_nil]

theorem stem_resolve {ss : List Segment} (h : ss ≠ []) (done : List Segment) :
    stem (resolve done ss) = closeAll done (stem ss) := by
  obtain ⟨front, s, rfl⟩ := (List.eq_nil_or_concat' ss).resolve_left h
  rw [resolve_append (List.cons_ne_nil s []), stem_concat]
  by_cases hs : s = []
  · subst hs
    rw [if_pos rfl, resolve, show encode inPathSet [] = [] from rfl, lastSegment_nil, stem_concat,
      if_pos rfl]
  · rw [if_neg hs, resolve, stem_lastSegment _ (mt encode_eq_nil.1 hs), closeAll, closeAll,
      List.foldl_append]
    rfl

/-- The place that the text of a path leads to if a slash follows it. -/
def place : List Char → List Segment
  | [] => []
  | _ :: r => closeAll [] (rawSegments true r)

theorem specialPath_append_slash {s : List Char} (hs : ∀ c ∈ s.head?, isSlash true c = true)
    (t : List Char) : specialPath (s ++ '/' :: t) = resolve (place s) (rawSegments true t) := by
  have hslash : isSlash true '/' = true := by decide
  have hpieces : rawSegments true t ≠ [] := List.splitOnP_ne_nil _ t
  cases s with
  | nil => rfl
  | cons c r =>
    have hc : isSlash true c = true := hs c rfl
    have hraw : rawSegments true (r ++ '/' :: t) = rawSegments true r ++ rawSegments true t :=
      List.splitOnP_append_cons r t hslash
    rw [List.cons_append, specialPath, if_pos hc, segmentsOf, hraw, resolve_append hpieces]
    rfl

/-- Without a slash at its end a path leads to the place of its segments. -/
theorem place_dropFinalSlash {s : List Char} (hs : ∀ c ∈ s.head?, isSlash true c = true)
    (hlast : s.getLast? ≠ some '\\') : place (dropFinalSlash s) = stem (specialPath s) := by
  cases s with
  | nil => rfl
  | cons c r =>
    have hc : isSlash true c = true := hs c rfl
    have hpath : stem (specialPath (c :: r)) = closeAll [] (stem (rawSegments true r)) := by
      rw [specialPath, if_pos hc]
      exact stem_resolve (List.splitOnP_ne_nil _ r) []
    rw [hpath]
    cases r using List.reverseRecOn with
    | nil =>
      obtain rfl : c = '/' := by
        have hback : c ≠ '\\' := fun h => hlast (by rw [h]; rfl)
        simpa [isSlash, hback] using hc
      rfl
    | append_singleton r d =>
      rw [← List.cons_append, dropFinalSlash_concat]
      by_cases hd : d = '/'
      · have hraw : rawSegments true (r ++ [d]) = rawSegments true r ++ [[]] :=
          List.splitOnP_append_cons r [] (by rw [hd]; rfl)
        rw [if_pos hd, hraw, stem_concat, if_pos rfl, place]
      · have hback : d ≠ '\\' := by
          rintro rfl
          exact hlast (by rw [← List.cons_append, List.getLast?_concat])
        obtain ⟨qs, q, hraw, hq⟩ :=
          exists_splitOnP_concat (p := isSlash true) (c := d) (by simp [isSlash, hd, hback]) r
        have hraw' : rawSegments true (r ++ [d]) = qs ++ [q] := hraw
        rw [if_neg hd, hraw', stem_concat, if_neg hq, ← hraw', List.cons_append, place]

end DocQuery.Url
