import DocQuery.Json.Decode.Text
import DocQuery.Proofs.Json.Skip

/-! # Reading a text and decoding its tree

A reader mirrors a decoder of trees if on every text that holds a tree it makes what the decoder
makes of that tree, and ends where the tree ends; where one of the two fails, both do. The decoders of
the primitive shapes are mirrored, and lists and structures are if their parts are.
-/
namespace DocQuery.Json
variable {α β σ : Type}

/-- What a reader and a decoder made of one tree; `r` is the text behind it. -/
inductive Agree (r : List Char) : Except Fault (α × List Char) → Except Cause α → Prop where
  | ok (a : α) : Agree r (.ok (a, r)) (.ok a)
  | error (f : Fault) (c : Cause) : Agree r (.error f) (.error c)

/-- On every tree of at most `n` levels. -/
def Mirrors (n : Nat) (read : Reader α) (decode : Json → Except Cause α) : Prop :=
  ∀ s j r, readTree n s = .ok (j, r) → Agree r (read s) (decode j)

/-- The same of a step over the members of an object. -/
def StepMirrors (n : Nat) (step : σ → String → Reader σ)
    (fold : σ → String → Json → Except Cause σ) : Prop :=
  ∀ st k s w j r, readColon s = .ok w → readTree n w = .ok (j, r) →
    Agree r (step st k s) (fold st k j)

namespace Agree
variable {r u : List Char} {x : Except Fault (α × List Char)} {y : Except Cause α}

theorem map (h : Agree r x y) (g : α → β) : Agree r (mapRead g x) (y.map g) := by
  cases h with
  | ok a => exact .ok (g a)
  | error f c => exact .error f c

theorem judge (h : Agree r x y) (g : α → Except Cause β) : Agree r (Json.judge g x) (y.bind g) := by
  cases h with
  | ok a =>
    cases hg : g a with
    | ok b => simpa [Json.judge, Except.bind, hg] using Agree.ok b
    | error c => simpa [Json.judge, Except.bind, hg] using Agree.error (.pending r c) c
  | error f c => exact .error f c

theorem closeBy {past : List Char → List Char} {close : List Char → Except Fault (List Char)}
    (h : Agree u x y) (hend : close u = .ok r) : Agree r (Json.closeBy past close x) y := by
  cases h with
  | ok a => simpa [Json.closeBy, hend] using Agree.ok a
  | error f c => exact .error _ c

theorem mistyped (f : Fault) (expected : String) (j : Json) :
    Agree r (.error f : Except Fault (α × List Char)) (mistypedTree expected j) :=
  .error f _

theorem readAll {read : Reader α} {s : List Char} {j : Json} {n : Nat}
    (hread : Json.readAll (readTree n) s = .ok j) {decode : Json → Except Cause α}
    (h : Mirrors n read decode) :
    (Json.readAll read s).toOption = (decode j).toOption := by
  unfold Json.readAll at hread ⊢
  cases htree : readTree n s with
  | error f => simp [htree] at hread
  | ok x =>
    obtain ⟨j', r⟩ := x
    simp only [htree] at hread
    split at hread
    · rename_i hr
      cases hread
      have hagree := h s j r htree
      revert hagree
      generalize read s = x
      generalize decode j = y
      intro hagree
      cases hagree with
      | ok a => simp [hr, Except.toOption]
      | error f c => rfl
    · cases hread

end Agree

theorem stringOfText_mirrors (n : Nat) : Mirrors n stringOfText stringOfTree := by
  intro s j r h
  have hread := readAs_of_readTree h
  unfold stringOfText
  generalize skipBlanks s = t at hread ⊢
  cases hread with
  | @number _ c t r x hc hx =>
    have hquote : c ≠ '"' := digit_ne hc rfl
    simpa [hquote, stringOfTree] using Agree.mistyped _ _ _
  | string hx => simpa [hx, stringOfTree] using Agree.ok _
  | _ => exact .error _ _

theorem nameOfText_mirrors (find : String → Option α) (known : List String) (n : Nat) :
    Mirrors n (nameOfText find known) (nameOfTree find known) := by
  intro s j r h
  have hread := readAs_of_readTree h
  unfold nameOfText
  generalize skipBlanks s = t at hread ⊢
  cases hread with
  | @number _ c t r x hc hx =>
    have hquote : c ≠ '"' := digit_ne hc rfl
    simpa [hquote, nameOfTree] using Agree.mistyped _ _ _
  | @string _ _ _ name hx =>
    simp only [hx, nameOfTree]
    cases hname : variant find known name with
    | ok a => exact .ok a
    | error c => exact .error _ c
  | _ => exact .error _ _

theorem unitOfText_mirrors (n : Nat) : Mirrors n unitOfText (unitOfTree .direct) := by
  intro s j r h
  have hread := readAs_of_readTree h
  unfold unitOfText
  generalize skipBlanks s = t at hread ⊢
  cases hread with
  | null hname => simpa [hname, unitOfTree] using Agree.ok _
  | @number _ c t r x hc hx =>
    have hn : c ≠ 'n' := digit_ne hc rfl
    simpa [hn, unitOfTree] using Agree.mistyped _ _ _
  | @object _ _ _ _ ms hmembers hend => cases ms <;> exact .error _ _
  | _ => exact .error _ _

theorem unitOfAnyText_mirrors {decode : Json → Except Cause α} {a : α} (hnull : decode .null = .ok a)
    (hother : ∀ j, j ≠ .null → ∃ c, decode j = .error c) (expected : String) (n : Nat) :
    Mirrors n (fun s => mapRead (fun _ => a) (unitOfAnyText expected n s)) decode := by
  intro s j r h
  have hread := readAs_of_readTree h
  have hfail : ∀ {f : Fault} {j : Json}, j ≠ .null →
      Agree r (mapRead (fun _ => a) (.error f : Except Fault (Unit × List Char))) (decode j) := by
    intro f j hj
    obtain ⟨c, hc⟩ := hother j hj
    rw [hc]
    exact .error f c
  change Agree r (mapRead (fun _ => a) (unitOfAnyText expected n s)) (decode j)
  unfold unitOfAnyText
  generalize skipBlanks s = t at hread ⊢
  cases hread with
  | null hname => simpa [hname, hnull, mapRead] using Agree.ok a
  | @number _ c t r x hc hx =>
    have hn : c ≠ 'n' := digit_ne hc rfl
    simpa [hn] using hfail (by simp)
  | _ => exact hfail (by simp)

theorem items_agree {item : Reader α} {decode : Json → Except Cause α} {n fuel : Nat} {first : Bool}
    {s u : List Char} {xs : List Json} (hitem : Mirrors n item decode)
    (h : items (readTree n) fuel first s = .ok (xs, u)) :
    Agree u (items item fuel first s) (listOfTrees decode xs) := by
  induction fuel generalizing first s xs with
  | zero => cases h
  | succ fuel ih =>
    rcases items_eq_ok h with ⟨rfl, hnext⟩ | ⟨fuel', j, xs', t, r, hfuel, rfl, hnext, hj, hrest⟩
    · simpa [items, hnext, listOfTrees] using Agree.ok []
    · cases hfuel
      have hhead := hitem t j r hj
      have htail := ih hrest
      simp only [items, hnext, listOfTrees]
      generalize item t = x at hhead ⊢
      generalize decode j = y at hhead ⊢
      cases hhead with
      | error f c => exact .error f c
      | ok a =>
        simp only
        generalize items item fuel false r = x at htail ⊢
        generalize listOfTrees decode xs' = y at htail ⊢
        cases htail with
        | error f c => exact .error f c
        | ok as => exact .ok (a :: as)

theorem members_append {read : Reader Json} {fuel : Nat} {first : Bool} {s u : List Char}
    {acc out : List (String × Json)}
    (h : members (readMember read) fuel first acc s = .ok (out, u)) : ∃ ms, out = acc ++ ms := by
  induction fuel generalizing first s acc with
  | zero => cases h
  | succ fuel ih =>
    rcases members_eq_ok h with ⟨rfl, -⟩ | ⟨fuel', k, t, w, j, r, hfuel, -, -, -, hrest⟩
    · exact ⟨[], by simp⟩
    · cases hfuel
      obtain ⟨ms, rfl⟩ := ih hrest
      exact ⟨(k, j) :: ms, by simp⟩

/-- Members are read behind those that have been read. -/
theorem members_agree {step : σ → String → Reader σ} {fold : σ → String → Json → Except Cause σ}
    {n fuel : Nat} {first : Bool} {s u : List Char} {acc out : List (String × Json)}
    (hstep : StepMirrors n step fold)
    (h : members (readMember (readTree n)) fuel first acc s = .ok (out, u)) :
    ∃ ms, out = acc ++ ms ∧ ∀ st, Agree u (members step fuel first st s) (foldMembers fold st ms) := by
  induction fuel generalizing first s acc with
  | zero => cases h
  | succ fuel ih =>
    rcases members_eq_ok h with ⟨rfl, hnext⟩ | ⟨fuel', k, t, w, j, r, hfuel, hnext, hcolon, hj, hrest⟩
    · refine ⟨[], by simp, fun st => ?_⟩
      simpa [members, hnext, foldMembers] using Agree.ok st
    · cases hfuel
      obtain ⟨ms, rfl, htail⟩ := ih hrest
      refine ⟨(k, j) :: ms, by simp, fun st => ?_⟩
      have hhead := hstep st k t w j r hcolon hj
      simp only [members, hnext, foldMembers]
      generalize step st k t = x at hhead ⊢
      generalize fold st k j = y at hhead ⊢
      cases hhead with
      | error f c => exact .error f c
      | ok st' => exact htail st'

theorem listOfText_mirrors {item : Nat → Reader α} {decode : Json → Except Cause α}
    (hitem : ∀ n, Mirrors n (item n) decode) (n : Nat) :
    Mirrors n (listOfText item n) (listOfTree decode) := by
  intro s j r h
  have hread := readAs_of_readTree h
  unfold listOfText
  generalize skipBlanks s = t at hread ⊢
  cases hread with
  | @number _ c t r x hc hx =>
    have hopen : c ≠ '[' := digit_ne hc rfl
    simpa [hopen, listOfTree] using Agree.mistyped _ _ _
  | @array m _ _ _ xs hitems hend => exact (items_agree (hitem m) hitems).closeBy hend
  | _ => exact .error _ _

theorem readField_agree {value : Reader α} {decode : Json → Except Cause α} {n : Nat}
    {s w r : List Char} {j : Json} (h : Mirrors n value decode) (hcolon : readColon s = .ok w)
    (hj : readTree n w = .ok (j, r)) : Agree r (readField value s) (decode j) := by
  simpa [readField, hcolon] using h w j r hj

theorem skipField_agree {n : Nat} {s w r : List Char} {j : Json} (st : σ)
    (hcolon : readColon s = .ok w) (hj : readTree n w = .ok (j, r)) :
    Agree r (skipField st s) (.ok st) := by
  simpa [skipField, hcolon, skipValue_of_readTree hj] using Agree.ok st

theorem readTree_mirrors (n : Nat) : Mirrors n (readTree n) .ok := by
  intro s j r h
  rw [h]
  exact .ok j

section
variable {find : String → Option α} {known : List String} {n : Nat}
variable {s t q t₁ w : List Char} {k : String}

theorem variantOfText_unknown {c : Cause} (hs : skipBlanks s = '\x7b' :: t)
    (ht : skipBlanks t = '"' :: q) (hq : readString q = .ok (k, t₁))
    (hk : variant find known k = .error c) :
    variantOfText find known (n + 1) s = .error (.here t₁ c) := by
  have hquote : skipBlanks ('"' :: q) = '"' :: q := by rw [← ht, skipBlanks_idem]
  have hname : nameOfKey find known t = .error (.here t₁ c) := by
    simp [nameOfKey, ht, nameOfText, hquote, hq, hk]
  simp [variantOfText, hs, hname]

theorem variantOfText_known {a : α} (hs : skipBlanks s = '\x7b' :: t)
    (ht : skipBlanks t = '"' :: q) (hq : readString q = .ok (k, t₁))
    (hk : variant find known k = .ok a) (hw : readColon t₁ = .ok w) :
    variantOfText find known (n + 1) s =
      (unitOfText w).bind fun x => (readObjectEnd x.2).map fun r => (a, r) := by
  have hquote : skipBlanks ('"' :: q) = '"' :: q := by rw [← ht, skipBlanks_idem]
  have hname : nameOfKey find known t = .ok (a, t₁) := by
    simp [nameOfKey, ht, nameOfText, hquote, hq, hk]
  cases hunit : unitOfText w with
  | error f => simp [variantOfText, hs, hname, hw, hunit, Except.bind]
  | ok x =>
    cases hr : readObjectEnd x.2 <;>
      simp [variantOfText, hs, hname, hw, hunit, hr, Except.bind, Except.map]

end

theorem variantOfText_object_agree (find : String → Option α) (known : List String) {n : Nat}
    {s t u r : List Char} {ms : List (String × Json)} (hs : skipBlanks s = '\x7b' :: t)
    (h : members (readMember (readTree n)) (t.length + 1) true [] t = .ok (ms, u))
    (hend : endObject u = .ok r) :
    Agree r (variantOfText find known (n + 1) s) (variantOfTree find known .direct (.object ms)) := by
  rcases members_eq_ok h with ⟨rfl, hnext⟩ | ⟨fuel, k, t₁, w, j, v, -, hnext, hcolon, hj, hrest⟩
  · obtain ⟨c, t', hst, ⟨-, rfl, -⟩ | ⟨-, key, q, hkey, -⟩⟩ := nextKey_eq_ok hnext
    · simpa [variantOfText, nameOfKey, hs, hst, variantOfTree] using Agree.error _ _
    · cases hkey
  · obtain ⟨c, t', hst, ⟨hkey, -⟩ | ⟨-, k', q, hkey, hq, ⟨-, heq⟩ | ⟨hfirst, -⟩⟩⟩ := nextKey_eq_ok hnext
    · cases hkey
    · cases hkey
      cases heq
      have hunit := unitOfText_mirrors n w j v hj
      rcases members_eq_ok hrest with
        ⟨rfl, hlast⟩ | ⟨fuel', k₂, t₂, w₂, j₂, v₂, -, hlast, -, -, hmore⟩
      · -- One member: its value has to be a unit.
        obtain ⟨c, v', hsv, ⟨-, rfl, rfl⟩ | ⟨-, key, q, hkey, -⟩⟩ := nextKey_eq_ok hlast
        · have hclose : readObjectEnd v = .ok r := by
            have hidem := skipBlanks_idem v
            rw [hsv] at hidem
            simpa [readObjectEnd, endObject, hsv, hidem] using hend
          simp only [variantOfTree, List.nil_append]
          cases hname : variant find known k with
          | error c =>
            rw [variantOfText_unknown hs hst hq hname]
            exact .error _ c
          | ok a =>
            rw [variantOfText_known hs hst hq hname hcolon]
            generalize unitOfText w = x at hunit ⊢
            generalize unitOfTree .direct j = y at hunit ⊢
            cases hunit with
            | error f c => exact .error f c
            | ok _ => simpa [hclose, Except.bind, Except.map] using Agree.ok a
        · cases hkey
      · -- More members: the object does not end behind the first.
        obtain ⟨ms', rfl⟩ := members_append hmore
        obtain ⟨c, v', hsv, ⟨hkey, -⟩ | ⟨hc, key, q, -, -, ⟨hfirst, -⟩ | ⟨-, rfl, -⟩⟩⟩ :=
          nextKey_eq_ok hlast
        · cases hkey
        · cases hfirst
        · obtain ⟨f, hclose⟩ : ∃ f, readObjectEnd v = .error f := ⟨_, by simp [readObjectEnd, hsv]; rfl⟩
          simp only [variantOfTree, List.nil_append, List.cons_append]
          cases hname : variant find known k with
          | error c =>
            rw [variantOfText_unknown hs hst hq hname]
            exact .error _ _
          | ok a =>
            rw [variantOfText_known hs hst hq hname hcolon]
            generalize unitOfText w = x at hunit ⊢
            generalize unitOfTree .direct j = y at hunit
            cases hunit with
            | error f' c' => exact .error f' _
            | ok _ => simpa [hclose, Except.bind, Except.map] using Agree.error f _
    · cases hfirst

theorem variantOfText_mirrors (find : String → Option α) (known : List String) (n : Nat) :
    Mirrors n (variantOfText find known n) (variantOfTree find known .direct) := by
  intro s j r h
  have hread := readAs_of_readTree h
  have hidem := skipBlanks_idem s
  generalize hs : skipBlanks s = t at hread hidem
  cases hread with
  | @number _ c t r x hc hx =>
    have hquote : c ≠ '"' := digit_ne hc rfl
    have hbrace : c ≠ '\x7b' := digit_ne hc rfl
    simpa [variantOfText, hs, hquote, hbrace, variantOfTree] using Agree.mistyped _ _ _
  | @string _ t _ name hx =>
    simp only [variantOfText, hs, if_true, nameOfText, hidem, hx, variantOfTree]
    cases hname : variant find known name with
    | ok a => exact .ok a
    | error c => exact .error _ c
  | object hmembers hend => exact variantOfText_object_agree find known hs hmembers hend
  | _ =>
    simp only [variantOfText, hs]
    exact .error _ _

section
variable {item : Reader α} {decode : Json → Except Cause α} {n fuel : Nat} {s u r : List Char}
  {xs : List Json}

theorem readItem_agree (hitem : Mirrors n item decode) (index : Nat) (expected : String)
    (h : items (readTree n) fuel (index == 0) s = .ok (xs, u)) :
    (xs = [] ∧ ∃ f, readItem index expected item s = .error f) ∨
      ∃ x xs' v fuel', xs = x :: xs' ∧ Agree v (readItem index expected item s) (decode x) ∧
        items (readTree n) fuel' false v = .ok (xs', u) := by
  rcases items_eq_ok h with ⟨rfl, hnext⟩ | ⟨fuel', x, xs', t, v, -, rfl, hnext, hx, hrest⟩
  · exact .inl ⟨rfl, _, by simp [readItem, hnext]; rfl⟩
  · refine .inr ⟨x, xs', v, fuel', rfl, ?_, hrest⟩
    simpa [readItem, hnext] using hitem t x v hx

theorem closeArray_agree {x : Except Fault (α × List Char)} {y : Except Cause α}
    (hxy : Agree s x y) (h : items (readTree n) fuel false s = .ok (xs, u)) (hend : endArray u = .ok r)
    (c : Cause) :
    Agree r (closeArray x) (y.bind fun a => if xs.isEmpty then .ok a else .error c) := by
  cases hxy with
  | error f c => exact .error _ c
  | ok a =>
    rcases items_eq_ok h with ⟨rfl, hnext⟩ | ⟨fuel', j, xs', t, v, -, rfl, hnext, -, -⟩
    · obtain ⟨d, t, hst, ⟨-, rfl, rfl⟩ | ⟨hmore, -⟩⟩ := nextItem_eq_ok hnext
      · have hidem := skipBlanks_idem s
        rw [hst] at hidem
        have hclose : endArray s = .ok r := by simpa [endArray, hst, hidem] using hend
        simpa [closeArray, closeBy, hclose, Except.bind] using Agree.ok a
      · cases hmore
    · obtain ⟨d, t', hst, ⟨hmore, -⟩ | ⟨-, hd, ⟨hfirst, -⟩ | ⟨-, rfl, -⟩⟩⟩ := nextItem_eq_ok hnext
      · cases hmore
      · cases hfirst
      · obtain ⟨f, hclose⟩ : ∃ f, endArray s = .error f := by
          simp only [endArray, hst, hd, if_false, if_true]
          split
          · exact ⟨_, rfl⟩
          · exact ⟨_, rfl⟩
        simpa [closeArray, closeBy, hclose, Except.bind] using Agree.error f c

theorem readItem_mapRead (index : Nat) (expected : String) (g : α → β) (s : List Char) :
    readItem index expected (fun s => mapRead g (item s)) s =
      mapRead g (readItem index expected item s) := by
  unfold readItem
  split <;> rfl

/-- Two fields, the second read by what the first was. -/
theorem twoFields_agree {second : α → Reader β} {decodeSecond : α → Json → Except Cause β}
    {fields : Reader β} {decodeFields : List Json → Except Cause β} (expected : String)
    (hitem : Mirrors n item decode) (hsecond : ∀ a, Mirrors n (second a) (decodeSecond a))
    (herror : ∀ f, readItem 0 expected item s = .error f → fields s = .error f)
    (hok : ∀ a v, readItem 0 expected item s = .ok (a, v) →
      fields s = readItem 1 expected (second a) v)
    (hnil : ∃ c, decodeFields [] = .error c) (hone : ∀ x, ∃ c, decodeFields [x] = .error c)
    (hmore : ∀ x y xs, decodeFields (x :: y :: xs) = (decode x).bind fun a =>
      (decodeSecond a y).bind fun b =>
        if xs.isEmpty then .ok b else .error (surplus (x :: y :: xs).length))
    (h : items (readTree n) fuel true s = .ok (xs, u)) (hend : endArray u = .ok r) :
    Agree r (closeArray (fields s)) (decodeFields xs) := by
  rcases readItem_agree hitem 0 expected h with ⟨rfl, f, hf⟩ | ⟨x, xs', v, fuel', rfl, hx, hrest⟩
  · obtain ⟨c, hc⟩ := hnil
    rw [herror f hf, hc]
    exact .error _ _
  · obtain ⟨c, hc⟩ := hone x
    have hmore' := hmore x
    generalize readItem 0 expected item s = a at hx herror hok
    generalize decode x = b at hx hmore'
    cases hx with
    | error f c' =>
      rw [herror f rfl]
      cases xs' with
      | nil =>
        rw [hc]
        exact .error _ _
      | cons y ys =>
        rw [hmore']
        exact .error _ _
    | ok a =>
      rw [hok a v rfl]
      rcases readItem_agree (hsecond a) 1 expected hrest with
        ⟨rfl, f, hf⟩ | ⟨y, ys, v', fuel'', rfl, hy, hrest'⟩
      · rw [hf, hc]
        exact .error _ _
      · rw [hmore']
        exact closeArray_agree hy hrest' hend _

end

theorem structOfTree_object (expected : String) (start : σ) (fold : σ → String → Json → Except Cause σ)
    (finish : σ → Except Cause α) (fields : List Json → Except Cause α) (ms : List (String × Json)) :
    structOfTree expected start fold finish fields (.object ms) =
      (foldMembers fold start ms).bind finish := by
  simp only [structOfTree]
  cases foldMembers fold start ms <;> rfl

/-- A structure is mirrored if its members and its fields are. -/
theorem readStruct_mirrors {expected : String} {start : σ} {step : Nat → σ → String → Reader σ}
    {fold : σ → String → Json → Except Cause σ} {finish : σ → Except Cause α}
    {fields : Nat → Reader α} {decodeFields : List Json → Except Cause α}
    (hstep : ∀ n, StepMirrors n (step n) fold)
    (hfields : ∀ {n fuel s u r xs}, items (readTree n) fuel true s = .ok (xs, u) →
      endArray u = .ok r → Agree r (closeArray (fields n s)) (decodeFields xs))
    (n : Nat) : Mirrors n (readStruct expected start step finish fields n)
      (structOfTree expected start fold finish decodeFields) := by
  intro s j r h
  have hread := readAs_of_readTree h
  unfold readStruct
  generalize skipBlanks s = t at hread ⊢
  cases hread with
  | @number _ c t r x hc hx =>
    have hopen : c ≠ '[' := digit_ne hc rfl
    have hbrace : c ≠ '\x7b' := digit_ne hc rfl
    simpa [hopen, hbrace, structOfTree] using Agree.mistyped _ _ _
  | array hitems hend => exact hfields hitems hend
  | @object m t u r ms hmembers hend =>
    obtain ⟨ms', hms, hagree⟩ := members_agree (hstep m) hmembers
    rw [List.nil_append] at hms
    subst hms
    rw [structOfTree_object]
    exact ((hagree start).judge finish).closeBy hend
  | _ => exact .error _ _

end DocQuery.Json
