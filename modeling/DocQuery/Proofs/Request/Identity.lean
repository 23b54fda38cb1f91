import DocQuery.Proofs.Json.Determined
import DocQuery.Proofs.Request.Rendering

/-! # A rendered request identifies its envelope

Two envelopes that render alike are for the same address, with the same credential, the same action
with the same data and the same flag. The text of the body determines its tree, the tree determines
the action.
-/
namespace DocQuery

open Json (ToldApart)

theorem Program.eq_of_tree {p q : Program} (h : p.tree = q.tree) : p = q := by
  have hp := p.ofTree_normalize_tree
  have hq := q.ofTree_normalize_tree
  rw [h, hq] at hp
  exact (Except.ok.inj hp).symm

/-- The name tells the kind of an action, its data are then the data. -/
theorem Action.eq_of_body {a b : Action} (hname : a.name = b.name) (hbody : a.body = b.body) :
    a = b := by
  cases a with
  | document id =>
    cases b with
    | document id' =>
      have hid : id = id' := by simpa [body] using hbody
      rw [hid]
    | _ => exact absurd hname (by simp [name])
  | insert data =>
    cases b with
    | insert data' =>
      have hdata : data.tree = data'.tree := by simpa [body] using hbody
      rw [Value.ext hdata]
    | _ => exact absurd hname (by simp [name])
  | update id data =>
    cases b with
    | update id' data' =>
      obtain ⟨hid, hdata⟩ : id = id' ∧ data.tree = data'.tree := by simpa [body] using hbody
      rw [hid, Value.ext hdata]
    | _ => exact absurd hname (by simp [name])
  | allDocuments =>
    cases b with
    | allDocuments => rfl
    | _ => exact absurd hname (by simp [name])
  | collectionList =>
    cases b with
    | collectionList => rfl
    | _ => exact absurd hname (by simp [name])
  | collectionCreate n =>
    cases b with
    | collectionCreate n' =>
      have hn : n = n' := by simpa [body] using hbody
      rw [hn]
    | _ => exact absurd hname (by simp [name])
  | program p =>
    cases b with
    | program q => rw [Program.eq_of_tree hbody]
    | _ => exact absurd hname (by simp [name])

namespace Envelope

theorem eq_of_tree {e f : Envelope} (h : e.tree = f.tree) : e.action = f.action ∧ e.debug = f.debug := by
  obtain ⟨hname, hbody, hdebug⟩ :
      e.action.name = f.action.name ∧ e.action.body = f.action.body ∧ e.debug = f.debug := by
    simpa [tree] using h
  exact ⟨Action.eq_of_body hname hbody, hdebug⟩

/-- Envelopes render alike exactly if they agree in their address, credential, action and flag.
Doubles are assumed to be told apart by their texts; addresses are the same if their texts are. -/
theorem toHttp_same_iff {e f : Envelope} (hd : ToldApart e.tree.numbers f.tree.numbers) :
    e.toHttp.same f.toHttp = true ↔
      e.target.url.same f.target.url = true ∧ e.target.credential = f.target.credential ∧
        e.action = f.action ∧ e.debug = f.debug := by
  constructor
  · intro h
    simp only [HttpRequest.same, toHttp, Bool.and_eq_true, beq_iff_eq] at h
    obtain ⟨⟨⟨⟨hurl, -⟩, -⟩, hheaders⟩, hbody⟩ := h
    have htree : e.tree = f.tree := Json.text_inj hd hbody
    have hcredential : e.target.credential = f.target.credential := by simpa using hheaders
    exact ⟨hurl, hcredential, eq_of_tree htree⟩
  · rintro ⟨hurl, hcredential, haction, hdebug⟩
    have htree : e.tree = f.tree := by rw [tree, tree, haction, hdebug]
    simp only [HttpRequest.same, toHttp, hurl, hcredential, haction, htree, beq_self_eq_true,
      Bool.and_self]

/-- The creation of a collection whose name is written to look like the rest of a body. -/
def forged : Envelope where
  target := nested.target
  action := .collectionCreate "\"\x7d,\"debug\":true\x7d"
  debug := true

theorem toHttp_same_nested :
    ToldApart nested.tree.numbers nested.tree.numbers ∧ ToldApart nested.tree.numbers forged.tree.numbers ∧
      nested.toHttp.same nested.toHttp = true ∧ nested.toHttp.same forged.toHttp = false := by
  have hnumbers : nested.tree.numbers = [.double Json.twoAndHalf] := by decide
  have hself : ToldApart nested.tree.numbers nested.tree.numbers := by
    intro d hd d' hd' _
    rw [hnumbers, List.mem_singleton] at hd hd'
    cases hd
    cases hd'
    rfl
  have hforged : ToldApart nested.tree.numbers forged.tree.numbers := by
    rintro d _ d' ⟨⟩
  refine ⟨hself, hforged, (toHttp_same_iff hself).2 ⟨by simp [Url.same], rfl, rfl, rfl⟩, ?_⟩
  have hdiffer : ¬ nested.toHttp.same forged.toHttp = true := fun h =>
    absurd ((toHttp_same_iff hforged).1 h).2.2.1 (by decide)
  simpa using hdiffer

end Envelope

end DocQuery
