import DocQuery.Program.Wire

/-! # Actions

What a request asks of the database, with the data it carries.
-/
namespace DocQuery

inductive Method where
  | get
  | post
  deriving DecidableEq, Repr

def Method.text : Method → String
  | get => "GET"
  | post => "POST"

inductive Action where
  | document (id : String)
  | insert (data : Value)
  | update (id : String) (data : Value)
  | allDocuments
  | collectionList
  | collectionCreate (name : String)
  | program (p : Program)
  deriving DecidableEq

namespace Action

def name : Action → String
  | document _ => "Document"
  | insert _ => "Insert"
  | update _ _ => "Update"
  | allDocuments => "AllDocuments"
  | collectionList => "CollectionList"
  | collectionCreate _ => "CollectionCreate"
  | program _ => "Monadic"

def method : Action → Method
  | document _ | allDocuments | collectionList | program _ => .get
  | insert _ | update _ _ | collectionCreate _ => .post

def body : Action → Json
  | document id => .object [("doc_id", .string id)]
  | insert data => .object [("doc_data", data.tree)]
  | update id data => .object [("doc_id", .string id), ("doc_data", data.tree)]
  | allDocuments => .object []
  | collectionList => .object []
  | collectionCreate name => .object [("name", .string name)]
  | program p => p.tree

def same : Action → Action → Bool
  | insert v, insert w => v.same w
  | update i v, update j w => i == j && v.same w
  | program p, program q => p.same q
  | a, b => a == b

end Action

end DocQuery
