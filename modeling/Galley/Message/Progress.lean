import Galley.Json.Decode
import Galley.Json.Printer
/-!
# Progress messages

What a running step sends to the pages that show it: a command with its payload, and the page, the
recipe's unit and the view that it is for.
-/
namespace Galley

open Json Json.Decoder Json.Fields

structure Progress where
  pageId : String
  uuid : String
  viewType : String
  command : String
  payload : String
  deriving DecidableEq, Repr

namespace Progress

def decode : Decoder Progress :=
  .record "HubMessage" (Progress.mk <$> field "PageID" string <*> field "UUID" string
    <*> field "ViewType" string <*> field "Cmd" string <*> field "Msg" string)

def encode (m : Progress) : Json :=
  .object [("PageID", .string m.pageId), ("UUID", .string m.uuid),
    ("ViewType", .string m.viewType), ("Cmd", .string m.command), ("Msg", .string m.payload)]

def text (m : Progress) : String :=
  m.encode.compact

end Progress

end Galley
