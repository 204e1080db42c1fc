import Kouetsu.Encoding.Basic
import Kouetsu.Json.Parser
import Kouetsu.Json.Printer
/-!
# Cache

What is known of files from earlier checks.  An entry holds the issues of a file with its
fingerprint and the digest of the settings, and counts only while both are the same.  The
file of the cache may have been changed by hand: what is no entry counts as missing.
-/

namespace Kouetsu

/-- Records by the path of the file. -/
abbrev Cache := Entries LooseText Json.Node

namespace Cache

def fileName : String := ".japroselint_cache.json"

def version : Scalar := .int 1

def record (fingerprint digest : String) (issues : List Json.Node) : Json.Node :=
  .record [("fingerprint", .str fingerprint), ("digest", .str digest), ("issues", .list issues)]

def store (c : Cache) (key : LooseText) (fingerprint digest : String)
    (issues : List Json.Node) : Cache :=
  Entries.insert key (record fingerprint digest issues) c

def isText (n : Option Json.Node) (s : String) : Bool :=
  match n with
  | some (.str t) => s = t
  | _ => false

/-- The issues of a file whose fingerprint and digest are the same. -/
def lookup (c : Cache) (key : LooseText) (fingerprint digest : String) :
    Option (List Json.Node) := do
  let entry ← Entries.get? c key
  if isText (entry.get? "fingerprint") fingerprint && isText (entry.get? "digest") digest then
    match entry.get? "issues" with
    | some (.list issues) => some issues
    | _ => none
  else none

def toNode (c : Cache) : Json.Node :=
  .record [("version", .leaf (.plain version)),
    ("files", .map (c.map fun (k, n) => (.ofText k, n)))]

def text (c : Cache) : Except Json.WriteError LooseText := Json.writeNodeStrict c.toNode

/-- The records of a document; none where it is no cache of this version. -/
def ofNode (n : Json.Node) : Cache :=
  match n.get? "version", n.get? "files" with
  | some (.leaf found), some (.map entries) =>
      if found.shown.same version then
        entries.filterMap fun (k, n) => k.text?.map fun key => (key, n)
      else []
  | _, _ => []

/-- The cache in a file; empty where the file is missing or malformed. -/
def decode (content : Option ByteArray) : Cache :=
  match content.bind decodeUtf8? with
  | none => []
  | some t =>
      match Json.readNode t with
      | .ok n => ofNode n
      | .error _ => []

end Cache

end Kouetsu
