import ReleaseDocs.FileTree
import ReleaseDocs.Text.CharClass
import ReleaseDocs.Yaml.Document

namespace ReleaseDocs

structure Metadata where
  exampleUrls : List String := []
deriving DecidableEq, Repr

namespace Metadata

def fileName : String := "metadata.yaml"

def exampleUrlsKey : List Char := "examplePackageURLs".toList

def scalarText? (document : Yaml.Document) (node : Yaml.Node Nat) : Option (List Char) :=
  match document.follow? node with
  | some (.scalar _ text _) => some text
  | _ => none

/-- The texts of a sequence of scalars. A value that is left out is an empty sequence. -/
def scalarTexts? (document : Yaml.Document) (node : Yaml.Node Nat) :
    Option (List (List Char)) :=
  match document.follow? node with
  | some (.scalar _ [] true) => some []
  | some (.sequence _ items) => items.mapM (scalarText? document)
  | _ => none

/-- The metadata in a document: a mapping with scalars as keys, at most one of which is the list of
examples, or nothing at all. -/
def ofDocument? (document : Yaml.Document) : Option Metadata :=
  match document.follow? document.root with
  | some (.scalar _ [] true) => some {}
  | some (.mapping _ entries) => do
      let keys ← entries.mapM fun entry => scalarText? document entry.1
      match (keys.zip entries).filter fun (key, _) => key == exampleUrlsKey with
      | [] => some {}
      | [(_, _, value)] => do
          let urls ← scalarTexts? document value
          some ⟨urls.map String.ofList⟩
      | _ => none
  | _ => none

/-- Reads metadata; a text of white space holds none. -/
def parse (text : String) (path : Path) : Except DocsError Metadata :=
  if (trim text).isEmpty then .ok {}
  else
    match (Yaml.Document.ofText? text.toList).bind ofDocument? with
    | some metadata => .ok metadata
    | none => .error (.metadata path "not a mapping with a list of example package URLs")

def load (tree : FileTree) (functionPath : Path) : Except DocsError Metadata :=
  let path := functionPath.join fileName
  match tree.readText path with
  | .error fault => .error (.file path fault)
  | .ok text => parse text path

/-- The name of an example package: the last segment of its address. -/
def exampleName (url : String) : String :=
  String.ofList ((fields '/' (trimSlashes url).toList).getLastD [])

def exampleNames (metadata : Metadata) : List String :=
  metadata.exampleUrls.map exampleName

end Metadata

end ReleaseDocs
