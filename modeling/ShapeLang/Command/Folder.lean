/-!
# Folders

A folder of files held in memory, and how a relative path leads to one of them:
names are followed from left to right, dots stay or go up, and every name but the
last must be a folder.
-/

namespace ShapeLang.Command

inductive ReadError where
  | notFound
  | notFolder
  | isFolder
  | notText
  | other (message : String)
deriving DecidableEq, Repr, Inhabited

def ReadError.message : ReadError → String
  | notFound => "No such file or directory (os error 2)"
  | notFolder => "Not a directory (os error 20)"
  | isFolder => "Is a directory (os error 21)"
  | notText => "stream did not contain valid UTF-8"
  | other message => message

def decodeText (bytes : ByteArray) : Except ReadError String :=
  match String.fromUTF8? bytes with
  | some text => .ok text
  | none => .error .notText

def splitPath (path : List Char) : List (List Char) :=
  match path with
  | [] => [[]]
  | c :: cs =>
      if c = '/' then [] :: splitPath cs
      else match splitPath cs with
        | [] => [[c]]
        | part :: parts => (c :: part) :: parts

def fileName (path : String) : String :=
  String.ofList ((splitPath path.toList).getLast?.getD [])

/-- Files by the parts of their paths. -/
structure Folder where
  files : List (List (List Char) × ByteArray)

namespace Folder

def ofFiles (files : List (String × ByteArray)) : Folder :=
  ⟨files.map fun (path, bytes) => (splitPath path.toList, bytes)⟩

inductive Place where
  /-- A folder inside, by its parts from the innermost out. -/
  | inside (parts : List (List Char))
  /-- A folder around this one. -/
  | above
  | file (bytes : ByteArray)

def step (f : Folder) (place : Place) (part : List Char) : Except ReadError Place :=
  match place with
  | .file _ => .error .notFolder
  | .above => if part = [] ∨ part = ['.'] ∨ part = ['.', '.'] then .ok .above else .error .notFound
  | .inside parts =>
      if part = [] ∨ part = ['.'] then .ok (.inside parts)
      else if part = ['.', '.'] then
        match parts with
        | [] => .ok .above
        | _ :: outer => .ok (.inside outer)
      else
        let path := (part :: parts).reverse
        match f.files.lookup path with
        | some bytes => .ok (.file bytes)
        | none =>
            if f.files.any fun (file, _) => path.isPrefixOf file then .ok (.inside (part :: parts))
            else .error .notFound

def read (f : Folder) (path : String) : Except ReadError String :=
  if path = "" then .error .notFound
  else do
    let start : Place := if "/".isPrefixOf path then .above else .inside []
    match ← (splitPath path.toList).foldlM f.step start with
    | .file bytes => decodeText bytes
    | _ => .error .isFolder

end Folder

end ShapeLang.Command
