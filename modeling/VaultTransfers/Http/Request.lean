import VaultTransfers.Text.Hex
import VaultTransfers.Text.Utf8

/-!
Requests over HTTP, as far as the interface looks at them: the path, the media
type of the body, and the body.
-/

namespace VaultTransfers.Http

structure Request where
  method : String
  /-- The target, with its query if it has one. -/
  target : String
  headers : List (String × String)
  body : List UInt8

/-- The value of the first header of a name; the letter case of names does not count. -/
def Request.header? (r : Request) (name : String) : Option String :=
  (r.headers.find? fun h => h.1.map Char.toLower = name).map (·.2)

/-- The path of a target, without its query. -/
def pathOf (target : String) : List Char :=
  target.toList.takeWhile fun c => c ≠ '?' && c ≠ '#'

/-- The parts of a path between its slashes. -/
def segments : List Char → List (List Char)
  | [] => [[]]
  | c :: cs =>
    if c = '/' then [] :: segments cs
    else match segments cs with
      | [] => [[c]]
      | s :: ss => (c :: s) :: ss

/-- The bytes of a text in which `%` with two digits stands for a byte. -/
def percentDecoded : List Char → List UInt8
  | [] => []
  | [c] => String.utf8EncodeChar c
  | [c, d] => String.utf8EncodeChar c ++ String.utf8EncodeChar d
  | c :: a :: b :: cs =>
    if c = '%' ∧ Text.isHexDigit a ∧ Text.isHexDigit b then
      UInt8.ofNat (Text.hexNumber [a, b]) :: percentDecoded cs
    else String.utf8EncodeChar c ++ percentDecoded (a :: b :: cs)

/-- The characters of tokens. -/
def isTokenChar (c : Char) : Bool :=
  c.isAlphanum || "!#$%&'*+-.^_`|~".toList.contains c

/-- A parameter's value in quotes, behind the opening one; what is left begins at the next `;`. -/
def quotedValue : List Char → Option (List Char)
  | [] => none
  | '"' :: cs =>
    match cs.dropWhile (· = ' ') with
    | [] => some []
    | ';' :: rest => some (';' :: rest)
    | _ => none
  | '\\' :: c :: cs => if c = '\t' ∨ (' ' ≤ c ∧ c ≤ '~') then quotedValue cs else none
  | c :: cs => if c ≠ '\\' ∧ (c = '\t' ∨ (' ' ≤ c ∧ c ≤ '~')) then quotedValue cs else none

/-- One parameter of a media type: a name and a value, which may be in quotes. -/
def parameter (cs : List Char) : Option (List Char) :=
  let name := cs.takeWhile isTokenChar
  match cs.dropWhile isTokenChar with
  | '=' :: '"' :: rest => if name = [] then none else quotedValue rest
  | '=' :: rest =>
    let value := rest.takeWhile isTokenChar
    match rest.dropWhile isTokenChar with
    | [] => if name = [] then none else some []
    | ';' :: rest => if name = [] ∨ value = [] then none else some (';' :: rest)
    | _ => none
  | _ => none

/-- Whether the rest of a media type is a list of parameters, each behind a `;`. -/
def areParameters (cs : List Char) : Bool :=
  match cs with
  | [] => true
  | ';' :: list =>
    match list.dropWhile (· = ' ') with
    | [] => true
    | c :: cs =>
      match parameter (c :: cs) with
      | none => false
      | some rest => if rest.length < list.length + 1 then areParameters rest else false
  | _ => false
termination_by cs.length

/-- Whether a media type is that of JSON, by its subtype or by the suffix behind the last `+`. -/
def isJsonSubtype (subtype : List Char) : Bool :=
  let suffix := (subtype.reverse.takeWhile (· ≠ '+')).reverse
  let stem := subtype.take (subtype.length - suffix.length - 1)
  if stem = [] then subtype = "json".toList
  else suffix = "json".toList || stem = "json".toList

def isJsonType (mediaType : String) : Bool :=
  let cs := mediaType.toList.map Char.toLower
  let kind := cs.takeWhile isTokenChar
  match cs.dropWhile isTokenChar with
  | '/' :: rest =>
    let subtype := rest.takeWhile isTokenChar
    kind = "application".toList && isJsonSubtype subtype && areParameters (rest.dropWhile isTokenChar)
  | _ => false

/-- Whether the request says that its body is JSON. -/
def Request.isJson (r : Request) : Bool :=
  (r.header? "content-type").any isJsonType

example : isJsonType "application/json; charset=utf-8" := by cbv
example : isJsonType "application/vnd.api+JSON" := by cbv
example : isJsonType "text/json" = false := by cbv

end VaultTransfers.Http
