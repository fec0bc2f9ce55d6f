/-!
# Media types

A media type is a type and a subtype, separated by a slash and followed by
parameters.  Names are tokens; the value of a parameter is a token or a quoted
text.  Letters may be of either case.

* `MediaType.parse?` reads the value of a content type field.
* `MediaType.isJson` holds of the types whose content is JSON.
-/

namespace ReadThrough

structure MediaType : Type where
  type : List Char
  /-- The subtype up to its last plus sign. -/
  subtype : List Char
  /-- What follows the last plus sign, if there is one. -/
  suffix? : Option (List Char)

namespace MediaType

/-- The characters of tokens, all of them ASCII. -/
def isTokenChar (c : Char) : Bool :=
  c.isAlphanum || "!#$%&'*+-.^_`|~".toList.contains c

/-- The characters that may stand in a field at all. -/
def isFieldChar (c : Char) : Bool := c == '\t' || (32 ≤ c.toNat && c.toNat < 127)

/-- The text before the last plus sign and the text behind it.  A plus sign at
the start does not count. -/
def splitSuffix (cs : List Char) : List Char × Option (List Char) :=
  let behind := (cs.reverse.takeWhile (· != '+')).reverse
  let before := cs.take (cs.length - behind.length - 1)
  if behind.length < cs.length && !before.isEmpty then (before, some behind) else (cs, none)

/-- The characters that a quoted value cannot have. -/
def isControl (c : Char) : Bool := c.toNat < 32 || c.toNat == 127

/-- The text behind a quoted value, from its second character on, with blanks and
the next semicolon skipped. -/
def afterQuoted? : List Char → Option (List Char)
  | [] => none
  | c :: cs =>
    if c == '"' then
      match cs.dropWhile (· == ' ') with
      | [] => some []
      | d :: rest => if d == ';' then some rest else none
    else if isControl c then none
    else afterQuoted? cs

/-- Whether the text is a list of parameters, checked in at most `rounds` of
them. -/
def parametersOk : Nat → List Char → Bool
  | 0, cs => cs.isEmpty
  | rounds + 1, cs =>
    match cs.dropWhile (· == ' ') with
    | [] => true
    | cs =>
      let name := cs.takeWhile isTokenChar
      match name, cs.drop name.length with
      | _ :: _, '=' :: '"' :: c :: rest =>
        -- a quoted value is not empty, so that it may start with a quote
        if isControl c then false
        else
          match afterQuoted? rest with
          | some rest => parametersOk rounds rest
          | none => false
      | _ :: _, '=' :: rest =>
        let value := rest.takeWhile isTokenChar
        match value, rest.drop value.length with
        | _, [] => true
        | _ :: _, ';' :: rest => parametersOk rounds rest
        | _, _ => false
      | _, _ => false

def parse? (field : String) : Option MediaType :=
  let cs := field.toList
  let type := cs.takeWhile isTokenChar
  match type, cs.drop type.length with
  | _ :: _, '/' :: rest =>
    let whole := rest.takeWhile isTokenChar
    let (subtype, suffix?) := splitSuffix whole
    let found : MediaType := ⟨type, subtype, suffix?⟩
    match whole, rest.drop whole.length with
    | _, [] => some found
    | _ :: _, ';' :: parameters =>
      if parametersOk parameters.length.succ parameters then some found else none
    | _, _ => none
  | _, _ => none

def isJson (m : MediaType) : Bool :=
  lower m.type == "application".toList &&
    (lower m.subtype == "json".toList || m.suffix?.any fun s => lower s == "json".toList)
where
  lower (cs : List Char) : List Char := cs.map Char.toLower

/-- Whether a content type field announces JSON. -/
def announcesJson (field : String) : Bool :=
  field.toList.all isFieldChar && (parse? field).any isJson

end MediaType

end ReadThrough
