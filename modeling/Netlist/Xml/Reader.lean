import Netlist.Xml.Malformed
import Netlist.Xml.Name
import Netlist.Xml.Tree

/-!
# Reading XML

A reader of XML without document type declarations, which stops at the first
problem. It goes from left to right over the characters of the text; what is
left of them is its only state, and tells the place of a problem or node.

Namespaces are resolved when a tag ends. Attribute values and texts have
their references replaced when they have been read to their end.
-/

namespace Netlist.Xml

open Netlist.Text (Position Span byteLength)

/-- A problem, with the characters from its place on. -/
structure Stop where
  problem : Problem
  rest : List Char

/-- Reading takes characters off the text and may stop at a problem. -/
abbrev Reader := StateT (List Char) (Except Stop)

namespace Reader

/-! ## Single characters and fixed texts -/

/-- Stops at the current place. -/
def stop (problem : Problem) : Reader α := fun rest => .error ⟨problem, rest⟩

/-- Stops at an earlier place. -/
def stopAt (rest : List Char) (problem : Problem) : Reader α := fun _ => .error ⟨problem, rest⟩

/-- Whether a fixed text comes next. -/
def comes (text : String) : Reader Bool := do
  return text.toList.isPrefixOf (← get)

/-- Skips a number of characters. -/
def skip (count : Nat) : Reader Unit := modify (·.drop count)

/-- Skips white space. -/
def skipSpaces : Reader Unit := modify (·.dropWhile isSpace)

/-- Whether the text is at its end. -/
def atEnd : Reader Bool := do
  return (← get).isEmpty

/-- The first byte of a character in UTF-8, as a character of its own. -/
def leadByte (c : Char) : Char :=
  match c.utf8Size with
  | 1 => c
  | 2 => Char.ofNat (0xc0 + c.toNat / 64)
  | 3 => Char.ofNat (0xe0 + c.toNat / 4096)
  | _ => Char.ofNat (0xf0 + c.toNat / 262144)

/-- The next character, which must not be missing. -/
def next : Reader Char := do
  match ← get with
  | [] => stop .endOfStream
  | c :: _ => return c

/-- Takes a given character. -/
def expect (wanted : Char) : Reader Unit := do
  let c ← next
  if c = wanted then skip 1 else stop (.wrongByte wanted (leadByte c))

/-- Takes a fixed text. -/
def expectText (wanted : String) : Reader Unit := do
  if ← comes wanted then skip wanted.length else stop (.missingText wanted)

/-- Collects characters up to the first place where `ends` holds, or to the end
of the text. No character that XML forbids may be among them. -/
def collect (ends : List Char → Bool) : List Char → List Char → Except Stop (List Char × List Char)
  | done, [] => .ok (done.reverse, [])
  | done, c :: cs =>
    if !isXmlChar c then .error ⟨.forbiddenChar c, c :: cs⟩
    else if ends (c :: cs) then .ok (done.reverse, c :: cs)
    else collect ends (c :: done) cs

/-- Takes characters up to a place where `ends` holds. -/
def takeUntil (ends : List Char → Bool) : Reader (List Char) := fun rest => collect ends [] rest

/-- Takes characters up to a fixed text. -/
def takeUntilText (text : String) : Reader (List Char) := takeUntil text.toList.isPrefixOf

/-! ## Names and quoted values -/

/-- The two parts of a name; the first is empty if there is no colon. -/
structure QName where
  space : String
  name : String
deriving DecidableEq

/-- A name as it is written. -/
def QName.render (q : QName) : String :=
  if q.space.isEmpty then q.name else q.space ++ ":" ++ q.name

/-- Whether characters form a part of a name. -/
def isNamePart : List Char → Bool
  | [] => false
  | c :: _ => isNameStart c

/-- Takes a name with at most one colon. -/
def qname : Reader QName := do
  let start ← get
  let (run, rest) := (start.takeWhile isNameChar, start.dropWhile isNameChar)
  let first := run.takeWhile (· != ':')
  let valid : Option QName :=
    match run.dropWhile (· != ':') with
    | [] => if isNamePart first then some ⟨"", String.ofList first⟩ else none
    | _ :: second =>
      if (first.isEmpty || isNamePart first) && isNamePart second && !second.contains ':' then
        some ⟨String.ofList first, String.ofList second⟩
      else none
  match valid with
  | some q => set rest; return q
  | none => stop .invalidName

/-- Takes a name in which colons mean nothing. -/
def plainName : Reader Unit := do
  match ← get with
  | [] => stop .invalidName
  | c :: cs =>
    if c = ':' || isNameStart c then set (cs.dropWhile isNameChar) else stop .invalidName

/-- Takes an equals sign with white space around it. -/
def equals : Reader Unit := do
  skipSpaces
  expect '='
  skipSpaces

/-- A quoted value as written, with the characters after it. -/
structure Quoted where
  value : List Char
  after : List Char

/-- Takes a quoted value. -/
def quoted : Reader Quoted := do
  let quote ← next
  if quote = '"' || quote = '\x27' then
    skip 1
    let value ← takeUntil fun rest => rest.head?.any fun c => c == quote || c == '<'
    let after ← get
    expect quote
    return ⟨value, after⟩
  else stop (.wrongToken "a quote" (leadByte quote))

/-! ## References -/

/-- What a reference stands for. -/
inductive Reference where
  | char (c : Char)
  | entity (name : String)

/-- The value of a digit of base 16. -/
def hexValue? (c : Char) : Option Nat :=
  if '0' ≤ c ∧ c ≤ '9' then some (c.toNat - '0'.toNat)
  else if 'a' ≤ c ∧ c ≤ 'f' then some (c.toNat - 'a'.toNat + 10)
  else if 'A' ≤ c ∧ c ≤ 'F' then some (c.toNat - 'A'.toNat + 10)
  else none

/-- The value of digits of base 10 or 16. -/
def digitsValue (base : Nat) (cs : List Char) : Nat :=
  cs.foldl (fun n c => n * base + (hexValue? c).getD 0) 0

/-- The character with a number. Numbers of no character mean U+FFFD; numbers
of 32 bits or more and characters that XML forbids mean nothing. -/
def charOfNumber? (n : Nat) : Option Char :=
  if UInt32.size ≤ n then none
  else
    let c := if n.isValidChar then Char.ofNat n else '\ufffd'
    if isXmlChar c then some c else none

/-- The characters with an entity of their own. -/
def namedChar? : String → Option Char
  | "quot" => some '"'
  | "amp" => some '&'
  | "apos" => some '\x27'
  | "lt" => some '<'
  | "gt" => some '>'
  | _ => none

/-- Reads a reference after its ampersand, up to and with the semicolon. -/
def reference? (cs : List Char) : Option (Reference × List Char) :=
  let finish (r : Reference) : List Char → Option (Reference × List Char)
    | ';' :: rest => some (r, rest)
    | _ => none
  let numeric (base : Nat) (isDigit : Char → Bool) (cs : List Char) :=
    let digits := cs.takeWhile isDigit
    if digits.isEmpty then none
    else (charOfNumber? (digitsValue base digits)).bind fun c =>
      finish (.char c) (cs.dropWhile isDigit)
  match cs with
  | '#' :: 'x' :: cs => numeric 16 (fun c => (hexValue? c).isSome) cs
  | '#' :: cs => numeric 10 (fun c => '0' ≤ c && c ≤ '9') cs
  | c :: cs =>
    if c = ':' || isNameStart c then
      let name := String.ofList (c :: cs.takeWhile isNameChar)
      finish ((namedChar? name).elim (.entity name) .char) (cs.dropWhile isNameChar)
    else none
  | [] => none

/-- Replaces the references in `cs` and passes every other stretch through
`plain`, which gives the characters that one or two written ones mean and how
many were used. `after` follows `cs` in the text. -/
def replace (plain : Char → List Char → List Char × List Char) (after : List Char) :
    Nat → List Char → Except Stop (List Char)
  | _, [] => .ok []
  | 0, _ => .ok []
  | fuel + 1, '&' :: cs =>
    match reference? cs with
    | none => .error ⟨.malformedReference, '&' :: cs ++ after⟩
    | some (.entity name, _) => .error ⟨.unknownEntity name, '&' :: cs ++ after⟩
    | some (.char c, rest) => (replace plain after fuel rest).map (c :: ·)
  | fuel + 1, c :: cs =>
    let (out, rest) := plain c cs
    (replace plain after fuel rest).map (out ++ ·)

/-- In an attribute value a line end or tab means a space, and a carriage
return with its line feed means one. -/
def attributeChar : Char → List Char → List Char × List Char
  | '\r', '\n' :: rest => ([' '], rest)
  | c, rest => ([if isSpace c then ' ' else c], rest)

/-- In a text a carriage return means a line feed, also together with one. -/
def textChar : Char → List Char → List Char × List Char
  | '\r', '\n' :: rest => (['\n'], rest)
  | '\r', rest => (['\n'], rest)
  | c, rest => ([c], rest)

/-- The text that a written stretch means. -/
def resolve (plain : Char → List Char → List Char × List Char) (cs after : List Char) :
    Reader String := fun rest =>
  (replace plain after cs.length cs).map fun out => (String.ofList out, rest)

/-! ## Namespaces -/

/-- The namespace that `xml` always stands for. -/
def xmlUri : String := "http://www.w3.org/XML/1998/namespace"

/-- The namespace of declarations, which no name may stand for. -/
def xmlnsUri : String := "http://www.w3.org/2000/xmlns/"

/-- Namespaces by name; `none` is the default namespace. -/
abbrev Namespaces := List (Option String × String)

/-- An attribute whose namespace is still to be found, with the characters from
its start on. -/
structure RawAttribute where
  qname : QName
  value : String
  start : List Char

/-- Checks the declaration of a namespace under a name. -/
def declare (start : List Char) (name uri : String) (own : Namespaces) : Reader Namespaces := do
  if uri = xmlnsUri then stopAt start .xmlnsUriDeclared
  if name = "xml" then
    if uri ≠ xmlUri then stopAt start .xmlNameRebound
  else if uri = xmlUri then stopAt start .xmlUriTaken
  if own.any fun b => b.1 == some name then stopAt start (.repeatedNamespace name)
  return if uri = xmlUri then own else own ++ [(some name, uri)]

/-- Checks the declaration of the default namespace. -/
def declareDefault (start : List Char) (uri : String) (own : Namespaces) : Reader Namespaces := do
  if uri = xmlUri then stopAt start .xmlUriTaken
  if uri = xmlnsUri then stopAt start .xmlnsUriDeclared
  return own ++ [(none, uri)]

/-- The namespace of an attribute; one without a space has none. -/
def attributeUri (spaces : Namespaces) (a : RawAttribute) : Reader (Option String) := do
  if a.qname.space = "xml" then return some xmlUri
  if a.qname.space = "" then return none
  match spaces.find? fun b => b.1 == some a.qname.space with
  | some b => return some b.2
  | none => stopAt a.start (.unknownNamespace a.qname.space)

/-- Finds the namespaces of attributes, in order; none may occur twice. -/
def resolveAttributes (spaces : Namespaces) : List RawAttribute → List Attribute →
    Reader (List Attribute)
  | [], done => return done
  | a :: more, done => do
    let uri ← attributeUri spaces a
    if done.any fun b => b.uri == uri && b.name == a.qname.name then
      stopAt a.start (.repeatedAttribute a.qname.name)
    resolveAttributes spaces more (done ++ [⟨uri, a.qname.name, a.value⟩])

/-! ## Tags -/

/-- A start tag that was read to its end. -/
structure Tag where
  qname : QName
  attributes : List Attribute
  spaces : Namespaces
  closed : Bool

/-- What a start tag holds before its namespaces are known. -/
structure RawTag where
  attributes : List RawAttribute
  own : Namespaces
  closed : Bool

/-- Takes an attribute with its name, equals sign and value. -/
def rawAttribute (tag : RawTag) : Reader RawTag := do
  let start ← get
  let q ← qname
  equals
  let written ← quoted
  let value ← resolve attributeChar written.value written.after
  if q.space = "xmlns" then
    return { tag with own := ← declare start q.name value tag.own }
  if q.name = "xmlns" then
    return { tag with own := ← declareDefault start value tag.own }
  return { tag with attributes := tag.attributes ++ [⟨q, value, start⟩] }

/-- Takes the attributes of a start tag and its end. A tag that the text ends
in right after its name or an attribute gives nothing. -/
def attributes : Nat → RawTag → Reader (Option RawTag)
  | 0, _ => return none
  | fuel + 1, tag => do
    if ← atEnd then return none
    let spaced := (← get).head?.any isSpace
    skipSpaces
    let c ← next
    if c = '/' then
      skip 1
      expect '>'
      return some { tag with closed := true }
    else if c = '>' then
      skip 1
      return some tag
    else if !spaced then stop (.wrongToken "a whitespace" (leadByte c))
    else attributes fuel (← rawAttribute tag)

/-- Takes a start tag after its `<`, in a text of at most `total` characters. -/
def startTag (total : Nat) (outer : Namespaces) : Reader (Option Tag) := do
  let start ← get
  let q ← qname
  if q.space = "xmlns" then stopAt start .xmlnsNameUsed
  match ← attributes total ⟨[], [], false⟩ with
  | none => return none
  | some raw =>
    let spaces := raw.own ++ outer
    let found ← resolveAttributes spaces raw.attributes []
    if q.space ≠ "" && !(spaces.any fun b => b.1 == some q.space) then
      stopAt start (.unknownNamespace q.space)
    return some ⟨q, found, spaces, raw.closed⟩

/-! ## What stands beside elements -/

/-- Whether a list of characters holds a fixed text. -/
def holds (text : List Char) : List Char → Bool
  | [] => text.isEmpty
  | c :: cs => text.isPrefixOf (c :: cs) || holds text cs

/-- Takes a comment. -/
def comment : Reader Unit := do
  let start ← get
  skip 4
  let inner ← takeUntilText "-->"
  expectText "-->"
  if holds ['-', '-'] inner || inner.getLast? == some '-' then stopAt start .hyphensInComment

/-- Takes a processing instruction. -/
def instruction : Reader Unit := do
  if ← comes "<?xml " then stop .lateDeclaration
  skip 2
  plainName
  skipSpaces
  let _ ← takeUntilText "?>"
  expectText "?>"

/-- Takes comments, processing instructions and white space. -/
def miscellany : Nat → Reader Unit
  | 0 => return ()
  | fuel + 1 => do
    skipSpaces
    if ← comes "<!--" then
      comment
      miscellany fuel
    else if ← comes "<?" then
      instruction
      miscellany fuel

/-- Takes the white space that separates the parts of a declaration. -/
def declarationGap : Reader Unit := do
  match ← get with
  | [] => return ()
  | c :: _ =>
    if isSpace c then skipSpaces
    else if !(← comes "?>") then stop (.wrongToken "a whitespace" (leadByte c))

/-- Takes an XML declaration. -/
def declaration : Reader Unit := do
  let part : Reader Unit := do
    let _ ← qname
    equals
    let _ ← quoted
  skip 5
  declarationGap
  if !(← comes "version") then stop (.missingText "version")
  part
  declarationGap
  if ← comes "encoding" then
    part
    declarationGap
  if ← comes "standalone" then part
  skipSpaces
  expectText "?>"

/-- Takes a text, which must not hold the end of a character data section. -/
def text : Reader String := do
  let written ← takeUntil fun rest => rest.head? == some '<'
  if holds [']', ']', '>'] written then stop .cdataEndInText
  resolve textChar written (← get)

/-- Takes a character data section. -/
def cdata : Reader String := do
  skip 9
  let inner ← takeUntilText "]]>"
  expectText "]]>"
  return String.ofList inner

/-! ## Elements -/

/-- An element whose end tag is still to come; its children are in reverse
order, and `start` is the byte of its `<`. -/
structure OpenElement where
  tag : Tag
  start : Nat
  children : List Node

/-- The open element with one more child. Texts side by side are one text. -/
def OpenElement.push (o : OpenElement) : Node → OpenElement
  | .text t =>
    match o.children with
    | .text s :: more => { o with children := .text (s ++ t) :: more }
    | more => { o with children := .text t :: more }
  | n => { o with children := n :: o.children }

/-- The byte offset of the current place in a text of `total` bytes. -/
def offset (total : Nat) : Reader Nat := do
  return total - byteLength (← get)

/-- The finished element, which ends at the current place. -/
def OpenElement.finish (total : Nat) (o : OpenElement) : Reader Node := do
  return .element o.tag.qname.name o.tag.attributes o.children.reverse
    (Span.of o.start (← offset total))

/-- Takes an end tag of the open element. -/
def endTag (o : OpenElement) : Reader Unit := do
  let start ← get
  skip 2
  let q ← qname
  skipSpaces
  expect '>'
  if q ≠ o.tag.qname then
    stopAt start (.wrongCloseTag o.tag.qname.render q.render)

/-- Takes the content of an open element up to the end of the outermost one.
`outer` holds the elements around it, innermost first. A text that ends before
that gives nothing. -/
def content (total : Nat) : Nat → OpenElement → List OpenElement → Reader (Option Node)
  | 0, _, _ => return none
  | fuel + 1, o, outer => do
    match ← get with
    | [] => return none
    | '<' :: '!' :: _ =>
      if ← comes "<!--" then
        comment
        content total fuel (o.push .other) outer
      else if ← comes "<![CDATA[" then
        let t ← cdata
        content total fuel (o.push (.text t)) outer
      else stop .unknownToken
    | '<' :: '?' :: _ =>
      instruction
      content total fuel (o.push .other) outer
    | '<' :: '/' :: _ =>
      endTag o
      let n ← o.finish total
      match outer with
      | [] => return some n
      | p :: outer => content total fuel (p.push n) outer
    | ['<'] => stop .unknownToken
    | '<' :: _ =>
      let start ← offset total
      skip 1
      match ← startTag total o.tag.spaces with
      | none => return none
      | some tag =>
        if tag.closed then
          let n ← OpenElement.finish total ⟨tag, start, []⟩
          content total fuel (o.push n) outer
        else content total fuel ⟨tag, start, []⟩ (o :: outer)
    | _ =>
      let t ← text
      content total fuel (o.push (.text t)) outer

/-- What became of the root element. -/
inductive Root where
  | missing
  | unclosed
  | complete (node : Node)

/-- Takes the root element. -/
def rootElement (total : Nat) : Reader Root := do
  if !(← comes "<") then return .missing
  let start ← offset total
  skip 1
  match ← startTag total [] with
  | none => return .missing
  | some tag =>
    if tag.closed then return .complete (← OpenElement.finish total ⟨tag, start, []⟩)
    match ← content total (← get).length ⟨tag, start, []⟩ [] with
    | none => return .unclosed
    | some n => return .complete n

/-- Takes a whole document. -/
def document (total : Nat) : Reader Node := do
  let fuel := (← get).length + 1
  if (← get).head? == some '\ufeff' then skip 1
  if ← comes "<?xml " then declaration
  miscellany fuel
  if ← comes "<!DOCTYPE" then stop .doctype
  let root ← rootElement total
  miscellany fuel
  if !(← atEnd) then stop .unknownToken
  match root with
  | .missing => stop .noRoot
  | .unclosed => stop .unclosedRoot
  | .complete n => return n

end Reader

/-- The root element of an XML text, or the first problem in it. -/
def read (source : String) : Except Malformed Node :=
  let cs := source.toList
  match Reader.document (byteLength cs) cs with
  | .ok (n, _) => .ok n
  | .error stop =>
    .error ⟨stop.problem,
      if stop.problem.isPlaced then Position.of (cs.take (cs.length - stop.rest.length))
      else Position.first⟩

end Netlist.Xml
