import Netlist.Text.Span

/-!
# Malformed XML

What can be wrong with an XML text, and where. Reading reports the first
problem it meets. Problems of the whole text have no place of their own and
count as being at the first character.
-/

namespace Netlist.Xml

open Netlist.Text (Position)

/-- What is wrong with an XML text. -/
inductive Problem where
  | noRoot
  | unclosedRoot
  | doctype
  | endOfStream
  | invalidName
  | forbiddenChar (found : Char)
  | wrongByte (wanted found : Char)
  | wrongToken (wanted : String) (found : Char)
  | missingText (wanted : String)
  | hyphensInComment
  | cdataEndInText
  | unknownToken
  | lateDeclaration
  | malformedReference
  | unknownEntity (name : String)
  | repeatedAttribute (name : String)
  | unknownNamespace (name : String)
  | repeatedNamespace (name : String)
  | xmlNameRebound
  | xmlUriTaken
  | xmlnsUriDeclared
  | xmlnsNameUsed
  | wrongCloseTag (wanted found : String)
deriving DecidableEq, Repr

namespace Problem

/-- Whether the problem has a place in the text. -/
def isPlaced : Problem → Bool
  | .noRoot => false
  | .unclosedRoot => false
  | .doctype => false
  | .endOfStream => false
  | _ => true

/-- A control character or noncharacter as an escape between quotes. -/
def escaped (c : Char) : String :=
  if c = '\x00' then "'\\0'"
  else "'\\u\x7b" ++ String.ofList (Nat.toDigits 16 c.toNat) ++ "\x7d'"

/-- The wording of a problem at a place. -/
def message (place : String) : Problem → String
  | .noRoot => "the document does not have a root node"
  | .unclosedRoot => "the root node was opened but never closed"
  | .doctype => "XML with DTD detected"
  | .endOfStream => "unexpected end of stream"
  | .invalidName => "invalid name token at " ++ place
  | .forbiddenChar found => "a non-XML character " ++ escaped found ++ " found at " ++ place
  | .wrongByte wanted found =>
    "expected '" ++ wanted.toString ++ "' not '" ++ found.toString ++ "' at " ++ place
  | .wrongToken wanted found =>
    "expected " ++ wanted ++ " not '" ++ found.toString ++ "' at " ++ place
  | .missingText wanted => "expected '" ++ wanted ++ "' at " ++ place
  | .hyphensInComment => "comment at " ++ place ++ " contains '--'"
  | .cdataEndInText => "']]>' at " ++ place ++ " is not allowed inside a character data"
  | .unknownToken => "unknown token at " ++ place
  | .lateDeclaration => "unexpected XML declaration at " ++ place
  | .malformedReference => "malformed entity reference at " ++ place
  | .unknownEntity name => "unknown entity reference '" ++ name ++ "' at " ++ place
  | .repeatedAttribute name => "attribute '" ++ name ++ "' at " ++ place ++ " is already defined"
  | .unknownNamespace name => "an unknown namespace prefix '" ++ name ++ "' at " ++ place
  | .repeatedNamespace name => "namespace '" ++ name ++ "' at " ++ place ++ " is already defined"
  | .xmlNameRebound => "'xml' namespace prefix mapped to wrong URI at " ++ place
  | .xmlUriTaken => "the 'xml' namespace URI is used for not 'xml' prefix at " ++ place
  | .xmlnsUriDeclared =>
    "the 'xmlns' URI is used at " ++ place ++ ", but it must not be declared"
  | .xmlnsNameUsed => "the 'xmlns' prefix is used at " ++ place ++ ", but it must not be"
  | .wrongCloseTag wanted found =>
    "expected '" ++ wanted ++ "' tag, not '" ++ found ++ "' at " ++ place

end Problem

/-- A problem and its place. -/
structure Malformed where
  problem : Problem
  position : Position
deriving DecidableEq, Repr

/-- The wording of a problem with its place. -/
def Malformed.message (m : Malformed) : String := m.problem.message m.position.render

end Netlist.Xml
