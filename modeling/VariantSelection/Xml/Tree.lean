/-
XML documents as trees.

The tree of a document is built over its tokens by an automaton with a stack of the
elements that are still open.  Each of them has the namespaces that hold in it: a
prefix has to be bound where it is used, and no element has two attributes of one
name in one namespace.  The tree itself keeps the local names of the elements and
their content; attributes and namespaces are checked and left out.
-/
import VariantSelection.Xml.Token

namespace VariantSelection

/-- A node of a document. -/
inductive XmlNode
  | element (name : String) (children : List XmlNode)
  | text (content : String)
  /-- A comment or a processing instruction. -/
  | aside

/-! ### Text -/

/-- Adds a literal character behind a text, which stands in reverse.  Line ends
become line feeds: a carriage return when the next literal character comes or when
the text ends. -/
def pushLineEnds (atEnd : Bool) (before : List Char) (c : Char) : List Char :=
  match before with
  | '\r' :: earlier =>
    if c = '\r' && atEnd then '\n' :: '\n' :: earlier
    else if c = '\n' then '\n' :: earlier
    else c :: '\n' :: earlier
  | _ => if c = '\r' && atEnd then '\n' :: before else c :: before

/-- The characters of pieces behind a text, which stands in reverse.  A referenced
character is taken as it is, and so is the literal one behind it. -/
def piecesText (before : List Char) (afterReference : Bool) : List XmlPiece → List Char
  | [] => before.reverse
  | .reference c :: rest => piecesText (c :: before) true rest
  | .literal c :: rest =>
    piecesText (if afterReference then c :: before
      else pushLineEnds rest.isEmpty before c) false rest

/-- The characters of a text. -/
def textOfPieces (pieces : List XmlPiece) : String :=
  String.ofList (piecesText [] false pieces)

/-- The characters of a CDATA section. -/
def textOfCdata (content : List Char) : String :=
  String.ofList (piecesText [] false (content.map .literal))

/-! ### Namespaces -/

def xmlNamespace : String := "http://www.w3.org/XML/1998/namespace"

def xmlnsNamespace : String := "http://www.w3.org/2000/xmlns/"

/-- The characters of an attribute's value; a line end or a tab is a blank. -/
def attributeText : List XmlPiece → List Char
  | [] => []
  | .reference c :: rest => c :: attributeText rest
  | .literal '\r' :: .literal '\n' :: rest => ' ' :: attributeText rest
  | .literal c :: rest =>
    (if c = '\n' || c = '\r' || c = '\t' then ' ' else c) :: attributeText rest

/-- Prefixes with the namespaces they are bound to; the first entry for a
prefix counts. -/
abbrev XmlScope := List (List Char × String)

/-- Whether an attribute declares a namespace. -/
def XmlAttribute.isDeclaration (a : XmlAttribute) : Bool :=
  a.name.space = ['x', 'm', 'l', 'n', 's'] || a.name.base = ['x', 'm', 'l', 'n', 's']

/-- The declarations of an element with one more attribute, if it is a declaration
and may stand there. -/
def declareNamespace (declared : XmlScope) (a : XmlAttribute) : Option XmlScope :=
  let uri := String.ofList (attributeText a.value)
  if !a.isDeclaration then some declared
  else if uri = xmlnsNamespace then none
  else if a.name.space = ['x', 'm', 'l', 'n', 's'] then
    if a.name.base = ['x', 'm', 'l'] then if uri = xmlNamespace then some declared else none
    else if uri = xmlNamespace || declared.any (·.1 = a.name.base) then none
    else some (declared ++ [(a.name.base, uri)])
  else if uri = xmlNamespace then none
  else some (declared ++ [([], uri)])

/-- The namespace of an attribute: none without a prefix. -/
def attributeNamespace (scope : XmlScope) (a : XmlAttribute) : Option (Option String) :=
  if a.name.space.isEmpty then some none
  else if a.name.space = ['x', 'm', 'l'] then some (some xmlNamespace)
  else (scope.lookup a.name.space).map some

/-- The scope inside an element, if its name and its attributes are in order. -/
def enterElement (outer : XmlScope) (name : XmlName) (attributes : List XmlAttribute) :
    Option XmlScope := do
  let declared ← attributes.foldlM declareNamespace []
  let scope := declared ++ outer
  let others := attributes.filter fun a => !a.isDeclaration
  let qualified ← others.mapM fun a =>
    (attributeNamespace scope a).map fun namespace_ => (namespace_, a.name.base)
  let bound := name.space.isEmpty || scope.any (·.1 = name.space)
  if qualified.Nodup && bound && name.space != ['x', 'm', 'l', 'n', 's'] then some scope else none

/-! ### The tree -/

/-- An open element; its children stand in reverse. -/
structure XmlFrame where
  name : XmlName
  scope : XmlScope
  children : List XmlNode

/-- The open elements, the innermost first, and the root once it is complete. -/
structure XmlState where
  frames : List XmlFrame
  root : Option XmlNode

/-- A node behind others, which stand in reverse; texts that meet are one text. -/
def addChild (children : List XmlNode) (node : XmlNode) : List XmlNode :=
  match children, node with
  | .text before :: earlier, .text more => .text (before ++ more) :: earlier
  | _, _ => node :: children

namespace XmlState

/-- Adds a node to the innermost element. -/
def add (s : XmlState) (node : XmlNode) : Option XmlState :=
  match s.frames with
  | frame :: outer =>
    some { s with frames := { frame with children := addChild frame.children node } :: outer }
  | [] => none

/-- Adds a complete element, which is the root when no other one is open. -/
def addElement (s : XmlState) (node : XmlNode) : Option XmlState :=
  match s.frames, s.root with
  | [], none => some { s with root := some node }
  | [], some _ => none
  | _, _ => s.add node

/-- Opens an element; there is one root. -/
def openElement (s : XmlState) (name : XmlName) (attributes : List XmlAttribute) :
    Option XmlState := do
  if s.frames.isEmpty && s.root.isSome then none
  else
    let outer := match s.frames with
      | frame :: _ => frame.scope
      | [] => []
    let scope ← enterElement outer name attributes
    return { s with frames := ⟨name, scope, []⟩ :: s.frames }

/-- Closes the innermost element, which must have this name. -/
def closeElement (s : XmlState) (name : XmlName) : Option XmlState :=
  match s.frames with
  | frame :: outer =>
    if frame.name = name then
      addElement { s with frames := outer }
        (.element (String.ofList frame.name.base) frame.children.reverse)
    else none
  | [] => none

/-- Whether a text is white space without references, which may stand beside the root. -/
def isMargin (pieces : List XmlPiece) : Bool :=
  pieces.all fun
    | .literal c => isXmlSpace c
    | .reference _ => false

/-- The state after a token, if the token may stand there. -/
def step (s : XmlState) : XmlToken → Option XmlState
  | .openTag name attributes false => s.openElement name attributes
  | .openTag name attributes true => do (← s.openElement name attributes).closeElement name
  | .closeTag name => s.closeElement name
  | .text pieces =>
    if s.frames.isEmpty then if isMargin pieces then some s else none
    else s.add (.text (textOfPieces pieces))
  | .cdata content => s.add (.text (textOfCdata content))
  | .aside => if s.frames.isEmpty then some s else s.add .aside

end XmlState

namespace XmlNode

/-- The root element of the document that a text holds. -/
def parse? (text : String) : Option XmlNode := do
  let tokens ← xmlTokens? text
  let final ← tokens.foldlM XmlState.step ⟨[], none⟩
  if final.frames.isEmpty then final.root else none

/-- The local name of an element. -/
def name? : XmlNode → Option String
  | .element name _ => some name
  | _ => none

def children : XmlNode → List XmlNode
  | .element _ children => children
  | _ => []

/-- The child elements called `name`, whatever their namespace is. -/
def childrenNamed (node : XmlNode) (name : String) : List XmlNode :=
  node.children.filter fun c => c.name? = some name

/-- The first child element called `name`. -/
def child? (node : XmlNode) (name : String) : Option XmlNode :=
  node.children.find? fun c => c.name? = some name

/-- The text of an element: its first child, if that is a text. -/
def text? (node : XmlNode) : Option String :=
  match node.children with
  | .text content :: _ => some content
  | _ => none

end XmlNode

end VariantSelection
