/-
The tokens of XML documents: tags, character data, and what stands beside them.

A document without a document type has no entities but the five that are always there,
so references are resolved while the tokens are read.  Where a reference stood still
matters for line ends, so character data is kept as a list of `XmlPiece` until then.
-/
import VariantSelection.Text

namespace VariantSelection

/-! ### Characters -/

/-- Whether a document may hold `c`: no control character except tab and line ends,
and neither of the last two code points of the basic plane. -/
def isXmlChar (c : Char) : Bool :=
  if c.toNat < 0x20 then c = '\t' || c = '\n' || c = '\r'
  else c.toNat != 0xFFFE && c.toNat != 0xFFFF

/-- White space in markup. -/
def isXmlSpace (c : Char) : Bool := c = ' ' || c = '\t' || c = '\n' || c = '\r'

/-- The code points beyond ASCII with which a name may start. -/
def xmlNameStartRanges : List (Nat × Nat) :=
  [(0xC0, 0xD6), (0xD8, 0xF6), (0xF8, 0x2FF), (0x370, 0x37D), (0x37F, 0x1FFF), (0x200C, 0x200D),
   (0x2070, 0x218F), (0x2C00, 0x2FEF), (0x3001, 0xD7FF), (0xF900, 0xFDCF), (0xFDF0, 0xFFFD),
   (0x10000, 0xEFFFF)]

/-- The code points beyond ASCII that a name may hold behind its start. -/
def xmlNameExtraRanges : List (Nat × Nat) := [(0xB7, 0xB7), (0x300, 0x36F), (0x203F, 0x2040)]

def inRanges (ranges : List (Nat × Nat)) (c : Char) : Bool :=
  ranges.any fun r => r.1 ≤ c.toNat && c.toNat ≤ r.2

/-- Whether a name may start with `c`. -/
def isXmlNameStart (c : Char) : Bool :=
  if c.toNat < 0x80 then c.isAlpha || c = ':' || c = '_' else inRanges xmlNameStartRanges c

/-- Whether a name may hold `c`. -/
def isXmlNameChar (c : Char) : Bool :=
  if c.toNat < 0x80 then c.isAlphanum || c = ':' || c = '_' || c = '-' || c = '.'
  else inRanges xmlNameStartRanges c || inRanges xmlNameExtraRanges c

/-! ### Tokens -/

/-- A name with the prefix of its namespace, empty if it has none. -/
structure XmlName where
  space : List Char
  base : List Char
  deriving DecidableEq

/-- A character of a text, as it stands there or by way of a reference. -/
inductive XmlPiece
  | literal (c : Char)
  | reference (c : Char)
  deriving DecidableEq

structure XmlAttribute where
  name : XmlName
  value : List XmlPiece
  deriving DecidableEq

inductive XmlToken
  | openTag (name : XmlName) (attributes : List XmlAttribute) (closed : Bool)
  | closeTag (name : XmlName)
  | text (pieces : List XmlPiece)
  | cdata (content : List Char)
  /-- A comment or a processing instruction. -/
  | aside
  deriving DecidableEq

/-! ### Names -/

/-- Splits off the name at the front: at most one colon, and a proper start on
either side of it.  The prefix may be empty. -/
def scanXmlName (cs : List Char) : Option (XmlName × List Char) :=
  let starts (part : List Char) : Bool := part.head?.all isXmlNameStart
  let rest := cs.dropWhile isXmlNameChar
  match fieldsOf ':' (cs.takeWhile isXmlNameChar) with
  | [base] => if !base.isEmpty && starts base then some (⟨[], base⟩, rest) else none
  | [space, base] =>
    if starts space && !base.isEmpty && starts base then some (⟨space, base⟩, rest) else none
  | _ => none

/-! ### References -/

/-- The character with a number of 32 bits; the replacement character stands in for
numbers without one. -/
def numberedChar? (n : Nat) : Option Char :=
  if n < 0x100000000 then
    let c := if n.isValidChar then Char.ofNat n else '\uFFFD'
    if isXmlChar c then some c else none
  else none

/-- The character that a reference stands for. -/
def referenced? : List Char → Option Char
  | '#' :: 'x' :: digits => (digitsInBase? 16 digits).bind numberedChar?
  | '#' :: digits => (digitsInBase? 10 digits).bind numberedChar?
  | ['q', 'u', 'o', 't'] => some '"'
  | ['a', 'm', 'p'] => some '&'
  | ['a', 'p', 'o', 's'] => some '\''
  | ['l', 't'] => some '<'
  | ['g', 't'] => some '>'
  | _ => none

/-- Resolves the references of a text; `pending` holds, in reverse, what was read of
an open one. -/
def resolveFrom (pending : Option (List Char)) : List Char → Option (List XmlPiece)
  | [] => if pending.isNone then some [] else none
  | c :: rest =>
    match pending with
    | none =>
      if c = '&' then resolveFrom (some []) rest
      else (resolveFrom none rest).map (.literal c :: ·)
    | some name =>
      if c = ';' then do
        let r ← referenced? name.reverse
        (resolveFrom none rest).map (.reference r :: ·)
      else resolveFrom (some (c :: name)) rest

/-- The pieces of a text. -/
def resolveReferences (cs : List Char) : Option (List XmlPiece) := resolveFrom none cs

/-! ### Markup -/

/-- What stands before the first `stop`, and what behind it. -/
def splitAtMark (stop : List Char) : List Char → Option (List Char × List Char)
  | [] => none
  | c :: rest =>
    if stop.isPrefixOf (c :: rest) then some ([], (c :: rest).drop stop.length)
    else (splitAtMark stop rest).map fun r => (c :: r.1, r.2)

/-- Whether `part` stands somewhere in a text. -/
def holdsMark (part : List Char) (cs : List Char) : Bool := (splitAtMark part cs).isSome

/-- The rest of a text that starts with `lead`. -/
def afterLead? (lead cs : List Char) : Option (List Char) :=
  if lead.isPrefixOf cs then some (cs.drop lead.length) else none

/-- Reads a comment behind its opening mark; two hyphens end it. -/
def scanComment (cs : List Char) : Option (List Char) := do
  let (content, rest) ← splitAtMark ['-', '-', '>'] cs
  if holdsMark ['-', '-'] content || content.getLast? = some '-' then none else some rest

/-- Reads a processing instruction behind its opening mark. -/
def scanInstruction (cs : List Char) : Option (List Char) := do
  let first ← cs.head?
  if isXmlNameStart first then
    let (_, rest) ← splitAtMark ['?', '>'] (cs.dropWhile isXmlNameChar)
    return rest
  else none

/-- Reads an equals sign and a quoted value, in which no tag may open. -/
def scanQuotedValue (cs : List Char) : Option (List Char × List Char) :=
  match cs.dropWhile isXmlSpace with
  | '=' :: rest =>
    match rest.dropWhile isXmlSpace with
    | quote :: rest =>
      if quote = '"' || quote = '\'' then
        let inside (c : Char) : Bool := c != quote && c != '<'
        match rest.dropWhile inside with
        | c :: after => if c = quote then some (rest.takeWhile inside, after) else none
        | [] => none
      else none
    | [] => none
  | _ => none

/-- Reads attributes up to the end of their tag, each with white space before it;
the flag says whether the tag closes its element.  Every attribute takes characters,
so `fuel` need not exceed their number. -/
def scanAttributes : Nat → List Char → Option (List XmlAttribute × Bool × List Char)
  | 0, _ => none
  | fuel + 1, cs =>
    match cs.dropWhile isXmlSpace with
    | '/' :: '>' :: rest => some ([], true, rest)
    | '>' :: rest => some ([], false, rest)
    | trimmed => do
      if cs.head?.any isXmlSpace then
        let (name, rest) ← scanXmlName trimmed
        let (value, rest) ← scanQuotedValue rest
        let value ← resolveReferences value
        let (attributes, closed, rest) ← scanAttributes fuel rest
        return (⟨name, value⟩ :: attributes, closed, rest)
      else none

/-- Reads a tag that opens an element. -/
def scanOpenTag (cs : List Char) : Option (XmlToken × List Char) := do
  let (name, rest) ← scanXmlName cs
  let (attributes, closed, rest) ← scanAttributes (rest.length + 1) rest
  return (.openTag name attributes closed, rest)

/-- Reads a tag that closes an element. -/
def scanCloseTag (cs : List Char) : Option (XmlToken × List Char) := do
  let (name, rest) ← scanXmlName cs
  match rest.dropWhile isXmlSpace with
  | '>' :: rest => some (.closeTag name, rest)
  | _ => none

/-- Reads character data, which must not hold the mark that ends a CDATA section. -/
def scanCharacterData (cs : List Char) : Option (XmlToken × List Char) := do
  let content := cs.takeWhile (· != '<')
  if holdsMark [']', ']', '>'] content then none
  else
    let pieces ← resolveReferences content
    return (.text pieces, cs.dropWhile (· != '<'))

/-- Reads the token at the front of a text that is not empty.  A document type and a
declaration that is not at the start of the document are faults. -/
def scanXmlToken (cs : List Char) : Option (XmlToken × List Char) :=
  match cs with
  | '<' :: '!' :: '-' :: '-' :: rest => (scanComment rest).map fun r => (.aside, r)
  | '<' :: '!' :: rest => do
    let rest ← afterLead? ['[', 'C', 'D', 'A', 'T', 'A', '['] rest
    let (content, rest) ← splitAtMark [']', ']', '>'] rest
    return (.cdata content, rest)
  | '<' :: '?' :: rest =>
    if ['x', 'm', 'l', ' '].isPrefixOf rest then none
    else (scanInstruction rest).map fun r => (.aside, r)
  | '<' :: '/' :: rest => scanCloseTag rest
  | '<' :: rest => scanOpenTag rest
  | _ => scanCharacterData cs

/-- The tokens of a text.  Every token takes characters, so `fuel` need not exceed
their number. -/
def scanXmlTokens : Nat → List Char → Option (List XmlToken)
  | _, [] => some []
  | 0, _ => none
  | fuel + 1, cs => do
    let (t, rest) ← scanXmlToken cs
    return t :: (← scanXmlTokens fuel rest)

/-! ### The declaration at the start -/

/-- Reads a part of the declaration if it is there: its name, and a quoted
value that fits. -/
def scanDeclared (name : List Char) (fits : List Char → Bool) (cs : List Char) :
    Option (Bool × List Char) :=
  match afterLead? name cs with
  | none => some (false, cs)
  | some rest => do
    let (value, rest) ← scanQuotedValue rest
    if fits value then some (true, rest) else none

/-- Passes white space, which has to be there unless the declaration ends. -/
def passDeclarationSpace (cs : List Char) : Option (List Char) :=
  if cs.head?.any isXmlSpace then some (cs.dropWhile isXmlSpace)
  else if ['?', '>'].isPrefixOf cs then some cs
  else none

def isVersionNumber : List Char → Bool
  | '1' :: '.' :: digits => digits.all Char.isDigit
  | _ => false

def isEncodingName (cs : List Char) : Bool :=
  cs.all fun c => c.isAlphanum || c = '.' || c = '-' || c = '_'

def isYesOrNo (cs : List Char) : Bool := cs = ['y', 'e', 's'] || cs = ['n', 'o']

/-- Reads a declaration behind its opening mark: a version, and an encoding and a
flag that may be missing. -/
def scanDeclaration (cs : List Char) : Option (List Char) := do
  let (versioned, rest) ←
    scanDeclared ['v', 'e', 'r', 's', 'i', 'o', 'n'] isVersionNumber (cs.dropWhile isXmlSpace)
  if !versioned then none
  else
    let rest ← passDeclarationSpace rest
    let (encoded, rest) ←
      scanDeclared ['e', 'n', 'c', 'o', 'd', 'i', 'n', 'g'] isEncodingName rest
    let rest ← if encoded then passDeclarationSpace rest else some rest
    let (_, rest) ←
      scanDeclared ['s', 't', 'a', 'n', 'd', 'a', 'l', 'o', 'n', 'e'] isYesOrNo rest
    afterLead? ['?', '>'] (rest.dropWhile isXmlSpace)

/-- The tokens of a document.  A byte order mark and a declaration may stand
at its start. -/
def xmlTokens? (text : String) : Option (List XmlToken) := do
  let cs := match text.toList with
    | '\uFEFF' :: rest => rest
    | cs => cs
  let body ← match afterLead? ['<', '?', 'x', 'm', 'l', ' '] cs with
    | some rest => scanDeclaration rest
    | none => some cs
  if cs.all isXmlChar then scanXmlTokens body.length body else none

end VariantSelection
