import PagedCache.Json.Token
import PagedCache.Json.Value

/-!
# JSON documents

A document keeps what a text says before it is a value: literals, repeated member
names, and strings that denote no text.  Documents are read by a machine with one
stack; `Document.toValue?` then gives the value, if there is one.
-/

namespace PagedCache.Json

inductive Document where
  | null
  | bool (flag : Bool)
  | number (literal : Literal)
  | string (text : Option String)
  | array (items : List Document)
  | object (members : List (Option String × Document))
  deriving Repr, Inhabited

namespace Document

/-- A container that is still open, with its last entry first. -/
inductive Frame where
  | array (items : List Document)
  | object (members : List (Option String × Document)) (name : Option String)

/-- What has to come next, and the open containers from the inside out. -/
inductive State where
  /-- A value. -/
  | value (frames : List Frame)
  /-- The first item of an array, or its end. -/
  | firstItem (frames : List Frame)
  /-- The first member of an object, or its end. -/
  | firstMember (frames : List Frame)
  /-- A further member of an object. -/
  | member (members : List (Option String × Document)) (frames : List Frame)
  /-- The colon after a member name. -/
  | colon (members : List (Option String × Document)) (name : Option String)
      (frames : List Frame)
  /-- A comma, or the end of the innermost container. -/
  | separator (frame : Frame) (frames : List Frame)
  /-- Nothing. -/
  | done (document : Document)

/-- A complete document goes into the innermost container. -/
def deliver (document : Document) : List Frame → State
  | [] => .done document
  | .array items :: frames => .separator (.array (document :: items)) frames
  | .object members name :: frames =>
    .separator (.object ((name, document) :: members) none) frames

/-- The container with all its entries. -/
def Frame.close : Frame → Document
  | array items => .array items.reverse
  | object members _ => .object members.reverse

/-- Read a token where a value may stand. -/
def readValue (frames : List Frame) : Token → Option State
  | .openObject => some (.firstMember frames)
  | .openArray => some (.firstItem frames)
  | .null => some (deliver .null frames)
  | .bool flag => some (deliver (.bool flag) frames)
  | .number literal => some (deliver (.number literal) frames)
  | .string text => some (deliver (.string text) frames)
  | _ => none

/-- One step of the machine. -/
def step : State → Token → Option State
  | .value frames, token => readValue frames token
  | .firstItem frames, .closeArray => some (deliver (.array []) frames)
  | .firstItem frames, token => readValue (.array [] :: frames) token
  | .firstMember frames, .closeObject => some (deliver (.object []) frames)
  | .firstMember frames, .string name => some (.colon [] name frames)
  | .member members frames, .string name => some (.colon members name frames)
  | .colon members name frames, .colon => some (.value (.object members name :: frames))
  | .separator (.array items) frames, .comma => some (.value (.array items :: frames))
  | .separator (.array items) frames, .closeArray =>
    some (deliver (Frame.array items).close frames)
  | .separator (.object members _) frames, .comma => some (.member members frames)
  | .separator (.object members name) frames, .closeObject =>
    some (deliver (Frame.object members name).close frames)
  | _, _ => none

/-- The document that the tokens spell. -/
def ofTokens? (tokens : List Token) : Option Document :=
  match tokens.foldlM step (.value []) with
  | some (.done document) => some document
  | _ => none

/-- Read a document. -/
def parse? (text : String) : Option Document :=
  (Token.lex text.toList).bind ofTokens?

mutual

/-- The number of containers around the innermost value. -/
def depth : Document → Nat
  | .array items => depthOfItems items + 1
  | .object members => depthOfMembers members + 1
  | _ => 0

def depthOfItems : List Document → Nat
  | [] => 0
  | item :: rest => max item.depth (depthOfItems rest)

def depthOfMembers : List (Option String × Document) → Nat
  | [] => 0
  | (_, document) :: rest => max document.depth (depthOfMembers rest)

end

mutual

/-- The value of the document, at any depth.  Of repeated members the last one
counts; strings without a text and numbers out of range have no value. -/
def evaluate : Document → Option Value
  | .null => some .null
  | .bool flag => some (.bool flag)
  | .number literal => literal.toNumber?.map .number
  | .string text => text.map .string
  | .array items => (evaluateItems items).map .array
  | .object members =>
    (evaluateMembers members).map fun values => .object (OrderedEntries.ofList values)

def evaluateItems : List Document → Option (List Value)
  | [] => some []
  | item :: rest =>
    match item.evaluate, evaluateItems rest with
    | some value, some values => some (value :: values)
    | _, _ => none

def evaluateMembers : List (Option String × Document) → Option (List (String × Value))
  | [] => some []
  | (name, document) :: rest =>
    match name, document.evaluate, evaluateMembers rest with
    | some name, some value, some values => some ((name, value) :: values)
    | _, _, _ => none

end

/-- Containers may be nested this deep. -/
def maxDepth : Nat := 127

/-- The value of the document. -/
def toValue? (document : Document) : Option Value :=
  if document.depth ≤ maxDepth then document.evaluate else none

end Document

/-- Read a value. -/
def Value.parse? (text : String) : Option Value :=
  (Document.parse? text).bind Document.toValue?

end PagedCache.Json
