import Hella.Lib.Text
import Mathlib.Data.List.Nodup

/-!
# Documents and schemas

An XML document as a DOM parser delivers it, and the part of XML Schema that describes
elements by their attributes, their child elements and their text. Comments and the
attributes that declare namespaces or belong to schema instances are left out: a parser
that ignores comments does not deliver the former, and no declaration speaks of the latter.
-/
namespace Xml

inductive Node where
  | element (name : String) (attributes : List (String × String)) (children : List Node)
  | text (data : String)
  | instruction (target data : String)

namespace Node

def getNodeName : Node → String
  | element name _ _ => name
  | text _ => "#text"
  | instruction target _ => target

def isElement : Node → Bool
  | element _ _ _ => true
  | _ => false

def getChildNodes : Node → List Node
  | element _ _ children => children
  | _ => []

/-- `none` is null: no other node has attributes. -/
def getAttributes : Node → Option (List (String × String))
  | element _ attributes _ => some attributes
  | _ => none

/-- The value of an attribute the element carries. -/
def getAttribute (node : Node) (name : String) : Option String :=
  node.getAttributes.bind (List.lookup name)

/-- The text of an attribute, empty where there is none. -/
def attributeText (node : Node) (name : String) : String := (node.getAttribute name).getD ""

def elements (node : Node) : List Node := node.getChildNodes.filter isElement

mutual

def getTextContent : Node → String
  | element _ _ children => textContents children
  | text data => data
  | instruction _ data => data

/-- Instructions are no part of the text of an element. -/
def textContents : List Node → String
  | [] => ""
  | instruction _ _ :: rest => textContents rest
  | element name attributes children :: rest => getTextContent (element name attributes children) ++ textContents rest
  | text data :: rest => data ++ textContents rest

end

end Node

/-! ### Simple types -/

/-- The white space of XML. -/
def isSpace (c : Char) : Bool := [' ', '\t', '\n', '\r'].contains c

/-- A text without outer white space. The lexical forms of booleans and integers have no
white space inside, so nothing else has to be collapsed in them. -/
def collapse (text : String) : String := Text.strip isSpace text

def string (minLength maxLength : Nat) (text : String) : Bool :=
  decide (minLength ≤ text.length) && decide (text.length ≤ maxLength)

def enumeration (values : List String) (text : String) : Bool := values.contains text

/-- What a text of type boolean means. -/
def booleanValue (text : String) : Option Bool :=
  if collapse text = "true" ∨ collapse text = "1" then some true
  else if collapse text = "false" ∨ collapse text = "0" then some false
  else none

/-- What a text of type integer means: any number of digits after a sign, if there is one. -/
def integerValue (text : String) : Option Int := Text.parseInt (collapse text)

def boolean (text : String) : Bool := (booleanValue text).isSome

def integer (text : String) : Bool := (integerValue text).isSome

/-! ### Elements -/

/-- The declaration of an attribute: its name, whether it is required, its simple type. -/
structure Attribute where
  name : String
  required : Bool
  type : String → Bool

/-- An element of a name that carries the declared attributes, each at most once, and no others. -/
def declares (name : String) (attributes : List Attribute) : Node → Bool
  | .element elementName given _ =>
    elementName == name && decide (given.map Prod.fst).Nodup &&
      given.all (fun entry => attributes.any fun a => a.name == entry.1 && a.type entry.2) &&
      attributes.all (fun a => !a.required || given.any fun entry => entry.1 == a.name)
  | _ => false

section Declared

variable {name : String} {attributes : List Attribute} {node : Node} {a : Attribute}

theorem element_of_declares (valid : declares name attributes node = true) :
    ∃ given children, node = .element name given children := by
  cases node with
  | element elementName given children =>
    simp only [declares, Bool.and_eq_true, beq_iff_eq] at valid
    exact ⟨given, children, by rw [valid.1.1.1]⟩
  | text data => simp [declares] at valid
  | instruction target data => simp [declares] at valid

theorem required_of_declares (valid : declares name attributes node = true) (declared : a ∈ attributes)
    (required : a.required = true) : ∃ value, node.getAttribute a.name = some value := by
  obtain ⟨given, children, rfl⟩ := element_of_declares valid
  simp only [declares, Bool.and_eq_true, List.all_eq_true] at valid
  have present := valid.2 a declared
  simp only [required, Bool.not_true, Bool.false_or, List.any_eq_true, beq_iff_eq] at present
  obtain ⟨entry, member, same⟩ := present
  have found : (given.lookup a.name).isSome := by
    rw [List.lookup_isSome_iff]
    exact ⟨entry, member, by simp [same]⟩
  exact Option.isSome_iff_exists.mp found

/-- The value of a declared attribute is one of its type. -/
theorem typed_of_declares (valid : declares name attributes node = true) (declared : a ∈ attributes)
    (distinct : (attributes.map (·.name)).Nodup) {value : String}
    (read : node.getAttribute a.name = some value) : a.type value = true := by
  obtain ⟨given, children, rfl⟩ := element_of_declares valid
  simp only [declares, Bool.and_eq_true, List.all_eq_true] at valid
  have member : (a.name, value) ∈ given := by
    obtain ⟨before, after, rfl, -⟩ := List.lookup_eq_some_iff.mp read
    simp
  have accepted := valid.1.2 _ member
  simp only [List.any_eq_true, Bool.and_eq_true, beq_iff_eq] at accepted
  obtain ⟨other, inside, same, typed⟩ := accepted
  have equal : other = a := List.inj_on_of_nodup_map distinct inside declared same
  exact equal ▸ typed

end Declared

def isInstruction : Node → Bool
  | .instruction _ _ => true
  | _ => false

/-- Between the child elements there is only white space. -/
def elementOnly (node : Node) : Bool :=
  node.getChildNodes.all fun
    | .text data => data.toList.all isSpace
    | _ => true

/-- Without child elements and without text. -/
def emptyContent (node : Node) : Bool := node.getChildNodes.all isInstruction

/-- Without child elements, and with a text of a type. -/
def simpleContent (type : String → Bool) (node : Node) : Bool :=
  node.elements.isEmpty && type node.getTextContent

end Xml
