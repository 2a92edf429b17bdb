import Mathlib.Data.List.Basic

/-!
# XML documents

`KXMLDoc` of `kamo_xml.hh`, as far as the project files need it. It gives the elements and their
attributes as they have been written, in the same order. All attributes read here are numbers.
-/

namespace Vuknob

/-- An element with its tag, its attributes and the elements in it. -/
inductive XmlElement
  | mk (tag : String) (attributes : List (String × Int)) (children : List XmlElement)

namespace XmlElement

def tag : XmlElement → String
  | mk tag _ _ => tag

def attributes : XmlElement → List (String × Int)
  | mk _ attributes _ => attributes

def children : XmlElement → List XmlElement
  | mk _ _ children => children

/-- The elements in it that have a tag. -/
def tagged (e : XmlElement) (tag : String) : List XmlElement :=
  e.children.filter fun c ↦ c.tag = tag

end XmlElement

/-- `KXMLDoc`: elements with one tag. `get_count` is their number; what is read from a document is
read from the first of them. -/
abbrev KXMLDoc := List XmlElement

namespace KXMLDoc

/-- The elements with a tag in a document; it throws where there are none. -/
def child (doc : KXMLDoc) (tag : String) : Option KXMLDoc :=
  match doc with
  | [] => none
  | e :: _ => if (e.tagged tag).isEmpty then none else some (e.tagged tag)

/-- `KXML_GET_NUMBER`: an attribute, or the default where there is none. -/
def getNumber (doc : KXMLDoc) (name : String) (default : Int) : Int :=
  (doc.head?.bind fun e ↦ e.attributes.lookup name).getD default

/-- The documents that a loop over `doc[tag][k]` reads, where an exception is ignored. -/
theorem getD_child (e : XmlElement) (es : List XmlElement) (tag : String) :
    (child (e :: es) tag).getD [] = e.tagged tag := by
  rw [child]
  split
  · next hempty => rw [Option.getD_none, List.isEmpty_iff.mp hempty]
  · rfl

end KXMLDoc

end Vuknob
