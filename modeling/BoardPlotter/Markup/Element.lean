/-!
# Elements

A document is a tree of elements. Names are local names: the namespace of an
element and the attributes that have one are not kept.
-/

namespace BoardPlotter

abbrev Attributes := List (String × String)

inductive Element where
  | mk (name : String) (attributes : Attributes) (children : List Element)

namespace Element

def name : Element → String
  | mk name _ _ => name

def attributes : Element → Attributes
  | mk _ attributes _ => attributes

def children : Element → List Element
  | mk _ _ children => children

/-- The value of an attribute. -/
def get? (e : Element) (key : String) : Option String := e.attributes.lookup key

end Element

end BoardPlotter
