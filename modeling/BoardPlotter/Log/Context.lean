import BoardPlotter.Value

/-!
# Log context

Fields that go with every record until they are taken away.
-/

namespace BoardPlotter

abbrev Context := Fields

namespace Context

def push (c : Context) (fields : Fields) : Context := Fields.merge c fields

/-- Takes fields away, or all of them. -/
def pop (c : Context) : Option (List String) → Context
  | some keys => Fields.without c keys
  | none => []

end Context

end BoardPlotter
