namespace EcmaPattern.Property

/-! # Values of a property -/

/-- The values of a property: the canonical name of each, and its other names. -/
abbrev Values := List (String × List String)

/-- Whether `name` is one of the names of a value. -/
def Values.hasName (values : Values) (name : String) : Bool :=
  values.any fun (canonical, others) => name == canonical || others.contains name

end EcmaPattern.Property
