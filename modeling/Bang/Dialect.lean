/-! The language has two dialects. They share their tokens, statements and expressions. -/

namespace Bang

/-- `extended` adds functions, keeps every name to one type for a whole session, and warns about
variables and functions that nothing uses. -/
inductive Dialect where
  | basic
  | extended
  deriving DecidableEq, Repr, Inhabited

end Bang
