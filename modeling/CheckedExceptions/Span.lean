/-!
Source locations. Every part of a location may be unknown; columns and lines are whatever the
producer of the tree wrote, so they are integers.
-/
namespace CheckedExceptions

structure Span where
  file : Option String := none
  line : Option Int := none
  column : Option Int := none
  endLine : Option Int := none
  endColumn : Option Int := none
deriving DecidableEq, Repr, Inhabited

namespace Span

/-- The known parts of `file:line:column`. A line without a column is shown with column zero, and
an empty file name counts as unknown. -/
def render (s : Span) : String :=
  let file := (s.file.filter (· ≠ "")).toList
  let place := (s.line.map fun line => s!"{line}:{s.column.getD 0}").toList
  match file ++ place with
  | [] => "<unknown location>"
  | parts => ":".intercalate parts

end Span

end CheckedExceptions
