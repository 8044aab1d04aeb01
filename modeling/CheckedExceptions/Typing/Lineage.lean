import CheckedExceptions.Typing.Declarations

/-!
Superclasses. The ancestors of a class are found breadth first along `extends` and `with`, so they
come nearest first and each once, even where the classes extend each other in a circle. A method
overrides the methods of the same name in all ancestors.
-/
namespace CheckedExceptions.Typing

namespace Declarations

variable (s : Site) (d : Declarations)

/-- The parents of a class that have not been seen yet, in order. -/
def unseenParents (c : ClassEntry) : List String → List String → Except Error (List ClassEntry)
  | _, [] => .ok []
  | seen, p :: ps =>
    match d.class? p with
    | none => s.fail (.unknownSuperclass p c.name) c.extent
    | some parent =>
      if parent.name ∈ seen then unseenParents c seen ps
      else do return parent :: (← unseenParents c (parent.name :: seen) ps)

/-- Breadth-first search from the classes that wait. Every class waits at most once, so as many
steps as there are classes, and one for the class itself, are enough. -/
def search : Nat → List ClassEntry → List String → Except Error (List ClassEntry)
  | 0, _, _ => .ok []
  | _ + 1, [], _ => .ok []
  | steps + 1, c :: waiting, seen => do
    let found ← unseenParents s d c seen c.parents
    return found ++ (← search steps (waiting ++ found) (found.map (·.name) ++ seen))

def ancestors (c : ClassEntry) : Except Error (List ClassEntry) :=
  search s d (d.classes.length + 1) [c] [c.name]

/-- The pairs of a method of the class and a method that it overrides. -/
def overridePairs (c : ClassEntry) : Except Error (List (Symbol × Symbol)) := do
  let ancestors ← ancestors s d c
  return c.methods.flatMap fun (name, m) =>
    (ancestors.filterMap (·.method? name)).map fun overridden => (m.symbol, overridden.symbol)

def overrides : Except Error Overrides := do
  let pairs ← d.classes.mapM (overridePairs s d)
  return pairs.flatten.foldl (fun (o : Overrides) (m, overridden) => o.add m overridden) {}

/-- The method that a call on a class means: its own, or that of the nearest ancestor. -/
def methodOf (c : ClassEntry) (name : String) : Except Error (Option Callable) :=
  match c.method? name with
  | some m => .ok (some m)
  | none => do return (← ancestors s d c).findSome? (·.method? name)

end Declarations

end CheckedExceptions.Typing
