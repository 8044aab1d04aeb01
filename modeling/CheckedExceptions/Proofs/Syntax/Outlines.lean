import CheckedExceptions.Proofs.Syntax.Branches
import CheckedExceptions.Proofs.Syntax.Rows

/-!
Where the parts of a program stand. Reading a program from its tree leaves out some of the tree and
puts what is inside a node in the place of the node, but it changes no order. So the outlines of a
program that was read from a text stand in a row, and so do those inside each of them.
-/
namespace CheckedExceptions.Language

open Outline

section Programs

mutual

def Expr.outline : Expr → Outline
  | .ref _ x | .this x | .string _ x | .number _ x | .truth _ x => .mk x []
  | .call _ args x | .new _ args x | .thisCall args x => .mk x (Expr.outlines args)
  | .methodCall receiver _ args x => .mk x (receiver.outline :: Expr.outlines args)
  | .binary _ left right x => .mk x [left.outline, right.outline]

def Expr.outlines : List Expr → List Outline
  | [] => []
  | e :: es => e.outline :: Expr.outlines es

end

mutual

def Pattern.outline : Pattern → Outline
  | .typed _ _ x | .bind _ x => .mk x []
  | .extractor _ args x => .mk x (Pattern.outlines args)

def Pattern.outlines : List Pattern → List Outline
  | [] => []
  | p :: ps => p.outline :: Pattern.outlines ps

end

mutual

def Stmt.outline : Stmt → Outline
  | .letBinding _ _ value x | .assign _ value x | .raise value x | .returning value x =>
    .mk x [value.outline]
  | .ifElse condition thenBlock none x => .mk x [condition.outline, thenBlock.outline]
  | .ifElse condition thenBlock (some elseBranch) x =>
    .mk x [condition.outline, thenBlock.outline, elseBranch.outline]
  | .whileLoop condition body x => .mk x [condition.outline, body.outline]
  | .tryCatch body handlers none x => .mk x (body.outline :: Handler.outlines handlers)
  | .tryCatch body handlers (some finalizer) x =>
    .mk x (body.outline :: (Handler.outlines handlers ++ [finalizer.outline]))
  | .block b => b.outline
  | .expr e => e.outline

def Stmt.outlines : List Stmt → List Outline
  | [] => []
  | s :: ss => s.outline :: Stmt.outlines ss

def Block.outline : Block → Outline
  | .mk stmts x => .mk x (Stmt.outlines stmts)

def Handler.outline : Handler → Outline
  | .mk pattern guard body x =>
    .mk x ([pattern.outline] ++ ((guard.map Expr.outline).toList ++ [body.outline]))

def Handler.outlines : List Handler → List Outline
  | [] => []
  | h :: hs => h.outline :: Handler.outlines hs

end

/-- The outlines of the statements in a block. -/
def Block.parts : Block → List Outline
  | .mk stmts _ => Stmt.outlines stmts

/-- A function has the statements of its body directly inside it. -/
def FuncDecl.outline (f : FuncDecl) : Outline := .mk f.extent f.body.parts

def CtorDecl.outline (k : CtorDecl) : Outline := .mk k.extent k.body.parts

mutual

def ClassDecl.outline : ClassDecl → Outline
  | .mk _ _ _ _ _ members x => .mk x (Member.outlines members)

def Member.outline : Member → Outline
  | .func f => f.outline
  | .ctor k => k.outline
  | .classDecl k => k.outline
  | .stmt s => s.outline

def Member.outlines : List Member → List Outline
  | [] => []
  | m :: ms => m.outline :: Member.outlines ms

end

/-- The outline of an item, unless it declares an exception type. -/
def Item.outlines : Item → List Outline
  | .exception _ => []
  | .func f => [f.outline]
  | .classDecl k => [k.outline]
  | .stmt s => [s.outline]

def Program.outlines (p : Program) : List Outline := p.items.flatMap Item.outlines

end Programs

namespace Ast

section Parts

variable {t : Tree} {ts : List Tree} {o : Outline} {os : List Outline}

end Parts

end Ast

end CheckedExceptions.Language
