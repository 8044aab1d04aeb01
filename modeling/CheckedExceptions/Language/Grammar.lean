import CheckedExceptions.Language.Terminal

/-!
The grammar of the source language. A rule of the grammar is written with optional parts; each rule
stands for the productions got by keeping or dropping every optional part. Repetitions are
left-recursive nonterminals of their own. A production with a label builds a node of that name in
the syntax tree, one without a label hands its children on to the node around it.
-/
namespace CheckedExceptions.Language

inductive NonTerminal
  | root | start | items | item | exceptionDecl
  | markers | ctorMarkers | markerSeq | marker | typeArgs | typeArgTail | markerArgs
  | markerArgTail | markerArg
  | funcDef | ctorDef | paramsDecl | paramTail | param
  | classDef | extendsClause | mixinTail | classBody | members | member
  | stmt | block | stmts | letStmt | assignStmt | raiseStmt | returnStmt | ifStmt | elseBranch
  | whileStmt | tryStmt | catches | finallyClause | catchClause | guard | pattern | patternTail
  | exprStmt | expr | selection | args | argTail | atom
deriving DecidableEq, Repr

def NonTerminal.all : List NonTerminal :=
  [.root, .start, .items, .item, .exceptionDecl, .markers, .ctorMarkers, .markerSeq, .marker,
    .typeArgs, .typeArgTail, .markerArgs, .markerArgTail, .markerArg, .funcDef, .ctorDef,
    .paramsDecl, .paramTail, .param, .classDef, .extendsClause, .mixinTail, .classBody, .members,
    .member, .stmt, .block, .stmts, .letStmt, .assignStmt, .raiseStmt, .returnStmt, .ifStmt,
    .elseBranch, .whileStmt, .tryStmt, .catches, .finallyClause, .catchClause, .guard, .pattern,
    .patternTail, .exprStmt, .expr, .selection, .args, .argTail, .atom]

/-- The names of the nodes of a syntax tree. -/
inductive Label
  | start | exceptionDecl | markers | ctorMarkers | marker | typeArgs | markerArgs | classLiteral
  | stringArg | numberArg | nameArg | funcDef | ctorDef | paramsDecl | param | classDef
  | extendsClause | classBody | block | letStmt | assignStmt | raiseStmt | returnStmt | ifStmt
  | whileStmt | tryStmt | finallyClause | catchClause | guard | typePattern | extractorPattern
  | bindPattern | exprStmt | binary | methodCall | call | newExpr | thisCall | args | ref | string
  | number | trueLit | falseLit | thisRef
deriving DecidableEq, Repr

def Label.text : Label → String
  | start => "start"
  | exceptionDecl => "exception_decl"
  | markers => "markers"
  | ctorMarkers => "ctor_markers"
  | marker => "marker"
  | typeArgs => "type_args"
  | markerArgs => "marker_args"
  | classLiteral => "class_literal"
  | stringArg => "string_arg"
  | numberArg => "number_arg"
  | nameArg => "name_arg"
  | funcDef => "func_def"
  | ctorDef => "ctor_def"
  | paramsDecl => "params_decl"
  | param => "param"
  | classDef => "class_def"
  | extendsClause => "extends_clause"
  | classBody => "class_body"
  | block => "block"
  | letStmt => "let_stmt"
  | assignStmt => "assign_stmt"
  | raiseStmt => "raise_stmt"
  | returnStmt => "return_stmt"
  | ifStmt => "if_stmt"
  | whileStmt => "while_stmt"
  | tryStmt => "try_stmt"
  | finallyClause => "finally_clause"
  | catchClause => "catch_clause"
  | guard => "guard"
  | typePattern => "type_pattern"
  | extractorPattern => "extractor_pattern"
  | bindPattern => "bind_pattern"
  | exprStmt => "expr_stmt"
  | binary => "binary"
  | methodCall => "method_call"
  | call => "call"
  | newExpr => "new_expr"
  | thisCall => "this_call"
  | args => "args"
  | ref => "ref"
  | string => "string"
  | number => "number"
  | trueLit => "true_lit"
  | falseLit => "false_lit"
  | thisRef => "this_ref"

inductive Symbol
  | terminal (t : Terminal)
  | nonTerminal (n : NonTerminal)
deriving DecidableEq, Repr

/-- Different symbols have different codes. -/
def Symbol.code : Symbol → Nat
  | terminal t => t.code
  | nonTerminal n => Terminal.count + n.ctorIdx

/-- A production derives `rhs` from `lhs`. With a label it makes a tree node, without one its
children stand in its place. -/
structure Production where
  lhs : NonTerminal
  label : Option Label
  rhs : List Symbol
deriving DecidableEq, Repr

/-- A piece of the right-hand side of a rule. -/
inductive Part
  | one (s : Symbol)
  | optional (ss : List Symbol)

/-- The right-hand sides that a list of parts stands for. -/
def Part.expand : List Part → List (List Symbol)
  | [] => [[]]
  | .one s :: parts => (expand parts).map (s :: ·)
  | .optional ss :: parts => (expand parts).map (ss ++ ·) ++ expand parts

namespace Grammar

def tok (t : Terminal) : Part := .one (.terminal t)

def kw (k : Keyword) : Part := .one (.terminal (.word k))

def punct (m : Mark) : Part := .one (.terminal (.mark m))

def nt (n : NonTerminal) : Part := .one (.nonTerminal n)

def opt (n : NonTerminal) : Part := .optional [.nonTerminal n]

/-- A rule that builds a node. -/
def node (lhs : NonTerminal) (label : Label) (parts : List Part) : List Production :=
  (Part.expand parts).map fun rhs => ⟨lhs, some label, rhs⟩

/-- A rule that stands for one of several alternatives. -/
def choice (lhs : NonTerminal) (alternatives : List NonTerminal) : List Production :=
  alternatives.map fun n => ⟨lhs, none, [.nonTerminal n]⟩

/-- One or more of the given group of symbols. -/
def repeated (lhs : NonTerminal) (group : List Symbol) : List Production :=
  [⟨lhs, none, .nonTerminal lhs :: group⟩, ⟨lhs, none, group⟩]

/-- One or more nonterminals, each with a comma before it. -/
def commaTail (lhs : NonTerminal) (element : Symbol) : List Production :=
  repeated lhs [.terminal (.mark .comma), element]

/-- An optional type after a colon. -/
def optType : Part := .optional [.terminal (.mark .colon), .terminal .name]

def declarations : List (List Production) :=
  [ node .exceptionDecl .exceptionDecl
      [kw .exceptionKw, tok .name, .optional [.terminal (.word .extendsKw), .terminal .name]],
    node .markers .markers [nt .markerSeq],
    node .ctorMarkers .ctorMarkers [nt .markerSeq],
    repeated .markerSeq [.nonTerminal .marker],
    node .marker .marker [punct .atSign, tok .name, opt .typeArgs, opt .markerArgs],
    node .typeArgs .typeArgs
      [punct .leftBracket, tok .name, opt .typeArgTail, punct .rightBracket],
    commaTail .typeArgTail (.terminal .name),
    node .markerArgs .markerArgs [punct .leftParen, punct .rightParen],
    node .markerArgs .markerArgs
      [punct .leftParen, nt .markerArg, opt .markerArgTail, punct .rightParen],
    commaTail .markerArgTail (.nonTerminal .markerArg),
    node .markerArg .classLiteral
      [kw .classOfKw, punct .leftBracket, tok .name, punct .rightBracket],
    node .markerArg .stringArg [tok .string],
    node .markerArg .numberArg [tok .number],
    node .markerArg .nameArg [tok .name],
    node .funcDef .funcDef
      [opt .markers, kw .defKw, tok .name, nt .paramsDecl, optType, nt .block],
    node .ctorDef .ctorDef [opt .markers, kw .defKw, kw .thisKw, nt .paramsDecl, nt .block],
    node .paramsDecl .paramsDecl [punct .leftParen, punct .rightParen],
    node .paramsDecl .paramsDecl
      [punct .leftParen, nt .param, opt .paramTail, punct .rightParen],
    commaTail .paramTail (.nonTerminal .param),
    node .param .param [tok .name, punct .colon, tok .name],
    node .classDef .classDef
      [opt .markers, kw .classKw, tok .name, opt .paramsDecl, opt .ctorMarkers,
        opt .extendsClause, nt .classBody],
    node .extendsClause .extendsClause [kw .extendsKw, tok .name, opt .mixinTail],
    repeated .mixinTail [.terminal (.word .withKw), .terminal .name],
    node .classBody .classBody [punct .leftBrace, opt .members, punct .rightBrace],
    repeated .members [.nonTerminal .member],
    choice .member [.funcDef, .ctorDef, .classDef, .stmt] ]

def statements : List (List Production) :=
  [ choice .stmt
      [.letStmt, .assignStmt, .raiseStmt, .returnStmt, .ifStmt, .whileStmt, .tryStmt, .block,
        .exprStmt],
    node .block .block [punct .leftBrace, opt .stmts, punct .rightBrace],
    repeated .stmts [.nonTerminal .stmt],
    node .letStmt .letStmt [kw .letKw, tok .name, optType, punct .equal, nt .expr],
    node .assignStmt .assignStmt [tok .name, punct .equal, nt .expr],
    node .raiseStmt .raiseStmt [kw .raiseKw, nt .expr],
    node .returnStmt .returnStmt [kw .returnKw, nt .expr],
    node .ifStmt .ifStmt
      [kw .ifKw, punct .leftParen, nt .expr, punct .rightParen, nt .block,
        .optional [.terminal (.word .elseKw), .nonTerminal .elseBranch]],
    choice .elseBranch [.block, .ifStmt],
    node .whileStmt .whileStmt
      [kw .whileKw, punct .leftParen, nt .expr, punct .rightParen, nt .block],
    node .tryStmt .tryStmt [kw .tryKw, nt .block, opt .catches, opt .finallyClause],
    repeated .catches [.nonTerminal .catchClause],
    node .finallyClause .finallyClause [kw .finallyKw, nt .block],
    node .catchClause .catchClause
      [kw .catchKw, punct .leftParen, nt .pattern, opt .guard, punct .rightParen, nt .block],
    node .guard .guard [kw .ifKw, nt .expr],
    node .pattern .typePattern [tok .name, punct .colon, tok .name],
    node .pattern .extractorPattern [tok .name, punct .leftParen, punct .rightParen],
    node .pattern .extractorPattern
      [tok .name, punct .leftParen, nt .pattern, opt .patternTail, punct .rightParen],
    commaTail .patternTail (.nonTerminal .pattern),
    node .pattern .bindPattern [tok .name],
    node .exprStmt .exprStmt [nt .expr] ]

def expressions : List (List Production) :=
  [ choice .expr [.selection],
    node .expr .binary [nt .expr, tok .operator, nt .selection],
    choice .selection [.atom],
    node .selection .methodCall
      [nt .selection, punct .dot, tok .name, punct .leftParen, opt .args, punct .rightParen],
    node .selection .call [tok .name, punct .leftParen, opt .args, punct .rightParen],
    node .selection .newExpr
      [kw .newKw, tok .name, punct .leftParen, opt .args, punct .rightParen],
    node .selection .thisCall [kw .thisKw, punct .leftParen, opt .args, punct .rightParen],
    node .args .args [nt .expr, opt .argTail],
    commaTail .argTail (.nonTerminal .expr),
    node .atom .ref [tok .name],
    node .atom .string [tok .string],
    node .atom .number [tok .number],
    node .atom .trueLit [kw .trueKw],
    node .atom .falseLit [kw .falseKw],
    node .atom .thisRef [kw .thisKw] ]

/-- The first production is the only one for `root`: a whole text, then its end. -/
def productions : List Production :=
  ⟨.root, none, [.nonTerminal .start, .terminal .endOfText]⟩ ::
  (node .start .start [opt .items] ++ repeated .items [.nonTerminal .item] ++
    choice .item [.exceptionDecl, .funcDef, .classDef, .stmt] ++
    declarations.flatten ++ statements.flatten ++ expressions.flatten)

end Grammar

end CheckedExceptions.Language
