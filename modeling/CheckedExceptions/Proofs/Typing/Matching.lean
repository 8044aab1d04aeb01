import CheckedExceptions.Proofs.Typing.Definitions
import CheckedExceptions.Proofs.Typing.Reordering

/-!
The two passes over a program match. The second pass looks up what the first one has declared, and
finds for every function, class, method and constructor the entry of that very declaration. So the
definitions of a tree, listed from the outside in and in the order of the text, are the declarations
of the program, one by one, and all of them have the names and the markers that the text gives them.
-/
namespace CheckedExceptions

section Preorder

mutual

/-- The nodes of a tree, each one in front of its parts. An empty place has none. -/
def Node.preorder : Node → List Node
  | .absent => []
  | .foreign name => [.foreign name]
  | .unit body span => .unit body span :: Node.preorderAll body
  | .classDef symbol ctor body span =>
    .classDef symbol ctor body span :: Node.preorderAll body
  | .funcDef symbol params body span =>
    .funcDef symbol params body span :: Node.preorderAll body
  | .tryCatch body clauses finalizer span =>
    .tryCatch body clauses finalizer span ::
      (body.preorder ++ Clause.preorderAll clauses ++ finalizer.preorder)
  | .clause c => .clause c :: c.preorder
  | .raise value type span => .raise value type span :: value.preorder
  | .invoke how symbol operands type span =>
    .invoke how symbol operands type span :: Node.preorderAll operands
  | .plain form parts span => .plain form parts span :: Node.preorderAll parts

def Node.preorderAll : List Node → List Node
  | [] => []
  | n :: ns => n.preorder ++ Node.preorderAll ns

/-- The nodes in the parts of a clause. -/
def Clause.preorder : Clause → List Node
  | .mk pattern guard body _ => pattern.preorder ++ guard.preorder ++ body.preorder

def Clause.preorderAll : List Clause → List Node
  | [] => []
  | c :: cs => .clause c :: c.preorder ++ Clause.preorderAll cs

end

namespace Node

theorem preorderAll_eq (ns : List Node) : preorderAll ns = ns.flatMap preorder := by
  induction ns with
  | nil => rfl
  | cons n ns ih => rw [preorderAll, ih, List.flatMap_cons]

theorem clause_preorderAll_eq (cs : List Clause) :
    Clause.preorderAll cs = (cs.map clause).flatMap preorder := by
  induction cs with
  | nil => rfl
  | cons c cs ih => rw [Clause.preorderAll, ih, List.map_cons, List.flatMap_cons, preorder]

theorem preorder_present (ns : List Node) :
    (present ns).flatMap preorder = ns.flatMap preorder := by
  induction ns with
  | nil => rfl
  | cons n ns ih =>
    rw [List.flatMap_cons, ← ih]
    cases n <;> rfl

/-- A node, and then its parts in order. -/
theorem preorder_eq {n : Node} (h : n ≠ .absent) :
    n.preorder = n :: n.children.flatMap preorder := by
  cases n with
  | absent => exact absurd rfl h
  | foreign name => rfl
  | unit body span => rw [preorder, preorderAll_eq]; rfl
  | classDef symbol ctor body span => rw [preorder, preorderAll_eq]; rfl
  | funcDef symbol params body span => rw [preorder, preorderAll_eq]; rfl
  | tryCatch body clauses finalizer span =>
    rw [preorder, children, List.cons_append, List.flatMap_cons, List.flatMap_append,
      preorder_present, clause_preorderAll_eq, List.flatMap_singleton, List.append_assoc]
  | clause c =>
    obtain ⟨pattern, guard, body, span⟩ := c
    rw [preorder, children, preorder_present, Clause.preorder]
    simp
  | raise value type span => rw [preorder, children, List.flatMap_singleton]
  | invoke how symbol operands type span => rw [preorder, preorderAll_eq]; rfl
  | plain form parts span => rw [preorder, preorderAll_eq]; rfl

/-- The walk from a node to its parts comes to all nodes inside a tree. -/
theorem mem_preorder_of_inside {t n : Node} (h : t.Inside n) (hn : n ≠ .absent) :
    n ∈ t.preorder := by
  induction h using Relation.ReflTransGen.head_induction_on with
  | refl =>
    rw [preorder_eq hn]
    exact List.mem_cons_self
  | @head t child hchild _ ih =>
    have ht : t ≠ .absent := by
      rintro rfl
      cases hchild
    rw [preorder_eq ht]
    exact List.mem_cons_of_mem _ (List.mem_flatMap.mpr ⟨child, hchild, ih⟩)

/-- The symbols that a node defines by itself. -/
def ownSymbols : Node → List Symbol
  | classDef symbol ctor _ _ => [symbol, ctor]
  | funcDef symbol _ _ _ => [symbol]
  | _ => []

end Node

mutual

theorem Node.ownSymbols_preorder : ∀ n : Node,
    n.preorder.flatMap Node.ownSymbols = n.definedSymbols
  | .absent => rfl
  | .foreign _ => rfl
  | .unit body _ => Node.ownSymbols_preorderAll body
  | .classDef symbol ctor body _ =>
    congrArg (symbol :: ctor :: ·) (Node.ownSymbols_preorderAll body)
  | .funcDef symbol _ body _ => congrArg (symbol :: ·) (Node.ownSymbols_preorderAll body)
  | .tryCatch body clauses finalizer span => by
    have hbody := Node.ownSymbols_preorder body
    have hclauses := Clause.ownSymbols_preorderAll clauses
    have hfinalizer := Node.ownSymbols_preorder finalizer
    rw [Node.preorder, List.flatMap_cons, List.flatMap_append, List.flatMap_append, hbody,
      hclauses, hfinalizer]
    rfl
  | .clause c => Clause.ownSymbols_preorder c
  | .raise value _ _ => Node.ownSymbols_preorder value
  | .invoke _ _ operands _ _ => Node.ownSymbols_preorderAll operands
  | .plain _ parts _ => Node.ownSymbols_preorderAll parts

theorem Node.ownSymbols_preorderAll : ∀ ns : List Node,
    (Node.preorderAll ns).flatMap Node.ownSymbols = Node.definedSymbolsAll ns
  | [] => rfl
  | n :: ns => by
    rw [Node.preorderAll, List.flatMap_append, Node.ownSymbols_preorder n,
      Node.ownSymbols_preorderAll ns, Node.definedSymbolsAll]

theorem Clause.ownSymbols_preorder : ∀ c : Clause,
    c.preorder.flatMap Node.ownSymbols = c.definedSymbols
  | .mk pattern guard body _ => by
    rw [Clause.preorder, List.flatMap_append, List.flatMap_append, Node.ownSymbols_preorder pattern,
      Node.ownSymbols_preorder guard, Node.ownSymbols_preorder body, Clause.definedSymbols]

theorem Clause.ownSymbols_preorderAll : ∀ cs : List Clause,
    (Clause.preorderAll cs).flatMap Node.ownSymbols = Clause.definedSymbolsAll cs
  | [] => rfl
  | c :: cs => by
    rw [Clause.preorderAll, List.flatMap_append, List.flatMap_cons, Clause.ownSymbols_preorder c,
      Clause.ownSymbols_preorderAll cs, Clause.definedSymbolsAll]
    rfl

end

end Preorder

/-- What a class is made of: its symbol, its primary constructor, and the symbols and parameters of
its methods and of its other constructors. -/
structure ClassParts where
  symbol : Symbol
  ctor : Symbol
  methods : List (Symbol × List String)
  otherCtors : List (Symbol × List String)
deriving DecidableEq

namespace Node

/-- The symbol and the parameters of a definition of the given kind. -/
def heading? (kind : SymbolKind) : Node → Option (Symbol × List String)
  | funcDef symbol params _ _ => if symbol.kind = kind then some (symbol, params) else none
  | _ => none

def classParts? : Node → Option ClassParts
  | classDef symbol ctor body _ =>
    some ⟨symbol, ctor, body.filterMap (heading? .method), body.filterMap (heading? .constructor)⟩
  | _ => none

/-- The classes of a tree, from the outside in. -/
def classes (n : Node) : List ClassParts := n.preorder.filterMap classParts?

def classesAll (ns : List Node) : List ClassParts := (preorderAll ns).filterMap classParts?

theorem classesAll_cons (n : Node) (ns : List Node) :
    classesAll (n :: ns) = n.classes ++ classesAll ns :=
  List.filterMap_append

end Node

namespace Typing

open CheckedExceptions.Language

def Callable.heading (f : Callable) : CheckedExceptions.Symbol × List String := (f.symbol, f.params)

def ClassEntry.toParts (c : ClassEntry) : ClassParts :=
  ⟨c.symbol, c.ctor, c.methods.map (·.2.heading), c.otherCtors.map Callable.heading⟩

/-- The classes of a list of declarations, in order. -/
def declaredClasses (decls : List Declaration) : List ClassParts :=
  (decls.filterMap Declaration.class?).map ClassEntry.toParts

theorem declaredClasses_append (decls decls' : List Declaration) :
    declaredClasses (decls ++ decls') = declaredClasses decls ++ declaredClasses decls' := by
  rw [declaredClasses, List.filterMap_append, List.map_append]
  rfl

namespace Context

variable {c : Context}

theorem Bare.heading?_eq_none {n : Node} (h : Bare n) (kind : SymbolKind) :
    n.heading? kind = none := by
  cases n with
  | funcDef symbol params body span => cases h
  | _ => rfl

theorem classParts?_eq_none {n : Node} (h : n.ownSymbols = []) : n.classParts? = none := by
  cases n with
  | classDef symbol ctor body span => cases h
  | _ => rfl

theorem BareAll.classesAll_eq_nil {ns : List Node} (h : BareAll ns) : Node.classesAll ns = [] := by
  have hown : ∀ n ∈ Node.preorderAll ns, n.ownSymbols = [] := by
    rw [← List.flatMap_eq_nil_iff, Node.ownSymbols_preorderAll]
    exact h
  exact List.filterMap_eq_nil_iff.mpr fun n hn => classParts?_eq_none (hown n hn)

theorem Bare.classes_eq_nil {n : Node} (h : Bare n) : n.classes = [] := by
  have hall : Node.classesAll [n] = [] := (BareAll.cons h bareAll_nil).classesAll_eq_nil
  rw [Node.classesAll_cons] at hall
  exact (List.append_eq_nil_iff.mp hall).1

/-- A function node has the heading of its entry, and no class inside. -/
theorem ResolvesFunction.matched {enclosing : List ClassEntry} {env : Environment}
    {info : Callable} {params : List Param} {body : Block} {x : Extent} {n : Node}
    (h : c.ResolvesFunction enclosing env info params body x n) :
    n.classes = [] ∧ ∀ kind, n.heading? kind =
      if info.symbol.kind = kind then some info.heading else none := by
  cases h with
  | mk hstmts => exact ⟨hstmts.bare.classesAll_eq_nil, fun kind => rfl⟩

/-- The members of a class match: the classes among them and inside them, the methods, and the
constructors. -/
structure MembersMatch (decls : List Declaration) (methods otherCtors : List Callable)
    (ns : List Node) : Prop where
  classes : Node.classesAll ns = declaredClasses decls
  methods : ns.filterMap (Node.heading? .method) = methods.map Callable.heading
  otherCtors : ns.filterMap (Node.heading? .constructor) = otherCtors.map Callable.heading

/-- A class node whose members match has the parts of its entry. -/
theorem MembersMatch.classes_classDef {info : ClassEntry} {decls : List Declaration}
    {ns : List Node} (h : MembersMatch decls (info.methods.map (·.2)) info.otherCtors ns)
    (numbers : List String) (span : Span) :
    (Node.classDef info.symbol info.ctor ns span).classes =
      declaredClasses (.classType info numbers :: decls) := by
  have hparts : (Node.classDef info.symbol info.ctor ns span).classParts? = some info.toParts := by
    rw [Node.classParts?, h.methods, h.otherCtors, List.map_map]
    rfl
  rw [Node.classes, Node.preorder, List.filterMap_cons_some hparts]
  exact congrArg _ h.classes

theorem MembersMatch.func {decls : List Declaration} {methods otherCtors : List Callable}
    {n : Node} {ns : List Node} {info : Callable} (numbers : List String) (x : Extent)
    (hkind : info.symbol.kind = .method) (hclasses : n.classes = [])
    (hheading : ∀ kind, n.heading? kind =
      if info.symbol.kind = kind then some info.heading else none)
    (hns : MembersMatch decls methods otherCtors ns) :
    MembersMatch (.member info numbers x :: decls) (info :: methods) otherCtors (n :: ns) := by
  have hmethod := hheading .method
  have hctor := hheading .constructor
  rw [hkind] at hmethod hctor
  constructor
  · rw [Node.classesAll_cons, hclasses, hns.classes]
    rfl
  · rw [List.filterMap_cons_some hmethod, hns.methods]
    rfl
  · rw [List.filterMap_cons_none hctor, hns.otherCtors]

theorem MembersMatch.ctor {decls : List Declaration} {methods otherCtors : List Callable}
    {n : Node} {ns : List Node} {info : Callable} (numbers : List String) (x : Extent)
    (hkind : info.symbol.kind = .constructor) (hclasses : n.classes = [])
    (hheading : ∀ kind, n.heading? kind =
      if info.symbol.kind = kind then some info.heading else none)
    (hns : MembersMatch decls methods otherCtors ns) :
    MembersMatch (.member info numbers x :: decls) methods (info :: otherCtors) (n :: ns) := by
  have hmethod := hheading .method
  have hctor := hheading .constructor
  rw [hkind] at hmethod hctor
  constructor
  · rw [Node.classesAll_cons, hclasses, hns.classes]
    rfl
  · rw [List.filterMap_cons_none hmethod, hns.methods]
  · rw [List.filterMap_cons_some hctor, hns.otherCtors]
    rfl

/-- Anything but a method or a constructor. -/
theorem MembersMatch.other (first : List Declaration) {decls : List Declaration}
    {methods otherCtors : List Callable} {n : Node} {ns : List Node}
    (hclasses : n.classes = declaredClasses first) (hheading : ∀ kind, n.heading? kind = none)
    (hns : MembersMatch decls methods otherCtors ns) :
    MembersMatch (first ++ decls) methods otherCtors (n :: ns) := by
  constructor
  · rw [Node.classesAll_cons, hclasses, hns.classes, declaredClasses_append]
  · rw [List.filterMap_cons_none (hheading _), hns.methods]
  · rw [List.filterMap_cons_none (hheading _), hns.otherCtors]

mutual

theorem ResolvesClass.matched {enclosing : List ClassEntry} {env : Environment}
    {outer : Option String} {k : ClassDecl} {n : Node} (hfinds : c.FindsClass outer k) :
    c.ResolvesClass enclosing env k n →
      n.classes = declaredClasses (classDeclarations c.toSite outer k) ∧
        ∀ kind, n.heading? kind = none
  | .mk hinfo hmembers => by
    rw [FindsClass] at hfinds
    obtain ⟨hself, hfinds⟩ := hfinds
    cases hself.symm.trans hinfo
    rw [classDeclarations]
    exact ⟨(hmembers.matched hfinds).classes_classDef _ _, fun kind => rfl⟩

theorem ResolvesMembers.matched {enclosing : List ClassEntry} {info : ClassEntry}
    {env env' : Environment} {owner : String} {index ctors : Nat} {ms : List Member}
    {ns : List Node} (hfinds : c.FindsMembers info owner index ctors ms) :
    c.ResolvesMembers enclosing info env index ms ns env' →
      MembersMatch (memberDeclarations c.toSite owner ctors ms)
        ((methodsOf c.toSite owner ms).map (·.2)) (otherCtorsOf c.toSite owner ctors ms) ns
  | .nil => by
    rw [memberDeclarations]
    exact ⟨rfl, rfl, rfl⟩
  | .func hmethod hfirst hrest => by
    rw [FindsMembers] at hfinds
    cases hfinds.1.symm.trans hmethod
    obtain ⟨hclasses, hheading⟩ := hfirst.matched
    rw [memberDeclarations]
    exact .func _ _ rfl hclasses hheading (hrest.matched hfinds.2)
  | .ctor hctor hfirst hrest => by
    rw [FindsMembers] at hfinds
    cases hfinds.1.symm.trans hctor
    obtain ⟨hclasses, hheading⟩ := hfirst.matched
    rw [memberDeclarations]
    exact .ctor _ _ rfl hclasses hheading (hrest.matched hfinds.2)
  | .classDecl hfirst hrest => by
    rw [FindsMembers] at hfinds
    obtain ⟨hclasses, hheading⟩ := hfirst.matched hfinds.1
    rw [memberDeclarations]
    exact .other _ hclasses hheading (hrest.matched hfinds.2)
  | .stmt hfirst hrest => by
    rw [FindsMembers] at hfinds
    rw [memberDeclarations]
    exact .other [] hfirst.bare.classes_eq_nil hfirst.bare.heading?_eq_none (hrest.matched hfinds)

end

theorem ResolvesItems.matched {env env' : Environment} {items : List Item} {ns : List Node}
    (hfinds : ∀ item ∈ items, c.FindsItem item) (h : c.ResolvesItems env items ns env') :
    Node.classesAll ns = declaredClasses (items.flatMap (itemDeclarations c.toSite)) ∧
      ns.filterMap (Node.heading? .function) =
        ((items.flatMap (itemDeclarations c.toSite)).filterMap Declaration.function?).map
          Callable.heading := by
  induction h with
  | nil => exact ⟨rfl, rfl⟩
  | exception _ ih => exact ih (List.forall_mem_cons.mp hfinds).2
  | func hinfo hfirst _ ih =>
    obtain ⟨hself, hrest⟩ := List.forall_mem_cons.mp hfinds
    cases Eq.trans (Eq.symm hself) hinfo
    obtain ⟨hclasses, hheading⟩ := hfirst.matched
    obtain ⟨hlater, hheadings⟩ := ih hrest
    rw [List.flatMap_cons, declaredClasses_append, List.filterMap_append, List.map_append]
    constructor
    · rw [Node.classesAll_cons, hclasses, hlater]
      rfl
    · rw [List.filterMap_cons_some (hheading .function), hheadings]
      rfl
  | @classDecl env env' k items n ns hfirst _ ih =>
    obtain ⟨hself, hrest⟩ := List.forall_mem_cons.mp hfinds
    obtain ⟨hclasses, hheading⟩ := hfirst.matched hself
    obtain ⟨hlater, hheadings⟩ := ih hrest
    have hnames := (classNames_classDeclarations c.toSite none k).2
    have hfunctions : (itemDeclarations c.toSite (.classDecl k)).filterMap
        Declaration.function? = [] := List.map_eq_nil_iff.mp hnames
    rw [List.flatMap_cons, declaredClasses_append, List.filterMap_append, List.map_append]
    constructor
    · rw [Node.classesAll_cons, hclasses, hlater]
      rfl
    · rw [List.filterMap_cons_none (hheading .function), hheadings, hfunctions]
      rfl
  | stmt hfirst _ ih =>
    obtain ⟨-, hrest⟩ := List.forall_mem_cons.mp hfinds
    obtain ⟨hlater, hheadings⟩ := ih hrest
    rw [List.flatMap_cons, declaredClasses_append, List.filterMap_append, List.map_append]
    constructor
    · rw [Node.classesAll_cons, hfirst.bare.classes_eq_nil, hlater]
      rfl
    · rw [List.filterMap_cons_none (hfirst.bare.heading?_eq_none _), hheadings]
      rfl

end Context

end Typing

section Heads

open CheckedExceptions.Language

/-- What a text says of a definition. Its name has the names of the classes around it in front. -/
structure Language.Head where
  kind : SymbolKind
  name : String
  markers : List MarkerDecl

mutual

/-- The heads of a class, of its primary constructor, and of what is defined inside it, in the order
of the text. The names have `scope` in front. -/
def Language.ClassDecl.heads (scope : String) : ClassDecl → List Head
  | .mk markers name _ ctorMarkers _ members _ =>
    ⟨.classType, scope ++ name, markers⟩ ::
      ⟨.constructor, scope ++ name ++ ".<init>", ctorMarkers⟩ ::
        Member.heads (scope ++ name ++ ".") 0 members

/-- The heads of members after `ctors` constructors. -/
def Language.Member.heads (scope : String) : Nat → List Member → List Head
  | _, [] => []
  | ctors, .func f :: ms => ⟨.method, scope ++ f.name, f.markers⟩ :: Member.heads scope ctors ms
  | ctors, .ctor k :: ms =>
    ⟨.constructor, scope ++ "<init>#" ++ toString (ctors + 1), k.markers⟩ ::
      Member.heads scope (ctors + 1) ms
  | ctors, .classDecl k :: ms => k.heads scope ++ Member.heads scope ctors ms
  | ctors, .stmt _ :: ms => Member.heads scope ctors ms

end

def Language.Item.heads : Item → List Head
  | .func f => [⟨.function, f.name, f.markers⟩]
  | .classDecl k => k.heads ""
  | .exception _ | .stmt _ => []

namespace Typing

/-- A name in a marker stands for the registered type of this name, else for itself. -/
inductive Site.ReadsType (s : Site) (name : String) : TypeRef → Prop
  | resolved (hregistered : s.hierarchy.contains name = true) : ReadsType s name (.resolved ⟨name⟩)
  | raw (hunknown : s.hierarchy.contains name = false) : ReadsType s name (.raw name)

/-- What an argument of a marker stands for. -/
inductive Site.ReadsArg (s : Site) : MarkerArgDecl → MarkerArg → Prop
  | classLiteral {name : String} {type : TypeRef} (htype : s.ReadsType name type) :
      ReadsArg s (.classLiteral name) (.classLiteral type)
  | string {text : String} : ReadsArg s (.string text) (.text (stringValue text))
  | number {digits : String} {n : Nat} (hvalue : numberValue digits = .ok n) :
      ReadsArg s (.number digits) (.number n)
  | name {name : String} : ReadsArg s (.name name) (.text name)

/-- A marker has the name, the type arguments and the arguments that are written down, in order. -/
structure Site.ReadsMarker (s : Site) (decl : MarkerDecl) (marker : Marker) : Prop where
  name : marker.form.name = decl.name
  typeArgs : List.Forall₂ s.ReadsType decl.typeArgs marker.form.typeArgs
  args : List.Forall₂ s.ReadsArg decl.args marker.form.args
  span : marker.span = .ofExtent s.file decl.extent

/-- A symbol has the kind, the name and the markers that the text gives it. -/
structure Site.ReadsHead (s : Site) (head : Head) (symbol : CheckedExceptions.Symbol) : Prop where
  kind : symbol.kind = head.kind
  name : symbol.qualifiedName = head.name
  markers : List.Forall₂ s.ReadsMarker head.markers symbol.markers

namespace Site

variable (s : Site)

theorem readsType_typeRef (name : String) : s.ReadsType name (s.typeRef name) := by
  cases hcontains : s.hierarchy.contains name with
  | true =>
    rw [typeRef, Hierarchy.lookup, if_pos hcontains]
    exact .resolved hcontains
  | false =>
    rw [typeRef, Hierarchy.lookup, if_neg (by rw [hcontains]; exact Bool.false_ne_true)]
    exact .raw hcontains

theorem readsArg_markerArg {arg : MarkerArgDecl}
    (h : ∀ digits, arg.number? = some digits → digits.length ≤ maxDigits) :
    s.ReadsArg arg (s.markerArg arg) := by
  cases arg with
  | classLiteral name => exact .classLiteral (s.readsType_typeRef name)
  | string text => exact .string
  | number digits => exact .number (if_pos (h digits rfl))
  | name name => exact .name

theorem readsMarkers {decls : List MarkerDecl}
    (h : ∀ digits ∈ MarkerDecl.numbersAll decls, digits.length ≤ maxDigits) :
    List.Forall₂ s.ReadsMarker decls (decls.map s.marker) := by
  rw [List.forall₂_map_right_iff, List.forall₂_same]
  intro decl hdecl
  constructor
  · rfl
  · exact List.forall₂_map_right_iff.mpr (List.forall₂_same.mpr fun name _ =>
      s.readsType_typeRef name)
  · refine List.forall₂_map_right_iff.mpr (List.forall₂_same.mpr fun arg harg => ?_)
    refine s.readsArg_markerArg fun digits hdigits => h digits ?_
    exact List.mem_flatMap.mpr ⟨decl, hdecl, List.mem_filterMap.mpr ⟨arg, harg, hdigits⟩⟩
  · rfl

end Site

theorem Readable.cons {decl : Declaration} {decls : List Declaration}
    (h : Readable (decl :: decls)) :
    (∀ digits ∈ decl.numbers, digits.length ≤ maxDigits) ∧ Readable decls :=
  List.forall_mem_cons.mp h

theorem Readable.append {decls decls' : List Declaration} (h : Readable (decls ++ decls')) :
    Readable decls ∧ Readable decls' :=
  List.forall_mem_append.mp h

/-- What stands in front of the names inside a class, or outside all classes. -/
def scopeText (outer : Option String) : String := (outer.map (· ++ ".")).getD ""

theorem qualifiedName_eq (outer : Option String) (name : String) :
    qualifiedName outer name = scopeText outer ++ name := by
  cases outer with
  | none => exact String.empty_append.symm
  | some q => rfl

theorem Site.otherCtor_name (s : Site) (owner : String) (index : Nat) (k : CtorDecl) :
    (s.otherCtor owner index k).symbol.qualifiedName =
      scopeText (some owner) ++ "<init>#" ++ toString index := by
  have hmark : "<init>#" = Site.ctorSuffix ++ "#" := rfl
  rw [hmark, ← String.append_assoc]
  rfl

mutual

theorem readsHeads_classDeclarations (s : Site) :
    ∀ (outer : Option String) (k : ClassDecl), Readable (classDeclarations s outer k) →
      List.Forall₂ s.ReadsHead (k.heads (scopeText outer))
        (declaredSymbols (classDeclarations s outer k))
  | outer, .mk markers name params ctorMarkers parents members extent, h => by
    rw [classDeclarations] at h ⊢
    rw [ClassDecl.heads, ← qualifiedName_eq]
    obtain ⟨hnumbers, hmembers⟩ := h.cons
    rw [Declaration.numbers, MarkerDecl.numbersAll, List.flatMap_append,
      List.forall_mem_append] at hnumbers
    have hctor : (classEntry s outer (.mk markers name params ctorMarkers parents members
        extent)).ctor.qualifiedName = qualifiedName outer name ++ ".<init>" :=
      String.append_assoc
    refine .cons ⟨rfl, rfl, s.readsMarkers hnumbers.1⟩
      (.cons ⟨rfl, hctor, s.readsMarkers hnumbers.2⟩ ?_)
    exact readsHeads_memberDeclarations s _ 0 members hmembers

theorem readsHeads_memberDeclarations (s : Site) :
    ∀ (owner : String) (index : Nat) (members : List Member),
      Readable (memberDeclarations s owner index members) →
      List.Forall₂ s.ReadsHead (Member.heads (scopeText (some owner)) index members)
        (declaredSymbols (memberDeclarations s owner index members))
  | owner, index, [], _ => by
    rw [memberDeclarations, Member.heads]
    exact .nil
  | owner, index, .func f :: ms, h => by
    rw [memberDeclarations] at h ⊢
    rw [Member.heads]
    exact .cons ⟨rfl, rfl, s.readsMarkers h.cons.1⟩
      (readsHeads_memberDeclarations s owner index ms h.cons.2)
  | owner, index, .ctor k :: ms, h => by
    rw [memberDeclarations] at h ⊢
    rw [Member.heads]
    exact .cons ⟨rfl, s.otherCtor_name owner (index + 1) k, s.readsMarkers h.cons.1⟩
      (readsHeads_memberDeclarations s owner (index + 1) ms h.cons.2)
  | owner, index, .classDecl k :: ms, h => by
    rw [memberDeclarations] at h ⊢
    rw [Member.heads, declaredSymbols, List.flatMap_append]
    exact List.rel_append (readsHeads_classDeclarations s (some owner) k h.append.1)
      (readsHeads_memberDeclarations s owner index ms h.append.2)
  | owner, index, .stmt _ :: ms, h => by
    rw [memberDeclarations] at h ⊢
    rw [Member.heads]
    exact readsHeads_memberDeclarations s owner index ms h

end

theorem readsHeads_declarationsOf (s : Site) (items : List Item)
    (h : Readable (items.flatMap (itemDeclarations s))) :
    List.Forall₂ s.ReadsHead (items.flatMap Item.heads)
      (declaredSymbols (items.flatMap (itemDeclarations s))) := by
  induction items with
  | nil => exact .nil
  | cons item items ih =>
    rw [List.flatMap_cons] at h
    obtain ⟨hitem, hitems⟩ := h.append
    rw [List.flatMap_cons, List.flatMap_cons, declaredSymbols, List.flatMap_append]
    refine List.rel_append ?_ (ih hitems)
    cases item with
    | exception _ => exact .nil
    | func f => exact .cons ⟨rfl, rfl, s.readsMarkers hitem.cons.1⟩ .nil
    | classDecl k => exact readsHeads_classDeclarations s none k hitem
    | stmt _ => exact .nil

end Typing

end Heads

/-- The definitions in the tree of a program are its declarations. -/
structure TypedProgram.Matches (program : TypedProgram) (s : Typing.Site) (p : Language.Program) :
    Prop where
  /-- In the order of the text they define the declared symbols, and nothing else in the tree
  defines anything. -/
  symbols : program.unit.preorder.flatMap Node.ownSymbols = program.declarations.symbols
  declared : ∀ n, program.unit.Inside n → n.ownSymbols ⊆ program.declarations.symbols
  /-- No two of the symbols have the same name, -/
  distinct : (program.declarations.symbols.map (·.qualifiedName)).Nodup
  /-- and all have the kinds, the names and the markers that the text gives them. -/
  heads : List.Forall₂ s.ReadsHead (p.items.flatMap Language.Item.heads)
    program.declarations.symbols
  /-- The functions and the classes of the tree are the declared ones, with the same parts, -/
  functions : program.unit.children.filterMap (Node.heading? .function) =
    program.declarations.functions.map Typing.Callable.heading
  classes : program.unit.classes = program.declarations.classes.map Typing.ClassEntry.toParts
  /-- each of them is found under its name, -/
  function? : ∀ f ∈ program.declarations.functions,
    program.declarations.function? f.symbol.qualifiedName = some f
  class? : ∀ info ∈ program.declarations.classes,
    program.declarations.class? info.name = some info
  /-- and where a function, a class, a method or a constructor stands in the text, its own entry is
  found. -/
  found : ∀ item ∈ p.items, Typing.Context.FindsItem ⟨s, program.declarations⟩ item

/-- Resolving a program puts into its tree what declaring its names has put into its tables. -/
theorem passes_agree {file : Option String} {p : Language.Program} {h h' : Hierarchy}
    {program : TypedProgram} (htyped : Typing.typeProgram file p h = .ok program h') :
    program.Matches ⟨file, h'⟩ p := by
  obtain ⟨-, hresolve⟩ := Typing.typeProgram_inv htyped
  obtain ⟨hdeclarations, -, ⟨body, span, env, hbody, hunit⟩, -⟩ := Typing.resolveProgram_ok hresolve
  obtain ⟨hsymbols, hclasses, hfunctions⟩ := Typing.Declarations.ofProgram_ok hdeclarations
  obtain ⟨-, -, hreadable⟩ := Typing.Declarations.ofProgram_ok_iff.mp ⟨_, hdeclarations⟩
  have hfinds := Typing.Context.finds_of_ofProgram hdeclarations
  obtain ⟨hmatch, hheadings⟩ := hbody.matched hfinds
  have hdefined : program.unit.preorder.flatMap Node.ownSymbols = program.declarations.symbols := by
    rw [Node.ownSymbols_preorder, Typing.definedSymbols_of_resolveProgram hresolve]
  constructor
  case symbols => exact hdefined
  case declared =>
    intro n hn symbol hsymbol
    have hpresent : n ≠ .absent := by
      rintro rfl
      cases hsymbol
    rw [← hdefined]
    exact List.mem_flatMap.mpr ⟨n, Node.mem_preorder_of_inside hn hpresent, hsymbol⟩
  case distinct => exact (Typing.Declarations.distinct_of_ofProgram hdeclarations).symbols
  case heads =>
    rw [hsymbols]
    exact Typing.readsHeads_declarationsOf ⟨file, h'⟩ p.items hreadable
  case functions =>
    rw [hunit, hfunctions]
    exact hheadings
  case classes =>
    rw [hunit, hclasses]
    exact hmatch
  case function? => exact fun f => Typing.Declarations.function?_of_mem hdeclarations
  case class? => exact fun info => Typing.Declarations.class?_of_mem hdeclarations
  case found => exact hfinds

/-- A function and methods of one name, in two classes of which one is inside the other, and
constructors in both of them. The markers name types that are registered and one that is not, and
have arguments of every form. -/
def overloaded : Language.Program :=
  let nowhere : Language.Extent := .nowhere
  let throws (types : List String) : Language.MarkerDecl := ⟨"throws", types, [], nowhere⟩
  let suppress (args : List Language.MarkerArgDecl) : Language.MarkerDecl :=
    ⟨"suppress", [], args, nowhere⟩
  let param (name : String) : Language.Param := ⟨name, "Exception"⟩
  let method (markers : List Language.MarkerDecl) : Language.FuncDecl :=
    ⟨markers, "open", [], none, .mk [] nowhere, nowhere, by decide⟩
  let ctor (markers : List Language.MarkerDecl) (params : List Language.Param) : Language.Member :=
    .ctor ⟨markers, params, .mk [] nowhere, nowhere⟩
  let inner : Language.ClassDecl := .mk [] "B" [] [throws ["Exception"]] []
    [.func (method []),
      ctor [suppress [.string "\"a \\\"b\\\"\"", .number "042"]] [param "x"]] nowhere
  let outer : Language.ClassDecl := .mk [suppress [.name "all"]] "A" [param "x"] [] []
    [.func (method [throws ["IOException", "Lost"], suppress []]),
      ctor [suppress [.classLiteral "Exception", .classLiteral "Lost"]] [], .classDecl inner,
      ctor [] [param "x", param "y"]] nowhere
  ⟨[.func (method [throws ["FileNotFoundException"]]), .classDecl outer], none⟩

/-- The names and the markers of the definitions of the tree. -/
def Node.markedNames (n : Node) : List (String × List MarkerForm) :=
  (n.preorder.flatMap Node.ownSymbols).map fun symbol =>
    (symbol.qualifiedName, symbol.markers.map (·.form))

/-- The names and the markers of the program above. -/
def overloadedNames : List (String × List MarkerForm) :=
  [("open", [⟨"throws", [.resolved ⟨"FileNotFoundException"⟩], []⟩]),
    ("A", [⟨"suppress", [], [.text "all"]⟩]),
    ("A.<init>", []),
    ("A.open", [⟨"throws", [.resolved ⟨"IOException"⟩, .raw "Lost"], []⟩, ⟨"suppress", [], []⟩]),
    ("A.<init>#1", [⟨"suppress", [],
      [.classLiteral (.resolved ⟨"Exception"⟩), .classLiteral (.raw "Lost")]⟩]),
    ("A.B", []),
    ("A.B.<init>", [⟨"throws", [.resolved ⟨"Exception"⟩], []⟩]),
    ("A.B.open", []),
    ("A.B.<init>#1", [⟨"suppress", [], [.text "a \"b\"", .number 42]⟩]),
    ("A.<init>#2", [])]

theorem passes_agree_of_overloaded :
    ∃ (program : TypedProgram) (h' : Hierarchy),
      Typing.typeProgram none overloaded .builtin = .ok program h' ∧
        program.unit.markedNames = overloadedNames ∧ program.Matches ⟨none, h'⟩ overloaded := by
  have hnames : Typing.typedAs (fun program => program.unit.markedNames = overloadedNames)
      (Typing.typeProgram none overloaded .builtin) = true := by decide +kernel
  cases hrun : Typing.typeProgram none overloaded .builtin with
  | error e h' =>
    rw [hrun] at hnames
    cases hnames
  | ok program h' =>
    rw [hrun] at hnames
    exact ⟨program, h', rfl, of_decide_eq_true hnames, passes_agree hrun⟩

end CheckedExceptions
