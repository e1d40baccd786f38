/-!
Scopes: what a function, lambda, comprehension or class binds, declares and looks up. A scope is
the list of its findings in the order of the source; everything else is a view of that list.
-/
namespace Excerpt

inductive ScopeKind
  | function
  | lambda
  | comprehension
  | classBody
deriving DecidableEq, Repr

/-- A name that is looked up. -/
structure NameRef where
  name : String
  line : Nat
deriving DecidableEq, Repr

mutual
inductive Scope
  | mk (kind : ScopeKind) (findings : List Finding)
inductive Finding
  | bind (name : String)
  /-- Bound by `:=`; in a comprehension the name belongs to the scope around it. -/
  | walrus (name : String)
  | declareGlobal (name : String)
  | declareNonlocal (name : String)
  | load (ref : NameRef)
  | inner (scope : Scope)
end

instance : Inhabited Finding := ⟨.bind ""⟩

namespace Finding

/-- The name bound in a scope of the given kind. -/
def bound? (kind : ScopeKind) : Finding → Option String
  | .bind name => some name
  | .walrus name => if kind = .comprehension then none else some name
  | _ => none

/-- The name that leaves a scope of the given kind. -/
def escaping? (kind : ScopeKind) : Finding → Option String
  | .walrus name => if kind = .comprehension then some name else none
  | _ => none

def global? : Finding → Option String
  | .declareGlobal name => some name
  | _ => none

def nonlocal? : Finding → Option String
  | .declareNonlocal name => some name
  | _ => none

def load? : Finding → Option NameRef
  | .load ref => some ref
  | _ => none

end Finding

/-- The names of a scope, without what it looks up. -/
structure Frame where
  kind : ScopeKind
  bindings : List String
  globals : List String
  nonlocals : List String
deriving DecidableEq, Repr

namespace Frame

/-- Names that every scope of the kind has. -/
def implicit (kind : ScopeKind) (name : String) : Bool :=
  match kind with
  | .function => name == "__class__"
  | .classBody => name == "__module__" || name == "__qualname__" || name == "__annotations__"
  | .lambda | .comprehension => false

/-- Whether the frame itself has the name. -/
def binds (f : Frame) (name : String) : Bool :=
  f.bindings.contains name || f.nonlocals.contains name

/-- Whether one of the frames around has the name, nearest first. Bodies of classes are not seen
from inside, and a global declaration ends the search. -/
def enclosed (name : String) : List Frame → Bool
  | [] => false
  | f :: fs =>
    if f.kind = .classBody then enclosed name fs
    else if f.globals.contains name then false
    else f.binds name || enclosed name fs

/-- Whether a name that is looked up in `f` is found there or in the frames around it. -/
def resolves (isModuleName : String → Bool) (around : List Frame) (f : Frame) (name : String) : Bool :=
  if f.globals.contains name then isModuleName name
  else f.binds name || implicit f.kind name || enclosed name around || isModuleName name

end Frame

namespace Scope

def kind : Scope → ScopeKind
  | .mk k _ => k

def findings : Scope → List Finding
  | .mk _ fs => fs

def bindings (s : Scope) : List String := s.findings.filterMap (Finding.bound? s.kind)

def escaping (s : Scope) : List String := s.findings.filterMap (Finding.escaping? s.kind)

def globals (s : Scope) : List String := s.findings.filterMap Finding.global?

def nonlocals (s : Scope) : List String := s.findings.filterMap Finding.nonlocal?

def loads (s : Scope) : List NameRef := s.findings.filterMap Finding.load?

def frame (s : Scope) : Frame := ⟨s.kind,s.bindings,s.globals,s.nonlocals⟩

mutual
/-- The names that a scope or one inside it both binds and declares global. -/
def globalStores : Scope → List String
  | .mk k fs =>
    let bound := fs.filterMap (Finding.bound? k)
    (fs.filterMap Finding.global?).filter bound.contains ++ innerStores fs
def innerStores : List Finding → List String
  | [] => []
  | .inner s :: fs => globalStores s ++ innerStores fs
  | _ :: fs => innerStores fs
end

mutual
/-- The names that are looked up in vain: those of the scope itself, then those of the scopes
inside it. -/
def unresolved (isModuleName : String → Bool) (around : List Frame) : Scope → List NameRef
  | .mk k fs =>
    let own := frame (.mk k fs)
    (fs.filterMap Finding.load?).filter (fun ref => !own.resolves isModuleName around ref.name) ++
      innerUnresolved isModuleName (own :: around) fs
def innerUnresolved (isModuleName : String → Bool) (around : List Frame) :
    List Finding → List NameRef
  | [] => []
  | .inner s :: fs => unresolved isModuleName around s ++ innerUnresolved isModuleName around fs
  | _ :: fs => innerUnresolved isModuleName around fs
end

end Scope

end Excerpt
