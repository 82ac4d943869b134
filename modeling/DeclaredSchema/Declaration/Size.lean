import DeclaredSchema.Declaration

/-!
# How large a file is

The size of a type expression counts the expressions in it, itself included. The size of a file
counts its declarations and the expressions in them. No walk that visits an expression or a
declaration at most once on its way is longer.
-/

namespace DeclaredSchema

mutual

def TypeExpr.size : TypeExpr → Nat
  | .keyword _ | .literal _ => 1
  | .reference _ arguments _ => sizeOfTypes arguments + 1
  | .array element => element.size + 1
  | .union members => sizeOfTypes members + 1
  | .object members _ => sizeOfProperties members + 1
  | .function parameters result => sizeOfParameters parameters + result.size + 1

def sizeOfTypes : List TypeExpr → Nat
  | [] => 0
  | e :: rest => e.size + sizeOfTypes rest

def sizeOfProperties : List (Property TypeExpr) → Nat
  | [] => 0
  | p :: rest => Property.size p + sizeOfProperties rest

def Property.size : Property TypeExpr → Nat
  | ⟨_, type, _, _, _, _⟩ => type.size

def sizeOfParameters : List (Parameter TypeExpr) → Nat
  | [] => 0
  | p :: rest => Parameter.size p + sizeOfParameters rest

def Parameter.size : Parameter TypeExpr → Nat
  | ⟨_, type, _⟩ => type.size

end

def Declaration.size : Declaration → Nat
  | .interface d => sizeOfProperties d.members + 1
  | .typeAlias d => d.type.size + 1
  | .enumeration _ => 1

def SourceUnit.size (u : SourceUnit) : Nat := u.declarations.foldr (fun d n => d.size + n) 0

end DeclaredSchema
