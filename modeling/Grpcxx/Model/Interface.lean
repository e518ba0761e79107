import Grpcxx.Lib.Cpp
import Grpcxx.Model.Std

/-!
# What a header means

The services that a header declares, for whoever includes it: an alias of a `grpcxx::rpc` names an rpc in the
namespace it stands in, and an alias of a `grpcxx::service` puts such rpcs together. The paths of types are
read, and not looked up. This is not in the source, which only writes headers.
-/

namespace Grpcxx.Interface

open Cpp

/-- A type as it is written: the words of its path. -/
abbrev Path := List Bytes

structure Rpc where
  method : Bytes
  input : Path
  output : Path
  deriving DecidableEq, Repr

/-- A service, and the namespaces in which its alias stands. -/
structure Service where
  scope : List Bytes
  name : Bytes
  rpcs : List Rpc
  deriving DecidableEq, Repr

/-- The aliases, with their namespaces: an rpc, or something else. -/
abbrev Scopes := List ((List Bytes × Bytes) × Option Rpc)

def word (s : String) : Token := .word (lit s)

def mark (c : Char) : Token := .mark c.toNat.toUInt8

/-- `using name =`, and what follows. -/
def usingAs : List Token → Option (Bytes × List Token)
  | kw :: .word name :: eq :: ts => if kw = word "using" ∧ eq = mark '=' then some (name, ts) else none
  | _ => none

/-- `grpcxx::template<"name"`, and what follows. -/
def instanceOf (template : String) (ts : List Token) : Option (Bytes × List Token) :=
  match [word "grpcxx", mark ':', mark ':', word template, mark '<'].isPrefixOf? ts with
  | some (.text name :: ts) => some (name, ts)
  | _ => none

/-- A path, and what follows. -/
def path : List Token → Option (Path × List Token)
  | .word w :: .mark 0x3a :: .mark 0x3a :: ts =>
    if isName w then (path ts).map fun r => (w :: r.1, r.2) else none
  | .word w :: ts => if isName w then some ([w], ts) else none
  | _ => none

/-- `, input, output>` -/
def types (ts : List Token) : Option (Path × Path) := do
  let ts ← [mark ','].isPrefixOf? ts
  let (input, ts) ← path ts
  let ts ← [mark ','].isPrefixOf? ts
  let (output, ts) ← path ts
  if ts = [mark '>'] then some (input, output) else none

/-- `, alias, …>` -/
def aliases : List Token → Option (List Bytes)
  | sep :: .word name :: ts => if sep = mark ',' then (aliases ts).map (name :: ·) else none
  | ts => if ts = [mark '>'] then some [] else none

def rpcOf (ts : List Token) : Option Rpc :=
  (instanceOf "rpc" ts).bind fun r => (types r.2).map fun t => ⟨r.1, t.1, t.2⟩

/-- The name of a service, and the aliases of its rpcs. -/
def serviceOf (ts : List Token) : Option (Bytes × List Bytes) :=
  (instanceOf "service" ts).bind fun r => (aliases r.2).map fun names => (r.1, names)

/-- One of these namespaces would be found in place of the library's, or of the standard library's. -/
def hides (scope : List Bytes) : Bool := scope.any fun name => name = lit "grpcxx" || name = lit "std"

/-- An alias is looked up where it is used, and is not declared twice there. Structs are passed over. -/
def declare (env : Scopes) (d : Declaration) : Option (Scopes × List Service) :=
  if hides d.scope then none
  else
    match usingAs d.tokens with
    | none => some (env, [])
    | some (name, ts) =>
      if !isName name || (env.lookup (d.scope, name)).isSome then none
      else
        match rpcOf ts with
        | some rpc => some (env ++ [((d.scope, name), some rpc)], [])
        | none => do
          let (fullName, names) ← serviceOf ts
          let rpcs ← names.mapM fun name => (env.lookup (d.scope, name)).join
          return (env ++ [((d.scope, name), none)], [⟨d.scope, fullName, rpcs⟩])

/-- The services that the text of a header declares, one after the other. -/
def services (text : Bytes) : Option (List Service) :=
  (declarations text).bind fun ds => (Transducer.feed declare [] ds).map (·.2)

end Grpcxx.Interface
