import Grpcxx.Model.Std

/-!
# `Grpcxx::Generate`

The protoc plugin. It writes a header with one namespace for each service, inside the
namespaces of the package. The text is kept as the list of pieces that `Generate` formats,
`Piece.text` is each one's format string. A loop that does not end and a `substr` that
throws are outcomes (`Stop`). `google::protobuf::compiler::StripProto` is a parameter of the text.
-/

namespace Grpcxx

/-! ## Strings -/

/-- Why `Generate` does not return. -/
inductive Stop
  /-- `std::out_of_range`, from `substr` -/
  | out_of_range
  /-- a loop goes on for ever -/
  | diverges
  deriving DecidableEq, Repr

namespace Bytes

/-- `substr(pos, n)` with its check of `pos`; `none` for `n` is `npos`. -/
def substrChecked (s : Bytes) (pos : ℕ) (n : Option ℕ) : Except Stop Bytes :=
  if s.length < pos then .error .out_of_range
  else
    match n with
    | some n => .ok (s.substr pos n)
    | none => .ok (s.drop pos)

/-- `rfind(c, pos)`: the last `c` at `pos` or before it; `none` is `npos`. -/
def rfind (s : Bytes) (c : UInt8) (pos : Option ℕ) : Option ℕ :=
  let t := match pos with
    | some pos => s.take (pos + 1)
    | none => s
  (t.reverse.findIdx? (· == c)).map fun i => t.length - 1 - i

end Bytes

/-- `.`, as a byte -/
def dot : UInt8 := '.'.toNat.toUInt8

/-! ## Descriptors -/

/-- `MethodDescriptor`, with the full names of its types -/
structure MethodDescriptor where
  name : Bytes
  input_type : Bytes
  output_type : Bytes
  deriving DecidableEq, Repr

structure ServiceDescriptor where
  name : Bytes
  methods : List MethodDescriptor
  deriving DecidableEq, Repr

structure FileDescriptor where
  name : Bytes
  package : Bytes
  services : List ServiceDescriptor
  deriving DecidableEq, Repr

/-! ## The output -/

/-- What `Generate` appends to its output. -/
inductive Piece
  | prologue (file : Bytes)
  | newline
  | namespaceOpen (name : Bytes)
  | rpc (name input output : Bytes)
  | service (fullName : Bytes) (rpcs : List Bytes)
  | serviceImpl
  | namespaceClose (name : Bytes)
  deriving DecidableEq, Repr

section Text

variable (PLUGIN_NAME PLUGIN_VERSION : Bytes) (StripProto : Bytes → Bytes)

def Piece.text : Piece → Bytes
  | prologue file =>
    lit "// Code generated by " ++ PLUGIN_NAME ++ lit ".\n// Versions:\n//   - " ++ PLUGIN_NAME ++
      lit ": v" ++ PLUGIN_VERSION ++ lit "\n// Source: " ++ file ++
      lit "\n\n#pragma once\n\n#include <grpcxx/rpc.h>\n#include <grpcxx/service.h>\n\n#include \"" ++
      StripProto file ++ lit ".pb.h\"\n"
  | newline => lit "\n"
  | namespaceOpen name => lit "namespace " ++ name ++ lit " \x7b\n"
  | rpc name input output =>
    lit "using rpc" ++ name ++ lit " = grpcxx::rpc<\"" ++ name ++ lit "\", " ++ input ++ lit ", " ++
      output ++ lit ">;\n\n"
  | service fullName rpcs =>
    lit "using Service = grpcxx::service<\"" ++ fullName ++ lit "\"" ++
      rpcs.flatMap (fun rpc => lit ", " ++ rpc) ++ lit ">;\n\n"
  | serviceImpl =>
    lit "struct ServiceImpl \x7b\n\ttemplate <typename T>\n\ttypename T::result_type call(" ++
      lit "grpcxx::context &, const typename T::request_type &) \x7b\n" ++
      lit "\t\treturn \x7bgrpcxx::status::code_t::unimplemented, std::nullopt\x7d;\n\t\x7d\n\x7d;\n"
  | namespaceClose name => lit "\x7d // namespace " ++ name ++ lit "\n"

/-- The file written, and what is written to it. -/
def written (file : FileDescriptor) (output : List Piece) : Bytes × Bytes :=
  (StripProto file.name ++ lit ".grpcxx.pb.h", output.flatMap (Piece.text PLUGIN_NAME PLUGIN_VERSION StripProto))

end Text

/-! ## `Generate` -/

/-- The loop over `find('.', start)`: the parts before each dot, and the part after the last. -/
def parts (s : Bytes) : ℕ → ℕ → Option ℕ → Except Stop (List Bytes × Bytes)
  | 0, _, _ => .error .diverges
  | _ + 1, start, none => do
    let last ← s.substrChecked start none
    return ([], last)
  | fuel + 1, start, some pos => do
    let part ← s.substrChecked start (some (pos - start))
    let start := pos + 1
    let r ← parts s fuel start (s.find dot start)
    return (part :: r.1, r.2)

/-- `pos - 1`, where `0 - 1` is `npos` -/
def before : ℕ → Option ℕ
  | 0 => none
  | pos + 1 => some pos

/-- `end + 1`, where `npos + 1` is `0` -/
def after : Option ℕ → ℕ
  | none => 0
  | some pos => pos + 1

/-- The loop over `rfind('.', end)` that closes the namespaces. -/
def closing (package : Bytes) : ℕ → Option ℕ → Option ℕ → Except Stop (List Bytes)
  | 0, _, _ => .error .diverges
  | _ + 1, last, none => do
    let first ← package.substrChecked 0 (some (after last))
    return [first]
  | fuel + 1, last, some pos => do
    let part ← package.substrChecked (pos + 1) (last.map (· - pos))
    let last := before pos
    let rest ← closing package fuel last (package.rfind dot last)
    return part :: rest

/-- The names of the namespaces opened. A loop with more turns than the string has characters,
and one more, goes on for ever. -/
def opened (package : Bytes) : Except Stop (List Bytes) := do
  let r ← parts package (package.length + 1) 0 (package.find dot 0)
  return r.1 ++ [r.2]

/-- The names of the namespaces closed. -/
def closed (package : Bytes) : Except Stop (List Bytes) :=
  closing package (package.length + 1) (some package.length) (package.rfind dot none)

/-- The name that `mapper` goes through: what starts with the package loses it, and one character
more. -/
def stripped (package full_name : Bytes) : Except Stop Bytes :=
  if !package.isEmpty && full_name.startsWith package then
    full_name.substrChecked (package.length + 1) none
  else .ok full_name

/-- `mapper` -/
def mapper (package full_name : Bytes) : Except Stop Bytes := do
  let name ← stripped package full_name
  let r ← parts name (name.length + 1) 0 (name.find dot 0)
  return r.1.flatMap (· ++ lit "::") ++ r.2

def rpcPiece (package : Bytes) (method : MethodDescriptor) : Except Stop Piece := do
  let input ← mapper package method.input_type
  let output ← mapper package method.output_type
  return .rpc method.name input output

/-- The name in the instance of `grpcxx::service`. -/
def serviceName (package name : Bytes) : Bytes :=
  package ++ (if package.isEmpty then [] else lit ".") ++ name

def servicePieces (package : Bytes) (service : ServiceDescriptor) : Except Stop (List Piece) := do
  let rpcs ← service.methods.mapM (rpcPiece package)
  return .namespaceOpen service.name :: rpcs ++
    [.service (serviceName package service.name) (service.methods.map fun m => lit "rpc" ++ m.name),
      .serviceImpl, .namespaceClose service.name]

/-- What comes before the services if there is a package. -/
def packageOpen (package : Bytes) : Except Stop (List Piece) :=
  if package.isEmpty then .ok []
  else (opened package).map fun names => .newline :: names.map .namespaceOpen

/-- What comes after them. -/
def packageClose (package : Bytes) : Except Stop (List Piece) :=
  if package.isEmpty then .ok [] else (closed package).map fun names => names.map .namespaceClose

/-- `Generate(file)` -/
def Generate (file : FileDescriptor) : Except Stop (List Piece) := do
  let head ← packageOpen file.package
  let services ← file.services.mapM (servicePieces file.package)
  let tail ← packageClose file.package
  return .prologue file.name :: head ++ services.flatten ++ tail

/-! ## What the output declares -/

/-- A `Service` of the output: its name, and the names of its rpcs. -/
structure Emitted where
  name : Bytes
  methods : List Bytes
  deriving DecidableEq, Repr

/-- The services that the output declares. The rpcs of a service are named by aliases declared
before it in its namespace. -/
def emitted : List (Bytes × Bytes) → List Piece → List Emitted
  | _, [] => []
  | _, .namespaceOpen _ :: ps => emitted [] ps
  | aliases, .rpc name _ _ :: ps => emitted (aliases ++ [(lit "rpc" ++ name, name)]) ps
  | aliases, .service fullName rpcs :: ps =>
    ⟨fullName, rpcs.filterMap fun rpc => aliases.lookup rpc⟩ :: emitted aliases ps
  | aliases, .prologue _ :: ps | aliases, .newline :: ps | aliases, .serviceImpl :: ps
  | aliases, .namespaceClose _ :: ps => emitted aliases ps

end Grpcxx
