import Mathlib.Data.Prod.Lex
import Mathlib.Order.Lattice.Nat
import McpCli.Daemon.ParseCache
import McpCli.Daemon.Skeleton
import McpCli.Listing.ByKey
import McpCli.Text.Utf8
import McpCli.Text.Words

/-! The `code.outline` and `code.symbols` methods: what the outline query of a language captures. -/

namespace McpCli

/-- What the outline of a Rust file shows. -/
def rustOutline : String := "
(function_item name: (identifier) @name) @def.function
(struct_item name: (type_identifier) @name) @def.struct
(enum_item name: (type_identifier) @name) @def.enum
(trait_item name: (type_identifier) @name) @def.trait
(mod_item name: (identifier) @name) @def.module
(type_item name: (type_identifier) @name) @def.type
(const_item name: (identifier) @name) @def.constant
(static_item name: (identifier) @name) @def.constant
(macro_definition name: (identifier) @name) @def.macro
(impl_item type: (type_identifier) @name) @def.impl
"

/-- What the outline of a Python file shows. A decorated definition is one twice. -/
def pythonOutline : String := "
(function_definition name: (identifier) @name) @def.function
(class_definition name: (identifier) @name) @def.class
(decorated_definition
  definition: (function_definition name: (identifier) @name)) @def.function
(decorated_definition
  definition: (class_definition name: (identifier) @name)) @def.class
"

/-- What the outline of a C file shows. -/
def cOutline : String := "
(function_definition declarator: (function_declarator declarator: (identifier) @name)) @def.function
(function_definition declarator: (pointer_declarator declarator: (function_declarator declarator: (identifier) @name))) @def.function
(struct_specifier name: (type_identifier) @name) @def.struct
(enum_specifier name: (type_identifier) @name) @def.enum
(union_specifier name: (type_identifier) @name) @def.union
(type_definition declarator: (type_identifier) @name) @def.type
(preproc_def name: (identifier) @name) @def.macro
(preproc_function_def name: (identifier) @name) @def.macro
"

/-- What the outline of a C++ file shows. -/
def cppOutline : String := "
(function_definition declarator: (function_declarator declarator: (identifier) @name)) @def.function
(function_definition declarator: (function_declarator declarator: (field_identifier) @name)) @def.method
(function_definition declarator: (function_declarator declarator: (qualified_identifier) @name)) @def.method
(class_specifier name: (type_identifier) @name) @def.class
(struct_specifier name: (type_identifier) @name) @def.struct
(enum_specifier name: (type_identifier) @name) @def.enum
(union_specifier name: (type_identifier) @name) @def.union
(namespace_definition name: (namespace_identifier) @name) @def.namespace
(type_definition declarator: (type_identifier) @name) @def.type
(alias_declaration name: (type_identifier) @name) @def.type
(preproc_def name: (identifier) @name) @def.macro
(preproc_function_def name: (identifier) @name) @def.macro
"

/-- What the outline of a TypeScript file shows. -/
def tsOutline : String := "
(function_declaration name: (identifier) @name) @def.function
(class_declaration name: (type_identifier) @name) @def.class
(interface_declaration name: (type_identifier) @name) @def.interface
(type_alias_declaration name: (type_identifier) @name) @def.type
(enum_declaration name: (identifier) @name) @def.enum
(method_definition name: (property_identifier) @name) @def.method
(public_field_definition name: (property_identifier) @name) @def.field
"

/-- What the outline of a Go file shows. A group of constants matches once for each of them. -/
def goOutline : String := "
(function_declaration name: (identifier) @name) @def.function
(method_declaration name: (field_identifier) @name) @def.method
(type_declaration (type_spec name: (type_identifier) @name)) @def.type
(const_declaration (const_spec name: (identifier) @name)) @def.constant
(var_declaration (var_spec name: (identifier) @name)) @def.variable
"

/-- The outline query of a language. -/
def Language.outlineQuery : Language → String
  | .rust => rustOutline
  | .python => pythonOutline
  | .c => cOutline
  | .cpp => cppOutline
  | .typeScript | .tsx => tsOutline
  | .go => goOutline

/-- A node of the tree of a parsed file. -/
structure Node where
  id : Nat
  kind : String
  /-- What the node is to its parent, if that has a name. -/
  field : Option String
  named : Bool
  startByte : Nat
  endByte : Nat
  /-- Rows are counted from 0. -/
  startRow : Nat
  endRow : Nat
  children : List Node

/-- A node that a query captures, under the name that the query gives it. -/
structure Capture where
  name : String
  node : Node

/-- The third-party queries, which yield matches on a tree if they can be compiled. -/
structure TreeQueries (Tree : Type) where
  compile : Language → String → Except String (Tree → List UInt8 → List (List Capture))

/-- The text of a node, if its bytes are one. -/
def Node.utf8Text (node : Node) (source : List UInt8) : Option String :=
  (Text.decodeUtf8 ((source.drop node.startByte).take (node.endByte - node.startByte))).map
    String.ofList

/-- The kinds of nodes that a body begins with. -/
def bodyKinds : List String :=
  ["block", "statement_block", "compound_statement", "field_declaration_list",
    "ordered_field_declaration_list", "enum_variant_list", "enumerator_list", "declaration_list",
    "class_body", "interface_body", "object_type", "enum_body", "macro_rule"]

/-- Where the first body below a node starts, if there is one so many levels down. -/
def Node.dfs : (depth : Nat) → Node → Option Nat
  | 0, _ => none
  | depth + 1, node =>
    (node.children.filter Node.named).findSome? fun child =>
      if child.kind ∈ bodyKinds then some child.startByte else dfs depth child

/-- Where the body of a declaration starts, if it has one. -/
def findBodyStart (node : Node) : Option Nat :=
  match node.children.find? fun child => child.field = some "body" with
  | some body => some body.startByte
  | none => node.dfs 4

/-- The end of a text comes first here. Open delimiters and the white space in front of them go. -/
def dropOpen : List Char → List Char
  | [] => []
  | c :: front =>
    if c = '\x7b' ∨ c = '(' ∨ c = '[' then dropOpen (front.dropWhile Text.isWhitespace)
    else c :: front
  termination_by text => text.length
  decreasing_by exact Nat.lt_succ_of_le (List.dropWhile_sublist _).length_le

/-- The head of a declaration, on one line. -/
def extractSignature (node : Node) (source : List UInt8) : String :=
  let start := node.startByte
  let body := findBodyStart node
  let stop := match body with
    | some b => if start < b then b else node.endByte
    | none => node.endByte
  let slice := if start ≤ stop ∧ stop ≤ source.length then (source.drop start).take (stop - start)
    else []
  let text := (Text.decodeUtf8 slice).getD []
  -- Without a body, the rest of a constant is not part of its head.
  let candidate := if body.isNone then text.takeWhile fun c => c ≠ '\n' else text
  let out := [' '].intercalate (Text.splitWhitespace candidate)
  String.ofList (dropOpen out.reverse).reverse

/-- What a captured node is to the outline. -/
inductive CaptureMeta where
  /-- It is a whole declaration. -/
  | defn (kind : String)
  /-- It is the name of one. -/
  | name
  deriving DecidableEq, Repr

/-- The kinds of declarations. -/
def defKinds : List String :=
  ["function", "method", "struct", "enum", "class", "trait", "interface", "module", "namespace",
    "type", "constant", "variable", "macro", "impl", "union", "field"]

/-- What is captured under a name, if it is anything to the outline. -/
def CaptureMeta.fromCaptureName (name : String) : Option CaptureMeta :=
  if name = "name" then some .name
  else (defKinds.find? fun kind => name = "def." ++ kind).map .defn

/-- An entry of the outline with all that is known of it. -/
structure OutlineEntry extends CodeOutlineEntry where
  kind : String
  signature : Option String
  deriving DecidableEq, Repr

/-- What an outline is sorted by. -/
def CodeOutlineEntry.bytes (entry : CodeOutlineEntry) : ℕ ×ₗ ℕ :=
  toLex (entry.startByte, entry.endByte)

/-- What the captures of a match have given so far. -/
structure Captured where
  defNode : Option Node
  defKind : Option String
  nameText : Option String

/-- One pass of the loop over the captures of a match. -/
def Captured.add (source : List UInt8) (captured : Captured) (cap : Capture) : Captured :=
  match CaptureMeta.fromCaptureName cap.name with
  | none => captured
  | some (.defn kind) => { captured with defNode := some cap.node, defKind := some kind }
  | some .name =>
    match cap.node.utf8Text source with
    | some text => { captured with nameText := some text }
    -- A name that is no text is passed over.
    | none => captured

/-- The entry of a declaration. -/
def outlineEntry (source : List UInt8) (signatures : Bool) (node : Node) (kind name : String) :
    OutlineEntry where
  kind := kind
  name := name
  startByte := node.startByte
  endByte := node.endByte
  -- Rows count from zero, lines from one.
  startLine := node.startRow + 1
  endLine := node.endRow + 1
  signature := if signatures then some (extractSignature node source) else none

/-- The entry of a match, if a declaration and its name were captured. -/
def matchEntry (source : List UInt8) (signatures : Bool) (captures : List Capture) :
    Option OutlineEntry :=
  match captures.foldl (Captured.add source) ⟨none, none, none⟩ with
  | ⟨some node, some kind, some name⟩ => some (outlineEntry source signatures node kind name)
  | _ => none

variable {Tree : Type} (libs : TreeQueries Tree)

/-- The entries of a parsed file. -/
def outline (parsed : ParsedFile Tree) (signatures : Bool) : Except RpcError (List OutlineEntry) :=
  match libs.compile parsed.language parsed.language.outlineQuery with
  | .error e => .error { code := -32040, message := s!"outline query: {e}" }
  | .ok query =>
    let out := (query parsed.tree parsed.source).filterMap (matchEntry parsed.source signatures)
    -- Entries with the same bytes are one declaration that was captured twice.
    .ok (Listing.uniqueByKey (fun entry => entry.bytes) out)

/-- The names in a list of entries, each one where it is seen first. -/
def entryNames (entries : List OutlineEntry) : List String :=
  entries.foldl (fun names entry =>
    if entry.name ∈ names then names else names ++ [entry.name]) []

/-- The names of what a parsed file declares. -/
def symbols (parsed : ParsedFile Tree) : Except RpcError (List String) :=
  (outline libs parsed false).map entryNames

end McpCli
