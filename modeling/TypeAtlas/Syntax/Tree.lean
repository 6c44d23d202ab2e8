/-! Concrete syntax trees of source files. A node has a kind, the field by which its parent knows it,
its source text and line, and its children in order; named nodes are those that a grammar rule
names, the others are bare tokens. -/

namespace TypeAtlas.Syntax

/-- The kinds of node that matter for declarations; any other is known by its name alone. -/
inductive NodeKind
  | packageDeclaration
  | importDeclaration
  | classDeclaration
  | recordDeclaration
  | interfaceDeclaration
  | annotationTypeDeclaration
  | enumDeclaration
  | scopedIdentifier
  | identifier
  | asterisk
  | staticKeyword
  | superclass
  | superInterfaces
  | extendsInterfaces
  | typeList
  | enumConstant
  | enumBodyDeclarations
  | fieldDeclaration
  | constantDeclaration
  | methodDeclaration
  | annotationTypeElementDeclaration
  | constructorDeclaration
  | compactConstructorDeclaration
  | variableDeclarator
  | formalParameter
  | spreadParameter
  | modifiers
  | throws
  | typeParameter
  | typeBound
  | integralType
  | floatingPointType
  | booleanType
  | voidType
  | typeIdentifier
  | scopedTypeIdentifier
  | genericType
  | arrayType
  | annotatedType
  | typeArguments
  | wildcard
  | superKeyword
  | openBracket
  | lineComment
  | blockComment
  | annotationUse
  | markerAnnotationUse
  | other (name : String)
  deriving DecidableEq

namespace NodeKind

def name : NodeKind → String
  | .packageDeclaration => "package_declaration"
  | .importDeclaration => "import_declaration"
  | .classDeclaration => "class_declaration"
  | .recordDeclaration => "record_declaration"
  | .interfaceDeclaration => "interface_declaration"
  | .annotationTypeDeclaration => "annotation_type_declaration"
  | .enumDeclaration => "enum_declaration"
  | .scopedIdentifier => "scoped_identifier"
  | .identifier => "identifier"
  | .asterisk => "asterisk"
  | .staticKeyword => "static"
  | .superclass => "superclass"
  | .superInterfaces => "super_interfaces"
  | .extendsInterfaces => "extends_interfaces"
  | .typeList => "type_list"
  | .enumConstant => "enum_constant"
  | .enumBodyDeclarations => "enum_body_declarations"
  | .fieldDeclaration => "field_declaration"
  | .constantDeclaration => "constant_declaration"
  | .methodDeclaration => "method_declaration"
  | .annotationTypeElementDeclaration => "annotation_type_element_declaration"
  | .constructorDeclaration => "constructor_declaration"
  | .compactConstructorDeclaration => "compact_constructor_declaration"
  | .variableDeclarator => "variable_declarator"
  | .formalParameter => "formal_parameter"
  | .spreadParameter => "spread_parameter"
  | .modifiers => "modifiers"
  | .throws => "throws"
  | .typeParameter => "type_parameter"
  | .typeBound => "type_bound"
  | .integralType => "integral_type"
  | .floatingPointType => "floating_point_type"
  | .booleanType => "boolean_type"
  | .voidType => "void_type"
  | .typeIdentifier => "type_identifier"
  | .scopedTypeIdentifier => "scoped_type_identifier"
  | .genericType => "generic_type"
  | .arrayType => "array_type"
  | .annotatedType => "annotated_type"
  | .typeArguments => "type_arguments"
  | .wildcard => "wildcard"
  | .superKeyword => "super"
  | .openBracket => "["
  | .lineComment => "line_comment"
  | .blockComment => "block_comment"
  | .annotationUse => "annotation"
  | .markerAnnotationUse => "marker_annotation"
  | .other name => name

def ofName : String → NodeKind
  | "package_declaration" => .packageDeclaration
  | "import_declaration" => .importDeclaration
  | "class_declaration" => .classDeclaration
  | "record_declaration" => .recordDeclaration
  | "interface_declaration" => .interfaceDeclaration
  | "annotation_type_declaration" => .annotationTypeDeclaration
  | "enum_declaration" => .enumDeclaration
  | "scoped_identifier" => .scopedIdentifier
  | "identifier" => .identifier
  | "asterisk" => .asterisk
  | "static" => .staticKeyword
  | "superclass" => .superclass
  | "super_interfaces" => .superInterfaces
  | "extends_interfaces" => .extendsInterfaces
  | "type_list" => .typeList
  | "enum_constant" => .enumConstant
  | "enum_body_declarations" => .enumBodyDeclarations
  | "field_declaration" => .fieldDeclaration
  | "constant_declaration" => .constantDeclaration
  | "method_declaration" => .methodDeclaration
  | "annotation_type_element_declaration" => .annotationTypeElementDeclaration
  | "constructor_declaration" => .constructorDeclaration
  | "compact_constructor_declaration" => .compactConstructorDeclaration
  | "variable_declarator" => .variableDeclarator
  | "formal_parameter" => .formalParameter
  | "spread_parameter" => .spreadParameter
  | "modifiers" => .modifiers
  | "throws" => .throws
  | "type_parameter" => .typeParameter
  | "type_bound" => .typeBound
  | "integral_type" => .integralType
  | "floating_point_type" => .floatingPointType
  | "boolean_type" => .booleanType
  | "void_type" => .voidType
  | "type_identifier" => .typeIdentifier
  | "scoped_type_identifier" => .scopedTypeIdentifier
  | "generic_type" => .genericType
  | "array_type" => .arrayType
  | "annotated_type" => .annotatedType
  | "type_arguments" => .typeArguments
  | "wildcard" => .wildcard
  | "super" => .superKeyword
  | "[" => .openBracket
  | "line_comment" => .lineComment
  | "block_comment" => .blockComment
  | "annotation" => .annotationUse
  | "marker_annotation" => .markerAnnotationUse
  | name => .other name

/-- Comments and annotations may stand between the parts of any type. -/
def isIgnored : NodeKind → Bool
  | .lineComment | .blockComment | .annotationUse | .markerAnnotationUse => true
  | _ => false

end NodeKind

structure Tree where
  kind : NodeKind
  isNamed : Bool
  field : Option String
  text : String
  /-- The line on which the node starts, from 1. -/
  line : Nat
  children : List Tree

namespace Tree

def child? (t : Tree) (field : String) : Option Tree :=
  t.children.find? (·.field == some field)

def namedChildren (t : Tree) : List Tree := t.children.filter (·.isNamed)

/-- Whether a node is part of what it stands in, and no comment or annotation. -/
def isPart (t : Tree) : Bool := t.isNamed && !t.kind.isIgnored

/-- The named children that are neither comments nor annotations. -/
def parts (t : Tree) : List Tree := t.children.filter (·.isPart)

def hasChild (t : Tree) (kind : NodeKind) : Bool := t.children.any (·.kind == kind)

theorem sizeOf_lt_of_mem_children {t c : Tree} (h : c ∈ t.children) : sizeOf c < sizeOf t := by
  obtain ⟨kind, isNamed, field, text, line, children⟩ := t
  have : sizeOf c < sizeOf children := List.sizeOf_lt_of_mem h
  simp only [Tree.mk.sizeOf_spec]
  omega

theorem sizeOf_lt_of_mem_parts {t c : Tree} (h : c ∈ t.parts) : sizeOf c < sizeOf t :=
  sizeOf_lt_of_mem_children ((List.mem_filter.mp h).1)

theorem sizeOf_lt_of_child? {t c : Tree} {field : String} (h : t.child? field = some c) :
    sizeOf c < sizeOf t :=
  sizeOf_lt_of_mem_children (List.mem_of_find?_eq_some h)

end Tree
end TypeAtlas.Syntax
