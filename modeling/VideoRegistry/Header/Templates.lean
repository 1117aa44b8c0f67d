import VideoRegistry.Template

/-!
# The texts of the header

The fixed text of the generated header, with a slot for everything that comes
from the registry or the configuration.  Every frame stands as the segments that
its source text is read as.
-/

namespace VideoRegistry

/-- The segments of a source text that is given by its characters. -/
theorem Template.parse_ofList (source : List Char) :
    parse (String.ofList source) = parseFrom source := by
  rw [parse, String.toList_ofList]

namespace Header

def frame : Template :=
  [.slot "copyright", .text "\n\n#ifndef ", .slot "guard", .text "\n#define ",
    .slot "guard", .text "\n\n", .slot "includes", .text "\n\n#if !defined( ",
    .slot "videoNamespace", .text " )\n#  define ", .slot "videoNamespace",
    .text " ", .slot "videoNamespaceDefault", .text "\n#endif\n\nnamespace ",
    .slot "namespace", .text "\n\x7b\nnamespace ", .slot "videoNamespace",
    .text "\n\x7b\n", .slot "enums", .text "\n", .slot "structs",
    .text "\n\x7d   // namespace ", .slot "videoNamespace",
    .text "\n\x7d   // namespace ", .slot "namespace", .text "\n#endif\n"]

set_option maxRecDepth 10000 in
theorem parse_frame : Template.parse "$\x7bcopyright\x7d

\x23ifndef $\x7bguard\x7d
\x23define $\x7bguard\x7d

$\x7bincludes\x7d

\x23if !defined( $\x7bvideoNamespace\x7d )
\x23  define $\x7bvideoNamespace\x7d $\x7bvideoNamespaceDefault\x7d
\x23endif\n\nnamespace $\x7bnamespace\x7d
\x7b\nnamespace $\x7bvideoNamespace\x7d
\x7b
$\x7benums\x7d
$\x7bstructs\x7d
\x7d   // namespace $\x7bvideoNamespace\x7d
\x7d   // namespace $\x7bnamespace\x7d
\x23endif
" = frame := by
  refine (Template.parse_ofList _).trans ?_
  cbv

def enumsFrame : Template :=
  [.text "\n  //=============\n  //=== ENUMs ===\n  //=============\n\n",
    .slot "enums", .text "\n"]

theorem parse_enumsFrame : Template.parse "
  //=============
  //=== ENUMs ===
  //=============

$\x7benums\x7d
" = enumsFrame := by
  refine (Template.parse_ofList _).trans ?_
  cbv

def enumFrame : Template :=
  [.text "  enum class ", .slot "enumName", .text "\n  \x7b",
    .slot "enumValues", .text "\x7d;\n"]

theorem parse_enumFrame : Template.parse "  enum class $\x7benumName\x7d
  \x7b$\x7benumValues\x7d\x7d;
" = enumFrame := by
  refine (Template.parse_ofList _).trans ?_
  cbv

def structsFrame : Template :=
  [.text "\n  //===============\n  //=== STRUCTS ===\n  //===============\n\n",
    .slot "structs", .text "\n"]

theorem parse_structsFrame : Template.parse "
  //===============
  //=== STRUCTS ===
  //===============

$\x7bstructs\x7d
" = structsFrame := by
  refine (Template.parse_ofList _).trans ?_
  cbv

def structFrame : Template :=
  [.text "  struct ", .slot "structureType",
    .text "\n  \x7b\n    using NativeType = ", .slot "nativeType",
    .text ";\n\n    operator ", .slot "nativeType",
    .text " const &() const VULKAN_HPP_NOEXCEPT
    \x7b
      return *reinterpret_cast<const ", .slot "nativeType",
    .text "*>( this );\n    \x7d\n\n    operator ", .slot "nativeType",
    .text " &() VULKAN_HPP_NOEXCEPT
    \x7b
      return *reinterpret_cast<", .slot "nativeType",
    .text "*>( this );\n    \x7d\n", .slot "compareOperators",
    .text "\n    public:\n", .slot "members", .text "\n  \x7d;\n"]

set_option maxRecDepth 10000 in
theorem parse_structFrame : Template.parse "  struct $\x7bstructureType\x7d
  \x7b
    using NativeType = $\x7bnativeType\x7d;

    operator $\x7bnativeType\x7d const &() const VULKAN_HPP_NOEXCEPT
    \x7b
      return *reinterpret_cast<const $\x7bnativeType\x7d*>( this );
    \x7d

    operator $\x7bnativeType\x7d &() VULKAN_HPP_NOEXCEPT
    \x7b
      return *reinterpret_cast<$\x7bnativeType\x7d*>( this );
    \x7d
$\x7bcompareOperators\x7d
    public:
$\x7bmembers\x7d
  \x7d;
" = structFrame := by
  refine (Template.parse_ofList _).trans ?_
  cbv

def compareFrame : Template :=
  [.text "\n    bool operator==( ", .slot "name",
    .text " const & rhs ) const VULKAN_HPP_NOEXCEPT\n    \x7b\n      return ",
    .slot "compareMembers", .text ";\n    \x7d\n\n    bool operator!=( ",
    .slot "name", .text " const & rhs ) const VULKAN_HPP_NOEXCEPT
    \x7b
      return !operator==( rhs );
    \x7d
"]

set_option maxRecDepth 10000 in
theorem parse_compareFrame : Template.parse "
    bool operator==( $\x7bname\x7d const & rhs ) const VULKAN_HPP_NOEXCEPT
    \x7b
      return $\x7bcompareMembers\x7d;
    \x7d

    bool operator!=( $\x7bname\x7d const & rhs ) const VULKAN_HPP_NOEXCEPT
    \x7b
      return !operator==( rhs );
    \x7d
" = compareFrame := by
  refine (Template.parse_ofList _).trans ?_
  cbv

end Header

end VideoRegistry
